import Sfz.Proofs.PlayerMap.Answers

/-! Answers written in place.

An answer can also be written over the last one, field by field: the mark that it is valid is taken
away first, and is set again once everything else is written. That comes to the same as replacing
the answer as a whole, so of an earlier answer either everything is left, without the mark, or
nothing.
-/

set_option autoImplicit false

namespace Sfz

namespace PlayInfo

def unmark (info : PlayInfo) : PlayInfo :=
  { info with valid := false }

@[simp] theorem update_unmark (info : PlayInfo) (sound? : Option Sound) :
    info.unmark.update sound? = info.update sound? := by
  cases sound? <;> rfl

def heard? (info : PlayInfo) : Option Sound :=
  if info.valid then some info.sound else none

@[simp] theorem heard?_update (info : PlayInfo) (sound? : Option Sound) :
    (info.update sound?).heard? = sound? := by
  cases sound? <;> rfl

end PlayInfo

namespace Voicing

def writeTo (voicing : Voicing) (info : PlayInfo) (velocity : Int) : PlayInfo :=
  match voicing.gain? velocity with
  | none => info.unmark
  | some gain =>
    let info := { info with sound.sampleIndex := voicing.sampleIndex }
    let info := { info with sound.needsTranspose := voicing.needsTranspose }
    let info := { info with sound.transposeRatio := voicing.transposeRatio }
    let info := { info with sound.ampegRelease := voicing.ampegRelease }
    let info := { info with sound.loopMode := voicing.loopMode }
    let info := { info with sound.gain := gain }
    { info with valid := true }

-- The fields written one by one are all the fields there are.
theorem writeTo_eq_update (voicing : Voicing) (info : PlayInfo) (velocity : Int) :
    voicing.writeTo info velocity = info.update (voicing.sound? velocity) := by
  rw [writeTo, sound?]
  cases voicing.gain? velocity <;> rfl

def atGain (voicing : Voicing) (gain : Float32) : Sound :=
  { sampleIndex := voicing.sampleIndex
    needsTranspose := voicing.needsTranspose
    transposeRatio := voicing.transposeRatio
    gain
    ampegRelease := voicing.ampegRelease
    loopMode := voicing.loopMode }

theorem sound?_eq_some_iff {voicing : Voicing} {velocity : Int} {sound : Sound} :
    voicing.sound? velocity = some sound ↔
      ∃ gain, voicing.gain? velocity = some gain ∧ voicing.atGain gain = sound :=
  Option.map_eq_some_iff

end Voicing

variable {σ : Type} [DrawSource σ]

def RoundRobin.playInPlace (player : RoundRobin) (info : PlayInfo) (query : Query) :
    PlayInfo × RoundRobin :=
  let info := info.unmark
  if player.finalized then
    match player.entries[player.cursor]? with
    | none => (info, player)
    | some entry =>
      (entry.voicing.writeTo info query.velocity,
        { player with cursor := (player.cursor + 1) % player.entries.size })
  else
    (info, player)

def WeightedRandom.playInPlace (player : WeightedRandom σ) (info : PlayInfo) (query : Query) :
    PlayInfo × WeightedRandom σ :=
  let info := info.unmark
  if player.finalized && !player.entries.isEmpty then
    let (draw, source) := DrawSource.draw player.source
    match select? player.entries draw with
    | none => (info, { player with source })
    | some entry => (entry.voicing.writeTo info query.velocity, { player with source })
  else
    (info, player)

def Player.playInPlace (player : Player σ) (info : PlayInfo) (query : Query) :
    PlayInfo × Player σ :=
  let info := info.unmark
  match player with
  | silent => (info, silent)
  | single only => (only.voicing.writeTo info query.velocity, player)
  | weightedRandom random =>
    let (info, random) := random.playInPlace info query
    (info, weightedRandom random)
  | roundRobin turns =>
    let (info, turns) := turns.playInPlace info query
    (info, roundRobin turns)

def Layer.playFirstInPlace (info : PlayInfo) (query : Query) :
    List (Layer σ) → PlayInfo × List (Layer σ)
  | [] => (info, [])
  | layer :: rest =>
    if layer.contains query.velocity then
      let (info, player) := layer.player.playInPlace info query
      (info, { layer with player } :: rest)
    else
      let (info, rest) := playFirstInPlace info query rest
      (info, layer :: rest)

def PlayerMap.playInPlace (map : PlayerMap σ) (info : PlayInfo) (query : Query) :
    PlayInfo × PlayerMap σ :=
  let info := info.unmark
  if 1 ≤ query.velocity ∧ query.velocity ≤ 127 then
    if midi : 0 ≤ query.pitch ∧ query.pitch < pitchCount then
      have bound := Query.pitch_lt midi
      let (info, layers) := Layer.playFirstInPlace info query map.pitches[query.pitch.toNat]
      (info, { pitches := map.pitches.set query.pitch.toNat layers })
    else
      (info, map)
  else
    (info, map)

section Replaced

variable (info : PlayInfo) (query : Query)

theorem RoundRobin.playInPlace_eq (player : RoundRobin) :
    player.playInPlace info query =
      (info.update (player.play query).1, (player.play query).2) := by
  unfold playInPlace play
  split
  · cases player.entries[player.cursor]? with
    | none => rfl
    | some entry => simp only [Voicing.writeTo_eq_update, PlayInfo.update_unmark]
  · rfl

theorem WeightedRandom.playInPlace_eq (player : WeightedRandom σ) :
    player.playInPlace info query =
      (info.update (player.play query).1, (player.play query).2) := by
  unfold playInPlace play
  split
  · obtain ⟨draw, source⟩ := DrawSource.draw player.source
    dsimp only
    cases select? player.entries draw with
    | none => rfl
    | some entry =>
      simp only [Voicing.writeTo_eq_update, PlayInfo.update_unmark, Option.bind_some]
  · rfl

theorem Player.playInPlace_eq (player : Player σ) :
    player.playInPlace info query = player.playInto info query := by
  unfold playInPlace playInto play
  cases player with
  | silent => rfl
  | single only => simp only [Voicing.writeTo_eq_update, PlayInfo.update_unmark]
  | weightedRandom random =>
    simp only [WeightedRandom.playInPlace_eq, PlayInfo.update_unmark]
  | roundRobin turns => simp only [RoundRobin.playInPlace_eq, PlayInfo.update_unmark]

-- Where no layer answers, the mark has been taken away before.
theorem Layer.playFirstInPlace_eq (layers : List (Layer σ)) :
    playFirstInPlace info.unmark query layers =
      (info.update (playFirst query layers).1, (playFirst query layers).2) := by
  induction layers with
  | nil => rfl
  | cons layer rest ih =>
    rw [playFirstInPlace, playFirst]
    split
    · simp only [Player.playInPlace_eq, Player.playInto, PlayInfo.update_unmark]
    · simp only [ih]

theorem PlayerMap.playInPlace_eq (map : PlayerMap σ) :
    map.playInPlace info query = map.playInto info query := by
  unfold playInPlace playInto play
  split
  · split
    · simp only [Layer.playFirstInPlace_eq]
    · rfl
  · rfl

end Replaced

def Player.voicings : Player σ → List Voicing
  | silent => []
  | single only => [only.voicing]
  | weightedRandom random => random.entries.toList.map WeightedRandom.Entry.voicing
  | roundRobin turns => turns.entries.toList.map RoundRobin.Entry.voicing

def PlayerMap.voicings (map : PlayerMap σ) (query : Query) : List Voicing :=
  match (map.layers query.pitch).find? fun layer => layer.contains query.velocity with
  | none => []
  | some layer => layer.player.voicings

section Voicings

variable {query : Query} {sound : Sound}

theorem RoundRobin.exists_entry {player : RoundRobin}
    (played : (player.play query).1 = some sound) :
    ∃ entry ∈ player.entries.toList, entry.voicing.sound? query.velocity = some sound := by
  unfold play at played
  split at played
  · cases upcoming : player.entries[player.cursor]? with
    | none =>
      rw [upcoming] at played
      cases played
    | some entry =>
      rw [upcoming] at played
      exact ⟨entry, (Array.mem_of_getElem? upcoming).val, played⟩
  · cases played

theorem WeightedRandom.exists_entry {player : WeightedRandom σ}
    (played : (player.play query).1 = some sound) :
    ∃ entry ∈ player.entries.toList, entry.voicing.sound? query.velocity = some sound := by
  unfold play at played
  split at played
  · obtain ⟨entry, selected, sounds⟩ := Option.bind_eq_some_iff.mp played
    exact ⟨entry, (Array.mem_of_find?_eq_some selected).val, sounds⟩
  · cases played

theorem Player.exists_voicing {player : Player σ} (played : (player.play query).1 = some sound) :
    ∃ voicing ∈ player.voicings, voicing.sound? query.velocity = some sound := by
  cases player with
  | silent => cases played
  | single only => exact ⟨only.voicing, List.mem_singleton_self _, played⟩
  | weightedRandom random =>
    obtain ⟨entry, member, sounds⟩ := WeightedRandom.exists_entry played
    exact ⟨entry.voicing, List.mem_map_of_mem member, sounds⟩
  | roundRobin turns =>
    obtain ⟨entry, member, sounds⟩ := RoundRobin.exists_entry played
    exact ⟨entry.voicing, List.mem_map_of_mem member, sounds⟩

theorem Layer.exists_voicing {layers : List (Layer σ)}
    (played : (playFirst query layers).1 = some sound) :
    ∃ layer, (layers.find? fun layer => layer.contains query.velocity) = some layer ∧
      ∃ voicing ∈ layer.player.voicings, voicing.sound? query.velocity = some sound := by
  induction layers with
  | nil => cases played
  | cons layer rest ih =>
    rw [playFirst] at played
    rw [List.find?_cons]
    by_cases contains : layer.contains query.velocity
    · rw [if_pos contains] at played
      rw [contains]
      exact ⟨layer, rfl, Player.exists_voicing played⟩
    · rw [if_neg contains] at played
      rw [Bool.eq_false_iff.mpr contains]
      exact ih played

theorem PlayerMap.exists_voicing {map : PlayerMap σ} (played : (map.play query).1 = some sound) :
    ∃ voicing ∈ map.voicings query, voicing.sound? query.velocity = some sound := by
  unfold play at played
  split at played
  · split at played
    · next inRange =>
      obtain ⟨layer, found, sounds⟩ := Layer.exists_voicing played
      have layers : map.layers query.pitch = map.pitches[query.pitch.toNat] := by
        rw [PlayerMap.layers, dif_pos inRange]
        rfl
      rw [voicings, layers, found]
      exact sounds
    · cases played
  · cases played

end Voicings

/-- What an answer, written over any earlier one, leaves: a single voicing at the gain of the
velocity, or the earlier answer without the mark. The state afterwards is the same either way. -/
structure Unmixed {π : Type} (voicings : List Voicing) (velocity : Int)
    (answer : PlayInfo → PlayInfo × π) : Prop where
  state (first second : PlayInfo) : (answer first).2 = (answer second).2
  whole :
    (∃ voicing ∈ voicings, ∃ gain, voicing.gain? velocity = some gain ∧
      ∀ info, (answer info).1 = { valid := true, sound := voicing.atGain gain }) ∨
    ∀ info, (answer info).1 = { valid := false, sound := info.sound }

theorem Unmixed.of_update {π : Type} {voicings : List Voicing} {velocity : Int}
    {sound? : Option Sound} {state : π}
    (voiced : ∀ sound, sound? = some sound →
      ∃ voicing ∈ voicings, voicing.sound? velocity = some sound) :
    Unmixed voicings velocity fun info => (info.update sound?, state) where
  state _ _ := rfl
  whole := by
    cases sound? with
    | none => exact .inr fun _ => rfl
    | some sound =>
      obtain ⟨voicing, member, sounds⟩ := voiced sound rfl
      obtain ⟨gain, gained, rfl⟩ := Voicing.sound?_eq_some_iff.mp sounds
      exact .inl ⟨voicing, member, gain, gained, fun _ => rfl⟩

section Reuse

variable {π : Type}

/-- The answers to queries, each written over the last, and the state after them. -/
def reuse (play : π → PlayInfo → Query → PlayInfo × π) (state : π) (info : PlayInfo) :
    List Query → List PlayInfo × π
  | [] => ([], state)
  | query :: rest =>
    let (info, state) := play state info query
    let (infos, state) := reuse play state info rest
    (info :: infos, state)

/-- The answers to queries, each written over something of its own. -/
def renew (play : π → PlayInfo → Query → PlayInfo × π) (state : π) :
    List (Query × PlayInfo) → List PlayInfo × π
  | [] => ([], state)
  | (query, info) :: rest =>
    let (info, state) := play state info query
    let (infos, state) := renew play state rest
    (info :: infos, state)

theorem heard?_reuse {play : π → PlayInfo → Query → PlayInfo × π}
    {answer : π → Query → Option Sound × π}
    (replaces : ∀ state info query,
      play state info query = (info.update (answer state query).1, (answer state query).2))
    (calls : List (Query × PlayInfo)) (state : π) (info : PlayInfo) :
    (reuse play state info (calls.map (·.1))).1.map PlayInfo.heard? =
        (renew play state calls).1.map PlayInfo.heard? ∧
      (reuse play state info (calls.map (·.1))).2 = (renew play state calls).2 := by
  induction calls generalizing state info with
  | nil => exact ⟨rfl, rfl⟩
  | cons call rest ih =>
    obtain ⟨query, other⟩ := call
    obtain ⟨heard, after⟩ := ih (answer state query).2 (info.update (answer state query).1)
    simp only [List.map_cons, reuse, renew, replaces, PlayInfo.heard?_update, heard, after,
      and_self]

end Reuse

/-- Answers written in place are those of replacing the answer as a whole. None of them mixes a
sound with an earlier one, in whatever state the player or the map is, and a series of them heard
through one record is heard the same through a record for each. -/
theorem PlayerMap.playInPlace_unmixed :
    (∀ (player : Player σ) (info : PlayInfo) (query : Query),
      player.playInPlace info query = player.playInto info query) ∧
    (∀ (map : PlayerMap σ) (info : PlayInfo) (query : Query),
      map.playInPlace info query = map.playInto info query) ∧
    (∀ (player : Player σ) (query : Query),
      Unmixed player.voicings query.velocity fun info => player.playInPlace info query) ∧
    (∀ (map : PlayerMap σ) (query : Query),
      Unmixed (map.voicings query) query.velocity fun info => map.playInPlace info query) ∧
    (∀ (player : Player σ) (info : PlayInfo) (calls : List (Query × PlayInfo)),
      (reuse Player.playInPlace player info (calls.map (·.1))).1.map PlayInfo.heard? =
          (renew Player.playInPlace player calls).1.map PlayInfo.heard? ∧
        (reuse Player.playInPlace player info (calls.map (·.1))).2 =
          (renew Player.playInPlace player calls).2) ∧
    (∀ (map : PlayerMap σ) (info : PlayInfo) (calls : List (Query × PlayInfo)),
      (reuse PlayerMap.playInPlace map info (calls.map (·.1))).1.map PlayInfo.heard? =
          (renew PlayerMap.playInPlace map calls).1.map PlayInfo.heard? ∧
        (reuse PlayerMap.playInPlace map info (calls.map (·.1))).2 =
          (renew PlayerMap.playInPlace map calls).2) := by
  refine ⟨fun player info query => player.playInPlace_eq info query,
    fun map info query => map.playInPlace_eq info query, ?_, ?_, ?_, ?_⟩
  · intro player query
    simp only [Player.playInPlace_eq]
    exact .of_update fun sound played => Player.exists_voicing played
  · intro map query
    simp only [PlayerMap.playInPlace_eq]
    exact .of_update fun sound played => PlayerMap.exists_voicing played
  · intro player info calls
    apply heard?_reuse
    exact fun state info query => state.playInPlace_eq info query
  · intro map info calls
    apply heard?_reuse
    exact fun state info query => state.playInPlace_eq info query

end Sfz

import Sfz.Proofs.Checked
import Sfz.Proofs.Instrument.Bounds
import Sfz.Proofs.Lexer.Cuts
import Sfz.Proofs.PlayerMap.Answers

/-! Building and playing with all operands checked.

The functions here do what those of the players do, with the partial operations among them checked:
the distance of a pitch from a keycenter, the turn of a sequence and the table of gains. On the map
of a loaded instrument, after any queries, the checks find nothing: the keycenter of a region that
has passed its own checks is no further from a pitch than MIDI keys are from each other, and a
cursor is the remainder of a number of turns by the number of entries, which is not zero.
-/

set_option autoImplicit false

namespace Sfz

section Building

def Region.InReach (region : Region) (pitch : Int) : Prop :=
  region.keycenter = -1 ∨ -127 ≤ pitch - region.keycenter ∧ pitch - region.keycenter ≤ 127

def Region.semitonesChecked (region : Region) (pitch : Int) : Checked Int :=
  if region.keycenter = -1 then .ok 0 else Checked.difference pitch region.keycenter

def Voicing.ofRegionChecked (region : Region) (pitch : Int) (sampleIndex : Nat) :
    Checked Voicing := do
  let semitones ← region.semitonesChecked pitch
  return {
    semitones
    transposeRatio := Sfz.transposeRatio semitones
    sampleIndex
    ampegRelease := region.ampegRelease
    ampVeltrack := region.ampVeltrack
    loopMode := region.loopMode
    gains := Vector.ofFn fun velocity => velocityGain (velocity.val : Int) region.ampVeltrack }

def RoundRobin.Entry.ofRegionChecked (region : Region) (pitch : Int) (sampleIndex : Nat) :
    Checked Entry := do
  let voicing ← Voicing.ofRegionChecked region pitch sampleIndex
  return { voicing, seqPosition := region.seqPosition }

def RoundRobin.ofZonesChecked (zones : List Zone) (pitch : Int) : Checked RoundRobin := do
  let entries ← zones.mapM fun zone => Entry.ofRegionChecked zone.region pitch zone.sampleIndex
  return finalize { entries := entries.toArray }

def WeightedRandom.Entry.ofRegionChecked (region : Region) (pitch : Int) (sampleIndex : Nat) :
    Checked Entry := do
  let voicing ← Voicing.ofRegionChecked region pitch sampleIndex
  return { voicing, upper := clamp 0 1 region.hiRand }

variable {σ : Type}

def WeightedRandom.ofZonesChecked (source : σ) (zones : List Zone) (pitch : Int) :
    Checked (WeightedRandom σ × List Warning) := do
  let entries ← zones.mapM fun zone => Entry.ofRegionChecked zone.region pitch zone.sampleIndex
  return finalize { entries := entries.toArray, source }

def Player.ofZonesChecked (source : σ) (zones : List Zone) (pitch : Int) :
    Checked (Player σ × List Warning) :=
  match zones with
  | [] => return (silent, [])
  | [zone] => do
    let voicing ← Voicing.ofRegionChecked zone.region pitch zone.sampleIndex
    return (single { voicing, line := zone.region.line }, [])
  | zones =>
    if zones.any fun zone => zone.region.isRoundRobin then do
      let player ← RoundRobin.ofZonesChecked zones pitch
      return (roundRobin player, [])
    else do
      let (player, warnings) ← WeightedRandom.ofZonesChecked source zones pitch
      return (weightedRandom player, warnings)

def Layer.ofCellChecked (source : σ) (cell : Cell) (pitch : Int) :
    Checked (Layer σ × List Warning) := do
  let (player, warnings) ← Player.ofZonesChecked source cell.zones.toList pitch
  return ({ loVel := cell.loVel, hiVel := cell.hiVel, player }, warnings)

def PlayerMap.buildChecked (source : Nat → Nat → σ) (instrument : Instrument) :
    Checked (PlayerMap σ × List Warning) := do
  let built ← Vector.ofFnM fun pitch : Fin pitchCount =>
    (instrument.cells pitch.val).zipIdx.mapM fun (cell, layer) =>
      Layer.ofCellChecked (source pitch.val layer) cell pitch.val
  return ({ pitches := built.map fun layers => layers.map (·.1) },
    built.toList.flatMap fun layers => layers.flatMap (·.2))

section Region

variable {region : Region} {pitch : Int} (reach : region.InReach pitch) (sampleIndex : Nat)
include reach

theorem Voicing.ofRegionChecked_eq :
    ofRegionChecked region pitch sampleIndex = .ok (ofRegion region pitch sampleIndex) := by
  have semitones : region.semitonesChecked pitch = .ok (region.semitones pitch) := by
    unfold Region.semitonesChecked Region.semitones
    split
    · rfl
    · next keycenter => exact if_pos (reach.resolve_left keycenter)
  rw [ofRegionChecked, semitones]
  rfl

theorem RoundRobin.Entry.ofRegionChecked_eq :
    ofRegionChecked region pitch sampleIndex = .ok (ofRegion region pitch sampleIndex) := by
  rw [ofRegionChecked, Voicing.ofRegionChecked_eq reach]
  rfl

theorem WeightedRandom.Entry.ofRegionChecked_eq :
    ofRegionChecked region pitch sampleIndex = .ok (ofRegion region pitch sampleIndex) := by
  rw [ofRegionChecked, Voicing.ofRegionChecked_eq reach]
  rfl

end Region

section Zones

variable {zones : List Zone} {pitch : Int} (reach : ∀ zone ∈ zones, zone.region.InReach pitch)
include reach

theorem RoundRobin.ofZonesChecked_eq :
    ofZonesChecked zones pitch = .ok (ofZones zones pitch) := by
  have entries := Checked.mapM_eq_ok fun zone member =>
    Entry.ofRegionChecked_eq (reach zone member) zone.sampleIndex
  rw [ofZonesChecked, entries]
  rfl

theorem WeightedRandom.ofZonesChecked_eq (source : σ) :
    ofZonesChecked source zones pitch = .ok (ofZones source zones pitch) := by
  have entries := Checked.mapM_eq_ok fun zone member =>
    Entry.ofRegionChecked_eq (reach zone member) zone.sampleIndex
  rw [ofZonesChecked, entries]
  rfl

theorem Player.ofZonesChecked_eq (source : σ) :
    ofZonesChecked source zones pitch = .ok (ofZones source zones pitch) := by
  rcases zones with _ | ⟨only, _ | ⟨second, rest⟩⟩
  · rfl
  · rw [ofZonesChecked, Voicing.ofRegionChecked_eq (reach only List.mem_cons_self)]
    rfl
  · simp only [ofZonesChecked, ofZones, RoundRobin.ofZonesChecked_eq reach,
      WeightedRandom.ofZonesChecked_eq reach]
    split <;> rfl

end Zones

theorem Layer.ofCellChecked_eq {cell : Cell} {pitch : Int}
    (reach : ∀ zone ∈ cell.zones.toList, zone.region.InReach pitch) (source : σ) :
    ofCellChecked source cell pitch = .ok (ofCell source cell pitch) := by
  rw [ofCellChecked, Player.ofZonesChecked_eq reach]
  rfl

theorem Instrument.mem_zones_of_cells {instrument : Instrument} {pitch : Int} {cell : Cell}
    (inCells : cell ∈ instrument.cells pitch) {zone : Zone} (inCell : zone ∈ cell.zones.toList) :
    zone ∈ instrument.zones := by
  rw [instrument.cells_eq] at inCells
  obtain ⟨range, -, rfl⟩ := List.mem_map.mp inCells
  rw [instrument.zones_ofRange] at inCell
  exact Array.mem_def.mpr (List.mem_of_mem_filter inCell)

theorem PlayerMap.buildChecked_eq {instrument : Instrument}
    (reach : ∀ zone ∈ instrument.zones, ∀ pitch : Fin pitchCount, zone.region.InReach pitch.val)
    (source : Nat → Nat → σ) :
    buildChecked source instrument = .ok (build source instrument) := by
  have layers (pitch : Fin pitchCount) :
      ((instrument.cells pitch.val).zipIdx.mapM fun (cell, layer) =>
          Layer.ofCellChecked (source pitch.val layer) cell pitch.val) =
        .ok ((instrument.cells pitch.val).mapIdx fun layer cell =>
          Layer.ofCell (source pitch.val layer) cell pitch.val) := by
    rw [List.mapIdx_eq_zipIdx_map]
    apply Checked.mapM_eq_ok
    rintro ⟨cell, layer⟩ member
    have inCells := List.fst_mem_of_mem_zipIdx member
    exact Layer.ofCellChecked_eq (fun zone inCell =>
      reach zone (Instrument.mem_zones_of_cells inCells inCell) pitch) _
  rw [buildChecked, Checked.ofFnM_eq_ok layers]
  rfl

/-- To have a cursor that points at an entry, if it has a cursor. -/
def Player.InRange : Player σ → Prop
  | .roundRobin player => player.cursor < player.entries.size
  | .silent | .single _ | .weightedRandom _ => True

def PlayerMap.InRange (map : PlayerMap σ) : Prop :=
  ∀ layers ∈ map.pitches, ∀ layer ∈ layers, layer.player.InRange

-- A sequence begins with the first of its entries, and there are at least two.
theorem Player.inRange_ofZones (source : σ) (zones : List Zone) (pitch : Int) :
    (ofZones source zones pitch).1.InRange := by
  by_cases several : 1 < zones.length
  · rw [ofZones_of_several several]
    split
    · change 0 < (RoundRobin.ofZones zones pitch).entries.size
      rw [size_entries_ofZones]
      omega
    · trivial
  · rcases zones with _ | ⟨only, _ | ⟨second, rest⟩⟩
    · trivial
    · trivial
    · simp at several

theorem PlayerMap.inRange_build (source : Nat → Nat → σ) (instrument : Instrument) :
    (build source instrument).1.InRange := by
  intro layers inMap layer inLayers
  obtain ⟨built, inBuilt, rfl⟩ := Vector.mem_map.mp inMap
  obtain ⟨pitch, rfl⟩ := Vector.mem_ofFn.mp inBuilt
  obtain ⟨made, inCells, rfl⟩ := List.mem_map.mp inLayers
  obtain ⟨position, bound, rfl⟩ := List.mem_mapIdx.mp inCells
  exact Player.inRange_ofZones _ _ _

end Building

section Playing

def Voicing.gainChecked (voicing : Voicing) (velocity : Int) : Checked (Option Float32) :=
  if 1 ≤ velocity ∧ velocity ≤ 127 then do
    let gain ← Checked.gain voicing.gains velocity.toNat
    return some gain
  else
    return none

def Voicing.soundChecked (voicing : Voicing) (velocity : Int) : Checked (Option Sound) := do
  let gain? ← voicing.gainChecked velocity
  return gain?.map fun gain =>
    { sampleIndex := voicing.sampleIndex
      needsTranspose := voicing.needsTranspose
      transposeRatio := voicing.transposeRatio
      gain
      ampegRelease := voicing.ampegRelease
      loopMode := voicing.loopMode }

def RoundRobin.playChecked (player : RoundRobin) (query : Query) :
    Checked (Option Sound × RoundRobin) :=
  if player.finalized && !player.entries.isEmpty then do
    let entry ← Checked.entry player.entries player.cursor
    let sound? ← entry.voicing.soundChecked query.velocity
    let cursor ← Checked.remainder (player.cursor + 1) player.entries.size
    return (sound?, { player with cursor })
  else
    return (none, player)

variable {σ : Type} [DrawSource σ]

def WeightedRandom.playChecked (player : WeightedRandom σ) (query : Query) :
    Checked (Option Sound × WeightedRandom σ) :=
  if player.finalized && !player.entries.isEmpty then
    let (draw, source) := DrawSource.draw player.source
    match select? player.entries draw with
    | none => return (none, { player with source })
    | some entry => do
      let sound? ← entry.voicing.soundChecked query.velocity
      return (sound?, { player with source })
  else
    return (none, player)

def Player.playChecked (player : Player σ) (query : Query) :
    Checked (Option Sound × Player σ) :=
  match player with
  | silent => return (none, silent)
  | single only => do
    let sound? ← only.voicing.soundChecked query.velocity
    return (sound?, player)
  | weightedRandom random => do
    let (sound?, random) ← random.playChecked query
    return (sound?, weightedRandom random)
  | roundRobin turns => do
    let (sound?, turns) ← turns.playChecked query
    return (sound?, roundRobin turns)

def Layer.playFirstChecked (query : Query) :
    List (Layer σ) → Checked (Option Sound × List (Layer σ))
  | [] => return (none, [])
  | layer :: rest =>
    if layer.contains query.velocity then do
      let (sound?, player) ← layer.player.playChecked query
      return (sound?, { layer with player } :: rest)
    else do
      let (sound?, rest) ← playFirstChecked query rest
      return (sound?, layer :: rest)

namespace PlayerMap

def playChecked (map : PlayerMap σ) (query : Query) :
    Checked (Option Sound × PlayerMap σ) :=
  if 1 ≤ query.velocity ∧ query.velocity ≤ 127 then
    if midi : 0 ≤ query.pitch ∧ query.pitch < pitchCount then do
      have bound := Query.pitch_lt midi
      let (sound?, layers) ← Layer.playFirstChecked query map.pitches[query.pitch.toNat]
      return (sound?, { pitches := map.pitches.set query.pitch.toNat layers })
    else
      return (none, map)
  else
    return (none, map)

def playAllChecked (map : PlayerMap σ) : List Query → Checked (List (Option Sound))
  | [] => return []
  | query :: rest => do
    let (sound?, map) ← map.playChecked query
    let others ← map.playAllChecked rest
    return sound? :: others

end PlayerMap

theorem Voicing.soundChecked_eq (voicing : Voicing) (velocity : Int) :
    voicing.soundChecked velocity = .ok (voicing.sound? velocity) := by
  have gain : voicing.gainChecked velocity = .ok (voicing.gain? velocity) := by
    unfold gainChecked gain?
    split
    · next sounds =>
      have playable : 1 ≤ velocity.toNat ∧ velocity.toNat ≤ 127 := by omega
      rw [Checked.gain, dif_pos playable]
      rfl
    · rfl
  rw [soundChecked, gain]
  rfl

theorem RoundRobin.playChecked_eq {player : RoundRobin}
    (inside : player.cursor < player.entries.size) (query : Query) :
    player.playChecked query = .ok (player.play query) := by
  have filled : player.entries.isEmpty = false := by
    simpa [Array.isEmpty_iff_size_eq_zero] using Nat.ne_of_gt (Nat.zero_lt_of_lt inside)
  have entry : Checked.entry player.entries player.cursor = .ok player.entries[player.cursor] :=
    dif_pos inside
  have turn : Checked.remainder (player.cursor + 1) player.entries.size =
      .ok ((player.cursor + 1) % player.entries.size) := if_pos (Nat.zero_lt_of_lt inside)
  unfold playChecked play
  rw [filled, Bool.not_false, Bool.and_true, entry, Array.getElem?_eq_getElem inside]
  split
  · simp only [bind, Except.bind, Voicing.soundChecked_eq, turn]
    rfl
  · rfl

theorem WeightedRandom.playChecked_eq (player : WeightedRandom σ) (query : Query) :
    player.playChecked query = .ok (player.play query) := by
  unfold playChecked play
  split
  · dsimp only
    cases select? player.entries (DrawSource.draw player.source).1 with
    | none => rfl
    | some entry =>
      simp only [bind, Except.bind, Voicing.soundChecked_eq]
      rfl
  · rfl

namespace Player

theorem playChecked_eq {player : Player σ} (inRange : player.InRange) (query : Query) :
    player.playChecked query = .ok (player.play query) := by
  cases player with
  | silent => rfl
  | single only =>
    rw [playChecked, Voicing.soundChecked_eq]
    rfl
  | weightedRandom random =>
    rw [playChecked, WeightedRandom.playChecked_eq]
    rfl
  | roundRobin turns =>
    rw [playChecked, RoundRobin.playChecked_eq inRange]
    rfl

theorem InRange.play {player : Player σ} (inRange : player.InRange) (query : Query) :
    (player.play query).2.InRange := by
  cases player with
  | silent | single only | weightedRandom random => trivial
  | roundRobin turns =>
    change (turns.play query).2.cursor < (turns.play query).2.entries.size
    unfold RoundRobin.play
    split
    · split
      · exact inRange
      · exact Nat.mod_lt _ (Nat.zero_lt_of_lt inRange)
    · exact inRange

end Player

namespace Layer

variable {layers : List (Layer σ)} (inRange : ∀ layer ∈ layers, layer.player.InRange)
include inRange

theorem playFirstChecked_eq (query : Query) :
    playFirstChecked query layers = .ok (playFirst query layers) := by
  induction layers with
  | nil => rfl
  | cons layer rest ih =>
    obtain ⟨first, others⟩ := List.forall_mem_cons.mp inRange
    rw [playFirstChecked, playFirst]
    split
    · rw [Player.playChecked_eq first]
      rfl
    · rw [ih others]
      rfl

theorem inRange_playFirst (query : Query) :
    ∀ layer ∈ (playFirst query layers).2, layer.player.InRange := by
  induction layers with
  | nil => exact nofun
  | cons layer rest ih =>
    obtain ⟨first, others⟩ := List.forall_mem_cons.mp inRange
    rw [playFirst]
    split
    · exact List.forall_mem_cons.mpr ⟨first.play query, others⟩
    · exact List.forall_mem_cons.mpr ⟨first, ih others⟩

end Layer

namespace PlayerMap

section InRange

variable {map : PlayerMap σ} (inRange : map.InRange)
include inRange

theorem playChecked_eq (query : Query) : map.playChecked query = .ok (map.play query) := by
  unfold playChecked play
  split
  · split
    · next midi =>
      have bound := Query.pitch_lt midi
      have layers := inRange map.pitches[query.pitch.toNat] (Vector.getElem_mem bound)
      simp only [Layer.playFirstChecked_eq layers]
      rfl
    · rfl
  · rfl

theorem InRange.play (query : Query) : (map.play query).2.InRange := by
  unfold PlayerMap.play
  split
  · split
    · next midi =>
      have bound := Query.pitch_lt midi
      have played := Layer.inRange_playFirst
        (inRange map.pitches[query.pitch.toNat] (Vector.getElem_mem bound)) query
      intro layers member
      have either := Vector.mem_or_eq_of_mem_set
        (show layers ∈ map.pitches.set query.pitch.toNat _ bound from member)
      rcases either with other | rfl
      · exact inRange layers other
      · exact played
    · exact inRange
  · exact inRange

theorem playAllChecked_eq (queries : List Query) :
    map.playAllChecked queries = .ok (map.playAll queries) := by
  induction queries generalizing map with
  | nil => rfl
  | cons query rest ih =>
    rw [playAllChecked, playChecked_eq inRange]
    simp only [bind, Except.bind, ih (inRange.play query)]
    rfl

end InRange

end PlayerMap

end Playing

theorem Instrument.Playable.inReach {instrument : Instrument} (playable : instrument.Playable)
    {zone : Zone} (member : zone ∈ instrument.zones) (pitch : Fin pitchCount) :
    zone.region.InReach pitch.val := by
  obtain ⟨keys, -⟩ := Region.fault?_eq_none_iff.mp (playable.valid zone member)
  have keycenter := keys zone.region.keycenter (by simp)
  have midi := pitch.isLt
  simp only [pitchCount] at midi
  unfold Region.InReach
  omega

section Answers

variable {σ : Type} [DrawSource σ]

theorem Player.mem_of_chosen? {source : σ} {zones : List Zone} {turn : Nat} {zone : Zone}
    (chosen : chosen? source zones turn = some zone) : zone ∈ zones := by
  by_cases several : 1 < zones.length
  · rw [chosen?_of_several several] at chosen
    split at chosen
    · exact List.mem_mergeSort.mp (List.mem_of_getElem? chosen)
    · exact List.mem_of_find?_eq_some chosen
  · rcases zones with _ | ⟨only, _ | ⟨second, rest⟩⟩
    · simp [chosen?] at chosen
    · exact List.mem_singleton.mpr (Option.some.inj chosen).symm
    · simp at several

theorem Instrument.exists_zone_of_answer {instrument : Instrument} {source : Nat → Nat → σ}
    {earlier : List Query} {query : Query} {sound : Sound}
    (answered : instrument.answer source earlier query = some sound) :
    ∃ zone ∈ instrument.zones, sound = zone.sound query := by
  obtain ⟨target, -, heard⟩ := Option.bind_eq_some_iff.mp answered
  obtain ⟨zone, chosen, rfl⟩ := Option.map_eq_some_iff.mp heard
  have inCell := Player.mem_of_chosen? chosen
  exact ⟨zone, Array.mem_def.mpr (List.mem_of_mem_filter inCell), rfl⟩

namespace PlayerMap

theorem sampleIndex_of_mem_playAll {instrument : Instrument} (playable : instrument.Playable)
    {source : Nat → Nat → σ} {queries : List Query} {sound : Sound}
    (played : some sound ∈ (build source instrument).1.playAll queries) :
    1 ≤ sound.sampleIndex := by
  rw [build_eq_after, playAll_after] at played
  obtain ⟨position, bound, answered⟩ := List.mem_mapIdx.mp played
  obtain ⟨zone, member, rfl⟩ := Instrument.exists_zone_of_answer answered
  exact playable.sampled zone member

/-- From a text to its notes nothing is computed from operands out of range. An equals sign cuts a
text between characters; and on the map of a loaded instrument, however it has been played before,
every distance from a keycenter is one between MIDI keys, every turn is that of an entry, every gain
is that of a velocity that sounds, and every sound has a sample. -/
theorem checked_from_text :
    (∀ (state : Lexer.State) (read : List Char),
      state.endAtEqualChecked read = .ok (state.endAtEqual read)) ∧
    ∀ {ρ : Type} [Lexer.Supplier ρ] (settings : Settings) (supplier? : Option ρ) (text : String)
      (report : Report)
      (instrument : Instrument),
      (load settings supplier? text report).result = .ok instrument →
      ∀ (source : Nat → Nat → σ) (queries : List Query),
        buildChecked source instrument = .ok (build source instrument) ∧
        (build source instrument).1.playAllChecked queries =
          .ok ((build source instrument).1.playAll queries) ∧
        ∀ sound? ∈ (build source instrument).1.playAll queries, ∀ info : PlayInfo,
          (info.update sound?).valid = true → (info.update sound?).canPlay = true := by
  refine ⟨Lexer.State.endAtEqualChecked_eq, ?_⟩
  intro ρ _ settings supplier? text report instrument loaded source queries
  have playable := Instrument.playable_of_load loaded
  refine ⟨?_, playAllChecked_eq (inRange_build source instrument) queries, ?_⟩
  · exact buildChecked_eq (fun zone member pitch => playable.inReach member pitch) source
  · intro sound? played info valid
    cases sound? with
    | none => cases valid
    | some sound =>
      have sampled := sampleIndex_of_mem_playAll playable played
      exact decide_eq_true sampled

/-- Two regions in turn, one of them with its keycenter as far from the pitch as a key can be. -/
theorem checked_from_text_in_turn :
    ∃ instrument,
      (load {} none
        "<group>key=0 seq_length=2 <region>pitch_keycenter=127 sample=a <region>sample=b"
        {}).result = .ok instrument ∧
      buildChecked (fun _ _ => Keystream.ofSeed 1) instrument =
        .ok (build (fun _ _ => Keystream.ofSeed 1) instrument) ∧
      (build (fun _ _ => Keystream.ofSeed 1) instrument).1.playAllChecked [⟨0, 1⟩, ⟨0, 127⟩] =
        .ok ((build (fun _ _ => Keystream.ofSeed 1) instrument).1.playAll [⟨0, 1⟩, ⟨0, 127⟩]) := by
  have loads : (load {} none
      "<group>key=0 seq_length=2 <region>pitch_keycenter=127 sample=a <region>sample=b"
      {}).result.isOk := by
    decide +kernel
  generalize outcome : (load {} none
      "<group>key=0 seq_length=2 <region>pitch_keycenter=127 sample=a <region>sample=b"
      {}).result = result at loads ⊢
  cases result with
  | error error => cases loads
  | ok instrument =>
    have checked := checked_from_text.2 {} none _ {} instrument outcome
      (fun _ _ => Keystream.ofSeed 1) [⟨0, 1⟩, ⟨0, 127⟩]
    exact ⟨instrument, rfl, checked.1, checked.2.1⟩

end PlayerMap

end Answers

end Sfz

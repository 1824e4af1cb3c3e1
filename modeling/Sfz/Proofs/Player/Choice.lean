import Sfz.Proofs.Number.Rational
import Sfz.Proofs.Player.Histories

/-! The choices of a player that picks its regions at random.

Every play of a finalized player takes one draw and goes to the first entry whose bound lies above
it, whatever other calls come between. Bounds and draws are compared as rationals here. An entry is
out of reach of every draw unless its bound tops all bounds before it, so a bound below the one
before, for which the player warns, leaves its entry silent for good.
-/

set_option autoImplicit false

namespace Sfz

structure InUnit (number : Float32) : Prop where
  finite : number.isFinite
  nonneg : 0 ≤ rational number
  lt_one : rational number < 1

namespace Player

namespace Entrant

variable (entrant : Entrant)

/-- The upper bound of an entrant, moved into the unit interval. -/
def upper : ℚ :=
  max 0 (min 1 (rational entrant.zone.region.hiRand))

def Claims (draw : ℚ) : Prop :=
  rational entrant.zone.region.loRand ≤ draw ∧ draw < rational entrant.zone.region.hiRand

theorem upper_nonneg : 0 ≤ entrant.upper :=
  le_max_left _ _

theorem upper_le_one : entrant.upper ≤ 1 :=
  max_le zero_le_one (min_le_left _ _)

/-- A number of the unit interval does not tell a bound from the bound that was moved. -/
theorem lt_upper_iff {draw : ℚ} (nonneg : 0 ≤ draw) (below : draw < 1) :
    draw < entrant.upper ↔ draw < rational entrant.zone.region.hiRand := by
  simp [upper, nonneg.not_gt, below]

end Entrant

def Falls (entrants : List Entrant) (position : Nat) : Prop :=
  ∃ first second, entrants[position]? = some first ∧ entrants[position + 1]? = some second ∧
    second.upper < first.upper

end Player

namespace WeightedRandom

open Player

variable {σ : Type}

def Entry.ofEntrant (entrant : Entrant) : Entry :=
  .ofRegion entrant.zone.region entrant.pitch entrant.zone.sampleIndex

/-- The position of the entry that a draw goes to. -/
def goesTo? (player : WeightedRandom σ) (draw : Float32) : Option Nat :=
  player.entries.findIdx? fun entry => draw < entry.upper

/-- Where the draws go among entrants in the order in which they came in: each to the first whose
bound lies above it. So an entrant is reached if its bound tops 0 and all bounds before it, and
where the declared ranges follow one another every draw goes to the entrant that claims it. -/
structure Chooses (player : WeightedRandom σ) (entrants : List Entrant) : Prop where
  goes : ∀ draw, InUnit draw → ∀ position,
    (player.goesTo? draw = some position ↔
      ∃ entrant, entrants[position]? = some entrant ∧ rational draw < entrant.upper ∧
        ∀ earlier ∈ entrants.take position, earlier.upper ≤ rational draw)
  reached : ∀ position entrant, entrants[position]? = some entrant →
    ((∃ draw, InUnit draw ∧ player.goesTo? draw = some position) ↔
      0 < entrant.upper ∧ ∀ earlier ∈ entrants.take position, earlier.upper < entrant.upper)
  silent : ∀ position, Falls entrants position →
    ∀ draw, InUnit draw → player.goesTo? draw ≠ some (position + 1)
  declared : (entrants.Pairwise fun first second =>
      rational first.zone.region.hiRand ≤ rational second.zone.region.loRand) →
    ∀ draw, InUnit draw → (∃ entrant ∈ entrants, entrant.Claims (rational draw)) →
      ∀ position, (player.goesTo? draw = some position ↔
        ∃ entrant, entrants[position]? = some entrant ∧ entrant.Claims (rational draw))

theorem findIdx?_eq_some_iff_take {α : Type} {values : List α} {test : α → Bool}
    {position : Nat} :
    values.findIdx? test = some position ↔
      ∃ value, values[position]? = some value ∧ test value = true ∧
        ∀ earlier ∈ values.take position, test earlier = false := by
  rw [List.findIdx?_eq_some_iff_getElem]
  constructor
  · rintro ⟨bound, holds, before⟩
    refine ⟨_, List.getElem?_eq_getElem bound, holds, ?_⟩
    intro earlier member
    obtain ⟨index, inside, rfl⟩ := List.mem_take_iff_getElem.mp member
    simpa using before index (by omega)
  · rintro ⟨value, found, holds, before⟩
    obtain ⟨bound, rfl⟩ := List.getElem?_eq_some_iff.mp found
    refine ⟨bound, holds, fun index lower => ?_⟩
    simpa using before _ (List.mem_take_iff_getElem.mpr ⟨index, by omega, rfl⟩)

theorem descends_iff (entries : List Entry) :
    descends entries = true ↔
      ∃ position first second, entries[position]? = some first ∧
        entries[position + 1]? = some second ∧ second.upper < first.upper := by
  induction entries with
  | nil => simp [descends]
  | cons first rest ih =>
    cases rest with
    | nil => simp [descends]
    | cons second rest =>
      rw [descends, Bool.or_eq_true, ih, decide_eq_true_eq]
      constructor
      · rintro (falls | ⟨position, later⟩)
        · exact ⟨0, first, second, rfl, rfl, falls⟩
        · exact ⟨position + 1, later⟩
      · rintro ⟨_ | position, before, after, foundBefore, foundAfter, falls⟩
        · cases foundBefore
          cases foundAfter
          exact .inl falls
        · exact .inr ⟨position, before, after, foundBefore, foundAfter, falls⟩

section Upper

variable {entrant : Entrant} (finite : entrant.zone.region.hiRand.isFinite)
include finite

theorem isFinite_upper : (Entry.ofEntrant entrant).upper.isFinite :=
  isFinite_clamp rfl rfl finite

theorem rational_upper : rational (Entry.ofEntrant entrant).upper = entrant.upper := by
  have bounded := @rational_clamp 0 1 _ rfl rfl finite (by simp)
  rwa [rational_zero, rational_one] at bounded

theorem lt_upper_ofEntrant_iff {draw : Float32} (unit : InUnit draw) :
    draw < (Entry.ofEntrant entrant).upper ↔ rational draw < entrant.upper := by
  rw [lt_iff_rational_lt unit.finite (isFinite_upper finite), rational_upper finite]

theorem upper_lt_upper_iff {other : Entrant} (otherFinite : other.zone.region.hiRand.isFinite) :
    (Entry.ofEntrant other).upper < (Entry.ofEntrant entrant).upper ↔
      other.upper < entrant.upper := by
  rw [lt_iff_rational_lt (isFinite_upper otherFinite) (isFinite_upper finite),
    rational_upper finite, rational_upper otherFinite]

end Upper

/-- Below a limit there is room for a draw that no bound below the limit tops. -/
theorem exists_draw {earlier : List Entrant}
    (finite : ∀ entrant ∈ earlier, entrant.zone.region.hiRand.isFinite) {limit : ℚ}
    (positive : 0 < limit) (bounded : limit ≤ 1)
    (below : ∀ entrant ∈ earlier, entrant.upper < limit) :
    ∃ draw, InUnit draw ∧ rational draw < limit ∧
      ∀ entrant ∈ earlier, entrant.upper ≤ rational draw := by
  induction earlier with
  | nil => exact ⟨0, ⟨rfl, le_of_eq rational_zero.symm, by simp⟩, by simpa, by simp⟩
  | cons first rest ih =>
    rw [List.forall_mem_cons] at finite below
    obtain ⟨draw, unit, under, above⟩ := ih finite.2 below.2
    -- the larger of the draw for the others and the bound of this one
    by_cases higher : first.upper ≤ rational draw
    · exact ⟨draw, unit, under, List.forall_mem_cons.mpr ⟨higher, above⟩⟩
    · have same := rational_upper finite.1
      refine ⟨(Entry.ofEntrant first).upper, ⟨isFinite_upper finite.1, ?_, ?_⟩, ?_, ?_⟩
      · rw [same]
        exact first.upper_nonneg
      · rw [same]
        exact below.1.trans_le bounded
      · rw [same]
        exact below.1
      · rw [same, List.forall_mem_cons]
        exact ⟨le_rfl, fun entrant member => (above entrant member).trans (not_le.mp higher).le⟩

variable [DrawSource σ]

theorem play_eq_goesTo? (player : WeightedRandom σ) (query : Query)
    (ready : player.finalized = true) (some : player.entries.isEmpty = false) :
    player.play query =
      ((player.goesTo? (DrawSource.draw player.source).1).bind fun position =>
          player.entries[position]?.bind fun entry => entry.voicing.sound? query.velocity,
        { player with source := (DrawSource.draw player.source).2 }) := by
  simp only [play, ready, some, select?, Bool.not_false, Bool.and_self, if_true,
    Array.find?_eq_bind_findIdx?_getElem?, Option.bind_assoc, goesTo?]

def step (player : WeightedRandom σ) : Call → Answer × WeightedRandom σ
  | .add entrant =>
    match player.add entrant.zone.region entrant.pitch entrant.zone.sampleIndex with
    | .ok player => (.entered, player)
    | .error error => (.refused error, player)
  | .finalize =>
    let (player, warnings) := player.finalize
    (.finalized warnings, player)
  | .play query =>
    let (sound?, player) := player.play query
    (.played sound?, player)

def drawn (calls : List Call) : Nat :=
  if (entrants calls).isEmpty then 0 else turns calls

def told (source : σ) (calls : List Call) : WeightedRandom σ :=
  { entries := ((entrants calls).map Entry.ofEntrant).toArray
    source := DrawSource.after source (drawn calls)
    finalized := closed calls }

section Open

variable {before : List Call} (isOpen : closed before = false) (source : σ)
include isOpen

theorem told_of_open :
    told source before =
      { entries := ((entrants before).map Entry.ofEntrant).toArray, source } := by
  have noTurn : turns before = 0 := by simpa [turns] using turns_append_of_open isOpen []
  have noDraw : drawn before = 0 := by simp [drawn, noTurn]
  rw [told, isOpen, noDraw]
  rfl

theorem step_told_of_open (call : Call) :
    (step (told source before) call).2 = told source (before ++ [call]) := by
  have noDraw : drawn (before ++ [call]) = 0 := by
    have noTurn : turns (before ++ [call]) = 0 := by
      rw [turns_append_of_open isOpen]
      cases call <;> rfl
    simp [drawn, noTurn]
  rw [told_of_open isOpen, told, noDraw, entrants_append_of_open isOpen, closed_append, isOpen]
  cases call with
  | add entrant =>
    simp [step, add, push, entrants, closed, Call.isFinalize, Entry.ofEntrant, DrawSource.after]
  | finalize => simp [step, finalize, entrants, closed, Call.isFinalize, DrawSource.after]
  | play query => simp [step, play, entrants, closed, Call.isFinalize, DrawSource.after]

end Open

section Closed

variable {before : List Call} (isClosed : closed before = true) (source : σ)
include isClosed

theorem told_concat_of_closed (call : Call) :
    told source (before ++ [call]) =
      { told source before with
        source := DrawSource.after source
          (if (entrants before).isEmpty then 0
            else turns before + [call].countP Call.isPlay) } := by
  rw [told, told, drawn, entrants_append_of_closed isClosed, turns_append_of_closed isClosed,
    closed_append, isClosed]
  rfl

theorem step_told_of_closed (call : Call) :
    (step (told source before) call).2 = told source (before ++ [call]) := by
  rw [told_concat_of_closed isClosed]
  cases call with
  | add entrant => simp [step, add, told, isClosed, drawn, Call.isPlay]
  | finalize => simp [step, finalize, told, isClosed, drawn, Call.isPlay]
  | play query =>
    cases nothing : (entrants before).isEmpty with
    | true => simp [step, play, told, isClosed, drawn, nothing]
    | false => simp [step, play, told, isClosed, drawn, nothing, Call.isPlay, DrawSource.after]

end Closed

theorem step_told (source : σ) (before : List Call) (call : Call) :
    (step (told source before) call).2 = told source (before ++ [call]) := by
  cases isClosed : closed before with
  | false => exact step_told_of_open isClosed source call
  | true => exact step_told_of_closed isClosed source call

theorem run_eq_told (source : σ) (calls : List Call) :
    run step { source } calls = told source calls := by
  have steps (before : List Call) (call : Call) : step (told source before) call =
      ((step (told source before) call).1, told source (before ++ [call])) :=
    Prod.ext rfl (step_told source before call)
  exact run_told steps [] calls

section Steps

variable {calls : List Call} (source : σ)

theorem step_add_of_closed (isClosed : closed calls = true) (entrant : Entrant) :
    step (told source calls) (.add entrant) =
      (.refused .alreadyFinalized, told source calls) := by
  simp [step, add, told, isClosed]

theorem step_finalize_of_closed (isClosed : closed calls = true) :
    step (told source calls) .finalize = (.finalized [], told source calls) := by
  simp [step, finalize, told, isClosed]

theorem step_play_of_idle (idle : closed calls = false ∨ entrants calls = []) (query : Query) :
    step (told source calls) (.play query) = (.played none, told source calls) := by
  rcases idle with isOpen | nothing
  · simp [step, play, told, isOpen]
  · simp [step, play, told, nothing]

theorem step_play_of_ready (isClosed : closed calls = true) (some : entrants calls ≠ [])
    (query : Query) :
    let player := told source calls
    step player (.play query) =
      (.played ((player.goesTo? (DrawSource.draw player.source).1).bind fun position =>
          (entrants calls)[position]?.bind fun entrant => entrant.sound? query.velocity),
        { player with source := (DrawSource.draw player.source).2 }) := by
  intro player
  have entry (position : Nat) : player.entries[position]? =
      (entrants calls)[position]?.map Entry.ofEntrant := by
    simp [player, told]
  have voiced (entrant : Entrant) : (Entry.ofEntrant entrant).voicing.sound? query.velocity =
      entrant.sound? query.velocity := sound?_ofRegion entrant query.velocity
  have ready : player.entries.isEmpty = false := by simpa [player, told] using some
  simp only [step, play_eq_goesTo? player query isClosed ready, entry, Option.bind_map,
    Function.comp_def, voiced]

end Steps

section Bounds

variable {calls : List Call}
  (finite : ∀ entrant ∈ entrants calls, entrant.zone.region.hiRand.isFinite) (source : σ)
include finite

theorem goesTo?_told_iff {draw : Float32} (unit : InUnit draw) (position : Nat) :
    (told source calls).goesTo? draw = some position ↔
      ∃ entrant, (entrants calls)[position]? = some entrant ∧ rational draw < entrant.upper ∧
        ∀ earlier ∈ (entrants calls).take position, earlier.upper ≤ rational draw := by
  have compare {entrant : Entrant} (member : entrant ∈ entrants calls) :=
    lt_upper_ofEntrant_iff (finite entrant member) unit
  simp only [goesTo?, told, List.findIdx?_toArray, List.findIdx?_map, findIdx?_eq_some_iff_take,
    Function.comp_apply, decide_eq_true_eq, decide_eq_false_iff_not]
  apply exists_congr
  intro entrant
  apply and_congr_right
  intro found
  refine and_congr (compare (List.mem_of_getElem? found)) (forall₂_congr fun earlier member => ?_)
  rw [compare (List.mem_of_mem_take member), not_lt]

theorem reached_iff {position : Nat} {entrant : Entrant}
    (found : (entrants calls)[position]? = some entrant) :
    (∃ draw, InUnit draw ∧ (told source calls).goesTo? draw = some position) ↔
      0 < entrant.upper ∧
        ∀ earlier ∈ (entrants calls).take position, earlier.upper < entrant.upper := by
  constructor
  · rintro ⟨draw, unit, goes⟩
    obtain ⟨_, same, below, above⟩ := (goesTo?_told_iff finite source unit position).mp goes
    cases found.symm.trans same
    exact ⟨unit.nonneg.trans_lt below, fun earlier member => (above earlier member).trans_lt below⟩
  · rintro ⟨positive, tops⟩
    obtain ⟨draw, unit, below, above⟩ :=
      exists_draw (fun earlier member => finite earlier (List.mem_of_mem_take member)) positive
        entrant.upper_le_one tops
    exact ⟨draw, unit, (goesTo?_told_iff finite source unit position).mpr
      ⟨entrant, found, below, above⟩⟩

theorem descends_told_iff :
    descends (told source calls).entries.toList = true ↔
      ∃ position, Falls (entrants calls) position := by
  rw [descends_iff]
  apply exists_congr
  intro position
  simp only [told, List.getElem?_map, Option.map_eq_some_iff]
  constructor
  · rintro ⟨_, _, ⟨first, foundFirst, rfl⟩, ⟨second, foundSecond, rfl⟩, falls⟩
    refine ⟨first, second, foundFirst, foundSecond, ?_⟩
    exact (upper_lt_upper_iff (finite _ (List.mem_of_getElem? foundFirst))
      (finite _ (List.mem_of_getElem? foundSecond))).mp falls
  · rintro ⟨first, second, foundFirst, foundSecond, falls⟩
    refine ⟨_, _, ⟨first, foundFirst, rfl⟩, ⟨second, foundSecond, rfl⟩, ?_⟩
    exact (upper_lt_upper_iff (finite _ (List.mem_of_getElem? foundFirst))
      (finite _ (List.mem_of_getElem? foundSecond))).mpr falls

theorem goesTo?_ne_of_falls {position : Nat} (falls : Falls (entrants calls) position)
    {draw : Float32} (unit : InUnit draw) :
    (told source calls).goesTo? draw ≠ some (position + 1) := by
  obtain ⟨first, second, foundFirst, foundSecond, falls⟩ := falls
  intro goes
  obtain ⟨_, same, below, above⟩ := (goesTo?_told_iff finite source unit _).mp goes
  cases foundSecond.symm.trans same
  have earlier : first ∈ (entrants calls).take (position + 1) :=
    List.mem_of_getElem? ((List.getElem?_take_of_lt position.lt_succ_self).trans foundFirst)
  exact ((above first earlier).trans_lt below).not_gt falls

theorem step_finalize_of_open (isOpen : closed calls = false) :
    ((step (told source calls) .finalize).1 = .finalized [.unorderedBounds] ↔
        ∃ position, Falls (entrants calls) position) ∧
      ((step (told source calls) .finalize).1 = .finalized [] ↔
        ¬∃ position, Falls (entrants calls) position) := by
  have answered : (step (told source calls) .finalize).1 =
      .finalized
        (if descends (told source calls).entries.toList then [.unorderedBounds] else []) := by
    simp [step, finalize, told, isOpen]
  rw [answered, ← descends_told_iff finite source]
  cases descends (told source calls).entries.toList <;> simp

section Ordered

variable (ordered : (entrants calls).Pairwise fun first second =>
    rational first.zone.region.hiRand ≤ rational second.zone.region.loRand)
  {draw : Float32} (unit : InUnit draw)
include ordered unit

-- The ranges before the one that holds the draw end below it, so none of their bounds tops it.
theorem goesTo?_of_claims {position : Nat} {entrant : Entrant}
    (found : (entrants calls)[position]? = some entrant)
    (claims : entrant.Claims (rational draw)) :
    (told source calls).goesTo? draw = some position := by
  rw [goesTo?_told_iff finite source unit]
  refine ⟨entrant, found, (entrant.lt_upper_iff unit.nonneg unit.lt_one).mpr claims.2, ?_⟩
  intro earlier member
  obtain ⟨index, inside, rfl⟩ := List.mem_take_iff_getElem.mp member
  obtain ⟨bound, rfl⟩ := List.getElem?_eq_some_iff.mp found
  have before := List.pairwise_iff_getElem.mp ordered index position (by omega) bound (by omega)
  rw [← not_lt, Entrant.lt_upper_iff _ unit.nonneg unit.lt_one, not_lt]
  exact before.trans claims.1

theorem goesTo?_iff_claims (claimed : ∃ entrant ∈ entrants calls, entrant.Claims (rational draw))
    (position : Nat) :
    (told source calls).goesTo? draw = some position ↔
      ∃ entrant, (entrants calls)[position]? = some entrant ∧ entrant.Claims (rational draw) := by
  constructor
  · intro goes
    obtain ⟨entrant, member, claims⟩ := claimed
    obtain ⟨index, found⟩ := List.mem_iff_getElem?.mp member
    cases goes.symm.trans (goesTo?_of_claims finite source ordered unit found claims)
    exact ⟨entrant, found, claims⟩
  · rintro ⟨entrant, found, claims⟩
    exact goesTo?_of_claims finite source ordered unit found claims

end Ordered

theorem chooses_told : Chooses (told source calls) (entrants calls) where
  goes _ := goesTo?_told_iff finite source
  reached _ _ := reached_iff finite source
  silent _ falls _ := goesTo?_ne_of_falls finite source falls
  declared ordered _ := goesTo?_iff_claims finite source ordered

end Bounds

/-- What a call to a player does, told from the calls before it. Calls that come too late change
nothing, and neither do plays that come too early or find no entries. Every other play takes one
draw and concerns the entry to which the draw goes. Finalizing warns of bounds that fall. -/
theorem life_chooses (source : σ) (calls : List Call)
    (finite : ∀ entrant ∈ entrants calls, entrant.zone.region.hiRand.isFinite) :
    let player := run step { source } calls
    let next := DrawSource.draw player.source
    player.source = DrawSource.after source (drawn calls) ∧
    (closed calls = true →
      (∀ entrant, step player (.add entrant) = (.refused .alreadyFinalized, player)) ∧
      step player .finalize = (.finalized [], player)) ∧
    (closed calls = false →
      (∀ entrant, (step player (.add entrant)).1 = .entered) ∧
      ((step player .finalize).1 = .finalized [.unorderedBounds] ↔
        ∃ position, Falls (entrants calls) position) ∧
      ((step player .finalize).1 = .finalized [] ↔
        ¬∃ position, Falls (entrants calls) position)) ∧
    (closed calls = false ∨ entrants calls = [] →
      ∀ query, step player (.play query) = (.played none, player)) ∧
    (closed calls = true → entrants calls ≠ [] →
      ∀ query, step player (.play query) =
        (.played ((player.goesTo? next.1).bind fun position =>
            (entrants calls)[position]?.bind fun entrant => entrant.sound? query.velocity),
          { player with source := next.2 })) ∧
    Chooses player (entrants calls) := by
  rw [run_eq_told]
  intro player next
  refine ⟨rfl, ?_, ?_, ?_, ?_, chooses_told finite source⟩
  · intro isClosed
    exact ⟨step_add_of_closed source isClosed, step_finalize_of_closed source isClosed⟩
  · intro isOpen
    refine ⟨fun entrant => ?_, step_finalize_of_open finite source isOpen⟩
    simp [player, step, add, told, isOpen]
  · exact fun idle => step_play_of_idle source idle
  · exact fun isClosed some => step_play_of_ready source isClosed some

/-- Two regions whose bounds fall and a draw of one half, which goes to the first, also for a
velocity that does not sound. No draw ever goes to the second. -/
theorem life_chooses_falling :
    let kick : Entrant :=
      { zone := { region := { hiRand := 0.75 }, sampleIndex := 1 }, pitch := 60 }
    let snare : Entrant :=
      { zone := { region := { hiRand := 0.25 }, sampleIndex := 2 }, pitch := 60 }
    let half : DrawTape := ⟨fun _ => 0.5⟩
    let added : List Call := [.add kick, .add snare]
    let calls : List Call := added ++ [.finalize]
    (∀ entrant ∈ entrants calls, entrant.zone.region.hiRand.isFinite) ∧
      (step (run step { source := half } added) .finalize).1 = .finalized [.unorderedBounds] ∧
      (step (run step { source := half } calls) (.play ⟨60, 100⟩)).1 =
        .played (kick.sound? 100) ∧
      step (run step { source := half } calls) (.play ⟨60, 0⟩) =
        (.played none, run step { source := half } calls) ∧
      ∀ draw, InUnit draw → (run step { source := half } calls).goesTo? draw ≠ some 1 := by
  have quarter : rational 0.25 = 1 / 4 := by
    change ((8388608 : Nat) : ℚ) * 2 ^ (-25 : Int) = 1 / 4
    norm_num
  have middle : rational 0.5 = 1 / 2 := by
    change ((8388608 : Nat) : ℚ) * 2 ^ (-24 : Int) = 1 / 2
    norm_num
  have threeQuarters : rational 0.75 = 3 / 4 := by
    change ((12582912 : Nat) : ℚ) * 2 ^ (-24 : Int) = 3 / 4
    norm_num
  have unit : InUnit 0.5 := ⟨rfl, by norm_num [middle], by norm_num [middle]⟩
  have bounds : Float32.isFinite 0.75 ∧ Float32.isFinite 0.25 := ⟨rfl, rfl⟩
  intro kick snare half added calls
  have kickUpper : kick.upper = 3 / 4 := by norm_num [Entrant.upper, kick, threeQuarters]
  have snareUpper : snare.upper = 1 / 4 := by norm_num [Entrant.upper, snare, quarter]
  have finite : ∀ entrant ∈ entrants calls, entrant.zone.region.hiRand.isFinite := by
    simpa [calls, added, entrants] using bounds
  have falls : Falls (entrants calls) 0 :=
    ⟨kick, snare, rfl, rfl, by norm_num [kickUpper, snareUpper]⟩
  obtain ⟨_, _, unordered, _⟩ := life_chooses half added finite
  obtain ⟨_, _, _, _, plays, chooses⟩ := life_chooses half calls finite
  have goes : (run step { source := half } calls).goesTo? 0.5 = some 0 :=
    (chooses.goes 0.5 unit 0).mpr
      ⟨kick, rfl, by norm_num [kickUpper, middle], fun _ member => by cases member⟩
  have next : DrawSource.draw (run step { source := half } calls).source = (0.5, half) := rfl
  have some : entrants calls ≠ [] := by simp [calls, added, entrants]
  refine ⟨finite, (unordered rfl).2.1.mpr ⟨0, falls⟩, ?_, ?_, chooses.silent 0 falls⟩
  · rw [plays rfl some, next, goes]
    rfl
  · rw [plays rfl some, next, goes]
    rfl

end WeightedRandom

end Sfz

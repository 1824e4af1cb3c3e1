import Mathlib.Data.List.Basic
import Mathlib.Data.List.Nodup
import Sfz.PlayerMap
import Sfz.Proofs.Instrument.Samples
import Sfz.Proofs.Player.Turns

/-! What a player map answers to a series of queries.

The answer to a query is said on the instrument: the first region that matches decides the cell,
and the number of earlier queries to the same cell decides which of its zones takes the turn. The
map after any history is known from that number too, which carries the induction over a run.
-/

set_option autoImplicit false

namespace Sfz

structure Target where
  pitch : Int
  range : Int × Int
  deriving DecidableEq

instance (query : Query) : Decidable query.Sounds :=
  inferInstanceAs (Decidable (_ ∧ _))

theorem Query.pitch_lt {query : Query} (midi : 0 ≤ query.pitch ∧ query.pitch < pitchCount) :
    query.pitch.toNat < pitchCount := by
  omega

namespace Instrument

def firstMatch? (instrument : Instrument) (query : Query) : Option Zone :=
  instrument.zones.toList.find? fun zone =>
    zone.region.StruckAt query.pitch ∧
      zone.region.loVel ≤ query.velocity ∧ query.velocity ≤ zone.region.hiVel

/-- The cell that answers a query: that of the first zone that matches. -/
def target? (instrument : Instrument) (query : Query) : Option Target :=
  if query.Sounds ∧ 0 ≤ query.pitch ∧ query.pitch ≤ 127 then
    (instrument.firstMatch? query).map fun zone => ⟨query.pitch, zone.velocities⟩
  else
    none

def zonesOf (instrument : Instrument) (target : Target) : List Zone :=
  instrument.zones.toList.filter fun zone =>
    zone.region.StruckAt target.pitch ∧ zone.velocities = target.range

/-- How many of the queries a cell answers. -/
def turns (instrument : Instrument) (queries : List Query) (target : Target) : Nat :=
  queries.countP fun query => instrument.target? query = some target

variable {σ : Type}

def sourceOf (instrument : Instrument) (source : Nat → Nat → σ) (target : Target) : σ :=
  source target.pitch.toNat ((instrument.ranges target.pitch).idxOf target.range)

def answer [DrawSource σ] (instrument : Instrument) (source : Nat → Nat → σ)
    (earlier : List Query) (query : Query) : Option Sound :=
  (instrument.target? query).bind fun target =>
    (Player.chosen? (instrument.sourceOf source target) (instrument.zonesOf target)
      (instrument.turns earlier target)).map fun zone => zone.sound query

theorem find?_ranges (instrument : Instrument) (query : Query) :
    (instrument.ranges query.pitch).find?
        (fun range => range.1 ≤ query.velocity && query.velocity ≤ range.2) =
      (instrument.firstMatch? query).map Zone.velocities := by
  rw [ranges, find?_eraseDups, List.find?_map, answering, List.find?_filter, firstMatch?]
  congr 2
  funext zone
  rw [Bool.eq_iff_iff]
  simp only [Function.comp_apply, decide_eq_true_eq, Bool.and_eq_true]
  rfl

theorem target?_eq_map {instrument : Instrument} {query : Query}
    (midi : query.Sounds ∧ 0 ≤ query.pitch ∧ query.pitch ≤ 127) :
    instrument.target? query =
      ((instrument.firstMatch? query).map Zone.velocities).map (Target.mk query.pitch) := by
  rw [target?, if_pos midi, Option.map_map]
  rfl

theorem target?_ne {instrument : Instrument} {query : Query}
    (midi : query.Sounds ∧ 0 ≤ query.pitch ∧ query.pitch ≤ 127) {pitch : Int}
    (elsewhere : query.pitch ≠ pitch) (range : Int × Int) :
    instrument.target? query ≠ some ⟨pitch, range⟩ := by
  rw [target?_eq_map midi, Option.map_map]
  intro hit
  obtain ⟨zone, _, same⟩ := Option.map_eq_some_iff.mp hit
  exact elsewhere (congrArg Target.pitch same)

theorem zones_ofRange (instrument : Instrument) (pitch : Int) (range : Int × Int) :
    (Cell.ofRange (instrument.answering pitch) range).zones.toList =
      instrument.zonesOf ⟨pitch, range⟩ := by
  simp only [Cell.ofRange, answering, zonesOf, List.filter_filter, Bool.decide_and, Bool.and_comm]

theorem turns_concat (instrument : Instrument) (queries : List Query) (query : Query)
    (target : Target) :
    instrument.turns (queries ++ [query]) target =
      instrument.turns queries target +
        if instrument.target? query = some target then 1 else 0 := by
  simp [turns, List.countP_append, List.countP_cons]

end Instrument

variable {σ : Type} [DrawSource σ]

namespace Layer

variable (instrument : Instrument) (source : Nat → Nat → σ)

def atTurn (target : Target) (turn : Nat) : Layer σ :=
  { loVel := target.range.1
    hiVel := target.range.2
    player := .atTurn (instrument.sourceOf source target) (instrument.zonesOf target)
      target.pitch turn }

theorem playFirst_cons {query : Query} (sounds : query.Sounds) (range : Int × Int) (turn : Nat)
    (rest : List (Layer σ)) :
    playFirst query (atTurn instrument source ⟨query.pitch, range⟩ turn :: rest) =
      if range.1 ≤ query.velocity && query.velocity ≤ range.2 then
        ((Player.chosen? (instrument.sourceOf source ⟨query.pitch, range⟩)
            (instrument.zonesOf ⟨query.pitch, range⟩) turn).map fun zone => zone.sound query,
          atTurn instrument source ⟨query.pitch, range⟩ (turn + 1) :: rest)
      else
        ((playFirst query rest).1,
          atTurn instrument source ⟨query.pitch, range⟩ turn :: (playFirst query rest).2) := by
  have holds : (atTurn instrument source ⟨query.pitch, range⟩ turn).contains query.velocity =
      (range.1 ≤ query.velocity && query.velocity ≤ range.2) := rfl
  rw [playFirst, holds]
  split
  · simp only [atTurn, Player.play_atTurn sounds]
  · rfl

-- Only the layer that answers moves on to its next turn.
theorem playFirst_map {query : Query} (sounds : query.Sounds) (turn : Int × Int → Nat)
    {ranges : List (Int × Int)} (distinct : ranges.Nodup) :
    playFirst query
        (ranges.map fun range => atTurn instrument source ⟨query.pitch, range⟩ (turn range)) =
      let hit? := ranges.find? fun range =>
        range.1 ≤ query.velocity && query.velocity ≤ range.2
      (hit?.bind fun hit =>
          (Player.chosen? (instrument.sourceOf source ⟨query.pitch, hit⟩)
            (instrument.zonesOf ⟨query.pitch, hit⟩) (turn hit)).map fun zone => zone.sound query,
        ranges.map fun range => atTurn instrument source ⟨query.pitch, range⟩
          (turn range + if hit? = some range then 1 else 0)) := by
  induction ranges with
  | nil => rfl
  | cons range rest ih =>
    obtain ⟨absent, distinct⟩ := List.nodup_cons.mp distinct
    rw [List.map_cons, playFirst_cons instrument source sounds, List.find?_cons, ih distinct]
    cases decide (range.1 ≤ query.velocity) && decide (query.velocity ≤ range.2) with
    | true =>
      have others : rest.map (fun other =>
          atTurn instrument source ⟨query.pitch, other⟩ (turn other)) =
          rest.map fun other => atTurn instrument source ⟨query.pitch, other⟩
            (turn other + if some range = some other then 1 else 0) := by
        apply List.map_congr_left
        intro other member
        have differs : range ≠ other := fun same => absent (same ▸ member)
        simp [differs]
      simp only [if_true, Option.bind_some, List.map_cons, others]
    | false =>
      have missed : rest.find? (fun range =>
          range.1 ≤ query.velocity && query.velocity ≤ range.2) ≠ some range :=
        fun found => absent (List.mem_of_find?_eq_some found)
      simp only [Bool.false_eq_true, if_false, List.map_cons, missed, Nat.add_zero]

end Layer

namespace PlayerMap

variable (instrument : Instrument) (source : Nat → Nat → σ)

def after (queries : List Query) : PlayerMap σ :=
  { pitches := Vector.ofFn fun pitch =>
      (instrument.ranges pitch.val).map fun range =>
        Layer.atTurn instrument source ⟨pitch.val, range⟩
          (instrument.turns queries ⟨pitch.val, range⟩) }

theorem build_eq_after : (build source instrument).1 = after instrument source [] := by
  apply congrArg PlayerMap.mk
  apply Vector.ext
  intro pitch inRange
  simp only [Vector.getElem_map, Vector.getElem_ofFn, instrument.cells_eq]
  apply List.ext_getElem?
  intro position
  simp only [List.getElem?_map, List.getElem?_mapIdx]
  cases found : (instrument.ranges pitch)[position]? with
  | none => rfl
  | some range =>
    -- a range names the layer that its position numbers
    obtain ⟨bound, rfl⟩ := List.getElem?_eq_some_iff.mp found
    have index := (instrument.nodup_ranges pitch).idxOf_getElem position bound
    simp only [Option.map_some, Layer.ofCell, Player.ofZones_eq_atTurn, instrument.zones_ofRange,
      Layer.atTurn, Instrument.sourceOf, index, Int.toNat_natCast]
    rfl

theorem after_concat_of_target?_eq_none {earlier : List Query} {query : Query}
    (missed : instrument.target? query = none) :
    after instrument source (earlier ++ [query]) = after instrument source earlier := by
  simp only [after, instrument.turns_concat, missed, reduceCtorEq, if_false, Nat.add_zero]

theorem playFirst_after {query : Query} (midi : query.Sounds ∧ 0 ≤ query.pitch ∧ query.pitch ≤ 127)
    (earlier : List Query) :
    Layer.playFirst query ((instrument.ranges query.pitch).map fun range =>
        Layer.atTurn instrument source ⟨query.pitch, range⟩
          (instrument.turns earlier ⟨query.pitch, range⟩)) =
      (instrument.answer source earlier query,
        (instrument.ranges query.pitch).map fun range =>
          Layer.atTurn instrument source ⟨query.pitch, range⟩
            (instrument.turns (earlier ++ [query]) ⟨query.pitch, range⟩)) := by
  rw [Layer.playFirst_map instrument source midi.1
    (fun range => instrument.turns earlier ⟨query.pitch, range⟩) (instrument.nodup_ranges _)]
  simp only [instrument.find?_ranges, Instrument.answer, instrument.turns_concat,
    Instrument.target?_eq_map midi]
  cases instrument.firstMatch? query <;> simp

theorem play_after (earlier : List Query) (query : Query) :
    (after instrument source earlier).play query =
      (instrument.answer source earlier query,
        after instrument source (earlier ++ [query])) := by
  by_cases midi : query.Sounds ∧ 0 ≤ query.pitch ∧ query.pitch ≤ 127
  · have inRange : 0 ≤ query.pitch ∧ query.pitch < pitchCount := by
      simp only [pitchCount]
      omega
    have pitch : (query.pitch.toNat : Int) = query.pitch := Int.toNat_of_nonneg inRange.1
    have layers := playFirst_after instrument source midi earlier
    rw [play, if_pos ⟨midi.1.1, midi.1.2⟩, dif_pos inRange]
    simp only [after, Vector.getElem_ofFn, pitch, layers]
    apply congrArg (Prod.mk _)
    apply congrArg PlayerMap.mk
    apply Vector.ext
    intro other bound
    simp only [Vector.getElem_set, Vector.getElem_ofFn]
    split
    · next same =>
      rw [← same, pitch]
    · next differs =>
      -- the layers of other pitches stay, because no cell of theirs has answered
      have elsewhere : query.pitch ≠ (other : Int) := by omega
      apply List.map_congr_left
      intro range _
      rw [instrument.turns_concat, if_neg (Instrument.target?_ne midi elsewhere range),
        Nat.add_zero]
  · have missed : instrument.target? query = none := if_neg midi
    rw [after_concat_of_target?_eq_none instrument source missed, Instrument.answer, missed]
    unfold play
    split
    · next sounds =>
      rw [dif_neg]
      · rfl
      · intro inRange
        have high : query.pitch < 128 := inRange.2
        exact midi ⟨sounds, inRange.1, by omega⟩
    · rfl

def playAll (map : PlayerMap σ) : List Query → List (Option Sound)
  | [] => []
  | query :: rest => (map.play query).1 :: playAll (map.play query).2 rest

theorem playAll_after (earlier queries : List Query) :
    (after instrument source earlier).playAll queries =
      queries.mapIdx fun position query =>
        instrument.answer source (earlier ++ queries.take position) query := by
  induction queries generalizing earlier with
  | nil => rfl
  | cons query rest ih =>
    simp only [playAll, play_after, ih, List.mapIdx_cons, List.take_zero, List.append_nil,
      List.take_succ_cons, List.append_assoc, List.singleton_append]

/-- Every answer of a map in a series of queries is the one that the instrument and the earlier
queries decide. It is decided on zones, which in an instrument made of sections are the regions in
their order, each with its own number. -/
theorem playAll_build :
    (∀ (source : Nat → Nat → σ) (instrument : Instrument) (queries : List Query),
      (build source instrument).1.playAll queries =
        queries.mapIdx fun position query =>
          instrument.answer source (queries.take position) query) ∧
    ∀ (sections : List Section) (report : Report),
      (Instrument.ofSections sections report).1.Paired := by
  refine ⟨?_, Instrument.paired_ofSections⟩
  intro source instrument queries
  simpa only [build_eq_after, List.nil_append] using playAll_after instrument source [] queries

end PlayerMap

end Sfz

import Mathlib.Data.List.Basic
import Mathlib.Data.List.Nodup
import Mathlib.Data.List.Induction
import Mathlib.Tactic.MkIffOfInductiveProp
import Sfz.Instrument.Cells

/-! The cells of a pitch, said without the loop that fills them.

There is one cell for every velocity range among the zones that answer the pitch, in the order of
first appearance, and it holds the zones of that range in the order of the instrument.
-/

set_option autoImplicit false

namespace Sfz

section FirstAppearances

variable {α : Type} [BEq α] [LawfulBEq α]

theorem eraseDups_concat (values : List α) (last : α) :
    (values ++ [last]).eraseDups = values.eraseDups ++ if last ∈ values then [] else [last] := by
  rw [List.eraseDups_append]
  by_cases known : last ∈ values <;>
    simp [List.removeAll, known, List.eraseDups_cons]

theorem nodup_eraseDups (values : List α) : values.eraseDups.Nodup := by
  induction values using List.reverseRecOn with
  | nil => exact List.nodup_nil
  | append_singleton values last ih =>
    rw [eraseDups_concat]
    by_cases known : last ∈ values
    · simpa only [known, if_true, List.append_nil] using ih
    · rw [if_neg known, ← List.concat_eq_append]
      exact ih.concat (by simpa using known)

theorem find?_eraseDups (test : α → Bool) (values : List α) :
    values.eraseDups.find? test = values.find? test := by
  induction values using List.reverseRecOn with
  | nil => rfl
  | append_singleton values last ih =>
    rw [eraseDups_concat, List.find?_append, List.find?_append, ih]
    by_cases known : last ∈ values
    · rw [if_pos known]
      -- a value seen before would have been found before
      cases found : values.find? test with
      | some value => rfl
      | none =>
        have fails := List.find?_eq_none.mp found last known
        simp [fails]
    · rw [if_neg known]

end FirstAppearances

/-- To sound at a pitch when its key is struck. A region kept for the release of keys never does;
any other does at its only key or, without one, within those of its bounds that are set. -/
@[mk_iff]
structure Region.StruckAt (region : Region) (pitch : Int) : Prop where
  struck : region.trigger ≠ some .release
  only : region.onlyKey ≠ -1 → region.onlyKey = pitch
  low : region.onlyKey = -1 → region.loKey ≠ -1 → region.loKey ≤ pitch
  high : region.onlyKey = -1 → region.hiKey ≠ -1 → pitch ≤ region.hiKey

instance (region : Region) (pitch : Int) : Decidable (region.StruckAt pitch) :=
  decidable_of_iff _ (Region.struckAt_iff region pitch).symm

theorem Zone.answers_iff_struckAt {zone : Zone} {pitch : Int} :
    zone.answers pitch ↔ zone.region.StruckAt pitch := by
  rw [Region.struckAt_iff, answers, Bool.and_eq_true, Region.matchesPitch]
  have struck : (!zone.region.isReleaseTriggered) = true ↔
      zone.region.trigger ≠ some .release := by
    simp [Region.isReleaseTriggered]
  rw [struck]
  apply and_congr_right
  intro _
  split
  · next only => simp [only, eq_comm]
  · next range =>
    rw [not_not] at range
    simp [range, Decidable.or_iff_not_imp_left]

def Zone.velocities (zone : Zone) : Int × Int :=
  (zone.region.loVel, zone.region.hiVel)

def Instrument.answering (instrument : Instrument) (pitch : Int) : List Zone :=
  instrument.zones.toList.filter fun zone => zone.region.StruckAt pitch

def Instrument.ranges (instrument : Instrument) (pitch : Int) : List (Int × Int) :=
  ((instrument.answering pitch).map Zone.velocities).eraseDups

namespace Cell

def ofRange (zones : List Zone) (range : Int × Int) : Cell :=
  { loVel := range.1
    hiVel := range.2
    zones := (zones.filter fun zone => zone.velocities = range).toArray }

theorem fits_ofRange (zones : List Zone) (range : Int × Int) (zone : Zone) :
    (ofRange zones range).fits zone = decide (zone.velocities = range) := by
  obtain ⟨low, high⟩ := range
  simp [fits, ofRange, Zone.velocities, Prod.ext_iff, eq_comm]

theorem push_ofRange (zones : List Zone) (zone : Zone) :
    (ofRange zones zone.velocities).push zone = ofRange (zones ++ [zone]) zone.velocities := by
  simp [push, ofRange]

theorem ofRange_concat_other {zones : List Zone} {zone : Zone} {range : Int × Int}
    (other : zone.velocities ≠ range) : ofRange (zones ++ [zone]) range = ofRange zones range := by
  simp [ofRange, other]

theorem place_map_ofRange (zones : List Zone) (zone : Zone) {ranges : List (Int × Int)}
    (distinct : ranges.Nodup) :
    place zone (ranges.map (ofRange zones)) =
      ranges.map (ofRange (zones ++ [zone])) ++
        if zone.velocities ∈ ranges then [] else [ofZone zone] := by
  induction ranges with
  | nil => rfl
  | cons range rest ih =>
    obtain ⟨absent, distinct⟩ := List.nodup_cons.mp distinct
    simp only [List.map_cons, place, fits_ofRange, decide_eq_true_eq]
    by_cases same : zone.velocities = range
    · subst same
      -- no later cell has this range, so none of them changes
      have unchanged : rest.map (ofRange zones) = rest.map (ofRange (zones ++ [zone])) := by
        apply List.map_congr_left
        intro range member
        exact (ofRange_concat_other fun equal => absent (equal ▸ member)).symm
      simp [push_ofRange, unchanged]
    · rw [if_neg same, ih distinct, ofRange_concat_other same]
      simp [same]

theorem ofZone_eq_ofRange {zones : List Zone} {zone : Zone}
    (new : zone.velocities ∉ zones.map Zone.velocities) :
    ofZone zone = ofRange (zones ++ [zone]) zone.velocities := by
  have others : zones.filter (fun other => other.velocities = zone.velocities) = [] := by
    rw [List.filter_eq_nil_iff]
    intro other member same
    exact new (List.mem_map.mpr ⟨other, member, by simpa using same⟩)
  have filtered :
      (zones ++ [zone]).filter (fun other => other.velocities = zone.velocities) = [zone] := by
    rw [List.filter_append, others]
    simp
  simp only [ofRange, filtered]
  rfl

/-- The loop over the zones leaves one cell for every range, filled in order. -/
theorem foldl_place (zones : List Zone) :
    zones.foldl (fun cells zone => place zone cells) [] =
      (zones.map Zone.velocities).eraseDups.map (ofRange zones) := by
  induction zones using List.reverseRecOn with
  | nil => rfl
  | append_singleton zones zone ih =>
    rw [List.foldl_append, List.foldl_cons, List.foldl_nil, ih,
      place_map_ofRange zones zone (nodup_eraseDups _), List.map_append, List.map_singleton,
      eraseDups_concat, List.map_append]
    by_cases known : zone.velocities ∈ zones.map Zone.velocities
    · simp only [List.mem_eraseDups, known, if_true, List.map_nil]
    · simp only [List.mem_eraseDups, known, if_false, List.map_singleton, ofZone_eq_ofRange known]

end Cell

namespace Instrument

theorem cells_eq (instrument : Instrument) (pitch : Int) :
    instrument.cells pitch =
      (instrument.ranges pitch).map (Cell.ofRange (instrument.answering pitch)) := by
  have answering : instrument.zones.toList.filter (fun zone => zone.answers pitch) =
      instrument.answering pitch := by
    apply List.filter_congr
    intro zone _
    rw [Bool.eq_iff_iff, decide_eq_true_iff, Zone.answers_iff_struckAt]
  rw [cells, answering]
  exact Cell.foldl_place _

theorem nodup_ranges (instrument : Instrument) (pitch : Int) : (instrument.ranges pitch).Nodup :=
  nodup_eraseDups _

end Instrument

end Sfz

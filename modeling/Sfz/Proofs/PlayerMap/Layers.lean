import Mathlib.Data.List.Basic
import Mathlib.Data.List.Nodup
import Sfz.Proofs.PlayerMap.Answers

/-! The layers of a player map.

At every pitch the zones that answer it are parted among the layers by their velocity ranges, and
which player a layer has is decided by its zones alone. Nothing here depends on where the draws
come from.
-/

set_option autoImplicit false

namespace Sfz

/-- Parting values by a key loses none of them and repeats none. -/
theorem perm_flatMap_filter {α κ : Type} [DecidableEq κ] (key : α → κ) {keys : List κ}
    (distinct : keys.Nodup) {values : List α} (covered : ∀ value ∈ values, key value ∈ keys) :
    (keys.flatMap fun part => values.filter fun value => key value = part).Perm values := by
  induction keys generalizing values with
  | nil =>
    have none : values = [] := by
      apply List.eq_nil_iff_forall_not_mem.mpr
      intro value member
      simpa using covered value member
    simp [none]
  | cons part keys ih =>
    obtain ⟨absent, distinct⟩ := List.nodup_cons.mp distinct
    -- the other parts are those of the values outside the first one
    have others (other : κ) (member : other ∈ keys) :
        values.filter (fun value => key value = other) =
          (values.filter fun value => !decide (key value = part)).filter
            fun value => key value = other := by
      rw [List.filter_filter]
      apply List.filter_congr
      intro value _
      by_cases same : key value = other
      · have differs : other ≠ part := fun equal => absent (equal ▸ member)
        simp [same, differs]
      · simp [same]
    have remaining : ∀ value ∈ values.filter fun value => !decide (key value = part),
        key value ∈ keys := by
      intro value member
      obtain ⟨inValues, differs⟩ := List.mem_filter.mp member
      have either := covered value inValues
      simp_all
    rw [List.flatMap_cons, List.flatMap_congr others]
    exact ((ih distinct remaining).append_left _).trans (List.filter_append_perm _ values)

variable {σ : Type}

/-- The players over the zones of a cell: one zone alone, all of several in turn if any of them
belongs to a sequence, and all of several at random otherwise. -/
inductive Player.Over (source : σ) (zones : List Zone) (pitch : Int) : Player σ → Prop where
  | single {zone : Zone} :
    zones = [zone] →
      Over source zones pitch (.single (.ofRegion zone.region pitch zone.sampleIndex))
  | roundRobin :
    1 < zones.length → (∃ zone ∈ zones, 1 < zone.region.seqLength) →
      (inTurn zones).Perm zones → Over source zones pitch (.roundRobin
        { entries := ((inTurn zones).map fun zone =>
            .ofRegion zone.region pitch zone.sampleIndex).toArray
          cursor := 0
          finalized := true })
  | weightedRandom :
    1 < zones.length → (∀ zone ∈ zones, zone.region.seqLength ≤ 1) →
      Over source zones pitch (.weightedRandom
        { entries := (zones.map fun zone =>
            .ofRegion zone.region pitch zone.sampleIndex).toArray
          source
          finalized := true })

theorem Player.over_ofZones (source : σ) {zones : List Zone} (nonempty : zones ≠ [])
    (pitch : Int) : Over source zones pitch (ofZones source zones pitch).1 := by
  by_cases several : 1 < zones.length
  · rw [ofZones_of_several several]
    by_cases sequence : zones.any fun zone => zone.region.isRoundRobin
    · have turns : RoundRobin.ofZones zones pitch =
          { entries := ((inTurn zones).map fun zone =>
              .ofRegion zone.region pitch zone.sampleIndex).toArray
            cursor := 0
            finalized := true } := by
        rw [← entries_ofZones]
        rfl
      rw [if_pos sequence, turns]
      exact .roundRobin several (by simpa [Region.isRoundRobin] using sequence)
        (List.mergeSort_perm zones _)
    · rw [if_neg sequence]
      exact .weightedRandom several (by simpa [Region.isRoundRobin] using sequence)
  · rcases zones with _ | ⟨only, _ | ⟨second, rest⟩⟩
    · exact absurd rfl nonempty
    · exact .single rfl
    · simp at several

def Layer.range (layer : Layer σ) : Int × Int :=
  (layer.loVel, layer.hiVel)

namespace Instrument

variable (instrument : Instrument) (pitch : Int)

theorem zonesOf_eq_filter (range : Int × Int) :
    instrument.zonesOf ⟨pitch, range⟩ =
      (instrument.answering pitch).filter fun zone => zone.velocities = range := by
  simp only [zonesOf, answering, List.filter_filter, Bool.decide_and, Bool.and_comm]

theorem zonesOf_ne_nil {range : Int × Int} (member : range ∈ instrument.ranges pitch) :
    instrument.zonesOf ⟨pitch, range⟩ ≠ [] := by
  obtain ⟨zone, answers, rfl⟩ := List.mem_map.mp (List.mem_eraseDups.mp member)
  rw [zonesOf_eq_filter]
  exact List.ne_nil_of_mem (List.mem_filter.mpr ⟨answers, by simp⟩)

theorem perm_flatMap_zonesOf :
    ((instrument.ranges pitch).flatMap fun range => instrument.zonesOf ⟨pitch, range⟩).Perm
      (instrument.answering pitch) := by
  simp only [zonesOf_eq_filter]
  apply perm_flatMap_filter Zone.velocities (instrument.nodup_ranges pitch)
  intro zone member
  exact List.mem_eraseDups.mpr (List.mem_map_of_mem member)

end Instrument

namespace PlayerMap

variable (source : Nat → Nat → σ) (instrument : Instrument) (pitch : Int)

def layerOf (source : σ) (range : Int × Int) : Layer σ :=
  { loVel := range.1
    hiVel := range.2
    player := (Player.ofZones source (instrument.zonesOf ⟨pitch, range⟩) pitch).1 }

theorem getElem?_layers_build (midi : 0 ≤ pitch ∧ pitch ≤ 127) (position : Nat) :
    ((build source instrument).1.layers pitch)[position]? =
      (instrument.ranges pitch)[position]?.map
        (layerOf instrument pitch (source pitch.toNat position)) := by
  have inRange : 0 ≤ pitch ∧ pitch < pitchCount := by
    simp only [pitchCount]
    omega
  have bound : pitch.toNat < pitchCount := by omega
  have same : (pitch.toNat : Int) = pitch := Int.toNat_of_nonneg midi.1
  rw [layers, dif_pos inRange]
  change (build source instrument).1.pitches[pitch.toNat][position]? = _
  simp only [build, Vector.getElem_map, Vector.getElem_ofFn, same, List.getElem?_map,
    List.getElem?_mapIdx, instrument.cells_eq]
  cases (instrument.ranges pitch)[position]? with
  | none => rfl
  | some range => simp [layerOf, Layer.ofCell, Cell.ofRange, ← instrument.zones_ofRange]

theorem map_range_layers_build (midi : 0 ≤ pitch ∧ pitch ≤ 127) :
    ((build source instrument).1.layers pitch).map Layer.range = instrument.ranges pitch := by
  apply List.ext_getElem?
  intro position
  rw [List.getElem?_map, getElem?_layers_build source instrument pitch midi, Option.map_map]
  exact Option.map_id'

/-- The layers of a pitch part the zones that answer it by their velocity ranges, in the order in
which the ranges first appear, and each layer has the player that its zones call for. There are
no layers outside the MIDI pitches. The zones of an instrument made of sections are its regions in
their order, each with its own number. -/
theorem layers_build :
    (∀ (source : Nat → Nat → σ) (instrument : Instrument) (pitch : Int),
      let layers := (build source instrument).1.layers pitch
      let zones (layer : Layer σ) := instrument.zonesOf ⟨pitch, layer.range⟩
      if 0 ≤ pitch ∧ pitch ≤ 127 then
        layers.map Layer.range = instrument.ranges pitch ∧
        (layers.map Layer.range).Nodup ∧
        (∀ position layer, layers[position]? = some layer →
          zones layer ≠ [] ∧
          layer.player.Over (source pitch.toNat position) (zones layer) pitch) ∧
        (layers.flatMap zones).Perm (instrument.answering pitch)
      else
        layers = []) ∧
    ∀ (sections : List Section) (report : Report),
      (Instrument.ofSections sections report).1.Paired := by
  refine ⟨?_, Instrument.paired_ofSections⟩
  intro source instrument pitch layers zones
  split
  · next midi =>
    have ranges : layers.map Layer.range = instrument.ranges pitch :=
      map_range_layers_build source instrument pitch midi
    refine ⟨ranges, ranges ▸ instrument.nodup_ranges pitch, ?_, ?_⟩
    · intro position layer found
      rw [getElem?_layers_build source instrument pitch midi, Option.map_eq_some_iff] at found
      obtain ⟨range, known, rfl⟩ := found
      have nonempty := instrument.zonesOf_ne_nil pitch (List.mem_of_getElem? known)
      exact ⟨nonempty, Player.over_ofZones _ nonempty pitch⟩
    · have parted := instrument.perm_flatMap_zonesOf pitch
      rwa [← ranges, List.flatMap_map] at parted
  · next outside =>
    apply dif_neg
    simp only [pitchCount]
    omega

end PlayerMap

end Sfz

import Mathlib.Data.Finset.Prod
import Mathlib.Data.Int.Interval
import Sfz.Proofs.Instrument.Slots

/-! The seeds of the players that pick at random.

The seed of a cell is made from one number, into which its pitch and the place of its layer are
packed. No two numbers that cells can have lead to the same seed, so players share a seed exactly
if their cells share the number. The first 128 layers of the pitches have numbers of their own.
The layer behind them has the number of the first layer of the next pitch.
-/

set_option autoImplicit false

namespace Sfz

namespace Instrument

variable {instrument : Instrument} (playable : instrument.Playable) {pitch : Int}
include playable

theorem midi_of_mem_ranges {range : Int × Int} (member : range ∈ instrument.ranges pitch) :
    (0 ≤ range.1 ∧ range.1 ≤ 127) ∧ 0 ≤ range.2 ∧ range.2 ≤ 127 := by
  obtain ⟨zone, answers, rfl⟩ := List.mem_map.mp (List.mem_eraseDups.mp member)
  have inZones : zone ∈ instrument.zones := Array.mem_toList_iff.mp (List.mem_filter.mp answers).1
  obtain ⟨low, ascend, high⟩ :=
    (Region.fault?_eq_none_iff_sound.mp (playable.valid zone inZones)).velocities
  simp only [Region.bounds] at low ascend high
  simp only [Zone.velocities]
  omega

theorem length_ranges_le : (instrument.ranges pitch).length ≤ pitchCount * pitchCount := by
  have midi : (instrument.ranges pitch).toFinset ⊆
      Finset.Icc (0 : Int) 127 ×ˢ Finset.Icc (0 : Int) 127 := by
    intro range member
    rw [Finset.mem_product, Finset.mem_Icc, Finset.mem_Icc]
    exact midi_of_mem_ranges playable (List.mem_toFinset.mp member)
  calc (instrument.ranges pitch).length
      = (instrument.ranges pitch).toFinset.card :=
        (List.toFinset_card_of_nodup (instrument.nodup_ranges pitch)).symm
    _ ≤ (Finset.Icc (0 : Int) 127 ×ˢ Finset.Icc (0 : Int) 127).card := Finset.card_le_card midi
    _ = pitchCount * pitchCount := by simp [pitchCount]

end Instrument

namespace PlayerMap

def cellNumber (pitch layer : Nat) : Nat :=
  pitch * pitchCount + layer

section Numbers

variable {pitch layer otherPitch otherLayer : Nat}

theorem spread_injective : Function.Injective fun word : UInt64 => word * 0x9E3779B97F4A7C15 := by
  -- the factor is odd, so it has an inverse modulo 2 ^ 64
  have inverse : Function.LeftInverse (fun word : UInt64 => word * 0xF1DE83E19937733D)
      fun word => word * 0x9E3779B97F4A7C15 := by
    intro word
    have one : (0x9E3779B97F4A7C15 : UInt64) * 0xF1DE83E19937733D = 1 := by decide
    dsimp only
    rw [UInt64.mul_assoc, one, UInt64.mul_one]
  exact inverse.injective

theorem cellSeed_eq_iff (bounded : cellNumber pitch layer < 2 ^ 64)
    (otherBounded : cellNumber otherPitch otherLayer < 2 ^ 64) (seed : UInt64) :
    cellSeed seed pitch layer = cellSeed seed otherPitch otherLayer ↔
      cellNumber pitch layer = cellNumber otherPitch otherLayer := by
  constructor
  · intro same
    have words := spread_injective (UInt64.add_right_inj _ |>.mp same)
    have numbers : (UInt64.ofNat (cellNumber pitch layer)).toNat =
        (UInt64.ofNat (cellNumber otherPitch otherLayer)).toNat := congrArg UInt64.toNat words
    rwa [UInt64.toNat_ofNat_of_lt' bounded, UInt64.toNat_ofNat_of_lt' otherBounded] at numbers
  · intro same
    exact congrArg (fun number => seed + UInt64.ofNat number * 0x9E3779B97F4A7C15) same

theorem eq_of_cellNumber_eq (low : layer < pitchCount) (otherLow : otherLayer < pitchCount)
    (same : cellNumber pitch layer = cellNumber otherPitch otherLayer) :
    pitch = otherPitch ∧ layer = otherLayer := by
  unfold cellNumber pitchCount at *
  omega

end Numbers

variable {σ : Type}

/-- The player of a layer picks at random, with its draws from the source. -/
def RandomAt (map : PlayerMap σ) (pitch : Int) (place : Nat) (source : σ) : Prop :=
  ∃ layer player, (map.layers pitch)[place]? = some layer ∧
    layer.player = .weightedRandom player ∧ player.source = source

section Build

variable {source : Nat → Nat → σ} {instrument : Instrument}

theorem RandomAt.of_build {pitch : Int} {place : Nat} {drawn : σ}
    (random : RandomAt (build source instrument).1 pitch place drawn) :
    (0 ≤ pitch ∧ pitch ≤ 127) ∧ place < (instrument.ranges pitch).length ∧
      drawn = source pitch.toNat place := by
  obtain ⟨layer, player, found, isRandom, rfl⟩ := random
  have midi : 0 ≤ pitch ∧ pitch ≤ 127 := by
    by_contra outside
    have none : (build source instrument).1.layers pitch = [] := by
      apply dif_neg
      simp only [pitchCount]
      omega
    rw [none] at found
    cases found
  rw [getElem?_layers_build source instrument pitch midi, Option.map_eq_some_iff] at found
  obtain ⟨range, known, rfl⟩ := found
  have kind := Player.over_ofZones (source pitch.toNat place)
    (instrument.zonesOf_ne_nil pitch (List.mem_of_getElem? known)) pitch
  change (Player.ofZones _ _ _).1 = _ at isRandom
  rw [isRandom] at kind
  refine ⟨midi, (List.getElem?_eq_some_iff.mp known).1, ?_⟩
  cases kind
  rfl

theorem randomAt_of_slots {slots : List Slot}
    (described : List.Forall₂ Slot.Describes slots (instrument.zones.toList.map Zone.region))
    (pitch : Fin 128)
    (range : Int × Int) {place : Nat}
    (known : (Slot.rangesAt slots pitch).eraseDups[place]? = some range)
    (several : 1 < (Slot.rangesAt slots pitch).count range) :
    RandomAt (build source instrument).1 pitch.val place (source pitch.val place) := by
  have midi : 0 ≤ (pitch.val : Int) ∧ (pitch.val : Int) ≤ 127 := by omega
  have found := getElem?_layers_build source instrument pitch.val midi place
  rw [Slot.ranges_eq described, known, Int.toNat_natCast] at found
  rw [← Slot.length_zonesOf described] at several
  have free : ¬(instrument.zonesOf ⟨pitch.val, range⟩).any
      fun zone => zone.region.isRoundRobin := by
    rw [List.any_eq_true]
    rintro ⟨zone, member, isRoundRobin⟩
    rw [Slot.not_isRoundRobin described zone (List.mem_filter.mp member).1] at isRoundRobin
    cases isRoundRobin
  have player := Player.ofZones_of_several several (source pitch.val place) pitch.val
  rw [if_neg free] at player
  exact ⟨_, _, found, player, rfl⟩

end Build

/-- In a map of a loaded instrument two players that pick at random share a seed exactly if their
cells share the number, which they do not within one pitch or within the first 128 layers. -/
theorem seeds_shared_iff {ρ : Type} [Lexer.Supplier ρ] {settings : Settings} {supplier? : Option ρ}
    {text : String} {report : Report} {instrument : Instrument}
    (loaded : (load settings supplier? text report).result = .ok instrument)
    (source : UInt64 → σ) (seed : UInt64) {pitch otherPitch : Int} {place otherPlace : Nat}
    {drawn otherDrawn : σ} (random : RandomAt (seeded source seed instrument).1 pitch place drawn)
    (otherRandom :
      RandomAt (seeded source seed instrument).1 otherPitch otherPlace otherDrawn) :
    let seedOf := cellSeed seed pitch.toNat place
    let otherSeed := cellSeed seed otherPitch.toNat otherPlace
    (drawn = source seedOf ∧ otherDrawn = source otherSeed) ∧
      (seedOf = otherSeed ↔
        cellNumber pitch.toNat place = cellNumber otherPitch.toNat otherPlace) ∧
      (seedOf = otherSeed → pitch = otherPitch → place = otherPlace) ∧
      (seedOf = otherSeed → place < pitchCount → otherPlace < pitchCount →
        pitch = otherPitch ∧ place = otherPlace) := by
  intro seedOf otherSeed
  have playable := Instrument.playable_of_load loaded
  have bounded {pitch : Int} {place : Nat} (midi : 0 ≤ pitch ∧ pitch ≤ 127)
      (inRanges : place < (instrument.ranges pitch).length) :
      cellNumber pitch.toNat place < 2 ^ 64 := by
    have few := @Instrument.length_ranges_le instrument playable pitch
    unfold cellNumber pitchCount at *
    omega
  obtain ⟨midi, inRanges, started⟩ := random.of_build
  obtain ⟨otherMidi, otherInRanges, otherStarted⟩ := otherRandom.of_build
  have shared := cellSeed_eq_iff (bounded midi inRanges) (bounded otherMidi otherInRanges) seed
  refine ⟨⟨started, otherStarted⟩, shared, ?_, ?_⟩
  · rintro same rfl
    exact Nat.add_left_cancel (shared.mp same)
  · intro same low otherLow
    obtain ⟨pitches, places⟩ := eq_of_cellNumber_eq low otherLow (shared.mp same)
    exact ⟨by omega, places⟩

/-- Two keys with two regions each. -/
theorem seeds_shared_iff_keys :
    let slots : List Slot := [⟨60, 0, 127, by decide⟩, ⟨60, 0, 127, by decide⟩,
      ⟨61, 0, 127, by decide⟩, ⟨61, 0, 127, by decide⟩]
    ∃ instrument first second,
      (load {} none (Slot.text slots) {}).result = .ok instrument ∧
        RandomAt (seeded id 1234 instrument).1 60 0 first ∧
        RandomAt (seeded id 1234 instrument).1 61 0 second ∧ first ≠ second := by
  intro slots
  have valid : ({} : Settings).fault? = none := rfl
  obtain ⟨instrument, loaded, described⟩ :=
    Slot.exists_loaded valid (none : Option Lexer.Resolver) slots {}
  have low : RandomAt (seeded id 1234 instrument).1 60 0 _ :=
    randomAt_of_slots described 60 (0, 127) (by decide +kernel) (by decide +kernel)
  have high : RandomAt (seeded id 1234 instrument).1 61 0 _ :=
    randomAt_of_slots described 61 (0, 127) (by decide +kernel) (by decide +kernel)
  obtain ⟨-, -, -, apart⟩ := seeds_shared_iff loaded id 1234 low high
  refine ⟨instrument, _, _, loaded, low, high, fun same => ?_⟩
  exact absurd (apart same (by decide) (by decide)).1 (by decide)

/-- One region at key 0 for each of 127 ranges and one more, two in a last layer behind these, and
two regions at key 1. -/
def crowdedSlots : List Slot :=
  List.ofFn (fun velocity : Fin 127 => ⟨0, 0, velocity.castSucc, Fin.zero_le _⟩) ++
    [⟨0, 1, 1, le_rfl⟩, ⟨0, 127, 127, le_rfl⟩, ⟨0, 127, 127, le_rfl⟩,
      ⟨1, 0, 127, Fin.zero_le _⟩, ⟨1, 0, 127, Fin.zero_le _⟩]

/-- The last layer of the lower key draws in lockstep with the layer of the upper one. -/
theorem seeds_collide_crowded :
    ∃ instrument shared,
      (load { randomSeed := some 1234 } none (Slot.text crowdedSlots) {}).result =
          .ok instrument ∧
        RandomAt (seeded id 1234 instrument).1 0 128 shared ∧
        RandomAt (seeded id 1234 instrument).1 1 0 shared ∧
        cellSeed 1234 0 128 = cellSeed 1234 1 0 := by
  have valid : ({ randomSeed := some 1234 } : Settings).fault? = none := rfl
  obtain ⟨instrument, loaded, described⟩ :=
    Slot.exists_loaded valid (none : Option Lexer.Resolver) crowdedSlots {}
  have last : RandomAt (seeded id 1234 instrument).1 0 128 _ :=
    randomAt_of_slots described 0 (127, 127) (by decide +kernel) (by decide +kernel)
  have next : RandomAt (seeded id 1234 instrument).1 1 0 _ :=
    randomAt_of_slots described 1 (0, 127) (by decide +kernel) (by decide +kernel)
  exact ⟨instrument, _, loaded, last, next, rfl⟩

end PlayerMap

end Sfz

import Mathlib.Data.List.Basic
import Sfz.Player

/-! Players after a number of answered queries.

A query advances a player by one turn whatever its pitch and velocity are, so the state of a
finalized player is known from its entries and the number of its turns. Which zone a player over
zones answers with is said here on the zones themselves, without the tables of the players.
-/

set_option autoImplicit false

namespace Sfz

section Draws

variable {σ : Type} [DrawSource σ]

def DrawSource.after (source : σ) : Nat → σ
  | 0 => source
  | count + 1 => (DrawSource.draw (DrawSource.after source count)).2

def DrawSource.nth (source : σ) (index : Nat) : Float32 :=
  (DrawSource.draw (DrawSource.after source index)).1

end Draws

def Zone.sound (zone : Zone) (query : Query) : Sound :=
  { sampleIndex := zone.sampleIndex
    needsTranspose := zone.region.semitones query.pitch ≠ 0
    transposeRatio := transposeRatio (zone.region.semitones query.pitch)
    gain := velocityGain query.velocity zone.region.ampVeltrack
    ampegRelease := zone.region.ampegRelease
    loopMode := zone.region.loopMode }

def Query.Sounds (query : Query) : Prop :=
  1 ≤ query.velocity ∧ query.velocity ≤ 127

theorem Voicing.sound?_ofRegion {query : Query} (sounds : query.Sounds) (zone : Zone) :
    (Voicing.ofRegion zone.region query.pitch zone.sampleIndex).sound? query.velocity =
      some (zone.sound query) := by
  have velocity : (query.velocity.toNat : Int) = query.velocity :=
    Int.toNat_of_nonneg (by have := sounds.1; omega)
  have entry (index : Fin 128) :
      (ofRegion zone.region query.pitch zone.sampleIndex).gains.get index =
        velocityGain (index.val : Int) zone.region.ampVeltrack :=
    Vector.getElem_ofFn index.isLt
  have gain : (ofRegion zone.region query.pitch zone.sampleIndex).gain? query.velocity =
      some (velocityGain query.velocity zone.region.ampVeltrack) := by
    rw [gain?, dif_pos ⟨sounds.1, sounds.2⟩, entry, velocity]
  rw [sound?, gain]
  rfl

namespace RoundRobin

def atTurn (entries : Array Entry) (turn : Nat) : RoundRobin :=
  { entries, cursor := turn % entries.size, finalized := true }

theorem play_atTurn {entries : Array Entry} (nonempty : 0 < entries.size) (turn : Nat)
    (query : Query) :
    (atTurn entries turn).play query =
      (entries[turn % entries.size]?.bind fun entry => entry.voicing.sound? query.velocity,
        atTurn entries (turn + 1)) := by
  have inside : turn % entries.size < entries.size := Nat.mod_lt _ nonempty
  simp [play, atTurn, inside, Nat.mod_add_mod]

end RoundRobin

namespace WeightedRandom

variable {σ : Type} [DrawSource σ]

def atTurn (entries : Array Entry) (source : σ) (turn : Nat) : WeightedRandom σ :=
  { entries, source := DrawSource.after source turn, finalized := true }

theorem play_atTurn {entries : Array Entry} (nonempty : 0 < entries.size) (source : σ)
    (turn : Nat) (query : Query) :
    (atTurn entries source turn).play query =
      ((select? entries (DrawSource.nth source turn)).bind
          fun entry => entry.voicing.sound? query.velocity,
        atTurn entries source (turn + 1)) := by
  have filled : entries.isEmpty = false := by
    simpa [Array.isEmpty_iff_size_eq_zero] using Nat.ne_of_gt nonempty
  simp only [play, atTurn, filled, Bool.not_false, Bool.and_self, if_true]
  rfl

end WeightedRandom

namespace Player

variable {σ : Type} [DrawSource σ]

/-- Zones in the order of their turns; zones with equal positions keep their order. -/
def inTurn (zones : List Zone) : List Zone :=
  zones.mergeSort fun first second => first.region.seqPosition ≤ second.region.seqPosition

/-- The zone that takes a turn: the only zone, the next one in a sequence, or the first one whose
upper bound lies above the draw of the turn. -/
def chosen? (source : σ) (zones : List Zone) (turn : Nat) : Option Zone :=
  match zones with
  | [zone] => some zone
  | zones =>
    if zones.any fun zone => zone.region.isRoundRobin then
      (inTurn zones)[turn % zones.length]?
    else
      zones.find? fun zone => DrawSource.nth source turn < clamp 0 1 zone.region.hiRand

def atTurn (source : σ) (zones : List Zone) (pitch : Int) (turn : Nat) : Player σ :=
  match zones with
  | [] => silent
  | [zone] => single (.ofRegion zone.region pitch zone.sampleIndex)
  | zones =>
    if zones.any fun zone => zone.region.isRoundRobin then
      roundRobin (.atTurn (RoundRobin.ofZones zones pitch).entries turn)
    else
      weightedRandom (.atTurn (WeightedRandom.ofZones source zones pitch).1.entries source turn)

section Several

variable {zones : List Zone} (several : 1 < zones.length)
include several

theorem chosen?_of_several (source : σ) (turn : Nat) :
    chosen? source zones turn =
      if zones.any fun zone => zone.region.isRoundRobin then
        (inTurn zones)[turn % zones.length]?
      else
        zones.find? fun zone => DrawSource.nth source turn < clamp 0 1 zone.region.hiRand := by
  rcases zones with _ | ⟨first, _ | ⟨second, rest⟩⟩
  · simp at several
  · simp at several
  · rfl

theorem atTurn_of_several (source : σ) (pitch : Int) (turn : Nat) :
    atTurn source zones pitch turn =
      if zones.any fun zone => zone.region.isRoundRobin then
        roundRobin (.atTurn (RoundRobin.ofZones zones pitch).entries turn)
      else
        weightedRandom
          (.atTurn (WeightedRandom.ofZones source zones pitch).1.entries source turn) := by
  rcases zones with _ | ⟨first, _ | ⟨second, rest⟩⟩
  · simp at several
  · simp at several
  · rfl

omit [DrawSource σ] in
theorem ofZones_of_several (source : σ) (pitch : Int) :
    (ofZones source zones pitch).1 =
      if zones.any fun zone => zone.region.isRoundRobin then
        roundRobin (.ofZones zones pitch)
      else
        weightedRandom (WeightedRandom.ofZones source zones pitch).1 := by
  rcases zones with _ | ⟨first, _ | ⟨second, rest⟩⟩
  · simp at several
  · simp at several
  · simp only [ofZones]
    split <;> rfl

end Several

theorem ofZones_eq_atTurn (source : σ) (zones : List Zone) (pitch : Int) :
    (ofZones source zones pitch).1 = atTurn source zones pitch 0 := by
  by_cases several : 1 < zones.length
  · rw [ofZones_of_several several, atTurn_of_several several]
    simp only [RoundRobin.atTurn, Nat.zero_mod]
    rfl
  · rcases zones with _ | ⟨first, _ | ⟨second, rest⟩⟩
    · rfl
    · rfl
    · simp at several

theorem entries_ofZones (zones : List Zone) (pitch : Int) :
    (RoundRobin.ofZones zones pitch).entries =
      ((inTurn zones).map fun zone =>
        RoundRobin.Entry.ofRegion zone.region pitch zone.sampleIndex).toArray := by
  unfold inTurn
  rw [List.map_mergeSort]
  · rfl
  · intro first _ second _
    rfl

theorem size_entries_ofZones (zones : List Zone) (pitch : Int) :
    (RoundRobin.ofZones zones pitch).entries.size = zones.length := by
  simp [entries_ofZones, inTurn]

section Queries

variable {query : Query} (sounds : query.Sounds) {zones : List Zone}
include sounds

theorem play_sequence (nonempty : 0 < zones.length) (turn : Nat) :
    (RoundRobin.atTurn (RoundRobin.ofZones zones query.pitch).entries turn).play query =
      ((inTurn zones)[turn % zones.length]?.map fun zone => zone.sound query,
        RoundRobin.atTurn (RoundRobin.ofZones zones query.pitch).entries (turn + 1)) := by
  have size := size_entries_ofZones zones query.pitch
  have voiced (zone : Zone) :
      (RoundRobin.Entry.ofRegion zone.region query.pitch zone.sampleIndex).voicing.sound?
        query.velocity = some (zone.sound query) := Voicing.sound?_ofRegion sounds zone
  rw [RoundRobin.play_atTurn (by rwa [size]), size]
  congr 1
  rw [entries_ofZones, List.getElem?_toArray, List.getElem?_map, Option.bind_map,
    Option.map_eq_bind]
  simp only [Function.comp_def, voiced]

theorem play_random (nonempty : 0 < zones.length) (source : σ) (turn : Nat) :
    (WeightedRandom.atTurn (WeightedRandom.ofZones source zones query.pitch).1.entries
        source turn).play query =
      ((zones.find? fun zone =>
          DrawSource.nth source turn < clamp 0 1 zone.region.hiRand).map
          fun zone => zone.sound query,
        WeightedRandom.atTurn (WeightedRandom.ofZones source zones query.pitch).1.entries
          source (turn + 1)) := by
  have entries : (WeightedRandom.ofZones source zones query.pitch).1.entries =
      (zones.map fun zone =>
        WeightedRandom.Entry.ofRegion zone.region query.pitch zone.sampleIndex).toArray := rfl
  rw [entries, WeightedRandom.play_atTurn (by simpa using nonempty)]
  congr 1
  simp only [WeightedRandom.select?, List.find?_toArray, List.find?_map, Option.bind_map]
  have voiced (zone : Zone) :
      (WeightedRandom.Entry.ofRegion zone.region query.pitch zone.sampleIndex).voicing.sound?
        query.velocity = some (zone.sound query) := Voicing.sound?_ofRegion sounds zone
  rw [Option.map_eq_bind]
  simp only [Function.comp_def, voiced]
  rfl

end Queries

/-- A player answers with the zone whose turn it is, and then it is the next turn. -/
theorem play_atTurn {query : Query} (sounds : query.Sounds) (source : σ) (zones : List Zone)
    (turn : Nat) :
    (atTurn source zones query.pitch turn).play query =
      ((chosen? source zones turn).map fun zone => zone.sound query,
        atTurn source zones query.pitch (turn + 1)) := by
  by_cases several : 1 < zones.length
  · have nonempty : 0 < zones.length := by omega
    simp only [atTurn_of_several several, chosen?_of_several several]
    by_cases sequence : zones.any fun zone => zone.region.isRoundRobin
    · simp only [sequence, if_true, play, play_sequence sounds nonempty]
    · simp only [sequence, Bool.false_eq_true, if_false, play, play_random sounds nonempty]
  · rcases zones with _ | ⟨only, _ | ⟨second, rest⟩⟩
    · rfl
    · simp only [atTurn, chosen?, play, Single.ofRegion, Voicing.sound?_ofRegion sounds,
        Option.map_some]
    · simp at several

end Player

end Sfz

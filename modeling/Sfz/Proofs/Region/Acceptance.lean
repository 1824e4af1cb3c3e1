import Sfz.Proofs.Instrument.Bounds
import Sfz.Proofs.Instrument.Inheritance
import Sfz.Proofs.Number.Rational

/-! Which regions are accepted, and the notes that an accepted region answers.

Six numbers decide, each given by the last assignment of its name whose text is a number. A region
is accepted exactly if they make sense together, and it then answers the pitches of one interval
that is never empty.
-/

set_option autoImplicit false

namespace Sfz

def lastNumber? (assignments : List Assignment) (name : String) : Option Int :=
  assignments.reverse.findSome? fun assignment =>
    if assignment.key = name then Note.ofText? assignment.value else none

theorem Value.isFinite_of_convert? {type : ValueType} {text : String} {number : Float32}
    (converted : convert? type text = some (.float number)) : number.isFinite := by
  cases type <;> simp only [convert?, Option.map_eq_some_iff, Value.float.injEq, Option.some.injEq,
    reduceCtorEq, and_false, exists_false, exists_eq_right] at converted
  obtain ⟨decimal, -, finite⟩ := Option.bind_eq_some_iff.mp converted
  split at finite
  · next isFinite =>
    cases finite
    exact isFinite
  · cases finite

namespace OpcodeTable

theorem int?_compile {opcode : Opcode} {name : String} (named : opcode.name? = some name)
    (int : opcode.valueType = .int) (assignments : List Assignment) :
    (compile assignments).int? opcode = lastNumber? assignments name := by
  have converts (assignment : Assignment) :
      (if assignment.key = name then Value.convert? opcode.valueType assignment.value else none) =
        (if assignment.key = name then Note.ofText? assignment.value else none).map .int := by
    rw [int]
    split <;> rfl
  have undo : (fun number => (Value.int number).int?) = some := rfl
  rw [int?, get?_compile_of_name? named]
  simp only [converts]
  rw [← Function.comp_def (Option.map Value.int), ← List.map_findSome?, Option.bind_map,
    Function.comp_def, undo, Option.bind_fun_some, lastNumber?]

theorem isFinite_of_float? {assignments : List Assignment} {opcode : Opcode} {number : Float32}
    (found : (compile assignments).float? opcode = some number) : number.isFinite := by
  obtain ⟨value, stored, float⟩ := Option.bind_eq_some_iff.mp found
  rw [get?_compile] at stored
  obtain ⟨assignment, -, converted⟩ := List.exists_of_findSome?_eq_some stored
  cases value <;> simp only [Value.float?, Option.some.injEq, reduceCtorEq] at float
  subst float
  split at converted
  · exact Value.isFinite_of_convert? converted
  · cases converted

end OpcodeTable

namespace Region

/-- The numbers that bound the notes of a region, and its keycenter; a key of -1 is not set. -/
structure Bounds where
  loKey : Int
  hiKey : Int
  key : Int
  keycenter : Int
  loVel : Int
  hiVel : Int

namespace Bounds

/-- The bounds that a list of assignments gives. The key doubles as an absent keycenter. -/
def ofAssignments (assignments : List Assignment) : Bounds :=
  let number (name : String) (default : Int) := (lastNumber? assignments name).getD default
  { loKey := number "lokey" (-1)
    hiKey := number "hikey" (-1)
    key := number "key" (-1)
    keycenter := number "pitch_keycenter" (number "key" (-1))
    loVel := number "lovel" 0
    hiVel := number "hivel" 127 }

structure Sound (bounds : Bounds) : Prop where
  loKey : -1 ≤ bounds.loKey ∧ bounds.loKey ≤ 127
  hiKey : -1 ≤ bounds.hiKey ∧ bounds.hiKey ≤ 127
  key : -1 ≤ bounds.key ∧ bounds.key ≤ 127
  keycenter : -1 ≤ bounds.keycenter ∧ bounds.keycenter ≤ 127
  ordered : bounds.loKey ≠ -1 → bounds.hiKey ≠ -1 → bounds.loKey ≤ bounds.hiKey
  velocities : 0 ≤ bounds.loVel ∧ bounds.loVel ≤ bounds.hiVel ∧ bounds.hiVel ≤ 127

variable (bounds : Bounds)

def first : Int :=
  if bounds.key ≠ -1 then bounds.key else if bounds.loKey = -1 then 0 else bounds.loKey

def last : Int :=
  if bounds.key ≠ -1 then bounds.key else if bounds.hiKey = -1 then 127 else bounds.hiKey

theorem Sound.interval {bounds : Bounds} (sound : bounds.Sound) :
    0 ≤ bounds.first ∧ bounds.first ≤ bounds.last ∧ bounds.last ≤ 127 := by
  obtain ⟨loKey, hiKey, key, -, ordered, -⟩ := sound
  unfold first last
  grind

end Bounds

def bounds (region : Region) : Bounds :=
  { loKey := region.loKey
    hiKey := region.hiKey
    key := region.onlyKey
    keycenter := region.keycenter
    loVel := region.loVel
    hiVel := region.hiVel }

theorem bounds_draft (assignments : List Assignment) (line : Nat) :
    (draft (.compile assignments) line).bounds = .ofAssignments assignments := by
  have number (opcode : Opcode) (name : String) (named : opcode.name? = some name)
      (int : opcode.valueType = .int) :=
    OpcodeTable.int?_compile named int assignments
  simp only [draft, bounds, Bounds.ofAssignments, number .loKey _ rfl rfl,
    number .hiKey _ rfl rfl, number .key _ rfl rfl, number .pitchKeycenter _ rfl rfl,
    number .loVel _ rfl rfl, number .hiVel _ rfl rfl]

theorem fault?_eq_none_iff_sound {region : Region} :
    region.fault? = none ↔ region.bounds.Sound := by
  rw [fault?_eq_none_iff]
  constructor
  · rintro ⟨keys, ordered, velocities, ascend⟩
    simp only [List.forall_mem_cons] at keys velocities
    obtain ⟨loKey, hiKey, key, keycenter, -⟩ := keys
    exact ⟨loKey, hiKey, key, keycenter, ordered, velocities.1.1, ascend, velocities.2.1.2⟩
  · rintro ⟨loKey, hiKey, key, keycenter, ordered, low, ascend, high⟩
    refine ⟨?_, ordered, ?_, ascend⟩
    · exact List.forall_mem_cons.mpr ⟨loKey, List.forall_mem_cons.mpr ⟨hiKey,
        List.forall_mem_cons.mpr ⟨key, List.forall_mem_singleton.mpr keycenter⟩⟩⟩
    · exact List.forall_mem_cons.mpr ⟨⟨low, ascend.trans high⟩,
        List.forall_mem_singleton.mpr ⟨low.trans ascend, high⟩⟩

theorem matchesPitch_iff {region : Region} {pitch : Int} (midi : 0 ≤ pitch ∧ pitch ≤ 127) :
    region.matchesPitch pitch ↔ region.bounds.first ≤ pitch ∧ pitch ≤ region.bounds.last := by
  simp only [matchesPitch, Bounds.first, Bounds.last, bounds]
  by_cases single : region.onlyKey = -1
  · simp only [single, ne_eq, not_true_eq_false, if_false, Bool.and_eq_true, Bool.or_eq_true,
      decide_eq_true_eq]
    grind
  · simp only [single, ne_eq, not_false_eq_true, if_true, decide_eq_true_eq]
    omega

section Sound

variable {region : Region} (sound : region.bounds.Sound)
include sound

/-- Some struck key is answered unless the velocities are bounded to 0. -/
theorem exists_matchesNote_iff :
    (∃ pitch velocity, 0 ≤ pitch ∧ pitch ≤ 127 ∧ 1 ≤ velocity ∧ velocity ≤ 127 ∧
      region.matchesNote pitch velocity) ↔ 1 ≤ region.bounds.hiVel := by
  obtain ⟨firstNonneg, ascend, lastLe⟩ := sound.interval
  obtain ⟨lowNonneg, ordered, highLe⟩ := sound.velocities
  constructor
  · rintro ⟨pitch, velocity, -, -, on, -, answers⟩
    simp only [matchesNote, matchesVelocity, Bool.and_eq_true, decide_eq_true_eq] at answers
    exact on.trans answers.2.2
  · intro high
    refine ⟨region.bounds.first, region.bounds.hiVel, firstNonneg, ascend.trans lastLe, high,
      highLe, ?_⟩
    have pitch := (matchesPitch_iff ⟨firstNonneg, ascend.trans lastLe⟩).mpr ⟨le_rfl, ascend⟩
    have velocity : region.matchesVelocity region.bounds.hiVel := by
      simp only [matchesVelocity, Bool.and_eq_true, decide_eq_true_eq]
      exact ⟨ordered, le_rfl⟩
    rw [matchesNote, pitch, velocity]
    rfl

end Sound

theorem tracking_draft (assignments : List Assignment) (line : Nat) :
    let tracking := (draft (.compile assignments) line).ampVeltrack
    tracking.isFinite ∧ 0 ≤ rational tracking ∧ rational tracking ≤ 100 := by
  have zeroFinite : Float32.isFinite 0 := rfl
  have hundredFinite : Float32.isFinite 100 := rfl
  have finite : (((OpcodeTable.compile assignments).float? .ampVeltrack).getD 100).isFinite := by
    cases found : (OpcodeTable.compile assignments).float? .ampVeltrack with
    | none => exact hundredFinite
    | some number => exact OpcodeTable.isFinite_of_float? found
  have clamped := rational_clamp zeroFinite hundredFinite finite (by simp)
  refine ⟨isFinite_clamp zeroFinite hundredFinite finite, ?_, ?_⟩
  · change 0 ≤ rational (clamp 0 100 _)
    simp [clamped]
  · change rational (clamp 0 100 _) ≤ 100
    simp [clamped]

structure Answers (region : Region) (bounds : Bounds) : Prop where
  bounded : region.bounds = bounds
  tracking : region.ampVeltrack.isFinite ∧
    0 ≤ rational region.ampVeltrack ∧ rational region.ampVeltrack ≤ 100
  nonempty : 0 ≤ bounds.first ∧ bounds.first ≤ bounds.last ∧ bounds.last ≤ 127
  pitches : ∀ pitch, 0 ≤ pitch → pitch ≤ 127 →
    (region.matchesPitch pitch ↔ bounds.first ≤ pitch ∧ pitch ≤ bounds.last)
  audible : (∃ pitch velocity, 0 ≤ pitch ∧ pitch ≤ 127 ∧ 1 ≤ velocity ∧ velocity ≤ 127 ∧
    region.matchesNote pitch velocity) ↔ 1 ≤ bounds.hiVel

theorem answers_draft {assignments : List Assignment} {line : Nat}
    (sound : (draft (.compile assignments) line).bounds.Sound) :
    let region := draft (.compile assignments) line
    region.Answers region.bounds where
  bounded := rfl
  tracking := tracking_draft assignments line
  nonempty := sound.interval
  pitches _ low high := matchesPitch_iff ⟨low, high⟩
  audible := exists_matchesNote_iff sound

/-- A region is accepted exactly if the numbers of its assignments make sense together, and then
the notes that it answers are those that these numbers bound. -/
theorem ofOpcodes_exact (assignments : List Assignment) (line : Nat) :
    let made := ofOpcodes (.compile assignments) line
    let bounds := Bounds.ofAssignments assignments
    ((∃ region, made = .ok region) ↔ bounds.Sound) ∧
      ∀ region, made = .ok region → region.Answers bounds := by
  intro made bounds
  have accepted (region : Region) :
      made = .ok region ↔ bounds.Sound ∧ draft (.compile assignments) line = region := by
    rw [ofOpcodes_eq_ok_iff, fault?_eq_none_iff_sound, bounds_draft]
  constructor
  · simp [accepted]
  · rintro region ok
    obtain ⟨sound, rfl⟩ := (accepted region).mp ok
    have same : (draft (.compile assignments) line).bounds = bounds :=
      bounds_draft assignments line
    rw [← same] at sound ⊢
    exact answers_draft sound

end Region

end Sfz

import Sfz.Proofs.Instrument.Diagnostics
import Sfz.Proofs.Instrument.Inheritance

/-! What compiling a list of assignments yields.

The table and the diagnostics are told here from the list itself: the assignment that governs an
opcode is the last one to its name whose text converts, and each assignment is recorded for what
is wrong with it, whatever stands around it.
-/

set_option autoImplicit false

namespace Sfz

def Discrete.vocabulary : List String :=
  ["loop_continuous", "loop_sustain", "no_loop", "one_shot", "attack", "release"]

theorem Discrete.ofText_eq_unmapped_iff {text : String} :
    ofText text = .unmapped ↔ text ∉ vocabulary := by
  unfold ofText
  split <;> simp_all [vocabulary]

namespace Assignment

variable {assignment : Assignment}

def Sets (assignment : Assignment) (opcode : Opcode) (value : Value) : Prop :=
  opcode.name? = some assignment.key ∧
    Value.convert? opcode.valueType assignment.value = some value

def Unknown (assignment : Assignment) : Prop :=
  ∀ opcode : Opcode, opcode.name? ≠ some assignment.key

/-- The key names an opcode, and the text does not convert or is no discrete value. -/
def Bad (assignment : Assignment) : Prop :=
  ∃ opcode : Opcode, opcode.name? = some assignment.key ∧
    (Value.convert? opcode.valueType assignment.value = none ∨
      Value.convert? opcode.valueType assignment.value = some (.discrete .unmapped))

theorem converted?_of_name? {opcode : Opcode} (named : opcode.name? = some assignment.key) :
    assignment.converted? = Value.convert? opcode.valueType assignment.value := by
  rw [converted?, ValueType.ofKey, Opcode.ofName_of_name? named]

theorem ofName_key_of_name? {opcode : Opcode} (named : opcode.name? = some assignment.key) :
    Opcode.ofName assignment.key ≠ .unrecognized := by
  rw [Opcode.ofName_of_name? named]
  rintro rfl
  cases named

theorem exists_name?_of_ofName (known : Opcode.ofName assignment.key ≠ .unrecognized) :
    ∃ opcode : Opcode, opcode.name? = some assignment.key :=
  ⟨Opcode.ofName assignment.key, (Opcode.ofName_eq_iff known).mp rfl⟩

theorem unknown_iff : assignment.Unknown ↔ Opcode.ofName assignment.key = .unrecognized := by
  constructor
  · intro unknown
    by_contra known
    obtain ⟨opcode, named⟩ := exists_name?_of_ofName known
    exact unknown opcode named
  · intro unrecognized opcode named
    exact ofName_key_of_name? named unrecognized

theorem sets_iff {opcode : Opcode} {value : Value} :
    assignment.Sets opcode value ↔
      (if Opcode.ofName assignment.key = opcode then assignment.converted? else none) =
        some value := by
  cases named : opcode.name? with
  | none =>
    -- nothing converts for a key without a name
    obtain rfl := Opcode.name?_eq_none_iff.mp named
    by_cases same : Opcode.ofName assignment.key = .unrecognized
    · have nothing : assignment.converted? = none := by
        rw [converted?, ValueType.ofKey, same]
        rfl
      simp [Sets, named, nothing]
    · simp [Sets, named, same]
  | some name =>
    rw [ite_converted? named, Sets, named]
    by_cases same : assignment.key = name
    · simp [same]
    · simp [same, Ne.symm same]

theorem issue?_eq_unrecognized_iff :
    assignment.issue? = some .unrecognized ↔ assignment.Unknown := by
  rw [unknown_iff, issue?]
  grind

theorem issue?_bad_iff :
    (assignment.issue? = some .unconvertible ∨ assignment.issue? = some .unmapped) ↔
      assignment.Bad := by
  constructor
  · intro issue
    have known : Opcode.ofName assignment.key ≠ .unrecognized := by
      intro unrecognized
      simp [issue?, unrecognized] at issue
    obtain ⟨opcode, named⟩ := exists_name?_of_ofName known
    refine ⟨opcode, named, ?_⟩
    rw [← converted?_of_name? named]
    rw [issue?, if_neg known] at issue
    grind
  · rintro ⟨opcode, named, converts⟩
    rw [← converted?_of_name? named] at converts
    rw [issue?, if_neg (ofName_key_of_name? named)]
    rcases converts with fails | unmapped
    · simp [fails]
    · simp [unmapped]

end Assignment

namespace Diagnostics

variable {text : String} {diagnostics : Diagnostics} {assignment : Assignment}

@[simp] theorem mem_addUnrecognized {name : String} :
    text ∈ (diagnostics.addUnrecognized name).unrecognized ↔
      text ∈ diagnostics.unrecognized ∨ text = name := by
  rw [addUnrecognized, Std.ExtTreeSet.mem_insert, Std.LawfulEqCmp.compare_eq_iff_eq,
    eq_comm (a := name), or_comm]

@[simp] theorem mem_addInvalid {key value : String} :
    text ∈ (diagnostics.addInvalid key value).invalidValues ↔
      text ∈ diagnostics.invalidValues ∨ text = key ++ "=" ++ value := by
  rw [addInvalid, Std.ExtTreeSet.mem_insert, Std.LawfulEqCmp.compare_eq_iff_eq,
    eq_comm (b := text), or_comm]
  rfl

theorem mem_note_unrecognized :
    text ∈ (diagnostics.note assignment).unrecognized ↔
      text ∈ diagnostics.unrecognized ∨ assignment.Unknown ∧ text = assignment.key := by
  rw [← Assignment.issue?_eq_unrecognized_iff, note]
  rcases assignment.issue? with _ | _ | _ | _ <;> simp [addInvalid]

theorem mem_note_invalidValues :
    text ∈ (diagnostics.note assignment).invalidValues ↔
      text ∈ diagnostics.invalidValues ∨
        assignment.Bad ∧ text = assignment.key ++ "=" ++ assignment.value := by
  rw [← Assignment.issue?_bad_iff, note]
  rcases assignment.issue? with _ | _ | _ | _ <;> simp [addUnrecognized]

theorem mem_foldl_note {texts : Diagnostics → TextSet} {adds : Assignment → Prop}
    (each : ∀ diagnostics assignment,
      text ∈ texts (note diagnostics assignment) ↔ text ∈ texts diagnostics ∨ adds assignment)
    (diagnostics : Diagnostics) (assignments : List Assignment) :
    text ∈ texts (assignments.foldl Diagnostics.note diagnostics) ↔
      text ∈ texts diagnostics ∨ ∃ assignment ∈ assignments, adds assignment := by
  induction assignments generalizing diagnostics with
  | nil => simp
  | cons assignment rest ih => simp [ih, each, or_assoc]

end Diagnostics

namespace OpcodeTable

variable {assignments : List Assignment} {opcode : Opcode}

/-- The last assignment that sets the opcode at all sets it to the value. -/
def Governs (assignments : List Assignment) (opcode : Opcode) (value : Value) : Prop :=
  ∃ before last after, assignments = before ++ last :: after ∧ last.Sets opcode value ∧
    ∀ later ∈ after, ∀ other, ¬later.Sets opcode other

theorem get?_compile_eq_some_iff {value : Value} :
    (compile assignments).get? opcode = some value ↔ Governs assignments opcode value := by
  rw [get?_compile, List.findSome?_eq_some_iff, Governs]
  simp only [← Assignment.sets_iff, Option.eq_none_iff_forall_ne_some, ne_eq]
  constructor
  · rintro ⟨after, last, before, split, sets, rest⟩
    refine ⟨before.reverse, last, after.reverse, ?_, sets, by simpa using rest⟩
    simpa using congrArg List.reverse split
  · rintro ⟨before, last, after, rfl, sets, rest⟩
    exact ⟨after.reverse, last, before.reverse, by simp, sets, by simpa using rest⟩

theorem get?_compile_eq_none_iff :
    (compile assignments).get? opcode = none ↔
      ∀ assignment ∈ assignments, ∀ value, ¬assignment.Sets opcode value := by
  rw [get?_compile, List.findSome?_eq_none_iff]
  simp only [List.mem_reverse, Option.eq_none_iff_forall_ne_some, ne_eq, Assignment.sets_iff]

theorem Governs.type_eq {value : Value} (governs : Governs assignments opcode value) :
    value.type = opcode.valueType := by
  obtain ⟨_, _, _, _, ⟨_, converts⟩, _⟩ := governs
  exact Value.type_of_convert? converts

theorem get?_compile_of_last (part : Section) {name : String} (named : opcode.name? = some name)
    (converts : ∀ text, part.value? name = some text →
      (Value.convert? opcode.valueType text).isSome) :
    (compile part.assignments).get? opcode =
      (part.value? name).bind (Value.convert? opcode.valueType) := by
  cases search : part.assignments.reverse.find? fun assignment => assignment.key = name with
  | none =>
    have absent : part.value? name = none := by rw [Section.value?, search]; rfl
    rw [absent, Option.bind_none, get?_compile_eq_none_iff]
    rintro assignment member value ⟨same, -⟩
    rw [named, Option.some.injEq] at same
    have other := List.find?_eq_none.mp search assignment (List.mem_reverse.mpr member)
    exact other (by simp [same])
  | some last =>
    have text : part.value? name = some last.value := by rw [Section.value?, search]; rfl
    obtain ⟨value, converted⟩ := Option.isSome_iff_exists.mp (converts _ text)
    rw [text, Option.bind_some, converted, get?_compile_eq_some_iff]
    obtain ⟨found, after, before, split, others⟩ := List.find?_eq_some_iff_append.mp search
    refine ⟨before.reverse, last, after.reverse, ?_, ⟨?_, converted⟩, ?_⟩
    · simpa using congrArg List.reverse split
    · simpa [named, eq_comm] using found
    · rintro later member value ⟨same, -⟩
      rw [named, Option.some.injEq] at same
      simpa [same] using others later (by simpa using member)

/-- What compiling a list of assignments yields, told from the list. The last assignment that
converts wins. Discrete text always converts, outside the vocabulary to a sentinel. Text of a
`string` opcode does too, so of several assignments in one section the last is the value. -/
structure Compiles (report : Report) (assignments : List Assignment) : Prop where
  governed : ∀ opcode value,
    (compile assignments).get? opcode = some value ↔ Governs assignments opcode value
  absent : ∀ opcode, (compile assignments).get? opcode = none ↔
    ∀ assignment ∈ assignments, ∀ value, ¬assignment.Sets opcode value
  typed : ∀ opcode value,
    (compile assignments).get? opcode = some value → value.type = opcode.valueType
  unnamed : (compile assignments).get? .unrecognized = none
  unmapped : ∀ text, ∃ word, Value.convert? .discrete text = some (.discrete word) ∧
    (word = .unmapped ↔ text ∉ Discrete.vocabulary)
  unrecognized : ∀ text,
    text ∈ (report.observeAll assignments).diagnostics.unrecognized ↔
      text ∈ report.diagnostics.unrecognized ∨
        ∃ assignment ∈ assignments, assignment.Unknown ∧ text = assignment.key
  invalidValues : ∀ text,
    text ∈ (report.observeAll assignments).diagnostics.invalidValues ↔
      text ∈ report.diagnostics.invalidValues ∨
        ∃ assignment ∈ assignments, assignment.Bad ∧
          text = assignment.key ++ "=" ++ assignment.value
  strings : ∀ part : Section, part.assignments = assignments → ∀ opcode name,
    Opcode.name? opcode = some name → opcode.valueType = .string →
      (compile assignments).string? opcode = part.value? name
  lasts : ∀ part : Section, part.assignments = assignments → ∀ opcode name,
    Opcode.name? opcode = some name →
      (∀ text, part.value? name = some text → (Value.convert? opcode.valueType text).isSome) →
      (compile assignments).get? opcode =
        (part.value? name).bind (Value.convert? opcode.valueType)

/-- Compiling keeps the last value of each opcode that converts, and records every unknown key and
every bad value on top of what was recorded before. -/
theorem compiles_exactly (report : Report) (assignments : List Assignment) :
    Compiles report assignments where
  governed _ _ := get?_compile_eq_some_iff
  absent _ := get?_compile_eq_none_iff
  typed _ _ found := (get?_compile_eq_some_iff.mp found).type_eq
  unnamed := by
    rw [get?_compile_eq_none_iff]
    rintro assignment - value ⟨named, -⟩
    cases named
  unmapped text := ⟨Discrete.ofText text, rfl, Discrete.ofText_eq_unmapped_iff⟩
  unrecognized text := by
    rw [Report.diagnostics_observeAll]
    exact Diagnostics.mem_foldl_note (fun _ _ => Diagnostics.mem_note_unrecognized) _ assignments
  invalidValues text := by
    rw [Report.diagnostics_observeAll]
    exact Diagnostics.mem_foldl_note (fun _ _ => Diagnostics.mem_note_invalidValues) _ assignments
  strings part own _ _ named string := own ▸ string?_compile named string part.assignments
  lasts part own _ _ named converts := own ▸ get?_compile_of_last part named converts

end OpcodeTable

end Sfz

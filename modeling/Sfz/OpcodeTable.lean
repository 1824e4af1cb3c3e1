import Std.Data.ExtTreeMap
import Sfz.Section
import Sfz.Value

/-! Values assigned to opcodes.

A table holds at most one value for each opcode. Compiling a list of assignments converts each on
its own: one that does not convert is dropped and leaves an earlier one in force, and of those
that convert the last wins. Laying one table over another therefore gives the table of the two
lists one after the other.
-/

set_option autoImplicit false

namespace Sfz

/-- The value that an assignment gives to its opcode, if its key is known and its text converts. -/
def Assignment.converted? (assignment : Assignment) : Option Value :=
  Value.convert? (ValueType.ofKey assignment.key) assignment.value

/-- What keeps an assignment from taking effect. An unmapped value is assigned all the same. -/
inductive Assignment.Issue where
  | unrecognized
  | unconvertible
  | unmapped
  deriving DecidableEq, Repr

def Assignment.issue? (assignment : Assignment) : Option Assignment.Issue :=
  if Opcode.ofName assignment.key = .unrecognized then
    some .unrecognized
  else
    match assignment.converted? with
    | none => some .unconvertible
    | some value => if value = .discrete .unmapped then some .unmapped else none

structure OpcodeTable where
  values : Std.ExtTreeMap Opcode Value

namespace OpcodeTable

def empty : OpcodeTable := ⟨∅⟩

instance : EmptyCollection OpcodeTable := ⟨empty⟩

def get? (table : OpcodeTable) (opcode : Opcode) : Option Value :=
  table.values[opcode]?

def insert (table : OpcodeTable) (opcode : Opcode) (value : Value) : OpcodeTable :=
  ⟨table.values.insert opcode value⟩

/-- One table laid over another: its values win. -/
def overlay (upper lower : OpcodeTable) : OpcodeTable :=
  ⟨lower.values ∪ upper.values⟩

def assign (table : OpcodeTable) (assignment : Assignment) : OpcodeTable :=
  match assignment.converted? with
  | none => table
  | some value => table.insert (Opcode.ofName assignment.key) value

def assignAll (table : OpcodeTable) (assignments : List Assignment) : OpcodeTable :=
  assignments.foldl assign table

def compile (assignments : List Assignment) : OpcodeTable :=
  assignAll ∅ assignments

def contains (table : OpcodeTable) (opcode : Opcode) : Bool :=
  (table.get? opcode).isSome

def size (table : OpcodeTable) : Nat :=
  table.values.size

def isEmpty (table : OpcodeTable) : Bool :=
  table.values.isEmpty

def int? (table : OpcodeTable) (opcode : Opcode) : Option Int :=
  (table.get? opcode).bind Value.int?

def float? (table : OpcodeTable) (opcode : Opcode) : Option Float32 :=
  (table.get? opcode).bind Value.float?

def string? (table : OpcodeTable) (opcode : Opcode) : Option String :=
  (table.get? opcode).bind Value.string?

def discrete? (table : OpcodeTable) (opcode : Opcode) : Option Discrete :=
  (table.get? opcode).bind Value.discrete?

def same (first second : OpcodeTable) : Bool :=
  (.unrecognized :: Opcode.all).all fun opcode =>
    match first.get? opcode, second.get? opcode with
    | none, none => true
    | some value, some other => value.same other
    | _, _ => false

@[ext] theorem ext_get? {first second : OpcodeTable}
    (same : ∀ opcode, first.get? opcode = second.get? opcode) : first = second := by
  have values : first.values = second.values := Std.ExtTreeMap.ext_getElem? same
  cases first
  cases second
  cases values
  rfl

@[simp] theorem get?_empty (opcode : Opcode) : (∅ : OpcodeTable).get? opcode = none :=
  Std.ExtTreeMap.getElem?_empty

@[simp] theorem get?_insert (table : OpcodeTable) (opcode other : Opcode) (value : Value) :
    (table.insert opcode value).get? other =
      if other = opcode then some value else table.get? other := by
  simp only [get?, insert, Std.ExtTreeMap.getElem?_insert, Std.LawfulEqOrd.compare_eq_iff_eq,
    eq_comm (a := opcode)]

@[simp] theorem get?_overlay (upper lower : OpcodeTable) (opcode : Opcode) :
    (upper.overlay lower).get? opcode = (upper.get? opcode).or (lower.get? opcode) :=
  Std.ExtTreeMap.getElem?_union

theorem assign_overlay (upper lower : OpcodeTable) (assignment : Assignment) :
    (upper.overlay lower).assign assignment = (upper.assign assignment).overlay lower := by
  unfold assign
  cases assignment.converted? with
  | none => rfl
  | some value =>
    ext1 opcode
    by_cases same : opcode = Opcode.ofName assignment.key <;> simp [same]

theorem assignAll_eq_overlay (table : OpcodeTable) (assignments : List Assignment) :
    table.assignAll assignments = (compile assignments).overlay table := by
  have general (upper : OpcodeTable) :
      (upper.overlay table).assignAll assignments =
        (upper.assignAll assignments).overlay table := by
    induction assignments generalizing upper with
    | nil => rfl
    | cons assignment rest ih =>
      simp only [assignAll, List.foldl_cons, assign_overlay] at ih ⊢
      exact ih (upper.assign assignment)
  have bottom : (∅ : OpcodeTable).overlay table = table := by ext1; simp
  rw [compile, ← general, bottom]

/-- The table of two lists in a row is the second table laid over the first. -/
theorem compile_append (first second : List Assignment) :
    compile (first ++ second) = (compile second).overlay (compile first) := by
  rw [← assignAll_eq_overlay]
  simp [compile, assignAll]

end OpcodeTable

end Sfz

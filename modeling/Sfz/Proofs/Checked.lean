import Mathlib.Data.String.Basic

/-! Partial operations with their operands checked.

A text can be cut only between two of its characters, and a table has entries only at some indices.
The operations here look at their operands first and name those that they refuse. A run of them that
comes to the same as the run without the checks has met none that is out of range.
-/

set_option autoImplicit false

namespace Sfz

/-- An operation on operands that it is not defined for. -/
inductive OutOfRange where
  | cut (text : String) (offset : Nat)
  | difference (pitch keycenter : Int)
  | entry (index count : Nat)
  | remainder (number modulus : Nat)
  | gain (index : Nat)
  deriving DecidableEq, Repr

abbrev Checked (α : Type) := Except OutOfRange α

namespace Checked

/-- The part of a text before a byte, which has to be a boundary of its characters. -/
def front (text : String) (offset : Nat) : Checked String :=
  if (⟨offset⟩ : String.Pos.Raw).IsValid text then
    .ok (String.Pos.Raw.extract text 0 ⟨offset⟩)
  else
    .error (.cut text offset)

def back (text : String) (offset : Nat) : Checked String :=
  if (⟨offset⟩ : String.Pos.Raw).IsValid text then
    .ok (String.Pos.Raw.extract text ⟨offset⟩ text.rawEndPos)
  else
    .error (.cut text offset)

/-- The distance of a pitch from a keycenter, which has to be one between two MIDI keys. -/
def difference (pitch keycenter : Int) : Checked Int :=
  if -127 ≤ pitch - keycenter ∧ pitch - keycenter ≤ 127 then
    .ok (pitch - keycenter)
  else
    .error (.difference pitch keycenter)

section Entries

variable {α β : Type}

def entry (entries : Array α) (index : Nat) : Checked α :=
  if inside : index < entries.size then .ok entries[index] else .error (.entry index entries.size)

def remainder (number modulus : Nat) : Checked Nat :=
  if 0 < modulus then .ok (number % modulus) else .error (.remainder number modulus)

def gain (gains : Vector α 128) (index : Nat) : Checked α :=
  if playable : 1 ≤ index ∧ index ≤ 127 then .ok gains[index] else .error (.gain index)

theorem mapM_eq_ok {check : α → Checked β} {compute : α → β} {values : List α}
    (each : ∀ value ∈ values, check value = .ok (compute value)) :
    values.mapM check = .ok (values.map compute) := by
  induction values with
  | nil => rfl
  | cons value rest ih =>
    rw [List.mapM_cons, each value List.mem_cons_self,
      ih fun other member => each other (List.mem_cons_of_mem _ member)]
    rfl

theorem ofFnM_eq_ok {count : Nat} {check : Fin count → Checked α} {compute : Fin count → α}
    (each : ∀ index, check index = .ok (compute index)) :
    Vector.ofFnM check = .ok (Vector.ofFn compute) := by
  rw [funext each]
  exact Vector.ofFnM_pure

end Entries

section Cuts

variable (before after : String)

theorem front_append : front (before ++ after) before.utf8ByteSize = .ok before := by
  have boundary : (⟨before.utf8ByteSize⟩ : String.Pos.Raw).IsValid (before ++ after) :=
    String.Pos.Raw.isValid_iff_exists_append.mpr ⟨before, after, rfl, rfl⟩
  have part := String.extract_of_valid [] before.toList after.toList
  rw [List.nil_append, String.utf8Len_nil, Nat.zero_add, String.utf8Len_toList,
    String.ofList_append, String.ofList_toList, String.ofList_toList] at part
  rw [front, if_pos boundary]
  exact congrArg Except.ok part

theorem back_append : back (before ++ after) before.utf8ByteSize = .ok after := by
  have boundary : (⟨before.utf8ByteSize⟩ : String.Pos.Raw).IsValid (before ++ after) :=
    String.Pos.Raw.isValid_iff_exists_append.mpr ⟨before, after, rfl, rfl⟩
  have part := String.extract_of_valid before.toList after.toList []
  rw [List.append_nil, String.utf8Len_toList, String.utf8Len_toList, String.ofList_append,
    String.ofList_toList, String.ofList_toList, ← String.utf8ByteSize_append] at part
  rw [back, if_pos boundary]
  exact congrArg Except.ok part

end Cuts

end Checked

end Sfz

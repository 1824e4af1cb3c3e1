import Sfz.Lexer
import Sfz.Proofs.Checked
import Sfz.Proofs.Text.Blank

/-! The cuts of a text at an equals sign.

An equals sign in a value that may contain blanks cuts the text read so far in front of its last
ASCII blank and behind it. The cuts are made at bytes; they never fall inside a character, because
the blank is a character of one byte.
-/

set_option autoImplicit false

namespace Sfz

namespace Text

/-- The byte at which the last ASCII blank of a text begins; the text itself begins at `offset`. -/
def byteOfLastBlank? (offset : Nat) : List Char → Option Nat
  | [] => none
  | c :: rest =>
    byteOfLastBlank? (offset + c.utf8Size) rest <|> if isAsciiBlank c then some offset else none

theorem utf8Size_of_isAsciiBlank {c : Char} (blank : isAsciiBlank c = true) : c.utf8Size = 1 := by
  simp only [isAsciiBlank, Bool.or_eq_true, decide_eq_true_eq] at blank
  rcases blank with (((rfl | rfl) | rfl) | rfl) | rfl <;> rfl

theorem byteOfLastBlank?_of_solid {text : List Char}
    (solid : ∀ c ∈ text, isAsciiBlank c = false) (offset : Nat) :
    byteOfLastBlank? offset text = none := by
  induction text generalizing offset with
  | nil => rfl
  | cons c rest ih =>
    obtain ⟨first, others⟩ := List.forall_mem_cons.mp solid
    rw [byteOfLastBlank?, ih others, first]
    rfl

theorem byteOfLastBlank?_append {word : List Char}
    (solid : ∀ c ∈ word, isAsciiBlank c = false) {blank : Char}
    (isBlank : isAsciiBlank blank = true) (before : List Char) (offset : Nat) :
    byteOfLastBlank? offset (before ++ blank :: word) =
      some (offset + String.utf8Len before) := by
  induction before generalizing offset with
  | nil =>
    rw [List.nil_append, byteOfLastBlank?, byteOfLastBlank?_of_solid solid, isBlank]
    rfl
  | cons c rest ih =>
    rw [List.cons_append, byteOfLastBlank?, ih, String.utf8Len_cons, Nat.add_assoc,
      Nat.add_comm c.utf8Size]
    rfl

theorem splitLastBlank_eq_none {text : List Char} (whole : splitLastBlank text = none) :
    ∀ c ∈ text, isAsciiBlank c = false := by
  unfold splitLastBlank at whole
  split at whole
  · next nothing =>
    intro c member
    have solid := List.dropWhile_eq_nil_iff.mp nothing c (List.mem_reverse.mpr member)
    simpa using solid
  · cases whole

-- The blank is one byte long, so the byte behind it is where the word begins.
theorem cuts_of_splitLastBlank {text value key : List Char}
    (split : splitLastBlank text = some (value, key)) :
    ∃ offset, byteOfLastBlank? 0 text = some offset ∧
      Checked.front (String.ofList text) offset = .ok (String.ofList value) ∧
      Checked.back (String.ofList text) (offset + 1) = .ok (String.ofList key) := by
  obtain ⟨⟨blank, isBlank, rfl⟩, solid⟩ := splitLastBlank_eq_some split
  refine ⟨String.utf8Len value, ?_, ?_, ?_⟩
  · rw [byteOfLastBlank?_append solid isBlank, Nat.zero_add]
  · have front := Checked.front_append (String.ofList value) (String.ofList (blank :: key))
    rwa [← String.ofList_append, String.utf8ByteSize_ofList] at front
  · have back := Checked.back_append (String.ofList (value ++ [blank])) (String.ofList key)
    have bytes : String.utf8Len (value ++ [blank]) = String.utf8Len value + 1 := by
      rw [String.utf8Len_append, String.utf8Len_cons, utf8Size_of_isAsciiBlank isBlank]
      rfl
    rwa [← String.ofList_append, String.utf8ByteSize_ofList, bytes, List.append_assoc,
      List.singleton_append] at back

end Text

namespace Lexer.State

def endAtEqualChecked (state : State) (read : List Char) : Checked Move :=
  if state.context = .string then
    let text := String.ofList (Text.trimEnd read.reverse)
    match Text.byteOfLastBlank? 0 text.toList with
    | none => .ok (.fail .equalInIdentifier state)
    | some split => do
      let value ← Checked.front text split
      let key ← Checked.back text (split + 1)
      .ok (.next
        (((state.emitIdentifier (Text.trimEnd value.toList)).emitIdentifier key.toList).start '='))
  else
    .ok (.next ((state.complete read).start '='))

theorem endAtEqualChecked_eq (state : State) (read : List Char) :
    state.endAtEqualChecked read = .ok (state.endAtEqual read) := by
  unfold endAtEqualChecked endAtEqual
  split
  · simp only [String.toList_ofList]
    cases split : Text.splitLastBlank (Text.trimEnd read.reverse) with
    | none =>
      rw [Text.byteOfLastBlank?_of_solid (Text.splitLastBlank_eq_none split)]
    | some parts =>
      obtain ⟨value, key⟩ := parts
      obtain ⟨offset, found, front, back⟩ := Text.cuts_of_splitLastBlank split
      simp only [found, front, back, bind, Except.bind, String.toList_ofList]
  · rfl

end Lexer.State

end Sfz

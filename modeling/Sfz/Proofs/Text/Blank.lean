import Mathlib.Data.List.Basic
import Mathlib.Data.List.TakeWhile
import Sfz.Text

/-! Trimming and splitting of text that is known in parts. -/

set_option autoImplicit false

namespace Sfz.Text

theorem isAsciiBlank_of_isAlpha {c : Char} (letter : c.isAlpha = true) :
    isAsciiBlank c = false := by
  rw [← Bool.not_eq_true]
  intro blank
  simp only [isAsciiBlank, Bool.or_eq_true, decide_eq_true_eq] at blank
  rcases blank with (((rfl | rfl) | rfl) | rfl) | rfl <;> cases letter

theorem isWhiteSpace_of_isDigit {c : Char} (digit : c.isDigit = true) : isWhiteSpace c = false := by
  have bounds : 48 ≤ c.toNat ∧ c.toNat ≤ 57 := by
    simpa [Char.isDigit, UInt32.le_iff_toNat_le] using digit
  simp only [isWhiteSpace, whiteSpaceRanges, List.any_cons, List.any_nil, Bool.or_false,
    Bool.or_eq_false_iff, Bool.and_eq_false_iff, decide_eq_false_iff_not]
  omega

theorem trimEnd_append {text blanks : List Char}
    (last : ∀ c ∈ text.getLast?, isWhiteSpace c = false)
    (blank : ∀ c ∈ blanks, isWhiteSpace c = true) : trimEnd (text ++ blanks) = text := by
  have behind : ∀ c ∈ blanks.reverse, isWhiteSpace c = true := fun c member =>
    blank c (List.mem_reverse.mp member)
  have stops : text.reverse.dropWhile isWhiteSpace = text.reverse := by
    cases reversed : text.reverse with
    | nil => rfl
    | cons c rest =>
      have solid : isWhiteSpace c = false := by
        apply last c
        rw [← List.head?_reverse, reversed]
        rfl
      rw [List.dropWhile_cons, solid]
      rfl
  rw [trimEnd, List.reverse_append, List.dropWhile_append_of_pos behind, stops,
    List.reverse_reverse]

theorem trimEnd_eq_self {text : List Char}
    (last : ∀ c ∈ text.getLast?, isWhiteSpace c = false) : trimEnd text = text := by
  simpa only [List.append_nil] using @trimEnd_append text [] last (by simp)

theorem trimEnd_prefix (text : List Char) : trimEnd text <+: text := by
  have suffix := List.reverse_prefix.mpr (List.dropWhile_suffix (l := text.reverse) isWhiteSpace)
  rwa [List.reverse_reverse] at suffix

/-- Trimming takes off the White_Space that was put around a text. -/
theorem trim_append {before text after : List Char}
    (blankBefore : ∀ c ∈ before, isWhiteSpace c = true)
    (first : ∀ c ∈ text.head?, isWhiteSpace c = false)
    (last : ∀ c ∈ text.getLast?, isWhiteSpace c = false)
    (blankAfter : ∀ c ∈ after, isWhiteSpace c = true) (nonempty : text ≠ []) :
    trim (before ++ (text ++ after)) = text := by
  have stops : (text ++ after).dropWhile isWhiteSpace = text ++ after := by
    obtain ⟨c, rest, rfl⟩ := List.exists_cons_of_ne_nil nonempty
    rw [List.cons_append, List.dropWhile_cons, first c rfl]
    rfl
  rw [trim, List.dropWhile_append_of_pos blankBefore, stops, trimEnd_append last blankAfter]

theorem exists_append_trim (text : List Char) :
    ∃ before after, (∀ c ∈ before, isWhiteSpace c = true) ∧
      (∀ c ∈ after, isWhiteSpace c = true) ∧ text = before ++ (trim text ++ after) := by
  have front := List.takeWhile_append_dropWhile (p := isWhiteSpace) (l := text)
  have back := List.takeWhile_append_dropWhile (p := isWhiteSpace)
    (l := (text.dropWhile isWhiteSpace).reverse)
  refine ⟨text.takeWhile isWhiteSpace,
    ((text.dropWhile isWhiteSpace).reverse.takeWhile isWhiteSpace).reverse,
    fun c member => List.mem_takeWhile_imp member, ?_, ?_⟩
  · intro c member
    exact List.mem_takeWhile_imp (List.mem_reverse.mp member)
  · rw [trim, trimEnd, ← List.reverse_append, back, List.reverse_reverse, front]

def solid (text : List Char) : List Char :=
  text.filter (!isWhiteSpace ·)

theorem solid_append (first second : List Char) :
    solid (first ++ second) = solid first ++ solid second :=
  List.filter_append ..

theorem solid_of_isAsciiBlank {c : Char} (blank : isAsciiBlank c = true) : solid [c] = [] := by
  simp [solid, isWhiteSpace_of_isAsciiBlank blank]

theorem solid_trimEnd (text : List Char) : solid (trimEnd text) = solid text := by
  have parts := List.takeWhile_append_dropWhile (p := isWhiteSpace) (l := text.reverse)
  have blanks : (text.reverse.takeWhile isWhiteSpace).filter (!isWhiteSpace ·) = [] := by
    simp only [List.filter_eq_nil_iff, Bool.not_eq_true', Bool.not_eq_false]
    exact fun c member => List.mem_takeWhile_imp member
  have whole : solid text = (text.reverse.filter (!isWhiteSpace ·)).reverse := by
    rw [List.filter_reverse, List.reverse_reverse, solid]
  rw [whole, ← parts, List.filter_append, blanks, List.nil_append, ← List.filter_reverse]
  rfl

theorem getLast?_trimEnd {text : List Char} {c : Char} (last : c ∈ (trimEnd text).getLast?) :
    isWhiteSpace c = false := by
  have stops := List.head?_dropWhile_not isWhiteSpace text.reverse
  rw [trimEnd, List.getLast?_reverse] at last
  rw [Option.mem_def.mp last] at stops
  exact stops

theorem splitLastBlank_append {word : List Char}
    (solid : ∀ c ∈ word, isAsciiBlank c = false) {blank : Char} (isBlank : isAsciiBlank blank)
    (before : List Char) : splitLastBlank (before ++ blank :: word) = some (before, word) := by
  have inWord : ∀ c ∈ word.reverse, (!isAsciiBlank c) = true := by
    intro c member
    rw [solid c (List.mem_reverse.mp member)]
    rfl
  have reversed : (before ++ blank :: word).reverse = word.reverse ++ blank :: before.reverse := by
    rw [List.reverse_append, List.reverse_cons, List.append_assoc, List.singleton_append]
  rw [splitLastBlank, reversed, List.dropWhile_append_of_pos inWord,
    List.takeWhile_append_of_pos inWord, List.dropWhile_cons, List.takeWhile_cons, isBlank]
  simp only [Bool.not_true, Bool.false_eq_true, if_false, List.append_nil, List.reverse_reverse]

theorem splitLastBlank_eq_some {text value key : List Char}
    (split : splitLastBlank text = some (value, key)) :
    (∃ blank, isAsciiBlank blank = true ∧ text = value ++ blank :: key) ∧
      ∀ c ∈ key, isAsciiBlank c = false := by
  have stops := List.head?_dropWhile_not (!isAsciiBlank ·) text.reverse
  have parts := List.takeWhile_append_dropWhile (p := (!isAsciiBlank ·)) (l := text.reverse)
  unfold splitLastBlank at split
  cases behind : text.reverse.dropWhile (!isAsciiBlank ·) with
  | nil =>
    rw [behind] at split
    cases split
  | cons blank before =>
    rw [behind] at split stops parts
    cases split
    refine ⟨⟨blank, by simpa using stops, ?_⟩, ?_⟩
    · simpa using (congrArg List.reverse parts).symm
    · intro c member
      simpa using List.mem_takeWhile_imp (List.mem_reverse.mp member)

theorem splitLastBlank_of_solid {text : List Char} (solid : ∀ c ∈ text, isAsciiBlank c = false) :
    splitLastBlank text = none := by
  cases split : splitLastBlank text with
  | none => rfl
  | some parts =>
    obtain ⟨⟨blank, isBlank, rfl⟩, _⟩ := splitLastBlank_eq_some split
    rw [solid blank (List.mem_append_right _ List.mem_cons_self)] at isBlank
    cases isBlank

end Sfz.Text

import Mathlib.Data.List.Basic
import Sfz.Proofs.Text.Blank
import Sfz.Value.Note

/-! The texts that are integer values.

Which texts these are is said here by a grammar: a signed number, or a note letter with an octave,
and the bounds that each step to the integer has to keep. Reading a value finds what the grammar
says and nothing else.
-/

set_option autoImplicit false

namespace Sfz.Note

def Fits (number : Int) : Prop :=
  -2147483648 ≤ number ∧ number < 2147483648

instance (number : Int) : Decidable (Fits number) :=
  inferInstanceAs (Decidable (_ ∧ _))

/-- What may stand in front of digits, with the factor it stands for. -/
inductive Sign : List Char → Int → Prop where
  | none : Sign [] 1
  | plus : Sign ['+'] 1
  | minus : Sign ['-'] (-1)

def Numeral (text : List Char) (number : Int) : Prop :=
  ∃ sign factor digits, Sign sign factor ∧ digits ≠ [] ∧ (∀ c ∈ digits, c.isDigit) ∧
    text = sign ++ digits ∧ number = factor * Nat.ofDigitChars 10 digits 0

def scale : List (Char × Int) :=
  [('c', 0), ('d', 2), ('e', 4), ('f', 5), ('g', 7), ('a', 9), ('b', 11)]

def Letter (letter : Char) (semitones : Int) : Prop :=
  ∃ name, (name, semitones) ∈ scale ∧ (letter = name ∨ letter = name.toUpper)

/-- What may stand in front of an octave, with its semitones above C. -/
inductive Pitch : List Char → Int → Prop where
  | natural {letter : Char} {semitones : Int} :
    Letter letter semitones → Pitch [letter] semitones
  | sharp {letter : Char} {semitones : Int} :
    Letter letter semitones → Pitch [letter, '#'] (semitones + 1)

/-- The integer that a text without White_Space around it stands for. -/
inductive Denotes : List Char → Int → Prop where
  | number {text : List Char} {number : Int} :
    Numeral text number → Fits number → Denotes text number
  | note {pitch text : List Char} {semitones octave : Int} :
    Pitch pitch semitones → Numeral text octave → Fits octave → Fits (12 * octave) →
      Fits (12 * octave + 12 + semitones) →
        Denotes (pitch ++ text) (12 * octave + 12 + semitones)

theorem natural?_eq_some_iff {digits : List Char} {value : Nat} :
    Text.natural? digits = some value ↔
      digits ≠ [] ∧ (∀ c ∈ digits, c.isDigit) ∧ value = Nat.ofDigitChars 10 digits 0 := by
  have total : Nat.ofDigitChars 10 digits 0 =
      digits.foldl (fun value digit => 10 * value + (digit.toNat - '0'.toNat)) 0 := rfl
  rw [Text.natural?, total, ← List.all_eq_true]
  by_cases numeral : digits ≠ [] ∧ digits.all Char.isDigit
  · rw [if_pos numeral, Option.some.injEq, eq_comm]
    simp only [numeral, ne_eq, not_false_eq_true, true_and]
  · rw [if_neg numeral]
    constructor
    · intro absurdity
      cases absurdity
    · rintro ⟨nonempty, digits, _⟩
      exact absurd ⟨nonempty, digits⟩ numeral

theorem within32?_eq_some_iff {number result : Int} :
    within32? number = some result ↔ Fits number ∧ result = number := by
  by_cases fits : Fits number
  · have inside : -2147483648 ≤ number ∧ number < 2147483648 := fits
    simp only [within32?, if_pos inside, Option.some.injEq, fits, true_and, eq_comm]
  · have outside : ¬ (-2147483648 ≤ number ∧ number < 2147483648) := fits
    simp only [within32?, if_neg outside, fits, false_and, reduceCtorEq]

theorem signed?_eq_some_iff {text : List Char} {number : Int} :
    Text.signed? text = some number ↔ Numeral text number := by
  constructor
  · intro found
    unfold Text.signed? at found
    split at found
    · obtain ⟨value, read, rfl⟩ := Option.map_eq_some_iff.mp found
      obtain ⟨nonempty, all, rfl⟩ := natural?_eq_some_iff.mp read
      exact ⟨_, _, _, .plus, nonempty, all, rfl, (Int.one_mul _).symm⟩
    · obtain ⟨value, read, rfl⟩ := Option.map_eq_some_iff.mp found
      obtain ⟨nonempty, all, rfl⟩ := natural?_eq_some_iff.mp read
      exact ⟨_, _, _, .minus, nonempty, all, rfl, (Int.neg_one_mul _).symm⟩
    · obtain ⟨value, read, rfl⟩ := Option.map_eq_some_iff.mp found
      obtain ⟨nonempty, all, rfl⟩ := natural?_eq_some_iff.mp read
      exact ⟨_, _, _, .none, nonempty, all, rfl, (Int.one_mul _).symm⟩
  · rintro ⟨sign, factor, digits, signs, nonempty, all, rfl, rfl⟩
    have read := natural?_eq_some_iff.mpr ⟨nonempty, all, rfl⟩
    cases signs with
    | plus => rw [List.singleton_append, Text.signed?, read, Int.one_mul]; rfl
    | minus => rw [List.singleton_append, Text.signed?, read, Int.neg_one_mul]; rfl
    | none =>
      have unsigned : Text.signed? digits = (Text.natural? digits).map Int.ofNat := by
        unfold Text.signed?
        split
        · exact absurd (all '+' List.mem_cons_self) (by decide)
        · exact absurd (all '-' List.mem_cons_self) (by decide)
        · rfl
      rw [List.nil_append, unsigned, read, Int.one_mul]
      rfl

theorem pitchClass?_eq_some_iff {letter : Char} {semitones : Int} :
    pitchClass? letter = some semitones ↔ Letter letter semitones := by
  constructor
  · intro found
    unfold pitchClass? at found
    split at found <;> cases found <;> simp [Letter, scale]
  · rintro ⟨name, member, same⟩
    simp only [scale, List.mem_cons, Prod.mk.injEq, List.not_mem_nil, or_false] at member
    rcases member with ⟨rfl, rfl⟩ | ⟨rfl, rfl⟩ | ⟨rfl, rfl⟩ | ⟨rfl, rfl⟩ | ⟨rfl, rfl⟩ | ⟨rfl, rfl⟩ |
      ⟨rfl, rfl⟩ <;> rcases same with rfl | rfl <;> rfl


theorem Numeral.exists_cons {text : List Char} {number : Int} (numeral : Numeral text number) :
    ∃ first rest, text = first :: rest ∧ first ≠ '#' ∧ pitchClass? first = none := by
  obtain ⟨sign, factor, digits, signs, nonempty, all, rfl, rfl⟩ := numeral
  cases signs with
  | plus => exact ⟨_, _, rfl, by decide, rfl⟩
  | minus => exact ⟨_, _, rfl, by decide, rfl⟩
  | none =>
    obtain ⟨first, rest, rfl⟩ := List.exists_cons_of_ne_nil nonempty
    have digit := all first List.mem_cons_self
    refine ⟨first, rest, rfl, ?_, ?_⟩
    · rintro rfl
      cases digit
    · unfold pitchClass?
      split <;> first | rfl | exact absurd digit (by decide)

theorem splitLetter_of_numeral {text : List Char} {number : Int} (numeral : Numeral text number) :
    splitLetter text = (none, text) := by
  obtain ⟨first, rest, rfl, _, unnamed⟩ := numeral.exists_cons
  simp only [splitLetter, unnamed]

theorem splitLetter_append {pitch text : List Char} {semitones octave : Int}
    (named : Pitch pitch semitones) (numeral : Numeral text octave) :
    splitLetter (pitch ++ text) = (some semitones, text) := by
  obtain ⟨first, rest, rfl, other, _⟩ := numeral.exists_cons
  cases named with
  | sharp letter =>
    simp only [List.cons_append, List.nil_append, splitLetter, pitchClass?_eq_some_iff.mpr letter]
  | natural letter =>
    -- what follows the letter is no sharp, so only the second case of the match applies
    have unsharp : ∀ after, first :: rest ≠ '#' :: after := fun _ same =>
      other (List.head_eq_of_cons_eq same)
    simp only [List.singleton_append, splitLetter, pitchClass?_eq_some_iff.mpr letter]

theorem splitLetter_cases (text : List Char) :
    (∃ pitch semitones rest, Pitch pitch semitones ∧ text = pitch ++ rest ∧
      splitLetter text = (some semitones, rest)) ∨ splitLetter text = (none, text) := by
  fun_cases splitLetter text with
  | case1 => exact .inr rfl
  | case2 letter semitones rest found =>
    exact .inl ⟨_, _, _, .sharp (pitchClass?_eq_some_iff.mp found), rfl, rfl⟩
  | case3 letter semitones rest unsharp found =>
    exact .inl ⟨_, _, _, .natural (pitchClass?_eq_some_iff.mp found), rfl, rfl⟩
  | case4 letter rest unnamed => exact .inr rfl

theorem ofOctave?_eq_some_iff {semitones octave number : Int} :
    ofOctave? semitones octave = some number ↔
      Fits (12 * octave) ∧ Fits (12 * octave + 12 + semitones) ∧
        number = 12 * octave + 12 + semitones := by
  simp only [ofOctave?, Option.bind_eq_bind, Option.bind_eq_some_iff, within32?_eq_some_iff,
    ← Int.add_assoc]
  constructor
  · rintro ⟨start, ⟨fits, rfl⟩, inside, rfl⟩
    exact ⟨fits, inside, rfl⟩
  · rintro ⟨fits, inside, rfl⟩
    exact ⟨_, ⟨fits, rfl⟩, inside, rfl⟩

theorem signed?_bind_within32?_eq_some_iff {text : List Char} {number : Int} :
    (Text.signed? text).bind within32? = some number ↔ Numeral text number ∧ Fits number := by
  simp only [Option.bind_eq_some_iff, signed?_eq_some_iff, within32?_eq_some_iff]
  constructor
  · rintro ⟨_, numeral, fits, rfl⟩
    exact ⟨numeral, fits⟩
  · rintro ⟨numeral, fits⟩
    exact ⟨number, numeral, fits, rfl⟩

/-- Reading is said of the trimmed text. -/
theorem ofText?_eq_some_iff {text : String} {number : Int} :
    ofText? text = some number ↔ Denotes (Text.trim text.toList) number := by
  rw [ofText?]
  generalize Text.trim text.toList = inner
  constructor
  · intro found
    rcases splitLetter_cases inner with ⟨pitch, semitones, rest, named, rfl, split⟩ | split
    · rw [split] at found
      obtain ⟨octave, read, raised⟩ := Option.bind_eq_some_iff.mp found
      obtain ⟨numeral, fits⟩ := signed?_bind_within32?_eq_some_iff.mp read
      obtain ⟨start, inside, rfl⟩ := ofOctave?_eq_some_iff.mp raised
      exact .note named numeral fits start inside
    · rw [split] at found
      obtain ⟨numeral, fits⟩ := signed?_bind_within32?_eq_some_iff.mp found
      exact .number numeral fits
  · intro denotes
    cases denotes with
    | number numeral fits =>
      rw [splitLetter_of_numeral numeral]
      exact signed?_bind_within32?_eq_some_iff.mpr ⟨numeral, fits⟩
    | note named numeral fits start inside =>
      rw [splitLetter_append named numeral]
      have read := signed?_bind_within32?_eq_some_iff.mpr ⟨numeral, fits⟩
      exact Option.bind_eq_some_iff.mpr ⟨_, read, ofOctave?_eq_some_iff.mpr ⟨start, inside, rfl⟩⟩

theorem Numeral.solid {text : List Char} {number : Int} (numeral : Numeral text number) :
    text ≠ [] ∧ ∀ c ∈ text, Text.isWhiteSpace c = false := by
  obtain ⟨sign, factor, digits, signs, nonempty, all, rfl, rfl⟩ := numeral
  refine ⟨by simp [nonempty], ?_⟩
  rw [List.forall_mem_append]
  refine ⟨?_, fun c member => Text.isWhiteSpace_of_isDigit (all c member)⟩
  cases signs with
  | none => simp
  | plus => exact List.forall_mem_singleton.mpr (by decide)
  | minus => exact List.forall_mem_singleton.mpr (by decide)

theorem Pitch.solid {pitch : List Char} {semitones : Int} (named : Pitch pitch semitones) :
    ∀ c ∈ pitch, Text.isWhiteSpace c = false := by
  have letters {letter : Char} {semitones : Int} (isLetter : Letter letter semitones) :
      Text.isWhiteSpace letter = false := by
    obtain ⟨name, member, same⟩ := isLetter
    simp only [scale, List.mem_cons, Prod.mk.injEq, List.not_mem_nil, or_false] at member
    rcases member with
      ⟨rfl, _⟩ | ⟨rfl, _⟩ | ⟨rfl, _⟩ | ⟨rfl, _⟩ | ⟨rfl, _⟩ | ⟨rfl, _⟩ | ⟨rfl, _⟩ <;>
      rcases same with rfl | rfl <;> decide
  cases named with
  | natural isLetter => simpa using letters isLetter
  | sharp isLetter => simpa using ⟨letters isLetter, by decide⟩

theorem Denotes.solid {text : List Char} {number : Int} (denotes : Denotes text number) :
    text ≠ [] ∧ ∀ c ∈ text, Text.isWhiteSpace c = false := by
  cases denotes with
  | number numeral _ => exact numeral.solid
  | note named numeral _ _ _ =>
    obtain ⟨nonempty, solid⟩ := numeral.solid
    exact ⟨by simp [nonempty], List.forall_mem_append.mpr ⟨named.solid, solid⟩⟩

/-- To stand for an integer, with nothing but White_Space around what stands for it. -/
def Means (text : String) (number : Int) : Prop :=
  ∃ before inner after, text.toList = before ++ (inner ++ after) ∧
    (∀ c ∈ before, Text.isWhiteSpace c) ∧ (∀ c ∈ after, Text.isWhiteSpace c) ∧
    Denotes inner number

theorem ofText?_eq_some_iff_means {text : String} {number : Int} :
    ofText? text = some number ↔ Means text number := by
  rw [ofText?_eq_some_iff]
  constructor
  · intro denotes
    obtain ⟨before, after, blankBefore, blankAfter, whole⟩ := Text.exists_append_trim text.toList
    exact ⟨before, _, after, whole, blankBefore, blankAfter, denotes⟩
  · rintro ⟨before, inner, after, whole, blankBefore, blankAfter, denotes⟩
    obtain ⟨nonempty, solid⟩ := denotes.solid
    rw [whole, Text.trim_append blankBefore (fun c first => solid c (List.mem_of_head? first))
      (fun c last => solid c (List.mem_of_getLast? last)) blankAfter nonempty]
    exact denotes

theorem numeral_toString (number : Int) : Numeral (toString number).toList number := by
  have digits (value : Nat) : ∀ c ∈ Nat.toDigits 10 value, c.isDigit := fun c member =>
    Nat.isDigit_of_mem_toDigits (by decide) (by decide) member
  rw [Int.toString_eq_repr, Int.repr_eq_if]
  by_cases positive : 0 ≤ number
  · rw [if_pos positive, Nat.toList_repr]
    refine ⟨[], 1, _, .none, Nat.toDigits_ne_nil, digits number.toNat, rfl, ?_⟩
    rw [Nat.ofDigitChars_ten_toDigits]
    omega
  · rw [if_neg positive, String.toList_append, Nat.toList_repr]
    refine ⟨['-'], -1, _, .minus, Nat.toDigits_ne_nil, digits (-number).toNat, rfl, ?_⟩
    rw [Nat.ofDigitChars_ten_toDigits]
    omega

/-- The texts that are integer values are exactly the signed numbers and the notes of 32 bits, with
White_Space around them or none. Each stands for one integer, and any other text for none. Among
them is every integer of 32 bits as it is written. -/
theorem ofText?_exact :
    (∀ text number, ofText? text = some number ↔ Means text number) ∧
    (∀ text, ofText? text = none ↔ ∀ number, ¬ Means text number) ∧
    ∀ (number : Int) (before after : String), Fits number →
      (∀ c ∈ before.toList, Text.isWhiteSpace c) → (∀ c ∈ after.toList, Text.isWhiteSpace c) →
        ofText? (before ++ toString number ++ after) = some number := by
  refine ⟨fun _ _ => ofText?_eq_some_iff_means, ?_, ?_⟩
  · intro text
    simp only [← ofText?_eq_some_iff_means, Option.eq_none_iff_forall_ne_some, ne_eq]
  · intro number before after fits blankBefore blankAfter
    rw [ofText?_eq_some_iff_means]
    refine ⟨before.toList, (toString number).toList, after.toList, ?_, blankBefore, blankAfter,
      .number (numeral_toString number) fits⟩
    rw [String.toList_append, String.toList_append, List.append_assoc]

/-- The least integer, between a space and a blank that is not of ASCII. -/
theorem ofText?_exact_least :
    Fits (-2147483648) ∧
      ofText? (" " ++ toString (-2147483648 : Int) ++ "\u00a0") = some (-2147483648) := by
  have fits : Fits (-2147483648) := by decide
  have blank : ∀ c ∈ " ".toList, Text.isWhiteSpace c = true :=
    List.all_eq_true.mp (by decide +kernel)
  have noBreak : ∀ c ∈ "\u00a0".toList, Text.isWhiteSpace c = true :=
    List.all_eq_true.mp (by decide +kernel)
  exact ⟨fits, ofText?_exact.2.2 (-2147483648) " " "\u00a0" fits blank noBreak⟩

end Sfz.Note

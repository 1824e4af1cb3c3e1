import Mathlib.Algebra.Group.Nat.Defs
import Mathlib.Data.List.Nodup
import Sfz.Proofs.Toml.Lines
import Sfz.Settings.Toml

/-! Laws of libraries for documents.

Whatever library reads and writes the text, two things are relied on: a record whose numbers are
integers of a document is read back field by field, and a record with a larger number is not
written. The library of lines obeys these laws. It writes a number from 0 with its decimal digits,
and reads that word as the number if it has 64 bits with the sign.
-/

set_option autoImplicit false

namespace Sfz.Toml

/-- To be in the range of integers, which are signed and have 64 bits. -/
def Field.Fits : Field → Prop
  | .natural number => number < 2 ^ 63
  | .boolean _ => True

def Field.scalar : Field → Scalar
  | .natural number => .integer (Int64.ofNat number)
  | .boolean flag => .boolean flag

structure Record (fields : List (String × Option Field)) : Prop where
  bare : ∀ name ∈ fields.map Prod.fst, Run isKeyChar name.toList
  distinct : (fields.map Prod.fst).Nodup

/-- What is relied on of a library. -/
structure Library.Lawful (library : Library) : Prop where
  reads_back : ∀ fields, Record fields →
    (∀ field, some field ∈ fields.map Prod.snd → field.Fits) →
      ∃ text root, library.write fields = some text ∧ library.read text = some root ∧
        ∀ name, root name = (fields.lookup name).join.map Field.scalar
  refuses : ∀ fields field, some field ∈ fields.map Prod.snd → ¬field.Fits →
    library.write fields = none

section Digits

variable {digits : List Char} (nonempty : digits ≠ []) (all : ∀ c ∈ digits, c.isDigit)
include nonempty all

theorem grouped?_of_digits : grouped? Char.isDigit digits = some digits := by
  fun_induction grouped? Char.isDigit digits with
  | case1 => exact absurd rfl nonempty
  | case2 c digit => rfl
  | case3 c other => exact absurd (all c List.mem_cons_self) other
  | case4 c rest digit ih => exact absurd (all '_' (by simp)) (by decide)
  | case5 c rest other => exact absurd (all c List.mem_cons_self) other
  | case6 c rest goesOn noBar digit ih =>
    rw [ih goesOn fun c member => all c (List.mem_cons_of_mem _ member)]
    rfl
  | case7 c rest goesOn noBar other => exact absurd (all c List.mem_cons_self) other

theorem integer?_of_digits (leading : ∀ rest, digits = '0' :: rest → rest = []) :
    integer? digits = within64? (Nat.ofDigitChars 10 digits 0 : Nat) := by
  have grouped : decimalDigits? digits = some digits := by
    unfold decimalDigits?
    split
    · next c rest => cases leading (c :: rest) rfl
    · exact grouped?_of_digits nonempty all
  have unsigned : splitSign digits = (none, digits) := by
    unfold splitSign
    split
    · exact absurd (all '+' List.mem_cons_self) (by decide)
    · exact absurd (all '-' List.mem_cons_self) (by decide)
    · rfl
  have value : ofDigits 10 digits = Nat.ofDigitChars 10 digits 0 := by
    apply List.foldl_ext
    intro number c member
    rw [digitValue, if_pos (all c member)]
  unfold integer?
  split
  · exact absurd (all 'x' (by simp)) (by decide)
  · exact absurd (all 'o' (by simp)) (by decide)
  · exact absurd (all 'b' (by simp)) (by decide)
  · rw [unsigned]
    dsimp only
    rw [grouped, Option.bind_some, if_neg nofun, value]

end Digits

theorem head?_toDigits {number : Nat} (positive : 0 < number) :
    (Nat.toDigits 10 number).head? ≠ some '0' := by
  induction number using Nat.strongRecOn with
  | ind number ih =>
    by_cases small : number < 10
    · rw [Nat.toDigits_of_lt_base small, List.head?_singleton, ne_eq, Option.some.injEq,
        Nat.digitChar_eq_zero]
      omega
    · have front := ih (number / 10) (by omega) (by omega)
      rw [Nat.toDigits_of_base_le (by decide) (by omega),
        List.head?_append_of_ne_nil _ Nat.toDigits_ne_nil]
      exact front

section Numbers

variable {number : Nat}

theorem within64?_natural (small : number < 2 ^ 63) :
    within64? number = some (Int64.ofNat number) := by
  have inside : -(integerBound : Int) ≤ number ∧ (number : Int) < integerBound := by
    simp only [integerBound]
    omega
  rw [within64?, if_pos inside, Int64.ofInt_eq_ofNat]

theorem integer?_toDigits (small : number < 2 ^ 63) :
    integer? (Nat.toDigits 10 number) = some (Int64.ofNat number) := by
  have all : ∀ c ∈ Nat.toDigits 10 number, c.isDigit := fun c member =>
    Nat.isDigit_of_mem_toDigits (by decide) (by decide) member
  have leading : ∀ rest, Nat.toDigits 10 number = '0' :: rest → rest = [] := by
    intro rest zero
    rcases Nat.eq_zero_or_pos number with rfl | positive
    · rw [Nat.toDigits_of_lt_base (by decide)] at zero
      cases zero
      rfl
    · exact absurd (by rw [zero]; rfl) (head?_toDigits positive)
  rw [integer?_of_digits Nat.toDigits_ne_nil all leading, Nat.ofDigitChars_ten_toDigits,
    within64?_natural small]

theorem ofWord?_toDigits (small : number < 2 ^ 63) :
    ofWord? (Nat.toDigits 10 number) = some (.integer (Int64.ofNat number)) := by
  have noLetter {c : Char} (letter : c.isDigit = false) : c ∉ Nat.toDigits 10 number := by
    intro member
    have digit := Nat.isDigit_of_mem_toDigits (by decide) (by decide) member
    rw [letter] at digit
    cases digit
  have notTrue : Nat.toDigits 10 number ≠ ['t', 'r', 'u', 'e'] := fun same =>
    noLetter (c := 'e') rfl (by simp [same])
  have notFalse : Nat.toDigits 10 number ≠ ['f', 'a', 'l', 's', 'e'] := fun same =>
    noLetter (c := 'e') rfl (by simp [same])
  rw [ofWord?, if_neg notTrue, if_neg notFalse, integer?_toDigits small]

theorem run_toDigits (number : Nat) : Run isWordChar (Nat.toDigits 10 number) where
  nonempty := Nat.toDigits_ne_nil
  chars c member := by
    have digit := Nat.isDigit_of_mem_toDigits (by decide) (by decide) member
    simp [isWordChar, Char.isAlphanum, digit]

end Numbers

namespace Field

def word : Field → String
  | .natural number => toString number
  | .boolean flag => if flag then "true" else "false"

def value : Field → Value
  | .natural number => .integer (Int64.ofNat number)
  | .boolean flag => .boolean flag

def entry (name : String) (field : Field) : Entry :=
  { name, word := field.word, value := field.value }

theorem word?_of_fits {field : Field} (fits : field.Fits) : field.word? = some field.word := by
  cases field with
  | natural number => exact if_pos fits
  | boolean flag => rfl

theorem word?_of_not_fits {field : Field} (large : ¬field.Fits) : field.word? = none := by
  cases field with
  | natural number => exact if_neg large
  | boolean flag => exact absurd trivial large

theorem plain_entry {name : String} (named : Run isKeyChar name.toList) {field : Field}
    (fits : field.Fits) : (field.entry name).Plain := by
  cases field with
  | natural number =>
    have word : (entry name (.natural number)).word.toList = Nat.toDigits 10 number := by
      change (toString number).toList = _
      rw [Nat.toString_eq_repr, Nat.toList_repr]
    refine ⟨named, ?_, ?_⟩
    · rw [word]
      exact run_toDigits number
    · rw [word]
      exact ofWord?_toDigits fits
  | boolean flag =>
    have truth : Run isWordChar "true".toList := by decide +kernel
    have falsehood : Run isWordChar "false".toList := by decide +kernel
    have means : ofWord? (entry name (.boolean flag)).word.toList = some (.boolean flag) := by
      cases flag <;> simp [entry, word, ofWord?]
    cases flag with
    | true => exact ⟨named, truth, means⟩
    | false => exact ⟨named, falsehood, means⟩

end Field

def entries (fields : List (String × Option Field)) : List Entry :=
  fields.filterMap fun (name, field?) => field?.map (Field.entry name)

section Lines

variable {fields : List (String × Option Field)}

theorem writeLines_of_fits (fit : ∀ field, some field ∈ fields.map Prod.snd → field.Fits) :
    ∃ text, writeLines fields = some text ∧
      text.toList = (entries fields).flatMap Entry.line := by
  induction fields with
  | nil => exact ⟨"", rfl, rfl⟩
  | cons first rest ih =>
    obtain ⟨text, written, spelled⟩ := ih fun field member =>
      fit field (List.mem_cons_of_mem _ member)
    obtain ⟨name, _ | field⟩ := first
    · exact ⟨text, written, spelled⟩
    · have word := Field.word?_of_fits (fit field List.mem_cons_self)
      refine ⟨name ++ " = " ++ field.word ++ "\n" ++ text, ?_, ?_⟩
      · rw [writeLines, word, written]
        rfl
      · simp [entries, Field.entry, Entry.line] at spelled ⊢
        exact spelled

theorem writeLines_of_not_fits {field : Field} (member : some field ∈ fields.map Prod.snd)
    (large : ¬field.Fits) : writeLines fields = none := by
  induction fields with
  | nil => cases member
  | cons first rest ih =>
    obtain ⟨name, _ | other⟩ := first
    · rcases List.mem_cons.mp member with same | later
      · cases same
      · exact ih later
    · rw [writeLines]
      rcases List.mem_cons.mp member with same | later
      · cases same
        rw [Field.word?_of_not_fits large]
        rfl
      · rw [ih later]
        cases other.word? <;> rfl

theorem plain_entries (record : Record fields)
    (fit : ∀ field, some field ∈ fields.map Prod.snd → field.Fits) :
    ∀ entry ∈ entries fields, entry.Plain := by
  intro entry member
  obtain ⟨⟨name, field?⟩, among, written⟩ := List.mem_filterMap.mp member
  obtain ⟨field, rfl, rfl⟩ := Option.map_eq_some_iff.mp written
  exact Field.plain_entry (record.bare name (List.mem_map_of_mem among))
    (fit field (List.mem_map_of_mem among))

theorem sublist_entries : (entries fields).map Entry.name |>.Sublist (fields.map Prod.fst) := by
  induction fields with
  | nil => exact .slnil
  | cons first rest ih =>
    obtain ⟨name, _ | field⟩ := first
    · exact ih.cons name
    · exact ih.cons_cons name

theorem root?_entries (distinct : (fields.map Prod.fst).Nodup) (document : Document)
    (name : String) :
    ((entries fields).foldl Document.enter document).root? name =
      ((fields.lookup name).join.map fun field => Node.value field.value).or
        (document.root? name) := by
  induction fields generalizing document with
  | nil => rfl
  | cons first rest ih =>
    obtain ⟨key, field?⟩ := first
    obtain ⟨absent, distinct⟩ := List.nodup_cons.mp distinct
    have others := ih distinct
    rw [List.lookup_cons]
    by_cases same : name = key
    · subst same
      have last : rest.lookup name = none := by
        rw [List.lookup_eq_none_iff]
        intro other member
        have differs : name ≠ other.1 := by
          rintro rfl
          exact absent (List.mem_map.mpr ⟨other, member, rfl⟩)
        simpa using differs
      rw [last] at others
      cases field? with
      | none => simpa [entries] using others document
      | some field =>
        have entered := others (document.enter (field.entry name))
        simpa [entries, Field.entry] using entered
    · rw [beq_eq_false_iff_ne.mpr same]
      cases field? with
      | none => simpa [entries] using others document
      | some field =>
        have entered := others (document.enter (field.entry key))
        have elsewhere : name ≠ (field.entry key).name := same
        rw [Document.root?_enter, if_neg elsewhere] at entered
        simpa [entries] using entered

end Lines

theorem lawful_library : library.Lawful where
  reads_back fields record fit := by
    obtain ⟨text, written, spelled⟩ := writeLines_of_fits fit
    have distinct := record.distinct.sublist sublist_entries
    have read := Document.ofText?_of_lines (plain_entries record fit) distinct spelled
    refine ⟨text, _, written, congrArg (Option.map _) read, ?_⟩
    intro name
    have placed := root?_entries record.distinct {} name
    change ((Document.ofEntries (entries fields)).root? name).map Node.scalar = _
    rw [Document.ofEntries, placed]
    cases (fields.lookup name).join with
    | none => rfl
    | some field => cases field <;> rfl
  refuses fields field member large := writeLines_of_not_fits member large

end Sfz.Toml

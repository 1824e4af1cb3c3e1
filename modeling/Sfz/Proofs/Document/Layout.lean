import Mathlib.Data.List.Forall2
import Sfz.Section
import Sfz.Text
import Sfz.Opcode

/-! The texts of a document.

A document is what a text says: its sections with their pairs of a key and a value. One document
has many texts, which differ in the letter case of the tags and in the blanks and comments between
the words. A value that may contain blanks runs to the end of its line or to the next key, so a
comment after it begins on a later line.
-/

set_option autoImplicit false

namespace Sfz

/-- To have the letters of the name of a section type, each in lower or upper case. -/
def SectionType.NamedBy (type : SectionType) (tag : String) : Prop :=
  List.Forall₂ (fun written letter => written = letter ∨ written = Char.toUpper letter)
    tag.toList type.name.toList

instance (type : SectionType) (tag : String) : Decidable (type.NamedBy tag) :=
  inferInstanceAs (Decidable (List.Forall₂ _ _ _))

/-- A section without its lines. -/
structure Outline where
  type : SectionType
  pairs : List (String × String)
  deriving DecidableEq, Repr

def Section.outline (part : Section) : Outline :=
  { type := part.type
    pairs := part.assignments.map fun assignment => (assignment.key, assignment.value) }

namespace Layout

structure Word (text : String) : Prop where
  nonempty : text ≠ ""
  inside : ∀ c ∈ text.toList, c ≠ '=' ∧ c ≠ '<' ∧ c ≠ '\n'
  first : ∀ c ∈ text.toList.head?, Text.isAsciiBlank c = false ∧ c ≠ '/' ∧ c ≠ '#'
  last : ∀ c ∈ text.toList.getLast?, Text.isWhiteSpace c = false

def Solid (text : String) : Prop :=
  ∀ c ∈ text.toList, Text.isAsciiBlank c = false

structure Key (key : String) : Prop extends Word key where
  solid : Solid key

/-- A value for a key. It must not be the name of a key whose values may contain blanks. -/
structure Value (key value : String) : Prop extends Word value where
  solid : ValueType.ofKey key ≠ .string → Solid value
  inert : ValueType.ofKey value ≠ .string

-- The tests go over the characters of the text. A search for an instance may find one that goes
-- over all characters there are.
instance (text : String) : Decidable (Word text) :=
  decidable_of_iff
    (text ≠ "" ∧ text.toList.all (fun c => c ≠ '=' ∧ c ≠ '<' ∧ c ≠ '\n') ∧
      text.toList.head?.all (fun c => Text.isAsciiBlank c = false ∧ c ≠ '/' ∧ c ≠ '#') ∧
      text.toList.getLast?.all fun c => Text.isWhiteSpace c = false)
    (by
      simp only [List.all_eq_true, Option.all_eq_true, decide_eq_true_eq]
      exact ⟨fun ⟨nonempty, inside, first, last⟩ => ⟨nonempty, inside, first, last⟩,
        fun word => ⟨word.nonempty, word.inside, word.first, word.last⟩⟩)

instance (text : String) : Decidable (Solid text) :=
  List.decidableBAll _ _

instance (key : String) : Decidable (Key key) :=
  decidable_of_iff (Word key ∧ Solid key)
    ⟨fun ⟨word, solid⟩ => ⟨word, solid⟩, fun isKey => ⟨isKey.toWord, isKey.solid⟩⟩

instance (key value : String) : Decidable (Value key value) :=
  decidable_of_iff
    (Word value ∧ (ValueType.ofKey key ≠ .string → Solid value) ∧ ValueType.ofKey value ≠ .string)
    ⟨fun ⟨word, solid, inert⟩ => ⟨word, solid, inert⟩,
      fun isValue => ⟨isValue.toWord, isValue.solid, isValue.inert⟩⟩

def Blanks (chars : List Char) : Prop :=
  ∀ c ∈ chars, Text.isAsciiBlank c ∧ c ≠ '\n'

instance (chars : List Char) : Decidable (Blanks chars) :=
  List.decidableBAll _ _

def Remark (chars : List Char) : Prop :=
  ∀ c ∈ chars, c ≠ '\n' ∧ c ≠ '\r'

instance (chars : List Char) : Decidable (Remark chars) :=
  List.decidableBAll _ _

/-- Blanks and comments, every comment with the end of its line. -/
inductive Space : List Char → Prop where
  | nil : Space []
  | blank {c : Char} {rest : List Char} :
    Text.isAsciiBlank c → Space rest → Space (c :: rest)
  | comment {body rest : List Char} {ending : Char} :
    Remark body → ending = '\n' ∨ ending = '\r' → Space rest →
      Space ('/' :: (body ++ ending :: rest))

/-- What may stand behind the value of a key. -/
inductive Separator (key : String) : List Char → Prop where
  | none : Separator key []
  | space {c : Char} {rest : List Char} :
    ValueType.ofKey key ≠ .string → Text.isAsciiBlank c → Space rest → Separator key (c :: rest)
  | line {blanks : List Char} :
    ValueType.ofKey key = .string → Blanks blanks → Separator key blanks
  | lines {blanks rest : List Char} :
    ValueType.ofKey key = .string → Blanks blanks → Space rest →
      Separator key (blanks ++ '\n' :: rest)

def Pair (key value : String) (chars : List Char) : Prop :=
  ∃ blanks space, Blanks blanks ∧ Space space ∧
    chars = key.toList ++ (blanks ++ '=' :: (space ++ value.toList))

inductive Pairs : List (String × String) → List Char → Prop where
  | nil : Pairs [] []
  | cons {key value : String} {pairs : List (String × String)} {pair separator rest : List Char} :
    Key key → Value key value → Pair key value pair → Separator key separator →
      (pairs ≠ [] → separator ≠ []) → Pairs pairs rest →
        Pairs ((key, value) :: pairs) (pair ++ (separator ++ rest))

inductive Sections : List Outline → List Char → Prop where
  | nil : Sections [] []
  | cons {type : SectionType} {tag : String} {pairs : List (String × String)}
    {parts : List Outline} {space body rest : List Char} :
    type.NamedBy tag → Space space → Pairs pairs body → Sections parts rest →
      Sections (⟨type, pairs⟩ :: parts)
        ('<' :: (tag.toList ++ '>' :: (space ++ (body ++ rest))))

/-- The texts of a document. A comment at the very end need not end its line. -/
def Document (parts : List Outline) (text : String) : Prop :=
  ∃ space rest, Space space ∧ Sections parts rest ∧
    (text.toList = space ++ rest ∨ text.toList ++ ['\n'] = space ++ rest)

end Layout

end Sfz

import Mathlib.Data.List.Basic
import Sfz.Proofs.Document.Layout
import Sfz.Section.Grouping

/-! The sections that well-formed lexemes spell out. -/

set_option autoImplicit false

namespace Sfz

def Lexeme.ofPair (pair : String × String) : List Lexeme :=
  [.identifier pair.1, .equal, .identifier pair.2]

/-- Lexemes that spell out a document, with its tags in any letter case. -/
inductive Spells : List Outline → List Lexeme → Prop where
  | nil : Spells [] []
  | cons {type : SectionType} {tag : String} {pairs : List (String × String)}
    {parts : List Outline} {rest : List Lexeme} :
    SectionType.ofTag? tag = some type → Spells parts rest →
      Spells (⟨type, pairs⟩ :: parts) (.tag tag :: (pairs.flatMap Lexeme.ofPair ++ rest))

namespace Text

theorem toLower_eq_iff {written letter : Char} (lower : letter.isLower) :
    written.toLower = letter ↔ written = letter ∨ written = letter.toUpper := by
  delta Char.isLower at lower
  delta Char.toLower Char.toUpper
  simp only [ge_iff_le, Bool.and_eq_true, decide_eq_true_eq] at lower
  simp only [Char.ext_iff]
  have first : ('A' : Char).val = 65 := rfl
  have last : ('Z' : Char).val = 90 := rfl
  have firstLower : ('a' : Char).val = 97 := rfl
  have lastLower : ('z' : Char).val = 122 := rfl
  simp only [first, last, firstLower, lastLower] at *
  rw [dif_pos lower]
  split <;> grind

theorem map_toLower_eq_iff {chars letters : List Char} (lower : ∀ c ∈ letters, c.isLower) :
    chars.map Char.toLower = letters ↔
      List.Forall₂ (fun written letter => written = letter ∨ written = Char.toUpper letter)
        chars letters := by
  induction chars generalizing letters with
  | nil => cases letters <;> simp
  | cons c rest ih =>
    cases letters with
    | nil => simp
    | cons letter others =>
      rw [List.forall_mem_cons] at lower
      rw [List.map_cons, List.cons.injEq, List.forall₂_cons, toLower_eq_iff lower.1, ih lower.2]

end Text

namespace SectionType

/-- The fold of a tag is the name exactly if the tag differs from it in letter case alone. -/
theorem lowerAscii_eq_name_iff {type : SectionType} {tag : String} :
    Text.lowerAscii tag = type.name ↔ type.NamedBy tag := by
  have lower : type.name.toList.all Char.isLower := by
    cases type <;> decide +kernel
  rw [NamedBy, ← Text.map_toLower_eq_iff (List.all_eq_true.mp lower), Text.lowerAscii,
    ← String.toList_inj, String.toList_ofList]

theorem ofTag?_of_namedBy {type : SectionType} {tag : String} (named : type.NamedBy tag) :
    ofTag? tag = some type := by
  rw [ofTag?, lowerAscii_eq_name_iff.mpr named]
  cases type <;> rfl

end SectionType

theorem Token.exists_of_map_eq_cons {tokens : List Token} {lexeme : Lexeme} {rest : List Lexeme}
    (spelled : tokens.map Token.lexeme = lexeme :: rest) :
    ∃ line others, tokens = ⟨lexeme, line⟩ :: others ∧ others.map Token.lexeme = rest := by
  obtain ⟨⟨_, line⟩, others, rfl, rfl, remaining⟩ := List.map_eq_cons_iff.mp spelled
  exact ⟨line, others, rfl, remaining⟩

namespace Grouping

theorem place_pairs (done : Array Section) (pending : Pending) (pairs : List (String × String))
    {rest : List Lexeme} {tokens : List Token}
    (spelled : tokens.map Token.lexeme = pairs.flatMap Lexeme.ofPair ++ rest) :
    ∃ (filled : Pending) (others : List Token),
      place done (some pending) tokens = place done (some filled) others ∧
      others.map Token.lexeme = rest ∧
      filled.close.outline =
        { type := pending.type, pairs := pending.close.outline.pairs ++ pairs } := by
  induction pairs generalizing pending tokens with
  | nil =>
    refine ⟨pending, tokens, rfl, spelled, ?_⟩
    rw [List.append_nil]
    rfl
  | cons pair pairs ih =>
    obtain ⟨key, value⟩ := pair
    rw [List.flatMap_cons, Lexeme.ofPair, List.append_assoc] at spelled
    obtain ⟨line, _, rfl, afterKey⟩ := Token.exists_of_map_eq_cons spelled
    obtain ⟨lineOfEqual, _, rfl, afterEqual⟩ := Token.exists_of_map_eq_cons afterKey
    obtain ⟨lineOfValue, _, rfl, afterValue⟩ := Token.exists_of_map_eq_cons afterEqual
    obtain ⟨filled, others, placed, remaining, outline⟩ := ih
      { pending with assignments := pending.assignments.push { key, value, line } } afterValue
    refine ⟨filled, others, ?_, remaining, ?_⟩
    · rw [← placed]
      rfl
    · rw [outline]
      simp only [Pending.close, Section.outline, Array.toList_push, List.map_append,
        List.map_singleton, List.append_assoc, List.singleton_append]

theorem place_spells {parts : List Outline} {lexemes : List Lexeme} (spells : Spells parts lexemes)
    (done : Array Section) (pending? : Option Pending) {tokens : List Token}
    (spelled : tokens.map Token.lexeme = lexemes) :
    ∃ sections : List Section,
      place done pending? tokens = .ok (closed done pending? ++ sections.toArray) ∧
      sections.map Section.outline = parts := by
  induction spells generalizing done pending? tokens with
  | nil =>
    obtain rfl := List.map_eq_nil_iff.mp spelled
    refine ⟨[], ?_, rfl⟩
    rw [place, Array.append_empty]
  | cons named spells ih =>
    obtain ⟨line, _, rfl, afterTag⟩ := Token.exists_of_map_eq_cons spelled
    obtain ⟨filled, others, placed, remaining, outline⟩ :=
      place_pairs (closed done pending?) { type := _, line } _ afterTag
    obtain ⟨sections, rest, outlines⟩ := ih (closed done pending?) (some filled) remaining
    refine ⟨filled.close :: sections, ?_, ?_⟩
    · rw [place, named]
      dsimp only
      rw [placed, rest, closed]
      simp
    · rw [List.map_cons, outline, outlines]
      rfl

end Grouping

theorem Section.ofTokens_spells {parts : List Outline} {tokens : List Token}
    (spells : Spells parts (tokens.map Token.lexeme)) :
    ∃ sections, Section.ofTokens tokens = .ok sections ∧ sections.map Section.outline = parts := by
  obtain ⟨sections, placed, outlines⟩ := Grouping.place_spells spells #[] none rfl
  refine ⟨sections, ?_, outlines⟩
  rw [ofTokens, placed]
  simp [Grouping.closed, Except.map]

end Sfz

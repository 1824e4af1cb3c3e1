import Sfz.Proofs.Document.Reading
import Sfz.Proofs.Lexer.Places
import Sfz.Proofs.Lexer.Shape

/-! Documents written one item a line, with values that happen to name a key.

After a value that is the name of a key whose values may contain blanks, the scan takes the next
identifier for a value of that key, whatever tags stand between. It is a key without a blank in it,
so the equals sign behind it cannot be told from one in that value. Such a document is read back if
only its last pair has such a value. Otherwise the scan fails in the line of the pair behind the
first one.
-/

set_option autoImplicit false

namespace Sfz

open Lexer

namespace Layout

/-- To be the name of a key whose values may contain blanks. -/
def Diverting (value : String) : Prop :=
  value ∈ ["sample", "default_path", "sw_label"]

instance (value : String) : Decidable (Diverting value) :=
  inferInstanceAs (Decidable (value ∈ ["sample", "default_path", "sw_label"]))

structure Content (key value : String) : Prop extends Word value where
  solid : ValueType.ofKey key ≠ .string → Solid value

inductive Item where
  | tag (name : String)
  | pair (pair : String × String)

namespace Item

def line : Item → List Char
  | tag name => '<' :: (name.toList ++ ['>', '\n'])
  | pair (key, value) => key.toList ++ '=' :: (value.toList ++ ['\n'])

def lexemes : Item → List Lexeme
  | tag name => [.tag name]
  | pair assignment => Lexeme.ofPair assignment

def value? : Item → Option String
  | tag _ => none
  | pair (_, value) => some value

def Diverts (item : Item) : Prop :=
  ∃ value ∈ item.value?, Diverting value

def contextAfter (context : ValueType) (item : Item) : ValueType :=
  item.value?.elim context ValueType.ofKey

inductive Writable : Item → Prop where
  | tag {name : String} {type : SectionType} :
    type.NamedBy name → Writable (.tag name)
  | pair {key value : String} : Key key → Content key value → Writable (.pair (key, value))

end Item

/-- The lines of a document, with its tags in any letter case. -/
inductive Lines : List Outline → List Item → Prop where
  | nil : Lines [] []
  | cons {type : SectionType} {tag : String} {pairs : List (String × String)}
    {parts : List Outline} {items : List Item} :
    type.NamedBy tag → (∀ pair ∈ pairs, Key pair.1 ∧ Content pair.1 pair.2) →
      Lines parts items → Lines (⟨type, pairs⟩ :: parts) (.tag tag :: (pairs.map .pair ++ items))

/-- The text of lines. The last line need not end. -/
def Written (items : List Item) (text : String) : Prop :=
  text.toList = items.flatMap Item.line ∨ text.toList ++ ['\n'] = items.flatMap Item.line

def valuesBeforeLast (parts : List Outline) : List String :=
  ((parts.flatMap Outline.pairs).map Prod.snd).dropLast

namespace Lines

variable {parts : List Outline} {items : List Item} (lines : Lines parts items)
include lines

theorem writable : ∀ item ∈ items, item.Writable := by
  induction lines with
  | nil => simp
  | cons name pairs _ ih =>
    rw [List.forall_mem_cons, List.forall_mem_append, List.forall_mem_map]
    exact ⟨.tag name, fun pair member => .pair (pairs pair member).1 (pairs pair member).2, ih⟩

theorem spells : Spells parts (items.flatMap Item.lexemes) := by
  induction lines with
  | nil => exact .nil
  | cons name _ _ ih =>
    rw [List.flatMap_cons, List.flatMap_append, List.flatMap_map]
    exact .cons (SectionType.ofTag?_of_namedBy name) ih

theorem values : items.filterMap Item.value? = (parts.flatMap Outline.pairs).map Prod.snd := by
  induction lines with
  | nil => rfl
  | @cons type tag pairs parts items _ _ _ ih =>
    have inside : (pairs.map Item.pair).filterMap Item.value? = pairs.map Prod.snd := by
      rw [List.filterMap_map]
      exact congrFun List.filterMap_eq_map pairs
    rw [List.filterMap_cons_none rfl, List.filterMap_append, inside, ih, List.flatMap_cons,
      List.map_append]

end Lines

theorem ofKey_ne_string {value : String} (plain : ¬ Diverting value) :
    ValueType.ofKey value ≠ .string := fun string =>
  plain (ValueType.ofKey_eq_string_iff.mp string)

theorem unknown_ne_string : ValueType.unknown ≠ .string :=
  nofun

def between (context : ValueType) (lexemes : List Lexeme) : View :=
  { mode := .ready, context, lexemes, asked := #[] }

section Leads

variable (enter : String → State → Outcome) {context : ValueType}

theorem leads_pairLine (other : context ≠ .string) {key value : String} (isKey : Key key)
    (content : Content key value) (lexemes : List Lexeme) :
    (between context lexemes).Leads enter (Item.pair (key, value)).line
      (between (ValueType.ofKey value) (lexemes ++ Lexeme.ofPair (key, value))) := by
  have rested : Rested lexemes (between context lexemes) :=
    { mode := rfl, context := other, lexemes := rfl, asked := rfl }
  have toValue := @Rested.leads_key enter _ _ rested key isKey [] (by simp [Blanks])
  have inValue : View.Leads enter _ value.toList _ :=
    @leads_word enter (((between context lexemes).identify key.toList).emit .equal) rfl value
      content.toWord fun other => content.solid (by simpa [View.identify, View.emit] using other)
  have ends := @View.step_endBlank
    { ((between context lexemes).identify key.toList).emit .equal with
      mode := .identifier value.toList.reverse } _ rfl '\n' rfl (.inl rfl)
  have text : (Item.pair (key, value)).line =
      (key.toList ++ ([] ++ ['='])) ++ (value.toList ++ ['\n']) := by
    simp [Item.line]
  rw [List.reverse_reverse, Text.trimEnd_eq_self content.last] at ends
  rw [text]
  have whole := toValue.append (inValue.append ends.leads)
  simpa [View.identify, View.emit, between, Lexeme.ofPair] using whole

namespace Item.Writable

variable {item : Item} (writable : item.Writable)
include writable

theorem leads_line (context : ValueType) (plain : context ≠ .string ∨ item.value? = none)
    (lexemes : List Lexeme) :
    (between context lexemes).Leads enter item.line
      (between (item.contextAfter context) (lexemes ++ item.lexemes)) := by
  cases writable with
  | @tag name type known =>
    have text : (Item.tag name).line = '<' :: ((name.toList ++ ['>']) ++ ['\n']) := by
      simp [line]
    rw [text]
    exact .cons (View.step_openTag rfl)
      ((leads_closeTag rfl known).append (View.step_blank rfl rfl).leads)
  | pair isKey content =>
    exact leads_pairLine enter (plain.resolve_right (by simp [value?])) isKey content lexemes

theorem count_line : item.line.count '\n' = 1 := by
  have none {text : List Char} (plain : ∀ c ∈ text, c ≠ '\n') : text.count '\n' = 0 :=
    List.count_eq_zero.mpr fun member => plain '\n' member rfl
  cases writable with
  | @tag name type known =>
    have inName := none fun c member same => by
      have solid := (tag_plain known c member).1
      rw [same] at solid
      cases solid
    simp [line, inName]
  | @pair key value isKey content =>
    have inKey := none fun c member => (isKey.inside c member).2.2
    have inValue := none fun c member => (content.inside c member).2.2
    simp [line, inKey, inValue]

end Item.Writable

section Runs

variable {items : List Item} (writable : ∀ item ∈ items, item.Writable)
include writable

theorem count_lines : (items.flatMap Item.line).count '\n' = items.length := by
  induction items with
  | nil => rfl
  | cons item rest ih =>
    obtain ⟨first, others⟩ := List.forall_mem_cons.mp writable
    rw [List.flatMap_cons, List.count_append, first.count_line, ih others, List.length_cons,
      Nat.add_comm]

theorem leads_lines (plain : ∀ item ∈ items, ¬ item.Diverts) (other : context ≠ .string)
    (lexemes : List Lexeme) :
    ∃ after, after ≠ .string ∧
      (between context lexemes).Leads enter (items.flatMap Item.line)
        (between after (lexemes ++ items.flatMap Item.lexemes)) := by
  -- what carries the induction is that no line leaves the type of a value with blanks
  induction items generalizing context lexemes with
  | nil => exact ⟨context, other, by simpa using View.Leads.nil⟩
  | cons item rest ih =>
    obtain ⟨first, others⟩ := List.forall_mem_cons.mp writable
    obtain ⟨here, later⟩ := List.forall_mem_cons.mp plain
    have still : item.contextAfter context ≠ .string := by
      cases item with
      | tag name => exact other
      | pair pair => exact ofKey_ne_string fun diverting => here ⟨pair.2, rfl, diverting⟩
    obtain ⟨after, settled, leads⟩ := ih others later still (lexemes ++ item.lexemes)
    refine ⟨after, settled, ?_⟩
    simpa only [List.flatMap_cons, List.append_assoc] using
      (first.leads_line enter context (.inl other) lexemes).append leads

theorem leads_tagLines (context : ValueType) (tags : ∀ item ∈ items, item.value? = none)
    (lexemes : List Lexeme) :
    (between context lexemes).Leads enter (items.flatMap Item.line)
      (between context (lexemes ++ items.flatMap Item.lexemes)) := by
  induction items generalizing lexemes with
  | nil => simpa using View.Leads.nil
  | cons item rest ih =>
    obtain ⟨first, others⟩ := List.forall_mem_cons.mp writable
    obtain ⟨here, later⟩ := List.forall_mem_cons.mp tags
    have leads := first.leads_line enter context (.inr here) lexemes
    rw [Item.contextAfter, here, Option.elim_none] at leads
    simpa only [List.flatMap_cons, List.append_assoc] using
      leads.append (ih others later (lexemes ++ item.lexemes))

end Runs

/-- A value that diverts leaves its type to all the tags behind it. -/
theorem leads_diverted {before tags : List Item} {pair : String × String}
    (writable : ∀ item ∈ before ++ .pair pair :: tags, item.Writable)
    (plain : ∀ item ∈ before, ¬ item.Diverts) (noPair : ∀ item ∈ tags, item.value? = none)
    (other : context ≠ .string) (lexemes : List Lexeme) :
    (between context lexemes).Leads enter ((before ++ .pair pair :: tags).flatMap Item.line)
      (between (ValueType.ofKey pair.2)
        (lexemes ++ (before ++ .pair pair :: tags).flatMap Item.lexemes)) := by
  rw [List.forall_mem_append, List.forall_mem_cons] at writable
  obtain ⟨first, middle, last⟩ := writable
  obtain ⟨after, still, toPair⟩ := leads_lines enter first plain other lexemes
  have overPair := middle.leads_line enter after (.inl still)
    (lexemes ++ before.flatMap Item.lexemes)
  have overTags := leads_tagLines enter last (ValueType.ofKey pair.2) noPair
    (lexemes ++ before.flatMap Item.lexemes ++ (Item.pair pair).lexemes)
  simpa only [List.flatMap_append, List.flatMap_cons, List.append_assoc] using
    toPair.append (overPair.append overTags)

end Leads

section Scans

variable {ρ : Type} [Supplier ρ] (supplier? : Option ρ) (maxDepth : Nat)

theorem feed_divertedKey {state : State} {read : List Char}
    (identifier : state.mode = .identifier read) (string : state.context = .string)
    (solid : ∀ c ∈ read, Text.isAsciiBlank c = false) :
    state.feed '=' = .fail .equalInIdentifier state := by
  have whole : Text.splitLastBlank (Text.trimEnd read.reverse) = none :=
    Text.splitLastBlank_of_solid fun c member =>
      solid c (List.mem_reverse.mp ((Text.trimEnd_prefix _).subset member))
  have same : state.count '=' = state := rfl
  rw [State.feed, same, State.dispatch, identifier]
  simp only [State.feedIdentifier, if_true, State.endAtEqual, string, whole]

theorem read_divertedKey {lexemes : List Lexeme} {state : State}
    (shown : state.view = between .string lexemes) {key : String} (isKey : Key key) :
    read (entering supplier? maxDepth maxDepth) state (key.toList ++ ['=']) =
      .error { error := { fault := .equalInIdentifier, within := [], line := state.line + 1 }
               asked := #[] } := by
  obtain ⟨last, reached, read⟩ :=
    @leads_word (entering supplier? maxDepth maxDepth) _ rfl key isKey.toWord
      (fun _ => isKey.solid) state shown
  have line : last.line = state.line := by
    have none : key.toList.count '\n' = 0 :=
      List.count_eq_zero.mpr fun member => (isKey.inside _ member).2.2 rfl
    rw [line_read reached, none, Nat.add_zero]
  have failed := feed_divertedKey (congrArg View.mode read) (congrArg View.context read)
    fun c member => isKey.solid c (List.mem_reverse.mp member)
  have asked : last.asked = #[] := congrArg View.asked read
  rw [read_append, reached]
  change Lexer.read _ last ['='] = _
  rw [Lexer.read, failed]
  change last.halt .equalInIdentifier = _
  rw [State.halt, line, asked]

variable {items : List Item} {text : String}

-- The line feed that may be missing is not the equals sign of a pair.
theorem Written.isPrefix (written : Written items text) {front : List Char}
    (starts : front ++ ['='] <+: items.flatMap Item.line) : front ++ ['='] <+: text.toList := by
  rcases written with same | same
  · rwa [same]
  · rw [← same, List.prefix_concat_iff] at starts
    refine starts.resolve_left fun whole => ?_
    have ends := (List.append_inj' whole rfl).2
    cases ends

theorem Written.lex_of_diverted (written : Written items text)
    (writable : ∀ item ∈ items, item.Writable) {before tags rest : List Item}
    {pair next : String × String}
    (split : items = before ++ .pair pair :: (tags ++ .pair next :: rest))
    (plain : ∀ item ∈ before, ¬ item.Diverts) (diverting : Diverting pair.2)
    (noPair : ∀ item ∈ tags, item.value? = none) :
    (lex supplier? maxDepth text).result =
      .error { fault := .equalInIdentifier, within := []
               line := before.length + tags.length + 2 } := by
  have parts : items = (before ++ .pair pair :: tags) ++ .pair next :: rest := by
    rw [split, List.append_assoc, List.cons_append]
  rw [parts, List.forall_mem_append, List.forall_mem_cons] at writable
  obtain ⟨front, isNext, _⟩ := writable
  have isKey : Key next.1 := by
    cases isNext with
    | pair isKey _ => exact isKey
  obtain ⟨last, reached, shown⟩ :=
    leads_diverted (entering supplier? maxDepth maxDepth) front plain noPair unknown_ne_string []
      {} rfl
  rw [ValueType.ofKey_eq_string_iff.mpr diverting] at shown
  have line : last.line = before.length + tags.length + 1 := by
    rw [line_read reached, count_lines front, List.length_append, List.length_cons]
    exact (Nat.zero_add _).trans (Nat.add_assoc _ _ _).symm
  have failed := read_divertedKey supplier? maxDepth shown isKey
  have starts : ((before ++ .pair pair :: tags).flatMap Item.line ++ next.1.toList) ++ ['='] <+:
      items.flatMap Item.line := by
    have line : (Item.pair next).line = next.1.toList ++ '=' :: (next.2.toList ++ ['\n']) := rfl
    refine ⟨next.2.toList ++ '\n' :: rest.flatMap Item.line, ?_⟩
    simp only [parts, List.flatMap_append, List.flatMap_cons, line, List.append_assoc,
      List.cons_append, List.nil_append]
  obtain ⟨more, chars⟩ := written.isPrefix starts
  rw [lex_eq_lexed, ← chars, scan_append, List.append_assoc, read_append, reached]
  change (Outcome.lexed (Lexer.read _ last _ >>= _)).result = _
  rw [failed, line]
  rfl

theorem Written.lex_of_leads (written : Written items text) {context : ValueType}
    {lexemes : List Lexeme}
    (leads : (between .unknown []).Leads (entering supplier? maxDepth maxDepth)
      (items.flatMap Item.line) (between context lexemes)) :
    ∃ tokens, (lex supplier? maxDepth text).result = .ok tokens ∧
      tokens.map Token.lexeme = lexemes := by
  obtain ⟨last, reached, shown⟩ := leads {} rfl
  have ready : last.mode = .ready := congrArg View.mode shown
  have told : last.lexemes = lexemes := congrArg View.lexemes shown
  obtain ⟨state, done, reached, finished, rfl⟩ : ∃ state done,
      read (entering supplier? maxDepth maxDepth) {} text.toList = .ok state ∧
        state.finish = .ok done ∧ done.lexemes = lexemes := by
    rcases written with same | same
    · rw [← same] at reached
      exact ⟨last, last, reached, by rw [State.finish, ready], told⟩
    · rw [← same, read_append] at reached
      cases front : read (entering supplier? maxDepth maxDepth) {} text.toList with
      | error halt =>
        rw [front] at reached
        cases reached
      | ok state =>
        rw [front] at reached
        obtain ⟨_, done, finished, lexemes, _⟩ :=
          finish_of_lineFeed reached (congrArg Mode.inDirective ready)
        exact ⟨state, done, rfl, finished, lexemes.trans told⟩
  refine ⟨done.tokens.toList, ?_, rfl⟩
  rw [lex_eq_lexed, scan_eq_read, reached]
  change (Outcome.lexed state.finish).result = _
  rw [finished, Outcome.lexed]

end Scans

theorem exists_first_diverting {items : List Item} (diverted : ∃ item ∈ items, item.Diverts) :
    ∃ before pair rest, items = before ++ .pair pair :: rest ∧
      (∀ item ∈ before, ¬ item.Diverts) ∧ Diverting pair.2 := by
  induction items with
  | nil => simp at diverted
  | cons item rest ih =>
    by_cases here : item.Diverts
    · obtain ⟨value, mine, diverting⟩ := here
      cases item with
      | tag name => cases mine
      | pair pair =>
        cases mine
        exact ⟨[], pair, rest, rfl, by simp, diverting⟩
    · have later : ∃ item ∈ rest, item.Diverts := by simpa [here] using diverted
      obtain ⟨before, pair, others, rfl, plain, diverting⟩ := ih later
      exact ⟨item :: before, pair, others, rfl, List.forall_mem_cons.mpr ⟨here, plain⟩, diverting⟩

theorem tags_or_next (items : List Item) :
    (∀ item ∈ items, item.value? = none) ∨
      ∃ tags next rest, items = tags ++ .pair next :: rest ∧
        ∀ item ∈ tags, item.value? = none := by
  induction items with
  | nil => exact .inl (by simp)
  | cons item rest ih =>
    cases item with
    | pair next => exact .inr ⟨[], next, rest, rfl, by simp⟩
    | tag name =>
      rcases ih with noPair | ⟨tags, next, others, rfl, noPair⟩
      · exact .inl (List.forall_mem_cons.mpr ⟨rfl, noPair⟩)
      · exact .inr ⟨.tag name :: tags, next, others, rfl, List.forall_mem_cons.mpr ⟨rfl, noPair⟩⟩

section Values

variable {before tags : List Item} {pair : String × String}

theorem filterMap_value?_cons (rest : List Item) :
    (.pair pair :: rest).filterMap Item.value? = pair.2 :: rest.filterMap Item.value? :=
  List.filterMap_cons_some rfl

theorem not_diverting_of_plain (plain : ∀ item ∈ before, ¬ item.Diverts) :
    ∀ value ∈ before.filterMap Item.value?, ¬ Diverting value := by
  intro value member diverting
  obtain ⟨item, among, told⟩ := List.mem_filterMap.mp member
  exact plain item among ⟨value, told, diverting⟩

theorem filterMap_value?_of_tags (noPair : ∀ item ∈ tags, item.value? = none) :
    (before ++ .pair pair :: tags).filterMap Item.value? =
      before.filterMap Item.value? ++ [pair.2] := by
  rw [List.filterMap_append, filterMap_value?_cons, List.filterMap_eq_nil_iff.mpr noPair]

theorem mem_dropLast_values (before tags : List Item) (pair next : String × String)
    (rest : List Item) :
    pair.2 ∈ ((before ++ .pair pair :: (tags ++ .pair next :: rest)).filterMap
      Item.value?).dropLast := by
  have later : (tags ++ .pair next :: rest).filterMap Item.value? ≠ [] := by
    rw [List.filterMap_append, filterMap_value?_cons]
    simp
  rw [List.filterMap_append, filterMap_value?_cons,
    List.dropLast_append_of_ne_nil (List.cons_ne_nil _ _), List.dropLast_cons_of_ne_nil later]
  exact List.mem_append_right _ List.mem_cons_self

end Values

section ReadBack

variable {parts : List Outline} {items : List Item} {text : String}

theorem Lines.read_back_of_leads (lines : Lines parts items) (written : Written items text)
    {ρ : Type} [Supplier ρ] {supplier? : Option ρ} {maxDepth : Nat} {context : ValueType}
    (leads : (between .unknown []).Leads (entering supplier? maxDepth maxDepth)
      (items.flatMap Item.line) (between context (items.flatMap Item.lexemes))) :
    ∃ tokens sections, (lex supplier? maxDepth text).result = .ok tokens ∧
      Section.ofTokens tokens = .ok sections ∧ sections.map Section.outline = parts := by
  obtain ⟨tokens, lexed, told⟩ := written.lex_of_leads supplier? maxDepth leads
  obtain ⟨sections, grouped, outlines⟩ := Section.ofTokens_spells (told ▸ lines.spells)
  exact ⟨tokens, sections, lexed, grouped, outlines⟩

/-- A document written one item a line is read back exactly if no value but that of its last pair is
the name of a key whose values may contain blanks. Otherwise the scan fails in the line of the pair
behind the first such value, whatever tags are between. -/
theorem Lines.read_back_iff (lines : Lines parts items) (written : Written items text)
    {ρ : Type} [Supplier ρ] (supplier? : Option ρ) (maxDepth : Nat) :
    ((∃ tokens sections, (lex supplier? maxDepth text).result = .ok tokens ∧
        Section.ofTokens tokens = .ok sections ∧ sections.map Section.outline = parts) ↔
      ∀ value ∈ valuesBeforeLast parts, ¬ Diverting value) ∧
    ((∃ value ∈ valuesBeforeLast parts, Diverting value) →
      ∃ before pair tags next rest, items = before ++ .pair pair :: (tags ++ .pair next :: rest) ∧
        (∀ item ∈ before, ¬ item.Diverts) ∧ Diverting pair.2 ∧
        (∀ item ∈ tags, item.value? = none) ∧
        ∃ error : Lexer.Error, (lex supplier? maxDepth text).result = .error error ∧
          error.description = "equals sign in identifier" ∧
          error.line = before.length + tags.length + 2) := by
  have writable := lines.writable
  have values : valuesBeforeLast parts = (items.filterMap Item.value?).dropLast := by
    rw [lines.values, valuesBeforeLast]
  rw [values]
  by_cases diverted : ∃ item ∈ items, item.Diverts
  · obtain ⟨before, pair, behind, rfl, plain, diverting⟩ := exists_first_diverting diverted
    rcases tags_or_next behind with noPair | ⟨tags, next, rest, rfl, noPair⟩
    · -- the value of the last pair diverts, but no key comes after it
      have leads := leads_diverted (entering supplier? maxDepth maxDepth) writable plain noPair
        unknown_ne_string []
      have kept := not_diverting_of_plain plain
      rw [filterMap_value?_of_tags noPair, List.dropLast_concat]
      refine ⟨iff_of_true (lines.read_back_of_leads written leads) kept, ?_⟩
      rintro ⟨value, member, named⟩
      exact absurd named (kept value member)
    · have failed := written.lex_of_diverted supplier? maxDepth writable rfl plain diverting noPair
      have among := mem_dropLast_values before tags pair next rest
      refine ⟨iff_of_false ?_ fun kept => kept _ among diverting, fun _ =>
        ⟨before, pair, tags, next, rest, rfl, plain, diverting, noPair, _, failed, rfl, rfl⟩⟩
      rintro ⟨tokens, sections, lexed, _⟩
      rw [failed] at lexed
      cases lexed
  · have plain : ∀ item ∈ items, ¬ item.Diverts := fun item member diverts =>
      diverted ⟨item, member, diverts⟩
    obtain ⟨_, _, leads⟩ := leads_lines (entering supplier? maxDepth maxDepth) writable plain
      unknown_ne_string []
    have kept : ∀ value ∈ (items.filterMap Item.value?).dropLast, ¬ Diverting value :=
      fun value member => not_diverting_of_plain plain value (List.dropLast_subset _ member)
    refine ⟨iff_of_true (lines.read_back_of_leads written leads) kept, ?_⟩
    rintro ⟨value, member, named⟩
    exact absurd named (kept value member)

/-- A label that is the name of a key, with the next pair in another section. -/
theorem read_back_iff_label :
    (¬ ∃ tokens sections,
      (lex none 8 "<Group>\nsw_label=sample\n<region>\nkey=60").result = .ok tokens ∧
        Section.ofTokens tokens = .ok sections ∧
        sections.map Section.outline =
          [⟨.group, [("sw_label", "sample")]⟩, ⟨.region, [("key", "60")]⟩]) ∧
      ∃ error : Lexer.Error,
        (lex none 8 "<Group>\nsw_label=sample\n<region>\nkey=60").result = .error error ∧
          error.description = "equals sign in identifier" ∧ error.line = 4 := by
  have label : ∀ pair ∈ [("sw_label", "sample")], Key pair.1 ∧ Content pair.1 pair.2 := by
    rw [List.forall_mem_singleton]
    exact ⟨by decide +kernel, { toWord := by decide +kernel, solid := fun _ => by decide +kernel }⟩
  have key : ∀ pair ∈ [("key", "60")], Key pair.1 ∧ Content pair.1 pair.2 := by
    rw [List.forall_mem_singleton]
    exact ⟨by decide +kernel, { toWord := by decide +kernel, solid := fun _ => by decide +kernel }⟩
  have region : Lines [⟨.region, [("key", "60")]⟩] [.tag "region", .pair ("key", "60")] :=
    @Lines.cons .region "region" _ [] [] (by decide +kernel) key .nil
  have lines : Lines [⟨.group, [("sw_label", "sample")]⟩, ⟨.region, [("key", "60")]⟩]
      [.tag "Group", .pair ("sw_label", "sample"), .tag "region", .pair ("key", "60")] :=
    @Lines.cons .group "Group" _ _ _ (by decide +kernel) label region
  have written : Written
      [.tag "Group", .pair ("sw_label", "sample"), .tag "region", .pair ("key", "60")]
      "<Group>\nsw_label=sample\n<region>\nkey=60" := .inr (by decide +kernel)
  have early : "sample" ∈
      valuesBeforeLast [⟨.group, [("sw_label", "sample")]⟩, ⟨.region, [("key", "60")]⟩] :=
    List.mem_cons_self
  have diverting : Diverting "sample" := List.mem_cons_self
  have scanned : (lex none 8 "<Group>\nsw_label=sample\n<region>\nkey=60").result =
      .error { fault := .equalInIdentifier, within := [], line := 4 } := by
    decide +kernel
  obtain ⟨readBack, fails⟩ := lines.read_back_iff written none 8
  obtain ⟨_, _, _, _, _, _, _, _, _, error, failed, description, _⟩ :=
    fails ⟨"sample", early, diverting⟩
  refine ⟨fun back => readBack.mp back "sample" early diverting, error, failed, description, ?_⟩
  rw [scanned] at failed
  cases failed
  rfl

end ReadBack

end Layout

end Sfz

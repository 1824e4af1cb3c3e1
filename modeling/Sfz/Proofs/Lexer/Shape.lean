import Sfz.Proofs.Lexer.States
import Sfz.Proofs.Text.Blank

/-! The shape of the lexemes of a scan.

A tag has no blank and no bracket in it, and an identifier nothing that would have ended it: no
equals sign, no opening bracket, no line feed, and a blank only if the identifier before it, however
far back, names an opcode whose values may contain blanks. The scan keeps the type of that
identifier at hand, and keeps it across tags, equals signs and the ends of included texts.
-/

set_option autoImplicit false

namespace Sfz

theorem ValueType.ofKey_eq_string_iff {key : String} :
    ofKey key = .string ↔ key ∈ ["sample", "default_path", "sw_label"] := by
  constructor
  · intro string
    have named {opcode : Opcode} (found : Opcode.ofName key = opcode)
        (recognized : opcode ≠ .unrecognized) : opcode.name? = some key :=
      (Opcode.ofName_eq_iff recognized).mp found
    unfold ofKey at string
    cases found : Opcode.ofName key with
    | sample | defaultPath | swLabel =>
      have name := named found (by decide)
      simp only [Opcode.name?, Option.some.injEq] at name
      simp [← name]
    | _ => rw [found] at string; cases string
  · intro member
    simp only [List.mem_cons, List.not_mem_nil, or_false] at member
    rcases member with rfl | rfl | rfl <;> decide

namespace Lexeme

def identifier? : Lexeme → Option String
  | .identifier text => some text
  | .tag _ | .equal => none

def lastIdentifier? (lexemes : List Lexeme) : Option String :=
  (lexemes.filterMap identifier?).getLast?

def contextAfter (lexemes : List Lexeme) : ValueType :=
  (lastIdentifier? lexemes).elim .unknown ValueType.ofKey

theorem contextAfter_concat_identifier (lexemes : List Lexeme) (text : String) :
    contextAfter (lexemes ++ [.identifier text]) = ValueType.ofKey text := by
  simp [contextAfter, lastIdentifier?, identifier?]

theorem contextAfter_concat (lexemes : List Lexeme) {lexeme : Lexeme}
    (other : lexeme.identifier? = none) :
    contextAfter (lexemes ++ [lexeme]) = contextAfter lexemes := by
  simp [contextAfter, lastIdentifier?, other]

theorem contextAfter_eq_string_iff {lexemes : List Lexeme} :
    contextAfter lexemes = .string ↔
      ∃ key ∈ ["sample", "default_path", "sw_label"], lastIdentifier? lexemes = some key := by
  unfold contextAfter
  cases lastIdentifier? lexemes with
  | none => simp
  | some key =>
    rw [Option.elim_some, ValueType.ofKey_eq_string_iff]
    simp

/-- To be able to come behind other lexemes. -/
inductive Fits (before : List Lexeme) : Lexeme → Prop where
  | tag {name : String} :
    (∀ c ∈ name.toList, Text.isAsciiBlank c = false ∧ c ≠ '<' ∧ c ≠ '>') → Fits before (.tag name)
  | identifier {text : String} :
    (∀ c ∈ text.toList, c ≠ '=' ∧ c ≠ '<' ∧ c ≠ '\n') →
    (∀ c ∈ text.toList.head?, Text.isAsciiBlank c = false) →
    (∀ c ∈ text.toList.getLast?, Text.isWhiteSpace c = false) →
    ((∃ c ∈ text.toList, Text.isAsciiBlank c = true) →
      ∃ key ∈ ["sample", "default_path", "sw_label"], lastIdentifier? before = some key) →
    Fits before (.identifier text)
  | equal : Fits before .equal

def Shaped (lexemes : List Lexeme) : Prop :=
  ∀ before lexeme after, lexemes = before ++ lexeme :: after → lexeme.Fits before

theorem Shaped.concat {lexemes : List Lexeme} (shaped : Shaped lexemes) {last : Lexeme}
    (fits : last.Fits lexemes) : Shaped (lexemes ++ [last]) := by
  intro before lexeme after whole
  rcases List.eq_nil_or_concat after with rfl | ⟨between, final, rfl⟩
  · obtain ⟨rfl, same⟩ := List.append_inj' whole rfl
    cases same
    exact fits
  · rw [List.concat_eq_append, ← List.cons_append, ← List.append_assoc] at whole
    exact shaped before lexeme between (List.append_inj' whole rfl).1

end Lexeme

namespace Lexer

/-- A text that may be read as an identifier, or as the beginning of one. -/
structure Stem (context : ValueType) (text : List Char) : Prop where
  plain : ∀ c ∈ text, c ≠ '=' ∧ c ≠ '<' ∧ c ≠ '\n'
  first : ∀ c ∈ text.head?, Text.isAsciiBlank c = false
  solid : context ≠ .string → ∀ c ∈ text, Text.isAsciiBlank c = false

namespace Stem

variable {context : ValueType} {text : List Char}

theorem singleton {c : Char} (plain : c ≠ '=' ∧ c ≠ '<' ∧ c ≠ '\n')
    (solid : Text.isAsciiBlank c = false) : Stem context [c] where
  plain := by simpa using plain
  first := by simpa using solid
  solid _ := by simpa using solid

theorem concat (stem : Stem context text) (nonempty : text ≠ []) {c : Char}
    (plain : c ≠ '=' ∧ c ≠ '<' ∧ c ≠ '\n')
    (blank : Text.isAsciiBlank c = true → context = .string) : Stem context (text ++ [c]) where
  plain := List.forall_mem_append.mpr ⟨stem.plain, List.forall_mem_singleton.mpr plain⟩
  first := by
    rw [List.head?_append_of_ne_nil _ nonempty]
    exact stem.first
  solid other := by
    refine List.forall_mem_append.mpr ⟨stem.solid other, List.forall_mem_singleton.mpr ?_⟩
    exact Bool.eq_false_iff.mpr fun isBlank => other (blank isBlank)

theorem of_prefix (stem : Stem context text) {part : List Char} (front : part <+: text) :
    Stem context part where
  plain c member := stem.plain c (front.mem member)
  first c head := by
    obtain ⟨rest, rfl⟩ := front
    apply stem.first c
    rw [Option.mem_def] at head ⊢
    rw [List.head?_append, head]
    rfl
  solid other c member := stem.solid other c (front.mem member)

theorem fits {before : List Lexeme} (stem : Stem (Lexeme.contextAfter before) text)
    (last : ∀ c ∈ text.getLast?, Text.isWhiteSpace c = false) :
    Lexeme.Fits before (.identifier (String.ofList text)) := by
  refine .identifier ?_ ?_ ?_ ?_ <;> rw [String.toList_ofList]
  · exact stem.plain
  · exact stem.first
  · exact last
  · rintro ⟨c, member, blank⟩
    apply Lexeme.contextAfter_eq_string_iff.mp
    by_contra other
    rw [stem.solid other c member] at blank
    cases blank

end Stem

def Mode.Shaped (context : ValueType) : Mode → Prop
  | .tag read => ∀ c ∈ read, Text.isAsciiBlank c = false ∧ c ≠ '<' ∧ c ≠ '>'
  | .identifier read => read ≠ [] ∧ Stem context read.reverse
  | .ready | .comment | .directive _ | .gap _ | .fileName _ => True

/-- To have shaped lexemes and the type of the last identifier at hand. -/
structure State.Told (state : State) : Prop where
  lexemes : Lexeme.Shaped state.lexemes
  context : state.context = Lexeme.contextAfter state.lexemes

structure State.Shaped (state : State) : Prop extends state.Told where
  mode : state.mode.Shaped state.context

namespace State

theorem lexemes_emit (state : State) (lexeme : Lexeme) :
    (state.emit lexeme).lexemes = state.lexemes ++ [lexeme] := by
  simp [lexemes, emit]

namespace Told

variable {state : State} (told : state.Told)
include told

theorem count (c : Char) : (state.count c).Told := by
  unfold State.count
  split
  · exact { told with }
  · exact told

theorem emit {lexeme : Lexeme} (fits : lexeme.Fits state.lexemes)
    (other : lexeme.identifier? = none) : (state.emit lexeme).Told where
  lexemes := by
    rw [lexemes_emit]
    exact told.lexemes.concat fits
  context := by
    rw [lexemes_emit, Lexeme.contextAfter_concat _ other]
    exact told.context

theorem emitIdentifier {text : List Char} (stem : Stem state.context text)
    (last : ∀ c ∈ text.getLast?, Text.isWhiteSpace c = false) :
    (state.emitIdentifier text).Told where
  lexemes := by
    rw [told.context] at stem
    have shaped := told.lexemes.concat (stem.fits last)
    rwa [← lexemes_emit] at shaped
  context := by
    have context := Lexeme.contextAfter_concat_identifier state.lexemes (String.ofList text)
    rw [← lexemes_emit] at context
    exact context.symm

theorem complete {read : List Char} (stem : Stem state.context read.reverse) :
    (state.complete read).Told :=
  { told.emitIdentifier (stem.of_prefix (Text.trimEnd_prefix _))
      fun _ last => Text.getLast?_trimEnd last with }

theorem start (c : Char) : (state.start c).Shaped := by
  unfold State.start
  split
  · exact { told with mode := trivial }
  · next solid =>
    split
    · exact { told with mode := by simp [Mode.Shaped] }
    · exact { told with mode := trivial }
    · exact { told.emit .equal rfl with mode := trivial }
    · exact { told with mode := trivial }
    · next noTag _ noEqual _ =>
      have plain : c ≠ '=' ∧ c ≠ '<' ∧ c ≠ '\n' := by
        refine ⟨noEqual, noTag, ?_⟩
        rintro rfl
        exact solid rfl
      have stem : Stem state.context [c] := .singleton plain (Bool.eq_false_iff.mpr solid)
      exact { told with mode := ⟨List.cons_ne_nil _ _, stem⟩ }

end Told

section Shaped

variable {state : State} (c : Char)

theorem shaped_feedTag (told : state.Told) {read : List Char}
    (under : state.mode = .tag read) (mode : state.mode.Shaped state.context) :
    (state.feedTag read c).state.Shaped := by
  have shaped : ∀ c ∈ read, Text.isAsciiBlank c = false ∧ c ≠ '<' ∧ c ≠ '>' := by
    rwa [under] at mode
  unfold feedTag
  split_ifs with blank opens closes
  · exact { told with mode }
  · exact { told with mode }
  · have fits : Lexeme.Fits state.lexemes (.tag (String.ofList read.reverse)) := by
      refine .tag fun c member => ?_
      rw [String.toList_ofList, List.mem_reverse] at member
      exact shaped c member
    exact { told.emit fits rfl with mode := trivial }
  · have first : Text.isAsciiBlank c = false ∧ c ≠ '<' ∧ c ≠ '>' :=
      ⟨Bool.eq_false_iff.mpr blank, opens, closes⟩
    exact { told with mode := List.forall_mem_cons.mpr ⟨first, shaped⟩ }

-- The blanks of the text under way are those of the value; the key that is split off has none.
theorem shaped_endAtEqual (told : state.Told) {read : List Char}
    (mode : state.mode.Shaped state.context) (stem : Stem state.context read.reverse) :
    (state.endAtEqual read).state.Shaped := by
  unfold endAtEqual
  split_ifs
  · have trimmed := stem.of_prefix (Text.trimEnd_prefix read.reverse)
    have last := fun c => @Text.getLast?_trimEnd read.reverse c
    split
    · exact { told with mode }
    · next value key split =>
      obtain ⟨⟨blank, isBlank, whole⟩, solid⟩ := Text.splitLastBlank_eq_some split
      rw [whole] at trimmed last
      have front : Text.trimEnd value <+: value ++ blank :: key :=
        (Text.trimEnd_prefix value).trans (List.prefix_append _ _)
      have valueTold := told.emitIdentifier (trimmed.of_prefix front)
        fun _ => Text.getLast?_trimEnd
      have keyStem (context : ValueType) : Stem context key :=
        { plain c member :=
            trimmed.plain c (List.mem_append_right _ (List.mem_cons_of_mem _ member))
          first c head := solid c (List.mem_of_mem_head? head)
          solid _ := solid }
      have keyLast : ∀ c ∈ key.getLast?, Text.isWhiteSpace c = false := by
        intro c isLast
        apply last c
        rw [Option.mem_def] at isLast ⊢
        rw [List.getLast?_append, List.getLast?_cons, isLast]
        rfl
      exact (valueTold.emitIdentifier (keyStem _) keyLast).start '='
  · exact (told.complete stem).start '='

theorem shaped_feedIdentifier (told : state.Told) {read : List Char}
    (under : state.mode = .identifier read) (mode : state.mode.Shaped state.context) :
    (state.feedIdentifier read c).state.Shaped := by
  obtain ⟨nonempty, stem⟩ : read ≠ [] ∧ Stem state.context read.reverse := by
    rwa [under] at mode
  unfold feedIdentifier
  split_ifs with equal ends blank
  · exact shaped_endAtEqual told mode stem
  · exact (told.complete stem).start c
  · exact { told.complete stem with mode := trivial }
  · have plain : c ≠ '=' ∧ c ≠ '<' ∧ c ≠ '\n' := ⟨equal, not_or.mp ends⟩
    have string (isBlank : Text.isAsciiBlank c = true) : state.context = .string := by
      by_contra other
      exact blank ⟨isBlank, other⟩
    have longer : Stem state.context (c :: read).reverse := by
      rw [List.reverse_cons]
      exact stem.concat (List.reverse_ne_nil_iff.mpr nonempty) plain string
    exact { told with mode := ⟨List.cons_ne_nil _ _, longer⟩ }

theorem shaped_feedDirective (shaped : state.Shaped) (awaited : List Char) :
    (state.feedDirective awaited c).state.Shaped := by
  cases awaited with
  | nil => exact shaped
  | cons expected awaited =>
    simp only [feedDirective]
    split_ifs
    · exact shaped
    · exact { shaped.toTold with mode := trivial }
    · exact { shaped.toTold with mode := trivial }

theorem shaped_feedGap (shaped : state.Shaped) (blank : Bool) :
    (state.feedGap blank c).state.Shaped := by
  unfold feedGap
  split_ifs
  · exact { shaped.toTold with mode := trivial }
  · exact { shaped.toTold with mode := trivial }
  · exact shaped

theorem shaped_feedFileName (shaped : state.Shaped) (read : List Char) :
    (state.feedFileName read c).state.Shaped := by
  unfold feedFileName
  split_ifs
  · exact shaped
  · exact { shaped.toTold with mode := trivial }
  · exact { shaped.toTold with mode := trivial }

theorem shaped_dispatch (shaped : state.Shaped) : (state.dispatch c).state.Shaped := by
  unfold dispatch
  cases under : state.mode with
  | ready => exact shaped.toTold.start c
  | tag read => exact shaped_feedTag c shaped.toTold under shaped.mode
  | comment =>
    refine { shaped.toTold with mode := ?_ }
    simp only [Move.state]
    split <;> trivial
  | directive awaited => exact shaped_feedDirective c shaped awaited
  | gap blank => exact shaped_feedGap c shaped blank
  | fileName read => exact shaped_feedFileName c shaped read
  | identifier read => exact shaped_feedIdentifier c shaped.toTold under shaped.mode

end Shaped

theorem kept_shaped : Kept State.Shaped where
  feed := by
    intro state shaped c
    have counted : (state.count c).mode.Shaped (state.count c).context := by
      unfold count
      split <;> exact shaped.mode
    exact shaped_dispatch c { shaped.toTold.count c with mode := counted }
  complete := by
    intro state read shaped under
    have mode := shaped.mode
    rw [under] at mode
    exact { shaped.toTold.complete mode.2 with mode := trivial }
  turn := by
    intro state shaped line asked
    exact { shaped.toTold with mode := trivial }

theorem shaped_bare : ({} : State).Shaped where
  lexemes := by simp [Lexeme.Shaped, lexemes]
  context := rfl
  mode := trivial

end State

variable {ρ : Type} [Supplier ρ] (supplier? : Option ρ) (maxDepth : Nat) (text : String)

/-- In every state of a scan the type at hand is that of the last identifier, and every lexeme that
a successful scan tells fits behind those before it. -/
theorem lex_shaped :
    (∀ state ∈ states supplier? maxDepth text,
      state.context = Lexeme.contextAfter state.lexemes) ∧
    ∀ tokens, (lex supplier? maxDepth text).result = .ok tokens →
      Lexeme.Shaped (tokens.map Token.lexeme) := by
  have visits := State.kept_shaped.states State.shaped_bare supplier? maxDepth text
  constructor
  · intro state visited
    exact (visits state visited).context
  · intro tokens lexed
    obtain ⟨last, visited, told⟩ := exists_last_of_lex supplier? maxDepth lexed
    rw [← told]
    exact (visits last visited).lexemes

/-- A tag, an equals sign and the end of an included text between a key and a value with a blank. -/
theorem lex_shaped_included :
    (lex (some fun _ => .ok "sample=") 1 (directive "kit" ++ "<x>=kick 1")).result =
        .ok [⟨.identifier "sample", 0⟩, ⟨.equal, 0⟩, ⟨.tag "x", 0⟩, ⟨.equal, 0⟩,
          ⟨.identifier "kick 1", 0⟩] ∧
      (∀ state ∈ states (some fun _ => .ok "sample=") 1 (directive "kit" ++ "<x>=kick 1"),
        state.context = Lexeme.contextAfter state.lexemes) ∧
      Lexeme.Fits [.identifier "sample", .equal, .tag "x", .equal] (.identifier "kick 1") := by
  have lexed : (lex (some fun _ => .ok "sample=") 1 (directive "kit" ++ "<x>=kick 1")).result =
      .ok [⟨.identifier "sample", 0⟩, ⟨.equal, 0⟩, ⟨.tag "x", 0⟩, ⟨.equal, 0⟩,
        ⟨.identifier "kick 1", 0⟩] := by
    decide +kernel
  obtain ⟨contexts, shaped⟩ :=
    lex_shaped (some fun _ => .ok "sample=") 1 (directive "kit" ++ "<x>=kick 1")
  exact ⟨lexed, contexts, shaped _ lexed _ _ [] rfl⟩

end Lexer

end Sfz

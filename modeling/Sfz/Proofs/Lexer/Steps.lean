import Sfz.Proofs.Lexer.Alike

/-! What one character does, lines aside.

A view is all of a state but its lines. Each lemma says which view a character leads to; the
characters of a text are followed by chaining them.
-/

set_option autoImplicit false

namespace Sfz.Lexer

structure View where
  mode : Mode
  context : ValueType
  lexemes : List Lexeme
  asked : Array String

def State.view (state : State) : View :=
  { mode := state.mode
    context := state.context
    lexemes := state.lexemes
    asked := state.asked }

namespace View

def emit (view : View) (lexeme : Lexeme) : View :=
  { view with lexemes := view.lexemes ++ [lexeme] }

def identify (view : View) (text : List Char) : View :=
  { view.emit (.identifier (String.ofList text)) with
    mode := .ready
    context := ValueType.ofKey (String.ofList text) }

/-- Every state in one view answers a character with a state in the other. -/
def Step (before : View) (c : Char) (after : View) : Prop :=
  ∀ state : State, state.view = before → ∃ next, state.feed c = .next next ∧ next.view = after

def Leads (enter : String → State → Outcome) (before : View) (chars : List Char)
    (after : View) : Prop :=
  ∀ state : State, state.view = before →
    ∃ last, read enter state chars = .ok last ∧ last.view = after

section Leads

variable {enter : String → State → Outcome} {before middle after : View}

theorem Leads.nil : Leads enter before [] before := by
  intro state same
  exact ⟨state, rfl, same⟩

theorem Leads.cons {c : Char} {rest : List Char} (step : Step before c middle)
    (tail : Leads enter middle rest after) : Leads enter before (c :: rest) after := by
  intro state same
  obtain ⟨next, fed, reached⟩ := step state same
  obtain ⟨last, finished, shown⟩ := tail next reached
  refine ⟨last, ?_, shown⟩
  rw [read, fed]
  exact finished

theorem Step.leads {c : Char} (step : Step before c after) : Leads enter before [c] after :=
  .cons step .nil

theorem Leads.append {first second : List Char} (head : Leads enter before first middle)
    (tail : Leads enter middle second after) : Leads enter before (first ++ second) after := by
  intro state same
  obtain ⟨next, reached, shown⟩ := head state same
  obtain ⟨last, finished, seen⟩ := tail next shown
  refine ⟨last, ?_, seen⟩
  rw [read_append, reached]
  exact finished

end Leads

theorem view_count (state : State) (c : Char) : (state.count c).view = state.view := by
  unfold State.count
  split <;> rfl

theorem view_emit (state : State) (lexeme : Lexeme) :
    (state.emit lexeme).view = state.view.emit lexeme := by
  simp only [State.view, State.emit, emit, State.lexemes, Array.toList_push, List.map_append,
    List.map_singleton]

theorem view_emitIdentifier (state : State) (text : List Char) :
    (state.emitIdentifier text).view =
      { state.view.identify text with mode := state.view.mode } := by
  simp only [State.emitIdentifier, identify, ← view_emit]
  rfl

theorem view_complete (state : State) (read : List Char) :
    (state.complete read).view = state.view.identify (Text.trimEnd read.reverse) := by
  simp only [State.complete, State.emitIdentifier, identify, ← view_emit]
  rfl

theorem start_blank (state : State) {c : Char} (blank : Text.isAsciiBlank c) :
    state.start c = { state with mode := .ready } := by
  unfold State.start
  exact if_pos blank

theorem start_equal (state : State) :
    (state.start '=').view = { state.view.emit .equal with mode := .ready } := by
  rw [← view_emit]
  rfl

-- The line feed that a state counts is not seen in its view.
theorem step_of_dispatch {view after : View} {c : Char}
    (answers : ∀ state : State, state.view = view →
      ∃ next, state.dispatch c = .next next ∧ next.view = after) :
    Step view c after := by
  intro state same
  exact answers (state.count c) ((view_count state c).trans same)

section Ready

variable {view : View} (ready : view.mode = .ready)
include ready

theorem step_ready {c : Char} {after : View}
    (starts : ∀ state : State, state.view = view → (state.start c).view = after) :
    Step view c after := by
  apply step_of_dispatch
  intro state same
  have mode : state.mode = .ready := (congrArg View.mode same).trans ready
  refine ⟨state.start c, ?_, starts state same⟩
  rw [State.dispatch, mode]

theorem step_blank {c : Char} (blank : Text.isAsciiBlank c) : Step view c view := by
  apply step_ready ready
  rintro state rfl
  rw [start_blank state blank, ← ready]
  rfl

theorem step_openTag : Step view '<' { view with mode := .tag [] } := by
  apply step_ready ready
  rintro state rfl
  rfl

theorem step_openComment : Step view '/' { view with mode := .comment } := by
  apply step_ready ready
  rintro state rfl
  rfl

theorem step_equal : Step view '=' (view.emit .equal) := by
  apply step_ready ready
  rintro state rfl
  rw [start_equal, ← ready]
  rfl

theorem step_begin {c : Char} (solid : Text.isAsciiBlank c = false)
    (plain : c ≠ '=' ∧ c ≠ '<') (first : c ≠ '/' ∧ c ≠ '#') :
    Step view c { view with mode := .identifier [c] } := by
  apply step_ready ready
  rintro state rfl
  unfold State.start
  rw [solid]
  split
  · contradiction
  · split
    · exact absurd rfl plain.2
    · exact absurd rfl first.1
    · exact absurd rfl plain.1
    · exact absurd rfl first.2
    · rfl

end Ready

section Comment

variable {view : View} (comment : view.mode = .comment) {c : Char}
include comment

theorem step_comment {mode : Mode}
    (next : mode = if c = '\n' ∨ c = '\r' then .ready else .comment) :
    Step view c { view with mode } := by
  apply step_of_dispatch
  rintro state rfl
  have inside : state.mode = .comment := comment
  refine ⟨{ state with mode }, ?_, rfl⟩
  rw [State.dispatch, inside, next]

end Comment

section Tag

variable {view : View} {read : List Char} (tag : view.mode = .tag read)
include tag

theorem step_tag {c : Char} {after : View}
    (feeds : ∀ state : State, state.view = view →
      ∃ next, state.feedTag read c = .next next ∧ next.view = after) :
    Step view c after := by
  apply step_of_dispatch
  intro state same
  have mode : state.mode = .tag read := (congrArg View.mode same).trans tag
  rw [State.dispatch, mode]
  exact feeds state same

theorem step_inTag {c : Char} (solid : Text.isAsciiBlank c = false)
    (plain : c ≠ '<' ∧ c ≠ '>') : Step view c { view with mode := .tag (c :: read) } := by
  apply step_tag tag
  rintro state rfl
  refine ⟨{ state with mode := .tag (c :: read) }, ?_, rfl⟩
  simp only [State.feedTag, solid, plain, if_false, Bool.false_eq_true]

theorem step_closeTag :
    Step view '>'
      { view.emit (.tag (String.ofList read.reverse)) with mode := .ready } := by
  apply step_tag tag
  rintro state rfl
  refine ⟨{ state.emit (.tag (String.ofList read.reverse)) with mode := .ready }, rfl, ?_⟩
  rw [← view_emit]
  rfl

end Tag

section Identifier

variable {view : View} {read : List Char} (identifier : view.mode = .identifier read)
include identifier

theorem step_identifier {c : Char} {after : View}
    (feeds : ∀ state : State, state.view = view →
      ∃ next, state.feedIdentifier read c = .next next ∧ next.view = after) :
    Step view c after := by
  apply step_of_dispatch
  intro state same
  have mode : state.mode = .identifier read := (congrArg View.mode same).trans identifier
  rw [State.dispatch, mode]
  exact feeds state same

-- A blank belongs to an identifier only where strings are read.
theorem step_continue {c : Char} (plain : c ≠ '=' ∧ c ≠ '<' ∧ c ≠ '\n')
    (blank : Text.isAsciiBlank c → view.context = .string) :
    Step view c { view with mode := .identifier (c :: read) } := by
  apply step_identifier identifier
  rintro state rfl
  have goesOn : ¬ (Text.isAsciiBlank c ∧ state.context ≠ .string) := fun ends =>
    ends.2 (blank ends.1)
  refine ⟨{ state with mode := .identifier (c :: read) }, ?_, rfl⟩
  simp only [State.feedIdentifier, plain, false_or, if_false, if_neg goesOn]

theorem step_endBlank {c : Char} (blank : Text.isAsciiBlank c)
    (ends : c = '\n' ∨ view.context ≠ .string) :
    Step view c (view.identify (Text.trimEnd read.reverse)) := by
  apply step_identifier identifier
  rintro state rfl
  have noEqual : c ≠ '=' := by
    rintro rfl
    cases blank
  have noTag : c ≠ '<' := by
    rintro rfl
    cases blank
  rw [State.feedIdentifier, if_neg noEqual]
  -- a line feed is handled anew where nothing is under way; it is a blank there
  by_cases feed : c = '\n'
  · refine ⟨(state.complete read).start c, if_pos (.inr feed), ?_⟩
    rw [start_blank _ blank, ← view_complete]
    rfl
  · refine ⟨state.complete read, ?_, view_complete state read⟩
    have other := ends.resolve_left feed
    simp only [noTag, feed, false_or, if_false]
    exact if_pos ⟨blank, other⟩

theorem step_endTag :
    Step view '<' { view.identify (Text.trimEnd read.reverse) with mode := .tag [] } := by
  apply step_identifier identifier
  rintro state rfl
  refine ⟨(state.complete read).start '<', rfl, ?_⟩
  rw [← view_complete]
  rfl

theorem step_endEqual (other : view.context ≠ .string) :
    Step view '=' ((view.identify (Text.trimEnd read.reverse)).emit .equal) := by
  apply step_identifier identifier
  rintro state rfl
  refine ⟨(state.complete read).start '=', ?_, ?_⟩
  · have context : state.context ≠ .string := other
    rw [State.feedIdentifier, if_pos rfl, State.endAtEqual, if_neg context]
  · rw [start_equal, view_complete]
    rfl

-- In a value that may contain blanks an equals sign ends the key behind the value.
theorem step_splitEqual (string : view.context = .string) {value key : List Char}
    (split : Text.splitLastBlank (Text.trimEnd read.reverse) = some (value, key)) :
    Step view '='
      (((view.identify (Text.trimEnd value)).identify key).emit .equal) := by
  apply step_identifier identifier
  rintro state rfl
  refine ⟨((state.emitIdentifier (Text.trimEnd value)).emitIdentifier key).start '=', ?_, ?_⟩
  · have context : state.context = .string := string
    rw [State.feedIdentifier, if_pos rfl, State.endAtEqual, if_pos context, split]
  · rw [start_equal, view_emitIdentifier, view_emitIdentifier]
    rfl

end Identifier

end View

end Sfz.Lexer

import Sfz.Proofs.Lexer.Splice
import Sfz.Proofs.Text.Blank

/-! What a scan tells is what it reads.

Written out in order, the lexemes of a text are the text again, without its comments and with other
White_Space. While a scan is under way the characters in hand stand behind the lexemes told so far.
Only an include directive takes characters away, and without files on offer a complete one ends the
scan.
-/

set_option autoImplicit false

namespace Sfz

def Lexeme.written : Lexeme → List Char
  | .tag name => '<' :: name.toList ++ ['>']
  | .identifier text => text.toList
  | .equal => ['=']

namespace Lexer

/-- The characters in hand, with the bracket that a tag begins with. -/
def Mode.inHand : Mode → List Char
  | .tag read => '<' :: read.reverse
  | .identifier read => read.reverse
  | .ready | .comment | .directive _ | .gap _ | .fileName _ => []

namespace State

def written (state : State) : List Char :=
  state.lexemes.flatMap Lexeme.written

/-- What has been told and what is in hand. -/
def held (state : State) : List Char :=
  state.written ++ state.mode.inHand

def uncommentedTo (state next : State) (c : Char) : List Char :=
  if state.mode = .comment ∨ next.mode = .comment then [] else [c]

end State

/-- The characters of a text that are not read in a comment and do not enter one. -/
def uncommented : State → List Char → List Char
  | _, [] => []
  | state, c :: rest =>
    state.uncommentedTo (state.feed c).state c ++ uncommented (state.feed c).state rest

namespace State

@[simp]
theorem written_withMode (state : State) (mode : Mode) :
    written { state with mode } = state.written :=
  rfl

@[simp]
theorem written_emit (state : State) (lexeme : Lexeme) :
    (state.emit lexeme).written = state.written ++ lexeme.written := by
  simp [written, lexemes, emit]

@[simp]
theorem written_emitIdentifier (state : State) (text : List Char) :
    (state.emitIdentifier text).written = state.written ++ text := by
  have written := written_emit state (.identifier (String.ofList text))
  rwa [Lexeme.written, String.toList_ofList] at written

theorem solid_written_complete (state : State) (read : List Char) :
    Text.solid (state.complete read).written = Text.solid (state.written ++ read.reverse) := by
  have written : (state.complete read).written = state.written ++ Text.trimEnd read.reverse :=
    written_emitIdentifier state _
  rw [written, Text.solid_append, Text.solid_append, Text.solid_trimEnd]

theorem mode_count (state : State) (c : Char) : (state.count c).mode = state.mode := by
  unfold count
  split <;> rfl

theorem held_count (state : State) (c : Char) : (state.count c).held = state.held := by
  unfold count
  split <;> rfl

variable {state next : State} {c : Char}

theorem uncommentedTo_of_ne (other : state.mode ≠ .comment) :
    state.uncommentedTo next c = if next.mode = .comment then [] else [c] := by
  simp [uncommentedTo, other]

theorem solid_held_start (started : state.start c = next)
    (outside : next.mode.inDirective = false) :
    Text.solid next.held =
      Text.solid (state.written ++ if next.mode = .comment then [] else [c]) := by
  unfold start at started
  split at started
  · next blank =>
    subst started
    have lost := Text.solid_of_isAsciiBlank blank
    simp [held, Mode.inHand, Text.solid_append, lost]
  · split at started <;> subst started
    · rfl
    · rfl
    · simp [held, Lexeme.written, Mode.inHand]
    · cases outside
    · rfl

/-- To have lost nothing but White_Space and comments on the way from another state. -/
def Conserves (state : State) (c : Char) (next : State) : Prop :=
  Text.solid next.held = Text.solid (state.held ++ state.uncommentedTo next c)

theorem conserves_feedTag {read : List Char} (under : state.mode = .tag read)
    (fed : state.feedTag read c = .next next) : state.Conserves c next := by
  unfold feedTag at fed
  split_ifs at fed with blank opens closes <;> cases fed
  · simp [Conserves, held, under, Lexeme.written, Mode.inHand, uncommentedTo, closes]
  · simp [Conserves, held, under, Mode.inHand, uncommentedTo]

-- An identifier is told before the character that ends it is begun with.
theorem conserves_start {read : List Char} (under : state.mode = .identifier read)
    (outside : next.mode.inDirective = false) {ended : State}
    (written : Text.solid ended.written = Text.solid (state.written ++ read.reverse))
    (started : ended.start c = next) : state.Conserves c next := by
  have other : state.mode ≠ .comment := by simp [under]
  rw [Conserves, solid_held_start started outside, uncommentedTo_of_ne other, Text.solid_append,
    written, ← Text.solid_append, held, under]
  rfl

-- The one blank in front of the key is neither the value's nor the key's.
theorem conserves_endAtEqual {read : List Char} (under : state.mode = .identifier read)
    (outside : next.mode.inDirective = false)
    (fed : state.endAtEqual read = .next next) : state.Conserves '=' next := by
  unfold endAtEqual at fed
  split_ifs at fed
  · split at fed <;> cases fed
    next value key split =>
    obtain ⟨⟨blank, isBlank, whole⟩, -⟩ := Text.splitLastBlank_eq_some split
    refine conserves_start under outside ?_ rfl
    have lost := Text.solid_of_isAsciiBlank isBlank
    have parts : Text.solid read.reverse = Text.solid value ++ Text.solid key := by
      rw [← Text.solid_trimEnd, whole, ← List.singleton_append, Text.solid_append,
        Text.solid_append, lost, List.nil_append]
    simp only [written_emitIdentifier, Text.solid_append, Text.solid_trimEnd, parts,
      List.append_assoc]
  · cases fed
    exact conserves_start under outside (solid_written_complete state read) rfl

theorem conserves_feedIdentifier {read : List Char} (under : state.mode = .identifier read)
    (outside : next.mode.inDirective = false)
    (fed : state.feedIdentifier read c = .next next) : state.Conserves c next := by
  unfold feedIdentifier at fed
  split_ifs at fed with equal ends blank
  · subst equal
    exact conserves_endAtEqual under outside fed
  · cases fed
    exact conserves_start under outside (solid_written_complete state read) rfl
  · -- the blank that ends the identifier is not begun with
    cases fed
    have lost := Text.solid_of_isAsciiBlank blank.1
    have written := solid_written_complete state read
    have told : (state.complete read).held = (state.complete read).written := List.append_nil _
    rw [Conserves, told, written, Text.solid_append state.held, held, under]
    simp [uncommentedTo, under, complete, Mode.inHand, lost]
  · cases fed
    simp [Conserves, held, under, Mode.inHand, uncommentedTo]

-- A directive that has begun is left at its end and by a fault, never by a move to a next state.
theorem inDirective_of_dispatch (inside : state.mode.inDirective = true)
    (moved : state.dispatch c = .next next) : next.mode.inDirective = true := by
  unfold dispatch at moved
  cases under : state.mode with
  | ready | tag | comment | identifier =>
    rw [under] at inside
    cases inside
  | directive awaited =>
    rw [under] at moved
    cases awaited with
    | nil => cases moved
    | cons expected awaited =>
      simp only [feedDirective] at moved
      split_ifs at moved <;> cases moved <;> rfl
  | gap blank =>
    rw [under] at moved
    simp only [feedGap] at moved
    split_ifs at moved <;> cases moved <;> rfl
  | fileName read =>
    rw [under] at moved
    simp only [feedFileName] at moved
    split_ifs at moved
    cases moved
    rfl

theorem outside_of_dispatch (outside : next.mode.inDirective = false)
    (moved : state.dispatch c = .next next) : state.mode.inDirective = false := by
  by_contra inside
  have still := inDirective_of_dispatch (Bool.not_eq_false _ ▸ inside) moved
  rw [outside] at still
  cases still

theorem conserves_dispatch (outside : next.mode.inDirective = false)
    (moved : state.dispatch c = .next next) : state.Conserves c next := by
  have before := outside_of_dispatch outside moved
  cases under : state.mode with
  | ready =>
    rw [dispatch, under] at moved
    cases moved
    have other : state.mode ≠ .comment := by simp [under]
    rw [Conserves, solid_held_start rfl outside, uncommentedTo_of_ne other, held, under,
      Mode.inHand, List.append_nil]
  | tag read =>
    rw [dispatch, under] at moved
    exact conserves_feedTag under moved
  | comment =>
    rw [dispatch, under] at moved
    cases moved
    have nothing : (if c = '\n' ∨ c = '\r' then Mode.ready else .comment).inHand = [] := by
      split <;> rfl
    simp only [Conserves, held, written_withMode, nothing, under, uncommentedTo, true_or, if_true]
    simp [Mode.inHand]
  | identifier read =>
    rw [dispatch, under] at moved
    exact conserves_feedIdentifier under outside moved
  | directive | gap | fileName =>
    rw [under] at before
    cases before

section Feed

variable (outside : next.mode.inDirective = false) (fed : state.feed c = .next next)
include outside fed

theorem outside_of_feed : state.mode.inDirective = false := by
  have before := outside_of_dispatch outside fed
  rwa [mode_count] at before

theorem conserves_feed : state.Conserves c next := by
  have conserves := conserves_dispatch outside fed
  rwa [Conserves, held_count, uncommentedTo, mode_count] at conserves

end Feed

end State

-- By induction on the text; the first state is outside a directive because the last one is.
theorem solid_held_read {enter : String → State → Outcome}
    (shut : ∀ file state after, enter file state ≠ .ok after) {state last : State}
    {chars : List Char} (reached : read enter state chars = .ok last)
    (outside : last.mode.inDirective = false) :
    state.mode.inDirective = false ∧
      Text.solid last.held = Text.solid (state.held ++ uncommented state chars) := by
  induction chars generalizing state with
  | nil =>
    cases reached
    exact ⟨outside, by rw [uncommented, List.append_nil]⟩
  | cons c rest ih =>
    rw [read] at reached
    cases fed : state.feed c with
    | next next =>
      rw [fed] at reached
      obtain ⟨nextOutside, solid⟩ := ih reached
      have conserves : Text.solid next.held = _ := State.conserves_feed nextOutside fed
      refine ⟨State.outside_of_feed nextOutside fed, ?_⟩
      rw [solid, uncommented, fed, ← List.append_assoc, Text.solid_append, conserves,
        ← Text.solid_append]
      rfl
    | enter file next =>
      rw [fed] at reached
      dsimp only at reached
      cases entered : enter file next with
      | ok after => exact absurd entered (shut file next after)
      | error halt =>
        rw [entered] at reached
        cases reached
    | fail fault next =>
      rw [fed] at reached
      cases reached

theorem solid_written_finish {state last : State} (finished : state.finish = .ok last) :
    Text.solid last.written = Text.solid state.held := by
  unfold State.finish at finished
  split at finished
  · next read under =>
    cases finished
    rw [State.solid_written_complete, State.held, under]
    rfl
  · cases finished
  · next noIdentifier noTag =>
    cases finished
    have nothing : state.mode.inHand = [] := by
      cases under : state.mode with
      | identifier read => exact absurd under (noIdentifier read)
      | tag read => exact absurd under (noTag read)
      | _ => rfl
    rw [State.held, nothing, List.append_nil]

theorem entering_none_ne_ok (maxDepth room : Nat) (file : String) (state after : State) :
    entering none maxDepth room file state ≠ .ok after := by
  cases room with
  | zero => exact nofun
  | succ room => exact nofun

/-- Without files on offer, the lexemes of a text that does not end inside an include directive are,
written out in order, that text without its comments, White_Space aside. -/
theorem lex_conserves {maxDepth : Nat} {text : String} {tokens : List Token}
    (lexed : (lex none maxDepth text).result = .ok tokens)
    (outside : ∀ last, read (entering none maxDepth maxDepth) {} text.toList = .ok last →
      last.mode.inDirective = false) :
    Text.solid ((tokens.map Token.lexeme).flatMap Lexeme.written) =
      Text.solid (uncommented {} text.toList) := by
  rw [lex_eq_lexed, scan_eq_read] at lexed
  cases reached : read (entering none maxDepth maxDepth) {} text.toList with
  | error halt =>
    rw [reached] at lexed
    cases lexed
  | ok state =>
    have ends := outside state reached
    have solid := (solid_held_read (entering_none_ne_ok maxDepth maxDepth) reached ends).2
    rw [reached] at lexed
    change (Outcome.lexed state.finish).result = _ at lexed
    cases finished : state.finish with
    | error halt =>
      rw [finished] at lexed
      cases lexed
    | ok last =>
      rw [finished] at lexed
      cases lexed
      exact (solid_written_finish finished).trans solid

/-- A text with a comment and with a key that an equals sign splits off a value. -/
theorem lex_conserves_kick :
    (lex none 1 "<a>/x\nsample=k 1 key=6").result =
        .ok [⟨.tag "a", 0⟩, ⟨.identifier "sample", 1⟩, ⟨.equal, 1⟩, ⟨.identifier "k 1", 1⟩,
          ⟨.identifier "key", 1⟩, ⟨.equal, 1⟩, ⟨.identifier "6", 1⟩] ∧
      Text.solid (uncommented {} "<a>/x\nsample=k 1 key=6".toList) =
        "<a>sample=k1key=6".toList := by
  have lexed : (lex none 1 "<a>/x\nsample=k 1 key=6").result =
      .ok [⟨.tag "a", 0⟩, ⟨.identifier "sample", 1⟩, ⟨.equal, 1⟩, ⟨.identifier "k 1", 1⟩,
        ⟨.identifier "key", 1⟩, ⟨.equal, 1⟩, ⟨.identifier "6", 1⟩] := by
    decide +kernel
  have ends : (read (entering none 1 1) {} "<a>/x\nsample=k 1 key=6".toList).toOption.all
      fun last => !last.mode.inDirective := by
    decide +kernel
  refine ⟨lexed, (lex_conserves lexed fun last reached => ?_).symm.trans ?_⟩
  · rw [reached] at ends
    simpa only [Except.toOption, Option.all_some, Bool.not_eq_true'] using ends
  · decide +kernel

end Lexer

end Sfz

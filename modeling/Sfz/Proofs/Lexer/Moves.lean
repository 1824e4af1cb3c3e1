import Mathlib.Tactic.SplitIfs
import Sfz.Lexer

/-! What one character does.

A move is decided by the mode and by the type of the last identifier. The tokens that it adds bear
the line that the state has reached; the tokens, the line and the questions behind it play no part
and stay as they are.
-/

set_option autoImplicit false

namespace Sfz.Lexer

namespace State

def bare (state : State) : State :=
  { mode := state.mode, context := state.context }

/-- What comes after a bare state, put on what is behind this one. -/
def extend (state after : State) : State :=
  { mode := after.mode
    context := after.context
    line := state.line
    tokens := state.tokens ++ after.tokens.map fun token => { token with line := state.line }
    asked := state.asked }

end State

namespace Move

def extend (state : State) : Move → Move
  | .next after => .next (state.extend after)
  | .enter file after => .enter file (state.extend after)
  | .fail fault after => .fail fault (state.extend after)

def state : Move → State
  | .next state | .enter _ state | .fail _ state => state

end Move

namespace State

variable (state after : State)

theorem extend_bare : state.extend state.bare = state := by
  simp [extend, bare]

theorem extend_emitIdentifier (text : List Char) :
    state.extend (after.emitIdentifier text) = (state.extend after).emitIdentifier text := by
  simp [extend, emitIdentifier, emit]

theorem extend_complete (read : List Char) :
    state.extend (after.complete read) = (state.extend after).complete read := by
  simp [extend, complete, emitIdentifier, emit]

theorem extend_start (c : Char) :
    state.extend (after.start c) = (state.extend after).start c := by
  unfold start
  split
  · rfl
  · split
    · rfl
    · rfl
    · simp [extend, emit]
    · rfl
    · rfl

theorem extend_feedTag (read : List Char) (c : Char) :
    (after.feedTag read c).extend state = (state.extend after).feedTag read c := by
  unfold feedTag
  split_ifs
  · rfl
  · rfl
  · simp [Move.extend, extend, emit]
  · rfl

theorem extend_endAtEqual (read : List Char) :
    (after.endAtEqual read).extend state = (state.extend after).endAtEqual read := by
  have context : (state.extend after).context = after.context := rfl
  simp only [endAtEqual, ← extend_emitIdentifier, ← extend_complete, ← extend_start, context]
  split
  · split <;> rfl
  · rfl

theorem extend_feedIdentifier (read : List Char) (c : Char) :
    (after.feedIdentifier read c).extend state = (state.extend after).feedIdentifier read c := by
  have context : (state.extend after).context = after.context := rfl
  simp only [feedIdentifier, ← extend_endAtEqual, ← extend_complete, ← extend_start, context]
  split_ifs <;> rfl

theorem extend_feedDirective (awaited : List Char) (c : Char) :
    (after.feedDirective awaited c).extend state =
      (state.extend after).feedDirective awaited c := by
  cases awaited with
  | nil => rfl
  | cons expected awaited =>
    simp only [feedDirective]
    split_ifs <;> rfl

theorem extend_feedGap (blank : Bool) (c : Char) :
    (after.feedGap blank c).extend state = (state.extend after).feedGap blank c := by
  unfold feedGap
  split_ifs <;> rfl

theorem extend_feedFileName (read : List Char) (c : Char) :
    (after.feedFileName read c).extend state = (state.extend after).feedFileName read c := by
  unfold feedFileName
  split_ifs <;> rfl

theorem extend_dispatch (c : Char) :
    (after.dispatch c).extend state = (state.extend after).dispatch c := by
  have mode : (state.extend after).mode = after.mode := rfl
  unfold dispatch
  rw [mode]
  cases after.mode with
  | ready => exact congrArg Move.next (extend_start state after c)
  | tag read => exact extend_feedTag state after read c
  | comment => rfl
  | directive awaited => exact extend_feedDirective state after awaited c
  | gap blank => exact extend_feedGap state after blank c
  | fileName read => exact extend_feedFileName state after read c
  | identifier read => exact extend_feedIdentifier state after read c

/-- A move is that of the bare state, put on what is behind. -/
theorem feed_eq_extend (c : Char) :
    state.feed c = (state.bare.dispatch c).extend (state.count c) := by
  have bare : (state.count c).bare = state.bare := by
    unfold count
    split <;> rfl
  rw [feed, ← bare, extend_dispatch, extend_bare]

theorem asked_feed (c : Char) : (state.feed c).state.asked = state.asked := by
  have counted : (state.count c).asked = state.asked := by
    unfold count
    split <;> rfl
  rw [feed_eq_extend, ← counted]
  cases state.bare.dispatch c <;> rfl

end State

end Sfz.Lexer

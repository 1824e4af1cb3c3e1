import Sfz.Proofs.Lexer.Splice
import Sfz.Proofs.Text.Blank

/-! Scans of a text with line feeds and of the same text with a carriage return before each.

Every mode meets a carriage return in its own way: it ends a comment or an identifier, belongs to a
value that may contain blanks until that is trimmed, stands in a gap or in a file name, and is
refused in a tag and in the word of a directive. After the line feed that follows, the two scans
have the same in hand again. Only the line of an identifier may differ, because the carriage return
can end it one line early.
-/

set_option autoImplicit false

namespace Sfz

namespace Text

def withReturn (c : Char) : List Char :=
  if c = '\n' then ['\r', '\n'] else [c]

def withReturns (text : String) : String :=
  String.ofList (text.toList.flatMap withReturn)

theorem trimEnd_concat {blank : Char} (isBlank : isWhiteSpace blank = true)
    (text : List Char) : trimEnd (text ++ [blank]) = trimEnd text := by
  simp [trimEnd, isBlank]

end Text

/-- A token without its line, unless it is a tag, whose line becomes that of a region. -/
def Token.settled (token : Token) : Token :=
  match token.lexeme with
  | .tag _ => token
  | .identifier _ | .equal => { token with line := 0 }

namespace Lexer

def Error.unplaced (error : Error) : Error :=
  { error with line := 0 }

/-- What has carriage returns in every text that it supplies, and for the rest answers like another
supplier. -/
def Supplier.withReturns {ρ : Type} [Supplier ρ] (supplier : ρ) : Handler where
  answer earlier file := (supply supplier earlier file).map Text.withReturns

/-- To await no blank, as is so in every mode that a scan comes to: the word of an include
directive has none. -/
def Mode.Solid : Mode → Prop
  | .directive awaited => ∀ c ∈ awaited, Text.isAsciiBlank c = false
  | .ready | .tag _ | .comment | .gap _ | .fileName _ | .identifier _ => True

namespace State

theorem solid_start (state : State) (c : Char) : (state.start c).mode.Solid := by
  unfold start
  split
  · trivial
  · split
    · trivial
    · trivial
    · trivial
    · simp [Mode.Solid, includeWord, Text.isAsciiBlank]
    · trivial

section Solid

variable {state : State} (solid : state.mode.Solid) (c : Char)
include solid

theorem solid_feedTag (read : List Char) : (state.feedTag read c).state.mode.Solid := by
  unfold feedTag
  split_ifs
  · exact solid
  · exact solid
  · trivial
  · trivial

theorem solid_feedDirective {awaited : List Char} (under : state.mode = .directive awaited) :
    (state.feedDirective awaited c).state.mode.Solid := by
  cases awaited with
  | nil => exact solid
  | cons expected awaited =>
    unfold feedDirective
    dsimp only
    split_ifs
    · exact solid
    · trivial
    · rw [under] at solid
      exact fun c member => solid c (List.mem_cons_of_mem _ member)

theorem solid_feedGap (blank : Bool) : (state.feedGap blank c).state.mode.Solid := by
  unfold feedGap
  split_ifs
  · trivial
  · trivial
  · exact solid

theorem solid_feedFileName (read : List Char) :
    (state.feedFileName read c).state.mode.Solid := by
  unfold feedFileName
  split_ifs
  · exact solid
  · trivial
  · trivial

theorem solid_feedIdentifier (read : List Char) :
    (state.feedIdentifier read c).state.mode.Solid := by
  unfold feedIdentifier endAtEqual
  split_ifs
  · split
    · exact solid
    · exact solid_start _ _
  · exact solid_start _ _
  · exact solid_start _ _
  · trivial
  · trivial

theorem solid_dispatch : (state.dispatch c).state.mode.Solid := by
  unfold dispatch
  cases under : state.mode with
  | ready => exact solid_start state c
  | tag read => exact solid_feedTag solid c read
  | comment =>
    simp only [Move.state]
    split <;> trivial
  | directive awaited => exact solid_feedDirective solid c under
  | gap blank => exact solid_feedGap solid c blank
  | fileName read => exact solid_feedFileName solid c read
  | identifier read => exact solid_feedIdentifier solid c read

end Solid

end State

structure State.Matches (first second : State) : Prop where
  mode : first.mode = second.mode
  context : first.context = second.context
  line : first.line = second.line
  tokens : first.tokens.map Token.settled = second.tokens.map Token.settled
  asked : first.asked = second.asked
  solid : first.mode.Solid

inductive Move.Matches : Move → Move → Prop where
  | next {first second : State} :
    first.Matches second → Matches (.next first) (.next second)
  | enter {file : String} {first second : State} :
    first.Matches second → Matches (.enter file first) (.enter file second)
  | fail {fault : Fault} {first second : State} :
    first.Matches second → Matches (.fail fault first) (.fail fault second)

inductive Outcome.Matches : Outcome → Outcome → Prop where
  | ok {first second : State} :
    first.Matches second → Matches (.ok first) (.ok second)
  | error {first second : Halt} :
    first.asked = second.asked → first.error.fault = second.error.fault →
      first.error.within = second.error.within → Matches (.error first) (.error second)

namespace State.Matches

variable {first second : State} (same : first.Matches second)
include same

theorem bare : first.bare = second.bare := by
  rw [State.bare, State.bare, same.mode, same.context]

theorem extend {after : State} (solid : after.mode.Solid) :
    (first.extend after).Matches (second.extend after) where
  mode := rfl
  context := rfl
  line := same.line
  tokens := by
    simp only [State.extend, same.line, Array.map_append, same.tokens]
  asked := same.asked
  solid := solid

theorem count (c : Char) : (first.count c).Matches (second.count c) := by
  unfold State.count
  split
  · exact { same with line := congrArg (· + 1) same.line }
  · exact same

theorem feed (c : Char) : (first.feed c).Matches (second.feed c) := by
  have solid : second.bare.mode.Solid := same.mode ▸ same.solid
  have counted := same.count c
  have after := State.solid_dispatch solid c
  rw [State.feed_eq_extend, State.feed_eq_extend, same.bare]
  generalize second.bare.dispatch c = move at after ⊢
  cases move with
  | next state => exact .next (counted.extend after)
  | enter file state => exact .enter (counted.extend after)
  | fail fault state => exact .fail (counted.extend after)

theorem halt (fault : Fault) : (first.halt fault).Matches (second.halt fault) :=
  .error same.asked rfl rfl

theorem complete (read : List Char) : (first.complete read).Matches (second.complete read) := by
  rw [← first.extend_bare, ← second.extend_bare, ← State.extend_complete,
    ← State.extend_complete, same.bare]
  exact same.extend trivial

theorem finish : first.finish.Matches second.finish := by
  unfold State.finish
  rw [same.mode]
  split
  · exact .ok (same.complete _)
  · exact same.halt _
  · exact .ok same

theorem opening : first.opening.Matches second.opening :=
  { same with mode := rfl, line := rfl, solid := trivial }

theorem ask (file : String) :
    State.Matches { first with asked := first.asked.push file }
      { second with asked := second.asked.push file } :=
  { same with asked := congrArg (·.push file) same.asked }

end State.Matches

namespace Outcome.Matches

variable {first second : Outcome} (same : first.Matches second)
include same

theorem bind {next other : State → Outcome}
    (goesOn : ∀ {first second : State}, first.Matches second →
      (next first).Matches (other second)) :
    Outcome.Matches (first >>= next) (second >>= other) := by
  cases same with
  | ok states => exact goesOn states
  | error asked fault within => exact .error asked fault within

theorem resume (file : String) (line : Nat) :
    (resume file line first).Matches (resume file line second) := by
  cases same with
  | ok states => exact .ok { states with mode := rfl, line := rfl, solid := trivial }
  | error asked fault within => exact .error asked fault (congrArg (· ++ [file]) within)

end Outcome.Matches

/-- A line feed, and a carriage return with a line feed behind it, do the same. -/
theorem read_withReturn {first second : State} (same : first.Matches second)
    (enter other : String → State → Outcome) :
    Outcome.Matches (read enter first ['\n']) (read other second ['\r', '\n']) := by
  obtain ⟨mode, context, line, tokens, asked⟩ := first
  obtain ⟨_, _, _, others, _⟩ := second
  obtain ⟨rfl, rfl, rfl, settled, rfl, solid⟩ := same
  cases mode with
  | ready => exact .ok ⟨rfl, rfl, rfl, settled, rfl, trivial⟩
  | tag read => exact .error rfl rfl rfl
  | comment => exact .ok ⟨rfl, rfl, rfl, settled, rfl, trivial⟩
  | directive awaited =>
    cases awaited with
    | nil => exact .error rfl rfl rfl
    | cons expected awaited =>
      have refused := solid expected List.mem_cons_self
      have noFeed : '\n' ≠ expected := by
        rintro rfl
        cases refused
      have noReturn : '\r' ≠ expected := by
        rintro rfl
        cases refused
      have feed : State.feed ⟨.directive (expected :: awaited), context, line, tokens, asked⟩ '\n' =
          .fail .malformedInclude ⟨_, context, line + 1, tokens, asked⟩ := if_pos noFeed
      have carriage :
          State.feed ⟨.directive (expected :: awaited), context, line, others, asked⟩ '\r' =
            .fail .malformedInclude ⟨_, context, line, others, asked⟩ := if_pos noReturn
      rw [read, feed, read, carriage]
      exact .error rfl rfl rfl
  | gap blank => exact .ok ⟨rfl, rfl, rfl, settled, rfl, trivial⟩
  | fileName read => exact .error rfl rfl rfl
  | identifier read =>
    have identified {text same : List Char} (texts : text = same) (line other : Nat) :
        (tokens.push ⟨.identifier (String.ofList text), line⟩).map Token.settled =
          (others.push ⟨.identifier (String.ofList same), other⟩).map Token.settled := by
      rw [Array.map_push, Array.map_push, settled, texts]
      rfl
    by_cases string : context = .string
    · -- The carriage return joins the value and is trimmed from it at the line feed.
      subst string
      have trimmed : Text.trimEnd read.reverse = Text.trimEnd ('\r' :: read).reverse := by
        rw [List.reverse_cons, Text.trimEnd_concat rfl]
      refine .ok ⟨rfl, ?_, rfl, ?_, rfl, trivial⟩
      · exact congrArg (fun text => ValueType.ofKey (String.ofList text)) trimmed
      · exact identified trimmed _ _
    · -- The carriage return ends the identifier, on the line before.
      have carriage : State.feed ⟨.identifier read, context, line, others, asked⟩ '\r' =
          .next (State.complete ⟨.identifier read, context, line, others, asked⟩ read) :=
        if_pos ⟨rfl, string⟩
      rw [Lexer.read, Lexer.read, carriage]
      exact .ok ⟨rfl, rfl, rfl, identified rfl _ _, rfl, trivial⟩

section Scans

variable {enter other : String → State → Outcome}
  (enters : ∀ (file : String) {first second : State}, first.Matches second →
    (enter file first).Matches (other file second))
include enters

theorem read_withReturns {first second : State} (same : first.Matches second)
    (chars : List Char) :
    (read enter first chars).Matches (read other second (chars.flatMap Text.withReturn)) := by
  induction chars generalizing first second with
  | nil => exact .ok same
  | cons c rest ih =>
    rw [← List.singleton_append, List.flatMap_append, List.flatMap_singleton, read_append,
      read_append]
    refine Outcome.Matches.bind ?_ ih
    by_cases feed : c = '\n'
    · rw [Text.withReturn, if_pos feed, feed]
      exact read_withReturn same enter other
    · have moves := same.feed c
      rw [Text.withReturn, if_neg feed, read, read]
      generalize first.feed c = left, second.feed c = right at moves
      cases moves with
      | next states => exact .ok states
      | enter states => exact (enters _ states).bind .ok
      | fail states => exact states.halt _

theorem scan_withReturns {first second : State} (same : first.Matches second)
    (chars : List Char) :
    (scan enter first chars).Matches (scan other second (chars.flatMap Text.withReturn)) := by
  rw [scan_eq_read, scan_eq_read]
  exact (read_withReturns enters same chars).bind State.Matches.finish

end Scans

-- By induction on the room: an included text has one text less of it.
theorem entering_withReturns {ρ : Type} [Supplier ρ] (supplier? : Option ρ) (maxDepth room : Nat)
    (file : String) {first second : State} (same : first.Matches second) :
    (entering supplier? maxDepth room file first).Matches
      (entering (supplier?.map Supplier.withReturns) maxDepth room file second) := by
  induction room generalizing file first second with
  | zero => exact same.halt _
  | succ room ih =>
    cases supplier? with
    | none => exact same.halt _
    | some supplier =>
      have told : Supplier.supply (Supplier.withReturns supplier) second.asked file =
          (Supplier.supply supplier first.asked file).map Text.withReturns := by
        rw [same.asked]
        rfl
      cases supplied : Supplier.supply supplier first.asked file with
      | error causes =>
        rw [supplied] at told
        simp only [entering, Option.map_some, supplied, told, Except.map]
        exact (same.ask file).halt _
      | ok text =>
        rw [supplied] at told
        rw [Option.map_some, entering_of_supplied supplied, entering_of_supplied told,
          Text.withReturns, String.toList_ofList, same.line]
        exact (scan_withReturns ih (same.ask file).opening text.toList).resume file second.line

theorem Outcome.Matches.lexed {first second : Outcome} (same : first.Matches second) :
    first.lexed.asked = second.lexed.asked ∧
      (first.lexed.result.map (List.map Token.settled)).mapError Error.unplaced =
        (second.lexed.result.map (List.map Token.settled)).mapError Error.unplaced := by
  cases same with
  | ok states =>
    refine ⟨congrArg Array.toList states.asked, congrArg Except.ok ?_⟩
    rw [← Array.toList_map, ← Array.toList_map, states.tokens]
  | error asked fault within =>
    refine ⟨congrArg Array.toList asked, congrArg Except.error ?_⟩
    rw [Error.unplaced, Error.unplaced, fault, within]

/-- A scan asks for the same files whatever the line breaks, and has the same tokens or the same
error, lines aside. -/
theorem lex_withReturns {ρ : Type} [Supplier ρ] (supplier? : Option ρ) (maxDepth : Nat)
    (text : String) :
    let unix := lex supplier? maxDepth text
    let dos := lex (supplier?.map Supplier.withReturns) maxDepth (Text.withReturns text)
    unix.asked = dos.asked ∧
      (unix.result.map (List.map Token.settled)).mapError Error.unplaced =
        (dos.result.map (List.map Token.settled)).mapError Error.unplaced := by
  rw [lex_eq_lexed, lex_eq_lexed, Text.withReturns, String.toList_ofList]
  have fresh : State.Matches {} {} := ⟨rfl, rfl, rfl, rfl, rfl, trivial⟩
  exact (scan_withReturns (entering_withReturns supplier? maxDepth maxDepth) fresh _).lexed

end Lexer

end Sfz

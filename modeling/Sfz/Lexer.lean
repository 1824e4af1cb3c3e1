import Sfz.Text
import Sfz.Opcode
import Sfz.Token

/-! The scanner of instrument text, one character at a time.

Where an identifier ends depends on the schema. After a key of type `string` a blank no longer
ends the value, so that sample names may contain spaces; an equals sign in such a value is split
back out, and the word before it becomes the next key. The type that decides is that of the last
identifier, whatever stands between.

The state holds the characters under way newest first. `State.feed` advances it by one character
and hands every complete include directive to its caller.
-/

set_option autoImplicit false

namespace Sfz.Lexer

/-- What the scanner is in the middle of, with what it has read of it, newest character first. Of
the word of an include directive it knows the characters still to come, and of the gap before the
file name whether a blank was read. -/
inductive Mode where
  | ready
  | tag (read : List Char)
  | comment
  | directive (awaited : List Char)
  | gap (blank : Bool)
  | fileName (read : List Char)
  | identifier (read : List Char)
  deriving DecidableEq, Repr

/-- The state of a scan: the type of the last identifier in the schema, the line feeds read of the
text at hand, and over all texts the tokens told and the files asked for. -/
structure State where
  mode : Mode := .ready
  context : ValueType := .unknown
  line : Nat := 0
  tokens : Array Token := #[]
  asked : Array String := #[]

inductive Move where
  | next (state : State)
  | enter (file : String) (state : State)
  | fail (fault : Fault) (state : State)

def includeWord : List Char := ['i', 'n', 'c', 'l', 'u', 'd', 'e']

namespace State

def emit (state : State) (lexeme : Lexeme) : State :=
  { state with tokens := state.tokens.push ⟨lexeme, state.line⟩ }

def emitIdentifier (state : State) (text : List Char) : State :=
  { state.emit (.identifier (String.ofList text)) with
    context := ValueType.ofKey (String.ofList text) }

def complete (state : State) (read : List Char) : State :=
  { state.emitIdentifier (Text.trimEnd read.reverse) with mode := .ready }

def start (state : State) (c : Char) : State :=
  if Text.isAsciiBlank c then
    { state with mode := .ready }
  else
    match c with
    | '<' => { state with mode := .tag [] }
    | '/' => { state with mode := .comment }
    | '=' => { state.emit .equal with mode := .ready }
    | '#' => { state with mode := .directive includeWord }
    | _ => { state with mode := .identifier [c] }

def feedTag (state : State) (read : List Char) (c : Char) : Move :=
  if Text.isAsciiBlank c then
    .fail .blankInTag state
  else if c = '<' then
    .fail .nestedTag state
  else if c = '>' then
    .next { state.emit (.tag (String.ofList read.reverse)) with mode := .ready }
  else
    .next { state with mode := .tag (c :: read) }

/-- An equals sign ends an identifier. In a value that may contain blanks it ends the key that
follows the value, and the value ends before the blanks in front of that key. -/
def endAtEqual (state : State) (read : List Char) : Move :=
  if state.context = .string then
    match Text.splitLastBlank (Text.trimEnd read.reverse) with
    | none => .fail .equalInIdentifier state
    | some (value, key) =>
      .next (((state.emitIdentifier (Text.trimEnd value)).emitIdentifier key).start '=')
  else
    .next ((state.complete read).start '=')

def feedIdentifier (state : State) (read : List Char) (c : Char) : Move :=
  if c = '=' then
    state.endAtEqual read
  else if c = '<' ∨ c = '\n' then
    .next ((state.complete read).start c)
  else if Text.isAsciiBlank c ∧ state.context ≠ .string then
    .next (state.complete read)
  else
    .next { state with mode := .identifier (c :: read) }

def feedDirective (state : State) (awaited : List Char) (c : Char) : Move :=
  match awaited with
  | [] => .fail .malformedInclude state
  | expected :: awaited =>
    if c ≠ expected then
      .fail .malformedInclude state
    else if awaited = [] then
      .next { state with mode := .gap false }
    else
      .next { state with mode := .directive awaited }

def feedGap (state : State) (blank : Bool) (c : Char) : Move :=
  if Text.isAsciiBlank c then
    .next { state with mode := .gap true }
  else if blank then
    .next { state with mode := .fileName [c] }
  else
    .fail .malformedInclude state

/-- A quotation mark ends the file name; one at its beginning does not belong to it. -/
def feedFileName (state : State) (read : List Char) (c : Char) : Move :=
  if c = '\n' then
    .fail .unterminatedFileName state
  else if c = '"' then
    .enter (String.ofList (read.reverse.dropWhile (· = '"'))) { state with mode := .ready }
  else
    .next { state with mode := .fileName (c :: read) }

def count (state : State) (c : Char) : State :=
  if c = '\n' then { state with line := state.line + 1 } else state

def dispatch (state : State) (c : Char) : Move :=
  match state.mode with
  | .ready => .next (state.start c)
  | .tag read => state.feedTag read c
  | .comment => .next { state with mode := if c = '\n' ∨ c = '\r' then .ready else .comment }
  | .directive awaited => state.feedDirective awaited c
  | .gap blank => state.feedGap blank c
  | .fileName read => state.feedFileName read c
  | .identifier read => state.feedIdentifier read c

def feed (state : State) (c : Char) : Move :=
  (state.count c).dispatch c

end State

end Sfz.Lexer

import Sfz.Lexer

/-! Scanning a whole text and the texts it includes.

An included text is scanned in place, with its own line numbers and with the type of the last
identifier carried in and out. How many texts may be open inside one another is bounded, and the
bound is checked before a file is asked for. A scan that fails still tells which files it asked
for.
-/

set_option autoImplicit false

namespace Sfz.Lexer

/-- What supplies the text of a file, or the causes why not, from the outermost to the root. It is
told the files asked for before, so that it may answer for one file differently each time. -/
class Supplier (ρ : Type) where
  supply : ρ → Array String → String → Except (List String) String

/-- A supplier that has one answer for each file. -/
abbrev Resolver := String → Except (List String) String

@[default_instance] instance : Supplier Resolver where
  supply resolve _ := resolve

structure Handler where
  answer : Array String → Resolver

instance : Supplier Handler where
  supply := Handler.answer

/-- How many files may be open inside one another unless the settings say otherwise. -/
def defaultMaxDepth : Nat := 8

structure Halt where
  error : Error
  asked : Array String

abbrev Outcome := Except Halt State

namespace State

def halt (state : State) (fault : Fault) : Outcome :=
  .error { error := { fault, within := [], line := state.line + 1 }, asked := state.asked }

/-- Reach the end of a text. An identifier ends there, a tag must not. -/
def finish (state : State) : Outcome :=
  match state.mode with
  | .identifier read => .ok (state.complete read)
  | .tag _ => state.halt .unterminatedTag
  | _ => .ok state

def opening (state : State) : State :=
  { state with mode := .ready, line := 0 }

end State

def resume (file : String) (line : Nat) : Outcome → Outcome
  | .ok state => .ok { state with mode := .ready, line }
  | .error halt =>
    .error { halt with error := { halt.error with within := halt.error.within ++ [file] } }

def scan (enter : String → State → Outcome) : State → List Char → Outcome
  | state, [] => state.finish
  | state, c :: rest =>
    match state.feed c with
    | .next state => scan enter state rest
    | .enter file state =>
      match enter file state with
      | .ok state => scan enter state rest
      | .error halt => .error halt
    | .fail fault state => state.halt fault

variable {ρ : Type} [Supplier ρ]

/-- Scan a text inside which `room` more texts may be open. -/
def run (supplier? : Option ρ) (maxDepth : Nat) : Nat → State → List Char → Outcome
  | 0 => scan fun file state => state.halt (.includeTooDeep file maxDepth)
  | room + 1 => scan fun file state =>
    match supplier? with
    | none => state.halt .includeUnavailable
    | some supplier =>
      let asking := { state with asked := state.asked.push file }
      match Supplier.supply supplier state.asked file with
      | .error causes => asking.halt (.includeFailed file causes)
      | .ok text =>
        resume file state.line (run supplier? maxDepth room asking.opening text.toList)

structure Lexed where
  asked : List String
  result : Except Error (List Token)

def lex (supplier? : Option ρ) (maxDepth : Nat) (text : String) : Lexed :=
  match run supplier? maxDepth maxDepth {} text.toList with
  | .ok state => { asked := state.asked.toList, result := .ok state.tokens.toList }
  | .error halt => { asked := halt.asked.toList, result := .error halt.error }

end Sfz.Lexer

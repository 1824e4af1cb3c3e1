/-! Lexemes of instrument text with their positions, and what can stop the scanning of a text. -/

set_option autoImplicit false

namespace Sfz

inductive Lexeme where
  | tag (name : String)
  | identifier (text : String)
  | equal
  deriving DecidableEq, Repr

/-- A lexeme and the line on which it ended, counted from 0 within its own text. -/
structure Token where
  lexeme : Lexeme
  line : Nat
  deriving DecidableEq, Repr

def Token.describe (token : Token) : String :=
  match token.lexeme with
  | .tag name => s!"#{token.line} tag={name}"
  | .identifier text => s!"#{token.line} id={text}"
  | .equal => s!"#{token.line} Equal"

namespace Lexer

inductive Fault where
  | blankInTag
  | nestedTag
  | unterminatedTag
  | malformedInclude
  | unterminatedFileName
  | equalInIdentifier
  | includeTooDeep (file : String) (limit : Nat)
  | includeFailed (file : String) (causes : List String)
  | includeUnavailable
  deriving DecidableEq, Repr

def Fault.message : Fault → String
  | .blankInTag => "whitespace in tag"
  | .nestedTag => "nested tag"
  | .unterminatedTag => "unterminated tag"
  | .malformedInclude => "Malformed #include"
  | .unterminatedFileName => "unterminated #include file name"
  | .equalInIdentifier => "equals sign in identifier"
  | .includeTooDeep file limit => s!"#include of {file} nested deeper than {limit}"
  | .includeFailed file causes => "can't include " ++ file ++ ": " ++ ": ".intercalate causes
  | .includeUnavailable => "can't process include file"

/-- A fault in the innermost open text, at a line counted from 1, and the open files from there on.
-/
structure Error where
  fault : Fault
  within : List String
  line : Nat
  deriving DecidableEq, Repr

def Error.description (error : Error) : String :=
  error.within.foldl (fun text file => text ++ " in " ++ file) error.fault.message

def Error.message (error : Error) : String :=
  s!"{error.description} at line {error.line}"

end Lexer

end Sfz

import Sfz.Lexer.Include

/-! Settings for loading instruments and building players. -/

set_option autoImplicit false

namespace Sfz

/-- How many files may be open inside one another, the seed of the random players, without which
every build may draw differently, and whether the first sighting of an unknown opcode is reported.
-/
structure Settings where
  maxIncludeDepth : Nat := Lexer.defaultMaxDepth
  randomSeed : Option UInt64 := none
  warnUnrecognized : Bool := true
  deriving DecidableEq, Repr

namespace Settings

def includeDepthLimit : Nat := 64

inductive Error where
  | malformed
  | includeDepth (depth : Nat)
  deriving DecidableEq, Repr

def Error.message : Error → String
  | .malformed => "TOML parse error"
  | .includeDepth depth =>
    s!"Configuration error: max_include_depth {depth} is larger than {includeDepthLimit}"

def fault? (settings : Settings) : Option Error :=
  if settings.maxIncludeDepth > includeDepthLimit then
    some (.includeDepth settings.maxIncludeDepth)
  else
    none

end Settings

end Sfz

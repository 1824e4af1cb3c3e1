import Sfz.Settings
import Sfz.Toml.Reader

/-! Settings as TOML text.

A library reads and writes the text. Every setting has a key at the root of the document and may be
left out; other keys and tables are ignored. Numbers are signed 64-bit integers there, so a seed
above that range cannot be written.
-/

set_option autoImplicit false

namespace Sfz

namespace Toml

/-- A value at the root of a document. Settings are integers and booleans. -/
inductive Scalar where
  | integer (number : Int64)
  | boolean (value : Bool)
  | other
  deriving DecidableEq

inductive Field where
  | natural (number : Nat)
  | boolean (value : Bool)
  deriving DecidableEq

/-- A library for documents: it reads a text into the values at its root by their keys, unless the
text is no document, and writes records, of which some fields may be absent. -/
structure Library where
  read : String → Option (String → Option Scalar)
  write : List (String × Option Field) → Option String

end Toml

namespace Settings

open Toml

def natural? : Option Scalar → Except Error (Option Nat)
  | none => .ok none
  | some (.integer number) =>
    if 0 ≤ number then .ok (some number.toNatClampNeg) else .error .malformed
  | some _ => .error .malformed

def boolean? : Option Scalar → Except Error (Option Bool)
  | none => .ok none
  | some (.boolean value) => .ok (some value)
  | some _ => .error .malformed

def ofRoot (root : String → Option Scalar) : Except Error Settings := do
  let default : Settings := {}
  let maxIncludeDepth ← natural? (root "max_include_depth")
  let randomSeed ← natural? (root "random_seed")
  let warnUnrecognized ← boolean? (root "warn_unrecognized")
  return {
    maxIncludeDepth := maxIncludeDepth.getD default.maxIncludeDepth
    randomSeed := randomSeed.map UInt64.ofNat
    warnUnrecognized := warnUnrecognized.getD default.warnUnrecognized }

/-- Read settings. A fault of the text or of a type comes before a setting out of bounds. -/
def read (library : Library) (text : String) : Except Error Settings := do
  let some root := library.read text | .error .malformed
  let settings ← ofRoot root
  match settings.fault? with
  | some error => .error error
  | none => .ok settings

def fields (settings : Settings) : List (String × Option Field) :=
  [("max_include_depth", some (.natural settings.maxIncludeDepth)),
    ("random_seed", settings.randomSeed.map fun seed => .natural seed.toNat),
    ("warn_unrecognized", some (.boolean settings.warnUnrecognized))]

def write (library : Library) (settings : Settings) : Option String :=
  library.write settings.fields

end Settings

namespace Toml

def Node.scalar : Node → Scalar
  | .value (.integer number) => .integer number
  | .value (.boolean flag) => .boolean flag
  | _ => .other

def Field.word? : Field → Option String
  | .natural number => if number < integerBound then some (toString number) else none
  | .boolean value => some (if value then "true" else "false")

def writeLines : List (String × Option Field) → Option String
  | [] => some ""
  | (_, none) :: rest => writeLines rest
  | (name, some field) :: rest => do
    let word ← field.word?
    let rest ← writeLines rest
    return name ++ " = " ++ word ++ "\n" ++ rest

/-- The library of documents that are read as lines and written with a line for every field. -/
def library : Library where
  read text := (Document.ofText? text).map fun document name =>
    (document.root? name).map Node.scalar
  write := writeLines

end Toml

def Settings.ofToml (text : String) : Except Settings.Error Settings :=
  Settings.read Toml.library text

def Settings.toToml? (settings : Settings) : Option String :=
  settings.write Toml.library

end Sfz

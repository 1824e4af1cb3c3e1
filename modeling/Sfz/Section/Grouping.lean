import Sfz.Section
import Sfz.Token

/-! Grouping of tokens into sections.

The tokens of a text are section markers, each followed by triples of a key, an equals sign and a
value. Anything else is an error at the token that cannot be placed.
-/

set_option autoImplicit false

namespace Sfz

namespace Grouping

inductive Fault where
  | unknownSection (name : String)
  | equalWithoutKey
  | outsideSection (key : String)
  | missingEqual (key : String)
  | missingValue (key : String)
  deriving DecidableEq, Repr

def Fault.message : Fault → String
  | .unknownSection name => s!"Unknown section type: {name}"
  | .equalWithoutKey => "'=' without an opcode name"
  | .outsideSection key => s!"opcode {key} outside of any section"
  | .missingEqual key => s!"expected '=' after {key}"
  | .missingValue key => s!"missing value for {key}"

structure Error where
  fault : Fault
  line : Nat
  deriving DecidableEq, Repr

def Error.message (error : Error) : String :=
  s!"Parse error at line {error.line}: {error.fault.message}"

structure Pending where
  type : SectionType
  line : Nat
  assignments : Array Assignment := #[]

def Pending.close (pending : Pending) : Section :=
  { type := pending.type, line := pending.line, assignments := pending.assignments.toList }

/-- The sections before a tag: the closed ones and the one that the tag closes. -/
def closed (done : Array Section) (pending? : Option Pending) : Array Section :=
  match pending? with
  | none => done
  | some pending => done.push pending.close

def place (done : Array Section) (pending? : Option Pending) :
    List Token → Except Error (Array Section)
  | [] => .ok (closed done pending?)
  | ⟨.tag name, line⟩ :: rest =>
    match SectionType.ofTag? name with
    | none => .error { fault := .unknownSection name, line := line + 1 }
    | some type => place (closed done pending?) (some { type, line }) rest
  | ⟨.equal, line⟩ :: _ => .error { fault := .equalWithoutKey, line := line + 1 }
  | ⟨.identifier key, line⟩ :: rest =>
    match pending? with
    | none => .error { fault := .outsideSection key, line := line + 1 }
    | some pending =>
      match rest with
      | ⟨.equal, _⟩ :: ⟨.identifier value, _⟩ :: rest =>
        let assignments := pending.assignments.push { key, value, line }
        place done (some { pending with assignments }) rest
      | ⟨.equal, _⟩ :: _ => .error { fault := .missingValue key, line := line + 1 }
      | _ => .error { fault := .missingEqual key, line := line + 1 }

end Grouping

def Section.ofTokens (tokens : List Token) : Except Grouping.Error (List Section) :=
  (Grouping.place #[] none tokens).map Array.toList

end Sfz

import Sfz.Text

/-! Sections of assignments.

A section opens with a tag and holds the assignments up to the next tag, as text and in order.
-/

set_option autoImplicit false

namespace Sfz

inductive SectionType where
  | global
  | control
  | master
  | group
  | region
  | curve
  | effect
  deriving DecidableEq, Repr

namespace SectionType

def all : List SectionType := [global, control, master, group, region, curve, effect]

def name : SectionType → String
  | global => "global"
  | control => "control"
  | master => "master"
  | group => "group"
  | region => "region"
  | curve => "curve"
  | effect => "effect"

def header (type : SectionType) : String :=
  "<" ++ type.name ++ ">"

/-- The section type that a tag names, in any letter case. Only ASCII letters need folding: no
other character has a lower-case form made of letters of these names. -/
def ofTag? (tag : String) : Option SectionType :=
  all.find? fun type => type.name = Text.lowerAscii tag

end SectionType

/-- A key and its value as text, with the line of the key counted from 0. -/
structure Assignment where
  key : String
  value : String
  line : Nat := 0
  deriving DecidableEq, Repr

structure Section where
  type : SectionType
  line : Nat := 0
  assignments : List Assignment
  deriving DecidableEq, Repr

def Section.value? (part : Section) (key : String) : Option String :=
  (part.assignments.reverse.find? fun assignment => assignment.key = key).map (·.value)

end Sfz

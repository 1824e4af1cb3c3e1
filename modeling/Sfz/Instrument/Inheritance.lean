import Sfz.Region

/-! Inheritance of opcodes, and the sample files that regions refer to.

A region inherits from the last global, master and group section before it; a master section ends
the group in force. The last default path set by a control section is put before the sample.

A reference to a sample is plain text with `/` between its parts; backslashes are read as `/`. No
file is looked at.
-/

set_option autoImplicit false

namespace Sfz

namespace SamplePath

def normalize (path : String) : String :=
  String.ofList (path.toList.map fun c => if c = '\\' then '/' else c)

/-- Whether a reference starts at a root: with `/`, or with a drive letter and its separator. -/
def isAbsolute (path : String) : Bool :=
  match path.toList with
  | '/' :: _ => true
  | drive :: ':' :: separator :: _ => drive.isAlpha && (separator = '/' || separator = '\\')
  | _ => false

def asDirectory (path : String) : String :=
  if path.toList = [] ∨ path.toList.getLast? = some '/' then path else path ++ "/"

/-- A sample reference below a default path; an absolute one stands on its own. -/
def combine (defaultPath sample : String) : String :=
  if isAbsolute (normalize sample) then
    normalize sample
  else
    asDirectory (normalize defaultPath) ++ normalize sample

end SamplePath

/-- What the sections read so far hand down to a region. -/
structure Scope where
  defaultPath : String := ""
  global : OpcodeTable := ∅
  master : OpcodeTable := ∅
  group : OpcodeTable := ∅

namespace Scope

def inherited (scope : Scope) : OpcodeTable :=
  scope.group.overlay (scope.master.overlay scope.global)

def enter (scope : Scope) (part : Section) : Scope :=
  let opcodes := OpcodeTable.compile part.assignments
  match part.type with
  | .control => { scope with defaultPath := (opcodes.string? .defaultPath).getD scope.defaultPath }
  | .global => { scope with global := opcodes }
  | .master => { scope with master := opcodes, group := ∅ }
  | .group => { scope with group := opcodes }
  | .region | .curve | .effect => scope

def region (scope : Scope) (part : Section) : Except Region.Error Region := do
  let opcodes := (OpcodeTable.compile part.assignments).overlay scope.inherited
  let region ← Region.ofOpcodes opcodes part.line
  if region.sampleFile = "" then
    .error { fault := .noSample, line := part.line + 1 }
  else
    .ok { region with sampleFile := SamplePath.combine scope.defaultPath region.sampleFile }

end Scope

end Sfz

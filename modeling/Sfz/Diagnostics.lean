import Std.Data.ExtTreeSet
import Sfz.Region

/-! Soft diagnostics.

Unknown opcodes and values that do not convert never stop a load. They are recorded, each text
once, and reported as warnings: an unknown opcode at its first sighting, if that is asked for, and
a bad value every time. Nothing that is recorded is read back to decide what is loaded.
-/

set_option autoImplicit false

namespace Sfz

abbrev TextSet := Std.ExtTreeSet String

inductive Warning where
  | unrecognized (name : String)
  | unconvertible (assignment : Assignment)
  | unmapped (assignment : Assignment)
  | regionRejected (error : Region.Error)
  | unorderedBounds
  deriving DecidableEq, Repr

def Warning.message : Warning → String
  | .unrecognized name => s!"unrecognized opcode {name}"
  | .unconvertible assignment =>
    s!"could not convert '{assignment.value}' to {(ValueType.ofKey assignment.key).label} " ++
      s!"(key={assignment.key}, line {assignment.line + 1})"
  | .unmapped assignment =>
    s!"'{assignment.value}' is not a discrete value " ++
      s!"(key={assignment.key}, line {assignment.line + 1})"
  | .regionRejected error => s!"Failed to load region: {error.message}"
  | .unorderedBounds => "random regions are not in ascending hirand order; some never play"

/-- Names outside the schema and bad values, which are kept with their keys as `key=value`. Names
are always recorded; whether their first sighting is reported is a setting. -/
structure Diagnostics where
  unrecognized : TextSet := ∅
  invalidValues : TextSet := ∅
  warnUnrecognized : Bool := true

namespace Diagnostics

def addUnrecognized (diagnostics : Diagnostics) (name : String) : Diagnostics :=
  { diagnostics with unrecognized := diagnostics.unrecognized.insert name }

def addInvalid (diagnostics : Diagnostics) (key value : String) : Diagnostics :=
  { diagnostics with invalidValues := diagnostics.invalidValues.insert s!"{key}={value}" }

def isEmpty (diagnostics : Diagnostics) : Bool :=
  diagnostics.unrecognized.isEmpty && diagnostics.invalidValues.isEmpty

def clear (diagnostics : Diagnostics) : Diagnostics :=
  { warnUnrecognized := diagnostics.warnUnrecognized }

def summaryPart (heading : String) (texts : TextSet) : List String :=
  if texts.isEmpty then [] else [heading ++ ": " ++ ", ".intercalate texts.toList]

def summary (diagnostics : Diagnostics) : String :=
  "; ".intercalate
    (summaryPart "unrecognized opcodes" diagnostics.unrecognized ++
      summaryPart "invalid values" diagnostics.invalidValues)

end Diagnostics

/-- The diagnostics recorded so far and the warnings issued on the way, in order. -/
structure Report where
  diagnostics : Diagnostics := {}
  warnings : Array Warning := #[]

namespace Report

def warn (report : Report) (warning : Warning) : Report :=
  { report with warnings := report.warnings.push warning }

def isNew (report : Report) (name : String) : Bool :=
  !report.diagnostics.unrecognized.contains name

def noteUnrecognized (report : Report) (name : String) : Report :=
  let warned :=
    if report.diagnostics.warnUnrecognized && report.isNew name then
      report.warn (.unrecognized name)
    else
      report
  { warned with diagnostics := report.diagnostics.addUnrecognized name }

def noteInvalid (report : Report) (key value : String) : Report :=
  { report with diagnostics := report.diagnostics.addInvalid key value }

/-- Record and report what is wrong with an assignment. -/
def observe (report : Report) (assignment : Assignment) : Report :=
  match assignment.issue? with
  | none => report
  | some .unrecognized => report.noteUnrecognized assignment.key
  | some .unconvertible =>
    (report.warn (.unconvertible assignment)).noteInvalid assignment.key assignment.value
  | some .unmapped =>
    (report.warn (.unmapped assignment)).noteInvalid assignment.key assignment.value

def observeAll (report : Report) (assignments : List Assignment) : Report :=
  assignments.foldl observe report

end Report

end Sfz

import Sfz.Diagnostics
import Sfz.Instrument
import Sfz.Instrument.Inheritance
import Sfz.Section.Grouping
import Sfz.Settings

/-! Building instruments from sections and loading them from text.

Every region section yields a region or a warning. Whatever else is wrong with the assignments is
recorded on the way, except in the sections that are skipped whole. A text that cannot be scanned
or grouped is rejected whole and leaves the report as it was.
-/

set_option autoImplicit false

namespace Sfz

/-- Whether the assignments of a section are compiled; curves and effects are skipped. -/
def SectionType.isCompiled : SectionType → Bool
  | .curve | .effect => false
  | _ => true

structure Build where
  scope : Scope := {}
  assembly : Assembly := {}
  report : Report

namespace Build

def place (build : Build) (part : Section) : Build :=
  match build.scope.region part with
  | .ok region => { build with assembly := build.assembly.add region }
  | .error error => { build with report := build.report.warn (.regionRejected error) }

def step (build : Build) (part : Section) : Build :=
  if part.type.isCompiled then
    let observed :=
      { build with
        report := build.report.observeAll part.assignments
        scope := build.scope.enter part }
    if part.type = .region then observed.place part else observed
  else
    build

end Build

/-- The instrument of a list of sections, and the report continued. -/
def Instrument.ofSections (sections : List Section) (report : Report) : Instrument × Report :=
  let build := sections.foldl Build.step { report }
  (build.assembly.instrument, build.report)

inductive LoadError where
  | settings (error : Settings.Error)
  | lexer (error : Lexer.Error)
  | grouping (error : Grouping.Error)
  deriving DecidableEq, Repr

def LoadError.message : LoadError → String
  | .settings error => error.message
  | .lexer error => error.message
  | .grouping error => error.message

structure Loaded where
  asked : List String
  result : Except LoadError Instrument
  report : Report

def load {ρ : Type} [Lexer.Supplier ρ] (settings : Settings) (supplier? : Option ρ) (text : String)
    (report : Report) : Loaded :=
  match settings.fault? with
  | some error => { asked := [], result := .error (.settings error), report }
  | none =>
    let lexed := Lexer.lex supplier? settings.maxIncludeDepth text
    match lexed.result with
    | .error error => { asked := lexed.asked, result := .error (.lexer error), report }
    | .ok tokens =>
      match Section.ofTokens tokens with
      | .error error => { asked := lexed.asked, result := .error (.grouping error), report }
      | .ok sections =>
        let (instrument, report) := Instrument.ofSections sections report
        { asked := lexed.asked, result := .ok instrument, report }

def Settings.freshReport (settings : Settings) : Report :=
  { diagnostics := { warnUnrecognized := settings.warnUnrecognized } }

end Sfz

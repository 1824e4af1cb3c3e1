import Sfz.Instrument.Build

/-! The diagnostics of a load.

What is recorded depends on the assignments alone, in the order in which they are observed: neither
the warnings issued on the way nor the regions and the scope have a part in it.
-/

set_option autoImplicit false

namespace Sfz

/-- The diagnostics after an assignment: what is wrong with it is recorded, not where it stands. -/
def Diagnostics.note (diagnostics : Diagnostics) (assignment : Assignment) : Diagnostics :=
  match assignment.issue? with
  | none => diagnostics
  | some .unrecognized => diagnostics.addUnrecognized assignment.key
  | some .unconvertible | some .unmapped =>
    diagnostics.addInvalid assignment.key assignment.value

def Section.observed (part : Section) : List Assignment :=
  if part.type.isCompiled then part.assignments else []

theorem Report.diagnostics_observe (report : Report) (assignment : Assignment) :
    (report.observe assignment).diagnostics = report.diagnostics.note assignment := by
  unfold observe Diagnostics.note
  cases assignment.issue? with
  | none => rfl
  | some issue => cases issue <;> rfl

theorem Report.diagnostics_observeAll (report : Report) (assignments : List Assignment) :
    (report.observeAll assignments).diagnostics =
      assignments.foldl Diagnostics.note report.diagnostics := by
  induction assignments generalizing report with
  | nil => rfl
  | cons assignment rest ih =>
    rw [List.foldl_cons, ← diagnostics_observe, ← ih]
    rfl

namespace Build

theorem diagnostics_place (build : Build) (part : Section) :
    (build.place part).report.diagnostics = build.report.diagnostics := by
  unfold place
  split <;> rfl

theorem diagnostics_step (build : Build) (part : Section) :
    (build.step part).report.diagnostics =
      part.observed.foldl Diagnostics.note build.report.diagnostics := by
  rw [step, Section.observed]
  split
  · rw [← Report.diagnostics_observeAll]
    split
    · rw [diagnostics_place]
    · rfl
  · rfl

theorem diagnostics_foldl_step (sections : List Section) (build : Build) :
    (sections.foldl step build).report.diagnostics =
      (sections.flatMap Section.observed).foldl Diagnostics.note build.report.diagnostics := by
  induction sections generalizing build with
  | nil => rfl
  | cons part rest ih =>
    rw [List.foldl_cons, ih, diagnostics_step, List.flatMap_cons, List.foldl_append]

end Build

end Sfz

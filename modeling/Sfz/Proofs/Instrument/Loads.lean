import Mathlib.Data.List.Basic
import Sfz.Proofs.Instrument.Diagnostics
import Sfz.Proofs.Instrument.Inheritance

/-! Loads that share a report.

What the report holds when a load begins has no part in what is loaded. A load that fails leaves the
report as it was, and one that succeeds adds to it what it records in an empty report. Adding is a
union of sets, so loads that follow one another may change places.
-/

set_option autoImplicit false

namespace Sfz

namespace Diagnostics

/-- What either has recorded, under the setting of the first. -/
def join (first second : Diagnostics) : Diagnostics :=
  { first with
    unrecognized := first.unrecognized ∪ second.unrecognized
    invalidValues := first.invalidValues ∪ second.invalidValues }

theorem ext_mem {first second : Diagnostics}
    (unrecognized : ∀ name, name ∈ first.unrecognized ↔ name ∈ second.unrecognized)
    (invalid : ∀ text, text ∈ first.invalidValues ↔ text ∈ second.invalidValues)
    (warn : first.warnUnrecognized = second.warnUnrecognized) : first = second := by
  cases first
  cases second
  cases warn
  cases Std.ExtTreeSet.ext_mem unrecognized
  cases Std.ExtTreeSet.ext_mem invalid
  rfl

variable (first second third : Diagnostics)

theorem join_empty (warn : Bool) : first.join { warnUnrecognized := warn } = first := by
  apply ext_mem <;> simp [join, Std.ExtTreeSet.mem_union_iff]

theorem join_right_comm : (first.join second).join third = (first.join third).join second := by
  apply ext_mem
  · intro name
    simp only [join, Std.ExtTreeSet.mem_union_iff, or_right_comm]
  · intro text
    simp only [join, Std.ExtTreeSet.mem_union_iff, or_right_comm]
  · rfl

theorem join_addUnrecognized (name : String) :
    (first.join second).addUnrecognized name = first.join (second.addUnrecognized name) := by
  apply ext_mem
  · intro other
    simp only [join, addUnrecognized, Std.ExtTreeSet.mem_insert, Std.ExtTreeSet.mem_union_iff,
      or_left_comm]
  · exact fun _ => Iff.rfl
  · rfl

theorem join_addInvalid (key value : String) :
    (first.join second).addInvalid key value = first.join (second.addInvalid key value) := by
  apply ext_mem
  · exact fun _ => Iff.rfl
  · intro text
    simp only [join, addInvalid, Std.ExtTreeSet.mem_insert, Std.ExtTreeSet.mem_union_iff,
      or_left_comm]
  · rfl

theorem join_note (assignment : Assignment) :
    (first.join second).note assignment = first.join (second.note assignment) := by
  unfold note
  cases assignment.issue? with
  | none => rfl
  | some issue =>
    cases issue with
    | unrecognized => exact join_addUnrecognized first second assignment.key
    | unconvertible | unmapped =>
      exact join_addInvalid first second assignment.key assignment.value

theorem join_foldl_note (assignments : List Assignment) :
    assignments.foldl note (first.join second) = first.join (assignments.foldl note second) := by
  induction assignments generalizing second with
  | nil => rfl
  | cons assignment rest ih => rw [List.foldl_cons, List.foldl_cons, join_note, ih]

/-- What is recorded does not depend on what has been recorded before. -/
theorem foldl_note_eq_join (assignments : List Assignment) :
    assignments.foldl note first = first.join (assignments.foldl note {}) := by
  rw [← join_foldl_note, join_empty]

end Diagnostics

structure Job (ρ : Type) where
  settings : Settings
  supplier? : Option ρ
  text : String

namespace Job

variable {ρ : Type} [Lexer.Supplier ρ]

def run (job : Job ρ) (report : Report) : Loaded :=
  load job.settings job.supplier? job.text report

def records (job : Job ρ) : Diagnostics :=
  (job.run {}).report.diagnostics

def runAll (jobs : List (Job ρ)) (report : Report) : Report :=
  jobs.foldl (fun report job => (job.run report).report) report

-- The report comes in only when the sections are known.
theorem run_cases (job : Job ρ) :
    (∃ asked error, ∀ report, job.run report = { asked, result := .error error, report }) ∨
      ∃ asked sections, ∀ report, job.run report =
        { asked
          result := .ok (Instrument.ofSections sections report).1
          report := (Instrument.ofSections sections report).2 } := by
  simp only [run, load]
  cases job.settings.fault? with
  | some error => exact .inl ⟨_, _, fun _ => rfl⟩
  | none =>
    cases (Lexer.lex job.supplier? job.settings.maxIncludeDepth job.text).result with
    | error error => exact .inl ⟨_, _, fun _ => rfl⟩
    | ok tokens =>
      dsimp only
      cases Section.ofTokens tokens with
      | error error => exact .inl ⟨_, _, fun _ => rfl⟩
      | ok sections => exact .inr ⟨_, sections, fun _ => rfl⟩

theorem result_run (job : Job ρ) (first second : Report) :
    (job.run first).result = (job.run second).result := by
  rcases job.run_cases with ⟨asked, error, fails⟩ | ⟨asked, sections, loads⟩
  · rw [fails, fails]
  · have same : (Instrument.ofSections sections first).1 =
        (Instrument.ofSections sections second).1 := by
      rw [Instrument.ofSections_eq_foldl_add, Instrument.ofSections_eq_foldl_add]
    rw [loads, loads, same]

theorem asked_run (job : Job ρ) (first second : Report) :
    (job.run first).asked = (job.run second).asked := by
  rcases job.run_cases with ⟨asked, error, fails⟩ | ⟨asked, sections, loads⟩
  · rw [fails, fails]
  · rw [loads, loads]

theorem report_run_of_error {job : Job ρ} {report : Report} {error : LoadError}
    (failed : (job.run report).result = .error error) : (job.run report).report = report := by
  rcases job.run_cases with ⟨asked, other, fails⟩ | ⟨asked, sections, loads⟩
  · rw [fails]
  · rw [loads] at failed
    cases failed

theorem diagnostics_run (job : Job ρ) (report : Report) :
    (job.run report).report.diagnostics = report.diagnostics.join job.records := by
  unfold records
  rcases job.run_cases with ⟨asked, error, fails⟩ | ⟨asked, sections, loads⟩
  · rw [fails, fails]
    exact (Diagnostics.join_empty _ _).symm
  · rw [loads, loads]
    simp only [Instrument.ofSections, Build.diagnostics_foldl_step]
    exact Diagnostics.foldl_note_eq_join _ _

theorem diagnostics_runAll (jobs : List (Job ρ)) (report : Report) :
    (runAll jobs report).diagnostics =
      (jobs.map records).foldl Diagnostics.join report.diagnostics := by
  induction jobs generalizing report with
  | nil => rfl
  | cons job rest ih =>
    rw [List.map_cons, List.foldl_cons, ← diagnostics_run, ← ih]
    rfl

theorem diagnostics_runAll_perm {jobs others : List (Job ρ)} (same : jobs.Perm others)
    (report : Report) : (runAll jobs report).diagnostics = (runAll others report).diagnostics := by
  rw [diagnostics_runAll, diagnostics_runAll]
  exact (same.map records).foldl_eq'
    (fun first _ second _ joined => Diagnostics.join_right_comm joined first second) _

/-- A report decides nothing and only gathers: a job has the same result with any report, leaves it
as it was if it fails, and otherwise joins to it what the job records alone. So jobs in any order
leave what has been recorded before together with what each of them records alone. -/
theorem report_gathers :
    (∀ (job : Job ρ) (first second : Report),
      (job.run first).result = (job.run second).result ∧
        (job.run first).asked = (job.run second).asked) ∧
    (∀ (job : Job ρ) (report : Report),
      match (job.run report).result with
      | .error _ => (job.run report).report = report
      | .ok _ => (job.run report).report.diagnostics = report.diagnostics.join job.records) ∧
    (∀ (jobs : List (Job ρ)) (report : Report),
      (runAll jobs report).diagnostics =
        (jobs.map records).foldl Diagnostics.join report.diagnostics) ∧
    ∀ (jobs others : List (Job ρ)) (report : Report), jobs.Perm others →
      (runAll jobs report).diagnostics = (runAll others report).diagnostics := by
  refine ⟨?_, ?_, diagnostics_runAll, ?_⟩
  · intro job first second
    exact ⟨result_run job first second, asked_run job first second⟩
  · intro job report
    split
    · next failed => exact report_run_of_error failed
    · exact diagnostics_run job report
  · intro jobs others report same
    exact diagnostics_runAll_perm same report

/-- A key outside the schema, a text that fails and a value that does not convert, and the same from
the last to the first. -/
theorem report_gathers_reversed :
    let unknown : Job Lexer.Resolver :=
      { settings := {}, supplier? := none, text := "<region>tone=1" }
    let failing : Job Lexer.Resolver :=
      { settings := {}, supplier? := none, text := "<region>tune=x <reg" }
    let invalid : Job Lexer.Resolver :=
      { settings := {}, supplier? := none, text := "<region>key=x tone=2" }
    (unknown.run {}).report.diagnostics.unrecognized.toList = ["tone"] ∧
      (failing.run {}).result.isOk = false ∧
      (invalid.run {}).report.diagnostics.invalidValues.toList = ["key=x"] ∧
      (runAll [unknown, failing, invalid] {}).diagnostics =
        (runAll [invalid, failing, unknown] {}).diagnostics := by
  intro unknown failing invalid
  refine ⟨by decide +kernel, by decide +kernel, by decide +kernel, ?_⟩
  exact report_gathers.2.2.2 _ _ _ (List.reverse_perm [invalid, failing, unknown])

end Job

end Sfz

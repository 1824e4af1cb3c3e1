import Mathlib.Data.List.Basic
import Mathlib.Data.List.Induction
import Sfz.Proofs.Instrument.Cells
import Sfz.Proofs.Instrument.Diagnostics
import Sfz.Proofs.Instrument.Inheritance
import Sfz.Proofs.OpcodeTable.Compilation

/-! The warnings of builds that share a report.

What calls for warnings is told from the sections: the assignments that are looked at, in the order
of the text, and behind those of a region section the reason why it has no region, if it has none.
A key outside the schema counts at its first appearance only, in whichever build that is.
-/

set_option autoImplicit false

namespace Sfz

section InOrder

variable {α β γ : Type}

/-- What values yield, each in view of those before it. -/
def inOrder (yields : List α → α → List β) (values : List α) : List β :=
  values.zipIdx.flatMap fun (value, position) => yields (values.take position) value

theorem inOrder_concat (yields : List α → α → List β) (values : List α) (last : α) :
    inOrder yields (values ++ [last]) = inOrder yields values ++ yields values last := by
  have earlier : ∀ entry ∈ values.zipIdx,
      yields ((values ++ [last]).take entry.2) entry.1 = yields (values.take entry.2) entry.1 := by
    rintro ⟨value, position⟩ member
    have inside : position ≤ values.length := by
      have := List.mem_zipIdx' member
      omega
    simp only [List.take_append_of_le_length inside]
  have whole : (values ++ [last]).take values.length = values := List.take_left
  simp only [inOrder, List.zipIdx_append, List.flatMap_append, List.zipIdx_singleton,
    List.flatMap_singleton, Nat.zero_add, whole]
  rw [List.flatMap_congr earlier]

theorem filterMap_inOrder (select : β → Option γ) (yields : List α → α → List β)
    (values : List α) :
    (inOrder yields values).filterMap select =
      inOrder (fun before value => (yields before value).filterMap select) values := by
  induction values using List.reverseRecOn with
  | nil => rfl
  | append_singleton values last ih =>
    rw [inOrder_concat, inOrder_concat, List.filterMap_append, ih]

theorem inOrder_eq_flatMap (yields : α → List β) (values : List α) :
    inOrder (fun _ => yields) values = values.flatMap yields := by
  induction values using List.reverseRecOn with
  | nil => rfl
  | append_singleton values last ih =>
    rw [inOrder_concat, ih, List.flatMap_append, List.flatMap_singleton]

theorem filterMap_inOrder_of_each {select : β → Option γ} {yields : List α → α → List β}
    {own : α → List γ} (each : ∀ before value, (yields before value).filterMap select = own value)
    (values : List α) : (inOrder yields values).filterMap select = values.flatMap own := by
  rw [filterMap_inOrder]
  simp only [each, inOrder_eq_flatMap]

end InOrder

namespace Assignment

instance (assignment : Assignment) : Decidable assignment.Unknown :=
  decidable_of_iff _ issue?_eq_unrecognized_iff

instance (assignment : Assignment) : Decidable assignment.Bad :=
  decidable_of_iff _ issue?_bad_iff

end Assignment

inductive Incident where
  | assigned (assignment : Assignment)
  | rejected (error : Region.Error)

namespace Section

def rejection? (before : List Section) (part : Section) : Option Region.Error :=
  match Region.ofOpcodes (.compile (inherited before ++ part.assignments)) part.line with
  | .error error => some error
  | .ok region =>
    if region.sampleFile = "" then some { fault := .noSample, line := part.line + 1 } else none

def rejectionsAt (before : List Section) (part : Section) : List Region.Error :=
  if part.type = .region then (rejection? before part).toList else []

def rejections (sections : List Section) : List Region.Error :=
  inOrder rejectionsAt sections

def incidentsAt (before : List Section) (part : Section) : List Incident :=
  part.observed.map .assigned ++ (rejectionsAt before part).map .rejected

/-- The incidents of sections in order; in a region section its rejection comes last. -/
def incidents (sections : List Section) : List Incident :=
  inOrder incidentsAt sections

theorem incidents_concat (sections : List Section) (last : Section) :
    incidents (sections ++ [last]) = incidents sections ++ incidentsAt sections last :=
  inOrder_concat incidentsAt sections last

theorem rejection?_eq_none_iff {before : List Section} {part : Section} :
    rejection? before part = none ↔ (declared? before part).isSome := by
  unfold rejection? declared?
  cases Region.ofOpcodes (.compile (inherited before ++ part.assignments)) part.line with
  | error error => simp
  | ok region => by_cases absent : region.sampleFile = "" <;> simp [absent]

end Section

namespace Report

def meet (report : Report) : Incident → Report
  | .assigned assignment => report.observe assignment
  | .rejected error => report.warn (.regionRejected error)

theorem foldl_meet_assigned (report : Report) (assignments : List Assignment) :
    (assignments.map Incident.assigned).foldl meet report = report.observeAll assignments := by
  rw [List.foldl_map, observeAll]
  rfl

end Report

theorem Scope.region_eq_error_iff {before : List Section} {part : Section} {error : Region.Error} :
    (before.foldl Scope.enter {}).region part = .error error ↔
      Section.rejection? before part = some error := by
  rw [Scope.region_eq_ofOpcodes, Section.rejection?]
  cases Region.ofOpcodes (.compile (Section.inherited before ++ part.assignments)) part.line with
  | error _ => simp
  | ok region => by_cases absent : region.sampleFile = "" <;> simp [absent]

namespace Build

theorem report_place {before : List Section} {build : Build}
    (scope : build.scope = before.foldl Scope.enter {}) (part : Section) :
    (build.place part).report =
      ((Section.rejection? before part).toList.map Incident.rejected).foldl Report.meet
        build.report := by
  rw [place, scope]
  cases made : (before.foldl Scope.enter {}).region part with
  | error error => rw [Scope.region_eq_error_iff.mp made]; rfl
  | ok region =>
    have accepted : Section.rejection? before part = none := by
      rw [Option.eq_none_iff_forall_ne_some]
      intro error rejected
      rw [Scope.region_eq_error_iff.mpr rejected] at made
      cases made
    rw [accepted]
    rfl

theorem report_step {before : List Section} {build : Build}
    (scope : build.scope = before.foldl Scope.enter {}) (part : Section) :
    (build.step part).report =
      (Section.incidentsAt before part).foldl Report.meet build.report := by
  rw [step, Section.incidentsAt, Section.observed, Section.rejectionsAt, List.foldl_append]
  by_cases compiled : part.type.isCompiled
  · rw [if_pos compiled, if_pos compiled, Report.foldl_meet_assigned]
    by_cases region : part.type = .region
    · have unchanged : build.scope.enter part = before.foldl Scope.enter {} := by
        rw [Scope.enter, region, scope]
      rw [if_pos region, if_pos region]
      exact report_place unchanged part
    · rw [if_neg region, if_neg region]
      rfl
  · have other : part.type ≠ .region := by
      intro region
      rw [region] at compiled
      exact compiled rfl
    rw [if_neg compiled, if_neg compiled, if_neg other]
    rfl

end Build

namespace Incident

def assignment? : Incident → Option Assignment
  | assigned assignment => some assignment
  | rejected _ => none

def rejection? : Incident → Option Region.Error
  | assigned _ => none
  | rejected error => some error

def assignments (incidents : List Incident) : List Assignment :=
  incidents.filterMap assignment?

def unknownKeys (incidents : List Incident) : List String :=
  ((assignments incidents).filter fun assignment => assignment.Unknown).map Assignment.key

/-- The warnings of an incident behind others. Of what was recorded before them all only the keys
outside the schema count. -/
def warningsAt (start : Diagnostics) (before : List Incident) : Incident → List Warning
  | rejected error => [.regionRejected error]
  | assigned assignment =>
    match assignment.issue? with
    | none => []
    | some .unconvertible => [.unconvertible assignment]
    | some .unmapped => [.unmapped assignment]
    | some .unrecognized =>
      if start.warnUnrecognized ∧ assignment.key ∉ start.unrecognized ∧
          assignment.key ∉ unknownKeys before then
        [.unrecognized assignment.key]
      else
        []

def warnings (start : Diagnostics) (incidents : List Incident) : List Warning :=
  inOrder (warningsAt start) incidents

end Incident

namespace Diagnostics

theorem warnUnrecognized_note (diagnostics : Diagnostics) (assignment : Assignment) :
    (diagnostics.note assignment).warnUnrecognized = diagnostics.warnUnrecognized := by
  unfold note
  split <;> rfl

theorem foldl_note_setting (diagnostics : Diagnostics) (setting : Bool)
    (assignments : List Assignment) :
    assignments.foldl note { diagnostics with warnUnrecognized := setting } =
      { assignments.foldl note diagnostics with warnUnrecognized := setting } := by
  induction assignments generalizing diagnostics with
  | nil => rfl
  | cons assignment rest ih =>
    have noted : note { diagnostics with warnUnrecognized := setting } assignment =
        { note diagnostics assignment with warnUnrecognized := setting } := by
      unfold note
      split <;> rfl
    rw [List.foldl_cons, List.foldl_cons, noted, ih]

theorem warnUnrecognized_foldl_note (diagnostics : Diagnostics) (assignments : List Assignment) :
    (assignments.foldl note diagnostics).warnUnrecognized = diagnostics.warnUnrecognized := by
  induction assignments generalizing diagnostics with
  | nil => rfl
  | cons assignment rest ih => rw [List.foldl_cons, ih, warnUnrecognized_note]

end Diagnostics

namespace Incident

theorem assignments_append (first second : List Incident) :
    assignments (first ++ second) = assignments first ++ assignments second :=
  List.filterMap_append

theorem unknownKeys_append (first second : List Incident) :
    unknownKeys (first ++ second) = unknownKeys first ++ unknownKeys second := by
  simp only [unknownKeys, assignments_append, List.filter_append, List.map_append]

theorem warnings_concat (start : Diagnostics) (incidents : List Incident) (last : Incident) :
    warnings start (incidents ++ [last]) =
      warnings start incidents ++ warningsAt start incidents last :=
  inOrder_concat (warningsAt start) incidents last

theorem mem_unknownKeys {incidents : List Incident} {name : String} :
    name ∈ unknownKeys incidents ↔
      ∃ assignment ∈ assignments incidents, assignment.Unknown ∧ name = assignment.key := by
  rw [unknownKeys, List.mem_map]
  constructor
  · rintro ⟨assignment, kept, rfl⟩
    rw [List.mem_filter, decide_eq_true_iff] at kept
    exact ⟨assignment, kept.1, kept.2, rfl⟩
  · rintro ⟨assignment, member, unknown, rfl⟩
    exact ⟨assignment, List.mem_filter.mpr ⟨member, decide_eq_true unknown⟩, rfl⟩

end Incident

namespace Report

theorem diagnostics_foldl_meet (report : Report) (incidents : List Incident) :
    (incidents.foldl meet report).diagnostics =
      (Incident.assignments incidents).foldl Diagnostics.note report.diagnostics := by
  induction incidents generalizing report with
  | nil => rfl
  | cons incident rest ih =>
    rw [List.foldl_cons, ih]
    cases incident with
    | assigned assignment => 
      rw [meet, diagnostics_observe]
      rfl
    | rejected error => rfl

theorem mem_unrecognized_foldl_meet {report : Report} {incidents : List Incident} {name : String} :
    name ∈ (incidents.foldl meet report).diagnostics.unrecognized ↔
      name ∈ report.diagnostics.unrecognized ∨ name ∈ Incident.unknownKeys incidents := by
  rw [diagnostics_foldl_meet, Incident.mem_unknownKeys]
  exact Diagnostics.mem_foldl_note (fun _ _ => Diagnostics.mem_note_unrecognized) _ _

theorem warnUnrecognized_foldl_meet (report : Report) (incidents : List Incident) :
    (incidents.foldl meet report).diagnostics.warnUnrecognized =
      report.diagnostics.warnUnrecognized := by
  rw [diagnostics_foldl_meet, Diagnostics.warnUnrecognized_foldl_note]

theorem isNew_foldl_meet {report : Report} {incidents : List Incident} {name : String} :
    (incidents.foldl meet report).isNew name ↔
      name ∉ report.diagnostics.unrecognized ∧ name ∉ Incident.unknownKeys incidents := by
  rw [← not_or, ← mem_unrecognized_foldl_meet, isNew, Bool.not_eq_true', ← Bool.not_eq_true]
  rfl

theorem warnings_noteUnrecognized (report : Report) (name : String) :
    (report.noteUnrecognized name).warnings.toList =
      report.warnings.toList ++
        if report.diagnostics.warnUnrecognized ∧ report.isNew name then
          [.unrecognized name]
        else
          [] := by
  rw [noteUnrecognized]
  by_cases reported : report.diagnostics.warnUnrecognized ∧ report.isNew name
  · rw [if_pos reported, if_pos (Bool.and_eq_true_iff.mpr reported)]
    exact Array.toList_push
  · rw [if_neg reported, if_neg (mt Bool.and_eq_true_iff.mp reported), List.append_nil]

/-- What one incident adds to the warnings is known from the incidents before it. -/
theorem warnings_meet (report : Report) (before : List Incident) (incident : Incident) :
    ((before.foldl meet report).meet incident).warnings.toList =
      (before.foldl meet report).warnings.toList ++
        Incident.warningsAt report.diagnostics before incident := by
  cases incident with
  | rejected error => exact Array.toList_push
  | assigned assignment =>
    rw [meet, observe, Incident.warningsAt]
    rcases assignment.issue? with _ | _ | _ | _
    · exact (List.append_nil _).symm
    · simp only [warnings_noteUnrecognized, warnUnrecognized_foldl_meet, isNew_foldl_meet]
    · exact Array.toList_push
    · exact Array.toList_push

theorem warnings_foldl_meet (report : Report) (incidents : List Incident) :
    (incidents.foldl meet report).warnings.toList =
      report.warnings.toList ++ Incident.warnings report.diagnostics incidents := by
  induction incidents using List.reverseRecOn with
  | nil => exact (List.append_nil _).symm
  | append_singleton incidents last ih =>
    rw [List.foldl_concat, warnings_meet, ih, Incident.warnings_concat, List.append_assoc]

end Report

namespace Warning

def unrecognized? : Warning → Option String
  | unrecognized name => some name
  | _ => none

def badValue? : Warning → Option Assignment
  | unconvertible assignment | unmapped assignment => some assignment
  | _ => none

def rejection? : Warning → Option Region.Error
  | regionRejected error => some error
  | _ => none

theorem count_unrecognized (warnings : List Warning) (name : String) :
    warnings.count (.unrecognized name) = (warnings.filterMap unrecognized?).count name := by
  induction warnings with
  | nil => rfl
  | cons warning rest ih =>
    cases warning <;> simp [List.count_cons, List.filterMap_cons, unrecognized?, ih]

end Warning

namespace Incident

variable (start : Diagnostics)

theorem unknownKeys_assigned (assignment : Assignment) :
    unknownKeys [.assigned assignment] =
      if assignment.issue? = some .unrecognized then [assignment.key] else [] := by
  simp only [Assignment.issue?_eq_unrecognized_iff]
  by_cases unknown : assignment.Unknown <;> simp [unknownKeys, assignments, assignment?, unknown]

theorem unrecognized_warningsAt (before : List Incident) (incident : Incident) :
    (warningsAt start before incident).filterMap Warning.unrecognized? =
      (unknownKeys [incident]).filter fun name =>
        start.warnUnrecognized ∧ name ∉ start.unrecognized ∧ name ∉ unknownKeys before := by
  cases incident with
  | rejected error => rfl
  | assigned assignment =>
    rw [unknownKeys_assigned, warningsAt]
    rcases assignment.issue? with _ | _ | _ | _
    · rfl
    · by_cases reported : start.warnUnrecognized ∧ assignment.key ∉ start.unrecognized ∧
          assignment.key ∉ unknownKeys before <;>
        simp [reported, Warning.unrecognized?]
    · rfl
    · rfl

/-- A key outside the schema is reported at its first appearance. -/
theorem unrecognized_warnings (asked : start.warnUnrecognized) (incidents : List Incident) :
    (warnings start incidents).filterMap Warning.unrecognized? =
      ((unknownKeys incidents).filter fun name => name ∉ start.unrecognized).eraseDups := by
  induction incidents using List.reverseRecOn with
  | nil => rfl
  | append_singleton incidents last ih =>
    rw [warnings_concat, List.filterMap_append, ih, unrecognized_warningsAt, unknownKeys_append,
      List.filter_append]
    have alone : unknownKeys [last] = [] ∨ ∃ name, unknownKeys [last] = [name] := by
      cases last with
      | rejected error => exact .inl rfl
      | assigned assignment =>
        rw [unknownKeys_assigned]
        split
        · exact .inr ⟨_, rfl⟩
        · exact .inl rfl
    rcases alone with none | ⟨name, one⟩
    · rw [none, List.filter_nil, List.filter_nil, List.append_nil, List.append_nil]
    · rw [one]
      by_cases known : name ∈ start.unrecognized
      · simp [known]
      · have kept : [name].filter (fun name => name ∉ start.unrecognized) = [name] := by
          simp [known]
        rw [kept, eraseDups_concat]
        by_cases seen : name ∈ unknownKeys incidents <;> simp [seen, known, asked]

theorem unrecognized_warnings_of_quiet (quiet : start.warnUnrecognized = false)
    (incidents : List Incident) :
    (warnings start incidents).filterMap Warning.unrecognized? = [] := by
  have each (before : List Incident) (incident : Incident) :
      (warningsAt start before incident).filterMap Warning.unrecognized? = [] := by
    rw [unrecognized_warningsAt]
    simp [quiet]
  rw [warnings, filterMap_inOrder_of_each each]
  exact List.flatMap_eq_nil_iff.mpr fun _ _ => rfl

theorem badValue_warnings (incidents : List Incident) :
    (warnings start incidents).filterMap Warning.badValue? =
      (assignments incidents).filter fun assignment => assignment.Bad := by
  have each (before : List Incident) (incident : Incident) :
      (warningsAt start before incident).filterMap Warning.badValue? =
        incident.assignment?.toList.filter fun assignment => assignment.Bad := by
    cases incident with
    | rejected error => rfl
    | assigned assignment =>
      have alone : [assignment].filter (fun assignment => assignment.Bad) =
          if assignment.issue? = some .unconvertible ∨ assignment.issue? = some .unmapped then
            [assignment]
          else
            [] := by
        simp only [Assignment.issue?_bad_iff]
        by_cases bad : assignment.Bad <;> simp [bad]
      rw [assignment?, Option.toList_some, alone, warningsAt]
      rcases assignment.issue? with _ | _ | _ | _
      · rfl
      · dsimp only
        split <;> rfl
      · rfl
      · rfl
  rw [warnings, filterMap_inOrder_of_each each, assignments, List.filterMap_eq_flatMap_toList,
    List.filter_flatMap]

theorem rejection_warnings (incidents : List Incident) :
    (warnings start incidents).filterMap Warning.rejection? =
      incidents.filterMap rejection? := by
  have each (before : List Incident) (incident : Incident) :
      (warningsAt start before incident).filterMap Warning.rejection? =
        incident.rejection?.toList := by
    cases incident with
    | rejected error => rfl
    | assigned assignment =>
      rw [warningsAt]
      rcases assignment.issue? with _ | _ | _ | _
      · rfl
      · dsimp only
        split <;> rfl
      · rfl
      · rfl
  rw [warnings, filterMap_inOrder_of_each each, List.filterMap_eq_flatMap_toList]

end Incident

namespace Section

theorem assignments_incidents (sections : List Section) :
    Incident.assignments (incidents sections) = sections.flatMap observed := by
  have each (before : List Section) (part : Section) :
      (incidentsAt before part).filterMap Incident.assignment? = part.observed := by
    have first : (part.observed.map Incident.assigned).filterMap Incident.assignment? =
        part.observed := by
      rw [List.filterMap_map]
      exact List.filterMap_some
    have second : ((rejectionsAt before part).map Incident.rejected).filterMap
        Incident.assignment? = [] := by
      rw [List.filterMap_map]
      exact List.filterMap_none _
    rw [incidentsAt, List.filterMap_append, first, second, List.append_nil]
  rw [Incident.assignments, incidents, filterMap_inOrder_of_each each]

theorem rejection_incidents (sections : List Section) :
    (incidents sections).filterMap Incident.rejection? = rejections sections := by
  have alone (before : List Section) (part : Section) :
      (incidentsAt before part).filterMap Incident.rejection? = rejectionsAt before part := by
    have first : (part.observed.map Incident.assigned).filterMap Incident.rejection? = [] := by
      rw [List.filterMap_map]
      exact List.filterMap_none _
    have second : ((rejectionsAt before part).map Incident.rejected).filterMap
        Incident.rejection? = rejectionsAt before part := by
      rw [List.filterMap_map]
      exact List.filterMap_some
    rw [incidentsAt, List.filterMap_append, first, second, List.nil_append]
  rw [incidents, filterMap_inOrder, rejections]
  simp only [alone]

end Section

namespace Instrument

theorem report_ofSections (sections : List Section) (report : Report) :
    (ofSections sections report).2 = (Section.incidents sections).foldl Report.meet report := by
  change (sections.foldl Build.step { report }).report = _
  induction sections using List.reverseRecOn with
  | nil => rfl
  | append_singleton sections last ih =>
    have scope := Build.scope_foldl_step sections { report }
    rw [List.foldl_concat, Build.report_step scope, ih, Section.incidents_concat, List.foldl_append]

def reportAfter (report : Report) (builds : List (List Section)) : Report :=
  builds.foldl (fun report sections => (ofSections sections report).2) report

theorem reportAfter_eq_foldl_meet (report : Report) (builds : List (List Section)) :
    reportAfter report builds = (builds.flatMap Section.incidents).foldl Report.meet report := by
  induction builds generalizing report with
  | nil => rfl
  | cons sections rest ih =>
    rw [List.flatMap_cons, List.foldl_append, ← report_ofSections, ← ih]
    rfl

def observed (builds : List (List Section)) : List Assignment :=
  builds.flatMap fun sections => sections.flatMap Section.observed

def warningsAfter (report : Report) (builds : List (List Section)) : List Warning :=
  Incident.warnings report.diagnostics (builds.flatMap Section.incidents)

theorem assignments_incidents (builds : List (List Section)) :
    Incident.assignments (builds.flatMap Section.incidents) = observed builds := by
  rw [Incident.assignments, List.filterMap_flatMap]
  exact List.flatMap_congr fun sections _ => Section.assignments_incidents sections

theorem warnings_reportAfter (report : Report) (builds : List (List Section)) :
    (reportAfter report builds).warnings.toList =
      report.warnings.toList ++ warningsAfter report builds := by
  rw [reportAfter_eq_foldl_meet, Report.warnings_foldl_meet, warningsAfter]

theorem diagnostics_reportAfter (report : Report) (builds : List (List Section)) :
    (reportAfter report builds).diagnostics =
      (observed builds).foldl Diagnostics.note report.diagnostics := by
  rw [reportAfter_eq_foldl_meet, Report.diagnostics_foldl_meet, assignments_incidents]

/-- The warnings of builds that share a report, told from the sections. They come in the order of
the assignments, with the rejection of a section behind its own. A key outside the schema is warned
of at its first appearance, and a bad value where it stands, not where it is inherited. -/
structure Warns (report : Report) (builds : List (List Section)) : Prop where
  issued : (reportAfter report builds).warnings.toList =
    report.warnings.toList ++ warningsAfter report builds
  unrecognized : report.diagnostics.warnUnrecognized →
    (warningsAfter report builds).filterMap Warning.unrecognized? =
      ((((observed builds).filter fun assignment => assignment.Unknown).map Assignment.key).filter
        fun name => name ∉ report.diagnostics.unrecognized).eraseDups
  once : report.diagnostics.warnUnrecognized → ∀ name : String,
    (warningsAfter report builds).count (.unrecognized name) =
      if name ∉ report.diagnostics.unrecognized ∧
          ∃ assignment ∈ observed builds, assignment.Unknown ∧ name = assignment.key then
        1
      else
        0
  silent : report.diagnostics.warnUnrecognized = false →
    (warningsAfter report builds).filterMap Warning.unrecognized? = []
  recorded (setting : Bool) :
    (reportAfter { report with diagnostics.warnUnrecognized := setting } builds).diagnostics =
      { (reportAfter report builds).diagnostics with warnUnrecognized := setting }
  badValues : (warningsAfter report builds).filterMap Warning.badValue? =
    (observed builds).filter fun assignment => assignment.Bad
  rejections : (warningsAfter report builds).filterMap Warning.rejection? =
    builds.flatMap Section.rejections
  rejected (before : List Section) (part : Section) :
    (Section.rejection? before part).isSome ↔ Section.declared? before part = none
  regions (sections : List Section) (shared : Report) :
    (ofSections sections shared).1.regions.toList = Section.declaredRegions sections
  looked (part : Section) : part.type ≠ .curve → part.type ≠ .effect →
    part.observed = part.assignments
  skipped (before : List Section) (part : Section) : part.type = .curve ∨ part.type = .effect →
    Section.incidentsAt before part = []

/-- Builds that share a report warn of a key outside the schema once in all, of a bad value as often
as it is written, and of a region section without a region once. -/
theorem warns_reportAfter (report : Report) (builds : List (List Section)) :
    Warns report builds := by
  have first (asked : report.diagnostics.warnUnrecognized) :=
    Incident.unrecognized_warnings report.diagnostics asked (builds.flatMap Section.incidents)
  constructor
  case issued => exact warnings_reportAfter report builds
  case unrecognized =>
    intro asked
    rw [warningsAfter, first asked, Incident.unknownKeys, assignments_incidents]
  case once =>
    intro asked name
    rw [Warning.count_unrecognized, warningsAfter, first asked, (nodup_eraseDups _).count]
    apply if_congr _ rfl rfl
    rw [List.mem_eraseDups, List.mem_filter, decide_eq_true_iff, Incident.mem_unknownKeys,
      assignments_incidents, and_comm]
  case silent =>
    intro quiet
    exact Incident.unrecognized_warnings_of_quiet report.diagnostics quiet _
  case recorded =>
    intro setting
    rw [diagnostics_reportAfter, diagnostics_reportAfter]
    exact Diagnostics.foldl_note_setting report.diagnostics setting (observed builds)
  case badValues =>
    rw [warningsAfter, Incident.badValue_warnings, assignments_incidents]
  case rejections =>
    rw [warningsAfter, Incident.rejection_warnings, List.filterMap_flatMap]
    exact List.flatMap_congr fun sections _ => Section.rejection_incidents sections
  case rejected =>
    intro before part
    rw [← Option.not_isSome_iff_eq_none, ← Section.rejection?_eq_none_iff,
      Option.isSome_iff_ne_none]
  case regions => exact regions_ofSections
  case looked =>
    intro part curve effect
    rw [Section.observed]
    cases type : part.type with
    | curve => exact absurd type curve
    | effect => exact absurd type effect
    | _ => rfl
  case skipped =>
    intro before part other
    rw [Section.incidentsAt, Section.observed, Section.rejectionsAt]
    rcases other with type | type <;> rw [type] <;> rfl

end Instrument

end Sfz

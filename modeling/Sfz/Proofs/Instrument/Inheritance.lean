import Mathlib.Data.List.Basic
import Mathlib.Data.List.Induction
import Sfz.Instrument.Build

/-! What an instrument is made of, said on the list of its sections.

The loader carries a scope from section to section and lays compiled tables over one another. Here
a region is described by the sections before it: the last one of each kind that reaches it, their
assignments in one list, and the last default path. The scope after any sections is the compiled
form of that description.
-/

set_option autoImplicit false

namespace Sfz

theorem Assignment.ite_converted? {opcode : Opcode} {name : String}
    (named : opcode.name? = some name) (assignment : Assignment) :
    (if Opcode.ofName assignment.key = opcode then assignment.converted? else none) =
      if assignment.key = name then Value.convert? opcode.valueType assignment.value
      else none := by
  have recognized : opcode ≠ .unrecognized := by
    rintro rfl
    cases named
  by_cases same : assignment.key = name
  · have known : Opcode.ofName assignment.key = opcode := Opcode.ofName_of_name? (same ▸ named)
    rw [if_pos known, if_pos same, converted?, ValueType.ofKey, known]
  · rw [if_neg same, if_neg]
    intro known
    rw [Opcode.ofName_eq_iff recognized, named, Option.some.injEq] at known
    exact same known.symm

namespace OpcodeTable

/-- The value of an opcode is that of the last assignment to it that converts. -/
theorem get?_compile (assignments : List Assignment) (opcode : Opcode) :
    (compile assignments).get? opcode =
      assignments.reverse.findSome? fun assignment =>
        if Opcode.ofName assignment.key = opcode then assignment.converted? else none := by
  induction assignments using List.reverseRecOn with
  | nil => exact get?_empty opcode
  | append_singleton assignments last ih =>
    have split : compile (assignments ++ [last]) = (compile assignments).assign last := by
      simp only [compile, assignAll, List.foldl_append, List.foldl_cons, List.foldl_nil]
    rw [split, List.reverse_append, List.reverse_singleton, List.singleton_append,
      List.findSome?_cons, ← ih, assign]
    cases converted : last.converted? with
    | none => simp only [ite_self]
    | some value =>
      by_cases same : Opcode.ofName last.key = opcode
      · simp only [get?_insert, same, if_true]
      · simp only [get?_insert, same, Ne.symm same, if_false]

theorem get?_compile_of_name? {opcode : Opcode} {name : String} (named : opcode.name? = some name)
    (assignments : List Assignment) :
    (compile assignments).get? opcode =
      assignments.reverse.findSome? fun assignment =>
        if assignment.key = name then Value.convert? opcode.valueType assignment.value
        else none := by
  simp only [get?_compile, Assignment.ite_converted? named]

theorem string?_compile {opcode : Opcode} {name : String} (named : opcode.name? = some name)
    (string : opcode.valueType = .string) (assignments : List Assignment) :
    (compile assignments).string? opcode =
      (assignments.reverse.find? fun assignment => assignment.key = name).map fun assignment =>
        assignment.value := by
  rw [string?, get?_compile_of_name? named, string]
  induction assignments.reverse with
  | nil => rfl
  | cons assignment rest ih =>
    by_cases same : assignment.key = name
    · simp only [List.findSome?_cons, List.find?_cons, same, if_true, decide_true]
      rfl
    · simpa only [List.findSome?_cons, List.find?_cons, same, if_false, decide_false] using ih

-- An assignment that does not convert takes nothing away, wherever it stands.
theorem compile_skip {assignment : Assignment} (unconvertible : assignment.converted? = none)
    (before after : List Assignment) :
    compile (before ++ assignment :: after) = compile (before ++ after) := by
  simp only [compile, assignAll, List.foldl_append, List.foldl_cons, assign, unconvertible]

end OpcodeTable

namespace Section

def lastOf (type : SectionType) (sections : List Section) : List Assignment :=
  match sections.reverse.find? fun part => part.type = type with
  | none => []
  | some part => part.assignments

def sinceMaster (sections : List Section) : List Section :=
  (sections.reverse.takeWhile fun part => part.type ≠ .master).reverse

def lastDefaultPath (sections : List Section) : String :=
  let controls := sections.filter fun part => part.type = .control
  let assignments := controls.flatMap fun part => part.assignments
  let last? := assignments.reverse.find? fun assignment => assignment.key = "default_path"
  (last?.map fun assignment => assignment.value).getD ""

def inherited (before : List Section) : List Assignment :=
  lastOf .global before ++ lastOf .master before ++ lastOf .group (sinceMaster before)

/-- The region that a region section describes, if its opcodes make one and it has a sample. -/
def declared? (before : List Section) (part : Section) : Option Region :=
  match Region.ofOpcodes (.compile (inherited before ++ part.assignments)) part.line with
  | .error _ => none
  | .ok region =>
    if region.sampleFile = "" then
      none
    else
      some { region with
        sampleFile := SamplePath.combine (lastDefaultPath before) region.sampleFile }

def declaredRegions (sections : List Section) : List Region :=
  sections.zipIdx.filterMap fun (part, position) =>
    if part.type = .region then declared? (sections.take position) part else none

section Concat

variable (sections : List Section) (last : Section)

theorem lastOf_concat (type : SectionType) :
    lastOf type (sections ++ [last]) =
      if last.type = type then last.assignments else lastOf type sections := by
  simp only [lastOf, List.reverse_append, List.reverse_singleton, List.singleton_append,
    List.find?_cons]
  by_cases same : last.type = type
  · simp only [same, decide_true, if_true]
  · simp only [same, decide_false, if_false]

theorem sinceMaster_concat :
    sinceMaster (sections ++ [last]) =
      if last.type = .master then [] else sinceMaster sections ++ [last] := by
  simp only [sinceMaster, List.reverse_append, List.reverse_singleton, List.singleton_append,
    List.takeWhile_cons]
  by_cases same : last.type = .master
  · simp only [same, ne_eq, not_true_eq_false, decide_false, Bool.false_eq_true, if_false,
      List.reverse_nil, if_true]
  · simp only [same, ne_eq, not_false_eq_true, decide_true, if_true, List.reverse_cons, if_false]

theorem lastDefaultPath_concat :
    lastDefaultPath (sections ++ [last]) =
      if last.type = .control then
        ((OpcodeTable.compile last.assignments).string? .defaultPath).getD
          (lastDefaultPath sections)
      else
        lastDefaultPath sections := by
  by_cases control : last.type = .control
  · have path := @OpcodeTable.string?_compile .defaultPath _ rfl rfl last.assignments
    have only : [last].filter (fun part => part.type = .control) = [last] := by
      simp only [List.filter_cons, control, decide_true, if_true, List.filter_nil]
    rw [if_pos control, path]
    simp only [lastDefaultPath, List.filter_append, only, List.flatMap_append,
      List.flatMap_singleton, List.reverse_append, List.find?_append]
    cases last.assignments.reverse.find? fun assignment => assignment.key = "default_path" with
    | none => rfl
    | some assignment => rfl
  · have none : [last].filter (fun part => part.type = .control) = [] := by
      simp only [List.filter_cons, control, decide_false, Bool.false_eq_true, if_false,
        List.filter_nil]
    rw [if_neg control, lastDefaultPath, lastDefaultPath, List.filter_append, none,
      List.append_nil]

theorem declaredRegions_concat :
    declaredRegions (sections ++ [last]) =
      declaredRegions sections ++
        if last.type = .region then (declared? sections last).toList else [] := by
  unfold declaredRegions
  rw [List.zipIdx_append, List.filterMap_append]
  congr 1
  · apply List.filterMap_congr
    rintro ⟨part, position⟩ member
    have inside : position ≤ sections.length := by
      have := List.mem_zipIdx' member
      omega
    simp only [List.take_append_of_le_length inside]
  · have whole : (sections ++ [last]).take sections.length = sections := List.take_left
    by_cases region : last.type = .region
    · cases described : declared? sections last <;> simp [region, described]
    · simp [region]

end Concat

end Section

theorem Scope.foldl_enter (sections : List Section) :
    sections.foldl Scope.enter {} =
      { defaultPath := Section.lastDefaultPath sections
        global := .compile (Section.lastOf .global sections)
        master := .compile (Section.lastOf .master sections)
        group := .compile (Section.lastOf .group (Section.sinceMaster sections)) } := by
  induction sections using List.reverseRecOn with
  | nil => rfl
  | append_singleton sections last ih =>
    rw [List.foldl_append, List.foldl_cons, List.foldl_nil, ih]
    rw [Section.lastDefaultPath_concat, Section.lastOf_concat, Section.lastOf_concat,
      Section.sinceMaster_concat]
    -- a master section ends the group in force, which the list says by `sinceMaster`
    cases type : last.type with
    | master => simp only [Scope.enter, type, reduceCtorEq, if_true, if_false]; rfl
    | _ => simp only [Scope.enter, type, reduceCtorEq, if_true, if_false, Section.lastOf_concat]

/-- The region of a section, told from the assignments before it in one list. -/
theorem Scope.region_eq_ofOpcodes (before : List Section) (part : Section) :
    (before.foldl Scope.enter {}).region part =
      match Region.ofOpcodes (.compile (Section.inherited before ++ part.assignments))
        part.line with
      | .error error => .error error
      | .ok region =>
        if region.sampleFile = "" then
          .error { fault := .noSample, line := part.line + 1 }
        else
          .ok { region with
            sampleFile :=
              SamplePath.combine (Section.lastDefaultPath before) region.sampleFile } := by
  -- the tables laid over one another are the table of the assignments in a row
  have merged : (OpcodeTable.compile part.assignments).overlay
      (before.foldl Scope.enter {}).inherited =
        .compile (Section.inherited before ++ part.assignments) := by
    simp only [Scope.foldl_enter, Scope.inherited, Section.inherited, OpcodeTable.compile_append]
  have path : (before.foldl Scope.enter {}).defaultPath = Section.lastDefaultPath before := by
    rw [Scope.foldl_enter]
  rw [Scope.region, merged, path]
  cases Region.ofOpcodes (.compile (Section.inherited before ++ part.assignments)) part.line with
  | error _ => rfl
  | ok region => rfl

theorem Scope.region_foldl_enter (before : List Section) (part : Section) :
    ((before.foldl Scope.enter {}).region part).toOption = Section.declared? before part := by
  rw [Scope.region_eq_ofOpcodes, Section.declared?]
  cases Region.ofOpcodes (.compile (Section.inherited before ++ part.assignments)) part.line with
  | error _ => rfl
  | ok region =>
    by_cases absent : region.sampleFile = ""
    · simp only [absent, if_true]
      rfl
    · simp only [absent, if_false]
      rfl

-- A global section stays in force until the next one and leaves everything else as it is.
theorem Scope.foldl_enter_global (before between : List Section) {part : Section}
    (global : part.type = .global) (last : ∀ other ∈ between, other.type ≠ .global) :
    (before ++ part :: between).foldl Scope.enter {} =
      { (before ++ between).foldl Scope.enter {} with
        global := .compile part.assignments } := by
  rw [List.foldl_append, List.foldl_append, List.foldl_cons]
  have entered (scope : Scope) :
      scope.enter part = { scope with global := .compile part.assignments } := by
    simp only [Scope.enter, global]
  rw [entered]
  generalize before.foldl Scope.enter {} = scope
  induction between generalizing scope with
  | nil => rfl
  | cons other rest ih =>
    have passed : { scope with global := .compile part.assignments }.enter other =
        { scope.enter other with global := .compile part.assignments } := by
      have differs := last other List.mem_cons_self
      cases type : other.type with
      | global => exact absurd type differs
      | _ => simp only [Scope.enter, type]
    rw [List.foldl_cons, List.foldl_cons, passed]
    exact ih (fun other member => last other (List.mem_cons_of_mem _ member)) _

namespace Build

theorem scope_place (build : Build) (part : Section) : (build.place part).scope = build.scope := by
  unfold place
  split <;> rfl

theorem assembly_place (build : Build) (part : Section) :
    (build.place part).assembly =
      (build.scope.region part).toOption.toList.foldl Assembly.add build.assembly := by
  unfold place
  cases build.scope.region part with
  | ok region => rfl
  | error error => rfl

theorem scope_step (build : Build) (part : Section) :
    (build.step part).scope = build.scope.enter part := by
  rw [step]
  by_cases compiled : part.type.isCompiled
  · rw [if_pos compiled]
    by_cases region : part.type = .region
    · rw [if_pos region, scope_place]
    · rw [if_neg region]
  · rw [if_neg compiled, Scope.enter]
    cases type : part.type with
    | curve | effect => rfl
    | _ => exact absurd (by rw [type]; rfl) compiled

theorem assembly_step (build : Build) (part : Section) :
    (build.step part).assembly =
      if part.type = .region then
        (build.scope.region part).toOption.toList.foldl Assembly.add build.assembly
      else
        build.assembly := by
  rw [step]
  by_cases region : part.type = .region
  · have unchanged : build.scope.enter part = build.scope := by rw [Scope.enter, region]
    rw [if_pos (by rw [region]; rfl), if_pos region, if_pos region, assembly_place]
    simp only [unchanged]
  · rw [if_neg region, if_neg region]
    split <;> rfl

theorem scope_foldl_step (sections : List Section) (build : Build) :
    (sections.foldl step build).scope = sections.foldl Scope.enter build.scope := by
  induction sections generalizing build with
  | nil => rfl
  | cons part rest ih => rw [List.foldl_cons, List.foldl_cons, ih, scope_step]

-- What has been reported so far has no part in the instrument.
theorem assembly_foldl_step {first second : Build} (scope : first.scope = second.scope)
    (assembly : first.assembly = second.assembly) (sections : List Section) :
    (sections.foldl step first).assembly = (sections.foldl step second).assembly := by
  induction sections generalizing first second with
  | nil => exact assembly
  | cons part rest ih =>
    apply ih
    · rw [scope_step, scope_step, scope]
    · rw [assembly_step, assembly_step, scope, assembly]

end Build

namespace Assembly

theorem sampleIndexFor_of_cached {assembly : Assembly} {file : String} {index : Nat}
    (cached : assembly.cache[file]? = some index) :
    assembly.sampleIndexFor file = (index, assembly) := by
  rw [sampleIndexFor, cached]

theorem sampleIndexFor_of_new {assembly : Assembly} {file : String}
    (new : assembly.cache[file]? = none) :
    assembly.sampleIndexFor file =
      (assembly.instrument.sampleFiles.size + 1,
        { instrument :=
            { assembly.instrument with sampleFiles := assembly.instrument.sampleFiles.push file }
          cache := assembly.cache.insert file (assembly.instrument.sampleFiles.size + 1) }) := by
  rw [sampleIndexFor, new]
  simp only [Array.size_push]

theorem regions_add (assembly : Assembly) (region : Region) :
    (assembly.add region).instrument.regions = assembly.instrument.regions.push region := by
  cases cached : assembly.cache[region.sampleFile]? with
  | some index => rw [add, sampleIndexFor_of_cached cached]
  | none => rw [add, sampleIndexFor_of_new cached]

theorem regions_foldl_add (regions : List Region) (assembly : Assembly) :
    (regions.foldl add assembly).instrument.regions.toList =
      assembly.instrument.regions.toList ++ regions := by
  induction regions generalizing assembly with
  | nil => exact (List.append_nil _).symm
  | cons region rest ih =>
    rw [List.foldl_cons, ih, regions_add, Array.toList_push, List.append_assoc,
      List.singleton_append]

end Assembly

namespace Instrument

theorem ofSections_eq_foldl_add (sections : List Section) (report : Report) :
    (ofSections sections report).1 =
      ((Section.declaredRegions sections).foldl Assembly.add {}).instrument := by
  have same : (sections.foldl Build.step { report }).assembly =
      (Section.declaredRegions sections).foldl Assembly.add {} := by
    induction sections using List.reverseRecOn with
    | nil => rfl
    | append_singleton sections last ih =>
      rw [List.foldl_append, List.foldl_cons, List.foldl_nil, Section.declaredRegions_concat,
        List.foldl_append, ← ih, Build.assembly_step, Build.scope_foldl_step,
        Scope.region_foldl_enter]
      split <;> rfl
  exact congrArg Assembly.instrument same

theorem regions_ofSections (sections : List Section) (report : Report) :
    (ofSections sections report).1.regions.toList = Section.declaredRegions sections := by
  rw [ofSections_eq_foldl_add, Assembly.regions_foldl_add, List.nil_append]

theorem ofSections_skip {before : List Section} {part : Section} (region : part.type = .region)
    (rejected : Section.declared? before part = none) (after : List Section) (report : Report) :
    (ofSections (before ++ part :: after) report).1 = (ofSections (before ++ after) report).1 := by
  apply congrArg Assembly.instrument
  rw [List.foldl_append, List.foldl_append, List.foldl_cons]
  apply Build.assembly_foldl_step
  · rw [Build.scope_step, Scope.enter, region]
  · rw [Build.assembly_step, if_pos region, Build.scope_foldl_step, Scope.region_foldl_enter,
      rejected]
    rfl

/-- Inheritance is decided by the sections before a region, read as one list of assignments: tables
laid over one another are the table of the list, a value that does not convert leaves the earlier
one, a global section replaces nothing but the last one, and a rejected region leaves no trace. -/
theorem inheritance_declared :
    (∀ (sections : List Section) (report : Report),
      (ofSections sections report).1.regions.toList = Section.declaredRegions sections) ∧
    (∀ first second : List Assignment,
      OpcodeTable.compile (first ++ second) =
        (OpcodeTable.compile second).overlay (OpcodeTable.compile first)) ∧
    (∀ (before after : List Assignment) (assignment : Assignment),
      assignment.converted? = none →
        OpcodeTable.compile (before ++ assignment :: after) =
          OpcodeTable.compile (before ++ after)) ∧
    (∀ (before between : List Section) (part : Section),
      part.type = .global → (∀ other ∈ between, other.type ≠ .global) →
        (before ++ part :: between).foldl Scope.enter {} =
          { (before ++ between).foldl Scope.enter {} with
            global := .compile part.assignments }) ∧
    (∀ (before after : List Section) (part : Section) (report : Report),
      part.type = .region → Section.declared? before part = none →
        (ofSections (before ++ part :: after) report).1 =
          (ofSections (before ++ after) report).1) := by
  refine ⟨regions_ofSections, OpcodeTable.compile_append, ?_, ?_, ?_⟩
  · intro before after assignment unconvertible
    exact OpcodeTable.compile_skip unconvertible before after
  · intro before between part global last
    exact Scope.foldl_enter_global before between global last
  · intro before after part report region rejected
    exact ofSections_skip region rejected after report

end Instrument

end Sfz

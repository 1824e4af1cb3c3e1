import Sfz.Proofs.Instrument.Bounds
import Sfz.Proofs.SamplePath.Spelling

/-! Instruments from sections whose paths are spelled in different ways.

Sections are brought to one spelling by writing every sample and every default path with slashes.
That changes the tables of opcodes, and in them nothing but these two texts; the region of a section
and what is reported of it stay the same. So sections that differ in spelling alone, which have one
and the same form with slashes, make the same instrument.
-/

set_option autoImplicit false

namespace Sfz

def Assignment.pathKeys : List String :=
  ["sample", "default_path"]

/-- To differ at most in how a path is spelled. -/
@[mk_iff]
structure Assignment.Respells (assignment other : Assignment) : Prop where
  key : other.key = assignment.key
  line : other.line = assignment.line
  path : assignment.key ∈ pathKeys → SamplePath.Respells assignment.value other.value
  other : assignment.key ∉ pathKeys → other.value = assignment.value

instance (assignment other : Assignment) : Decidable (assignment.Respells other) :=
  decidable_of_iff _ (Assignment.respells_iff assignment other).symm

@[mk_iff]
structure Section.Respells (part other : Section) : Prop where
  type : other.type = part.type
  line : other.line = part.line
  assignments : List.Forall₂ Assignment.Respells part.assignments other.assignments

instance (part other : Section) : Decidable (part.Respells other) :=
  decidable_of_iff _ (Section.respells_iff part other).symm

/-- The text of the sample that a region section has of its own or inherits. -/
def Section.sample? (before : List Section) (part : Section) : Option String :=
  let assignments := inherited before ++ part.assignments
  (assignments.reverse.find? fun assignment => assignment.key = "sample").map (·.value)

namespace Assignment

def slashed (assignment : Assignment) : Assignment :=
  if assignment.key ∈ pathKeys then
    { assignment with value := SamplePath.normalize assignment.value }
  else
    assignment

theorem Respells.slashed_eq {assignment other : Assignment} (respells : assignment.Respells other) :
    other.slashed = assignment.slashed := by
  rw [slashed, slashed, respells.key]
  split
  · next isPath => rw [(respells.path isPath).normalize_eq, respells.line]
  · next noPath =>
    change (⟨other.key, other.value, other.line⟩ : Assignment) = assignment
    rw [respells.key, respells.line, respells.other noPath]

@[simp] theorem key_slashed (assignment : Assignment) :
    assignment.slashed.key = assignment.key := by
  unfold slashed
  split <;> rfl

theorem slashed_of_mem {assignment : Assignment} (isPath : assignment.key ∈ pathKeys) :
    assignment.slashed =
      { assignment with value := SamplePath.normalize assignment.value } :=
  if_pos isPath

theorem slashed_of_not_mem {assignment : Assignment} (other : assignment.key ∉ pathKeys) :
    assignment.slashed = assignment :=
  if_neg other

theorem valueType_of_mem {key : String} (isPath : key ∈ pathKeys) :
    (Opcode.ofName key).valueType = .string := by
  simp only [pathKeys, List.mem_cons, List.not_mem_nil, or_false] at isPath
  rcases isPath with rfl | rfl <;> rfl

theorem issue?_of_mem {assignment : Assignment} (isPath : assignment.key ∈ pathKeys) :
    assignment.issue? = none := by
  have string := valueType_of_mem isPath
  have known : Opcode.ofName assignment.key ≠ .unrecognized := by
    intro unknown
    rw [unknown] at string
    cases string
  rw [issue?, if_neg known, converted?, ValueType.ofKey, string]
  rfl

end Assignment

theorem Report.observe_slashed (report : Report) (assignment : Assignment) :
    report.observe assignment.slashed = report.observe assignment := by
  by_cases isPath : assignment.key ∈ Assignment.pathKeys
  · have same : assignment.slashed.key ∈ Assignment.pathKeys := assignment.key_slashed ▸ isPath
    rw [observe, observe, Assignment.issue?_of_mem isPath, Assignment.issue?_of_mem same]
  · rw [Assignment.slashed_of_not_mem isPath]

theorem Report.observeAll_slashed (report : Report) (assignments : List Assignment) :
    report.observeAll (assignments.map Assignment.slashed) = report.observeAll assignments := by
  simp only [observeAll, List.foldl_map, observe_slashed]

namespace OpcodeTable

variable (assignments : List Assignment)

theorem get?_compile_slashed {opcode : Opcode} (other : opcode.valueType ≠ .string) :
    (compile (assignments.map Assignment.slashed)).get? opcode =
      (compile assignments).get? opcode := by
  rw [get?_compile, get?_compile, ← List.map_reverse, List.findSome?_map]
  congr 1
  funext assignment
  rw [Function.comp_apply, Assignment.key_slashed]
  by_cases isPath : assignment.key ∈ Assignment.pathKeys
  · have differs : Opcode.ofName assignment.key ≠ opcode := by
      rintro rfl
      exact other (Assignment.valueType_of_mem isPath)
    rw [if_neg differs, if_neg differs]
  · rw [Assignment.slashed_of_not_mem isPath]

theorem string?_compile_slashed {opcode : Opcode} {name : String}
    (named : opcode.name? = some name) (string : opcode.valueType = .string)
    (isPath : name ∈ Assignment.pathKeys) :
    (compile (assignments.map Assignment.slashed)).string? opcode =
      ((compile assignments).string? opcode).map SamplePath.normalize := by
  rw [string?_compile named string, string?_compile named string, ← List.map_reverse,
    List.find?_map, Option.map_map, Option.map_map]
  have keys : (fun assignment : Assignment => decide (assignment.key = name)) ∘
      Assignment.slashed = fun assignment => decide (assignment.key = name) := by
    funext assignment
    rw [Function.comp_apply, Assignment.key_slashed]
  rw [keys]
  apply Option.map_congr
  intro assignment found
  have same : assignment.key = name := by simpa using List.find?_some found
  rw [Function.comp_apply, Function.comp_apply, Assignment.slashed_of_mem (same ▸ isPath)]

end OpcodeTable

namespace Region

theorem draft_slashed (assignments : List Assignment) (line : Nat) :
    draft (.compile (assignments.map Assignment.slashed)) line =
      { draft (.compile assignments) line with
        sampleFile := SamplePath.normalize (draft (.compile assignments) line).sampleFile } := by
  have others {opcode : Opcode} (other : opcode.valueType ≠ .string) :=
    OpcodeTable.get?_compile_slashed assignments other
  have sample := @OpcodeTable.string?_compile_slashed assignments .sample _ rfl rfl (by decide)
  have text (sample? : Option String) : (sample?.map SamplePath.normalize).getD "" =
      SamplePath.normalize (sample?.getD "") := by
    cases sample? <;> rfl
  simp (disch := decide) only [draft, OpcodeTable.int?, OpcodeTable.float?, OpcodeTable.discrete?,
    others, sample, text]

theorem ofOpcodes_slashed (assignments : List Assignment) (line : Nat) :
    ofOpcodes (.compile (assignments.map Assignment.slashed)) line =
      (ofOpcodes (.compile assignments) line).map fun region =>
        { region with sampleFile := SamplePath.normalize region.sampleFile } := by
  have checks : (draft (.compile (assignments.map Assignment.slashed)) line).fault? =
      (draft (.compile assignments) line).fault? := by
    rw [draft_slashed]
    rfl
  rw [ofOpcodes, ofOpcodes, checks, draft_slashed]
  cases (draft (.compile assignments) line).fault? with
  | none => rfl
  | some fault => rfl

end Region

namespace Section

def slashed (part : Section) : Section :=
  { part with assignments := part.assignments.map Assignment.slashed }

theorem Respells.slashed_eq {part other : Section} (respells : part.Respells other) :
    other.slashed = part.slashed := by
  have assignments : other.assignments.map Assignment.slashed =
      part.assignments.map Assignment.slashed := by
    rw [← List.forall₂_eq_eq_eq, List.forall₂_map_left_iff, List.forall₂_map_right_iff]
    exact respells.assignments.flip.imp fun _ _ => Assignment.Respells.slashed_eq
  rw [slashed, slashed, respells.type, respells.line, assignments]

theorem map_slashed_eq {sections others : List Section}
    (respell : List.Forall₂ Respells sections others) :
    others.map slashed = sections.map slashed := by
  rw [← List.forall₂_eq_eq_eq, List.forall₂_map_left_iff, List.forall₂_map_right_iff]
  exact respell.flip.imp fun _ _ => Respells.slashed_eq

section Slashed

variable (sections : List Section)

theorem lastOf_slashed (type : SectionType) :
    lastOf type (sections.map slashed) = (lastOf type sections).map Assignment.slashed := by
  have same : (fun part : Section => decide (part.type = type)) ∘ slashed =
      fun part => decide (part.type = type) := rfl
  rw [lastOf, lastOf, ← List.map_reverse, List.find?_map, same]
  cases sections.reverse.find? fun part => part.type = type with
  | none => rfl
  | some part => rfl

theorem sinceMaster_slashed :
    sinceMaster (sections.map slashed) = (sinceMaster sections).map slashed := by
  rw [sinceMaster, sinceMaster, ← List.map_reverse, List.takeWhile_map, List.map_reverse]
  rfl

theorem inherited_slashed :
    inherited (sections.map slashed) = (inherited sections).map Assignment.slashed := by
  simp only [inherited, lastOf_slashed, sinceMaster_slashed, List.map_append]

theorem lastDefaultPath_slashed :
    lastDefaultPath (sections.map slashed) = SamplePath.normalize (lastDefaultPath sections) := by
  induction sections using List.reverseRecOn with
  | nil => rfl
  | append_singleton sections last ih =>
    have path := @OpcodeTable.string?_compile_slashed last.assignments .defaultPath _ rfl rfl
      (by decide)
    rw [List.map_append, List.map_singleton, lastDefaultPath_concat, lastDefaultPath_concat, ih]
    change (if last.type = .control then
      ((OpcodeTable.compile (last.assignments.map Assignment.slashed)).string? .defaultPath).getD _
        else _) = _
    rw [path]
    split
    · cases (OpcodeTable.compile last.assignments).string? .defaultPath <;> rfl
    · rfl

end Slashed

end Section

/-- A section has the same region, or is rejected for the same fault, whichever way the paths before
it and its own are spelled. -/
theorem Scope.region_slashed (before : List Section) (part : Section) :
    ((before.map Section.slashed).foldl enter {}).region part.slashed =
      (before.foldl enter {}).region part := by
  have assignments : Section.inherited (before.map Section.slashed) ++ part.slashed.assignments =
      (Section.inherited before ++ part.assignments).map Assignment.slashed := by
    rw [Section.inherited_slashed, List.map_append]
    rfl
  have line : part.slashed.line = part.line := rfl
  rw [region_eq_ofOpcodes, region_eq_ofOpcodes, assignments, line, Section.lastDefaultPath_slashed,
    Region.ofOpcodes_slashed]
  cases Region.ofOpcodes (.compile (Section.inherited before ++ part.assignments)) part.line with
  | error error => rfl
  | ok region =>
    simp only [Except.map, SamplePath.normalize_eq_empty_iff, SamplePath.combine_normalize]

theorem Section.refers_of_declared? {before : List Section} {part : Section} {region : Region}
    (declared : declared? before part = some region) :
    ∃ sample, sample? before part = some sample ∧
      SamplePath.Refers (lastDefaultPath before) sample region.sampleFile := by
  have told := @OpcodeTable.string?_compile .sample _ rfl rfl
    (inherited before ++ part.assignments)
  unfold declared? at declared
  split at declared
  · cases declared
  · next draft made =>
    obtain ⟨-, rfl⟩ := Region.ofOpcodes_eq_ok_iff.mp made
    split at declared
    · cases declared
    · next named =>
      obtain rfl := Option.some.inj declared
      have text : (Region.draft (.compile (inherited before ++ part.assignments))
          part.line).sampleFile = ((sample? before part).getD "") := by
        rw [sample?, ← told]
        rfl
      cases own : sample? before part with
      | none =>
        rw [text, own] at named
        exact absurd rfl named
      | some sample =>
        refine ⟨sample, rfl, ?_⟩
        rw [text, own]
        exact SamplePath.refers_combine

namespace Build

theorem step_slashed {before : List Section} {build other : Build}
    (scope : build.scope = before.foldl Scope.enter {})
    (slashed : other.scope = (before.map Section.slashed).foldl Scope.enter {})
    (assembly : other.assembly = build.assembly) (report : other.report = build.report)
    (part : Section) :
    (other.step part.slashed).assembly = (build.step part).assembly ∧
      (other.step part.slashed).report = (build.step part).report := by
  have region : other.scope.region part.slashed = build.scope.region part := by
    rw [scope, slashed, Scope.region_slashed]
  have type : part.slashed.type = part.type := rfl
  constructor
  · rw [assembly_step, assembly_step, type, region, assembly]
  · have observed : other.report.observeAll part.slashed.assignments =
        build.report.observeAll part.assignments := by
      rw [report]
      exact Report.observeAll_slashed _ _
    rw [step, step, type, observed]
    by_cases compiled : part.type.isCompiled
    · rw [if_pos compiled, if_pos compiled]
      by_cases isRegion : part.type = .region
      · have unchanged : build.scope.enter part = build.scope := by rw [Scope.enter, isRegion]
        have kept : other.scope.enter part.slashed = other.scope := by
          rw [Scope.enter, type, isRegion]
        rw [if_pos isRegion, if_pos isRegion, place, place]
        simp only [unchanged, kept, region]
        cases build.scope.region part with
        | ok region => rfl
        | error error => rfl
      · rw [if_neg isRegion, if_neg isRegion]
    · rw [if_neg compiled, if_neg compiled, report]

end Build

namespace Instrument

theorem ofSections_slashed (sections : List Section) (report : Report) :
    ofSections (sections.map Section.slashed) report = ofSections sections report := by
  have same : ((sections.map Section.slashed).foldl Build.step { report }).assembly =
        (sections.foldl Build.step { report }).assembly ∧
      ((sections.map Section.slashed).foldl Build.step { report }).report =
        (sections.foldl Build.step { report }).report := by
    induction sections using List.reverseRecOn with
    | nil => exact ⟨rfl, rfl⟩
    | append_singleton sections last ih =>
      rw [List.map_append, List.map_singleton, List.foldl_concat, List.foldl_concat]
      exact Build.step_slashed (Build.scope_foldl_step _ _) (Build.scope_foldl_step _ _) ih.1 ih.2
        last
  rw [ofSections, ofSections]
  exact Prod.ext (congrArg Assembly.instrument same.1) same.2

theorem sampleFile_of_mem {sections : List Section} {report : Report} {file : String}
    (member : file ∈ (ofSections sections report).1.sampleFiles) :
    ∃ region ∈ (ofSections sections report).1.regions, region.sampleFile = file := by
  rw [← Array.mem_toList_iff, sampleFiles_ofSections, Region.sampleFiles, List.mem_eraseDups,
    ← regions_ofSections sections report] at member
  obtain ⟨region, inRegions, file⟩ := List.mem_map.mp member
  exact ⟨region, Array.mem_toList_iff.mp inRegions, file⟩

/-- The separators of paths decide nothing. Whichever backslashes of samples and default paths are
replaced by slashes, the same instrument is made and the same is reported; no sample file has a
backslash, and each is what the sample of its region refers to below the default path in force. -/
theorem spelling_immaterial :
    (∀ (sections others : List Section) (report : Report),
      List.Forall₂ Section.Respells sections others →
        ofSections others report = ofSections sections report) ∧
    (∀ (sections : List Section) (report : Report),
      ∀ file ∈ (ofSections sections report).1.sampleFiles, '\\' ∉ file.toList) ∧
    ∀ (sections : List Section) (report : Report),
      ∀ region ∈ (ofSections sections report).1.regions,
        ∃ before part after sample, sections = before ++ part :: after ∧ part.type = .region ∧
          Section.declared? before part = some region ∧
          Section.sample? before part = some sample ∧
          SamplePath.Refers (Section.lastDefaultPath before) sample region.sampleFile := by
  have refers (sections : List Section) (report : Report) :
      ∀ region ∈ (ofSections sections report).1.regions,
        ∃ before part after sample, sections = before ++ part :: after ∧ part.type = .region ∧
          Section.declared? before part = some region ∧
          Section.sample? before part = some sample ∧
          SamplePath.Refers (Section.lastDefaultPath before) sample region.sampleFile := by
    intro region member
    rw [← Array.mem_toList_iff, regions_ofSections] at member
    obtain ⟨before, part, after, split, isRegion, declared⟩ :=
      Section.exists_of_mem_declaredRegions member
    obtain ⟨sample, own, refers⟩ := Section.refers_of_declared? declared
    exact ⟨before, part, after, sample, split, isRegion, declared, own, refers⟩
  refine ⟨?_, ?_, refers⟩
  · intro sections others report respell
    rw [← ofSections_slashed others, ← ofSections_slashed sections, Section.map_slashed_eq respell]
  · intro sections report file member
    obtain ⟨region, inRegions, rfl⟩ := sampleFile_of_mem member
    obtain ⟨_, _, _, _, -, -, -, -, refers⟩ := refers sections report region inRegions
    exact refers.not_mem

/-- A kit with backslashes, and with slashes in some of their places: below the default path, from
a drive and from the root. -/
theorem spelling_immaterial_kit :
    let kit (path snare hat : String) : List Section :=
      [{ type := .control, assignments := [{ key := "default_path", value := path }] },
        { type := .group, assignments := [{ key := "sample", value := snare }] },
        { type := .region, assignments := [{ key := "key", value := "38" }] },
        { type := .region, assignments := [{ key := "sample", value := hat }] },
        { type := .region, assignments := [{ key := "sample", value := "\\abs\\kick.wav" }] }]
    List.Forall₂ Section.Respells (kit "samples\\drums" "soft hits\\snare.wav" "C:\\hat.wav")
        (kit "samples/drums" "soft hits/snare.wav" "C:/hat.wav") ∧
      ofSections (kit "samples/drums" "soft hits/snare.wav" "C:/hat.wav") {} =
        ofSections (kit "samples\\drums" "soft hits\\snare.wav" "C:\\hat.wav") {} ∧
      (ofSections (kit "samples/drums" "soft hits/snare.wav" "C:/hat.wav") {}).1.sampleFiles =
        #["samples/drums/soft hits/snare.wav", "C:/hat.wav", "/abs/kick.wav"] := by
  intro kit
  have respell : List.Forall₂ Section.Respells
      (kit "samples\\drums" "soft hits\\snare.wav" "C:\\hat.wav")
      (kit "samples/drums" "soft hits/snare.wav" "C:/hat.wav") := by
    decide +kernel
  refine ⟨respell, spelling_immaterial.1 _ _ {} respell, ?_⟩
  rw [← Array.toList_inj, sampleFiles_ofSections]
  decide +kernel

end Instrument

end Sfz

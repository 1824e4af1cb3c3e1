import Mathlib.Data.List.Basic
import Mathlib.Data.List.Nodup
import Mathlib.Data.List.Induction
import Sfz.Proofs.Instrument.Cells
import Sfz.Proofs.Instrument.Inheritance

/-! The sample files of an instrument and the numbers by which its zones refer to them.

Three collections grow side by side while regions are added: the list of files, the cache that leads
from a file to its number, and the list of numbers beside the regions. They stay in step: the cache
is the inverse of the file list, every number is the one that the cache has for the file of its
region, and the files are those of the regions in the order of first use. Everything that holds
between files and numbers is read off from that.
-/

set_option autoImplicit false

namespace Sfz

section Places

variable {α β : Type} [BEq α] [LawfulBEq α]

theorem eraseDups_map [BEq β] [LawfulBEq β] {transform : α → β} {values : List α}
    (injective : ∀ first ∈ values, ∀ second ∈ values,
      transform first = transform second → first = second) :
    (values.map transform).eraseDups = values.eraseDups.map transform := by
  induction values using List.reverseRecOn with
  | nil => rfl
  | append_singleton values last ih =>
    have known : transform last ∈ values.map transform ↔ last ∈ values := by
      refine ⟨fun member => ?_, List.mem_map_of_mem⟩
      obtain ⟨value, before, same⟩ := List.mem_map.mp member
      rw [← injective value (by simp [before]) last (by simp) same]
      exact before
    have earlier := ih fun first inFirst second inSecond =>
      injective first (by simp [inFirst]) second (by simp [inSecond])
    rw [List.map_append, List.map_singleton, eraseDups_concat, eraseDups_concat, earlier,
      List.map_append]
    by_cases member : last ∈ values <;> simp [known, member]

end Places

/-- The sample files of regions, each once, in the order of first use. -/
def Region.sampleFiles (regions : List Region) : List String :=
  (regions.map Region.sampleFile).eraseDups

theorem Region.sampleFiles_concat (regions : List Region) (last : Region) :
    sampleFiles (regions ++ [last]) =
      sampleFiles regions ++
        if last.sampleFile ∈ sampleFiles regions then [] else [last.sampleFile] := by
  simp only [sampleFiles, List.map_append, List.map_singleton, eraseDups_concat,
    List.mem_eraseDups]

/-- The file list, the cache and the list of numbers agree with each other and with the regions. -/
structure Assembly.InStep (assembly : Assembly) : Prop where
  cached : ∀ file index, assembly.cache[file]? = some index ↔
    1 ≤ index ∧ assembly.instrument.sampleFiles[index - 1]? = some file
  indexed : List.Forall₂ (fun region index => assembly.cache[region.sampleFile]? = some index)
    assembly.instrument.regions.toList assembly.instrument.sampleIndices.toList
  firstUse : assembly.instrument.sampleFiles.toList =
    Region.sampleFiles assembly.instrument.regions.toList

namespace Assembly

theorem inStep_empty : InStep {} where
  cached file index := by simp
  indexed := .nil
  firstUse := rfl

namespace InStep

variable {assembly : Assembly} (inStep : assembly.InStep)
include inStep

theorem mem_of_cached {file : String} {index : Nat} (cached : assembly.cache[file]? = some index) :
    file ∈ assembly.instrument.sampleFiles.toList := by
  obtain ⟨-, found⟩ := (inStep.cached file index).mp cached
  exact Array.mem_toList_iff.mpr (Array.mem_of_getElem? found)

theorem cached_of_mem {file : String} (member : file ∈ assembly.instrument.sampleFiles.toList) :
    ∃ index, assembly.cache[file]? = some index := by
  obtain ⟨place, found⟩ := List.mem_iff_getElem?.mp member
  refine ⟨place + 1, (inStep.cached file _).mpr ⟨Nat.le_add_left 1 place, ?_⟩⟩
  rwa [Nat.add_sub_cancel, ← Array.getElem?_toList]

theorem not_mem_of_new {file : String} (new : assembly.cache[file]? = none) :
    file ∉ assembly.instrument.sampleFiles.toList := by
  intro member
  obtain ⟨index, cached⟩ := inStep.cached_of_mem member
  rw [new] at cached
  cases cached

-- A file that was met before brings nothing but its number.
theorem add_of_cached {region : Region} {index : Nat}
    (cached : assembly.cache[region.sampleFile]? = some index) : (assembly.add region).InStep := by
  rw [add, sampleIndexFor_of_cached cached]
  constructor
  case cached => exact inStep.cached
  case indexed =>
    simp only [Array.toList_push]
    exact List.rel_append inStep.indexed (.cons cached .nil)
  case firstUse =>
    have known := inStep.mem_of_cached cached
    rw [inStep.firstUse] at known
    simp only [Array.toList_push, Region.sampleFiles_concat, known, if_true, List.append_nil]
    exact inStep.firstUse

-- A new file goes to the end of the list, and its number is the new length.
theorem add_of_new {region : Region} (new : assembly.cache[region.sampleFile]? = none) :
    (assembly.add region).InStep := by
  have unknown := inStep.not_mem_of_new new
  rw [add, sampleIndexFor_of_new new]
  constructor
  case cached =>
    intro file index
    simp only [Std.HashMap.getElem?_insert, beq_iff_eq, Array.getElem?_push]
    by_cases own : region.sampleFile = file
    · subst own
      have absent : assembly.instrument.sampleFiles[index - 1]? ≠ some region.sampleFile :=
        fun found => unknown (Array.mem_toList_iff.mpr (Array.mem_of_getElem? found))
      by_cases last : index - 1 = assembly.instrument.sampleFiles.size
      · simp only [if_true, last, Option.some.injEq, and_true]
        omega
      · simp only [if_true, if_neg last, Option.some.injEq, absent, and_false, iff_false]
        omega
    · rw [if_neg own, inStep.cached]
      by_cases last : index - 1 = assembly.instrument.sampleFiles.size
      · simp [last, own]
      · rw [if_neg last]
  case indexed =>
    simp only [Array.toList_push]
    refine List.rel_append (inStep.indexed.imp fun other index cached => ?_) (.cons ?_ .nil)
    · have differs : region.sampleFile ≠ other.sampleFile := by
        intro same
        rw [← same, new] at cached
        cases cached
      simpa [Std.HashMap.getElem?_insert, differs] using cached
    · rw [Std.HashMap.getElem?_insert_self]
  case firstUse =>
    rw [inStep.firstUse] at unknown
    simp only [Array.toList_push, Region.sampleFiles_concat, unknown, if_false, inStep.firstUse]

theorem add (region : Region) : (assembly.add region).InStep := by
  cases cached : assembly.cache[region.sampleFile]? with
  | some index => exact inStep.add_of_cached cached
  | none => exact inStep.add_of_new cached

theorem foldl_add (regions : List Region) : (regions.foldl Assembly.add assembly).InStep := by
  induction regions generalizing assembly with
  | nil => exact inStep
  | cons region rest ih => exact ih (inStep.add region)

end InStep

end Assembly

namespace Build

theorem inStep_step {build : Build} (inStep : build.assembly.InStep) (part : Section) :
    (build.step part).assembly.InStep := by
  rw [assembly_step]
  split
  · exact inStep.foldl_add _
  · exact inStep

theorem inStep_foldl_step {build : Build} (inStep : build.assembly.InStep)
    (sections : List Section) : (sections.foldl step build).assembly.InStep := by
  induction sections generalizing build with
  | nil => exact inStep
  | cons part rest ih => exact ih (inStep_step inStep part)

end Build

namespace Instrument

section Pairs

variable {instrument : Instrument} {Holds : Region → Nat → Prop}
  (pairs : List.Forall₂ Holds instrument.regions.toList instrument.sampleIndices.toList)
include pairs

theorem holds_of_mem_zones {zone : Zone} (member : zone ∈ instrument.zones) :
    Holds zone.region zone.sampleIndex := by
  rw [zones, ← Array.mem_toList_iff, Array.toList_zipWith] at member
  generalize instrument.regions.toList = regions, instrument.sampleIndices.toList = indices
    at pairs member
  induction pairs with
  | nil => cases member
  | cons holds _ ih =>
    rcases List.mem_cons.mp member with rfl | later
    · exact holds
    · exact ih later

theorem regions_zones : instrument.zones.toList.map Zone.region = instrument.regions.toList := by
  rw [zones, Array.toList_zipWith]
  generalize instrument.regions.toList = regions, instrument.sampleIndices.toList = indices
    at pairs ⊢
  induction pairs with
  | nil => rfl
  | cons _ _ ih => rw [List.zipWith_cons_cons, List.map_cons, ih]

theorem sampleIndices_zones :
    instrument.zones.toList.map Zone.sampleIndex = instrument.sampleIndices.toList := by
  rw [zones, Array.toList_zipWith]
  generalize instrument.regions.toList = regions, instrument.sampleIndices.toList = indices
    at pairs ⊢
  induction pairs with
  | nil => rfl
  | cons _ _ ih => rw [List.zipWith_cons_cons, List.map_cons, ih]

end Pairs

/-- The zones are the regions, each with the number at its place. -/
structure Paired (instrument : Instrument) : Prop where
  regions : instrument.zones.toList.map Zone.region = instrument.regions.toList
  sampleIndices :
    instrument.zones.toList.map Zone.sampleIndex = instrument.sampleIndices.toList

/-- An instrument whose sample files and their numbers agree with its regions. A number leads to the
file of its region, and the numbers come up for the first time in the order 1, 2, 3 and so on. -/
structure Numbered (instrument : Instrument) : Prop where
  indexed : ∀ position,
    (instrument.sampleIndex? position).isSome ↔ position < instrument.regions.size
  paired : instrument.Paired
  bounded : ∀ zone ∈ instrument.zones,
    1 ≤ zone.sampleIndex ∧ zone.sampleIndex ≤ instrument.sampleFiles.size
  filed : ∀ zone ∈ instrument.zones,
    instrument.sampleFiles[zone.sampleIndex - 1]? = some zone.region.sampleFile
  distinct : instrument.sampleFiles.toList.Nodup
  used : ∀ file ∈ instrument.sampleFiles, ∃ zone ∈ instrument.zones,
    zone.region.sampleFile = file
  shared : ∀ first ∈ instrument.zones, ∀ second ∈ instrument.zones,
    first.sampleIndex = second.sampleIndex ↔
      first.region.sampleFile = second.region.sampleFile
  consecutive : instrument.sampleIndices.toList.eraseDups =
    List.range' 1 instrument.sampleFiles.size
  firstUse : instrument.sampleFiles.toList = Region.sampleFiles instrument.regions.toList

end Instrument

namespace Assembly.InStep

variable {assembly : Assembly} (inStep : assembly.InStep)
include inStep

theorem cached_of_mem_zones {zone : Zone} (member : zone ∈ assembly.instrument.zones) :
    assembly.cache[zone.region.sampleFile]? = some zone.sampleIndex :=
  Instrument.holds_of_mem_zones inStep.indexed member

theorem paired : assembly.instrument.Paired where
  regions := Instrument.regions_zones inStep.indexed
  sampleIndices := Instrument.sampleIndices_zones inStep.indexed

theorem length_sampleIndices :
    assembly.instrument.sampleIndices.size = assembly.instrument.regions.size :=
  inStep.indexed.length_eq.symm

theorem filed_of_mem_zones {zone : Zone} (member : zone ∈ assembly.instrument.zones) :
    1 ≤ zone.sampleIndex ∧
      assembly.instrument.sampleFiles[zone.sampleIndex - 1]? = some zone.region.sampleFile :=
  (inStep.cached _ _).mp (inStep.cached_of_mem_zones member)

-- The numbers of the files in their order are the places in the list, counted from 1.
theorem map_cache_sampleFiles :
    assembly.instrument.sampleFiles.toList.map (fun file => (assembly.cache[file]?).getD 0) =
      List.range' 1 assembly.instrument.sampleFiles.size := by
  apply List.ext_getElem
  · simp
  · intro place mapped _
    have inside : place < assembly.instrument.sampleFiles.toList.length := by simpa using mapped
    have cached := (inStep.cached assembly.instrument.sampleFiles.toList[place] (place + 1)).mpr
      ⟨Nat.le_add_left 1 place, by simp⟩
    rw [List.getElem_map, cached, List.getElem_range', Option.getD_some]
    omega

theorem eraseDups_sampleIndices :
    assembly.instrument.sampleIndices.toList.eraseDups =
      List.range' 1 assembly.instrument.sampleFiles.size := by
  have numbers : assembly.instrument.sampleIndices.toList =
      (assembly.instrument.regions.toList.map Region.sampleFile).map fun file =>
        (assembly.cache[file]?).getD 0 := by
    rw [List.map_map, eq_comm, ← List.forall₂_eq_eq_eq, List.forall₂_map_left_iff]
    refine inStep.indexed.imp fun region index cached => ?_
    rw [Function.comp_apply, cached, Option.getD_some]
  have injective : ∀ first ∈ assembly.instrument.regions.toList.map Region.sampleFile,
      ∀ second ∈ assembly.instrument.regions.toList.map Region.sampleFile,
        (assembly.cache[first]?).getD 0 = (assembly.cache[second]?).getD 0 → first = second := by
    have known {file : String}
        (member : file ∈ assembly.instrument.regions.toList.map Region.sampleFile) :
        ∃ index, assembly.cache[file]? = some index := by
      refine inStep.cached_of_mem ?_
      rw [inStep.firstUse]
      exact List.mem_eraseDups.mpr member
    intro first inFirst second inSecond same
    obtain ⟨index, cached⟩ := known inFirst
    obtain ⟨other, found⟩ := known inSecond
    rw [cached, found] at same
    cases same
    have place := ((inStep.cached _ _).mp cached).2
    rw [((inStep.cached _ _).mp found).2] at place
    exact (Option.some.inj place).symm
  rw [numbers, eraseDups_map injective, ← Region.sampleFiles, ← inStep.firstUse,
    inStep.map_cache_sampleFiles]

theorem numbered : assembly.instrument.Numbered where
  indexed position := by
    rw [Instrument.sampleIndex?, ← inStep.length_sampleIndices, Option.isSome_iff_ne_none,
      ne_eq, Array.getElem?_eq_none_iff, Nat.not_le]
  paired := inStep.paired
  bounded zone member := by
    obtain ⟨positive, found⟩ := inStep.filed_of_mem_zones member
    obtain ⟨inside, -⟩ := Array.getElem?_eq_some_iff.mp found
    omega
  filed zone member := (inStep.filed_of_mem_zones member).2
  distinct := by
    rw [inStep.firstUse]
    exact nodup_eraseDups _
  used file member := by
    rw [← Array.mem_toList_iff, inStep.firstUse, Region.sampleFiles, List.mem_eraseDups,
      ← inStep.paired.regions] at member
    obtain ⟨region, inRegions, rfl⟩ := List.mem_map.mp member
    obtain ⟨zone, inZones, rfl⟩ := List.mem_map.mp inRegions
    exact ⟨zone, Array.mem_toList_iff.mp inZones, rfl⟩
  shared first inFirst second inSecond := by
    constructor
    · intro same
      have found := (inStep.filed_of_mem_zones inFirst).2
      rw [same, (inStep.filed_of_mem_zones inSecond).2] at found
      exact (Option.some.inj found).symm
    · intro same
      have cached := inStep.cached_of_mem_zones inFirst
      rw [same, inStep.cached_of_mem_zones inSecond] at cached
      exact (Option.some.inj cached).symm
  consecutive := inStep.eraseDups_sampleIndices
  firstUse := inStep.firstUse

end Assembly.InStep

namespace Instrument

theorem exists_inStep (sections : List Section) (report : Report) :
    ∃ assembly : Assembly, assembly.InStep ∧
      (ofSections sections report).1 = assembly.instrument :=
  ⟨_, Build.inStep_foldl_step Assembly.inStep_empty sections, rfl⟩

theorem paired_ofSections (sections : List Section) (report : Report) :
    (ofSections sections report).1.Paired := by
  obtain ⟨assembly, inStep, same⟩ := exists_inStep sections report
  rw [same]
  exact inStep.paired

theorem sampleFiles_ofSections (sections : List Section) (report : Report) :
    (ofSections sections report).1.sampleFiles.toList =
      Region.sampleFiles (Section.declaredRegions sections) := by
  obtain ⟨assembly, inStep, same⟩ := exists_inStep sections report
  rw [← regions_ofSections sections report, same]
  exact inStep.firstUse

/-- The sample files of an instrument are the distinct files of the regions that its sections
declare, in the order of first use, and the numbers of its regions are the places in that list. -/
theorem numbered_ofSections (sections : List Section) (report : Report) :
    (ofSections sections report).1.Numbered ∧
      (ofSections sections report).1.regions.toList = Section.declaredRegions sections := by
  obtain ⟨assembly, inStep, same⟩ := exists_inStep sections report
  refine ⟨?_, regions_ofSections sections report⟩
  rw [same]
  exact inStep.numbered

end Instrument

end Sfz

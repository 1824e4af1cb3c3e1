import Mathlib.Data.List.Forall2
import Sfz.Instrument.Inheritance

/-! Spellings of a reference.

A backslash in a reference may as well be written as a slash: what a sample refers to below a
default path is decided by the two texts with slashes alone.
-/

set_option autoImplicit false

namespace Sfz.SamplePath

/-- To be spelled with slashes for some backslashes, for none or for all of them. -/
def Respells (path other : String) : Prop :=
  List.Forall₂ (fun c d => d = c ∨ c = '\\' ∧ d = '/') path.toList other.toList

instance (path other : String) : Decidable (Respells path other) :=
  inferInstanceAs (Decidable (List.Forall₂ _ _ _))

/-- To start at a root, as `/kit/kick.wav` and `C:/kit/kick.wav` do. -/
def FromRoot (path : String) : Prop :=
  ['/'] <+: path.toList ∨ ∃ drive : Char, drive.isAlpha ∧ [drive, ':', '/'] <+: path.toList

/-- What stands before a file below a path: the path, closed by a slash unless it is empty. -/
inductive Directory (path : String) : String → Prop where
  | empty : path = "" → Directory path ""
  | closed : ['/'] <:+ path.toList → Directory path path
  | unclosed : path ≠ "" → ¬['/'] <:+ path.toList → Directory path (path ++ "/")

/-- The file that a sample refers to below a default path. -/
inductive Refers (defaultPath sample : String) : String → Prop where
  | root : FromRoot (normalize sample) → Refers defaultPath sample (normalize sample)
  | below {directory : String} : ¬FromRoot (normalize sample) →
    Directory (normalize defaultPath) directory →
    Refers defaultPath sample (directory ++ normalize sample)

theorem toList_normalize (path : String) :
    (normalize path).toList = path.toList.map fun c => if c = '\\' then '/' else c := by
  rw [normalize, String.toList_ofList]

theorem not_mem_normalize (path : String) : '\\' ∉ (normalize path).toList := by
  rw [toList_normalize, List.mem_map]
  rintro ⟨c, -, same⟩
  split at same
  · cases same
  · contradiction

theorem normalize_normalize (path : String) : normalize (normalize path) = normalize path := by
  apply String.toList_injective
  rw [toList_normalize, List.map_congr_left, List.map_id]
  intro c member
  have other : c ≠ '\\' := fun back => not_mem_normalize path (back ▸ member)
  exact if_neg other

theorem normalize_eq_empty_iff {path : String} : normalize path = "" ↔ path = "" := by
  rw [← String.toList_eq_nil_iff, toList_normalize, List.map_eq_nil_iff, String.toList_eq_nil_iff]

theorem Respells.normalize_eq {path other : String} (respells : Respells path other) :
    normalize other = normalize path := by
  apply String.toList_injective
  rw [toList_normalize, toList_normalize, ← List.forall₂_eq_eq_eq, List.forall₂_map_left_iff,
    List.forall₂_map_right_iff]
  refine respells.flip.imp fun d c same => ?_
  rcases same with rfl | ⟨rfl, rfl⟩ <;> rfl

theorem isAbsolute_normalize_iff {path : String} :
    isAbsolute (normalize path) = true ↔ FromRoot (normalize path) := by
  have slashed := not_mem_normalize path
  unfold isAbsolute FromRoot
  split
  · next rest chars => simp [chars]
  · next drive separator rest noSlash chars =>
    have other : separator ≠ '\\' := by
      rintro rfl
      simp [chars] at slashed
    have relative : '/' ≠ drive := fun same => noSlash same.symm
    simp [chars, relative, other, eq_comm (a := '/')]
  · next noSlash noDrive =>
    refine iff_of_false nofun ?_
    rintro (⟨rest, root⟩ | ⟨drive, -, rest, root⟩)
    · exact noSlash rest root.symm
    · exact noDrive drive '/' rest root.symm

theorem directory_asDirectory (path : String) : Directory path (asDirectory path) := by
  unfold asDirectory
  by_cases empty : path = ""
  · rw [empty]
    exact .empty rfl
  · by_cases closed : path.toList.getLast? = some '/'
    · rw [if_pos (.inr closed)]
      exact .closed (List.singleton_suffix_iff_getLast?_eq_some.mpr closed)
    · have unclosed : ¬(path.toList = [] ∨ path.toList.getLast? = some '/') := by
        rw [String.toList_eq_nil_iff]
        exact not_or.mpr ⟨empty, closed⟩
      rw [if_neg unclosed]
      exact .unclosed empty (mt List.singleton_suffix_iff_getLast?_eq_some.mp closed)

theorem Directory.not_mem {path directory : String} (isDirectory : Directory path directory)
    (slashed : '\\' ∉ path.toList) : '\\' ∉ directory.toList := by
  cases isDirectory with
  | empty _ => nofun
  | closed _ => exact slashed
  | unclosed _ _ =>
    rw [String.toList_append, List.mem_append, not_or]
    exact ⟨slashed, by decide⟩

section Combine

variable {defaultPath sample : String}

theorem combine_normalize :
    combine (normalize defaultPath) (normalize sample) = combine defaultPath sample := by
  simp only [combine, normalize_normalize]

theorem refers_combine : Refers defaultPath sample (combine defaultPath sample) := by
  unfold combine
  split
  · next root => exact .root (isAbsolute_normalize_iff.mp root)
  · next relative =>
    exact .below (mt isAbsolute_normalize_iff.mpr relative) (directory_asDirectory _)

theorem Refers.not_mem {file : String} (refers : Refers defaultPath sample file) :
    '\\' ∉ file.toList := by
  have slashed := not_mem_normalize
  cases refers with
  | root _ => exact slashed sample
  | below _ isDirectory =>
    rw [String.toList_append, List.mem_append, not_or]
    exact ⟨isDirectory.not_mem (slashed defaultPath), slashed sample⟩

end Combine

end Sfz.SamplePath

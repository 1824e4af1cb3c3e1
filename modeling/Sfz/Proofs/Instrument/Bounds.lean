import Sfz.Proofs.Instrument.Loads
import Sfz.Proofs.Instrument.Samples

/-! Bounds of what a load yields.

Every region of an instrument has passed its checks, so that its keys and velocities are those of
MIDI, and every zone refers to a sample file by a number from 1.
-/

set_option autoImplicit false

namespace Sfz

namespace Region

theorem fault?_eq_none_iff {region : Region} :
    region.fault? = none ↔
      (∀ key ∈ [region.loKey, region.hiKey, region.onlyKey, region.keycenter],
        -1 ≤ key ∧ key ≤ 127) ∧
      (region.loKey ≠ -1 → region.hiKey ≠ -1 → region.loKey ≤ region.hiKey) ∧
      (∀ velocity ∈ [region.loVel, region.hiVel], 0 ≤ velocity ∧ velocity ≤ 127) ∧
      region.loVel ≤ region.hiVel := by
  simp [fault?, keyFault?, velocityFault?, and_assoc]

theorem ofOpcodes_eq_ok_iff {opcodes : OpcodeTable} {line : Nat} {region : Region} :
    ofOpcodes opcodes line = .ok region ↔
      (draft opcodes line).fault? = none ∧ draft opcodes line = region := by
  unfold ofOpcodes
  split <;> simp_all

theorem fault?_of_ofOpcodes {opcodes : OpcodeTable} {line : Nat} {region : Region}
    (made : ofOpcodes opcodes line = .ok region) : region.fault? = none := by
  obtain ⟨valid, rfl⟩ := ofOpcodes_eq_ok_iff.mp made
  exact valid

end Region

namespace Section

theorem fault?_of_declared? {before : List Section} {part : Section} {region : Region}
    (declared : declared? before part = some region) : region.fault? = none := by
  unfold declared? at declared
  split at declared
  · cases declared
  · next draft made =>
    split at declared
    · cases declared
    · -- the sample file, which the default path is put before, is not checked
      have valid := Region.fault?_of_ofOpcodes made
      cases declared
      exact valid

theorem exists_of_mem_declaredRegions {sections : List Section} {region : Region}
    (member : region ∈ declaredRegions sections) :
    ∃ before part after, sections = before ++ part :: after ∧ part.type = .region ∧
      declared? before part = some region := by
  obtain ⟨⟨part, position⟩, placed, declared⟩ := List.mem_filterMap.mp member
  obtain ⟨inside, same⟩ := List.mem_zipIdx' placed
  dsimp only at declared
  split at declared
  · next isRegion =>
    refine ⟨_, _, sections.drop (position + 1), ?_, isRegion, declared⟩
    rw [same, List.getElem_cons_drop, List.take_append_drop]
  · cases declared

theorem fault?_of_mem_declaredRegions {sections : List Section} {region : Region}
    (member : region ∈ declaredRegions sections) : region.fault? = none := by
  obtain ⟨_, _, _, -, -, declared⟩ := exists_of_mem_declaredRegions member
  exact fault?_of_declared? declared

end Section

/-- The zones of an instrument have passed the checks of regions and name a sample file. -/
structure Instrument.Playable (instrument : Instrument) : Prop where
  valid : ∀ zone ∈ instrument.zones, zone.region.fault? = none
  sampled : ∀ zone ∈ instrument.zones, 1 ≤ zone.sampleIndex

namespace Instrument

theorem playable_ofSections (sections : List Section) (report : Report) :
    (ofSections sections report).1.Playable := by
  constructor
  · intro zone member
    have inRegions := List.mem_map_of_mem (f := Zone.region) (Array.mem_toList_iff.mpr member)
    rw [(paired_ofSections sections report).regions, regions_ofSections] at inRegions
    exact Section.fault?_of_mem_declaredRegions inRegions
  · obtain ⟨assembly, inStep, same⟩ := exists_inStep sections report
    rw [same]
    exact fun zone member => (inStep.filed_of_mem_zones member).1

theorem playable_of_load {ρ : Type} [Lexer.Supplier ρ] {settings : Settings} {supplier? : Option ρ}
    {text : String} {report : Report} {instrument : Instrument}
    (loaded : (load settings supplier? text report).result = .ok instrument) :
    instrument.Playable := by
  have job : load settings supplier? text report = Job.run { settings, supplier?, text } report :=
    rfl
  rw [job] at loaded
  rcases Job.run_cases { settings, supplier?, text } with
    ⟨asked, error, fails⟩ | ⟨asked, sections, loads⟩
  · rw [fails] at loaded
    cases loaded
  · rw [loads] at loaded
    cases loaded
    exact playable_ofSections sections report

end Instrument

end Sfz

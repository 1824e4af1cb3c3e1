import Mathlib.Data.List.Forall2
import Sfz.Proofs.Document.Lines
import Sfz.Proofs.PlayerMap.Layers
import Sfz.Proofs.Region.Acceptance

/-! Texts that lay out the cells of an instrument.

Any list of keys, each with a range of velocities, is spelled by a text of as many regions, one
opcode a line. The zones of the loaded instrument are those of the list and in its order, so the
cells of a pitch can be read off the list.
-/

set_option autoImplicit false

namespace Sfz

namespace Section

theorem lastOf_eq_nil {type : SectionType} {sections : List Section}
    (absent : ∀ part ∈ sections, part.type ≠ type) : lastOf type sections = [] := by
  have none : sections.reverse.find? (fun part => part.type = type) = none := by
    simpa using absent
  rw [lastOf, none]

theorem inherited_of_regions {before : List Section}
    (regions : ∀ part ∈ before, part.type = .region) : inherited before = [] := by
  have other (type : SectionType) (differs : .region ≠ type) : ∀ part ∈ before, part.type ≠ type :=
    fun part member same => differs ((regions part member).symm.trans same)
  have sinceMaster : ∀ part ∈ sinceMaster before, part ∈ before := by
    intro part member
    exact List.mem_reverse.mp (List.takeWhile_subset _ (List.mem_reverse.mp member))
  have global := lastOf_eq_nil (other .global nofun)
  have master := lastOf_eq_nil (other .master nofun)
  have group := lastOf_eq_nil fun part member => other .group nofun part (sinceMaster part member)
  rw [inherited, global, master, group]
  rfl

end Section

namespace Layout

theorem Lines.exists_sections_of_load {parts : List Outline} {items : List Item} {text : String}
    (lines : Lines parts items) (written : Written items text)
    (plain : ∀ item ∈ items, ¬item.Diverts) {settings : Settings} (valid : settings.fault? = none)
    {ρ : Type} [Lexer.Supplier ρ] (supplier? : Option ρ) (report : Report) :
    ∃ sections, sections.map Section.outline = parts ∧
      (load settings supplier? text report).result =
        .ok (Instrument.ofSections sections report).1 := by
  obtain ⟨_, _, leads⟩ := leads_lines
    (Lexer.entering supplier? settings.maxIncludeDepth settings.maxIncludeDepth) lines.writable
    plain unknown_ne_string []
  obtain ⟨tokens, sections, lexed, grouped, outlines⟩ := lines.read_back_of_leads written leads
  refine ⟨sections, outlines, ?_⟩
  unfold load
  rw [valid]
  dsimp only
  rw [lexed]
  dsimp only
  rw [grouped]

end Layout

/-- A key and a range of velocities. -/
structure Slot where
  key : Fin 128
  loVel : Fin 128
  hiVel : Fin 128
  ordered : loVel ≤ hiVel

namespace Slot

def range (slot : Slot) : Int × Int :=
  (slot.loVel.val, slot.hiVel.val)

def numeral (number : Fin 128) : String :=
  toString number.val

/-- The opcodes of a region for the slot. Its upper bound leaves half of all draws to others. -/
def pairs (slot : Slot) : List (String × String) :=
  [("sample", "a"), ("hirand", "0.5"), ("key", numeral slot.key), ("lovel", numeral slot.loVel),
    ("hivel", numeral slot.hiVel)]

def outline (slot : Slot) : Outline :=
  { type := .region, pairs := slot.pairs }

def items (slots : List Slot) : List Layout.Item :=
  slots.flatMap fun slot => .tag "region" :: slot.pairs.map .pair

def text (slots : List Slot) : String :=
  String.ofList ((items slots).flatMap Layout.Item.line)

section Numerals

variable (number : Fin 128)

theorem ofText?_numeral : Note.ofText? (numeral number) = some (number.val : Int) := by
  revert number
  decide +kernel

theorem word_numeral : Layout.Word (numeral number) := by
  revert number
  decide +kernel

theorem solid_numeral : Layout.Solid (numeral number) := by
  revert number
  decide +kernel

-- No name of a key is a number.
theorem not_diverting_numeral : ¬Layout.Diverting (numeral number) := by
  have unread : ∀ name ∈ ["sample", "default_path", "sw_label"], Note.ofText? name = none := by
    decide +kernel
  intro diverting
  have read := ofText?_numeral number
  rw [unread _ diverting] at read
  cases read

end Numerals

theorem writable_pairs (slot : Slot) :
    ∀ pair ∈ slot.pairs, Layout.Key pair.1 ∧ Layout.Content pair.1 pair.2 := by
  have number (value : Fin 128) (key : String) : Layout.Content key (numeral value) :=
    { toWord := word_numeral value, solid := fun _ => solid_numeral value }
  simp only [pairs, List.forall_mem_cons, List.not_mem_nil, false_imp_iff, forall_const, and_true]
  refine ⟨⟨by decide +kernel, ?_⟩, ⟨by decide +kernel, ?_⟩, ⟨by decide +kernel, number _ _⟩,
    ⟨by decide +kernel, number _ _⟩, ⟨by decide +kernel, number _ _⟩⟩
  · exact { toWord := by decide +kernel, solid := fun _ => by decide +kernel }
  · exact { toWord := by decide +kernel, solid := fun _ => by decide +kernel }

theorem lines_items (slots : List Slot) : Layout.Lines (slots.map outline) (items slots) := by
  induction slots with
  | nil => exact .nil
  | cons slot rest ih =>
    have name : SectionType.region.NamedBy "region" := by decide +kernel
    exact .cons name slot.writable_pairs ih

theorem not_diverts_of_mem_items {slots : List Slot} {item : Layout.Item}
    (member : item ∈ items slots) : ¬item.Diverts := by
  rintro ⟨value, known, diverting⟩
  obtain ⟨slot, -, own⟩ := List.mem_flatMap.mp member
  rcases List.mem_cons.mp own with rfl | inPairs
  · cases known
  · obtain ⟨pair, among, rfl⟩ := List.mem_map.mp inPairs
    cases known
    simp only [pairs, List.mem_cons, List.not_mem_nil, or_false] at among
    rcases among with rfl | rfl | rfl | rfl | rfl
    · exact absurd diverting (by decide)
    · exact absurd diverting (by decide)
    · exact not_diverting_numeral _ diverting
    · exact not_diverting_numeral _ diverting
    · exact not_diverting_numeral _ diverting

structure Describes (slot : Slot) (region : Region) : Prop where
  key : region.onlyKey = slot.key.val
  range : (region.loVel, region.hiVel) = slot.range
  struck : region.trigger = none
  unsequenced : region.seqLength = 1

section Declared

variable {slot : Slot} {part : Section} (spelled : part.outline = slot.outline)
include spelled

theorem findSome?_assignments {β : Type} (name : String) (read : String → Option β) :
    (part.assignments.reverse.findSome? fun assignment =>
        if assignment.key = name then read assignment.value else none) =
      slot.pairs.reverse.findSome? fun pair => if pair.1 = name then read pair.2 else none := by
  have same : part.assignments.map (fun assignment => (assignment.key, assignment.value)) =
      slot.pairs := congrArg Outline.pairs spelled
  rw [← same, ← List.map_reverse, List.findSome?_map]
  rfl

theorem bounds_assignments :
    Region.Bounds.ofAssignments part.assignments =
      { loKey := -1
        hiKey := -1
        key := slot.key.val
        keycenter := slot.key.val
        loVel := slot.loVel.val
        hiVel := slot.hiVel.val } := by
  simp [Region.Bounds.ofAssignments, lastNumber?, findSome?_assignments spelled, pairs,
    ofText?_numeral]

theorem describes_draft : slot.Describes (.draft (.compile part.assignments) part.line) := by
  have bounds := (Region.bounds_draft part.assignments part.line).trans (bounds_assignments spelled)
  have trigger : (OpcodeTable.compile part.assignments).get? .trigger = none := by
    rw [OpcodeTable.get?_compile_of_name? rfl, findSome?_assignments spelled]
    simp [pairs]
  have seqLength : (OpcodeTable.compile part.assignments).int? .seqLength = none := by
    rw [OpcodeTable.int?_compile rfl rfl, lastNumber?, findSome?_assignments spelled]
    simp [pairs]
  exact
    { key := congrArg Region.Bounds.key bounds
      range := Prod.ext (congrArg Region.Bounds.loVel bounds) (congrArg Region.Bounds.hiVel bounds)
      struck := by simp [Region.draft, OpcodeTable.discrete?, trigger]
      unsequenced := by simp [Region.draft, seqLength] }

theorem fault?_draft : (Region.draft (.compile part.assignments) part.line).fault? = none := by
  rw [Region.fault?_eq_none_iff_sound, Region.bounds_draft, bounds_assignments spelled]
  have key := slot.key.isLt
  have low := slot.loVel.isLt
  have high := slot.hiVel.isLt
  have ordered : slot.loVel.val ≤ slot.hiVel.val := slot.ordered
  constructor <;> dsimp only <;> omega

theorem declared?_of_outline {before : List Section}
    (regions : ∀ other ∈ before, other.type = .region) :
    ∃ region, Section.declared? before part = some region ∧ slot.Describes region := by
  have made := Region.ofOpcodes_eq_ok_iff.mpr ⟨fault?_draft spelled, rfl⟩
  have sampled : (Region.draft (.compile part.assignments) part.line).sampleFile = "a" := by
    have sample : (OpcodeTable.compile part.assignments).string? .sample = some "a" := by
      rw [OpcodeTable.string?, OpcodeTable.get?_compile_of_name? rfl,
        findSome?_assignments spelled]
      simp [pairs, Value.convert?, Opcode.valueType, Value.string?]
    rw [Region.draft, sample]
    rfl
  obtain ⟨key, range, struck, unsequenced⟩ := describes_draft spelled
  have named : (Region.draft (.compile part.assignments) part.line).sampleFile ≠ "" := by
    rw [sampled]
    decide
  rw [Section.declared?, Section.inherited_of_regions regions, List.nil_append, made]
  dsimp only
  rw [if_neg named]
  exact ⟨_, rfl, key, range, struck, unsequenced⟩

end Declared

theorem describes_declaredRegions {slots : List Slot} {sections : List Section}
    (spelled : sections.map Section.outline = slots.map outline) :
    List.Forall₂ Describes slots (Section.declaredRegions sections) := by
  induction slots using List.reverseRecOn generalizing sections with
  | nil =>
    obtain rfl := List.map_eq_nil_iff.mp spelled
    exact .nil
  | append_singleton slots slot ih =>
    rw [List.map_append, List.map_eq_append_iff] at spelled
    obtain ⟨before, last, rfl, front, own⟩ := spelled
    obtain ⟨part, rfl, spelled⟩ := List.map_eq_singleton_iff.mp own
    have regions : ∀ other ∈ before, other.type = .region := by
      intro other member
      have outlined := List.mem_map_of_mem (f := Section.outline) member
      rw [front] at outlined
      obtain ⟨_, -, same⟩ := List.mem_map.mp outlined
      exact (congrArg Outline.type same).symm
    have isRegion : part.type = .region := congrArg Outline.type spelled
    obtain ⟨region, declared, describes⟩ := declared?_of_outline spelled regions
    rw [Section.declaredRegions_concat, if_pos isRegion, declared]
    exact List.rel_append (ih front) (.cons describes .nil)

/-- Every list of slots is spelled by a text, whatever there is to include. -/
theorem exists_loaded {settings : Settings} (valid : settings.fault? = none)
    {ρ : Type} [Lexer.Supplier ρ] (supplier? : Option ρ) (slots : List Slot) (report : Report) :
    ∃ instrument, (load settings supplier? (text slots) report).result = .ok instrument ∧
      List.Forall₂ Describes slots (instrument.zones.toList.map Zone.region) := by
  obtain ⟨sections, spelled, loaded⟩ := (lines_items slots).exists_sections_of_load
    (.inl String.toList_ofList) (fun _ => not_diverts_of_mem_items) valid supplier? report
  refine ⟨_, loaded, ?_⟩
  rw [(Instrument.paired_ofSections sections report).regions, Instrument.regions_ofSections]
  exact describes_declaredRegions spelled

theorem answers_iff {slot : Slot} {zone : Zone} (describes : slot.Describes zone.region)
    (pitch : Fin 128) : zone.region.StruckAt pitch.val ↔ slot.key = pitch := by
  have set : zone.region.onlyKey ≠ -1 := by
    rw [describes.key]
    omega
  have same : zone.region.onlyKey = pitch.val ↔ slot.key = pitch := by
    rw [describes.key, Fin.ext_iff, Int.natCast_inj]
  simp [Region.struckAt_iff, describes.struck, set, same]

def rangesAt (slots : List Slot) (pitch : Fin 128) : List (Int × Int) :=
  (slots.filter fun slot => slot.key = pitch).map range

section Cells

variable {slots : List Slot} {instrument : Instrument}
  (described : List.Forall₂ Describes slots (instrument.zones.toList.map Zone.region))
include described

theorem velocities_answering (pitch : Fin 128) :
    (instrument.answering pitch.val).map Zone.velocities = rangesAt slots pitch := by
  have zones := List.forall₂_map_right_iff.mp described
  clear described
  rw [Instrument.answering, rangesAt]
  generalize instrument.zones.toList = zones at zones
  induction zones with
  | nil => rfl
  | @cons slot zone _ _ describes _ ih =>
    have velocities : zone.velocities = slot.range := describes.range
    by_cases answers : slot.key = pitch
    · have struck := (answers_iff describes pitch).mpr answers
      simp [struck, answers, velocities, ih]
    · have silent := mt (answers_iff describes pitch).mp answers
      simp [silent, answers, ih]

theorem ranges_eq (pitch : Fin 128) :
    instrument.ranges pitch.val = (rangesAt slots pitch).eraseDups := by
  rw [Instrument.ranges, velocities_answering described]

theorem length_zonesOf (pitch : Fin 128) (range : Int × Int) :
    (instrument.zonesOf ⟨pitch.val, range⟩).length = (rangesAt slots pitch).count range := by
  rw [Instrument.zonesOf_eq_filter, ← velocities_answering described, List.count_eq_countP,
    List.countP_map, ← List.countP_eq_length_filter]
  apply List.countP_congr
  intro zone _
  simp

theorem not_isRoundRobin : ∀ zone ∈ instrument.zones.toList, zone.region.isRoundRobin = false := by
  have zones := List.forall₂_map_right_iff.mp described
  clear described
  generalize instrument.zones.toList = zones at zones
  induction zones with
  | nil => simp
  | cons describes _ ih =>
    exact List.forall_mem_cons.mpr ⟨by simp [Region.isRoundRobin, describes.unsequenced], ih⟩

end Cells

end Slot

end Sfz

import Mathlib.Data.List.Forall2
import Mathlib.Data.List.Induction
import Sfz.Proofs.Section.Grouping

/-! The grammar of sections.

Well-formed tokens are groups one after another, each a tag that names a section type and then
triples of a key, an equals sign and a value. The grouping reads exactly these into sections. All
other tokens begin with groups and come to a token with which no further beginning of them is made
of groups; there the grouping stops.
-/

set_option autoImplicit false

namespace Sfz

namespace SectionType

theorem ofTag?_eq_some_iff {tag : String} {type : SectionType} :
    ofTag? tag = some type ↔ type.NamedBy tag := by
  refine ⟨fun found => ?_, ofTag?_of_namedBy⟩
  have named := List.find?_some found
  exact lowerAscii_eq_name_iff.mp (of_decide_eq_true named).symm

theorem ofTag?_eq_none_iff {tag : String} :
    ofTag? tag = none ↔ ∀ type : SectionType, ¬type.NamedBy tag := by
  simp only [Option.eq_none_iff_forall_ne_some, ne_eq, ofTag?_eq_some_iff]

end SectionType

def Assignment.Triple (assignment : Assignment) (tokens : List Token) : Prop :=
  ∃ lineOfEqual lineOfValue, tokens =
    [⟨.identifier assignment.key, assignment.line⟩, ⟨.equal, lineOfEqual⟩,
      ⟨.identifier assignment.value, lineOfValue⟩]

namespace Section

/-- The tokens of a section: its tag, in any letter case, and the triples of its assignments. -/
def Group (part : Section) (tokens : List Token) : Prop :=
  ∃ tag triples, part.type.NamedBy tag ∧
    List.Forall₂ Assignment.Triple part.assignments triples ∧
    tokens = ⟨.tag tag, part.line⟩ :: triples.flatten

def Groups (sections : List Section) (tokens : List Token) : Prop :=
  ∃ groups, List.Forall₂ Group sections groups ∧ tokens = groups.flatten

theorem Group.concat {part : Section} {tokens : List Token} (group : part.Group tokens)
    {assignment : Assignment} {triple : List Token} (written : assignment.Triple triple) :
    Group { part with assignments := part.assignments ++ [assignment] } (tokens ++ triple) := by
  obtain ⟨tag, triples, named, each, rfl⟩ := group
  refine ⟨tag, triples ++ [triple], named, List.rel_append each (.cons written .nil), ?_⟩
  simp

theorem groups_nil_iff {tokens : List Token} : Groups [] tokens ↔ tokens = [] := by
  simp [Groups]

theorem groups_cons_iff {part : Section} {sections : List Section} {tokens : List Token} :
    Groups (part :: sections) tokens ↔
      ∃ group rest, part.Group group ∧ Groups sections rest ∧ tokens = group ++ rest := by
  constructor
  · rintro ⟨groups, each, rfl⟩
    cases each with
    | cons first others => exact ⟨_, _, first, ⟨_, others, rfl⟩, rfl⟩
  · rintro ⟨group, rest, first, ⟨groups, others, rfl⟩, rfl⟩
    exact ⟨group :: groups, .cons first others, rfl⟩

theorem groups_concat_iff {sections : List Section} {part : Section} {tokens : List Token} :
    Groups (sections ++ [part]) tokens ↔
      ∃ before group, Groups sections before ∧ part.Group group ∧ tokens = before ++ group := by
  induction sections generalizing tokens with
  | nil => simp [groups_cons_iff, groups_nil_iff]
  | cons first others ih =>
    simp only [List.cons_append, groups_cons_iff, ih]
    constructor
    · rintro ⟨head, _, isHead, ⟨middle, last, between, isLast, rfl⟩, rfl⟩
      exact ⟨head ++ middle, last, ⟨head, middle, isHead, between, rfl⟩, isLast,
        (List.append_assoc ..).symm⟩
    · rintro ⟨_, last, ⟨head, middle, isHead, between, rfl⟩, isLast, rfl⟩
      exact ⟨head, middle ++ last, isHead, ⟨middle, last, between, isLast, rfl⟩,
        List.append_assoc ..⟩

end Section

namespace Grouping

/-- A token that does not go on with the groups before it, given what comes behind it. -/
inductive Misfit (before : List Token) : Token → List Token → Fault → Prop where
  | unknownSection {name : String} {line : Nat} {rest : List Token} :
    (∀ type : SectionType, ¬type.NamedBy name) →
      Misfit before ⟨.tag name, line⟩ rest (.unknownSection name)
  | equalWithoutKey {line : Nat} {rest : List Token} :
    Misfit before ⟨.equal, line⟩ rest .equalWithoutKey
  | outsideSection {key : String} {line : Nat} {rest : List Token} :
    before = [] → Misfit before ⟨.identifier key, line⟩ rest (.outsideSection key)
  | missingEqual {key : String} {line : Nat} {rest : List Token} :
    before ≠ [] → (∀ line others, rest ≠ ⟨.equal, line⟩ :: others) →
      Misfit before ⟨.identifier key, line⟩ rest (.missingEqual key)
  | missingValue {key : String} {line lineOfEqual : Nat} {rest : List Token} :
    before ≠ [] → (∀ value line others, rest ≠ ⟨.identifier value, line⟩ :: others) →
      Misfit before ⟨.identifier key, line⟩ (⟨.equal, lineOfEqual⟩ :: rest) (.missingValue key)

/-- With less behind it a misfit remains one, if not for the same reason. -/
theorem Misfit.of_prefix {before rest fewer : List Token} {token : Token} {fault : Fault}
    (misfit : Misfit before token rest fault) (shorter : fewer <+: rest) :
    ∃ fault, Misfit before token fewer fault := by
  have goesOn {fewer rest : List Token} (shorter : fewer <+: rest) {next : Token}
      {others : List Token} (begins : fewer = next :: others) : ∃ more, rest = next :: more := by
    obtain ⟨more, rfl⟩ := shorter
    exact ⟨others ++ more, by rw [begins, List.cons_append]⟩
  cases misfit with
  | unknownSection unnamed => exact ⟨_, .unknownSection unnamed⟩
  | equalWithoutKey => exact ⟨_, .equalWithoutKey⟩
  | outsideSection first => exact ⟨_, .outsideSection first⟩
  | missingEqual inside noEqual =>
    refine ⟨_, .missingEqual inside fun line others begins => ?_⟩
    obtain ⟨more, whole⟩ := goesOn shorter begins
    exact noEqual line more whole
  | missingValue inside noValue =>
    cases fewer with
    | nil => exact ⟨_, .missingEqual inside nofun⟩
    | cons next fewer =>
      obtain ⟨rfl, behind⟩ := List.cons_prefix_cons.mp shorter
      refine ⟨_, .missingValue inside fun value line others begins => ?_⟩
      obtain ⟨more, whole⟩ := goesOn behind begins
      exact noValue value line more whole

structure Reached (before : List Token) (done : Array Section) (pending? : Option Pending) :
    Prop where
  groups : Section.Groups (closed done pending?).toList before
  first : pending? = none ↔ before = []

theorem reached_nil : Reached [] #[] none :=
  ⟨Section.groups_nil_iff.mpr rfl, by simp⟩

namespace Reached

variable {before : List Token} {done : Array Section}

theorem inside {pending : Pending} (reached : Reached before done (some pending)) :
    before ≠ [] := fun nothing => nomatch reached.first.mpr nothing

theorem tag {pending? : Option Pending} (reached : Reached before done pending?) {name : String}
    {type : SectionType} (named : SectionType.ofTag? name = some type) (line : Nat) :
    Reached (before ++ [⟨.tag name, line⟩]) (closed done pending?) (some { type, line }) where
  groups := by
    have group : Section.Group { type, line, assignments := [] } [⟨.tag name, line⟩] :=
      ⟨name, [], SectionType.ofTag?_eq_some_iff.mp named, .nil, rfl⟩
    rw [closed, Array.toList_push]
    exact Section.groups_concat_iff.mpr ⟨before, _, reached.groups, group, rfl⟩
  first := by simp

theorem triple {pending : Pending} (reached : Reached before done (some pending))
    (key value : String) (line lineOfEqual lineOfValue : Nat) :
    Reached
      (before ++ [⟨.identifier key, line⟩, ⟨.equal, lineOfEqual⟩, ⟨.identifier value, lineOfValue⟩])
      done (some { pending with
        assignments := pending.assignments.push { key, value, line } }) where
  groups := by
    have groups := reached.groups
    rw [closed, Array.toList_push, Section.groups_concat_iff] at groups
    obtain ⟨others, group, sections, last, rfl⟩ := groups
    have written : Assignment.Triple { key, value, line } _ := ⟨lineOfEqual, lineOfValue, rfl⟩
    have longer := last.concat written
    rw [closed, Array.toList_push, Section.groups_concat_iff]
    refine ⟨others, _, sections, ?_, List.append_assoc ..⟩
    rwa [Pending.close, Array.toList_push]
  first := by simp

end Reached

def Strays (tokens : List Token) (error : Error) : Prop :=
  ∃ before token rest, tokens = before ++ token :: rest ∧
    (∃ sections, Section.Groups sections before) ∧ Misfit before token rest error.fault ∧
    error.line = token.line + 1

theorem place_reached {before : List Token} {done : Array Section} {pending? : Option Pending}
    (reached : Reached before done pending?) (tokens : List Token) :
    match place done pending? tokens with
    | .ok sections => Section.Groups sections.toList (before ++ tokens)
    | .error error => Strays (before ++ tokens) error := by
  -- what carries the induction is that the tokens placed so far are groups
  fun_induction place done pending? tokens generalizing before with
  | case1 done pending? =>
    simp only [List.append_nil]
    exact reached.groups
  | case2 done pending? name line rest unnamed =>
    exact ⟨before, _, rest, rfl, ⟨_, reached.groups⟩,
      .unknownSection (SectionType.ofTag?_eq_none_iff.mp unnamed), rfl⟩
  | case3 done pending? name line rest type named ih =>
    have placed := ih (reached.tag named line)
    rwa [List.append_assoc] at placed
  | case4 done pending? line rest =>
    exact ⟨before, _, rest, rfl, ⟨_, reached.groups⟩, .equalWithoutKey, rfl⟩
  | case5 done key line rest =>
    exact ⟨before, _, rest, rfl, ⟨_, reached.groups⟩, .outsideSection (reached.first.mp rfl), rfl⟩
  | case6 done key line pending lineOfEqual value lineOfValue rest =>
    rename_i ih
    have placed := ih (reached.triple key value line lineOfEqual lineOfValue)
    rwa [List.append_assoc] at placed
  | case7 done key line pending lineOfEqual rest noValue =>
    exact ⟨before, _, _, rfl, ⟨_, reached.groups⟩, .missingValue reached.inside noValue, rfl⟩
  | case8 done key line rest pending _ noEqual =>
    exact ⟨before, _, rest, rfl, ⟨_, reached.groups⟩, .missingEqual reached.inside noEqual, rfl⟩

section Completeness

variable (done : Array Section)

theorem place_triples (pending : Pending) {assignments : List Assignment}
    {triples : List (List Token)} (each : List.Forall₂ Assignment.Triple assignments triples)
    (rest : List Token) :
    place done (some pending) (triples.flatten ++ rest) =
      place done (some { pending with
        assignments := pending.assignments ++ assignments }) rest := by
  induction each generalizing pending with
  | nil => simp
  | cons first _ ih =>
    obtain ⟨lineOfEqual, lineOfValue, rfl⟩ := first
    rw [List.flatten_cons, List.append_assoc]
    refine (ih { pending with assignments := pending.assignments.push _ }).trans ?_
    simp

theorem place_group (pending? : Option Pending) {part : Section} {group : List Token}
    (written : part.Group group) (rest : List Token) :
    ∃ pending : Pending, pending.close = part ∧
      place done pending? (group ++ rest) = place (closed done pending?) (some pending) rest := by
  obtain ⟨tag, triples, named, each, rfl⟩ := written
  refine ⟨{ type := part.type, line := part.line, assignments := part.assignments.toArray },
    rfl, ?_⟩
  rw [List.cons_append, place, SectionType.ofTag?_of_namedBy named]
  dsimp only
  rw [place_triples _ _ each]
  simp

end Completeness

theorem place_groups {sections : List Section} {tokens : List Token}
    (groups : Section.Groups sections tokens) (rest : List Token) :
    ∃ done pending?, place #[] none (tokens ++ rest) = place done pending? rest ∧
      (closed done pending?).toList = sections ∧ (pending? = none ↔ tokens = []) := by
  induction sections using List.reverseRecOn generalizing tokens rest with
  | nil =>
    rw [Section.groups_nil_iff] at groups
    exact ⟨#[], none, by rw [groups, List.nil_append], rfl, by simp [groups]⟩
  | append_singleton sections part ih =>
    obtain ⟨before, group, earlier, last, rfl⟩ := Section.groups_concat_iff.mp groups
    obtain ⟨done, pending?, placed, read, _⟩ := ih earlier (group ++ rest)
    obtain ⟨pending, closes, goesOn⟩ := place_group done pending? last rest
    refine ⟨closed done pending?, some pending, ?_, ?_, ?_⟩
    · rw [List.append_assoc, placed, goesOn]
    · rw [closed, Array.toList_push, read, closes]
    · obtain ⟨_, _, _, _, rfl⟩ := last
      simp

theorem place_misfit {before rest : List Token} {token : Token} {fault : Fault}
    (misfit : Misfit before token rest fault) (done : Array Section) {pending? : Option Pending}
    (first : pending? = none ↔ before = []) :
    place done pending? (token :: rest) = .error { fault, line := token.line + 1 } := by
  cases misfit with
  | unknownSection unnamed => rw [place, SectionType.ofTag?_eq_none_iff.mpr unnamed]
  | equalWithoutKey => rw [place]
  | outsideSection nothing => rw [first.mpr nothing, place]
  | missingEqual inside noEqual =>
    cases pending? with
    | none => exact absurd (first.mp rfl) inside
    | some pending =>
      rw [place]
      · exact fun line _ _ _ => noEqual line _
      · exact noEqual
  | missingValue inside noValue =>
    cases pending? with
    | none => exact absurd (first.mp rfl) inside
    | some pending =>
      rw [place]
      exact noValue

theorem ofTokens_reached (tokens : List Token) :
    match Section.ofTokens tokens with
    | .ok sections => Section.Groups sections tokens
    | .error error => Strays tokens error := by
  have placed := place_reached reached_nil tokens
  rw [List.nil_append] at placed
  rw [Section.ofTokens]
  cases outcome : place #[] none tokens with
  | ok sections =>
    rw [outcome] at placed
    exact placed
  | error error =>
    rw [outcome] at placed
    exact placed

theorem ofTokens_misfit {sections : List Section} {before rest : List Token} {token : Token}
    {fault : Fault} (groups : Section.Groups sections before)
    (misfit : Misfit before token rest fault) :
    Section.ofTokens (before ++ token :: rest) = .error { fault, line := token.line + 1 } := by
  obtain ⟨done, pending?, placed, _, first⟩ := place_groups groups (token :: rest)
  rw [Section.ofTokens, placed, place_misfit misfit done first]
  rfl

theorem ofTokens_groups {sections : List Section} {tokens : List Token}
    (groups : Section.Groups sections tokens) : Section.ofTokens tokens = .ok sections := by
  obtain ⟨done, pending?, placed, read, _⟩ := place_groups groups []
  rw [List.append_nil, place] at placed
  rw [Section.ofTokens, placed, ← read]
  rfl

/-- No longer beginning of the tokens is made of groups. -/
theorem Misfit.longest {before rest : List Token} {token : Token} {fault : Fault}
    (misfit : Misfit before token rest fault) {sections : List Section}
    (groups : Section.Groups sections before) {longer : List Token}
    (begins : longer <+: before ++ token :: rest) {others : List Section}
    (grouped : Section.Groups others longer) : longer.length ≤ before.length := by
  by_contra more
  -- a longer beginning holds the misfit, at which it cannot be grouped
  obtain ⟨behind, rfl⟩ : before <+: longer :=
    List.prefix_of_prefix_length_le (List.prefix_append _ _) begins (by omega)
  have shorter : behind <+: token :: rest := (List.prefix_append_right_inj before).mp begins
  cases behind with
  | nil => simp at more
  | cons next fewer =>
    obtain ⟨rfl, fewer⟩ := List.cons_prefix_cons.mp shorter
    obtain ⟨_, misfit⟩ := misfit.of_prefix fewer
    have failed := ofTokens_misfit groups misfit
    rw [ofTokens_groups grouped] at failed
    cases failed

end Grouping

/-- Tokens are grouped into sections exactly if they are the groups of these. Otherwise the error is
at the token behind the longest beginning of the tokens that is made of groups. -/
theorem Section.ofTokens_exact (tokens : List Token) :
    (∀ sections, ofTokens tokens = .ok sections ↔ Groups sections tokens) ∧
    ∀ error, ofTokens tokens = .error error ↔
      ∃ before token rest, tokens = before ++ token :: rest ∧
        (∃ sections, Groups sections before) ∧
        (∀ longer, longer <+: tokens → (∃ sections, Groups sections longer) →
          longer.length ≤ before.length) ∧
        Grouping.Misfit before token rest error.fault ∧ error.line = token.line + 1 := by
  have told := Grouping.ofTokens_reached tokens
  constructor
  · intro sections
    refine ⟨fun grouped => ?_, Grouping.ofTokens_groups⟩
    rwa [grouped] at told
  · intro error
    constructor
    · intro failed
      rw [failed] at told
      obtain ⟨before, token, rest, rfl, ⟨sections, groups⟩, misfit, line⟩ := told
      exact ⟨before, token, rest, rfl, ⟨sections, groups⟩,
        fun longer begins ⟨_, grouped⟩ => misfit.longest groups begins grouped, misfit, line⟩
    · rintro ⟨before, token, rest, rfl, ⟨sections, groups⟩, _, misfit, line⟩
      rw [Grouping.ofTokens_misfit groups misfit, ← line]

/-- A value is missing where the next tag stands; the key is at fault. -/
example :
    Section.ofTokens
        [⟨.tag "group", 0⟩, ⟨.identifier "key", 1⟩, ⟨.equal, 1⟩, ⟨.tag "region", 2⟩] =
      .error { fault := .missingValue "key", line := 2 } := by
  decide +kernel

end Sfz

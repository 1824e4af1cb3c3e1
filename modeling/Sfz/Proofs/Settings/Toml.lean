import Mathlib.Algebra.Group.Nat.Defs
import Sfz.Proofs.Toml.Library
import Sfz.Settings.Toml

/-! Settings that are written and read back.

Settings are written as a record, which a library of documents reads back field by field. Absent
fields take their defaults, and then every text is subject to the same check. So what is written is
read back exactly when it passes that check, whatever library is in use.
-/

set_option autoImplicit false

namespace Sfz.Settings

open Toml

variable {library : Toml.Library} {settings : Settings}

structure Writable (settings : Settings) : Prop where
  depth : settings.maxIncludeDepth < 2 ^ 63
  seed : ∀ seed ∈ settings.randomSeed, seed.toNat < 2 ^ 63

theorem writable_iff_fits :
    settings.Writable ↔ ∀ field, some field ∈ settings.fields.map Prod.snd → field.Fits := by
  constructor
  · intro writable field member
    simp only [fields, List.map_cons, List.map_nil, List.mem_cons, Option.some.injEq,
      List.not_mem_nil, or_false] at member
    rcases member with rfl | set | rfl
    · exact writable.depth
    · obtain ⟨seed, known, rfl⟩ := Option.map_eq_some_iff.mp set.symm
      exact writable.seed seed known
    · trivial
  · intro fit
    constructor
    · exact fit (.natural settings.maxIncludeDepth) List.mem_cons_self
    · intro seed known
      have member : some (.natural seed.toNat) ∈ settings.fields.map Prod.snd := by
        rw [Option.mem_def] at known
        simp [fields, known]
      exact fit _ member

theorem record_fields (settings : Settings) : Record settings.fields where
  bare := by
    change ∀ name ∈ ["max_include_depth", "random_seed", "warn_unrecognized"],
      Run isKeyChar name.toList
    decide +kernel
  distinct := by
    change ["max_include_depth", "random_seed", "warn_unrecognized"].Nodup
    decide +kernel

theorem natural?_natural {number : Nat} (small : number < 2 ^ 63) :
    natural? (some (.integer (Int64.ofNat number))) = .ok (some number) := by
  have positive : 0 ≤ Int64.ofNat number := by
    rw [Int64.le_iff_toInt_le, Int64.toInt_ofNat_of_lt small]
    exact Int.natCast_nonneg number
  rw [natural?, if_pos positive, Int64.toNatClampNeg_ofNat_of_lt small]

theorem natural?_lt {scalar? : Option Scalar} {number : Nat}
    (read : natural? scalar? = .ok (some number)) : number < 2 ^ 63 := by
  unfold natural? at read
  split at read
  · cases read
  · split at read <;> cases read
    exact Int64.toNatClampNeg_lt _
  · cases read

theorem ofRoot_fields (writable : settings.Writable) {root : String → Option Scalar}
    (told : ∀ name, root name = (settings.fields.lookup name).join.map Field.scalar) :
    ofRoot root = .ok settings := by
  have depth : root "max_include_depth" =
      some (.integer (Int64.ofNat settings.maxIncludeDepth)) := told _
  have seed : root "random_seed" =
      settings.randomSeed.map fun seed => .integer (Int64.ofNat seed.toNat) := by
    refine (told _).trans ?_
    change (settings.randomSeed.map fun seed => Field.natural seed.toNat).map Field.scalar = _
    rw [Option.map_map]
    rfl
  have warn : root "warn_unrecognized" = some (.boolean settings.warnUnrecognized) := told _
  have seedRead : natural? (root "random_seed") = .ok (settings.randomSeed.map UInt64.toNat) := by
    rw [seed]
    cases known : settings.randomSeed with
    | none => rfl
    | some seed => exact natural?_natural (writable.seed seed known)
  have seedKept : (settings.randomSeed.map UInt64.toNat).map UInt64.ofNat =
      settings.randomSeed := by
    cases settings.randomSeed <;> simp
  rw [ofRoot, depth, seedRead, warn, natural?_natural writable.depth]
  change Except.ok { settings with
    randomSeed := (settings.randomSeed.map UInt64.toNat).map UInt64.ofNat } = _
  rw [seedKept]

theorem fault?_of_le (shallow : settings.maxIncludeDepth ≤ 64) : settings.fault? = none :=
  if_neg (Nat.not_lt.mpr shallow)

theorem fault?_of_lt (deep : 64 < settings.maxIncludeDepth) :
    settings.fault? = some (.includeDepth settings.maxIncludeDepth) :=
  if_pos deep

section Lawful

variable (lawful : library.Lawful)
include lawful

/-- What is written is read as the settings it was written from, before they are checked. -/
theorem read_of_writable (writable : settings.Writable) :
    ∃ text, settings.write library = some text ∧
      read library text =
        match settings.fault? with
        | some error => .error error
        | none => .ok settings := by
  obtain ⟨text, root, written, found, told⟩ :=
    lawful.reads_back settings.fields settings.record_fields (writable_iff_fits.mp writable)
  refine ⟨text, written, ?_⟩
  rw [read, found]
  change (ofRoot root >>= _) = _
  rw [ofRoot_fields writable told]
  rfl

theorem write_of_not_writable (unwritable : ¬settings.Writable) :
    settings.write library = none := by
  rw [writable_iff_fits] at unwritable
  push Not at unwritable
  obtain ⟨field, member, large⟩ := unwritable
  exact lawful.refuses settings.fields field member large

end Lawful

section Read

theorem numbers_of_ofRoot {root : String → Option Scalar} (read : ofRoot root = .ok settings) :
    ∃ seed?, natural? (root "random_seed") = .ok seed? ∧
      settings.randomSeed = seed?.map UInt64.ofNat := by
  unfold ofRoot at read
  cases depth : natural? (root "max_include_depth") with
  | error _ => rw [depth] at read; cases read
  | ok depth? =>
    cases seed : natural? (root "random_seed") with
    | error _ => rw [depth, seed] at read; cases read
    | ok seed? =>
      cases warn : boolean? (root "warn_unrecognized") with
      | error _ => rw [depth, seed, warn] at read; cases read
      | ok warn? =>
        rw [depth, seed, warn] at read
        cases read
        exact ⟨seed?, rfl, rfl⟩

theorem exists_of_read {text : String} (accepted : read library text = .ok settings) :
    settings.fault? = none ∧
      ∃ root, library.read text = some root ∧ ofRoot root = .ok settings := by
  unfold read at accepted
  cases found : library.read text with
  | none => rw [found] at accepted; cases accepted
  | some root =>
    cases told : ofRoot root with
    | error _ =>
      rw [found] at accepted
      dsimp only at accepted
      rw [told] at accepted
      cases accepted
    | ok other =>
      rw [found] at accepted
      dsimp only at accepted
      rw [told] at accepted
      change (match other.fault? with | some error => _ | none => _) = _ at accepted
      split at accepted
      · cases accepted
      · next valid =>
        cases accepted
        exact ⟨valid, root, rfl, told⟩

theorem writable_of_read {text : String} (accepted : read library text = .ok settings) :
    settings.maxIncludeDepth ≤ 64 ∧ settings.Writable := by
  obtain ⟨valid, root, found, told⟩ := exists_of_read accepted
  obtain ⟨seed?, seed, setSeed⟩ := numbers_of_ofRoot told
  have shallow : settings.maxIncludeDepth ≤ 64 := by
    by_contra deep
    rw [fault?_of_lt (Nat.not_le.mp deep)] at valid
    cases valid
  refine ⟨shallow, by omega, ?_⟩
  intro value set
  rw [setSeed] at set
  obtain ⟨number, known, rfl⟩ := Option.map_eq_some_iff.mp set
  rw [known] at seed
  rw [UInt64.toNat_ofNat']
  exact Nat.lt_of_le_of_lt (Nat.mod_le _ _) (natural?_lt seed)

end Read

/-- Settings and their texts agree. With a library that obeys its laws, settings whose depth is at
most 64 and whose seed, if they have one, fits a signed integer of 64 bits are written and read
back; with a larger seed they are not written, and with a larger depth that fits they are written
and rejected. With any library, every text that is read gives settings of the first kind. -/
theorem toml_reads_back (library : Toml.Library) :
    (library.Lawful →
      (∀ settings : Settings, settings.maxIncludeDepth ≤ 64 →
        (∀ seed ∈ settings.randomSeed, seed.toNat ≤ 2 ^ 63 - 1) →
          ∃ text, settings.write library = some text ∧ read library text = .ok settings) ∧
      (∀ (settings : Settings) (seed : UInt64), settings.maxIncludeDepth ≤ 64 →
        settings.randomSeed = some seed → 2 ^ 63 - 1 < seed.toNat →
          settings.write library = none) ∧
      (∀ settings : Settings, 65 ≤ settings.maxIncludeDepth →
        settings.maxIncludeDepth ≤ 2 ^ 63 - 1 →
        (∀ seed ∈ settings.randomSeed, seed.toNat ≤ 2 ^ 63 - 1) →
          ∃ text, settings.write library = some text ∧
            read library text = .error (.includeDepth settings.maxIncludeDepth))) ∧
    ∀ (text : String) (settings : Settings), read library text = .ok settings →
      settings.maxIncludeDepth ≤ 64 ∧ ∀ seed ∈ settings.randomSeed, seed.toNat ≤ 2 ^ 63 - 1 := by
  refine ⟨fun lawful => ⟨?_, ?_, ?_⟩, ?_⟩
  · intro settings shallow seed
    have writable : settings.Writable :=
      ⟨by omega, fun value set => Nat.lt_of_le_sub_one (by decide) (seed value set)⟩
    have kept := read_of_writable lawful writable
    rwa [fault?_of_le shallow] at kept
  · intro settings seed _ set large
    apply write_of_not_writable lawful
    intro writable
    have small := writable.seed seed set
    omega
  · intro settings deep bounded seed
    have writable : settings.Writable :=
      ⟨by omega, fun value set => Nat.lt_of_le_sub_one (by decide) (seed value set)⟩
    have kept := read_of_writable lawful writable
    rwa [fault?_of_lt deep] at kept
  · intro text settings accepted
    obtain ⟨shallow, writable⟩ := writable_of_read accepted
    exact ⟨shallow, fun value set => Nat.le_sub_one_of_lt (writable.seed value set)⟩

/-- The largest settings, and what one more of depth or seed makes of them. -/
theorem toml_reads_back_largest :
    let largest : Settings :=
      { maxIncludeDepth := 64, randomSeed := some 9223372036854775807, warnUnrecognized := false }
    Toml.library.Lawful ∧
      (∃ text, largest.write Toml.library = some text ∧ read Toml.library text = .ok largest) ∧
      largest.write Toml.library = some ("max_include_depth = 64\n" ++
        "random_seed = 9223372036854775807\n" ++ "warn_unrecognized = false\n") ∧
      { largest with randomSeed := some 9223372036854775808 }.write Toml.library = none ∧
      ∃ text, { largest with maxIncludeDepth := 65 }.write Toml.library = some text ∧
        read Toml.library text = .error (.includeDepth 65) := by
  intro largest
  have seed : ∀ seed ∈ largest.randomSeed, seed.toNat ≤ 2 ^ 63 - 1 := by
    intro seed set
    cases set
    decide +kernel
  obtain ⟨readBack, refused, rejected⟩ := (toml_reads_back Toml.library).1 lawful_library
  exact ⟨lawful_library, readBack largest (by decide) seed, by decide +kernel,
    refused _ _ (by decide) rfl (by decide +kernel),
    rejected { largest with maxIncludeDepth := 65 } (by decide) (by decide) seed⟩

end Sfz.Settings

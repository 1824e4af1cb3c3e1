/-! The schema of recognized opcodes.

An opcode is the key of an assignment such as `lokey=60`. The schema is closed: every recognized
opcode has one name and one type of value, and any other text stands for `Opcode.unrecognized`.
The scanner consults the schema too, because a value of type `string` may contain blanks.
-/

set_option autoImplicit false

namespace Sfz

inductive ValueType where
  | int
  | float
  | string
  | discrete
  | unknown
  deriving DecidableEq, Repr

def ValueType.label : ValueType → String
  | .int => "Int"
  | .float => "Float"
  | .string => "String"
  | .discrete => "Discrete"
  | .unknown => "Unknown"

inductive Opcode where
  | hiKey
  | key
  | loKey
  | hiVel
  | loVel
  | sample
  | ampegRelease
  | loopMode
  | pitchKeycenter
  | loopStart
  | loopEnd
  | pan
  | group
  | trigger
  | volume
  | tune
  | offset
  | polyphony
  | pitchKeytrack
  | ampVeltrack
  | loRand
  | hiRand
  | seqLength
  | seqPosition
  | defaultPath
  | swLabel
  | swLast
  | swLoKey
  | swHiKey
  | swDefault
  | hiCc64
  | loCc64
  | unrecognized
  deriving DecidableEq, Repr

instance : Ord Opcode where
  compare first second := compare first.ctorIdx second.ctorIdx

instance : Std.TransOrd Opcode :=
  inferInstanceAs (Std.TransCmp (compareOn Opcode.ctorIdx))

instance : Std.LawfulEqOrd Opcode where
  eq_of_compare {first second} same := by
    have position : first.ctorIdx = second.ctorIdx := Std.LawfulEqOrd.eq_of_compare same
    rw [← Opcode.ofNat_ctorIdx first, position, Opcode.ofNat_ctorIdx]

namespace Opcode

def all : List Opcode :=
  [hiKey, key, loKey, hiVel, loVel, sample, ampegRelease, loopMode, pitchKeycenter, loopStart,
    loopEnd, pan, group, trigger, volume, tune, offset, polyphony, pitchKeytrack, ampVeltrack,
    loRand, hiRand, seqLength, seqPosition, defaultPath, swLabel, swLast, swLoKey, swHiKey,
    swDefault, hiCc64, loCc64]

def name? : Opcode → Option String
  | hiKey => "hikey"
  | key => "key"
  | loKey => "lokey"
  | hiVel => "hivel"
  | loVel => "lovel"
  | sample => "sample"
  | ampegRelease => "ampeg_release"
  | loopMode => "loop_mode"
  | pitchKeycenter => "pitch_keycenter"
  | loopStart => "loop_start"
  | loopEnd => "loop_end"
  | pan => "pan"
  | group => "group"
  | trigger => "trigger"
  | volume => "volume"
  | tune => "tune"
  | offset => "offset"
  | polyphony => "polyphony"
  | pitchKeytrack => "pitch_keytrack"
  | ampVeltrack => "amp_veltrack"
  | loRand => "lorand"
  | hiRand => "hirand"
  | seqLength => "seq_length"
  | seqPosition => "seq_position"
  | defaultPath => "default_path"
  | swLabel => "sw_label"
  | swLast => "sw_last"
  | swLoKey => "sw_lokey"
  | swHiKey => "sw_hikey"
  | swDefault => "sw_default"
  | hiCc64 => "hicc64"
  | loCc64 => "locc64"
  | unrecognized => none

def ofName (text : String) : Opcode :=
  (all.find? fun opcode => opcode.name? = some text).getD unrecognized

def valueType : Opcode → ValueType
  | ampegRelease | volume | ampVeltrack | loRand | hiRand => .float
  | sample | defaultPath | swLabel => .string
  | loopMode | trigger => .discrete
  | unrecognized => .unknown
  | _ => .int

theorem name?_eq_none_iff {opcode : Opcode} : opcode.name? = none ↔ opcode = unrecognized := by
  cases opcode <;> simp [name?]

theorem ofName_of_name? {text : String} {opcode : Opcode} (named : opcode.name? = some text) :
    ofName text = opcode := by
  cases opcode <;> simp only [name?, Option.some.injEq, reduceCtorEq] at named <;>
    subst named <;> decide

/-- Looking a name up undoes naming; no two opcodes share a name. -/
theorem ofName_eq_iff {text : String} {opcode : Opcode} (recognized : opcode ≠ unrecognized) :
    ofName text = opcode ↔ opcode.name? = some text := by
  refine ⟨fun found => ?_, ofName_of_name?⟩
  unfold ofName at found
  cases search : all.find? fun opcode => opcode.name? = some text with
  | none => simp [search] at found; exact absurd found.symm recognized
  | some other =>
    simp only [search, Option.getD_some] at found
    subst found
    simpa using List.find?_some search

end Opcode

def ValueType.ofKey (key : String) : ValueType :=
  (Opcode.ofName key).valueType

end Sfz

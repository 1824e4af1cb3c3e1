import Sfz.OpcodeTable

/-! Regions: the playable zones of an instrument.

A region answers notes whose key and velocity lie in its ranges. A key bound of -1 is not set and
bounds nothing. Opcodes that do not shape a region are ignored, and absent ones take their
defaults; a region whose values contradict each other is refused.
-/

set_option autoImplicit false

namespace Sfz

/-- The number, or the bound that it lies beyond. What compares with neither bound stays. -/
def clamp (low high number : Float32) : Float32 :=
  let raised := if number < low then low else number
  if high < raised then high else raised

/-- The single key, if it is set, replaces the range of keys. The keycenter is the key at which the
sample sounds as recorded; the release is in seconds, the tracking in percent, and the line that of
the tag, counted from 0. -/
structure Region where
  loKey : Int := -1
  hiKey : Int := -1
  onlyKey : Int := -1
  keycenter : Int := -1
  sampleFile : String := ""
  loVel : Int := 0
  hiVel : Int := 127
  ampegRelease : Float32 := 0.001
  ampVeltrack : Float32 := 100
  loRand : Float32 := 0
  hiRand : Float32 := 1
  seqLength : Int := 1
  seqPosition : Int := 1
  loopMode : Option Discrete := none
  trigger : Option Discrete := none
  line : Nat := 0
  deriving DecidableEq

namespace Region

inductive Fault where
  | notKey (name : String) (value : Int)
  | keysReversed (low high : Int)
  | notVelocity (name : String) (value : Int)
  | velocitiesReversed (low high : Int)
  | noSample
  deriving DecidableEq, Repr

def Fault.message : Fault → String
  | .notKey name value => s!"{name}={value} is not a MIDI key"
  | .keysReversed low high => s!"hikey={high} is below lokey={low}"
  | .notVelocity name value => s!"{name}={value} is not a MIDI velocity"
  | .velocitiesReversed low high => s!"hivel={high} is below lovel={low}"
  | .noSample => "no sample defined in region"

structure Error where
  fault : Fault
  line : Nat
  deriving DecidableEq, Repr

def Error.message (error : Error) : String :=
  s!"Invalid region at line {error.line}: {error.fault.message}"

def keyFault? (name : String) (value : Int) : Option Fault :=
  if -1 ≤ value ∧ value ≤ 127 then none else some (.notKey name value)

def velocityFault? (name : String) (value : Int) : Option Fault :=
  if 0 ≤ value ∧ value ≤ 127 then none else some (.notVelocity name value)

def fault? (region : Region) : Option Fault :=
  keyFault? "lokey" region.loKey
  <|> keyFault? "hikey" region.hiKey
  <|> keyFault? "key" region.onlyKey
  <|> keyFault? "pitch_keycenter" region.keycenter
  <|> (if region.loKey ≠ -1 ∧ region.hiKey ≠ -1 ∧ region.hiKey < region.loKey then
        some (.keysReversed region.loKey region.hiKey) else none)
  <|> velocityFault? "lovel" region.loVel
  <|> velocityFault? "hivel" region.hiVel
  <|> (if region.hiVel < region.loVel then
        some (.velocitiesReversed region.loVel region.hiVel) else none)

def draft (opcodes : OpcodeTable) (line : Nat) : Region :=
  let default : Region := {}
  let onlyKey := (opcodes.int? .key).getD default.onlyKey
  { loKey := (opcodes.int? .loKey).getD default.loKey
    hiKey := (opcodes.int? .hiKey).getD default.hiKey
    onlyKey
    keycenter := (opcodes.int? .pitchKeycenter).getD onlyKey
    sampleFile := (opcodes.string? .sample).getD default.sampleFile
    loVel := (opcodes.int? .loVel).getD default.loVel
    hiVel := (opcodes.int? .hiVel).getD default.hiVel
    ampegRelease := (opcodes.float? .ampegRelease).getD default.ampegRelease
    ampVeltrack := clamp 0 100 ((opcodes.float? .ampVeltrack).getD default.ampVeltrack)
    loRand := (opcodes.float? .loRand).getD default.loRand
    hiRand := (opcodes.float? .hiRand).getD default.hiRand
    seqLength := (opcodes.int? .seqLength).getD default.seqLength
    seqPosition := (opcodes.int? .seqPosition).getD default.seqPosition
    loopMode := (opcodes.discrete? .loopMode).bind Discrete.known?
    trigger := (opcodes.discrete? .trigger).bind Discrete.known?
    line }

/-- The region that a table describes. The key doubles as an absent keycenter. -/
def ofOpcodes (opcodes : OpcodeTable) (line : Nat) : Except Error Region :=
  match (draft opcodes line).fault? with
  | none => .ok (draft opcodes line)
  | some fault => .error { fault, line := line + 1 }

/-- Whether a key lies in the key range; a single key, when set, replaces the range. -/
def matchesPitch (region : Region) (pitch : Int) : Bool :=
  if region.onlyKey ≠ -1 then
    pitch = region.onlyKey
  else
    (region.loKey = -1 || region.loKey ≤ pitch) && (region.hiKey = -1 || pitch ≤ region.hiKey)

def matchesVelocity (region : Region) (velocity : Int) : Bool :=
  region.loVel ≤ velocity && velocity ≤ region.hiVel

def matchesNote (region : Region) (pitch velocity : Int) : Bool :=
  region.matchesPitch pitch && region.matchesVelocity velocity

def isReleaseTriggered (region : Region) : Bool :=
  region.trigger = some .release

def isRoundRobin (region : Region) : Bool :=
  1 < region.seqLength

end Region

end Sfz

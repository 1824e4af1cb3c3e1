import Sfz.Value

/-! What is asked of a player, what it answers and what it refuses. -/

set_option autoImplicit false

namespace Sfz

/-- A key being struck. Velocities outside 1 to 127 never sound. -/
structure Query where
  pitch : Int
  velocity : Int
  deriving DecidableEq, Repr

/-- How to play a sample, which is numbered from 1; 0 is no sample. The ratio is that of the speed
of playing to the speed of recording, and the release is in seconds. -/
structure Sound where
  sampleIndex : Nat := 0
  needsTranspose : Bool := false
  transposeRatio : Float32 := 1
  gain : Float32 := 1
  ampegRelease : Float32 := 0.001
  loopMode : Option Discrete := none
  deriving DecidableEq

/-- The answers to a series of queries, kept in one place: the last sound and whether the last
query had one. -/
structure PlayInfo where
  valid : Bool := false
  sound : Sound := {}
  deriving DecidableEq

namespace PlayInfo

def update (info : PlayInfo) : Option Sound → PlayInfo
  | none => { info with valid := false }
  | some sound => { valid := true, sound }

def canPlay (info : PlayInfo) : Bool :=
  info.valid && 0 < info.sound.sampleIndex

end PlayInfo

inductive PlayerError where
  | alreadyFinalized
  deriving DecidableEq, Repr

def PlayerError.message : PlayerError → String
  | .alreadyFinalized => "Voice player is already finalized"

end Sfz

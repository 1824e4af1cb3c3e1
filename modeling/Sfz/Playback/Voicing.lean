import Sfz.Playback.PowerOfTwo
import Sfz.Playback.Sound
import Sfz.Region

/-! The sound of a region at one pitch.

A voicing holds everything about the sound of a region at a pitch that can be computed before the
velocity is known, with the gains of all velocities in a table.
-/

set_option autoImplicit false

namespace Sfz

/-- The gain of a velocity when `tracking` percent of it count. The rest is filled up with the
loudest velocity, and the gain is the square of the sum in relation to that velocity. -/
def velocityGain (velocity : Int) (tracking : Float32) : Float32 :=
  let weighted := Float32.ofInt velocity * tracking / 100 + (100 - tracking) * (127 / 100)
  let relative := weighted / 127
  relative * relative

def transposeRatio (semitones : Int) : Float32 :=
  if semitones = 0 then 1 else powerOfTwo (Float32.ofInt semitones / 12)

structure Voicing where
  semitones : Int
  transposeRatio : Float32
  sampleIndex : Nat
  ampegRelease : Float32
  ampVeltrack : Float32
  loopMode : Option Discrete
  gains : Vector Float32 128
  deriving DecidableEq

def Region.semitones (region : Region) (pitch : Int) : Int :=
  if region.keycenter = -1 then 0 else pitch - region.keycenter

namespace Voicing

def ofRegion (region : Region) (pitch : Int) (sampleIndex : Nat) : Voicing :=
  { semitones := region.semitones pitch
    transposeRatio := Sfz.transposeRatio (region.semitones pitch)
    sampleIndex
    ampegRelease := region.ampegRelease
    ampVeltrack := region.ampVeltrack
    loopMode := region.loopMode
    gains := Vector.ofFn fun velocity => velocityGain (velocity.val : Int) region.ampVeltrack }

def needsTranspose (voicing : Voicing) : Bool :=
  voicing.semitones ≠ 0

def gain? (voicing : Voicing) (velocity : Int) : Option Float32 :=
  if playable : 1 ≤ velocity ∧ velocity ≤ 127 then
    some (voicing.gains.get ⟨velocity.toNat, by omega⟩)
  else
    none

def sound? (voicing : Voicing) (velocity : Int) : Option Sound :=
  (voicing.gain? velocity).map fun gain =>
    { sampleIndex := voicing.sampleIndex
      needsTranspose := voicing.needsTranspose
      transposeRatio := voicing.transposeRatio
      gain
      ampegRelease := voicing.ampegRelease
      loopMode := voicing.loopMode }

end Voicing

end Sfz

import Sfz.Draw
import Sfz.Instrument.Cells
import Sfz.Player

/-! The players of an instrument, for every pitch and velocity.

Every cell of a pitch has one player. A query goes to the first cell whose range holds its
velocity; it makes no sound if there is none, or if it lies outside the MIDI ranges.
-/

set_option autoImplicit false

namespace Sfz

def pitchCount : Nat := 128

structure Layer (σ : Type) where
  loVel : Int
  hiVel : Int
  player : Player σ

namespace Layer

variable {σ : Type}

def contains (layer : Layer σ) (velocity : Int) : Bool :=
  layer.loVel ≤ velocity && velocity ≤ layer.hiVel

def ofCell (source : σ) (cell : Cell) (pitch : Int) : Layer σ × List Warning :=
  let (player, warnings) := Player.ofZones source cell.zones.toList pitch
  ({ loVel := cell.loVel, hiVel := cell.hiVel, player }, warnings)

/-- Let the first layer that contains the velocity answer. -/
def playFirst [DrawSource σ] (query : Query) : List (Layer σ) → Option Sound × List (Layer σ)
  | [] => (none, [])
  | layer :: rest =>
    if layer.contains query.velocity then
      let (sound?, player) := layer.player.play query
      (sound?, { layer with player } :: rest)
    else
      let (sound?, rest) := playFirst query rest
      (sound?, layer :: rest)

end Layer

structure PlayerMap (σ : Type) where
  pitches : Vector (List (Layer σ)) pitchCount

namespace PlayerMap

variable {σ : Type}

/-- The players of an instrument, each with the source of draws of its pitch and layer, and the
warnings of the players in order. -/
def build (source : Nat → Nat → σ) (instrument : Instrument) : PlayerMap σ × List Warning :=
  let built : Vector (List (Layer σ × List Warning)) pitchCount :=
    Vector.ofFn fun pitch =>
      (instrument.cells pitch.val).mapIdx fun layer cell =>
        Layer.ofCell (source pitch.val layer) cell pitch.val
  ({ pitches := built.map fun layers => layers.map (·.1) },
    built.toList.flatMap fun layers => layers.flatMap (·.2))

def layers (map : PlayerMap σ) (pitch : Int) : List (Layer σ) :=
  if inRange : 0 ≤ pitch ∧ pitch < pitchCount then
    map.pitches.get ⟨pitch.toNat, by omega⟩
  else
    []

def play [DrawSource σ] (map : PlayerMap σ) (query : Query) : Option Sound × PlayerMap σ :=
  if 1 ≤ query.velocity ∧ query.velocity ≤ 127 then
    if inRange : 0 ≤ query.pitch ∧ query.pitch < pitchCount then
      have bound : query.pitch.toNat < pitchCount := by omega
      let (sound?, layers) := Layer.playFirst query map.pitches[query.pitch.toNat]
      (sound?, { pitches := map.pitches.set query.pitch.toNat layers })
    else
      (none, map)
  else
    (none, map)

def playInto [DrawSource σ] (map : PlayerMap σ) (info : PlayInfo) (query : Query) :
    PlayInfo × PlayerMap σ :=
  let (sound?, map) := map.play query
  (info.update sound?, map)

def cellSeed (seed : UInt64) (pitch layer : Nat) : UInt64 :=
  seed + UInt64.ofNat (pitch * pitchCount + layer) * 0x9E3779B97F4A7C15

def seeded (source : UInt64 → σ) (seed : UInt64) (instrument : Instrument) :
    PlayerMap σ × List Warning :=
  build (fun pitch layer => source (cellSeed seed pitch layer)) instrument

def ofSeed (seed : UInt64) (instrument : Instrument) : PlayerMap Keystream × List Warning :=
  seeded Keystream.ofSeed seed instrument

end PlayerMap

end Sfz

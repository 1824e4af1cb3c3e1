import Sfz.Diagnostics
import Sfz.Draw
import Sfz.Instrument
import Sfz.Playback.Voicing

/-! Players that pick a region at random.

Each entry has an upper bound, and a draw goes to the first entry whose bound lies above it. With
ascending bounds every entry thus owns the numbers from the bound before it to its own; a draw at
or above all bounds makes no sound. A finalized player with entries takes one draw for every
query, also if the velocity does not sound.
-/

set_option autoImplicit false

namespace Sfz

namespace WeightedRandom

structure Entry where
  voicing : Voicing
  upper : Float32
  deriving DecidableEq

def Entry.ofRegion (region : Region) (pitch : Int) (sampleIndex : Nat) : Entry :=
  { voicing := .ofRegion region pitch sampleIndex, upper := clamp 0 1 region.hiRand }

end WeightedRandom

structure WeightedRandom (σ : Type) where
  entries : Array WeightedRandom.Entry := #[]
  source : σ
  finalized : Bool := false

namespace WeightedRandom

variable {σ : Type}

def descends : List Entry → Bool
  | first :: second :: rest => second.upper < first.upper || descends (second :: rest)
  | _ => false

def select? (entries : Array Entry) (draw : Float32) : Option Entry :=
  entries.find? fun entry => draw < entry.upper

def push (player : WeightedRandom σ) (entry : Entry) : WeightedRandom σ :=
  { player with entries := player.entries.push entry }

def add (player : WeightedRandom σ) (region : Region) (pitch : Int) (sampleIndex : Nat) :
    Except PlayerError (WeightedRandom σ) :=
  if player.finalized then
    .error .alreadyFinalized
  else
    .ok (player.push (.ofRegion region pitch sampleIndex))

/-- Close the player to new entries, with a warning if its bounds do not ascend; a second time
this does nothing. -/
def finalize (player : WeightedRandom σ) : WeightedRandom σ × List Warning :=
  if player.finalized then
    (player, [])
  else
    ({ player with finalized := true },
      if descends player.entries.toList then [.unorderedBounds] else [])

def ofZones (source : σ) (zones : List Zone) (pitch : Int) : WeightedRandom σ × List Warning :=
  finalize
    { entries := (zones.map fun zone => .ofRegion zone.region pitch zone.sampleIndex).toArray
      source }

def play [DrawSource σ] (player : WeightedRandom σ) (query : Query) :
    Option Sound × WeightedRandom σ :=
  if player.finalized && !player.entries.isEmpty then
    let (draw, source) := DrawSource.draw player.source
    ((select? player.entries draw).bind fun entry => entry.voicing.sound? query.velocity,
      { player with source })
  else
    (none, player)

end WeightedRandom

end Sfz

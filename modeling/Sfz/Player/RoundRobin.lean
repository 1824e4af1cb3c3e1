import Sfz.Instrument
import Sfz.Playback.Voicing

/-! Players that take their regions in turn.

A player first collects entries and then, once finalized, cycles through them in the order of
their sequence positions; entries with equal positions keep their order. Every query takes the
next turn, whatever its pitch and velocity, and also if it makes no sound.
-/

set_option autoImplicit false

namespace Sfz

namespace RoundRobin

structure Entry where
  voicing : Voicing
  seqPosition : Int
  deriving DecidableEq

def Entry.ofRegion (region : Region) (pitch : Int) (sampleIndex : Nat) : Entry :=
  { voicing := .ofRegion region pitch sampleIndex, seqPosition := region.seqPosition }

end RoundRobin

structure RoundRobin where
  entries : Array RoundRobin.Entry := #[]
  cursor : Nat := 0
  finalized : Bool := false
  deriving DecidableEq

namespace RoundRobin

def inTurn (entries : List Entry) : List Entry :=
  entries.mergeSort fun first second => first.seqPosition ≤ second.seqPosition

def push (player : RoundRobin) (entry : Entry) : RoundRobin :=
  { player with entries := player.entries.push entry }

def add (player : RoundRobin) (region : Region) (pitch : Int) (sampleIndex : Nat) :
    Except PlayerError RoundRobin :=
  if player.finalized then
    .error .alreadyFinalized
  else
    .ok (player.push (.ofRegion region pitch sampleIndex))

/-- Put the entries in order and begin with the first; a second time this does nothing. -/
def finalize (player : RoundRobin) : RoundRobin :=
  if player.finalized then
    player
  else
    { entries := (inTurn player.entries.toList).toArray, cursor := 0, finalized := true }

def ofZones (zones : List Zone) (pitch : Int) : RoundRobin :=
  finalize
    { entries := (zones.map fun zone => .ofRegion zone.region pitch zone.sampleIndex).toArray }

def play (player : RoundRobin) (query : Query) : Option Sound × RoundRobin :=
  if player.finalized then
    match player.entries[player.cursor]? with
    | none => (none, player)
    | some entry =>
      (entry.voicing.sound? query.velocity,
        { player with cursor := (player.cursor + 1) % player.entries.size })
  else
    (none, player)

end RoundRobin

end Sfz

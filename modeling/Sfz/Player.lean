import Sfz.Player.RoundRobin
import Sfz.Player.WeightedRandom

/-! Players: what answers the queries of one pitch and velocity range. -/

set_option autoImplicit false

namespace Sfz

structure Single where
  voicing : Voicing
  line : Nat
  deriving DecidableEq

def Single.ofRegion (region : Region) (pitch : Int) (sampleIndex : Nat) : Single :=
  { voicing := .ofRegion region pitch sampleIndex, line := region.line }

/-- A player whose draws, if it needs any, come from a source of type `σ`. -/
inductive Player (σ : Type) where
  | silent
  | single (player : Single)
  | weightedRandom (player : WeightedRandom σ)
  | roundRobin (player : RoundRobin)

namespace Player

variable {σ : Type}

def kind : Player σ → String
  | silent => "null"
  | single _ => "single"
  | weightedRandom _ => "random"
  | roundRobin _ => "round-robin"

def isSilent : Player σ → Bool
  | silent => true
  | _ => false

def finalize : Player σ → Player σ × List Warning
  | weightedRandom player =>
    let (player, warnings) := player.finalize
    (weightedRandom player, warnings)
  | roundRobin player => (roundRobin player.finalize, [])
  | player => (player, [])

def play [DrawSource σ] (player : Player σ) (query : Query) : Option Sound × Player σ :=
  match player with
  | silent => (none, silent)
  | single only => (only.voicing.sound? query.velocity, player)
  | weightedRandom random =>
    let (sound?, random) := random.play query
    (sound?, weightedRandom random)
  | roundRobin turns =>
    let (sound?, turns) := turns.play query
    (sound?, roundRobin turns)

def playInto [DrawSource σ] (player : Player σ) (info : PlayInfo) (query : Query) :
    PlayInfo × Player σ :=
  let (sound?, player) := player.play query
  (info.update sound?, player)

/-- The player over the zones of one pitch and velocity range: in turn if any of several regions
belongs to a sequence, else at random. -/
def ofZones (source : σ) (zones : List Zone) (pitch : Int) : Player σ × List Warning :=
  match zones with
  | [] => (silent, [])
  | [zone] => (single (.ofRegion zone.region pitch zone.sampleIndex), [])
  | zones =>
    if zones.any fun zone => zone.region.isRoundRobin then
      (roundRobin (.ofZones zones pitch), [])
    else
      let (player, warnings) := WeightedRandom.ofZones source zones pitch
      (weightedRandom player, warnings)

end Player

end Sfz

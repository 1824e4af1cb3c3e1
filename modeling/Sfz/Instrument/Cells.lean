import Sfz.Instrument

/-! Grouping of the zones that answer a pitch.

The zones that answer a pitch when its key is struck are divided by velocity range, in the order
in which the ranges first appear. Regions that sound when a key is let go answer no key struck.
-/

set_option autoImplicit false

namespace Sfz

def Zone.answers (zone : Zone) (pitch : Int) : Bool :=
  !zone.region.isReleaseTriggered && zone.region.matchesPitch pitch

structure Cell where
  loVel : Int
  hiVel : Int
  zones : Array Zone
  deriving DecidableEq

namespace Cell

def fits (cell : Cell) (zone : Zone) : Bool :=
  cell.loVel = zone.region.loVel && cell.hiVel = zone.region.hiVel

def push (cell : Cell) (zone : Zone) : Cell :=
  { cell with zones := cell.zones.push zone }

def ofZone (zone : Zone) : Cell :=
  { loVel := zone.region.loVel, hiVel := zone.region.hiVel, zones := #[zone] }

/-- Put a zone into the first cell that it fits, or into a new one at the end. -/
def place (zone : Zone) : List Cell → List Cell
  | [] => [ofZone zone]
  | cell :: rest => if cell.fits zone then cell.push zone :: rest else cell :: place zone rest

end Cell

def Instrument.cells (instrument : Instrument) (pitch : Int) : List Cell :=
  (instrument.zones.toList.filter fun zone => zone.answers pitch).foldl
    (fun cells zone => Cell.place zone cells) []

end Sfz

import Std.Data.HashMap
import Sfz.Region

/-! Instruments: regions and the sample files that they share.

Sample files are numbered from 1 in the order of their first use, so that 0 can stand for no
sample at all. While regions are added, the number of every file met so far is kept in a cache.
-/

set_option autoImplicit false

namespace Sfz

/-- The regions in the order of the text, the numbers of their sample files in a list beside them,
and the distinct sample files in the order of their first use. -/
structure Instrument where
  regions : Array Region := #[]
  sampleIndices : Array Nat := #[]
  sampleFiles : Array String := #[]

structure Zone where
  region : Region
  sampleIndex : Nat
  deriving DecidableEq

namespace Instrument

def zones (instrument : Instrument) : Array Zone :=
  instrument.regions.zipWith Zone.mk instrument.sampleIndices

def sampleIndex? (instrument : Instrument) (position : Nat) : Option Nat :=
  instrument.sampleIndices[position]?

def describe (instrument : Instrument) : String :=
  s!"SFZ instrument: {instrument.regions.size} regions, {instrument.sampleFiles.size} samples"

end Instrument

structure Assembly where
  instrument : Instrument := {}
  cache : Std.HashMap String Nat := ∅

namespace Assembly

/-- The number of a sample file, with the file added if it is new. -/
def sampleIndexFor (assembly : Assembly) (file : String) : Nat × Assembly :=
  match assembly.cache[file]? with
  | some index => (index, assembly)
  | none =>
    let sampleFiles := assembly.instrument.sampleFiles.push file
    (sampleFiles.size,
      { instrument := { assembly.instrument with sampleFiles }
        cache := assembly.cache.insert file sampleFiles.size })

def add (assembly : Assembly) (region : Region) : Assembly :=
  let (sampleIndex, filed) := assembly.sampleIndexFor region.sampleFile
  { filed with
    instrument :=
      { filed.instrument with
        regions := filed.instrument.regions.push region
        sampleIndices := filed.instrument.sampleIndices.push sampleIndex } }

end Assembly

end Sfz

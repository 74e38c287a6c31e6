import CacheDelay.Overhead.Extraction
import CacheDelay.Topology.Basic

/-!
# Overheads by locality

The overheads of a trace, split by how far the task moved. A trace's `Overheads` are its valid
overheads in trace order, for the localities that the topology tells apart: on a machine without a
separate L2 level the shared-L2 locality is absent.
-/

namespace CacheDelay

open CacheDelay.Topology

namespace Overhead

/-- Samples split by locality, in their order. -/
abbrev Classified := ByLocality (List Sample)

/-- Splits samples by locality. -/
def classify (t : Topology) (samples : List Sample) : Classified :=
  .ofFun fun l => samples.filter fun s => t.classify s.currentCpu s.lastCpu = l

/-- The number of samples of all localities. -/
def Classified.size (c : Classified) : Nat := (Locality.all.flatMap c.get).length

end Overhead

/-- The valid overheads of one trace by locality, in trace order. -/
structure Overheads where
  sameCpu : List Int64
  /-- Absent if the topology has no separate L2 level. -/
  sameL2? : Option (List Int64)
  sameChip : List Int64
  offChip : List Int64
  deriving DecidableEq

namespace Overheads

/-- The overheads of classified samples, with or without a separate L2 level. -/
def ofClassified (c : Overhead.Classified) (hasL2 : Bool) : Overheads where
  sameCpu := c.sameCpu.map (·.overhead)
  sameL2? := if hasL2 then some (c.sameL2.map (·.overhead)) else none
  sameChip := c.sameChip.map (·.overhead)
  offChip := c.offChip.map (·.overhead)

/-- The overheads of a locality, if it is present. -/
def get? (o : Overheads) : Locality → Option (List Int64)
  | .sameCpu => some o.sameCpu
  | .sameL2 => o.sameL2?
  | .sameChip => some o.sameChip
  | .offChip => some o.offChip

/-- The localities present with their overheads, from the nearest outwards. -/
def toList (o : Overheads) : List (Locality × List Int64) :=
  Locality.all.filterMap fun l => (o.get? l).map fun values => (l, values)

/-- The number of overheads of all localities. -/
def size (o : Overheads) : Nat := (o.toList.flatMap (·.2)).length

/-- The number of overheads of each locality present. -/
def counts (o : Overheads) : ByLocality (Option Nat) :=
  .ofFun fun l => (o.get? l).map List.length

end Overheads

end CacheDelay

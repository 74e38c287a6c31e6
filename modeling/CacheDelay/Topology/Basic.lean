import CacheDelay.Topology.Locality
import CacheDelay.Topology.Sysfs

/-!
# Topologies

A topology says which locality a move between two CPUs has. Machines number their CPUs differently:
round-robin over the chips, chip by chip, or in a way that only the kernel's description tells.
-/

namespace CacheDelay.Topology

/-- CPUs numbered round-robin: CPU `n` is on chip `n % chips`, and consecutive CPUs of one chip
share an L2 cache in groups of `coresPerL2`. With no group size there is no separate L3 level. -/
structure Interleaved where
  coresPerL2 : UInt32
  chips : UInt32
  chips_pos : 0 < chips

/-- CPUs numbered chip by chip. -/
structure Linear where
  coresPerL2 : UInt32
  coresPerChip : UInt32
  coresPerChip_pos : 0 < coresPerChip

/-- An interleaved topology, if there are chips. -/
def Interleaved.create (coresPerL2 chips : UInt32) : Except Cause Interleaved :=
  if h : 0 < chips then .ok ⟨coresPerL2, chips, h⟩ else .error .noChips

/-- A linear topology, if chips have cores. -/
def Linear.create (coresPerL2 coresPerChip : UInt32) : Except Cause Linear :=
  if h : 0 < coresPerChip then .ok ⟨coresPerL2, coresPerChip, h⟩ else .error .noCoresPerChip

/-- The locality of a resume on `current` after running on `last`. -/
def Interleaved.classify (t : Interleaved) (current last : UInt32) : Locality :=
  if current = last then .sameCpu
  else if current % t.chips ≠ last % t.chips then .offChip
  else if 0 < t.coresPerL2 ∧ current / t.chips / t.coresPerL2 = last / t.chips / t.coresPerL2 then
    .sameL2
  else .sameChip

/-- The locality of a resume on `current` after running on `last`. -/
def Linear.classify (t : Linear) (current last : UInt32) : Locality :=
  if current = last then .sameCpu
  else if 0 < t.coresPerL2 ∧ current / t.coresPerL2 = last / t.coresPerL2 then .sameL2
  else if current / t.coresPerChip = last / t.coresPerChip then .sameChip
  else .offChip

/-- The least level of the caches of `last` that `current` shares. -/
def Hierarchy.sharedLevel? (h : Hierarchy) (current last : UInt32) : Option UInt32 :=
  (((h.cachesOf last).filter (·.shared.contains current)).map (·.level)).min?

/-- The locality of a resume on `current` after running on `last`. -/
def Hierarchy.classify (h : Hierarchy) (current last : UInt32) : Locality :=
  if current = last then .sameCpu
  else
    match h.sharedLevel? current last with
    | some level => if level ≤ 2 then .sameL2 else .sameChip
    | none => .offChip

end Topology

open CacheDelay.Topology

/-- A way to tell the locality of a move. -/
inductive Topology where
  | interleaved (layout : Interleaved)
  | linear (layout : Linear)
  | sysfs (hierarchy : Hierarchy)

namespace Topology

/-- The locality of a resume on `current` after running on `last`. -/
def classify (t : Topology) (current last : UInt32) : Locality :=
  match t with
  | .interleaved layout => layout.classify current last
  | .linear layout => layout.classify current last
  | .sysfs hierarchy => hierarchy.classify current last

/-- Whether the machine has an L2 level distinct from the chip. -/
def hasL2 : Topology → Bool
  | .interleaved layout => 0 < layout.coresPerL2
  | .linear layout => 0 < layout.coresPerL2
  | .sysfs _ => true

end Topology

end CacheDelay

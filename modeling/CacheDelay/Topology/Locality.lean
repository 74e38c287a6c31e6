/-!
# Localities

How far a task moved in the cache hierarchy when it resumed. Localities are ordered from the nearest
to the farthest. `ByLocality` holds one value for each.
-/

namespace CacheDelay.Topology

/-- Where a move falls in the cache hierarchy. -/
inductive Locality where
  /-- Resumed on the same CPU. -/
  | sameCpu
  /-- Moved between CPUs that share an L2 cache. -/
  | sameL2
  /-- Moved between CPUs that share only an L3 cache or the chip. -/
  | sameChip
  /-- Moved to another chip. -/
  | offChip
  deriving DecidableEq

namespace Locality

/-- All localities, from the nearest outwards. -/
def all : List Locality := [.sameCpu, .sameL2, .sameChip, .offChip]

/-- The distance of a locality. -/
def rank : Locality → Nat
  | .sameCpu => 0
  | .sameL2 => 1
  | .sameChip => 2
  | .offChip => 3

/-- The name of a locality in reports and file names. -/
def label : Locality → String
  | .sameCpu => "preemption"
  | .sameL2 => "l2cache"
  | .sameChip => "onchip"
  | .offChip => "offchip"

/-- The name of a locality in documents. -/
def documentName : Locality → String
  | .sameCpu => "Preemption"
  | .sameL2 => "SameL2"
  | .sameChip => "SameChipOrL3"
  | .offChip => "OffChip"

end Locality

/-- A value for each locality. -/
structure ByLocality (α : Type) where
  sameCpu : α
  sameL2 : α
  sameChip : α
  offChip : α

namespace ByLocality

/-- The value for a locality. -/
def get {α : Type} (v : ByLocality α) : Locality → α
  | .sameCpu => v.sameCpu
  | .sameL2 => v.sameL2
  | .sameChip => v.sameChip
  | .offChip => v.offChip

/-- The values that a function gives. -/
def ofFun {α : Type} (f : Locality → α) : ByLocality α :=
  ⟨f .sameCpu, f .sameL2, f .sameChip, f .offChip⟩

@[simp]
theorem get_ofFun {α : Type} (f : Locality → α) (l : Locality) : (ofFun f).get l = f l := by
  cases l <;> rfl

end ByLocality

end CacheDelay.Topology

import CacheDelay.Failure

/-!
# Memory of the process

A measuring task locks all its memory, so that no page is missing while it measures. The kernel lets
a process lock memory up to a limit. Storage that a process has once held stays part of it, so one
that has grown beyond the limit cannot lock its memory any more; one that has locked it can still
grow up to the limit.
-/

namespace CacheDelay.Kernel

/-- The memory of a process. -/
structure Memory where
  /-- The most bytes that the process may lock. -/
  limit : Nat
  /-- The bytes of the process without storage. -/
  base : Nat
  /-- The most bytes of storage that the process has held at a time. -/
  peak : Nat := 0

namespace Memory

/-- The memory after the process has held `bytes` bytes of storage. -/
def hold (m : Memory) (bytes : Nat) : Memory := { m with peak := max m.peak bytes }

/-- Locks the memory and gives the bytes that can still be had for storage. What was given back is
used again first. -/
def lock (m : Memory) : Except Failure Nat :=
  if m.limit < m.base + m.peak then .error (Cause.noMemory.failure.within .lockMemory)
  else .ok (m.limit - m.base)

end Memory

end CacheDelay.Kernel

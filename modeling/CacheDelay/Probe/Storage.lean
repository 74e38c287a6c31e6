import CacheDelay.Failure

/-!
# Storage

The probe reserves all its storage before it measures. A reservation fails when its bytes exceed
what a process can address, or when less than that is available.
-/

namespace CacheDelay.Probe

/-- The most bytes that one reservation can have. -/
def maxBytes : Nat := 0x7FFFFFFFFFFFFFFF

/-- Reserves `bytes` where `available` bytes can still be had, and gives what is left then. -/
def reserve (available bytes : Nat) : Except StorageFault Nat :=
  if maxBytes < bytes then .error .beyondAddressSpace
  else if available < bytes then .error .refused
  else .ok (available - bytes)

end CacheDelay.Probe

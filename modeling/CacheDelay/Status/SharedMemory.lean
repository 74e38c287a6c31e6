import CacheDelay.Failure
import CacheDelay.Status.Snapshot

/-!
# Shared memory

Anonymous memory of whole pages, at first all zero, that a stand-in for the scheduler writes and a
second mapping reads. A store must fit and be aligned; otherwise it changes nothing.
-/

namespace CacheDelay.Status

/-- The number of bytes of a page of memory. -/
def memoryPage : Nat := 4096

/-- `size` rounded up to whole pages of `page` bytes, at least one. A length that no 64-bit word
holds is refused. -/
def roundToPages (page size : Nat) : Except Cause Nat :=
  let length := (max size 1 + page - 1) / page * page
  if Text.maxWord64 < length then .error .productOverflow else .ok length

/-- `size` rounded up to whole pages of memory. -/
def wholePages (size : Nat) : Except Cause Nat := roundToPages memoryPage size

/-- Memory that can be mapped more than once: its size and what stands at each offset. -/
structure SharedMemory where
  size : Nat
  byteAt : Nat → UInt8

/-- What can be stored. -/
inductive Stored where
  | byte (value : UInt8)
  | word32 (value : UInt32)
  | word64 (value : UInt64)
  | page (value : ControlPage)

/-- The bytes of a stored value. -/
def Stored.encode : Stored → List UInt8
  | .byte value => [value]
  | .word32 value => littleEndian 4 value.toNat
  | .word64 value => littleEndian 8 value.toNat
  | .page value => value.encode

/-- The number of bytes of a stored value. -/
def Stored.width : Stored → Nat
  | .byte _ => 1
  | .word32 _ => 4
  | .word64 _ => 8
  | .page _ => pageBytes

/-- What the offset of a stored value must be a multiple of. -/
def Stored.alignment : Stored → Nat
  | .byte _ => 1
  | .word32 _ => 4
  | .word64 _ | .page _ => 8

namespace SharedMemory

/-- The longest name, in bytes. -/
def maxNameBytes : Nat := 249

/-- The greatest size of a file. -/
def maxFileBytes : Nat := 0x7FFFFFFFFFFFFFFF

/-- The longest stretch of addresses that a process has free, which lies below its program. -/
def addressBytes : Nat := 0x555555544000

/-- Memory of at least `size` bytes. A name cannot hold the character NUL. -/
def create (name : String) (size : Nat) : Except Failure SharedMemory := do
  let size ← (wholePages size).mapError Cause.failure
  match name.toUTF8.toList.findIdx? (· == 0) with
  | some position => .error ((Cause.nulInName position).failure.within (.nameMemory name))
  | none =>
    if maxNameBytes < name.utf8ByteSize then
      .error ((Cause.file .invalidArgument).failure.within (.createMemory name))
    else if maxFileBytes < size then .error (Cause.invalidRequest.failure.within (.sizeMemory name))
    else if size = 0 then .error Cause.emptyMemory.failure
    else if addressBytes < size then .error (Cause.noMemory.failure.within (.mapMemory name))
    else .ok ⟨size, fun _ => 0⟩

/-- The memory with `bytes` from `offset` on. -/
def write (m : SharedMemory) (offset : Nat) (bytes : List UInt8) : SharedMemory where
  size := m.size
  byteAt i := if offset ≤ i then (bytes[i - offset]?).getD (m.byteAt i) else m.byteAt i

/-- The memory with `value` at `offset`. -/
def store (m : SharedMemory) (offset : Nat) (value : Stored) : Except Cause SharedMemory :=
  let final := offset + value.width
  if Text.maxWord64 < final then .error .storeOverflow
  else if m.size < final then .error (.storeBeyondEnd value.width offset m.size)
  else if offset % value.alignment ≠ 0 then .error (.storeMisaligned offset)
  else .ok (m.write offset value.encode)

/-- What a mapping of the memory as a status page shows. -/
def snapshot (m : SharedMemory) : Snapshot :=
  .decode ((List.range pageBytes).map m.byteAt)

end SharedMemory

end CacheDelay.Status

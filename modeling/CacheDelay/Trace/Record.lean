import CacheDelay.Bytes
import CacheDelay.Trace.AccessKind

/-!
# Trace records

A `Sample` is what the probe keeps of a timed pass; a `Record` is the part of it that a trace file
holds. A record takes 32 bytes: its code at 0, the elapsed cycles at 8, the CPU at 16 and the length
of the preemption at 24, all little-endian, with zeros between them. Reading ignores the bytes
between the fields and keeps unknown codes.
-/

namespace CacheDelay.Trace

/-- One timed pass, as a trace file holds it. -/
structure Record where
  code : UInt8
  /-- Cycles taken by the pass. -/
  elapsed : UInt64
  cpu : UInt32
  /-- Cycles spent away from the CPU before the pass. -/
  length : UInt64
  deriving DecidableEq

/-- One timed pass, as the probe keeps it. -/
structure Sample where
  /-- Cycle count at the end of the pass. -/
  timestamp : UInt64
  kind : AccessKind
  elapsed : UInt64
  cpu : UInt32
  jobCount : UInt64
  schedCount : UInt64
  lastTask : UInt64
  length : UInt64
  deriving DecidableEq

/-- The part of a sample that is written to disk. -/
def Sample.record (s : Sample) : Record := ⟨s.kind.code, s.elapsed, s.cpu, s.length⟩

namespace Record

/-- The kind of a record, if its code is known. -/
def kind? (r : Record) : Option AccessKind := AccessKind.ofCode? r.code

/-- The number of bytes of a record. -/
def size : Nat := 32

/-- The bytes of a record. -/
def encode (r : Record) : List UInt8 :=
  r.code :: List.replicate 7 0 ++ littleEndian 8 r.elapsed.toNat ++ littleEndian 4 r.cpu.toNat
    ++ List.replicate 4 0 ++ littleEndian 8 r.length.toNat

/-- The buffer after a record was encoded into it: cleared, and then each field in its place. -/
def encodeInto (buffer : List UInt8) (r : Record) : List UInt8 :=
  let cleared := List.replicate buffer.length 0
  let coded := overwrite cleared 0 [r.code]
  let timed := overwrite coded 8 (littleEndian 8 r.elapsed.toNat)
  let placed := overwrite timed 16 (littleEndian 4 r.cpu.toNat)
  overwrite placed 24 (littleEndian 8 r.length.toNat)

/-- The record in the first 32 of `bytes`. -/
def decode (bytes : List UInt8) : Record where
  code := bytes.headD 0
  elapsed := UInt64.ofNat (ofLittleEndian (slice bytes 8 8))
  cpu := UInt32.ofNat (ofLittleEndian (slice bytes 16 4))
  length := UInt64.ofNat (ofLittleEndian (slice bytes 24 8))

end Record

end CacheDelay.Trace

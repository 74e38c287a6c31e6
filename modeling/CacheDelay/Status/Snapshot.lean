import CacheDelay.Bytes

/-!
# Snapshots of the status page

The scheduler publishes counters for a task in a page of 48 bytes without a lock. A snapshot is one
observation of that page, taken field by field in `readOrder`, so that it can mix two publications.
Two snapshots with the same job, schedule and CPU counters belong to one scheduling window.
-/

namespace CacheDelay.Status

/-- One observation of the status page. -/
structure Snapshot where
  /-- Jobs released for the task so far. -/
  jobCount : UInt64
  /-- Times the task was scheduled. -/
  schedCount : UInt64
  /-- CPU the task is running on. -/
  cpu : UInt32
  /-- Last real-time task that ran before this one. -/
  lastTask : UInt64
  /-- Cycle count when the task was last switched out. -/
  preemptStart : UInt64
  /-- Cycle count when the task was last switched back in. -/
  preemptEnd : UInt64
  deriving DecidableEq

/-- The page before anything is published. -/
def Snapshot.zero : Snapshot := ⟨0, 0, 0, 0, 0, 0⟩

/-- Whether two snapshots belong to the same uninterrupted scheduling window. The other fields
describe the past and take no part. -/
def Snapshot.sameWindow (a b : Snapshot) : Bool :=
  a.jobCount == b.jobCount && a.schedCount == b.schedCount && a.cpu == b.cpu

/-- Cycles spent away from the CPU in the last preemption, modulo 2⁶⁴. -/
def Snapshot.preemptionLength (s : Snapshot) : UInt64 := s.preemptEnd - s.preemptStart

/-! ## The page -/

/-- The fields of the status page. -/
inductive Field where
  | jobCount
  | schedCount
  | cpu
  | lastTask
  | preemptStart
  | preemptEnd
  deriving DecidableEq

/-- The fields in the order in which a snapshot reads them. -/
def readOrder : List Field :=
  [.jobCount, .schedCount, .cpu, .lastTask, .preemptStart, .preemptEnd]

/-- The position of a field in the page. -/
def Field.offset : Field → Nat
  | .jobCount => 0
  | .schedCount => 8
  | .cpu => 16
  | .lastTask => 24
  | .preemptStart => 32
  | .preemptEnd => 40

/-- The number of bytes of a field. -/
def Field.width : Field → Nat
  | .cpu => 4
  | _ => 8

/-- The value of a field. -/
def Snapshot.field (s : Snapshot) : Field → Nat
  | .jobCount => s.jobCount.toNat
  | .schedCount => s.schedCount.toNat
  | .cpu => s.cpu.toNat
  | .lastTask => s.lastTask.toNat
  | .preemptStart => s.preemptStart.toNat
  | .preemptEnd => s.preemptEnd.toNat

/-- The snapshot with the given values of the fields. -/
def Snapshot.ofFields (value : Field → Nat) : Snapshot where
  jobCount := UInt64.ofNat (value .jobCount)
  schedCount := UInt64.ofNat (value .schedCount)
  cpu := UInt32.ofNat (value .cpu)
  lastTask := UInt64.ofNat (value .lastTask)
  preemptStart := UInt64.ofNat (value .preemptStart)
  preemptEnd := UInt64.ofNat (value .preemptEnd)

/-- The number of bytes of the page. -/
def pageBytes : Nat := 48

/-- The page as the scheduler publishes it. -/
structure ControlPage where
  jobCount : UInt64
  schedCount : UInt64
  cpu : UInt32
  /-- Fills the page up to the next word. -/
  padding : UInt32
  lastTask : UInt64
  preemptStart : UInt64
  preemptEnd : UInt64

/-- The page that publishes a snapshot. -/
def Snapshot.toPage (s : Snapshot) : ControlPage :=
  ⟨s.jobCount, s.schedCount, s.cpu, 0, s.lastTask, s.preemptStart, s.preemptEnd⟩

/-- The snapshot that a page publishes. -/
def ControlPage.toSnapshot (p : ControlPage) : Snapshot :=
  ⟨p.jobCount, p.schedCount, p.cpu, p.lastTask, p.preemptStart, p.preemptEnd⟩

instance : Coe Snapshot ControlPage := ⟨Snapshot.toPage⟩

/-- The bytes of a page. -/
def ControlPage.encode (p : ControlPage) : List UInt8 :=
  littleEndian 8 p.jobCount.toNat ++ littleEndian 8 p.schedCount.toNat
    ++ littleEndian 4 p.cpu.toNat ++ littleEndian 4 p.padding.toNat
    ++ littleEndian 8 p.lastTask.toNat ++ littleEndian 8 p.preemptStart.toNat
    ++ littleEndian 8 p.preemptEnd.toNat

/-- The bytes that publish a snapshot. -/
def Snapshot.encode (s : Snapshot) : List UInt8 := s.toPage.encode

/-- The snapshot that mapped bytes show. Bytes beyond the end of a mapped file read as zero. -/
def Snapshot.decode (bytes : List UInt8) : Snapshot :=
  .ofFields fun f => ofLittleEndian (slice bytes f.offset f.width)

end CacheDelay.Status

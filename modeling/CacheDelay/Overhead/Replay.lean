import CacheDelay.Trace.Record

/-!
# Replay of a trace

Hot records come in windows of a fixed size, one window a job. The least cost among the leading
valid records of a window is the baseline of a warm cache; a window that begins with a suspect
record leaves none. A valid event that is replayed while there is a baseline yields an overhead: its
cost less the baseline.
-/

namespace CacheDelay.Overhead

open CacheDelay.Trace

/-- The cost of one preemption or migration. -/
structure Sample where
  /-- CPU the task resumed on. -/
  currentCpu : UInt32
  /-- CPU the task last ran on. -/
  lastCpu : UInt32
  /-- Cost of the event less the baseline, in cycles. -/
  overhead : Int64
  /-- Time spent away from the CPU, in cycles. -/
  length : Int64
  deriving DecidableEq

/-- What is known after replaying part of a trace. -/
structure Replay where
  /-- Hot records in a window, at least one. -/
  window : Nat
  /-- Least cost among the leading valid records of the window in progress, or of the last one. -/
  cost : UInt64
  /-- Leading valid records of the window in progress. -/
  validReads : Nat
  /-- Records of the window in progress. -/
  totalReads : Nat
  /-- Whether no record of the window in progress was suspect. -/
  clean : Bool
  /-- Whether the last complete window left a baseline. -/
  established : Bool
  /-- CPU of the last hot or event record. -/
  lastCpu : UInt32
  deriving DecidableEq

namespace Replay

/-- The start of a replay with windows of `window` records. -/
def start (window : Nat) : Replay := ⟨max window 1, 0, 0, 0, true, false, 0⟩

/-- The baseline in force. -/
def baseline? (r : Replay) : Option UInt64 := if r.established then some r.cost else none

/-- The replay with the next record of its window counted, not yet closed. -/
def countHot (r : Replay) (valid : Bool) (elapsed : UInt64) : Replay :=
  if r.clean && valid then
    { r with
      totalReads := r.totalReads + 1
      validReads := r.validReads + 1
      cost := if r.validReads = 0 then elapsed else min r.cost elapsed }
  else { r with totalReads := r.totalReads + 1, clean := false }

/-- The replay with its window closed if that is full. -/
def closeWindow (r : Replay) : Replay :=
  if r.totalReads = r.window then
    { r with
      established := decide (0 < r.validReads)
      validReads := 0
      totalReads := 0
      clean := true }
  else r

/-- The replay after a hot record. -/
def observeHot (r : Replay) (valid : Bool) (record : Record) : Replay :=
  { (r.countHot valid record.elapsed).closeWindow with lastCpu := record.cpu }

/-- The overhead of a valid event under a baseline. -/
def overheadOf (r : Replay) (record : Record) (baseline : UInt64) : Sample where
  currentCpu := record.cpu
  lastCpu := r.lastCpu
  overhead := (record.elapsed - baseline).toInt64
  length := record.length.toInt64

/-- The replay after one more record, and the overhead that the record yields. Cold records and
records of unknown kind change nothing. -/
def observe (r : Replay) (record : Record) : Replay × Option Sample :=
  match record.kind? with
  | none | some ⟨.cold, _⟩ => (r, none)
  | some ⟨.hot, valid⟩ => (r.observeHot valid record, none)
  | some ⟨.event, valid⟩ =>
    let sample? := if valid then r.baseline?.map (r.overheadOf record) else none
    ({ r with lastCpu := record.cpu }, sample?)

/-- The overheads that the given records yield, in order. -/
def overheads (r : Replay) : List Record → List Sample
  | [] => []
  | record :: rest =>
    let (r, sample?) := r.observe record
    sample?.toList ++ r.overheads rest

end Replay

end CacheDelay.Overhead

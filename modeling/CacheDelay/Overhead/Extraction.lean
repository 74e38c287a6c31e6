import CacheDelay.Overhead.Replay
import CacheDelay.Trace.File

/-!
# Extractions

All that an analysis takes from a trace: the overheads of its events, and the costs of its valid
cold, hot and event passes.
-/

namespace CacheDelay.Overhead

open CacheDelay.Files CacheDelay.Trace

/-- Everything recovered from one trace. -/
structure Extraction where
  /-- Overheads of valid events, in trace order. -/
  overheads : List Sample
  /-- Costs of valid cold passes. -/
  cold : List UInt64
  /-- Costs of valid hot passes. -/
  hot : List UInt64
  /-- Costs of valid event passes. -/
  events : List UInt64
  /-- Number of records. -/
  records : Nat
  /-- Number of records of unknown kind. -/
  unknown : Nat

/-- The costs of the valid passes of one sort. -/
def validCosts (pass : Pass) (records : List Record) : List UInt64 :=
  (records.filter fun r => r.kind? = some ⟨pass, true⟩).map (·.elapsed)

/-- Replays records with windows of `window` hot records. -/
def Extraction.ofRecords (records : List Record) (window : Nat) : Extraction where
  overheads := (Replay.start window).overheads records
  cold := validCosts .cold records
  hot := validCosts .hot records
  events := validCosts .event records
  records := records.length
  unknown := (records.filter fun r => r.kind? = none).length

/-- Replays the trace at `path`. -/
def Extraction.ofTrace (path : Path) (window : Nat) : Action Extraction := do
  pure (.ofRecords (← read path) window)

end CacheDelay.Overhead

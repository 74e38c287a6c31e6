import CacheDelay.Kernel.Memory
import CacheDelay.Text.Split

/-!
# Preparation of the measuring task

What the task asks of the kernel before a measurement: memory that stays in place, a CPU to run on
and a real-time priority. The latter two are checked against what a set of CPUs can hold and what
the policy admits. The kernel's description of a process tells as which user it runs.
-/

namespace CacheDelay.Kernel

open CacheDelay.Text

/-- The number of CPUs that a set of CPUs can hold. -/
def cpuSetSize : Nat := 1024

/-- Restricts the task to one CPU. -/
def pin (cpu : Nat) : Except Failure Unit :=
  if cpu < cpuSetSize then .ok () else .error (Cause.invalidRequest.failure.within (.pinTo cpu))

/-- Runs the task at a fixed real-time priority, which is from 1 to 99. -/
def setPriority (priority : Int) : Except Failure Unit :=
  if 1 ≤ priority ∧ priority ≤ 99 then .ok () else .error Cause.schedulerRefused.failure

/-- Locks the memory and applies the requested placement and priority. Gives the bytes that can
still be had for storage. -/
def setup (memory : Memory) (cpu? : Option Nat) (priority? : Option Int) : Except Failure Nat := do
  let available ← memory.lock
  cpu?.forM pin
  priority?.forM setPriority
  pure available

/-- The effective user in the kernel's description of a process: the second number on the line
`Uid:`. -/
def effectiveUser? (description : List Char) : Option Nat := do
  let line ← (lines description).find? ("Uid:".toList.isPrefixOf ·)
  let numeral ← (line.splitOn '\t')[2]?
  (readNumeral maxWord32 numeral).toOption

/-- Whether the described process runs with all privileges. -/
def runsAsRoot (description : List Char) : Bool := effectiveUser? description == some 0

end CacheDelay.Kernel

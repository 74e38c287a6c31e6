import CacheDelay.Probe.Ring
import CacheDelay.Probe.WorkingSets
import CacheDelay.Status.Snapshot
import CacheDelay.Trace.Record

/-!
# The probe

The probe polls the status page and compares it with what it saw at the last event it reacted to.
Before the first job it waits. On a new job it times a cold pass and then hot passes over a fresh
working set; when the task was scheduled anew or moved, it times one more pass; otherwise it keeps
the working set warm. A pass is valid if the page read right after it is in the same window.

`Probe.step` is a pure function of the probe and of a `Device`, which gives every reading of the
status page and of the cycle counter that the probe will take, in order, and the random numbers that
it will draw.
-/

namespace CacheDelay.Probe

open CacheDelay.Status CacheDelay.Trace

/-- Parameters of a measurement. -/
structure Config where
  /-- Working set size, in KiB. -/
  kib : Nat := 3072
  /-- Size of the largest cache, in KiB. -/
  cacheKib : Nat := 12 * 1024
  /-- Number of samples kept. -/
  capacity : Nat := 100000
  /-- Percentage of keep-warm accesses that read. -/
  readRatio : Nat := 75
  /-- Seed of the keep-warm accesses. -/
  seed : UInt64 := 12345
  /-- Hot passes a job. -/
  hotReads : Nat := 2
  /-- Time to measure, in milliseconds of task time. -/
  runtimeMs : Nat := 60000

/-- A generator of random numbers: for a seed, the number from 0 to `last` that it draws after `i`
others. -/
abbrev Generator := (seed : UInt64) → (i last : Nat) → Fin (last + 1)

/-- Everything that the probe will read: the snapshots of the status page and the values of the
cycle counter, each in the order of the readings, and the generator of its keep-warm accesses. -/
structure Device where
  status : Nat → Snapshot
  cycles : Nat → UInt64
  draw : Generator

/-- Running totals, modulo 2⁶⁴. -/
structure Counts where
  jobs : UInt64
  events : UInt64
  suspect : UInt64
  keepWarm : UInt64
  deriving DecidableEq

/-- What one poll did. -/
inductive Step where
  | waiting
  | newJob (slot : Nat)
  | event (kind : AccessKind)
  | keepWarm
  deriving DecidableEq

end CacheDelay.Probe

namespace CacheDelay

open CacheDelay.Status CacheDelay.Trace CacheDelay.Probe

/-- The state of a measurement. -/
structure Probe where
  config : Probe.Config
  sets : WorkingSets
  ring : Probe.Ring Sample
  /-- Random numbers drawn so far. -/
  drawn : Nat
  /-- The status page as of the last new job or event. -/
  current : Snapshot
  /-- The working set of the current job, once there is one. -/
  slot? : Option Nat
  counts : Counts
  /-- Snapshots read so far. -/
  polls : Nat
  /-- Counter values read so far. -/
  readings : Nat

namespace Probe

/-- Bytes of a sample in the probe's storage. -/
def sampleBytes : Nat := 56

/-- A probe before its first poll, where `available` bytes can be had for its storage. -/
def create (available : Nat) (config : Config) : Except Cause Probe := do
  if 100 < config.readRatio then throw (.badReadRatio config.readRatio)
  match setCount config.cacheKib config.kib with
  | none => throw (.hugeCache config.cacheKib config.kib)
  | some count =>
    let (sets, available) ← WorkingSets.create available config.kib count
    let (ring, _) ← Ring.create available sampleBytes config.capacity
    pure { config, sets, ring, drawn := 0, current := .zero, slot? := none
           counts := ⟨0, 0, 0, 0⟩, polls := 0, readings := 0 }

/-! ## Steps -/

/-- The next reading of the status page. -/
def poll (p : Probe) (device : Device) : Snapshot × Probe :=
  (device.status p.polls, { p with polls := p.polls + 1 })

/-- Times one pass over `slot` and records it as `pass`. -/
def record (p : Probe) (device : Device) (slot : Nat) (pass : Pass) (length : UInt64) :
    AccessKind × Probe :=
  let start := device.cycles p.readings
  let stop := device.cycles (p.readings + 1)
  let after := device.status p.polls
  let kind : AccessKind := ⟨pass, p.current.sameWindow after⟩
  let sample : Sample :=
    { timestamp := stop, kind, elapsed := stop - start, cpu := p.current.cpu
      jobCount := p.current.jobCount, schedCount := p.current.schedCount
      lastTask := p.current.lastTask, length }
  let suspect := p.counts.suspect + if kind.valid then 0 else 1
  (kind, { p with
    sets := p.sets.touch slot
    ring := p.ring.push sample
    counts := { p.counts with suspect }
    polls := p.polls + 1
    readings := p.readings + 2 })

/-- Times `n` hot passes over `slot`. -/
def recordHot (device : Device) (slot : Nat) : Nat → Probe → Probe
  | 0, p => p
  | n + 1, p => recordHot device slot n (p.record device slot .hot 0).2

/-- One access to a random word of `slot`, a read as often as the read ratio says. -/
def warm (p : Probe) (device : Device) (slot : Nat) : Probe :=
  let percent := (device.draw p.config.seed p.drawn 99).val
  let offset := (device.draw p.config.seed (p.drawn + 1) (p.sets.wordsPerSet - 1)).val
  let sets := if percent < p.config.readRatio then p.sets
    else p.sets.write slot offset (UInt32.ofNat offset)
  { p with
    sets
    drawn := p.drawn + 2
    counts := { p.counts with keepWarm := p.counts.keepWarm + 1 } }

/-- Starts the job that `now` shows. -/
def startJob (p : Probe) (device : Device) (now : Snapshot) : Step × Probe :=
  let slot := now.jobCount.toNat % p.sets.count
  let started := { p with
    current := now
    slot? := some slot
    counts := { p.counts with jobs := p.counts.jobs + 1 } }
  let cold := (started.record device slot .cold 0).2
  (.newJob slot, recordHot device slot cold.config.hotReads cold)

/-- Times a pass after the preemption or migration that `now` shows. -/
def resume (p : Probe) (device : Device) (slot : Nat) (now : Snapshot) : Step × Probe :=
  let resumed := { p with
    current := now
    counts := { p.counts with events := p.counts.events + 1 } }
  let (kind, p) := resumed.record device slot .event now.preemptionLength
  (.event kind, p)

/-- Polls the status page once and acts on it. -/
def step (p : Probe) (device : Device) : Step × Probe :=
  let (now, p) := p.poll device
  if now.jobCount ≠ p.current.jobCount then p.startJob device now
  else
    match p.slot? with
    | none => (.waiting, p)
    | some slot =>
      if now.schedCount ≠ p.current.schedCount ∨ now.cpu ≠ p.current.cpu then
        p.resume device slot now
      else (.keepWarm, p.warm device slot)

/-- Polls `n` times. -/
def steps (device : Device) : Nat → Probe → List Step × Probe
  | 0, p => ([], p)
  | n + 1, p =>
    let (step, p) := p.step device
    let (rest, p) := steps device n p
    (step :: rest, p)

/-! ## Runs -/

/-- Whether jobs of the given period have not used up the time to measure. The product saturates at
the greatest 64-bit word. -/
def withinBudget (p : Probe) (periodMs : Nat) : Bool :=
  min (p.current.jobCount.toNat * periodMs) Text.maxWord64 < p.config.runtimeMs

/-- Polls until the time to measure is used up, at most `fuel` times; nothing if that is too few. -/
def pollWithin (device : Device) (periodMs : Nat) : Nat → Probe → Option Probe
  | 0, p => if p.withinBudget periodMs then none else some p
  | fuel + 1, p =>
    if p.withinBudget periodMs then pollWithin device periodMs fuel (p.step device).2 else some p

/-- Polls until a task of the given period has used up its time to measure. -/
def run (p : Probe) (device : Device) (periodMs fuel : Nat) : Except Cause (Option Probe) :=
  if periodMs = 0 then .error .zeroPeriod else .ok (pollWithin device periodMs fuel p)

/-- The samples kept, oldest first. -/
def samples (p : Probe) : List Sample := p.ring.toList

end Probe

end CacheDelay

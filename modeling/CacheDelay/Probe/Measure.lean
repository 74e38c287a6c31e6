import CacheDelay.Probe.Basic
import CacheDelay.Trace.File

/-!
# Measurements

A measurement runs a probe and appends what it kept to a trace. The trace is opened before anything
is reserved or measured, so that an unusable path is noticed first.
-/

namespace CacheDelay.Probe

open CacheDelay.Files CacheDelay.Trace

/-- Appends the samples kept to an open trace and gives their number. -/
def finish (p : Probe) (writer : Writer) : Action Nat := do
  if p.ring.isEmpty then Action.warn .noSamples
  else if p.ring.wrapped then Action.warn (.samplesLost p.ring.capacity)
  writer.appendSamples p.samples
  pure p.ring.size

/-- Measures a task of the given period once `output` is open and what the probe needs is reserved,
where `available` bytes can be had for storage. Gives the open trace and the probe that has run, or
nothing if `fuel` polls are too few. -/
def runInto (available : Nat) (output : Path) (device : Device) (config : Config)
    (periodMs fuel : Nat) : Action (Option (Writer × Probe)) := do
  let writer ← Writer.create output
  let probe ← Action.ofExcept (create available config)
  let probe? ← Action.ofExcept (probe.run device periodMs fuel)
  pure (probe?.map (writer, ·))

/-- Measures a task as `runInto` does and appends the samples to `output`. Gives their number.
Nothing is appended and nothing returned if `fuel` polls are too few. -/
def measure (available : Nat) (output : Path) (device : Device) (config : Config)
    (periodMs fuel : Nat) : Action (Option Nat) := do
  match ← runInto available output device config periodMs fuel with
  | none => pure none
  | some (writer, probe) => some <$> probe.finish writer

end CacheDelay.Probe

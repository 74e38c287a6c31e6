import CacheDelay.Analysis.Batch
import CacheDelay.Cli.Command
import CacheDelay.Kernel.Clock
import CacheDelay.Kernel.Setup
import CacheDelay.Probe.Measure
import CacheDelay.Report.Render
import CacheDelay.Report.Table

/-!
# Running commands

What each command does, as an action on the files, and how the program answers a command line.
-/

namespace CacheDelay.Cli

open CacheDelay.Analysis CacheDelay.Files CacheDelay.Kernel CacheDelay.Report CacheDelay.Status
open CacheDelay.Topology

/-- What a command takes from the machine it runs on, its files apart. -/
structure Host where
  /-- What the kernel says about the clock. -/
  clock : ClockFiles
  /-- The values of the cycle counter. -/
  cycles : Nat → UInt64
  /-- The generator of random numbers. -/
  draw : Probe.Generator
  /-- The approximation of distributions. -/
  approximate : List Binary64 → Stats.Distribution
  /-- Whether the program runs with the privileges of the system's administrator. -/
  isRoot : Bool
  /-- The memory of the process. -/
  memory : Memory
  /-- The most polls that a measurement takes. -/
  fuel : Nat

/-! ## Dump -/

/-- The line of a record. -/
def recordLine (r : Trace.Record) : String :=
  "(" ++ String.singleton (Char.ofNat r.code.toNat) ++ ") - ACC " ++ toString r.elapsed.toNat
    ++ ", CPU " ++ toString r.cpu.toNat ++ ", PLEN " ++ toString r.length.toNat

/-- The lines of records. -/
def recordLines (records : List Trace.Record) : String :=
  String.join (records.map fun r => recordLine r ++ "\n")

/-- Prints every record of a trace. -/
def dump (trace : Path) : Action Unit := do
  Action.print (recordLines (← Trace.read trace))

/-! ## Analyze -/

/-- The frequency and unit of an analysis. -/
def clockOf (host : Host) (args : AnalyzeArgs) : Action (Binary64 × String) :=
  if args.cycles then pure (1, "cycles")
  else
    match args.mhz?.or host.clock.mhz? with
    | some mhz => pure (mhz, "us")
    | none => do
      Action.warn (.clockUnknown defaultMhz)
      pure (defaultMhz, "us")

/-- The topology that the arguments describe. -/
def topologyOf (args : AnalyzeArgs) : Action Topology :=
  let word := UInt32.ofNat
  match args.topology with
  | .interleaved => do
    pure (.interleaved (← Action.ofExcept
      (Interleaved.create (word args.coresPerL2) (word args.chips))))
  | .linear => do
    pure (.linear (← Action.ofExcept
      (Linear.create (word args.coresPerL2) (word args.coresPerChip))))
  | .sysfs => do pure (.sysfs (← Hierarchy.read args.sysfsRoot))

/-- Prints a report and appends its rows to the tables. -/
def publish (args : AnalyzeArgs) (verbose : Bool) (report : Report) : Action Unit := do
  Action.print (if args.json then report.renderDocument ++ "\n" else report.render verbose)
  match args.csvDirectory? with
  | none => pure ()
  | some dir => let _ ← report.appendRows dir

/-- Analyses traces, and then prints their reports in order. -/
def analyze (host : Host) (args : AnalyzeArgs) (verbose : Bool) : Action Unit := do
  let (mhz, unit) ← clockOf host args
  let topology ← topologyOf args
  let config : Report.Config :=
    { hotWindow := args.hotReads, mhz, unit, limits := args.limits, extent? := args.extent?
      hasL2 := topology.hasL2, approximate := host.approximate }
  Action.ofExcept config.validate
  let reports ← reportBatch args.traces topology config ⟨args.autocap, args.readSaved⟩
  reports.forM (publish args verbose)

/-! ## Probe -/

/-- The period of the measured task. A task that runs under no reservation has none of its own. -/
def periodOf (args : ProbeArgs) : Action Nat :=
  match args.periodMs? with
  | some period => pure period
  | none => Action.fail .noPeriod

/-- The parameters of the measurement that the arguments describe. -/
def ProbeArgs.config (args : ProbeArgs) : Probe.Config :=
  { kib := args.kib, cacheKib := args.cacheKib, runtimeMs := args.runtimeMs }

/-- Prepares the task and finds its period and status page: all that a measurement needs first.
Gives with them the bytes that can be had for storage. -/
def prepare (host : Host) (args : ProbeArgs) : Action (Nat × Nat × Snapshot) := do
  if !(args.skipRootCheck || host.isRoot) then Action.fail .notRoot
  let available ← Action.lift (setup host.memory args.cpu? args.fifoPriority?)
  let period ← periodOf args
  pure (available, period, ← observe args.statusDevice)

/-- Measures a task whose status page does not change and appends the samples to a trace. -/
def probe (host : Host) (args : ProbeArgs) : Action Unit := do
  let (available, period, snapshot) ← prepare host args
  let device : Probe.Device := ⟨fun _ => snapshot, host.cycles, host.draw⟩
  let _ ← Probe.measure available args.output device args.config period host.fuel

/-! ## Commands -/

/-- Runs a command. -/
def Command.run (host : Host) : Command → Action Unit
  | .probe args => Cli.probe host args
  | .analyze args verbose => Cli.analyze host args verbose
  | .dump trace => Cli.dump trace

end CacheDelay.Cli

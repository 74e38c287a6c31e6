import CacheDelay.Kernel.Counters
import CacheDelay.Main
import CacheDelay.Proofs.Overhead.Retained
import CacheDelay.Status.SharedMemory
import CacheDelay.Proofs.Actions
import CacheDelay.Proofs.Bytes
import CacheDelay.Proofs.Files.Tree
import CacheDelay.Proofs.Trace.Record
import CacheDelay.Proofs.Trace.File
import CacheDelay.Proofs.Files.Path
import CacheDelay.Proofs.Overhead.Saved
import CacheDelay.Proofs.Probe.Jobs
import CacheDelay.Proofs.Probe.Changes
import CacheDelay.Proofs.Topology.Linear
import CacheDelay.Proofs.Overhead.Classified
import CacheDelay.Proofs.Overhead.Shared
import CacheDelay.Proofs.Analysis.Batch
import CacheDelay.Proofs.Analysis.Reload
import CacheDelay.Proofs.Files.Rewritten
import CacheDelay.Proofs.Overhead.Savable
import CacheDelay.Proofs.Analysis.Recovery
import CacheDelay.Proofs.Analysis.Runs
import CacheDelay.Proofs.Analysis.Independent
import CacheDelay.Proofs.Analysis.Capped
import CacheDelay.Proofs.Probe.Measure
import CacheDelay.Proofs.Overhead.Appended
import CacheDelay.Proofs.Status.Window
import CacheDelay.Proofs.Overhead.Interrupted
import CacheDelay.Proofs.Topology.Described
import CacheDelay.Proofs.Probe.Rotation
import CacheDelay.Proofs.Topology.Interleaved
import CacheDelay.Proofs.Files.Relisted
import CacheDelay.Proofs.Topology.Reading
import CacheDelay.Proofs.Topology.Order
import CacheDelay.Proofs.Overhead.Resaved
import CacheDelay.Proofs.Stats.Exact
import CacheDelay.Proofs.Stats.Running
import CacheDelay.Proofs.Stats.Percentile
import CacheDelay.Proofs.Stats.Quartiles
import CacheDelay.Proofs.Status.SharedMemory
import CacheDelay.Proofs.Decimal.Layout
import CacheDelay.Proofs.Stats.Density
import CacheDelay.Proofs.Kernel.Counters
import CacheDelay.Proofs.Report.Params
import CacheDelay.Proofs.Cli.Dump
import CacheDelay.Proofs.Files.Appended
import CacheDelay.Proofs.Report.Table
import CacheDelay.Proofs.Frames
import CacheDelay.Proofs.Analysis.Frames
import CacheDelay.Proofs.Cli.Analyze
import CacheDelay.Proofs.Trace.Padding
import CacheDelay.Proofs.Files.Sibling
import CacheDelay.Proofs.Overhead.Beside
import CacheDelay.Proofs.Decimal.Nearest
import CacheDelay.Proofs.Decimal.Reader
import CacheDelay.Proofs.Kernel.Clock
import CacheDelay.Proofs.Stats.Estimates
import CacheDelay.Proofs.Status.Pages

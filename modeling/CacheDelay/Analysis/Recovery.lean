import CacheDelay.Overhead.Saved
import CacheDelay.Report.Basic

/-!
# Analysis of one trace

The overheads of a trace are extracted by a replay and saved beside it, or reloaded from there.
-/

namespace CacheDelay.Analysis

open CacheDelay.Files CacheDelay.Overhead CacheDelay.Report

/-- The overheads recovered from one trace. -/
structure Recovery where
  trace : Path
  /-- The replay; none if the overheads were reloaded. -/
  extraction? : Option Extraction
  overheads : Overheads

namespace Recovery

/-- Replays a trace, classifies its overheads and saves them beside it. -/
def replay (trace : Path) (topology : Topology) (config : Config) : Action Recovery := do
  let extraction ← Extraction.ofTrace trace config.hotWindow
  let classified := classify topology extraction.overheads
  if classified.size = 0 then Action.warn (.noOverheads trace)
  let overheads := Overheads.ofClassified classified config.hasL2
  let _ ← overheads.save trace
  pure ⟨trace, some extraction, overheads⟩

/-- Reloads the overheads that were saved beside a trace. -/
def load (trace : Path) (config : Config) : Action Recovery := do
  let overheads ← Overheads.load trace config.hasL2
  if overheads.size = 0 then Action.warn (.noSavedOverheads trace)
  pure ⟨trace, none, overheads⟩

/-- The report on recovered overheads. -/
def report (t : Recovery) (caps : Limits) (config : Config) : Report :=
  .ofOverheads t.trace t.overheads t.extraction? caps config

end Recovery

/-- Extracts, classifies and summarises one trace. -/
def reportOn (trace : Path) (topology : Topology) (config : Config) : Action Report := do
  pure ((← Recovery.replay trace topology config).report Limits.none config)

end CacheDelay.Analysis

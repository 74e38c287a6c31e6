import CacheDelay.Overhead.Classified
import CacheDelay.Report.Config
import CacheDelay.Report.Params
import CacheDelay.Stats.Density
import CacheDelay.Stats.Quartiles
import CacheDelay.Stats.Rough
import CacheDelay.Stats.Summary

/-!
# Reports

The statistics of one trace: rough ones of its cold, hot and event passes, and those of its
overheads by locality. Overheads beyond the outlier bounds are dropped first, then all beyond the
limit.
-/

namespace CacheDelay

open CacheDelay.Files CacheDelay.Overhead CacheDelay.Report CacheDelay.Stats CacheDelay.Topology

namespace Report

/-- Rough statistics of one sort of passes. -/
structure Population where
  label : String
  stats? : Option (Rough Binary64)

/-- Statistics of the overheads of one locality. -/
structure Entry where
  locality : Locality
  /-- Number of overheads. -/
  samples : Nat
  /-- Number of overheads left by the outlier bounds and the limit. -/
  used : Nat
  summary : Summary Binary64
  rough? : Option (Rough Binary64)
  estimates? : Option (Estimates Binary64)

end Report

/-- The outcome of analysing one trace. -/
structure Report where
  trace : Path
  /-- Whether the overheads were reloaded and not extracted from the trace. -/
  reloaded : Bool
  params : Params
  unit : String
  mhz : Binary64
  records : Nat
  unknown : Nat
  overheads : Nat
  populations : List Population
  entries : List Entry

namespace Report

/-- The overheads that enter the statistics: those within the outlier bounds, as many as the limit
admits. -/
def usedValues (extent? : Option Binary64) (limit? : Option Nat) (values : List Int64) :
    List Binary64 :=
  let floats := values.map fun v => Binary64.ofInt v.toInt
  let kept := match extent? with
    | none => floats
    | some extent => withinQuartiles floats extent
  match limit? with
  | none => kept
  | some limit => kept.take limit

/-- The statistics of the overheads of one locality. -/
def Entry.ofValues (config : Config) (limits : Limits) (entry : Locality × List Int64) : Entry :=
  let values := usedValues config.extent? (limits.get entry.1) entry.2
  { locality := entry.1
    samples := entry.2.length
    used := values.length
    summary := Summary.ofValues values config.mhz
    rough? := Rough.ofValues values config.mhz
    estimates? := if values.isEmpty then none
      else some (config.approximate (values.map (· / config.mhz))).estimates }

/-- Rough statistics of the passes of an extraction. -/
def Population.ofExtraction (e : Extraction) (mhz : Binary64) : List Population :=
  [⟨"Cold cache", Rough.ofCycles e.cold mhz⟩, ⟨"Hot cache", Rough.ofCycles e.hot mhz⟩,
    ⟨"After preemption", Rough.ofCycles e.events mhz⟩]

/-- The report on a trace with the given overheads. There is no extraction if they were reloaded.
The caps hold where the configuration sets no limit. -/
def ofOverheads (trace : Path) (overheads : Overheads) (extraction? : Option Extraction)
    (caps : Limits) (config : Config) : Report where
  trace
  reloaded := extraction?.isNone
  params := Params.ofName trace
  unit := config.unit
  mhz := config.mhz
  records := (extraction?.map (·.records)).getD 0
  unknown := (extraction?.map (·.unknown)).getD 0
  overheads := overheads.size
  populations := (extraction?.map (Population.ofExtraction · config.mhz)).getD []
  entries := overheads.toList.map (Entry.ofValues config (config.limits.orElse caps))

end Report

end CacheDelay

import CacheDelay.Failure
import CacheDelay.Stats.Estimates
import CacheDelay.Topology.Locality

/-!
# Configurations of an analysis

How overheads are turned into statistics: the unit of time, the samples that are used, the
localities that are told apart, and how quantiles are estimated, which any approximation of
distributions may do.
-/

namespace CacheDelay.Report

open CacheDelay.Stats CacheDelay.Topology

/-- Caps on the numbers of samples that enter the statistics. -/
abbrev Limits := ByLocality (Option Nat)

/-- No caps. -/
def Limits.none : Limits := .ofFun fun _ => Option.none

/-- The limits, with those of `other` where none is set. -/
def Limits.orElse (limits other : Limits) : Limits :=
  .ofFun fun l => (limits.get l).or (other.get l)

/-- The clock frequency assumed where none is known, in MHz. -/
def defaultMhz : Binary64 := 2128.207

/-- How to turn a trace into a report. -/
structure Config where
  /-- Hot records of a job in the trace. -/
  hotWindow : Nat := 2
  /-- What every cycle count is divided by. -/
  mhz : Binary64 := defaultMhz
  /-- The unit that this gives. -/
  unit : String := "us"
  limits : Limits := Limits.none
  /-- Interquartile ranges beyond which overheads are dropped; all are kept if there are none. -/
  extent? : Option Binary64 := none
  /-- Whether the topology has a separate L2 level. -/
  hasL2 : Bool := true
  /-- How the distribution of a batch of values is approximated. -/
  approximate : List Binary64 → Distribution := Distribution.digested

/-- Refuses frequencies and extents that would leave no number in the statistics. -/
def Config.validate (c : Config) : Except Cause Unit :=
  if !(c.mhz.isFinite && 0 < c.mhz) then .error (.badClock c.mhz)
  else
    match c.extent? with
    | none => .ok ()
    | some extent =>
      if extent.isFinite && 0 ≤ extent then .ok () else .error (.badExtent extent)

end CacheDelay.Report

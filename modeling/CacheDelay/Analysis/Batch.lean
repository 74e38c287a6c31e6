import CacheDelay.Analysis.Recovery

/-!
# Analysis of many traces

Traces are analysed in order, in groups of consecutive traces with one working set size. The samples
of a group can be capped at the sample counts of its trace with the fewest preemptions.
-/

namespace CacheDelay.Analysis

open CacheDelay.Files CacheDelay.Report

/-- How a batch of traces is analysed. -/
structure BatchPlan where
  /-- Whether to cap samples at the counts of the trace with the fewest preemptions in its group. -/
  cap : Bool
  /-- Whether to reload saved overheads instead of replaying the traces. -/
  reload : Bool

/-- The first of the traces with the fewest preemptions. -/
def fewestPreemptions? (traces : List Recovery) : Option Recovery :=
  traces.foldl (fun best? t =>
    match best? with
    | none => some t
    | some best =>
      if t.overheads.sameCpu.length < best.overheads.sameCpu.length then some t else some best) none

/-- The sample counts of the trace with the fewest preemptions; no caps if there are no traces. -/
def groupCaps (traces : List Recovery) : Limits :=
  ((fewestPreemptions? traces).map (·.overheads.counts)).getD Limits.none

/-- Whether two traces have one working set size in their names, or none. -/
def sameWorkingSet (a b : Path) : Bool :=
  (Params.ofName a).get? "wss" == (Params.ofName b).get? "wss"

/-- The overheads of one trace of a batch. -/
def recover (topology : Topology) (config : Config) (plan : BatchPlan) (trace : Path) :
    Action Recovery := do
  if trace.extension? ≠ some "raw".toList then Action.warn (.notRaw trace)
  if plan.reload then Recovery.load trace config
  else Recovery.replay trace topology config

/-- The reports on one group of traces. -/
def reportGroup (topology : Topology) (config : Config) (plan : BatchPlan)
    (group : List Path) : Action (List Report) := do
  let traces ← group.mapM (recover topology config plan)
  let caps := if plan.cap then groupCaps traces else Limits.none
  pure (traces.map (·.report caps config))

/-- The reports on a batch of traces, in their order. Saved overheads do not record the counts to
cap at, so that a plan with both is refused. -/
def reportBatch (traces : List Path) (topology : Topology) (config : Config)
    (plan : BatchPlan) : Action (List Report) := do
  if plan.cap && plan.reload then Action.fail .cappedReload
  let reports ← (traces.splitBy sameWorkingSet).mapM (reportGroup topology config plan)
  pure reports.flatten

end CacheDelay.Analysis

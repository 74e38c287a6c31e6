import CacheDelay.Report.Basic
import CacheDelay.World

/-!
# Tables

Reports can be appended to tables of comma-separated rows, one table for each working set size and
locality, with one row a trace.
-/

namespace CacheDelay.Report

open CacheDelay.Files CacheDelay.Topology

/-- The row of a locality: task set size, greatest overhead, average, and one deviation below and
above it. -/
def row (r : Report) (e : Entry) : String :=
  let s := e.summary
  let numbers := [s.greatest, s.average, s.average - s.deviation, s.average + s.deviation]
  ", ".intercalate (((r.params.get? "tss").getD "-") :: numbers.map (Decimal.fixed 5))

/-- The name of the table for traces with the given parameters and for a locality. -/
def tableName (params : Params) (l : Locality) : String :=
  "pm_wss=" ++ (params.get? "wss").getD "unknown" ++ "_ovd=" ++ l.label ++ ".csv"

/-- Appends the row of a locality to its table in `dir` and gives the file written. -/
def appendRow (r : Report) (dir : Path) (e : Entry) : Action Path := do
  let path := dir.child (tableName r.params e.locality)
  let handle ← (Action.openNew path).within (.openTable path)
  let line := (r.row e ++ "\n").toUTF8.toList
  (Action.update (·.appendTo handle line)).within (.writeTable path)
  pure path

/-- Appends the rows of a report to the tables in `dir` and gives the files written. -/
def appendRows (r : Report) (dir : Path) : Action (List Path) :=
  r.entries.mapM (r.appendRow dir)

end CacheDelay.Report

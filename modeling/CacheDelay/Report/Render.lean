import CacheDelay.Report.Basic
import CacheDelay.Text.Json

/-!
# Renderings of reports

A report as text for people and as a JSON document.
-/

namespace CacheDelay.Report

open CacheDelay.Stats CacheDelay.Text

/-! ## Text -/

/-- `s` with blanks after it up to the given width. -/
def padRight (width : Nat) (s : String) : String :=
  s ++ String.ofList (List.replicate (width - s.length) ' ')

/-- The first line of a report. -/
def headLine (r : Report) : String :=
  if r.reloaded then
    s!"# {r.trace.text}: {r.overheads} saved overheads, times in {r.unit}"
  else
    s!"# {r.trace.text}: {r.records} records ({r.unknown} unknown), " ++
      s!"{r.overheads} overheads, times in {r.unit}"

/-- The line of a population. -/
def Population.line (p : Population) : String :=
  "# " ++ p.label ++ ": " ++ match p.stats? with
    | none => "no samples"
    | some stats => stats.text

/-- The number of samples of a population. -/
def Population.count (p : Population) : Nat := (p.stats?.map (·.count)).getD 0

/-- The lines of the populations, followed by their sizes; none for reloaded overheads. -/
def populationLines (populations : List Population) : List String :=
  match populations with
  | [] => []
  | _ =>
    let counts := populations.map fun p => toString p.count
    populations.map Population.line ++ ["## Nsamples(c,h,p): " ++ ", ".intercalate counts]

/-- The line of a locality. -/
def Entry.line (e : Entry) : String :=
  let places := Decimal.fixed 5
  padRight 12 e.locality.label ++ " samples=" ++ padRight 7 (toString e.samples) ++ " used="
    ++ padRight 7 (toString e.used) ++ " max=" ++ places e.summary.greatest ++ " avg="
    ++ places e.summary.average ++ " std=" ++ places e.summary.deviation

/-- The lines of a locality; with its density if the report is verbose. -/
def Entry.lines (verbose : Bool) (e : Entry) : List String :=
  match e.estimates? with
  | some estimates =>
    if verbose then [e.line, "    " ++ estimates.density defaultWidth] else [e.line]
  | none => [e.line]

/-- A report as text. -/
def render (r : Report) (verbose : Bool) : String :=
  let head := headLine r :: populationLines r.populations
  String.join ((head ++ r.entries.flatMap (Entry.lines verbose)).map (· ++ "\n"))

/-! ## Documents -/

/-- Rough statistics as a document. -/
def roughDocument (stats? : Option (Rough Binary64)) : Json :=
  match stats? with
  | none => .null
  | some r => .object [("count", .natural r.count), ("min", .float r.least),
      ("max", .float r.greatest), ("mean", .float r.mean), ("stddev", .float r.deviation)]

/-- A summary as a document. -/
def summaryDocument (s : Summary Binary64) : Json :=
  .object [("count", .natural s.count), ("max", .float s.greatest), ("avg", .float s.average),
    ("std", .float s.deviation)]

/-- A population as a document. -/
def Population.document (p : Population) : Json :=
  .object [("label", .string p.label), ("stats", roughDocument p.stats?)]

/-- The statistics of a locality as a document. -/
def Entry.document (e : Entry) : Json :=
  .object [("bucket", .string e.locality.documentName), ("samples", .natural e.samples),
    ("used", .natural e.used), ("summary", summaryDocument e.summary),
    ("rough", roughDocument e.rough?)]

/-- A report as a document. -/
def document (r : Report) : Json :=
  .object [("trace", .string r.trace.text), ("reloaded", .bool r.reloaded),
    ("params", .object (r.params.map fun entry => (entry.1, .string entry.2))),
    ("unit", .string r.unit), ("cpu_mhz", .float r.mhz), ("records", .natural r.records),
    ("unknown", .natural r.unknown), ("overheads", .natural r.overheads),
    ("populations", .array (r.populations.map Population.document)),
    ("buckets", .array (r.entries.map Entry.document))]

/-- A report as the text of a document. -/
def renderDocument (r : Report) : String := r.document.render 0

end CacheDelay.Report

import CacheDelay.Files.Path
import CacheDelay.Text.Split

/-!
# Parameters in file names

The name of a trace tells how it was recorded, in parts between underscores of the form `key=value`,
as in `res_plugin=GSN-EDF_wss=1024_tss=20.raw`. Parts of another form say nothing; of two parts with
one key the later one counts.
-/

namespace CacheDelay.Report

open CacheDelay.Files CacheDelay.Text

/-- Parameters by key, in ascending order of the keys. -/
abbrev Params := List (String × String)

namespace Params

/-- The parameters with `value` for `key`. -/
def insert (key value : String) : Params → Params
  | [] => [(key, value)]
  | entry :: rest =>
    if key < entry.1 then (key, value) :: entry :: rest
    else if key = entry.1 then (key, value) :: rest
    else entry :: insert key value rest

/-- The value of a key. -/
def get? (params : Params) (key : String) : Option String :=
  (params.find? (·.1 == key)).map (·.2)

/-- The parameters with those of one part of a name. -/
def addPart (params : Params) (part : List Char) : Params :=
  match cutAt '=' part with
  | none => params
  | some (key, value) => params.insert (String.ofList key) (String.ofList value)

/-- The parameters in the name of a trace. -/
def ofName (trace : Path) : Params := (trace.stem.splitOn '_').foldl addPart []

end Params

end CacheDelay.Report

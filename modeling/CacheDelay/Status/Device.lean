import CacheDelay.Status.Snapshot
import CacheDelay.World

/-!
# The status device

The file that shows the status page of a task.
-/

namespace CacheDelay.Status

open CacheDelay.Files

/-- The device used unless another one is named. -/
def defaultDevice : Path := ⟨"/dev/litmus/ctrl"⟩

/-- The snapshot that the page in a file shows. Only a regular file can be mapped. -/
def observe (path : Path) : Action Snapshot := do
  let place ← (Action.query (·.locate path)).within (.openStatus path)
  match (← get).files.node? place with
  | some (.file _ content) => pure (.decode content)
  | _ => ((Action.fail .notMappable).within .mapPage).within (.mapStatus path)

end CacheDelay.Status

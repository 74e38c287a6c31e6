import CacheDelay.Topology.CpuList
import CacheDelay.World

/-!
# Cache hierarchies from sysfs

The kernel describes the caches of CPU `N` in directories `cpuN/cache/indexM`, each with files
`level`, `type` and `shared_cpu_list`. Directories of other names are ignored, and so are caches of
type `Instruction` or `Unknown`.
-/

namespace CacheDelay.Topology

open CacheDelay.Files CacheDelay.Text

/-- One data or unified cache of a CPU. -/
structure Cache where
  level : UInt32
  /-- The CPUs that share the cache. -/
  shared : List UInt32
  deriving DecidableEq

/-- The caches of each CPU that is described. -/
structure Hierarchy where
  caches : List (UInt32 × List Cache)

namespace Hierarchy

/-- The number of CPUs described. -/
def cpus (h : Hierarchy) : Nat := h.caches.length

/-- The caches of a CPU; none if it is not described. -/
def cachesOf (h : Hierarchy) (cpu : UInt32) : List Cache :=
  ((h.caches.find? (·.1 == cpu)).map (·.2)).getD []

/-- The entries with `caches` for `cpu`, in place of earlier ones for it. -/
def replace (cpu : UInt32) (caches : List Cache) :
    List (UInt32 × List Cache) → List (UInt32 × List Cache)
  | [] => [(cpu, caches)]
  | entry :: rest =>
    if entry.1 == cpu then (cpu, caches) :: rest else entry :: replace cpu caches rest

/-- The hierarchy with `caches` for `cpu`. -/
def insert (h : Hierarchy) (cpu : UInt32) (caches : List Cache) : Hierarchy :=
  ⟨replace cpu caches h.caches⟩

/-! ## Reading -/

/-- The number in the name of a CPU directory. -/
def cpuOfName? (name : String) : Option UInt32 :=
  match name.toList with
  | 'c' :: 'p' :: 'u' :: numeral =>
    match readNumeral maxWord32 numeral with
    | .ok n => some (UInt32.ofNat n)
    | .error _ => none
  | _ => none

/-- Whether `name` is the name of a cache directory. -/
def isCacheName (name : String) : Bool := "index".toList.isPrefixOf name.toList

/-- The trimmed text of a file in a cache directory. -/
def readAttribute (dir : Path) (name : String) : Action (List Char) := do
  let path := dir.child name
  let text ← (Action.query (·.readText path)).within (.readAttribute path)
  pure (trim text.toList)

/-- The cache described in a directory, unless it holds no data. -/
def readCache (dir : Path) : Action (Option Cache) := do
  let type ← readAttribute dir "type"
  if type = "Instruction".toList ∨ type = "Unknown".toList then pure none
  else
    let level ← readAttribute dir "level"
    let number ← (Action.ofExcept ((readNumeral maxWord32 level).mapError .numeral)).within
      (.cacheLevel (String.ofList level) dir)
    let list ← readAttribute dir "shared_cpu_list"
    let shared ← (Action.ofExcept (readCpuList list)).within (.sharedCpus dir)
    pure (some ⟨UInt32.ofNat number, shared⟩)

/-- The caches described in a cache directory, by level. -/
def readCaches (dir : Path) : Action (List Cache) := do
  let names ← (Action.query (·.list dir)).within (.listCaches dir)
  let caches ← (names.filter isCacheName).mapM fun name => readCache (dir.child name)
  pure (caches.reduceOption.mergeSort fun a b => a.level ≤ b.level)

/-- The hierarchy with the caches of the CPU that the directory `name` under `root` is for, if it
is for one. -/
def addCpu (root : Path) (h : Hierarchy) (name : String) : Action Hierarchy := do
  match cpuOfName? name with
  | none => pure h
  | some cpu =>
    let dir := (root.child name).child "cache"
    if (← get).files.isDirectory dir then pure (h.insert cpu (← readCaches dir)) else pure h

/-- The hierarchy described under `root`. -/
def read (root : Path) : Action Hierarchy := do
  let names ← (Action.query (·.list root)).within (.listCpus root)
  let h ← names.foldlM (addCpu root) ⟨[]⟩
  if h.caches.isEmpty then Action.fail (.noTopology root)
  pure h

end Hierarchy

end CacheDelay.Topology

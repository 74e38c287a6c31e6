import CacheDelay.Cli.Footprint

/-!
# The program

Brings the files of a command into a tree, runs the command on it, prints what it printed and writes
back the files that it changed. Exit status 1 stands for a failure, 2 for a rejected command line.
-/

namespace CacheDelay.Program

open CacheDelay.Cli CacheDelay.Files CacheDelay.Kernel

/-- The absolute path of a location. -/
def absolute (place : Location) : String := "/" ++ "/".intercalate place

/-- What stands at a location on the disk, if anything that can be read. A file gets the given
number. Special files other than the two devices are taken for empty ones. -/
def itemOnDisk? (number : Nat) (place : Location) : IO (Option Item) := do
  if place = Item.place .sink then return some .sink
  if place = Item.place .full then return some .full
  try
    let path := (← IO.currentDir) / absolute place
    match (← path.metadata).type with
    | .dir => return some (.directory place)
    | .file => return some (.file place number (← IO.FS.readBinFile path).toList)
    | _ => return some (.file place number [])
  catch _ => return none

/-- Why the file at a location on the disk cannot be opened for writing, if it cannot. -/
def refusalOnDisk? (place : Location) : IO (Option FileFault) := do
  try
    let _ ← IO.FS.Handle.mk ((← IO.currentDir) / absolute place) .readWrite
    return none
  catch error =>
    match error with
    | .permissionDenied _ code _ => return some (if code = 30 then .readOnly else .permissionDenied)
    | _ => return none

/-- The tree with what stands at a location on the disk. -/
def bring (t : Tree) (place : Location) : IO Tree := do
  if (t.node? place).isSome then return t
  match ← itemOnDisk? t.fresh place with
  | some item =>
    let refusal? ← refusalOnDisk? place
    return { t.set item with
      fresh := t.fresh + 1
      refusal? := fun other => if other = place then refusal? else t.refusal? other }
  | none => return t

/-- The tree with everything on the way to a path. -/
def bringPath (t : Tree) (path : Path) : IO Tree := do
  let (start, steps) := t.steps path
  let mut place : Location := []
  let mut t := t
  for step in start ++ steps do
    place := if step = "" ∨ step = "." then place
      else if step = ".." then place.dropLast
      else place ++ [step]
    t ← bring t place
  return t

/-- The names in a directory on the disk. -/
def namesIn (path : Path) : IO (List String) := do
  try
    return (← ((← IO.currentDir) / path.text).readDir).toList.map (·.fileName)
  catch _ => return []

/-- The tree with the caches described under a directory. -/
def bringHierarchy (t : Tree) (root : Path) : IO Tree := do
  let mut t ← bringPath t root
  for cpu in (← namesIn root).filter ("cpu".isPrefixOf ·) do
    let caches := (root.child cpu).child "cache"
    t ← bringPath t caches
    for index in (← namesIn caches).filter ("index".isPrefixOf ·) do
      for name in ["type", "level", "shared_cpu_list"] do
        t ← bringPath t ((caches.child index).child name)
  return t

/-- The tree of everything that a command may read or write. -/
def load (command : Command) : IO Tree := do
  let here := ((← IO.currentDir).toString.splitOn "/").filter (· ≠ "")
  let mut t ← bringPath { workingDirectory := here, entries := [] } ⟨"."⟩
  for path in command.footprint.files do
    t ← bringPath t path
  for root in command.footprint.hierarchies do
    t ← bringHierarchy t root
  return t

/-- Writes the files whose content differs between two trees. -/
def save (before after : Tree) : IO Unit := do
  for item in after.entries do
    match item, before.node? item.place with
    | .file place _ content, some (.file _ old) =>
      if content ≠ old then IO.FS.writeBinFile (absolute place) ⟨content.toArray⟩
    | .file place _ content, none => IO.FS.writeBinFile (absolute place) ⟨content.toArray⟩
    | _, _ => pure ()

/-- The content of a file, if it can be read. -/
def textOf? (path : String) : IO (Option String) := do
  try
    return some (← IO.FS.readFile path)
  catch _ => return none

/-- The machine the program runs on. The clock's nanoseconds stand in for the cycle counter, hashes
for random numbers, and memory, which is not locked, has no limit but that of one block. -/
def host : IO Host := do
  let start ← IO.monoNanosNow
  let description := (← textOf? "/proc/self/status").getD ""
  return {
    clock :=
      { counterKhz? := ← textOf? "/sys/devices/system/cpu/cpu0/tsc_freq_khz"
        processors? := ← textOf? "/proc/cpuinfo" }
    cycles := fun reading => UInt64.ofNat (start + reading)
    draw := fun seed i last => ⟨(hash (seed, i)).toNat % (last + 1), Nat.mod_lt _ last.succ_pos⟩
    approximate := Stats.Distribution.digested
    isRoot := runsAsRoot description.toList
    memory := { limit := Probe.maxBytes, base := 0 }
    fuel := 0x4000000000000000 }

/-- Runs a command and gives the exit status. -/
def run (command : Command) : IO UInt32 := do
  let files ← load command
  let (result, world) := (command.run (← host)).run ⟨files, [], ""⟩
  save files world.files
  IO.print world.output
  for warning in world.warnings do
    IO.eprintln ("warning: " ++ warning.message)
  match result with
  | .ok () => return 0
  | .error failure =>
    IO.eprintln ("Error: " ++ failure.message)
    return 1

/-- Collects the environment variables that arguments can stand in. -/
def environment : IO (String → Option String) := do
  let names := analyzeGrammar.options.filterMap (·.fallbackVariable)
  let values ← names.mapM fun name => do return (name, ← IO.getEnv name)
  return fun name => (values.find? (·.1 == name)).bind (·.2)

end CacheDelay.Program

/-- Runs the command on the command line. -/
def main (arguments : List String) : IO UInt32 := do
  match CacheDelay.Cli.Command.parse (← CacheDelay.Program.environment) arguments with
  | .ok command => CacheDelay.Program.run command
  | .error usage =>
    if usage.isHelp then
      IO.println usage.message
      return 0
    IO.eprintln ("error: " ++ usage.message)
    return 2

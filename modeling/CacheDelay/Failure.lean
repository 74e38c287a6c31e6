import CacheDelay.Decimal.Layout
import CacheDelay.Files.Path
import CacheDelay.Text.Numeral
import CacheDelay.Text.Quoted

/-!
# Failures

A failure is a cause together with what was being done when it arose. The cause is a value; its
wording, and the wording of the contexts, stand here once for the whole library.
-/

namespace CacheDelay

open CacheDelay.Files CacheDelay.Text

/-- Why a file operation failed. -/
inductive FileFault where
  | notFound
  | notDirectory
  | isDirectory
  | noSpace
  | nameTooLong
  | invalidArgument
  | nulInPath
  | notUnicode
  | permissionDenied
  | readOnly
  | outOfMemory
  deriving DecidableEq

/-- The wording of a file fault. -/
def FileFault.message : FileFault → String
  | .notFound => "No such file or directory (os error 2)"
  | .notDirectory => "Not a directory (os error 20)"
  | .isDirectory => "Is a directory (os error 21)"
  | .noSpace => "No space left on device (os error 28)"
  | .nameTooLong => "File name too long (os error 36)"
  | .invalidArgument => "Invalid argument (os error 22)"
  | .nulInPath => "file name contained an unexpected NUL byte"
  | .notUnicode => "stream did not contain valid UTF-8"
  | .permissionDenied => "Permission denied (os error 13)"
  | .readOnly => "Read-only file system (os error 30)"
  | .outOfMemory => "out of memory"

/-- Why storage could not be reserved. -/
inductive StorageFault where
  | beyondAddressSpace
  | refused
  deriving DecidableEq

/-- The wording of a storage fault. -/
def StorageFault.message : StorageFault → String
  | .beyondAddressSpace =>
    "memory allocation failed because the computed capacity exceeded the collection's maximum"
  | .refused => "memory allocation failed because the memory allocator returned an error"

/-- The innermost reason of a failure. -/
inductive Cause where
  | file (fault : FileFault)
  | numeral (fault : NumeralFault)
  | descendingRange (piece : List Char)
  | noChips
  | noCoresPerChip
  | noTopology (root : Path)
  | badClock (mhz : Binary64)
  | badExtent (extent : Binary64)
  | partialValues (path : Path) (bytes : Nat)
  | cappedReload
  | noRingCapacity
  | ringStorage (capacity : Nat) (fault : StorageFault)
  | hugeWorkingSet (kib : Nat)
  | noWorkingSet (kib count : Nat)
  | hugeWorkingSets (kib count : Nat)
  | workingSetStorage (kib count : Nat) (fault : StorageFault)
  | badReadRatio (percent : Nat)
  | hugeCache (cacheKib kib : Nat)
  | notRoot
  | noPeriod
  | zeroPeriod
  | schedulerRefused
  | invalidRequest
  | notMappable
  | noMemory
  | emptyMemory
  | storeOverflow
  | storeBeyondEnd (bytes offset size : Nat)
  | storeMisaligned (offset : Nat)
  | nulInName (position : Nat)
  | productOverflow

/-- The wording of a cause. -/
def Cause.message : Cause → String
  | .file fault => fault.message
  | .numeral fault => fault.message
  | .descendingRange piece => "descending cpu range " ++ String.ofList piece
  | .noChips => "number of chips must be positive"
  | .noCoresPerChip => "cores per chip must be positive"
  | .noTopology root => "no cache topology found under " ++ root.text
  | .badClock mhz =>
    "clock frequency must be positive and finite, got " ++ Decimal.plain.write mhz
  | .badExtent extent =>
    "interquartile extent must be finite and not negative, got " ++ Decimal.plain.write extent
  | .partialValues path bytes =>
    s!"{path.text} is corrupt: {bytes} bytes is not a whole number of values"
  | .cappedReload => "autocap cannot be combined with reading saved overheads"
  | .noRingCapacity => "sample ring needs a non-zero capacity"
  | .ringStorage capacity fault => s!"cannot allocate {capacity} samples: {fault.message}"
  | .hugeWorkingSet kib => s!"working set of {kib} KiB is too large"
  | .noWorkingSet kib count =>
    s!"need at least one non-empty working set (wss {kib} KiB, count {count})"
  | .hugeWorkingSets kib count => s!"{count} working sets of {kib} KiB is too large"
  | .workingSetStorage kib count fault =>
    s!"cannot allocate {count} working sets of {kib} KiB: {fault.message}"
  | .badReadRatio percent => s!"read ratio {percent}% is above 100%"
  | .hugeCache cacheKib kib =>
    s!"cache size {cacheKib} KiB is too large for {kib} KiB working sets"
  | .notRoot => "must run as root"
  | .noPeriod => "task has no period (policy 0, period 0 ns)"
  | .zeroPeriod => "task period must be at least 1 ms"
  | .schedulerRefused => "failed to set scheduler policy: Invalid argument (os error 22)"
  | .invalidRequest => "EINVAL: Invalid argument"
  | .notMappable => "ENODEV: No such device"
  | .noMemory => "ENOMEM: Out of memory"
  | .emptyMemory => "empty memfd"
  | .storeOverflow => "store offset overflows"
  | .storeBeyondEnd bytes offset size =>
    s!"store of {bytes} bytes at {offset} exceeds memfd size {size}"
  | .storeMisaligned offset => s!"misaligned store at {offset}"
  | .nulInName position => s!"nul byte found in provided data at position: {position}"
  | .productOverflow => "attempt to multiply with overflow"

/-- What was being done when a failure arose. -/
inductive Context where
  | openTrace (path : Path)
  | openTraceForWriting (path : Path)
  | readTrace (path : Path)
  | writeTrace (path : Path)
  | openForWriting (path : Path)
  | writeFile (path : Path)
  | readSaved (path : Path)
  | openTable (path : Path)
  | writeTable (path : Path)
  | listCpus (path : Path)
  | listCaches (path : Path)
  | readAttribute (path : Path)
  | cacheLevel (level : String) (path : Path)
  | sharedCpus (path : Path)
  | openStatus (path : Path)
  | mapStatus (path : Path)
  | mapPage
  | lockMemory
  | pinTo (cpu : Nat)
  | nameMemory (name : String)
  | createMemory (name : String)
  | sizeMemory (name : String)
  | mapMemory (name : String)

/-- The wording of a context. -/
def Context.message : Context → String
  | .openTrace path => s!"unable to open trace {path.text}"
  | .openTraceForWriting path => s!"unable to open trace {path.text} for writing"
  | .readTrace path => s!"read from trace {path.text} failed"
  | .writeTrace path => s!"write to trace {path.text} failed"
  | .openForWriting path => s!"unable to open {path.text} for writing"
  | .writeFile path => s!"write to {path.text} failed"
  | .readSaved path => s!"unable to read valid overheads {path.text}"
  | .openTable path => s!"unable to open {path.text}"
  | .writeTable path => s!"unable to write {path.text}"
  | .listCpus path => s!"unable to list cpus under {path.text}"
  | .listCaches path => s!"unable to list {path.text}"
  | .readAttribute path => s!"unable to read {path.text}"
  | .cacheLevel level path => "bad cache level " ++ quoted level ++ " in " ++ path.text
  | .sharedCpus path => s!"bad shared_cpu_list in {path.text}"
  | .openStatus path => s!"unable to open status device {path.text}"
  | .mapStatus path => s!"unable to map status device {path.text}"
  | .mapPage => "mmap of status page failed"
  | .lockMemory => "failed to lock memory"
  | .pinTo cpu => s!"cpu {cpu} is out of range"
  | .nameMemory name => s!"invalid memfd name: {name}"
  | .createMemory name => s!"unable to create memfd {name}"
  | .sizeMemory name => s!"unable to size memfd {name}"
  | .mapMemory name => s!"unable to map memfd {name}"

/-- A cause and the contexts it arose in, outermost first. -/
structure Failure where
  contexts : List Context
  cause : Cause

/-- A cause by itself. -/
def Cause.failure (cause : Cause) : Failure := ⟨[], cause⟩

/-- The failure seen from one context further out. -/
def Failure.within (f : Failure) (context : Context) : Failure :=
  ⟨context :: f.contexts, f.cause⟩

/-- The wording of a failure: its contexts and its cause. -/
def Failure.message (f : Failure) : String :=
  ": ".intercalate (f.contexts.map Context.message ++ [f.cause.message])

end CacheDelay

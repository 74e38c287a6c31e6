import CacheDelay.Files.Tree

/-!
# Runs

An `Action` is a step of the program: it may change the files, warn, print, and fail. Its state is
kept when it fails, so that what was written before a failure stays written.
-/

namespace CacheDelay

open CacheDelay.Files

/-- What is worth knowing about a run that did not fail. -/
inductive Warning where
  | trailingBytes (trace : Path) (bytes records : Nat)
  | noOverheads (trace : Path)
  | noSavedOverheads (trace : Path)
  | notRaw (trace : Path)
  | noSamples
  | samplesLost (kept : Nat)
  | clockUnknown (assumedMhz : Binary64)

/-- The wording of a warning. -/
def Warning.message : Warning → String
  | .trailingBytes trace bytes records =>
    s!"{trace.text}: ignoring {bytes} trailing bytes after {records} records"
  | .noOverheads trace => s!"{trace.text}: no valid overheads"
  | .noSavedOverheads trace => s!"{trace.text}: no saved overheads"
  | .notRaw trace => s!"{trace.text} does not look like a .raw trace"
  | .noSamples => "no samples recorded"
  | .samplesLost kept => s!"sample storage wrapped; keeping the last {kept} samples"
  | .clockUnknown mhz =>
    "cannot detect the clock frequency, assuming " ++ Decimal.plain.write mhz ++ " MHz"

/-- What a run reads and changes. -/
structure World where
  files : Tree
  /-- The warnings given so far, in order. -/
  warnings : List Warning
  /-- What was printed so far. -/
  output : String

/-- A step of the program. -/
abbrev Action := ExceptT Failure (StateM World)

namespace Action

/-- Fails for the given cause. -/
def fail {α : Type} (cause : Cause) : Action α := throw cause.failure

/-- The action, with its failures seen from `context`. -/
def within {α : Type} (context : Context) (action : Action α) : Action α :=
  fun w =>
    match action w with
    | (.error failure, w) => (.error (failure.within context), w)
    | done => done

/-- The result of a computation that may fail. -/
def ofExcept {α : Type} : Except Cause α → Action α
  | .ok a => pure a
  | .error cause => fail cause

/-- The result of a computation that may fail and says in which contexts it did. -/
def lift {α : Type} : Except Failure α → Action α
  | .ok a => pure a
  | .error failure => throw failure

/-- What `look` finds in the files. -/
def query {α : Type} (look : Tree → Except FileFault α) : Action α := do
  match look (← get).files with
  | .ok a => pure a
  | .error fault => fail (.file fault)

/-- Changes the files. -/
def update (change : Tree → Except FileFault Tree) : Action Unit := do
  match change (← get).files with
  | .ok files => modify fun w => { w with files }
  | .error fault => fail (.file fault)

/-- Opens a file for writing, creating it if needed. -/
def openNew (path : Path) : Action Handle := do
  let (handle, files) ← query (·.openNew path)
  modify fun w => { w with files }
  pure handle

/-- Warns. -/
def warn (warning : Warning) : Action Unit :=
  modify fun w => { w with warnings := w.warnings ++ [warning] }

/-- Prints. -/
def print (text : String) : Action Unit :=
  modify fun w => { w with output := w.output ++ text }

end Action

end CacheDelay

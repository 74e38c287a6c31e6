import CacheDelay.Trace.Record
import CacheDelay.World

/-!
# Trace files

A trace is a sequence of records with no header. Records are only ever appended, in blocks; they are
read back in blocks of another size. Bytes at the end that make no whole record are ignored with a
warning.
-/

namespace CacheDelay.Trace

open CacheDelay.Files

/-- Records written at a time. -/
def writeBlock : Nat := 1024

/-- Records read at a time. -/
def readBlock : Nat := 500

/-- A trace file that is open for appending. -/
structure Writer where
  path : Path
  handle : Handle

/-- Opens a trace for appending, creating it if needed. -/
def Writer.create (path : Path) : Action Writer := do
  let handle ← (Action.openNew path).within (.openTraceForWriting path)
  pure ⟨path, handle⟩

/-- The bytes of records that are encoded one after the other into one buffer. -/
def encodeThrough (buffer : List UInt8) : List Record → List UInt8
  | [] => []
  | record :: rest =>
    let filled := record.encodeInto buffer
    filled ++ encodeThrough filled rest

/-- Appends one block of records. -/
def Writer.appendBlock (w : Writer) (block : List Record) : Action Unit :=
  let bytes := encodeThrough (List.replicate Record.size 0) block
  (Action.update (·.appendTo w.handle bytes)).within (.writeTrace w.path)

/-- Appends records in order. -/
def Writer.append (w : Writer) (records : List Record) : Action Unit :=
  (chunks writeBlock records).forM w.appendBlock

/-- Appends the records of samples in order. -/
def Writer.appendSamples (w : Writer) (samples : List Sample) : Action Unit :=
  w.append (samples.map Sample.record)

/-- Appends records to the trace at `path`, creating it if needed. -/
def write (path : Path) (records : List Record) : Action Unit := do
  (← Writer.create path).append records

/-- The whole records of a trace file with the given content, read block by block. -/
def recordsOf (content : List UInt8) : List Record :=
  let count := content.length / Record.size
  (chunks (readBlock * Record.size) (content.take (count * Record.size))).flatMap fun block =>
    (chunks Record.size block).map Record.decode

/-- Every whole record of the trace at `path`. A directory opens like a file and fails when it is
read. -/
def read (path : Path) : Action (List Record) := do
  let place ← (Action.query (·.locate path)).within (.openTrace path)
  let content ← (Action.query (·.contentAt place)).within (.readTrace path)
  if content.length % Record.size ≠ 0 then
    Action.warn (.trailingBytes path (content.length % Record.size) (content.length / Record.size))
  pure (recordsOf content)

end CacheDelay.Trace

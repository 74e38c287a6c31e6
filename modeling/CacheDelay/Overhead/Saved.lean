import CacheDelay.Overhead.Classified

/-!
# Saved overheads

The overheads of a trace can be saved beside it, one file a locality, and reloaded without a replay.
A file holds 64-bit values, little-endian, in trace order. Each locality has its own file, and a
save writes only the localities present.
-/

namespace CacheDelay.Overheads

open CacheDelay.Files CacheDelay.Topology

/-- The file for the overheads of `trace` with locality `l`. -/
def savedPath (trace : Path) (l : Locality) : Path :=
  trace.sibling (trace.stem ++ '_' :: l.label.toList ++ ".vbin".toList)

/-- Bytes of a saved value. -/
def valueBytes : Nat := 8

/-- The bytes of values. -/
def encode (values : List Int64) : List UInt8 :=
  values.flatMap fun v => littleEndian valueBytes v.toUInt64.toNat

/-- The values with the given bytes. -/
def decode (bytes : List UInt8) : List Int64 :=
  (blocks valueBytes (bytes.length / valueBytes) bytes).map fun b =>
    (UInt64.ofNat (ofLittleEndian b)).toInt64

/-- Replaces the file at `path` by one with the given content. -/
def replaceFile (path : Path) (content : List UInt8) : Action Unit := do
  let handle ← (Action.openNew path).within (.openForWriting path)
  Action.update fun t => .ok (t.truncate handle)
  (Action.update (·.appendTo handle content)).within (.writeFile path)

/-- Saves the values of one locality and gives the file written. -/
def saveEntry (trace : Path) (entry : Locality × List Int64) : Action Path := do
  let path := savedPath trace entry.1
  replaceFile path (encode entry.2)
  pure path

/-- Saves overheads beside `trace`, in place of earlier ones, and gives the files written. -/
def save (o : Overheads) (trace : Path) : Action (List Path) :=
  o.toList.mapM (saveEntry trace)

/-- The saved values of one locality. -/
def loadEntry (trace : Path) (l : Locality) : Action (List Int64) := do
  let path := savedPath trace l
  let bytes ← (Action.query (·.read path)).within (.readSaved path)
  if bytes.length % valueBytes ≠ 0 then Action.fail (.partialValues path bytes.length)
  pure (decode bytes)

/-- The overheads saved beside `trace`, with or without a separate L2 level. -/
def load (trace : Path) (hasL2 : Bool) : Action Overheads := do
  let sameCpu ← loadEntry trace .sameCpu
  let sameL2? ← if hasL2 then some <$> loadEntry trace .sameL2 else pure none
  let sameChip ← loadEntry trace .sameChip
  let offChip ← loadEntry trace .offChip
  pure { sameCpu, sameL2?, sameChip, offChip }

end CacheDelay.Overheads

import CacheDelay.Failure
import CacheDelay.Text.Blank
import CacheDelay.Text.Split

/-!
# CPU lists

Lists of CPUs as the kernel writes them: single numbers and inclusive ranges, separated by commas,
such as `0-3,8,10-11`. Numbers may stand between blanks, and empty pieces are ignored.
-/

namespace CacheDelay.Topology

open CacheDelay.Text

/-- A CPU number, perhaps between blanks. -/
def readCpu (cs : List Char) : Except Cause UInt32 :=
  match readNumeral maxWord32 (trim cs) with
  | .ok n => .ok (UInt32.ofNat n)
  | .error fault => .error (.numeral fault)

/-- The CPUs from `low` to `high`, both included. -/
def cpuRange (low high : UInt32) : List UInt32 :=
  (List.range' low.toNat (high.toNat + 1 - low.toNat)).map UInt32.ofNat

/-- The CPUs of one piece of a list. -/
def readPiece (piece : List Char) : Except Cause (List UInt32) :=
  match cutAt '-' piece with
  | none => do pure [← readCpu piece]
  | some (low, high) => do
    let low ← readCpu low
    let high ← readCpu high
    if high < low then throw (.descendingRange piece)
    pure (cpuRange low high)

/-- The CPUs of a list, in its order. -/
def readCpuList (list : List Char) : Except Cause (List UInt32) := do
  let pieces := ((trim list).splitOn ',').filter (!·.isEmpty)
  pure (← pieces.mapM readPiece).flatten

end CacheDelay.Topology

import CacheDelay.Stats.Arithmetic

/-!
# Summaries

Greatest value, average and population deviation of the overheads of one locality.
-/

namespace CacheDelay.Stats

/-- A summary of some numbers. -/
structure Summary (α : Type) where
  count : Nat
  greatest : α
  average : α
  deviation : α

/-- The summary of `values`, each statistic divided by `scale`; zeros if there are none. -/
def Summary.ofValues {α : Type} [Arithmetic α] [Roots α] (values : List α) (scale : α) :
    Summary α :=
  match values with
  | [] => ⟨0, Arithmetic.ofNat 0, Arithmetic.ofNat 0, Arithmetic.ofNat 0⟩
  | first :: _ =>
    let n := Arithmetic.ofNat values.length
    let greatest := values.foldl Arithmetic.greatest (Arithmetic.floorFor first)
    let average := sum values / n
    let variance := sum (values.map fun v => (v - average) * (v - average)) / n
    ⟨values.length, greatest / scale, average / scale, Roots.sqrt variance / scale⟩

end CacheDelay.Stats

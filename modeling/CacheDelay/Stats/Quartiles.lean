import CacheDelay.Stats.Arithmetic

/-!
# Percentiles and outliers

The value at a percentile of sorted numbers, interpolated between neighbouring ranks, and the
removal of numbers that lie too many interquartile ranges away from the quartiles.
-/

namespace CacheDelay.Stats

variable {α : Type} [Arithmetic α]

/-- The value at percentile `p`, from 0 to 100, of sorted numbers; none if there are none. -/
def percentile? (sorted : List α) (p : α) : Option α := do
  let share := clamp (Arithmetic.ofNat 0) (Arithmetic.ofNat 1) (p / Arithmetic.ofNat 100)
  let rank := share * Arithmetic.ofNat (sorted.length - 1)
  let low := Arithmetic.floor rank
  let below ← sorted[low]?
  let above ← sorted[Arithmetic.ceil rank]?
  some (below + (above - below) * (rank - Arithmetic.ofNat low))

/-- The numbers in sorted order. -/
def sort (values : List α) : List α := values.mergeSort Arithmetic.precedes

/-- The bounds `extent` interquartile ranges outside the quartiles; none if there are no numbers. -/
def fences? (values : List α) (extent : α) : Option (α × α) := do
  let sorted := sort values
  let lower ← percentile? sorted (Arithmetic.ofNat 25)
  let upper ← percentile? sorted (Arithmetic.ofNat 75)
  let spread := (upper - lower) * extent
  some (lower - spread, upper + spread)

/-- The numbers within `extent` interquartile ranges of the quartiles, in their order. An unbounded
extent keeps all. -/
def withinQuartiles (values : List α) (extent : α) : List α :=
  if Arithmetic.isUnbounded extent then values
  else
    match fences? values extent with
    | none => []
    | some (low, high) =>
      values.filter fun v => Arithmetic.atMost low v && Arithmetic.atMost v high

end CacheDelay.Stats

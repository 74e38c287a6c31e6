import CacheDelay.Decimal.Layout
import CacheDelay.Stats.Arithmetic

/-!
# Rough statistics

Least, greatest, mean and deviation of a population in one pass. The last element is left out of
every statistic unless it is the only one, and the deviation divides by the number of elements used
less one.
-/

namespace CacheDelay.Stats

/-- Rough statistics of a population. -/
structure Rough (α : Type) where
  /-- Size of the population, with the element left out. -/
  count : Nat
  least : α
  greatest : α
  mean : α
  deviation : α

namespace Rough

section

variable {α : Type} [Arithmetic α]

/-- The statistics of the elements passed so far: `count` of them, with the sum of the squared
distances from their mean. -/
structure Running (α : Type) where
  count : Nat
  least : α
  greatest : α
  mean : α
  squares : α

/-- The statistics of one element. -/
def Running.single (first : α) : Running α :=
  ⟨1, first, first, first, Arithmetic.ofNat 0⟩

/-- The statistics with one more element. -/
def Running.add (r : Running α) (x : α) : Running α :=
  let diff := x - r.mean
  let next := Arithmetic.ofNat (r.count + 1)
  { count := r.count + 1
    least := Arithmetic.least r.least x
    greatest := Arithmetic.greatest r.greatest x
    mean := r.mean + diff / next
    squares := r.squares + Arithmetic.ofNat r.count * diff * diff / next }

/-- The statistics of a population of cycle counts at `mhz` cycles a microsecond; none if it is
empty. -/
def ofValues [Roots α] (values : List α) (mhz : α) : Option (Rough α) :=
  match values with
  | [] => none
  | first :: rest =>
    let n := values.length
    let r := rest.dropLast.foldl Running.add (Running.single first)
    let deviation :=
      if 2 < n then Roots.sqrt (r.squares / Arithmetic.ofNat (n - 2)) else Arithmetic.ofNat 0
    some ⟨n, r.least / mhz, r.greatest / mhz, r.mean / mhz, deviation / mhz⟩

end

/-- The statistics of cycle counts. -/
def ofCycles (cycles : List UInt64) (mhz : Binary64) : Option (Rough Binary64) :=
  ofValues (cycles.map fun c => .ofNat c.toNat) mhz

/-- Rough statistics as reports show them. -/
def text (r : Rough Binary64) : String :=
  let places := Decimal.fixed 5
  "n=" ++ toString r.count ++ " min=" ++ places r.least ++ " max=" ++ places r.greatest
    ++ " mean=" ++ places r.mean ++ " stddev=" ++ places r.deviation

end Rough

end CacheDelay.Stats

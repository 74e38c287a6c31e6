import CacheDelay.Decimal.Layout
import CacheDelay.Stats.Digest

/-!
# Quantile estimates

Estimates of some quantiles of a distribution. Between two of them, values are interpolated; outside
them, the first or the last one holds.
-/

namespace CacheDelay.Stats

/-- Quantile estimates of a distribution. -/
structure Estimates (α : Type) where
  /-- The number of samples in the distribution. -/
  count : Nat
  /-- Shares of the distribution, from 0 to 1 and ascending, with the values at them. -/
  quantiles : List (α × α)

namespace Estimates

section

variable {α : Type} [Arithmetic α]

/-- The value at `share` between the first two neighbours that enclose it. -/
def between? (share : α) : List (α × α) → Option α
  | (p, v) :: (q, w) :: rest =>
    if Arithmetic.atMost p share && Arithmetic.atMost share q then
      some (v + (w - v) * (share - p) / (q - p))
    else between? share ((q, w) :: rest)
  | _ => none

/-- The value at a share of the distribution, if there are estimates. -/
def valueAt? (e : Estimates α) (share : α) : Option α := do
  let first ← e.quantiles.head?
  let last ← e.quantiles.getLast?
  if Arithmetic.atMost share first.1 then some first.2
  else if Arithmetic.atMost last.1 share then some last.2
  else between? share e.quantiles

end

/-- Estimates as messages show them. -/
def text (e : Estimates Binary64) : String :=
  "count: " ++ toString e.count ++ String.join (e.quantiles.map fun (p, v) =>
    ", p" ++ Decimal.plain.write (p * 100) ++ ": " ++ Decimal.fixed 1 v)

end Estimates

/-- The shares that reports estimate. -/
def reportedShares : List Binary64 := [0.001, 0.01, 0.1, 0.5, 0.9, 0.99, 0.999]

/-- An approximate distribution of values. -/
structure Distribution where
  /-- The number of values, as the approximation counts them. -/
  count : Binary64
  /-- The value at a share, from 0 to 1. -/
  quantile : Binary64 → Binary64

/-- The estimates of the reported shares. -/
def Distribution.estimates (d : Distribution) : Estimates Binary64 where
  count := d.count.toNat
  quantiles := reportedShares.map fun p => (p, d.quantile p)

/-- The distribution that a digest approximates. -/
def Digest.distribution (d : Digest) : Distribution := ⟨d.count, d.quantile⟩

/-- The distribution of a batch of values, by a digest. -/
def Distribution.digested (values : List Binary64) : Distribution :=
  (Digest.empty.addAll values).distribution

end CacheDelay.Stats

import CacheDelay.Binary64

/-!
# Arithmetic of statistics

The operations that the statistics need, as a class, so that each statistic is written once and can
be read over floats, where every rounding counts, and over exact numbers. Operations are applied in
the order in which they are written.
-/

namespace CacheDelay.Stats

/-- Numbers to take statistics over. -/
class Arithmetic (α : Type) extends Add α, Sub α, Mul α, Div α where
  ofNat : Nat → α
  /-- What a sum starts from. -/
  zero : α
  /-- The smaller of two numbers; of a number and no number, the number. -/
  least : α → α → α
  /-- The greater of two numbers; of a number and no number, the number. -/
  greatest : α → α → α
  /-- Where the search for the greatest of some numbers, of which one is given, starts from. -/
  floorFor : α → α
  /-- Whether the first number is at most the second. -/
  atMost : α → α → Bool
  /-- The order in which numbers are sorted, which is total. -/
  precedes : α → α → Bool
  /-- The greatest natural number that is at most the given number. -/
  floor : α → Nat
  /-- The least natural number that is at least the given number. -/
  ceil : α → Nat
  /-- Whether a number is above all others. -/
  isUnbounded : α → Bool

/-- Numbers with square roots. -/
class Roots (α : Type) where
  sqrt : α → α

/-! ## Floats -/

instance : Arithmetic Binary64 where
  ofNat := Binary64.ofNat
  zero := -0
  least a b := if a.isNaN then b else if b < a then b else a
  greatest a b := if a.isNaN then b else if a < b then b else a
  floorFor _ := -Binary64.infinity
  atMost a b := a ≤ b
  precedes a b := a.orderKey ≤ b.orderKey
  floor := Binary64.floor
  ceil := Binary64.ceil
  isUnbounded x := x = Binary64.infinity

instance : Roots Binary64 where
  sqrt := Binary64.sqrt

/-! ## Sums -/

section

variable {α : Type} [Arithmetic α]

/-- The sum of numbers, from left to right. -/
def sum (values : List α) : α := values.foldl (· + ·) Arithmetic.zero

/-- `x`, or the nearer of the ends `low` and `high` if it lies beyond it. -/
def clamp (low high x : α) : α :=
  if !Arithmetic.atMost low x && Arithmetic.atMost x low then low
  else if !Arithmetic.atMost x high && Arithmetic.atMost high x then high
  else x

end

end CacheDelay.Stats

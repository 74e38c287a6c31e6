import CacheDelay.Decimal.Fraction

/-!
# Shortest decimals

`shortest` gives the fewest decimal digits that read back to a float, and among the decimals with
that many digits the one nearest to it. Every real number strictly between the two midpoints to
the neighbouring floats reads back; the midpoints themselves do exactly when the mantissa is even.
A grid of decimals has a point in that interval if and only if one of the two grid points around
the float lies in it, so only those two are tested. The two can be equally near, for instance at
`2 ^ 50 + 1 / 4`; a `Tie` settles that.
-/

namespace CacheDelay.Decimal

/-- A decimal `digits * 10 ^ exponent`. -/
structure Scientific where
  digits : Nat
  exponent : Int
  deriving DecidableEq

/-- The number of decimal digits of `n`; one for zero. -/
def digitCount (n : Nat) : Nat := (Nat.toDigits 10 n).length

/-- The real numbers that read back to a float: between `low / den` and `high / den`, with the
ends when `closed`. The float itself is `value / den`. -/
structure Basin where
  low : Nat
  value : Nat
  high : Nat
  den : Nat
  closed : Bool

/-- The basin of `mantissa * 2 ^ exponent`. Below a power of two the floats lie twice as close, so
the lower end is nearer there. -/
def basin (mantissa : Nat) (exponent : Int) : Basin :=
  let near := mantissa = leadingBit ∧ leastExponent < exponent
  let below := 4 * mantissa - if near then 1 else 2
  let scale := scaleBinary 1 1 (exponent - 2)
  { low := below * scale.1, value := 4 * mantissa * scale.1, high := (4 * mantissa + 2) * scale.1
    den := scale.2, closed := mantissa % 2 == 0 }

/-- Whether `num / den` lies in the basin. -/
def Basin.contains (b : Basin) (num den : Nat) : Bool :=
  let place := num * b.den
  if b.closed then b.low * den ≤ place && place ≤ b.high * den
  else b.low * den < place && place < b.high * den

/-- The exponent of the leading decimal digit of `num / den`. Expects both to be positive. -/
def decimalOrder (num den : Nat) : Int :=
  if den ≤ num then (digitCount (num / den) : Int) - 1
  else -(digitCount ((den + num - 1) / num - 1) : Int)

/-- `10 ^ e` as a numerator and a denominator. -/
def powerOfTen (e : Int) : Nat × Nat :=
  if 0 ≤ e then (Nat.pow 10 e.toNat, 1) else (1, Nat.pow 10 (-e).toNat)

/-- Which of two decimals is taken that lie equally near to a float, one on either side of it. -/
inductive Tie where
  /-- The greater one. -/
  | up
  /-- The one whose last digit is even. -/
  | even
  deriving DecidableEq

/-- Whether the decimal below a float is taken rather than the one above it, when both read back.
The float lies `rest / den` of a unit above the former, whose digits are `below`. -/
def Tie.takesBelow (tie : Tie) (below rest den : Nat) : Bool :=
  2 * rest < den || 2 * rest == den && tie == .even && below % 2 == 0

/-- The decimal with unit `10 ^ unit` nearest to the float of the basin, if one reads back. -/
def Basin.onGrid? (b : Basin) (tie : Tie) (unit : Int) : Option Scientific :=
  let step := powerOfTen unit
  let num := b.value * step.2
  let den := b.den * step.1
  let below := num / den
  let above := below + 1
  let fits n := b.contains (n * step.1) step.2
  match fits below && below != 0, fits above with
  | false, false => none
  | true, false => some ⟨below, unit⟩
  | false, true => some ⟨above, unit⟩
  | true, true => some ⟨if tie.takesBelow below (num % den) den then below else above, unit⟩

/-- The first grid, from coarse to fine, on which a decimal reads back. -/
def Basin.search (b : Basin) (tie : Tie) (order : Int) : Nat → Nat → Scientific
  | _, 0 => ⟨0, 0⟩
  | places, fuel + 1 =>
    match b.onGrid? tie (order - places) with
    | some decimal => decimal
    | none => b.search tie order (places + 1) fuel

/-- The digits of `n` without trailing zeros, with their number added to the exponent. -/
def Scientific.strip (s : Scientific) : Scientific :=
  go s.digits s.exponent (digitCount s.digits)
where
  /-- Removes at most `fuel` zeros. -/
  go (digits : Nat) (exponent : Int) : Nat → Scientific
    | 0 => ⟨digits, exponent⟩
    | fuel + 1 =>
      if digits % 10 = 0 ∧ digits ≠ 0 then go (digits / 10) (exponent + 1) fuel
      else ⟨digits, exponent⟩

/-- The shortest decimal that reads back to `mantissa * 2 ^ exponent`; zero for zero. Seventeen
digits always suffice. -/
def shortest (tie : Tie) (mantissa : Nat) (exponent : Int) : Scientific :=
  if mantissa = 0 then ⟨0, 0⟩
  else
    let b := basin mantissa exponent
    (b.search tie (decimalOrder b.value b.den) 0 18).strip

example : shortest .up (leadingBit + 1) (-2) = ⟨11258999068426243, -1⟩ := by decide +kernel
example : shortest .even (leadingBit + 1) (-2) = ⟨11258999068426242, -1⟩ := by decide +kernel
example : shortest .up 1 leastExponent = ⟨5, -324⟩ := by decide +kernel

end CacheDelay.Decimal

import CacheDelay.Binary64

/-!
# Binary floating point numbers as fractions

A finite float is `mantissa * 2 ^ exponent` for natural `mantissa`. `decode` takes its bits apart,
`nearest` gives the float nearest to a fraction. Both are exact; printing and reading
of decimals are built on them.
-/

namespace CacheDelay.Decimal

/-- What a float denotes. -/
inductive Denotation where
  | nan
  | infinite (negative : Bool)
  | finite (negative : Bool) (mantissa : Nat) (exponent : Int)

/-- The least exponent, that of the numbers next to zero. -/
def leastExponent : Int := -1074

/-- The weight of the leading bit of a full mantissa, two to the power 52. -/
def leadingBit : Nat := 0x10000000000000

/-- The exponent field of infinities and of what is no number. -/
def topField : Nat := 0x7FF

/-- What the bits of a float denote. -/
def decode (x : Binary64) : Denotation :=
  let n := x.bits.toNat
  let negative := n / leadingBit / (topField + 1) == 1
  let field := n / leadingBit % (topField + 1)
  let fraction := n % leadingBit
  if field = topField then
    if fraction = 0 then .infinite negative else .nan
  else if field = 0 then .finite negative fraction leastExponent
  else .finite negative (leadingBit + fraction) (leastExponent + (field - 1 : Nat))

/-- The quotient `num / den` rounded to the nearest integer, a half to the even neighbour. -/
def roundHalfEven (num den : Nat) : Nat :=
  let quotient := num / den
  let twice := 2 * (num % den)
  if twice > den || (twice == den && quotient % 2 == 1) then quotient + 1 else quotient

/-- `num * 2 ^ e` over `den`, or `num` over `den * 2 ^ -e`, as a numerator and a denominator. -/
def scaleBinary (num den : Nat) (e : Int) : Nat × Nat :=
  if 0 ≤ e then (num * Nat.pow 2 e.toNat, den) else (num, den * Nat.pow 2 (-e).toNat)

/-- The greatest `e` with `2 ^ e ≤ num / den`. Expects both to be positive. -/
def binaryOrder (num den : Nat) : Int :=
  let guess : Int := (num.log2 : Int) - den.log2
  let scaled := scaleBinary num den (-guess)
  if scaled.2 ≤ scaled.1 then guess else guess - 1

/-- The positive float nearest to `num / den`, of two the one with an even mantissa.
Values beyond the greatest float give infinity. Bits of consecutive floats are consecutive, so a
mantissa that rounds up to the next power of two carries into the exponent by itself. -/
def nearest (num den : Nat) : Binary64 :=
  if num = 0 then 0
  else
    let exponent := max (binaryOrder num den - 52) leastExponent
    let scaled := scaleBinary num den (-exponent)
    let mantissa := roundHalfEven scaled.1 scaled.2
    let bits := (exponent - leastExponent).toNat * leadingBit + mantissa
    ⟨UInt64.ofNat (min bits Binary64.infinityBits.toNat)⟩

end CacheDelay.Decimal

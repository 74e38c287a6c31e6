import CacheDelay.Decimal.Fraction
import CacheDelay.Text.Numeral

/-!
# Reading of decimals

A decimal is an optional sign followed by `inf`, `infinity` or `nan` in any case, or by digits with
an optional point among or beside them and an optional exponent. It is read as the nearest float.
-/

namespace CacheDelay.Decimal

open CacheDelay.Text

/-- An unsigned decimal as written: `digits * 10 ^ exponent`. -/
structure Written where
  digits : Nat
  exponent : Int

/-- The value of a sequence of digits. -/
def digitsValue (cs : List Char) : Nat :=
  cs.foldl (fun n c => n * 10 + (c.toNat - '0'.toNat)) 0

/-- A written exponent, after its `e`. -/
def readExponent? (cs : List Char) : Option Int :=
  let value ds := if ds.isEmpty || !ds.all Char.isDigit then none else some (digitsValue ds : Int)
  match cs with
  | '-' :: ds => (value ds).map (- ·)
  | '+' :: ds => value ds
  | ds => value ds

/-- The digits behind a point and what follows them; no digits if there is no point. -/
def cutFraction : List Char → List Char × List Char
  | '.' :: after => (after.takeWhile Char.isDigit, after.dropWhile Char.isDigit)
  | other => ([], other)

/-- The exponent behind the digits of a decimal, zero where they end the text. -/
def readTail? : List Char → Option Int
  | [] => some 0
  | c :: after => if c = 'e' ∨ c = 'E' then readExponent? after else none

/-- The digits and exponent of an unsigned decimal. -/
def readWritten? (cs : List Char) : Option Written :=
  let whole := cs.takeWhile Char.isDigit
  let (fraction, tail) := cutFraction (cs.dropWhile Char.isDigit)
  if whole.isEmpty && fraction.isEmpty then none
  else (readTail? tail).map fun e => ⟨digitsValue (whole ++ fraction), e - fraction.length⟩

/-- The float nearest to a written decimal. Decimals far outside the range of floats
are settled by their order alone. -/
def Written.value (w : Written) : Binary64 :=
  let order := w.exponent + (Nat.toDigits 10 w.digits).length
  if w.digits = 0 ∨ order < -400 then 0
  else if 400 < order then .infinity
  else if 0 ≤ w.exponent then nearest (w.digits * Nat.pow 10 w.exponent.toNat) 1
  else nearest w.digits (Nat.pow 10 (-w.exponent).toNat)

/-- The number denoted by a text without its sign. -/
def readMagnitude? (cs : List Char) : Option Binary64 :=
  let word := cs.map Char.toLower
  if word = "inf".toList ∨ word = "infinity".toList then some .infinity
  else if word = "nan".toList then some .nan
  else (readWritten? cs).map Written.value

/-- The number denoted by a text. -/
def readFloat? : List Char → Option Binary64
  | '-' :: cs => (readMagnitude? cs).map (- ·)
  | '+' :: cs => readMagnitude? cs
  | cs => readMagnitude? cs

end CacheDelay.Decimal

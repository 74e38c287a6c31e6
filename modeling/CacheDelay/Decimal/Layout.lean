import CacheDelay.Decimal.Shortest

/-!
# Layouts of decimals

How digits become text. A `Layout` says which decimals are written positionally and how the others
are written; `plain` is the layout of messages, `json` that of documents. `fixed` writes a number
with a given number of places.
-/

namespace CacheDelay.Decimal

/-- A way to write decimals. -/
structure Layout where
  /-- Whether a leading digit of this decimal exponent is written positionally. -/
  positional : Int → Bool
  /-- Whether an integral value written positionally ends in `.0`. -/
  keepPoint : Bool
  /-- Which of two equally near decimals is written. -/
  tie : Tie

/-- Numbers in messages never have an exponent, and integral ones no point; of two equally near
decimals the greater one is written. -/
def plain : Layout := ⟨fun _ => true, false, .up⟩

/-- Numbers in documents are positional from a hundred-thousandth up to, and without, ten to the
sixteenth, and always have a point or an exponent; of two equally near decimals the even one is
written. -/
def json : Layout := ⟨fun order => -5 ≤ order && order ≤ 15, true, .even⟩

/-- `digits` with a point before the last `places` of them, and a zero before a leading point. -/
def withPoint (digits : List Char) (places : Nat) : List Char :=
  let padded := List.replicate (places + 1 - digits.length) '0' ++ digits
  let whole := padded.length - places
  if places = 0 then padded else padded.take whole ++ '.' :: padded.drop whole

/-- An exponent with its sign. -/
def writeExponent (e : Int) : List Char :=
  (if e < 0 then '-' else '+') :: (toString e.natAbs).toList

/-- `d * 10 ^ e` in the given layout. -/
def Layout.writeScientific (layout : Layout) (s : Scientific) : List Char :=
  let digits := Nat.toDigits 10 s.digits
  let order := s.exponent + digits.length - 1
  if layout.positional order then
    if 0 ≤ s.exponent then
      digits ++ List.replicate s.exponent.toNat '0' ++ if layout.keepPoint then ".0".toList else []
    else withPoint digits (-s.exponent).toNat
  else
    let mantissa :=
      match digits with
      | [] | [_] => digits
      | d :: rest => d :: '.' :: rest
    mantissa ++ 'e' :: writeExponent order

/-- The sign of a number, which negative zero has too. -/
def sign (negative : Bool) : List Char := if negative then ['-'] else []

/-- The text of `x` in the given layout. -/
def Layout.write (layout : Layout) (x : Binary64) : String :=
  match decode x with
  | .nan => "NaN"
  | .infinite negative => String.ofList (sign negative ++ "inf".toList)
  | .finite negative mantissa exponent =>
    String.ofList (sign negative ++ layout.writeScientific (shortest layout.tie mantissa exponent))

/-- The text of `x` with `places` places: its exact value rounded, a half to the even neighbour. -/
def fixed (places : Nat) (x : Binary64) : String :=
  match decode x with
  | .nan => "NaN"
  | .infinite negative => String.ofList (sign negative ++ "inf".toList)
  | .finite negative mantissa exponent =>
    let scaled := scaleBinary (mantissa * Nat.pow 10 places) 1 exponent
    let digits := Nat.toDigits 10 (roundHalfEven scaled.1 scaled.2)
    String.ofList (sign negative ++ withPoint digits places)

end CacheDelay.Decimal

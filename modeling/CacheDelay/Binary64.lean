/-!
# Binary floating point numbers

Floating point numbers of 64 bits, held as their bits. Arithmetic rounds each exact result once, as
the processor does. What is no number passes through an operation with its sign, and an operation on
numbers that has no result gives one with a negative sign; the sign shows where values are sorted.

* `<` and `≤` compare values: the two zeros are equal, and what is no number is not comparable.
* `orderKey` is the place of a float in the total order of all bits.
-/

namespace CacheDelay

/-- A floating point number, or what is no number, by its bits. -/
structure Binary64 where
  bits : UInt64
  deriving DecidableEq

namespace Binary64

/-! ## Parts -/

/-- The bit that tells negative numbers. -/
def signBit : UInt64 := 0x8000000000000000

/-- The bits of positive infinity, which lie above those of every positive number. -/
def infinityBits : UInt64 := 0x7FF0000000000000

/-- The bit that is set in whatever an operation gives that is no number. -/
def quietBit : UInt64 := 0x8000000000000

/-- The bits without the sign. -/
def magnitude (x : Binary64) : UInt64 := x.bits &&& ~~~signBit

/-- Whether the sign is negative. -/
def isNegative (x : Binary64) : Bool := signBit ≤ x.bits

/-- Whether this is no number. -/
def isNaN (x : Binary64) : Bool := infinityBits < x.magnitude

/-- Whether this is a number other than the infinities. -/
def isFinite (x : Binary64) : Bool := x.magnitude < infinityBits

/-- Positive infinity. -/
def infinity : Binary64 := ⟨infinityBits⟩

/-- What the word `nan` denotes. -/
def nan : Binary64 := ⟨infinityBits ||| quietBit⟩

/-- What an operation on numbers gives that has no result. -/
def indefinite : Binary64 := ⟨signBit ||| infinityBits ||| quietBit⟩

/-! ## Order -/

/-- The place of a float in the total order of floats: negative ones by falling magnitude, then
positive ones by rising magnitude. What is no number lies beyond the infinity of its sign. -/
def orderKey (x : Binary64) : UInt64 := if x.isNegative then ~~~x.bits else x.bits ||| signBit

/-- The place of a number in the order of numbers, in which the two zeros are one. -/
def valueKey (x : Binary64) : UInt64 := if x.magnitude = 0 then signBit else x.orderKey

instance : LT Binary64 := ⟨fun x y => !x.isNaN ∧ !y.isNaN ∧ x.valueKey < y.valueKey⟩

instance : LE Binary64 := ⟨fun x y => !x.isNaN ∧ !y.isNaN ∧ x.valueKey ≤ y.valueKey⟩

instance (x y : Binary64) : Decidable (x < y) := inferInstanceAs (Decidable (_ ∧ _ ∧ _))

instance (x y : Binary64) : Decidable (x ≤ y) := inferInstanceAs (Decidable (_ ∧ _ ∧ _))

/-! ## Arithmetic -/

/-- The number for the processor. -/
def toFloat (x : Binary64) : Float := Float.ofBits x.bits

/-- The result of an operation of the processor on numbers. -/
def ofFloat (x : Float) : Binary64 := if x.isNaN then indefinite else ⟨x.toBits⟩

/-- What is no number, as it leaves an operation. -/
def quiet (x : Binary64) : Binary64 := ⟨x.bits ||| quietBit⟩

/-- An operation of the processor on one number. -/
def lift (operation : Float → Float) (x : Binary64) : Binary64 :=
  if x.isNaN then x.quiet else ofFloat (operation x.toFloat)

/-- An operation of the processor on two numbers. Of two that are none the first one passes. -/
def lift₂ (operation : Float → Float → Float) (x y : Binary64) : Binary64 :=
  if x.isNaN then x.quiet
  else if y.isNaN then y.quiet
  else ofFloat (operation x.toFloat y.toFloat)

instance : Add Binary64 := ⟨lift₂ (· + ·)⟩

instance : Sub Binary64 := ⟨lift₂ (· - ·)⟩

instance : Mul Binary64 := ⟨lift₂ (· * ·)⟩

instance : Div Binary64 := ⟨lift₂ (· / ·)⟩

instance : Neg Binary64 := ⟨fun x => ⟨x.bits ^^^ signBit⟩⟩

/-- The number without its sign. -/
def abs (x : Binary64) : Binary64 := ⟨x.magnitude⟩

/-- The square root. -/
def sqrt : Binary64 → Binary64 := lift Float.sqrt

/-- The nearest integer, a half to the one further from zero. -/
def round : Binary64 → Binary64 := lift Float.round

/-! ## Integers and literals -/

/-- The number nearest to a natural number. -/
def ofNat (n : Nat) : Binary64 := ofFloat (Float.ofNat n)

/-- The number nearest to an integer. -/
def ofInt (n : Int) : Binary64 := if n < 0 then -ofNat n.natAbs else ofNat n.natAbs

/-- The natural number left when the places are cut off: the nearest word of 64 bits, zero for what
is no number. -/
def toNat (x : Binary64) : Nat := if x.isNaN then 0 else x.toFloat.toUInt64.toNat

/-- The greatest integer that is at most `x`, as a natural number. -/
def floor (x : Binary64) : Nat := (lift Float.floor x).toNat

/-- The least integer that is at least `x`, as a natural number. -/
def ceil (x : Binary64) : Nat := (lift Float.ceil x).toNat

instance (n : Nat) : OfNat Binary64 n := ⟨ofNat n⟩

instance : OfScientific Binary64 :=
  ⟨fun digits negative exponent => ofFloat (OfScientific.ofScientific digits negative exponent)⟩

end Binary64

end CacheDelay

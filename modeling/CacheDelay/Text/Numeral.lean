/-!
# Decimal numerals

Reading of bounded decimal numerals. A numeral is one or more ASCII digits after an optional `+`;
signed ones may begin with `-` instead. Reading stops at the first fault, from left to right, so
that of two faults the earlier one is reported.
-/

namespace CacheDelay.Text

/-- Why a text is no numeral. -/
inductive NumeralFault where
  | empty
  | invalidDigit
  | tooLarge
  deriving DecidableEq

/-- The wording of a fault. -/
def NumeralFault.message : NumeralFault → String
  | .empty => "cannot parse integer from empty string"
  | .invalidDigit => "invalid digit found in string"
  | .tooLarge => "number too large to fit in target type"

/-- The value of an ASCII digit. -/
def digitValue? (c : Char) : Option Nat :=
  if c.isDigit then some (c.toNat - '0'.toNat) else none

/-- The numeral read so far, `value`, continued by `c`. -/
def addDigit (limit value : Nat) (c : Char) : Except NumeralFault Nat :=
  match digitValue? c with
  | none => .error .invalidDigit
  | some d => if value * 10 + d ≤ limit then .ok (value * 10 + d) else .error .tooLarge

/-- The value of a sequence of digits, at most `limit`. -/
def readDigits (limit : Nat) (cs : List Char) : Except NumeralFault Nat :=
  if cs.isEmpty then .error .invalidDigit else cs.foldlM (addDigit limit) 0

/-- The value of a numeral without `-`, at most `limit`. -/
def readNumeral (limit : Nat) : List Char → Except NumeralFault Nat
  | [] => .error .empty
  | '+' :: digits => readDigits limit digits
  | digits => readDigits limit digits

/-- The value of a numeral that may begin with `-`, between `-limit - 1` and `limit`. -/
def readSigned (limit : Nat) : List Char → Except NumeralFault Int
  | '-' :: digits => (readDigits (limit + 1) digits).map fun n => -(n : Int)
  | numeral => (readNumeral limit numeral).map fun n => (n : Int)

/-- The greatest value of a 32-bit word. -/
def maxWord32 : Nat := 0xFFFFFFFF

/-- The greatest value of a 64-bit word. -/
def maxWord64 : Nat := 0xFFFFFFFFFFFFFFFF

example : readNumeral 255 "+255".toList = .ok 255 := by rfl
example : readNumeral 255 "256x".toList = .error .tooLarge := by rfl
example : readNumeral 255 "25x6".toList = .error .invalidDigit := by rfl
example : readNumeral 255 "+".toList = .error .invalidDigit := by rfl

end CacheDelay.Text

import CacheDelay.Decimal.Layout

/-!
# Texts of numbers have one byte for each character

A number with a given number of places is written in digits, a sign and a point, or as one of the
words `NaN` and `inf`: in ASCII (`isAscii_fixed`). So the room for such a text is the same counted
in bytes and in characters (`utf8ByteSize_fixed`).
-/

namespace CacheDelay

/-- All characters are ASCII characters. -/
def IsAscii (cs : List Char) : Prop := ∀ c ∈ cs, c.val ≤ 127

namespace IsAscii

theorem of_all {cs : List Char} (h : (cs.all fun c => decide (c.val ≤ 127)) = true) :
    IsAscii cs :=
  fun c hc => of_decide_eq_true (List.all_eq_true.1 h c hc)

theorem append {cs ds : List Char} (hcs : IsAscii cs) (hds : IsAscii ds) : IsAscii (cs ++ ds) :=
  List.forall_mem_append.2 ⟨hcs, hds⟩

theorem utf8ByteSize_ofList {cs : List Char} (h : IsAscii cs) :
    (String.ofList cs).utf8ByteSize = cs.length := by
  induction cs with
  | nil => rfl
  | cons c cs ih =>
    obtain ⟨hc, hcs⟩ := List.forall_mem_cons.1 h
    rw [String.ofList_cons, String.utf8ByteSize_append, String.utf8ByteSize_singleton,
      Char.utf8Size_eq_one_iff.2 hc, ih hcs, List.length_cons, Nat.add_comm]

end IsAscii

namespace Decimal

theorem isAscii_toDigits (n : Nat) : IsAscii (Nat.toDigits 10 n) := by
  intro c hc
  have hdigit := Nat.isDigit_of_mem_toDigits (by decide) (by decide) hc
  rw [Char.isDigit, Bool.and_eq_true, decide_eq_true_eq, decide_eq_true_eq] at hdigit
  exact UInt32.le_trans hdigit.2 (by decide)

theorem isAscii_sign (negative : Bool) : IsAscii (sign negative) := by
  cases negative with
  | false => exact .of_all rfl
  | true => exact .of_all rfl

theorem isAscii_withPoint {digits : List Char} (h : IsAscii digits) (places : Nat) :
    IsAscii (withPoint digits places) := by
  have hzeros (n : Nat) : IsAscii (List.replicate n '0') := by
    intro c hc
    rw [List.eq_of_mem_replicate hc]
    decide
  have hpadded := (hzeros (places + 1 - digits.length)).append h
  have hpoint : '.'.val ≤ 127 := by decide
  rw [withPoint]
  split
  · exact hpadded
  · exact .append (fun c hc => hpadded c (List.mem_of_mem_take hc))
      (List.forall_mem_cons.2 ⟨hpoint, fun c hc => hpadded c (List.mem_of_mem_drop hc)⟩)

theorem isAscii_fixed (places : Nat) (x : Binary64) : IsAscii (fixed places x).toList := by
  rw [fixed]
  split
  next => exact .of_all rfl
  next negative _ =>
    rw [String.toList_ofList]
    exact (isAscii_sign negative).append (.of_all rfl)
  next negative mantissa exponent _ =>
    rw [String.toList_ofList]
    exact (isAscii_sign negative).append (isAscii_withPoint (isAscii_toDigits _) places)

theorem utf8ByteSize_fixed (places : Nat) (x : Binary64) :
    (fixed places x).utf8ByteSize = (fixed places x).length := by
  have h := (isAscii_fixed places x).utf8ByteSize_ofList
  rwa [String.ofList_toList, String.length_toList] at h

end Decimal

end CacheDelay

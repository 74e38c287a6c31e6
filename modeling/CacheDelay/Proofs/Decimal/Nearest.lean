import Mathlib
import CacheDelay.Decimal.Fraction

/-!
# The range of rounding

A fraction is rounded to a mantissa on a grid of powers of two, the grid of the binary order of the
fraction (`binaryOrder_spec`, `lt_mantissa_iff`). A fraction of at most half of the least float
becomes zero (`zero_lt_nearest_iff`), and one that is half way or further from the greatest float to
the next power of two becomes infinity (`isFinite_nearest_iff`).
-/

namespace CacheDelay

/-! ## Numbers with a positive sign -/

namespace Binary64

variable {x : Binary64}

/-- The bits of a number with a positive sign. -/
def IsUnsigned (x : Binary64) : Prop := x.bits.toNat ≤ infinityBits.toNat

theorem toNat_magnitude (x : Binary64) : x.magnitude.toNat = x.bits.toNat % 2 ^ 63 := by
  rw [magnitude, UInt64.toNat_and]
  exact Nat.and_two_pow_sub_one_eq_mod x.bits.toNat 63

theorem IsUnsigned.lt (h : x.IsUnsigned) : x.bits.toNat < 2 ^ 63 :=
  h.trans_lt (by decide)

theorem IsUnsigned.magnitude_eq (h : x.IsUnsigned) : x.magnitude = x.bits := by
  rw [← UInt64.toNat_inj, toNat_magnitude, Nat.mod_eq_of_lt h.lt]

theorem IsUnsigned.isNaN_eq (h : x.IsUnsigned) : x.isNaN = false := by
  rw [isNaN, h.magnitude_eq, decide_eq_false_iff_not, UInt64.lt_iff_toNat_lt, not_lt]
  exact h

theorem IsUnsigned.isFinite_iff (h : x.IsUnsigned) :
    x.isFinite = true ↔ x.bits.toNat < infinityBits.toNat := by
  rw [isFinite, h.magnitude_eq, decide_eq_true_iff, UInt64.lt_iff_toNat_lt]

theorem IsUnsigned.isNegative_eq (h : x.IsUnsigned) : x.isNegative = false := by
  rw [isNegative, decide_eq_false_iff_not, UInt64.le_iff_toNat_le, not_le]
  exact h.lt

theorem valueKey_zero : (0 : Binary64).valueKey = signBit := by rfl

theorem zero_lt_iff : 0 < x ↔ x.isNaN = false ∧ signBit < x.valueKey := by
  have hzero : (0 : Binary64).isNaN = false := by rfl
  show (!(0 : Binary64).isNaN) = true ∧ (!x.isNaN) = true ∧ (0 : Binary64).valueKey < x.valueKey ↔ _
  rw [hzero, valueKey_zero]
  simp

theorem or_signBit {b : UInt64} (h : b.toNat < 2 ^ 63) :
    (b ||| signBit).toNat = 2 ^ 63 + b.toNat := by
  rw [UInt64.toNat_or, Nat.or_comm]
  exact (Nat.two_pow_add_eq_or_of_lt h 1).symm

/-- A sign that is not set yet is set. -/
theorem xor_signBit {b : UInt64} (h : b.toNat < 2 ^ 63) : b ^^^ signBit = b ||| signBit := by
  rw [← UInt64.toNat_inj, UInt64.toNat_xor, UInt64.toNat_or]
  apply Nat.eq_of_testBit_eq
  intro i
  rw [Nat.testBit_xor, Nat.testBit_or]
  by_cases hi : i = 63
  · rw [hi, Nat.testBit_lt_two_pow h, Bool.false_xor, Bool.false_or]
  · have hsign : signBit.toNat.testBit i = false := Nat.testBit_two_pow_of_ne (Ne.symm hi)
    rw [hsign, Bool.xor_false, Bool.or_false]

theorem IsUnsigned.zero_lt_iff (h : x.IsUnsigned) : 0 < x ↔ x.bits.toNat ≠ 0 := by
  have hzero : x.bits = 0 ↔ x.bits.toNat = 0 := UInt64.toNat_inj.symm
  rw [Binary64.zero_lt_iff, valueKey, h.magnitude_eq, orderKey, h.isNegative_eq,
    UInt64.lt_iff_toNat_lt, and_iff_right h.isNaN_eq]
  split
  · rename_i hbits
    exact iff_of_false (Nat.lt_irrefl _) (not_not_intro (hzero.1 hbits))
  · rename_i hbits
    have hpos := mt hzero.2 hbits
    refine iff_of_true ?_ hpos
    rw [if_neg Bool.false_ne_true, or_signBit h.lt]
    show 2 ^ 63 < 2 ^ 63 + x.bits.toNat
    omega

theorem IsUnsigned.not_zero_lt_neg (h : x.IsUnsigned) : ¬ 0 < -x := by
  have hbits : (-x).bits.toNat = 2 ^ 63 + x.bits.toNat := by
    show (x.bits ^^^ signBit).toNat = _
    rw [xor_signBit h.lt, or_signBit h.lt]
  have hnegative : (-x).isNegative = true := by
    rw [isNegative, decide_eq_true_iff, UInt64.le_iff_toNat_le, hbits]
    exact Nat.le_add_right _ _
  rw [Binary64.zero_lt_iff, valueKey, orderKey, hnegative, if_pos rfl, not_and]
  intro _
  split
  · exact Nat.lt_irrefl _
  · rw [UInt64.lt_iff_toNat_lt, UInt64.toNat_not, hbits, not_lt]
    show 2 ^ 64 - 1 - _ ≤ 2 ^ 63
    omega

end Binary64

namespace Decimal

open Binary64

variable {num den k : ℕ}

/-! ## Rounding to integers -/

theorem lt_roundHalfEven_iff (hden : 0 < den) : k < roundHalfEven num den ↔
    (2 * k + 1) * den < 2 * num ∨ (2 * k + 1) * den = 2 * num ∧ k % 2 = 1 := by
  have hnum : den * (num / den) + num % den = num := Nat.div_add_mod num den
  have hrest : num % den < den := Nat.mod_lt num hden
  have hhalves : (2 * k + 1) * den = 2 * (den * k) + den := by ring
  simp only [roundHalfEven, Bool.or_eq_true, Bool.and_eq_true, decide_eq_true_eq, beq_iff_eq,
    hhalves]
  rcases lt_trichotomy k (num / den) with hk | rfl | hk
  · have := Nat.mul_le_mul_left den (Nat.succ_le_of_lt hk)
    rw [Nat.mul_succ] at this
    split <;> omega
  · split <;> omega
  · have := Nat.mul_le_mul_left den (Nat.succ_le_of_lt hk)
    rw [Nat.mul_succ] at this
    split <;> omega

/-- A half is rounded up from odd numbers. -/
theorem lt_roundHalfEven_iff_rat (hden : 0 < den) : k < roundHalfEven num den ↔
    (k : ℚ) + 1 / 2 < num / den ∨ (k : ℚ) + 1 / 2 = num / den ∧ k % 2 = 1 := by
  have hden' : (0 : ℚ) < den := by exact_mod_cast hden
  have hlt : (k : ℚ) + 1 / 2 < num / den ↔ (2 * k + 1) * den < 2 * num := by
    rw [lt_div_iff₀ hden', ← Nat.cast_lt (α := ℚ)]
    push_cast
    constructor <;> intro h <;> linarith
  have heq : (k : ℚ) + 1 / 2 = num / den ↔ (2 * k + 1) * den = 2 * num := by
    rw [eq_div_iff hden'.ne', ← Nat.cast_inj (R := ℚ)]
    push_cast
    constructor <;> intro h <;> linarith
  rw [lt_roundHalfEven_iff hden, hlt, heq]

/-! ## Powers of two -/

theorem scaleBinary_snd_pos (hden : 0 < den) (e : ℤ) : 0 < (scaleBinary num den e).2 := by
  rw [scaleBinary]
  split
  · exact hden
  · exact Nat.mul_pos hden (Nat.two_pow_pos _)

theorem cast_natPow (b : ℕ) {e : ℤ} (h : 0 ≤ e) : ((Nat.pow b e.toNat : ℕ) : ℚ) = b ^ e := by
  calc ((Nat.pow b e.toNat : ℕ) : ℚ) = b ^ e.toNat := Nat.cast_pow b e.toNat
    _ = (b : ℚ) ^ e := by rw [← zpow_natCast, Int.toNat_of_nonneg h]

theorem scaleBinary_div (num den : ℕ) (e : ℤ) :
    ((scaleBinary num den e).1 : ℚ) / (scaleBinary num den e).2 = num / den * 2 ^ e := by
  rw [scaleBinary]
  split
  · rename_i he
    rw [Nat.cast_mul, cast_natPow 2 he, mul_div_right_comm, Nat.cast_ofNat]
  · rename_i he
    rw [Nat.cast_mul, cast_natPow 2 (by omega), zpow_neg, ← div_div, div_inv_eq_mul,
      Nat.cast_ofNat]

theorem zpow_log2_le {n : ℕ} (h : 0 < n) : (2 : ℚ) ^ (n.log2 : ℤ) ≤ n := by
  rw [zpow_natCast]
  exact_mod_cast Nat.log2_self_le h.ne'

theorem lt_zpow_log2 (n : ℕ) : (n : ℚ) < 2 ^ ((n.log2 : ℤ) + 1) := by
  rw [← Nat.cast_add_one, zpow_natCast]
  exact_mod_cast Nat.lt_log2_self

/-- The order is that of the leading bits of both numbers, or one less. -/
theorem log2_sub_log2_bounds (hnum : 0 < num) (hden : 0 < den) :
    (2 : ℚ) ^ ((num.log2 : ℤ) - den.log2 - 1) ≤ num / den ∧
      (num : ℚ) / den < 2 ^ ((num.log2 : ℤ) - den.log2 + 1) := by
  have hden' : (0 : ℚ) < den := by exact_mod_cast hden
  constructor
  · rw [le_div_iff₀ hden']
    calc (2 : ℚ) ^ ((num.log2 : ℤ) - den.log2 - 1) * den
        ≤ 2 ^ ((num.log2 : ℤ) - den.log2 - 1) * 2 ^ ((den.log2 : ℤ) + 1) := by
          gcongr
          exact (lt_zpow_log2 den).le
      _ = 2 ^ (num.log2 : ℤ) := by
          rw [← zpow_add₀ two_ne_zero]
          congr 1
          ring
      _ ≤ num := zpow_log2_le hnum
  · rw [div_lt_iff₀ hden']
    calc (num : ℚ) < 2 ^ ((num.log2 : ℤ) + 1) := lt_zpow_log2 num
      _ = 2 ^ ((num.log2 : ℤ) - den.log2 + 1) * 2 ^ (den.log2 : ℤ) := by
          rw [← zpow_add₀ two_ne_zero]
          congr 1
          ring
      _ ≤ 2 ^ ((num.log2 : ℤ) - den.log2 + 1) * den := by
          gcongr
          exact zpow_log2_le hden

theorem binaryOrder_spec (hnum : 0 < num) (hden : 0 < den) :
    (2 : ℚ) ^ binaryOrder num den ≤ num / den ∧
      (num : ℚ) / den < 2 ^ (binaryOrder num den + 1) := by
  obtain ⟨hlow, hhigh⟩ := log2_sub_log2_bounds hnum hden
  have hguess (e : ℤ) : (scaleBinary num den (-e)).2 ≤ (scaleBinary num den (-e)).1 ↔
      (2 : ℚ) ^ e ≤ num / den := by
    have hpos : (0 : ℚ) < (scaleBinary num den (-e)).2 := by
      exact_mod_cast scaleBinary_snd_pos hden (-e)
    rw [← Nat.cast_le (α := ℚ), ← one_le_div hpos, scaleBinary_div, zpow_neg,
      ← div_eq_mul_inv, one_le_div (by positivity)]
  simp only [binaryOrder, hguess]
  split
  · exact ⟨‹_›, hhigh⟩
  · rw [sub_add_cancel]
    exact ⟨hlow, not_le.1 ‹_›⟩

/-! ## Bits of the nearest float -/

/-- The exponent of the numbers that a fraction is rounded to. -/
def gridExponent (num den : ℕ) : ℤ := max (binaryOrder num den - 52) leastExponent

/-- The mantissa that a fraction is rounded to. -/
def mantissa (num den : ℕ) : ℕ :=
  let scaled := scaleBinary num den (-gridExponent num den)
  roundHalfEven scaled.1 scaled.2

/-- The place of the mantissa on its grid, up to that of infinity. -/
theorem toNat_bits_nearest (h : num ≠ 0) : (nearest num den).bits.toNat =
    min ((gridExponent num den + 1074).toNat * 0x10000000000000 + mantissa num den)
      0x7FF0000000000000 := by
  rw [nearest, if_neg h]
  apply UInt64.toNat_ofNat_of_lt'
  exact (min_le_right _ _).trans_lt (by decide)

theorem isUnsigned_nearest (num den : ℕ) : (nearest num den).IsUnsigned := by
  by_cases h : num = 0
  · rw [nearest, if_pos h]
    exact Nat.zero_le _
  · rw [IsUnsigned, toNat_bits_nearest h]
    exact min_le_right _ _

theorem lt_mantissa_iff (hden : 0 < den) : k < mantissa num den ↔
    ((k : ℚ) + 1 / 2) * 2 ^ gridExponent num den < num / den ∨
      ((k : ℚ) + 1 / 2) * 2 ^ gridExponent num den = num / den ∧ k % 2 = 1 := by
  have hpow : (0 : ℚ) < 2 ^ gridExponent num den := by positivity
  rw [mantissa, lt_roundHalfEven_iff_rat (scaleBinary_snd_pos hden _), scaleBinary_div, zpow_neg,
    ← div_eq_mul_inv, lt_div_iff₀ hpow, eq_div_iff hpow.ne']

/-- Half of the least float, to which zero is as near. -/
def floatFloor : ℚ := 2 ^ (-1075 : ℤ)

theorem half_mul_zpow_eq_floatFloor : ((0 : ℕ) + 1 / 2 : ℚ) * 2 ^ (-1074 : ℤ) = floatFloor := by
  rw [floatFloor, show (-1074 : ℤ) = -1075 + 1 from rfl, zpow_add_one₀ two_ne_zero]
  ring

/-- Zero is nearest up to half of the least float. -/
theorem zero_lt_nearest_iff (hden : 0 < den) :
    0 < nearest num den ↔ floatFloor < num / den := by
  rw [(isUnsigned_nearest num den).zero_lt_iff]
  rcases Nat.eq_zero_or_pos num with rfl | hnum
  · rw [Nat.cast_zero, zero_div, nearest, if_pos rfl]
    refine iff_of_false (not_not_intro rfl) (not_lt.2 ?_)
    rw [floatFloor]
    positivity
  · have hgrid : gridExponent num den = max (binaryOrder num den - 52) (-1074) := rfl
    have hbits : (nearest num den).bits.toNat ≠ 0 ↔
        gridExponent num den ≠ -1074 ∨ 0 < mantissa num den := by
      rw [toNat_bits_nearest hnum.ne']
      omega
    rw [hbits, lt_mantissa_iff hden]
    by_cases hleast : gridExponent num den = -1074
    · rw [hleast, half_mul_zpow_eq_floatFloor]
      simp
    · have hlow : -1075 < binaryOrder num den := by omega
      refine iff_of_true (.inl hleast) ?_
      calc floatFloor < 2 ^ binaryOrder num den := zpow_lt_zpow_right₀ one_lt_two hlow
        _ ≤ num / den := (binaryOrder_spec hnum hden).1

theorem zpow_add_gridExponent (num den n : ℕ) :
    (2 : ℚ) ^ (n + gridExponent num den) = (2 ^ n : ℕ) * 2 ^ gridExponent num den := by
  rw [zpow_add₀ two_ne_zero, zpow_natCast, Nat.cast_pow, Nat.cast_ofNat]

theorem mantissa_le {n : ℕ} (hden : 0 < den)
    (h : (num : ℚ) / den < 2 ^ (n + gridExponent num den)) : mantissa num den ≤ 2 ^ n := by
  have hpow : (0 : ℚ) < 2 ^ gridExponent num den := by positivity
  rw [zpow_add_gridExponent] at h
  rw [← not_lt, lt_mantissa_iff hden, add_mul]
  rintro (hlt | ⟨heq, -⟩) <;> linarith

theorem le_mantissa {n : ℕ} (hden : 0 < den)
    (h : (2 : ℚ) ^ (n + gridExponent num den) ≤ num / den) : 2 ^ n ≤ mantissa num den := by
  have hpow : (0 : ℚ) < 2 ^ gridExponent num den := by positivity
  obtain ⟨k, hk⟩ := Nat.exists_eq_add_of_le' (Nat.two_pow_pos n)
  rw [zpow_add_gridExponent, hk, Nat.cast_add_one, add_mul] at h
  rw [hk]
  apply (lt_mantissa_iff hden).2 (.inl _)
  rw [add_mul]
  linarith

/-- The least number that is nearer to the next power of two than to the greatest float, or as near
to both. -/
def floatLimit : ℚ := 2 ^ 1024 - 2 ^ 970

theorem floatLimit_eq : floatLimit = (2 ^ 54 - 1) * 2 ^ 970 := by
  rw [floatLimit, sub_mul, ← pow_add, one_mul]

theorem zpow_le_floatLimit : (2 : ℚ) ^ (1023 : ℤ) ≤ floatLimit := by
  rw [floatLimit_eq]
  calc (2 : ℚ) ^ (1023 : ℤ) = 2 ^ 53 * 2 ^ 970 := (zpow_natCast 2 1023).trans (pow_add 2 53 970)
    _ ≤ (2 ^ 54 - 1) * 2 ^ 970 := by
      gcongr
      norm_num

theorem floatLimit_le_zpow : floatLimit ≤ (2 : ℚ) ^ (1024 : ℤ) := by
  rw [floatLimit_eq]
  calc ((2 : ℚ) ^ 54 - 1) * 2 ^ 970 ≤ 2 ^ 54 * 2 ^ 970 := by
        gcongr
        norm_num
    _ = 2 ^ (1024 : ℤ) := ((zpow_natCast 2 1024).trans (pow_add 2 54 970)).symm

/-- Half way between the greatest mantissa and the next one. -/
theorem half_mul_zpow_eq_floatLimit :
    (((2 ^ 53 - 1 : ℕ) : ℚ) + 1 / 2) * 2 ^ (971 : ℤ) = floatLimit := by
  have hpow : (2 : ℚ) ^ (971 : ℤ) = 2 * 2 ^ 970 := (zpow_natCast 2 971).trans (pow_succ' 2 970)
  rw [floatLimit_eq, hpow, ← mul_assoc]
  norm_num

/-- From half way between the greatest float and the next power of two on, infinity is nearest. -/
theorem isFinite_nearest_iff (hden : 0 < den) :
    (nearest num den).isFinite = true ↔ (num : ℚ) / den < floatLimit := by
  rw [(isUnsigned_nearest num den).isFinite_iff]
  rcases Nat.eq_zero_or_pos num with rfl | hnum
  · rw [Nat.cast_zero, zero_div, nearest, if_pos rfl]
    refine iff_of_true (by decide) ?_
    exact (by positivity : (0 : ℚ) < 2 ^ (1023 : ℤ)).trans_le zpow_le_floatLimit
  · obtain ⟨hlow, hhigh⟩ := binaryOrder_spec hnum hden
    have hgrid : gridExponent num den = max (binaryOrder num den - 52) (-1074) := rfl
    have hbits : (nearest num den).bits.toNat < infinityBits.toNat ↔
        (gridExponent num den + 1074).toNat * 2 ^ 52 + mantissa num den < 2047 * 2 ^ 52 := by
      rw [toNat_bits_nearest hnum.ne', show infinityBits.toNat = 0x7FF0000000000000 from rfl]
      omega
    rw [hbits]
    rcases lt_trichotomy (binaryOrder num den) 1023 with horder | horder | horder
    · have hmantissa : mantissa num den ≤ 2 ^ 53 := by
        apply mantissa_le hden
        exact hhigh.trans_le (zpow_le_zpow_right₀ one_le_two (by omega))
      refine iff_of_true (by omega) ?_
      calc (num : ℚ) / den < 2 ^ (binaryOrder num den + 1) := hhigh
        _ ≤ 2 ^ (1023 : ℤ) := zpow_le_zpow_right₀ one_le_two (by omega)
        _ ≤ floatLimit := zpow_le_floatLimit
    · -- the greatest mantissa is odd, so that half way to the next one is rounded up
      have hexponent : gridExponent num den = 971 := by omega
      have hodd : (2 ^ 53 - 1) % 2 = 1 := by decide
      have hfull : (gridExponent num den + 1074).toNat * 2 ^ 52 + mantissa num den < 2047 * 2 ^ 52 ↔
          ¬ 2 ^ 53 - 1 < mantissa num den := by omega
      rw [hfull, lt_mantissa_iff hden, hexponent, half_mul_zpow_eq_floatLimit, and_iff_left hodd,
        ← le_iff_lt_or_eq, not_le]
    · have hmantissa : 2 ^ 52 ≤ mantissa num den := by
        apply le_mantissa hden
        exact (zpow_le_zpow_right₀ one_le_two (by omega)).trans hlow
      refine iff_of_false (by omega) (not_lt.2 ?_)
      calc floatLimit ≤ (2 : ℚ) ^ (1024 : ℤ) := floatLimit_le_zpow
        _ ≤ 2 ^ binaryOrder num den := zpow_le_zpow_right₀ one_le_two (by omega)
        _ ≤ num / den := hlow

end Decimal
end CacheDelay

import Mathlib
import CacheDelay.Stats.Arithmetic

/-!
# Exact arithmetic

The numbers of an ordered field with whole parts as numbers to take statistics over: no operation
rounds, sums start from zero, all numbers are comparable and none is unbounded. Real numbers have
their square roots. Statistics read over them are the statistics as they are meant.
-/

namespace CacheDelay.Stats

variable {K : Type} [Field K] [LinearOrder K] [FloorSemiring K]

variable (K) in
/-- The arithmetic of a field. -/
abbrev exactArithmetic : Arithmetic K where
  ofNat n := n
  zero := 0
  least := min
  greatest := max
  floorFor first := first
  atMost a b := a ≤ b
  precedes a b := a ≤ b
  floor x := ⌊x⌋₊
  ceil x := ⌈x⌉₊
  isUnbounded _ := false

/-- The square roots of real numbers. -/
noncomputable abbrev exactRoots : Roots ℝ := ⟨Real.sqrt⟩

attribute [local instance] exactArithmetic

theorem atMost_iff {a b : K} : Arithmetic.atMost a b = true ↔ a ≤ b := decide_eq_true_iff

theorem precedes_iff {a b : K} : Arithmetic.precedes a b = true ↔ a ≤ b := decide_eq_true_iff

theorem sum_exact (values : List K) : sum values = values.sum :=
  List.sum_eq_foldl.symm

theorem clamp_exact {low high : K} (h : low ≤ high) (x : K) :
    clamp low high x = max low (min x high) := by
  simp only [clamp, Bool.and_eq_true, Bool.not_eq_true', ← Bool.not_eq_true, atMost_iff, not_le]
  rcases lt_or_ge x low with hlow | hlow
  · rw [if_pos ⟨hlow, hlow.le⟩, max_eq_left (min_le_of_left_le hlow.le)]
  · rw [if_neg fun hx => hx.1.not_ge hlow]
    rcases lt_or_ge high x with hhigh | hhigh
    · rw [if_pos ⟨hhigh, hhigh.le⟩, min_eq_right hhigh.le, max_eq_right h]
    · rw [if_neg fun hx => hx.1.not_ge hhigh, min_eq_left hhigh, max_eq_right hlow]

end CacheDelay.Stats

import CacheDelay.Proofs.Stats.Percentile

/-!
# Values within the quartiles

Without rounding, the values kept are those between the fences of the quartiles, in their order
(`withinQuartiles_eq_filter`). The quartiles depend on the values only through their ascending order
(`sort_eq_iff`). The fences move apart with the extent (`BetweenFences.mono`), and what lies between
the quartiles lies between them (`betweenFences_of_between`). A whole rank lies between those of the
quartiles unless there are two values (`exists_between_quartiles`).
-/

namespace CacheDelay.Stats

attribute [local instance] exactArithmetic

variable {K : Type} [Field K] [LinearOrder K] {lower upper extent extent' v : K}

/-! ## Fences -/

/-- `v` lies at most `extent` times the distance of two quartiles outside them. -/
def BetweenFences (lower upper extent v : K) : Prop :=
  lower - extent * (upper - lower) ≤ v ∧ v ≤ upper + extent * (upper - lower)

instance : Decidable (BetweenFences lower upper extent v) := inferInstanceAs (Decidable (_ ∧ _))

section

variable [IsStrictOrderedRing K]

theorem BetweenFences.mono (hquartiles : lower ≤ upper) (hextent : extent ≤ extent')
    (h : BetweenFences lower upper extent v) : BetweenFences lower upper extent' v := by
  have hspread := mul_le_mul_of_nonneg_right hextent (sub_nonneg.2 hquartiles)
  exact ⟨(sub_le_sub_left hspread _).trans h.1, h.2.trans (add_le_add_right hspread _)⟩

theorem betweenFences_of_between (hextent : 0 ≤ extent) (hlower : lower ≤ v) (hupper : v ≤ upper) :
    BetweenFences lower upper extent v := by
  refine BetweenFences.mono (hlower.trans hupper) hextent ⟨?_, ?_⟩
  · rwa [zero_mul, sub_zero]
  · rwa [zero_mul, add_zero]

end

/-! ## Quartiles of ascending values -/

variable [FloorSemiring K] {values values' sorted : List K}

/-- The `k`-th quartile of ascending values. -/
def quartile (k : ℕ) (sorted : List K) : K :=
  interpolated sorted (k * (sorted.length - 1 : ℕ) / 4)

variable [IsStrictOrderedRing K]

theorem percentile?_quartile (h : sorted ≠ []) (k : ℕ) (hk : k ≤ 4) :
    percentile? sorted (Arithmetic.ofNat (25 * k)) = some (quartile k sorted) := by
  have hle : ((25 * k : ℕ) : K) ≤ 100 := by exact_mod_cast (by omega : 25 * k ≤ 100)
  rw [percentile?_exact h, quartile]
  show some (interpolated sorted (rankOf sorted.length ((25 * k : ℕ) : K))) = _
  rw [rankOf_eq _ (Nat.cast_nonneg _) hle]
  congr 2
  push_cast
  ring

theorem quartile_rank_le (n : ℕ) {k : ℕ} (hk : k ≤ 4) : (k * n / 4 : K) ≤ n := by
  rw [div_le_iff₀ (by norm_num), mul_comm]
  exact mul_le_mul_of_nonneg_left (by exact_mod_cast hk) (Nat.cast_nonneg _)

theorem quartile_le_quartile (h : sorted.Pairwise (· ≤ ·)) :
    quartile 1 sorted ≤ quartile 3 sorted := by
  by_cases hne : sorted = []
  · simp [hne, quartile, interpolated]
  refine interpolated_mono h (by positivity) ?_
    (ceil_lt_length hne (quartile_rank_le _ (by decide)))
  have hn : (0 : K) ≤ (sorted.length - 1 : ℕ) := Nat.cast_nonneg _
  push_cast
  linarith

/-- A whole rank lies between those of the quartiles. -/
theorem ceil_le_floor_of_quartiles {n : ℕ} (hn : n ≠ 1) :
    ⌈(1 : ℕ) * (n : K) / 4⌉₊ ≤ ⌊(3 : ℕ) * (n : K) / 4⌋₊ := by
  rcases Nat.lt_or_gt_of_ne hn with hzero | htwo
  · rw [Nat.lt_one_iff.1 hzero]
    simp
  · have hn' : (2 : K) ≤ n := by exact_mod_cast htwo
    have hceil := Nat.ceil_lt_add_one (show 0 ≤ (1 : ℕ) * (n : K) / 4 by positivity)
    refine Nat.le_floor (hceil.le.trans ?_)
    push_cast
    linarith

theorem exists_between_quartiles (h : sorted.Pairwise (· ≤ ·))
    (hlength : sorted.length = 1 ∨ 3 ≤ sorted.length) :
    ∃ v ∈ sorted, quartile 1 sorted ≤ v ∧ v ≤ quartile 3 sorted := by
  have hne : sorted ≠ [] := List.ne_nil_of_length_pos (by omega)
  have hlow := ceil_lt_length hne (quartile_rank_le (sorted.length - 1) (show 1 ≤ 4 by decide))
  have hhigh := ceil_lt_length hne (quartile_rank_le (sorted.length - 1) (show 3 ≤ 4 by decide))
  refine ⟨_, List.mem_of_getElem? (getElem?_eq_getD hlow), interpolated_le_getD_ceil h hlow, ?_⟩
  refine (getD_mono h (ceil_le_floor_of_quartiles (by omega)) ?_).trans
    (getD_floor_le_interpolated h (by positivity) hhigh)
  exact (Nat.floor_le_ceil _).trans_lt hhigh

/-! ## Sorting -/

omit [IsStrictOrderedRing K] in
theorem pairwise_sort (values : List K) : (sort values).Pairwise (· ≤ ·) := by
  have htrans (a b c : K) (hab : Arithmetic.precedes a b) (hbc : Arithmetic.precedes b c) :
      Arithmetic.precedes a c :=
    precedes_iff.2 ((precedes_iff.1 hab).trans (precedes_iff.1 hbc))
  have htotal (a b : K) : (Arithmetic.precedes a b || Arithmetic.precedes b a) = true := by
    rw [Bool.or_eq_true, precedes_iff, precedes_iff]
    exact le_total a b
  exact (List.pairwise_mergeSort htrans htotal values).imp precedes_iff.1

omit [IsStrictOrderedRing K] in
theorem sort_eq_iff : sort values = sorted ↔ sorted.Perm values ∧ sorted.Pairwise (· ≤ ·) := by
  constructor
  · rintro rfl
    exact ⟨List.mergeSort_perm .., pairwise_sort values⟩
  · rintro ⟨hperm, hsorted⟩
    exact ((List.mergeSort_perm ..).trans hperm.symm).eq_of_pairwise
      (fun _ _ _ _ => le_antisymm) (pairwise_sort values) hsorted

/-! ## The filter -/

theorem fences?_exact (h : sort values = sorted) (hne : sorted ≠ []) (extent : K) :
    fences? values extent = some (
      quartile 1 sorted - (quartile 3 sorted - quartile 1 sorted) * extent,
      quartile 3 sorted + (quartile 3 sorted - quartile 1 sorted) * extent) := by
  have hlow := percentile?_quartile hne 1 (by decide)
  have hhigh := percentile?_quartile hne 3 (by decide)
  rw [fences?, h, hlow, hhigh]
  rfl

theorem withinQuartiles_eq_filter (h : sort values = sorted) (extent : K) :
    withinQuartiles values extent =
      values.filter (BetweenFences (quartile 1 sorted) (quartile 3 sorted) extent ·) := by
  have hbounded : ¬Arithmetic.isUnbounded extent = true := Bool.false_ne_true
  rw [withinQuartiles, if_neg hbounded]
  by_cases hne : sorted = []
  · have hnil : values = [] := by
      rw [hne] at h
      exact (sort_eq_iff.1 h).1.symm.eq_nil
    rw [hnil]
    split <;> rfl
  · rw [fences?_exact h hne]
    refine List.filter_congr fun v _ => ?_
    rw [Bool.eq_iff_iff, Bool.and_eq_true, atMost_iff, atMost_iff, decide_eq_true_eq,
      BetweenFences, mul_comm extent]

/-- Without rounding, the values kept are those between the fences, in their order. They are the
same values in whatever order the values come, more of them with a greater extent, and with them all
values between the quartiles, of which there is one unless there are two values or none. -/
theorem withinQuartiles_spec (values : List K) (hextent : 0 ≤ extent) :
    (∀ sorted : List K, sorted.Perm values → sorted.Pairwise (· ≤ ·) →
      withinQuartiles values extent =
          values.filter (BetweenFences (quartile 1 sorted) (quartile 3 sorted) extent ·) ∧
        ∀ v ∈ values, quartile 1 sorted ≤ v → v ≤ quartile 3 sorted →
          v ∈ withinQuartiles values extent) ∧
      (∀ values', values'.Perm values →
        (withinQuartiles values' extent).Perm (withinQuartiles values extent)) ∧
      (∀ extent', extent ≤ extent' →
        (withinQuartiles values extent).Sublist (withinQuartiles values extent')) ∧
      (values.length = 1 ∨ 3 ≤ values.length → withinQuartiles values extent ≠ []) := by
  have hsorted : (sort values).Perm values := List.mergeSort_perm ..
  refine ⟨fun sorted hperm hpairwise => ?_, fun values' hperm => ?_, fun extent' hle => ?_,
    fun hlength => ?_⟩
  · have hfilter := withinQuartiles_eq_filter (sort_eq_iff.2 ⟨hperm, hpairwise⟩) extent
    refine ⟨hfilter, fun v hv hlower hupper => ?_⟩
    rw [hfilter, List.mem_filter, decide_eq_true_eq]
    exact ⟨hv, betweenFences_of_between hextent hlower hupper⟩
  · have hsame : sort values' = sort values :=
      sort_eq_iff.2 ⟨hsorted.trans hperm.symm, pairwise_sort values⟩
    rw [withinQuartiles_eq_filter hsame, withinQuartiles_eq_filter rfl]
    exact hperm.filter _
  · rw [withinQuartiles_eq_filter rfl, withinQuartiles_eq_filter rfl]
    refine List.monotone_filter_right _ fun v hv => ?_
    rw [decide_eq_true_eq] at hv ⊢
    exact hv.mono (quartile_le_quartile (pairwise_sort values)) hle
  · have hlength' : (sort values).length = 1 ∨ 3 ≤ (sort values).length := by
      rwa [hsorted.length_eq]
    obtain ⟨v, hv, hlower, hupper⟩ := exists_between_quartiles (pairwise_sort values) hlength'
    rw [withinQuartiles_eq_filter rfl]
    refine List.ne_nil_of_mem (List.mem_filter.2 ⟨hsorted.mem_iff.1 hv, decide_eq_true ?_⟩)
    exact betweenFences_of_between hextent hlower hupper

/-- The quartiles of 1, 2, 3 and 1000 are 1.75 and 252.25, so that 1000 lies outside the fences. -/
theorem withinQuartiles_spec_of_outlier :
    (0 : ℚ) ≤ 3 / 2 ∧ [1, 2, 3, 1000].Perm ([3, 1000, 1, 2] : List ℚ) ∧
      ([1, 2, 3, 1000] : List ℚ).Pairwise (· ≤ ·) ∧
      withinQuartiles ([3, 1000, 1, 2] : List ℚ) (3 / 2) = [3, 1, 2] := by
  have hextent : (0 : ℚ) ≤ 3 / 2 := by decide +kernel
  have hperm : [1, 2, 3, 1000].Perm ([3, 1000, 1, 2] : List ℚ) := by decide +kernel
  have hsorted : ([1, 2, 3, 1000] : List ℚ).Pairwise (· ≤ ·) := by decide +kernel
  refine ⟨hextent, hperm, hsorted, ?_⟩
  rw [((withinQuartiles_spec [3, 1000, 1, 2] hextent).1 _ hperm hsorted).1]
  decide +kernel

end CacheDelay.Stats

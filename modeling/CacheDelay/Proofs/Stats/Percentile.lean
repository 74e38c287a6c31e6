import CacheDelay.Proofs.Stats.Exact
import CacheDelay.Stats.Quartiles

/-!
# Values between ranks

The value at a rank that need not be whole lies on the line between the values at the whole ranks
around it (`interpolated`). In an ascending list it lies between these two
(`getD_floor_le_interpolated`, `interpolated_le_getD_ceil`) and grows with the rank
(`interpolated_mono`); at a whole rank it is the value there (`interpolated_natCast`). Without
rounding, the value at a percentile is the one at its rank, which is within the list
(`percentile?_exact`), so that it grows with the percentile from the first value to the last one and
takes every value of the list at the percentile of its rank (`percentile?_of_ascending`).
-/

namespace CacheDelay.Stats

attribute [local instance] exactArithmetic

variable {K : Type} [Field K] [LinearOrder K] {values : List K} {rank rank' : K} {i j : ℕ}

/-! ## Ranks -/

/-- The rank of a percentile among `count` values. -/
def rankOf (count : ℕ) (p : K) : K := max 0 (min (p / 100) 1) * (count - 1 : ℕ)

section

variable [IsStrictOrderedRing K]

theorem rankOf_nonneg (count : ℕ) (p : K) : 0 ≤ rankOf count p :=
  mul_nonneg (le_max_left ..) (Nat.cast_nonneg _)

theorem rankOf_mono (count : ℕ) {p q : K} (h : p ≤ q) : rankOf count p ≤ rankOf count q := by
  have hshare : p / 100 ≤ q / 100 := div_le_div_of_nonneg_right h (by norm_num)
  exact mul_le_mul_of_nonneg_right (max_le_max le_rfl (min_le_min hshare le_rfl))
    (Nat.cast_nonneg _)

theorem rankOf_le (count : ℕ) (p : K) : rankOf count p ≤ (count - 1 : ℕ) :=
  mul_le_of_le_one_left (Nat.cast_nonneg _) (max_le zero_le_one (min_le_right ..))

theorem rankOf_eq (count : ℕ) {p : K} (hpos : 0 ≤ p) (hle : p ≤ 100) :
    rankOf count p = p * (count - 1 : ℕ) / 100 := by
  rw [rankOf, min_eq_left ((div_le_one₀ (by norm_num)).2 hle),
    max_eq_right (div_nonneg hpos (by norm_num)), div_mul_eq_mul_div]

/-- The percentile of a whole rank. -/
theorem rankOf_percentile {count k : ℕ} (hcount : 2 ≤ count) (hk : k < count) :
    rankOf count (100 * k / (count - 1 : ℕ) : K) = k := by
  have hpos : (0 : K) < (count - 1 : ℕ) := by exact_mod_cast (by omega : 0 < count - 1)
  have hle : (k : K) ≤ (count - 1 : ℕ) := by exact_mod_cast (by omega : k ≤ count - 1)
  rw [rankOf_eq]
  · field_simp
  · positivity
  · rw [div_le_iff₀ hpos]
    exact mul_le_mul_of_nonneg_left hle (by norm_num)

end

theorem getD_mono (h : values.Pairwise (· ≤ ·)) (hij : i ≤ j) (hj : j < values.length) :
    values.getD i 0 ≤ values.getD j 0 := by
  rw [List.getD_eq_getElem?_getD, List.getD_eq_getElem?_getD,
    List.getElem?_eq_getElem (hij.trans_lt hj), List.getElem?_eq_getElem hj]
  exact h.sortedLE.getElem_le_getElem_of_le hij

omit [LinearOrder K] in
theorem getElem?_eq_getD (hi : i < values.length) : values[i]? = some (values.getD i 0) := by
  rw [List.getD_eq_getElem?_getD, List.getElem?_eq_getElem hi, Option.getD_some]

/-! ## Interpolation -/

variable [FloorSemiring K]

/-- The value at a rank of a list, on the line between the values at the whole ranks around it. -/
def interpolated (values : List K) (rank : K) : K :=
  values.getD ⌊rank⌋₊ 0 +
    (values.getD ⌈rank⌉₊ 0 - values.getD ⌊rank⌋₊ 0) * (rank - ⌊rank⌋₊)

theorem ceil_lt_length (h : values ≠ []) (hrank : rank ≤ (values.length - 1 : ℕ)) :
    ⌈rank⌉₊ < values.length := by
  have hle := Nat.ceil_le.2 hrank
  have hpos := List.length_pos_of_ne_nil h
  omega

variable [IsStrictOrderedRing K]

theorem interpolated_natCast (values : List K) (k : ℕ) :
    interpolated values (k : K) = values.getD k 0 := by
  rw [interpolated, Nat.floor_natCast, Nat.ceil_natCast, sub_self, sub_self, zero_mul, add_zero]

theorem percentile?_exact (h : values ≠ []) (p : K) :
    percentile? values p = some (interpolated values (rankOf values.length p)) := by
  have hceil := ceil_lt_length h (rankOf_le values.length p)
  have hfloor := (Nat.floor_le_ceil (rankOf values.length p)).trans_lt hceil
  have hrank : clamp (Arithmetic.ofNat 0) (Arithmetic.ofNat 1) (p / Arithmetic.ofNat 100) *
      Arithmetic.ofNat (values.length - 1) = rankOf values.length p := by
    show clamp ((0 : ℕ) : K) (1 : ℕ) (p / (100 : ℕ)) * _ = _
    rw [Nat.cast_zero, Nat.cast_one, clamp_exact zero_le_one, Nat.cast_ofNat]
    rfl
  rw [percentile?, hrank]
  show (values[⌊rankOf values.length p⌋₊]?.bind fun below =>
    values[⌈rankOf values.length p⌉₊]?.bind fun above => _) = _
  rw [getElem?_eq_getD hfloor, getElem?_eq_getD hceil]
  rfl

theorem getD_floor_le_interpolated (h : values.Pairwise (· ≤ ·)) (hpos : 0 ≤ rank)
    (hlength : ⌈rank⌉₊ < values.length) :
    values.getD ⌊rank⌋₊ 0 ≤ interpolated values rank := by
  refine le_add_of_nonneg_right (mul_nonneg ?_ (sub_nonneg.2 (Nat.floor_le hpos)))
  exact sub_nonneg.2 (getD_mono h (Nat.floor_le_ceil rank) hlength)

theorem interpolated_le_getD_ceil (h : values.Pairwise (· ≤ ·))
    (hlength : ⌈rank⌉₊ < values.length) :
    interpolated values rank ≤ values.getD ⌈rank⌉₊ 0 := by
  have hle := sub_nonneg.2 (getD_mono h (Nat.floor_le_ceil rank) hlength)
  have hone : rank - ⌊rank⌋₊ ≤ 1 := (sub_lt_iff_lt_add'.2 (Nat.lt_floor_add_one rank)).le
  have hstep := mul_le_of_le_one_right hle hone
  rw [interpolated]
  linarith

theorem interpolated_mono (h : values.Pairwise (· ≤ ·)) (hpos : 0 ≤ rank) (hrank : rank ≤ rank')
    (hlength : ⌈rank'⌉₊ < values.length) :
    interpolated values rank ≤ interpolated values rank' := by
  have hfloor := Nat.floor_mono hrank
  have hceil := Nat.ceil_mono hrank
  have hlow := getD_floor_le_interpolated h (hpos.trans hrank) hlength
  rcases hfloor.eq_or_lt with heq | hlt
  · rcases (Nat.floor_le_ceil rank).eq_or_lt with hwhole | hbetween
    · -- at a whole rank there is nothing to add
      rwa [interpolated, ← hwhole, sub_self, zero_mul, add_zero, heq]
    · have hle := Nat.ceil_le_floor_add_one rank'
      have hsame : ⌈rank⌉₊ = ⌈rank'⌉₊ := by omega
      have hstep := sub_nonneg.2 (getD_mono h (Nat.floor_le_ceil rank') hlength)
      rw [interpolated, interpolated, heq, hsame]
      exact add_le_add_right (mul_le_mul_of_nonneg_left (sub_le_sub_right hrank _) hstep) _
  · calc interpolated values rank
        ≤ values.getD ⌈rank⌉₊ 0 := interpolated_le_getD_ceil h (hceil.trans_lt hlength)
      _ ≤ values.getD ⌊rank'⌋₊ 0 := by
          have hle := Nat.ceil_le_floor_add_one rank
          exact getD_mono h (by omega) ((Nat.floor_le_ceil rank').trans_lt hlength)
      _ ≤ interpolated values rank' := hlow

/-- In an ascending list every rank has a value between the first one and the last one. -/
theorem interpolated_between (hne : values ≠ []) (h : values.Pairwise (· ≤ ·)) (hpos : 0 ≤ rank)
    (hlength : ⌈rank⌉₊ < values.length) :
    values.head hne ≤ interpolated values rank ∧ interpolated values rank ≤ values.getLast hne := by
  have hfirst : values.head hne = values.getD 0 0 := by
    apply Option.some.inj
    rw [← List.head?_eq_some_head, List.head?_eq_getElem?,
      getElem?_eq_getD (List.length_pos_of_ne_nil hne)]
  have hlast : values.getLast hne = values.getD (values.length - 1) 0 := by
    apply Option.some.inj
    rw [← List.getLast?_eq_some_getLast, List.getLast?_eq_getElem?, getElem?_eq_getD (by omega)]
  have hfloor := (Nat.floor_le_ceil rank).trans_lt hlength
  constructor
  · calc values.head hne
        = values.getD 0 0 := hfirst
      _ ≤ values.getD ⌊rank⌋₊ 0 := getD_mono h (Nat.zero_le _) hfloor
      _ ≤ interpolated values rank := getD_floor_le_interpolated h hpos hlength
  · calc interpolated values rank
        ≤ values.getD ⌈rank⌉₊ 0 := interpolated_le_getD_ceil h hlength
      _ ≤ values.getD (values.length - 1) 0 := getD_mono h (by omega) (by omega)
      _ = values.getLast hne := hlast.symm

/-! ## Percentiles -/

/-- Without rounding, ascending values have a value at every percentile, also below 0 and above 100.
Both ranks that are looked up are within the list; the value lies between those at the two ranks, and
between the first one and the last one. It grows with the percentile, and at the percentile of a
whole rank it is the value at that rank. -/
theorem percentile?_of_ascending (hne : values ≠ []) (h : values.Pairwise (· ≤ ·)) :
    (∀ p : K, ∃ v below above, percentile? values p = some v ∧
      values[⌊rankOf values.length p⌋₊]? = some below ∧
      values[⌈rankOf values.length p⌉₊]? = some above ∧
      (below ≤ v ∧ v ≤ above) ∧ values.head hne ≤ v ∧ v ≤ values.getLast hne) ∧
    (∀ p q v w, p ≤ q → percentile? values p = some v → percentile? values q = some w → v ≤ w) ∧
    ∀ k, 2 ≤ values.length → k < values.length →
      percentile? values (100 * k / (values.length - 1 : ℕ)) = values[k]? := by
  have hceil (p : K) : ⌈rankOf values.length p⌉₊ < values.length :=
    ceil_lt_length hne (rankOf_le values.length p)
  refine ⟨fun p => ?_, fun p q v w hpq hv hw => ?_, fun k htwo hk => ?_⟩
  · have hpos := rankOf_nonneg values.length p
    have hfloor := (Nat.floor_le_ceil (rankOf values.length p)).trans_lt (hceil p)
    exact ⟨_, _, _, percentile?_exact hne p, getElem?_eq_getD hfloor, getElem?_eq_getD (hceil p),
      ⟨getD_floor_le_interpolated h hpos (hceil p), interpolated_le_getD_ceil h (hceil p)⟩,
      interpolated_between hne h hpos (hceil p)⟩
  · rw [percentile?_exact hne, Option.some.injEq] at hv hw
    rw [← hv, ← hw]
    exact interpolated_mono h (rankOf_nonneg ..) (rankOf_mono _ hpq) (hceil q)
  · rw [percentile?_exact hne, rankOf_percentile htwo hk, interpolated_natCast, getElem?_eq_getD hk]

/-- Of 1, 2 and 4, percentile 150 is the last value and percentile 50 the middle one; percentile 75
lies between these. -/
theorem percentile?_of_ascending_three :
    ([1, 2, 4] : List ℚ) ≠ [] ∧ ([1, 2, 4] : List ℚ).Pairwise (· ≤ ·) ∧
      percentile? [1, 2, 4] (100 * (1 : ℕ) / (2 : ℕ) : ℚ) = some 2 ∧
      percentile? [1, 2, 4] (150 : ℚ) = some 4 ∧
      ∃ v, percentile? [1, 2, 4] (75 : ℚ) = some v ∧ 2 ≤ v ∧ v ≤ 4 := by
  have hne : ([1, 2, 4] : List ℚ) ≠ [] := List.cons_ne_nil _ _
  have h : ([1, 2, 4] : List ℚ).Pairwise (· ≤ ·) := by decide +kernel
  obtain ⟨hvalues, hmono, hranks⟩ := percentile?_of_ascending hne h
  have hmiddle := hranks 1 (by decide) (by decide)
  have hlast := hranks 2 (by decide) (by decide)
  obtain ⟨v, -, -, hv, -, -, -, -, hle⟩ := hvalues 75
  obtain ⟨w, -, -, hw, -, -, -, -, hle'⟩ := hvalues 150
  refine ⟨hne, h, hmiddle, ?_, v, hv, hmono _ _ _ _ ?_ hmiddle hv, hle⟩
  · have hge := hmono _ _ _ _ (by norm_num) hlast hw
    rw [hw, le_antisymm hle' hge]
    rfl
  · norm_num

end CacheDelay.Stats

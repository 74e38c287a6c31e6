import CacheDelay.Proofs.Stats.Exact
import CacheDelay.Stats.Rough
import CacheDelay.Stats.Summary

/-!
# Statistics in one pass

Rough statistics are taken in one pass, element by element. Without rounding, each element leaves
least, greatest, mean and squared distances of all elements so far (`Running.Summarizes.add`), and
so does the whole pass (`summarizes_foldl`). The squares are those of two passes, since squared
distances from a moved centre grow by the square of the way from the mean (`squaresAbout_of_mean`).
The rough statistics of a population thus agree with the summary of its counted elements, up to the
divisor of the deviation (`ofValues_agrees_with_summary`).
-/

namespace CacheDelay.Stats

attribute [local instance] exactArithmetic exactRoots

/-! ## Lists with one more element -/

section

variable {α : Type} {values : List α} {m : α}

theorem min?_concat [Min α] (h : values.min? = some m) (x : α) :
    (values ++ [x]).min? = some (min m x) := by
  cases values with
  | nil => cases h
  | cons first rest =>
    rw [List.min?_cons', Option.some.injEq] at h
    rw [List.cons_append, List.min?_cons', List.foldl_concat, h]

theorem max?_concat [Max α] (h : values.max? = some m) (x : α) :
    (values ++ [x]).max? = some (max m x) := by
  cases values with
  | nil => cases h
  | cons first rest =>
    rw [List.max?_cons', Option.some.injEq] at h
    rw [List.cons_append, List.max?_cons', List.foldl_concat, h]

end

/-! ## Squared distances -/

section

variable {K : Type} [Field K] {mean : K} {values : List K}

/-- The sum of the squared distances of some numbers from `center`. -/
def squaresAbout (center : K) (values : List K) : K :=
  (values.map fun v => (v - center) * (v - center)).sum

theorem squaresAbout_concat (center : K) (values : List K) (x : K) :
    squaresAbout center (values ++ [x]) =
      squaresAbout center values + (x - center) * (x - center) := by
  rw [squaresAbout, List.map_append, List.sum_append, List.map_singleton, List.sum_singleton,
    squaresAbout]

theorem squaresAbout_eq (center : K) (values : List K) :
    squaresAbout center values =
      squaresAbout 0 values - 2 * center * values.sum + values.length * (center * center) := by
  induction values using List.reverseRecOn with
  | nil => simp [squaresAbout]
  | append_singleton values x ih =>
    rw [squaresAbout_concat, squaresAbout_concat, ih, List.sum_append, List.sum_singleton,
      List.length_append, List.length_singleton, Nat.cast_add, Nat.cast_one]
    ring

/-- Squared distances grow with the square of the way from the mean. -/
theorem squaresAbout_of_mean (h : mean * values.length = values.sum) (center : K) :
    squaresAbout center values =
      squaresAbout mean values + values.length * ((center - mean) * (center - mean)) := by
  rw [squaresAbout_eq center, squaresAbout_eq mean, ← h]
  ring

theorem squaresAbout_nonneg [LinearOrder K] [IsStrictOrderedRing K] (center : K)
    (values : List K) : 0 ≤ squaresAbout center values :=
  List.sum_nonneg fun _ hsquare => by
    obtain ⟨v, -, rfl⟩ := List.mem_map.1 hsquare
    exact mul_self_nonneg _

end

namespace Rough

/-! ## The pass -/

section

variable {K : Type} [Field K] [LinearOrder K] [FloorSemiring K]
variable {r : Running K} {values : List K}

/-- `r` has the statistics of `values`. -/
structure Running.Summarizes (r : Running K) (values : List K) : Prop where
  count : r.count = values.length
  least : values.min? = some r.least
  greatest : values.max? = some r.greatest
  mean : r.mean * values.length = values.sum
  squares : r.squares = squaresAbout r.mean values

theorem Running.add_exact (r : Running K) (x : K) : r.add x =
    { count := r.count + 1
      least := min r.least x
      greatest := max r.greatest x
      mean := r.mean + (x - r.mean) / (r.count + 1 : ℕ)
      squares := r.squares + r.count * (x - r.mean) * (x - r.mean) / (r.count + 1 : ℕ) } :=
  rfl

theorem summarizes_single (first : K) : (Running.single first).Summarizes [first] where
  count := rfl
  least := rfl
  greatest := rfl
  mean := by
    rw [List.length_singleton, Nat.cast_one, mul_one, List.sum_singleton]
    rfl
  squares := by
    rw [squaresAbout, List.map_singleton, List.sum_singleton, Running.single, sub_self, mul_zero]
    exact Nat.cast_zero

theorem Running.Summarizes.add [IsStrictOrderedRing K] (h : r.Summarizes values) (x : K) :
    (r.add x).Summarizes (values ++ [x]) := by
  have hpos : ((r.count + 1 : ℕ) : K) ≠ 0 := Nat.cast_ne_zero.2 r.count.succ_ne_zero
  rw [add_exact]
  constructor
  · rw [List.length_append, ← h.count, List.length_singleton]
  · exact min?_concat h.least x
  · exact max?_concat h.greatest x
  · rw [List.sum_append, List.sum_singleton, ← h.mean, List.length_append, List.length_singleton,
      ← h.count]
    field_simp
    push_cast
    ring
  · -- the old elements are seen from the new mean, which lies a part of the way to the new one
    rw [squaresAbout_concat, squaresAbout_of_mean h.mean, ← h.squares, ← h.count]
    push_cast at hpos ⊢
    field_simp
    ring

theorem summarizes_foldl [IsStrictOrderedRing K] (h : r.Summarizes values) (more : List K) :
    (more.foldl Running.add r).Summarizes (values ++ more) := by
  induction more generalizing r values with
  | nil => rwa [List.append_nil]
  | cons x more ih =>
    rw [List.append_cons]
    exact ih (h.add x)

end

/-! ## Populations -/

/-- The elements that rough statistics count: all but the last one, unless it is the only one. -/
def counted {α : Type} (values : List α) : List α :=
  if values.length = 1 then values else values.dropLast

theorem counted_cons {α : Type} (first : α) (rest : List α) :
    counted (first :: rest) = first :: rest.dropLast := by
  cases rest with
  | nil => rfl
  | cons next rest => exact if_neg (by simp)

theorem length_counted {α : Type} {values : List α} (h : 2 ≤ values.length) :
    (counted values).length = values.length - 1 := by
  rw [counted, if_neg (by omega), List.length_dropLast]

theorem ofValues_exact {values : List ℝ} (h : values ≠ []) (mhz : ℝ) :
    ∃ r : Running ℝ, r.Summarizes (counted values) ∧
      ofValues values mhz = some
        { count := values.length
          least := r.least / mhz
          greatest := r.greatest / mhz
          mean := r.mean / mhz
          deviation :=
            (if 2 < values.length then √(r.squares / (values.length - 2 : ℕ)) else 0) / mhz } := by
  obtain ⟨first, rest, rfl⟩ := List.exists_cons_of_ne_nil h
  refine ⟨rest.dropLast.foldl Running.add (Running.single first), ?_, ?_⟩
  · rw [counted_cons]
    exact summarizes_foldl (summarizes_single first) rest.dropLast
  · rw [← Nat.cast_zero (R := ℝ)]
    rfl

theorem summary_exact {values : List ℝ} (h : values ≠ []) (scale : ℝ) :
    Summary.ofValues values scale =
      { count := values.length
        greatest := values.foldl max (values.head h) / scale
        average := values.sum / values.length / scale
        deviation :=
          √(squaresAbout (values.sum / values.length) values / values.length) / scale } := by
  cases values with
  | nil => exact (h rfl).elim
  | cons first rest =>
    rw [Summary.ofValues, sum_exact, sum_exact]
    rfl

/-- A deviation whose squares were divided by `n`, squared and taken `n` times. -/
theorem mul_sq_deviation {n squares : ℝ} (hn : 0 < n) (hsquares : 0 ≤ squares) (scale : ℝ) :
    n * (√(squares / n) / scale) ^ 2 = squares / scale ^ 2 := by
  rw [div_pow, Real.sq_sqrt (div_nonneg hsquares hn.le), ← mul_div_assoc, mul_div_cancel₀ _ hn.ne']

/-- Without rounding, the statistics of a population in one pass are those that a summary takes of
its counted elements in two; only the deviation divides by one less than their number. -/
theorem ofValues_agrees_with_summary (values : List ℝ) (h : values ≠ []) (mhz : ℝ) :
    ∃ r, ofValues values mhz = some r ∧
      r.count = values.length ∧
      (counted values).min?.map (· / mhz) = some r.least ∧
      (counted values).max?.map (· / mhz) = some r.greatest ∧
      r.mean = (Summary.ofValues (counted values) mhz).average ∧
      (3 ≤ values.length → (values.length - 2) * r.deviation ^ 2 =
        (values.length - 1) * (Summary.ofValues (counted values) mhz).deviation ^ 2) ∧
      (values.length ≤ 2 → r.deviation = 0) := by
  obtain ⟨r, hr, heq⟩ := ofValues_exact h mhz
  have hcounted : counted values ≠ [] := by
    intro hnil
    have hleast := hr.least
    rw [hnil] at hleast
    cases hleast
  have hpos : (0 : ℝ) < (counted values).length :=
    Nat.cast_pos.2 (List.length_pos_of_ne_nil hcounted)
  have hsquares : 0 ≤ r.squares := hr.squares ▸ squaresAbout_nonneg ..
  rw [summary_exact hcounted, ← eq_div_of_mul_eq hpos.ne' hr.mean, ← hr.squares]
  refine ⟨_, heq, rfl, ?_, ?_, rfl, fun hlength => ?_, fun hlength => ?_⟩
  · rw [hr.least, Option.map_some]
  · rw [hr.greatest, Option.map_some]
  · obtain ⟨k, hk⟩ := Nat.exists_eq_add_of_le' hlength
    have hone : ((values.length : ℝ) - 1) = (counted values).length := by
      rw [length_counted (by omega), Nat.cast_pred (by omega)]
    have htwo : ((values.length : ℝ) - 2) = (values.length - 2 : ℕ) := by
      rw [Nat.cast_sub (by omega), Nat.cast_ofNat]
    have hpos' : (0 : ℝ) < (values.length - 2 : ℕ) := Nat.cast_pos.2 (by omega)
    rw [if_pos (show 2 < values.length from hlength), hone, htwo, mul_sq_deviation hpos hsquares,
      mul_sq_deviation hpos' hsquares]
  · rw [if_neg (by omega), zero_div]

/-- Forty is left out. The squares of the others, 200 before scaling, are divided by two in one pass
and by three in two. -/
theorem ofValues_agrees_with_summary_of_four :
    [10, 20, 30, 40] ≠ ([] : List ℝ) ∧
      ∃ r, ofValues [10, 20, 30, 40] (2 : ℝ) = some r ∧ r.count = 4 ∧ r.least = 5 ∧
        r.greatest = 15 ∧ r.mean = 10 ∧ r.deviation ^ 2 = 25 := by
  have h : [10, 20, 30, 40] ≠ ([] : List ℝ) := List.cons_ne_nil _ _
  obtain ⟨r, hr, hcount, hleast, hgreatest, hmean, hdeviation, -⟩ :=
    ofValues_agrees_with_summary [10, 20, 30, 40] h 2
  have hsquares : squaresAbout (20 : ℝ) [10, 20, 30] = 200 := by
    norm_num [squaresAbout]
  have hsummary : Summary.ofValues (counted [10, 20, 30, 40]) (2 : ℝ) =
      ⟨3, 15, 10, √(200 / 3) / 2⟩ := by
    rw [counted_cons, summary_exact (List.cons_ne_nil _ _), ← hsquares]
    norm_num
  rw [hsummary] at hmean hdeviation
  refine ⟨h, r, hr, hcount, ?_, ?_, hmean, ?_⟩
  · rw [counted_cons, List.min?_cons'] at hleast
    norm_num at hleast
    exact hleast.symm
  · rw [counted_cons, List.max?_cons'] at hgreatest
    norm_num at hgreatest
    exact hgreatest.symm
  · have hthree : 3 * (√(200 / 3) / 2) ^ 2 = 200 / (2 : ℝ) ^ 2 :=
      mul_sq_deviation (by norm_num) (by norm_num) 2
    have htwice := hdeviation (by decide)
    norm_num at hthree htwice
    linarith

end Rough

end CacheDelay.Stats

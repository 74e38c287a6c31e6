import CacheDelay.Proofs.Stats.Exact
import CacheDelay.Stats.Estimates

/-!
# Values between estimates

Without rounding, the value at a share between two neighbouring estimates lies on the line through
them (`onLine`), whichever two neighbours around the share are taken (`between?_eq_onLine`): at a
listed share, where the search stops early, both lines give the listed value. Hence a share has the
first value, the last value or a value on such a line (`valueAt?_cases`). A value is compared with
those of the estimates on either side (`valueAt?_le_of_mem`, `le_valueAt?_of_mem`), so that it grows
with the share: an estimate between two shares separates their values, and without one they lie on
the same line (`valueAt?_of_ascending`).
-/

namespace CacheDelay.Stats.Estimates

attribute [local instance] exactArithmetic

variable {K : Type} [LinearOrder K] {quantiles : List (K × K)} {a b entry : K × K}
  {share share' v v' : K}

/-! ## Ascending entries -/

omit [LinearOrder K] in
theorem left_mem (hab : [a, b] <:+: quantiles) : a ∈ quantiles := hab.subset (by simp)

omit [LinearOrder K] in
theorem right_mem (hab : [a, b] <:+: quantiles) : b ∈ quantiles := hab.subset (by simp)

/-- Each entry has a greater share than those before it and no smaller value. -/
structure Ascending (quantiles : List (K × K)) : Prop where
  shares : quantiles.Pairwise fun a b => a.1 < b.1
  values : quantiles.Pairwise fun a b => a.2 ≤ b.2

namespace Ascending

theorem tail (h : Ascending (entry :: quantiles)) : Ascending quantiles :=
  ⟨h.shares.of_cons, h.values.of_cons⟩

variable (h : Ascending quantiles)
include h

theorem value_le (ha : a ∈ quantiles) (hb : b ∈ quantiles) (hle : a.1 ≤ b.1) : a.2 ≤ b.2 := by
  obtain ⟨i, hi, rfl⟩ := List.getElem_of_mem ha
  obtain ⟨j, hj, rfl⟩ := List.getElem_of_mem hb
  rcases lt_trichotomy i j with hij | rfl | hji
  · exact List.pairwise_iff_getElem.1 h.values i j hi hj hij
  · exact le_rfl
  · exact absurd (List.pairwise_iff_getElem.1 h.shares j i hj hi hji) hle.not_gt

theorem value_eq (ha : a ∈ quantiles) (hb : b ∈ quantiles) (heq : a.1 = b.1) : a.2 = b.2 :=
  le_antisymm (h.value_le ha hb heq.le) (h.value_le hb ha heq.ge)

theorem head_le (hne : quantiles ≠ []) (hentry : entry ∈ quantiles) :
    (quantiles.head hne).1 ≤ entry.1 := by
  have hle : quantiles.Pairwise fun a b => a.1 ≤ b.1 := h.shares.imp le_of_lt
  exact hle.rel_head_of_rel_head_head hentry le_rfl

theorem le_getLast (hne : quantiles ≠ []) (hentry : entry ∈ quantiles) :
    entry.1 ≤ (quantiles.getLast hne).1 := by
  have hle : quantiles.Pairwise fun a b => a.1 ≤ b.1 := h.shares.imp le_of_lt
  exact hle.rel_getLast_of_rel_getLast_getLast hentry le_rfl

variable (hab : [a, b] <:+: quantiles)
include hab

theorem share_lt : a.1 < b.1 := by simpa using h.shares.sublist hab.sublist

theorem neighbour_le : a.2 ≤ b.2 := by simpa using h.values.sublist hab.sublist

/-- No entry lies between two neighbours. -/
theorem le_or_le (hentry : entry ∈ quantiles) : entry.1 ≤ a.1 ∨ b.1 ≤ entry.1 := by
  obtain ⟨front, back, rfl⟩ := hab
  obtain ⟨-, hpair, hfront⟩ := List.pairwise_append.1 (List.append_assoc .. ▸ h.shares)
  obtain ⟨hback, -⟩ := List.pairwise_cons.1 hpair.of_cons
  simp only [List.append_assoc, List.cons_append, List.nil_append, List.mem_append,
    List.mem_cons] at hentry
  rcases hentry with hentry | rfl | rfl | hentry
  · exact .inl (hfront entry hentry a (List.mem_cons_self ..)).le
  · exact .inl le_rfl
  · exact .inr le_rfl
  · exact .inr (hback entry hentry).le

end Ascending

/-! ## Lines -/

variable [Field K]

/-- The value at a share on the line through two entries. -/
def onLine (a b : K × K) (share : K) : K := a.2 + (b.2 - a.2) * (share - a.1) / (b.1 - a.1)

omit [LinearOrder K] in
theorem onLine_left (a b : K × K) : onLine a b a.1 = a.2 := by
  simp [onLine]

theorem onLine_right (h : a.1 < b.1) : onLine a b b.1 = b.2 := by
  rw [onLine, mul_div_cancel_right₀ _ (sub_ne_zero.2 h.ne'), add_sub_cancel]

theorem onLine_mono [IsStrictOrderedRing K] (hshare : a.1 < b.1) (hvalue : a.2 ≤ b.2)
    (h : share ≤ share') : onLine a b share ≤ onLine a b share' := by
  have hwidth : 0 ≤ b.1 - a.1 := sub_nonneg.2 hshare.le
  have hheight : 0 ≤ b.2 - a.2 := sub_nonneg.2 hvalue
  rw [onLine, onLine]
  gcongr

section

variable [IsStrictOrderedRing K] (h : Ascending quantiles) (hab : [a, b] <:+: quantiles)
  (hshare : a.1 ≤ share ∧ share ≤ b.1) (hentry : entry ∈ quantiles)
include h hab hshare hentry

/-- The line through two neighbours stays below the entries behind a share between them. -/
theorem Ascending.onLine_le_of_mem (hle : share ≤ entry.1) : onLine a b share ≤ entry.2 := by
  rcases h.le_or_le hab hentry with hbefore | hafter
  · calc onLine a b share
        ≤ onLine a b a.1 := onLine_mono (h.share_lt hab) (h.neighbour_le hab) (hle.trans hbefore)
      _ = a.2 := onLine_left a b
      _ ≤ entry.2 := h.value_le (left_mem hab) hentry (hshare.1.trans hle)
  · calc onLine a b share
        ≤ onLine a b b.1 := onLine_mono (h.share_lt hab) (h.neighbour_le hab) hshare.2
      _ = b.2 := onLine_right (h.share_lt hab)
      _ ≤ entry.2 := h.value_le (right_mem hab) hentry hafter

/-- The line through two neighbours stays above the entries before a share between them. -/
theorem Ascending.le_onLine_of_mem (hle : entry.1 ≤ share) : entry.2 ≤ onLine a b share := by
  rcases h.le_or_le hab hentry with hbefore | hafter
  · calc entry.2
        ≤ a.2 := h.value_le hentry (left_mem hab) hbefore
      _ = onLine a b a.1 := (onLine_left a b).symm
      _ ≤ onLine a b share := onLine_mono (h.share_lt hab) (h.neighbour_le hab) hshare.1
  · calc entry.2
        ≤ b.2 := h.value_le hentry (right_mem hab) (hle.trans hshare.2)
      _ = onLine a b b.1 := (onLine_right (h.share_lt hab)).symm
      _ ≤ onLine a b share :=
        onLine_mono (h.share_lt hab) (h.neighbour_le hab) (hafter.trans hle)

end

/-! ## The search between neighbours -/

variable [FloorSemiring K]

theorem between?_eq_onLine (h : Ascending quantiles) (hab : [a, b] <:+: quantiles)
    (hfrom : a.1 ≤ share) (hto : share ≤ b.1) :
    between? share quantiles = some (onLine a b share) := by
  fun_induction between? share quantiles with
  | case1 p v q w rest henclosed =>
    show some (onLine (p, v) (q, w) share) = _
    rcases List.infix_cons_iff.1 hab with hprefix | hrest
    · obtain ⟨rfl, rfl⟩ : a = (p, v) ∧ b = (q, w) := by simpa using hprefix
      rfl
    · -- the line before the one through `a` and `b` ends in `a`
      have hshare : share ≤ q := by
        rw [Bool.and_eq_true, atMost_iff, atMost_iff] at henclosed
        exact henclosed.2
      have ha : a ∈ (q, w) :: rest := left_mem hrest
      have hq : (q, w).1 ≤ a.1 := h.tail.head_le (List.cons_ne_nil _ _) ha
      have hsame : share = q := le_antisymm hshare (hq.trans hfrom)
      have hstart : share = a.1 := le_antisymm (hshare.trans hq) hfrom
      have hvalue : w = a.2 :=
        h.tail.value_eq (List.mem_cons_self ..) ha (hsame.symm.trans hstart)
      have hline : onLine (p, v) (q, w) q = w := onLine_right (h.share_lt ⟨[], rest, rfl⟩)
      rw [hstart, onLine_left, ← hstart, hsame, hline, hvalue]
  | case2 p v q w rest henclosed ih =>
    rcases List.infix_cons_iff.1 hab with hprefix | hrest
    · obtain ⟨rfl, rfl⟩ : a = (p, v) ∧ b = (q, w) := by simpa using hprefix
      rw [Bool.and_eq_true, atMost_iff, atMost_iff] at henclosed
      exact absurd ⟨hfrom, hto⟩ henclosed
    · exact ih h.tail hrest
  | case3 quantiles hshort =>
    have hlength := hab.length_le
    rcases quantiles with _ | ⟨⟨p, v⟩, _ | ⟨⟨q, w⟩, rest⟩⟩
    · simp at hlength
    · simp at hlength
    · exact (hshort p v q w rest rfl).elim

omit [Field K] [FloorSemiring K] in
/-- A share between the first and the last entry lies between two neighbours. -/
theorem exists_neighbours (hne : quantiles ≠ []) (hfrom : (quantiles.head hne).1 ≤ share)
    (hto : share < (quantiles.getLast hne).1) :
    ∃ a b, [a, b] <:+: quantiles ∧ a.1 ≤ share ∧ share ≤ b.1 := by
  induction quantiles with
  | nil => exact absurd rfl hne
  | cons p rest ih =>
    cases rest with
    | nil => exact absurd hto hfrom.not_gt
    | cons q rest =>
      rcases le_total share q.1 with hq | hq
      · exact ⟨p, q, ⟨[], rest, rfl⟩, hfrom, hq⟩
      · obtain ⟨a, b, hab, henclosed⟩ := ih (List.cons_ne_nil _ _) hq hto
        exact ⟨a, b, List.infix_cons hab, henclosed⟩

/-! ## Values at shares -/

section

variable {e : Estimates K} (hne : e.quantiles ≠ [])
include hne

theorem valueAt?_eq (share : K) : e.valueAt? share =
    if share ≤ (e.quantiles.head hne).1 then some (e.quantiles.head hne).2
    else if (e.quantiles.getLast hne).1 ≤ share then some (e.quantiles.getLast hne).2
    else between? share e.quantiles := by
  rw [valueAt?, List.head?_eq_some_head hne, List.getLast?_eq_some_getLast hne]
  simp only [Option.bind_eq_bind, Option.bind_some, atMost_iff]

theorem valueAt?_of_le_head (hshare : share ≤ (e.quantiles.head hne).1) :
    e.valueAt? share = some (e.quantiles.head hne).2 := by
  rw [valueAt?_eq hne, if_pos hshare]

variable (h : Ascending e.quantiles)
include h

theorem valueAt?_of_getLast_le (hshare : (e.quantiles.getLast hne).1 ≤ share) :
    e.valueAt? share = some (e.quantiles.getLast hne).2 := by
  have hhead := List.head_mem hne
  have hlast := List.getLast_mem hne
  rw [valueAt?_eq hne, if_pos hshare]
  split
  next hfirst =>
    have hsame := le_antisymm (h.head_le hne hlast) (hshare.trans hfirst)
    rw [h.value_eq hhead hlast hsame]
  next => rfl

theorem valueAt?_of_neighbours (hab : [a, b] <:+: e.quantiles) (hfrom : a.1 ≤ share)
    (hto : share ≤ b.1) : e.valueAt? share = some (onLine a b share) := by
  have ha : a ∈ e.quantiles := left_mem hab
  have hb : b ∈ e.quantiles := right_mem hab
  rw [valueAt?_eq hne]
  split
  next hfirst =>
    have hstart : share = a.1 := le_antisymm (hfirst.trans (h.head_le hne ha)) hfrom
    have hsame := le_antisymm (h.head_le hne ha) (hfrom.trans hfirst)
    rw [hstart, onLine_left, h.value_eq (List.head_mem hne) ha hsame]
  next =>
    split
    next hlast =>
      have hend : share = b.1 := le_antisymm hto ((h.le_getLast hne hb).trans hlast)
      have hsame := le_antisymm (h.le_getLast hne hb) (hlast.trans hto)
      rw [hend, onLine_right (h.share_lt hab), h.value_eq hb (List.getLast_mem hne) hsame]
    next => exact between?_eq_onLine h hab hfrom hto

/-- A share has the first value, the last one, or one on the line through two neighbours. -/
theorem valueAt?_cases (share : K) :
    (share ≤ (e.quantiles.head hne).1 ∧ e.valueAt? share = some (e.quantiles.head hne).2) ∨
    ((e.quantiles.getLast hne).1 ≤ share ∧
      e.valueAt? share = some (e.quantiles.getLast hne).2) ∨
    ∃ a b, [a, b] <:+: e.quantiles ∧ (a.1 ≤ share ∧ share ≤ b.1) ∧
      e.valueAt? share = some (onLine a b share) := by
  rcases le_total share (e.quantiles.head hne).1 with hfirst | hfirst
  · exact .inl ⟨hfirst, valueAt?_of_le_head hne hfirst⟩
  rcases le_or_gt (e.quantiles.getLast hne).1 share with hlast | hlast
  · exact .inr (.inl ⟨hlast, valueAt?_of_getLast_le hne h hlast⟩)
  obtain ⟨a, b, hab, hfrom, hto⟩ := exists_neighbours hne hfirst hlast
  exact .inr (.inr ⟨a, b, hab, ⟨hfrom, hto⟩, valueAt?_of_neighbours hne h hab hfrom hto⟩)

theorem exists_valueAt? (share : K) : ∃ v, e.valueAt? share = some v := by
  rcases valueAt?_cases hne h share with ⟨-, hv⟩ | ⟨-, hv⟩ | ⟨a, b, -, -, hv⟩
  all_goals exact ⟨_, hv⟩

variable [IsStrictOrderedRing K]

/-- The value at a share is at most that of an estimate for a greater share. -/
theorem valueAt?_le_of_mem (hentry : entry ∈ e.quantiles) (hle : share ≤ entry.1)
    (hv : e.valueAt? share = some v) : v ≤ entry.2 := by
  rcases valueAt?_cases hne h share with ⟨-, hcase⟩ | ⟨hlast, hcase⟩ | ⟨a, b, hab, hshare, hcase⟩
  all_goals obtain rfl := Option.some.inj (hv.symm.trans hcase)
  · exact h.value_le (List.head_mem hne) hentry (h.head_le hne hentry)
  · exact h.value_le (List.getLast_mem hne) hentry (hlast.trans hle)
  · exact h.onLine_le_of_mem hab hshare hentry hle

/-- The value at a share is at least that of an estimate for a smaller share. -/
theorem le_valueAt?_of_mem (hentry : entry ∈ e.quantiles) (hle : entry.1 ≤ share)
    (hv : e.valueAt? share = some v) : entry.2 ≤ v := by
  rcases valueAt?_cases hne h share with ⟨hfirst, hcase⟩ | ⟨-, hcase⟩ | ⟨a, b, hab, hshare, hcase⟩
  all_goals obtain rfl := Option.some.inj (hv.symm.trans hcase)
  · exact h.value_le hentry (List.head_mem hne) (hle.trans hfirst)
  · exact h.value_le hentry (List.getLast_mem hne) (h.le_getLast hne hentry)
  · exact h.le_onLine_of_mem hab hshare hentry hle

theorem valueAt?_of_mem (hentry : entry ∈ e.quantiles) : e.valueAt? entry.1 = some entry.2 := by
  obtain ⟨v, hv⟩ := exists_valueAt? hne h entry.1
  have hle := valueAt?_le_of_mem hne h hentry le_rfl hv
  rw [hv, le_antisymm hle (le_valueAt?_of_mem hne h hentry le_rfl hv)]

theorem valueAt?_mono (hle : share ≤ share') (hv : e.valueAt? share = some v)
    (hv' : e.valueAt? share' = some v') : v ≤ v' := by
  by_cases hbetween : ∃ entry ∈ e.quantiles, share ≤ entry.1 ∧ entry.1 ≤ share'
  · obtain ⟨entry, hentry, hafter, hbefore⟩ := hbetween
    exact (valueAt?_le_of_mem hne h hentry hafter hv).trans
      (le_valueAt?_of_mem hne h hentry hbefore hv')
  -- both shares are before, behind or between the same entries
  have hlt : ∀ entry ∈ e.quantiles, share ≤ entry.1 → share' < entry.1 :=
    fun entry hentry hafter => lt_of_not_ge fun hbefore =>
      hbetween ⟨entry, hentry, hafter, hbefore⟩
  rcases valueAt?_cases hne h share with ⟨hfirst, hcase⟩ | ⟨hlast, hcase⟩ |
    ⟨a, b, hab, ⟨hfrom, hto⟩, hcase⟩
  all_goals obtain rfl := Option.some.inj (hv.symm.trans hcase)
  · have hfirst' := hlt _ (List.head_mem hne) hfirst
    rw [valueAt?_of_le_head hne hfirst'.le] at hv'
    exact (Option.some.inj hv').le
  · rw [valueAt?_of_getLast_le hne h (hlast.trans hle)] at hv'
    exact (Option.some.inj hv').le
  · have hto' := hlt b (right_mem hab) hto
    rw [valueAt?_of_neighbours hne h hab (hfrom.trans hle) hto'.le] at hv'
    obtain rfl := Option.some.inj hv'
    exact onLine_mono (h.share_lt hab) (h.neighbour_le hab) hle

end

/-- Without rounding, estimates with ascending shares and values give a value at every share: the
listed one at a listed share, between two neighbours one between theirs and on the line through
them, before the first estimate its value and behind the last one its value. Every share is before
the first, behind the last or between two neighbours, and the value grows with the share. -/
theorem valueAt?_of_ascending [IsStrictOrderedRing K] {e : Estimates K} (hne : e.quantiles ≠ [])
    (hshares : e.quantiles.Pairwise fun a b => a.1 < b.1)
    (hvalues : e.quantiles.Pairwise fun a b => a.2 ≤ b.2) :
    (∀ share, ∃ v, e.valueAt? share = some v) ∧
    (∀ entry ∈ e.quantiles, e.valueAt? entry.1 = some entry.2) ∧
    (∀ share share' v v', share ≤ share' → e.valueAt? share = some v →
      e.valueAt? share' = some v' → v ≤ v') ∧
    (∀ a b share v, [a, b] <:+: e.quantiles → a.1 ≤ share → share ≤ b.1 →
      e.valueAt? share = some v → a.2 ≤ v ∧ v ≤ b.2 ∧
        v = a.2 + (b.2 - a.2) * (share - a.1) / (b.1 - a.1)) ∧
    (∀ share, share ≤ (e.quantiles.head hne).1 →
      e.valueAt? share = some (e.quantiles.head hne).2) ∧
    (∀ share, (e.quantiles.getLast hne).1 ≤ share →
      e.valueAt? share = some (e.quantiles.getLast hne).2) ∧
    ∀ share, share ≤ (e.quantiles.head hne).1 ∨ (e.quantiles.getLast hne).1 ≤ share ∨
      ∃ a b, [a, b] <:+: e.quantiles ∧ a.1 ≤ share ∧ share ≤ b.1 := by
  have h : Ascending e.quantiles := ⟨hshares, hvalues⟩
  refine ⟨exists_valueAt? hne h, fun entry => valueAt?_of_mem hne h,
    fun share share' v v' => valueAt?_mono hne h, fun a b share v hab hfrom hto hv => ⟨?_, ?_, ?_⟩,
    fun share => valueAt?_of_le_head hne, fun share => valueAt?_of_getLast_le hne h,
    fun share => ?_⟩
  · exact le_valueAt?_of_mem hne h (left_mem hab) hfrom hv
  · exact valueAt?_le_of_mem hne h (right_mem hab) hto hv
  · exact Option.some.inj (hv.symm.trans (valueAt?_of_neighbours hne h hab hfrom hto))
  · rcases valueAt?_cases hne h share with ⟨hfirst, -⟩ | ⟨hlast, -⟩ | ⟨a, b, hab, hshare, -⟩
    · exact .inl hfirst
    · exact .inr (.inl hlast)
    · exact .inr (.inr ⟨a, b, hab, hshare⟩)

/-- Of the values 1, 3 and 3 at 1/10, 1/2 and 9/10, share 3/10 has the middle of the first two and
share 2 the last one. -/
theorem valueAt?_of_ascending_three :
    let e : Estimates ℚ := ⟨5, [(1 / 10, 1), (1 / 2, 3), (9 / 10, 3)]⟩
    e.quantiles ≠ [] ∧ (e.quantiles.Pairwise fun a b => a.1 < b.1) ∧
      (e.quantiles.Pairwise fun a b => a.2 ≤ b.2) ∧ e.valueAt? (-1) = some 1 ∧
      e.valueAt? (3 / 10) = some 2 ∧ e.valueAt? (1 / 2) = some 3 ∧ e.valueAt? 2 = some 3 := by
  intro e
  have hne : e.quantiles ≠ [] := List.cons_ne_nil _ _
  have hshares : e.quantiles.Pairwise fun a b => a.1 < b.1 := by decide +kernel
  have hvalues : e.quantiles.Pairwise fun a b => a.2 ≤ b.2 := by decide +kernel
  obtain ⟨hsome, hlisted, -, hbetween, hbefore, hbehind, -⟩ :=
    valueAt?_of_ascending hne hshares hvalues
  obtain ⟨v, hv⟩ := hsome (3 / 10)
  obtain ⟨-, -, hline⟩ := hbetween (1 / 10, 1) (1 / 2, 3) (3 / 10) v ⟨[], [(9 / 10, 3)], rfl⟩
    (by norm_num) (by norm_num) hv
  have htwo : v = 2 := hline.trans (by norm_num)
  refine ⟨hne, hshares, hvalues, hbefore (-1) ?_, htwo ▸ hv, hlisted (1 / 2, 3) ?_, hbehind 2 ?_⟩
  · show (-1 : ℚ) ≤ 1 / 10
    norm_num
  · simp [e]
  · show (9 / 10 : ℚ) ≤ 2
    norm_num

end CacheDelay.Stats.Estimates

import CacheDelay.Topology.Basic
import Mathlib.Data.Nat.Basic
import Mathlib.Tactic.WLOG

/-!
# Chips and L2 groups cut from one numbering

A ranking of pairs of CPUs is a nested hierarchy exactly if being within a rank is transitive, for
each rank (`forall_le_max_iff`). Where CPUs are numbered chip by chip, chips and L2 groups are cut
from the numbers by two sizes that need not fit together: the CPUs on both sides of a boundary
between chips share an L2 group unless the size of the groups divides that of the chips
(`pred_div_eq_div`). So moves to another chip are told as such exactly if it does, or if there are
no L2 groups, and the localities nest exactly if one size divides the other
(`Linear.nested_iff_dvd`).
-/

namespace CacheDelay.Topology

/-! ## Hierarchies -/

/-- A ranking is a nested hierarchy exactly if each rank is transitive. -/
theorem forall_le_max_iff {α : Type} (rank : α → α → Nat) :
    (∀ a b c, rank a c ≤ max (rank a b) (rank b c)) ↔
      ∀ n a b c, rank a b ≤ n → rank b c ≤ n → rank a c ≤ n := by
  constructor
  · intro h n a b c hab hbc
    exact Nat.le_trans (h a b c) (Nat.max_le.2 ⟨hab, hbc⟩)
  · intro h a b c
    exact h _ a b c (Nat.le_max_left ..) (Nat.le_max_right ..)

/-! ## Groups of consecutive numbers -/

/-- Groups lie inside larger ones if their size divides that of the larger ones. -/
theorem div_eq_div_of_dvd {size large a b : Nat} (hdvd : size ∣ large)
    (h : a / size = b / size) : a / large = b / large := by
  obtain ⟨k, rfl⟩ := hdvd
  rw [← Nat.div_div_eq_div_mul, h, Nat.div_div_eq_div_mul]

/-- Otherwise the first boundary between the larger groups runs through one of the groups. -/
theorem pred_div_eq_div {size large : Nat} (hpos : 0 < large) (h : ¬ size ∣ large) :
    (large - 1) / size = large / size := by
  obtain ⟨n, rfl⟩ : ∃ n, large = n + 1 := ⟨large - 1, by omega⟩
  rw [Nat.add_sub_cancel, Nat.succ_div_of_not_dvd h]

/-- Whether two numbers share a group of one size or the other. -/
def Linked (size other a b : Nat) : Prop := a / size = b / size ∨ a / other = b / other

theorem linked_comm (size other : Nat) : Linked size other = Linked other size :=
  funext fun _ => funext fun _ => propext or_comm

/-- Groups of a size that does not divide the larger one lead from `0` to `large`, although no group
has both. -/
theorem linked_of_not_dvd {size large : Nat} (hpos : 0 < size) (hlt : size < large)
    (h : ¬ size ∣ large) :
    Linked size large 0 (large - 1) ∧ Linked size large (large - 1) large ∧
      ¬ Linked size large 0 large := by
  have hpred : (large - 1) / large = 0 := Nat.div_eq_of_lt (by omega)
  have hself : large / large = 1 := Nat.div_self (by omega)
  have hquotient : 0 < large / size := Nat.div_pos (by omega) hpos
  refine ⟨.inr ?_, .inl (pred_div_eq_div (by omega) h), ?_⟩
  · rw [Nat.zero_div, hpred]
  · rw [Linked, Nat.zero_div, Nat.zero_div, hself]
    omega

/-- Sharing a group of one of two sizes is transitive exactly if one size divides the other. -/
theorem linked_trans_iff_dvd {size other bound : Nat} (hsize : 0 < size) (hother : 0 < other)
    (hlt : size < bound) (hlt' : other < bound) :
    (∀ a b c, a < bound → b < bound → c < bound → Linked size other a b → Linked size other b c →
      Linked size other a c) ↔ size ∣ other ∨ other ∣ size := by
  wlog hle : size ≤ other generalizing size other
  · rw [linked_comm, or_comm]
    exact this hother hsize hlt' hlt (by omega)
  constructor
  · intro htrans
    left
    by_contra hdvd
    have hne : size ≠ other := fun h => hdvd (h ▸ Nat.dvd_refl _)
    obtain ⟨hleft, hright, hapart⟩ := linked_of_not_dvd hsize (by omega) hdvd
    exact hapart (htrans 0 (other - 1) other (by omega) (by omega) hlt' hleft hright)
  · intro hdvd a b c _ _ _ hab hbc
    have hdvd : size ∣ other := by
      rcases hdvd with h | h
      · exact h
      · exact Nat.le_antisymm hle (Nat.le_of_dvd hsize h) ▸ Nat.dvd_refl _
    have hinside {a b : Nat} (h : Linked size other a b) : a / other = b / other :=
      h.elim (div_eq_div_of_dvd hdvd) id
    exact .inr ((hinside hab).trans (hinside hbc))

/-! ## Chip by chip -/

namespace Linear

variable {t : Linear} {a b c : UInt32}

/-- Whether two CPUs share an L2 cache. -/
def SharesL2 (t : Linear) (a b : UInt32) : Prop :=
  0 < t.coresPerL2 ∧ a / t.coresPerL2 = b / t.coresPerL2

/-- Whether two CPUs are on one chip. -/
def SharesChip (t : Linear) (a b : UInt32) : Prop := a / t.coresPerChip = b / t.coresPerChip

/-- How far apart two CPUs are. -/
theorem rank_classify_le_iff (t : Linear) (a b : UInt32) (n : Nat) :
    (t.classify a b).rank ≤ n ↔
      a = b ∨ (1 ≤ n ∧ t.SharesL2 a b) ∨ (2 ≤ n ∧ t.SharesChip a b) ∨ 3 ≤ n := by
  rw [classify]
  split
  · rename_i hself
    simp [Locality.rank, hself]
  rename_i hself
  split
  · rename_i hL2
    have hshares : t.SharesL2 a b := hL2
    simp only [Locality.rank, hself, hshares, false_or, and_true]
    omega
  rename_i hL2
  have hseparate : ¬ t.SharesL2 a b := hL2
  split
  · rename_i hchip
    have hshares : t.SharesChip a b := hchip
    simp only [Locality.rank, hself, hseparate, hshares, false_or, and_false, and_true]
    omega
  · rename_i hchip
    have hapart : ¬ t.SharesChip a b := hchip
    simp only [Locality.rank, hself, hseparate, hapart, false_or, and_false]

theorem sharesL2_iff : t.SharesL2 a b ↔ 0 < t.coresPerL2.toNat ∧
    a.toNat / t.coresPerL2.toNat = b.toNat / t.coresPerL2.toNat := by
  rw [SharesL2, ← UInt32.toNat_inj, UInt32.toNat_div, UInt32.toNat_div, UInt32.lt_iff_toNat_lt]
  rfl

theorem sharesChip_iff : t.SharesChip a b ↔
    a.toNat / t.coresPerChip.toNat = b.toNat / t.coresPerChip.toNat := by
  rw [SharesChip, ← UInt32.toNat_inj, UInt32.toNat_div, UInt32.toNat_div]

theorem coresPerChip_toNat_pos (t : Linear) : 0 < t.coresPerChip.toNat :=
  UInt32.lt_iff_toNat_lt.1 t.coresPerChip_pos

theorem SharesL2.trans (hab : t.SharesL2 a b) (hbc : t.SharesL2 b c) : t.SharesL2 a c :=
  ⟨hab.1, hab.2.trans hbc.2⟩

/-- Whether two CPUs share an L2 cache or a chip. -/
def Near (t : Linear) (a b : UInt32) : Prop := t.SharesL2 a b ∨ t.SharesChip a b

theorem rank_classify_le_two_iff (t : Linear) (a b : UInt32) :
    (t.classify a b).rank ≤ 2 ↔ t.Near a b := by
  have hself : a = b → t.SharesChip a b := fun h => h ▸ rfl
  rw [rank_classify_le_iff, Near]
  simp only [Nat.reduceLeDiff, Nat.le_refl, true_and, or_false]
  exact or_iff_right_of_imp fun h => .inr (hself h)

/-- The localities nest exactly if sharing a cache or a chip is transitive: equality and sharing a
cache always are. -/
theorem forall_rank_le_max_iff (t : Linear) :
    (∀ a b c, (t.classify a c).rank ≤ max (t.classify a b).rank (t.classify b c).rank) ↔
      ∀ a b c, t.Near a b → t.Near b c → t.Near a c := by
  have hnear := t.rank_classify_le_two_iff
  rw [forall_le_max_iff fun a b => (t.classify a b).rank]
  constructor
  · intro h a b c hab hbc
    exact (hnear a c).1 (h 2 a b c ((hnear a b).2 hab) ((hnear b c).2 hbc))
  · intro h n a b c hab hbc
    rcases (by omega : n ≤ 1 ∨ n = 2 ∨ 3 ≤ n) with hn | rfl | hn
    · rw [rank_classify_le_iff] at hab hbc ⊢
      rcases hab with rfl | ⟨hone, hab⟩ | hab | hab
      · exact hbc
      · rcases hbc with rfl | ⟨-, hbc⟩ | hbc | hbc
        · exact .inr (.inl ⟨hone, hab⟩)
        · exact .inr (.inl ⟨hone, hab.trans hbc⟩)
        · omega
        · omega
      · omega
      · omega
    · exact (hnear a c).2 (h a b c ((hnear a b).1 hab) ((hnear b c).1 hbc))
    · rw [rank_classify_le_iff]
      exact .inr (.inr (.inr hn))

theorem classify_eq_offChip_iff (t : Linear) (a b : UInt32) :
    t.classify a b = .offChip ↔ ¬ t.Near a b := by
  rw [← rank_classify_le_two_iff]
  cases t.classify a b <;> decide

theorem near_iff_linked (hpos : 0 < t.coresPerL2.toNat) : t.Near a b ↔
    Linked t.coresPerL2.toNat t.coresPerChip.toNat a.toNat b.toNat := by
  rw [Near, sharesL2_iff, sharesChip_iff, Linked, and_iff_right hpos]

/-- Sharing a cache or a chip is transitive exactly if the size of one divides that of the other. -/
theorem near_trans_iff_dvd (t : Linear) :
    (∀ a b c, t.Near a b → t.Near b c → t.Near a c) ↔
      t.coresPerL2.toNat ∣ t.coresPerChip.toNat ∨ t.coresPerChip.toNat ∣ t.coresPerL2.toNat := by
  rcases Nat.eq_zero_or_pos t.coresPerL2.toNat with hzero | hpos
  · -- without L2 groups CPUs are near only on one chip
    have hnear (a b : UInt32) : t.Near a b ↔ t.SharesChip a b := by
      rw [Near, sharesL2_iff, hzero]
      simp
    simp only [hnear, hzero, Nat.dvd_zero, or_true, iff_true]
    exact fun a b c hab hbc => Eq.trans hab hbc
  rw [← linked_trans_iff_dvd hpos t.coresPerChip_toNat_pos t.coresPerL2.toNat_lt
    t.coresPerChip.toNat_lt]
  simp only [near_iff_linked hpos]
  constructor
  · intro htrans a b c ha hb hc
    have h := htrans (UInt32.ofNat a) (UInt32.ofNat b) (UInt32.ofNat c)
    rwa [UInt32.toNat_ofNat_of_lt' ha, UInt32.toNat_ofNat_of_lt' hb,
      UInt32.toNat_ofNat_of_lt' hc] at h
  · intro htrans a b c
    exact htrans _ _ _ a.toNat_lt b.toNat_lt c.toNat_lt

/-- CPUs that share an L2 cache are on one chip exactly if L2 groups fill chips. -/
theorem sharesChip_of_sharesL2_iff_dvd (t : Linear) :
    (∀ a b, t.SharesL2 a b → t.SharesChip a b) ↔
      t.coresPerL2.toNat = 0 ∨ t.coresPerL2.toNat ∣ t.coresPerChip.toNat := by
  simp only [sharesL2_iff, sharesChip_iff]
  constructor
  · intro hinside
    by_contra hdvd
    obtain ⟨hne, hdvd⟩ := not_or.1 hdvd
    have hchip := t.coresPerChip_toNat_pos
    have hpred : (t.coresPerChip - 1).toNat = t.coresPerChip.toNat - 1 :=
      UInt32.toNat_sub_of_le _ _ (UInt32.le_iff_toNat_le.2 hchip)
    have hchips := hinside (t.coresPerChip - 1) t.coresPerChip
      ⟨Nat.pos_of_ne_zero hne, by rw [hpred]; exact pred_div_eq_div hchip hdvd⟩
    rw [hpred, Nat.div_eq_of_lt (by omega), Nat.div_self hchip] at hchips
    omega
  · rintro (hzero | hdvd) a b ⟨hpos, hab⟩
    · omega
    · exact div_eq_div_of_dvd hdvd hab

/-- The localities are a nested hierarchy exactly if one of the sizes of L2 groups and chips divides
the other, and every move to another chip is told as such exactly if there are no L2 groups or their
size divides that of chips. -/
theorem nested_iff_dvd (t : Linear) :
    ((∀ a b c, (t.classify a c).rank ≤ max (t.classify a b).rank (t.classify b c).rank) ↔
      t.coresPerL2.toNat ∣ t.coresPerChip.toNat ∨ t.coresPerChip.toNat ∣ t.coresPerL2.toNat) ∧
    ((∀ a b, a / t.coresPerChip ≠ b / t.coresPerChip → t.classify a b = .offChip) ↔
      t.coresPerL2.toNat = 0 ∨ t.coresPerL2.toNat ∣ t.coresPerChip.toNat) := by
  refine ⟨(forall_rank_le_max_iff t).trans (near_trans_iff_dvd t), ?_⟩
  rw [← sharesChip_of_sharesL2_iff_dvd]
  refine forall₂_congr fun a b => ?_
  rw [classify_eq_offChip_iff, Near]
  constructor
  · intro htold hL2
    by_contra hchip
    exact htold hchip (.inl hL2)
  · intro hinside hchip hnear
    exact hchip (hnear.elim hinside id)

/-- Groups of four CPUs on chips of six: CPUs 5 and 6 share a cache on different chips, and CPUs 4
and 8, both near CPU 6, are apart. -/
theorem classify_across_chips :
    ∃ t, create 4 6 = .ok t ∧ (5 : UInt32) / t.coresPerChip ≠ 6 / t.coresPerChip ∧
      t.classify 5 6 = .sameL2 ∧
      max (t.classify 4 6).rank (t.classify 6 8).rank < (t.classify 4 8).rank :=
  ⟨⟨4, 6, by decide⟩, rfl, by decide, by decide, by decide⟩

end Linear

end CacheDelay.Topology

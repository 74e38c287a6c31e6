import CacheDelay.Proofs.Topology.Layout
import Mathlib.Data.Finset.Card

/-!
# Round-robin numbering

Where CPUs are numbered round-robin over the chips, a chip is a remainder and an L2 group a quotient
of a quotient. Groups lie inside chips whatever the two sizes are, so that being within a locality
is an equivalence for each locality and the localities nest. A CPU of a group is told from the
others by its turn in the group (`eq_of_turns`), which bounds the size of groups. Both hold of every
topology that is accepted (`Interleaved.nested_and_bounded`).
-/

namespace CacheDelay.Topology

/-- How far apart two CPUs are. -/
theorem Layout.rank_classify_le_iff (layout : Layout) (a b : UInt32) (n : Nat) :
    (layout.topology.classify a b).rank ≤ n ↔
      a = b ∨ (1 ≤ n ∧ layout.SharesL2 a b) ∨ (2 ≤ n ∧ layout.SharesChip a b) ∨ 3 ≤ n := by
  by_cases hself : a = b
  · rw [hself, classify_self]
    exact iff_of_true (Nat.zero_le n) (.inl rfl)
  by_cases hgroup : layout.SharesL2 a b
  · rw [classify_of_sharesL2 hself hgroup]
    simp only [Locality.rank, hself, hgroup, false_or, and_true]
    omega
  by_cases hchip : layout.SharesChip a b
  · rw [classify_of_sharesChip hself hgroup hchip]
    simp only [Locality.rank, hself, hgroup, hchip, false_or, and_false, and_true]
    omega
  · rw [classify_of_not_sharesChip hself hgroup hchip]
    simp only [Locality.rank, hself, hgroup, hchip, false_or, and_false]

/-- A number is found by its remainder, and by the remainder and the quotient of its quotient. -/
theorem eq_of_turns {size large a b : Nat} (hchip : a % large = b % large)
    (hgroup : a / large / size = b / large / size) (hturn : a / large % size = b / large % size) :
    a = b := by
  have hquotient : a / large = b / large := by
    rw [← Nat.div_add_mod (a / large) size, hgroup, hturn, Nat.div_add_mod]
  rw [← Nat.div_add_mod a large, hquotient, hchip, Nat.div_add_mod]

namespace Interleaved

variable {t : Interleaved} {a b c : UInt32}

theorem rank_classify_le_zero_iff (t : Interleaved) (a b : UInt32) :
    (t.classify a b).rank ≤ 0 ↔ a = b := by
  refine ((Layout.interleaved t).rank_classify_le_iff a b 0).trans ?_
  simp

theorem rank_classify_le_one_iff (t : Interleaved) (a b : UInt32) :
    (t.classify a b).rank ≤ 1 ↔ a = b ∨ t.SharesL2 a b := by
  refine ((Layout.interleaved t).rank_classify_le_iff a b 1).trans ?_
  simp [Layout.SharesL2]

/-- The L2 groups lie inside the chips, so that a move within a chip is told by the chip alone. -/
theorem rank_classify_le_two_iff (t : Interleaved) (a b : UInt32) :
    (t.classify a b).rank ≤ 2 ↔ t.SharesChip a b := by
  refine ((Layout.interleaved t).rank_classify_le_iff a b 2).trans ?_
  constructor
  · rintro (rfl | ⟨-, hgroup⟩ | ⟨-, hchip⟩ | hfar)
    · exact Eq.refl (a % t.chips)
    · exact hgroup.2.1
    · exact hchip
    · omega
  · exact fun hchip => .inr (.inr (.inl ⟨Nat.le_refl 2, hchip⟩))

theorem rank_classify_le_three (t : Interleaved) (a b : UInt32) : (t.classify a b).rank ≤ 3 := by
  cases t.classify a b <;> decide

theorem SharesL2.symm (h : t.SharesL2 a b) : t.SharesL2 b a :=
  ⟨h.1, Eq.symm h.2.1, h.2.2.symm⟩

theorem SharesL2.trans (hab : t.SharesL2 a b) (hbc : t.SharesL2 b c) : t.SharesL2 a c :=
  ⟨hab.1, Eq.trans hab.2.1 hbc.2.1, hab.2.2.trans hbc.2.2⟩

theorem classify_comm (t : Interleaved) (a b : UInt32) : t.classify a b = t.classify b a := by
  simp only [classify, eq_comm (a := a), eq_comm (a := a % t.chips), ne_eq,
    eq_comm (a := a / t.chips / t.coresPerL2)]

/-- Each locality holds within groups of CPUs, so that the localities nest. -/
theorem rank_classify_le_max (t : Interleaved) (a b c : UInt32) :
    (t.classify a c).rank ≤ max (t.classify a b).rank (t.classify b c).rank := by
  refine (forall_le_max_iff fun a b => (t.classify a b).rank).2 (fun n a b c => ?_) a b c
  rcases (by omega : n = 0 ∨ n = 1 ∨ n = 2 ∨ 3 ≤ n) with rfl | rfl | rfl | hn
  · simp only [rank_classify_le_zero_iff]
    exact Eq.trans
  · simp only [rank_classify_le_one_iff]
    rintro (rfl | hab) (rfl | hbc)
    · exact .inl rfl
    · exact .inr hbc
    · exact .inr hab
    · exact .inr (hab.trans hbc)
  · simp only [rank_classify_le_two_iff]
    exact Eq.trans
  · exact fun _ _ => (t.rank_classify_le_three a c).trans hn

theorem classify_eq_sameCpu_iff (t : Interleaved) (a b : UInt32) :
    t.classify a b = .sameCpu ↔ a = b := by
  rw [← rank_classify_le_zero_iff]
  cases t.classify a b <;> decide

theorem classify_eq_offChip_iff (t : Interleaved) (a b : UInt32) :
    t.classify a b = .offChip ↔ a % t.chips ≠ b % t.chips := by
  rw [← not_iff_not, not_ne_iff]
  refine Iff.trans ?_ (t.rank_classify_le_two_iff a b)
  cases t.classify a b <;> decide

/-- The turn of a CPU in its L2 group. -/
def turn (t : Interleaved) (cpu : UInt32) : Nat :=
  cpu.toNat / t.chips.toNat % t.coresPerL2.toNat

theorem SharesL2.eq_of_turn_eq (h : t.SharesL2 a b) (hturn : t.turn a = t.turn b) : a = b := by
  obtain ⟨-, hchip, hgroup⟩ := h
  rw [SharesChip, ← UInt32.toNat_inj, UInt32.toNat_mod, UInt32.toNat_mod] at hchip
  simp only [← UInt32.toNat_inj, UInt32.toNat_div] at hgroup
  exact UInt32.toNat_inj.1 (eq_of_turns hchip hgroup hturn)

/-- An L2 group has a CPU for each turn at most. -/
theorem card_le_coresPerL2 (hpos : 0 < t.coresPerL2) {cpus : Finset UInt32}
    (h : ∀ b ∈ cpus, (t.classify a b).rank ≤ Locality.sameL2.rank) :
    cpus.card ≤ t.coresPerL2.toNat := by
  have hgroup (b : UInt32) (hb : b ∈ cpus) : t.SharesL2 a b := by
    rcases (t.rank_classify_le_one_iff a b).1 (h b hb) with rfl | hshares
    · exact ⟨hpos, rfl, rfl⟩
    · exact hshares
  rw [← Finset.card_range t.coresPerL2.toNat]
  refine Finset.card_le_card_of_injOn t.turn (fun b _ => ?_) fun b hb c hc hturn => ?_
  · exact Finset.mem_coe.2 (Finset.mem_range.2 (Nat.mod_lt _ (UInt32.lt_iff_toNat_lt.1 hpos)))
  · exact ((hgroup b hb).symm.trans (hgroup c hc)).eq_of_turn_eq hturn

/-- A topology with chips is accepted, and its localities are a nested hierarchy: they tell a CPU
from all others and chips apart, are the same in both directions, and no move goes further than the
farther of two moves that make it up. At most `coresPerL2` CPUs share an L2 cache, where CPUs do so
at all. -/
theorem nested_and_bounded (coresPerL2 : UInt32) {chips : UInt32} (hchips : 0 < chips) :
    ∃ t, create coresPerL2 chips = .ok t ∧
      (∀ a b, t.classify a b = .sameCpu ↔ a = b) ∧
      (∀ a b, t.classify a b = t.classify b a) ∧
      (∀ a b c, (t.classify a c).rank ≤ max (t.classify a b).rank (t.classify b c).rank) ∧
      (∀ a b, t.classify a b = .offChip ↔ a % chips ≠ b % chips) ∧
      (0 < coresPerL2 → ∀ (a : UInt32) (cpus : Finset UInt32),
        (∀ b ∈ cpus, (t.classify a b).rank ≤ Locality.sameL2.rank) →
          cpus.card ≤ coresPerL2.toNat) := by
  refine ⟨⟨coresPerL2, chips, hchips⟩, dif_pos hchips, ?_, ?_, ?_, ?_, ?_⟩
  · exact classify_eq_sameCpu_iff _
  · exact classify_comm _
  · exact rank_classify_le_max _
  · exact classify_eq_offChip_iff _
  · intro hpos a cpus hcpus
    exact card_le_coresPerL2 hpos hcpus

/-- Pairs of CPUs on four chips: CPU 1 shares its cache with CPU 5, its chip with CPU 9 too, and has
no other partner. -/
theorem nested_and_bounded_of_four_chips : (0 : UInt32) < 4 ∧ ∃ t, create 2 4 = .ok t ∧
    t.classify 1 5 = .sameL2 ∧ t.classify 1 9 = .sameChip ∧ t.classify 1 2 = .offChip ∧
    (t.classify 5 9).rank ≤ 2 ∧
    ∀ cpus : Finset UInt32, (∀ b ∈ cpus, (t.classify 1 b).rank ≤ 1) → cpus.card ≤ 2 := by
  have hchips : (0 : UInt32) < 4 := by decide
  obtain ⟨t, hcreate, -, hcomm, hnested, hoff, hbound⟩ := nested_and_bounded 2 hchips
  obtain rfl : ⟨2, 4, by decide⟩ = t := Except.ok.inj hcreate
  refine ⟨hchips, _, hcreate, by decide, by decide, (hoff 1 2).2 (by decide), ?_, ?_⟩
  · rw [hcomm]
    exact (hnested 9 1 5).trans (by decide)
  · exact fun cpus hcpus => hbound (by decide) 1 cpus hcpus

end Interleaved

end CacheDelay.Topology

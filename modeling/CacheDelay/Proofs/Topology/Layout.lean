import CacheDelay.Proofs.Topology.Linear

/-!
# Layouts

A `Layout` numbers the CPUs of a machine by arithmetic, round-robin over the chips or chip by chip.
It says which CPUs share an L2 cache and which a chip, and with that which caches a CPU has
(`Layout.cachesOf`). The locality of a move is told by what the two CPUs share
(`classify_of_sharesL2`, `classify_of_sharesChip`, `classify_of_not_sharesChip`).
-/

namespace CacheDelay.Topology

/-- Whether two CPUs are on one chip. -/
def Interleaved.SharesChip (t : Interleaved) (a b : UInt32) : Prop := a % t.chips = b % t.chips

/-- Whether two CPUs share an L2 cache. -/
def Interleaved.SharesL2 (t : Interleaved) (a b : UInt32) : Prop :=
  0 < t.coresPerL2 ∧ t.SharesChip a b ∧ a / t.chips / t.coresPerL2 = b / t.chips / t.coresPerL2

/-- A numbering of CPUs by chips and groups that share an L2 cache. -/
inductive Layout where
  | interleaved (t : Interleaved)
  | linear (t : Linear)

namespace Layout

/-- The topology that tells localities by arithmetic. -/
def topology : Layout → Topology
  | .interleaved t => .interleaved t
  | .linear t => .linear t

/-- The number of CPUs that share an L2 cache, or zero. -/
def coresPerL2 : Layout → UInt32
  | .interleaved t => t.coresPerL2
  | .linear t => t.coresPerL2

/-- Whether two CPUs are on one chip. -/
def SharesChip : Layout → UInt32 → UInt32 → Prop
  | .interleaved t => t.SharesChip
  | .linear t => t.SharesChip

/-- Whether two CPUs share an L2 cache. -/
def SharesL2 : Layout → UInt32 → UInt32 → Prop
  | .interleaved t => t.SharesL2
  | .linear t => t.SharesL2

end Layout

/-! ## Caches -/

/-- The types of caches that hold data. -/
inductive DataType where
  | data
  | unified

/-- The name of a type. -/
def DataType.label : DataType → String
  | .data => "Data"
  | .unified => "Unified"

/-- A cache that holds data, and the CPUs that share it. -/
structure SharedCache where
  level : UInt32
  type : DataType
  Shares : UInt32 → Prop

namespace Layout

/-- The caches of `cpu` on a machine with the CPUs below `n`: its own one, that of its L2 group if
there are such groups, and that of its chip. -/
def cachesOf (layout : Layout) (n : Nat) (cpu : UInt32) : List SharedCache :=
  ⟨1, .data, (· = cpu)⟩ ::
    (if 0 < layout.coresPerL2 then
      [⟨2, .unified, fun other => other.toNat < n ∧ layout.SharesL2 other cpu⟩] else [])
    ++ [⟨3, .unified, fun other => other.toNat < n ∧ layout.SharesChip other cpu⟩]

variable {layout : Layout} {n : Nat} {cpu current last : UInt32}

theorem coresPerL2_pos (h : layout.SharesL2 current last) : 0 < layout.coresPerL2 := by
  cases layout with
  | interleaved t => exact h.1
  | linear t => exact h.1

theorem mem_cachesOf {cache : SharedCache} :
    cache ∈ layout.cachesOf n cpu ↔ cache = ⟨1, .data, (· = cpu)⟩ ∨
      (0 < layout.coresPerL2 ∧
        cache = ⟨2, .unified, fun other => other.toNat < n ∧ layout.SharesL2 other cpu⟩) ∨
      cache = ⟨3, .unified, fun other => other.toNat < n ∧ layout.SharesChip other cpu⟩ := by
  rw [cachesOf, List.mem_append, List.mem_cons, List.mem_singleton, or_assoc]
  refine or_congr Iff.rfl (or_congr ?_ Iff.rfl)
  split
  · rename_i hpos
    rw [List.mem_singleton, and_iff_right hpos]
  · rename_i hpos
    exact iff_of_false List.not_mem_nil fun hmem => hpos hmem.1

/-! ## Localities -/

theorem classify_self (layout : Layout) (cpu : UInt32) :
    layout.topology.classify cpu cpu = .sameCpu := by
  cases layout <;> exact if_pos rfl

theorem classify_of_sharesL2 (hne : current ≠ last) (h : layout.SharesL2 current last) :
    layout.topology.classify current last = .sameL2 := by
  cases layout with
  | interleaved t =>
    obtain ⟨hpos, hchip, hgroup⟩ := h
    show t.classify current last = .sameL2
    rw [Interleaved.classify, if_neg hne]
    exact (if_neg (not_not_intro hchip)).trans (if_pos ⟨hpos, hgroup⟩)
  | linear t =>
    show t.classify current last = .sameL2
    rw [Linear.classify, if_neg hne]
    exact if_pos h

theorem classify_of_sharesChip (hne : current ≠ last) (hgroup : ¬ layout.SharesL2 current last)
    (h : layout.SharesChip current last) :
    layout.topology.classify current last = .sameChip := by
  cases layout with
  | interleaved t =>
    show t.classify current last = .sameChip
    rw [Interleaved.classify, if_neg hne]
    exact (if_neg (not_not_intro h)).trans (if_neg fun hsame => hgroup ⟨hsame.1, h, hsame.2⟩)
  | linear t =>
    show t.classify current last = .sameChip
    rw [Linear.classify, if_neg hne]
    exact (if_neg hgroup).trans (if_pos h)

theorem classify_of_not_sharesChip (hne : current ≠ last)
    (hgroup : ¬ layout.SharesL2 current last) (h : ¬ layout.SharesChip current last) :
    layout.topology.classify current last = .offChip := by
  cases layout with
  | interleaved t =>
    show t.classify current last = .offChip
    rw [Interleaved.classify, if_neg hne]
    exact if_pos h
  | linear t =>
    show t.classify current last = .offChip
    rw [Linear.classify, if_neg hne]
    exact (if_neg hgroup).trans (if_neg h)

end Layout

end CacheDelay.Topology

import CacheDelay.Overhead.Classified
import Mathlib.Data.List.Perm.Basic
import Mathlib.Logic.ExistsUnique

/-!
# Overheads split by locality

Items grouped by their keys are all the items, where the keys are distinct and each item has one of
them (`perm_flatMap_filter`). A topology that tells a move to share an L2 cache has an L2 level
(`hasL2_of_classify_eq`), so that each sample has a locality that is present, also where the one for
shared L2 caches is not. The overheads of a trace are therefore those of its localities, each in
trace order (`partition_of_extraction`).
-/

namespace CacheDelay

open CacheDelay.Overhead CacheDelay.Topology CacheDelay.Trace

/-- Items with distinct keys of a list, grouped by key, are all the items. -/
theorem perm_flatMap_filter {α κ : Type} [DecidableEq κ] {key : α → κ} {keys : List κ}
    (hkeys : keys.Nodup) {items : List α} (h : ∀ item ∈ items, key item ∈ keys) :
    (keys.flatMap fun k => items.filter fun item => key item = k).Perm items := by
  induction keys generalizing items with
  | nil =>
    have hnil : items = [] := List.eq_nil_iff_forall_not_mem.2 fun item hitem =>
      List.not_mem_nil (h item hitem)
    rw [hnil]
    rfl
  | cons k keys ih =>
    obtain ⟨hk, hkeys⟩ := List.nodup_cons.1 hkeys
    have hrest : (keys.flatMap fun k' => items.filter fun item => key item = k') =
        keys.flatMap fun k' =>
          (items.filter fun item => !decide (key item = k)).filter fun item => key item = k' := by
      refine List.flatMap_congr fun k' hk' => ?_
      rw [List.filter_filter]
      refine List.filter_congr fun item _ => ?_
      have hne : k' ≠ k := fun heq => hk (heq ▸ hk')
      by_cases hkey : key item = k'
      · simp [hkey, hne]
      · simp [hkey]
    have hothers : ∀ item ∈ items.filter fun item => !decide (key item = k), key item ∈ keys := by
      intro item hitem
      obtain ⟨hitem, hkey⟩ := List.mem_filter.1 hitem
      have hne : key item ≠ k := by simpa using hkey
      exact (List.mem_cons.1 (h item hitem)).resolve_left hne
    rw [List.flatMap_cons, hrest]
    exact ((ih hkeys hothers).append_left _).trans (List.filter_append_perm _ items)

/-! ## Localities present -/

namespace Topology

/-- A topology that tells a shared L2 cache has an L2 level. -/
theorem hasL2_of_classify_eq {t : Topology} {current last : UInt32}
    (h : t.classify current last = .sameL2) : t.hasL2 = true := by
  cases t with
  | interleaved layout =>
    rw [classify, Interleaved.classify] at h
    split_ifs at h with _ _ hshared
    exact decide_eq_true hshared.1
  | linear layout =>
    rw [classify, Linear.classify] at h
    split_ifs at h with _ hshared
    exact decide_eq_true hshared.1
  | sysfs hierarchy => rfl

/-- The localities that are told apart with or without an L2 level. -/
def localities (hasL2 : Bool) : List Locality :=
  Locality.all.filter fun l => hasL2 || l ≠ .sameL2

theorem mem_localities {hasL2 : Bool} {l : Locality} :
    l ∈ localities hasL2 ↔ hasL2 = true ∨ l ≠ .sameL2 := by
  cases hasL2 <;> cases l <;> decide

theorem nodup_localities (hasL2 : Bool) : (localities hasL2).Nodup := by
  cases hasL2 <;> decide

/-- Every move has a locality that the topology tells apart. -/
theorem classify_mem_localities (t : Topology) (current last : UInt32) :
    t.classify current last ∈ localities t.hasL2 := by
  rw [mem_localities]
  by_cases h : t.classify current last = .sameL2
  · exact .inl (hasL2_of_classify_eq h)
  · exact .inr h

end Topology

/-! ## Overheads of the localities -/

theorem Overhead.get_classify (t : Topology) (samples : List Overhead.Sample) (l : Locality) :
    (Overhead.classify t samples).get l =
      samples.filter fun s => t.classify s.currentCpu s.lastCpu = l :=
  ByLocality.get_ofFun _ l

theorem Overhead.mem_get_classify {t : Topology} {samples : List Overhead.Sample}
    {s : Overhead.Sample} {l : Locality} :
    s ∈ (Overhead.classify t samples).get l ↔
      s ∈ samples ∧ t.classify s.currentCpu s.lastCpu = l := by
  rw [get_classify, List.mem_filter, decide_eq_true_iff]

namespace Overheads

theorem get?_ofClassified (c : Classified) (hasL2 : Bool) (l : Locality) :
    (ofClassified c hasL2).get? l =
      if hasL2 = true ∨ l ≠ .sameL2 then some ((c.get l).map (·.overhead)) else none := by
  cases hasL2 <;> cases l <;> rfl

theorem toList_ofClassified (c : Classified) (hasL2 : Bool) :
    (ofClassified c hasL2).toList =
      (localities hasL2).map fun l => (l, (c.get l).map (·.overhead)) := by
  cases hasL2 <;> rfl

/-- The overheads of all localities are those of the samples. -/
theorem perm_ofClassified (t : Topology) (samples : List Overhead.Sample) :
    ((ofClassified (Overhead.classify t samples) t.hasL2).toList.flatMap (·.2)).Perm
      (samples.map (·.overhead)) := by
  have hgroups : ((localities t.hasL2).flatMap (Overhead.classify t samples).get).Perm samples := by
    rw [funext (get_classify t samples)]
    exact perm_flatMap_filter (nodup_localities _) fun s _ => t.classify_mem_localities _ _
  rw [toList_ofClassified, List.flatMap_map, ← List.map_flatMap]
  exact hgroups.map _

/-- The overheads of a trace are a partition of what its replay yields: each locality that is
present has those of its moves in trace order, each sample belongs to exactly one locality that is
present, and together they are as many as the samples. -/
theorem partition_of_extraction (records : List Record) (window : Nat) (t : Topology) :
    let samples := (Extraction.ofRecords records window).overheads
    let classified := Overhead.classify t samples
    let overheads := ofClassified classified t.hasL2
    (∀ l, overheads.get? l = if t.hasL2 = true ∨ l ≠ .sameL2 then
        some ((samples.filter fun s => t.classify s.currentCpu s.lastCpu = l).map (·.overhead))
      else none) ∧
    (∀ s ∈ samples, ∃! l, (overheads.get? l).isSome ∧ s ∈ classified.get l) ∧
    (overheads.toList.flatMap (·.2)).Perm (samples.map (·.overhead)) ∧
    overheads.size = samples.length := by
  intro samples classified overheads
  have hperm := perm_ofClassified t samples
  refine ⟨fun l => ?_, fun s hs => ?_, hperm, ?_⟩
  · rw [get?_ofClassified, get_classify]
  · refine ⟨t.classify s.currentCpu s.lastCpu, ⟨?_, mem_get_classify.2 ⟨hs, rfl⟩⟩, ?_⟩
    · rw [get?_ofClassified, if_pos (mem_localities.1 (t.classify_mem_localities _ _))]
      rfl
    · rintro l ⟨-, hl⟩
      exact (mem_get_classify.1 hl).2.symm
  · rw [size, hperm.length_eq, List.length_map]

/-- A trace with a preemption and a migration on chips without L2 groups. -/
theorem partition_of_migration :
    let samples := (Extraction.ofRecords [⟨72, 100, 1, 0⟩, ⟨72, 90, 1, 0⟩, ⟨80, 500, 1, 7⟩,
      ⟨80, 600, 2, 7⟩] 2).overheads
    let t := Topology.linear ⟨0, 4, by decide⟩
    (∃ s ∈ samples, s.currentCpu ≠ s.lastCpu ∧ ∃! l,
      ((ofClassified (Overhead.classify t samples) t.hasL2).get? l).isSome ∧
        s ∈ (Overhead.classify t samples).get l) ∧
    (ofClassified (Overhead.classify t samples) t.hasL2).size = 2 := by
  intro samples t
  obtain ⟨-, hlands, -, hsize⟩ := partition_of_extraction [⟨72, 100, 1, 0⟩, ⟨72, 90, 1, 0⟩,
    ⟨80, 500, 1, 7⟩, ⟨80, 600, 2, 7⟩] 2 t
  have hsamples : samples = [⟨1, 1, 410, 7⟩, ⟨2, 1, 510, 7⟩] := by decide
  have hmoved : (⟨2, 1, 510, 7⟩ : Overhead.Sample) ∈ samples := by simp [hsamples]
  refine ⟨⟨_, hmoved, by decide, hlands _ hmoved⟩, hsize.trans ?_⟩
  show samples.length = 2
  rw [hsamples]
  rfl

end Overheads

end CacheDelay

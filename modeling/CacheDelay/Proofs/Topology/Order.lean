import CacheDelay.Proofs.Topology.Described
import Mathlib.Data.Set.Basic
import Mathlib.Order.Bounds.Defs

/-!
# The order in which a hierarchy is read

A hierarchy tells the locality of a move by the least level of the caches that the two CPUs share
(`LocatedBy`, `locatedBy_classify`). Which caches these are is said by the tree whatever the order
of its directories (`SharesCache`), so that two readings of the same files in different orders fail
alike and tell the same localities (`read_of_relisted`).
-/

namespace CacheDelay.Topology

open CacheDelay.Files CacheDelay.Files.Tree

variable {t t' : Tree} {w w' : World} {dir root : Path} {name : String} {cache : Cache}
  {cpu current last level : UInt32}

/-! ## Localities by level -/

/-- The locality of a move between different CPUs that share caches of the given levels. -/
inductive LocatedBy (levels : Set UInt32) : Locality → Prop where
  | sameL2 {level : UInt32} (hleast : IsLeast levels level) (hlevel : level ≤ 2) :
    LocatedBy levels .sameL2
  | sameChip {level : UInt32} (hleast : IsLeast levels level) (hlevel : ¬ level ≤ 2) :
    LocatedBy levels .sameChip
  | offChip (hnone : levels = ∅) : LocatedBy levels .offChip

theorem LocatedBy.unique {levels : Set UInt32} {l l' : Locality} (h : LocatedBy levels l)
    (h' : LocatedBy levels l') : l = l' := by
  have hsame {a b : UInt32} (ha : IsLeast levels a) (hb : IsLeast levels b) : a = b :=
    UInt32.le_antisymm (ha.2 hb.1) (hb.2 ha.1)
  cases h with
  | sameL2 hleast hlevel =>
    cases h' with
    | sameL2 => rfl
    | sameChip hleast' hlevel' => exact absurd (hsame hleast hleast' ▸ hlevel) hlevel'
    | offChip hnone => exact absurd (hnone ▸ hleast.1) (Set.notMem_empty _)
  | sameChip hleast hlevel =>
    cases h' with
    | sameL2 hleast' hlevel' => exact absurd (hsame hleast' hleast ▸ hlevel') hlevel
    | sameChip => rfl
    | offChip hnone => exact absurd (hnone ▸ hleast.1) (Set.notMem_empty _)
  | offChip hnone =>
    cases h' with
    | sameL2 hleast' => exact absurd (hnone ▸ hleast'.1) (Set.notMem_empty _)
    | sameChip hleast' => exact absurd (hnone ▸ hleast'.1) (Set.notMem_empty _)
    | offChip => rfl

/-- Different CPUs are told apart by the least level of a cache that they share. -/
theorem Hierarchy.locatedBy_classify (h : Hierarchy) (hne : current ≠ last) :
    LocatedBy {level | ∃ cache ∈ h.cachesOf last, current ∈ cache.shared ∧ cache.level = level}
      (h.classify current last) := by
  have hmem (level : UInt32) :
      level ∈ ((h.cachesOf last).filter (·.shared.contains current)).map (·.level) ↔
        ∃ cache ∈ h.cachesOf last, current ∈ cache.shared ∧ cache.level = level := by
    simp only [List.mem_map, List.mem_filter, List.contains_iff_mem, and_assoc]
  rw [classify, if_neg hne]
  cases hlevel : h.sharedLevel? current last with
  | none =>
    refine .offChip (Set.eq_empty_iff_forall_notMem.2 fun level hshared => ?_)
    rw [sharedLevel?, List.min?_eq_none_iff] at hlevel
    exact List.not_mem_nil (hlevel ▸ (hmem level).2 hshared)
  | some least =>
    obtain ⟨hshared, hle⟩ := List.min?_eq_some_iff.1 hlevel
    have hleast : IsLeast
        {level | ∃ cache ∈ h.cachesOf last, current ∈ cache.shared ∧ cache.level = level} least :=
      ⟨(hmem least).1 hshared, fun level hlevel => hle level ((hmem level).2 hlevel)⟩
    dsimp only
    split
    · exact .sameL2 hleast ‹_›
    · exact .sameChip hleast ‹_›

/-- A cache of `last` with the given level is shared by `current`. -/
def SharesCache (t : Tree) (root : Path) (current last level : UInt32) : Prop :=
  ∃ name cache, t.Lists root name ∧ CpuDirectory t root name last ∧
    HasCache t (cacheDirectory root name) cache ∧ current ∈ cache.shared ∧ cache.level = level

theorem Hierarchy.locatedBy_of_read {h : Hierarchy} (hdistinct : DistinctCpus w.files root)
    (hread : (read root w).1 = .ok h) (hne : current ≠ last) :
    LocatedBy {level | SharesCache w.files root current last level} (h.classify current last) := by
  obtain ⟨w', hread⟩ := Action.fst_eq_ok_iff.1 hread
  obtain ⟨-, hmem, -⟩ := of_read_eq_ok hdistinct hread
  have hlevels : {level | SharesCache w.files root current last level} =
      {level | ∃ cache ∈ h.cachesOf last, current ∈ cache.shared ∧ cache.level = level} := by
    ext level
    simp only [SharesCache, Set.mem_ofPred_eq, hmem]
    constructor
    · rintro ⟨name, cache, hname, hcpu, hcache, hshared⟩
      exact ⟨cache, ⟨name, hname, hcpu, hcache⟩, hshared⟩
    · rintro ⟨cache, ⟨name, hname, hcpu, hcache⟩, hshared⟩
      exact ⟨name, cache, hname, hcpu, hcache, hshared⟩
  rw [hlevels]
  exact h.locatedBy_classify hne

/-! ## Directories in another order -/

theorem attribute_iff_of_relisted (h : t.Relisted t') {value : List Char} :
    Attribute t' dir name value ↔ Attribute t dir name value := by
  rw [Attribute, Attribute, h.readText]

theorem HoldsCache.relisted (h : t.Relisted t') (hcache : HoldsCache t dir cache) :
    HoldsCache t' dir cache where
  type := by simpa only [attribute_iff_of_relisted h] using hcache.type
  level := by simpa only [attribute_iff_of_relisted h] using hcache.level
  shared := by simpa only [attribute_iff_of_relisted h] using hcache.shared

theorem holdsCache_iff_of_relisted (h : t.Relisted t') :
    HoldsCache t' dir cache ↔ HoldsCache t dir cache :=
  ⟨.relisted h.symm, .relisted h⟩

theorem CacheEntry.relisted {found? : Option Cache} (h : t.Relisted t')
    (hentry : CacheEntry t dir found?) : CacheEntry t' dir found? := by
  cases hentry with
  | ignored htype hnone => exact .ignored ((attribute_iff_of_relisted h).2 htype) hnone
  | cache hcache => exact .cache (hcache.relisted h)

theorem hasCache_iff_of_relisted (h : t.Relisted t') :
    HasCache t' dir cache ↔ HasCache t dir cache := by
  simp only [HasCache, h.lists_iff, holdsCache_iff_of_relisted h]

theorem ReadableCaches.relisted (h : t.Relisted t') (hcaches : ReadableCaches t dir) :
    ReadableCaches t' dir where
  listed := h.exists_list_iff.2 hcaches.listed
  each name hname hindex := by
    obtain ⟨found?, hentry⟩ := hcaches.each name (h.lists_iff.1 hname) hindex
    exact ⟨found?, hentry.relisted h⟩

theorem CpuDirectory.relisted (h : t.Relisted t') (hcpu : CpuDirectory t root name cpu) :
    CpuDirectory t' root name cpu where
  number := hcpu.number
  caches := (h.isDirectory _).trans hcpu.caches

theorem cpuDirectory_iff_of_relisted (h : t.Relisted t') :
    CpuDirectory t' root name cpu ↔ CpuDirectory t root name cpu :=
  ⟨.relisted h.symm, .relisted h⟩

theorem DistinctCpus.relisted (h : t.Relisted t') (hdistinct : DistinctCpus t root) :
    DistinctCpus t' root := by
  simpa only [DistinctCpus, h.lists_iff, cpuDirectory_iff_of_relisted h] using hdistinct

theorem ReadableCpus.relisted (h : t.Relisted t') (hcpus : ReadableCpus t root) :
    ReadableCpus t' root where
  listed := h.exists_list_iff.2 hcpus.listed
  each name cpu hname hcpu := by
    have hname := h.lists_iff.1 hname
    exact (hcpus.each name cpu hname ((cpuDirectory_iff_of_relisted h).1 hcpu)).relisted h
  some := by
    simpa only [h.lists_iff, cpuDirectory_iff_of_relisted h] using hcpus.some

theorem sharesCache_iff_of_relisted (h : t.Relisted t') :
    SharesCache t' root current last level ↔ SharesCache t root current last level := by
  simp only [SharesCache, h.lists_iff, cpuDirectory_iff_of_relisted h, hasCache_iff_of_relisted h]

/-- Two readings of the same files, in any two orders of the directories, fail alike, which is where
the caches of some CPU cannot be read or there is no CPU. Where they succeed they tell all moves
alike: a move between different CPUs by the least level of a cache of the last CPU that the current
one shares and that holds data. -/
theorem read_of_relisted (hfiles : w.files.Relisted w'.files)
    (hdistinct : DistinctCpus w.files root) :
    ((∃ failure, (Hierarchy.read root w).1 = .error failure) ↔ ¬ ReadableCpus w.files root) ∧
    ((∃ failure, (Hierarchy.read root w).1 = .error failure) ↔
      ∃ failure, (Hierarchy.read root w').1 = .error failure) ∧
    ∀ h h', (Hierarchy.read root w).1 = .ok h → (Hierarchy.read root w').1 = .ok h' →
      ∀ current last, h.classify current last = h'.classify current last ∧
        (current ≠ last →
          LocatedBy {level | SharesCache w.files root current last level}
            (h.classify current last)) := by
  have hdistinct' := hdistinct.relisted hfiles
  have hreadable : ReadableCpus w.files root ↔ ReadableCpus w'.files root :=
    ⟨.relisted hfiles, .relisted hfiles.symm⟩
  refine ⟨?_, ?_, ?_⟩
  · rw [Action.exists_error_iff, Hierarchy.exists_read_iff hdistinct]
  · rw [Action.exists_error_iff, Action.exists_error_iff, Hierarchy.exists_read_iff hdistinct,
      Hierarchy.exists_read_iff hdistinct', hreadable]
  · intro h h' hread hread' current last
    by_cases hsame : current = last
    · refine ⟨?_, fun hne => absurd hsame hne⟩
      rw [Hierarchy.classify, Hierarchy.classify, if_pos hsame, if_pos hsame]
    · have hlocated := Hierarchy.locatedBy_of_read hdistinct hread hsame
      have hlocated' := Hierarchy.locatedBy_of_read hdistinct' hread' hsame
      simp only [sharesCache_iff_of_relisted hfiles] at hlocated'
      exact ⟨hlocated.unique hlocated', fun _ => hlocated⟩

/-- Two CPUs that share an L2 cache are told to do so from their directories in either direction. -/
theorem read_of_relisted_reversed :
    let reversed : World :=
      { twoCpus with files := { twoCpus.files with entries := twoCpus.files.entries.reverse } }
    twoCpus.files.Relisted reversed.files ∧ DistinctCpus twoCpus.files ⟨"sys"⟩ ∧
      ∃ h h', (Hierarchy.read ⟨"sys"⟩ twoCpus).1 = .ok h ∧
        (Hierarchy.read ⟨"sys"⟩ reversed).1 = .ok h' ∧ h.classify 1 0 = .sameL2 ∧
          h'.classify 1 0 = .sameL2 := by
  intro reversed
  have hfiles : twoCpus.files.Relisted reversed.files :=
    relisted_of_perm rfl (List.reverse_perm _).symm (by decide +kernel)
  have hdistinct := Hierarchy.distinctCpus_of_describes describes_twoCpus
  obtain ⟨-, hfail, hsame⟩ := read_of_relisted hfiles hdistinct
  obtain ⟨h, hread, hfound⟩ := Hierarchy.exists_read_of_describes describes_twoCpus (by decide)
  have hread : (Hierarchy.read ⟨"sys"⟩ twoCpus).1 = .ok h := Action.fst_eq_ok_iff.2 ⟨_, hread⟩
  have hread' : ∃ h', (Hierarchy.read ⟨"sys"⟩ reversed).1 = .ok h' := by
    rw [Action.exists_error_iff, Action.exists_error_iff, not_iff_not] at hfail
    exact hfail.1 ⟨h, hread⟩
  obtain ⟨h', hread'⟩ := hread'
  have hlocality : h.classify 1 0 = .sameL2 := by
    rw [Hierarchy.classify_of_matchAll (hfound 0 (by decide) (by decide)) (by decide)]
    decide
  refine ⟨hfiles, hdistinct, h, h', hread, hread', hlocality, ?_⟩
  rw [← (hsame h h' hread hread' 1 0).1, hlocality]

end CacheDelay.Topology

import CacheDelay.Proofs.Actions
import CacheDelay.Proofs.Files.Relisted
import CacheDelay.Proofs.Topology.CpuList
import CacheDelay.Topology.Sysfs
import Mathlib.Data.List.ReduceOption

/-!
# Hierarchies as they are read

What the files under a directory say of caches is said by propositions on the tree: a directory
`HoldsCache`, another `HasCache` among its entries, and a CPU's directory is found by its number
(`CpuDirectory`). A hierarchy can be read exactly if the caches of all CPUs can, and there is a CPU
(`exists_read_iff`). If no two directories are for one CPU, the hierarchy that is read has for each
CPU the caches in its directory (`of_read_eq_ok`). None of this asks in which order directories
list their entries.
-/

namespace CacheDelay.Topology

open CacheDelay.Files CacheDelay.Files.Tree CacheDelay.Text

/-! ## What the files say -/

/-- A file in `dir` has the given text between blanks. -/
def Attribute (t : Tree) (dir : Path) (name : String) (value : List Char) : Prop :=
  ∃ text, t.readText (dir.child name) = .ok text ∧ trim text.toList = value

instance (t : Tree) (dir : Path) (name : String) (value : List Char) :
    Decidable (Attribute t dir name value) :=
  match h : t.readText (dir.child name) with
  | .ok text => decidable_of_iff (trim text.toList = value)
    ⟨fun hvalue => ⟨text, h, hvalue⟩, fun ⟨_, htext, hvalue⟩ =>
      Except.ok.inj (h.symm.trans htext) ▸ hvalue⟩
  | .error _ => isFalse fun ⟨_, htext, _⟩ => nomatch h.symm.trans htext

/-- The files in `dir` describe a cache that holds data. -/
structure HoldsCache (t : Tree) (dir : Path) (cache : Cache) : Prop where
  type : ∃ type, Attribute t dir "type" type ∧
    ¬ (type = "Instruction".toList ∨ type = "Unknown".toList)
  level : ∃ numeral, Attribute t dir "level" numeral ∧
    IsNumeral maxWord32 numeral cache.level.toNat
  shared : ∃ list, Attribute t dir "shared_cpu_list" list ∧ readCpuList list = .ok cache.shared

/-- The files in `dir` describe a cache, or say that it holds no data. -/
inductive CacheEntry (t : Tree) (dir : Path) : Option Cache → Prop where
  | ignored {type : List Char} (htype : Attribute t dir "type" type)
    (hnone : type = "Instruction".toList ∨ type = "Unknown".toList) : CacheEntry t dir none
  | cache {cache : Cache} (hcache : HoldsCache t dir cache) : CacheEntry t dir (some cache)

theorem cacheEntry_some_iff {t : Tree} {dir : Path} {cache : Cache} :
    CacheEntry t dir (some cache) ↔ HoldsCache t dir cache := by
  constructor
  · rintro (_ | hcache)
    exact hcache
  · exact .cache

/-- One of the directories in `dir` is that of the cache. -/
def HasCache (t : Tree) (dir : Path) (cache : Cache) : Prop :=
  ∃ name, t.Lists dir name ∧ Hierarchy.isCacheName name = true ∧
    HoldsCache t (dir.child name) cache

/-- All directories of caches in `dir` can be read. -/
structure ReadableCaches (t : Tree) (dir : Path) : Prop where
  listed : ∃ names, t.list dir = .ok names
  each : ∀ name, t.Lists dir name → Hierarchy.isCacheName name = true →
    ∃ found?, CacheEntry t (dir.child name) found?

/-- The directory of the caches of a CPU. -/
def cacheDirectory (root : Path) (name : String) : Path := (root.child name).child "cache"

/-- The directory `name` has caches of `cpu`. -/
structure CpuDirectory (t : Tree) (root : Path) (name : String) (cpu : UInt32) : Prop where
  number : Hierarchy.cpuOfName? name = some cpu
  caches : t.isDirectory (cacheDirectory root name) = true

/-- No two directories under `root` are for one CPU. -/
def DistinctCpus (t : Tree) (root : Path) : Prop :=
  ∀ name name' cpu, t.Lists root name → t.Lists root name' → CpuDirectory t root name cpu →
    CpuDirectory t root name' cpu → name = name'

/-- The caches of all CPUs under `root` can be read, and there is a CPU. -/
structure ReadableCpus (t : Tree) (root : Path) : Prop where
  listed : ∃ names, t.list root = .ok names
  each : ∀ name cpu, t.Lists root name → CpuDirectory t root name cpu →
    ReadableCaches t (cacheDirectory root name)
  some : ∃ name cpu, t.Lists root name ∧ CpuDirectory t root name cpu

variable {t : Tree} {w w' : World} {dir root : Path} {name : String} {names done : List String}
  {value : List Char} {cache : Cache} {found? : Option Cache} {found : List Cache} {cpu : UInt32}
  {h h' : Hierarchy}

namespace Hierarchy

/-! ## Caches -/

theorem readAttribute_eq_ok_iff : readAttribute dir name w = (.ok value, w') ↔
    Attribute w.files dir name value ∧ w = w' := by
  simp only [readAttribute, Action.bind_eq_ok_iff, Action.within_eq_ok_iff, Action.query_eq_ok_iff]
  constructor
  · rintro ⟨text, _, ⟨htext, rfl⟩, hvalue⟩
    cases hvalue
    exact ⟨⟨text, htext, rfl⟩, rfl⟩
  · rintro ⟨⟨text, htext, rfl⟩, rfl⟩
    exact ⟨text, w, ⟨htext, rfl⟩, rfl⟩

/-- The level of a cache is a numeral. -/
theorem mapError_readNumeral_eq_ok_iff {numeral : List Char} {number : Nat} :
    (readNumeral maxWord32 numeral).mapError Cause.numeral = .ok number ↔
      IsNumeral maxWord32 numeral number := by
  rw [mapError_eq_ok_iff, readNumeral_eq_ok_iff]

theorem readCache_eq_ok_iff : readCache dir w = (.ok found?, w') ↔
    CacheEntry w.files dir found? ∧ w = w' := by
  rw [readCache, Action.bind_eq_ok_iff]
  constructor
  · rintro ⟨type, _, hread, h⟩
    obtain ⟨htype, rfl⟩ := readAttribute_eq_ok_iff.1 hread
    split at h
    · rename_i hnone
      cases h
      exact ⟨.ignored htype hnone, rfl⟩
    · rename_i hdata
      simp only [Action.bind_eq_ok_iff, readAttribute_eq_ok_iff, Action.within_eq_ok_iff,
        Action.ofExcept_eq_ok_iff, mapError_readNumeral_eq_ok_iff] at h
      obtain ⟨numeral, _, ⟨hlevel, rfl⟩, number, _, ⟨hnumber, rfl⟩, list, _, ⟨hlist, rfl⟩, shared,
        _, ⟨hshared, rfl⟩, h⟩ := h
      cases h
      have hword : (UInt32.ofNat number).toNat = number :=
        UInt32.toNat_ofNat_of_lt' (Nat.lt_succ_of_le hnumber.le)
      refine ⟨.cache ⟨⟨type, htype, hdata⟩, ⟨numeral, hlevel, ?_⟩, ⟨list, hlist, hshared⟩⟩, rfl⟩
      rw [hword]
      exact hnumber
  · rintro ⟨h, rfl⟩
    cases h with
    | @ignored type htype hnone =>
      exact ⟨type, w, readAttribute_eq_ok_iff.2 ⟨htype, rfl⟩, by rw [if_pos hnone]; rfl⟩
    | cache hcache =>
      obtain ⟨type, htype, hdata⟩ := hcache.type
      obtain ⟨numeral, hlevel, hnumber⟩ := hcache.level
      obtain ⟨list, hlist, hshared⟩ := hcache.shared
      refine ⟨type, w, readAttribute_eq_ok_iff.2 ⟨htype, rfl⟩, ?_⟩
      simp only [if_neg hdata, Action.bind_eq_ok_iff, readAttribute_eq_ok_iff,
        Action.within_eq_ok_iff, Action.ofExcept_eq_ok_iff, mapError_readNumeral_eq_ok_iff]
      refine ⟨numeral, w, ⟨hlevel, rfl⟩, _, w, ⟨hnumber, rfl⟩, list, w, ⟨hlist, rfl⟩, _, w,
        ⟨hshared, rfl⟩, ?_⟩
      rw [UInt32.ofNat_toNat]
      rfl

/-- A directory describes one cache at most. -/
theorem cacheEntry_unique {other? : Option Cache} (h : CacheEntry t dir found?)
    (h' : CacheEntry t dir other?) : found? = other? := by
  have hread {c? : Option Cache} (hentry : CacheEntry t dir c?) :
      readCache dir ⟨t, [], ""⟩ = (.ok c?, ⟨t, [], ""⟩) := readCache_eq_ok_iff.2 ⟨hentry, rfl⟩
  exact Except.ok.inj (congrArg Prod.fst ((hread h).symm.trans (hread h')))

/-- Caches that can be read are read. -/
theorem exists_readCaches (h : ReadableCaches w.files dir) :
    ∃ found, readCaches dir w = (.ok found, w) ∧
      ∀ cache, cache ∈ found ↔ HasCache w.files dir cache := by
  obtain ⟨names, hlist⟩ := h.listed
  have hquery : Action.query (·.list dir) w = (.ok names, w) := Action.query_of_ok hlist
  have heach : ∀ name ∈ names.filter isCacheName,
      ∃ found?, readCache (dir.child name) w = (.ok found?, w) := by
    intro name hname
    obtain ⟨hname, hindex⟩ := List.mem_filter.1 hname
    obtain ⟨found?, hentry⟩ := h.each name ⟨names, hlist, hname⟩ hindex
    exact ⟨found?, readCache_eq_ok_iff.2 ⟨hentry, rfl⟩⟩
  obtain ⟨results, hresults, hmem⟩ := Action.exists_mapM_of_same heach
  refine ⟨results.reduceOption.mergeSort fun a b => a.level ≤ b.level, ?_, fun cache => ?_⟩
  · rw [readCaches, Action.bind_of_ok (Action.within_of_ok hquery _), Action.bind_of_ok hresults]
    rfl
  · rw [List.mem_mergeSort, List.reduceOption_mem_iff, hmem]
    simp only [readCache_eq_ok_iff, and_true, cacheEntry_some_iff, List.mem_filter, HasCache,
      lists_iff_of_list hlist, and_assoc]

/-- Caches that are read are those that can be. -/
theorem of_readCaches_eq_ok (h : readCaches dir w = (.ok found, w')) :
    ReadableCaches w.files dir ∧ (∀ cache, cache ∈ found ↔ HasCache w.files dir cache) ∧
      w = w' := by
  have hreadable : ReadableCaches w.files dir := by
    rw [readCaches, Action.bind_eq_ok_iff] at h
    obtain ⟨names, _, hquery, h⟩ := h
    obtain ⟨hlist, rfl⟩ := Action.query_eq_ok_iff.1 (Action.of_within_eq_ok hquery)
    obtain ⟨results, v, hresults, -⟩ := Action.of_bind_eq_ok h
    have heach : w = v ∧ ∀ name ∈ [] ++ names.filter isCacheName,
        ∃ found?, CacheEntry w.files (dir.child name) found? := by
      refine Action.mapM_induction (fun v done _ => w = v ∧ ∀ name ∈ done,
        ∃ found?, CacheEntry w.files (dir.child name) found?) ?_ [] [] ?_ hresults
      · rintro name - done _ _ found? v ⟨rfl, hdone⟩ hread
        obtain ⟨hentry, rfl⟩ := readCache_eq_ok_iff.1 hread
        refine ⟨rfl, fun name' hname' => ?_⟩
        rcases List.mem_append.1 hname' with hname' | hname'
        · exact hdone name' hname'
        · exact List.mem_singleton.1 hname' ▸ ⟨found?, hentry⟩
      · exact ⟨rfl, List.forall_mem_nil _⟩
    refine ⟨⟨names, hlist⟩, fun name hname hindex => heach.2 name ?_⟩
    exact List.mem_filter.2 ⟨(lists_iff_of_list hlist).1 hname, hindex⟩
  obtain ⟨found', hread, hmem⟩ := exists_readCaches hreadable
  cases hread.symm.trans h
  exact ⟨hreadable, hmem, rfl⟩

/-! ## CPUs -/

/-- The hierarchy with new caches for a CPU has those, and the others as before. -/
theorem cachesOf_insert (h : Hierarchy) (cpu other : UInt32) (found : List Cache) :
    (h.insert cpu found).cachesOf other = if other = cpu then found else h.cachesOf other := by
  rw [insert, cachesOf, cachesOf]
  dsimp only
  induction h.caches with
  | nil =>
    rw [replace, List.find?_cons, List.find?_nil]
    by_cases hother : other = cpu
    · rw [if_pos hother, hother, beq_self_eq_true]
      rfl
    · rw [if_neg hother, beq_eq_false_iff_ne.2 (Ne.symm hother)]
  | cons entry entries ih =>
    rw [replace]
    by_cases hentry : entry.1 = cpu
    · rw [if_pos (beq_iff_eq.2 hentry), List.find?_cons, List.find?_cons, hentry]
      by_cases hother : other = cpu
      · rw [if_pos hother, hother, beq_self_eq_true]
        rfl
      · rw [if_neg hother, beq_eq_false_iff_ne.2 (Ne.symm hother)]
    · rw [if_neg (mt beq_iff_eq.1 hentry), List.find?_cons, List.find?_cons]
      by_cases hfirst : entry.1 = other
      · rw [hfirst, beq_self_eq_true, if_neg fun hother => hentry (hfirst.trans hother)]
      · rw [beq_eq_false_iff_ne.2 hfirst]
        exact ih

theorem addCpu_of_cpuDirectory (hcpu : CpuDirectory w.files root name cpu) : addCpu root h name w =
    (h.insert cpu <$> readCaches (cacheDirectory root name)) w := by
  rw [addCpu, hcpu.number]
  dsimp only
  rw [Action.bind_of_ok Action.get_run]
  exact congrFun (if_pos hcpu.caches) w

theorem addCpu_of_forall_not (hnone : ∀ cpu, ¬ CpuDirectory w.files root name cpu) :
    addCpu root h name w = (.ok h, w) := by
  rw [addCpu]
  cases hnumber : cpuOfName? name with
  | none => rfl
  | some cpu =>
    dsimp only
    rw [Action.bind_of_ok Action.get_run]
    exact congrFun (if_neg fun hcaches => hnone cpu ⟨hnumber, hcaches⟩) w

/-- The hierarchy has what the directories `done` describe. -/
structure Added (t : Tree) (root : Path) (done : List String) (h : Hierarchy) : Prop where
  listed : ∀ name ∈ done, t.Lists root name
  readable : ∀ name ∈ done, ∀ cpu, CpuDirectory t root name cpu →
    ReadableCaches t (cacheDirectory root name)
  mem : ∀ cpu cache, cache ∈ h.cachesOf cpu ↔
    ∃ name ∈ done, CpuDirectory t root name cpu ∧ HasCache t (cacheDirectory root name) cache
  isEmpty : h.caches.isEmpty = true ↔ ∀ name ∈ done, ∀ cpu, ¬ CpuDirectory t root name cpu

theorem added_nil (t : Tree) (root : Path) : Added t root [] ⟨[]⟩ where
  listed := List.forall_mem_nil _
  readable := List.forall_mem_nil _
  mem := by simp [cachesOf]
  isEmpty := by simp

theorem isEmpty_insert (h : Hierarchy) (cpu : UInt32) (found : List Cache) :
    (h.insert cpu found).caches.isEmpty = false := by
  rw [insert]
  cases h.caches with
  | nil => rfl
  | cons entry entries =>
    rw [replace]
    split <;> rfl

/-- An entry that is no directory of a CPU adds nothing. -/
theorem Added.skip (hdone : Added t root done h) (hname : t.Lists root name)
    (hnone : ∀ cpu, ¬ CpuDirectory t root name cpu) : Added t root (done ++ [name]) h where
  listed := List.forall_mem_append.2 ⟨hdone.listed, List.forall_mem_singleton.2 hname⟩
  readable := List.forall_mem_append.2
    ⟨hdone.readable, List.forall_mem_singleton.2 fun cpu hcpu => absurd hcpu (hnone cpu)⟩
  mem cpu cache := by
    rw [hdone.mem]
    simp only [List.mem_append, List.mem_singleton, or_and_right, exists_or, exists_eq_left,
      hnone, false_and, or_false]
  isEmpty := by
    rw [hdone.isEmpty, List.forall_mem_append, List.forall_mem_singleton, and_iff_left hnone]

/-- A directory of a CPU adds its caches. -/
theorem Added.insert (hdistinct : DistinctCpus t root) (hdone : Added t root done h)
    (hname : t.Lists root name) (hcpu : CpuDirectory t root name cpu)
    (hreadable : ReadableCaches t (cacheDirectory root name))
    (hfound : ∀ cache, cache ∈ found ↔ HasCache t (cacheDirectory root name) cache) :
    Added t root (done ++ [name]) (h.insert cpu found) where
  listed := List.forall_mem_append.2 ⟨hdone.listed, List.forall_mem_singleton.2 hname⟩
  readable := List.forall_mem_append.2
    ⟨hdone.readable, List.forall_mem_singleton.2 fun _ _ => hreadable⟩
  mem other cache := by
    rw [cachesOf_insert]
    constructor
    · intro hcache
      split at hcache
      · rename_i hother
        exact ⟨name, List.mem_concat_self, hother ▸ hcpu, (hfound cache).1 hcache⟩
      · obtain ⟨name', hmem, hrest⟩ := (hdone.mem other cache).1 hcache
        exact ⟨name', List.mem_append_left _ hmem, hrest⟩
    · rintro ⟨name', hmem, hother, hcache⟩
      rcases List.mem_append.1 hmem with hmem | hmem
      · split
        · rename_i heq
          -- the CPU has one directory only
          cases hdistinct name' name cpu (hdone.listed name' hmem) hname (heq ▸ hother) hcpu
          exact (hfound cache).2 hcache
        · exact (hdone.mem other cache).2 ⟨name', hmem, hother, hcache⟩
      · cases List.mem_singleton.1 hmem
        have heq : other = cpu := Option.some.inj (hother.number.symm.trans hcpu.number)
        rw [if_pos heq]
        exact (hfound cache).2 hcache
  isEmpty := by
    rw [isEmpty_insert]
    exact iff_of_false Bool.false_ne_true fun hnone => hnone name List.mem_concat_self cpu hcpu

theorem of_addCpu_eq_ok (hdistinct : DistinctCpus w.files root) (hdone : Added w.files root done h)
    (hname : w.files.Lists root name) (hadd : addCpu root h name w = (.ok h', w')) :
    Added w.files root (done ++ [name]) h' ∧ w = w' := by
  by_cases hcpu : ∃ cpu, CpuDirectory w.files root name cpu
  · obtain ⟨cpu, hcpu⟩ := hcpu
    rw [addCpu_of_cpuDirectory hcpu] at hadd
    obtain ⟨found, hread, rfl⟩ := Action.of_map_eq_ok hadd
    obtain ⟨hreadable, hfound, rfl⟩ := of_readCaches_eq_ok hread
    exact ⟨hdone.insert hdistinct hname hcpu hreadable hfound, rfl⟩
  · have hnone := not_exists.1 hcpu
    rw [addCpu_of_forall_not hnone] at hadd
    cases hadd
    exact ⟨hdone.skip hname hnone, rfl⟩

theorem exists_addCpu
    (h : ∀ cpu, CpuDirectory w.files root name cpu → ReadableCaches w.files
      (cacheDirectory root name)) (hierarchy : Hierarchy) :
    ∃ h', addCpu root hierarchy name w = (.ok h', w) := by
  by_cases hcpu : ∃ cpu, CpuDirectory w.files root name cpu
  · obtain ⟨cpu, hcpu⟩ := hcpu
    obtain ⟨found, hread, -⟩ := exists_readCaches (h cpu hcpu)
    exact ⟨_, (addCpu_of_cpuDirectory hcpu).trans (Action.map_of_ok hread _)⟩
  · exact ⟨_, addCpu_of_forall_not (not_exists.1 hcpu)⟩

/-! ## Hierarchies -/

/-- Hierarchies that can be read are read. -/
theorem exists_read (hdistinct : DistinctCpus w.files root) (hcpus : ReadableCpus w.files root) :
    ∃ h, read root w = (.ok h, w) := by
  obtain ⟨names, hlist⟩ := hcpus.listed
  have hquery : Action.query (·.list root) w = (.ok names, w) := Action.query_of_ok hlist
  have hstep : ∀ name ∈ names, ∀ done h, Added w.files root done h →
      ∃ h', addCpu root h name w = (.ok h', w) ∧ Added w.files root (done ++ [name]) h' := by
    intro name hname done h hdone
    have hname : w.files.Lists root name := ⟨names, hlist, hname⟩
    obtain ⟨h', hadd⟩ := exists_addCpu (fun cpu => hcpus.each name cpu hname) h
    exact ⟨h', hadd, (of_addCpu_eq_ok hdistinct hdone hname hadd).1⟩
  obtain ⟨h, hfold, hadded⟩ := Action.exists_foldlM_of_forall _ hstep [] ⟨[]⟩ (added_nil _ _)
  have hsome : ¬ h.caches.isEmpty = true := by
    obtain ⟨name, cpu, hname, hcpu⟩ := hcpus.some
    rw [hadded.isEmpty]
    exact fun hnone => hnone name ((lists_iff_of_list hlist).1 hname) cpu hcpu
  refine ⟨h, ?_⟩
  rw [read, Action.bind_of_ok (Action.within_of_ok hquery _), Action.bind_of_ok hfold, if_neg hsome]
  rfl

/-- The hierarchy that is read has for each CPU the caches in its directory. -/
theorem of_read_eq_ok (hdistinct : DistinctCpus w.files root) (hread : read root w = (.ok h, w')) :
    ReadableCpus w.files root ∧ (∀ cpu cache, cache ∈ h.cachesOf cpu ↔
      ∃ name, w.files.Lists root name ∧ CpuDirectory w.files root name cpu ∧
        HasCache w.files (cacheDirectory root name) cache) ∧ w = w' := by
  rw [read, Action.bind_eq_ok_iff] at hread
  obtain ⟨names, _, hquery, hread⟩ := hread
  obtain ⟨hlist, rfl⟩ := Action.query_eq_ok_iff.1 (Action.of_within_eq_ok hquery)
  obtain ⟨h', v, hfold, hread⟩ := Action.of_bind_eq_ok hread
  have hadded : Added w.files root ([] ++ names) h' ∧ w = v := by
    refine Action.foldlM_induction (fun v done h => Added w.files root done h ∧ w = v) ?_ [] ⟨[]⟩
      ⟨added_nil _ _, rfl⟩ hfold
    rintro name hname done h _ h' v ⟨hdone, rfl⟩ hadd
    exact of_addCpu_eq_ok hdistinct hdone ⟨names, hlist, hname⟩ hadd
  obtain ⟨hadded, rfl⟩ := hadded
  rw [List.nil_append] at hadded
  by_cases hempty : h'.caches.isEmpty = true
  · rw [if_pos hempty] at hread
    cases hread
  rw [if_neg hempty] at hread
  cases hread
  refine ⟨⟨⟨names, hlist⟩, ?_, ?_⟩, fun cpu cache => ?_, rfl⟩
  · exact fun name cpu hname => hadded.readable name ((lists_iff_of_list hlist).1 hname) cpu
  · simp only [hadded.isEmpty, not_forall, not_not] at hempty
    obtain ⟨name, hname, cpu, hcpu⟩ := hempty
    exact ⟨name, cpu, ⟨names, hlist, hname⟩, hcpu⟩
  · simp only [hadded.mem, lists_iff_of_list hlist]

/-- A hierarchy can be read exactly if the caches of all CPUs can, and there is a CPU. -/
theorem exists_read_iff (hdistinct : DistinctCpus w.files root) :
    (∃ h, (read root w).1 = .ok h) ↔ ReadableCpus w.files root := by
  simp only [Action.fst_eq_ok_iff]
  constructor
  · rintro ⟨h, w', hread⟩
    exact (of_read_eq_ok hdistinct hread).1
  · intro hcpus
    obtain ⟨h, hread⟩ := exists_read hdistinct hcpus
    exact ⟨h, w, hread⟩

end Hierarchy

end CacheDelay.Topology

import CacheDelay.Proofs.Files.Tree
import CacheDelay.Proofs.Topology.Layout
import CacheDelay.Proofs.Topology.Reading

/-!
# Layouts that a tree describes

A `Layout` numbers the CPUs of a machine by arithmetic. A tree `Describes` it if each CPU has
directories for the caches that the layout gives it (`Layout.cachesOf`), with the CPUs that share
them in the notation of the kernel, in any order and beside instruction caches and files of other
names. Reading such a tree succeeds, and the hierarchy that it gives tells localities as the layout
does (`read_of_describes`).
-/

namespace CacheDelay.Topology

open CacheDelay.Files CacheDelay.Text
open CacheDelay.Files.Tree (lists_iff_of_list)

/-! ## Trees -/

/-- The name of the directory of a CPU. -/
def cpuName (cpu : UInt32) : String := String.ofList ("cpu".toList ++ writeNumber cpu)

/-- The files in `dir` describe a cache. -/
structure DescribesCache (t : Tree) (dir : Path) (cache : SharedCache) : Prop where
  type : Attribute t dir "type" cache.type.label.toList
  level : Attribute t dir "level" (writeNumber cache.level)
  shares : ∃ ranges, Attribute t dir "shared_cpu_list" (writeCpuList ranges) ∧
    (∀ range ∈ ranges, range.1 ≤ range.2) ∧
    ∀ cpu, (∃ range ∈ ranges, range.1 ≤ cpu ∧ cpu ≤ range.2) ↔ cache.Shares cpu

/-- The directories in `dir` describe caches, and besides at most instruction caches. -/
structure DescribesCaches (t : Tree) (dir : Path) (names : List String)
    (caches : List SharedCache) : Prop where
  listed : t.list dir = .ok names
  each : ∀ name ∈ names, Hierarchy.isCacheName name = true →
    Attribute t (dir.child name) "type" "Instruction".toList ∨
      ∃ cache ∈ caches, DescribesCache t (dir.child name) cache
  all : ∀ cache ∈ caches, ∃ name ∈ names, Hierarchy.isCacheName name = true ∧
    DescribesCache t (dir.child name) cache

/-- The tree under `root` describes the CPUs below `n`, and no others. -/
structure Describes (t : Tree) (root : Path) (names : List String) (layout : Layout) (n : Nat) :
    Prop where
  listed : t.list root = .ok names
  cpus : ∀ cpu : UInt32, cpu.toNat < n → cpuName cpu ∈ names ∧
    ∃ entries, DescribesCaches t (cacheDirectory root (cpuName cpu)) entries (layout.cachesOf n cpu)
  others : ∀ name ∈ names, ∀ cpu, Hierarchy.cpuOfName? name = some cpu →
    t.isDirectory (cacheDirectory root name) = true → cpu.toNat < n ∧ name = cpuName cpu

/-! ## Reading -/

/-- What was found is the cache. -/
def Cache.Matches (found : Cache) (cache : SharedCache) : Prop :=
  found.level = cache.level ∧ ∀ cpu, cpu ∈ found.shared ↔ cache.Shares cpu

/-- What was found are the caches. -/
structure MatchAll (found : List Cache) (caches : List SharedCache) : Prop where
  each : ∀ c ∈ found, ∃ cache ∈ caches, c.Matches cache
  all : ∀ cache ∈ caches, ∃ c ∈ found, c.Matches cache

variable {t : Tree} {w : World} {dir root : Path} {name : String} {names : List String}
  {value : List Char} {cache : SharedCache} {caches : List SharedCache} {layout : Layout} {n : Nat}
  {current last : UInt32}

namespace Hierarchy

theorem cpuOfName?_cpuName (cpu : UInt32) : cpuOfName? (cpuName cpu) = some cpu := by
  have hname : (cpuName cpu).toList = 'c' :: 'p' :: 'u' :: writeNumber cpu := String.toList_ofList
  rw [cpuOfName?, hname]
  simp only [readNumeral_writeNumber, UInt32.ofNat_toNat]

theorem holdsCache_of_describesCache (h : DescribesCache t dir cache) :
    ∃ found : Cache, HoldsCache t dir found ∧ found.Matches cache := by
  obtain ⟨ranges, hshared, hranges, hmem⟩ := h.shares
  have htype : ¬ (cache.type.label.toList = "Instruction".toList ∨
      cache.type.label.toList = "Unknown".toList) := by
    cases cache.type <;> decide
  refine ⟨⟨cache.level, ranges.flatMap fun range => cpuRange range.1 range.2⟩, ?_, rfl,
    fun cpu => ?_⟩
  · exact {
      type := ⟨_, h.type, htype⟩
      level := ⟨_, h.level, readNumeral_eq_ok_iff.1 (readNumeral_writeNumber cache.level)⟩
      shared := ⟨_, hshared, readCpuList_writeCpuList hranges⟩ }
  · rw [← hmem, List.mem_flatMap]
    simp only [mem_cpuRange]

theorem readableCaches_of_describesCaches (h : DescribesCaches t dir names caches) :
    ReadableCaches t dir where
  listed := ⟨names, h.listed⟩
  each name hname hindex := by
    have hname := (lists_iff_of_list h.listed).1 hname
    rcases h.each name hname hindex with hnone | ⟨cache, -, hcache⟩
    · exact ⟨none, .ignored hnone (.inl rfl)⟩
    · obtain ⟨found, hfound, -⟩ := holdsCache_of_describesCache hcache
      exact ⟨some found, .cache hfound⟩

/-- The caches in a directory are those that it describes. -/
theorem matchAll_of_describesCaches (h : DescribesCaches t dir names caches) {found : List Cache}
    (hfound : ∀ c, c ∈ found ↔ HasCache t dir c) : MatchAll found caches := by
  refine ⟨fun c hc => ?_, fun cache hcache => ?_⟩
  · obtain ⟨name, hname, hindex, hholds⟩ := (hfound c).1 hc
    have hname := (lists_iff_of_list h.listed).1 hname
    rcases h.each name hname hindex with hnone | ⟨cache, hmem, hcache⟩
    · cases cacheEntry_unique (.cache hholds) (.ignored hnone (.inl rfl))
    · obtain ⟨c', hholds', hmatches⟩ := holdsCache_of_describesCache hcache
      cases cacheEntry_unique (.cache hholds) (.cache hholds')
      exact ⟨cache, hmem, hmatches⟩
  · obtain ⟨name, hname, hindex, hdescribes⟩ := h.all cache hcache
    obtain ⟨c, hholds, hmatches⟩ := holdsCache_of_describesCache hdescribes
    exact ⟨c, (hfound c).2 ⟨name, ⟨names, h.listed, hname⟩, hindex, hholds⟩, hmatches⟩

theorem cpuDirectory_of_describes (h : Describes t root names layout n) {cpu : UInt32}
    (hcpu : cpu.toNat < n) : CpuDirectory t root (cpuName cpu) cpu where
  number := cpuOfName?_cpuName cpu
  caches := by
    obtain ⟨-, entries, hentries⟩ := h.cpus cpu hcpu
    exact Tree.isDirectory_of_list hentries.listed

/-- The directories of CPUs are those that are described. -/
theorem eq_cpuName_of_describes (h : Describes t root names layout n) {cpu : UInt32}
    (hname : t.Lists root name) (hcpu : CpuDirectory t root name cpu) :
    cpu.toNat < n ∧ name = cpuName cpu :=
  h.others name ((lists_iff_of_list h.listed).1 hname) cpu hcpu.number hcpu.caches

theorem distinctCpus_of_describes (h : Describes t root names layout n) : DistinctCpus t root := by
  intro name name' cpu hname hname' hcpu hcpu'
  rw [(eq_cpuName_of_describes h hname hcpu).2, (eq_cpuName_of_describes h hname' hcpu').2]

theorem readableCpus_of_describes (h : Describes t root names layout n) (hn : 0 < n) :
    ReadableCpus t root where
  listed := ⟨names, h.listed⟩
  each name cpu hname hcpu := by
    obtain ⟨hlt, rfl⟩ := eq_cpuName_of_describes h hname hcpu
    obtain ⟨-, entries, hentries⟩ := h.cpus cpu hlt
    exact readableCaches_of_describesCaches hentries
  some := ⟨cpuName 0, 0, ⟨names, h.listed, (h.cpus 0 hn).1⟩, cpuDirectory_of_describes h hn⟩

/-- The hierarchy has the caches of the CPUs with the given directories. -/
def Found (layout : Layout) (n : Nat) (names : List String) (h : Hierarchy) : Prop :=
  ∀ cpu : UInt32, cpu.toNat < n → cpuName cpu ∈ names →
    MatchAll (h.cachesOf cpu) (layout.cachesOf n cpu)

/-- All CPUs are read, and at least one was there. -/
theorem exists_read_of_describes (h : Describes w.files root names layout n) (hn : 0 < n) :
    ∃ found, read root w = (.ok found, w) ∧ Found layout n names found := by
  have hdistinct := distinctCpus_of_describes h
  obtain ⟨found, hread⟩ := exists_read hdistinct (readableCpus_of_describes h hn)
  obtain ⟨-, hmem, -⟩ := of_read_eq_ok hdistinct hread
  refine ⟨found, hread, fun cpu hcpu hname => ?_⟩
  obtain ⟨-, entries, hentries⟩ := h.cpus cpu hcpu
  refine matchAll_of_describesCaches hentries fun c => (hmem cpu c).trans ?_
  constructor
  · rintro ⟨name, hlists, hdirectory, hhas⟩
    rwa [(eq_cpuName_of_describes h hlists hdirectory).2] at hhas
  · intro hhas
    exact ⟨cpuName cpu, ⟨names, h.listed, hname⟩, cpuDirectory_of_describes h hcpu, hhas⟩

end Hierarchy

/-! ## Localities -/

namespace Hierarchy

/-- The levels of the caches that two described CPUs share. -/
theorem mem_sharedLevels {h : Hierarchy}
    (hmatch : MatchAll (h.cachesOf last) (layout.cachesOf n last)) (hcurrent : current.toNat < n)
    (hne : current ≠ last) (level : UInt32) :
    level ∈ ((h.cachesOf last).filter (·.shared.contains current)).map (·.level) ↔
      level = 2 ∧ layout.SharesL2 current last ∨ level = 3 ∧ layout.SharesChip current last := by
  rw [List.mem_map]
  constructor
  · rintro ⟨c, hc, rfl⟩
    obtain ⟨hin, hcontains⟩ := List.mem_filter.1 hc
    obtain ⟨cache, hcache, hlevel, hshares⟩ := hmatch.each c hin
    have hshared := (hshares current).1 (List.contains_iff_mem.1 hcontains)
    rw [hlevel]
    rcases Layout.mem_cachesOf.1 hcache with rfl | ⟨-, rfl⟩ | rfl
    · exact absurd hshared hne
    · exact .inl ⟨rfl, hshared.2⟩
    · exact .inr ⟨rfl, hshared.2⟩
  · intro hlevel
    obtain ⟨cache, hcache, hlevel, hshared⟩ :
        ∃ cache ∈ layout.cachesOf n last, cache.level = level ∧ cache.Shares current := by
      rcases hlevel with ⟨rfl, hgroup⟩ | ⟨rfl, hchip⟩
      · have hpos := Layout.coresPerL2_pos hgroup
        exact ⟨_, Layout.mem_cachesOf.2 (.inr (.inl ⟨hpos, rfl⟩)), rfl, hcurrent, hgroup⟩
      · exact ⟨_, Layout.mem_cachesOf.2 (.inr (.inr rfl)), rfl, hcurrent, hchip⟩
    obtain ⟨c, hin, hlevel', hshares⟩ := hmatch.all cache hcache
    refine ⟨c, List.mem_filter.2 ⟨hin, ?_⟩, hlevel'.trans hlevel⟩
    exact List.contains_iff_mem.2 ((hshares current).2 hshared)

/-- A hierarchy with the caches of a layout tells localities as the layout does. -/
theorem classify_of_matchAll {h : Hierarchy}
    (hmatch : MatchAll (h.cachesOf last) (layout.cachesOf n last)) (hcurrent : current.toNat < n) :
    h.classify current last = layout.topology.classify current last := by
  by_cases heq : current = last
  · rw [heq, Layout.classify_self, classify, if_pos rfl]
  have hmem := mem_sharedLevels hmatch hcurrent heq
  rw [classify, if_neg heq, sharedLevel?]
  by_cases hgroup : layout.SharesL2 current last
  · rw [Layout.classify_of_sharesL2 heq hgroup]
    cases hmin : (((h.cachesOf last).filter (·.shared.contains current)).map (·.level)).min? with
    | none =>
      have hsecond := (hmem 2).2 (.inl ⟨rfl, hgroup⟩)
      rw [List.min?_eq_none_iff.1 hmin] at hsecond
      cases hsecond
    | some level =>
      exact if_pos ((List.min?_eq_some_iff.1 hmin).2 2 ((hmem 2).2 (.inl ⟨rfl, hgroup⟩)))
  by_cases hchip : layout.SharesChip current last
  · rw [Layout.classify_of_sharesChip heq hgroup hchip, (List.min?_eq_some_iff (a := 3)).2]
    · rfl
    · refine ⟨(hmem 3).2 (.inr ⟨rfl, hchip⟩), fun level hlevel => ?_⟩
      rcases (hmem level).1 hlevel with ⟨-, hsame⟩ | ⟨rfl, -⟩
      · exact absurd hsame hgroup
      · exact UInt32.le_refl 3
  · rw [Layout.classify_of_not_sharesChip heq hgroup hchip, List.min?_eq_none_iff.2]
    refine List.eq_nil_iff_forall_not_mem.2 fun level hlevel => ?_
    rcases (hmem level).1 hlevel with ⟨-, hsame⟩ | ⟨-, hsame⟩
    · exact hgroup hsame
    · exact hchip hsame

end Hierarchy

/-- A tree that describes the CPUs below `n` of a layout can be read, and the hierarchy read from it
tells the localities of all moves between these CPUs as the layout does. -/
theorem read_of_describes (h : Describes w.files root names layout n) (hn : 0 < n) :
    ∃ hierarchy, Hierarchy.read root w = (.ok hierarchy, w) ∧
      ∀ current last : UInt32, current.toNat < n → last.toNat < n →
        (Topology.sysfs hierarchy).classify current last =
          layout.topology.classify current last := by
  obtain ⟨hierarchy, hread, hfound⟩ := Hierarchy.exists_read_of_describes h hn
  refine ⟨hierarchy, hread, fun current last hcurrent hlast => ?_⟩
  exact Hierarchy.classify_of_matchAll (hfound last hlast (h.cpus last hlast).1) hcurrent

/-- A cache may be shared by the CPUs of one range. -/
theorem describesCache_of_range (low high : UInt32)
    (htype : Attribute t dir "type" cache.type.label.toList)
    (hlevel : Attribute t dir "level" (writeNumber cache.level))
    (hlist : Attribute t dir "shared_cpu_list" (writeCpuList [(low, high)])) (hle : low ≤ high)
    (hshares : ∀ cpu, low ≤ cpu ∧ cpu ≤ high ↔ cache.Shares cpu) : DescribesCache t dir cache where
  type := htype
  level := hlevel
  shares := by
    refine ⟨[(low, high)], hlist, fun range hrange => ?_, fun cpu => ?_⟩
    · rw [List.mem_singleton.1 hrange]
      exact hle
    · rw [← hshares]
      simp only [List.mem_singleton, exists_eq_left]

/-- A directory for a cache, with its files. -/
def cacheFiles (place : Location) (type level shared : String) : List Item :=
  [.directory place, .file (place ++ ["type"]) 0 type.toUTF8.toList,
    .file (place ++ ["level"]) 0 level.toUTF8.toList,
    .file (place ++ ["shared_cpu_list"]) 0 shared.toUTF8.toList]

/-- The directories of a CPU that shares its L2 cache and its chip with another one. -/
def cpuFiles (name own : String) : List Item :=
  [.directory ["sys", name], .directory ["sys", name, "cache"]] ++
    cacheFiles ["sys", name, "cache", "index0"] "Data\n" "1\n" own ++
    cacheFiles ["sys", name, "cache", "index1"] "Instruction\n" "1\n" own ++
    cacheFiles ["sys", name, "cache", "index2"] "Unified\n" "2\n" "0-1\n" ++
    cacheFiles ["sys", name, "cache", "index3"] "Unified\n" "3\n" "0-1\n"

/-- A world with the directories of two CPUs. -/
def twoCpus : World where
  files := {
    workingDirectory := []
    entries := [.directory ["sys"], .file ["sys", "online"] 0 "0-1\n".toUTF8.toList] ++
      cpuFiles "cpu0" "0\n" ++ cpuFiles "cpu1" "1\n" }
  warnings := []
  output := ""

/-- Both CPUs on one chip and in one L2 group. -/
def onePair : Layout := .linear ⟨2, 2, by decide⟩

theorem describesCaches_twoCpus {cpu : UInt32} (hcpu : cpu = 0 ∨ cpu = 1) :
    DescribesCaches twoCpus.files (cacheDirectory ⟨"sys"⟩ (cpuName cpu))
      ["index0", "index1", "index2", "index3"] (onePair.cachesOf 2 cpu) := by
  have hpair (other : UInt32) : 0 ≤ other ∧ other ≤ 1 ↔ other.toNat < 2 ∧ other / 2 = cpu / 2 := by
    have hquotient : (cpu / 2).toNat = 0 := by rcases hcpu with rfl | rfl <;> rfl
    rw [UInt32.le_iff_toNat_le, UInt32.le_iff_toNat_le, ← UInt32.toNat_inj, hquotient,
      UInt32.toNat_div]
    show 0 ≤ other.toNat ∧ other.toNat ≤ 1 ↔ other.toNat < 2 ∧ other.toNat / 2 = 0
    omega
  have hown : DescribesCache twoCpus.files
      ((cacheDirectory ⟨"sys"⟩ (cpuName cpu)).child "index0") ⟨1, .data, (· = cpu)⟩ := by
    refine describesCache_of_range cpu cpu ?_ ?_ ?_ (UInt32.le_refl cpu) ?_
    · rcases hcpu with rfl | rfl <;> decide +kernel
    · rcases hcpu with rfl | rfl <;> decide +kernel
    · rcases hcpu with rfl | rfl <;> decide +kernel
    · exact fun other => ⟨fun h => UInt32.le_antisymm h.2 h.1, fun h => by rw [h]; simp⟩
  have hinstruction : Attribute twoCpus.files
      ((cacheDirectory ⟨"sys"⟩ (cpuName cpu)).child "index1") "type" "Instruction".toList := by
    rcases hcpu with rfl | rfl <;> decide +kernel
  have hgroup : DescribesCache twoCpus.files
      ((cacheDirectory ⟨"sys"⟩ (cpuName cpu)).child "index2")
      ⟨2, .unified, fun other => other.toNat < 2 ∧ onePair.SharesL2 other cpu⟩ := by
    refine describesCache_of_range 0 1 ?_ ?_ ?_ (by decide) fun other => ?_
    · rcases hcpu with rfl | rfl <;> decide +kernel
    · rcases hcpu with rfl | rfl <;> decide +kernel
    · rcases hcpu with rfl | rfl <;> decide +kernel
    · rw [hpair]
      exact and_congr_right fun _ => (and_iff_right (by decide)).symm
  have hchip : DescribesCache twoCpus.files
      ((cacheDirectory ⟨"sys"⟩ (cpuName cpu)).child "index3")
      ⟨3, .unified, fun other => other.toNat < 2 ∧ onePair.SharesChip other cpu⟩ := by
    refine describesCache_of_range 0 1 ?_ ?_ ?_ (by decide) hpair
    · rcases hcpu with rfl | rfl <;> decide +kernel
    · rcases hcpu with rfl | rfl <;> decide +kernel
    · rcases hcpu with rfl | rfl <;> decide +kernel
  constructor
  · rcases hcpu with rfl | rfl <;> decide +kernel
  · intro name hname _
    simp only [List.mem_cons, List.not_mem_nil, or_false] at hname
    rcases hname with rfl | rfl | rfl | rfl
    · exact .inr ⟨_, Layout.mem_cachesOf.2 (.inl rfl), hown⟩
    · exact .inl hinstruction
    · exact .inr ⟨_, Layout.mem_cachesOf.2 (.inr (.inl ⟨by decide, rfl⟩)), hgroup⟩
    · exact .inr ⟨_, Layout.mem_cachesOf.2 (.inr (.inr rfl)), hchip⟩
  · intro cache hcache
    rcases Layout.mem_cachesOf.1 hcache with rfl | ⟨-, rfl⟩ | rfl
    · exact ⟨"index0", by decide, by decide, hown⟩
    · exact ⟨"index2", by decide, by decide, hgroup⟩
    · exact ⟨"index3", by decide, by decide, hchip⟩

theorem describes_twoCpus :
    Describes twoCpus.files ⟨"sys"⟩ ["online", "cpu0", "cpu1"] onePair 2 where
  listed := by decide +kernel
  cpus cpu hcpu := by
    have hcpu : cpu = 0 ∨ cpu = 1 := by
      rw [← UInt32.toNat_inj, ← UInt32.toNat_inj]
      show cpu.toNat = 0 ∨ cpu.toNat = 1
      omega
    refine ⟨?_, _, describesCaches_twoCpus hcpu⟩
    rcases hcpu with rfl | rfl <;> decide +kernel
  others name hname cpu hnumber _ := by
    simp only [List.mem_cons, List.not_mem_nil, or_false] at hname
    rcases hname with rfl | rfl | rfl
    · have hnone : Hierarchy.cpuOfName? "online" = none := by decide +kernel
      rw [hnone] at hnumber
      cases hnumber
    · have hzero : Hierarchy.cpuOfName? "cpu0" = some 0 := by decide +kernel
      rw [← Option.some.inj (hzero.symm.trans hnumber)]
      decide +kernel
    · have hone : Hierarchy.cpuOfName? "cpu1" = some 1 := by decide +kernel
      rw [← Option.some.inj (hone.symm.trans hnumber)]
      decide +kernel

/-- Two CPUs on one chip that share an L2 cache are told to do so from their description. -/
theorem read_twoCpus :
    Describes twoCpus.files ⟨"sys"⟩ ["online", "cpu0", "cpu1"] onePair 2 ∧ 0 < 2 ∧
      ∃ hierarchy, Hierarchy.read ⟨"sys"⟩ twoCpus = (.ok hierarchy, twoCpus) ∧
        (Topology.sysfs hierarchy).classify 1 0 = .sameL2 := by
  obtain ⟨hierarchy, hread, hclassify⟩ := read_of_describes describes_twoCpus (by decide)
  refine ⟨describes_twoCpus, by decide, hierarchy, hread, ?_⟩
  rw [hclassify 1 0 (by decide) (by decide)]
  decide

end CacheDelay.Topology

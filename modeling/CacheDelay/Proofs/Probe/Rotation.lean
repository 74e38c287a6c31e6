import CacheDelay.Proofs.Probe.Changes
import CacheDelay.Proofs.Probe.WorkingSets
import Mathlib.Data.Nat.ModEq
import Mathlib.Data.List.Chain

/-!
# The rotation through the working sets

There are so many working sets that those other than a job's own exceed twice the cache
(`lt_mul_of_setCount`). A job is measured on the set that its job count names modulo their number
(`of_step_eq_newJob`, `starts_slot`). So where job counts follow one another, all other sets are
passed over before a set is measured again (`Consecutive.exists_between`).
-/

namespace CacheDelay.Probe

open CacheDelay.Status

/-! ## The number of working sets -/

theorem setCount_eq_some_iff {cacheKib kib count : Nat} (h : 0 < kib) :
    setCount cacheKib kib = some count ↔
      cacheKib * 2 ≤ Text.maxWord64 ∧ cacheKib * 2 / kib + 2 ≤ Text.maxWord64 ∧
        count = cacheKib * 2 / kib + 2 := by
  rw [setCount, if_neg (Nat.pos_iff_ne_zero.1 h)]
  split
  · rename_i hcache
    exact iff_of_false (Option.some_ne_none count).symm fun hfits =>
      absurd hfits.1 (Nat.not_le.2 hcache)
  split
  · rename_i hcount
    exact iff_of_false (Option.some_ne_none count).symm fun hfits =>
      absurd hfits.2.1 (Nat.not_le.2 hcount)
  · rename_i hcache hcount
    rw [Option.some.injEq, eq_comm]
    exact ⟨fun heq => ⟨Nat.not_lt.1 hcache, Nat.not_lt.1 hcount, heq⟩, fun hfits => hfits.2.2⟩

/-- All working sets but one exceed twice the cache. -/
theorem lt_mul_of_setCount {cacheKib kib count : Nat} (h : 0 < kib)
    (hcount : setCount cacheKib kib = some count) : cacheKib * 2 < (count - 1) * kib := by
  obtain ⟨-, -, rfl⟩ := (setCount_eq_some_iff h).1 hcount
  calc cacheKib * 2 < kib * (cacheKib * 2 / kib + 1) := Nat.lt_mul_div_succ _ h
    _ = (cacheKib * 2 / kib + 2 - 1) * kib := Nat.mul_comm ..

/-! ## The set of a job -/

/-- The sets after `n` passes over one of them. -/
def WorkingSets.touchTimes (w : WorkingSets) (slot : Nat) : Nat → WorkingSets
  | 0 => w
  | n + 1 => (w.touch slot).touchTimes slot n

theorem WorkingSets.count_touchTimes (w : WorkingSets) (slot n : Nat) :
    (w.touchTimes slot n).count = w.count := by
  induction n generalizing w with
  | zero => rfl
  | succ n ih => exact ih (w.touch slot)

theorem sets_recordHot (device : Device) (slot n : Nat) (p : Probe) :
    (recordHot device slot n p).sets = p.sets.touchTimes slot n := by
  induction n generalizing p with
  | zero => rfl
  | succ n ih =>
    rw [recordHot, ih]
    rfl

theorem sets_startJob (p : Probe) (device : Device) (now : Snapshot) :
    (p.startJob device now).2.sets =
      p.sets.touchTimes (now.jobCount.toNat % p.sets.count) (p.config.hotReads + 1) := by
  rw [startJob, sets_recordHot]
  rfl

theorem count_warm (p : Probe) (device : Device) (slot : Nat) :
    (p.warm device slot).sets.count = p.sets.count := by
  rw [warm]
  dsimp only
  split <;> rfl

/-- A step keeps the number of working sets. -/
theorem count_step (p : Probe) (device : Device) :
    (p.step device).2.sets.count = p.sets.count := by
  rcases step_cases p device with ⟨-, h⟩ | ⟨-, -, h⟩ | ⟨slot, -, -, -, h⟩ | ⟨slot, -, -, -, -, h⟩
  · rw [h, sets_startJob, WorkingSets.count_touchTimes]; rfl
  · rw [h]; rfl
  · rw [h]; rfl
  · rw [h, count_warm]; rfl

/-- A step that starts a job passes over one set, once cold and then as often as there are hot
passes. The job count that it polled says which set. -/
theorem of_step_eq_newJob {p : Probe} {device : Device} {slot : Nat}
    (h : (p.step device).1 = .newJob slot) :
    slot = (device.status p.polls).jobCount.toNat % p.sets.count ∧
      (p.step device).2.sets = p.sets.touchTimes slot (p.config.hotReads + 1) := by
  rcases step_cases p device with ⟨-, hstep⟩ | ⟨-, -, hstep⟩ | ⟨_, -, -, -, hstep⟩ |
    ⟨_, -, -, -, -, hstep⟩
  · rw [hstep] at h ⊢
    cases h
    exact ⟨rfl, sets_startJob ..⟩
  all_goals
    rw [hstep] at h
    cases h

/-! ## The jobs of a run -/

/-- A job as a run starts it. -/
structure Start where
  /-- The job count that the step polled. -/
  jobCount : UInt64
  /-- The set that the job is measured on. -/
  slot : Nat

/-- The job that the next step starts, if it starts one. -/
def start? (p : Probe) (device : Device) : Option Start :=
  match (p.step device).1 with
  | .newJob slot => some ⟨(device.status p.polls).jobCount, slot⟩
  | _ => none

/-- The jobs that a run starts, in order. -/
def starts (device : Device) : Nat → Probe → List Start
  | 0, _ => []
  | n + 1, p => (p.start? device).toList ++ starts device n (p.step device).2

theorem step_of_start? {p : Probe} {device : Device} {job : Start}
    (h : p.start? device = some job) :
    (p.step device).1 = .newJob job.slot ∧ job.jobCount = (device.status p.polls).jobCount := by
  rw [start?] at h
  split at h
  · rename_i hstep
    cases h
    exact ⟨hstep, rfl⟩
  · cases h

/-- Every job of a run is measured on the set that its job count names. -/
theorem starts_slot {device : Device} {n : Nat} {p : Probe} {job : Start}
    (h : job ∈ starts device n p) : job.slot = job.jobCount.toNat % p.sets.count := by
  induction n generalizing p with
  | zero => cases h
  | succ n ih =>
    rcases List.mem_append.1 h with h | h
    · obtain ⟨hstep, hcount⟩ := step_of_start? (Option.mem_toList.1 h)
      rw [hcount]
      exact (of_step_eq_newJob hstep).1
    · rw [ih h, count_step]

/-- A job of a run passes over its set and no other. -/
theorem sets_of_getElem?_steps {device : Device} {n i slot : Nat} {p : Probe}
    (h : (steps device n p).1[i]? = some (.newJob slot)) :
    (steps device (i + 1) p).2.sets =
      (steps device i p).2.sets.touchTimes slot (p.config.hotReads + 1) := by
  rw [steps_concat, (of_step_eq_newJob (getElem?_steps h)).2, config_steps]

/-! ## Turns of the rotation -/

/-- Remainders other than that of `a` come up in the next turn. -/
theorem exists_add_mod_eq {n s : Nat} (hs : s < n) {a : Nat} (hne : s ≠ a % n) :
    ∃ d, 0 < d ∧ d < n ∧ (a + d) % n = s := by
  have ha : a % n < n := Nat.mod_lt a (Nat.zero_lt_of_lt hs)
  rcases Nat.lt_or_ge (a % n) s with hlt | hge
  · refine ⟨s - a % n, by omega, by omega, ?_⟩
    rw [← Nat.mod_add_mod, Nat.add_sub_of_le (Nat.le_of_lt hlt), Nat.mod_eq_of_lt hs]
  · refine ⟨s + n - a % n, by omega, by omega, ?_⟩
    rw [← Nat.mod_add_mod, Nat.add_sub_of_le (by omega), Nat.add_mod_right, Nat.mod_eq_of_lt hs]

/-- Each job count exceeds the one before by one. -/
def Consecutive (jobs : List Start) : Prop :=
  jobs.IsChain fun a b => b.jobCount.toNat = a.jobCount.toNat + 1

/-- The job counts of consecutive jobs are as far apart as the jobs are. -/
theorem Consecutive.jobCount_add {jobs : List Start} (h : Consecutive jobs) {i : Nat} {a : Start}
    (hi : jobs[i]? = some a) {d : Nat} {b : Start} (hb : jobs[i + d]? = some b) :
    b.jobCount.toNat = a.jobCount.toNat + d := by
  induction d generalizing b with
  | zero =>
    cases hi.symm.trans hb
    rfl
  | succ d ih =>
    obtain ⟨hlast, rfl⟩ := List.getElem?_eq_some_iff.1 hb
    have hstep := List.isChain_iff_getElem.1 h (i + d) hlast
    have hprevious := ih (List.getElem?_eq_getElem (Nat.lt_of_succ_lt hlast))
    calc jobs[i + (d + 1)].jobCount.toNat = jobs[i + d].jobCount.toNat + 1 := hstep
      _ = a.jobCount.toNat + (d + 1) := congrArg (· + 1) hprevious

/-- Between two jobs on one set, consecutive jobs have passed over all others. -/
theorem Consecutive.exists_between {jobs : List Start} {count : Nat} (h : Consecutive jobs)
    (hslots : ∀ job ∈ jobs, job.slot = job.jobCount.toNat % count) {i k : Nat} {a b : Start}
    (hik : i < k) (ha : jobs[i]? = some a) (hb : jobs[k]? = some b) (hsame : a.slot = b.slot)
    {slot : Nat} (hslot : slot < count) (hother : slot ≠ a.slot) :
    ∃ m job, i < m ∧ m < k ∧ jobs[m]? = some job ∧ job.slot = slot := by
  obtain ⟨d, rfl⟩ := Nat.exists_eq_add_of_le (Nat.le_of_lt hik)
  have hturn : count ≤ d := by
    rw [hslots a (List.mem_of_getElem? ha), hslots b (List.mem_of_getElem? hb),
      h.jobCount_add ha hb] at hsame
    exact Nat.le_of_dvd (by omega) (Nat.left_modEq_add_iff.1 hsame)
  rw [hslots a (List.mem_of_getElem? ha)] at hother
  obtain ⟨e, hpos, hlt, hmod⟩ := exists_add_mod_eq hslot hother
  have hlength := (List.getElem?_eq_some_iff.1 hb).1
  have hjob := List.getElem?_eq_getElem (show i + e < jobs.length by omega)
  refine ⟨i + e, _, by omega, by omega, hjob, ?_⟩
  rw [hslots _ (List.mem_of_getElem? hjob), h.jobCount_add ha hjob, hmod]

/-- Their number is twice the cache over the size of a working set and two more, where this fits in
64 bits, so that all but one of them exceed twice the cache. Every job of a run passes over one set.
Two jobs have the same one exactly if their job counts agree modulo the number of sets, and if job
counts follow one another, all others are passed over between two jobs on one set. -/
theorem rotation_of_run (config : Config) (hkib : 0 < config.kib) :
    (∀ count, setCount config.cacheKib config.kib = some count ↔
      config.cacheKib * 2 ≤ Text.maxWord64 ∧
        config.cacheKib * 2 / config.kib + 2 ≤ Text.maxWord64 ∧
        count = config.cacheKib * 2 / config.kib + 2) ∧
    ∀ count, setCount config.cacheKib config.kib = some count →
      2 ≤ count ∧ config.cacheKib * 2 < (count - 1) * config.kib ∧
      ∀ available p, create available config = .ok p →
        p.sets.count = count ∧ p.sets.wordsPerSet = 256 * config.kib ∧
        ∀ device n, let jobs := starts device n p
          (∀ (i slot : Nat), (steps device n p).1[i]? = some (.newJob slot) →
            (steps device (i + 1) p).2.sets =
              (steps device i p).2.sets.touchTimes slot (config.hotReads + 1)) ∧
          (∀ a ∈ jobs, a.slot < count) ∧
          (∀ a ∈ jobs, ∀ b ∈ jobs,
            a.slot = b.slot ↔ Nat.ModEq count a.jobCount.toNat b.jobCount.toNat) ∧
          (Consecutive jobs →
            ∀ (i k : Nat) (a b : Start), i < k → jobs[i]? = some a → jobs[k]? = some b →
              a.slot = b.slot → ∀ slot, slot < count → slot ≠ a.slot →
                ∃ m job, i < m ∧ m < k ∧ jobs[m]? = some job ∧ job.slot = slot) := by
  refine ⟨fun count => setCount_eq_some_iff hkib, fun count hcount => ⟨?_,
    lt_mul_of_setCount hkib hcount, fun available p h => ?_⟩⟩
  · obtain ⟨-, -, rfl⟩ := (setCount_eq_some_iff hkib).1 hcount
    exact Nat.le_add_left 2 _
  obtain ⟨_, sets, left, hpos, hcount', hsets, hp⟩ := exists_of_create h
  cases hcount'.symm.trans hcount
  have hconfig : p.config = config := by rw [hp]
  have hprobe : p.sets = sets := by rw [hp]
  rw [← hprobe] at hsets
  obtain ⟨hsame, hsize, -, -⟩ := WorkingSets.create_ok hsets
  refine ⟨hsame, hsize, fun device n => ?_⟩
  intro jobs
  have hslots : ∀ job ∈ jobs, job.slot = job.jobCount.toNat % count := fun job hjob =>
    hsame ▸ starts_slot hjob
  refine ⟨fun i slot hi => hconfig ▸ sets_of_getElem?_steps hi, fun a ha => ?_,
    fun a ha b hb => ?_, fun hjobs i k a b hik ha hb heq slot hslot hother =>
      hjobs.exists_between hslots hik ha hb heq hslot hother⟩
  · rw [hslots a ha]
    exact Nat.mod_lt _ (hsame ▸ p.sets.count_pos)
  · rw [hslots a ha, hslots b hb]
    rfl

/-- A page that shows another job at every second reading. -/
def risingJobs : Device :=
  .playing ([1, 2, 3, 4, 5].flatMap fun job => List.replicate 2 ⟨job, 1, 0, 0, 0, 0⟩) []

/-- Four sets of one KiB rotate through a cache of one KiB: the fifth job is measured on the set of
the first one, and the three others have been passed over since. -/
theorem rotation_of_risingJobs :
    let config : Config := { smallConfig 8 with cacheKib := 1, hotReads := 0 }
    ∃ p, 0 < config.kib ∧ create 8192 config = .ok p ∧ p.sets.count = 4 ∧
      config.cacheKib * 2 < 3 * config.kib ∧
      ∃ first last, (starts risingJobs 5 p)[0]? = some first ∧
        (starts risingJobs 5 p)[4]? = some last ∧ first.slot = last.slot ∧
        ∀ slot, slot < 4 → slot ≠ first.slot → ∃ m job, 0 < m ∧ m < 4 ∧
          (starts risingJobs 5 p)[m]? = some job ∧ job.slot = slot := by
  intro config
  have hkib : 0 < config.kib := by decide
  obtain ⟨p, h⟩ : ∃ p, create 8192 config = .ok p := exists_create (by decide +kernel)
  obtain ⟨hcount, hrun⟩ := rotation_of_run config hkib
  obtain ⟨-, hcache, hprobe⟩ := hrun 4 ((hcount 4).2 (by decide))
  obtain ⟨hsets, -, hjobs⟩ := hprobe 8192 p h
  obtain ⟨-, -, -, hbetween⟩ := hjobs risingJobs 5
  have hstarts : starts risingJobs 5 p = [⟨1, 1 % p.sets.count⟩, ⟨2, 2 % p.sets.count⟩,
      ⟨3, 3 % p.sets.count⟩, ⟨4, 4 % p.sets.count⟩, ⟨5, 5 % p.sets.count⟩] := by
    obtain ⟨sets, hpos, rfl⟩ := create_ok h
    rfl
  rw [hsets] at hstarts
  have hrising : Consecutive (starts risingJobs 5 p) := by
    rw [hstarts]
    simp [Consecutive]
  have hfirst : (starts risingJobs 5 p)[0]? = some ⟨1, 1⟩ := by rw [hstarts]; rfl
  have hlast : (starts risingJobs 5 p)[4]? = some ⟨5, 1⟩ := by rw [hstarts]; rfl
  exact ⟨p, hkib, h, hsets, hcache, _, _, hfirst, hlast, rfl,
    hbetween hrising 0 4 _ _ (by decide) hfirst hlast rfl⟩

end CacheDelay.Probe

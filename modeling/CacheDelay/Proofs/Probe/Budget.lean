import CacheDelay.Proofs.Probe.Changes

/-!
# Runs within the time to measure

A run polls as long as its jobs leave time to measure (`pollWithin_eq_some_iff`). The task time of
the jobs is compared as it is, since the product that saturates and the true one are on the same
side of every time of 64 bits (`withinBudget_iff`). Only a step that starts a job changes the job
count (`jobCount_step`), so that a run ends with such a step or before its first one
(`run_until_spent`).
-/

namespace CacheDelay.Probe

open CacheDelay.Status CacheDelay.Trace

variable {device : Device} {periodMs fuel : Nat} {p q : Probe}

/-- The task time of the jobs so far, in milliseconds. -/
def taskTime (p : Probe) (periodMs : Nat) : Nat := p.current.jobCount.toNat * periodMs

/-- Jobs are within a time of 64 bits exactly if their task time is. -/
theorem withinBudget_iff (h : p.config.runtimeMs ≤ Text.maxWord64) :
    p.withinBudget periodMs = true ↔ p.taskTime periodMs < p.config.runtimeMs := by
  rw [withinBudget, decide_eq_true_iff, taskTime]
  omega

/-! ## Runs -/

/-- The time to measure is used up after exactly that many polls. -/
structure RunsFor (device : Device) (periodMs polls : Nat) (p : Probe) : Prop where
  within : ∀ i, i < polls → (steps device i p).2.withinBudget periodMs = true
  spent : (steps device polls p).2.withinBudget periodMs = false

theorem runsFor_zero (h : ¬ p.withinBudget periodMs = true) : RunsFor device periodMs 0 p where
  within i hi := absurd hi (Nat.not_lt_zero i)
  spent := Bool.eq_false_iff.2 h

theorem runsFor_succ_iff {polls : Nat} :
    RunsFor device periodMs (polls + 1) p ↔
      p.withinBudget periodMs = true ∧ RunsFor device periodMs polls (p.step device).2 := by
  constructor
  · intro h
    exact ⟨h.within 0 polls.succ_pos, fun i hi => h.within (i + 1) (Nat.succ_lt_succ hi), h.spent⟩
  · rintro ⟨hfirst, hrest⟩
    refine ⟨fun i hi => ?_, hrest.spent⟩
    cases i with
    | zero => exact hfirst
    | succ i => exact hrest.within i (Nat.lt_of_succ_lt_succ hi)

/-- A run has one number of polls. -/
theorem RunsFor.unique {polls polls' : Nat} (h : RunsFor device periodMs polls p)
    (h' : RunsFor device periodMs polls' p) : polls = polls' := by
  rcases Nat.lt_trichotomy polls polls' with hlt | heq | hgt
  · exact absurd (h'.within polls hlt) (Bool.eq_false_iff.1 h.spent)
  · exact heq
  · exact absurd (h.within polls' hgt) (Bool.eq_false_iff.1 h'.spent)

/-- A run ends exactly if its time is used up after as many polls as there may be. -/
theorem pollWithin_eq_some_iff :
    pollWithin device periodMs fuel p = some q ↔
      ∃ polls, polls ≤ fuel ∧ RunsFor device periodMs polls p ∧ (steps device polls p).2 = q := by
  induction fuel generalizing p with
  | zero =>
    rw [pollWithin]
    split
    · rename_i hbudget
      refine iff_of_false (Option.some_ne_none q).symm ?_
      rintro ⟨polls, hpolls, hruns, -⟩
      obtain rfl := Nat.le_zero.1 hpolls
      exact absurd hbudget (Bool.eq_false_iff.1 hruns.spent)
    · rename_i hbudget
      rw [Option.some.injEq]
      constructor
      · exact fun hq => ⟨0, Nat.le_refl 0, runsFor_zero hbudget, hq⟩
      · rintro ⟨polls, hpolls, -, hq⟩
        obtain rfl := Nat.le_zero.1 hpolls
        exact hq
  | succ fuel ih =>
    rw [pollWithin]
    split
    · rename_i hbudget
      rw [ih]
      constructor
      · rintro ⟨polls, hpolls, hruns, hq⟩
        exact ⟨polls + 1, Nat.succ_le_succ hpolls, runsFor_succ_iff.2 ⟨hbudget, hruns⟩, hq⟩
      · rintro ⟨polls, hpolls, hruns, hq⟩
        cases polls with
        | zero => exact absurd hbudget (Bool.eq_false_iff.1 hruns.spent)
        | succ polls =>
          exact ⟨polls, Nat.le_of_succ_le_succ hpolls, (runsFor_succ_iff.1 hruns).2, hq⟩
    · rename_i hbudget
      rw [Option.some.injEq]
      constructor
      · exact fun hq => ⟨0, Nat.zero_le _, runsFor_zero hbudget, hq⟩
      · rintro ⟨polls, -, hruns, hq⟩
        obtain rfl := hruns.unique (runsFor_zero hbudget)
        exact hq

theorem of_run_eq_ok {probe? : Option Probe} (h : p.run device periodMs fuel = .ok probe?) :
    pollWithin device periodMs fuel p = probe? := by
  rw [Probe.run] at h
  split at h
  · cases h
  · exact Except.ok.inj h

/-- In a time of 64 bits, a run polls while the task time is below it. -/
theorem runsFor_iff (h : p.config.runtimeMs ≤ Text.maxWord64) {polls : Nat} :
    RunsFor device periodMs polls p ↔
      (∀ i, i < polls → (steps device i p).2.taskTime periodMs < p.config.runtimeMs) ∧
        p.config.runtimeMs ≤ (steps device polls p).2.taskTime periodMs := by
  have hwithin (i : Nat) : (steps device i p).2.withinBudget periodMs = true ↔
      (steps device i p).2.taskTime periodMs < p.config.runtimeMs := by
    have hconfig := config_steps device i p
    rw [← hconfig] at h ⊢
    exact withinBudget_iff h
  constructor
  · intro hruns
    exact ⟨fun i hi => (hwithin i).1 (hruns.within i hi),
      Nat.not_lt.1 (mt (hwithin polls).2 (Bool.eq_false_iff.1 hruns.spent))⟩
  · rintro ⟨hbelow, hspent⟩
    exact ⟨fun i hi => (hwithin i).2 (hbelow i hi),
      Bool.eq_false_iff.2 (mt (hwithin polls).1 (Nat.not_lt.2 hspent))⟩

/-! ## The last step -/

/-- Only a step that starts a job changes the job count. -/
theorem jobCount_step (p : Probe) (device : Device) :
    (∃ slot, (p.step device).1 = .newJob slot) ∨
      (p.step device).2.current.jobCount = p.current.jobCount := by
  rcases step_cases p device with ⟨-, h⟩ | ⟨-, -, h⟩ | ⟨slot, hjob, -, -, h⟩ |
    ⟨slot, -, -, -, -, h⟩
  · exact .inl ⟨_, congrArg Prod.fst h⟩
  · exact .inr (congrArg (fun out => out.2.current.jobCount) h)
  · refine .inr ?_
    rw [h, current_resume]
    exact hjob
  · refine .inr ?_
    rw [h, current_warm]
    rfl

/-- A run that polls at all ends with a step that starts a job. -/
theorem RunsFor.exists_newJob {polls : Nat} (h : RunsFor device periodMs (polls + 1) p) :
    ∃ slot, ((steps device polls p).2.step device).1 = .newJob slot := by
  have hwithin := h.within polls polls.lt_succ_self
  have hspent := h.spent
  rw [steps_concat] at hspent
  rcases jobCount_step (steps device polls p).2 device with hjob | hsame
  · exact hjob
  · rw [withinBudget, hsame, config_step] at hspent
    cases hspent.symm.trans hwithin

/-- A period of zero is refused, whatever a device would have shown. For any other period a run goes
on exactly as long as the task time of the jobs is below the time to measure, with no bound on the
numbers that are compared. If it has polled at all, its last step started a job, with the snapshot
that used the time up, and recorded its cold pass and all of its hot passes. -/
theorem run_until_spent (p : Probe) (hword : p.config.runtimeMs ≤ Text.maxWord64)
    (periodMs : Nat) :
    (periodMs = 0 → ∀ device fuel, p.run device periodMs fuel = .error .zeroPeriod) ∧
    (0 < periodMs → ∀ device fuel, ∃ result, p.run device periodMs fuel = .ok result ∧
      ∀ q, result = some q ↔ ∃ polls, polls ≤ fuel ∧ (steps device polls p).2 = q ∧
        (∀ i, i < polls → (steps device i p).2.taskTime periodMs < p.config.runtimeMs) ∧
        p.config.runtimeMs ≤ q.taskTime periodMs ∧
        ∀ last, polls = last + 1 → ∃ slot samples, let before := (steps device last p).2
          before.step device = (.newJob slot, q) ∧ q.current = device.status before.polls ∧
            Step.Records device before q (.newJob slot) samples ∧
            samples.map (·.kind.pass) = .cold :: List.replicate p.config.hotReads .hot) := by
  refine ⟨fun hzero device fuel => by rw [run, if_pos hzero], fun hperiod device fuel => ?_⟩
  refine ⟨pollWithin device periodMs fuel p, by rw [run, if_neg (by omega)], fun q => ?_⟩
  rw [pollWithin_eq_some_iff]
  constructor
  · rintro ⟨polls, hpolls, hruns, hq⟩
    obtain ⟨hbelow, hspent⟩ := (runsFor_iff hword).1 hruns
    refine ⟨polls, hpolls, hq, hbelow, hq ▸ hspent, ?_⟩
    rintro last rfl
    obtain ⟨slot, hslot⟩ := hruns.exists_newJob
    rw [steps_concat] at hq
    have hstep : (steps device last p).2.step device = (.newJob slot, q) := Prod.ext hslot hq
    have hrecords := step_records (steps device last p).2 device
    have hreacts : ((steps device last p).2.step device).1.reacts = true := by rw [hslot]; rfl
    obtain ⟨-, hcurrent, -⟩ := of_reacts hreacts
    rw [hstep] at hrecords hcurrent
    refine ⟨slot, _, hstep, hcurrent, hrecords, ?_⟩
    rw [hrecords.passes, config_steps]
    rfl
  · rintro ⟨polls, hpolls, hq, hbelow, hspent, -⟩
    exact ⟨polls, hpolls, (runsFor_iff hword).2 ⟨hbelow, hq.symm ▸ hspent⟩, hq⟩

/-- With a period of 2⁶³ ms the task time of the second job exceeds 64 bits, and it uses up the
greatest time to measure. -/
theorem run_until_spent_saturated :
    let config : Config := { smallConfig 8 with runtimeMs := Text.maxWord64 }
    let periodMs := 0x8000000000000000
    ∃ p q, create 4096 config = .ok p ∧ p.config.runtimeMs ≤ Text.maxWord64 ∧ 0 < periodMs ∧
      p.run twoJobs periodMs 5 = .ok (some q) ∧ Text.maxWord64 < q.taskTime periodMs ∧
      ∃ slot samples, let before := (steps twoJobs 1 p).2
        before.taskTime periodMs < p.config.runtimeMs ∧
          before.step twoJobs = (.newJob slot, q) ∧
          Step.Records twoJobs before q (.newJob slot) samples ∧
          samples.map (·.kind.pass) = [.cold, .hot, .hot] := by
  intro config periodMs
  obtain ⟨p, h⟩ : ∃ p, create 4096 config = .ok p := exists_create (by decide +kernel)
  have hperiod : 0 < periodMs := by decide
  obtain ⟨hconfig, hnone, hone, htwo⟩ : p.config = config ∧ p.current.jobCount = 0 ∧
      (steps twoJobs 1 p).2.current.jobCount = 1 ∧ (steps twoJobs 2 p).2.current.jobCount = 2 := by
    obtain ⟨sets, hpos, rfl⟩ := create_ok h
    exact ⟨rfl, rfl, rfl, rfl⟩
  have hword : p.config.runtimeMs ≤ Text.maxWord64 :=
    Nat.le_of_eq (congrArg Config.runtimeMs hconfig)
  have hbelow : (steps twoJobs 1 p).2.taskTime periodMs < p.config.runtimeMs := by
    rw [taskTime, hone, hconfig]
    show (1 : UInt64).toNat * 0x8000000000000000 < Text.maxWord64
    decide +kernel
  have hspent : Text.maxWord64 < (steps twoJobs 2 p).2.taskTime periodMs := by
    rw [taskTime, htwo]
    show Text.maxWord64 < (2 : UInt64).toNat * 0x8000000000000000
    decide +kernel
  have hruns : RunsFor twoJobs periodMs 2 p := by
    refine (runsFor_iff hword).2 ⟨fun i hi => ?_, Nat.le_trans hword (Nat.le_of_lt hspent)⟩
    obtain rfl | rfl : i = 0 ∨ i = 1 := by omega
    · show p.taskTime periodMs < p.config.runtimeMs
      rw [taskTime, hnone, hconfig]
      show (0 : UInt64).toNat * 0x8000000000000000 < Text.maxWord64
      decide +kernel
    · exact hbelow
  obtain ⟨result, hrun, hresult⟩ := (run_until_spent p hword periodMs).2 hperiod twoJobs 5
  have hend : result = some (steps twoJobs 2 p).2 := by
    rw [← of_run_eq_ok hrun]
    exact pollWithin_eq_some_iff.2 ⟨2, by decide, hruns, rfl⟩
  obtain ⟨polls, -, hq, hbefore, hafter, hlast⟩ := (hresult _).1 hend
  obtain rfl := hruns.unique ((runsFor_iff hword).2 ⟨hbefore, hq.symm ▸ hafter⟩)
  obtain ⟨slot, samples, hstep, -, hrecords, hpasses⟩ := hlast 1 rfl
  rw [hconfig] at hpasses
  exact ⟨p, _, h, hword, hperiod, hend ▸ hrun, hspent, slot, samples, hbelow, hstep, hrecords,
    hpasses⟩

end CacheDelay.Probe

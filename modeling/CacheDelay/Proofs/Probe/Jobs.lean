import CacheDelay.Proofs.Probe.Log

/-!
# What a run records

A step records one sample for each pass that it times, and each sample carries the snapshot that the
step polled (`Step.Records`, `step_records`). Before the first job a run only waits; each job then
is a new-job step and the events and idle steps up to the next one (`exists_jobs_steps`). So the
samples of a run come in jobs: a cold sample, the hot samples and one sample an event
(`passes_steps`), and the running totals count them (`counts_steps`).
-/

namespace CacheDelay.Probe

open CacheDelay.Status CacheDelay.Trace

/-! ## Samples -/

/-- A sample that `now` triggered, where the page shows `after` right behind the pass. -/
structure IsSampleOf (now after : Snapshot) (sample : Sample) : Prop where
  cpu : sample.cpu = now.cpu
  jobCount : sample.jobCount = now.jobCount
  schedCount : sample.schedCount = now.schedCount
  lastTask : sample.lastTask = now.lastTask
  length : sample.length = if sample.kind.pass = .event then now.preemptionLength else 0
  valid_iff : sample.kind.valid = true ↔ after.jobCount = now.jobCount ∧
    after.schedCount = now.schedCount ∧ after.cpu = now.cpu

theorem sameWindow_iff {now after : Snapshot} :
    now.sameWindow after = true ↔ after.jobCount = now.jobCount ∧
      after.schedCount = now.schedCount ∧ after.cpu = now.cpu := by
  rw [Snapshot.sameWindow, Bool.and_eq_true, Bool.and_eq_true, beq_iff_eq, beq_iff_eq, beq_iff_eq,
    and_assoc, eq_comm, eq_comm (a := now.schedCount), eq_comm (a := now.cpu)]

theorem isSampleOf_timing (p : Probe) (device : Device) (j : Nat) {now : Snapshot} {pass : Pass}
    {length : UInt64} (h : length = if pass = .event then now.preemptionLength else 0) :
    IsSampleOf now (device.status (p.polls + j)) ((p.timing device j).sample now pass length) where
  cpu := rfl
  jobCount := rfl
  schedCount := rfl
  lastTask := rfl
  length := h
  valid_iff := sameWindow_iff

/-! ## Steps -/

/-- The passes that a step times, in order. -/
def Step.passes (hotReads : Nat) : Step → List Pass
  | .newJob _ => .cold :: List.replicate hotReads .hot
  | .event _ => [.event]
  | .waiting | .keepWarm => []

/-- A step that leads from `p` to `q` pushes `samples` to the ring, one for each pass, after one
snapshot for the step and with one for each pass. -/
structure Step.Records (device : Device) (p q : Probe) (step : Step) (samples : List Sample) :
    Prop where
  ring : q.ring = samples.foldl Ring.push p.ring
  polls : q.polls = p.polls + 1 + samples.length
  passes : samples.map (·.kind.pass) = step.passes p.config.hotReads
  shown : ∀ j sample, samples[j]? = some sample →
    IsSampleOf (device.status p.polls) (device.status (p.polls + 1 + j)) sample

/-- What a step does and how it is logged. -/
theorem step_entry_cases (p : Probe) (device : Device) :
    let now := device.status p.polls
    let polled := (p.poll device).2
    (p.step device = polled.startJob device now ∧
      p.entry device = .newJob now (polled.timing device 0)
        ((List.range p.config.hotReads).map fun j => polled.timing device (j + 1))) ∨
    (p.slot? = none ∧ p.step device = (.waiting, polled) ∧ p.entry device = .waiting now) ∨
    (∃ slot, p.slot? = some slot ∧ p.step device = polled.resume device slot now ∧
      p.entry device = .event now (polled.timing device 0)) ∨
    ∃ slot, p.slot? = some slot ∧ p.step device = (.keepWarm, polled.warm device slot) ∧
      p.entry device = .keepWarm now := by
  intro now polled
  rcases step_cases p device with ⟨-, h⟩ | ⟨-, hslot, h⟩ | ⟨slot, -, hslot, -, h⟩ |
    ⟨slot, -, hslot, -, -, h⟩
  · exact .inl ⟨h, by rw [entry, h]; rfl⟩
  · exact .inr (.inl ⟨hslot, h, by rw [entry, h]; rfl⟩)
  · exact .inr (.inr (.inl ⟨slot, hslot, h, by rw [entry, h]; rfl⟩))
  · exact .inr (.inr (.inr ⟨slot, hslot, h, by rw [entry, h]; rfl⟩))

theorem polls_recordHot (device : Device) (slot n : Nat) (p : Probe) :
    (recordHot device slot n p).polls = p.polls + n := by
  induction n generalizing p with
  | zero => rfl
  | succ n ih =>
    rw [recordHot, ih, Nat.add_comm n, ← Nat.add_assoc]
    rfl

theorem slot?_recordHot (device : Device) (slot n : Nat) (p : Probe) :
    (recordHot device slot n p).slot? = p.slot? := by
  induction n generalizing p with
  | zero => rfl
  | succ n ih => rw [recordHot, ih]; rfl

/-- A new job records its cold pass and the hot passes. -/
theorem startJob_records (p : Probe) (device : Device) :
    let now := device.status p.polls
    let polled := (p.poll device).2
    let samples := (Entry.newJob now (polled.timing device 0)
      ((List.range p.config.hotReads).map fun j => polled.timing device (j + 1))).samples
    (polled.startJob device now).2.polls = p.polls + 1 + samples.length ∧
      samples.map (·.kind.pass) = .cold :: List.replicate p.config.hotReads .hot ∧
      ∀ j sample, samples[j]? = some sample →
        IsSampleOf now (device.status (p.polls + 1 + j)) sample := by
  intro now polled samples
  have hsamples : samples = (polled.timing device 0).sample now .cold 0 ::
      (List.range p.config.hotReads).map fun j => (polled.timing device (j + 1)).sample now .hot 0 :=
    congrArg _ (List.map_map ..)
  refine ⟨?_, ?_, ?_⟩
  · rw [hsamples, List.length_cons, List.length_map, List.length_range, startJob, polls_recordHot]
    show p.polls + 1 + 1 + p.config.hotReads = _
    omega
  · rw [hsamples, List.map_cons, List.map_map]
    show .cold :: (List.range p.config.hotReads).map (fun _ => Pass.hot) = _
    rw [List.map_const', List.length_range]
  · rw [hsamples]
    rintro (_ | j) sample hsample
    · cases hsample
      exact isSampleOf_timing polled device 0 rfl
    · obtain ⟨hj, rfl⟩ := List.getElem?_eq_some_iff.1 hsample
      rw [List.getElem_cons_succ, List.getElem_map, List.getElem_range]
      exact isSampleOf_timing polled device (j + 1) rfl

/-- A step records the samples of its entry. -/
theorem step_records (p : Probe) (device : Device) :
    (p.step device).1.Records device p (p.step device).2 (p.entry device).samples := by
  have hring := ring_step p device
  rcases step_entry_cases p device with ⟨hstep, hentry⟩ | ⟨-, hstep, hentry⟩ |
    ⟨slot, -, hstep, hentry⟩ | ⟨slot, -, hstep, hentry⟩
  · obtain ⟨hpolls, hpasses, hshown⟩ := startJob_records p device
    rw [hstep, hentry] at hring ⊢
    exact ⟨hring, hpolls, hpasses, hshown⟩
  · rw [hstep, hentry] at hring ⊢
    exact ⟨hring, rfl, rfl, nofun⟩
  · rw [hstep, hentry] at hring ⊢
    refine ⟨hring, rfl, rfl, ?_⟩
    rintro (_ | j) sample hsample
    · cases hsample
      exact isSampleOf_timing (p.poll device).2 device 0 rfl
    · cases hsample
  · rw [hstep, hentry] at hring ⊢
    exact ⟨hring, rfl, rfl, nofun⟩

/-! ## Runs -/

theorem steps_succ (device : Device) (n : Nat) (p : Probe) :
    steps device (n + 1) p =
      ((p.step device).1 :: (steps device n (p.step device).2).1,
        (steps device n (p.step device).2).2) := rfl

theorem length_steps (device : Device) (n : Nat) (p : Probe) : (steps device n p).1.length = n := by
  induction n generalizing p with
  | zero => rfl
  | succ n ih => exact congrArg (· + 1) (ih (p.step device).2)

theorem length_log (device : Device) (n : Nat) (p : Probe) : (log device n p).length = n := by
  induction n generalizing p with
  | zero => rfl
  | succ n ih => exact congrArg (· + 1) (ih (p.step device).2)

/-- Every step of a run records the samples of its entry. -/
theorem records_of_getElem? {device : Device} {n i : Nat} {p : Probe} {step : Step} {entry : Entry}
    (hstep : (steps device n p).1[i]? = some step) (hentry : (log device n p)[i]? = some entry) :
    step.Records device (steps device i p).2 (steps device (i + 1) p).2 entry.samples := by
  induction n generalizing i p with
  | zero => cases hstep
  | succ n ih =>
    cases i with
    | zero =>
      cases hstep
      cases hentry
      exact step_records p device
    | succ i => exact ih (p := (p.step device).2) hstep hentry

/-- A run times the passes of its steps. -/
theorem passes_steps (device : Device) (n : Nat) (p : Probe) :
    (samplesOf (log device n p)).map (·.kind.pass) =
      (steps device n p).1.flatMap (Step.passes p.config.hotReads) := by
  induction n generalizing p with
  | zero => rfl
  | succ n ih =>
    rw [samplesOf, log, List.flatMap_cons, List.map_append, (step_records p device).passes]
    have hrest := ih (p.step device).2
    rw [config_step] at hrest
    exact congrArg (_ ++ ·) hrest

/-! ## Jobs -/

/-- Whether a step is an event. -/
def Step.isEvent : Step → Bool
  | .event _ => true
  | _ => false

/-- A step while a job runs. -/
def Step.DuringJob (step : Step) : Prop := step = .keepWarm ∨ ∃ kind, step = .event kind

/-- The steps of a job: the one that starts it on a slot, and those up to the next job. -/
structure JobSteps where
  slot : Nat
  rest : List Step
  during : ∀ step ∈ rest, step.DuringJob

namespace JobSteps

/-- The steps of a job in order. -/
def steps (job : JobSteps) : List Step := .newJob job.slot :: job.rest

/-- The passes of a job: a cold one, the hot ones, and one for each event. -/
def passes (hotReads : Nat) (job : JobSteps) : List Pass :=
  .cold :: (List.replicate hotReads .hot ++ List.replicate (job.rest.countP Step.isEvent) .event)

end JobSteps

/-- The steps while a job runs time one pass for each event. -/
theorem flatMap_passes_of_during {rest : List Step} (h : ∀ step ∈ rest, step.DuringJob)
    (hotReads : Nat) :
    rest.flatMap (Step.passes hotReads) =
      List.replicate (rest.countP Step.isEvent) .event := by
  induction rest with
  | nil => rfl
  | cons step rest ih =>
    rw [List.flatMap_cons, ih fun step hmem => h step (List.mem_cons_of_mem _ hmem)]
    rcases h step List.mem_cons_self with rfl | ⟨kind, rfl⟩
    · rw [List.countP_cons_of_neg (by decide)]
      rfl
    · rw [List.countP_cons_of_pos rfl]
      rfl

theorem JobSteps.flatMap_passes (job : JobSteps) (hotReads : Nat) :
    job.steps.flatMap (Step.passes hotReads) = job.passes hotReads := by
  rw [JobSteps.steps, List.flatMap_cons, flatMap_passes_of_during job.during]
  rfl

theorem slot?_startJob (p : Probe) (device : Device) (now : Snapshot) :
    (p.startJob device now).2.slot? = some (now.jobCount.toNat % p.sets.count) := by
  rw [startJob, slot?_recordHot]
  rfl

theorem slot?_resume (p : Probe) (device : Device) (slot : Nat) (now : Snapshot) :
    (p.resume device slot now).2.slot? = p.slot? := rfl

theorem during_resume (p : Probe) (device : Device) (slot : Nat) (now : Snapshot) :
    (p.resume device slot now).1.DuringJob := .inr ⟨_, rfl⟩

theorem slot?_warm (p : Probe) (device : Device) (slot : Nat) :
    (p.warm device slot).slot? = p.slot? := by
  rw [warm]

/-- What a step reports and whether a job is running then. -/
theorem slot?_step_cases (p : Probe) (device : Device) :
    (∃ slot, (p.step device).1 = .newJob slot ∧ (p.step device).2.slot? = some slot) ∨
    (p.slot? = none ∧ (p.step device).1 = .waiting ∧ (p.step device).2.slot? = none) ∨
    ∃ slot, p.slot? = some slot ∧ (p.step device).1.DuringJob ∧
      (p.step device).2.slot? = some slot := by
  have hpoll : (p.poll device).2.slot? = p.slot? := rfl
  rcases step_cases p device with ⟨-, h⟩ | ⟨-, hslot, h⟩ | ⟨slot, -, hslot, -, h⟩ |
    ⟨slot, -, hslot, -, -, h⟩
  · rw [h]
    exact .inl ⟨_, rfl, slot?_startJob ..⟩
  · rw [h]
    exact .inr (.inl ⟨hslot, rfl, hpoll.trans hslot⟩)
  · rw [h]
    refine .inr (.inr ⟨slot, hslot, during_resume .., ?_⟩)
    rw [slot?_resume, hpoll, hslot]
  · rw [h]
    refine .inr (.inr ⟨slot, hslot, .inl rfl, ?_⟩)
    rw [slot?_warm, hpoll, hslot]

/-- Once a job is running, a run finishes its steps and goes on with other jobs. -/
theorem exists_jobs_steps_of_slot {p : Probe} {slot : Nat} (h : p.slot? = some slot)
    (device : Device) (n : Nat) :
    ∃ rest, ∃ jobs : List JobSteps, (∀ step ∈ rest, step.DuringJob) ∧
      (steps device n p).1 = rest ++ jobs.flatMap JobSteps.steps := by
  induction n generalizing p slot with
  | zero => exact ⟨[], [], nofun, rfl⟩
  | succ n ih =>
    rw [steps_succ]
    rcases slot?_step_cases p device with ⟨next, hstep, hnext⟩ | ⟨hnone, -⟩ |
      ⟨slot', -, hduring, hnext⟩
    · -- the steps that finish the new job are its own
      obtain ⟨rest, jobs, hrest, hsteps⟩ := ih hnext
      refine ⟨[], ⟨next, rest, hrest⟩ :: jobs, nofun, ?_⟩
      rw [List.flatMap_cons, hstep, hsteps]
      rfl
    · rw [h] at hnone
      cases hnone
    · obtain ⟨rest, jobs, hrest, hsteps⟩ := ih hnext
      refine ⟨(p.step device).1 :: rest, jobs, ?_, by rw [hsteps]; rfl⟩
      exact List.forall_mem_cons.2 ⟨hduring, hrest⟩

/-- A run that begins without a job waits, and goes on with jobs. -/
theorem exists_jobs_steps {p : Probe} (h : p.slot? = none) (device : Device) (n : Nat) :
    ∃ waits, ∃ jobs : List JobSteps,
      (steps device n p).1 = List.replicate waits .waiting ++ jobs.flatMap JobSteps.steps := by
  induction n generalizing p with
  | zero => exact ⟨0, [], rfl⟩
  | succ n ih =>
    rw [steps_succ]
    rcases slot?_step_cases p device with ⟨next, hstep, hnext⟩ | ⟨-, hstep, hnext⟩ |
      ⟨slot, hslot, -⟩
    · obtain ⟨rest, jobs, hrest, hsteps⟩ := exists_jobs_steps_of_slot hnext device n
      refine ⟨0, ⟨next, rest, hrest⟩ :: jobs, ?_⟩
      rw [List.flatMap_cons, hstep, hsteps]
      rfl
    · obtain ⟨waits, jobs, hsteps⟩ := ih hnext
      refine ⟨waits + 1, jobs, ?_⟩
      rw [hstep, hsteps]
      rfl
    · rw [h] at hslot
      cases hslot

/-! ## Totals -/

/-- The totals after more steps, which recorded `samples`. -/
def Counts.add (c : Counts) (steps : List Step) (samples : List Sample) : Counts where
  jobs := c.jobs + .ofNat (samples.countP (·.kind.pass = .cold))
  events := c.events + .ofNat (samples.countP (·.kind.pass = .event))
  suspect := c.suspect + .ofNat (samples.countP (!·.kind.valid))
  keepWarm := c.keepWarm + .ofNat (steps.count .keepWarm)

theorem Counts.add_append (c : Counts) (steps rest : List Step) (samples more : List Sample) :
    c.add (steps ++ rest) (samples ++ more) = (c.add steps samples).add rest more := by
  simp only [Counts.add, List.countP_append, List.count_append, UInt64.ofNat_add, UInt64.add_assoc]

/-- The totals after one more sample. -/
def Counts.record (c : Counts) (sample : Sample) : Counts :=
  { c with suspect := c.suspect + if sample.kind.valid then 0 else 1 }

theorem foldl_record (c : Counts) (samples : List Sample) :
    samples.foldl Counts.record c =
      { c with suspect := c.suspect + .ofNat (samples.countP (!·.kind.valid)) } := by
  induction samples generalizing c with
  | nil => simp
  | cons sample samples ih =>
    rw [List.foldl_cons, ih, List.countP_cons, Counts.record]
    cases sample.kind.valid with
    | true => simp
    | false => simp [UInt64.ofNat_add, UInt64.add_assoc, UInt64.add_comm]

theorem counts_record (p : Probe) (device : Device) (slot : Nat) (pass : Pass) (length : UInt64) :
    (p.record device slot pass length).2.counts =
      p.counts.record ((p.timing device 0).sample p.current pass length) := rfl

theorem counts_recordHot (device : Device) (slot n : Nat) (p : Probe) :
    (recordHot device slot n p).counts =
      ((List.range n).map fun j => (p.timing device j).sample p.current .hot 0).foldl
        Counts.record p.counts := by
  induction n generalizing p with
  | zero => rfl
  | succ n ih =>
    rw [recordHot, ih, List.range_succ_eq_map, List.map_cons, List.foldl_cons, List.map_map,
      counts_record]
    simp only [timing_record]
    rfl

/-- Samples of a kind of pass, counted by their passes. -/
theorem countP_pass {samples : List Sample} {passes : List Pass}
    (h : samples.map (·.kind.pass) = passes) (pass : Pass) :
    samples.countP (·.kind.pass = pass) = passes.count pass := by
  rw [← h, List.count, List.countP_map]
  rfl

/-- The totals once a step is under way. -/
def Counts.start (c : Counts) : Step → Counts
  | .waiting => c
  | .newJob _ => { c with jobs := c.jobs + 1 }
  | .event _ => { c with events := c.events + 1 }
  | .keepWarm => { c with keepWarm := c.keepWarm + 1 }

theorem foldl_record_start {step : Step} {samples : List Sample} {hotReads : Nat}
    (h : samples.map (·.kind.pass) = step.passes hotReads) (c : Counts) :
    samples.foldl Counts.record (c.start step) = c.add [step] samples := by
  rw [foldl_record, Counts.add, countP_pass h, countP_pass h]
  cases step <;> simp [Counts.start, Step.passes, List.count_replicate]

/-- A step counts itself and its samples. -/
theorem counts_step (p : Probe) (device : Device) :
    (p.step device).2.counts = p.counts.add [(p.step device).1] (p.entry device).samples := by
  rw [← foldl_record_start (step_records p device).passes]
  rcases step_entry_cases p device with ⟨hstep, hentry⟩ | ⟨-, hstep, hentry⟩ |
    ⟨slot, -, hstep, hentry⟩ | ⟨slot, -, hstep, hentry⟩
  · rw [hstep, hentry, Entry.samples, List.foldl_cons, List.map_map, startJob]
    simp only [counts_recordHot, timing_record]
    rfl
  · rw [hstep, hentry]
    rfl
  · rw [hstep, hentry]
    rfl
  · rw [hstep, hentry, warm]
    rfl

/-- A run counts its steps and their samples. -/
theorem counts_steps (device : Device) (n : Nat) (p : Probe) :
    (steps device n p).2.counts =
      p.counts.add (steps device n p).1 (samplesOf (log device n p)) := by
  induction n generalizing p with
  | zero => simp [steps, log, samplesOf, Counts.add]
  | succ n ih =>
    rw [steps_succ, samplesOf, log, List.flatMap_cons, ← List.singleton_append, Counts.add_append,
      ← counts_step]
    exact ih (p.step device).2

/-! ## From the first poll -/

/-- A device that shows a job from the second reading on, which is preempted while its last hot pass
is timed. -/
def preemptedJob : Device :=
  .playing (.zero :: List.replicate 3 ⟨1, 1, 0, 7, 0, 0⟩ ++ List.replicate 4 ⟨1, 2, 1, 7, 100, 150⟩)
    [0, 90, 100, 140, 200, 230, 300, 420]

/-- The samples of a run are pushed to its ring in order. Each step reads one snapshot and records
one sample a pass, with the snapshot that it read. The run waits until the first job; each job then
has a cold sample, the hot samples that the configuration asks for, and one sample for each event
before the next job. The totals are the numbers of cold, event and suspect samples and of idle
steps, modulo 2⁶⁴. -/
theorem jobs_of_run {available : Nat} {config : Config} {p : Probe}
    (h : create available config = .ok p) (device : Device) (n : Nat) :
    let run := steps device n p
    let entries := log device n p
    let samples := samplesOf entries
    run.1.length = n ∧ entries.length = n ∧
      (∀ (i : Nat) (step : Step) (entry : Entry), run.1[i]? = some step →
        entries[i]? = some entry →
        step.Records device (steps device i p).2 (steps device (i + 1) p).2 entry.samples) ∧
      p.ring.toList = [] ∧ run.2.ring = samples.foldl Ring.push p.ring ∧
      (∃ waits, ∃ jobs : List JobSteps,
        run.1 = List.replicate waits .waiting ++ jobs.flatMap JobSteps.steps ∧
        samples.map (·.kind.pass) = jobs.flatMap (JobSteps.passes config.hotReads)) ∧
      run.2.counts.jobs = .ofNat (samples.countP (·.kind.pass = .cold)) ∧
      run.2.counts.events = .ofNat (samples.countP (·.kind.pass = .event)) ∧
      run.2.counts.suspect = .ofNat (samples.countP (!·.kind.valid)) ∧
      run.2.counts.keepWarm = .ofNat (run.1.count .keepWarm) := by
  intro run entries samples
  obtain ⟨sets, hpos, hp⟩ := create_ok h
  have hconfig : p.config = config := by rw [hp]
  have hslot : p.slot? = none := by rw [hp]
  have hring : p.ring.toList = [] := by rw [hp]; exact Ring.toList_empty hpos
  have hzero : p.counts = ⟨0, 0, 0, 0⟩ := by rw [hp]
  have hcounts : run.2.counts = (⟨0, 0, 0, 0⟩ : Counts).add run.1 samples :=
    hzero ▸ counts_steps device n p
  obtain ⟨waits, jobs, hjobs⟩ := exists_jobs_steps hslot device n
  have hpasses : samples.map (·.kind.pass) = jobs.flatMap (JobSteps.passes config.hotReads) := by
    have hwaits : (List.replicate waits .waiting).flatMap (Step.passes config.hotReads) = [] :=
      List.flatMap_eq_nil_iff.2 fun step hmem => List.eq_of_mem_replicate hmem ▸ rfl
    rw [passes_steps, hjobs, hconfig, List.flatMap_append, hwaits, List.nil_append,
      List.flatMap_assoc]
    simp only [JobSteps.flatMap_passes]
  refine ⟨length_steps .., length_log .., fun i step entry => records_of_getElem?, hring,
    ring_steps .., ⟨waits, jobs, hjobs, hpasses⟩, ?_⟩
  rw [hcounts]
  simp only [Counts.add, UInt64.zero_add, and_self]

/-- Four polls of `preemptedJob`: one waits, one starts the job, one sees the preemption, and one is
idle. The last hot pass is suspect. -/
theorem jobs_of_preemptedJob :
    ∃ p, create 4096 (smallConfig 8) = .ok p ∧
      (samplesOf (log preemptedJob 4 p)).map (·.kind) =
        [⟨.cold, true⟩, ⟨.hot, true⟩, ⟨.hot, false⟩, ⟨.event, true⟩] ∧
      (steps preemptedJob 4 p).2.counts.jobs = 1 ∧
      (steps preemptedJob 4 p).2.counts.events = 1 ∧
      (steps preemptedJob 4 p).2.counts.suspect = 1 ∧
      (steps preemptedJob 4 p).2.counts.keepWarm = 1 := by
  obtain ⟨p, h⟩ : ∃ p, create 4096 (smallConfig 8) = .ok p := exists_create (by decide +kernel)
  obtain ⟨-, -, -, -, -, -, hjobs, hevents, hsuspect, hidle⟩ := jobs_of_run h preemptedJob 4
  have hkinds : (samplesOf (log preemptedJob 4 p)).map (·.kind) =
      [⟨.cold, true⟩, ⟨.hot, true⟩, ⟨.hot, false⟩, ⟨.event, true⟩] ∧
      (steps preemptedJob 4 p).1.count .keepWarm = 1 := by
    obtain ⟨sets, hpos, rfl⟩ := create_ok h
    exact ⟨rfl, rfl⟩
  have hcount (f : AccessKind → Bool) :
      (samplesOf (log preemptedJob 4 p)).countP (fun sample => f sample.kind) =
        [⟨.cold, true⟩, ⟨.hot, true⟩, ⟨.hot, false⟩, ⟨.event, true⟩].countP f := by
    rw [← hkinds.1, List.countP_map]
    rfl
  refine ⟨p, h, hkinds.1, ?_, ?_, ?_, ?_⟩
  · exact hjobs.trans (congrArg _ (hcount fun kind => kind.pass = .cold))
  · exact hevents.trans (congrArg _ (hcount fun kind => kind.pass = .event))
  · exact hsuspect.trans (congrArg _ (hcount fun kind => !kind.valid))
  · exact hidle.trans (congrArg _ hkinds.2)

end CacheDelay.Probe

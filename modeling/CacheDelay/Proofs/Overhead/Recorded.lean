import CacheDelay.Proofs.Overhead.Extraction
import CacheDelay.Proofs.Probe.Log

/-!
# The overheads of a recorded run

The hot records of a log are the hot passes of its jobs (`hots_recordsOf`), each job's a window of
its own (`heldBaseline?_recordsOf`), so that a replay of the whole log measures each event against
the hot passes of its own job (`collect_recordsOf`). If the ring had room for all samples, this is
what an extraction gives (`overheads_of_run`).
-/

namespace CacheDelay.Probe

open CacheDelay.Overhead CacheDelay.Status CacheDelay.Trace

/-- The records of the samples of a log. -/
def recordsOf (log : List Entry) : List Record := (samplesOf log).map Sample.record

theorem recordsOf_append (log rest : List Entry) :
    recordsOf (log ++ rest) = recordsOf log ++ recordsOf rest := by
  rw [recordsOf, samplesOf, List.flatMap_append, List.map_append]; rfl

theorem recordsOf_cons (entry : Entry) (log : List Entry) :
    recordsOf (entry :: log) = entry.samples.map Sample.record ++ recordsOf log := by
  rw [recordsOf, samplesOf, List.flatMap_cons, List.map_append]; rfl

/-! ## Overheads of a log -/

/-- The job that a step starts: the snapshot that showed it and its hot passes. -/
def Entry.job? : Entry → Option (Snapshot × List Timing)
  | .newJob now _ hot => some (now, hot)
  | _ => none

/-- The snapshot that triggered the samples of a step. -/
def Entry.trigger? : Entry → Option Snapshot
  | .newJob now _ _ | .event now _ => some now
  | _ => none

/-- The least time of the hot passes of a job before the first suspect one. -/
def warmTime? (now : Snapshot) (hot : List Timing) : Option UInt64 :=
  ((hot.takeWhile fun t => now.sameWindow t.after).map (·.elapsed)).min?

/-- The overhead of a valid event after the steps `earlier`, if its job began with a valid hot
pass. -/
def eventOverhead? (earlier : List Entry) : Entry → Option Overhead.Sample
  | .event now timing => do
    guard (now.sameWindow timing.after)
    let (job, hot) ← (earlier.filterMap Entry.job?).getLast?
    let warm ← warmTime? job hot
    let last ← (earlier.filterMap Entry.trigger?).getLast?
    pure {
      currentCpu := now.cpu
      lastCpu := last.cpu
      overhead := (timing.elapsed - warm).toInt64
      length := (now.preemptEnd - now.preemptStart).toInt64 }
  | _ => none

/-! ## Hot records -/

/-- The records of the hot passes of a job. -/
def hotRecords (now : Snapshot) (hot : List Timing) : List Record :=
  hot.map fun t => (t.sample now .hot 0).record

theorem isOneOf_sample (t : Timing) (now : Snapshot) (pass : Pass) (length : UInt64)
    (letters : List Char) :
    (t.sample now pass length).record.isOneOf letters =
      (letters.map Char.toUInt8).contains (AccessKind.code ⟨pass, now.sameWindow t.after⟩) := rfl

theorem isHot_sample (t : Timing) (now : Snapshot) (pass : Pass) (length : UInt64) :
    (t.sample now pass length).record.isOneOf ['H', 'h'] = decide (pass = .hot) := by
  rw [isOneOf_sample]
  cases pass <;> cases now.sameWindow t.after <;> rfl

theorem isMeasured_sample (t : Timing) (now : Snapshot) (pass : Pass) (length : UInt64) :
    (t.sample now pass length).record.isOneOf ['H', 'h', 'P', 'p'] = decide (pass ≠ .cold) := by
  rw [isOneOf_sample]
  cases pass <;> cases now.sameWindow t.after <;> rfl

theorem isValidEvent_sample (t : Timing) (now : Snapshot) (pass : Pass) (length : UInt64) :
    (t.sample now pass length).record.isOneOf ['P'] =
      (decide (pass = .event) && now.sameWindow t.after) := by
  rw [isOneOf_sample]
  cases pass <;> cases now.sameWindow t.after <;> rfl

theorem leastCost?_hotRecords (now : Snapshot) (hot : List Timing) :
    leastCost? (hotRecords now hot) = warmTime? now hot := by
  have hvalid : (fun t : Timing => (t.sample now .hot 0).record.isOneOf ['H']) =
      fun t => now.sameWindow t.after := by
    funext t
    rw [isOneOf_sample]
    cases now.sameWindow t.after <;> rfl
  rw [leastCost?, leadingCosts, hotRecords, List.takeWhile_map, List.map_map, warmTime?, ← hvalid]
  rfl

/-- A step records the hot passes of the job that it starts. -/
theorem hots_samples (entry : Entry) :
    hots (entry.samples.map Sample.record) =
      (entry.job?.map fun job => hotRecords job.1 job.2).getD [] := by
  cases entry with
  | waiting now => rfl
  | keepWarm now => rfl
  | event now timing =>
    rw [Entry.samples, List.map_singleton, hots, List.filter_cons, isHot_sample]
    rfl
  | newJob now cold hot =>
    have hhot : ∀ record ∈ hotRecords now hot, record.isOneOf ['H', 'h'] = true := by
      intro record hmem
      obtain ⟨t, -, rfl⟩ := List.mem_map.1 hmem
      rw [isHot_sample]; rfl
    rw [Entry.samples, List.map_cons, List.map_map, hots, List.filter_cons, isHot_sample]
    exact List.filter_eq_self.2 hhot

/-- The hot records of a log are the hot passes of its jobs. -/
theorem hots_recordsOf (log : List Entry) :
    hots (recordsOf log) =
      ((log.filterMap Entry.job?).map fun job => hotRecords job.1 job.2).flatten := by
  induction log with
  | nil => rfl
  | cons entry log ih =>
    rw [recordsOf_cons, hots_append, hots_samples, ih, List.filterMap_cons]
    cases entry.job? <;> rfl

/-- A log whose jobs have `w` hot passes each. -/
def JobsOf (w : Nat) (log : List Entry) : Prop :=
  ∀ job ∈ log.filterMap Entry.job?, job.2.length = w

theorem jobsOf_append {w : Nat} {log rest : List Entry} :
    JobsOf w (log ++ rest) ↔ JobsOf w log ∧ JobsOf w rest := by
  simp only [JobsOf, List.filterMap_append, List.forall_mem_append]

theorem JobsOf.length_hotRecords {w : Nat} {log : List Entry} (h : JobsOf w log) :
    ∀ window ∈ (log.filterMap Entry.job?).map fun job => hotRecords job.1 job.2,
      window.length = w := by
  intro window hmem
  obtain ⟨job, hjob, rfl⟩ := List.mem_map.1 hmem
  rw [hotRecords, List.length_map]; exact h job hjob

/-- Whole jobs leave no window in progress. -/
theorem openWindow_recordsOf {w : Nat} (hw : 0 < w) {log : List Entry} (h : JobsOf w log) :
    openWindow w (recordsOf log) = [] := by
  rw [openWindow, hots_recordsOf, leftover_flatten hw h.length_hotRecords]

/-- After whole jobs the baseline is that of the last one. -/
theorem heldBaseline?_recordsOf {w : Nat} (hw : 0 < w) {log : List Entry} (h : JobsOf w log) :
    heldBaseline? w (recordsOf log) =
      ((log.filterMap Entry.job?).getLast?).bind fun job => warmTime? job.1 job.2 := by
  rw [heldBaseline?, openWindow_recordsOf hw h, closedBaseline?, lastWindow?, hots_recordsOf,
    wholeBlocks_flatten hw h.length_hotRecords, List.getLast?_map, Option.bind_map]
  simp only [Function.comp_def, leastCost?_hotRecords]
  exact Option.map_id' ..

/-! ## CPUs -/

/-- The last CPU of the samples of a step is that of its trigger. -/
theorem lastCpu?_samples {w : Nat} (hw : 0 < w) {entry : Entry} (h : JobsOf w [entry]) :
    lastCpu? (entry.samples.map Sample.record) = entry.trigger?.map (·.cpu) := by
  cases entry with
  | waiting now => rfl
  | keepWarm now => rfl
  | event now timing =>
    rw [Entry.samples, List.map_singleton, ← List.nil_append [_], lastCpu?_concat,
      isMeasured_sample]
    rfl
  | newJob now cold hot =>
    have hlen : hot.length = w := h (now, hot) (by simp [Entry.job?])
    obtain ⟨init, last, rfl⟩ : ∃ init last, hot = init ++ [last] := by
      cases List.eq_nil_or_concat' hot with
      | inl hnil => rw [hnil, List.length_nil] at hlen; omega
      | inr hconcat => exact hconcat
    rw [Entry.samples, List.map_cons, List.map_append, List.map_append, ← List.cons_append,
      List.map_singleton, List.map_singleton, lastCpu?_concat, isMeasured_sample]
    rfl

theorem lastCpu?_recordsOf {w : Nat} (hw : 0 < w) {log : List Entry} (h : JobsOf w log) :
    lastCpu? (recordsOf log) = ((log.filterMap Entry.trigger?).getLast?).map (·.cpu) := by
  induction log using List.reverseRecOn with
  | nil => rfl
  | append_singleton log entry ih =>
    obtain ⟨hlog, hentry⟩ := jobsOf_append.1 h
    rw [recordsOf_append, lastCpu?_append, ih hlog, recordsOf_cons, List.filterMap_append,
      List.getLast?_append, Option.map_or]
    congr 1
    have hnil : recordsOf [] = [] := rfl
    rw [hnil, List.append_nil, lastCpu?_samples hw hentry, List.filterMap_cons]
    cases entry.trigger? <;> rfl

/-! ## Events -/

/-- A step that starts a job triggers samples. -/
theorem exists_trigger {log : List Entry} {job : Snapshot × List Timing}
    (h : (log.filterMap Entry.job?).getLast? = some job) :
    ∃ last, (log.filterMap Entry.trigger?).getLast? = some last := by
  obtain ⟨entry, hmem, hjob⟩ := List.mem_filterMap.1 (List.mem_of_getLast? h)
  have htrigger : ∃ now, entry.trigger? = some now := by
    cases entry <;> first | exact ⟨_, rfl⟩ | cases hjob
  obtain ⟨now, hnow⟩ := htrigger
  have hne : log.filterMap Entry.trigger? ≠ [] :=
    List.ne_nil_of_mem (List.mem_filterMap.2 ⟨entry, hmem, hnow⟩)
  exact ⟨_, List.getLast?_eq_some_getLast hne⟩

/-- An event in a trace of whole jobs yields the overhead of its entry. -/
theorem overheadAfter?_event {w : Nat} (hw : 0 < w) {log : List Entry} (h : JobsOf w log)
    (now : Snapshot) (timing : Timing) :
    overheadAfter? w (recordsOf log)
        (timing.sample now .event (now.preemptEnd - now.preemptStart)).record =
      eventOverhead? log (.event now timing) := by
  rw [overheadAfter?_eq hw, isValidEvent_sample, heldBaseline?_recordsOf hw h,
    lastCpu?_recordsOf hw h, eventOverhead?]
  cases hvalid : now.sameWindow timing.after with
  | false => rfl
  | true =>
    cases hjob : (log.filterMap Entry.job?).getLast? with
    | none => rfl
    | some job =>
      obtain ⟨last, hlast⟩ := exists_trigger hjob
      rw [Option.bind_some, hlast]
      show _ = (warmTime? job.1 job.2).bind _
      cases warmTime? job.1 job.2 <;> rfl

/-- A replay of a log of whole jobs measures each event against its own job. -/
theorem collect_recordsOf {w : Nat} (hw : 0 < w) {log : List Entry} (h : JobsOf w log) :
    collect (overheadAfter? w) (recordsOf log) = collect eventOverhead? log := by
  induction log using List.reverseRecOn with
  | nil => rfl
  | append_singleton log entry ih =>
    obtain ⟨hlog, -⟩ := jobsOf_append.1 h
    have hnil : recordsOf [] = [] := rfl
    -- only a valid event yields an overhead, and only an event step records one
    have idle (hrecords : ∀ sample ∈ entry.samples, sample.record.isOneOf ['P'] = false) :
        collect (overheadAfter? w) (recordsOf log ++ entry.samples.map Sample.record) =
          collect (overheadAfter? w) (recordsOf log) := by
      refine collect_append_of_none _ fun record hmem earlier => ?_
      obtain ⟨sample, hsample, rfl⟩ := List.mem_map.1 hmem
      rw [overheadAfter?_eq hw, hrecords sample hsample]
      rfl
    rw [recordsOf_append, recordsOf_cons, hnil, List.append_nil, collect_concat, ← ih hlog]
    cases entry with
    | waiting now =>
      exact (idle fun _ hmem => absurd hmem List.not_mem_nil).trans (List.append_nil _).symm
    | keepWarm now =>
      exact (idle fun _ hmem => absurd hmem List.not_mem_nil).trans (List.append_nil _).symm
    | event now timing =>
      rw [← overheadAfter?_event hw hlog]
      exact collect_concat ..
    | newJob now cold hot =>
      refine (idle fun sample hmem => ?_).trans (List.append_nil _).symm
      rcases List.mem_cons.1 hmem with rfl | hmem
      · rw [isValidEvent_sample]; rfl
      · obtain ⟨t, -, rfl⟩ := List.mem_map.1 hmem
        rw [isValidEvent_sample]; rfl

/-! ## Runs -/

theorem jobsOf_log {available : Nat} {config : Config} {p : Probe}
    (h : create available config = .ok p) (device : Device) (n : Nat) :
    JobsOf config.hotReads (log device n p) := by
  obtain ⟨sets, hpos, rfl⟩ := create_ok h
  intro job hjob
  obtain ⟨entry, hmem, hentry⟩ := List.mem_filterMap.1 hjob
  cases entry with
  | newJob now cold hot =>
    cases hentry
    exact length_hot_of_mem_log hmem
  | _ => cases hentry

/-- The step of `twoJobs` that starts the first job. -/
def firstJob : Entry :=
  .newJob ⟨1, 1, 0, 0, 0, 0⟩ ⟨0, 900, ⟨1, 1, 0, 0, 0, 0⟩⟩
    [⟨1000, 1500, ⟨1, 1, 0, 0, 0, 0⟩⟩, ⟨2000, 2400, ⟨1, 1, 0, 0, 0, 0⟩⟩]

/-- The step of `twoJobs` that starts the second job. -/
def secondJob : Entry :=
  .newJob ⟨2, 2, 0, 0, 0, 0⟩ ⟨3000, 3900, ⟨2, 2, 0, 0, 0, 0⟩⟩
    [⟨4000, 4100, ⟨2, 2, 0, 0, 0, 0⟩⟩, ⟨5000, 5300, ⟨2, 2, 0, 0, 0, 0⟩⟩]

/-- The step of `twoJobs` that sees the migration. -/
def migration : Entry :=
  .event ⟨2, 3, 1, 0, 1000, 1500⟩ ⟨6000, 7000, ⟨2, 3, 1, 0, 1000, 1500⟩⟩

theorem log_twoJobs {available capacity : Nat} {p : Probe}
    (h : create available (smallConfig capacity) = .ok p) :
    log twoJobs 3 p = [firstJob, secondJob, migration] := by
  obtain ⟨sets, hpos, rfl⟩ := create_ok h
  rfl

/-- If the ring has room for all samples of a run, the extraction of what it keeps gives, in order,
the overhead of each valid event whose job began with a valid hot pass. -/
theorem overheads_of_run {available : Nat} {config : Config} {p : Probe}
    (h : create available config = .ok p) (hhot : 1 ≤ config.hotReads) (device : Device) (n : Nat)
    (hfit : (samplesOf (log device n p)).length ≤ config.capacity) :
    (steps device n p).2.samples = samplesOf (log device n p) ∧
    (Extraction.ofRecords ((steps device n p).2.samples.map Sample.record)
      config.hotReads).overheads = collect eventOverhead? (log device n p) := by
  have hsamples : (steps device n p).2.samples = samplesOf (log device n p) := by
    rw [samples_steps h, Nat.sub_eq_zero_of_le hfit, List.drop_zero]
  refine ⟨hsamples, ?_⟩
  rw [hsamples, ← collect_recordsOf hhot (jobsOf_log h device n)]
  show (Replay.start config.hotReads).overheads (recordsOf (log device n p)) = _
  rw [Replay.overheads_eq_collect, Nat.max_eq_left hhot]

/-- The migration is measured against the hot passes of 100 and 300 cycles of its own job. -/
theorem overheads_of_twoJobs :
    ∃ p, create 4096 (smallConfig 7) = .ok p ∧ 1 ≤ (smallConfig 7).hotReads ∧
      (samplesOf (log twoJobs 3 p)).length ≤ (smallConfig 7).capacity ∧
      (Extraction.ofRecords ((steps twoJobs 3 p).2.samples.map Sample.record)
        (smallConfig 7).hotReads).overheads = [⟨1, 0, 900, 500⟩] := by
  obtain ⟨p, h⟩ : ∃ p, create 4096 (smallConfig 7) = .ok p := exists_create (by decide +kernel)
  have hfit : (samplesOf (log twoJobs 3 p)).length ≤ (smallConfig 7).capacity := by
    rw [log_twoJobs h]; decide
  refine ⟨p, h, by decide, hfit, ?_⟩
  rw [(overheads_of_run h (by decide) twoJobs 3 hfit).2, log_twoJobs h]
  decide

end CacheDelay.Probe

import CacheDelay.Proofs.Overhead.Recorded
import CacheDelay.Proofs.Probe.Jobs

/-!
# Runs appended to one trace

A replay that reaches the end of a run still holds the baseline, the least cost and the CPU that
the run left. If the run ends with a whole window, none of them reaches the next run: the windows of
both are those of each (`lastWindow?_append`, `openWindow_append`), and an event after a whole
window of its own run is measured as if that run stood alone (`overheadAfter?_append`). An
extraction of runs that are all `Covered` is therefore the extractions of the runs, one after the
other (`extraction_append`). The whole log of a probe is such a run (`extraction_of_logs`).
-/

namespace CacheDelay.Overhead

open CacheDelay.Trace

variable {w : Nat} {run rest : List Record}

/-- Before each event of a run, the run itself has at least `w` hot records. -/
def Covered (w : Nat) (run : List Record) : Prop :=
  ∀ earlier event later, run = earlier ++ event :: later → event.isOneOf ['P', 'p'] →
    w ≤ (hots earlier).length

/-! ## Windows of two runs -/

/-- The last complete window is one of the second run, if that has any. -/
theorem lastWindow?_append (hw : 0 < w) (hwhole : w ∣ (hots run).length) (rest : List Record) :
    lastWindow? w (run ++ rest) = (lastWindow? w rest).or (lastWindow? w run) := by
  rw [lastWindow?, hots_append, wholeBlocks_append hw hwhole, List.getLast?_append]
  rfl

theorem openWindow_append (hw : 0 < w) (hwhole : w ∣ (hots run).length) (rest : List Record) :
    openWindow w (run ++ rest) = openWindow w rest := by
  rw [openWindow, hots_append, leftover_append hw hwhole]
  rfl

/-- A window that the second run completes takes the place of all that the first one left. -/
theorem heldBaseline?_append (hw : 0 < w) (hwhole : w ∣ (hots run).length)
    (hcovered : w ≤ (hots rest).length) :
    heldBaseline? w (run ++ rest) = heldBaseline? w rest := by
  have hlast := lastWindow?_isSome hw rest
  rw [decide_eq_true hcovered] at hlast
  rw [heldBaseline?, heldBaseline?, closedBaseline?, closedBaseline?, lastWindow?_append hw hwhole,
    Option.or_of_isSome hlast, openWindow_append hw hwhole]

/-- A run with a hot record has a last CPU of its own. -/
theorem lastCpu?_isSome (h : 0 < (hots rest).length) : (lastCpu? rest).isSome := by
  obtain ⟨record, hmem⟩ := List.exists_mem_of_length_pos h
  obtain ⟨hrecord, hhot⟩ := List.mem_filter.1 hmem
  have hmeasured : record.isOneOf ['H', 'h', 'P', 'p'] := by
    simp only [Record.isOneOf, List.contains_eq_mem, decide_eq_true_eq] at hhot ⊢
    exact List.map_subset _ (by decide) hhot
  rw [lastCpu?, Option.isSome_map, List.getLast?_isSome]
  exact List.ne_nil_of_mem (List.mem_filter.2 ⟨hrecord, hmeasured⟩)

/-- A valid event after a whole window of its own run yields what it yields in that run alone. -/
theorem overheadAfter?_append (hw : 0 < w) (hwhole : w ∣ (hots run).length) {record : Record}
    (hcovered : record.isOneOf ['P'] → w ≤ (hots rest).length) :
    overheadAfter? w (run ++ rest) record = overheadAfter? w rest record := by
  rw [overheadAfter?_eq hw, overheadAfter?_eq hw]
  by_cases hevent : record.isOneOf ['P']
  · have hle := hcovered hevent
    have hcpu : (lastCpu? rest).isSome := lastCpu?_isSome (Nat.lt_of_lt_of_le hw hle)
    rw [heldBaseline?_append hw hwhole hle, lastCpu?_append, Option.or_of_isSome hcpu]
  · rw [if_neg hevent, if_neg hevent]

/-! ## Extractions -/

/-- Extractions one after the other. -/
instance : Append Extraction where
  append a b := {
    overheads := a.overheads ++ b.overheads
    cold := a.cold ++ b.cold
    hot := a.hot ++ b.hot
    events := a.events ++ b.events
    records := a.records + b.records
    unknown := a.unknown + b.unknown }

/-- The extraction of a trace without records. -/
def Extraction.empty : Extraction := ⟨[], [], [], [], 0, 0⟩

theorem validCosts_append (pass : Pass) (run rest : List Record) :
    validCosts pass (run ++ rest) = validCosts pass run ++ validCosts pass rest := by
  rw [validCosts, List.filter_append, List.map_append]
  rfl

/-- Each overhead of the second run is that of the run alone. -/
theorem overheads_append_of_covered (hw : 0 < w) (hwhole : w ∣ (hots run).length)
    (hcovered : Covered w rest) :
    (Replay.start w).overheads (run ++ rest) =
      (Replay.start w).overheads run ++ (Replay.start w).overheads rest := by
  rw [Replay.overheads_eq_collect, Replay.overheads_eq_collect, Replay.overheads_eq_collect,
    Nat.max_eq_left hw, collect_append]
  congr 1
  refine collect_congr fun earlier event later hrest => ?_
  refine overheadAfter?_append hw hwhole fun hevent => hcovered earlier event later hrest ?_
  simp only [Record.isOneOf, List.contains_eq_mem, decide_eq_true_eq] at hevent ⊢
  exact List.map_subset _ (by decide) hevent

theorem ofRecords_append (hw : 0 < w) (hwhole : w ∣ (hots run).length) (hcovered : Covered w rest) :
    Extraction.ofRecords (run ++ rest) w =
      Extraction.ofRecords run w ++ Extraction.ofRecords rest w := by
  have hunknown : ((run ++ rest).filter fun r => r.kind? = none).length =
      (run.filter fun r => r.kind? = none).length +
        (rest.filter fun r => r.kind? = none).length := by
    rw [List.filter_append, List.length_append]
  rw [Extraction.ofRecords, overheads_append_of_covered hw hwhole hcovered, validCosts_append,
    validCosts_append, validCosts_append, List.length_append, hunknown]
  rfl

/-! ## Several runs -/

/-- A run goes on being covered as long as events come after a whole window. -/
theorem Covered.append (hrun : Covered w run)
    (hrest : ∀ earlier event later, rest = earlier ++ event :: later →
      event.isOneOf ['P', 'p'] → w ≤ (hots (run ++ earlier)).length) : Covered w (run ++ rest) := by
  intro earlier event later h hevent
  rcases List.append_eq_append_iff.1 h with ⟨front, rfl, hfront⟩ | ⟨back, rfl, hback⟩
  · exact hrest front event later hfront hevent
  · cases back with
    | nil => simpa using hrest [] event later hback.symm hevent
    | cons first back =>
      obtain ⟨rfl, rfl⟩ := List.cons.inj hback
      exact hrun earlier event back rfl hevent

theorem covered_flatten {runs : List (List Record)} (h : ∀ run ∈ runs, Covered w run) :
    Covered w runs.flatten := by
  induction runs with
  | nil => exact fun earlier event later hnil => by simp at hnil
  | cons run runs ih =>
    rw [List.flatten_cons]
    refine (h run List.mem_cons_self).append fun earlier event later hrest hevent => ?_
    rw [hots_append, List.length_append]
    have hruns := ih fun run hmem => h run (List.mem_cons_of_mem _ hmem)
    exact Nat.le_add_left_of_le (hruns earlier event later hrest hevent)

theorem ofRecords_flatten (hw : 0 < w) {runs : List (List Record)}
    (h : ∀ run ∈ runs, w ∣ (hots run).length ∧ Covered w run) :
    Extraction.ofRecords runs.flatten w =
      (runs.map fun run => Extraction.ofRecords run w).foldr (· ++ ·) .empty := by
  induction runs with
  | nil => rfl
  | cons run runs ih =>
    have hruns (run : List Record) (hmem : run ∈ runs) := h run (List.mem_cons_of_mem _ hmem)
    rw [List.flatten_cons, ofRecords_append hw (h run List.mem_cons_self).1
      (covered_flatten fun run hmem => (hruns run hmem).2), ih hruns]
    rfl

instance (w : Nat) (run : List Record) : Decidable (Covered w run) :=
  decidable_of_iff (∀ i : Fin run.length, run[i].isOneOf ['P', 'p'] →
    w ≤ (hots (run.take i)).length) <| by
  constructor
  · rintro h earlier event later rfl hevent
    simpa [hevent] using h ⟨earlier.length, by simp⟩
  · intro h i hevent
    refine h (run.take i) run[i] (run.drop (i + 1)) ?_ hevent
    rw [Fin.getElem_fin, List.getElem_cons_drop, List.take_append_drop]

/-- If a run ends with a whole window and each event of the next run follows a whole window of that
run, nothing of the first run reaches the second: their extraction is that of the one followed by
that of the other. So it is for any number of runs. -/
theorem extraction_append (hw : 0 < w) :
    (∀ run rest, w ∣ (hots run).length → Covered w rest →
      Extraction.ofRecords (run ++ rest) w =
        Extraction.ofRecords run w ++ Extraction.ofRecords rest w) ∧
    ∀ runs : List (List Record), (∀ run ∈ runs, w ∣ (hots run).length ∧ Covered w run) →
      Extraction.ofRecords runs.flatten w =
        (runs.map fun run => Extraction.ofRecords run w).foldr (· ++ ·) .empty :=
  ⟨fun _ _ hwhole hcovered => ofRecords_append hw hwhole hcovered,
    fun _ h => ofRecords_flatten hw h⟩

/-- The first run leaves a baseline of 90 cycles and CPU 3. The second one begins with a suspect
window, so that its first event yields nothing, and its second event is measured on its own. -/
theorem extraction_append_suspect :
    let run : List Record := [⟨72, 100, 0, 0⟩, ⟨72, 90, 3, 0⟩, ⟨80, 200, 3, 5⟩]
    let rest : List Record := [⟨104, 50, 1, 0⟩, ⟨72, 60, 1, 0⟩, ⟨80, 300, 1, 5⟩, ⟨72, 40, 2, 0⟩,
      ⟨72, 30, 2, 0⟩, ⟨80, 100, 1, 9⟩]
    0 < 2 ∧ 2 ∣ (hots run).length ∧ Covered 2 rest ∧
      (Extraction.ofRecords (run ++ rest) 2).overheads = [⟨3, 3, 110, 5⟩, ⟨1, 2, 70, 9⟩] := by
  intro run rest
  have hwhole : 2 ∣ (hots run).length := by decide
  have hcovered : Covered 2 rest := by decide
  refine ⟨by decide, hwhole, hcovered, ?_⟩
  rw [(extraction_append (by decide)).1 run rest hwhole hcovered]
  decide

end CacheDelay.Overhead

namespace CacheDelay.Probe

open CacheDelay.Overhead

variable {w : Nat} {log : List Entry}

/-! ## Runs of the probe -/

/-- Each event of a log comes after a job. -/
def EventsInJobs (log : List Entry) : Prop :=
  ∀ earlier now timing later, log = earlier ++ .event now timing :: later →
    earlier.filterMap Entry.job? ≠ []

/-- A probe without a job sees no event before one starts. -/
theorem eventsInJobs_log {p : Probe} (h : p.slot? = none) (device : Device) (n : Nat) :
    EventsInJobs (Probe.log device n p) := by
  induction n generalizing p with
  | zero => exact fun earlier _ _ _ hlog => by simp [Probe.log] at hlog
  | succ n ih =>
    intro earlier now timing later hlog
    rw [Probe.log] at hlog
    rcases step_entry_cases p device with ⟨-, hentry⟩ | ⟨-, hstep, hentry⟩ |
      ⟨slot, hslot, -⟩ | ⟨slot, hslot, -⟩
    · -- the job that starts here comes before everything else
      cases earlier with
      | nil => cases hentry.symm.trans (List.cons.inj hlog).1
      | cons first earlier =>
        rw [← (List.cons.inj hlog).1, hentry]
        exact List.cons_ne_nil _ _
    · cases earlier with
      | nil => cases hentry.symm.trans (List.cons.inj hlog).1
      | cons first earlier =>
        have hnone : (p.step device).2.slot? = none := by rw [hstep]; exact h
        rw [← (List.cons.inj hlog).1, hentry]
        exact ih hnone earlier now timing later (List.cons.inj hlog).2
    · cases h.symm.trans hslot
    · cases h.symm.trans hslot

theorem JobsOf.dvd_length_hots (hw : 0 < w) (h : JobsOf w log) :
    w ∣ (hots (recordsOf log)).length := by
  have hopen := congrArg List.length (openWindow_recordsOf hw h)
  rw [openWindow, length_leftover] at hopen
  exact Nat.dvd_of_mod_eq_zero hopen

/-- Once a job was started, its hot passes are a whole window. -/
theorem JobsOf.le_length_hots (h : JobsOf w log) (hjob : log.filterMap Entry.job? ≠ []) :
    w ≤ (hots (recordsOf log)).length := by
  rw [hots_recordsOf]
  obtain ⟨job, jobs, hjobs⟩ := List.exists_cons_of_ne_nil hjob
  have hwindow : (hotRecords job.1 job.2).length = w :=
    h.length_hotRecords _ (by rw [hjobs]; exact List.mem_cons_self)
  rw [hjobs, List.map_cons, List.flatten_cons, List.length_append, hwindow]
  exact Nat.le_add_right ..

theorem isEvent_sample (t : Timing) (now : Status.Snapshot) (pass : Trace.Pass) (length : UInt64) :
    (t.sample now pass length).record.isOneOf ['P', 'p'] = decide (pass = .event) := by
  rw [isOneOf_sample]
  cases pass <;> cases now.sameWindow t.after <;> rfl

/-- Only an event step records events. -/
theorem exists_event_of_isOneOf {entry : Entry} {record : Trace.Record}
    (hmem : record ∈ recordsOf [entry]) (hevent : record.isOneOf ['P', 'p']) :
    ∃ now timing, entry = .event now timing := by
  rw [recordsOf, List.mem_map] at hmem
  obtain ⟨sample, hsample, rfl⟩ := hmem
  rw [samplesOf, List.flatMap_singleton] at hsample
  cases entry with
  | waiting | keepWarm => cases hsample
  | event now timing => exact ⟨now, timing, rfl⟩
  | newJob now cold hot =>
    rcases List.mem_cons.1 hsample with rfl | hsample
    · rw [isEvent_sample] at hevent
      cases hevent
    · obtain ⟨t, -, rfl⟩ := List.mem_map.1 hsample
      rw [isEvent_sample] at hevent
      cases hevent

theorem JobsOf.covered (h : JobsOf w log) (hevents : EventsInJobs log) :
    Covered w (recordsOf log) := by
  induction log using List.reverseRecOn with
  | nil => exact fun earlier event later hnil => by simp [recordsOf, samplesOf] at hnil
  | append_singleton log entry ih =>
    have hlog := (jobsOf_append.1 h).1
    have hlogEvents : EventsInJobs log := fun earlier now timing later hsplit =>
      hevents earlier now timing (later ++ [entry]) (by rw [hsplit]; simp)
    rw [recordsOf_append]
    refine (ih hlog hlogEvents).append fun earlier event later hsplit hevent => ?_
    have hmem : event ∈ recordsOf [entry] := by rw [hsplit]; simp
    obtain ⟨now, timing, rfl⟩ := exists_event_of_isOneOf hmem hevent
    have hjob : log.filterMap Entry.job? ≠ [] := hevents log now timing [] rfl
    rw [hots_append, List.length_append]
    exact Nat.le_add_right_of_le (hlog.le_length_hots hjob)

/-- The log is that of a probe from its first poll, with `w` hot passes a job. -/
def IsLog (w : Nat) (log : List Entry) : Prop :=
  ∃ available config p device n, create available config = .ok p ∧ config.hotReads = w ∧
    log = Probe.log device n p

/-- A trace with all samples of several runs of probes gives the extractions of the runs, one after
the other. -/
theorem extraction_of_logs (hw : 0 < w) {logs : List (List Entry)} (h : ∀ log ∈ logs, IsLog w log) :
    Extraction.ofRecords (logs.flatMap recordsOf) w =
      (logs.map fun log => Extraction.ofRecords (recordsOf log) w).foldr (· ++ ·) .empty := by
  have hruns : ∀ run ∈ logs.map recordsOf, w ∣ (hots run).length ∧ Covered w run := by
    intro run hmem
    obtain ⟨log, hlog, rfl⟩ := List.mem_map.1 hmem
    obtain ⟨available, config, p, device, n, hp, rfl, rfl⟩ := h log hlog
    have hjobs : JobsOf config.hotReads (Probe.log device n p) := jobsOf_log hp device n
    have hslot : p.slot? = none := by
      obtain ⟨sets, hpos, rfl⟩ := create_ok hp
      rfl
    exact ⟨hjobs.dvd_length_hots hw, hjobs.covered (eventsInJobs_log hslot device n)⟩
  rw [List.flatMap_def, ofRecords_flatten hw hruns, List.map_map]
  rfl

end CacheDelay.Probe

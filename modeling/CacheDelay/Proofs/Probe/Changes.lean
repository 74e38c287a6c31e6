import CacheDelay.Proofs.Probe.Jobs

/-!
# Changes seen by a run

The window of a snapshot is named by its job, schedule and CPU counters. A step reacts to a change
exactly if it polls another window than that of the snapshot it acted on last, which is the window
of the last sample (`step_window_cases`, `Current.steps`). On a page that never returns to a window
it has left (`Device.NeverReturns`), a window that is still there at a later reading was there all
the time between: valid passes come before suspect ones, a suspect pass is followed by a reaction,
and no two reactions are to one window (`changes_of_run`).
-/

namespace CacheDelay

open CacheDelay.Status CacheDelay.Trace

/-- The counters that name the scheduling window of a snapshot. -/
def Status.Snapshot.window (s : Snapshot) : UInt64 × UInt64 × UInt32 :=
  (s.jobCount, s.schedCount, s.cpu)

/-- The counters that name the scheduling window of a sample. -/
def Trace.Sample.window (s : Sample) : UInt64 × UInt64 × UInt32 :=
  (s.jobCount, s.schedCount, s.cpu)

namespace Probe

theorem window_eq_iff {a b : Snapshot} :
    a.window = b.window ↔
      a.jobCount = b.jobCount ∧ a.schedCount = b.schedCount ∧ a.cpu = b.cpu := by
  rw [Snapshot.window, Snapshot.window, Prod.mk.injEq, Prod.mk.injEq]

theorem IsSampleOf.window {now after : Snapshot} {sample : Sample}
    (h : IsSampleOf now after sample) : sample.window = now.window := by
  rw [Sample.window, h.jobCount, h.schedCount, h.cpu]
  rfl

theorem IsSampleOf.valid_iff_window {now after : Snapshot} {sample : Sample}
    (h : IsSampleOf now after sample) :
    sample.kind.valid = true ↔ after.window = now.window := by
  rw [h.valid_iff, window_eq_iff]

/-- Readings of the page never return to a window that they have left. -/
def Device.NeverReturns (device : Device) : Prop :=
  ∀ i j k, i ≤ j → j ≤ k → (device.status k).window = (device.status i).window →
    (device.status j).window = (device.status i).window

/-! ## Steps -/

/-- Whether a step reacts to a change. -/
def Step.reacts : Step → Bool
  | .newJob _ | .event _ => true
  | .waiting | .keepWarm => false

theorem current_recordHot (device : Device) (slot n : Nat) (p : Probe) :
    (recordHot device slot n p).current = p.current := by
  induction n generalizing p with
  | zero => rfl
  | succ n ih => rw [recordHot, ih]; rfl

theorem current_resume (p : Probe) (device : Device) (slot : Nat) (now : Snapshot) :
    (p.resume device slot now).2.current = now := rfl

theorem current_warm (p : Probe) (device : Device) (slot : Nat) :
    (p.warm device slot).current = p.current := by
  rw [warm]

/-- A step reacts to another window than the current one, which it takes for the current one then.
Else it waits until there is a job, or is idle in the current window. -/
theorem step_window_cases (p : Probe) (device : Device) :
    let now := device.status p.polls
    let q := (p.step device).2
    ((p.step device).1.reacts = true ∧ now.window ≠ p.current.window ∧ q.current = now ∧
      q.slot? ≠ none) ∨
    ((p.step device).1 = .waiting ∧ p.slot? = none ∧ q.current = p.current ∧ q.slot? = none) ∨
    ((p.step device).1 = .keepWarm ∧ p.slot? ≠ none ∧ now.window = p.current.window ∧
      q.current = p.current ∧ q.slot? ≠ none) := by
  intro now q
  have hslot : (p.poll device).2.slot? = p.slot? := rfl
  rcases step_cases p device with ⟨hjob, h⟩ | ⟨-, hnone, h⟩ | ⟨slot, hjob, hsome, hmoved, h⟩ |
    ⟨slot, hjob, hsome, hsched, hcpu, h⟩
  · left
    have hcurrent : ((p.poll device).2.startJob device now).2.current = now := by
      rw [startJob, current_recordHot]
      rfl
    refine ⟨by rw [h]; rfl, fun heq => hjob (window_eq_iff.1 heq).1, ?_, ?_⟩
    · show (p.step device).2.current = now
      rw [h, hcurrent]
    · show (p.step device).2.slot? ≠ none
      rw [h, slot?_startJob]
      exact Option.some_ne_none _
  · right; left
    refine ⟨by rw [h], hnone, ?_, ?_⟩
    · show (p.step device).2.current = p.current
      rw [h]
      rfl
    · show (p.step device).2.slot? = none
      rw [h]
      exact hnone
  · left
    have hother : now.window ≠ p.current.window := by
      intro heq
      have hsame := (window_eq_iff.1 heq).2
      exact hmoved.elim (fun hne => hne hsame.1) fun hne => hne hsame.2
    refine ⟨by rw [h]; rfl, hother, ?_, ?_⟩
    · show (p.step device).2.current = now
      rw [h]
      rfl
    · show (p.step device).2.slot? ≠ none
      rw [h, slot?_resume, hslot, hsome]
      exact Option.some_ne_none _
  · right; right
    have hsame : now.window = p.current.window := window_eq_iff.2 ⟨hjob, hsched, hcpu⟩
    refine ⟨by rw [h], hsome ▸ Option.some_ne_none _, hsame, ?_, ?_⟩
    · show (p.step device).2.current = p.current
      rw [h, current_warm]
      rfl
    · show (p.step device).2.slot? ≠ none
      rw [h, slot?_warm, hslot, hsome]
      exact Option.some_ne_none _

theorem of_reacts {p : Probe} {device : Device} (h : (p.step device).1.reacts = true) :
    (device.status p.polls).window ≠ p.current.window ∧
      (p.step device).2.current = device.status p.polls ∧ (p.step device).2.slot? ≠ none := by
  rcases step_window_cases p device with ⟨-, hreaction⟩ | ⟨hstep, -⟩ | ⟨hstep, -⟩
  · exact hreaction
  · rw [hstep] at h
    cases h
  · rw [hstep] at h
    cases h

/-- The steps that record samples are those that react to a change. -/
theorem samples_eq_nil_iff (p : Probe) (device : Device) :
    (p.entry device).samples = [] ↔ (p.step device).1.reacts = false := by
  rw [← List.map_eq_nil_iff, (step_records p device).passes]
  cases (p.step device).1 <;> simp [Step.reacts, Step.passes]

theorem reacts_of_mem_samples {p : Probe} {device : Device} {sample : Sample}
    (h : sample ∈ (p.entry device).samples) : (p.step device).1.reacts = true := by
  have hne := mt (samples_eq_nil_iff p device).2 (List.ne_nil_of_mem h)
  simpa using hne

theorem polls_step (p : Probe) (device : Device) :
    (p.step device).2.polls = p.polls + 1 + (p.entry device).samples.length :=
  (step_records p device).polls

/-- A sample of a step carries the window that the step polled. -/
theorem window_of_mem_samples {p : Probe} {device : Device} {sample : Sample}
    (h : sample ∈ (p.entry device).samples) : sample.window = (device.status p.polls).window := by
  obtain ⟨j, hj⟩ := List.getElem?_of_mem h
  exact ((step_records p device).shown j sample hj).window

/-- A suspect pass saw another window than the one that its step polled. -/
theorem exists_reading_of_suspect {p : Probe} {device : Device} {sample : Sample}
    (h : sample ∈ (p.entry device).samples) (hsuspect : sample.kind.valid = false) :
    ∃ j, p.polls ≤ j ∧ j ≤ (p.step device).2.polls ∧
      (device.status j).window ≠ (device.status p.polls).window := by
  obtain ⟨j, hj⟩ := List.getElem?_of_mem h
  have hlength := (List.getElem?_eq_some_iff.1 hj).1
  have hshown := (step_records p device).shown j sample hj
  refine ⟨p.polls + 1 + j, by omega, by rw [polls_step]; omega, fun heq => ?_⟩
  rw [hshown.valid_iff_window.2 heq] at hsuspect
  cases hsuspect

/-- The passes of a step are valid until the page leaves the window that the step polled. -/
theorem pairwise_valid_samples {device : Device} (hdevice : device.NeverReturns) (p : Probe) :
    (p.entry device).samples.Pairwise fun earlier later =>
      later.kind.valid = true → earlier.kind.valid = true := by
  have hshown := (step_records p device).shown
  rw [List.pairwise_iff_getElem]
  intro j k hj hk hjk hvalid
  rw [(hshown k _ (List.getElem?_eq_getElem hk)).valid_iff_window] at hvalid
  rw [(hshown j _ (List.getElem?_eq_getElem hj)).valid_iff_window]
  exact hdevice p.polls (p.polls + 1 + j) (p.polls + 1 + k) (by omega) (by omega) hvalid

/-- A suspect pass is followed by a reaction. -/
theorem reacts_of_suspect {device : Device} (hdevice : device.NeverReturns) {p : Probe}
    {sample : Sample} (h : sample ∈ (p.entry device).samples)
    (hsuspect : sample.kind.valid = false) :
    ((p.step device).2.step device).1.reacts = true := by
  obtain ⟨-, hcurrent, hslot⟩ := of_reacts (reacts_of_mem_samples h)
  obtain ⟨j, hfirst, hlast, hleft⟩ := exists_reading_of_suspect h hsuspect
  rcases step_window_cases (p.step device).2 device with ⟨hnext, -⟩ | ⟨-, hnone, -⟩ |
    ⟨-, -, hback, -⟩
  · exact hnext
  · exact absurd hnone hslot
  · -- the page would have come back to the window that the suspect pass saw it leave
    rw [hcurrent] at hback
    exact absurd (hdevice p.polls j _ hfirst hlast hback) hleft

/-! ## Runs -/

theorem steps_concat (device : Device) (n : Nat) (p : Probe) :
    (steps device (n + 1) p).2 = ((steps device n p).2.step device).2 := by
  induction n generalizing p with
  | zero => rfl
  | succ n ih => exact ih (p.step device).2

theorem log_concat (device : Device) (n : Nat) (p : Probe) :
    log device (n + 1) p = log device n p ++ [(steps device n p).2.entry device] := by
  induction n generalizing p with
  | zero => rfl
  | succ n ih =>
    rw [log, ih]
    rfl

theorem getElem?_steps {device : Device} {n i : Nat} {p : Probe} {step : Step}
    (h : (steps device n p).1[i]? = some step) :
    ((steps device i p).2.step device).1 = step := by
  induction n generalizing i p with
  | zero => cases h
  | succ n ih =>
    cases i with
    | zero => exact Option.some.inj h
    | succ i => exact ih (p := (p.step device).2) h

theorem getElem?_log {device : Device} {n i : Nat} {p : Probe} {entry : Entry}
    (h : (log device n p)[i]? = some entry) : (steps device i p).2.entry device = entry := by
  induction n generalizing i p with
  | zero => cases h
  | succ n ih =>
    cases i with
    | zero => exact Option.some.inj h
    | succ i => exact ih (p := (p.step device).2) h

/-- What the probe takes for the current window is that of the last sample, once there is one. -/
structure Current (p : Probe) (samples : List Sample) : Prop where
  waits : p.slot? = none → samples = []
  follows : p.slot? ≠ none →
    ∃ sample, samples.getLast? = some sample ∧ sample.window = p.current.window

/-- A step keeps the current window that of the last sample. -/
theorem Current.step {p : Probe} {samples : List Sample} (h : Current p samples)
    (device : Device) : Current (p.step device).2 (samples ++ (p.entry device).samples) := by
  rcases step_window_cases p device with ⟨hreacts, -, hcurrent, hslot⟩ |
    ⟨hstep, hnone, -, hslot⟩ | ⟨hstep, hsome, -, hcurrent, hslot⟩
  · refine ⟨fun hnone => absurd hnone hslot, fun _ => ?_⟩
    have hnonempty : (p.entry device).samples ≠ [] := by
      rw [Ne, samples_eq_nil_iff, hreacts]
      nofun
    refine ⟨(p.entry device).samples.getLast hnonempty, ?_, ?_⟩
    · rw [List.getLast?_append, List.getLast?_eq_some_getLast hnonempty]
      rfl
    · rw [window_of_mem_samples (List.getLast_mem hnonempty), hcurrent]
  · rw [(samples_eq_nil_iff p device).2 (by rw [hstep]; rfl), List.append_nil]
    exact ⟨fun _ => h.waits hnone, fun hsome => absurd hslot hsome⟩
  · rw [(samples_eq_nil_iff p device).2 (by rw [hstep]; rfl), List.append_nil]
    exact ⟨fun hnone => absurd hnone hslot, fun _ => hcurrent ▸ h.follows hsome⟩

theorem Current.steps {p : Probe} (h : p.slot? = none) (device : Device) (n : Nat) :
    Current (steps device n p).2 (samplesOf (log device n p)) := by
  induction n with
  | zero => exact ⟨fun _ => rfl, fun hsome => absurd h hsome⟩
  | succ n ih =>
    rw [steps_concat, log_concat, samplesOf, List.flatMap_append, List.flatMap_singleton]
    exact ih.step device

/-- The current snapshot of a later probe is that of the reaction, or of a reaction since. -/
theorem exists_reading_current {device : Device} {first : Nat} {p : Probe}
    (h : ∃ k, first ≤ k ∧ k < p.polls ∧ p.current = device.status k) (n : Nat) :
    ∃ k, first ≤ k ∧ k < (steps device n p).2.polls ∧
      (steps device n p).2.current = device.status k := by
  induction n with
  | zero => exact h
  | succ n ih =>
    obtain ⟨k, hfirst, hlast, hk⟩ := ih
    rw [steps_concat]
    have hpolls := polls_step (steps device n p).2 device
    rcases step_window_cases (steps device n p).2 device with ⟨-, -, hcurrent, -⟩ |
      ⟨-, -, hcurrent, -⟩ | ⟨-, -, -, hcurrent, -⟩
    · exact ⟨(steps device n p).2.polls, by omega, by omega, hcurrent⟩
    · exact ⟨k, hfirst, by omega, hcurrent.trans hk⟩
    · exact ⟨k, hfirst, by omega, hcurrent.trans hk⟩

/-- After a reaction no later step reacts to the same window. -/
theorem window_ne_of_reacts {device : Device} (hdevice : device.NeverReturns) {p : Probe}
    (h : (p.step device).1.reacts = true) (n : Nat)
    (hlater : ((steps device n (p.step device).2).2.step device).1.reacts = true) :
    (device.status (steps device n (p.step device).2).2.polls).window ≠
      (device.status p.polls).window := by
  have hpolls := polls_step p device
  have hstart : ∃ k, p.polls ≤ k ∧ k < (p.step device).2.polls ∧
      (p.step device).2.current = device.status k :=
    ⟨p.polls, by omega, by omega, (of_reacts h).2.1⟩
  obtain ⟨k, hfirst, hlast, hk⟩ := exists_reading_current hstart n
  obtain ⟨hother, -, -⟩ := of_reacts hlater
  intro hback
  -- the window would have been there at the last reaction, too
  have hbetween := hdevice p.polls k _ hfirst (Nat.le_of_lt hlast) hback
  rw [hk, hbetween] at hother
  exact hother hback

/-- The steps of a run record different windows. -/
theorem pairwise_window_log {device : Device} (hdevice : device.NeverReturns) (n : Nat)
    (p : Probe) :
    (log device n p).Pairwise fun earlier later =>
      ∀ s ∈ earlier.samples, ∀ s' ∈ later.samples, s.window ≠ s'.window := by
  induction n generalizing p with
  | zero => exact .nil
  | succ n ih =>
    refine .cons (fun later hlater s hs s' hs' => ?_) (ih _)
    obtain ⟨i, hi⟩ := List.getElem?_of_mem hlater
    obtain rfl := getElem?_log hi
    rw [window_of_mem_samples hs, window_of_mem_samples hs']
    exact (window_ne_of_reacts hdevice (reacts_of_mem_samples hs) i
      (reacts_of_mem_samples hs')).symm

/-- On a page that never returns to a window, the passes of a step are valid up to some pass and
suspect from there on; the step after a suspect pass starts a job or sees an event; and different
steps record different windows. On any page, a step is idle only in the window of the last sample,
and as soon as there is a sample every step that polls another window starts a job or sees an event.
-/
theorem changes_of_run {available : Nat} {config : Config} {p : Probe}
    (h : create available config = .ok p) {device : Device} (hdevice : device.NeverReturns)
    (n : Nat) :
    let run := (steps device n p).1
    let entries := log device n p
    (∀ entry ∈ entries, entry.samples.Pairwise fun earlier later =>
      later.kind.valid = true → earlier.kind.valid = true) ∧
    (∀ i entry next, entries[i]? = some entry → run[i + 1]? = some next →
      (∃ sample ∈ entry.samples, sample.kind.valid = false) → next.reacts = true) ∧
    (∀ i, run[i]? = some .keepWarm →
      ∃ sample, (samplesOf (log device i p)).getLast? = some sample ∧
        (device.status (steps device i p).2.polls).window = sample.window) ∧
    (∀ i step sample, run[i]? = some step →
      (samplesOf (log device i p)).getLast? = some sample →
      (device.status (steps device i p).2.polls).window ≠ sample.window → step.reacts = true) ∧
    entries.Pairwise fun earlier later =>
      ∀ s ∈ earlier.samples, ∀ s' ∈ later.samples, s.window ≠ s'.window := by
  intro run entries
  have hslot : p.slot? = none := by
    obtain ⟨sets, hpos, hp⟩ := create_ok h
    rw [hp]
  refine ⟨?_, ?_, ?_, ?_, pairwise_window_log hdevice n p⟩
  · intro entry hentry
    obtain ⟨i, hi⟩ := List.getElem?_of_mem hentry
    rw [← getElem?_log hi]
    exact pairwise_valid_samples hdevice _
  · rintro i entry next hentry hnext ⟨sample, hsample, hsuspect⟩
    rw [← getElem?_steps hnext, steps_concat]
    rw [← getElem?_log hentry] at hsample
    exact reacts_of_suspect hdevice hsample hsuspect
  · intro i hi
    have hcurrent := Current.steps hslot device i
    have hstep := getElem?_steps hi
    rcases step_window_cases (steps device i p).2 device with ⟨hreacts, -⟩ | ⟨hwaits, -⟩ |
      ⟨-, hsome, hsame, -⟩
    · rw [hstep] at hreacts
      cases hreacts
    · cases hstep.symm.trans hwaits
    · obtain ⟨sample, hlast, hwindow⟩ := hcurrent.follows hsome
      exact ⟨sample, hlast, hsame.trans hwindow.symm⟩
  · intro i step sample hi hlast hother
    have hcurrent := Current.steps hslot device i
    rw [← getElem?_steps hi]
    rcases step_window_cases (steps device i p).2 device with ⟨hreacts, -⟩ | ⟨-, hnone, -⟩ |
      ⟨-, hsome, hsame, -⟩
    · exact hreacts
    · rw [hcurrent.waits hnone] at hlast
      cases hlast
    · obtain ⟨sample', hlast', hwindow⟩ := hcurrent.follows hsome
      cases hlast.symm.trans hlast'
      exact absurd (hsame.trans hwindow.symm) hother

/-- A page that shows one snapshot up to a reading and another from there on. -/
def Device.switching (change : Nat) (before after : Snapshot) : Device where
  status i := if i < change then before else after
  cycles i := UInt64.ofNat (i * i)
  draw := .zeros

theorem neverReturns_switching (change : Nat) (before after : Snapshot) :
    (Device.switching change before after).NeverReturns := by
  intro i j k hij hjk hsame
  simp only [Device.switching] at hsame ⊢
  by_cases hi : i < change
  · by_cases hk : k < change
    · simp [hi, show j < change by omega]
    · rw [if_pos hi, if_neg hk] at hsame
      rw [if_pos hi]
      split
      · rfl
      · exact hsame
  · simp [hi, show ¬ j < change by omega]

/-- The task is preempted while the last hot pass of its first job is timed: that pass is suspect,
the next step sees the event, and the third is idle. -/
theorem changes_of_switching :
    let device := Device.switching 3 ⟨1, 1, 0, 7, 0, 0⟩ ⟨1, 2, 0, 7, 100, 150⟩
    ∃ p, create 4096 (smallConfig 8) = .ok p ∧ device.NeverReturns ∧
      (∃ slot, (steps device 3 p).1 = [.newJob slot, .event ⟨.event, true⟩, .keepWarm]) ∧
      (∃ entry, (log device 3 p)[0]? = some entry ∧ entry.samples.map (·.kind.valid) =
        [true, true, false]) ∧
      (∀ next, (steps device 3 p).1[1]? = some next → next.reacts = true) ∧
      ∃ sample, (samplesOf (log device 2 p)).getLast? = some sample ∧
        (device.status (steps device 2 p).2.polls).window = sample.window := by
  intro device
  obtain ⟨p, h⟩ : ∃ p, create 4096 (smallConfig 8) = .ok p := exists_create (by decide +kernel)
  have hdevice := neverReturns_switching 3 ⟨1, 1, 0, 7, 0, 0⟩ ⟨1, 2, 0, 7, 100, 150⟩
  obtain ⟨-, hsuspect, hidle, -⟩ := changes_of_run h hdevice 3
  obtain ⟨slot, hrun⟩ :
      ∃ slot, (steps device 3 p).1 = [.newJob slot, .event ⟨.event, true⟩, .keepWarm] := by
    obtain ⟨sets, hpos, rfl⟩ := create_ok h
    exact ⟨_, rfl⟩
  have hvalid : ((p.entry device).samples.map (·.kind.valid)) = [true, true, false] := by
    obtain ⟨sets, hpos, rfl⟩ := create_ok h
    rfl
  refine ⟨p, h, hdevice, ⟨slot, hrun⟩, ⟨_, rfl, hvalid⟩, fun next hnext => ?_,
    hidle 2 (by rw [hrun]; rfl)⟩
  refine hsuspect 0 _ next rfl hnext ?_
  have hmem : false ∈ (p.entry device).samples.map (·.kind.valid) := by rw [hvalid]; decide
  obtain ⟨sample, hsample, hfalse⟩ := List.mem_map.1 hmem
  exact ⟨sample, hsample, hfalse⟩

end Probe

end CacheDelay

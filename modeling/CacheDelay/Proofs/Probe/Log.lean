import CacheDelay.Probe.Basic
import CacheDelay.Proofs.Probe.Ring

/-!
# The log of a run

An `Entry` is one step of the probe with all that the device showed it: the snapshot that it polled,
and for each timed pass the two readings of the counter and the snapshot right after. The samples of
an entry are what the step should record. A run pushes the samples of its log to the ring
(`ring_steps`), so that it keeps the last ones that fit (`samples_steps`), and every job of the log
has as many hot passes as the configuration says (`length_hot_of_mem_log`).
-/

namespace CacheDelay.Probe

open CacheDelay.Status CacheDelay.Trace

/-- One timed pass, as the device showed it. -/
structure Timing where
  start : UInt64
  stop : UInt64
  /-- The page right after the pass. -/
  after : Snapshot

/-- Cycles taken by a pass, modulo 2⁶⁴. -/
def Timing.elapsed (t : Timing) : UInt64 := t.stop - t.start

/-- The sample of a pass that `now` triggered: valid if the page is still in its window. -/
def Timing.sample (t : Timing) (now : Snapshot) (pass : Pass) (length : UInt64) : Sample :=
  { timestamp := t.stop, kind := ⟨pass, now.sameWindow t.after⟩, elapsed := t.elapsed, cpu := now.cpu
    jobCount := now.jobCount, schedCount := now.schedCount, lastTask := now.lastTask, length }

/-- One step of the probe, which polled `now`, and the passes that it timed. -/
inductive Entry where
  | waiting (now : Snapshot)
  | newJob (now : Snapshot) (cold : Timing) (hot : List Timing)
  | event (now : Snapshot) (timing : Timing)
  | keepWarm (now : Snapshot)

/-- The samples that a step records. -/
def Entry.samples : Entry → List Sample
  | .newJob now cold hot => cold.sample now .cold 0 :: hot.map (·.sample now .hot 0)
  | .event now timing => [timing.sample now .event (now.preemptEnd - now.preemptStart)]
  | .waiting _ | .keepWarm _ => []

/-- The samples that the steps of a log record. -/
def samplesOf (log : List Entry) : List Sample := log.flatMap Entry.samples

/-- The `j`-th pass that the device would show to the probe. -/
def timing (p : Probe) (device : Device) (j : Nat) : Timing :=
  ⟨device.cycles (p.readings + 2 * j), device.cycles (p.readings + 2 * j + 1),
    device.status (p.polls + j)⟩

/-- The next step of the probe. -/
def entry (p : Probe) (device : Device) : Entry :=
  let (now, polled) := p.poll device
  match (p.step device).1 with
  | .waiting => .waiting now
  | .newJob _ =>
    .newJob now (polled.timing device 0)
      ((List.range p.config.hotReads).map fun j => polled.timing device (j + 1))
  | .event _ => .event now (polled.timing device 0)
  | .keepWarm => .keepWarm now

/-- The next `n` steps of the probe. -/
def log (device : Device) : Nat → Probe → List Entry
  | 0, _ => []
  | n + 1, p => p.entry device :: log device n (p.step device).2

/-! ## One step -/

/-- What a step can do, and when. -/
theorem step_cases (p : Probe) (device : Device) :
    let now := device.status p.polls
    let polled := (p.poll device).2
    (now.jobCount ≠ p.current.jobCount ∧ p.step device = polled.startJob device now) ∨
    (now.jobCount = p.current.jobCount ∧ p.slot? = none ∧ p.step device = (.waiting, polled)) ∨
    (∃ slot, now.jobCount = p.current.jobCount ∧ p.slot? = some slot ∧
      (now.schedCount ≠ p.current.schedCount ∨ now.cpu ≠ p.current.cpu) ∧
      p.step device = polled.resume device slot now) ∨
    ∃ slot, now.jobCount = p.current.jobCount ∧ p.slot? = some slot ∧
      now.schedCount = p.current.schedCount ∧ now.cpu = p.current.cpu ∧
      p.step device = (.keepWarm, polled.warm device slot) := by
  intro now polled
  generalize hout : p.step device = out
  rw [step, poll] at hout
  dsimp only at hout
  split at hout
  · rename_i hjob
    exact .inl ⟨hjob, hout.symm⟩
  · rename_i hjob
    have hjob : now.jobCount = p.current.jobCount := Decidable.of_not_not hjob
    split at hout
    · rename_i hslot
      exact .inr (.inl ⟨hjob, hslot, hout.symm⟩)
    · rename_i slot hslot
      split at hout
      · rename_i hmoved
        exact .inr (.inr (.inl ⟨slot, hjob, hslot, hmoved, hout.symm⟩))
      · rename_i hmoved
        have hsame := not_or.1 hmoved
        exact .inr (.inr (.inr ⟨slot, hjob, hslot, Decidable.of_not_not hsame.1,
          Decidable.of_not_not hsame.2, hout.symm⟩))

theorem ring_record (p : Probe) (device : Device) (slot : Nat) (pass : Pass) (length : UInt64) :
    (p.record device slot pass length).2.ring =
      p.ring.push ((p.timing device 0).sample p.current pass length) := rfl

theorem timing_record (p : Probe) (device : Device) (slot : Nat) (pass : Pass) (length : UInt64)
    (j : Nat) : (p.record device slot pass length).2.timing device j = p.timing device (j + 1) := by
  have hreadings : p.readings + 2 + 2 * j = p.readings + 2 * (j + 1) := by omega
  have hpolls : p.polls + 1 + j = p.polls + (j + 1) := by omega
  simp only [timing, ← hreadings, ← hpolls]
  rfl

/-- The hot passes of a job are pushed in order. -/
theorem ring_recordHot (device : Device) (slot n : Nat) (p : Probe) :
    (recordHot device slot n p).ring =
      ((List.range n).map fun j => (p.timing device j).sample p.current .hot 0).foldl
        Ring.push p.ring := by
  induction n generalizing p with
  | zero => rfl
  | succ n ih =>
    rw [recordHot, ih, List.range_succ_eq_map, List.map_cons, List.foldl_cons, List.map_map,
      ring_record]
    simp only [timing_record]
    rfl

theorem config_recordHot (device : Device) (slot n : Nat) (p : Probe) :
    (recordHot device slot n p).config = p.config := by
  induction n generalizing p with
  | zero => rfl
  | succ n ih => rw [recordHot, ih]; rfl

theorem config_warm (p : Probe) (device : Device) (slot : Nat) :
    (p.warm device slot).config = p.config := by
  rw [warm]

theorem ring_warm (p : Probe) (device : Device) (slot : Nat) :
    (p.warm device slot).ring = p.ring := by
  rw [warm]

/-- A step leaves the configuration. -/
theorem config_step (p : Probe) (device : Device) : (p.step device).2.config = p.config := by
  rcases step_cases p device with ⟨-, h⟩ | ⟨-, -, h⟩ | ⟨slot, -, -, -, h⟩ | ⟨slot, -, -, -, -, h⟩
  · rw [h, startJob, config_recordHot]; rfl
  · rw [h]; rfl
  · rw [h]; rfl
  · rw [h, config_warm]; rfl

/-- A step pushes the samples of its entry. -/
theorem ring_step (p : Probe) (device : Device) :
    (p.step device).2.ring = (p.entry device).samples.foldl Ring.push p.ring := by
  rcases step_cases p device with ⟨-, h⟩ | ⟨-, -, h⟩ | ⟨slot, -, -, -, h⟩ | ⟨slot, -, -, -, -, h⟩
  · have hentry : p.entry device = .newJob (device.status p.polls)
        ((p.poll device).2.timing device 0)
        ((List.range p.config.hotReads).map fun j => (p.poll device).2.timing device (j + 1)) := by
      rw [entry, h]; rfl
    rw [hentry, h, Entry.samples, List.foldl_cons, List.map_map, startJob]
    simp only [ring_recordHot, timing_record]
    rfl
  · rw [entry, h]; rfl
  · rw [entry, h]; rfl
  · rw [entry, h, ring_warm]; rfl

/-! ## Runs -/

theorem config_steps (device : Device) (n : Nat) (p : Probe) :
    (steps device n p).2.config = p.config := by
  induction n generalizing p with
  | zero => rfl
  | succ n ih => exact (ih (p.step device).2).trans (config_step p device)

theorem ring_steps (device : Device) (n : Nat) (p : Probe) :
    (steps device n p).2.ring = (samplesOf (log device n p)).foldl Ring.push p.ring := by
  induction n generalizing p with
  | zero => rfl
  | succ n ih =>
    rw [samplesOf, log, List.flatMap_cons, List.foldl_append, ← ring_step]
    exact ih (p.step device).2

/-- Every job of a log has the hot passes that the configuration asks for. -/
theorem length_hot_of_mem_log {device : Device} {n : Nat} {p : Probe} {now : Snapshot}
    {cold : Timing} {hot : List Timing} (h : .newJob now cold hot ∈ log device n p) :
    hot.length = p.config.hotReads := by
  induction n generalizing p with
  | zero => cases h
  | succ n ih =>
    rcases List.mem_cons.1 h with h | h
    · rw [entry] at h
      dsimp only at h
      split at h <;> cases h
      rw [List.length_map, List.length_range]
    · rw [ih h, config_step]

/-! ## From the first poll -/

/-- A probe has the working sets and the ring that its sizes ask for, and starts with nothing read,
recorded or counted. -/
theorem exists_of_create {available : Nat} {config : Config} {p : Probe}
    (h : create available config = .ok p) :
    ∃ count sets left, ∃ hpos : 0 < config.capacity,
      setCount config.cacheKib config.kib = some count ∧
      WorkingSets.create available config.kib count = .ok (sets, left) ∧
      p = { config, sets, ring := .empty config.capacity hpos, drawn := 0
            current := .zero, slot? := none, counts := ⟨0, 0, 0, 0⟩, polls := 0, readings := 0 } := by
  unfold create at h
  simp only [bind, Except.bind, pure, Except.pure, throw, throwThe, MonadExceptOf.throw] at h
  split at h
  · cases h
  split at h
  · cases h
  rename_i count hcount
  split at h
  · cases h
  rename_i sets hsets
  split at h
  · cases h
  rename_i ring hring
  obtain ⟨hpos, hempty⟩ := Ring.create_ok hring
  cases h
  exact ⟨count, _, _, hpos, hcount, hsets, by rw [hempty]⟩

theorem create_ok {available : Nat} {config : Config} {p : Probe}
    (h : create available config = .ok p) :
    ∃ sets, ∃ hpos : 0 < config.capacity,
      p = { config, sets, ring := .empty config.capacity hpos, drawn := 0
            current := .zero, slot? := none, counts := ⟨0, 0, 0, 0⟩, polls := 0, readings := 0 } := by
  obtain ⟨-, sets, -, hpos, -, -, hp⟩ := exists_of_create h
  exact ⟨sets, hpos, hp⟩

theorem exists_create {available : Nat} {config : Config}
    (h : (create available config).toBool = true) : ∃ p, create available config = .ok p := by
  cases hp : create available config with
  | ok p => exact ⟨p, rfl⟩
  | error cause => rw [hp] at h; cases h

/-- A run keeps the last samples of its log, as many as fit. -/
theorem samples_steps {available : Nat} {config : Config} {p : Probe}
    (h : create available config = .ok p) (device : Device) (n : Nat) :
    (steps device n p).2.samples =
      (samplesOf (log device n p)).drop ((samplesOf (log device n p)).length - config.capacity) := by
  obtain ⟨sets, hpos, rfl⟩ := create_ok h
  rw [samples, ring_steps, Ring.toList_foldl_push, Ring.toList_empty, List.nil_append,
    List.length_nil, Nat.zero_add]
  rfl

/-! ## Small runs -/

/-- A generator that draws zeros. -/
def Generator.zeros : Generator := fun _ _ last => ⟨0, last.succ_pos⟩

/-- A device that shows the given snapshots and counter values and draws zeros. -/
def Device.playing (status : List Snapshot) (cycles : List UInt64) : Device :=
  ⟨fun i => status.getD i .zero, fun i => cycles.getD i 0, .zeros⟩

/-- A configuration with two hot passes a job. -/
def smallConfig (capacity : Nat) : Config := { kib := 1, cacheKib := 0, capacity, hotReads := 2 }

/-- Two quiet jobs on CPU 0, and a migration of the second one to CPU 1. -/
def twoJobs : Device :=
  .playing
    (List.replicate 4 ⟨1, 1, 0, 0, 0, 0⟩ ++ List.replicate 4 ⟨2, 2, 0, 0, 0, 0⟩ ++
      List.replicate 2 ⟨2, 3, 1, 0, 1000, 1500⟩)
    [0, 900, 1000, 1500, 2000, 2400, 3000, 3900, 4000, 4100, 5000, 5300, 6000, 7000]

end CacheDelay.Probe

import CacheDelay.Probe.Measure
import CacheDelay.Proofs.Probe.Budget
import CacheDelay.Proofs.Trace.File

/-!
# What a measurement leaves in its trace

A measurement opens its output, creates the probe and runs it, in this order, and then appends what
the ring kept (`of_measure_eq_ok`). Its output therefore ends with the last samples of the run, as
many as fit (`read_of_appendSamples`). Where an earlier step fails, nothing was polled: the outcome
is the same for every device and every number of polls (`measure_of_openNew_error`,
`measure_of_rejected`).
-/

namespace CacheDelay.Probe

open CacheDelay.Files CacheDelay.Files.Tree CacheDelay.Status CacheDelay.Trace

variable {available : Nat} {output : Path} {device : Device} {config : Config} {periodMs fuel : Nat}
  {w w' : World} {p q : Probe} {kept : Nat} {earlier : List UInt8}

/-! ## Measurements that end -/

theorem length_samples (p : Probe) : p.samples.length = p.ring.size := p.ring.length_toList

/-- All that the end of a measurement does to files is to append the samples kept. -/
theorem exists_finish_eq (p : Probe) (writer : Writer) (w : World) : ∃ v, v.files = w.files ∧
    finish p writer w = ((fun _ => p.samples.length) <$> writer.appendSamples p.samples) v := by
  rw [length_samples, map_eq_pure_bind, finish]
  by_cases hempty : p.ring.isEmpty
  · rw [if_pos hempty]
    exact ⟨{ w with warnings := w.warnings ++ [.noSamples] }, rfl, rfl⟩
  · rw [if_neg hempty]
    exact Action.exists_warn_ite (p.ring.wrapped = true) (.samplesLost p.ring.capacity)
      (fun _ => writer.appendSamples p.samples >>= fun _ => pure p.ring.size) w

/-- A measurement that ends has opened its output, run its probe and appended the samples. -/
theorem of_measure_eq_ok
    (h : measure available output device config periodMs fuel w = (.ok (some kept), w')) :
    ∃ handle opened p polls v, w.files.openNew output = .ok (handle, opened) ∧
      create available config = .ok p ∧ RunsFor device periodMs polls p ∧ v.files = opened ∧
      (steps device polls p).2.samples.length = kept ∧
      (Writer.mk output handle).appendSamples (steps device polls p).2.samples v = (.ok (), w') := by
  obtain ⟨result, u, hrun, hrest⟩ := Action.of_bind_eq_ok h
  obtain ⟨writer, u₁, hopen, hrun⟩ := Action.of_bind_eq_ok hrun
  obtain ⟨handle, opened, hopened, rfl, rfl⟩ := Writer.of_create_eq_ok hopen
  obtain ⟨p, u₂, hcreate, hrun⟩ := Action.of_bind_eq_ok hrun
  obtain ⟨hp, rfl⟩ := Action.of_ofExcept_eq_ok hcreate
  obtain ⟨probe?, u₃, hpoll, hpure⟩ := Action.of_bind_eq_ok hrun
  obtain ⟨hpolled, rfl⟩ := Action.of_ofExcept_eq_ok hpoll
  cases hpure
  cases probe? with
  | none => cases hrest
  | some q =>
    obtain ⟨n, hfinish, hn⟩ := Action.of_map_eq_ok hrest
    cases hn
    obtain ⟨v, hv, hrun⟩ := exists_finish_eq q ⟨output, handle⟩ { w with files := opened }
    obtain ⟨_, happend, hlength⟩ := Action.of_map_eq_ok (hrun.symm.trans hfinish)
    obtain ⟨polls, -, hruns, rfl⟩ := pollWithin_eq_some_iff.1 (of_run_eq_ok hpolled)
    exact ⟨handle, opened, p, polls, v, hopened, hp, hruns, hv, hlength, happend⟩

/-- What a regular file at a path holds, nothing if it is yet to be created. -/
inductive EarlierBytes (t : Tree) (path : Path) : List UInt8 → Prop
  | file {place : Location} {number : Nat} {content : List UInt8}
      (h : t.HasFile path place number content) : EarlierBytes t path content
  | absent {place : Location} (hplace : t.locateNew path = .ok place)
      (hnone : t.node? place = none) : EarlierBytes t path []

theorem EarlierBytes.opens {t : Tree} (h : EarlierBytes t output earlier)
    (hwritable : t.Writable output) : t.Opens output earlier := by
  cases h with
  | file hfile => exact hfile.opens hwritable
  | absent hplace hnone => exact opens_of_none hplace hwritable hnone

/-- Samples that were appended stand behind what the file held when it was opened. -/
theorem read_of_appendSamples {handle : Handle} {opened : Tree} {samples : List Sample} {v : World}
    (hearlier : EarlierBytes w.files output earlier)
    (hopened : w.files.openNew output = .ok (handle, opened)) (hv : v.files = opened)
    (happend : (Writer.mk output handle).appendSamples samples v = (.ok (), w')) :
    w'.files.read output = .ok (earlier ++ encodeAll (samples.map Sample.record)) := by
  obtain ⟨place, number, files, hopen, hplace, hfile⟩ :=
    hearlier.opens (exists_openNew_iff.1 ⟨handle, opened, hopened⟩)
  -- one file is opened, so that the writer has its place and number
  cases hopen.symm.trans hopened
  rw [← hv] at hfile
  obtain ⟨written, hwritten, hfiles⟩ := appends_append (Writer.mk output ⟨place, number⟩)
    (samples.map Sample.record) earlier v hfile
  cases hwritten.symm.trans happend
  exact (hfiles.hasFile hplace).read

/-! ## Measurements that fail early -/

theorem measure_of_runInto_error {failure : Failure}
    (h : runInto available output device config periodMs fuel w = (.error failure, w')) :
    measure available output device config periodMs fuel w = (.error failure, w') :=
  Action.bind_of_error h _

/-- Where the output cannot be opened, nothing happens. -/
theorem measure_of_openNew_error {fault : FileFault}
    (h : w.files.openNew output = .error fault) : ∃ failure, ∀ device fuel,
    measure available output device config periodMs fuel w = (.error failure, w) := by
  have hopen : Action.openNew output w = (.error (Cause.file fault).failure, w) :=
    Action.bind_of_error (Action.query_of_error h) _
  have hcreate := Action.bind_of_error (Action.within_of_error hopen (.openTraceForWriting output))
    fun handle => pure (Writer.mk output handle)
  exact ⟨_, fun device fuel => measure_of_runInto_error (Action.bind_of_error hcreate _)⟩

/-- Where the configuration or the period is rejected, the output has been opened and no more. -/
theorem measure_of_rejected {handle : Handle} {opened : Tree}
    (hopened : w.files.openNew output = .ok (handle, opened))
    (hrejected : (∃ cause, create available config = .error cause) ∨ periodMs = 0) :
    ∃ failure, ∀ device fuel, measure available output device config periodMs fuel w =
      (.error failure, { w with files := opened }) := by
  have hwriter := Writer.create_of_ok hopened
  cases hcreate : create available config with
  | error cause =>
    refine ⟨cause.failure, fun device fuel => measure_of_runInto_error ?_⟩
    rw [runInto, Action.bind_of_ok hwriter, hcreate]
    rfl
  | ok p =>
    have hperiod : periodMs = 0 := by
      rcases hrejected with ⟨cause, hcause⟩ | hperiod
      · cases hcause.symm.trans hcreate
      · exact hperiod
    refine ⟨Cause.zeroPeriod.failure, fun device fuel => measure_of_runInto_error ?_⟩
    rw [runInto, Action.bind_of_ok hwriter, hcreate, hperiod]
    rfl

/-- If a measurement ends, it has kept the last samples that it recorded, as many as fit, and its
output has their records behind what it held before, oldest first. If the output cannot be opened,
the outcome does not depend on what a device would have shown, and no file is there that was not. If
the configuration or the period is rejected, the outcome does not depend on that either, and every
file keeps its bytes. -/
theorem measure_spec (available : Nat) (output : Path) (config : Config) (periodMs : Nat)
    (w : World) :
    (∀ device fuel kept w',
      measure available output device config periodMs fuel w = (.ok (some kept), w') →
      ∃ p polls, create available config = .ok p ∧ RunsFor device periodMs polls p ∧
        let recorded := samplesOf (log device polls p)
        kept = min recorded.length config.capacity ∧
        ∀ earlier, EarlierBytes w.files output earlier → w'.files.read output =
          .ok (earlier ++
            encodeAll ((recorded.drop (recorded.length - kept)).map Sample.record))) ∧
    (∀ fault, w.files.openNew output = .error fault → ∃ failure, ∀ device fuel,
      measure available output device config periodMs fuel w = (.error failure, w)) ∧
    ((∃ cause, create available config = .error cause) ∨ periodMs = 0 → ∃ failure w',
      (∀ device fuel,
        measure available output device config periodMs fuel w = (.error failure, w')) ∧
      ∀ path place number content, w.files.HasFile path place number content →
        w'.files.HasFile path place number content) := by
  refine ⟨fun device fuel kept w' h => ?_, fun fault h => measure_of_openNew_error h,
    fun hrejected => ?_⟩
  · obtain ⟨handle, opened, p, polls, v, hopened, hp, hruns, hv, hkept, happend⟩ :=
      of_measure_eq_ok h
    refine ⟨p, polls, hp, hruns, ?_⟩
    intro recorded
    have hsamples : (steps device polls p).2.samples =
        recorded.drop (recorded.length - config.capacity) := samples_steps hp device polls
    have hlength : kept = min recorded.length config.capacity := by
      rw [← hkept, hsamples, List.length_drop]
      omega
    have hdrop : recorded.length - config.capacity = recorded.length - kept := by omega
    refine ⟨hlength, fun earlier hearlier => ?_⟩
    rw [read_of_appendSamples hearlier hopened hv happend, hsamples, hdrop]
  · cases hopened : w.files.openNew output with
    | error fault =>
      obtain ⟨failure, hmeasure⟩ := measure_of_openNew_error hopened
      exact ⟨failure, w, hmeasure, fun _ _ _ _ hfile => hfile⟩
    | ok out =>
      obtain ⟨failure, hmeasure⟩ := measure_of_rejected hopened hrejected
      exact ⟨failure, _, hmeasure, fun _ _ _ _ hfile => hfile.of_openNew hopened⟩

/-- Two jobs of three samples each into a ring of four, behind three bytes of before; an output that
is a directory; and a period that is rejected. -/
theorem measure_spec_two_jobs :
    let config : Config := { smallConfig 4 with runtimeMs := 20 }
    let w := worldWith [1, 2, 3]
    (∃ p w', create 4096 config = .ok p ∧ RunsFor twoJobs 10 2 p ∧
      measure 4096 ⟨"t.raw"⟩ twoJobs config 10 5 w = (.ok (some 4), w') ∧
      w'.files.read ⟨"t.raw"⟩ = .ok ([1, 2, 3] ++ encodeAll
        (((samplesOf (log twoJobs 2 p)).drop 2).map Sample.record))) ∧
    (w.files.openNew ⟨"."⟩ = .error .isDirectory ∧ ∃ failure, ∀ device fuel,
      measure 4096 ⟨"."⟩ device config 10 fuel w = (.error failure, w)) ∧
    ∃ failure w',
      (∀ device fuel, measure 4096 ⟨"t.raw"⟩ device config 0 fuel w = (.error failure, w')) ∧
      w'.files.HasFile ⟨"t.raw"⟩ ["t.raw"] 0 [1, 2, 3] := by
  intro config w
  have hfile : w.files.HasFile ⟨"t.raw"⟩ ["t.raw"] 0 [1, 2, 3] := ⟨rfl, rfl⟩
  refine ⟨?_, ?_, ?_⟩
  · have hkept : (measure 4096 ⟨"t.raw"⟩ twoJobs config 10 5 w).1.toOption.map id =
        some (some 4) := by decide +kernel
    obtain ⟨_, w', h, rfl⟩ := Action.exists_of_toOption_map hkept
    obtain ⟨p, polls, hp, hruns, -, hread⟩ :=
      (measure_spec 4096 ⟨"t.raw"⟩ config 10 w).1 twoJobs 5 4 w' h
    have htwo : RunsFor twoJobs 10 2 p := by
      obtain ⟨sets, hpos, rfl⟩ := create_ok hp
      refine ⟨fun i hi => ?_, rfl⟩
      obtain rfl | rfl : i = 0 ∨ i = 1 := by omega
      · rfl
      · rfl
    obtain rfl := hruns.unique htwo
    have hlength : (samplesOf (log twoJobs 2 p)).length = 6 := by
      obtain ⟨sets, hpos, rfl⟩ := create_ok hp
      rfl
    have hbytes := hread [1, 2, 3] (.file hfile)
    rw [hlength] at hbytes
    exact ⟨p, w', hp, htwo, h, hbytes⟩
  · have hopen : w.files.openNew ⟨"."⟩ = .error .isDirectory := rfl
    exact ⟨hopen, (measure_spec 4096 ⟨"."⟩ config 10 w).2.1 .isDirectory hopen⟩
  · obtain ⟨failure, w', hmeasure, hkeeps⟩ :=
      (measure_spec 4096 ⟨"t.raw"⟩ config 0 w).2.2 (.inr rfl)
    exact ⟨failure, w', hmeasure, hkeeps _ _ _ _ hfile⟩

end CacheDelay.Probe

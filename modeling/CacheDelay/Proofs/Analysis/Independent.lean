import CacheDelay.Proofs.Analysis.Batch
import CacheDelay.Proofs.Analysis.Runs
import CacheDelay.Proofs.Results

/-!
# Traces and groups of a batch on their own

A batch saves overheads while traces are still to be read. If none of its traces is one of the files
that it saves (`Apart`), each trace is recovered from what it held to begin with (`recover_congr`). A
batch without caps then gives for each trace the report that the trace has alone, and a capped batch
for each group the reports that the group has alone (`reportBatch_of_apart`).
-/

namespace CacheDelay.Analysis

open CacheDelay.Files CacheDelay.Files.Tree CacheDelay.Overhead CacheDelay.Overheads
open CacheDelay.Report CacheDelay.Topology

variable {topology : Topology} {config : Config} {plan : BatchPlan} {trace : Path}
  {traces group : List Path} {t : Tree} {w v v' : World} {r : Recovery}

/-- Where the overheads of traces are saved, with or without a separate L2 level. -/
def SavedBy (t : Tree) (hasL2 : Bool) (traces : List Path) (place : Location) : Prop :=
  ∃ trace ∈ traces, ∃ l, (l = .sameL2 → hasL2 = true) ∧
    t.locateNew (savedPath trace l) = .ok place

/-- None of the traces is a file where overheads of theirs are saved. -/
def Apart (t : Tree) (hasL2 : Bool) (traces : List Path) : Prop :=
  ∀ trace ∈ traces, ∀ place, SavedBy t hasL2 traces place → ¬ t.Denotes trace place

/-- Only overheads of the traces were saved since `w`. -/
def SavedSince (w : World) (hasL2 : Bool) (traces : List Path) (v : World) : Prop :=
  w.files.RewritesOnly (SavedBy w.files hasL2 traces) v.files

theorem SavedSince.refl (w : World) (hasL2 : Bool) (traces : List Path) :
    SavedSince w hasL2 traces w := RewritesOnly.refl w.files

/-- Traces that denote no file with a name of saved overheads are none of those files. -/
theorem apart_of_names {hasL2 : Bool}
    (h : ∀ trace ∈ traces, ∀ place, t.Denotes trace place → ∀ front : List Char,
      place.getLast? ≠ some (String.ofList (front ++ ".vbin".toList))) :
    Apart t hasL2 traces := by
  rintro trace hmem place ⟨other, -, l, -, hplace⟩ hdenotes
  obtain ⟨parent, hparent⟩ := exists_directory t other
  refine h trace hmem place hdenotes (other.stem ++ '_' :: l.label.toList) ?_
  rw [hparent l place hplace, List.getLast?_concat]
  rfl

/-! ## One trace -/

theorem SavedSince.recover (hv : SavedSince w config.hasL2 traces v) (hreplay : plan.reload = false)
    (hmem : trace ∈ traces) (h : recover topology config plan trace v = (.ok r, v')) :
    SavedSince w config.hasL2 traces v' := by
  obtain ⟨u, hu, hrun⟩ := exists_recover_eq_replay hreplay topology config trace v
  rw [hrun] at h
  have hrewrites := Recovery.rewritesOnly_of_replay h
  rw [hu] at hrewrites
  refine RewritesOnly.trans hv (hrewrites.mono ?_)
  rintro place ⟨l, hpresent, hplace⟩
  refine ⟨trace, hmem, l, ?_, (hv.places.locateNew_iff _ _).1 hplace⟩
  rintro rfl
  rw [← Recovery.hasL2_of_replay h]
  exact Option.isSome_iff_ne_none.2 hpresent

/-- What is recovered from a trace is decided by the files to begin with. -/
theorem recover_congr (hapart : Apart w.files config.hasL2 traces)
    (hv : SavedSince w config.hasL2 traces v) (hreplay : plan.reload = false)
    (hmem : trace ∈ traces) :
    (recover topology config plan trace v).1 = .ok r ↔
      (Recovery.replay trace topology config w).1 = .ok r := by
  obtain ⟨u, hu, hrun⟩ := exists_recover_eq_replay hreplay topology config trace v
  -- the trace has the content that it had, and its files can be written if they could
  have hcontent (content : List UInt8) :
      Trace.contentOf v.files trace = .ok content ↔ Trace.contentOf w.files trace = .ok content :=
    Trace.contentOf_iff_of_rewritesOnly hv (hapart trace hmem)
  rw [hrun, Recovery.replay_eq_ok_iff, Recovery.replay_eq_ok_iff, hu]
  simp only [hcontent, hv.places.writable_iff]

/-! ## Traces in turn -/

/-- Traces in turn are recovered as each of them is to begin with. -/
theorem mapM_recover_congr (hapart : Apart w.files config.hasL2 traces)
    (hv : SavedSince w config.hasL2 traces v) (hreplay : plan.reload = false)
    (hsub : ∀ trace ∈ group, trace ∈ traces) {recovered : List Recovery} :
    (group.mapM (recover topology config plan) v).1 = .ok recovered ↔
      List.Forall₂ (fun trace r => (Recovery.replay trace topology config w).1 = .ok r)
        group recovered := by
  refine Action.fst_mapM_eq_ok_iff (SavedSince w config.hasL2 traces) _ ?_ ?_ hv
  · intro trace hmem v hv r
    exact recover_congr hapart hv hreplay (hsub trace hmem)
  · intro trace hmem v r v' hv h
    exact hv.recover hreplay (hsub trace hmem) h

theorem reportOn_eq (trace : Path) (topology : Topology) (config : Config) :
    reportOn trace topology config =
      (·.report Limits.none config) <$> Recovery.replay trace topology config := by
  rw [reportOn, map_eq_pure_bind]

/-- A batch without caps gives the reports that its traces have alone. -/
theorem reportBatch_uncapped_congr (hapart : Apart w.files config.hasL2 traces)
    (hcap : plan.cap = false) (hreplay : plan.reload = false) {reports : List Report} :
    (reportBatch traces topology config plan w).1 = .ok reports ↔
      List.Forall₂ (fun trace report => (reportOn trace topology config w).1 = .ok report)
        traces reports := by
  rw [reportBatch_uncapped hcap, Action.map_mapM]
  refine Action.fst_mapM_eq_ok_iff (SavedSince w config.hasL2 traces) _ ?_ ?_ (.refl w _ _)
  · intro trace hmem v hv report
    simp only [reportOn_eq, Action.fst_map_eq_ok_iff, recover_congr hapart hv hreplay hmem]
  · intro trace hmem v report v' hv h
    obtain ⟨r, hrecover, -⟩ := Action.of_map_eq_ok h
    exact hv.recover hreplay hmem hrecover

/-! ## Groups -/

theorem SavedSince.reportGroup (hv : SavedSince w config.hasL2 traces v)
    (hreplay : plan.reload = false) (hsub : ∀ trace ∈ group, trace ∈ traces)
    {reports : List Report} (h : reportGroup topology config plan group v = (.ok reports, v')) :
    SavedSince w config.hasL2 traces v' := by
  rw [reportGroup_eq] at h
  obtain ⟨recovered, hrun, -⟩ := Action.of_map_eq_ok h
  refine Action.kept_of_mapM_eq_ok (SavedSince w config.hasL2 traces) ?_ hv hrun
  intro trace hmem v r v' hv h
  exact hv.recover hreplay (hsub trace hmem) h

/-- What is saved since does not change the reports on a group. -/
theorem reportGroup_congr (hapart : Apart w.files config.hasL2 traces)
    (hv : SavedSince w config.hasL2 traces v) (hreplay : plan.reload = false)
    (hsub : ∀ trace ∈ group, trace ∈ traces) {reports : List Report} :
    (reportGroup topology config plan group v).1 = .ok reports ↔
      (reportGroup topology config plan group w).1 = .ok reports := by
  simp only [reportGroup_eq, Action.fst_map_eq_ok_iff, mapM_recover_congr hapart hv hreplay hsub,
    mapM_recover_congr hapart (.refl w _ _) hreplay hsub]

/-- A batch that is one run of traces with one working set is one group. -/
theorem reportBatch_of_run (hplan : (plan.cap && plan.reload) = false)
    (h : MaximalRuns workingSet? group [group]) :
    reportBatch group topology config plan = reportGroup topology config plan group := by
  rw [reportBatch_eq hplan, splitBy_sameWorkingSet_iff.2 h]
  simp

/-- Each trace of a group has its report. -/
theorem map_trace_of_reportGroup {reports : List Report}
    (h : (reportGroup topology config plan group w).1 = .ok reports) :
    reports.map (·.trace) = group := by
  obtain ⟨w', h⟩ := Action.fst_eq_ok_iff.1 h
  rw [reportGroup_eq] at h
  obtain ⟨recovered, hrun, rfl⟩ := Action.of_map_eq_ok h
  rw [map_trace_of_mapM hrun, groupReports, List.map_map]
  rfl

/-- A batch without reloads gives, group by group, the reports that its groups have alone. -/
theorem reportBatch_groups_congr (hapart : Apart w.files config.hasL2 traces)
    (hreplay : plan.reload = false) {groups : List (List Path)}
    (hruns : MaximalRuns workingSet? traces groups) {reports : List Report} :
    (reportBatch traces topology config plan w).1 = .ok reports ↔
      ∃ parts, parts.flatten = reports ∧ List.Forall₂ (fun group part =>
        (reportBatch group topology config plan w).1 = .ok part ∧ part.map (·.trace) = group)
          groups parts := by
  have hplan : (plan.cap && plan.reload) = false := by rw [hreplay, Bool.and_false]
  have hsub : ∀ group ∈ groups, ∀ trace ∈ group, trace ∈ traces := by
    intro group hgroup trace hmem
    rw [← hruns.flatten]
    exact List.mem_flatten_of_mem hgroup hmem
  have hgroups (parts : List (List Report)) :
      (groups.mapM (reportGroup topology config plan) w).1 = .ok parts ↔
        List.Forall₂ (fun group part => (reportBatch group topology config plan w).1 = .ok part ∧
          part.map (·.trace) = group) groups parts := by
    refine Action.fst_mapM_eq_ok_iff (SavedSince w config.hasL2 traces) _ ?_ ?_ (.refl w _ _)
    · intro group hgroup v hv part
      rw [reportGroup_congr hapart hv hreplay (hsub group hgroup),
        reportBatch_of_run hplan (hruns.of_mem hgroup)]
      exact ⟨fun h => ⟨h, map_trace_of_reportGroup h⟩, fun h => h.1⟩
    · intro group hgroup v part v' hv h
      exact hv.reportGroup hreplay (hsub group hgroup) h
  rw [reportBatch_eq hplan, splitBy_sameWorkingSet_iff.2 hruns, Action.fst_map_eq_ok_iff]
  simp only [hgroups, and_comm]

/-- A batch whose traces are none of the files that it saves. Without caps it gives one report a
trace, in their order, as the trace has alone, and fails exactly if one of the traces does alone.
With caps it gives the reports that its groups have alone. -/
theorem reportBatch_of_apart (topology : Topology)
    (hapart : Apart w.files config.hasL2 traces) :
    (∀ reports, (reportBatch traces topology config { cap := false, reload := false } w).1 =
        .ok reports ↔
      List.Forall₂ (fun trace report => (reportOn trace topology config w).1 = .ok report)
        traces reports) ∧
    ((∃ failure, (reportBatch traces topology config { cap := false, reload := false } w).1 =
        .error failure) ↔
      ∃ trace ∈ traces, ∃ failure, (reportOn trace topology config w).1 = .error failure) ∧
    ∀ groups, MaximalRuns workingSet? traces groups → ∀ reports,
      (reportBatch traces topology config { cap := true, reload := false } w).1 = .ok reports ↔
        ∃ parts, parts.flatten = reports ∧ List.Forall₂ (fun group part =>
          (reportBatch group topology config { cap := true, reload := false } w).1 = .ok part ∧
            part.map (·.trace) = group) groups parts := by
  have huncapped (reports : List Report) :
      (reportBatch traces topology config { cap := false, reload := false } w).1 = .ok reports ↔
        List.Forall₂ (fun trace report => (reportOn trace topology config w).1 = .ok report)
          traces reports := reportBatch_uncapped_congr hapart rfl rfl
  refine ⟨huncapped, ?_, fun groups hruns reports => reportBatch_groups_congr hapart rfl hruns⟩
  simp only [Action.exists_error_iff, huncapped, exists_forall₂_iff, not_forall, exists_prop]

theorem apart_threeTraces : Apart threeTraces.files true
    [⟨"wss=1_a.raw"⟩, ⟨"wss=1_b.raw"⟩, ⟨"wss=2.raw"⟩] := by
  refine apart_of_names fun trace hmem place hdenotes front hname => ?_
  have hplace : place = [trace.text] := by
    simp only [List.mem_cons, List.not_mem_nil, or_false] at hmem
    rcases hmem with rfl | rfl | rfl <;> rcases hdenotes with h | h <;> cases h <;> rfl
  have hraw : trace.text.toList.getLast? = some 'w' := by
    simp only [List.mem_cons, List.not_mem_nil, or_false] at hmem
    rcases hmem with rfl | rfl | rfl <;> rfl
  rw [hplace, List.getLast?_singleton] at hname
  rw [Option.some.inj hname, String.toList_ofList, List.getLast?_append] at hraw
  cases hraw

/-- Two groups, of which the first is capped at one preemption. -/
theorem reportBatch_of_apart_three :
    let traces : List Path := [⟨"wss=1_a.raw"⟩, ⟨"wss=1_b.raw"⟩, ⟨"wss=2.raw"⟩]
    let groups : List (List Path) := [[⟨"wss=1_a.raw"⟩, ⟨"wss=1_b.raw"⟩], [⟨"wss=2.raw"⟩]]
    let topology : Topology := .linear ⟨2, 4, by decide⟩
    Apart threeTraces.files true traces ∧ MaximalRuns workingSet? traces groups ∧
      ∃ reports w' parts,
        reportBatch traces topology {} ⟨true, false⟩ threeTraces = (.ok reports, w') ∧
        reports.map (fun report => report.entries.map (·.used)) =
          [[1, 2, 0, 0], [1, 2, 0, 0], [3, 2, 0, 0]] ∧
        parts.flatten = reports ∧ List.Forall₂ (fun group part =>
          (reportBatch group topology {} ⟨true, false⟩ threeTraces).1 = .ok part ∧
            part.map (·.trace) = group) groups parts := by
  intro traces groups topology
  have hused : (reportBatch traces topology {} ⟨true, false⟩ threeTraces).1.toOption.map
      (·.map fun report => report.entries.map (·.used)) =
        some [[1, 2, 0, 0], [1, 2, 0, 0], [3, 2, 0, 0]] := by decide +kernel
  obtain ⟨reports, w', hrun, hreports⟩ := Action.exists_of_toOption_map hused
  have hapart : Apart threeTraces.files ({} : Config).hasL2 traces := apart_threeTraces
  obtain ⟨-, -, hgroups⟩ := reportBatch_of_apart topology hapart
  obtain ⟨parts, hparts, hgroup⟩ :=
    (hgroups groups maximalRuns_threeTraces reports).1 (Action.fst_eq_ok_iff.2 ⟨w', hrun⟩)
  exact ⟨apart_threeTraces, maximalRuns_threeTraces, reports, w', parts, hrun, hreports, hparts,
    hgroup⟩

end CacheDelay.Analysis

import CacheDelay.Proofs.Analysis.Batch

/-!
# Reports on reloaded batches

Reports have the same figures if their overheads lead to the same ones locality by locality
(`sameFigures_report_iff`). A batch that was replayed can be reloaded, and the reports then have the
figures of the replay exactly if the traces that share saved files had the same ones to begin with
(`reportBatch_reload`). Traces in one directory share their files
if they have one stem (`reportBatch_reload_of_one_stem`).
-/

namespace CacheDelay

open CacheDelay.Files CacheDelay.Files.Tree CacheDelay.Overheads CacheDelay.Report
open CacheDelay.Stats CacheDelay.Topology

namespace Report

variable {config : Config} {limits caps : Limits} {o o' : Overheads} {l : Locality}

/-- The figures of an entry, without the estimates of its quantiles. -/
def Entry.figures (e : Entry) :
    Locality × Nat × Nat × Summary Binary64 × Option (Rough Binary64) :=
  (e.locality, e.samples, e.used, e.summary, e.rough?)

/-- Two reports with the same number of overheads and the same figures, entry by entry. -/
structure SameFigures (r s : Report) : Prop where
  overheads : r.overheads = s.overheads
  entries : r.entries.map Entry.figures = s.entries.map Entry.figures

theorem SameFigures.symm {r s : Report} (h : SameFigures r s) : SameFigures s r :=
  ⟨h.overheads.symm, h.entries.symm⟩

theorem SameFigures.trans {r s u : Report} (h : SameFigures r s) (h' : SameFigures s u) :
    SameFigures r u := ⟨h.overheads.trans h'.overheads, h.entries.trans h'.entries⟩

/-- The figures of the overheads of a locality, if it is present. -/
def figures? (config : Config) (limits : Limits) (o : Overheads) (l : Locality) :
    Option (Locality × Nat × Nat × Summary Binary64 × Option (Rough Binary64)) :=
  (o.get? l).map fun values => (Entry.ofValues config limits (l, values)).figures

theorem figures_entries (config : Config) (limits : Limits) (o : Overheads) :
    (o.toList.map (Entry.ofValues config limits)).map Entry.figures =
      Locality.all.filterMap (figures? config limits o) := by
  rw [toList, List.map_filterMap, List.map_filterMap]
  simp only [Option.map_map]
  rfl

/-- The figures of a locality are found by its name. -/
theorem find?_figures? (config : Config) (limits : Limits) (o : Overheads) (l : Locality) :
    (Locality.all.filterMap (figures? config limits o)).find? (·.1 = l) =
      figures? config limits o l := by
  obtain ⟨sameCpu, sameL2?, sameChip, offChip⟩ := o
  cases sameL2? <;> cases l <;> rfl

/-- Equal figures are equal locality by locality. -/
theorem filterMap_figures?_inj :
    Locality.all.filterMap (figures? config limits o) =
        Locality.all.filterMap (figures? config limits o') ↔
      ∀ l, figures? config limits o l = figures? config limits o' l := by
  constructor
  · intro h l
    rw [← find?_figures? config limits o, h, find?_figures?]
  · exact fun h => congrArg (List.filterMap · Locality.all) (funext h)

/-- The figures tell the number of overheads. -/
theorem size_eq_of_figures
    (h : (o.toList.map (Entry.ofValues config limits)).map Entry.figures =
      (o'.toList.map (Entry.ofValues config limits)).map Entry.figures) : o.size = o'.size := by
  have hlengths : o.toList.map (·.2.length) = o'.toList.map (·.2.length) := by
    have hsamples := congrArg (List.map (·.2.1)) h
    simp only [List.map_map] at hsamples
    exact hsamples
  rw [size, size, List.length_flatMap, List.length_flatMap, hlengths]

/-- Reports have the same figures if their overheads have them, locality by locality. -/
theorem sameFigures_report_iff {r s : Analysis.Recovery} :
    SameFigures (r.report caps config) (s.report caps config) ↔ ∀ l,
      figures? config (config.limits.orElse caps) r.overheads l =
        figures? config (config.limits.orElse caps) s.overheads l := by
  rw [← filterMap_figures?_inj, ← figures_entries, ← figures_entries]
  constructor
  · exact fun h => h.entries
  · intro h
    exact ⟨size_eq_of_figures h, h⟩

end Report

namespace Analysis

variable {config : Config} {t t' : Tree} {done reloaded : List Recovery} {r s r' s' : Recovery}

/-- The report on a recovery without caps. -/
abbrev Recovery.uncappedReport (config : Config) (r : Recovery) : Report :=
  r.report Limits.none config

theorem map_trace_of_reload (h : List.Forall₂ (ReloadOf t done) done reloaded) :
    done.map (·.trace) = reloaded.map (·.trace) :=
  map_eq_map_of_forall₂ (h.imp fun _ _ hreload => hreload.trace)

theorem exists_mem_zip (h : List.Forall₂ (ReloadOf t done) done reloaded) (hr : r ∈ done) :
    ∃ r', (r, r') ∈ done.zip reloaded := by
  have hfst : (done.zip reloaded).map Prod.fst = done := List.map_fst_zip h.length_eq.le
  rw [← hfst] at hr
  obtain ⟨⟨r, r'⟩, hmem, rfl⟩ := List.mem_map.1 hr
  exact ⟨r', hmem⟩

/-- A reload has the figures of the replay if the last trace that shares its files has them. -/
theorem ReloadOf.sameFigures (h : ReloadOf t done r r')
    (hshared : ∀ s ∈ done, SharesFiles t r.trace s.trace →
      SameFigures (r.uncappedReport config) (s.uncappedReport config)) :
    SameFigures (r.uncappedReport config) (r'.uncappedReport config) := by
  obtain ⟨last, hlast, hoverheads⟩ := h.overheads
  have hsame := sameFigures_report_iff.1 (hshared last hlast.mem hlast.holds)
  exact sameFigures_report_iff.2 (by rwa [hoverheads])

/-- Reports on traces that share files have the same figures if their reloads have them. -/
theorem sameFigures_of_reload (h : Replayed config t done t') (hr : r ∈ done) (hs : s ∈ done)
    (hshares : SharesFiles t r.trace s.trace) (hr' : ReloadOf t done r r')
    (hs' : ReloadOf t done s s')
    (hsame : SameFigures (r.uncappedReport config) (r'.uncappedReport config))
    (hsame' : SameFigures (s.uncappedReport config) (s'.uncappedReport config)) :
    SameFigures (r.uncappedReport config) (s.uncappedReport config) := by
  have hreload : SameFigures (r'.uncappedReport config) (s'.uncappedReport config) := by
    rw [sameFigures_report_iff, ReloadOf.overheads_eq h hr hs hshares hr' hs']
    exact fun _ => rfl
  exact hsame.trans (hreload.trans hsame'.symm)

/-- The reloads of a batch have the figures of the replays exactly if traces that share files have
the same figures. -/
theorem forall₂_sameFigures_iff (h : Replayed config t done t')
    (hreload : List.Forall₂ (ReloadOf t done) done reloaded) :
    List.Forall₂ SameFigures (done.map (·.uncappedReport config))
        (reloaded.map (·.uncappedReport config)) ↔
      ∀ r ∈ done, ∀ s ∈ done, SharesFiles t r.trace s.trace →
        SameFigures (r.uncappedReport config) (s.uncappedReport config) := by
  obtain ⟨hlength, hof⟩ := List.forall₂_iff_zip.1 hreload
  rw [List.forall₂_map_left_iff, List.forall₂_map_right_iff, List.forall₂_iff_zip,
    and_iff_right hlength]
  constructor
  · intro hall r hr s hs hshares
    obtain ⟨r', hr'⟩ := exists_mem_zip hreload hr
    obtain ⟨s', hs'⟩ := exists_mem_zip hreload hs
    exact sameFigures_of_reload h hr hs hshares (hof hr') (hof hs') (hall hr') (hall hs')
  · intro hshared r r' hmem
    exact (hof hmem).sameFigures (hshared r (List.of_mem_zip hmem).1)

/-- A world of two traces: one of two hot passes and an event, and an empty one. -/
def twoTraces (first second : String) : World where
  files := {
    workingDirectory := []
    entries := [
      .file [first] 0
        ([⟨72, 100, 0, 0⟩, ⟨72, 100, 0, 0⟩, ⟨80, 150, 0, 7⟩].flatMap Trace.Record.encode),
      .file [second] 1 []]
    fresh := 2 }
  warnings := []
  output := ""

/-- After a batch was replayed, a reload of it succeeds. The reports on the reloaded overheads have
the figures of the replay, trace by trace, exactly if traces that share saved files have the same
figures. -/
theorem reportBatch_reload {traces : List Path} {topology : Topology} {config : Config}
    {reports : List Report} {w w' : World}
    (h : reportBatch traces topology config { cap := false, reload := false } w =
      (.ok reports, w')) :
    ∃ reloaded w'',
      reportBatch traces topology config { cap := false, reload := true } w' =
        (.ok reloaded, w'') ∧
      reports.map (·.trace) = traces ∧ reloaded.map (·.trace) = traces ∧
      (List.Forall₂ SameFigures reports reloaded ↔
        ∀ r ∈ reports, ∀ s ∈ reports, SharesFiles w.files r.trace s.trace → SameFigures r s) := by
  rw [reportBatch_uncapped rfl] at h
  obtain ⟨done, hdone, rfl⟩ := Action.of_map_eq_ok h
  have hreplayed := replayed_of_mapM rfl hdone
  have htraces := map_trace_of_mapM hdone
  have hplan : ({ cap := false, reload := true } : BatchPlan).reload = true := rfl
  obtain ⟨reloaded, w'', hrun, hreload⟩ := exists_reload hplan hreplayed
  rw [← htraces] at hrun
  refine ⟨reloaded.map (·.uncappedReport config), w'', ?_, ?_, ?_, ?_⟩
  · rw [reportBatch_uncapped rfl]
    exact Action.map_of_ok hrun _
  · rw [List.map_map, htraces]
    rfl
  · rw [List.map_map, htraces, map_trace_of_reload hreload]
    rfl
  · simp only [List.forall_mem_map]
    exact forall₂_sameFigures_iff hreplayed hreload

/-- Traces of two stems are reloaded with the figures of their replays. -/
theorem reportBatch_reload_of_two_stems :
    let traces : List Path := [⟨"pm.raw"⟩, ⟨"job.raw"⟩]
    let topology : Topology := .linear ⟨2, 4, by decide⟩
    ∃ reports reloaded w' w'',
      reportBatch traces topology {} ⟨false, false⟩ (twoTraces "pm.raw" "job.raw") =
        (.ok reports, w') ∧
      reportBatch traces topology {} ⟨false, true⟩ w' = (.ok reloaded, w'') ∧
      List.Forall₂ SameFigures reports reloaded := by
  intro traces topology
  have hsucceeds : (reportBatch traces topology {} ⟨false, false⟩
      (twoTraces "pm.raw" "job.raw")).1.isOk := by decide +kernel
  obtain ⟨reports, w', h⟩ := Action.exists_of_isOk hsucceeds
  obtain ⟨reloaded, w'', hreload, htraces, -, hiff⟩ := reportBatch_reload h
  refine ⟨reports, reloaded, w', w'', h, hreload, hiff.2 fun r hr s hs hshares => ?_⟩
  obtain ⟨first, rest, rfl, hfirst, hrest⟩ := List.map_eq_cons_iff.1 htraces
  obtain ⟨second, rest, rfl, hsecond, hrest⟩ := List.map_eq_cons_iff.1 hrest
  obtain rfl := List.map_eq_nil_iff.1 hrest
  have hstem : first.trace.stem ≠ second.trace.stem := by
    rw [hfirst, hsecond]
    decide
  have hsame := hshares.stem_eq
  rcases List.mem_pair.1 hr with rfl | rfl <;> rcases List.mem_pair.1 hs with rfl | rfl
  · exact ⟨rfl, rfl⟩
  · exact absurd hsame hstem
  · exact absurd hsame.symm hstem
  · exact ⟨rfl, rfl⟩

/-- Two traces of one stem: the overhead of the first is not reloaded. -/
theorem reportBatch_reload_of_one_stem :
    let traces : List Path := [⟨"pm.raw"⟩, ⟨"pm.dat"⟩]
    let topology : Topology := .linear ⟨2, 4, by decide⟩
    ∃ reports reloaded w' w'', traces.Nodup ∧
      reportBatch traces topology {} ⟨false, false⟩ (twoTraces "pm.raw" "pm.dat") =
        (.ok reports, w') ∧
      reportBatch traces topology {} ⟨false, true⟩ w' = (.ok reloaded, w'') ∧
      reports.map (·.overheads) = [1, 0] ∧ reloaded.map (·.overheads) = [0, 0] := by
  intro traces topology
  let w := twoTraces "pm.raw" "pm.dat"
  let replay := reportBatch traces topology {} ⟨false, false⟩
  let reload := reportBatch traces topology {} ⟨false, true⟩
  have hcounts : (replay w).1.toOption.map (·.map (·.overheads)) = some [1, 0] := by
    decide +kernel
  have hcounts' : (reload (replay w).2).1.toOption.map (·.map (·.overheads)) = some [0, 0] := by
    decide +kernel
  obtain ⟨reports, w', hreplay, hreports⟩ := Action.exists_of_toOption_map hcounts
  rw [hreplay] at hcounts'
  obtain ⟨reloaded, w'', hreload, hreloaded⟩ := Action.exists_of_toOption_map hcounts'
  exact ⟨reports, reloaded, w', w'', by decide, hreplay, hreload, hreports, hreloaded⟩

end Analysis

end CacheDelay

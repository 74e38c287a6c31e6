import CacheDelay.Cli.Run
import CacheDelay.Proofs.Analysis.Capped
import CacheDelay.Proofs.Analysis.Frames
import CacheDelay.Proofs.Report.Table

/-!
# Reports that are published

All traces are analysed before the first report is published (`analyze_eq`). Until then nothing is
printed and no table is changed (`frame_gather`), so that a trace that cannot be analysed prevents
all output. Reports that are published one after the other are printed in order, and each adds its
rows to the tables (`exists_publishAll`).
-/

namespace CacheDelay.Cli

open CacheDelay.Analysis CacheDelay.Files CacheDelay.Files.Tree CacheDelay.Overheads
open CacheDelay.Report CacheDelay.Topology

variable {host : Host} {args : AnalyzeArgs} {verbose : Bool} {dir : Path} {w w' : World}
  {reports : List Report}

/-! ## Analysis -/

/-- The topology and the configuration that the arguments describe. -/
def settingsOf (host : Host) (args : AnalyzeArgs) : Action (Topology × Report.Config) := do
  let (mhz, unit) ← clockOf host args
  let topology ← topologyOf args
  let config : Report.Config :=
    { hotWindow := args.hotReads, mhz, unit, limits := args.limits, extent? := args.extent?
      hasL2 := topology.hasL2, approximate := host.approximate }
  Action.ofExcept config.validate
  pure (topology, config)

/-- How the traces are analysed. -/
def planOf (args : AnalyzeArgs) : BatchPlan := ⟨args.autocap, args.readSaved⟩

/-- The reports on the traces, in order. -/
def gather (host : Host) (args : AnalyzeArgs) : Action (List Report) := do
  let (topology, config) ← settingsOf host args
  reportBatch args.traces topology config (planOf args)

/-- The reports are published once all of them are there. -/
theorem analyze_eq (host : Host) (args : AnalyzeArgs) (verbose : Bool) :
    analyze host args verbose =
      gather host args >>= fun reports => reports.forM (publish args verbose) := by
  simp only [analyze, gather, settingsOf, planOf, bind_assoc, pure_bind]

theorem frame_clockOf (host : Host) (args : AnalyzeArgs) :
    Action.Frame OnlySaved (clockOf host args) := by
  rw [clockOf]
  split
  · exact Action.frame_pure _
  · split
    · exact Action.frame_pure _
    · exact (frame_warn _).bind fun _ => Action.frame_pure _

theorem frame_topologyOf (args : AnalyzeArgs) : Action.Frame OnlySaved (topologyOf args) := by
  rw [topologyOf]
  split
  · exact (Action.frame_ofExcept _).bind fun _ => Action.frame_pure _
  · exact (Action.frame_ofExcept _).bind fun _ => Action.frame_pure _
  · exact (Hierarchy.frame_read _).bind fun _ => Action.frame_pure _

/-- Nothing is printed and no file is changed before the reports are there, but files for
overheads. -/
theorem frame_gather (host : Host) (args : AnalyzeArgs) :
    Action.Frame OnlySaved (gather host args) := by
  have hsettings : Action.Frame OnlySaved (settingsOf host args) := by
    refine (frame_clockOf host args).bind fun clock => ?_
    refine (frame_topologyOf args).bind fun topology => ?_
    exact (Action.frame_ofExcept _).bind fun _ => Action.frame_pure _
  exact hsettings.bind fun settings =>
    frame_reportBatch settings.1 settings.2 (planOf args) args.traces

/-- Once its settings are known, an analysis gives reports if its plan is not refused and its traces
can be recovered in turn. -/
theorem exists_gather_iff {topology : Topology} {config : Report.Config}
    (h : settingsOf host args w = (.ok (topology, config), w')) :
    (∃ reports, (gather host args w).1 = .ok reports) ↔
      ((planOf args).cap && (planOf args).reload) = false ∧ ∃ recovered,
        (args.traces.mapM (recover topology config (planOf args)) w').1 = .ok recovered := by
  have hrun : gather host args w = reportBatch args.traces topology config (planOf args) w' :=
    Action.bind_of_ok h _
  rw [hrun]
  exact exists_reportBatch_iff

/-- Each trace has its report, and each report its name and parameters from a trace. -/
theorem of_gather_eq_ok (h : gather host args w = (.ok reports, w')) :
    (reports.map fun r => (r.trace, r.params)) =
        args.traces.map (fun trace => (trace, Params.ofName trace)) ∧
      ∀ r ∈ reports, r.Tabular := by
  obtain ⟨⟨topology, config⟩, v, -, hbatch⟩ := Action.of_bind_eq_ok h
  obtain ⟨groups, hrun, -, rfl⟩ := of_reportBatch_eq_ok hbatch
  constructor
  · rw [map_trace_of_mapM hrun, List.map_map, List.map_flatten, List.map_flatten, List.map_map]
    congr 2
    funext group
    simp only [Function.comp_apply, groupReports, List.map_map]
    rfl
  · intro r hr
    obtain ⟨part, hpart, hr⟩ := List.mem_flatten.1 hr
    obtain ⟨group, -, rfl⟩ := List.mem_map.1 hpart
    obtain ⟨recovery, -, rfl⟩ := List.mem_map.1 hr
    exact tabular_ofOverheads ..

/-! ## Publication -/

/-- What is printed of a report. -/
def shown (args : AnalyzeArgs) (verbose : Bool) (r : Report) : String :=
  if args.json then r.renderDocument ++ "\n" else r.render verbose

/-- The rows of reports for a table, in their order. -/
def tableRows (reports : List Report) (size : String) (l : Locality) : List String :=
  reports.filterMap (·.row? size l)

/-- The reports are printed in `w'` behind what was printed in `w`, and their rows are added to the
tables in `dir`. -/
structure Published (args : AnalyzeArgs) (verbose : Bool) (dir : Path) (reports : List Report)
    (w w' : World) : Prop where
  output : w'.output = w.output ++ String.join (reports.map (shown args verbose))
  files : Tabulated dir (tableRows reports) w.files w'.files

theorem tableRows_append (before after : List Report) : tableRows (before ++ after) =
    fun size l => tableRows before size l ++ tableRows after size l := by
  funext size l
  exact List.filterMap_append

theorem tableRows_singleton (r : Report) :
    tableRows [r] = fun size l => (r.row? size l).toList := by
  funext size l
  rw [tableRows, List.filterMap_cons]
  cases r.row? size l <;> rfl

theorem Published.refl (args : AnalyzeArgs) (verbose : Bool) (dir : Path) (w : World) :
    Published args verbose dir [] w w where
  output := by simp
  files := .refl dir w.files

theorem Published.trans {before after : List Report} {v : World}
    (h : Published args verbose dir before w v) (h' : Published args verbose dir after v w') :
    Published args verbose dir (before ++ after) w w' where
  output := by rw [h'.output, h.output, List.map_append, String.join_append, String.append_assoc]
  files := by
    rw [tableRows_append]
    exact h.files.trans h'.files

/-- A report is published, if the tables take its rows. -/
theorem exists_publish {r : Report} (hdir : args.csvDirectory? = some dir) (hr : r.Tabular)
    (h : TakesRows w.files dir r) :
    ∃ w', publish args verbose r w = (.ok (), w') ∧ Published args verbose dir [r] w w' := by
  let v : World := { w with output := w.output ++ shown args verbose r }
  obtain ⟨paths, files, happend, hfiles⟩ := exists_appendRows hr (show TakesRows v.files dir r from h)
  have hpublish : publish args verbose r =
      (do Action.print (shown args verbose r); let _ ← r.appendRows dir) := by
    rw [publish, hdir]
    rfl
  have hprint : Action.print (shown args verbose r) w = (.ok (), v) := rfl
  refine ⟨{ v with files }, ?_, ?_, ?_⟩
  · rw [hpublish, Action.bind_of_ok hprint, Action.bind_of_ok happend]
    rfl
  · simp [v]
  · rw [tableRows_singleton]
    exact hfiles

/-- Reports are published in turn, if the tables take their rows to begin with. -/
theorem exists_publishAll (hdir : args.csvDirectory? = some dir)
    (hreports : ∀ r ∈ reports, r.Tabular) (h : ∀ r ∈ reports, TakesRows w.files dir r) :
    ∃ w', reports.forM (publish args verbose) w = (.ok (), w') ∧
      Published args verbose dir reports w w' := by
  have hstep : ∀ r ∈ reports, ∀ done (found : List Unit) v, Published args verbose dir done w v →
      ∃ u v', publish args verbose r v = (.ok u, v') ∧
        Published args verbose dir (done ++ [r]) w v' := by
    intro r hr done found v hdone
    have htakes := (h r hr).of_samePlaces hdone.files.places
    obtain ⟨v', hrun, hpublished⟩ := exists_publish hdir (hreports r hr) htakes
    exact ⟨(), v', hrun, hdone.trans hpublished⟩
  obtain ⟨results, w', hrun, hpublished⟩ := Action.exists_mapM_of_step
    (fun v done _ => Published args verbose dir done w v) hstep [] []
    (.refl args verbose dir w)
  refine ⟨w', ?_, hpublished⟩
  rw [Action.forM_eq_map_mapM]
  exact Action.map_of_ok hrun _

/-! ## All reports or none -/

theorem not_isSavedName_csv (stem : String) : ¬ IsSavedName (stem ++ ".csv") := by
  rintro ⟨trace, l, h⟩
  have hlast := congrArg (fun name => name.toList.getLast?) h
  simp only [String.toList_append, String.toList_ofList, savedName, List.getLast?_append] at hlast
  cases hlast

/-- A file with the extension of tables is none for overheads. -/
theorem node?_csv_of_onlySaved (h : OnlySaved w w') (parent : Location) (stem : String) :
    w'.files.node? (parent ++ [stem ++ ".csv"]) = w.files.node? (parent ++ [stem ++ ".csv"]) := by
  refine h.others _ fun name hname => ?_
  rw [List.getLast?_concat] at hname
  rw [← Option.some.inj hname]
  exact not_isSavedName_csv stem

theorem node?_table_of_onlySaved {size : String} {l : Locality} {place : Location}
    (h : OnlySaved w w') (hsize : '/' ∉ size.toList)
    (hplace : w.files.locateNew (tablePath dir size l) = .ok place) :
    w'.files.node? place = w.files.node? place := by
  obtain ⟨parent, hparent⟩ := exists_parent_of_tablePath w.files dir
  rw [hparent size l place hsize hplace]
  exact node?_csv_of_onlySaved h parent ("pm_wss=" ++ size ++ "_ovd=" ++ l.label)

/-- An analysis of traces with a directory for tables. If all traces have their reports, in order, and
the tables take the rows, the reports are printed and each table holds what it held before the
analysis and then its rows; since the traces were analysed no other file is changed. If there are no
reports, nothing is printed and no table is created or changed. With given settings there are reports
if all traces can be recovered in turn, unless caps are asked for where overheads are reloaded. -/
theorem analyze_all_or_nothing (host : Host) (verbose : Bool) (w : World)
    (hdir : args.csvDirectory? = some dir) :
    (∀ reports v, gather host args w = (.ok reports, v) →
      (∀ r ∈ reports, TakesRows w.files dir r) →
      (reports.map fun r => (r.trace, r.params)) =
          args.traces.map (fun trace => (trace, Params.ofName trace)) ∧
      ∃ w', analyze host args verbose w = (.ok (), w') ∧
        w'.output = w.output ++ String.join (reports.map (shown args verbose)) ∧
        (∀ size l place, '/' ∉ size.toList →
          w.files.locateNew (tablePath dir size l) = .ok place →
          Appended (w.files.node? place) (linesBytes (tableRows reports size l))
            (w'.files.node? place)) ∧
        ∀ place, (∀ size l, '/' ∉ size.toList → tableRows reports size l ≠ [] →
          w.files.locateNew (tablePath dir size l) ≠ .ok place) →
          w'.files.node? place = v.files.node? place) ∧
    (∀ failure v, gather host args w = (.error failure, v) →
      analyze host args verbose w = (.error failure, v) ∧ v.output = w.output ∧
      ∀ parent stem, v.files.node? (parent ++ [stem ++ ".csv"]) =
        w.files.node? (parent ++ [stem ++ ".csv"])) ∧
    ∀ topology config v, settingsOf host args w = (.ok (topology, config), v) →
      ((∃ reports, (gather host args w).1 = .ok reports) ↔
        ((planOf args).cap && (planOf args).reload) = false ∧ ∃ recovered,
          (args.traces.mapM (recover topology config (planOf args)) v).1 = .ok recovered) := by
  have hframe := frame_gather host args
  refine ⟨fun reports v hgather htakes => ?_, fun failure v hgather => ?_,
    fun topology config v hsettings => exists_gather_iff hsettings⟩
  · have hsaved := hframe.of_eq hgather
    obtain ⟨hnames, htabular⟩ := of_gather_eq_ok hgather
    have htakes' : ∀ r ∈ reports, TakesRows v.files dir r :=
      fun r hr => (htakes r hr).of_samePlaces hsaved.places
    obtain ⟨w', hpublish, hpublished⟩ := exists_publishAll hdir htabular htakes'
    refine ⟨hnames, w', ?_, ?_, fun size l place hsize hplace => ?_, fun place hplace => ?_⟩
    · rw [analyze_eq, Action.bind_of_ok hgather]
      exact hpublish
    · rw [hpublished.output, hsaved.output]
    · rw [← node?_table_of_onlySaved hsaved hsize hplace]
      exact hpublished.files.tables size l place hsize ((hsaved.places.locateNew_iff _ _).2 hplace)
    · refine hpublished.files.others place fun size l hsize hrows => ?_
      rw [ne_eq, hsaved.places.locateNew_iff]
      exact hplace size l hsize hrows
  · have hsaved := hframe.of_eq hgather
    refine ⟨?_, hsaved.output, node?_csv_of_onlySaved hsaved⟩
    rw [analyze_eq, Action.bind_of_error hgather]

/-- Three traces beside a directory with a table. -/
def tracesAndTable : World where
  files := { threeTraces.files with
    entries := threeTraces.files.entries ++ [.directory ["csv"],
      .file ["csv", "pm_wss=1_ovd=preemption.csv"] 3 "tss\n".toUTF8.toList]
    fresh := 4 }
  warnings := []
  output := ""

/-- An analysis in cycles with that directory for tables. -/
def tabulate (traces : List Path) : AnalyzeArgs where
  traces := traces
  topology := .linear
  coresPerL2 := 2
  chips := 1
  coresPerChip := 4
  sysfsRoot := systemCpus
  mhz? := none
  cycles := true
  hotReads := 2
  limits := Limits.none
  extent? := none
  csvDirectory? := some ⟨"csv"⟩
  json := false
  autocap := false
  readSaved := false

/-- A machine of which nothing is known. -/
def unknownHost : Host where
  clock := ⟨none, none⟩
  cycles _ := 0
  draw _ _ last := ⟨0, last.succ_pos⟩
  approximate := Stats.Distribution.digested
  isRoot := false
  memory := ⟨0, 0, 0⟩
  fuel := 0

theorem writable_tracesAndTable {size : String} (h : size ∈ ["1", "1", "2"]) (l : Locality) :
    tracesAndTable.files.Writable (tablePath ⟨"csv"⟩ size l) := by
  have hsize : size = "1" ∨ size = "2" := by simpa using h
  rcases hsize with rfl | rfl <;> cases l <;> exact ⟨_, rfl, rfl⟩

/-- Two traces add their rows to the table that is there. Not so if another trace is missing. -/
theorem analyze_all_or_nothing_three :
    let traces : List Path := [⟨"wss=1_a.raw"⟩, ⟨"wss=1_b.raw"⟩, ⟨"wss=2.raw"⟩]
    let table : Location := ["csv", "pm_wss=1_ovd=preemption.csv"]
    ∃ reports w' failure v,
      analyze unknownHost (tabulate traces) false tracesAndTable = (.ok (), w') ∧
      (tableRows reports "1" .sameCpu).length = 2 ∧
      w'.files.node? table =
        some (.file 3 ("tss\n".toUTF8.toList ++ linesBytes (tableRows reports "1" .sameCpu))) ∧
      analyze unknownHost (tabulate (traces ++ [⟨"wss=3.raw"⟩])) false tracesAndTable =
        (.error failure, v) ∧
      v.output = "" ∧ v.files.node? table = some (.file 3 "tss\n".toUTF8.toList) := by
  intro traces table
  have hrun : (gather unknownHost (tabulate traces) tracesAndTable).1.toOption.map (fun reports =>
      (reports.map (·.workingSet), (tableRows reports "1" .sameCpu).length)) =
        some (["1", "1", "2"], 2) := by decide +kernel
  obtain ⟨reports, u, hgather, hreports⟩ := Action.exists_of_toOption_map hrun
  obtain ⟨hsizes, hlength⟩ := Prod.mk.inj hreports
  have hmissing : (gather unknownHost (tabulate (traces ++ [⟨"wss=3.raw"⟩])) tracesAndTable).1.isOk =
      false := by decide +kernel
  obtain ⟨failure, v, hfails⟩ := Action.exists_of_not_isOk hmissing
  have hdir (traces : List Path) : (tabulate traces).csvDirectory? = some ⟨"csv"⟩ := rfl
  obtain ⟨hall, -, -⟩ := analyze_all_or_nothing unknownHost false tracesAndTable (hdir traces)
  obtain ⟨-, hnothing, -⟩ :=
    analyze_all_or_nothing unknownHost false tracesAndTable (hdir (traces ++ [⟨"wss=3.raw"⟩]))
  have htakes : ∀ r ∈ reports, TakesRows tracesAndTable.files ⟨"csv"⟩ r := fun r hr e _ =>
    writable_tracesAndTable (hsizes ▸ List.mem_map_of_mem hr) e.locality
  obtain ⟨-, w', hanalyze, -, htables, -⟩ := hall reports u hgather htakes
  obtain ⟨hanalyze', houtput, hcsv⟩ := hnothing failure v hfails
  have htable := htables "1" .sameCpu table (by decide) rfl
  exact ⟨reports, w', failure, v, hanalyze, hlength, htable.eq_of_file, hanalyze', houtput,
    hcsv ["csv"] "pm_wss=1_ovd=preemption"⟩

end CacheDelay.Cli

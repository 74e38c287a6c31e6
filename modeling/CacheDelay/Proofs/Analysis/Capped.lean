import CacheDelay.Proofs.Analysis.Batch
import CacheDelay.Proofs.Analysis.Runs

/-!
# Capped batches

In each group of a capped batch one trace sets the caps: the first of those with the fewest
preemptions (`exists_fewestPreemptions`). The traces of a group have the same localities, so that
each entry of a report has a limit, that of the configuration or the count of this trace, and its
statistics are those of as many values as the limit admits of those that the outlier bounds keep
(`cappedEntry_ofValues`, `reportBatch_capped`).
-/

namespace CacheDelay

open CacheDelay.Files CacheDelay.Overheads CacheDelay.Report CacheDelay.Stats CacheDelay.Topology

/-! ## Values of one entry -/

namespace Report

variable {config : Config} {values : List Int64} {limit : Nat}

/-- Values as the numbers that enter statistics. -/
def numbers (values : List Int64) : List Binary64 := values.map fun v => Binary64.ofInt v.toInt

/-- The numbers that the outlier bounds of a configuration keep. -/
def kept (config : Config) (values : List Int64) : List Binary64 :=
  match config.extent? with
  | none => numbers values
  | some extent => withinQuartiles (numbers values) extent

/-- The numbers kept are in the order of the values. -/
theorem kept_sublist (config : Config) (values : List Int64) :
    (kept config values).Sublist (numbers values) := by
  rw [kept]
  split
  · exact List.Sublist.refl _
  · rw [withinQuartiles]
    split
    · exact List.Sublist.refl _
    · split
      · exact List.nil_sublist _
      · exact List.filter_sublist

theorem usedValues_of_limit (config : Config) (values : List Int64) (limit : Nat) :
    usedValues config.extent? (some limit) values = (kept config values).take limit := by
  rw [kept]
  cases config.extent? <;> rfl

/-- The statistics of an entry are those of the given numbers. -/
structure Describes (config : Config) (used : List Binary64) (e : Entry) : Prop where
  summary : e.summary = Summary.ofValues used config.mhz
  rough : e.rough? = Rough.ofValues used config.mhz
  estimates : e.estimates? = if used.isEmpty then none
    else some (config.approximate (used.map (· / config.mhz))).estimates

/-- The entry of the values of a locality under its limit: that of the configuration, or else the
count of the overheads that set the caps. It describes the first of the numbers kept. -/
structure CappedEntry (config : Config) (fewest : Overheads) (present : Locality × List Int64)
    (e : Entry) : Prop where
  locality : e.locality = present.1
  samples : e.samples = present.2.length
  order : (kept config present.2).Sublist (numbers present.2)
  capped : ∃ limit,
    (config.limits.get present.1).or ((fewest.get? present.1).map List.length) = some limit ∧
    e.used = min limit (kept config present.2).length ∧
    Describes config ((kept config present.2).take limit) e

theorem cappedEntry_ofValues {fewest : Overheads} {l : Locality} (h : fewest.get? l ≠ none)
    (config : Config) (values : List Int64) :
    CappedEntry config fewest (l, values)
      (Entry.ofValues config (config.limits.orElse fewest.counts) (l, values)) := by
  refine ⟨rfl, rfl, kept_sublist config values, ?_⟩
  obtain ⟨cap, hcap⟩ := Option.ne_none_iff_exists'.1 h
  have hlimit : (config.limits.orElse fewest.counts).get l =
      (config.limits.get l).or ((fewest.get? l).map List.length) := by
    rw [Limits.orElse, ByLocality.get_ofFun, counts, ByLocality.get_ofFun]
  obtain ⟨limit, hlimit'⟩ : ∃ limit,
      (config.limits.get l).or ((fewest.get? l).map List.length) = some limit := by
    rw [hcap]
    cases config.limits.get l with
    | none => exact ⟨cap.length, rfl⟩
    | some limit => exact ⟨limit, rfl⟩
  have hused : usedValues config.extent? ((config.limits.orElse fewest.counts).get l) values =
      (kept config values).take limit := by
    rw [hlimit, hlimit', usedValues_of_limit]
  refine ⟨limit, hlimit', ?_, ?_⟩
  · show (usedValues config.extent? _ values).length = _
    rw [hused, List.length_take]
  · rw [← hused]
    exact ⟨rfl, rfl, rfl⟩

end Report

namespace Analysis

variable {topology : Topology} {config : Config} {traces : List Path} {w w' : World}
  {reports : List Report}

/-! ## The trace that sets the caps -/

section

variable {α : Type} {measure : α → Nat} {items : List α} {least : α}

/-- The first of `items` of which the measure is least. -/
def IsFirstLeast (measure : α → Nat) (items : List α) (least : α) : Prop :=
  ∃ before after, items = before ++ least :: after ∧
    (∀ item ∈ before, measure least < measure item) ∧
    ∀ item ∈ after, measure least ≤ measure item

theorem IsFirstLeast.mem (h : IsFirstLeast measure items least) : least ∈ items := by
  obtain ⟨before, after, rfl, -, -⟩ := h
  exact List.mem_append_right before List.mem_cons_self

theorem IsFirstLeast.le (h : IsFirstLeast measure items least) :
    ∀ item ∈ items, measure least ≤ measure item := by
  obtain ⟨before, after, rfl, hbefore, hafter⟩ := h
  intro item hitem
  rcases List.mem_append.1 hitem with hitem | hitem
  · exact (hbefore item hitem).le
  · rcases List.mem_cons.1 hitem with rfl | hitem
    · exact le_rfl
    · exact hafter item hitem

end

/-- The number of preemptions of a trace. -/
def Recovery.preemptions (r : Recovery) : Nat := r.overheads.sameCpu.length

theorem exists_fewestPreemptions {recovered : List Recovery} (h : recovered ≠ []) :
    ∃ fewest, fewestPreemptions? recovered = some fewest ∧
      IsFirstLeast Recovery.preemptions recovered fewest := by
  induction recovered using List.reverseRecOn with
  | nil => exact absurd rfl h
  | append_singleton before r ih =>
    rw [fewestPreemptions?, List.foldl_concat, ← fewestPreemptions?]
    by_cases hbefore : before = []
    · subst hbefore
      exact ⟨r, rfl, [], [], rfl, nofun, nofun⟩
    obtain ⟨fewest, hfewest, hleast⟩ := ih hbefore
    rw [hfewest]
    by_cases hlt : r.preemptions < fewest.preemptions
    · -- below the least so far, and so below all before
      refine ⟨r, if_pos hlt, before, [], rfl, fun item hitem => ?_, nofun⟩
      exact hlt.trans_le (hleast.le item hitem)
    · -- a tie leaves the earlier one
      obtain ⟨front, back, rfl, hfront, hback⟩ := hleast
      refine ⟨fewest, if_neg hlt, front, back ++ [r], ?_, hfront, fun item hitem => ?_⟩
      · rw [List.append_assoc, List.cons_append]
      · rcases List.mem_append.1 hitem with hitem | hitem
        · exact hback item hitem
        · rw [List.mem_singleton.1 hitem]
          exact Nat.le_of_not_lt hlt

/-! ## Groups -/

/-- A report on a trace under the limits that the trace with the fewest preemptions sets: its
entries are those of the localities present, nearest first. -/
structure CappedReport (config : Config) (fewest r : Recovery) (report : Report) : Prop where
  trace : report.trace = r.trace
  entries : List.Forall₂ (CappedEntry config fewest.overheads) r.overheads.toList report.entries

theorem cappedReport_report {fewest r : Recovery}
    (h : fewest.overheads.sameL2?.isSome = r.overheads.sameL2?.isSome) (config : Config) :
    CappedReport config fewest r (r.report fewest.overheads.counts config) := by
  refine ⟨rfl, List.forall₂_map_right_iff.2 (List.forall₂_same.2 ?_)⟩
  rintro ⟨l, values⟩ hmem
  refine cappedEntry_ofValues (mt (get?_eq_none_iff h l).1 ?_) config values
  rw [mem_toList.1 hmem]
  simp

/-- How a group of recovered traces is reported with caps. -/
def CappedGroup (config : Config) (group : List Recovery) (part : List Report) : Prop :=
  ∃ fewest, IsFirstLeast Recovery.preemptions group fewest ∧
    List.Forall₂ (CappedReport config fewest) group part

theorem cappedGroup_groupReports {plan : BatchPlan} (hcap : plan.cap = true)
    {group : List Recovery} (hne : group ≠ [])
    (hlevels : ∀ r ∈ group, r.overheads.sameL2?.isSome = config.hasL2) :
    CappedGroup config group (groupReports config plan group) := by
  obtain ⟨fewest, hfewest, hleast⟩ := exists_fewestPreemptions hne
  have hcaps : groupCaps group = fewest.overheads.counts := by
    rw [groupCaps, hfewest]
    rfl
  refine ⟨fewest, hleast, ?_⟩
  rw [groupReports, if_pos hcap, hcaps]
  refine List.forall₂_map_right_iff.2 (List.forall₂_same.2 fun r hr => ?_)
  exact cappedReport_report ((hlevels fewest hleast.mem).trans (hlevels r hr).symm) config

/-- A batch recovers its traces in turn and reports on the maximal runs of traces with one working
set. -/
theorem of_reportBatch_eq_ok {plan : BatchPlan}
    (h : reportBatch traces topology config plan w = (.ok reports, w')) :
    ∃ groups : List (List Recovery),
      traces.mapM (recover topology config plan) w = (.ok groups.flatten, w') ∧
      MaximalRuns workingSet? traces (groups.map (List.map (·.trace))) ∧
      (groups.map (groupReports config plan)).flatten = reports := by
  obtain ⟨hplan, -⟩ := exists_reportBatch_iff.1 ⟨reports, Action.fst_eq_ok_iff.2 ⟨w', h⟩⟩
  rw [reportBatch_eq_map hplan] at h
  obtain ⟨groups, hgroups, hreports⟩ := Action.of_map_eq_ok h
  refine ⟨groups, ?_, ?_, hreports⟩
  · rw [mapM_recover_eq_map]
    exact Action.map_of_ok hgroups _
  · have hmap := Action.forall₂_of_mapM_eq_ok
      (fun group recovered => id group = List.map Recovery.trace recovered)
      (fun group v recovered v' hrecovered => map_trace_of_mapM hrecovered) hgroups
    rw [← splitBy_sameWorkingSet_iff, ← map_eq_map_of_forall₂ hmap, List.map_id]

/-- A capped batch recovers its traces in turn. Its groups are the maximal runs of traces with one
working set, and each is reported under the limits of its first trace with the fewest
preemptions. -/
theorem reportBatch_capped
    (h : reportBatch traces topology config { cap := true, reload := false } w =
      (.ok reports, w')) :
    ∃ groups parts,
      traces.mapM (recover topology config { cap := true, reload := false }) w =
        (.ok groups.flatten, w') ∧
      MaximalRuns workingSet? traces (groups.map (List.map (·.trace))) ∧
      parts.flatten = reports ∧ List.Forall₂ (CappedGroup config) groups parts := by
  obtain ⟨groups, hrun, hruns, hparts⟩ := of_reportBatch_eq_ok h
  refine ⟨groups, _, hrun, hruns, hparts, ?_⟩
  refine List.forall₂_map_right_iff.2 (List.forall₂_same.2 fun group hmem => ?_)
  have hne : group ≠ [] := by
    rintro rfl
    exact hruns.nonempty [] (List.mem_map_of_mem hmem) rfl
  have hlevels := (replayed_of_mapM rfl hrun).levels
  exact cappedGroup_groupReports rfl hne fun r hr => hlevels r (List.mem_flatten_of_mem hmem hr)

/-- Of three traces the second sets the caps of the first group and the third those of its own, but
for moves between CPUs that share an L2 cache, of which the configuration admits one. -/
theorem reportBatch_capped_three :
    let traces : List Path := [⟨"wss=1_a.raw"⟩, ⟨"wss=1_b.raw"⟩, ⟨"wss=2.raw"⟩]
    let topology : Topology := .linear ⟨2, 4, by decide⟩
    let config : Config := { limits := ⟨none, some 1, none, none⟩ }
    ∃ reports w' groups parts,
      reportBatch traces topology config ⟨true, false⟩ threeTraces = (.ok reports, w') ∧
      reports.map (fun report => report.entries.map fun e => (e.samples, e.used)) =
        [[(2, 1), (2, 1), (0, 0), (0, 0)], [(1, 1), (2, 1), (0, 0), (0, 0)],
          [(3, 3), (2, 1), (0, 0), (0, 0)]] ∧
      MaximalRuns workingSet? traces (groups.map (List.map (·.trace))) ∧
      parts.flatten = reports ∧ List.Forall₂ (CappedGroup config) groups parts := by
  intro traces topology config
  have hentries : (reportBatch traces topology config ⟨true, false⟩ threeTraces).1.toOption.map
      (·.map fun report => report.entries.map fun e => (e.samples, e.used)) =
        some [[(2, 1), (2, 1), (0, 0), (0, 0)], [(1, 1), (2, 1), (0, 0), (0, 0)],
          [(3, 3), (2, 1), (0, 0), (0, 0)]] := by decide +kernel
  obtain ⟨reports, w', h, hreports⟩ := Action.exists_of_toOption_map hentries
  obtain ⟨groups, parts, -, hruns, hparts, hgroups⟩ := reportBatch_capped h
  exact ⟨reports, w', groups, parts, h, hreports, hruns, hparts, hgroups⟩

end Analysis

end CacheDelay

import CacheDelay.Analysis.Batch
import CacheDelay.Proofs.Analysis.Recovery
import Mathlib.Data.List.SplitBy

/-!
# Batches without caps

Without caps the groups of a batch do not matter: the traces are recovered one after another, and
each has its own report (`reportBatch_uncapped`). Traces that share saved files leave the overheads
of the last of them there (`Replayed`, `replayed_of_mapM`), so that a reload of the batch recovers
for each trace the overheads of the last trace that shares its files (`exists_reload`).
-/

namespace CacheDelay.Analysis

open CacheDelay.Files CacheDelay.Files.Tree CacheDelay.Overhead CacheDelay.Overheads
open CacheDelay.Report CacheDelay.Topology

variable {topology : Topology} {config : Config} {plan : BatchPlan} {trace : Path} {w w' : World}
  {t t' : Tree} {done : List Recovery} {r : Recovery}

/-! ## One trace -/

/-- A plan without reloads replays the trace. -/
theorem exists_recover_eq_replay (hreplay : plan.reload = false) (topology : Topology)
    (config : Config) (trace : Path) (w : World) :
    ∃ v, v.files = w.files ∧
      recover topology config plan trace w = Recovery.replay trace topology config v := by
  obtain ⟨v, hv, hwarn⟩ := Action.exists_warn_ite (trace.extension? ≠ some "raw".toList)
    (.notRaw trace) (fun _ => Recovery.replay trace topology config) w
  refine ⟨v, hv, ?_⟩
  rw [← hwarn, recover, hreplay]
  rfl

/-- A replay writes the overheads that it recovers, and no other files. -/
theorem of_recover_eq_ok (hreplay : plan.reload = false)
    (h : recover topology config plan trace w = (.ok r, w')) :
    r.trace = trace ∧ r.overheads.sameL2?.isSome = config.hasL2 ∧
      SavesTo w.files r.trace r.overheads.get? w'.files := by
  obtain ⟨v, hv, hrun⟩ := exists_recover_eq_replay hreplay topology config trace w
  rw [hrun] at h
  have hsaves := Recovery.savesTo_of_replay h
  have hlevel := Recovery.hasL2_of_replay h
  obtain ⟨content, -, rfl, -⟩ := Recovery.of_replay_eq_ok h
  exact ⟨rfl, hlevel, hv ▸ hsaves⟩

/-- A plan with reloads loads what was saved beside the trace. -/
theorem exists_recover_eq_load (hreload : plan.reload = true) (topology : Topology)
    (config : Config) (trace : Path) (w : World) :
    ∃ v, v.files = w.files ∧
      recover topology config plan trace w = Recovery.load trace config v := by
  obtain ⟨v, hv, hwarn⟩ := Action.exists_warn_ite (trace.extension? ≠ some "raw".toList)
    (.notRaw trace) (fun _ => Recovery.load trace config) w
  refine ⟨v, hv, ?_⟩
  rw [← hwarn, recover, hreload]
  rfl

/-- A reload recovers what can be loaded, and changes no files. -/
theorem exists_recover_of_load {o : Overheads} (hreload : plan.reload = true)
    (h : ∀ v, v.files = w.files → Overheads.load trace config.hasL2 v = (.ok o, v)) :
    ∃ w', recover topology config plan trace w = (.ok ⟨trace, none, o⟩, w') ∧
      w'.files = w.files := by
  obtain ⟨v, hv, hrun⟩ := exists_recover_eq_load hreload topology config trace w
  obtain ⟨u, hload, hu⟩ := Recovery.exists_load (h v hv)
  exact ⟨u, hrun.trans hload, hu.trans hv⟩

theorem trace_of_recover (h : recover topology config plan trace w = (.ok r, w')) :
    r.trace = trace := by
  cases hreload : plan.reload with
  | false => exact (of_recover_eq_ok hreload h).1
  | true =>
    obtain ⟨v, -, hrun⟩ := exists_recover_eq_load hreload topology config trace w
    obtain ⟨o, u, -, hrest⟩ := Action.of_bind_eq_ok (hrun.symm.trans h)
    obtain ⟨u', -, hwarn⟩ := Action.exists_warn_ite (o.size = 0) (.noSavedOverheads trace)
      (fun _ => (pure ⟨trace, none, o⟩ : Action Recovery)) u
    cases hwarn.symm.trans hrest
    rfl

/-! ## All traces -/

/-- The reports on recovered traces that are one group. -/
def groupReports (config : Config) (plan : BatchPlan) (recovered : List Recovery) : List Report :=
  recovered.map (·.report (if plan.cap then groupCaps recovered else Limits.none) config)

theorem reportGroup_eq (group : List Path) : reportGroup topology config plan group =
    groupReports config plan <$> group.mapM (recover topology config plan) := by
  rw [reportGroup, map_eq_pure_bind]
  rfl

/-- A plan that is not refused takes group by group. -/
theorem reportBatch_eq (hplan : (plan.cap && plan.reload) = false) (traces : List Path) :
    reportBatch traces topology config plan =
      List.flatten <$> (traces.splitBy sameWorkingSet).mapM (reportGroup topology config plan) := by
  rw [reportBatch, hplan, if_neg Bool.false_ne_true, map_eq_pure_bind]

/-- A plan that is not refused recovers group by group. -/
theorem reportBatch_eq_map (hplan : (plan.cap && plan.reload) = false) (traces : List Path) :
    reportBatch traces topology config plan =
      (fun groups => (groups.map (groupReports config plan)).flatten) <$>
        (traces.splitBy sameWorkingSet).mapM (List.mapM (recover topology config plan)) := by
  have hgroup : reportGroup topology config plan = fun group =>
      groupReports config plan <$> group.mapM (recover topology config plan) :=
    funext reportGroup_eq
  rw [reportBatch_eq hplan, hgroup, ← Action.map_mapM, Functor.map_map]

/-- The traces of a batch are recovered in turn. -/
theorem mapM_recover_eq_map (traces : List Path) : traces.mapM (recover topology config plan) =
    List.flatten <$>
      (traces.splitBy sameWorkingSet).mapM (List.mapM (recover topology config plan)) := by
  rw [Action.flatten_mapM_mapM, List.flatten_splitBy]

/-- A batch is reported on if its plan is not refused and its traces can be recovered in turn. -/
theorem exists_reportBatch_iff {traces : List Path} :
    (∃ reports, (reportBatch traces topology config plan w).1 = .ok reports) ↔
      (plan.cap && plan.reload) = false ∧
        ∃ recovered, (traces.mapM (recover topology config plan) w).1 = .ok recovered := by
  by_cases hplan : (plan.cap && plan.reload) = false
  · rw [and_iff_right hplan, reportBatch_eq_map hplan, mapM_recover_eq_map]
    simp only [Action.fst_map_eq_ok_iff]
    constructor
    · rintro ⟨-, groups, hgroups, -⟩
      exact ⟨_, groups, hgroups, rfl⟩
    · rintro ⟨-, groups, hgroups, -⟩
      exact ⟨_, groups, hgroups, rfl⟩
  · refine iff_of_false ?_ fun h => hplan h.1
    rintro ⟨reports, h⟩
    rw [reportBatch, if_pos (by simpa using hplan)] at h
    cases h

/-- Without caps each trace is recovered and reported on its own, in turn. -/
theorem reportBatch_uncapped (hcap : plan.cap = false) (traces : List Path) :
    reportBatch traces topology config plan =
      List.map (·.report Limits.none config) <$> traces.mapM (recover topology config plan) := by
  have hreports : groupReports config plan = List.map (·.report Limits.none config) := by
    funext recovered
    simp only [groupReports, hcap, Bool.false_eq_true, if_false]
  have hgroup : reportGroup topology config plan = List.mapM fun trace =>
      (·.report Limits.none config) <$> recover topology config plan trace := by
    funext group
    rw [reportGroup_eq, hreports, Action.map_mapM]
  rw [reportBatch_eq (by rw [hcap, Bool.false_and]), hgroup, Action.flatten_mapM_mapM,
    List.flatten_splitBy, Action.map_mapM]

/-! ## Saved by a batch -/

/-- The last of `items` that has the property. -/
def IsLast {α : Type} (p : α → Prop) (items : List α) (last : α) : Prop :=
  ∃ before after, items = before ++ last :: after ∧ p last ∧ ∀ item ∈ after, ¬ p item

theorem isLast_concat {α : Type} {p : α → Prop} (items : List α) {last : α} (h : p last) :
    IsLast p (items ++ [last]) last := ⟨items, [], rfl, h, nofun⟩

theorem IsLast.concat_of_not {α : Type} {p : α → Prop} {items : List α} {last item : α}
    (h : IsLast p items last) (hitem : ¬ p item) : IsLast p (items ++ [item]) last := by
  obtain ⟨before, after, rfl, hlast, hafter⟩ := h
  refine ⟨before, after ++ [item], by rw [List.append_assoc, List.cons_append], hlast, ?_⟩
  intro other hother
  rcases List.mem_append.1 hother with hother | hother
  · exact hafter other hother
  · rwa [List.mem_singleton.1 hother]

theorem IsLast.mem {α : Type} {p : α → Prop} {items : List α} {last : α}
    (h : IsLast p items last) : last ∈ items := by
  obtain ⟨before, after, rfl, -, -⟩ := h
  exact List.mem_append_right before List.mem_cons_self

theorem IsLast.holds {α : Type} {p : α → Prop} {items : List α} {last : α}
    (h : IsLast p items last) : p last := by
  obtain ⟨_, _, _, hlast, -⟩ := h
  exact hlast

theorem IsLast.congr {α : Type} {p q : α → Prop} {items : List α} {last : α}
    (h : IsLast p items last) (hiff : ∀ item ∈ items, p item ↔ q item) : IsLast q items last := by
  have hlast := (hiff last h.mem).1
  obtain ⟨before, after, rfl, hp, hafter⟩ := h
  refine ⟨before, after, rfl, hlast hp, fun item hitem => ?_⟩
  rw [← hiff item (List.mem_append_right before (List.mem_cons_of_mem _ hitem))]
  exact hafter item hitem

theorem IsLast.unique {α : Type} {p : α → Prop} {items : List α} {last last' : α}
    (h : IsLast p items last) (h' : IsLast p items last') : last = last' := by
  obtain ⟨before, after, rfl, hlast, hafter⟩ := h
  obtain ⟨before', after', heq, hlast', hafter'⟩ := h'
  -- whichever ends first, the other one is behind it or is the same
  rcases List.append_eq_append_iff.1 heq with ⟨mid, -, hmid⟩ | ⟨mid, -, hmid⟩
  · rcases List.cons_eq_append_iff.1 hmid with ⟨-, hsame⟩ | ⟨mid', -, hrest⟩
    · exact (List.cons.inj hsame).1.symm
    · exact absurd hlast' (hafter last' (hrest ▸ List.mem_append_right mid' List.mem_cons_self))
  · rcases List.cons_eq_append_iff.1 hmid with ⟨-, hsame⟩ | ⟨mid', -, hrest⟩
    · exact (List.cons.inj hsame).1
    · exact absurd hlast (hafter' last (hrest ▸ List.mem_append_right mid' List.mem_cons_self))

/-- The last of the recoveries whose files are those of `trace`. -/
def LastSharing (t : Tree) (done : List Recovery) (trace : Path) : Recovery → Prop :=
  IsLast (fun r => SharesFiles t trace r.trace) done

/-- What replays leave of the tree `t`: nothing has moved, and beside each trace are the overheads
of the last one that shares its files. -/
structure Replayed (config : Config) (t : Tree) (done : List Recovery) (t' : Tree) : Prop where
  places : t.SamePlaces t'
  levels : ∀ r ∈ done, r.overheads.sameL2?.isSome = config.hasL2
  saved : ∀ r ∈ done, ∃ last, LastSharing t done r.trace last ∧
    SavedBeside t' r.trace last.overheads.get?

theorem get?_eq_none_iff {o o' : Overheads} (h : o.sameL2?.isSome = o'.sameL2?.isSome)
    (l : Locality) : o.get? l = none ↔ o'.get? l = none := by
  cases l with
  | sameL2 => rw [← Option.not_isSome_iff_eq_none, ← Option.not_isSome_iff_eq_none, get?, h, get?]
  | sameCpu | sameChip | offChip => exact iff_of_false nofun nofun

/-- The overheads of each trace have their files. -/
theorem Replayed.exists_place {s : Recovery} (h : Replayed config t done t') (hr : r ∈ done)
    (hs : s.overheads.sameL2?.isSome = config.hasL2) {l : Locality}
    (hl : s.overheads.get? l ≠ none) :
    ∃ place, t.locateNew (savedPath r.trace l) = .ok place := by
  obtain ⟨last, hlast, hsaved⟩ := h.saved r hr
  have hlevel := hs.trans (h.levels last hlast.mem).symm
  obtain ⟨values, hvalues⟩ := Option.ne_none_iff_exists'.1 (mt (get?_eq_none_iff hlevel l).2 hl)
  obtain ⟨place, hplace⟩ := (hsaved l values hvalues).exists_place
  exact ⟨place, (h.places.locateNew_iff _ _).1 hplace⟩

/-- One more replay. -/
theorem Replayed.concat {t'' : Tree} (h : Replayed config t done t')
    (hlevel : r.overheads.sameL2?.isSome = config.hasL2)
    (hsaves : SavesTo t' r.trace r.overheads.get? t'') : Replayed config t (done ++ [r]) t'' := by
  have hplaces := h.places.trans hsaves.places
  refine ⟨hplaces, fun s hs => ?_, fun s hs => ?_⟩
  · rcases List.mem_append.1 hs with hs | hs
    · exact h.levels s hs
    · rwa [List.mem_singleton.1 hs]
  rcases List.mem_append.1 hs with hs | hs
  · obtain ⟨last, hlast, hsaved⟩ := h.saved s hs
    by_cases hshares : SharesFiles t s.trace r.trace
    · -- the files of `s` are rewritten with the overheads of `r`
      refine ⟨r, isLast_concat done hshares, ?_⟩
      have hshares' : SharesFiles t'' r.trace s.trace := ((sharesFiles_iff hplaces).2 hshares).symm
      refine hsaves.saved.of_sharesFiles hshares' fun l hl => ?_
      obtain ⟨place, hplace⟩ := h.exists_place hs hlevel hl
      exact ⟨place, (hplaces.locateNew_iff _ _).2 hplace⟩
    · refine ⟨last, hlast.concat_of_not hshares, hsaves.others s.trace _ ?_ hsaved⟩
      rwa [sharesFiles_iff h.places]
  · rw [List.mem_singleton.1 hs]
    obtain ⟨place, hplace⟩ := (hsaves.saved .sameCpu _ rfl).exists_place
    have hself := (hplaces.locateNew_iff _ _).1 hplace
    exact ⟨r, isLast_concat done ⟨.sameCpu, place, hself, hself⟩, hsaves.saved⟩

theorem replayed_of_mapM {traces : List Path} (hreplay : plan.reload = false)
    (h : traces.mapM (recover topology config plan) w = (.ok done, w')) :
    Replayed config w.files done w'.files := by
  have hstart : Replayed config w.files [] w.files := ⟨SamePlaces.refl _, nofun, nofun⟩
  refine Action.append_of_mapM_eq_ok (fun v done => Replayed config w.files done v.files)
    (fun trace done v r v' hdone hrecover => ?_) hstart h
  obtain ⟨-, hlevel, hsaves⟩ := of_recover_eq_ok hreplay hrecover
  exact hdone.concat hlevel hsaves

theorem map_eq_map_of_forall₂ {α β γ : Type} {f : α → γ} {g : β → γ} {items : List α}
    {results : List β} (h : List.Forall₂ (fun item result => f item = g result) items results) :
    items.map f = results.map g := by
  induction h with
  | nil => rfl
  | cons heq _ ih => rw [List.map_cons, List.map_cons, heq, ih]

/-- Each trace has its recovery. -/
theorem map_trace_of_mapM {traces : List Path}
    (h : traces.mapM (recover topology config plan) w = (.ok done, w')) :
    traces = done.map (·.trace) := by
  have htraces := Action.forall₂_of_mapM_eq_ok (fun trace r => id trace = Recovery.trace r)
    (fun trace w r w' hrecover => (trace_of_recover hrecover).symm) h
  rw [← map_eq_map_of_forall₂ htraces, List.map_id]

/-! ## Reloaded by a batch -/

/-- What a batch reloads for a trace: the overheads of the last replay that shared its files. -/
structure ReloadOf (t : Tree) (done : List Recovery) (r reloaded : Recovery) : Prop where
  trace : r.trace = reloaded.trace
  overheads : ∃ last, LastSharing t done r.trace last ∧
    reloaded.overheads = last.overheads

/-- Traces that share files are reloaded with the same overheads. -/
theorem ReloadOf.overheads_eq {s reloaded reloaded' : Recovery} (h : Replayed config t done t')
    (hr : r ∈ done) (hs : s ∈ done) (hshares : SharesFiles t r.trace s.trace)
    (hreload : ReloadOf t done r reloaded) (hreload' : ReloadOf t done s reloaded') :
    reloaded.overheads = reloaded'.overheads := by
  obtain ⟨last, hlast, hoverheads⟩ := hreload.overheads
  obtain ⟨last', hlast', hoverheads'⟩ := hreload'.overheads
  have hplace {q : Recovery} (hq : q ∈ done) {l : Locality} (hl : last.overheads.get? l ≠ none) :=
    h.exists_place hq (h.levels last hlast.mem) hl
  have hlast'' : LastSharing t done s.trace last := by
    refine hlast.congr fun q hq => ?_
    have hcpu : last.overheads.get? .sameCpu ≠ none := get?_ne_none _ nofun
    obtain ⟨_, hr'⟩ := hplace hr hcpu
    obtain ⟨_, hs'⟩ := hplace hs hcpu
    obtain ⟨_, hq'⟩ := hplace hq hcpu
    exact ⟨fun hrq => hshares.symm.trans hrq hs' hr' hq',
      fun hsq => hshares.trans hsq hr' hs' hq'⟩
  obtain rfl := hlast''.unique hlast'
  rw [hoverheads, hoverheads']

theorem exists_recover_of_replayed (hreload : plan.reload = true)
    (h : Replayed config t done w.files) (hr : r ∈ done) :
    ∃ reloaded w', recover topology config plan r.trace w = (.ok reloaded, w') ∧
      w'.files = w.files ∧ ReloadOf t done r reloaded := by
  obtain ⟨last, hlast, hsaved⟩ := h.saved r hr
  have hload (v : World) (hv : v.files = w.files) : Overheads.load r.trace config.hasL2 v =
      (.ok last.overheads, v) := by
    rw [← h.levels last hlast.mem]
    exact load_of_savedBeside (hv ▸ hsaved)
  obtain ⟨w', hrecover, hfiles⟩ := exists_recover_of_load hreload hload
  exact ⟨_, w', hrecover, hfiles, rfl, last, hlast, rfl⟩

/-- After replays a reload of the same traces succeeds. -/
theorem exists_reload (hreload : plan.reload = true) (h : Replayed config t done w.files) :
    ∃ reloaded w', (done.map (·.trace)).mapM (recover topology config plan) w =
      (.ok reloaded, w') ∧ List.Forall₂ (ReloadOf t done) done reloaded := by
  rw [List.mapM_map]
  refine Action.exists_mapM_of_forall (fun v => v.files = w.files) (ReloadOf t done)
    (fun r hr v hv => ?_) rfl
  obtain ⟨reloaded, v', hrecover, hfiles, hof⟩ :=
    exists_recover_of_replayed hreload (hv ▸ h) hr
  exact ⟨reloaded, v', hrecover, hfiles.trans hv, hof⟩

end CacheDelay.Analysis

import CacheDelay.Analysis.Recovery
import CacheDelay.Proofs.Overhead.Savable
import CacheDelay.Proofs.Trace.File

/-!
# Recovery of one trace

What a replay recovers is decided by the content of its trace (`Recovery.ofContent`), and it
succeeds exactly if the trace can be read and the overheads in it can be saved
(`replay_eq_ok_iff`). A load then gives the overheads back, whatever was saved before, and its
report has their entries (`load_of_replay`).
-/

namespace CacheDelay.Analysis

open CacheDelay.Files CacheDelay.Files.Tree CacheDelay.Overhead CacheDelay.Overheads
open CacheDelay.Report CacheDelay.Topology

variable {topology : Topology} {config : Config} {trace : Path} {content : List UInt8}
  {w w' : World} {r : Recovery}

namespace Recovery

/-! ## Replays -/

/-- What a replay recovers from a trace with the given content. -/
def ofContent (topology : Topology) (config : Config) (trace : Path) (content : List UInt8) :
    Recovery :=
  let extraction := Extraction.ofRecords (Trace.recordsOf content) config.hotWindow
  ⟨trace, some extraction, .ofClassified (classify topology extraction.overheads) config.hasL2⟩

theorem hasL2_ofContent (topology : Topology) (config : Config) (trace : Path)
    (content : List UInt8) :
    (ofContent topology config trace content).overheads.sameL2?.isSome = config.hasL2 := by
  show (if config.hasL2 then _ else none : Option (List Int64)).isSome = config.hasL2
  cases config.hasL2 <;> rfl

/-- Once its trace is read, all that a replay does to files is to save the overheads. -/
theorem exists_replay_eq_save (topology : Topology) (config : Config)
    (h : Trace.contentOf w.files trace = .ok content) :
    ∃ v, v.files = w.files ∧ replay trace topology config w =
      ((fun _ => ofContent topology config trace content) <$>
        (ofContent topology config trace content).overheads.save trace) v := by
  let extraction := Extraction.ofRecords (Trace.recordsOf content) config.hotWindow
  have hread : Extraction.ofTrace trace config.hotWindow w = (.ok extraction,
      { w with warnings := w.warnings ++ Trace.tornWarnings trace content }) :=
    Action.bind_of_ok (Trace.read_of_contentOf w h) _
  rw [replay, Action.bind_of_ok hread, map_eq_pure_bind]
  let recovery := ofContent topology config trace content
  exact Action.exists_warn_ite ((classify topology extraction.overheads).size = 0)
    (.noOverheads trace) (fun _ => recovery.overheads.save trace >>= fun _ => pure recovery)
    { w with warnings := w.warnings ++ Trace.tornWarnings trace content }

theorem of_replay_eq_ok (h : replay trace topology config w = (.ok r, w')) :
    ∃ content, Trace.contentOf w.files trace = .ok content ∧
      ofContent topology config trace content = r ∧
      ∃ v written, v.files = w.files ∧ r.overheads.save trace v = (.ok written, w') := by
  obtain ⟨extraction, u, hextraction, -⟩ := Action.of_bind_eq_ok h
  obtain ⟨records, u, hread, -⟩ := Action.of_bind_eq_ok hextraction
  obtain ⟨content, hcontent⟩ := Trace.of_read_eq_ok hread
  obtain ⟨v, hv, hrun⟩ := exists_replay_eq_save topology config hcontent
  obtain ⟨written, hsave, rfl⟩ := Action.of_map_eq_ok (hrun.symm.trans h)
  exact ⟨content, hcontent, rfl, v, written, hv, hsave⟩

/-- A replay succeeds if its trace can be read and what is recovered from it can be saved. -/
theorem replay_eq_ok_iff : (replay trace topology config w).1 = .ok r ↔
    ∃ content, Trace.contentOf w.files trace = .ok content ∧
      ofContent topology config trace content = r ∧
      ∀ l values, r.overheads.get? l = some values →
        w.files.Writable (savedPath trace l) := by
  constructor
  · intro h
    obtain ⟨w', h⟩ := Action.fst_eq_ok_iff.1 h
    obtain ⟨content, hcontent, hr, v, written, hv, hsave⟩ := of_replay_eq_ok h
    refine ⟨content, hcontent, hr, ?_⟩
    rw [← hv, ← exists_save_iff]
    exact ⟨written, Action.fst_eq_ok_iff.2 ⟨w', hsave⟩⟩
  · rintro ⟨content, hcontent, rfl, hwritable⟩
    obtain ⟨v, hv, hrun⟩ := exists_replay_eq_save topology config hcontent
    rw [← hv, ← exists_save_iff] at hwritable
    obtain ⟨written, hsave⟩ := hwritable
    rw [hrun, Action.fst_map_eq_ok_iff]
    exact ⟨written, hsave, rfl⟩

/-- A replay leaves the overheads that it recovers beside its trace. -/
theorem savesTo_of_replay (h : replay trace topology config w = (.ok r, w')) :
    SavesTo w.files trace r.overheads.get? w'.files := by
  obtain ⟨-, -, -, v, written, hv, hsave⟩ := of_replay_eq_ok h
  rw [← hv]
  exact of_save_eq_ok hsave

/-- A replay writes the files of the localities present, and no others. -/
theorem rewritesOnly_of_replay (h : replay trace topology config w = (.ok r, w')) :
    w.files.RewritesOnly (SavedAt w.files trace r.overheads) w'.files := by
  obtain ⟨-, -, -, v, written, hv, hsave⟩ := of_replay_eq_ok h
  rw [← hv]
  exact rewritesOnly_of_save hsave

theorem hasL2_of_replay (h : replay trace topology config w = (.ok r, w')) :
    r.overheads.sameL2?.isSome = config.hasL2 := by
  obtain ⟨content, -, hr, -⟩ := of_replay_eq_ok h
  rw [← hr]
  exact hasL2_ofContent topology config trace content

/-! ## Loads -/

/-- What is loaded is recovered, and no file is changed. -/
theorem exists_load {o : Overheads} (h : Overheads.load trace config.hasL2 w = (.ok o, w)) :
    ∃ w', load trace config w = (.ok ⟨trace, none, o⟩, w') ∧ w'.files = w.files := by
  obtain ⟨w', hw', hwarn⟩ := Action.exists_warn_ite (o.size = 0) (.noSavedOverheads trace)
    (fun _ => (pure ⟨trace, none, o⟩ : Action Recovery)) w
  exact ⟨w', (Action.bind_of_ok h _).trans hwarn, hw'⟩

/-- After a replay, whatever the saved files held before, a load of the trace succeeds. It gives the
overheads of the replay, and its reports have their number and their entries, and tell of no records
and no passes. -/
theorem load_of_replay (h : replay trace topology config w = (.ok r, w')) :
    ∃ loaded w'', load trace config w' = (.ok loaded, w'') ∧ w''.files = w'.files ∧
      (∀ l, loaded.overheads.get? l = r.overheads.get? l) ∧
      ∀ caps,
        (loaded.report caps config).overheads = (r.report caps config).overheads ∧
        (loaded.report caps config).entries = (r.report caps config).entries ∧
        (loaded.report caps config).records = 0 ∧ (loaded.report caps config).unknown = 0 ∧
        (loaded.report caps config).populations = [] := by
  have hsaved := load_of_savedBeside (savesTo_of_replay h).saved
  rw [hasL2_of_replay h] at hsaved
  obtain ⟨w'', hload, hw''⟩ := exists_load hsaved
  exact ⟨_, w'', hload, hw'', fun _ => rfl, fun _ => ⟨rfl, rfl, rfl, rfl, rfl⟩⟩

/-- A trace with a preemption and a migration whose event was faster than its baseline, beside saved
values of before: more than the trace has for one locality, and none for another. -/
def traceBesideSaved : World where
  files := {
    workingDirectory := []
    entries := [
      .file ["pm.raw"] 0 ([⟨72, 100, 0, 0⟩, ⟨72, 100, 0, 0⟩, ⟨80, 150, 0, 7⟩, ⟨80, 20, 1, 7⟩].flatMap
        Trace.Record.encode),
      .file ["pm_preemption.vbin"] 1 (encode [1, 2, 3]),
      .file ["pm_l2cache.vbin"] 2 []]
    fresh := 3 }
  warnings := []
  output := ""

theorem load_of_replay_beside_saved :
    let topology : Topology := .linear ⟨2, 4, by decide⟩
    ∃ r w' loaded w'',
      replay ⟨"pm.raw"⟩ topology {} traceBesideSaved = (.ok r, w') ∧
      load ⟨"pm.raw"⟩ {} w' = (.ok loaded, w'') ∧
      r.overheads = ⟨[50], some [-80], [], []⟩ ∧
      ∀ l, loaded.overheads.get? l = r.overheads.get? l := by
  intro topology
  have hoverheads : (replay ⟨"pm.raw"⟩ topology {} traceBesideSaved).1.toOption.map
      (·.overheads) = some ⟨[50], some [-80], [], []⟩ := by decide +kernel
  obtain ⟨r, w', hreplay, hr⟩ := Action.exists_of_toOption_map hoverheads
  obtain ⟨loaded, w'', hload, -, hsame, -⟩ := load_of_replay hreplay
  exact ⟨r, w', loaded, w'', hreplay, hload, hr, hsame⟩

end Recovery

end CacheDelay.Analysis

import CacheDelay.Analysis.Batch
import Mathlib.Data.List.SplitBy

/-!
# Runs of traces with one working set

A batch is cut where the working set in the names of its traces changes. Its groups are the maximal
runs of traces with one working set (`splitBy_sameWorkingSet_iff`), and a run is a batch with one
group (`MaximalRuns.of_mem`).
-/

namespace CacheDelay.Analysis

open CacheDelay.Files CacheDelay.Report

section

variable {α κ : Type} {key : α → κ} {items run : List α} {runs : List (List α)}

/-- `runs` cut `items` exactly between neighbours with different keys. -/
structure MaximalRuns (key : α → κ) (items : List α) (runs : List (List α)) : Prop where
  flatten : runs.flatten = items
  nonempty : ∀ run ∈ runs, run ≠ []
  same : ∀ run ∈ runs, ∀ a ∈ run, ∀ b ∈ run, key a = key b
  maximal : runs.IsChain fun run next => ∀ a ∈ run, ∀ b ∈ next, key a ≠ key b

theorem isChain_key_iff :
    (run.IsChain fun a b => key a = key b) ↔ ∀ a ∈ run, ∀ b ∈ run, key a = key b := by
  have htrans : IsTrans α fun a b => key a = key b := ⟨fun _ _ _ => Eq.trans⟩
  have hsymm : Std.Symm fun a b => key a = key b := ⟨fun _ _ => Eq.symm⟩
  rw [List.isChain_iff_pairwise]
  constructor
  · intro hpairwise a ha b hb
    have hself : ∀ a ∈ run, (fun a b => key a = key b) a a := fun _ _ => rfl
    exact hpairwise.forall_of_forall hself ha hb
  · intro hsame
    exact List.pairwise_of_forall_mem_list hsame

/-- The cuts between neighbours with different keys are those of the maximal runs. -/
theorem splitBy_key_iff [BEq κ] [LawfulBEq κ] :
    (items.splitBy fun a b => key a == key b) = runs ↔ MaximalRuns key items runs := by
  simp only [List.splitBy_eq_iff, beq_iff_eq, beq_eq_false_iff_ne, isChain_key_iff]
  constructor
  · rintro ⟨hflatten, hnonempty, hsame, hcut⟩
    have hne : ∀ run ∈ runs, run ≠ [] := fun run hrun hnil => hnonempty (hnil ▸ hrun)
    refine ⟨hflatten.symm, hne, hsame, ?_⟩
    refine hcut.imp_of_mem_imp fun run next hrun hnext ⟨hrun', hnext', hcut⟩ a ha b hb => ?_
    have hlast := hsame run hrun a ha _ (run.getLast_mem hrun')
    have hhead := hsame next hnext b hb _ (next.head_mem hnext')
    rwa [hlast, hhead]
  · rintro ⟨hflatten, hnonempty, hsame, hmaximal⟩
    refine ⟨hflatten.symm, fun hnil => hnonempty [] hnil rfl, hsame, ?_⟩
    refine hmaximal.imp_of_mem_imp fun run next hrun hnext hcut => ?_
    have hrun' := hnonempty run hrun
    have hnext' := hnonempty next hnext
    exact ⟨hrun', hnext', hcut _ (run.getLast_mem hrun') _ (next.head_mem hnext')⟩

/-- A maximal run has one run, itself. -/
theorem MaximalRuns.of_mem (h : MaximalRuns key items runs) (hrun : run ∈ runs) :
    MaximalRuns key run [run] where
  flatten := List.flatten_singleton
  nonempty := by simpa using h.nonempty run hrun
  same := by simpa using h.same run hrun
  maximal := .singleton run

end

/-- The working set in the name of a trace, if there is one. -/
def workingSet? (trace : Path) : Option String := (Params.ofName trace).get? "wss"

theorem splitBy_sameWorkingSet_iff {traces : List Path} {groups : List (List Path)} :
    traces.splitBy sameWorkingSet = groups ↔ MaximalRuns workingSet? traces groups :=
  splitBy_key_iff

/-- A trace with the given number of preemptions, a migration and a way back. -/
def preemptedTrace (count : Nat) : List UInt8 :=
  let hot : Trace.Record := ⟨72, 100, 0, 0⟩
  let event (cpu : UInt32) : Trace.Record := ⟨80, 150, cpu, 7⟩
  (hot :: hot :: List.replicate count (event 0) ++ [event 1, event 0]).flatMap Trace.Record.encode

/-- A world of two traces with one working set, the first with more preemptions, and one with
another. -/
def threeTraces : World where
  files := {
    workingDirectory := []
    entries := [.file ["wss=1_a.raw"] 0 (preemptedTrace 2),
      .file ["wss=1_b.raw"] 1 (preemptedTrace 1), .file ["wss=2.raw"] 2 (preemptedTrace 3)]
    fresh := 3 }
  warnings := []
  output := ""

theorem maximalRuns_threeTraces : MaximalRuns workingSet?
    [⟨"wss=1_a.raw"⟩, ⟨"wss=1_b.raw"⟩, ⟨"wss=2.raw"⟩]
    [[⟨"wss=1_a.raw"⟩, ⟨"wss=1_b.raw"⟩], [⟨"wss=2.raw"⟩]] :=
  splitBy_sameWorkingSet_iff.1 (by decide +kernel)

end CacheDelay.Analysis

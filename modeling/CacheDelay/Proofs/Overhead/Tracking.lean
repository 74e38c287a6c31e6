import CacheDelay.Proofs.Overhead.Windows
import Mathlib.Data.List.Induction

/-!
# A replay tracks its windows

The counters of a replay describe the window in progress and the baseline that the window before
left (`Counts`). Counting a hot record extends that window (`Counts.countHot`), closing a full one
makes its least cost the baseline (`Counts.closeWindow`), and so each record keeps a replay in step
with the records before it (`Tracks.observe`, `tracks_after`).
-/

namespace CacheDelay.Overhead

open CacheDelay.Trace

namespace Replay

/-- The replay after some records. -/
def after (r : Replay) (records : List Record) : Replay :=
  records.foldl (fun r record => (r.observe record).1) r

theorem after_concat (r : Replay) (records : List Record) (record : Record) :
    r.after (records ++ [record]) = ((r.after records).observe record).1 := by
  rw [after, List.foldl_append, List.foldl_cons, List.foldl_nil, after]

/-- The counters describe `window`, which is in progress, where the window before left `closed?`. -/
structure Counts (r : Replay) (window : List Record) (closed? : Option UInt64) : Prop where
  totalReads : r.totalReads = window.length
  validReads : r.validReads = (leadingCosts window).length
  clean : r.clean = window.all (·.isOneOf ['H'])
  established : r.established = closed?.isSome
  /-- The cost is that of the window in progress as soon as it has one. -/
  cost : ∀ cost, (leastCost? window).or closed? = some cost → r.cost = cost

/-- The replay is where `records` lead from the start, with windows of `w` records. -/
structure Tracks (r : Replay) (w : Nat) (records : List Record) : Prop where
  window : r.window = w
  counts : r.Counts (openWindow w records) (closedBaseline? w records)
  lastCpu : r.lastCpu = (lastCpu? records).getD 0

theorem Counts.baseline? {r : Replay} {window : List Record} {closed? : Option UInt64}
    (h : r.Counts window closed?) :
    r.baseline? = closed?.map fun closed => (leastCost? window).getD closed := by
  rw [Replay.baseline?, h.established]
  cases closed? with
  | none => rfl
  | some closed =>
    rw [h.cost ((leastCost? window).getD closed) (by cases leastCost? window <;> rfl)]
    rfl

/-- Counting a hot record extends the window in progress. -/
theorem Counts.countHot {r : Replay} {window : List Record} {closed? : Option UInt64}
    (h : r.Counts window closed?) (record : Record) :
    (r.countHot (record.isOneOf ['H']) record.elapsed).Counts (window ++ [record]) closed? := by
  have hleading := leadingCosts_concat window record
  have hleast := leastCost?_concat window record
  rw [← h.clean] at hleading hleast
  have hall : (window ++ [record]).all (·.isOneOf ['H']) = (r.clean && record.isOneOf ['H']) := by
    rw [List.all_append, ← h.clean]; simp
  unfold Replay.countHot
  by_cases hv : r.clean && record.isOneOf ['H']
  -- as long as the window is clean, its records are all leading ones
  · rw [if_pos hv] at hleading hleast ⊢
    refine ⟨?_, ?_, ?_, h.established, fun cost hcost => ?_⟩
    · simp [h.totalReads]
    · simp [h.validReads, hleading]
    · rw [hall, hv]; exact (Bool.and_eq_true_iff.1 hv).1
    · rw [hleast, Option.some_or, Option.some_inj] at hcost
      have hsome := leastCost?_isSome window
      rw [← h.validReads] at hsome
      cases hl : leastCost? window with
      | none =>
        rw [hl] at hsome hcost
        have h0 : r.validReads = 0 := by simpa using hsome
        rw [← hcost, Option.elim_none]; exact if_pos h0
      | some least =>
        rw [hl] at hsome hcost
        have h0 : r.validReads ≠ 0 := by
          have : 0 < r.validReads := by simpa using hsome
          omega
        have hr : r.cost = least := h.cost least (by rw [hl, Option.some_or])
        rw [← hcost, Option.elim_some, ← hr]; exact if_neg h0
  · rw [if_neg hv] at hleading hleast ⊢
    refine ⟨?_, ?_, ?_, h.established, fun cost hcost => ?_⟩
    · simp [h.totalReads]
    · rw [hleading, List.append_nil]; exact h.validReads
    · rw [hall]; simpa using hv
    · rw [hleast] at hcost; exact h.cost cost hcost

/-- Closing a full window makes its least cost the baseline. -/
theorem Counts.closeWindow {r : Replay} {window : List Record} {closed? : Option UInt64}
    (h : r.Counts window closed?) :
    r.closeWindow.Counts (if window.length = r.window then [] else window)
      (if window.length = r.window then leastCost? window else closed?) := by
  unfold Replay.closeWindow
  rw [h.totalReads]
  split
  · refine ⟨rfl, rfl, rfl, ?_, fun cost hcost => h.cost cost ?_⟩
    · rw [leastCost?_isSome, ← h.validReads]
    · have hnil : leastCost? [] = none := rfl
      rw [hnil, Option.none_or] at hcost
      rw [hcost, Option.some_or]
  · exact h

/-- What a replay makes of a record, by the record's letter. -/
theorem observe_eq (r : Replay) (record : Record) :
    r.observe record =
      if record.isOneOf ['H', 'h'] then (r.observeHot (record.isOneOf ['H']) record, none)
      else if record.isOneOf ['P', 'p'] then
        ({ r with lastCpu := record.cpu },
          if record.isOneOf ['P'] then r.baseline?.map (r.overheadOf record) else none)
      else (r, none) := by
  unfold Replay.observe
  split
  · rename_i hk
    rw [Record.isOneOf_eq_false hk ['H', 'h'] (by decide),
      Record.isOneOf_eq_false hk ['P', 'p'] (by decide)]
    rfl
  all_goals
    rename_i valid hk
    rw [Record.isOneOf_of_kind hk, Record.isOneOf_of_kind hk, Record.isOneOf_of_kind hk,
      Record.isOneOf_of_kind hk]
    cases valid <;> rfl

/-- Only valid events yield overheads. -/
theorem observe_snd (r : Replay) (record : Record) :
    (r.observe record).2 =
      if record.isOneOf ['P'] then r.baseline?.map (r.overheadOf record) else none := by
  unfold Replay.observe
  split
  · rename_i hk
    rw [Record.isOneOf_eq_false hk ['P'] (by decide)]
    rfl
  all_goals
    rename_i valid hk
    rw [Record.isOneOf_of_kind hk]
    cases valid <;> rfl

/-- Each record keeps a replay in step with the records before it. -/
theorem Tracks.observe {r : Replay} {w : Nat} (hw : 0 < w) {records : List Record}
    (h : r.Tracks w records) (record : Record) :
    (r.observe record).1.Tracks w (records ++ [record]) := by
  have hmeasured : record.isOneOf ['H', 'h', 'P', 'p'] =
      (record.isOneOf ['H', 'h'] || record.isOneOf ['P', 'p']) := by
    simp [Record.isOneOf, Bool.or_assoc]
  rw [observe_eq]
  by_cases hhot : record.isOneOf ['H', 'h']
  · rw [if_pos hhot]
    have hclosed := (h.counts.countHot record).closeWindow
    have hwindow : (r.countHot (record.isOneOf ['H']) record.elapsed).window = w := by
      unfold Replay.countHot; split <;> exact h.window
    rw [hwindow, List.length_append, List.length_singleton] at hclosed
    refine ⟨?_, ?_, ?_⟩
    · show ((r.countHot (record.isOneOf ['H']) record.elapsed).closeWindow).window = w
      unfold Replay.closeWindow; split <;> exact hwindow
    · rw [openWindow_concat hw records hhot, closedBaseline?_concat hw records hhot]
      exact ⟨hclosed.totalReads, hclosed.validReads, hclosed.clean, hclosed.established,
        hclosed.cost⟩
    · rw [lastCpu?_concat, hmeasured, hhot]; rfl
  · have hopen : openWindow w (records ++ [record]) = openWindow w records := by
      rw [openWindow, hots_concat, if_neg hhot, List.append_nil, openWindow]
    have hclosed : closedBaseline? w (records ++ [record]) = closedBaseline? w records := by
      rw [closedBaseline?, lastWindow?, hots_concat, if_neg hhot, List.append_nil]; rfl
    rw [if_neg hhot]
    split
    · rename_i hevent
      refine ⟨h.window, ?_, ?_⟩
      · rw [hopen, hclosed]
        exact ⟨h.counts.totalReads, h.counts.validReads, h.counts.clean, h.counts.established,
          h.counts.cost⟩
      · rw [lastCpu?_concat, hmeasured, hevent, Bool.or_true]; rfl
    · rename_i hevent
      refine ⟨h.window, ?_, ?_⟩
      · rw [hopen, hclosed]; exact h.counts
      · rw [lastCpu?_concat, hmeasured, if_neg (by simp [hhot, hevent])]; exact h.lastCpu

/-- A replay from the start is in step with its records. -/
theorem tracks_after (window : Nat) (records : List Record) :
    ((start window).after records).Tracks (max window 1) records := by
  have hw : 0 < max window 1 := Nat.le_max_right ..
  induction records using List.reverseRecOn with
  | nil =>
    have hhots : hots [] = [] := rfl
    have hopen : openWindow (max window 1) [] = [] := by
      rw [openWindow, hhots, leftover_of_lt (by exact hw)]
    have hclosed : closedBaseline? (max window 1) [] = none := by
      rw [closedBaseline?, lastWindow?, hhots, wholeBlocks_of_lt (by exact hw)]; rfl
    refine ⟨rfl, ?_, rfl⟩
    rw [hopen, hclosed]
    exact ⟨rfl, rfl, rfl, rfl, fun _ h => by cases h⟩
  | append_singleton records record ih =>
    rw [after_concat]
    exact ih.observe hw record

/-- The baseline in force is that of the windows. -/
theorem baseline?_after (window : Nat) (records : List Record) :
    ((start window).after records).baseline? = heldBaseline? (max window 1) records :=
  (tracks_after window records).counts.baseline?

end Replay

end CacheDelay.Overhead

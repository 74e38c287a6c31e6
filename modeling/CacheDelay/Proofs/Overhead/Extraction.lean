import CacheDelay.Overhead.Extraction
import CacheDelay.Proofs.Collect
import CacheDelay.Proofs.Overhead.Tracking

/-!
# Extractions by position

What a replay yields for a record is fixed by the records before it (`yield?_eq`), so that an
extraction collects one overhead for each valid event with a baseline (`extraction_by_position`).
A baseline that the last complete window left is held until the window in progress has a least cost
of its own, and after that only if the two are equal (`baseline?_eq_closed_iff`).
-/

namespace CacheDelay.Overhead

open CacheDelay.Trace

namespace Replay

/-- What a replay with windows of `window` records yields for a record after `earlier` ones. -/
def yield? (window : Nat) (earlier : List Record) (record : Record) : Option Sample :=
  (((start window).after earlier).observe record).2

theorem yield?_eq (window : Nat) (earlier : List Record) (record : Record) :
    yield? window earlier record = overheadAfter? (max window 1) earlier record := by
  have hcpu := (tracks_after window earlier).lastCpu
  rw [yield?, observe_snd, overheadAfter?_eq (Nat.le_max_right ..), baseline?_after, ← hcpu]
  rfl

theorem overheads_append (r : Replay) (records rest : List Record) :
    r.overheads (records ++ rest) = r.overheads records ++ (r.after records).overheads rest := by
  induction records generalizing r with
  | nil => rfl
  | cons record records ih =>
    rw [List.cons_append, overheads, overheads]
    simp only [ih, List.append_assoc]
    rfl

/-- The overheads of a trace are what its records yield, in order. -/
theorem overheads_eq_collect (window : Nat) (records : List Record) :
    (start window).overheads records = collect (overheadAfter? (max window 1)) records := by
  induction records using List.reverseRecOn with
  | nil => rfl
  | append_singleton records record ih =>
    rw [overheads_append, collect_concat, ih, ← yield?_eq]
    simp only [overheads, List.append_nil]
    rfl

/-- A replay always holds the baseline of its windows, and this is the one that the last complete
window left exactly as long as the window in progress has no other least cost. -/
theorem baseline?_eq_closed_iff (window : Nat) (records : List Record) :
    let w := max window 1
    ((start window).after records).baseline? = heldBaseline? w records ∧
      (((start window).after records).baseline? = closedBaseline? w records ↔
        ∀ closed cost, closedBaseline? w records = some closed →
          leastCost? (openWindow w records) = some cost → cost = closed) := by
  refine ⟨baseline?_after window records, ?_⟩
  rw [baseline?_after, heldBaseline?]
  cases closedBaseline? (max window 1) records with
  | none => simp
  | some closed => cases leastCost? (openWindow (max window 1) records) <;> simp

/-- The third record, which is still in progress, replaces the baseline of the window before. -/
theorem baseline?_of_open_window :
    let records : List Record := [⟨72, 100, 0, 0⟩, ⟨72, 100, 0, 0⟩, ⟨72, 50, 0, 0⟩]
    ((start 2).after records).baseline? = some 50 ∧ closedBaseline? 2 records = some 100 := by
  decide

end Replay

theorem validCosts_eq (pass : Pass) (records : List Record) :
    validCosts pass records =
      (records.filter (·.isOneOf [AccessKind.letter ⟨pass, true⟩])).map (·.elapsed) := by
  rw [validCosts]
  congr 1
  refine List.filter_congr fun record _ => ?_
  rw [Bool.eq_iff_iff, decide_eq_true_iff, Record.kind?_eq_some_iff]

/-- An extraction by position: one overhead, in order, for each valid event after a complete window
that begins with a valid record; the costs of the valid passes of each sort; and the numbers of
records and of unknown ones. -/
theorem extraction_by_position (records : List Record) (window : Nat) :
    let extraction := Extraction.ofRecords records window
    extraction.overheads = collect (overheadAfter? (max window 1)) records ∧
    extraction.cold = (records.filter (·.isOneOf ['C'])).map (·.elapsed) ∧
    extraction.hot = (records.filter (·.isOneOf ['H'])).map (·.elapsed) ∧
    extraction.events = (records.filter (·.isOneOf ['P'])).map (·.elapsed) ∧
    extraction.records = records.length ∧
    extraction.unknown = records.countP (!·.isOneOf ['C', 'c', 'H', 'h', 'P', 'p']) := by
  refine ⟨Replay.overheads_eq_collect window records, validCosts_eq .cold records,
    validCosts_eq .hot records, validCosts_eq .event records, rfl, ?_⟩
  rw [List.countP_eq_length_filter]
  show (records.filter fun r => r.kind? = none).length = _
  congr 1
  refine List.filter_congr fun record _ => ?_
  rw [Bool.eq_iff_iff, decide_eq_true_iff, Record.kind?_eq_none_iff, Bool.not_eq_true']

end CacheDelay.Overhead

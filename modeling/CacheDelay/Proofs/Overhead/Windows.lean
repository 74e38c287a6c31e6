import CacheDelay.Overhead.Replay
import CacheDelay.Proofs.Blocks

/-!
# Windows of hot records

What a replay should know after some records, said by position. The hot records, in order and cut
into blocks, give the complete windows and the window in progress. The leading valid records of a
window make its least cost.

* `closedBaseline?`: the least cost of the last complete window;
* `heldBaseline?`: the cost that events are measured against, where the window in progress already
  replaces the one before as soon as it has a valid record at its start;
* `overheadAfter?`: the overhead of a record that follows others.

Each has one lemma on appending a record: nothing changes unless it is hot (`hots_concat`), and a
hot record either stays in the window in progress or closes it.
-/

namespace CacheDelay

open CacheDelay.Trace

/-! ## Letters -/

/-- Whether the code of a record is one of the given letters. -/
def Trace.Record.isOneOf (r : Record) (letters : List Char) : Bool :=
  (letters.map Char.toUInt8).contains r.code

theorem Trace.AccessKind.ofCode?_eq_some_iff {code : UInt8} {kind : AccessKind} :
    AccessKind.ofCode? code = some kind ↔ code = kind.code := by
  constructor
  · intro h
    unfold AccessKind.ofCode? at h
    exact (beq_iff_eq.1 (List.find?_some (p := (AccessKind.code · == code)) h)).symm
  · rintro rfl
    exact AccessKind.ofCode?_code kind

theorem Trace.Record.kind?_eq_some_iff {r : Record} {kind : AccessKind} :
    r.kind? = some kind ↔ r.isOneOf [kind.letter] = true := by
  rw [kind?, AccessKind.ofCode?_eq_some_iff, isOneOf, List.map_singleton,
    List.contains_eq_mem, decide_eq_true_iff, List.mem_singleton]
  rfl

theorem Trace.Record.isOneOf_of_kind {r : Record} {kind : AccessKind} (h : r.kind? = some kind)
    (letters : List Char) : r.isOneOf letters = (letters.map Char.toUInt8).contains kind.code := by
  rw [isOneOf, AccessKind.ofCode?_eq_some_iff.1 h]

/-- A record is of unknown kind if its code is none of the six letters. -/
theorem Trace.Record.kind?_eq_none_iff {r : Record} :
    r.kind? = none ↔ r.isOneOf ['C', 'c', 'H', 'h', 'P', 'p'] = false := by
  have hl : ['C', 'c', 'H', 'h', 'P', 'p'].map Char.toUInt8 =
      AccessKind.all.map AccessKind.code := by decide
  rw [isOneOf, hl, kind?, AccessKind.ofCode?, List.find?_eq_none]
  simp only [beq_iff_eq, List.contains_eq_mem, List.mem_map, decide_eq_false_iff_not, not_exists,
    not_and]

theorem Trace.Record.isOneOf_eq_false {r : Record} (h : r.kind? = none) (letters : List Char)
    (hl : letters ⊆ ['C', 'c', 'H', 'h', 'P', 'p']) : r.isOneOf letters = false := by
  have := Record.kind?_eq_none_iff.1 h
  simp only [isOneOf, List.contains_eq_mem, decide_eq_false_iff_not] at this ⊢
  exact fun hm => this (List.map_subset _ hl hm)

namespace Overhead

/-! ## Windows -/

/-- The hot records, in order. -/
def hots (records : List Record) : List Record := records.filter (·.isOneOf ['H', 'h'])

/-- The costs of the valid records that a window begins with. -/
def leadingCosts (window : List Record) : List UInt64 :=
  (window.takeWhile (·.isOneOf ['H'])).map (·.elapsed)

/-- The least cost of the valid records that a window begins with. There is none if the window is
empty or begins with a suspect record. -/
def leastCost? (window : List Record) : Option UInt64 := (leadingCosts window).min?

/-- The last complete window of `w` hot records. -/
def lastWindow? (w : Nat) (records : List Record) : Option (List Record) :=
  (wholeBlocks w (hots records)).getLast?

/-- The hot records after the last complete window. -/
def openWindow (w : Nat) (records : List Record) : List Record := leftover w (hots records)

/-- The baseline that the last complete window left. -/
def closedBaseline? (w : Nat) (records : List Record) : Option UInt64 :=
  (lastWindow? w records).bind leastCost?

/-- The cost that an event is measured against: if the last complete window left a baseline, the
least cost of the window in progress, or that baseline as long as the window in progress has no
valid record at its start. -/
def heldBaseline? (w : Nat) (records : List Record) : Option UInt64 :=
  (closedBaseline? w records).map fun closed => (leastCost? (openWindow w records)).getD closed

/-- The CPU of the last hot or event record. -/
def lastCpu? (records : List Record) : Option UInt32 :=
  ((records.filter (·.isOneOf ['H', 'h', 'P', 'p'])).getLast?).map (·.cpu)

/-- Whether a window begins with a valid record. -/
def beginsValid (window : List Record) : Bool := window.head?.any (·.isOneOf ['H'])

/-- The overhead that a record yields after `earlier` ones: there is one for a valid event after at
least `w` hot records whose last complete window begins with a valid record. -/
def overheadAfter? (w : Nat) (earlier : List Record) (record : Record) : Option Sample :=
  let last := (lastWindow? w earlier).getD []
  let current := openWindow w earlier
  if record.isOneOf ['P'] ∧ w ≤ (hots earlier).length ∧ beginsValid last then
    let baseline := (leastCost? (if beginsValid current then current else last)).getD 0
    some {
      currentCpu := record.cpu
      lastCpu := (lastCpu? earlier).getD 0
      overhead := (record.elapsed - baseline).toInt64
      length := record.length.toInt64 }
  else none

theorem lastWindow?_isSome {w : Nat} (hw : 0 < w) (records : List Record) :
    (lastWindow? w records).isSome = decide (w ≤ (hots records).length) := by
  have hlen : (wholeBlocks w (hots records)).length = (hots records).length / w := length_blocks ..
  have hpos : 0 < (hots records).length / w ↔ w ≤ (hots records).length :=
    ⟨fun h => Nat.le_of_not_lt fun hlt => by simp [Nat.div_eq_of_lt hlt] at h,
      fun h => Nat.div_pos h hw⟩
  rw [lastWindow?, Bool.eq_iff_iff, List.getLast?_isSome, decide_eq_true_iff, ← hpos, ← hlen,
    List.length_pos_iff]

theorem leastCost?_isSome (window : List Record) :
    (leastCost? window).isSome = decide (0 < (leadingCosts window).length) := by
  rw [leastCost?]
  cases leadingCosts window <;> rfl

theorem beginsValid_eq (window : List Record) :
    beginsValid window = (leastCost? window).isSome := by
  cases window with
  | nil => rfl
  | cons first rest =>
    rw [leastCost?_isSome, leadingCosts, List.takeWhile_cons]
    cases h : first.isOneOf ['H'] <;> simp [beginsValid, h]

/-- The overhead of a record is its cost less the baseline that is held. -/
theorem overheadAfter?_eq {w : Nat} (hw : 0 < w) (earlier : List Record) (record : Record) :
    overheadAfter? w earlier record =
      if record.isOneOf ['P'] then (heldBaseline? w earlier).map fun baseline =>
        { currentCpu := record.cpu
          lastCpu := (lastCpu? earlier).getD 0
          overhead := (record.elapsed - baseline).toInt64
          length := record.length.toInt64 }
      else none := by
  have hsome := lastWindow?_isSome hw earlier
  rw [overheadAfter?, heldBaseline?, closedBaseline?]
  by_cases hp : record.isOneOf ['P']
  · cases hl : lastWindow? w earlier with
    | none =>
      have hlt : ¬ w ≤ (hots earlier).length := by simpa [hl] using hsome
      simp [hlt]
    | some last =>
      have hle : w ≤ (hots earlier).length := by simpa [hl] using hsome
      simp only [hp, hle, beginsValid_eq, Option.getD_some, true_and, if_true, Option.bind_some]
      cases hc : leastCost? last <;> cases ho : leastCost? (openWindow w earlier) <;> simp [hc, ho]
  · simp [hp]

/-! ## One more record -/

theorem hots_append (records rest : List Record) :
    hots (records ++ rest) = hots records ++ hots rest :=
  List.filter_append ..

theorem lastCpu?_append (records rest : List Record) :
    lastCpu? (records ++ rest) = (lastCpu? rest).or (lastCpu? records) := by
  rw [lastCpu?, List.filter_append, List.getLast?_append, Option.map_or]; rfl

theorem hots_concat (records : List Record) (record : Record) :
    hots (records ++ [record]) =
      hots records ++ if record.isOneOf ['H', 'h'] then [record] else [] := by
  rw [hots_append]
  congr 1
  rw [hots, List.filter_cons, List.filter_nil]

theorem lastCpu?_concat (records : List Record) (record : Record) :
    lastCpu? (records ++ [record]) =
      if record.isOneOf ['H', 'h', 'P', 'p'] then some record.cpu else lastCpu? records := by
  rw [lastCpu?_append, lastCpu?, List.filter_cons, List.filter_nil]
  split <;> rfl

theorem leadingCosts_concat (window : List Record) (record : Record) :
    leadingCosts (window ++ [record]) = leadingCosts window ++
      if window.all (·.isOneOf ['H']) && record.isOneOf ['H'] then [record.elapsed] else [] := by
  induction window with
  | nil => cases h : record.isOneOf ['H'] <;> simp [leadingCosts, h]
  | cons first rest ih =>
    cases h : first.isOneOf ['H'] with
    | false => simp [leadingCosts, h]
    | true =>
      simp only [leadingCosts, List.cons_append, List.takeWhile_cons, h, if_true, List.map_cons,
        List.all_cons, Bool.true_and] at ih ⊢
      rw [ih]

theorem leastCost?_concat (window : List Record) (record : Record) :
    leastCost? (window ++ [record]) =
      if window.all (·.isOneOf ['H']) && record.isOneOf ['H'] then
        some ((leastCost? window).elim record.elapsed (min · record.elapsed))
      else leastCost? window := by
  rw [leastCost?, leadingCosts_concat, leastCost?]
  split
  · cases leadingCosts window with
    | nil => rfl
    | cons cost costs =>
      rw [List.cons_append, List.min?_cons', List.min?_cons', List.foldl_append, List.foldl_cons,
        List.foldl_nil, Option.elim_some]
  · rw [List.append_nil]

theorem openWindow_concat {w : Nat} (hw : 0 < w) (records : List Record) {record : Record}
    (hot : record.isOneOf ['H', 'h'] = true) :
    openWindow w (records ++ [record]) =
      if (openWindow w records).length + 1 = w then [] else openWindow w records ++ [record] := by
  rw [openWindow, openWindow, hots_concat, if_pos hot, leftover_concat hw]

theorem closedBaseline?_concat {w : Nat} (hw : 0 < w) (records : List Record) {record : Record}
    (hot : record.isOneOf ['H', 'h'] = true) :
    closedBaseline? w (records ++ [record]) =
      if (openWindow w records).length + 1 = w then leastCost? (openWindow w records ++ [record])
      else closedBaseline? w records := by
  rw [closedBaseline?, closedBaseline?, lastWindow?, lastWindow?, openWindow, hots_concat,
    if_pos hot, wholeBlocks_concat hw]
  split
  · rw [List.getLast?_concat, Option.bind_some]
  · rw [List.append_nil]

end Overhead

end CacheDelay

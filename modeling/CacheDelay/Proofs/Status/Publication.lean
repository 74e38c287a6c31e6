import CacheDelay.Status.Snapshot
import Mathlib.Order.Monotone.Basic

/-!
# A page that is being written

A scheduler publishes one state after the other and writes the fields of each one by one, in any
order (`Cells.Write`), while a reader takes the fields of a snapshot in `readOrder`. A field shows
the state that was written to it last, and no field is more than one state ahead of another
(`Consistent.write`, `History.consistent`). The page is one of the states if each of them differs
from the one before in one field (`Consistent.page_mem`); otherwise it can show one field of a state
before the others (`exists_reached_put`).
-/

namespace CacheDelay.Status

/-! ## Fields of snapshots -/

theorem Snapshot.ofFields_field (s : Snapshot) : ofFields s.field = s := by
  simp only [ofFields, field, UInt64.ofNat_toNat, UInt32.ofNat_toNat]

/-- A snapshot made of fields of snapshots has these fields. -/
theorem Snapshot.field_ofFields {value : Field → Nat} (h : ∀ f, ∃ s : Snapshot, value f = s.field f)
    (f : Field) : (ofFields value).field f = value f := by
  obtain ⟨s, hs⟩ := h f
  cases f with
  | cpu =>
    show (UInt32.ofNat (value .cpu)).toNat = _
    rw [hs, field, UInt32.ofNat_toNat]
  | _ =>
    show (UInt64.ofNat (value _)).toNat = _
    rw [hs, field, UInt64.ofNat_toNat]

theorem Snapshot.eq_of_field {s s' : Snapshot} (h : ∀ f, s.field f = s'.field f) : s = s' := by
  rw [← ofFields_field s, ← ofFields_field s', funext h]

theorem Snapshot.sameWindow_iff {s s' : Snapshot} : s.sameWindow s' = true ↔
    s.field .jobCount = s'.field .jobCount ∧ s.field .schedCount = s'.field .schedCount ∧
      s.field .cpu = s'.field .cpu := by
  simp only [sameWindow, Bool.and_eq_true, beq_iff_eq, field, UInt64.toNat_inj, UInt32.toNat_inj,
    and_assoc]

/-- The snapshot with one field taken from another one. -/
def Snapshot.put (s : Snapshot) (f : Field) (source : Snapshot) : Snapshot :=
  .ofFields fun g => if g = f then source.field g else s.field g

theorem Snapshot.field_put (s : Snapshot) (f : Field) (source : Snapshot) (g : Field) :
    (s.put f source).field g = if g = f then source.field g else s.field g := by
  refine field_ofFields (fun g => ?_) g
  by_cases hg : g = f
  · exact ⟨source, if_pos hg⟩
  · exact ⟨s, if_neg hg⟩

theorem mem_readOrder (f : Field) : f ∈ readOrder := by cases f <;> decide

/-! ## The page while it is written -/

/-- The page and the number of the state that each field shows. -/
structure Cells where
  page : Snapshot
  written : Field → Nat

/-- The page with one field of the next state written. -/
def Cells.put (c : Cells) (f : Field) (state : Snapshot) : Cells where
  page := c.page.put f state
  written g := if g = f then c.written f + 1 else c.written g

/-- A field of the next state is written. It is the turn of the fields that are not ahead of others.
-/
inductive Cells.Write (states : List Snapshot) (c : Cells) : Cells → Prop
  | field (f : Field) (state : Snapshot) (turn : ∀ g, c.written f ≤ c.written g)
      (next : states[c.written f + 1]? = some state) : Write states c (c.put f state)

/-- What the page shows at each moment while `states` are published. The first of them is there to
begin with. -/
structure History (states : List Snapshot) where
  cells : Nat → Cells
  first : states[0]? = some (cells 0).page
  unwritten : ∀ f, (cells 0).written f = 0
  step : ∀ t, cells (t + 1) = cells t ∨ (cells t).Write states (cells (t + 1))

/-- The snapshot whose fields are read at the given moments. -/
def History.snapshot {states : List Snapshot} (h : History states) (moment : Field → Nat) :
    Snapshot :=
  .ofFields fun f => (h.cells (moment f)).page.field f

/-- The fields are read in the order of a snapshot. -/
def InOrder (moment : Field → Nat) : Prop :=
  readOrder.Pairwise fun f g => moment f ≤ moment g

/-- Each field shows the state that was written to it last, and no field is more than one state
ahead of another. -/
structure Consistent (states : List Snapshot) (c : Cells) : Prop where
  shows : ∀ f, ∃ state, states[c.written f]? = some state ∧ c.page.field f = state.field f
  close : ∀ f g, c.written f ≤ c.written g + 1

variable {states : List Snapshot} {c c' : Cells} {t t' k : Nat} {f : Field} {b d : Snapshot}

theorem Cells.written_put_self (c : Cells) (f : Field) (state : Snapshot) :
    (c.put f state).written f = c.written f + 1 :=
  if_pos rfl

theorem Cells.written_put_of_ne {g : Field} (hg : g ≠ f) (c : Cells) (state : Snapshot) :
    (c.put f state).written g = c.written g :=
  if_neg hg

theorem Consistent.write (h : Consistent states c) (hwrite : c.Write states c') :
    Consistent states c' := by
  obtain ⟨f, state, hturn, hnext⟩ := hwrite
  constructor
  · intro g
    by_cases hg : g = f
    · refine ⟨state, by rw [hg, c.written_put_self, hnext], ?_⟩
      exact (c.page.field_put f state g).trans (if_pos hg)
    · obtain ⟨shown, hshown, hfield⟩ := h.shows g
      refine ⟨shown, by rw [c.written_put_of_ne hg, hshown], ?_⟩
      rw [← hfield]
      exact (c.page.field_put f state g).trans (if_neg hg)
  · intro g g'
    have hclose := h.close g g'
    have hclose' := h.close g f
    have hturn' := hturn g'
    rw [Cells.put]
    dsimp only
    split <;> split <;> omega

theorem History.consistent (h : History states) (t : Nat) : Consistent states (h.cells t) := by
  induction t with
  | zero =>
    constructor
    · intro f
      exact ⟨_, by rw [h.unwritten, h.first], rfl⟩
    · intro f g
      rw [h.unwritten, h.unwritten]
      omega
  | succ t ih =>
    rcases h.step t with hsame | hwrite
    · rw [hsame]
      exact ih
    · exact ih.write hwrite

theorem Cells.Write.le_written (h : c.Write states c') (f : Field) :
    c.written f ≤ c'.written f := by
  obtain ⟨g, state, -, -⟩ := h
  by_cases hf : f = g
  · rw [hf, c.written_put_self]
    omega
  · rw [c.written_put_of_ne hf]

theorem History.written_mono (h : History states) (f : Field) :
    Monotone fun t => (h.cells t).written f := by
  refine monotone_nat_of_le_succ fun t => ?_
  rcases h.step t with hsame | hwrite
  · rw [hsame]
  · exact hwrite.le_written f

/-- No field is more than one state ahead of what another one shows later. -/
theorem History.written_le_succ (h : History states) (hle : t ≤ t') (f g : Field) :
    (h.cells t).written f ≤ (h.cells t').written g + 1 :=
  (h.written_mono f hle).trans ((h.consistent t').close f g)

theorem History.field_snapshot (h : History states) (moment : Field → Nat) (f : Field) :
    (h.snapshot moment).field f = (h.cells (moment f)).page.field f :=
  Snapshot.field_ofFields (fun _ => ⟨_, rfl⟩) f

theorem History.snapshot_const (h : History states) (t : Nat) :
    h.snapshot (fun _ => t) = (h.cells t).page :=
  Snapshot.ofFields_field _

theorem exists_state_of_le {i j : Nat} (hle : i ≤ j) (hd : states[j]? = some d) :
    ∃ b, states[i]? = some b := by
  obtain ⟨hj, -⟩ := List.getElem?_eq_some_iff.1 hd
  exact ⟨states[i], List.getElem?_eq_getElem (by omega)⟩

theorem Consistent.exists_complete (h : Consistent states c) :
    ∃ n, ∀ f, c.written f = n ∨ c.written f = n + 1 := by
  by_cases hbehind : ∃ g, c.written g < c.written .jobCount
  · obtain ⟨g, hg⟩ := hbehind
    refine ⟨c.written g, fun f => ?_⟩
    have hjob := h.close .jobCount f
    have hf := h.close f g
    omega
  · refine ⟨c.written .jobCount, fun f => ?_⟩
    have hf := h.close f .jobCount
    have hle : c.written .jobCount ≤ c.written f := Nat.not_lt.1 fun hlt => hbehind ⟨f, hlt⟩
    omega

/-- Where each state differs from the one before in one field, the page always shows a state. -/
theorem Consistent.page_mem (h : Consistent states c)
    (hone : ∀ k b d, states[k]? = some b → states[k + 1]? = some d → ∃! f, b.field f ≠ d.field f) :
    c.page ∈ states := by
  obtain ⟨n, hn⟩ := h.exists_complete
  obtain ⟨first, hfirst, -⟩ := h.shows .jobCount
  obtain ⟨b, hb⟩ := exists_state_of_le (i := n) (by have := hn .jobCount; omega) hfirst
  by_cases hall : ∀ f, c.written f = n
  · suffices hpage : c.page = b from hpage ▸ List.mem_of_getElem? hb
    refine Snapshot.eq_of_field fun f => ?_
    obtain ⟨state, hstate, hfield⟩ := h.shows f
    rw [hall, hb] at hstate
    rw [hfield, Option.some.inj hstate]
  · obtain ⟨f, hf⟩ := not_forall.1 hall
    obtain ⟨d, hd, -⟩ := h.shows f
    rw [(hn f).resolve_left hf] at hd
    obtain ⟨g, -, hunique⟩ := hone n b d hb hd
    have hshown {f : Field} {state : Snapshot} (hstate : states[c.written f]? = some state) :
        state = b ∨ state = d := by
      rcases hn f with hwritten | hwritten
      · rw [hwritten, hb] at hstate
        exact .inl (Option.some.inj hstate).symm
      · rw [hwritten, hd] at hstate
        exact .inr (Option.some.inj hstate).symm
    -- the page shows the state of the field that they differ in
    obtain ⟨state, hstate, hfield⟩ := h.shows g
    suffices hpage : c.page = state from hpage ▸ List.mem_of_getElem? hstate
    refine Snapshot.eq_of_field fun f => ?_
    by_cases hf : f = g
    · rw [hf, hfield]
    · obtain ⟨other, hother, hfield'⟩ := h.shows f
      have heq : b.field f = d.field f := by
        by_contra hne
        exact hf (hunique f hne)
      rw [hfield']
      rcases hshown hother with rfl | rfl <;> rcases hshown hstate with rfl | rfl
      · rfl
      · exact heq
      · exact heq.symm
      · rfl

/-! ## Every order of writes -/

/-- The page can be `c` from some moment on. -/
def Reached (states : List Snapshot) (c : Cells) : Prop :=
  ∃ (h : History states) (t : Nat), ∀ u, t ≤ u → h.cells u = c

theorem reached_first (h : states[0]? = some b) : Reached states ⟨b, fun _ => 0⟩ := by
  refine ⟨⟨fun _ => ⟨b, fun _ => 0⟩, h, fun _ => rfl, fun _ => .inl rfl⟩, 0, fun _ _ => rfl⟩

theorem Reached.write (h : Reached states c) (hwrite : c.Write states c') :
    Reached states c' := by
  obtain ⟨h, t, ht⟩ := h
  refine ⟨⟨fun u => if u ≤ t then h.cells u else c', ?_, ?_, ?_⟩, t + 1, fun u hu => ?_⟩
  · rw [if_pos t.zero_le]
    exact h.first
  · rw [if_pos t.zero_le]
    exact h.unwritten
  · intro u
    rcases Nat.lt_trichotomy u t with hu | rfl | hu
    · rw [if_pos (Nat.succ_le_of_lt hu), if_pos hu.le]
      exact h.step u
    · rw [if_pos (Nat.le_refl u), if_neg u.not_succ_le_self, ht u (Nat.le_refl u)]
      exact .inr hwrite
    · rw [if_neg hu.not_ge, if_neg (by omega)]
      exact .inl rfl
  · exact if_neg (by omega)

theorem Reached.consistent (h : Reached states c) : Consistent states c := by
  obtain ⟨h, t, ht⟩ := h
  rw [← ht t (Nat.le_refl t)]
  exact h.consistent t

/-- Where all fields show one state, any of them can be written next. -/
theorem Reached.write_fields (h : Reached states c) (hc : ∀ f, c.written f = k)
    (hnext : states[k + 1]? = some d) (fields : List Field) :
    ∃ c', Reached states c' ∧ ∀ f, c'.written f = if f ∈ fields then k + 1 else k := by
  induction fields with
  | nil => exact ⟨c, h, fun f => (hc f).trans (if_neg List.not_mem_nil).symm⟩
  | cons f fields ih =>
    obtain ⟨c', hreached, hwritten⟩ := ih
    by_cases hf : f ∈ fields
    · refine ⟨c', hreached, fun g => ?_⟩
      rw [hwritten]
      refine if_congr ⟨List.mem_cons_of_mem _, fun hg => ?_⟩ rfl rfl
      rcases List.mem_cons.1 hg with rfl | hg
      · exact hf
      · exact hg
    · have hturn : c'.written f = k := (hwritten f).trans (if_neg hf)
      refine ⟨c'.put f d, hreached.write (.field f d (fun g => ?_) ?_), fun g => ?_⟩
      · rw [hturn, hwritten]
        split <;> omega
      · rw [hturn, hnext]
      · by_cases hg : g = f
        · rw [hg, c'.written_put_self, hturn, if_pos List.mem_cons_self]
        · rw [c'.written_put_of_ne hg, hwritten]
          refine if_congr ⟨List.mem_cons_of_mem _, fun hmem => ?_⟩ rfl rfl
          exact (List.mem_cons.1 hmem).resolve_left hg

/-- Each state can be published in full. -/
theorem exists_reached (hb : states[k]? = some b) :
    ∃ c, Reached states c ∧ ∀ f, c.written f = k := by
  induction k generalizing b with
  | zero => exact ⟨_, reached_first hb, fun _ => rfl⟩
  | succ k ih =>
    obtain ⟨a, ha⟩ := exists_state_of_le k.le_succ hb
    obtain ⟨c, hreached, hc⟩ := ih ha
    obtain ⟨c', hreached', hc'⟩ := hreached.write_fields hc hb readOrder
    exact ⟨c', hreached', fun f => (hc' f).trans (if_pos (mem_readOrder f))⟩

/-- A field of a state can be all that was written of it. -/
theorem exists_reached_put (hb : states[k]? = some b) (hd : states[k + 1]? = some d) (f : Field) :
    ∃ c, Reached states c ∧ c.page = b.put f d := by
  obtain ⟨c, hreached, hc⟩ := exists_reached hb
  obtain ⟨c', hreached', hc'⟩ := hreached.write_fields hc hd [f]
  refine ⟨c', hreached', Snapshot.eq_of_field fun g => ?_⟩
  obtain ⟨state, hstate, hfield⟩ := hreached'.consistent.shows g
  rw [hfield, Snapshot.field_put]
  by_cases hg : g = f
  · rw [hc', if_pos (List.mem_singleton.2 hg), hd] at hstate
    rw [if_pos hg, Option.some.inj hstate]
  · rw [hc', if_neg (mt List.mem_singleton.1 hg), hb] at hstate
    rw [if_neg hg, Option.some.inj hstate]

end CacheDelay.Status

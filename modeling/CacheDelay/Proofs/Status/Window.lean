import CacheDelay.Proofs.Status.Publication

/-!
# Snapshots in one window

If the counters of jobs and schedulings grow from state to state, a snapshot that is in the same
window as a later one has its fields from at most three states in a row
(`History.SameWindow.exists_three`), and is one of the states if the page showed a state whenever it
was read (`History.SameWindow.mem_of_published`). That each such snapshot is one of the states,
whatever the order of writes and reads, holds exactly if each state differs from the one before in
one field (`sameWindow_published`).
-/

namespace CacheDelay.Status

variable {states : List Snapshot} {c : Cells} {t t' i j k : Nat} {f : Field} {b d : Snapshot}

/-! ## Growing counters -/

/-- The counters of jobs and schedulings do not fall, and one of them rises. -/
def CountsGrow (b d : Snapshot) : Prop :=
  b.jobCount ≤ d.jobCount ∧ b.schedCount ≤ d.schedCount ∧
    (b.jobCount < d.jobCount ∨ b.schedCount < d.schedCount)

instance (b d : Snapshot) : Decidable (CountsGrow b d) := inferInstanceAs (Decidable (_ ∧ _ ∧ _))

/-- The field is one of the two counters. -/
def Field.IsCount (f : Field) : Prop := f = .jobCount ∨ f = .schedCount

theorem CountsGrow.field_le (h : CountsGrow b d) (hf : f.IsCount) : b.field f ≤ d.field f := by
  rcases hf with rfl | rfl
  · exact UInt64.le_iff_toNat_le.1 h.1
  · exact UInt64.le_iff_toNat_le.1 h.2.1

theorem CountsGrow.exists_lt (h : CountsGrow b d) :
    ∃ f : Field, f.IsCount ∧ b.field f < d.field f := by
  rcases h.2.2 with hlt | hlt
  · exact ⟨.jobCount, .inl rfl, UInt64.lt_iff_toNat_lt.1 hlt⟩
  · exact ⟨.schedCount, .inr rfl, UInt64.lt_iff_toNat_lt.1 hlt⟩

theorem countsGrow_of_lt (hgrow : states.Pairwise CountsGrow) (hb : states[i]? = some b)
    (hd : states[j]? = some d) (hlt : i < j) : CountsGrow b d := by
  obtain ⟨hi, rfl⟩ := List.getElem?_eq_some_iff.1 hb
  obtain ⟨hj, rfl⟩ := List.getElem?_eq_some_iff.1 hd
  exact List.pairwise_iff_getElem.1 hgrow i j hi hj hlt

theorem field_le_of_le (hgrow : states.Pairwise CountsGrow) (hb : states[i]? = some b)
    (hd : states[j]? = some d) (hle : i ≤ j) (hf : f.IsCount) : b.field f ≤ d.field f := by
  rcases Nat.eq_or_lt_of_le hle with rfl | hlt
  · cases hb.symm.trans hd
    exact Nat.le_refl _
  · exact (countsGrow_of_lt hgrow hb hd hlt).field_le hf

/-- A counter that two states agree on is the same in the states between them. -/
theorem field_eq_of_between {x : Snapshot} (hgrow : states.Pairwise CountsGrow)
    (hb : states[i]? = some b) (hx : states[k]? = some x) (hd : states[j]? = some d) (hik : i ≤ k)
    (hkj : k ≤ j) (hf : f.IsCount) (heq : b.field f = d.field f) : x.field f = b.field f :=
  Nat.le_antisymm ((field_le_of_le hgrow hx hd hkj hf).trans_eq heq.symm)
    (field_le_of_le hgrow hb hx hik hf)

/-- States with the same counters are the same. -/
theorem eq_of_counts (hgrow : states.Pairwise CountsGrow) (hb : b ∈ states) (hd : d ∈ states)
    (h : ∀ f : Field, f.IsCount → b.field f = d.field f) : b = d := by
  obtain ⟨i, hi⟩ := List.mem_iff_getElem?.1 hb
  obtain ⟨j, hj⟩ := List.mem_iff_getElem?.1 hd
  rcases Nat.lt_trichotomy i j with hlt | rfl | hlt
  · obtain ⟨f, hf, hfield⟩ := (countsGrow_of_lt hgrow hi hj hlt).exists_lt
    exact absurd (h f hf) hfield.ne
  · exact Option.some.inj (hi.symm.trans hj)
  · obtain ⟨f, hf, hfield⟩ := (countsGrow_of_lt hgrow hj hi hlt).exists_lt
    exact absurd (h f hf) hfield.ne'

theorem History.field_page_le (hgrow : states.Pairwise CountsGrow) (h : History states)
    (hle : t ≤ t') (hf : f.IsCount) : (h.cells t).page.field f ≤ (h.cells t').page.field f := by
  obtain ⟨b, hb, hpage⟩ := (h.consistent t).shows f
  obtain ⟨d, hd, hpage'⟩ := (h.consistent t').shows f
  rw [hpage, hpage']
  exact field_le_of_le hgrow hb hd (h.written_mono f hle) hf

/-! ## Two snapshots in one window -/

variable {moment later : Field → Nat}

theorem InOrder.jobCount_le (h : InOrder moment) (f : Field) : moment .jobCount ≤ moment f := by
  simp only [InOrder, readOrder, List.pairwise_cons, List.mem_cons, List.not_mem_nil, or_false] at h
  cases f with
  | jobCount => exact Nat.le_refl _
  | _ => exact h.1 _ (by decide)

theorem InOrder.schedCount_le (h : InOrder moment) (hf : f ≠ .jobCount) :
    moment .schedCount ≤ moment f := by
  simp only [InOrder, readOrder, List.pairwise_cons, List.mem_cons, List.not_mem_nil, or_false] at h
  cases f with
  | jobCount => exact absurd rfl hf
  | schedCount => exact Nat.le_refl _
  | _ => exact h.2.1 _ (by decide)

theorem InOrder.le_preemptEnd (h : InOrder moment) (f : Field) : moment f ≤ moment .preemptEnd := by
  simp only [InOrder, readOrder, List.pairwise_cons, List.mem_cons, List.not_mem_nil, or_false] at h
  cases f with
  | jobCount => exact h.1 _ (by decide)
  | schedCount => exact h.2.1 _ (by decide)
  | cpu => exact h.2.2.1 _ (by decide)
  | lastTask => exact h.2.2.2.1 _ (by decide)
  | preemptStart => exact h.2.2.2.2.1 _ rfl
  | preemptEnd => exact Nat.le_refl _

/-- A snapshot is in the same window as one that is taken after it. -/
structure History.SameWindow (h : History states) (moment later : Field → Nat) : Prop where
  inOrder : InOrder moment
  laterInOrder : InOrder later
  after : moment .preemptEnd ≤ later .jobCount
  same : (h.snapshot moment).sameWindow (h.snapshot later) = true

theorem History.SameWindow.field_eq {h : History states} (hsame : h.SameWindow moment later)
    (hf : f.IsCount) :
    (h.cells (moment f)).page.field f = (h.cells (later f)).page.field f := by
  obtain ⟨hjob, hsched, -⟩ := Snapshot.sameWindow_iff.1 hsame.same
  rw [← h.field_snapshot, ← h.field_snapshot]
  rcases hf with rfl | rfl
  · exact hjob
  · exact hsched

/-- All fields are read before those of the later snapshot. -/
theorem History.SameWindow.le {h : History states} (hsame : h.SameWindow moment later)
    (f g : Field) : moment f ≤ later g :=
  ((hsame.inOrder.le_preemptEnd f).trans hsame.after).trans (hsame.laterInOrder.jobCount_le g)

/-- A snapshot is one of the states if the page showed one whenever it was read. -/
theorem History.SameWindow.mem_of_published {h : History states}
    (hgrow : states.Pairwise CountsGrow) (hsame : h.SameWindow moment later)
    (hread : ∀ f, (h.cells (moment f)).page ∈ states ∧ (h.cells (later f)).page ∈ states) :
    h.snapshot moment ∈ states := by
  -- the pages since the second read have its counters, up to the first read of the later snapshot
  have hjob : (h.cells (moment .jobCount)).page.field .jobCount =
      (h.cells (moment .schedCount)).page.field .jobCount := by
    refine Nat.le_antisymm ?_ ?_
    · exact h.field_page_le hgrow (hsame.inOrder.jobCount_le _) (.inl rfl)
    · rw [hsame.field_eq (.inl rfl)]
      exact h.field_page_le hgrow (hsame.le _ _) (.inl rfl)
  have hpage {f : Field} (hf : f ≠ .jobCount) :
      (h.cells (moment f)).page = (h.cells (moment .schedCount)).page := by
    refine eq_of_counts hgrow (hread f).1 (hread .schedCount).1 fun g hg => ?_
    refine Nat.le_antisymm ?_ (h.field_page_le hgrow (hsame.inOrder.schedCount_le hf) hg)
    have hlater := h.field_page_le hgrow (hsame.le f g) hg
    rw [← hsame.field_eq hg] at hlater
    rcases hg with rfl | rfl
    · exact hlater.trans_eq hjob
    · exact hlater
  have hstate : h.snapshot moment = (h.cells (moment .schedCount)).page := by
    refine Snapshot.eq_of_field fun f => ?_
    rw [h.field_snapshot]
    by_cases hf : f = .jobCount
    · rw [hf]
      exact hjob
    · rw [hpage hf]
  rw [hstate]
  exact (hread .schedCount).1

/-- Two states cannot both have been written to both counters between the two snapshots. -/
theorem History.SameWindow.exists_written_le {h : History states} {m : Nat}
    (hgrow : states.Pairwise CountsGrow) (hsame : h.SameWindow moment later)
    (hm : ∀ f : Field, f.IsCount → (h.cells (moment f)).written f ≤ m) :
    ∃ f : Field, f.IsCount ∧ (h.cells (later f)).written f ≤ m := by
  by_contra hnone
  have hlater (f : Field) (hf : f.IsCount) : m + 1 ≤ (h.cells (later f)).written f := by
    by_contra hle
    exact hnone ⟨f, hf, by omega⟩
  obtain ⟨last, hlast, -⟩ := (h.consistent (later .jobCount)).shows .jobCount
  obtain ⟨y, hy⟩ := exists_state_of_le (hlater .jobCount (.inl rfl)) hlast
  obtain ⟨x, hx⟩ := exists_state_of_le m.le_succ hy
  obtain ⟨f, hf, hlt⟩ := (countsGrow_of_lt hgrow hx hy m.lt_succ_self).exists_lt
  obtain ⟨b, hb, hread⟩ := (h.consistent (moment f)).shows f
  obtain ⟨d, hd, hread'⟩ := (h.consistent (later f)).shows f
  have heq : b.field f = d.field f := by rw [← hread, ← hread', hsame.field_eq hf]
  have hxb := field_eq_of_between hgrow hb hx hd (hm f hf) (m.le_succ.trans (hlater f hf)) hf heq
  have hyb := field_eq_of_between hgrow hb hy hd ((hm f hf).trans m.le_succ) (hlater f hf) hf heq
  omega

/-- The fields of a snapshot are from at most three states in a row. -/
theorem History.SameWindow.exists_three {h : History states}
    (hgrow : states.Pairwise CountsGrow) (hsame : h.SameWindow moment later) :
    ∃ k, ∀ f, ∃ j state, k ≤ j ∧ j ≤ k + 2 ∧ states[j]? = some state ∧
      (h.snapshot moment).field f = state.field f := by
  have hjobs := h.written_le_succ (hsame.inOrder.jobCount_le .schedCount) .jobCount .schedCount
  -- the newest of the states that the counters were read from
  obtain ⟨m, hm⟩ : ∃ m, m = max ((h.cells (moment .jobCount)).written .jobCount)
      ((h.cells (moment .schedCount)).written .schedCount) := ⟨_, rfl⟩
  obtain ⟨g, -, hg⟩ := hsame.exists_written_le hgrow (m := m) (by
    rintro f (rfl | rfl)
    · rw [hm]
      exact Nat.le_max_left _ _
    · rw [hm]
      exact Nat.le_max_right _ _)
  refine ⟨m - 1, fun f => ?_⟩
  rw [h.field_snapshot]
  obtain ⟨b, hb, hread⟩ := (h.consistent (moment f)).shows f
  by_cases hf : f = .jobCount
  · subst hf
    -- the job counter may be older, but has the value of the state before the newest
    obtain ⟨d, hd, hread'⟩ := (h.consistent (later .jobCount)).shows .jobCount
    have hmono := h.written_mono .jobCount (hsame.le .jobCount .jobCount)
    have hsched := h.written_le_succ (hsame.le .schedCount .jobCount) .schedCount .jobCount
    dsimp only at hmono
    have hle : max ((h.cells (moment .jobCount)).written .jobCount) (m - 1) ≤
        (h.cells (later .jobCount)).written .jobCount := by omega
    obtain ⟨x, hx⟩ := exists_state_of_le hle hd
    have heq : b.field .jobCount = d.field .jobCount := by
      rw [← hread, ← hread', hsame.field_eq (.inl rfl)]
    refine ⟨_, x, Nat.le_max_right _ _, by omega, hx, ?_⟩
    rw [hread, field_eq_of_between hgrow hb hx hd (Nat.le_max_left _ _) hle (.inl rfl) heq]
  · have hjob := h.written_le_succ (hsame.inOrder.jobCount_le f) .jobCount f
    have hsched := h.written_le_succ (hsame.inOrder.schedCount_le hf) .schedCount f
    have hlater := h.written_le_succ (hsame.le f g) f g
    exact ⟨_, b, by omega, by omega, hb, hread⟩

/-! ## Every order of writes -/

/-- What the page shows at some moment can be read twice. -/
theorem Reached.exists_snapshot (h : Reached states c) :
    ∃ (h : History states) (moment : Field → Nat),
      h.SameWindow moment moment ∧ h.snapshot moment = c.page := by
  obtain ⟨h, t, ht⟩ := h
  refine ⟨h, fun _ => t, ⟨?_, ?_, Nat.le_refl t, ?_⟩, ?_⟩
  · exact List.pairwise_of_forall fun _ _ => Nat.le_refl t
  · exact List.pairwise_of_forall fun _ _ => Nat.le_refl t
  · rw [Snapshot.sameWindow_iff]
    exact ⟨rfl, rfl, rfl⟩
  · rw [h.snapshot_const, ht t (Nat.le_refl t)]

/-- A state with one counter of the next is no state if the next one changes another field. -/
theorem put_not_mem (hgrow : states.Pairwise CountsGrow) (hb : states[k]? = some b)
    (hd : states[k + 1]? = some d) (hf : f.IsCount) (hlt : b.field f < d.field f) {g : Field}
    (hg : g ≠ f) (hne : b.field g ≠ d.field g) : b.put f d ∉ states := by
  intro hmem
  obtain ⟨j, hj⟩ := List.mem_iff_getElem?.1 hmem
  have hnext := countsGrow_of_lt hgrow hb hd k.lt_succ_self
  rcases Nat.lt_trichotomy j (k + 1) with hlt' | rfl | hgt
  · have hle := field_le_of_le hgrow hj hb (Nat.lt_succ_iff.1 hlt') hf
    rw [b.field_put, if_pos rfl] at hle
    omega
  · have hsame := congrArg (·.field g) (Option.some.inj (hj.symm.trans hd))
    simp only [b.field_put, if_neg hg] at hsame
    exact hne hsame
  · obtain ⟨f', hf', hlt'⟩ := (countsGrow_of_lt hgrow hd hj hgt).exists_lt
    have hle := hnext.field_le hf'
    rw [b.field_put] at hlt'
    split at hlt' <;> omega

/-- Suppose the counters of jobs and schedulings grow from state to state. A snapshot in the same
window as a later one has its fields from at most three states in a row, and is one of the states if
the page showed a state whenever it was read. All such snapshots are among the states, in every
order of writes and reads, exactly if each state differs from the one before in one field. -/
theorem sameWindow_published (hgrow : states.Pairwise CountsGrow) :
    (∀ (h : History states) moment later, h.SameWindow moment later →
      (∃ k, ∀ f, ∃ j state, k ≤ j ∧ j ≤ k + 2 ∧ states[j]? = some state ∧
        (h.snapshot moment).field f = state.field f) ∧
      ((∀ f, (h.cells (moment f)).page ∈ states ∧ (h.cells (later f)).page ∈ states) →
        h.snapshot moment ∈ states)) ∧
    ((∀ (h : History states) moment later, h.SameWindow moment later →
        h.snapshot moment ∈ states) ↔
      ∀ k b d, states[k]? = some b → states[k + 1]? = some d → ∃! f, b.field f ≠ d.field f) := by
  refine ⟨fun h moment later hsame =>
    ⟨hsame.exists_three hgrow, hsame.mem_of_published hgrow⟩, fun hall k b d hb hd => ?_,
    fun hone h moment later hsame => ?_⟩
  · obtain ⟨f, hf, hlt⟩ := (countsGrow_of_lt hgrow hb hd k.lt_succ_self).exists_lt
    refine ⟨f, hlt.ne, fun g hne => ?_⟩
    by_contra hg
    obtain ⟨c, hreached, hpage⟩ := exists_reached_put hb hd f
    obtain ⟨h, moment, hsame, hsnapshot⟩ := hreached.exists_snapshot
    refine put_not_mem hgrow hb hd hf hlt hg hne ?_
    rw [← hpage, ← hsnapshot]
    exact hall h moment moment hsame
  · exact hsame.mem_of_published hgrow fun f =>
      ⟨(h.consistent _).page_mem hone, (h.consistent _).page_mem hone⟩

/-- Where the scheduler counts a scheduling and then a job, and nothing else changes, no snapshot is
torn. -/
theorem sameWindow_published_counts :
    let states : List Snapshot :=
      [⟨1, 1, 0, 7, 400, 900⟩, ⟨1, 2, 0, 7, 400, 900⟩, ⟨2, 2, 0, 7, 400, 900⟩]
    states.Pairwise CountsGrow ∧ ∀ (h : History states) moment later,
      h.SameWindow moment later → h.snapshot moment ∈ states := by
  intro states
  have hgrow : states.Pairwise CountsGrow := by decide
  refine ⟨hgrow, (sameWindow_published hgrow).2.2 fun k b d hb hd => ?_⟩
  match k with
  | 0 =>
    cases hb
    cases hd
    exact ⟨.schedCount, by decide, fun f hf => by cases f <;> first | rfl | exact absurd rfl hf⟩
  | 1 =>
    cases hb
    cases hd
    exact ⟨.jobCount, by decide, fun f hf => by cases f <;> first | rfl | exact absurd rfl hf⟩
  | k + 2 => cases hd

/-- The schedule counter and the start of the preemption are written, and the end is not yet. Two
snapshots at this moment are in one window, and show a preemption that no state has. -/
theorem torn_snapshot_in_one_window :
    let states : List Snapshot := [⟨1, 1, 0, 0, 0, 0⟩, ⟨1, 2, 0, 0, 1000, 1500⟩]
    states.Pairwise (fun b d =>
      (b.jobCount, b.schedCount, b.cpu) ≠ (d.jobCount, d.schedCount, d.cpu)) ∧
    ∃ (h : History states) (moment later : Field → Nat), h.SameWindow moment later ∧
      h.snapshot moment ∉ states ∧
      ∀ state ∈ states, (h.snapshot moment).preemptionLength ≠ state.preemptionLength := by
  intro states
  refine ⟨by decide, ?_⟩
  have hcount : Reached states _ := (reached_first (b := ⟨1, 1, 0, 0, 0, 0⟩) rfl).write
    (.field .schedCount ⟨1, 2, 0, 0, 1000, 1500⟩ (fun _ => Nat.le_refl 0) rfl)
  have hstart : Reached states _ := hcount.write
    (.field .preemptStart ⟨1, 2, 0, 0, 1000, 1500⟩ (fun g => Nat.zero_le _) rfl)
  obtain ⟨h, moment, hsame, hsnapshot⟩ := hstart.exists_snapshot
  refine ⟨h, moment, moment, hsame, ?_, ?_⟩
  · rw [hsnapshot]
    decide
  · rw [hsnapshot]
    decide

end CacheDelay.Status

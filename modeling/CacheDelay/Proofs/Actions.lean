import CacheDelay.World
import Mathlib.Data.List.Forall2

/-!
# Runs of actions

An action takes a world to a result and a world. A run of a sequence is peeled apart at its first
action, from the front (`bind_of_ok`, `bind_of_error`) or from the end (`of_bind_eq_ok`); each
primitive has one equation that says what it does to the world.
-/

namespace CacheDelay.Action

open CacheDelay.Files

variable {α β : Type} {w w' : World}

theorem exists_of_isOk {x : Action α} (h : (x w).1.isOk) : ∃ a w', x w = (.ok a, w') := by
  rcases hx : x w with ⟨_ | a, w'⟩
  · rw [hx] at h
    cases h
  · exact ⟨a, w', rfl⟩

theorem exists_of_not_isOk {x : Action α} (h : (x w).1.isOk = false) :
    ∃ failure w', x w = (.error failure, w') := by
  rcases hx : x w with ⟨failure | a, w'⟩
  · exact ⟨failure, w', rfl⟩
  · rw [hx] at h
    cases h

theorem exists_of_toOption_map {x : Action α} {f : α → β} {b : β}
    (h : (x w).1.toOption.map f = some b) : ∃ a w', x w = (.ok a, w') ∧ f a = b := by
  rcases hx : x w with ⟨_ | a, w'⟩
  · rw [hx] at h
    cases h
  · rw [hx] at h
    exact ⟨a, w', rfl, Option.some.inj h⟩

theorem bind_of_ok {x : Action α} {a : α} (h : x w = (.ok a, w')) (f : α → Action β) :
    (x >>= f) w = f a w' := by
  show (match x w with | (result, w) => ExceptT.bindCont f result w) = _
  rw [h]
  rfl

theorem bind_of_error {x : Action α} {failure : Failure} (h : x w = (.error failure, w'))
    (f : α → Action β) : (x >>= f) w = (.error failure, w') := by
  show (match x w with | (result, w) => ExceptT.bindCont f result w) = _
  rw [h]
  rfl

/-- A sequence that succeeds has a first action that does. -/
theorem of_bind_eq_ok {x : Action α} {f : α → Action β} {b : β} (h : (x >>= f) w = (.ok b, w')) :
    ∃ a v, x w = (.ok a, v) ∧ f a v = (.ok b, w') := by
  rcases hx : x w with ⟨_ | a, v⟩
  · rw [bind_of_error hx] at h
    cases h
  · exact ⟨a, v, rfl, (bind_of_ok hx f).symm.trans h⟩

theorem bind_eq_ok_iff {x : Action α} {f : α → Action β} {b : β} :
    (x >>= f) w = (.ok b, w') ↔ ∃ a v, x w = (.ok a, v) ∧ f a v = (.ok b, w') :=
  ⟨of_bind_eq_ok, fun ⟨_, _, hx, hf⟩ => (bind_of_ok hx f).trans hf⟩

theorem map_of_ok {x : Action α} {a : α} (h : x w = (.ok a, w')) (f : α → β) :
    (f <$> x) w = (.ok (f a), w') := by
  rw [map_eq_pure_bind, bind_of_ok h]
  rfl

theorem of_map_eq_ok {x : Action α} {f : α → β} {b : β} (h : (f <$> x) w = (.ok b, w')) :
    ∃ a, x w = (.ok a, w') ∧ f a = b := by
  rw [map_eq_pure_bind] at h
  obtain ⟨a, v, hx, hb⟩ := of_bind_eq_ok h
  cases hb
  exact ⟨a, hx, rfl⟩

theorem within_of_ok {x : Action α} {a : α} (h : x w = (.ok a, w')) (context : Context) :
    x.within context w = (.ok a, w') := by
  rw [within, h]

theorem within_of_error {x : Action α} {failure : Failure} (h : x w = (.error failure, w'))
    (context : Context) : x.within context w = (.error (failure.within context), w') := by
  rw [within, h]

theorem of_within_eq_ok {x : Action α} {context : Context} {a : α}
    (h : x.within context w = (.ok a, w')) : x w = (.ok a, w') := by
  rcases hx : x w with ⟨_ | a, v⟩
  · rw [within_of_error hx] at h
    cases h
  · exact (within_of_ok hx context).symm.trans h

theorem within_eq_ok_iff {x : Action α} {context : Context} {a : α} :
    x.within context w = (.ok a, w') ↔ x w = (.ok a, w') :=
  ⟨of_within_eq_ok, fun h => within_of_ok h context⟩

/-- Results are used in one go or one by one. -/
theorem map_mapM {γ : Type} (f : α → Action β) (g : β → γ) (items : List α) :
    List.map g <$> items.mapM f = items.mapM fun item => g <$> f item := by
  induction items with
  | nil => simp
  | cons item items ih =>
    rw [List.mapM_cons, List.mapM_cons, ← ih]
    simp only [map_eq_pure_bind, bind_assoc, pure_bind, List.map_cons]

/-- What is done group by group is done one after another. -/
theorem flatten_mapM_mapM (f : α → Action β) (groups : List (List α)) :
    List.flatten <$> groups.mapM (List.mapM f) = groups.flatten.mapM f := by
  induction groups with
  | nil => simp
  | cons group groups ih =>
    rw [List.mapM_cons, List.flatten_cons, List.mapM_append, ← ih]
    simp only [map_eq_pure_bind, bind_assoc, pure_bind, List.flatten_cons]

/-- What holds of the world, the items done and their results, and is kept by each action of a list,
holds once the list is done. -/
theorem mapM_induction (View : World → List α → List β → Prop) {f : α → Action β} {items : List α}
    (hstep : ∀ item ∈ items, ∀ done found v b v', View v done found → f item v = (.ok b, v') →
      View v' (done ++ [item]) (found ++ [b]))
    (done : List α) (found : List β) (hview : View w done found) {results : List β}
    (h : items.mapM f w = (.ok results, w')) : View w' (done ++ items) (found ++ results) := by
  induction items generalizing w done found results with
  | nil =>
    rw [List.mapM_nil] at h
    cases h
    rwa [List.append_nil, List.append_nil]
  | cons item items ih =>
    rw [List.mapM_cons] at h
    obtain ⟨b, v, hitem, h⟩ := of_bind_eq_ok h
    obtain ⟨rest, v', hitems, h⟩ := of_bind_eq_ok h
    cases h
    have hnext := hstep item List.mem_cons_self done found w b v hview hitem
    rw [List.append_cons, List.append_cons found]
    exact ih (fun item hmem => hstep item (List.mem_cons_of_mem _ hmem)) _ _ hnext hitems

/-- What each action of a list does to a view of the world, the list does in turn. -/
theorem foldl_of_mapM_eq_ok {γ : Type} (View : World → γ → Prop) (next : γ → α → γ)
    {f : α → Action β}
    (hstep : ∀ item view w b w', View w view → f item w = (.ok b, w') → View w' (next view item))
    {items : List α} {view : γ} (hview : View w view) {results : List β}
    (h : items.mapM f w = (.ok results, w')) : View w' (items.foldl next view) := by
  refine mapM_induction (fun v done _ => View v (done.foldl next view)) ?_ [] [] hview h
  intro item _ done _ v b v' hdone hitem
  rw [List.foldl_concat]
  exact hstep item _ v b v' hdone hitem

/-- What each action of a list does to a view of the world and of the results so far, the list does
in turn. -/
theorem append_of_mapM_eq_ok (View : World → List β → Prop) {f : α → Action β}
    (hstep : ∀ item done w b w', View w done → f item w = (.ok b, w') → View w' (done ++ [b]))
    {items : List α} (hview : View w []) {results : List β}
    (h : items.mapM f w = (.ok results, w')) : View w' results :=
  mapM_induction (fun v _ found => View v found)
    (fun item _ _ found v b v' => hstep item found v b v') [] [] hview h

/-- What each action of a list keeps, the list keeps. -/
theorem kept_of_mapM_eq_ok (View : World → Prop) {f : α → Action β} {items : List α}
    (hstep : ∀ item ∈ items, ∀ v b v', View v → f item v = (.ok b, v') → View v') (hw : View w)
    {results : List β} (h : items.mapM f w = (.ok results, w')) : View w' :=
  mapM_induction (fun v _ _ => View v) (fun item hmem _ _ => hstep item hmem) [] [] hw h

/-- What holds of each item and its result holds of the lists. -/
theorem forall₂_of_mapM_eq_ok (Result : α → β → Prop) {f : α → Action β}
    (hstep : ∀ item w b w', f item w = (.ok b, w') → Result item b) {items : List α}
    {results : List β} (h : items.mapM f w = (.ok results, w')) :
    List.Forall₂ Result items results := by
  refine mapM_induction (fun _ done found => List.Forall₂ Result done found) ?_ [] [] .nil h
  intro item _ done found v b v' hdone hitem
  exact List.rel_append hdone (.cons (hstep item v b v' hitem) .nil)

/-- A list of actions succeeds if each of them does where what holds of the world, the items done and
their results lets it succeed, and keeps this. -/
theorem exists_mapM_of_step (View : World → List α → List β → Prop) {f : α → Action β}
    {items : List α} (hstep : ∀ item ∈ items, ∀ done found v, View v done found →
      ∃ b v', f item v = (.ok b, v') ∧ View v' (done ++ [item]) (found ++ [b]))
    (done : List α) (found : List β) (hview : View w done found) :
    ∃ results w', items.mapM f w = (.ok results, w') ∧
      View w' (done ++ items) (found ++ results) := by
  induction items generalizing w done found with
  | nil => exact ⟨[], w, rfl, by rwa [List.append_nil, List.append_nil]⟩
  | cons item items ih =>
    obtain ⟨b, v, hitem, hv⟩ := hstep item List.mem_cons_self done found w hview
    obtain ⟨rest, w', hitems, hw'⟩ :=
      ih (fun item hmem => hstep item (List.mem_cons_of_mem _ hmem)) _ _ hv
    refine ⟨b :: rest, w', ?_, by rwa [List.append_cons, List.append_cons found]⟩
    rw [List.mapM_cons, bind_of_ok hitem, bind_of_ok hitems]
    rfl

/-- A list of actions that each succeed, and leave what lets the others succeed, succeeds. -/
theorem exists_mapM_of_forall (View : World → Prop) (Result : α → β → Prop) {f : α → Action β}
    {items : List α} (hstep : ∀ item ∈ items, ∀ w, View w →
      ∃ b w', f item w = (.ok b, w') ∧ View w' ∧ Result item b) (hview : View w) :
    ∃ results w', items.mapM f w = (.ok results, w') ∧ List.Forall₂ Result items results := by
  have hstep' : ∀ item ∈ items, ∀ done found v, View v ∧ List.Forall₂ Result done found →
      ∃ b v', f item v = (.ok b, v') ∧ View v' ∧
        List.Forall₂ Result (done ++ [item]) (found ++ [b]) := by
    rintro item hmem done found v ⟨hv, hfound⟩
    obtain ⟨b, v', hitem, hv', hb⟩ := hstep item hmem v hv
    exact ⟨b, v', hitem, hv', List.rel_append hfound (.cons hb .nil)⟩
  obtain ⟨results, w', hrun, -, hresults⟩ := exists_mapM_of_step
    (fun v done found => View v ∧ List.Forall₂ Result done found) hstep' [] [] ⟨hview, .nil⟩
  exact ⟨results, w', hrun, hresults⟩

/-- What is done with each item is done for its results, of which there are none. -/
theorem forM_eq_map_mapM (f : α → Action Unit) (items : List α) :
    items.forM f = (fun _ => ()) <$> items.mapM f := by
  induction items with
  | nil => rfl
  | cons item items ih =>
    show (f item >>= fun _ => items.forM f) = _
    rw [List.mapM_cons, ih]
    simp only [map_eq_pure_bind, bind_assoc, pure_bind]

/-- A list of actions leaves the world alone if each of them does, whether it succeeds or fails. -/
theorem snd_mapM_of_same {f : α → Action β} {items : List α} (h : ∀ item ∈ items, (f item w).2 = w) :
    (items.mapM f w).2 = w := by
  induction items with
  | nil => rfl
  | cons item items ih =>
    obtain ⟨hitem, hitems⟩ := List.forall_mem_cons.1 h
    have hrest := ih hitems
    rw [List.mapM_cons]
    rcases hrun : f item w with ⟨failure | b, v⟩
    · rw [bind_of_error hrun]
      rwa [hrun] at hitem
    · rw [hrun] at hitem
      obtain rfl : v = w := hitem
      rw [bind_of_ok hrun]
      rcases hruns : items.mapM f v with ⟨failure | bs, u⟩
      · rw [bind_of_error hruns]
        rwa [hruns] at hrest
      · rw [bind_of_ok hruns]
        rwa [hruns] at hrest

/-- A list of actions that each succeed and leave the world alone gives their results. -/
theorem exists_mapM_of_same {f : α → Action β} {items : List α}
    (h : ∀ item ∈ items, ∃ b, f item w = (.ok b, w)) :
    ∃ results, items.mapM f w = (.ok results, w) ∧
      ∀ b, b ∈ results ↔ ∃ item ∈ items, f item w = (.ok b, w) := by
  induction items with
  | nil => exact ⟨[], rfl, by simp⟩
  | cons item items ih =>
    obtain ⟨b, hitem⟩ := h item List.mem_cons_self
    obtain ⟨rest, hitems, hrest⟩ := ih fun item hmem => h item (List.mem_cons_of_mem _ hmem)
    refine ⟨b :: rest, ?_, fun b' => ?_⟩
    · rw [List.mapM_cons, bind_of_ok hitem, bind_of_ok hitems]
      rfl
    · rw [List.mem_cons, hrest, List.exists_mem_cons_iff, hitem, Prod.mk.injEq, Except.ok.injEq,
        and_iff_left rfl, eq_comm]

/-- A fold of actions that each succeed and leave the world alone does so, and what each of them
keeps of the items done and the value so far holds at the end. -/
theorem exists_foldlM_of_forall (View : List α → β → Prop) {f : β → α → Action β} {items : List α}
    (hstep : ∀ item ∈ items, ∀ done b, View done b →
      ∃ b', f b item w = (.ok b', w) ∧ View (done ++ [item]) b')
    (done : List α) (b : β) (hview : View done b) :
    ∃ b', items.foldlM f b w = (.ok b', w) ∧ View (done ++ items) b' := by
  induction items generalizing done b with
  | nil => exact ⟨b, rfl, by rwa [List.append_nil]⟩
  | cons item items ih =>
    obtain ⟨next, hitem, hnext⟩ := hstep item List.mem_cons_self done b hview
    obtain ⟨b', hitems, hlast⟩ :=
      ih (fun item hmem => hstep item (List.mem_cons_of_mem _ hmem)) _ next hnext
    refine ⟨b', ?_, by rwa [List.append_cons]⟩
    rw [List.foldlM_cons, bind_of_ok hitem, hitems]

/-- What holds of the world, the items done and the value so far, and is kept by each action of a
fold, holds at its end. -/
theorem foldlM_induction (View : World → List α → β → Prop) {f : β → α → Action β} {items : List α}
    (hstep : ∀ item ∈ items, ∀ done b v b' v', View v done b → f b item v = (.ok b', v') →
      View v' (done ++ [item]) b')
    (done : List α) (b : β) (hview : View w done b) {b' : β}
    (h : items.foldlM f b w = (.ok b', w')) : View w' (done ++ items) b' := by
  induction items generalizing w done b with
  | nil =>
    rw [List.foldlM_nil] at h
    cases h
    rwa [List.append_nil]
  | cons item items ih =>
    rw [List.foldlM_cons] at h
    obtain ⟨next, v, hitem, h⟩ := of_bind_eq_ok h
    have hnext := hstep item List.mem_cons_self done b w next v hview hitem
    rw [List.append_cons]
    exact ih (fun item hmem => hstep item (List.mem_cons_of_mem _ hmem)) _ next hnext h

/-- A list of actions that fails has done those before the one that failed. -/
theorem of_mapM_eq_error {f : α → Action β} {items : List α} {failure : Failure}
    (h : items.mapM f w = (.error failure, w')) : ∃ done item rest results v,
      items = done ++ item :: rest ∧ done.mapM f w = (.ok results, v) ∧
        f item v = (.error failure, w') := by
  induction items generalizing w with
  | nil => cases h
  | cons item items ih =>
    rw [List.mapM_cons] at h
    rcases hitem : f item w with ⟨failed | b, v⟩
    · rw [bind_of_error hitem] at h
      cases h
      exact ⟨[], item, items, [], w, rfl, rfl, hitem⟩
    · rw [bind_of_ok hitem] at h
      rcases hitems : items.mapM f v with ⟨failed | bs, v'⟩
      · rw [bind_of_error hitems] at h
        cases h
        obtain ⟨done, next, rest, results, v, rfl, hdone, hnext⟩ := ih hitems
        refine ⟨item :: done, next, rest, b :: results, v, rfl, ?_, hnext⟩
        rw [List.mapM_cons, bind_of_ok hitem, bind_of_ok hdone]
        rfl
      · rw [bind_of_ok hitems] at h
        cases h

theorem fst_eq_ok_iff {x : Action α} {a : α} : (x w).1 = .ok a ↔ ∃ w', x w = (.ok a, w') := by
  constructor
  · intro h
    exact ⟨(x w).2, Prod.ext h rfl⟩
  · rintro ⟨w', h⟩
    rw [h]

theorem fst_map_eq_ok_iff {x : Action α} {f : α → β} {b : β} :
    ((f <$> x) w).1 = .ok b ↔ ∃ a, (x w).1 = .ok a ∧ f a = b := by
  simp only [fst_eq_ok_iff]
  constructor
  · rintro ⟨w', h⟩
    obtain ⟨a, hx, hb⟩ := of_map_eq_ok h
    exact ⟨a, ⟨w', hx⟩, hb⟩
  · rintro ⟨a, ⟨w', hx⟩, rfl⟩
    exact ⟨w', map_of_ok hx f⟩

/-- An action either gives a result or fails. -/
theorem exists_error_iff {x : Action α} :
    (∃ failure, (x w).1 = .error failure) ↔ ¬ ∃ a, (x w).1 = .ok a := by
  cases (x w).1 with
  | error failure => simp
  | ok a => simp

/-- Where each action of a list gives the same in all worlds of one view, and keeps that view, the
list gives what its actions give one by one. -/
theorem fst_mapM_eq_ok_iff (View : World → Prop) (Result : α → β → Prop) {f : α → Action β}
    {items : List α}
    (hresult : ∀ item ∈ items, ∀ v, View v → ∀ b, (f item v).1 = .ok b ↔ Result item b)
    (hview : ∀ item ∈ items, ∀ v b v', View v → f item v = (.ok b, v') → View v')
    (hw : View w) {results : List β} :
    (items.mapM f w).1 = .ok results ↔ List.Forall₂ Result items results := by
  induction items generalizing w results with
  | nil =>
    rw [List.forall₂_nil_left_iff, List.mapM_nil]
    constructor
    · intro h
      exact (Except.ok.inj h).symm
    · rintro rfl
      rfl
  | cons item items ih =>
    have hrest {v : World} (hv : View v) {rest : List β} :
        (items.mapM f v).1 = .ok rest ↔ List.Forall₂ Result items rest :=
      ih (fun item hmem => hresult item (List.mem_cons_of_mem _ hmem))
        (fun item hmem => hview item (List.mem_cons_of_mem _ hmem)) hv
    have hfirst := hresult item List.mem_cons_self w hw
    rw [List.mapM_cons]
    constructor
    · intro h
      obtain ⟨w', h⟩ := fst_eq_ok_iff.1 h
      obtain ⟨b, v, hitem, h⟩ := of_bind_eq_ok h
      obtain ⟨rest, v', hitems, h⟩ := of_bind_eq_ok h
      cases h
      have hv := hview item List.mem_cons_self w b v hw hitem
      exact .cons ((hfirst b).1 (fst_eq_ok_iff.2 ⟨v, hitem⟩))
        ((hrest hv).1 (fst_eq_ok_iff.2 ⟨_, hitems⟩))
    · rintro (_ | ⟨hb, hrelated⟩)
      rename_i b rest
      obtain ⟨v, hitem⟩ := fst_eq_ok_iff.1 ((hfirst b).2 hb)
      have hv := hview item List.mem_cons_self w b v hw hitem
      obtain ⟨v', hitems⟩ := fst_eq_ok_iff.1 ((hrest hv).2 hrelated)
      rw [bind_of_ok hitem, bind_of_ok hitems]
      rfl

/-! ## Primitives -/

theorem of_ofExcept_eq_ok {x : Except Cause α} {a : α} (h : ofExcept x w = (.ok a, w')) :
    x = .ok a ∧ w' = w := by
  cases x with
  | error cause => cases h
  | ok b =>
    cases h
    exact ⟨rfl, rfl⟩

theorem ofExcept_eq_ok_iff {x : Except Cause α} {a : α} :
    ofExcept x w = (.ok a, w') ↔ x = .ok a ∧ w = w' := by
  constructor
  · intro h
    obtain ⟨hx, rfl⟩ := of_ofExcept_eq_ok h
    exact ⟨hx, rfl⟩
  · rintro ⟨rfl, rfl⟩
    rfl

theorem get_run : (get : Action World) w = (.ok w, w) := rfl

theorem query_of_ok {look : Tree → Except FileFault α} {a : α} (h : look w.files = .ok a) :
    query look w = (.ok a, w) := by
  rw [query, bind_of_ok get_run, h]
  rfl

theorem query_of_error {look : Tree → Except FileFault α} {fault : FileFault}
    (h : look w.files = .error fault) : query look w = (.error (Cause.file fault).failure, w) := by
  rw [query, bind_of_ok get_run, h]
  rfl

theorem of_query_eq_ok {look : Tree → Except FileFault α} {a : α}
    (h : query look w = (.ok a, w')) : look w.files = .ok a ∧ w' = w := by
  cases hlook : look w.files with
  | error fault =>
    rw [query_of_error hlook] at h
    cases h
  | ok a =>
    rw [query_of_ok hlook] at h
    cases h
    exact ⟨rfl, rfl⟩

theorem query_eq_ok_iff {look : Tree → Except FileFault α} {a : α} :
    query look w = (.ok a, w') ↔ look w.files = .ok a ∧ w = w' := by
  constructor
  · intro h
    obtain ⟨hlook, rfl⟩ := of_query_eq_ok h
    exact ⟨hlook, rfl⟩
  · rintro ⟨hlook, rfl⟩
    exact query_of_ok hlook

theorem read_of_ok {path : Path} {content : List UInt8} (h : w.files.read path = .ok content)
    (context : Context) : (query (·.read path)).within context w = (.ok content, w) :=
  within_of_ok (query_of_ok h) context

theorem update_of_ok {change : Tree → Except FileFault Tree} {files : Tree}
    (h : change w.files = .ok files) : update change w = (.ok (), { w with files }) := by
  rw [update, bind_of_ok get_run, h]
  rfl

/-- A warning, or none, and then `rest`. -/
theorem exists_warn_ite (c : Prop) [Decidable c] (warning : Warning) (rest : Unit → Action α)
    (w : World) : ∃ v, v.files = w.files ∧
      (if c then (do let u ← warn warning; rest u) else rest ()) w = rest () v := by
  by_cases hc : c
  · rw [if_pos hc]
    exact ⟨{ w with warnings := w.warnings ++ [warning] }, rfl, rfl⟩
  · rw [if_neg hc]
    exact ⟨w, rfl, rfl⟩

theorem openNew_of_ok {path : Path} {handle : Handle} {files : Tree}
    (h : w.files.openNew path = .ok (handle, files)) :
    openNew path w = (.ok handle, { w with files }) := by
  rw [openNew, bind_of_ok (query_of_ok h)]
  rfl

theorem openNew_of_error {path : Path} {fault : FileFault}
    (h : w.files.openNew path = .error fault) :
    openNew path w = (.error (Cause.file fault).failure, w) := by
  rw [openNew, bind_of_error (query_of_error h)]

theorem of_openNew_eq_ok {path : Path} {handle : Handle} (h : openNew path w = (.ok handle, w')) :
    ∃ files, w.files.openNew path = .ok (handle, files) ∧ w' = { w with files } := by
  cases hopen : w.files.openNew path with
  | error fault =>
    rw [openNew_of_error hopen] at h
    cases h
  | ok opened =>
    rw [openNew_of_ok hopen] at h
    cases h
    exact ⟨opened.2, rfl, rfl⟩

end CacheDelay.Action

import CacheDelay.Proofs.Overhead.Resaved

/-!
# Saves that fail part way

A save writes its files one by one. It fails at the first that cannot be written, and has written
those before it (`of_save_eq_error`). These have the new values then, and all others the values of
before (`savedValues?_of_mapM`), so that what is loaded afterwards may be of both. It is what one
save wrote exactly if some save had just these values (`load_after_failed_save`).
-/

namespace CacheDelay.Overheads

open CacheDelay.Files CacheDelay.Files.Tree CacheDelay.Topology

variable {w w' : World} {trace : Path} {l : Locality} {values : List Int64} {o old : Overheads}
  {failure : Failure} {done : List (Locality × List Int64)}
  {before? found? : Locality → Option (List Int64)}

/-! ## Files written before the failure -/

/-- A save that fails has written the files before the first that cannot be written. -/
theorem of_save_eq_error (h : o.save trace w = (.error failure, w')) :
    ∃ done entry rest written, o.toList = done ++ entry :: rest ∧
      done.mapM (saveEntry trace) w = (.ok written, w') ∧
      (∀ entry ∈ done, w.files.Writable (savedPath trace entry.1)) ∧
      ¬ w.files.Writable (savedPath trace entry.1) ∧
      failure.contexts = [.openForWriting (savedPath trace entry.1)] := by
  obtain ⟨done, entry, rest, written, v, hlist, hdone, hentry⟩ := Action.of_mapM_eq_error h
  have hplaces : w.files.SamePlaces v.files := by
    refine Action.kept_of_mapM_eq_ok (fun v => w.files.SamePlaces v.files) ?_ (.refl _) hdone
    rintro entry - v path v' hv hsave
    exact hv.trans (samePlaces_of_saveEntry hsave)
  have hwritten := (fst_mapM_saveEntry_eq_ok_iff.1 (Action.fst_eq_ok_iff.2 ⟨v, hdone⟩)).1
  obtain ⟨-, place, number, files, -, -, hsave⟩ | ⟨hrefused, fault, hsave⟩ :=
    saveEntry_cases trace entry v
  · cases hsave.symm.trans hentry
  · cases hsave.symm.trans hentry
    rw [hplaces.writable_iff] at hrefused
    exact ⟨done, entry, rest, written, hlist, hdone, hwritten, hrefused, rfl⟩

/-- The values of the localities after a save of `o` that has come as far as `written`, over those
of `before?`. -/
def partly (o : Overheads) (written : List Locality) (before? : Locality → Option (List Int64))
    (l : Locality) : Option (List Int64) :=
  if l ∈ written then o.get? l else before? l

theorem exists_partly {written : List Locality} (hl : l ≠ .sameL2)
    (hbefore : ∃ values, before? l = some values) :
    ∃ values, o.partly written before? l = some values := by
  rw [partly]
  split
  · exact Option.ne_none_iff_exists'.1 (get?_ne_none o hl)
  · exact hbefore

/-- Values that were loaded are those of the files. -/
theorem get?_or_savedValues?
    (h : ∀ l values, old.get? l = some values → savedValues? w.files trace l = some values) :
    (fun l => (old.get? l).or (savedValues? w.files trace l)) = savedValues? w.files trace := by
  funext l
  cases hget : old.get? l with
  | none => rfl
  | some values => rw [h l values hget, Option.or_self]

/-- Entries that were saved give the localities their values, and leave the others theirs. -/
theorem savedValues?_of_mapM {written : List Path}
    (hdone : ∀ l values, (l, values) ∈ done → o.get? l = some values)
    (h : done.mapM (saveEntry trace) w = (.ok written, w')) (l : Locality) :
    savedValues? w'.files trace l =
      o.partly (done.map Prod.fst) (savedValues? w.files trace) l := by
  have hstart : ∀ l, savedValues? w.files trace l =
      o.partly [] (savedValues? w.files trace) l := by
    intro l
    rw [partly, if_neg List.not_mem_nil]
  refine Action.mapM_induction (fun v done _ => ∀ l, savedValues? v.files trace l =
    o.partly (done.map Prod.fst) (savedValues? w.files trace) l) ?_ [] [] hstart h l
  rintro ⟨l', values⟩ hmem done _ v path v' hv hsave l
  rw [savedValues?_of_saveEntry hsave, hv]
  by_cases hl : l = l'
  · subst hl
    simp [partly, hdone l values hmem]
  · have hwritten : l ∈ (done ++ [(l', values)]).map Prod.fst ↔ l ∈ done.map Prod.fst := by
      rw [List.map_append, List.mem_append]
      simp [hl]
    rw [if_neg hl, partly, partly, if_congr hwritten rfl rfl]

/-! ## Values of one save -/

/-- The values are ones that a single save wrote. -/
def WrittenByOne (saves : List Overheads) (found? : Locality → Option (List Int64)) : Prop :=
  ∃ saved ∈ saves, ∀ l values, found? l = some values → saved.get? l = some values

/-- What is loaded, with or without a shared L2 level, is of one save exactly if all that the files
have is. -/
theorem forall_load_writtenByOne_iff {saves : List Overheads}
    (hfound : ∀ l, savedValues? w.files trace l = found? l)
    (hpresent : ∀ l, l ≠ .sameL2 → ∃ values, found? l = some values) :
    (∀ hasL2 loaded, (load trace hasL2 w).1 = .ok loaded → WrittenByOne saves loaded.get?) ↔
      WrittenByOne saves found? := by
  simp only [fst_load_eq_ok_iff, hfound]
  constructor
  · intro h
    -- the load that asks for all values that there are
    obtain ⟨loaded, hlevel, hvalues⟩ : ∃ loaded : Overheads,
        loaded.sameL2?.isSome = (found? .sameL2).isSome ∧
          ∀ l values, loaded.get? l = some values → found? l = some values := by
      refine exists_get? fun l hl => ?_
      by_cases hl' : l = .sameL2
      · rw [hl']
        exact Option.isSome_iff_exists.1 (mem_asked.1 hl hl')
      · exact hpresent l hl'
    obtain ⟨saved, hmem, hsaved⟩ := h _ loaded ⟨hlevel, hvalues⟩
    refine ⟨saved, hmem, fun l values hl => hsaved l values ?_⟩
    have hasked : l ∈ asked loaded.sameL2?.isSome := by
      rw [mem_asked, hlevel]
      rintro rfl
      rw [hl]
      rfl
    obtain ⟨values', hget⟩ := exists_get?_iff.2 hasked
    rw [hget, ← hvalues l values' hget, hl]
  · rintro ⟨saved, hmem, hsaved⟩ hasL2 loaded ⟨-, hvalues⟩
    exact ⟨saved, hmem, fun l values hget => hsaved l values (hvalues l values hget)⟩

/-- Where overheads could be loaded, a save that fails has written the values of the localities
before the first one whose file cannot be written. A load afterwards gives these with the values of
before in the other localities: the values that could be loaded, and for a shared L2 level that was
not asked for those that its file had. All that can be loaded was written by one save exactly if
some save had all these values. -/
theorem load_after_failed_save {saves : List Overheads} {hasL2 : Bool}
    (hload : (load trace hasL2 w).1 = .ok old) (hsave : o.save trace w = (.error failure, w')) :
    ∃ written l rest, asked o.sameL2?.isSome = written ++ l :: rest ∧
      (∀ l ∈ written, w.files.Writable (savedPath trace l)) ∧
      ¬ w.files.Writable (savedPath trace l) ∧
      failure.contexts = [.openForWriting (savedPath trace l)] ∧
      let after? := o.partly written fun l => (old.get? l).or (savedValues? w.files trace l)
      (∀ hasL2' loaded, (load trace hasL2' w').1 = .ok loaded ↔
        loaded.sameL2?.isSome = hasL2' ∧
          ∀ l values, loaded.get? l = some values → after? l = some values) ∧
      ((∀ hasL2' loaded, (load trace hasL2' w').1 = .ok loaded → WrittenByOne saves loaded.get?) ↔
        WrittenByOne saves after?) := by
  obtain ⟨-, hold⟩ := fst_load_eq_ok_iff.1 hload
  obtain ⟨done, ⟨l, values⟩, rest, paths, hlist, hdone, hwritten, hrefused, hcontexts⟩ :=
    of_save_eq_error hsave
  have hbefore := get?_or_savedValues? hold
  have hget : ∀ l values, (l, values) ∈ done → o.get? l = some values := fun l values hmem =>
    mem_toList.1 (hlist ▸ List.mem_append_left _ hmem)
  have hafter := savedValues?_of_mapM hget hdone
  have hpresent : ∀ l, l ≠ .sameL2 →
      ∃ values, o.partly (done.map Prod.fst) (savedValues? w.files trace) l = some values := by
    intro l hl
    refine exists_partly hl ?_
    obtain ⟨values, hvalues⟩ := Option.ne_none_iff_exists'.1 (get?_ne_none old hl)
    exact ⟨values, hold l values hvalues⟩
  refine ⟨done.map Prod.fst, l, rest.map Prod.fst, ?_, List.forall_mem_map.2 hwritten, hrefused,
    hcontexts, ?_⟩
  · rw [← map_fst_toList, hlist, List.map_append, List.map_cons]
  · rw [hbefore]
    refine ⟨fun hasL2' loaded => ?_, forall_load_writtenByOne_iff hafter hpresent⟩
    simp only [fst_load_eq_ok_iff, hafter]

/-- Overheads without a shared-L2 level. -/
def withoutL2 : Overheads := ⟨[10], none, [], [-20]⟩

/-- A world where these are saved, and the second of their files must not be written any more. -/
def protectedWorld : World where
  files := {
    workingDirectory := []
    entries := [.file ["pm_preemption.vbin"] 0 (encode [10]), .file ["pm_onchip.vbin"] 1 [],
      .file ["pm_offchip.vbin"] 2 (encode [-20])]
    fresh := 3
    refusal? := fun place => if place = ["pm_onchip.vbin"] then some .permissionDenied else none }
  warnings := []
  output := ""

theorem load_protectedWorld : (load ⟨"pm.raw"⟩ false protectedWorld).1 = .ok withoutL2 := by
  have hfound : (load ⟨"pm.raw"⟩ false protectedWorld).1.toOption.map id = some withoutL2 := by
    decide +kernel
  obtain ⟨_, v, hload, rfl⟩ := Action.exists_of_toOption_map hfound
  exact Action.fst_eq_ok_iff.2 ⟨v, hload⟩

/-- A save that differs only in the file that it cannot write: all that can be loaded is of the one
before. -/
theorem load_after_failed_save_same :
    let next : Overheads := ⟨[10], none, [7], [-20]⟩
    ∃ failure w', (load ⟨"pm.raw"⟩ false protectedWorld).1 = .ok withoutL2 ∧
      next.save ⟨"pm.raw"⟩ protectedWorld = (.error failure, w') ∧
      ∀ hasL2' loaded, (load ⟨"pm.raw"⟩ hasL2' w').1 = .ok loaded →
        WrittenByOne [withoutL2] loaded.get? := by
  intro next
  have hfails : (next.save ⟨"pm.raw"⟩ protectedWorld).1.isOk = false := by decide +kernel
  obtain ⟨failure, w', hsave⟩ := Action.exists_of_not_isOk hfails
  obtain ⟨written, l, rest, -, hwritten, -, -, -, hiff⟩ :=
    load_after_failed_save load_protectedWorld hsave
  refine ⟨failure, w', load_protectedWorld, hsave,
    hiff.2 ⟨withoutL2, List.mem_singleton_self _, ?_⟩⟩
  have hplace : protectedWorld.files.locateNew (savedPath ⟨"pm.raw"⟩ .sameChip) =
      .ok ["pm_onchip.vbin"] := rfl
  have hchip : Locality.sameChip ∉ written := fun hmem => by
    cases (hwritten .sameChip hmem).allowed hplace
  have hL2 : savedValues? protectedWorld.files ⟨"pm.raw"⟩ .sameL2 = none := by decide +kernel
  intro l values hl
  cases l with
  | sameChip => rwa [partly, if_neg hchip] at hl
  | sameL2 => simp [partly, hL2, next, withoutL2, get?] at hl
  | sameCpu | offChip =>
    rw [partly] at hl
    split at hl <;> exact hl

/-- The failure is that a file could not be opened for writing. -/
def CannotOpen (failure : Failure) : Prop := ∃ p, failure.contexts = [.openForWriting p]

/-- A world where a directory stands in place of the shared-L2 file of `pm.raw`. -/
def blockedWorld : World :=
  { emptyWorld with
    files := { workingDirectory := [], entries := [.directory ["pm_l2cache.vbin"]] } }

/-- A save that cannot open the shared-L2 file leaves its preemption overheads beside those of the
save before, and a load gives both. -/
theorem load_mixture_after_failed_save :
    let next : Overheads := ⟨[30], some [], [], []⟩
    ∃ written v failure w', withoutL2.save ⟨"pm.raw"⟩ blockedWorld = (.ok written, v) ∧
      (load ⟨"pm.raw"⟩ false v).1 = .ok withoutL2 ∧ WrittenByOne [withoutL2] withoutL2.get? ∧
      next.save ⟨"pm.raw"⟩ v = (.error failure, w') ∧ CannotOpen failure ∧
      ∃ loaded, (load ⟨"pm.raw"⟩ false w').1 = .ok loaded ∧
        ¬ WrittenByOne [withoutL2] loaded.get? := by
  intro next
  have hfirst : (withoutL2.save ⟨"pm.raw"⟩ blockedWorld).1.isOk := by decide +kernel
  have hbefore : (load ⟨"pm.raw"⟩ false (withoutL2.save ⟨"pm.raw"⟩ blockedWorld).2).1.toOption.map
      id = some withoutL2 := by decide +kernel
  have hfails : (next.save ⟨"pm.raw"⟩ (withoutL2.save ⟨"pm.raw"⟩ blockedWorld).2).1.isOk =
      false := by decide +kernel
  have hafter : (load ⟨"pm.raw"⟩ false (next.save ⟨"pm.raw"⟩
      (withoutL2.save ⟨"pm.raw"⟩ blockedWorld).2).2).1.toOption.map id =
        some ⟨[30], none, [], [-20]⟩ := by decide +kernel
  obtain ⟨written, v, hsaved⟩ := Action.exists_of_isOk hfirst
  rw [hsaved] at hbefore hfails hafter
  obtain ⟨failure, w', hsave⟩ := Action.exists_of_not_isOk hfails
  rw [hsave] at hafter
  obtain ⟨_, u, hload, rfl⟩ := Action.exists_of_toOption_map hbefore
  obtain ⟨loaded, u', hmixture, rfl⟩ := Action.exists_of_toOption_map hafter
  obtain ⟨_, entry, _, _, -, -, -, -, hcontexts⟩ := of_save_eq_error hsave
  refine ⟨written, v, failure, w', hsaved, Action.fst_eq_ok_iff.2 ⟨u, hload⟩,
    ⟨withoutL2, List.mem_singleton_self _, fun _ _ hget => hget⟩, hsave, ⟨_, hcontexts⟩, _,
    Action.fst_eq_ok_iff.2 ⟨u', hmixture⟩, ?_⟩
  rintro ⟨saved, hmem, hone⟩
  rw [List.mem_singleton.1 hmem] at hone
  cases hone .sameCpu [30] rfl

end CacheDelay.Overheads

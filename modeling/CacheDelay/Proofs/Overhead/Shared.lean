import CacheDelay.Proofs.Overhead.Saved

/-!
# Saved files that traces share

A saved file has its name from the stem of its trace. Traces of one stem in one directory therefore
share their files (`SharesFiles`), and two traces that share one share them all
(`SharesFiles.eq_of_locateNew`). A save leaves the files of other traces as they were, and those
that share them with its own values (`of_save_eq_ok`, `SavedBeside.of_sharesFiles`). A load gives
these values (`load_of_savedBeside`).
-/

namespace CacheDelay.Overheads

open CacheDelay.Files CacheDelay.Files.Tree CacheDelay.Topology

variable {t t' : Tree} {w w' : World} {trace a b : Path} {l l' : Locality} {place place' : Location}
  {saved? : Locality → Option (List Int64)}

/-- Whether the overheads of two traces are saved in the same file. -/
def SharesFiles (t : Tree) (a b : Path) : Prop :=
  ∃ l place, t.locateNew (savedPath a l) = .ok place ∧ t.locateNew (savedPath b l) = .ok place

/-- The files beside `trace` keep the values of `saved?`. -/
def SavedBeside (t : Tree) (trace : Path) (saved? : Locality → Option (List Int64)) : Prop :=
  ∀ l values, saved? l = some values → t.Keeps (savedPath trace l) (encode values)

/-! ## Places of the files -/

theorem sharesFiles_of_locateNew (ha : t.locateNew (savedPath a l) = .ok place)
    (hb : t.locateNew (savedPath b l') = .ok place) : SharesFiles t a b := by
  obtain ⟨-, rfl⟩ := inj_of_locateNew ha hb
  exact ⟨l, place, ha, hb⟩

theorem SharesFiles.stem_eq (h : SharesFiles t a b) : a.stem = b.stem := by
  obtain ⟨l, place, ha, hb⟩ := h
  exact (inj_of_locateNew ha hb).1

/-- Traces that share one file share every one that both have. -/
theorem SharesFiles.eq_of_locateNew (h : SharesFiles t a b)
    (ha : t.locateNew (savedPath a l) = .ok place)
    (hb : t.locateNew (savedPath b l) = .ok place') : place = place' := by
  obtain ⟨l₀, place₀, ha₀, hb₀⟩ := h
  obtain ⟨parent, hparent⟩ := exists_directory t a
  obtain ⟨parent', hparent'⟩ := exists_directory t b
  have hplace₀ := (hparent l₀ place₀ ha₀).symm.trans (hparent' l₀ place₀ hb₀)
  have hstem := (inj_of_locateNew ha₀ hb₀).1
  rw [hparent l place ha, hparent' l place' hb, (List.append_inj' hplace₀ rfl).1,
    savedName_inj.2 ⟨hstem, rfl⟩]

theorem SharesFiles.symm (h : SharesFiles t a b) : SharesFiles t b a := by
  obtain ⟨l, place, ha, hb⟩ := h
  exact ⟨l, place, hb, ha⟩

/-- Three traces that all have a file of one locality: if the second shares files with both others,
these share theirs. -/
theorem SharesFiles.trans {c : Path} {place₁ place₂ place₃ : Location} (h : SharesFiles t a b)
    (h' : SharesFiles t b c) (ha : t.locateNew (savedPath a l) = .ok place₁)
    (hb : t.locateNew (savedPath b l) = .ok place₂)
    (hc : t.locateNew (savedPath c l) = .ok place₃) : SharesFiles t a c := by
  obtain rfl := h.eq_of_locateNew ha hb
  obtain rfl := h'.eq_of_locateNew hb hc
  exact ⟨l, _, ha, hc⟩

theorem sharesFiles_iff (h : t.SamePlaces t') : SharesFiles t' a b ↔ SharesFiles t a b := by
  simp only [SharesFiles, h.locateNew_iff]

/-- What is saved beside a trace is saved beside one that shares its files. -/
theorem SavedBeside.of_sharesFiles (h : SavedBeside t a saved?) (hshares : SharesFiles t a b)
    (hplaces : ∀ l, saved? l ≠ none → ∃ place, t.locateNew (savedPath b l) = .ok place) :
    SavedBeside t b saved? := by
  intro l values hvalues
  have hkeeps := h l values hvalues
  obtain ⟨place, ha⟩ := hkeeps.exists_place
  obtain ⟨place', hb⟩ := hplaces l (by rw [hvalues]; nofun)
  obtain rfl := hshares.eq_of_locateNew ha hb
  exact hkeeps.of_locateNew ha hb

/-! ## A save -/

/-- What is left after values of `trace` were written to `t`: nothing has moved, `saved?` is saved
beside `trace`, and the files of other traces are as before. -/
structure SavesTo (t : Tree) (trace : Path) (saved? : Locality → Option (List Int64)) (t' : Tree) :
    Prop where
  places : t.SamePlaces t'
  saved : SavedBeside t' trace saved?
  others : ∀ other saved?, ¬ SharesFiles t other trace → SavedBeside t other saved? →
    SavedBeside t' other saved?

theorem SavesTo.saveEntry {entry : Locality × List Int64} {path : Path}
    (h : SavesTo t trace saved? w.files) (hsave : saveEntry trace entry w = (.ok path, w')) :
    SavesTo t trace (fun l => if l = entry.1 then some entry.2 else saved? l) w'.files := by
  obtain ⟨place, number, hplace, hfile⟩ := of_saveEntry_eq_ok hsave
  have hplaces := h.places.trans hfile.samePlaces
  refine ⟨hplaces, fun l values hvalues => ?_, fun other values? hne hother l values hvalues => ?_⟩
  · split at hvalues
    · rename_i hl
      cases hvalues
      rw [hl]
      exact hfile.keeps hplace
    · rename_i hl
      refine hfile.keeps_of_ne (h.saved l values hvalues) fun hsame => hl ?_
      exact (inj_of_locateNew hsame hplace).2
  · have hkept := h.others other values? hne hother l values hvalues
    refine hfile.keeps_of_ne hkept fun hsame => ?_
    exact hne ((sharesFiles_iff h.places).1 (sharesFiles_of_locateNew hsame hplace))

/-- A save leaves its values in the files of its trace, and the files of others as they were. -/
theorem of_save_eq_ok {o : Overheads} {written : List Path}
    (h : o.save trace w = (.ok written, w')) : SavesTo w.files trace o.get? w'.files := by
  have hstart : SavesTo w.files trace (fun _ => none) w.files :=
    ⟨SamePlaces.refl _, nofun, fun _ _ _ hother => hother⟩
  have hrun := Action.foldl_of_mapM_eq_ok (fun v saved? => SavesTo w.files trace saved? v.files)
    (fun saved? entry l => if l = entry.1 then some entry.2 else saved? l)
    (fun entry _ _ _ _ hview hentry => SavesTo.saveEntry hview hentry) hstart h
  simpa only [foldl_toList, Option.or_none] using hrun

/-! ## A load -/

/-- A load gives what is saved. -/
theorem load_of_savedBeside {o : Overheads} (h : SavedBeside w.files trace o.get?) :
    load trace o.sameL2?.isSome w = (.ok o, w) :=
  load_of_savedValues? fun l values hget => savedValues?_of_read (h l values hget).read

end CacheDelay.Overheads

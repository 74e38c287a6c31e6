import CacheDelay.Proofs.Frames
import CacheDelay.Proofs.Overhead.Shared

/-!
# Overheads that can be saved

The files of a save do not get in each other's way, so that overheads can be saved exactly if the
file of each locality present can be written (`exists_save_iff`). Only these files are rewritten then
(`rewritesOnly_of_save`). However a save ends, it keeps what a change of such a file keeps
(`frame_save_of`).
-/

namespace CacheDelay.Overheads

open CacheDelay.Files CacheDelay.Files.Tree CacheDelay.Topology

variable {t : Tree} {w w' : World} {trace : Path} {o : Overheads} {written : List Path}

/-- The place of the file for one of the localities present. -/
def SavedAt (t : Tree) (trace : Path) (o : Overheads) (place : Location) : Prop :=
  ∃ l, o.get? l ≠ none ∧ t.locateNew (savedPath trace l) = .ok place

theorem saveEntry_eq_ok_iff {entry : Locality × List Int64} {path : Path} :
    (saveEntry trace entry w).1 = .ok path ↔
      w.files.Writable (savedPath trace entry.1) ∧ savedPath trace entry.1 = path := by
  obtain ⟨hwritable, _, _, files, -, -, hsave⟩ | ⟨hrefused, fault, hsave⟩ :=
    saveEntry_cases trace entry w
  · rw [hsave, and_iff_right hwritable, Except.ok.injEq]
  · rw [hsave]
    exact iff_of_false nofun fun h => hrefused h.1

theorem rewritesOnly_of_saveEntry {l : Locality} {values : List Int64} {path : Path}
    (hget : o.get? l = some values) (hrewrites : t.RewritesOnly (SavedAt t trace o) w.files)
    (h : saveEntry trace (l, values) w = (.ok path, w')) :
    t.RewritesOnly (SavedAt t trace o) w'.files := by
  obtain ⟨place, number, hplace, hfile⟩ := of_saveEntry_eq_ok h
  have hsaved : SavedAt t trace o place :=
    ⟨l, by rw [hget]; nofun, (hrewrites.places.locateNew_iff _ _).1 hplace⟩
  exact hrewrites.trans (hfile.rewritesOnly hsaved)

theorem samePlaces_of_saveEntry {entry : Locality × List Int64} {path : Path}
    (h : saveEntry trace entry w = (.ok path, w')) : w.files.SamePlaces w'.files := by
  obtain ⟨place, number, -, hfile⟩ := of_saveEntry_eq_ok h
  exact hfile.samePlaces

/-- Entries can be saved if each of their files can be written. -/
theorem fst_mapM_saveEntry_eq_ok_iff {entries : List (Locality × List Int64)} :
    (entries.mapM (saveEntry trace) w).1 = .ok written ↔
      (∀ entry ∈ entries, w.files.Writable (savedPath trace entry.1)) ∧
        entries.map (fun entry => savedPath trace entry.1) = written := by
  rw [← List.forall₂_eq_eq_eq, List.forall₂_map_left_iff, ← List.forall₂_and_left]
  refine Action.fst_mapM_eq_ok_iff (fun v => w.files.SamePlaces v.files) _ ?_ ?_ (.refl _)
  · rintro entry - v hv path
    rw [saveEntry_eq_ok_iff, hv.writable_iff]
  · rintro entry - v path v' hv h
    exact hv.trans (samePlaces_of_saveEntry h)

theorem save_eq_ok_iff : (o.save trace w).1 = .ok written ↔
    (∀ entry ∈ o.toList, w.files.Writable (savedPath trace entry.1)) ∧
      o.toList.map (fun entry => savedPath trace entry.1) = written :=
  fst_mapM_saveEntry_eq_ok_iff

/-- Overheads can be saved if each of their files can be written. -/
theorem exists_save_iff : (∃ written, (o.save trace w).1 = .ok written) ↔
    ∀ l values, o.get? l = some values → w.files.Writable (savedPath trace l) := by
  simp only [save_eq_ok_iff, exists_and_left, exists_eq', and_true, Prod.forall, mem_toList]

theorem rewritesOnly_of_save (h : o.save trace w = (.ok written, w')) :
    w.files.RewritesOnly (SavedAt w.files trace o) w'.files := by
  refine Action.kept_of_mapM_eq_ok
    (fun v => w.files.RewritesOnly (SavedAt w.files trace o) v.files) ?_ (.refl _) h
  rintro ⟨l, values⟩ hentry v path v' hv hsave
  exact rewritesOnly_of_saveEntry (mem_toList.1 hentry) hv hsave

/-- A save keeps what a change of one of its files keeps, whether it succeeds or fails. -/
theorem frame_save_of {R : World → World → Prop} [IsPreorder World R] (o : Overheads)
    (hR : ∀ l w place number bytes files, w.files.locateNew (savedPath trace l) = .ok place →
      w.files.WithFile place number bytes files → R w { w with files }) :
    Action.Frame R (o.save trace) := by
  refine Action.Frame.mapM (fun entry w => ?_) _
  obtain ⟨-, place, number, files, hplace, hfile, hsave⟩ | ⟨-, fault, hsave⟩ :=
    saveEntry_cases trace entry w
  · rw [hsave]
    exact hR entry.1 w place number _ files hplace hfile
  · rw [hsave]
    exact Std.Refl.refl w

end CacheDelay.Overheads

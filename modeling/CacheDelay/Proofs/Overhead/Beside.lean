import CacheDelay.Proofs.Files.Sibling
import CacheDelay.Proofs.Overhead.Savable

/-!
# Saved files beside their traces

The name of a saved file is cut at its extension again (`stem_savedPath`), and what is left has the
locality behind the stem of the trace. A saved file is therefore in the directory of its trace and
is not the trace, and files of traces in one directory are the same only for one stem and one
locality (`savedPath_apart`). What a path denotes has the name of the path (`getLast?_of_denotes`),
so that a trace reads as before after its overheads were saved, also if this failed half way
(`read_trace_save_iff`).
-/

namespace CacheDelay.Overheads

open CacheDelay.Files CacheDelay.Files.Tree CacheDelay.Topology

variable {t : Tree} {trace a b p : Path} {place : Location}

/-! ## Names -/

theorem isSilent_savedName (trace : Path) (l : Locality) :
    isSilent (savedName trace l) = false := isSilent_eq_false (savedName_proper trace l)

theorem name?_savedPath (h : trace.name? ≠ none) (l : Locality) :
    (savedPath trace l).name? = some (savedName trace l) := by
  obtain ⟨name, hname⟩ := Option.ne_none_iff_exists'.1 h
  exact name?_of_pieces (pieces_sibling hname (slash_not_mem_savedName trace l))
    (savedName_proper trace l)

/-- The stem of a saved file is longer than that of its trace. -/
theorem stem_savedPath (h : trace.name? ≠ none) (l : Locality) :
    (savedPath trace l).stem = trace.stem ++ '_' :: l.label.toList := by
  apply stem_of_name? (name?_savedPath h l) (by simp)
  decide

theorem stem_savedPath_ne (h : trace.name? ≠ none) (l : Locality) :
    (savedPath trace l).stem ≠ trace.stem := by
  rw [stem_savedPath h, ne_eq, List.append_right_eq_self]
  nofun

/-- No trace has the name of its saved files. -/
theorem savedName_ne_name {name : List Char} (h : trace.name? = some name) (l : Locality) :
    savedName trace l ≠ name := by
  rintro rfl
  have hne : trace.name? ≠ none := by rw [h]; nofun
  apply stem_savedPath_ne hne l
  rw [Path.stem, Path.stem, name?_savedPath hne, h]

/-! ## What a path denotes -/

/-- Steps that say nothing stay in place. -/
theorem eq_of_walk_silent {start goal : Location} {pieces : List (List Char)}
    (hsilent : ∀ piece ∈ pieces, isSilent piece = true)
    (h : t.walk start (pieces.map String.ofList) = .ok goal) : goal = start := by
  induction pieces with
  | nil =>
    cases h
    rfl
  | cons piece pieces ih =>
    obtain ⟨hpiece, hpieces⟩ := List.forall_mem_cons.1 hsilent
    have hstay : String.ofList piece = "" ∨ String.ofList piece = "." := by
      rw [← String.toList_inj, ← String.toList_inj, String.toList_ofList]
      simpa [isSilent] using hpiece
    rw [List.map_cons, walk] at h
    split at h
    · rw [if_pos hstay] at h
      exact ih hpieces h
    · cases h
    · cases h

theorem steps_snd (t : Tree) (p : Path) : (t.steps p).2 = p.pieces.map String.ofList := by
  rw [steps]
  split <;> rfl

/-- A file stands under the name of the path that denotes it. -/
theorem getLast?_of_denotes {name : List Char} (hname : p.name? = some name)
    (h : t.Denotes p place) : place.getLast? = some (String.ofList name) := by
  rcases h with hlocate | hnew
  · obtain ⟨silent, trailing, -, htrailing, -, hpieces⟩ := exists_pieces_of_name? hname
    have hwalk := (locate_eq_ok_iff.1 hlocate).2
    rw [steps_snd, hpieces, List.append_cons, List.map_append, List.map_append] at hwalk
    obtain ⟨middle, hmiddle, hrest⟩ := walk_append_eq_ok_iff.1 hwalk
    rw [eq_of_walk_silent htrailing hrest]
    have hentry : IsEntryName (String.ofList name) := by
      rw [isEntryName_iff, String.toList_ofList]
      exact (name?_eq_some_iff.1 hname).2
    exact getLast?_of_walk hentry hmiddle
  · obtain ⟨parent, last, hreaches, -, rfl⟩ := exists_reaches_of_locateNew hnew
    obtain ⟨front, hsteps, -⟩ := hreaches.walked
    rw [steps_snd] at hsteps
    have hpieces : p.pieces = front.map String.toList ++ [last.toList] := by
      have := congrArg (List.map String.toList) hsteps
      simpa [Function.comp_def] using this
    have hproper := isEntryName_iff.1 hreaches.proper
    have hlast : some last.toList = some name := (name?_of_pieces hpieces hproper).symm.trans hname
    rw [List.getLast?_concat, ← Option.some.inj hlast, String.ofList_toList]

/-! ## Saves -/

/-- The worlds differ in files at `written` places at most. -/
def Rewritten (written : Location → Prop) (w w' : World) : Prop :=
  w.files.RewritesOnly written w'.files

instance : IsPreorder World (Rewritten written) where
  refl w := .refl w.files
  trans _ _ _ h h' := RewritesOnly.trans h h'

/-- Whether a place has the name of a saved file of the trace. -/
def NamedAsSaved (trace : Path) (place : Location) : Prop :=
  ∃ l, place.getLast? = some (String.ofList (savedName trace l))

/-- However a save ends, it has changed saved files of the trace only. -/
theorem frame_save_rewritten (o : Overheads) (trace : Path) :
    Action.Frame (Rewritten (NamedAsSaved trace)) (o.save trace) := by
  apply frame_save_of
  intro l w place number bytes files hplace hfile
  have hwritten : NamedAsSaved trace place := by
    obtain ⟨parent, hparent⟩ := exists_directory w.files trace
    refine ⟨l, ?_⟩
    rw [hparent l place hplace]
    exact List.getLast?_concat
  exact hfile.rewritesOnly hwritten

theorem read_trace_save_iff (h : trace.name? ≠ none) (o : Overheads) (w : World)
    (bytes : List UInt8) :
    (o.save trace w).2.files.read trace = .ok bytes ↔ w.files.read trace = .ok bytes := by
  obtain ⟨name, hname⟩ := Option.ne_none_iff_exists'.1 h
  apply (frame_save_rewritten o trace w).read_iff
  rintro place ⟨l, hlast⟩ hdenotes
  apply savedName_ne_name hname l
  exact String.ofList_injective
    (Option.some.inj (hlast.symm.trans (getLast?_of_denotes hname hdenotes)))

/-- Saved files of traces in one directory are the same only for one stem and one locality. They are
in this directory, and none of them is the trace. -/
theorem savedPath_apart (ha : a.name? ≠ none) (hb : b.name? ≠ none) (h : a.SameDirectory b)
    (l l' : Locality) :
    ((savedPath a l).Same (savedPath b l') ↔ a.stem = b.stem ∧ l = l') ∧
      (savedPath a l).SameDirectory a ∧ (savedPath a l).stem ≠ a.stem ∧
      ∀ (o : Overheads) w bytes,
        (o.save a w).2.files.read a = .ok bytes ↔ w.files.read a = .ok bytes := by
  refine ⟨?_, ?_, stem_savedPath_ne ha l, read_trace_save_iff ha⟩
  · rw [← savedName_inj]
    exact same_sibling_iff ha hb h (slash_not_mem_savedName a l) (isSilent_savedName a l)
      (slash_not_mem_savedName b l') (isSilent_savedName b l')
  · exact sameDirectory_sibling ha (slash_not_mem_savedName a l) (isSilent_savedName a l)

/-- One of the stems ends in a label, and the directory is written in two ways. -/
theorem savedPath_apart_of_label :
    let a : Path := ⟨"out/pm_onchip.raw"⟩
    let b : Path := ⟨"out//./pm.raw"⟩
    a.name? ≠ none ∧ b.name? ≠ none ∧ a.SameDirectory b ∧
      ¬ (savedPath a .sameCpu).Same (savedPath b .sameChip) ∧
      (savedPath a .sameCpu).SameDirectory a ∧
      ∀ w bytes, ((Overheads.mk [1] none [] []).save a w).2.files.read a = .ok bytes ↔
        w.files.read a = .ok bytes := by
  intro a b
  have ha : a.name? ≠ none := by decide
  have hb : b.name? ≠ none := by decide
  have hdirectory : a.SameDirectory b := by decide
  obtain ⟨hsame, hbeside, -, hread⟩ := savedPath_apart ha hb hdirectory .sameCpu .sameChip
  refine ⟨ha, hb, hdirectory, ?_, hbeside, hread _⟩
  rw [hsame]
  decide

end CacheDelay.Overheads

import CacheDelay.Analysis.Batch
import CacheDelay.Proofs.Frames
import CacheDelay.Proofs.Overhead.Savable
import CacheDelay.Topology.Sysfs

/-!
# What an analysis leaves alone

An analysis prints nothing, and it changes no files but those that have a name of saved overheads,
whether it succeeds or fails (`frame_reportBatch`). Reading a topology changes no file at all.
-/

namespace CacheDelay

open CacheDelay.Files CacheDelay.Files.Tree CacheDelay.Overheads CacheDelay.Report
open CacheDelay.Topology

variable {t : Tree} {w : World} {trace : Path} {l : Locality} {place : Location}

/-- Whether a file has a name of saved overheads. -/
def IsSavedName (name : String) : Prop := ∃ trace l, name = String.ofList (savedName trace l)

/-- `w'` is `w` with warnings and with files that have a name of saved overheads. -/
structure OnlySaved (w w' : World) : Prop where
  output : w'.output = w.output
  places : w.files.SamePlaces w'.files
  others : ∀ place, (∀ name, place.getLast? = some name → ¬ IsSavedName name) →
    w'.files.node? place = w.files.node? place

instance : IsPreorder World OnlySaved where
  refl _ := ⟨rfl, .refl _, fun _ _ => rfl⟩
  trans _ _ _ h h' := {
    output := h'.output.trans h.output
    places := h.places.trans h'.places
    others := fun place hplace => (h'.others place hplace).trans (h.others place hplace) }

theorem onlySaved_of_withFile {number : Nat} {content : List UInt8}
    (hplace : w.files.locateNew (savedPath trace l) = .ok place)
    (h : w.files.WithFile place number content t) : OnlySaved w { w with files := t } where
  output := rfl
  places := h.samePlaces
  others other hother := by
    obtain ⟨parent, hparent⟩ := exists_directory w.files trace
    refine h.others other ?_
    rintro rfl
    rw [hparent l other hplace] at hother
    exact hother _ List.getLast?_concat ⟨trace, l, rfl⟩

theorem frame_warn (warning : Warning) : Action.Frame OnlySaved (Action.warn warning) :=
  fun _ => ⟨rfl, .refl _, fun _ _ => rfl⟩

/-! ## Overheads -/

theorem frame_save (o : Overheads) (trace : Path) :
    Action.Frame OnlySaved (o.save trace) :=
  frame_save_of o fun _ _ _ _ _ _ hplace hfile => onlySaved_of_withFile hplace hfile

theorem frame_loadEntry (trace : Path) (l : Locality) :
    Action.Frame OnlySaved (loadEntry trace l) := by
  refine ((Action.frame_query _).within _).bind fun bytes => ?_
  exact .when _ (Action.frame_fail _) (Action.frame_pure _)

theorem frame_load (trace : Path) (hasL2 : Bool) :
    Action.Frame OnlySaved (Overheads.load trace hasL2) := by
  have hlevel : Action.Frame OnlySaved (loadL2? trace hasL2) := by
    cases hasL2 with
    | false => exact Action.frame_pure none
    | true => exact (frame_loadEntry trace .sameL2).map some
  rw [load_eq]
  refine (frame_loadEntry _ _).bind fun sameCpu => hlevel.bind fun sameL2? => ?_
  exact (frame_loadEntry _ _).bind fun sameChip => (frame_loadEntry _ _).bind fun offChip =>
    Action.frame_pure _

/-! ## Traces -/

theorem frame_read (trace : Path) : Action.Frame OnlySaved (Trace.read trace) := by
  refine ((Action.frame_query _).within _).bind fun place => ?_
  refine ((Action.frame_query _).within _).bind fun content => ?_
  exact .when _ (frame_warn _) (Action.frame_pure _)

namespace Analysis

variable (topology : Topology) (config : Config) (plan : BatchPlan)

theorem frame_replay (trace : Path) :
    Action.Frame OnlySaved (Recovery.replay trace topology config) := by
  refine Action.Frame.bind ((frame_read trace).bind fun _ => Action.frame_pure _) fun extraction => ?_
  exact .when _ (frame_warn _) ((frame_save _ trace).bind fun _ => Action.frame_pure _)

theorem frame_reload (trace : Path) :
    Action.Frame OnlySaved (Recovery.load trace config) := by
  refine (frame_load trace config.hasL2).bind fun overheads => ?_
  exact .when _ (frame_warn _) (Action.frame_pure _)

theorem frame_recover (trace : Path) :
    Action.Frame OnlySaved (recover topology config plan trace) := by
  refine .when _ (frame_warn _) ?_
  split
  · exact frame_reload config trace
  · exact frame_replay topology config trace

theorem frame_reportGroup (group : List Path) :
    Action.Frame OnlySaved (reportGroup topology config plan group) :=
  (Action.Frame.mapM (frame_recover topology config plan) group).bind fun _ => Action.frame_pure _

/-- An analysis of traces changes only files for their overheads. -/
theorem frame_reportBatch (traces : List Path) :
    Action.Frame OnlySaved (reportBatch traces topology config plan) := by
  refine .when _ (Action.frame_fail _) ?_
  exact (Action.Frame.mapM (frame_reportGroup topology config plan) _).bind fun _ =>
    Action.frame_pure _

end Analysis

/-! ## Topologies -/

namespace Topology.Hierarchy

theorem frame_readAttribute (dir : Path) (name : String) :
    Action.Frame OnlySaved (readAttribute dir name) :=
  ((Action.frame_query _).within _).bind fun _ => Action.frame_pure _

theorem frame_readCache (dir : Path) : Action.Frame OnlySaved (readCache dir) := by
  refine (frame_readAttribute dir _).bind fun type => ?_
  split
  · exact Action.frame_pure _
  · refine (frame_readAttribute dir _).bind fun level => ?_
    refine ((Action.frame_ofExcept _).within _).bind fun number => ?_
    refine (frame_readAttribute dir _).bind fun list => ?_
    exact ((Action.frame_ofExcept _).within _).bind fun shared => Action.frame_pure _

theorem frame_readCaches (dir : Path) : Action.Frame OnlySaved (readCaches dir) := by
  refine ((Action.frame_query _).within _).bind fun names => ?_
  exact (Action.Frame.mapM (fun name => frame_readCache _) _).bind fun _ => Action.frame_pure _

theorem frame_addCpu (root : Path) (h : Hierarchy) (name : String) :
    Action.Frame OnlySaved (addCpu root h name) := by
  rw [addCpu]
  split
  · exact Action.frame_pure h
  · refine Action.frame_get.bind fun w => ?_
    split
    · exact (frame_readCaches _).bind fun _ => Action.frame_pure _
    · exact Action.frame_pure h

/-- Reading a topology changes no file. -/
theorem frame_read (root : Path) : Action.Frame OnlySaved (read root) := by
  refine ((Action.frame_query _).within _).bind fun names => ?_
  refine (Action.Frame.foldlM (frame_addCpu root) names _).bind fun h => ?_
  exact .when _ (Action.frame_fail _) (Action.frame_pure _)

end Topology.Hierarchy

end CacheDelay

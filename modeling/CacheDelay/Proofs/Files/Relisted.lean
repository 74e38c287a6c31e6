import CacheDelay.Proofs.Files.Tree
import Mathlib.Data.List.Nodup
import Mathlib.Data.List.Perm.Basic

/-!
# The order of directories

Directories list their entries in any order. Two trees with the same files, of which one may list
directories in another order than the other (`Relisted`), are told apart by these orders only: their
files read alike (`Relisted.readText`), and their directories have the same names
(`Relisted.lists_iff`). If no location stands twice among the entries of a tree, any permutation of
them gives such a tree (`relisted_of_perm`).
-/

namespace CacheDelay.Files.Tree

variable {t t' : Tree} {p : Path} {place : Location} {name : String} {names : List String}

/-- `t'` has the files of `t`, and its directories list the same names in orders of their own. -/
structure Relisted (t t' : Tree) : Prop where
  workingDirectory : t'.workingDirectory = t.workingDirectory
  node? : ∀ place, t'.node? place = t.node? place
  list : ∀ p names, t.list p = .ok names → ∃ names', t'.list p = .ok names' ∧ names.Perm names'

/-- The directory at `p` has an entry `name`. -/
def Lists (t : Tree) (p : Path) (name : String) : Prop :=
  ∃ names, t.list p = .ok names ∧ name ∈ names

theorem lists_iff_of_list (h : t.list p = .ok names) : t.Lists p name ↔ name ∈ names := by
  constructor
  · rintro ⟨names', hlist, hmem⟩
    rwa [Except.ok.inj (h.symm.trans hlist)]
  · exact fun hmem => ⟨names, h, hmem⟩

theorem walk_congr (h : ∀ place, t'.node? place = t.node? place) (steps : List String)
    (place : Location) : t'.walk place steps = t.walk place steps := by
  induction steps generalizing place with
  | nil => rfl
  | cons step steps ih => simp only [walk, h, ih]

/-- Where a path leads is decided by what stands at the locations. -/
theorem locate_congr (hstart : t'.workingDirectory = t.workingDirectory)
    (h : ∀ place, t'.node? place = t.node? place) (p : Path) : t'.locate p = t.locate p := by
  simp only [locate, steps, hstart, walk_congr h]

namespace Relisted

theorem locate (h : t.Relisted t') (p : Path) : t'.locate p = t.locate p :=
  locate_congr h.workingDirectory h.node? p

/-- A file has the same text. -/
theorem readText (h : t.Relisted t') (p : Path) : t'.readText p = t.readText p := by
  simp only [Tree.readText, read, allAt, contentAt, h.locate, h.node?]

theorem isDirectory (h : t.Relisted t') (p : Path) : t'.isDirectory p = t.isDirectory p := by
  simp only [Tree.isDirectory, h.locate, h.node?]

theorem symm (h : t.Relisted t') : t'.Relisted t where
  workingDirectory := h.workingDirectory.symm
  node? place := (h.node? place).symm
  list p names' hlist := by
    obtain ⟨place, hplace, hdirectory, -⟩ := list_eq_ok_iff.1 hlist
    rw [h.locate] at hplace
    rw [h.node?] at hdirectory
    have hnames := list_eq_ok_iff.2 ⟨place, hplace, hdirectory, rfl⟩
    obtain ⟨names, hlist', hperm⟩ := h.list p _ hnames
    cases hlist.symm.trans hlist'
    exact ⟨_, hnames, hperm.symm⟩

theorem exists_list_iff (h : t.Relisted t') :
    (∃ names, t'.list p = .ok names) ↔ ∃ names, t.list p = .ok names := by
  constructor
  · rintro ⟨names', hlist⟩
    obtain ⟨names, hnames, -⟩ := h.symm.list p names' hlist
    exact ⟨names, hnames⟩
  · rintro ⟨names, hlist⟩
    obtain ⟨names', hnames', -⟩ := h.list p names hlist
    exact ⟨names', hnames'⟩

/-- A directory has the same entries. -/
theorem lists_iff (h : t.Relisted t') : t'.Lists p name ↔ t.Lists p name := by
  constructor
  · rintro ⟨names', hlist, hmem⟩
    obtain ⟨names, hnames, hperm⟩ := h.symm.list p names' hlist
    exact ⟨names, hnames, hperm.mem_iff.1 hmem⟩
  · rintro ⟨names, hlist, hmem⟩
    obtain ⟨names', hnames', hperm⟩ := h.list p names hlist
    exact ⟨names', hnames', hperm.mem_iff.1 hmem⟩

end Relisted

/-! ## Permutations of the entries -/

/-- What stands at a location does not depend on the order of entries at different locations. -/
theorem find?_of_perm {entries entries' : List Item} (h : entries.Perm entries')
    (hnodup : (entries.map Item.place).Nodup) (place : Location) :
    entries'.find? (·.place == place) = entries.find? (·.place == place) := by
  induction h with
  | nil => rfl
  | cons entry _ ih =>
    rw [List.find?_cons, List.find?_cons, ih (List.nodup_cons.1 hnodup).2]
  | swap first second entries =>
    have hne : second.place ≠ first.place := fun heq =>
      (List.nodup_cons.1 hnodup).1 (heq ▸ List.mem_cons_self)
    simp only [List.find?_cons]
    by_cases hfirst : first.place = place
    · rw [beq_iff_eq.2 hfirst, beq_eq_false_iff_ne.2 fun hsecond => hne (hsecond.trans hfirst.symm)]
    · rw [beq_eq_false_iff_ne.2 hfirst]
  | trans hperm _ ih ih' =>
    exact (ih' ((hperm.map Item.place).nodup_iff.1 hnodup)).trans (ih hnodup)

/-- A tree with the entries in another order lists its directories in another order. -/
theorem relisted_of_perm (hstart : t'.workingDirectory = t.workingDirectory)
    (h : t.entries.Perm t'.entries) (hnodup : (t.entries.map Item.place).Nodup) :
    t.Relisted t' := by
  have hnode (place : Location) : t'.node? place = t.node? place := by
    rw [node?, node?, find?_of_perm h hnodup]
  refine ⟨hstart, hnode, fun p names hlist => ?_⟩
  obtain ⟨place, hplace, hdirectory, rfl⟩ := list_eq_ok_iff.1 hlist
  refine ⟨_, list_eq_ok_iff.2 ⟨place, ?_, ?_, rfl⟩, h.filterMap _⟩
  · rw [locate_congr hstart hnode, hplace]
  · rw [hnode, hdirectory]

end CacheDelay.Files.Tree

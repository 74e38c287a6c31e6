import CacheDelay.Proofs.Files.Path

/-!
# Paths in one directory

Paths are the same if they agree in whether they begin at the root and in the names along them
(`Path.components`); where all names but the last agree, they lie in one directory
(`Path.SameDirectory`). A path with a name has the pieces above it, then the name, and silent pieces
around it (`exists_pieces_of_name?`). A sibling has the same pieces above it and nothing but its own
name behind them (`pieces_sibling`), so that it lies in the same directory (`components_sibling`).
-/

namespace CacheDelay.Files

/-! ## Components -/

/-- The pieces of a path that say something. At the front of a path a `.` does. -/
def names : List (List Char) → List (List Char)
  | [] => []
  | first :: rest => [first].filter (!·.isEmpty) ++ rest.filter (!isSilent ·)

/-- Whether a path begins at the root, and the names along it. -/
def Path.components (p : Path) : Bool × List (List Char) :=
  (p.text.toList.head? == some '/', names p.pieces)

/-- Two texts for one path. -/
def Path.Same (p q : Path) : Prop := p.components = q.components

/-- Two paths that differ in their last name at most. -/
def Path.SameDirectory (p q : Path) : Prop :=
  p.components.1 = q.components.1 ∧ p.components.2.dropLast = q.components.2.dropLast

instance (p q : Path) : Decidable (p.Same q) :=
  inferInstanceAs (Decidable (p.components = q.components))

instance (p q : Path) : Decidable (p.SameDirectory q) :=
  inferInstanceAs (Decidable (_ ∧ _))

theorem names_append {pieces : List (List Char)} (h : pieces ≠ []) (more : List (List Char)) :
    names (pieces ++ more) = names pieces ++ more.filter (!isSilent ·) := by
  cases pieces with
  | nil => exact absurd rfl h
  | cons first rest => rw [List.cons_append, names, names, List.filter_append, List.append_assoc]

theorem filter_of_forall_isSilent {pieces : List (List Char)}
    (h : ∀ piece ∈ pieces, isSilent piece = true) : pieces.filter (!isSilent ·) = [] := by
  refine List.filter_eq_nil_iff.2 fun piece hpiece => ?_
  rw [h piece hpiece]
  decide

/-- A path begins at the root if it has an empty piece in front of others. -/
theorem head?_eq_slash_iff {text : List Char} :
    text.head? = some '/' ↔ ∃ next rest, text.splitOn '/' = [] :: next :: rest := by
  cases text with
  | nil =>
    rw [List.splitOn_nil]
    refine iff_of_false (fun h => by cases h) ?_
    rintro ⟨next, rest, h⟩
    cases h
  | cons c text =>
    obtain ⟨next, rest, hpieces⟩ := List.exists_cons_of_ne_nil (List.splitOn_ne_nil '/' text)
    rw [List.splitOn_cons_eq_if_modifyHead, hpieces, List.head?_cons, Option.some.injEq]
    split
    · rename_i hc
      exact iff_of_true (eq_of_beq hc) ⟨next, rest, rfl⟩
    · rename_i hc
      refine iff_of_false (fun h => hc (beq_iff_eq.2 h)) ?_
      rintro ⟨_, _, h⟩
      rw [List.modifyHead_cons] at h
      cases h

/-! ## Silent pieces -/

theorem exists_append_dropSilent (pieces : List (List Char)) : ∃ silent,
    (∀ piece ∈ silent, isSilent piece = true) ∧ pieces = silent ++ dropSilent pieces := by
  fun_induction dropSilent pieces with
  | case1 => exact ⟨[], List.forall_mem_nil _, rfl⟩
  | case2 first => exact ⟨[], List.forall_mem_nil _, rfl⟩
  | case3 piece before _ hsilent ih =>
    obtain ⟨silent, hall, hpieces⟩ := ih
    refine ⟨piece :: silent, List.forall_mem_cons.2 ⟨hsilent, hall⟩, ?_⟩
    rw [List.cons_append, ← hpieces]
  | case4 => exact ⟨[], List.forall_mem_nil _, rfl⟩

theorem dropSilent_ne_nil {pieces : List (List Char)} (h : pieces ≠ []) :
    dropSilent pieces ≠ [] := by
  fun_induction dropSilent pieces with
  | case1 => exact h
  | case2 => exact h
  | case3 piece before hbefore _ ih =>
    refine ih ?_
    rintro rfl
    exact hbefore rfl
  | case4 => exact h

/-- What is left begins with a piece that says something, unless this is the front piece. -/
theorem isSilent_head_dropSilent {pieces : List (List Char)} {last next : List Char}
    {before : List (List Char)} (h : dropSilent pieces = last :: next :: before) :
    isSilent last = false := by
  fun_induction dropSilent pieces with
  | case1 => cases h
  | case2 => cases h
  | case3 _ _ _ _ ih => exact ih h
  | case4 piece rest _ hloud =>
    cases h
    exact Bool.eq_false_iff.2 hloud

/-! ## Pieces above the name -/

/-- The pieces of a path before its name, without silent ones at their end. -/
def Path.above (p : Path) : List (List Char) := (dropSilent p.lastPiece.2).reverse

/-- A path has silent pieces at most around its name. -/
theorem exists_pieces_of_name? {p : Path} {name : List Char} (h : p.name? = some name) :
    ∃ silent trailing, (∀ piece ∈ silent, isSilent piece = true) ∧
      (∀ piece ∈ trailing, isSilent piece = true) ∧ (p.above = [] → silent = []) ∧
      p.pieces = p.above ++ silent ++ name :: trailing := by
  have hname := (name?_eq_some_iff.1 h).1
  obtain ⟨trailing, htrailing, hpieces⟩ := exists_append_dropSilent p.pieces.reverse
  cases hdrop : dropSilent p.pieces.reverse with
  | nil =>
    have hne : p.pieces.reverse ≠ [] :=
      fun hnil => List.splitOn_ne_nil '/' p.text.toList (List.reverse_eq_nil_iff.1 hnil)
    exact absurd hdrop (dropSilent_ne_nil hne)
  | cons last before =>
    have hlast : p.lastPiece = (last, before) := by rw [Path.lastPiece, hdrop]
    have hlastName : last = name := by rw [← hname, hlast]
    have habove : p.above = (dropSilent before).reverse := by rw [Path.above, hlast]
    obtain ⟨silent, hsilent, hbefore⟩ := exists_append_dropSilent before
    refine ⟨silent.reverse, trailing.reverse,
      fun piece hpiece => hsilent _ (List.mem_reverse.1 hpiece),
      fun piece hpiece => htrailing _ (List.mem_reverse.1 hpiece), fun hnil => ?_, ?_⟩
    · rw [habove, List.reverse_eq_nil_iff] at hnil
      have hempty : before = [] := Decidable.byContradiction fun hne => dropSilent_ne_nil hne hnil
      rw [hempty] at hbefore
      rw [(List.append_eq_nil_iff.1 hbefore.symm).1, List.reverse_nil]
    · rw [hdrop, hlastName] at hpieces
      calc
        p.pieces = (trailing ++ name :: before).reverse := by rw [← hpieces, List.reverse_reverse]
        _ = before.reverse ++ name :: trailing.reverse := by simp
        _ = p.above ++ silent.reverse ++ name :: trailing.reverse := by
          rw [habove, ← List.reverse_append, ← hbefore]

theorem slash_not_mem_above {p : Path} {name : List Char} (h : p.name? = some name) :
    ∀ piece ∈ p.above, '/' ∉ piece := by
  obtain ⟨silent, trailing, -, -, -, hpieces⟩ := exists_pieces_of_name? h
  intro piece hpiece
  apply not_mem_of_mem_pieces (p := p)
  rw [hpieces]
  exact List.mem_append_left _ (List.mem_append_left _ hpiece)

/-- The last piece above a name says something, unless it is the front piece. -/
theorem isSilent_of_above {p : Path} {front : List (List Char)} {last : List Char}
    (h : p.above = front ++ [last]) (hfront : front ≠ []) : isSilent last = false := by
  rw [Path.above, List.reverse_eq_iff, List.reverse_concat] at h
  obtain ⟨next, rest, hcons⟩ := List.exists_cons_of_ne_nil (mt List.reverse_eq_nil_iff.1 hfront)
  rw [hcons] at h
  exact isSilent_head_dropSilent h

/-! ## Directories as texts -/

theorem directory_eq {p : Path} {name : List Char} (h : p.name? = some name) :
    p.directory = if p.above = [[]] then ['/'] else ['/'].intercalate p.above := by
  rw [Path.directory, h, Path.above]
  dsimp only
  split
  · rename_i hroot
    rw [hroot]
    rfl
  · rename_i hroot
    rw [if_neg fun h => hroot (List.reverse_eq_iff.1 h)]

/-- A text ends in a slash only if its last piece is empty. -/
theorem getLast?_ne_slash {text last : List Char} {front : List (List Char)}
    (htext : text.splitOn '/' = front ++ [last]) (hlast : front ≠ [] → last ≠ []) :
    text.getLast? ≠ some '/' := by
  intro hslash
  obtain ⟨before, rfl⟩ := List.getLast?_eq_some_iff.1 hslash
  rw [List.splitOn_append_cons_self, List.splitOn_nil] at htext
  obtain ⟨hfront, hempty⟩ := List.append_inj' htext rfl
  refine hlast ?_ (List.singleton_inj.1 hempty).symm
  rw [← hfront]
  exact List.splitOn_ne_nil _ _

/-- Names are put behind a directory with a slash, unless it is the root or the working
directory. -/
theorem underText_directory {p : Path} {other : List Char} (h : p.name? = some other)
    (hnil : p.above ≠ []) (hroot : p.above ≠ [[]]) :
    p.directory.splitOn '/' = p.above ∧
      ∀ name, underText p.directory name = p.directory ++ '/' :: name := by
  have htext : p.directory.splitOn '/' = p.above := by
    rw [directory_eq h, if_neg hroot]
    exact List.splitOn_intercalate _ (slash_not_mem_above h) hnil
  refine ⟨htext, fun name => if_neg (not_or.2 ⟨?_, ?_⟩)⟩
  · intro hempty
    rw [hempty, List.splitOn_nil] at htext
    exact hroot htext.symm
  · obtain ⟨front, last, hlast⟩ := List.eq_nil_or_concat p.above |>.resolve_left hnil
    rw [List.concat_eq_append] at hlast
    apply getLast?_ne_slash (htext.trans hlast)
    rintro hfront rfl
    exact absurd (isSilent_of_above hlast hfront) (by decide)

/-- A sibling has its own name behind the same pieces. -/
theorem pieces_sibling {p : Path} {other name : List Char} (hp : p.name? = some other)
    (hslash : '/' ∉ name) : (p.sibling name).pieces = p.above ++ [name] := by
  rw [Path.pieces, Path.sibling, String.toList_ofList]
  by_cases hnil : p.above = []
  · rw [directory_eq hp, hnil]
    exact List.splitOn_eq_singleton hslash
  by_cases hroot : p.above = [[]]
  · -- the root has the slash already
    rw [directory_eq hp, if_pos hroot, hroot]
    show ([] ++ '/' :: name).splitOn '/' = _
    rw [List.splitOn_append_cons_self, List.splitOn_nil, List.splitOn_eq_singleton hslash]
  · obtain ⟨htext, hunder⟩ := underText_directory hp hnil hroot
    rw [hunder, List.splitOn_append_cons_self, htext, List.splitOn_eq_singleton hslash]

/-! ## Siblings -/

theorem components_of_pieces {p : Path} {above silent trailing : List (List Char)}
    {name : List Char} (hpieces : p.pieces = above ++ silent ++ name :: trailing)
    (hsilent : ∀ piece ∈ silent, isSilent piece = true)
    (htrailing : ∀ piece ∈ trailing, isSilent piece = true) (habove : above = [] → silent = [])
    (hname : isSilent name = false) :
    p.components = (above.head? == some [], names above ++ [name]) := by
  have hrest : (name :: trailing).filter (!isSilent ·) = [name] := by
    rw [List.filter_cons_of_pos (by rw [hname]; rfl), filter_of_forall_isSilent htrailing]
  have hempty : name ≠ [] := by
    rintro rfl
    cases hname
  rw [Path.components, Prod.mk.injEq, Bool.eq_iff_iff, beq_iff_eq, beq_iff_eq,
    head?_eq_slash_iff, show p.text.toList.splitOn '/' = p.pieces from rfl, hpieces]
  cases above with
  | nil =>
    rw [habove rfl, List.nil_append, List.nil_append]
    refine ⟨iff_of_false ?_ nofun, ?_⟩
    · rintro ⟨next, rest, h⟩
      exact hempty (List.cons.inj h).1
    · have hfirst : names [name] = [name] := by simp [names, hempty]
      show names ([name] ++ trailing) = [name]
      rw [names_append (by simp), hfirst, filter_of_forall_isSilent htrailing, List.append_nil]
  | cons first above =>
    refine ⟨?_, ?_⟩
    · rw [List.head?_cons, Option.some.injEq]
      constructor
      · rintro ⟨next, rest, h⟩
        exact (List.cons.inj h).1
      · rintro rfl
        have hne : above ++ silent ++ name :: trailing ≠ [] := by simp
        obtain ⟨next, rest, hcons⟩ := List.exists_cons_of_ne_nil hne
        exact ⟨next, rest, by rw [← hcons]; rfl⟩
    · rw [names_append (by simp), names_append (by simp), filter_of_forall_isSilent hsilent,
        hrest, List.append_nil]

/-- The names along a path with a name are those above it, and this one. -/
theorem components_of_name? {p : Path} {name : List Char} (h : p.name? = some name) :
    p.components = (p.above.head? == some [], names p.above ++ [name]) := by
  obtain ⟨silent, trailing, hsilent, htrailing, habove, hpieces⟩ := exists_pieces_of_name? h
  exact components_of_pieces hpieces hsilent htrailing habove
    (isSilent_eq_false (name?_eq_some_iff.1 h).2)

theorem components_sibling {p : Path} {other name : List Char} (hp : p.name? = some other)
    (hslash : '/' ∉ name) (hname : isSilent name = false) :
    (p.sibling name).components = (p.above.head? == some [], names p.above ++ [name]) := by
  have hpieces : (p.sibling name).pieces = p.above ++ [] ++ name :: [] := by
    rw [pieces_sibling hp hslash, List.append_nil]
  exact components_of_pieces hpieces (List.forall_mem_nil _) (List.forall_mem_nil _) (fun _ => rfl)
    hname

variable {p q : Path} {name name' : List Char}

/-- A sibling lies in the same directory. -/
theorem sameDirectory_sibling (hp : p.name? ≠ none) (hslash : '/' ∉ name)
    (hname : isSilent name = false) : (p.sibling name).SameDirectory p := by
  obtain ⟨other, hother⟩ := Option.ne_none_iff_exists'.1 hp
  rw [Path.SameDirectory, components_sibling hother hslash hname, components_of_name? hother]
  exact ⟨rfl, by rw [List.dropLast_concat, List.dropLast_concat]⟩

/-- Siblings in one directory are the same if they have the same name. -/
theorem same_sibling_iff (hp : p.name? ≠ none) (hq : q.name? ≠ none) (h : p.SameDirectory q)
    (hslash : '/' ∉ name) (hname : isSilent name = false) (hslash' : '/' ∉ name')
    (hname' : isSilent name' = false) : (p.sibling name).Same (q.sibling name') ↔ name = name' := by
  obtain ⟨_, hother⟩ := Option.ne_none_iff_exists'.1 hp
  obtain ⟨_, hother'⟩ := Option.ne_none_iff_exists'.1 hq
  rw [Path.SameDirectory, components_of_name? hother, components_of_name? hother',
    List.dropLast_concat, List.dropLast_concat] at h
  dsimp only at h
  rw [Path.Same, components_sibling hother hslash hname, components_sibling hother' hslash' hname',
    h.1, h.2, Prod.mk.injEq, List.append_right_inj, List.singleton_inj, eq_self, true_and]

end CacheDelay.Files

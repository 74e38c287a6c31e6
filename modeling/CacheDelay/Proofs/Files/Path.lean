import CacheDelay.Files.Path

/-!
# Paths beside and under others

No piece of a path and no stem has a slash in it (`not_mem_of_mem_pieces`, `not_mem_stem`). Names
without a slash that are put behind one text therefore make paths that differ in the last piece only
(`splitOn_underText`). A path ends in the name that was put behind it (`name?_child`), and has the
stem of that name (`stem_child`).
-/

namespace CacheDelay.Files

/-- A piece has the characters of the text, but not the one that ends it. -/
theorem of_mem_splitOn {a : Char} {text piece : List Char} (h : piece ∈ text.splitOn a) :
    a ∉ piece ∧ piece ⊆ text := by
  induction text generalizing piece with
  | nil =>
    rw [List.splitOn_nil, List.mem_singleton] at h
    rw [h]
    exact ⟨List.not_mem_nil, List.Subset.refl _⟩
  | cons c text ih =>
    rw [List.splitOn_cons_eq_if_modifyHead] at h
    split at h
    · rcases List.mem_cons.1 h with rfl | h
      · exact ⟨List.not_mem_nil, List.nil_subset _⟩
      · exact (ih h).imp_right (List.subset_cons_of_subset c)
    · rename_i hc
      cases hpieces : text.splitOn a with
      | nil => exact absurd hpieces (List.splitOn_ne_nil a text)
      | cons first rest =>
        rw [hpieces, List.modifyHead_cons] at h
        rcases List.mem_cons.1 h with rfl | h
        · obtain ⟨hfirst, hsubset⟩ := ih (hpieces ▸ List.mem_cons_self)
          refine ⟨?_, List.cons_subset_cons c hsubset⟩
          intro hmem
          rcases List.mem_cons.1 hmem with rfl | hmem
          · exact hc (beq_self_eq_true _)
          · exact hfirst hmem
        · exact (ih (hpieces ▸ List.mem_cons_of_mem _ h)).imp_right (List.subset_cons_of_subset c)

theorem not_mem_of_mem_splitOn {a : Char} {text piece : List Char} (h : piece ∈ text.splitOn a) :
    a ∉ piece := (of_mem_splitOn h).1

theorem not_mem_of_mem_pieces {p : Path} {piece : List Char} (h : piece ∈ p.pieces) :
    '/' ∉ piece := not_mem_of_mem_splitOn h

/-! ## Names -/

theorem dropSilent_suffix (pieces : List (List Char)) : dropSilent pieces <:+ pieces := by
  fun_induction dropSilent pieces with
  | case1 => exact List.suffix_rfl
  | case2 => exact List.suffix_rfl
  | case3 piece before _ _ ih => exact ih.trans (List.suffix_cons ..)
  | case4 => exact List.suffix_rfl

/-- The name of a path is its last piece that says something, and no name of its own for a
directory. -/
theorem name?_eq_some_iff {p : Path} {name : List Char} : p.name? = some name ↔
    p.lastPiece.1 = name ∧ name ∉ [[], ['.'], ['.', '.']] := by
  simp only [List.mem_cons, List.not_mem_nil, or_false]
  rw [Path.name?, Option.ite_none_left_eq_some, Option.some.injEq, and_comm]
  refine and_congr_right ?_
  rintro rfl
  rfl

theorem mem_pieces_of_name? {p : Path} {name : List Char} (h : p.name? = some name) :
    name ∈ p.pieces := by
  obtain ⟨hlast, hproper⟩ := name?_eq_some_iff.1 h
  rw [Path.lastPiece] at hlast
  cases hdrop : dropSilent p.pieces.reverse with
  | nil =>
    rw [hdrop] at hlast
    rw [← hlast] at hproper
    exact absurd List.mem_cons_self hproper
  | cons last before =>
    rw [hdrop] at hlast
    subst hlast
    have hmem : last ∈ p.pieces.reverse :=
      (dropSilent_suffix _).subset (hdrop ▸ List.mem_cons_self)
    exact List.mem_reverse.1 hmem

/-- The stem of a name has only characters of the name. -/
theorem cutName_subset (name : List Char) : (cutName name).1 ⊆ name := by
  rw [cutName]
  split
  · exact List.Subset.refl _
  · exact List.Subset.refl _
  · rename_i dot stem _ hdrop
    intro c hc
    have hmem : c ∈ name.reverse.dropWhile (· != '.') :=
      hdrop ▸ List.mem_cons_of_mem _ (List.mem_reverse.1 hc)
    exact List.mem_reverse.1 ((List.dropWhile_suffix _).subset hmem)

theorem not_mem_stem (p : Path) : '/' ∉ p.stem := by
  rw [Path.stem]
  split
  · exact List.not_mem_nil
  · rename_i name hname
    exact fun hmem => not_mem_of_mem_pieces (mem_pieces_of_name? hname) (cutName_subset name hmem)

/-! ## Names behind a base -/

/-- Names without a slash become the last piece, behind the same pieces. -/
theorem splitOn_underText (base : List Char) :
    ∃ front, ∀ name, '/' ∉ name → (underText base name).splitOn '/' = front ++ [name] := by
  by_cases hbase : base = [] ∨ base.getLast? = some '/'
  · simp only [underText, if_pos hbase]
    rcases hbase with rfl | hlast
    · refine ⟨[], fun name h => ?_⟩
      rw [List.nil_append, List.splitOn_eq_singleton h, List.nil_append]
    · obtain ⟨front, rfl⟩ := List.getLast?_eq_some_iff.1 hlast
      refine ⟨front.splitOn '/', fun name h => ?_⟩
      rw [List.append_assoc, List.singleton_append, List.splitOn_append_cons_self,
        List.splitOn_eq_singleton h]
  · simp only [underText, if_neg hbase]
    refine ⟨base.splitOn '/', fun name h => ?_⟩
    rw [List.splitOn_append_cons_self, List.splitOn_eq_singleton h]

/-- Whether the path begins at the root does not depend on the name. -/
theorem head?_underText (base : List Char) {name : List Char} (h : '/' ∉ name) :
    (underText base name).head? = some '/' ↔ base.head? = some '/' := by
  cases base with
  | nil =>
    rw [underText, if_pos (.inl rfl), List.nil_append, List.head?_nil]
    exact ⟨fun hname => absurd (List.mem_of_head? hname) h, nofun⟩
  | cons c base =>
    rw [underText]
    split <;> rw [List.cons_append, List.head?_cons, List.head?_cons]

/-! ## Children -/

theorem pieces_child (p : Path) :
    ∃ front, ∀ name : String, '/' ∉ name.toList →
      (p.child name).pieces = front ++ [name.toList] := by
  obtain ⟨front, hpieces⟩ := splitOn_underText p.text.toList
  refine ⟨front, fun name h => ?_⟩
  rw [Path.pieces, Path.child, String.toList_ofList, hpieces _ h]

theorem dropSilent_cons_of_not {piece : List Char} (h : isSilent piece = false)
    (before : List (List Char)) : dropSilent (piece :: before) = piece :: before := by
  cases before with
  | nil => rfl
  | cons next before => simp [dropSilent, h]

/-- A name says something. -/
theorem isSilent_eq_false {name : List Char} (h : name ∉ [[], ['.'], ['.', '.']]) :
    isSilent name = false := by
  simp only [List.mem_cons, List.not_mem_nil, or_false, not_or] at h
  simp [isSilent, h]

/-- A path has the name that its last piece is. -/
theorem name?_of_pieces {p : Path} {front : List (List Char)} {name : List Char}
    (h : p.pieces = front ++ [name]) (hname : name ∉ [[], ['.'], ['.', '.']]) :
    p.name? = some name := by
  refine name?_eq_some_iff.2 ⟨?_, hname⟩
  rw [Path.lastPiece, h, List.reverse_concat, dropSilent_cons_of_not (isSilent_eq_false hname)]

/-- A path ends in the name that was put behind it. -/
theorem name?_child (p : Path) {name : String} (hslash : '/' ∉ name.toList)
    (hname : name.toList ∉ [[], ['.'], ['.', '.']]) :
    (p.child name).name? = some name.toList := by
  obtain ⟨front, hpieces⟩ := pieces_child p
  exact name?_of_pieces (hpieces name hslash) hname

/-- A name is cut at the dot before an extension without dots. -/
theorem cutName_append {stem extension : List Char} (hstem : stem ≠ []) (hdot : '.' ∉ extension) :
    cutName (stem ++ '.' :: extension) = (stem, some extension) := by
  have hall : ∀ c ∈ extension.reverse, (c != '.') = true := by
    intro c hc
    rw [bne_iff_ne]
    rintro rfl
    exact hdot (List.mem_reverse.1 hc)
  have hreverse : (stem ++ '.' :: extension).reverse = extension.reverse ++ '.' :: stem.reverse := by
    simp
  obtain ⟨last, before, hlast⟩ := List.exists_cons_of_ne_nil (mt List.reverse_eq_nil_iff.1 hstem)
  have hdrop : (stem ++ '.' :: extension).reverse.dropWhile (· != '.') = '.' :: last :: before := by
    rw [hreverse, List.dropWhile_append_of_pos hall, hlast]
    rfl
  have htake : (stem ++ '.' :: extension).reverse.takeWhile (· != '.') = extension.reverse := by
    rw [hreverse, List.takeWhile_append_of_pos hall]
    simp
  rw [cutName]
  simp only [hdrop, htake]
  rw [← hlast, List.reverse_reverse, List.reverse_reverse]

theorem stem_of_name? {p : Path} {stem extension : List Char}
    (h : p.name? = some (stem ++ '.' :: extension)) (hstem : stem ≠ []) (hdot : '.' ∉ extension) :
    p.stem = stem := by
  rw [Path.stem, h]
  dsimp only
  rw [cutName_append hstem hdot]

/-- A name with a stem and an extension is longer than the names that say nothing. -/
theorem not_mem_of_extension {stem extension : List Char} (hstem : stem ≠ [])
    (hextension : extension ≠ []) : stem ++ '.' :: extension ∉ [[], ['.'], ['.', '.']] := by
  have hlength : 3 ≤ (stem ++ '.' :: extension).length := by
    have hstem' := List.length_pos_iff.2 hstem
    have hextension' := List.length_pos_iff.2 hextension
    rw [List.length_append, List.length_cons]
    omega
  intro hmem
  simp only [List.mem_cons, List.not_mem_nil, or_false] at hmem
  rcases hmem with h | h | h <;> rw [h] at hlength <;> simp at hlength

/-- The stem of a path behind which a name with an extension was put. -/
theorem stem_child (p : Path) {name : String} {stem extension : List Char}
    (hname : name.toList = stem ++ '.' :: extension) (hslash : '/' ∉ name.toList)
    (hstem : stem ≠ []) (hextension : extension ≠ []) (hdot : '.' ∉ extension) :
    (p.child name).stem = stem := by
  have hproper : name.toList ∉ [[], ['.'], ['.', '.']] := by
    rw [hname]
    exact not_mem_of_extension hstem hextension
  apply stem_of_name? _ hstem hdot
  rw [name?_child p hslash hproper, hname]

end CacheDelay.Files

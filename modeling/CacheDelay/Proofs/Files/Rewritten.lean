import CacheDelay.Proofs.Files.Tree

/-!
# What rewritten files leave alone

A path denotes a location whether or not a file stands there (`Denotes`), and what it keeps is the
content of a regular file (`Keeps`). Where only files at some places were rewritten (`RewritesOnly`),
paths denote what they did, files can be written where they could be before, and nothing else has
changed, so that a path that denotes none of these places reads as before. This holds of one file
(`WithFile.rewritesOnly`) and of one after the other (`RewritesOnly.trans`).
-/

namespace CacheDelay.Files.Tree

variable {t t' t'' : Tree} {p q : Path} {place other : Location} {number : Nat}
  {content content' : List UInt8} {written : Location → Prop}

/-- The path denotes the location, where there is a file or where one can be created. -/
def Denotes (t : Tree) (p : Path) (place : Location) : Prop :=
  t.locate p = .ok place ∨ t.locateNew p = .ok place

/-- The path denotes a regular file with the given content. -/
def Keeps (t : Tree) (p : Path) (content : List UInt8) : Prop :=
  ∃ place number, t.HasFile p place number content

/-- In `t'` files can stand and can be written where they can in `t`. -/
structure SamePlaces (t t' : Tree) : Prop where
  locateNew_iff : ∀ p place, t'.locateNew p = .ok place ↔ t.locateNew p = .ok place
  refusal? : t'.refusal? = t.refusal?

/-- In `t'` no files but those at `written` places are others than in `t`. -/
structure RewritesOnly (t : Tree) (written : Location → Prop) (t' : Tree) : Prop where
  places : t.SamePlaces t'
  others : ∀ place, ¬ written place → t'.node? place = t.node? place
  /-- A path that denotes no written place denotes what it did. -/
  locate_iff : ∀ p, (∀ place, written place → ¬ t.Denotes p place) → ∀ place,
    t'.locate p = .ok place ↔ t.locate p = .ok place
  denotes_iff : ∀ p place, t'.Denotes p place ↔ t.Denotes p place

/-! ## Places and contents -/

theorem SamePlaces.refl (t : Tree) : t.SamePlaces t := ⟨fun _ _ => Iff.rfl, rfl⟩

theorem SamePlaces.trans (h : t.SamePlaces t') (h' : t'.SamePlaces t'') : t.SamePlaces t'' where
  locateNew_iff p place := (h'.locateNew_iff p place).trans (h.locateNew_iff p place)
  refusal? := h'.refusal?.trans h.refusal?

theorem SamePlaces.writable_iff (h : t.SamePlaces t') (p : Path) :
    t'.Writable p ↔ t.Writable p := by
  simp only [Writable, h.locateNew_iff, h.refusal?]

theorem Keeps.exists_place (h : t.Keeps p content) : ∃ place, t.locateNew p = .ok place := by
  obtain ⟨place, number, hfile⟩ := h
  exact ⟨place, hfile.located⟩

theorem Keeps.read (h : t.Keeps p content) : t.read p = .ok content := by
  obtain ⟨place, number, hfile⟩ := h
  exact hfile.read

/-- What one path keeps, another one that denotes the same place does. -/
theorem Keeps.of_locateNew (h : t.Keeps p content) (hp : t.locateNew p = .ok place)
    (hq : t.locateNew q = .ok place) : t.Keeps q content := by
  obtain ⟨place', number, hfile⟩ := h
  cases hfile.located.symm.trans hp
  exact ⟨place, number, hq, hfile.node⟩

/-! ## One file created or changed -/

/-- A path that denotes a file denotes its location also where the file was not there yet. -/
theorem WithFile.denotes_of_locate (h : t.WithFile place number content t')
    (hlocate : t'.locate p = .ok place) : t.Denotes p place := by
  obtain ⟨hchecked, hwalk⟩ := locate_eq_ok_iff.1 hlocate
  rw [h.steps p] at hwalk
  rcases List.eq_nil_or_concat (t.steps p).2 with hnil | ⟨front, last, hsteps⟩
  · rw [hnil] at hwalk
    refine .inl (locate_eq_ok_iff.2 ⟨hchecked, ?_⟩)
    rw [hnil]
    exact hwalk
  rw [hsteps, List.concat_eq_append] at hwalk
  obtain ⟨middle, hmiddle, hlast⟩ := walk_append_eq_ok_iff.1 hwalk
  obtain ⟨hdirectory', next, hleads, hnext⟩ := walk_cons_eq_ok_iff.1 hlast
  cases hnext
  have hdirectory := h.directory_iff.1 hdirectory'
  have hne : middle ≠ place := by
    rintro rfl
    exact h.notDirectory hdirectory
  have hfront := (h.of_walk hmiddle).resolve_left hne
  cases hleads with
  | stay => exact absurd rfl hne
  | up =>
    refine .inl (locate_eq_ok_iff.2 ⟨hchecked, ?_⟩)
    rw [hsteps, List.concat_eq_append]
    refine walk_append_eq_ok_iff.2 ⟨middle, hfront, ?_⟩
    exact walk_cons_eq_ok_iff.2 ⟨hdirectory, _, .up, rfl⟩
  | down hproper hshort _ =>
    refine .inr (Reaches.locateNew ?_ h.notDirectory)
    exact {
      checked := hchecked
      walked := ⟨front, by rw [hsteps, List.concat_eq_append], hfront⟩
      directory := hdirectory
      proper := hproper
      short := hshort }

theorem WithFile.denotes_iff (h : t.WithFile place number content t') :
    t'.Denotes p other ↔ t.Denotes p other := by
  constructor
  · rintro (hlocate | hnew)
    · rcases h.of_locate hlocate with rfl | hlocate'
      · exact h.denotes_of_locate hlocate
      · exact .inl hlocate'
    · exact .inr (h.of_locateNew hnew)
  · rintro (hlocate | hnew)
    · exact .inl (h.locate hlocate)
    · exact .inr (h.locateNew hnew)

/-- A path that does not denote the file denotes what it did. -/
theorem WithFile.locate_iff (h : t.WithFile place number content t') (hne : ¬ t.Denotes p place)
    (goal : Location) : t'.locate p = .ok goal ↔ t.locate p = .ok goal := by
  refine ⟨fun hlocate => ?_, h.locate⟩
  refine (h.of_locate hlocate).resolve_left ?_
  rintro rfl
  exact hne (h.denotes_of_locate hlocate)

theorem WithFile.samePlaces (h : t.WithFile place number content t') : t.SamePlaces t' :=
  ⟨fun _ _ => ⟨h.of_locateNew, h.locateNew⟩, h.refusal?⟩

/-- The file can be opened again. -/
theorem WithFile.opens (h : t.WithFile place number content t') (hplace : t.locateNew p = .ok place)
    (hwritable : t.Writable p) : t'.Opens p content :=
  (h.hasFile hplace).opens ((h.samePlaces.writable_iff p).2 hwritable)

/-- The path that was written to keeps the content. -/
theorem WithFile.keeps (h : t.WithFile place number content t') (hp : t.locateNew p = .ok place) :
    t'.Keeps p content := ⟨place, number, h.hasFile hp⟩

/-- A path that denotes another place keeps what it kept. -/
theorem WithFile.keeps_of_ne (h : t.WithFile place number content' t') (hkeeps : t.Keeps p content)
    (hne : t.locateNew p ≠ .ok place) : t'.Keeps p content := by
  obtain ⟨place', number', hfile⟩ := hkeeps
  refine ⟨place', number', hfile.of_withFile h ?_⟩
  rintro rfl
  exact hne hfile.located

theorem WithFile.rewritesOnly (h : t.WithFile place number content t') (hplace : written place) :
    t.RewritesOnly written t' where
  places := h.samePlaces
  others other hother := by
    refine h.others other ?_
    rintro rfl
    exact hother hplace
  locate_iff _ hp := h.locate_iff (hp place hplace)
  denotes_iff _ _ := h.denotes_iff

/-! ## Files rewritten one after the other -/

theorem RewritesOnly.refl (t : Tree) : t.RewritesOnly written t where
  places := .refl t
  others _ _ := rfl
  locate_iff _ _ _ := Iff.rfl
  denotes_iff _ _ := Iff.rfl

theorem RewritesOnly.mono {written' : Location → Prop} (h : t.RewritesOnly written t')
    (hle : ∀ place, written place → written' place) : t.RewritesOnly written' t' where
  places := h.places
  others place hplace := h.others place (mt (hle place) hplace)
  locate_iff p hp := h.locate_iff p fun place hplace => hp place (hle place hplace)
  denotes_iff := h.denotes_iff

theorem RewritesOnly.trans (h : t.RewritesOnly written t') (h' : t'.RewritesOnly written t'') :
    t.RewritesOnly written t'' where
  places := h.places.trans h'.places
  others place hplace := (h'.others place hplace).trans (h.others place hplace)
  locate_iff p hp place := by
    have hp' : ∀ place, written place → ¬ t'.Denotes p place :=
      fun place hplace hdenotes => hp place hplace ((h.denotes_iff p place).1 hdenotes)
    exact (h'.locate_iff p hp' place).trans (h.locate_iff p hp place)
  denotes_iff p place := (h'.denotes_iff p place).trans (h.denotes_iff p place)

/-- A path that denotes no written place reads as before. -/
theorem RewritesOnly.node?_of_locate (h : t.RewritesOnly written t')
    (hp : ∀ place, written place → ¬ t.Denotes p place) (hplace : t.locate p = .ok place) :
    t'.node? place = t.node? place :=
  h.others place fun hwritten => hp place hwritten (.inl hplace)

theorem RewritesOnly.read_iff (h : t.RewritesOnly written t')
    (hp : ∀ place, written place → ¬ t.Denotes p place) (bytes : List UInt8) :
    t'.read p = .ok bytes ↔ t.read p = .ok bytes := by
  rw [read_eq_ok_iff, read_eq_ok_iff]
  refine exists_congr fun place => ?_
  rw [h.locate_iff p hp]
  refine and_congr_right fun hplace => ?_
  simp only [allAt, contentAt, h.node?_of_locate hp hplace]

end CacheDelay.Files.Tree

import CacheDelay.Files.Tree
import CacheDelay.Proofs.Files.Path
import CacheDelay.Proofs.Results

/-!
# Trees after a write

Resolution only asks which locations are directories and which are taken (`Leads`,
`walk_cons_eq_ok_iff`). A tree in which one file was created or changed (`WithFile`) therefore
resolves what it resolved before (`WithFile.walk`), and nothing new except that file
(`WithFile.of_walk`). A path that denotes a regular file (`HasFile`) can be read, and opened for
writing unless the system refuses it (`Writable`); what was opened is emptied and appended to without
a fault.
-/

namespace CacheDelay.Files.Tree

/-! ## Entries -/

/-- Items at one location are the same if the same stands there. -/
theorem Item.eq_of_place_of_node {item item' : Item} (hplace : item.place = item'.place)
    (hnode : item.node = item'.node) : item = item' := by
  cases item <;> cases item' <;> cases hnode
  · exact congrArg Item.directory hplace
  · exact congrArg (Item.file · _ _) hplace
  · rfl
  · rfl

theorem find?_replaceEntry (item : Item) (other : Location) (entries : List Item) :
    (replaceEntry item entries).find? (·.place == other) =
      if other = item.place then some item else entries.find? (·.place == other) := by
  induction entries with
  | nil =>
    by_cases h : other = item.place
    · subst h
      simp [replaceEntry]
    · simp [replaceEntry, h, Ne.symm h]
  | cons entry rest ih =>
    rw [replaceEntry]
    by_cases hentry : entry.place = item.place
    · by_cases h : other = item.place
      · simp [hentry, h]
      · simp [hentry, h, Ne.symm h]
    · simp only [beq_iff_eq, hentry, if_false, List.find?_cons, ih]
      by_cases h : other = item.place
      · subst h
        simp [beq_eq_false_iff_ne.2 hentry]
      · simp [h]

theorem node?_set_self (item : Item) (h : item.place ≠ []) (t : Tree) :
    (t.set item).node? item.place = some item.node := by
  rw [node?, if_neg h, set, find?_replaceEntry, if_pos rfl]
  rfl

theorem node?_set_of_ne (item : Item) {other : Location} (h : other ≠ item.place) (t : Tree) :
    (t.set item).node? other = t.node? other := by
  rw [node?, set, find?_replaceEntry, if_neg h]
  rfl

theorem replaceEntry_replaceEntry {item item' : Item} (hplace : item'.place = item.place)
    (entries : List Item) :
    replaceEntry item' (replaceEntry item entries) = replaceEntry item' entries := by
  induction entries with
  | nil => simp [replaceEntry, hplace]
  | cons entry rest ih =>
    by_cases hentry : entry.place = item.place
    · simp [replaceEntry, hplace, hentry]
    · simp [replaceEntry, hplace, hentry, ih]

/-- An entry may be replaced by itself. -/
theorem replaceEntry_eq_self {item : Item} {entries : List Item}
    (h : (entries.find? (·.place == item.place)).map Item.node = some item.node) :
    replaceEntry item entries = entries := by
  induction entries with
  | nil => cases h
  | cons entry rest ih =>
    rw [List.find?_cons] at h
    rw [replaceEntry]
    by_cases hentry : entry.place = item.place
    · rw [beq_iff_eq.2 hentry] at h
      rw [if_pos (beq_iff_eq.2 hentry), Item.eq_of_place_of_node hentry (Option.some.inj h)]
    · rw [beq_eq_false_iff_ne.2 hentry] at h
      rw [if_neg (mt beq_iff_eq.1 hentry), ih h]

theorem set_set {item item' : Item} (hplace : item'.place = item.place) (t : Tree) :
    (t.set item).set item' = t.set item' := by
  rw [set, set, set, replaceEntry_replaceEntry hplace]

/-- Nothing changes where something is put that stands there already. -/
theorem set_eq_self {t : Tree} {item : Item} (hplace : item.place ≠ [])
    (h : t.node? item.place = some item.node) : t.set item = t := by
  rw [node?, if_neg hplace] at h
  rw [set, replaceEntry_eq_self h]

theorem ne_nil_of_notDirectory {t : Tree} {place : Location}
    (h : t.node? place ≠ some .directory) : place ≠ [] := by
  rintro rfl
  exact h rfl

/-! ## Resolution -/

/-- Whether a step can be the name of an entry in a directory. -/
def IsEntryName (name : String) : Prop := name ≠ "" ∧ name ≠ "." ∧ name ≠ ".."

theorem isEntryName_iff {name : String} :
    IsEntryName name ↔ name.toList ∉ [[], ['.'], ['.', '.']] := by
  simp only [IsEntryName, List.mem_cons, List.not_mem_nil, or_false, not_or, ne_eq,
    ← String.toList_inj]
  rfl

/-- From the directory `place` a step leads to a location. -/
inductive Leads (t : Tree) (place : Location) : String → Location → Prop
  | stay {step : String} (h : step = "" ∨ step = ".") : Leads t place step place
  | up : Leads t place ".." place.dropLast
  | down {name : String} (proper : IsEntryName name) (short : name.utf8ByteSize ≤ maxNameBytes)
      (taken : (t.node? (place ++ [name])).isSome) : Leads t place name (place ++ [name])

theorem walk_cons_eq_ok_iff {t : Tree} {place goal : Location} {step : String}
    {rest : List String} :
    t.walk place (step :: rest) = .ok goal ↔
      t.node? place = some .directory ∧ ∃ next, t.Leads place step next ∧
        t.walk next rest = .ok goal := by
  rw [walk]
  constructor
  · intro h
    split at h
    · rename_i hdirectory
      refine ⟨hdirectory, ?_⟩
      split at h
      · exact ⟨place, .stay ‹_›, h⟩
      rename_i hstay
      split at h
      · rename_i hup
        subst hup
        exact ⟨_, .up, h⟩
      rename_i hup
      split at h
      · cases h
      rename_i hlong
      split at h
      · cases h
      rename_i node htaken
      have hproper : IsEntryName step := ⟨(not_or.1 hstay).1, (not_or.1 hstay).2, hup⟩
      exact ⟨_, .down hproper (Nat.le_of_not_lt hlong) (by rw [htaken]; rfl), h⟩
    · cases h
    · cases h
  · rintro ⟨hdirectory, next, hleads, h⟩
    simp only [hdirectory]
    cases hleads with
    | stay hstay => rw [if_pos hstay, h]
    | up => simpa using h
    | down hproper hshort htaken =>
      obtain ⟨node, hnode⟩ := Option.isSome_iff_exists.1 htaken
      rw [if_neg (not_or.2 ⟨hproper.1, hproper.2.1⟩), if_neg hproper.2.2,
        if_neg (Nat.not_lt.2 hshort), hnode]
      exact h

theorem walk_append_eq_ok_iff {t : Tree} {place goal : Location} {front rest : List String} :
    t.walk place (front ++ rest) = .ok goal ↔
      ∃ middle, t.walk place front = .ok middle ∧ t.walk middle rest = .ok goal := by
  induction front generalizing place with
  | nil =>
    constructor
    · intro h
      exact ⟨place, rfl, h⟩
    · rintro ⟨middle, hmiddle, h⟩
      cases hmiddle
      exact h
  | cons step front ih =>
    rw [List.cons_append, walk_cons_eq_ok_iff]
    constructor
    · rintro ⟨hdirectory, next, hleads, h⟩
      obtain ⟨middle, hmiddle, h⟩ := ih.1 h
      exact ⟨middle, walk_cons_eq_ok_iff.2 ⟨hdirectory, next, hleads, hmiddle⟩, h⟩
    · rintro ⟨middle, hmiddle, h⟩
      obtain ⟨hdirectory, next, hleads, hmiddle⟩ := walk_cons_eq_ok_iff.1 hmiddle
      exact ⟨hdirectory, next, hleads, ih.2 ⟨middle, hmiddle, h⟩⟩

/-- A walk whose last step is an entry name ends in an entry of that name. -/
theorem getLast?_of_walk {t : Tree} {start goal : Location} {front : List String} {name : String}
    (hname : IsEntryName name) (h : t.walk start (front ++ [name]) = .ok goal) :
    goal.getLast? = some name := by
  obtain ⟨middle, -, h⟩ := walk_append_eq_ok_iff.1 h
  obtain ⟨-, next, hleads, h⟩ := walk_cons_eq_ok_iff.1 h
  cases h
  cases hleads with
  | stay hstay => exact absurd hstay (not_or.2 ⟨hname.1, hname.2.1⟩)
  | up => exact absurd rfl hname.2.2
  | down => exact List.getLast?_concat

/-- Names put behind one base are reached from the same location by the same steps. -/
theorem steps_underText (t : Tree) (base : List Char) : ∃ start front, ∀ name, '/' ∉ name →
    t.steps ⟨String.ofList (underText base name)⟩ = (start, front ++ [String.ofList name]) := by
  obtain ⟨front, hpieces⟩ := splitOn_underText base
  refine ⟨if base.head? = some '/' then [] else t.workingDirectory, front.map String.ofList,
    fun name h => ?_⟩
  have hmap : (front ++ [name]).map String.ofList =
      front.map String.ofList ++ [String.ofList name] := by
    rw [List.map_append, List.map_singleton]
  simp only [steps, Path.pieces, String.toList_ofList, hpieces name h, hmap,
    head?_underText base h]
  split <;> rfl

theorem locate_eq_ok_iff {t : Tree} {p : Path} {goal : Location} :
    t.locate p = .ok goal ↔
      checkPath p = .ok () ∧ t.walk (t.steps p).1 (t.steps p).2 = .ok goal := by
  rw [locate]
  cases checkPath p with
  | error fault => simp [bind, Except.bind]
  | ok u => simp [bind, Except.bind]

/-- A path whose last step is `name`, where the steps before it lead to the directory `parent`. -/
structure Reaches (t : Tree) (p : Path) (parent : Location) (name : String) : Prop where
  checked : checkPath p = .ok ()
  walked : ∃ front, (t.steps p).2 = front ++ [name] ∧ t.walk (t.steps p).1 front = .ok parent
  directory : t.node? parent = some .directory
  proper : IsEntryName name
  short : name.utf8ByteSize ≤ maxNameBytes

theorem Reaches.locate {t : Tree} {p : Path} {parent : Location} {name : String}
    (h : t.Reaches p parent name) (htaken : (t.node? (parent ++ [name])).isSome) :
    t.locate p = .ok (parent ++ [name]) := by
  obtain ⟨front, hsteps, hwalk⟩ := h.walked
  refine locate_eq_ok_iff.2 ⟨h.checked, ?_⟩
  rw [hsteps]
  refine walk_append_eq_ok_iff.2 ⟨parent, hwalk, ?_⟩
  exact walk_cons_eq_ok_iff.2 ⟨h.directory, _, .down h.proper h.short htaken, rfl⟩

/-- Steps without the empty ones at the end are the steps themselves if the last one is a name. -/
theorem dropEmpty_concat {front : List String} {name : String} (h : name ≠ "") :
    ((front ++ [name]).reverse.dropWhile (· == "")).reverse = front ++ [name] := by
  rw [List.reverse_concat, List.dropWhile_cons_of_neg (by simpa using h), List.reverse_cons,
    List.reverse_reverse]

theorem dropEmpty_eq_self {steps : List String}
    (h : ¬ (steps.reverse.dropWhile (· == "")).reverse.length < steps.length) :
    (steps.reverse.dropWhile (· == "")).reverse = steps ∧ steps.getLast? ≠ some "" := by
  have hsuffix : steps.reverse.dropWhile (· == "") <:+ steps.reverse := List.dropWhile_suffix _
  rw [List.length_reverse] at h
  have hself := hsuffix.eq_of_length_le (by rw [List.length_reverse]; omega)
  refine ⟨by rw [hself, List.reverse_reverse], fun hlast => ?_⟩
  obtain ⟨front, rfl⟩ := List.getLast?_eq_some_iff.1 hlast
  rw [List.reverse_concat, List.dropWhile_cons_of_pos rfl] at hself
  have hlength : (front.reverse.dropWhile (· == "")).length ≤ front.reverse.length :=
    (List.dropWhile_suffix _).length_le
  rw [hself, List.length_cons] at hlength
  omega

theorem Reaches.locateNew {t : Tree} {p : Path} {parent : Location} {name : String}
    (h : t.Reaches p parent name) (hplace : t.node? (parent ++ [name]) ≠ some .directory) :
    t.locateNew p = .ok (parent ++ [name]) := by
  obtain ⟨front, hsteps, hwalk⟩ := h.walked
  rw [Tree.locateNew, h.checked]
  simp only [bind, Except.bind, hsteps, dropEmpty_concat h.proper.1, List.getLast?_concat,
    List.dropLast_concat, hwalk, h.directory, Nat.lt_irrefl, or_false,
    if_neg (not_or.2 h.proper.2), if_neg (Nat.not_lt.2 h.short)]
  rfl

theorem exists_reaches_of_locateNew {t : Tree} {p : Path} {place : Location}
    (h : t.locateNew p = .ok place) :
    ∃ parent name, t.Reaches p parent name ∧ t.node? place ≠ some .directory ∧
      place = parent ++ [name] := by
  rw [locateNew] at h
  cases hchecked : checkPath p with
  | error fault =>
    rw [hchecked] at h
    cases h
  | ok u =>
    rw [hchecked] at h
    simp only [bind, Except.bind] at h
    split at h
    · cases h
    rename_i name hname
    split at h
    · cases h
    rename_i parent hwalk
    by_cases hdirectory : t.node? parent = some .directory
    · simp only [hdirectory, Bool.not_true, Bool.false_eq_true, if_false] at h
      split at h
      · cases h
      rename_i hlast
      split at h
      · cases h
      rename_i hlong
      split at h
      · cases h
      rename_i hplace
      cases h
      obtain ⟨hdot, hlast⟩ := not_or.1 hlast
      obtain ⟨hup, hlength⟩ := not_or.1 hlast
      obtain ⟨hnamed, hempty⟩ := dropEmpty_eq_self hlength
      rw [hnamed] at hname hwalk
      obtain ⟨front, hsteps⟩ := List.getLast?_eq_some_iff.1 hname
      refine ⟨parent, name, ?_, hplace, rfl⟩
      exact {
        checked := hchecked
        walked := ⟨front, hsteps, by rwa [hsteps, List.dropLast_concat] at hwalk⟩
        directory := hdirectory
        proper := ⟨fun h => hempty (h ▸ hname), hdot, hup⟩
        short := Nat.le_of_not_lt hlong }
    · split at h
      · exact absurd ‹_› hdirectory
      · cases h

/-- Names put behind one base stand in one directory. -/
theorem exists_parent_of_underText (t : Tree) (base : List Char) : ∃ parent, ∀ name place,
    '/' ∉ name → t.locateNew ⟨String.ofList (underText base name)⟩ = .ok place →
      place = parent ++ [String.ofList name] := by
  obtain ⟨start, front, hsteps⟩ := steps_underText t base
  have hplace {name : List Char} {place : Location} (hslash : '/' ∉ name)
      (h : t.locateNew ⟨String.ofList (underText base name)⟩ = .ok place) :
      ∃ parent, t.walk start front = .ok parent ∧ place = parent ++ [String.ofList name] := by
    obtain ⟨parent, last, hreaches, -, rfl⟩ := exists_reaches_of_locateNew h
    obtain ⟨front', hsteps', hwalk⟩ := hreaches.walked
    rw [hsteps name hslash] at hsteps' hwalk
    obtain ⟨rfl, hname⟩ := List.append_inj' hsteps' rfl
    cases hname
    exact ⟨parent, hwalk, rfl⟩
  cases hwalk : t.walk start front with
  | error fault =>
    refine ⟨[], fun name place hslash h => ?_⟩
    obtain ⟨parent, hparent, -⟩ := hplace hslash h
    cases hwalk.symm.trans hparent
  | ok parent =>
    refine ⟨parent, fun name place hslash h => ?_⟩
    obtain ⟨parent', hparent, rfl⟩ := hplace hslash h
    cases hwalk.symm.trans hparent
    rfl

/-! ## Reading -/

/-- What can be read stands somewhere. -/
theorem read_eq_ok_iff {t : Tree} {p : Path} {content : List UInt8} :
    t.read p = .ok content ↔ ∃ place, t.locate p = .ok place ∧ t.allAt place = .ok content :=
  bind_eq_ok_iff

/-- What ends when it is read has that length. -/
theorem contentAt_of_allAt {t : Tree} {place : Location} {content : List UInt8}
    (h : t.allAt place = .ok content) : t.contentAt place = .ok content := by
  rw [allAt] at h
  split at h
  · cases h
  · exact h

theorem list_eq_ok_iff {t : Tree} {p : Path} {names : List String} :
    t.list p = .ok names ↔ ∃ place, t.locate p = .ok place ∧ t.node? place = some .directory ∧
      t.entries.filterMap (fun entry => nameIn? place entry.place) = names := by
  rw [list, bind_eq_ok_iff]
  refine exists_congr fun place => and_congr_right fun _ => ?_
  split
  · rename_i hdirectory
    rw [Except.ok.injEq, and_iff_right hdirectory]
  · rename_i hother
    exact iff_of_false (fun h => by cases h) fun h => hother h.1

/-- What can be listed is a directory. -/
theorem isDirectory_of_list {t : Tree} {p : Path} {names : List String}
    (h : t.list p = .ok names) : t.isDirectory p = true := by
  obtain ⟨place, hplace, hdirectory, -⟩ := list_eq_ok_iff.1 h
  simp only [isDirectory, hplace, hdirectory]

/-! ## One file created or changed -/

/-- `t'` is `t` with a file of the given number and content at `place`, where `t` has no
directory. -/
structure WithFile (t : Tree) (place : Location) (number : Nat) (content : List UInt8)
    (t' : Tree) : Prop where
  workingDirectory : t'.workingDirectory = t.workingDirectory
  refusal? : t'.refusal? = t.refusal?
  notDirectory : t.node? place ≠ some .directory
  node : t'.node? place = some (.file number content)
  others : ∀ other, other ≠ place → t'.node? other = t.node? other

theorem withFile_set {t : Tree} {place : Location} (h : t.node? place ≠ some .directory)
    (number : Nat) (content : List UInt8) :
    t.WithFile place number content (t.set (.file place number content)) where
  workingDirectory := rfl
  refusal? := rfl
  notDirectory := h
  node := node?_set_self (.file place number content) (ne_nil_of_notDirectory h) t
  others _ hother := node?_set_of_ne (.file place number content) hother t

theorem withFile_create {t : Tree} {place : Location} (h : t.node? place ≠ some .directory)
    (content : List UInt8) : t.WithFile place t.fresh content (t.create place content) where
  workingDirectory := rfl
  refusal? := rfl
  notDirectory := h
  node := (withFile_set h t.fresh content).node
  others := (withFile_set h t.fresh content).others

theorem withFile_self {t : Tree} {place : Location} {number : Nat} {content : List UInt8}
    (h : t.node? place = some (.file number content)) : t.WithFile place number content t where
  workingDirectory := rfl
  refusal? := rfl
  notDirectory := by rw [h]; simp
  node := h
  others _ _ := rfl

namespace WithFile

variable {t t' t'' : Tree} {place : Location} {number number' : Nat} {content content' : List UInt8}

theorem trans (h : t.WithFile place number content t')
    (h' : t'.WithFile place number' content' t'') : t.WithFile place number' content' t'' where
  workingDirectory := h'.workingDirectory.trans h.workingDirectory
  refusal? := h'.refusal?.trans h.refusal?
  notDirectory := h.notDirectory
  node := h'.node
  others other hother := (h'.others other hother).trans (h.others other hother)

theorem steps (h : t.WithFile place number content t') (p : Path) : t'.steps p = t.steps p := by
  rw [Tree.steps, Tree.steps, h.workingDirectory]

/-- The directories are those of before. -/
theorem directory_iff (h : t.WithFile place number content t') {other : Location} :
    t'.node? other = some .directory ↔ t.node? other = some .directory := by
  by_cases hother : other = place
  · subst hother
    rw [h.node]
    simpa using h.notDirectory
  · rw [h.others other hother]

theorem leads (h : t.WithFile place number content t') {start next : Location} {step : String}
    (hleads : t.Leads start step next) : t'.Leads start step next := by
  cases hleads with
  | stay hstay => exact .stay hstay
  | up => exact .up
  | down hproper hshort htaken =>
    refine .down hproper hshort ?_
    by_cases hnext : start ++ [step] = place
    · rw [hnext, h.node]; rfl
    · rwa [h.others _ hnext]

theorem of_leads (h : t.WithFile place number content t') {start next : Location} {step : String}
    (hleads : t'.Leads start step next) : next = place ∨ t.Leads start step next := by
  cases hleads with
  | stay hstay => exact .inr (.stay hstay)
  | up => exact .inr .up
  | down hproper hshort htaken =>
    by_cases hnext : start ++ [step] = place
    · exact .inl hnext
    · rw [h.others _ hnext] at htaken
      exact .inr (.down hproper hshort htaken)

/-- What was resolved still is. -/
theorem walk (h : t.WithFile place number content t') {start goal : Location} {steps : List String}
    (hwalk : t.walk start steps = .ok goal) : t'.walk start steps = .ok goal := by
  induction steps generalizing start with
  | nil => exact hwalk
  | cons step rest ih =>
    obtain ⟨hdirectory, next, hleads, hwalk⟩ := walk_cons_eq_ok_iff.1 hwalk
    exact walk_cons_eq_ok_iff.2 ⟨h.directory_iff.2 hdirectory, next, h.leads hleads, ih hwalk⟩

/-- Nothing else can be resolved but the file. -/
theorem of_walk (h : t.WithFile place number content t') {start goal : Location}
    {steps : List String} (hwalk : t'.walk start steps = .ok goal) :
    goal = place ∨ t.walk start steps = .ok goal := by
  induction steps generalizing start with
  | nil => exact .inr hwalk
  | cons step rest ih =>
    obtain ⟨hdirectory, next, hleads, hwalk⟩ := walk_cons_eq_ok_iff.1 hwalk
    rcases h.of_leads hleads with rfl | hleads
    · -- nothing follows a file but the end of the walk
      cases rest with
      | nil => cases hwalk; exact .inl rfl
      | cons step' rest =>
        have := (walk_cons_eq_ok_iff.1 hwalk).1
        rw [h.node] at this
        cases this
    · rcases ih hwalk with hgoal | hwalk
      · exact .inl hgoal
      · exact .inr (walk_cons_eq_ok_iff.2 ⟨h.directory_iff.1 hdirectory, next, hleads, hwalk⟩)

theorem locate (h : t.WithFile place number content t') {p : Path} {goal : Location}
    (hlocate : t.locate p = .ok goal) : t'.locate p = .ok goal := by
  obtain ⟨hchecked, hwalk⟩ := locate_eq_ok_iff.1 hlocate
  rw [← h.steps p] at hwalk
  exact locate_eq_ok_iff.2 ⟨hchecked, h.walk hwalk⟩

theorem of_locate (h : t.WithFile place number content t') {p : Path} {goal : Location}
    (hlocate : t'.locate p = .ok goal) : goal = place ∨ t.locate p = .ok goal := by
  obtain ⟨hchecked, hwalk⟩ := locate_eq_ok_iff.1 hlocate
  rw [h.steps p] at hwalk
  exact (h.of_walk hwalk).imp_right fun hwalk => locate_eq_ok_iff.2 ⟨hchecked, hwalk⟩

theorem locateNew (h : t.WithFile place number content t') {p : Path} {goal : Location}
    (hlocate : t.locateNew p = .ok goal) : t'.locateNew p = .ok goal := by
  obtain ⟨parent, name, hreaches, hgoal, rfl⟩ := exists_reaches_of_locateNew hlocate
  obtain ⟨front, hsteps, hwalk⟩ := hreaches.walked
  refine Reaches.locateNew ?_ (mt h.directory_iff.1 hgoal)
  exact {
    checked := hreaches.checked
    walked := ⟨front, by rw [h.steps, hsteps], by rw [h.steps]; exact h.walk hwalk⟩
    directory := h.directory_iff.2 hreaches.directory
    proper := hreaches.proper
    short := hreaches.short }

/-- A file can be created where it could be before. -/
theorem of_locateNew (h : t.WithFile place number content t') {p : Path} {goal : Location}
    (hlocate : t'.locateNew p = .ok goal) : t.locateNew p = .ok goal := by
  obtain ⟨parent, name, hreaches, hgoal, rfl⟩ := exists_reaches_of_locateNew hlocate
  obtain ⟨front, hsteps, hwalk⟩ := hreaches.walked
  have hdirectory := h.directory_iff.1 hreaches.directory
  -- the file is no directory, so the walk to the parent does not end in it
  have hparent : parent ≠ place := by
    rintro rfl
    exact h.notDirectory hdirectory
  refine Reaches.locateNew ?_ (mt h.directory_iff.2 hgoal)
  exact {
    checked := hreaches.checked
    walked := by
      rw [h.steps] at hsteps hwalk
      exact ⟨front, hsteps, (h.of_walk hwalk).resolve_left hparent⟩
    directory := hdirectory
    proper := hreaches.proper
    short := hreaches.short }

end WithFile

/-! ## Regular files -/

/-- The path denotes a regular file of the given number and content. -/
structure HasFile (t : Tree) (p : Path) (place : Location) (number : Nat)
    (content : List UInt8) : Prop where
  located : t.locateNew p = .ok place
  node : t.node? place = some (.file number content)

namespace HasFile

variable {t t' : Tree} {p : Path} {place : Location} {number : Nat} {content : List UInt8}

theorem locate (h : t.HasFile p place number content) : t.locate p = .ok place := by
  obtain ⟨parent, name, hreaches, -, rfl⟩ := exists_reaches_of_locateNew h.located
  exact hreaches.locate (by rw [h.node]; rfl)

theorem allAt (h : t.HasFile p place number content) : t.allAt place = .ok content := by
  simp only [Tree.allAt, Tree.contentAt, h.node]

theorem read (h : t.HasFile p place number content) : t.read p = .ok content :=
  read_eq_ok_iff.2 ⟨place, h.locate, h.allAt⟩

theorem openNew (h : t.HasFile p place number content) (hallowed : t.refusal? place = none) :
    t.openNew p = .ok (⟨place, number⟩, t) := by
  rw [Tree.openNew, h.located]
  simp only [bind, Except.bind, hallowed, h.node]

/-- The file is still there after another one was created or changed. -/
theorem of_withFile (h : t.HasFile p place number content) {other : Location} {number' : Nat}
    {content' : List UInt8} (h' : t.WithFile other number' content' t') (hne : place ≠ other) :
    t'.HasFile p place number content where
  located := h'.locateNew h.located
  node := by rw [h'.others place hne, h.node]

end HasFile

theorem WithFile.hasFile {t t' : Tree} {p : Path} {place : Location} {number : Nat}
    {content : List UInt8} (h : t.WithFile place number content t')
    (hlocate : t.locateNew p = .ok place) : t'.HasFile p place number content :=
  ⟨h.locateNew hlocate, h.node⟩

/-! ## Opening, emptying, appending -/

theorem openNew_of_none {t : Tree} {p : Path} {place : Location} (h : t.locateNew p = .ok place)
    (hallowed : t.refusal? place = none) (hnone : t.node? place = none) :
    t.openNew p = .ok (⟨place, t.fresh⟩, t.create place []) := by
  rw [openNew, h]
  simp only [bind, Except.bind, hallowed, hnone]

/-- A file can be opened for writing at the path: it can stand there, and the system does not refuse
to write it. -/
def Writable (t : Tree) (p : Path) : Prop :=
  ∃ place, t.locateNew p = .ok place ∧ t.refusal? place = none

theorem Writable.allowed {t : Tree} {p : Path} {place : Location} (h : t.Writable p)
    (hplace : t.locateNew p = .ok place) : t.refusal? place = none := by
  obtain ⟨place', hplace', hallowed⟩ := h
  cases hplace.symm.trans hplace'
  exact hallowed

theorem writable_iff {t : Tree} {p : Path} {place : Location} (hplace : t.locateNew p = .ok place) :
    t.Writable p ↔ t.refusal? place = none :=
  ⟨fun h => h.allowed hplace, fun h => ⟨place, hplace, h⟩⟩

theorem exists_openNew_iff {t : Tree} {p : Path} :
    (∃ handle t', t.openNew p = .ok (handle, t')) ↔ t.Writable p := by
  rw [openNew, Writable]
  cases hlocate : t.locateNew p with
  | error fault => simp [bind, Except.bind]
  | ok place =>
    cases hrefusal : t.refusal? place with
    | some fault => simp [bind, Except.bind, hrefusal]
    | none =>
      simp only [bind, Except.bind, hrefusal]
      refine iff_of_true ?_ ⟨place, rfl, hrefusal⟩
      split <;> exact ⟨_, _, rfl⟩

/-- Whether a device stands at the location: what is written there is lost. -/
def IsDevice (t : Tree) (place : Location) : Prop :=
  t.node? place = some .sink ∨ t.node? place = some .full

theorem IsDevice.notDirectory {t : Tree} {place : Location} (h : t.IsDevice place) :
    t.node? place ≠ some .directory := by
  rcases h with h | h <;> simp [h]

/-- What has a content is a regular file with this content, or a device with none. -/
theorem contentAt_eq_ok_iff {t : Tree} {place : Location} {content : List UInt8} :
    t.contentAt place = .ok content ↔
      (∃ number, t.node? place = some (.file number content)) ∨
        t.IsDevice place ∧ content = [] := by
  rw [contentAt, IsDevice]
  rcases t.node? place with _ | _ | ⟨number, old⟩ | _ | _ <;> simp [eq_comm]

/-- Devices stand at their own locations, so that no other name is that of a device. -/
theorem not_isDevice_of_getLast? {t : Tree} {place : Location} {name : String}
    (hlast : place.getLast? = some name) (hname : name ∉ ["null", "full"]) :
    ¬ t.IsDevice place := by
  have hitem {node : Node} (hnode : t.node? place = some node) (hne : node ≠ .directory) :
      ∃ item : Item, item.place = place ∧ item.node = node := by
    rw [node?] at hnode
    split at hnode
    · cases hnode
      exact absurd rfl hne
    · obtain ⟨item, hitem, rfl⟩ := Option.map_eq_some_iff.1 hnode
      exact ⟨item, by simpa using List.find?_some hitem, rfl⟩
  rintro (h | h)
  all_goals
    obtain ⟨item, rfl, hnode⟩ := hitem h (by simp)
    cases item <;> cases hnode
    cases hlast
    exact hname (by simp)

/-- What was opened is a file, new or old, or a device. -/
theorem of_openNew_eq_ok {t t' : Tree} {p : Path} {handle : Handle}
    (h : t.openNew p = .ok (handle, t')) :
    t.locateNew p = .ok handle.place ∧ t.refusal? handle.place = none ∧
      (¬ t.IsDevice handle.place ∧ (∃ content, t.WithFile handle.place handle.number content t') ∨
        t.IsDevice handle.place ∧ t' = t) := by
  cases hlocate : t.locateNew p with
  | error fault =>
    rw [openNew, hlocate] at h
    cases h
  | ok place =>
    obtain ⟨-, -, -, hdirectory, -⟩ := exists_reaches_of_locateNew hlocate
    have hallowed := (exists_openNew_iff.1 ⟨handle, t', h⟩).allowed hlocate
    rcases hnode : t.node? place with _ | _ | ⟨number, content⟩ | _ | _
    · rw [openNew_of_none hlocate hallowed hnode] at h
      cases h
      exact ⟨rfl, hallowed,
        .inl ⟨by simp [IsDevice, hnode], [], withFile_create hdirectory []⟩⟩
    · exact absurd hnode hdirectory
    · rw [HasFile.openNew ⟨hlocate, hnode⟩ hallowed] at h
      cases h
      exact ⟨rfl, hallowed, .inl ⟨by simp [IsDevice, hnode], content, withFile_self hnode⟩⟩
    all_goals
      rw [openNew, hlocate] at h
      simp only [bind, Except.bind, hallowed, hnode] at h
      cases h
      simp [IsDevice, hallowed, hnode]

/-- Opening a file leaves every file that was there. -/
theorem HasFile.of_openNew {t t' : Tree} {p q : Path} {place : Location} {number : Nat}
    {content : List UInt8} {handle : Handle} (h : t.HasFile p place number content)
    (hopen : t.openNew q = .ok (handle, t')) : t'.HasFile p place number content := by
  obtain ⟨hplace, hallowed, ⟨-, old, hfile⟩ | ⟨-, rfl⟩⟩ := of_openNew_eq_ok hopen
  · by_cases hsame : place = handle.place
    · -- the file was there, so that nothing was created
      subst hsame
      have hself := HasFile.openNew ⟨hplace, h.node⟩ hallowed
      obtain ⟨-, rfl⟩ := Prod.mk.inj (Except.ok.inj (hself.symm.trans hopen))
      exact h
    · exact h.of_withFile hfile hsame
  · exact h

variable {t t' : Tree} {place : Location} {number : Nat} {content : List UInt8}

/-- What is opened at the path is a regular file, which has the given content then: that of before,
or none if the file is new. -/
def Opens (t : Tree) (p : Path) (content : List UInt8) : Prop :=
  ∃ place number t', t.openNew p = .ok (⟨place, number⟩, t') ∧ t.locateNew p = .ok place ∧
    t.WithFile place number content t'

theorem opens_of_none {p : Path} (h : t.locateNew p = .ok place) (hwritable : t.Writable p)
    (hnone : t.node? place = none) : t.Opens p [] :=
  ⟨place, t.fresh, _, openNew_of_none h (hwritable.allowed h) hnone, h,
    withFile_create (by rw [hnone]; simp) []⟩

theorem HasFile.opens {p : Path} (h : t.HasFile p place number content)
    (hwritable : t.Writable p) : t.Opens p content :=
  ⟨place, number, t, h.openNew (hwritable.allowed h.located), h.located, withFile_self h.node⟩

theorem Opens.writable {p : Path} (h : t.Opens p content) : t.Writable p := by
  obtain ⟨place, number, t', hopen, -⟩ := h
  exact exists_openNew_iff.1 ⟨_, t', hopen⟩

theorem WithFile.truncate (h : t.WithFile place number content t') :
    t.WithFile place number [] (t'.truncate ⟨place, number⟩) := by
  have htruncate : t'.truncate ⟨place, number⟩ = t'.set (.file place number []) := by
    simp only [Tree.truncate, h.node, if_true]
  rw [htruncate]
  exact h.trans (withFile_set (by rw [h.node]; simp) number [])

theorem WithFile.appendTo (h : t.WithFile place number content t') (bytes : List UInt8) :
    ∃ t'', t'.appendTo ⟨place, number⟩ bytes = .ok t'' ∧
      t.WithFile place number (content ++ bytes) t'' := by
  refine ⟨t'.set (.file place number (content ++ bytes)), ?_, ?_⟩
  · simp only [Tree.appendTo, h.node, if_true]
  · exact h.trans (withFile_set (by rw [h.node]; simp) number (content ++ bytes))

end CacheDelay.Files.Tree

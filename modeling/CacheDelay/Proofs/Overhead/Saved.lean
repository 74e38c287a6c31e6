import CacheDelay.Proofs.Files.Rewritten
import CacheDelay.Proofs.Overhead.Loaded
import CacheDelay.Proofs.Text.Numeral

/-!
# Saving overheads over and over

The files of a trace's localities are different files (`not_denotes_savedPath`), and a save writes
those of the localities present. After a sequence of saves each file therefore has the values of the
last save that had its locality (`savedValues?_of_mapM_save`). A load takes the files as they are, so
that the shared-L2 values can be those of an earlier save than the others, and are exactly if the
last save had none and an earlier one had some (`load_after_saves`).
-/

namespace CacheDelay.Overheads

open CacheDelay.Files CacheDelay.Files.Tree CacheDelay.Text CacheDelay.Topology

variable {t : Tree} {w w' : World} {trace p a b : Path} {l l' : Locality} {place : Location}
  {entry : Locality × List Int64} {bytes content : List UInt8}

/-! ## Names of the files -/

/-- The name of the file for the overheads of `trace` with locality `l`. -/
def savedName (trace : Path) (l : Locality) : List Char :=
  trace.stem ++ '_' :: l.label.toList ++ ".vbin".toList

theorem slash_not_mem_savedName (trace : Path) (l : Locality) : '/' ∉ savedName trace l := by
  have hlabel : '/' ∉ '_' :: l.label.toList := by cases l <;> decide
  rw [savedName, List.mem_append, List.mem_append]
  rintro ((hstem | hmem) | hmem)
  · exact not_mem_stem trace hstem
  · exact hlabel hmem
  · exact absurd hmem (by decide)

/-- The files of two traces have one name if the traces have one stem and the localities are the
same. -/
theorem savedName_inj {a b : Path} :
    savedName a l = savedName b l' ↔ a.stem = b.stem ∧ l = l' := by
  have hlabel (l : Locality) : '_' ∉ l.label.toList ++ ".vbin".toList := by cases l <;> decide
  have hlabels : l.label.toList ++ ".vbin".toList = l'.label.toList ++ ".vbin".toList ↔ l = l' := by
    cases l <;> cases l' <;> decide
  simp only [savedName, List.append_assoc, List.cons_append]
  rw [append_cons_inj (hlabel l) (hlabel l'), hlabels]

theorem savedName_eq (trace : Path) (l : Locality) :
    savedName trace l = (trace.stem ++ '_' :: l.label.toList) ++ '.' :: "vbin".toList := rfl

theorem savedName_proper (trace : Path) (l : Locality) :
    savedName trace l ∉ [[], ['.'], ['.', '.']] := by
  rw [savedName_eq]
  exact not_mem_of_extension (by simp) (by decide)

theorem isEntryName_savedName (trace : Path) (l : Locality) :
    IsEntryName (String.ofList (savedName trace l)) := by
  rw [isEntryName_iff, String.toList_ofList]
  exact savedName_proper trace l

/-- The files of a trace are reached by the same steps up to their names. -/
theorem steps_savedPath (t : Tree) (trace : Path) : ∃ start front, ∀ l,
    t.steps (savedPath trace l) = (start, front ++ [String.ofList (savedName trace l)]) := by
  obtain ⟨start, front, hsteps⟩ := steps_underText t trace.directory
  exact ⟨start, front, fun l => hsteps _ (slash_not_mem_savedName trace l)⟩

/-- The file of a locality has the locality's name. -/
theorem getLast?_of_locate (h : t.locate (savedPath trace l) = .ok place) :
    place.getLast? = some (String.ofList (savedName trace l)) := by
  obtain ⟨start, front, hsteps⟩ := steps_savedPath t trace
  have hwalk := (locate_eq_ok_iff.1 h).2
  rw [hsteps] at hwalk
  exact getLast?_of_walk (isEntryName_savedName trace l) hwalk

/-- The files of a trace stand in one directory. -/
theorem exists_directory (t : Tree) (trace : Path) : ∃ parent, ∀ l place,
    t.locateNew (savedPath trace l) = .ok place →
      place = parent ++ [String.ofList (savedName trace l)] := by
  obtain ⟨parent, hparent⟩ := exists_parent_of_underText t trace.directory
  exact ⟨parent, fun l place => hparent _ place (slash_not_mem_savedName trace l)⟩

/-- No device has the name of a saved file. -/
theorem not_isDevice (h : t.locateNew (savedPath trace l) = .ok place) : ¬ t.IsDevice place := by
  obtain ⟨parent, hparent⟩ := exists_directory t trace
  have hlast : place.getLast? = some (String.ofList (savedName trace l)) := by
    rw [hparent l place h, List.getLast?_concat]
  refine not_isDevice_of_getLast? hlast ?_
  have hend : (savedName trace l).getLast? = some 'n' := by
    rw [savedName, List.getLast?_append]
    rfl
  simp only [List.mem_cons, List.not_mem_nil, or_false, ← String.toList_inj, String.toList_ofList]
  rintro (hname | hname) <;> rw [hname] at hend <;> cases hend

/-- What is read from a saved file is the content of a regular file, which stands where it would be
written. -/
theorem exists_hasFile_of_read (h : t.read (savedPath trace l) = .ok bytes) :
    ∃ place number, t.HasFile (savedPath trace l) place number bytes := by
  obtain ⟨place, hplace, hall⟩ := read_eq_ok_iff.1 h
  obtain ⟨start, front, hsteps⟩ := steps_savedPath t trace
  obtain ⟨hchecked, hwalk⟩ := locate_eq_ok_iff.1 hplace
  have hproper := isEntryName_savedName trace l
  have hpath := hsteps l
  generalize String.ofList (savedName trace l) = name at hproper hpath
  rw [hpath] at hwalk
  obtain ⟨parent, hparent, hwalk⟩ := walk_append_eq_ok_iff.1 hwalk
  obtain ⟨hdirectory, next, hleads, hnext⟩ := walk_cons_eq_ok_iff.1 hwalk
  cases hnext
  cases hleads with
  | stay hstay => exact absurd hstay (not_or.2 ⟨hproper.1, hproper.2.1⟩)
  | up => exact absurd rfl hproper.2.2
  | down _ hshort _ =>
    have hreaches : t.Reaches (savedPath trace l) parent name := {
      checked := hchecked
      walked := ⟨front, by rw [hpath], by rw [hpath]; exact hparent⟩
      directory := hdirectory
      proper := hproper
      short := hshort }
    rcases contentAt_eq_ok_iff.1 (contentAt_of_allAt hall) with ⟨number, hnode⟩ | ⟨hdevice, -⟩
    · exact ⟨_, number, hreaches.locateNew (by rw [hnode]; simp), hnode⟩
    · have hlocated := hreaches.locateNew hdevice.notDirectory
      exact absurd hdevice (not_isDevice hlocated)

/-- One place is the file of one stem and one locality. -/
theorem inj_of_locateNew (ha : t.locateNew (savedPath a l) = .ok place)
    (hb : t.locateNew (savedPath b l') = .ok place) : a.stem = b.stem ∧ l = l' := by
  obtain ⟨parent, hparent⟩ := exists_directory t a
  obtain ⟨parent', hparent'⟩ := exists_directory t b
  have hplace := (hparent l place ha).symm.trans (hparent' l' place hb)
  have hname := (List.cons.inj (List.append_inj' hplace rfl).2).1
  exact savedName_inj.1 (String.ofList_injective hname)

/-- The file of one locality is denoted by no path of another one. -/
theorem not_denotes_savedPath {l' : Locality} (h : t.locateNew (savedPath trace l) = .ok place)
    (hne : l' ≠ l) : ¬ t.Denotes (savedPath trace l') place := by
  rintro (hlocate | hnew)
  · obtain ⟨parent, hparent⟩ := exists_directory t trace
    have hlast := getLast?_of_locate hlocate
    rw [hparent l place h, List.getLast?_concat] at hlast
    exact hne (savedName_inj.1 (String.ofList_injective (Option.some.inj hlast))).2.symm
  · exact hne (inj_of_locateNew hnew h).2

/-! ## What is saved -/

theorem replaceFile_of_ok {handle : Handle} {opened files : Tree}
    (hopened : w.files.openNew p = .ok (handle, opened))
    (happend : (opened.truncate handle).appendTo handle content = .ok files) :
    replaceFile p content w = (.ok (), { w with files }) := by
  have hopen := Action.within_of_ok (Action.openNew_of_ok hopened) (.openForWriting p)
  have hempty : Action.update (fun t => .ok (t.truncate handle)) { w with files := opened } =
      (.ok (), { w with files := opened.truncate handle }) := Action.update_of_ok rfl
  rw [replaceFile, Action.bind_of_ok hopen, Action.bind_of_ok hempty]
  exact Action.within_of_ok (Action.update_of_ok happend) (.writeFile p)

theorem replaceFile_of_error {fault : FileFault} (h : w.files.openNew p = .error fault)
    (content : List UInt8) : replaceFile p content w =
      (.error ((Cause.file fault).failure.within (.openForWriting p)), w) := by
  rw [replaceFile, Action.bind_of_error (Action.within_of_error (Action.openNew_of_error h) _)]

/-- The file of a locality takes its values if it can be written, and nothing else is changed then.
Otherwise it cannot be opened, and nothing is changed at all. -/
theorem saveEntry_cases (trace : Path) (entry : Locality × List Int64) (w : World) :
    let path := savedPath trace entry.1
    (w.files.Writable path ∧ ∃ place number files, w.files.locateNew path = .ok place ∧
      w.files.WithFile place number (encode entry.2) files ∧
      saveEntry trace entry w = (.ok path, { w with files })) ∨
    ¬ w.files.Writable path ∧ ∃ fault, saveEntry trace entry w =
      (.error ((Cause.file fault).failure.within (.openForWriting path)), w) := by
  intro path
  cases hopened : w.files.openNew path with
  | error fault =>
    refine .inr ⟨fun hwritable => ?_, fault, ?_⟩
    · obtain ⟨handle, opened, hok⟩ := exists_openNew_iff.2 hwritable
      cases hopened.symm.trans hok
    · rw [saveEntry, Action.bind_of_error (replaceFile_of_error hopened _)]
  | ok opened =>
    obtain ⟨handle, opened⟩ := opened
    obtain ⟨hplace, hallowed, ⟨-, old, hfile⟩ | ⟨hdevice, -⟩⟩ := of_openNew_eq_ok hopened
    · obtain ⟨files, happend, hfiles⟩ := hfile.truncate.appendTo (encode entry.2)
      refine .inl ⟨⟨handle.place, hplace, hallowed⟩, handle.place, handle.number, files, hplace,
        hfiles, ?_⟩
      rw [saveEntry, Action.bind_of_ok (replaceFile_of_ok hopened happend)]
      rfl
    · exact absurd hdevice (not_isDevice hplace)

theorem of_saveEntry_eq_ok {path : Path} (h : saveEntry trace entry w = (.ok path, w')) :
    ∃ place number, w.files.locateNew (savedPath trace entry.1) = .ok place ∧
      w.files.WithFile place number (encode entry.2) w'.files := by
  obtain ⟨-, place, number, files, hplace, hfile, hsave⟩ | ⟨-, fault, hsave⟩ :=
    saveEntry_cases trace entry w
  · cases hsave.symm.trans h
    exact ⟨place, number, hplace, hfile⟩
  · cases hsave.symm.trans h

/-- Saving the values of one locality leaves those of the others. -/
theorem savedValues?_of_saveEntry {path : Path} (h : saveEntry trace entry w = (.ok path, w'))
    (l : Locality) : savedValues? w'.files trace l =
      if l = entry.1 then some entry.2 else savedValues? w.files trace l := by
  obtain ⟨place, number, hplace, hfile⟩ := of_saveEntry_eq_ok h
  by_cases hl : l = entry.1
  · rw [if_pos hl, hl]
    exact savedValues?_of_read (hfile.keeps hplace).read
  · rw [if_neg hl]
    have honly : w.files.RewritesOnly (· = place) w'.files := hfile.rewritesOnly rfl
    refine savedValues?_congr (honly.read_iff ?_)
    rintro _ rfl
    exact not_denotes_savedPath hplace hl

/-- The values of the last of `saves` that has the locality. -/
def latest? (saves : List Overheads) (l : Locality) : Option (List Int64) :=
  (saves.filterMap (·.get? l)).getLast?

theorem latest?_append (saves rest : List Overheads) (l : Locality) :
    latest? (saves ++ rest) l = (latest? rest l).or (latest? saves l) := by
  rw [latest?, List.filterMap_append, List.getLast?_append]
  rfl

theorem latest?_singleton (o : Overheads) (l : Locality) : latest? [o] l = o.get? l := by
  rw [latest?, List.filterMap_cons]
  cases o.get? l <;> rfl

theorem mem_toList {o : Overheads} {l : Locality} {values : List Int64} :
    (l, values) ∈ o.toList ↔ o.get? l = some values := by
  rw [toList, List.mem_filterMap]
  constructor
  · rintro ⟨l', -, hvalues⟩
    obtain ⟨values', hget, hpair⟩ := Option.map_eq_some_iff.1 hvalues
    cases hpair
    exact hget
  · intro hget
    exact ⟨l, by cases l <;> decide, by rw [hget, Option.map_some]⟩

/-- The entries of overheads replace the values of their localities. -/
theorem foldl_toList (o : Overheads) (saved? : Locality → Option (List Int64)) :
    (o.toList.foldl (fun saved? entry l => if l = entry.1 then some entry.2 else saved? l) saved?) =
      fun l => (o.get? l).or (saved? l) := by
  obtain ⟨sameCpu, sameL2?, sameChip, offChip⟩ := o
  funext l
  cases sameL2? <;> cases l <;> rfl

/-- A save changes the values of the localities present. -/
theorem savedValues?_of_save {o : Overheads} {written : List Path}
    (h : o.save trace w = (.ok written, w')) (l : Locality) :
    savedValues? w'.files trace l = (o.get? l).or (savedValues? w.files trace l) := by
  have hentries := Action.foldl_of_mapM_eq_ok
    (fun v saved? => savedValues? v.files trace = saved?)
    (fun saved? entry l => if l = entry.1 then some entry.2 else saved? l)
    (fun entry v saved? path v' hv hsave => ?_) rfl h
  · rw [hentries, foldl_toList]
  · subst hv
    exact funext (savedValues?_of_saveEntry hsave)

/-- After a sequence of saves the files have the values of the last save that had them. -/
theorem savedValues?_of_mapM_save {saves : List Overheads} {written : List (List Path)}
    (h : saves.mapM (·.save trace) w = (.ok written, w')) (l : Locality) :
    savedValues? w'.files trace l = (latest? saves l).or (savedValues? w.files trace l) := by
  refine Action.mapM_induction (fun v done _ => savedValues? v.files trace l =
    (latest? done l).or (savedValues? w.files trace l)) ?_ [] [] rfl h
  rintro o - done _ v path v' hv hsave
  rw [savedValues?_of_save hsave, hv, latest?_append, latest?_singleton, Option.or_assoc]

/-- From a directory without saved files, the values are those of the last save that had them. -/
theorem savedValues?_eq_latest? {saves : List Overheads} {written : List (List Path)}
    (hnone : ∀ l bytes, w.files.read (savedPath trace l) ≠ .ok bytes)
    (h : saves.mapM (·.save trace) w = (.ok written, w')) (l : Locality) :
    savedValues? w'.files trace l = latest? saves l := by
  have hbefore : savedValues? w.files trace l = none := by
    refine Option.eq_none_iff_forall_ne_some.2 fun values hvalues => ?_
    obtain ⟨bytes, hread, -⟩ := savedValues?_eq_some_iff.1 hvalues
    exact hnone l bytes hread
  rw [savedValues?_of_mapM_save h, hbefore, Option.or_none]

/-! ## What is loaded -/

theorem latest?_eq_none_iff {saves : List Overheads} :
    latest? saves l = none ↔ ∀ o ∈ saves, o.get? l = none := by
  rw [latest?, List.getLast?_eq_none_iff, List.filterMap_eq_nil_iff]

/-- The last save that had the locality is the last one if that had it. -/
theorem latest?_of_getLast? {saves : List Overheads} {last : Overheads}
    (h : saves.getLast? = some last) (hl : last.get? l ≠ none) : latest? saves l = last.get? l := by
  obtain ⟨before, rfl⟩ := List.getLast?_eq_some_iff.1 h
  obtain ⟨values, hvalues⟩ := Option.ne_none_iff_exists'.1 hl
  rw [latest?_append, latest?_singleton, hvalues, Option.some_or]

theorem get?_ne_none (o : Overheads) (hl : l ≠ .sameL2) : o.get? l ≠ none := by
  cases l with
  | sameL2 => exact absurd rfl hl
  | sameCpu | sameChip | offChip => nofun

theorem get?_withSameL2 (o : Overheads) (values? : Option (List Int64)) (hl : l ≠ .sameL2) :
    ({ o with sameL2? := values? } : Overheads).get? l = o.get? l := by
  cases l with
  | sameL2 => exact absurd rfl hl
  | sameCpu | sameChip | offChip => rfl

theorem eq_of_get? {o o' : Overheads} (h : ∀ l, o.get? l = o'.get? l) : o = o' := by
  obtain ⟨sameCpu, sameL2?, sameChip, offChip⟩ := o
  cases Option.some.inj (h .sameCpu)
  cases show sameL2? = _ from h .sameL2
  cases Option.some.inj (h .sameChip)
  cases Option.some.inj (h .offChip)
  rfl

/-- A load gives what was saved last, and the latest of all shared-L2 values if they are asked for.
-/
theorem load_latest_iff {saves : List Overheads} {hasL2 : Bool} {o : Overheads}
    (h : ∀ l, savedValues? w.files trace l = latest? saves l) :
    (load trace hasL2 w).1 = .ok o ↔
      ∃ last, saves.getLast? = some last ∧ (hasL2 = true → (latest? saves .sameL2).isSome) ∧
        o = { last with sameL2? := if hasL2 then latest? saves .sameL2 else none } := by
  simp only [fst_load_eq_ok_iff, h]
  constructor
  · rintro ⟨rfl, hvalues⟩
    cases hlast : saves.getLast? with
    | none =>
      have hlatest := hvalues .sameCpu o.sameCpu rfl
      rw [List.getLast?_eq_none_iff.1 hlast] at hlatest
      cases hlatest
    | some last =>
      refine ⟨last, rfl, fun hsome => ?_, eq_of_get? fun l => ?_⟩
      · obtain ⟨values, hget⟩ := Option.isSome_iff_exists.1 hsome
        rw [hvalues .sameL2 values hget]
        rfl
      by_cases hl : l = .sameL2
      · subst hl
        show o.sameL2? = if o.sameL2?.isSome then latest? saves .sameL2 else none
        cases hget : o.sameL2? with
        | none => rfl
        | some values => exact (hvalues .sameL2 values hget).symm
      · obtain ⟨values, hget⟩ := Option.ne_none_iff_exists'.1 (get?_ne_none o hl)
        rw [get?_withSameL2 last _ hl, ← latest?_of_getLast? hlast (get?_ne_none last hl),
          hvalues l values hget, hget]
  · rintro ⟨last, hlast, hsome, rfl⟩
    constructor
    · cases hasL2 with
      | false => rfl
      | true => exact hsome rfl
    · intro l values hget
      by_cases hl : l = .sameL2
      · subst hl
        exact (Option.ite_none_right_eq_some.1 hget).2
      · rw [latest?_of_getLast? hlast (get?_ne_none last hl), ← get?_withSameL2 last _ hl, hget]

/-- All values that a load gives were saved last exactly if the shared-L2 values are not asked for,
or were saved last, or were never saved. -/
theorem forall_get?_load_iff {saves : List Overheads} {hasL2 : Bool}
    (h : ∀ l, savedValues? w.files trace l = latest? saves l) :
    (∀ o l values, (load trace hasL2 w).1 = .ok o → o.get? l = some values →
        ∃ last, saves.getLast? = some last ∧ last.get? l = some values) ↔
      hasL2 = false ∨ (∃ last, saves.getLast? = some last ∧ last.sameL2? ≠ none) ∨
        ∀ o ∈ saves, o.sameL2? = none := by
  constructor
  · intro hall
    cases hasL2 with
    | false => exact .inl rfl
    | true =>
      by_cases hsaved : ∀ o ∈ saves, o.sameL2? = none
      · exact .inr (.inr hsaved)
      refine .inr (.inl ?_)
      have hlatest : latest? saves .sameL2 ≠ none := mt latest?_eq_none_iff.1 hsaved
      obtain ⟨values, hlatest⟩ := Option.ne_none_iff_exists'.1 hlatest
      obtain ⟨last, hlast⟩ : ∃ last, saves.getLast? = some last := by
        refine Option.ne_none_iff_exists'.1 fun hnil => hsaved ?_
        rw [List.getLast?_eq_none_iff.1 hnil]
        nofun
      -- the load succeeds then, whichever save these values are of
      have hload : (load trace true w).1 = .ok { last with sameL2? := some values } :=
        (load_latest_iff h).2 ⟨last, hlast, fun _ => by rw [hlatest]; rfl, by rw [hlatest]; rfl⟩
      obtain ⟨last', hlast', hget⟩ := hall _ .sameL2 values hload rfl
      exact ⟨last', hlast', Option.ne_none_iff_exists'.2 ⟨values, hget⟩⟩
  · intro hcond o l values hload hget
    obtain ⟨last, hlast, -, rfl⟩ := (load_latest_iff h).1 hload
    refine ⟨last, hlast, ?_⟩
    by_cases hl : l = .sameL2
    · subst hl
      cases hasL2 with
      | false => cases hget
      | true =>
        rcases hcond with hfalse | ⟨last', hlast', hsome⟩ | hnone
        · cases hfalse
        · cases hlast.symm.trans hlast'
          have hlatest : latest? saves .sameL2 = last.get? .sameL2 :=
            latest?_of_getLast? hlast hsome
          rw [← hlatest]
          exact hget
        · cases (latest?_eq_none_iff.2 hnone).symm.trans hget
    · rwa [get?_withSameL2 last _ hl] at hget

/-- A world without files. -/
def emptyWorld : World :=
  { files := { workingDirectory := [], entries := [] }, warnings := [], output := "" }

theorem read_emptyWorld (l : Locality) (bytes : List UInt8) :
    emptyWorld.files.read (savedPath ⟨"pm.raw"⟩ l) ≠ .ok bytes := by
  have hread : emptyWorld.files.read (savedPath ⟨"pm.raw"⟩ l) = .error .notFound := by
    cases l <;> rfl
  rw [hread]
  nofun

/-- After a sequence of saves a load gives what the last one saved, except that the shared-L2 values
are those of the last save that had any, if they are asked for. All values are therefore those of
the last save exactly if they are not asked for, or the last save had some, or none had. -/
theorem load_after_saves {saves : List Overheads} {written : List (List Path)}
    (hnone : ∀ l bytes, w.files.read (savedPath trace l) ≠ .ok bytes)
    (hsaves : saves.mapM (·.save trace) w = (.ok written, w')) (hasL2 : Bool) :
    (∀ o, (load trace hasL2 w').1 = .ok o ↔
      ∃ last, saves.getLast? = some last ∧ (hasL2 = true → (latest? saves .sameL2).isSome) ∧
        o = { last with sameL2? := if hasL2 then latest? saves .sameL2 else none }) ∧
    ((∀ o l values, (load trace hasL2 w').1 = .ok o → o.get? l = some values →
        ∃ last, saves.getLast? = some last ∧ last.get? l = some values) ↔
      hasL2 = false ∨ (∃ last, saves.getLast? = some last ∧ last.sameL2? ≠ none) ∨
        ∀ o ∈ saves, o.sameL2? = none) := by
  have hlatest := savedValues?_eq_latest? hnone hsaves
  exact ⟨fun o => load_latest_iff hlatest, forall_get?_load_iff hlatest⟩

/-- Two saves with shared-L2 values: all values are those of the second. -/
theorem load_after_full_saves :
    let first : Overheads := ⟨[1], some [2], [], [-7]⟩
    let last : Overheads := ⟨[3, 4], some [5], [6], []⟩
    ∃ written w',
      (∀ l bytes, emptyWorld.files.read (savedPath ⟨"pm.raw"⟩ l) ≠ .ok bytes) ∧
      [first, last].mapM (·.save ⟨"pm.raw"⟩) emptyWorld = (.ok written, w') ∧
      (load ⟨"pm.raw"⟩ true w').1 = .ok last := by
  intro first last
  have hsucceeds : ([first, last].mapM (·.save ⟨"pm.raw"⟩) emptyWorld).1.isOk := by decide +kernel
  obtain ⟨written, w', hsaves⟩ := Action.exists_of_isOk hsucceeds
  have hload := ((load_after_saves read_emptyWorld hsaves true).1 last).2
    ⟨last, rfl, fun _ => rfl, rfl⟩
  exact ⟨written, w', read_emptyWorld, hsaves, hload⟩

/-- The last save has no shared-L2 values, and a load that asks for some gives those of the first.
-/
theorem load_after_partial_save :
    let first : Overheads := ⟨[1], some [2], [], []⟩
    let last : Overheads := ⟨[3], none, [], []⟩
    ∃ written w',
      (∀ l bytes, emptyWorld.files.read (savedPath ⟨"pm.raw"⟩ l) ≠ .ok bytes) ∧
      [first, last].mapM (·.save ⟨"pm.raw"⟩) emptyWorld = (.ok written, w') ∧
      (load ⟨"pm.raw"⟩ true w').1 = .ok ⟨[3], some [2], [], []⟩ := by
  intro first last
  have hsucceeds : ([first, last].mapM (·.save ⟨"pm.raw"⟩) emptyWorld).1.isOk := by decide +kernel
  obtain ⟨written, w', hsaves⟩ := Action.exists_of_isOk hsucceeds
  have hlatest := savedValues?_eq_latest? read_emptyWorld hsaves
  have hload : (load ⟨"pm.raw"⟩ true w').1 = .ok ⟨[3], some [2], [], []⟩ :=
    (load_latest_iff hlatest).2 ⟨last, rfl, fun _ => rfl, rfl⟩
  exact ⟨written, w', read_emptyWorld, hsaves, hload⟩

end CacheDelay.Overheads

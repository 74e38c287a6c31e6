import CacheDelay.Proofs.Actions
import CacheDelay.Proofs.Bytes
import CacheDelay.Proofs.Files.Appended
import CacheDelay.Proofs.Report.Params
import CacheDelay.Report.Table

/-!
# Rows appended to tables

Each working set size and locality has a table of its own, since neither can be mistaken for another
one in its name (`tableOf_inj`, `eq_of_locateNew_table`). A row that is appended is added to its table
and to no other file (`exists_appendRow`), so that a report adds to each table the row that it has for
it, if any (`exists_appendRows`).
-/

namespace CacheDelay.Report

open CacheDelay.Files CacheDelay.Files.Tree CacheDelay.Text CacheDelay.Topology

variable {t t' t'' : Tree} {w : World} {dir : Path} {size size' : String} {l l' : Locality}
  {place : Location} {r : Report} {rows rows' : String → Locality → List String}

/-! ## Names of tables -/

/-- The working set size in the name of a trace, as the names of tables have it. -/
def workingSet (r : Report) : String := (r.params.get? "wss").getD "unknown"

/-- The name of the table for a working set size and a locality. -/
def tableOf (size : String) (l : Locality) : String :=
  "pm_wss=" ++ size ++ "_ovd=" ++ l.label ++ ".csv"

/-- The path of the table in `dir` for a working set size and a locality. -/
def tablePath (dir : Path) (size : String) (l : Locality) : Path := dir.child (tableOf size l)

theorem toList_tableOf (size : String) (l : Locality) : (tableOf size l).toList =
    ("pm_wss=".toList ++ size.toList) ++ '_' :: ("ovd=" ++ l.label ++ ".csv").toList := by
  simp [tableOf]

theorem tableOf_inj : tableOf size l = tableOf size' l' ↔ size = size' ∧ l = l' := by
  have hlabel (l : Locality) : '_' ∉ ("ovd=" ++ l.label ++ ".csv").toList := by
    cases l <;> decide
  have hlabels : ("ovd=" ++ l.label ++ ".csv").toList = ("ovd=" ++ l'.label ++ ".csv").toList ↔
      l = l' := by
    cases l <;> cases l' <;> decide
  rw [← String.toList_inj, toList_tableOf, toList_tableOf, append_cons_inj (hlabel l) (hlabel l'),
    hlabels, List.append_cancel_left_eq, String.toList_inj]

theorem slash_not_mem_tableOf (h : '/' ∉ size.toList) (l : Locality) :
    '/' ∉ (tableOf size l).toList := by
  have hlabel : '/' ∉ '_' :: ("ovd=" ++ l.label ++ ".csv").toList := by cases l <;> decide
  have hfront : '/' ∉ "pm_wss=".toList := by decide
  rw [toList_tableOf, List.mem_append, List.mem_append]
  exact not_or.2 ⟨not_or.2 ⟨hfront, h⟩, hlabel⟩

/-- The tables in `dir` stand in one directory. -/
theorem exists_parent_of_tablePath (t : Tree) (dir : Path) : ∃ parent, ∀ size l place,
    '/' ∉ size.toList → t.locateNew (tablePath dir size l) = .ok place →
      place = parent ++ [tableOf size l] := by
  obtain ⟨parent, hparent⟩ := exists_parent_of_underText t dir.text.toList
  refine ⟨parent, fun size l place hsize hplace => ?_⟩
  rw [hparent _ place (slash_not_mem_tableOf hsize l) hplace, String.ofList_toList]

/-- No device has the name of a table. -/
theorem not_isDevice_table (hsize : '/' ∉ size.toList)
    (h : t.locateNew (tablePath dir size l) = .ok place) : ¬ t.IsDevice place := by
  obtain ⟨parent, hparent⟩ := exists_parent_of_tablePath t dir
  have hlast : place.getLast? = some (tableOf size l) := by
    rw [hparent size l place hsize h, List.getLast?_concat]
  refine not_isDevice_of_getLast? hlast ?_
  have hhead : (tableOf size l).toList.head? = some 'p' := by
    rw [toList_tableOf]
    rfl
  simp only [List.mem_cons, List.not_mem_nil, or_false]
  rintro (hname | hname) <;> rw [hname] at hhead <;> cases hhead

/-- One place is the table of one working set size and one locality. -/
theorem eq_of_locateNew_table (hsize : '/' ∉ size.toList) (hsize' : '/' ∉ size'.toList)
    (h : t.locateNew (tablePath dir size l) = .ok place)
    (h' : t.locateNew (tablePath dir size' l') = .ok place) : size = size' ∧ l = l' := by
  obtain ⟨parent, hparent⟩ := exists_parent_of_tablePath t dir
  have hplace := (hparent size l place hsize h).symm.trans (hparent size' l' place hsize' h')
  exact tableOf_inj.1 (List.cons.inj (List.append_inj' hplace rfl).2).1

/-! ## Tables with rows added -/

/-- The bytes of a line. -/
def lineBytes (line : String) : List UInt8 := (line ++ "\n").toUTF8.toList

/-- The bytes of lines. -/
def linesBytes (lines : List String) : List UInt8 := lines.flatMap lineBytes

theorem lineBytes_ne_nil (line : String) : lineBytes line ≠ [] := by
  refine toList_toUTF8_ne_nil ?_
  rw [String.utf8ByteSize_append]
  exact Nat.ne_of_gt (Nat.add_pos_right _ (by decide))

/-- `t'` is `t` with rows added to the tables in `dir`, and nothing else. -/
structure Tabulated (dir : Path) (rows : String → Locality → List String) (t t' : Tree) : Prop where
  places : t.SamePlaces t'
  tables : ∀ size l place, '/' ∉ size.toList → t.locateNew (tablePath dir size l) = .ok place →
    Appended (t.node? place) (linesBytes (rows size l)) (t'.node? place)
  others : ∀ place, (∀ size l, '/' ∉ size.toList → rows size l ≠ [] →
    t.locateNew (tablePath dir size l) ≠ .ok place) → t'.node? place = t.node? place

theorem Tabulated.refl (dir : Path) (t : Tree) : Tabulated dir (fun _ _ => []) t t where
  places := .refl t
  tables _ _ _ _ _ := .nothing _
  others _ _ := rfl

theorem Tabulated.trans (h : Tabulated dir rows t t') (h' : Tabulated dir rows' t' t'') :
    Tabulated dir (fun size l => rows size l ++ rows' size l) t t'' where
  places := h.places.trans h'.places
  tables size l place hsize hplace := by
    have hfirst := h.tables size l place hsize hplace
    have hsecond := h'.tables size l place hsize ((h.places.locateNew_iff _ _).2 hplace)
    rw [linesBytes, List.flatMap_append]
    exact hfirst.trans hsecond
  others place hplace := by
    have hfirst := h.others place fun size l hsize hrows =>
      hplace size l hsize (List.append_ne_nil_of_left_ne_nil hrows _)
    rw [← hfirst]
    refine h'.others place fun size l hsize hrows => ?_
    rw [ne_eq, h.places.locateNew_iff]
    exact hplace size l hsize (List.append_ne_nil_of_right_ne_nil _ hrows)

/-! ## Reports with tables -/

/-- The working set size of the report can stand in the name of a file, and the report has one entry
a locality. -/
structure Tabular (r : Report) : Prop where
  workingSet : '/' ∉ r.workingSet.toList
  distinct : (r.entries.map (·.locality)).Nodup

theorem slash_not_mem_workingSet (h : r.params = Params.ofName r.trace) :
    '/' ∉ r.workingSet.toList := by
  rw [workingSet, Params.get?, h]
  cases hentry : (Params.ofName r.trace).find? (·.1 == "wss") with
  | none => decide
  | some entry => exact (Params.isKey_isValue_of_mem_ofName (List.mem_of_find?_eq_some hentry)).2.2

theorem tabular_ofOverheads (trace : Path) (o : Overheads) (extraction? : Option Overhead.Extraction)
    (caps : Limits) (config : Config) :
    (ofOverheads trace o extraction? caps config).Tabular where
  workingSet := slash_not_mem_workingSet rfl
  distinct := by
    show ((o.toList.map (Entry.ofValues config _)).map (·.locality)).Nodup
    rw [List.map_map]
    obtain ⟨sameCpu, sameL2?, sameChip, offChip⟩ := o
    cases sameL2? with
    | none => exact (by decide : [Locality.sameCpu, .sameChip, .offChip].Nodup)
    | some sameL2 => exact (by decide : Locality.all.Nodup)

/-! ## Rows of reports -/

/-- The rows of some entries of a report for a table. -/
def entryRows (r : Report) (entries : List Entry) (size : String) (l : Locality) : List String :=
  if r.workingSet = size then (entries.filter (·.locality = l)).map r.row else []

/-- The row of a report for a table, if it has the working set size and an entry with the
locality. -/
def row? (r : Report) (size : String) (l : Locality) : Option String :=
  if r.workingSet = size then (r.entries.find? (·.locality = l)).map r.row else none

/-- The tables in `dir` for the rows of a report can be opened and written. -/
def TakesRows (t : Tree) (dir : Path) (r : Report) : Prop :=
  ∀ e ∈ r.entries, t.Writable (tablePath dir r.workingSet e.locality)

theorem TakesRows.of_samePlaces (h : TakesRows t dir r) (hplaces : t.SamePlaces t') :
    TakesRows t' dir r := fun e he => (hplaces.writable_iff _).2 (h e he)

theorem entryRows_nil (r : Report) : r.entryRows [] = fun _ _ => [] := by
  funext size l
  simp [entryRows]

theorem entryRows_append (r : Report) (entries entries' : List Entry) (size : String)
    (l : Locality) : r.entryRows (entries ++ entries') size l =
      r.entryRows entries size l ++ r.entryRows entries' size l := by
  by_cases hsize : r.workingSet = size
  · simp only [entryRows, if_pos hsize, List.filter_append, List.map_append]
  · simp only [entryRows, if_neg hsize, List.append_nil]

/-- An entry of each locality is the only one. -/
theorem filter_eq_find? {entries : List Entry} (h : (entries.map (·.locality)).Nodup)
    (l : Locality) : entries.filter (·.locality = l) = (entries.find? (·.locality = l)).toList := by
  induction entries with
  | nil => rfl
  | cons e entries ih =>
    obtain ⟨he, hentries⟩ := List.nodup_cons.1 h
    by_cases hl : e.locality = l
    · have hnone : entries.filter (·.locality = l) = [] := by
        refine List.filter_eq_nil_iff.2 fun other hother heq => he ?_
        exact List.mem_map.2 ⟨other, hother, (of_decide_eq_true heq).trans hl.symm⟩
      simp [hl, hnone]
    · simp [hl, ih hentries]

theorem entryRows_entries (h : (r.entries.map (·.locality)).Nodup) :
    r.entryRows r.entries = fun size l => (r.row? size l).toList := by
  funext size l
  rw [entryRows, row?, filter_eq_find? h]
  split
  · cases r.entries.find? (·.locality = l) <;> rfl
  · rfl

/-- A row is added to its table. -/
theorem tabulated_of_appendedAt {e : Entry} (hsize : '/' ∉ r.workingSet.toList)
    (hplace : t.locateNew (tablePath dir r.workingSet e.locality) = .ok place)
    (h : t.AppendedAt place (lineBytes (r.row e)) t') :
    Tabulated dir (r.entryRows [e]) t t' where
  places := h.places
  tables size l other hsize' hother := by
    by_cases hsame : r.workingSet = size ∧ e.locality = l
    · obtain ⟨rfl, rfl⟩ := hsame
      cases hplace.symm.trans hother
      simpa [entryRows, linesBytes] using h.appended
    · have hne : other ≠ place := by
        rintro rfl
        exact hsame (eq_of_locateNew_table hsize hsize' hplace hother)
      have hrows : r.entryRows [e] size l = [] := by
        by_cases hws : r.workingSet = size
        · have hl : e.locality ≠ l := fun hl => hsame ⟨hws, hl⟩
          simp [entryRows, hl]
        · exact if_neg hws
      rw [hrows, h.others other hne]
      exact .nothing _
  others other hother := by
    refine h.others other ?_
    rintro rfl
    exact hother r.workingSet e.locality hsize (by simp [entryRows]) hplace

theorem exists_appendRow (w : World) {e : Entry} (hsize : '/' ∉ r.workingSet.toList)
    (h : w.files.Writable (tablePath dir r.workingSet e.locality)) :
    ∃ path files, r.appendRow dir e w = (.ok path, { w with files }) ∧
      Tabulated dir (r.entryRows [e]) w.files files := by
  have hwritable := h
  obtain ⟨place, hplace, -⟩ := h
  obtain ⟨handle, opened, files, hopened, happended, hafter⟩ :=
    exists_append hplace hwritable (not_isDevice_table hsize hplace) (lineBytes_ne_nil _)
  let path := tablePath dir r.workingSet e.locality
  have hopen : (Action.openNew path).within (.openTable path) w =
      (.ok handle, { w with files := opened }) :=
    Action.within_of_ok (Action.openNew_of_ok hopened) _
  have hwrite : (Action.update (·.appendTo handle (lineBytes (r.row e)))).within (.writeTable path)
      { w with files := opened } = (.ok (), { w with files }) :=
    Action.within_of_ok (Action.update_of_ok happended) _
  have hrun : r.appendRow dir e w = (.ok path, { w with files }) :=
    (Action.bind_of_ok hopen _).trans (Action.bind_of_ok hwrite _)
  exact ⟨path, files, hrun, tabulated_of_appendedAt hsize hplace hafter⟩

/-- A report adds its rows to the tables, if these take them. -/
theorem exists_appendRows (hr : r.Tabular) (h : TakesRows w.files dir r) :
    ∃ paths files, r.appendRows dir w = (.ok paths, { w with files }) ∧
      Tabulated dir (fun size l => (r.row? size l).toList) w.files files := by
  have hstep : ∀ e ∈ r.entries, ∀ done (found : List Path) v,
      (∃ files, v = { w with files } ∧ Tabulated dir (r.entryRows done) w.files files) →
        ∃ path v', r.appendRow dir e v = (.ok path, v') ∧ ∃ files, v' = { w with files } ∧
          Tabulated dir (r.entryRows (done ++ [e])) w.files files := by
    rintro e he done - - ⟨files, rfl, hdone⟩
    obtain ⟨path, files', hrow, hnext⟩ := exists_appendRow { w with files } hr.workingSet
      (h.of_samePlaces hdone.places e he)
    refine ⟨path, _, hrow, files', rfl, ?_⟩
    simpa only [← entryRows_append] using hdone.trans hnext
  obtain ⟨paths, w', hrun, files, rfl, hrows⟩ := Action.exists_mapM_of_step
    (fun v done _ => ∃ files, v = { w with files } ∧
      Tabulated dir (r.entryRows done) w.files files)
    hstep [] [] ⟨w.files, rfl, r.entryRows_nil ▸ .refl dir w.files⟩
  rw [List.nil_append, entryRows_entries hr.distinct] at hrows
  exact ⟨paths, files, hrun, hrows⟩

end CacheDelay.Report

import CacheDelay.Proofs.Overhead.Savable

/-!
# Saving what was loaded

A load asks for the values of all localities, or of all but the shared L2 level (`asked`), and
succeeds exactly if the file of each of these can be read and has a whole number of values
(`exists_load_iff`). What it gives are the same bytes again, which leave a file as it is
(`snd_saveEntry_eq_self`). Saving what was loaded therefore leaves the world as it is, even if a file
must not be written, and brings back the files of any other world (`load_then_save`).
-/

namespace CacheDelay.Overheads

open CacheDelay.Files CacheDelay.Files.Tree CacheDelay.Topology

variable {t : Tree} {w w' : World} {trace p : Path} {l : Locality} {o : Overheads} {hasL2 : Bool}
  {values : List Int64} {place : Location} {number : Nat} {content : List UInt8}

/-! ## Localities asked for -/

/-- The localities whose values are asked for, with or without a separate L2 level. -/
def asked (hasL2 : Bool) : List Locality :=
  Locality.all.filter fun l => l ≠ .sameL2 ∨ hasL2 = true

theorem mem_asked : l ∈ asked hasL2 ↔ (l = .sameL2 → hasL2 = true) := by
  cases hasL2 <;> cases l <;> decide

theorem map_fst_toList (o : Overheads) : o.toList.map Prod.fst = asked o.sameL2?.isSome := by
  obtain ⟨sameCpu, sameL2?, sameChip, offChip⟩ := o
  cases sameL2? <;> rfl

theorem exists_get?_iff : (∃ values, o.get? l = some values) ↔ l ∈ asked o.sameL2?.isSome := by
  simp only [← map_fst_toList, List.mem_map, Prod.exists, exists_and_right, exists_eq_right,
    mem_toList]

/-- Values for all localities that are asked for make overheads. -/
theorem exists_get? {values? : Locality → Option (List Int64)}
    (h : ∀ l ∈ asked hasL2, ∃ values, values? l = some values) :
    ∃ o : Overheads, o.sameL2?.isSome = hasL2 ∧
      ∀ l values, o.get? l = some values → values? l = some values := by
  obtain ⟨sameCpu, hsameCpu⟩ := h .sameCpu (mem_asked.2 nofun)
  obtain ⟨sameChip, hsameChip⟩ := h .sameChip (mem_asked.2 nofun)
  obtain ⟨offChip, hoffChip⟩ := h .offChip (mem_asked.2 nofun)
  obtain ⟨sameL2?, hsome, hsameL2⟩ : ∃ found? : Option (List Int64), found?.isSome = hasL2 ∧
      ∀ values, found? = some values → values? .sameL2 = some values := by
    cases hasL2 with
    | false => exact ⟨none, rfl, nofun⟩
    | true =>
      obtain ⟨sameL2, hsameL2⟩ := h .sameL2 (mem_asked.2 fun _ => rfl)
      exact ⟨some sameL2, rfl, fun values hvalues => Option.some.inj hvalues ▸ hsameL2⟩
  exact ⟨⟨sameCpu, sameL2?, sameChip, offChip⟩, hsome,
    forall_get?_iff.2 ⟨hsameCpu, hsameL2, hsameChip, hoffChip⟩⟩

/-! ## A load -/

theorem exists_load_iff : (∃ o, (load trace hasL2 w).1 = .ok o) ↔
    ∀ l ∈ asked hasL2, ∃ values, savedValues? w.files trace l = some values := by
  simp only [fst_load_eq_ok_iff]
  constructor
  · rintro ⟨o, rfl, hvalues⟩ l hl
    obtain ⟨values, hget⟩ := exists_get?_iff.2 hl
    exact ⟨values, hvalues l values hget⟩
  · exact exists_get?

theorem exists_savedValues?_iff : (∃ values, savedValues? t trace l = some values) ↔
    ∃ bytes, t.read (savedPath trace l) = .ok bytes ∧ bytes.length % valueBytes = 0 := by
  simp only [savedValues?_eq_some_iff]
  rw [exists_comm]
  simp only [exists_and_left, exists_eq', and_true]

/-! ## Files replaced by themselves -/

/-- A file that is emptied and takes its content again is the file of before. -/
theorem appendTo_truncate_eq_self (hplace : place ≠ [])
    (h : t.node? place = some (.file number content)) :
    (t.truncate ⟨place, number⟩).appendTo ⟨place, number⟩ content = .ok t := by
  let emptied : Item := .file place number []
  have htruncate : t.truncate ⟨place, number⟩ = t.set emptied := by
    simp only [truncate, h, if_true, emptied]
  have hempty : (t.set emptied).node? place = some (.file number []) :=
    node?_set_self emptied hplace t
  rw [htruncate, appendTo, hempty]
  simp only [if_true, List.nil_append]
  rw [set_set (show (Item.file place number content).place = emptied.place from rfl),
    set_eq_self (show (Item.file place number content).place ≠ [] from hplace) h]

/-- Nothing changes where the values are saved that a file has, even if it must not be written. -/
theorem snd_saveEntry_eq_self (h : savedValues? w.files trace l = some values) :
    (saveEntry trace (l, values) w).2 = w := by
  obtain ⟨bytes, hread, hwhole, rfl⟩ := savedValues?_eq_some_iff.1 h
  obtain ⟨place, number, hfile⟩ := exists_hasFile_of_read hread
  by_cases hwritable : w.files.Writable (savedPath trace l)
  · have hplace : place ≠ [] := ne_nil_of_notDirectory (by rw [hfile.node]; simp)
    have hopened := hfile.openNew (hwritable.allowed hfile.located)
    have hreplace := replaceFile_of_ok hopened (appendTo_truncate_eq_self hplace hfile.node)
    rw [saveEntry]
    dsimp only
    rw [encode_decode hwhole, Action.bind_of_ok hreplace]
    rfl
  · obtain ⟨hwritable', -⟩ | ⟨-, fault, hsave⟩ := saveEntry_cases trace (l, decode bytes) w
    · exact absurd hwritable' hwritable
    · rw [hsave]

/-- Nothing changes where values are saved that the files have. -/
theorem snd_save_eq_self
    (h : ∀ l values, o.get? l = some values → savedValues? w.files trace l = some values) :
    (o.save trace w).2 = w := by
  apply Action.snd_mapM_of_same
  rintro ⟨l, values⟩ hentry
  exact snd_saveEntry_eq_self (h l values (mem_toList.1 hentry))

theorem save_eq_ok_iff_asked {written : List Path} : (o.save trace w).1 = .ok written ↔
    (∀ l ∈ asked o.sameL2?.isSome, w.files.Writable (savedPath trace l)) ∧
      (asked o.sameL2?.isSome).map (savedPath trace) = written := by
  rw [save_eq_ok_iff, ← map_fst_toList, List.forall_mem_map, List.map_map]
  rfl

/-- A load succeeds exactly if each file that it asks for can be read and has a whole number of
values. What is loaded are the values of the localities asked for. Saving them changes nothing, and
succeeds, writing each of their files, exactly if all of these can be written. Where they are saved
to the same world or to any other one, each of these files has the bytes that were loaded, and no
other file is changed. -/
theorem load_then_save (trace : Path) (hasL2 : Bool) (w : World) :
    ((∃ o, (load trace hasL2 w).1 = .ok o) ↔ ∀ l ∈ asked hasL2, ∃ bytes,
      w.files.read (savedPath trace l) = .ok bytes ∧ bytes.length % valueBytes = 0) ∧
    ∀ o w', load trace hasL2 w = (.ok o, w') →
      w' = w ∧ o.toList.map Prod.fst = asked hasL2 ∧ (o.save trace w).2 = w ∧
      (∀ written, (o.save trace w).1 = .ok written ↔
        (∀ l ∈ asked hasL2, w.files.Writable (savedPath trace l)) ∧
          (asked hasL2).map (savedPath trace) = written) ∧
      ∀ v written v', o.save trace v = (.ok written, v') →
        (∀ l ∈ asked hasL2, ∃ bytes, w.files.read (savedPath trace l) = .ok bytes ∧
          v'.files.Keeps (savedPath trace l) bytes) ∧
        v.files.RewritesOnly (fun place => ∃ l ∈ asked hasL2,
          v.files.locateNew (savedPath trace l) = .ok place) v'.files := by
  refine ⟨by simp only [exists_load_iff, exists_savedValues?_iff], fun o w' hload => ?_⟩
  obtain ⟨rfl, hvalues, rfl⟩ := load_eq_ok_iff.1 hload
  refine ⟨rfl, map_fst_toList o, snd_save_eq_self hvalues, fun written => save_eq_ok_iff_asked,
    fun v written v' hsave => ⟨?_, ?_⟩⟩
  · intro l hl
    obtain ⟨values, hget⟩ := exists_get?_iff.2 hl
    obtain ⟨bytes, hread, hwhole, rfl⟩ := savedValues?_eq_some_iff.1 (hvalues l values hget)
    have hkeeps := (of_save_eq_ok hsave).saved l _ hget
    rw [encode_decode hwhole] at hkeeps
    exact ⟨bytes, hread, hkeeps⟩
  · refine (rewritesOnly_of_save hsave).mono fun place hsaved => ?_
    obtain ⟨l, hget, hplace⟩ := hsaved
    exact ⟨l, exists_get?_iff.1 (Option.ne_none_iff_exists'.1 hget), hplace⟩

/-- A world with saved overheads whose values are extreme, and a file of the shared L2 level that is
not a whole number of values. -/
def extremeWorld : World where
  files := {
    workingDirectory := []
    entries := [.file ["pm_preemption.vbin"] 0 [0, 0, 0, 0, 0, 0, 0, 128],
      .file ["pm_l2cache.vbin"] 1 [1, 2, 3], .file ["pm_onchip.vbin"] 2 [],
      .file ["pm_offchip.vbin"] 3 (List.replicate 8 255 ++ List.replicate 7 255 ++ [127])] }
  warnings := []
  output := ""

/-- The least value, the greatest one and none at all are saved as they were. -/
theorem load_then_save_extreme : ∃ o, load ⟨"pm.raw"⟩ false extremeWorld = (.ok o, extremeWorld) ∧
    o.save ⟨"pm.raw"⟩ extremeWorld =
      (.ok [⟨"pm_preemption.vbin"⟩, ⟨"pm_onchip.vbin"⟩, ⟨"pm_offchip.vbin"⟩], extremeWorld) := by
  obtain ⟨hload, hsave⟩ := load_then_save ⟨"pm.raw"⟩ false extremeWorld
  have hfound : ∀ l ∈ asked false,
      (savedValues? extremeWorld.files ⟨"pm.raw"⟩ l).isSome = true := by decide +kernel
  obtain ⟨o, ho⟩ := hload.2 fun l hl =>
    exists_savedValues?_iff.1 (Option.isSome_iff_exists.1 (hfound l hl))
  obtain ⟨w', ho⟩ := Action.fst_eq_ok_iff.1 ho
  obtain ⟨rfl, -, hsame, hsaved, -⟩ := hsave o w' ho
  have hwritable : ∀ l ∈ asked false,
      extremeWorld.files.Writable (savedPath ⟨"pm.raw"⟩ l) := by
    intro l hl
    cases l with
    | sameL2 => cases mem_asked.1 hl rfl
    | sameCpu | sameChip | offChip => exact ⟨_, rfl, rfl⟩
  exact ⟨o, ho, Prod.ext ((hsaved _).2 ⟨hwritable, rfl⟩) hsame⟩

end CacheDelay.Overheads

import CacheDelay.Proofs.Files.Path
import CacheDelay.Proofs.Text.Numeral
import CacheDelay.Report.Params
import Mathlib.Data.List.Basic
import Mathlib.Data.List.Induction

/-!
# Parameters of names

Parameters are kept in ascending order of their keys (`Ascending`), and a key has the value that it
was given last (`get?_insertAll`). From a name that is written from keys and values the same ones are
read, and nothing else can be read from any name than keys and values that can be written
(`ofName_spec`).
-/

namespace CacheDelay.Report.Params

open CacheDelay.Files CacheDelay.Text

variable {params : Params} {key value : String} {entry : String × String}

/-! ## Maps -/

/-- The keys ascend, so that each has one value. -/
def Ascending (params : Params) : Prop := params.Pairwise fun a b => a.1 < b.1

theorem get?_cons (entry : String × String) (params : Params) (key : String) :
    get? (entry :: params) key = if entry.1 = key then some entry.2 else params.get? key := by
  by_cases h : entry.1 = key
  · simp [get?, h]
  · simp [get?, h, beq_eq_false_iff_ne.2 h]

theorem get?_insert (params : Params) (key value other : String) :
    (params.insert key value).get? other =
      if key = other then some value else params.get? other := by
  fun_induction insert key value params with
  | case1 => rw [get?_cons]
  | case2 entry rest hlt => rw [get?_cons]
  | case3 entry rest hlt heq =>
    rw [get?_cons, get?_cons, ← heq]
    split <;> rfl
  | case4 entry rest hlt hne ih =>
    rw [get?_cons, get?_cons, ih]
    by_cases h : entry.1 = other
    · rw [if_pos h, if_pos h, if_neg (fun hkey => hne (hkey.trans h.symm))]
    · rw [if_neg h, if_neg h]

theorem mem_of_mem_insert (h : entry ∈ params.insert key value) :
    entry = (key, value) ∨ entry ∈ params := by
  fun_induction insert key value params with
  | case1 => exact .inl (List.mem_singleton.1 h)
  | case2 first rest hlt => exact List.mem_cons.1 h
  | case3 first rest hlt heq => exact (List.mem_cons.1 h).imp_right (List.mem_cons_of_mem _)
  | case4 first rest hlt hne ih =>
    rcases List.mem_cons.1 h with rfl | h
    · exact .inr List.mem_cons_self
    · exact (ih h).imp_right (List.mem_cons_of_mem _)

theorem Ascending.insert (h : params.Ascending) (key value : String) :
    (params.insert key value).Ascending := by
  fun_induction Params.insert key value params with
  | case1 => exact List.pairwise_singleton _ _
  | case2 first rest hlt =>
    refine List.pairwise_cons.2 ⟨fun entry hentry => ?_, h⟩
    rcases List.mem_cons.1 hentry with rfl | hentry
    · exact hlt
    · exact String.lt_trans hlt ((List.pairwise_cons.1 h).1 entry hentry)
  | case3 first rest hlt heq =>
    rw [Ascending, List.pairwise_cons] at h ⊢
    rwa [heq]
  | case4 first rest hlt hne ih =>
    obtain ⟨hfirst, hrest⟩ := List.pairwise_cons.1 h
    refine List.pairwise_cons.2 ⟨fun entry hentry => ?_, ih hrest⟩
    rcases mem_of_mem_insert hentry with rfl | hentry
    · exact Std.lt_of_le_of_ne hlt (Ne.symm hne)
    · exact hfirst entry hentry

theorem get?_eq_none_of_forall (h : ∀ entry ∈ params, entry.1 ≠ key) : params.get? key = none := by
  rw [get?, Option.map_eq_none_iff, List.find?_eq_none]
  simpa using h

/-- In ascending order of the keys, an entry is a key with its value. -/
theorem Ascending.mem_iff (h : params.Ascending) :
    (key, value) ∈ params ↔ params.get? key = some value := by
  induction params with
  | nil => simp [get?]
  | cons first rest ih =>
    obtain ⟨hfirst, hrest⟩ := List.pairwise_cons.1 h
    rw [List.mem_cons, get?_cons, ih hrest, Prod.ext_iff]
    by_cases hkey : first.1 = key
    · -- the keys behind the first one are greater
      have hnone : get? rest key = none := by
        refine get?_eq_none_of_forall fun entry hentry heq => ?_
        exact String.lt_irrefl key (by simpa [hkey, heq] using hfirst entry hentry)
      simp [hkey, hnone, eq_comm]
    · simp [hkey, Ne.symm hkey]

/-- The parameters with those of the pairs, in turn. -/
def insertAll (params : Params) (pairs : List (String × String)) : Params :=
  pairs.foldl (fun params pair => params.insert pair.1 pair.2) params

theorem get?_insertAll (params : Params) (pairs : List (String × String)) (key : String) :
    (params.insertAll pairs).get? key = (pairs.reverse.lookup key).or (params.get? key) := by
  induction pairs using List.reverseRecOn with
  | nil => rfl
  | append_singleton pairs pair ih =>
    rw [insertAll, List.foldl_concat, ← insertAll, get?_insert, ih, List.reverse_concat,
      List.lookup_cons]
    by_cases h : pair.1 = key
    · simp [h]
    · simp [h, beq_eq_false_iff_ne.2 (Ne.symm h)]

theorem Ascending.insertAll (h : params.Ascending) (pairs : List (String × String)) :
    (params.insertAll pairs).Ascending := by
  induction pairs generalizing params with
  | nil => exact h
  | cons pair pairs ih => exact ih (h.insert pair.1 pair.2)

/-! ## Names -/

/-- Whether a text can be the key of a parameter in a name. -/
def IsKey (key : String) : Prop := '_' ∉ key.toList ∧ '=' ∉ key.toList ∧ '/' ∉ key.toList

/-- Whether a text can be the value of a parameter in a name. -/
def IsValue (value : String) : Prop := '_' ∉ value.toList ∧ '/' ∉ value.toList

instance : DecidablePred IsKey := fun _ => inferInstanceAs (Decidable (_ ∧ _ ∧ _))

instance : DecidablePred IsValue := fun _ => inferInstanceAs (Decidable (_ ∧ _))

/-- The part of a name for a key and its value. -/
def partOf (pair : String × String) : List Char := pair.1.toList ++ '=' :: pair.2.toList

/-- The name of a trace that was recorded with the given parameters. -/
def traceName (pairs : List (String × String)) : String :=
  "res" ++ String.join (pairs.map fun pair => "_" ++ pair.1 ++ "=" ++ pair.2) ++ ".raw"

theorem toList_traceName (pairs : List (String × String)) : (traceName pairs).toList =
    ("res".toList ++ (pairs.map partOf).flatMap ('_' :: ·)) ++ '.' :: "raw".toList := by
  have hparts : (String.join (pairs.map fun pair => "_" ++ pair.1 ++ "=" ++ pair.2)).toList =
      (pairs.map partOf).flatMap ('_' :: ·) := by
    induction pairs with
    | nil => rfl
    | cons pair pairs ih => simp [ih, partOf]
  simp [traceName, hparts]

theorem splitOn_append_flatMap {sep : Char} {first : List Char} {parts : List (List Char)}
    (hfirst : sep ∉ first) (hparts : ∀ part ∈ parts, sep ∉ part) :
    (first ++ parts.flatMap (sep :: ·)).splitOn sep = first :: parts := by
  induction parts generalizing first with
  | nil => rw [List.flatMap_nil, List.append_nil, List.splitOn_eq_singleton hfirst]
  | cons part parts ih =>
    obtain ⟨hpart, hrest⟩ := List.forall_mem_cons.1 hparts
    rw [List.flatMap_cons, List.cons_append, List.splitOn_append_cons_self,
      List.splitOn_eq_singleton hfirst, ih hpart hrest, List.singleton_append]

theorem addPart_partOf {pair : String × String} (h : '=' ∉ pair.1.toList) (params : Params) :
    params.addPart (partOf pair) = params.insert pair.1 pair.2 := by
  rw [addPart, partOf, cutAt_append_cons h]
  simp

theorem foldl_addPart_partOf {pairs : List (String × String)}
    (h : ∀ pair ∈ pairs, '=' ∉ pair.1.toList) (params : Params) :
    (pairs.map partOf).foldl addPart params = params.insertAll pairs := by
  induction pairs generalizing params with
  | nil => rfl
  | cons pair pairs ih =>
    obtain ⟨hpair, hpairs⟩ := List.forall_mem_cons.1 h
    rw [List.map_cons, List.foldl_cons, addPart_partOf hpair, ih hpairs]
    rfl

/-- A name that is written from parameters is read as these, the last one of each key. -/
theorem ofName_traceName (dir : Path) {pairs : List (String × String)}
    (h : ∀ pair ∈ pairs, IsKey pair.1 ∧ IsValue pair.2) :
    ofName (dir.child (traceName pairs)) = insertAll [] pairs := by
  have hunderscore : ∀ part ∈ pairs.map partOf, '_' ∉ part := by
    simp only [List.forall_mem_map, partOf]
    intro pair hpair
    simp [(h pair hpair).1.1, (h pair hpair).2.1]
  have hslash : '/' ∉ (traceName pairs).toList := by
    simp only [toList_traceName, List.mem_append, List.mem_flatMap, List.mem_map, List.mem_cons,
      partOf]
    rintro ((hres | ⟨_, ⟨pair, hpair, rfl⟩, hpart⟩) | hraw)
    · exact absurd hres (by decide)
    · simp [(h pair hpair).1.2.2, (h pair hpair).2.2] at hpart
    · exact absurd hraw (by decide)
  have hstem : (dir.child (traceName pairs)).stem =
      "res".toList ++ (pairs.map partOf).flatMap ('_' :: ·) :=
    stem_child dir (toList_traceName pairs) hslash (by simp) (by decide) (by decide)
  rw [ofName, hstem, splitOn_append_flatMap (by decide) hunderscore, List.foldl_cons]
  exact foldl_addPart_partOf (fun pair hpair => (h pair hpair).1.2.1) []

/-! ## What is read from a name -/

theorem isKey_isValue_of_mem_addPart {part : List Char} (hslash : '/' ∉ part)
    (hunderscore : '_' ∉ part) (h : entry ∈ params.addPart part) :
    IsKey entry.1 ∧ IsValue entry.2 ∨ entry ∈ params := by
  rw [addPart] at h
  split at h
  · exact .inr h
  · rename_i front rest hcut
    obtain ⟨hequals, rfl⟩ := cutAt_eq_some_iff.1 hcut
    refine (mem_of_mem_insert h).imp_left ?_
    rintro rfl
    simp only [List.mem_append, List.mem_cons, not_or] at hslash hunderscore
    simp [IsKey, IsValue, hequals, hslash, hunderscore]

theorem isKey_isValue_of_mem_foldl {parts : List (List Char)}
    (hparts : ∀ part ∈ parts, '/' ∉ part ∧ '_' ∉ part) (h : entry ∈ parts.foldl addPart params) :
    IsKey entry.1 ∧ IsValue entry.2 ∨ entry ∈ params := by
  induction parts generalizing params with
  | nil => exact .inr h
  | cons part parts ih =>
    obtain ⟨⟨hslash, hunderscore⟩, hrest⟩ := List.forall_mem_cons.1 hparts
    rcases ih hrest h with hentry | hmem
    · exact .inl hentry
    · exact isKey_isValue_of_mem_addPart hslash hunderscore hmem

theorem isKey_isValue_of_mem_ofName {trace : Path} (h : entry ∈ ofName trace) :
    IsKey entry.1 ∧ IsValue entry.2 := by
  have hparts : ∀ part ∈ trace.stem.splitOn '_', '/' ∉ part ∧ '_' ∉ part := by
    intro part hpart
    obtain ⟨hunderscore, hsubset⟩ := of_mem_splitOn hpart
    exact ⟨fun hslash => not_mem_stem trace (hsubset hslash), hunderscore⟩
  exact (isKey_isValue_of_mem_foldl hparts h).resolve_right List.not_mem_nil

/-- From a name that is written from keys and values, in any directory, these are read: each key once,
with the value given last. From any path at all only such keys and values are read. -/
theorem ofName_spec :
    (∀ (dir : Path) (pairs : List (String × String)),
      (∀ pair ∈ pairs, IsKey pair.1 ∧ IsValue pair.2) →
        (ofName (dir.child (traceName pairs))).Ascending ∧
        ∀ key value, (key, value) ∈ ofName (dir.child (traceName pairs)) ↔
          pairs.reverse.lookup key = some value) ∧
    ∀ trace, ∀ entry ∈ ofName trace, IsKey entry.1 ∧ IsValue entry.2 := by
  refine ⟨fun dir pairs h => ?_, fun trace entry hentry => isKey_isValue_of_mem_ofName hentry⟩
  have hascending : (insertAll [] pairs).Ascending :=
    Ascending.insertAll List.Pairwise.nil pairs
  rw [ofName_traceName dir h]
  refine ⟨hascending, fun key value => ?_⟩
  rw [hascending.mem_iff, get?_insertAll]
  simp [get?]

/-- Of two working set sizes the later one counts, and a value keeps its dots and equals signs. -/
theorem ofName_spec_repeated :
    let dir : Path := ⟨"out/.runs"⟩
    let pairs := [("wss", "1024"), ("tss", "a=b.c"), ("wss", "2")]
    (dir.child (traceName pairs)).text = "out/.runs/res_wss=1024_tss=a=b.c_wss=2.raw" ∧
      (∀ pair ∈ pairs, IsKey pair.1 ∧ IsValue pair.2) ∧
      ("wss", "2") ∈ ofName (dir.child (traceName pairs)) ∧
      ("tss", "a=b.c") ∈ ofName (dir.child (traceName pairs)) ∧
      ("wss", "1024") ∉ ofName (dir.child (traceName pairs)) := by
  intro dir pairs
  have hpairs : ∀ pair ∈ pairs, IsKey pair.1 ∧ IsValue pair.2 := by decide
  obtain ⟨-, hmem⟩ := ofName_spec.1 dir pairs hpairs
  exact ⟨by decide, hpairs, (hmem _ _).2 (by decide), (hmem _ _).2 (by decide),
    mt (hmem _ _).1 (by decide)⟩

end CacheDelay.Report.Params

import CacheDelay.Kernel.Counters
import CacheDelay.Proofs.Results
import CacheDelay.Proofs.Text.Lines
import CacheDelay.Proofs.Text.Numeral

/-!
# What a list of counters says

A line lists a counter with a value if a key of the counter stands before its first colon and a
numeral behind it (`Counter.ValueOn`). Nothing else is read from a line (`readLine?_eq_some_iff`), so
that a text says of each counter what the last line that lists it does, and the lines that do not
list it may stand anywhere (`value_of_last_line`).
-/

namespace CacheDelay.Kernel

open CacheDelay.Text

namespace Counter

/-- The line lists the counter with the value `n`: it has a key of the counter before its first colon
and a numeral for `n` behind it, each perhaps between blanks. -/
def ValueOn (counter : Counter) (line : List Char) (n : Nat) : Prop :=
  ∃ front rest, (':' ∉ front ∧ line = front ++ ':' :: rest) ∧
    (∃ key ∈ counter.keys, Padded front key.toList) ∧
    ∃ numeral, Padded rest numeral ∧ IsNumeral maxWord64 numeral n

/-- The line lists the counter. -/
def ListedOn (counter : Counter) (line : List Char) : Prop := ∃ n, counter.ValueOn line n

/-- The last of the lines that list the counter lists it with the value `n`. -/
def LastOn (counter : Counter) (lines : List (List Char)) (n : Nat) : Prop :=
  ∃ before line after, lines = before ++ line :: after ∧ counter.ValueOn line n ∧
    ∀ other ∈ after, ¬ counter.ListedOn other

/-! ## Keys -/

/-- No key belongs to two counters. -/
theorem find?_keys_eq_some_iff {key : String} {counter : Counter} :
    all.find? (fun c => c.keys.contains key) = some counter ↔ key ∈ counter.keys := by
  constructor
  · intro h
    have hkey := List.find?_some h
    exact List.contains_iff_mem.1 hkey
  · intro h
    cases counter <;> simp only [keys, List.mem_cons, List.not_mem_nil, or_false] at h
    case migrations => rcases h with rfl | rfl <;> rfl
    all_goals
      subst h
      rfl

theorem isBlank_eq_false_of_mem_keys {key : String} {counter : Counter} (h : key ∈ counter.keys) :
    ∀ c ∈ key.toList, isBlank c = false := by
  have hkeys : counter.keys.all (fun key => key.toList.all (!isBlank ·)) = true := by
    cases counter <;> decide +kernel
  have hkey := List.all_eq_true.1 hkeys key h
  simpa using hkey

end Counter

namespace Counters

variable {counter : Counter} {line : List Char} {n : Nat} {s s' : Counters}

/-! ## One line -/

theorem trim_mem_keys_iff {front : List Char} :
    String.ofList (trim front) ∈ counter.keys ↔ ∃ key ∈ counter.keys, Padded front key.toList := by
  constructor
  · intro h
    exact ⟨_, h, by rw [String.toList_ofList]; exact padded_trim front⟩
  · rintro ⟨key, hkey, hpadded⟩
    rwa [trim_of_padded (Counter.isBlank_eq_false_of_mem_keys hkey) hpadded, String.ofList_toList]

/-- A line is read as what it lists. -/
theorem readLine?_eq_some_iff : readLine? line = some (counter, n) ↔ counter.ValueOn line n := by
  have hparts : counter.ValueOn line n ↔ ∃ front rest, cutAt ':' line = some (front, rest) ∧
      String.ofList (trim front) ∈ counter.keys ∧ readNumeral maxWord64 (trim rest) = .ok n := by
    simp only [Counter.ValueOn, cutAt_eq_some_iff, trim_mem_keys_iff, readNumeral_trim_eq_ok_iff,
      and_assoc]
  rw [hparts, readLine?]
  cases hcut : cutAt ':' line with
  | none => simp
  | some parts =>
    obtain ⟨front, rest⟩ := parts
    simp only [Option.bind_eq_bind, Option.bind_some, Option.bind_eq_some_iff,
      toOption_eq_some_iff, Counter.find?_keys_eq_some_iff, Option.some.injEq, Prod.mk.injEq]
    constructor
    · rintro ⟨value, hnumeral, found, hkey, rfl, rfl⟩
      exact ⟨front, rest, ⟨rfl, rfl⟩, hkey, hnumeral⟩
    · rintro ⟨_, _, ⟨rfl, rfl⟩, hkey, hnumeral⟩
      exact ⟨n, hnumeral, counter, hkey, rfl, rfl⟩

/-- Lines are told apart by what is read from them. -/
instance (counter : Counter) : DecidablePred counter.ListedOn := fun line =>
  decidable_of_iff ((readLine? line).map Prod.fst = some counter) <| by
    simp only [Option.map_eq_some_iff, Prod.exists, readLine?_eq_some_iff, Counter.ListedOn,
      exists_comm, exists_eq_right]

theorem value_addLine_of_valueOn (h : counter.ValueOn line n) (s : Counters) :
    (s.addLine line).value counter = n := by
  rw [addLine, readLine?_eq_some_iff.2 h]
  exact if_pos rfl

/-- A line says nothing of the counters that it does not list. -/
theorem value_addLine_of_not (h : ¬ counter.ListedOn line) (s : Counters) :
    (s.addLine line).value counter = s.value counter := by
  rw [addLine]
  split
  · rfl
  · rename_i other n hread
    refine if_neg ?_
    rintro rfl
    exact h ⟨n, readLine?_eq_some_iff.1 hread⟩

/-! ## Lines in turn -/

/-- Only the lines that list a counter count for it. -/
theorem value_foldl_filter {ls : List (List Char)} (h : s.value counter = s'.value counter) :
    (ls.foldl addLine s).value counter =
      ((ls.filter (counter.ListedOn ·)).foldl addLine s').value counter := by
  induction ls generalizing s s' with
  | nil => exact h
  | cons line ls ih =>
    by_cases hline : counter.ListedOn line
    · rw [List.filter_cons_of_pos (by simpa using hline), List.foldl_cons, List.foldl_cons]
      obtain ⟨n, hvalue⟩ := hline
      refine ih ?_
      rw [value_addLine_of_valueOn hvalue, value_addLine_of_valueOn hvalue]
    · rw [List.filter_cons_of_neg (by simpa using hline), List.foldl_cons]
      refine ih ?_
      rw [value_addLine_of_not hline, h]

theorem value_foldl_of_not {ls : List (List Char)}
    (h : ∀ line ∈ ls, ¬ counter.ListedOn line) (s : Counters) :
    (ls.foldl addLine s).value counter = s.value counter := by
  have hnone : ls.filter (counter.ListedOn ·) = [] :=
    List.filter_eq_nil_iff.2 fun line hline => by simpa using h line hline
  rw [value_foldl_filter rfl, hnone, List.foldl_nil]

/-- A text gives a counter the value on the last line that lists it, and zero if there is none.
Texts with the same lines for a counter, in their order, give it the same value, and so do a text and
the text with a line put in that does not list it. -/
theorem value_of_last_line (counter : Counter) :
    (∀ text n, counter.LastOn (lines text) n → (read text).value counter = n) ∧
    (∀ text, (∀ line ∈ lines text, ¬ counter.ListedOn line) → (read text).value counter = 0) ∧
    (∀ text text',
      (lines text).filter (counter.ListedOn ·) = (lines text').filter (counter.ListedOn ·) →
        (read text).value counter = (read text').value counter) ∧
    ∀ front line back, EndsLine front → '\n' ∉ line → ¬ counter.ListedOn (dropReturn line) →
      (read (front ++ line ++ '\n' :: back)).value counter = (read (front ++ back)).value counter := by
  have hfilter (text text' : List Char)
      (h : (lines text).filter (counter.ListedOn ·) = (lines text').filter (counter.ListedOn ·)) :
      (read text).value counter = (read text').value counter := by
    rw [read, read, value_foldl_filter rfl, h, ← value_foldl_filter rfl]
  refine ⟨?_, fun text h => value_foldl_of_not h zero, hfilter, ?_⟩
  · rintro text n ⟨before, line, after, htext, hvalue, hafter⟩
    rw [read, htext, List.foldl_append, List.foldl_cons, value_foldl_of_not hafter,
      value_addLine_of_valueOn hvalue]
  · intro front line back hfront hline hother
    refine hfilter _ _ ?_
    rw [lines_insert hfront hline, hfront.lines_append, List.filter_append, List.filter_append,
      List.filter_cons_of_neg (by simpa using hother)]

/-- Under its other key, between blanks and with a sign, before a value that is too large and one
with a second colon. -/
theorem value_of_last_line_either_key :
    let text := ("nr_migrations: 4\n se.nr_migrations :\t+7\r\nnr_switches: 9\n" ++
      "nr_migrations: 18446744073709551616\nnr_migrations: 1:2\n").toList
    Counter.LastOn .migrations (lines text) 7 ∧ (read text).value .migrations = 7 := by
  intro text
  have hlast : Counter.LastOn .migrations (lines text) 7 := by
    refine ⟨["nr_migrations: 4".toList], " se.nr_migrations :\t+7".toList,
      ["nr_switches: 9".toList, "nr_migrations: 18446744073709551616".toList,
        "nr_migrations: 1:2".toList], by decide, ?_, by decide⟩
    exact readLine?_eq_some_iff.1 (by decide)
  exact ⟨hlast, (value_of_last_line .migrations).1 text 7 hlast⟩

end Counters

end CacheDelay.Kernel

import CacheDelay.Text.Blank
import CacheDelay.Text.Numeral
import CacheDelay.Text.Split
import Mathlib.Data.List.TakeWhile

/-!
# Numerals, blanks and cuts

Numerals are read exactly if they are digits, perhaps after a `+`, with a value within the limit
(`readNumeral_eq_ok_iff`); a number is read back from its digits (`readNumeral_toDigits`). Trimming
takes nothing but blanks away (`padded_trim`), and all of them around a text without blanks
(`trim_of_padded`). A text is cut at its first separator (`cutAt_eq_some_iff`).
-/

namespace CacheDelay.Text

/-! ## Digits -/

theorem toNat_of_isDigit {c : Char} (h : c.isDigit = true) : 48 ≤ c.toNat ∧ c.toNat ≤ 57 := by
  simp only [Char.isDigit, Bool.and_eq_true, decide_eq_true_eq] at h
  exact ⟨UInt32.le_iff_toNat_le.1 h.1, UInt32.le_iff_toNat_le.1 h.2⟩

theorem isBlank_of_isDigit {c : Char} (h : c.isDigit = true) : isBlank c = false := by
  obtain ⟨hlow, hhigh⟩ := toNat_of_isDigit h
  simp only [isBlank, blankRanges, List.any_cons, List.any_nil, Bool.or_false, Bool.or_eq_false_iff,
    Bool.and_eq_false_iff, decide_eq_false_iff_not]
  omega

theorem le_ofDigitChars (digits : List Char) (value : Nat) :
    value ≤ Nat.ofDigitChars 10 digits value := by
  induction digits generalizing value with
  | nil => exact Nat.le_refl value
  | cons c digits ih =>
    have hle : value ≤ 10 * value + (c.toNat - '0'.toNat) := by omega
    exact hle.trans (ih _)

theorem addDigit_eq_ok_iff {limit value n : Nat} {c : Char} : addDigit limit value c = .ok n ↔
    c.isDigit = true ∧ 10 * value + (c.toNat - '0'.toNat) = n ∧ n ≤ limit := by
  by_cases hdigit : c.isDigit = true
  · rw [addDigit, digitValue?, if_pos hdigit, and_iff_right hdigit, Nat.mul_comm 10]
    dsimp only
    split
    · rename_i hle
      rw [Except.ok.injEq]
      exact ⟨fun h => ⟨h, h ▸ hle⟩, And.left⟩
    · rename_i hlarge
      refine iff_of_false (fun h => by cases h) ?_
      rintro ⟨rfl, hle⟩
      exact hlarge hle
  · rw [addDigit, digitValue?, if_neg hdigit]
    exact iff_of_false (fun h => by cases h) fun h => hdigit h.1

/-- Digits are added to the value read so far as long as it stays within the limit. -/
theorem foldlM_addDigit_eq_ok_iff {limit value n : Nat} {digits : List Char}
    (hvalue : value ≤ limit) : digits.foldlM (addDigit limit) value = .ok n ↔
      (∀ c ∈ digits, c.isDigit = true) ∧ Nat.ofDigitChars 10 digits value = n ∧ n ≤ limit := by
  induction digits generalizing value with
  | nil =>
    show Except.ok value = .ok n ↔ _ ∧ value = n ∧ _
    rw [Except.ok.injEq]
    exact ⟨fun h => ⟨fun _ hc => absurd hc List.not_mem_nil, h, h ▸ hvalue⟩, fun h => h.2.1⟩
  | cons c digits ih =>
    rw [List.foldlM_cons, List.forall_mem_cons, Nat.ofDigitChars_cons]
    cases hnext : addDigit limit value c with
    | error fault =>
      refine iff_of_false (fun h => by cases h) ?_
      rintro ⟨⟨hc, -⟩, rfl, hlimit⟩
      have hle := (le_ofDigitChars digits _).trans hlimit
      cases hnext.symm.trans (addDigit_eq_ok_iff.2 ⟨hc, rfl, hle⟩)
    | ok next =>
      obtain ⟨hc, rfl, hle⟩ := addDigit_eq_ok_iff.1 hnext
      rw [and_iff_right hc]
      exact ih hle

/-- A text of digits, with a value of at most `limit`. -/
theorem readDigits_eq_ok_iff {limit n : Nat} {cs : List Char} : readDigits limit cs = .ok n ↔
    cs ≠ [] ∧ (∀ c ∈ cs, c.isDigit = true) ∧ Nat.ofDigitChars 10 cs 0 = n ∧ n ≤ limit := by
  rw [readDigits]
  split
  · rename_i hempty
    exact iff_of_false (fun h => by cases h) fun h => h.1 (List.isEmpty_iff.1 hempty)
  · rename_i hsome
    rw [foldlM_addDigit_eq_ok_iff (Nat.zero_le limit), ne_eq, ← List.isEmpty_iff,
      and_iff_right hsome]

/-! ## Numerals -/

/-- The text is a numeral for `n`: digits, perhaps after a `+`, whose value is within the limit. -/
def IsNumeral (limit : Nat) (cs : List Char) (n : Nat) : Prop :=
  ∃ digits, (cs = digits ∨ cs = '+' :: digits) ∧ digits ≠ [] ∧
    (∀ c ∈ digits, c.isDigit = true) ∧ Nat.ofDigitChars 10 digits 0 = n ∧ n ≤ limit

theorem IsNumeral.le {limit n : Nat} {cs : List Char} (h : IsNumeral limit cs n) : n ≤ limit := by
  obtain ⟨-, -, -, -, -, hle⟩ := h
  exact hle

theorem IsNumeral.isBlank_eq_false {limit n : Nat} {cs : List Char} (h : IsNumeral limit cs n) :
    ∀ c ∈ cs, isBlank c = false := by
  obtain ⟨digits, hcs, -, hdigits, -⟩ := h
  have hblank : ∀ c ∈ digits, isBlank c = false := fun c hc => isBlank_of_isDigit (hdigits c hc)
  rcases hcs with rfl | rfl
  · exact hblank
  · exact List.forall_mem_cons.2 ⟨by decide, hblank⟩

/-- A reader of numerals accepts numerals, and nothing else. -/
theorem readNumeral_eq_ok_iff {limit n : Nat} {cs : List Char} :
    readNumeral limit cs = .ok n ↔ IsNumeral limit cs n := by
  unfold readNumeral
  split
  · refine iff_of_false (fun h => by cases h) ?_
    rintro ⟨digits, rfl | hplus, hne, -⟩
    · exact hne rfl
    · cases hplus
  · rename_i digits
    rw [readDigits_eq_ok_iff]
    constructor
    · exact fun h => ⟨digits, .inr rfl, h⟩
    · rintro ⟨_, rfl | hplus, hne, hdigits, hvalue⟩
      · exact absurd (hdigits '+' List.mem_cons_self) (by decide)
      · cases hplus
        exact ⟨hne, hdigits, hvalue⟩
  · rename_i hplus
    rw [readDigits_eq_ok_iff]
    constructor
    · exact fun h => ⟨cs, .inl rfl, h⟩
    · rintro ⟨digits, rfl | rfl, h⟩
      · exact h
      · exact absurd rfl (hplus digits)

theorem isDigit_of_mem {n : Nat} {c : Char} (h : c ∈ Nat.toDigits 10 n) : c.isDigit = true :=
  Nat.isDigit_of_mem_toDigits (by decide) (by decide) h

/-- A number is read back from its digits. -/
theorem readNumeral_toDigits {limit n : Nat} (h : n ≤ limit) :
    readNumeral limit (Nat.toDigits 10 n) = .ok n :=
  readNumeral_eq_ok_iff.2 ⟨_, .inl rfl, Nat.toDigits_ne_nil, fun _ => isDigit_of_mem,
    Nat.ofDigitChars_toDigits (by decide) (by decide), h⟩

/-! ## Blanks -/

theorem dropWhile_of_forall {p : Char → Bool} {cs : List Char} (h : ∀ c ∈ cs, p c = false) :
    cs.dropWhile p = cs := by
  cases cs with
  | nil => rfl
  | cons c cs => exact List.dropWhile_cons_of_neg (by rw [h c List.mem_cons_self]; decide)

/-- `cs` is `core` between blanks. -/
def Padded (cs core : List Char) : Prop :=
  ∃ before after, (∀ c ∈ before, isBlank c = true) ∧ (∀ c ∈ after, isBlank c = true) ∧
    cs = before ++ core ++ after

theorem padded_self (cs : List Char) : Padded cs cs :=
  ⟨[], [], List.forall_mem_nil _, List.forall_mem_nil _, (List.append_nil cs).symm⟩

/-- Trimming takes nothing but blanks away. -/
theorem padded_trim (cs : List Char) : Padded cs (trim cs) := by
  have hfront := List.takeWhile_append_dropWhile (p := isBlank) (l := cs)
  have hback := List.takeWhile_append_dropWhile (p := isBlank)
    (l := (cs.dropWhile isBlank).reverse)
  refine ⟨cs.takeWhile isBlank, ((cs.dropWhile isBlank).reverse.takeWhile isBlank).reverse,
    fun c hc => List.mem_takeWhile_imp hc,
    fun c hc => List.mem_takeWhile_imp (List.mem_reverse.1 hc), ?_⟩
  rw [trim, List.append_assoc, ← List.reverse_append, hback, List.reverse_reverse, hfront]

/-- Trimming takes all blanks around a text without blanks away. -/
theorem trim_of_padded {cs core : List Char} (hcore : ∀ c ∈ core, isBlank c = false)
    (h : Padded cs core) : trim cs = core := by
  obtain ⟨before, after, hbefore, hafter, rfl⟩ := h
  have hback : ∀ c ∈ after.reverse, isBlank c = true := fun c hc => hafter c (List.mem_reverse.1 hc)
  rw [trim, List.append_assoc, List.dropWhile_append_of_pos hbefore]
  cases core with
  | nil =>
    rw [List.nil_append, List.dropWhile_eq_nil_iff.2 hafter]
    rfl
  | cons c core =>
    have hfirst : ¬ isBlank c = true := by rw [hcore c List.mem_cons_self]; decide
    rw [List.cons_append, List.dropWhile_cons_of_neg hfirst, ← List.cons_append,
      List.reverse_append, List.dropWhile_append_of_pos hback,
      dropWhile_of_forall fun c hc => hcore c (List.mem_reverse.1 hc), List.reverse_reverse]

/-- A numeral is read between blanks. -/
theorem readNumeral_trim_eq_ok_iff {limit n : Nat} {cs : List Char} :
    readNumeral limit (trim cs) = .ok n ↔ ∃ numeral, Padded cs numeral ∧ IsNumeral limit numeral n := by
  rw [readNumeral_eq_ok_iff]
  constructor
  · exact fun h => ⟨trim cs, padded_trim cs, h⟩
  · rintro ⟨numeral, hpadded, hnumeral⟩
    rwa [trim_of_padded hnumeral.isBlank_eq_false hpadded]

/-! ## Cuts -/

/-- A text is cut behind the characters of a class. -/
theorem takeWhile_append_eq {p : Char → Bool} {front rest : List Char}
    (hfront : ∀ c ∈ front, p c = true) (hrest : ∀ c ∈ rest.head?, p c = false) :
    (front ++ rest).takeWhile p = front ∧ (front ++ rest).dropWhile p = rest := by
  rw [List.takeWhile_append_of_pos hfront, List.dropWhile_append_of_pos hfront]
  cases rest with
  | nil => exact ⟨List.append_nil front, rfl⟩
  | cons c rest =>
    have hc : ¬ p c = true := by rw [hrest c rfl]; decide
    rw [List.takeWhile_cons_of_neg hc, List.dropWhile_cons_of_neg hc, List.append_nil]
    exact ⟨rfl, rfl⟩

theorem cutAt_of_not_mem {sep : Char} {cs : List Char} (h : sep ∉ cs) : cutAt sep cs = none := by
  have hall : cs.dropWhile (· != sep) = [] := by
    refine List.dropWhile_eq_nil_iff.2 fun c hc => ?_
    rw [bne_iff_ne]
    rintro rfl
    exact h hc
  rw [cutAt, hall]

theorem cutAt_append_cons {sep : Char} {front : List Char} (h : sep ∉ front) (rest : List Char) :
    cutAt sep (front ++ sep :: rest) = some (front, rest) := by
  have hall : ∀ c ∈ front, (c != sep) = true := by
    intro c hc
    rw [bne_iff_ne]
    rintro rfl
    exact h hc
  have hsep : ∀ c ∈ (sep :: rest).head?, (c != sep) = false := by
    intro c hc
    cases hc
    exact bne_self_eq_false sep
  obtain ⟨htake, hdrop⟩ := takeWhile_append_eq hall hsep
  rw [cutAt, hdrop, htake]

/-- A text is cut at its last separator in one way. -/
theorem append_cons_inj {sep : Char} {front front' rest rest' : List Char} (h : sep ∉ rest)
    (h' : sep ∉ rest') :
    front ++ sep :: rest = front' ++ sep :: rest' ↔ front = front' ∧ rest = rest' := by
  have hcut {front rest : List Char} (h : sep ∉ rest) :
      cutAt sep (front ++ sep :: rest).reverse = some (rest.reverse, front.reverse) := by
    rw [List.reverse_append, List.reverse_cons, List.append_assoc, List.singleton_append]
    exact cutAt_append_cons (mt List.mem_reverse.1 h) _
  constructor
  · intro heq
    have hparts := (hcut h).symm.trans (heq ▸ hcut h')
    simp only [Option.some.injEq, Prod.mk.injEq, List.reverse_inj] at hparts
    exact hparts.symm
  · rintro ⟨rfl, rfl⟩
    rfl

/-- A text is cut where it has a separator, and at the first one. -/
theorem cutAt_eq_some_iff {sep : Char} {cs front rest : List Char} :
    cutAt sep cs = some (front, rest) ↔ sep ∉ front ∧ cs = front ++ sep :: rest := by
  constructor
  · intro h
    have hmem : sep ∈ cs := by
      by_contra hnot
      rw [cutAt_of_not_mem hnot] at h
      cases h
    obtain ⟨before, after, rfl, hbefore⟩ := List.eq_append_cons_of_mem hmem
    cases (cutAt_append_cons hbefore after).symm.trans h
    exact ⟨hbefore, rfl⟩
  · rintro ⟨hfront, rfl⟩
    exact cutAt_append_cons hfront rest

theorem cutAt_eq_none_iff {sep : Char} {cs : List Char} : cutAt sep cs = none ↔ sep ∉ cs := by
  refine ⟨fun h hmem => ?_, cutAt_of_not_mem⟩
  obtain ⟨before, after, rfl, hbefore⟩ := List.eq_append_cons_of_mem hmem
  cases h.symm.trans (cutAt_append_cons hbefore after)

theorem of_mem_intercalate {sep c : Char} {pieces : List (List Char)}
    (h : c ∈ [sep].intercalate pieces) : c = sep ∨ ∃ piece ∈ pieces, c ∈ piece := by
  induction pieces with
  | nil => cases h
  | cons piece pieces ih =>
    cases pieces with
    | nil =>
      rw [List.intercalate, List.intersperse_singleton, List.flatten_singleton] at h
      exact .inr ⟨piece, List.mem_singleton_self piece, h⟩
    | cons next pieces =>
      rw [List.intercalate, List.intersperse_cons_cons, List.flatten_cons, List.flatten_cons] at h
      rcases List.mem_append.1 h with h | h
      · exact .inr ⟨piece, List.mem_cons_self, h⟩
      rcases List.mem_append.1 h with h | h
      · exact .inl (List.mem_singleton.1 h)
      rcases ih h with hsep | ⟨other, hother, hc⟩
      · exact .inl hsep
      · exact .inr ⟨other, List.mem_cons_of_mem _ hother, hc⟩

end CacheDelay.Text

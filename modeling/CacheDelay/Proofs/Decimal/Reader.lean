import CacheDelay.Decimal.Reader
import CacheDelay.Proofs.Decimal.Nearest
import CacheDelay.Proofs.Text.Numeral

/-!
# Numbers that are read

A text denotes a number that is not negative, or infinity, if it is a decimal or a word for infinity
(`Denotes`). Such a text is read as a float that is positive and finite just if the number is in the
range of floats (`exists_readFloat?`, `Rounds`), also where an exponent is too large for the number
to be formed. No other text is read as a positive float (`exists_denotes_of_readFloat?`).
-/

namespace CacheDelay.Decimal

open CacheDelay.Text

/-! ## The value of what is written -/

/-- The value as a number. -/
def Written.exact (w : Written) : ℚ := w.digits * 10 ^ w.exponent

/-- `x` is a number with a positive sign, and the one that `a` is rounded to as far as this is zero
or infinity. -/
structure Rounds (a : WithTop ℚ) (x : Binary64) : Prop where
  unsigned : x.IsUnsigned
  zero_lt_iff : 0 < x ↔ floatFloor < a
  isFinite_iff : x.isFinite = true ↔ a < floatLimit

theorem floatFloor_lt_floatLimit : floatFloor < floatLimit := by
  calc floatFloor < (2 : ℚ) ^ (1023 : ℤ) := zpow_lt_zpow_right₀ one_lt_two (by decide)
    _ ≤ floatLimit := zpow_le_floatLimit

theorem rounds_zero {q : ℚ} (h : q ≤ floatFloor) : Rounds q 0 where
  unsigned := Nat.zero_le _
  zero_lt_iff := iff_of_false (by decide) (not_lt.2 (WithTop.coe_le_coe.2 h))
  isFinite_iff :=
    iff_of_true (by decide) (WithTop.coe_lt_coe.2 (h.trans_lt floatFloor_lt_floatLimit))

theorem rounds_infinity {a : WithTop ℚ} (h : floatLimit ≤ a) : Rounds a .infinity where
  unsigned := Nat.le_refl _
  zero_lt_iff :=
    iff_of_true (by decide) ((WithTop.coe_lt_coe.2 floatFloor_lt_floatLimit).trans_le h)
  isFinite_iff := iff_of_false (by decide) (not_lt.2 h)

theorem rounds_nearest {num den : ℕ} (hden : 0 < den) :
    Rounds ((num / den : ℚ) : WithTop ℚ) (nearest num den) where
  unsigned := isUnsigned_nearest num den
  zero_lt_iff := by rw [zero_lt_nearest_iff hden, WithTop.coe_lt_coe]
  isFinite_iff := by rw [isFinite_nearest_iff hden, WithTop.coe_lt_coe]

theorem toDigits_bounds {n : ℕ} (h : 0 < n) :
    10 ^ ((Nat.toDigits 10 n).length - 1) ≤ n ∧ n < 10 ^ (Nat.toDigits 10 n).length := by
  have hlength := Nat.length_toDigits_pos (b := 10) (n := n)
  refine ⟨?_, (Nat.length_toDigits_le_iff (by decide) hlength).1 le_rfl⟩
  rcases Nat.eq_zero_or_pos ((Nat.toDigits 10 n).length - 1) with hone | hmore
  · rw [hone, pow_zero]
    exact h
  · rw [← not_lt, ← Nat.length_toDigits_le_iff (by decide) hmore]
    omega

/-- The order of a written number, up to one. -/
theorem Written.exact_bounds {w : Written} (h : 0 < w.digits) :
    (10 : ℚ) ^ (w.exponent + (Nat.toDigits 10 w.digits).length - 1) ≤ w.exact ∧
      w.exact < 10 ^ (w.exponent + (Nat.toDigits 10 w.digits).length) := by
  obtain ⟨hlow, hhigh⟩ := toDigits_bounds h
  have hlength := Nat.length_toDigits_pos (b := 10) (n := w.digits)
  generalize (Nat.toDigits 10 w.digits).length = length at *
  obtain ⟨more, rfl⟩ := Nat.exists_eq_add_of_le' hlength
  rw [Nat.add_sub_cancel] at hlow
  have hten : (10 : ℚ) ≠ 0 := by norm_num
  constructor
  · calc (10 : ℚ) ^ (w.exponent + (more + 1 : ℕ) - 1) = 10 ^ more * 10 ^ w.exponent := by
          rw [← zpow_natCast, ← zpow_add₀ hten]
          congr 1
          push_cast
          ring
      _ ≤ w.exact := by
          rw [exact]
          gcongr
          exact_mod_cast hlow
  · calc w.exact < 10 ^ (more + 1) * 10 ^ w.exponent := by
          rw [exact]
          gcongr
          exact_mod_cast hhigh
      _ = 10 ^ (w.exponent + (more + 1 : ℕ)) := by
          rw [← zpow_natCast, ← zpow_add₀ hten, add_comm]

theorem zpow_two_le_zpow_ten : (2 : ℚ) ^ (1200 : ℤ) ≤ 10 ^ (400 : ℤ) := by
  calc (2 : ℚ) ^ (1200 : ℤ) = (2 ^ (3 : ℤ)) ^ (400 : ℤ) := zpow_mul 2 3 400
    _ ≤ 10 ^ (400 : ℤ) := by
      apply zpow_le_zpow_left₀ (by decide) (by positivity)
      norm_num

theorem floatLimit_le_zpow_ten : floatLimit ≤ (10 : ℚ) ^ (400 : ℤ) := by
  calc floatLimit ≤ 2 ^ (1024 : ℤ) := floatLimit_le_zpow
    _ ≤ 2 ^ (1200 : ℤ) := zpow_le_zpow_right₀ one_le_two (by decide)
    _ ≤ 10 ^ (400 : ℤ) := zpow_two_le_zpow_ten

theorem zpow_ten_le_floatFloor : (10 : ℚ) ^ (-400 : ℤ) ≤ floatFloor := by
  calc (10 : ℚ) ^ (-400 : ℤ) ≤ 2 ^ (-1200 : ℤ) := by
        rw [zpow_neg, zpow_neg]
        exact inv_anti₀ (by positivity) zpow_two_le_zpow_ten
    _ ≤ floatFloor := zpow_le_zpow_right₀ one_le_two (by decide)

/-- What is written is rounded. -/
theorem Written.rounds_value (w : Written) : Rounds w.exact w.value := by
  have hten : (1 : ℚ) ≤ 10 := by norm_num
  rcases Nat.eq_zero_or_pos w.digits with hzero | hpos
  · rw [value, if_pos (.inl hzero), exact, hzero, Nat.cast_zero, zero_mul]
    apply rounds_zero
    rw [floatFloor]
    positivity
  · obtain ⟨hlow, hhigh⟩ := exact_bounds hpos
    rw [value]
    split
    · rename_i hsmall
      have horder := hsmall.resolve_left hpos.ne'
      apply rounds_zero
      calc w.exact ≤ 10 ^ (w.exponent + (Nat.toDigits 10 w.digits).length) := hhigh.le
        _ ≤ 10 ^ (-400 : ℤ) := zpow_le_zpow_right₀ hten (by omega)
        _ ≤ floatFloor := zpow_ten_le_floatFloor
    split
    · apply rounds_infinity
      apply WithTop.coe_le_coe.2
      calc floatLimit ≤ (10 : ℚ) ^ (400 : ℤ) := floatLimit_le_zpow_ten
        _ ≤ 10 ^ (w.exponent + (Nat.toDigits 10 w.digits).length - 1) :=
          zpow_le_zpow_right₀ hten (by omega)
        _ ≤ w.exact := hlow
    split
    · rename_i hexponent
      have hexact : w.exact = (w.digits * Nat.pow 10 w.exponent.toNat : ℕ) / (1 : ℕ) := by
        rw [Nat.cast_mul, cast_natPow 10 hexponent, Nat.cast_one, div_one, exact, Nat.cast_ofNat]
      rw [hexact]
      exact rounds_nearest Nat.one_pos
    · rename_i hexponent
      have hexact : w.exact = w.digits / (Nat.pow 10 (-w.exponent).toNat : ℕ) := by
        rw [cast_natPow 10 (by omega), zpow_neg, div_inv_eq_mul, exact, Nat.cast_ofNat]
      rw [hexact]
      exact rounds_nearest (Nat.pow_pos (by decide))

/-! ## Texts -/

theorem digitsValue_eq (cs : List Char) : digitsValue cs = Nat.ofDigitChars 10 cs 0 := by
  simp only [digitsValue, Nat.ofDigitChars_eq_foldl, Nat.mul_comm 10]

/-- Digits, and one at least. -/
def IsDigits (cs : List Char) : Prop := cs ≠ [] ∧ ∀ c ∈ cs, c.isDigit = true

/-- An exponent: digits, perhaps with a sign. -/
inductive IsExponent : List Char → ℤ → Prop
  | unsigned {digits : List Char} (h : IsDigits digits) :
      IsExponent digits (Nat.ofDigitChars 10 digits 0)
  | plus {digits : List Char} (h : IsDigits digits) :
      IsExponent ('+' :: digits) (Nat.ofDigitChars 10 digits 0)
  | minus {digits : List Char} (h : IsDigits digits) :
      IsExponent ('-' :: digits) (-Nat.ofDigitChars 10 digits 0)

/-- What stands behind the digits of a decimal: nothing, or an exponent behind its mark. -/
inductive IsTail : List Char → ℤ → Prop
  | none : IsTail [] 0
  | exponent {mark : Char} {cs : List Char} {e : ℤ} (hmark : mark = 'e' ∨ mark = 'E')
      (h : IsExponent cs e) : IsTail (mark :: cs) e

/-- A decimal without a sign, and its value. -/
inductive IsDecimal : List Char → ℚ → Prop
  | whole {digits tail : List Char} {e : ℤ} (h : IsDigits digits) (htail : IsTail tail e) :
      IsDecimal (digits ++ tail) (Nat.ofDigitChars 10 digits 0 * 10 ^ e)
  | point {whole fraction tail : List Char} {e : ℤ} (h : IsDigits (whole ++ fraction))
      (htail : IsTail tail e) :
      IsDecimal (whole ++ '.' :: fraction ++ tail)
        (Nat.ofDigitChars 10 (whole ++ fraction) 0 * 10 ^ (e - fraction.length))

theorem readExponent?_eq_some_iff {cs : List Char} {e : ℤ} :
    readExponent? cs = some e ↔ IsExponent cs e := by
  have hvalue {digits : List Char} {n : ℤ} :
      (if digits.isEmpty || !digits.all Char.isDigit then none else some (digitsValue digits : ℤ)) =
        some n ↔ IsDigits digits ∧ (Nat.ofDigitChars 10 digits 0 : ℤ) = n := by
    rw [Option.ite_none_left_eq_some, Option.some.injEq, digitsValue_eq, IsDigits]
    simp
  have hsign {sign : Char} {digits : List Char} (h : sign.isDigit = false) :
      ¬ IsDigits (sign :: digits) := fun hdigits => by
    rw [hdigits.2 sign List.mem_cons_self] at h
    cases h
  unfold readExponent?
  dsimp only
  split
  · rw [Option.map_eq_some_iff]
    simp only [hvalue]
    constructor
    · rintro ⟨_, ⟨hdigits, rfl⟩, rfl⟩
      exact .minus hdigits
    · intro h
      cases h with
      | unsigned hdigits => exact absurd hdigits (hsign rfl)
      | minus hdigits => exact ⟨_, ⟨hdigits, rfl⟩, rfl⟩
  · rw [hvalue]
    constructor
    · rintro ⟨hdigits, rfl⟩
      exact .plus hdigits
    · intro h
      cases h with
      | unsigned hdigits => exact absurd hdigits (hsign rfl)
      | plus hdigits => exact ⟨hdigits, rfl⟩
  · rename_i hminus hplus
    rw [hvalue]
    constructor
    · rintro ⟨hdigits, rfl⟩
      exact .unsigned hdigits
    · intro h
      cases h with
      | unsigned hdigits => exact ⟨hdigits, rfl⟩
      | plus => exact absurd rfl (hplus _)
      | minus => exact absurd rfl (hminus _)

theorem readTail?_eq_some_iff {cs : List Char} {e : ℤ} : readTail? cs = some e ↔ IsTail cs e := by
  cases cs with
  | nil =>
    rw [readTail?, Option.some.injEq]
    constructor
    · rintro rfl
      exact .none
    · intro h
      cases h
      rfl
  | cons mark cs =>
    rw [readTail?, Option.ite_none_right_eq_some, readExponent?_eq_some_iff]
    constructor
    · exact fun h => .exponent h.1 h.2
    · intro h
      cases h with
      | exponent hmark h => exact ⟨hmark, h⟩

theorem IsTail.head {cs : List Char} {e : ℤ} (h : IsTail cs e) :
    ∀ c ∈ cs.head?, c.isDigit = false ∧ c ≠ '.' := by
  cases h with
  | none => nofun
  | exponent hmark =>
    intro c hc
    cases hc
    rcases hmark with rfl | rfl <;> decide

/-- A decimal is read from the parts into which it is cut. -/
theorem readWritten?_eq_some_iff {cs whole fraction tail : List Char} {w : Written}
    (hwhole : cs.takeWhile Char.isDigit = whole)
    (hcut : cutFraction (cs.dropWhile Char.isDigit) = (fraction, tail)) :
    readWritten? cs = some w ↔ whole ++ fraction ≠ [] ∧ ∃ e, IsTail tail e ∧
      ⟨Nat.ofDigitChars 10 (whole ++ fraction) 0, e - fraction.length⟩ = w := by
  rw [readWritten?, hwhole, hcut]
  simp only [Option.ite_none_left_eq_some, Option.map_eq_some_iff, readTail?_eq_some_iff,
    digitsValue_eq]
  simp

theorem cutFraction_of_head {cs : List Char} (h : ∀ c ∈ cs.head?, c ≠ '.') :
    cutFraction cs = ([], cs) := by
  unfold cutFraction
  split
  · exact absurd rfl (h '.' rfl)
  · rfl

theorem isDecimal_of_readWritten? {cs : List Char} {w : Written} (h : readWritten? cs = some w) :
    IsDecimal cs w.exact := by
  have hcs := List.takeWhile_append_dropWhile (p := Char.isDigit) (l := cs)
  have hwhole : ∀ c ∈ cs.takeWhile Char.isDigit, c.isDigit = true :=
    fun c hc => List.mem_takeWhile_imp hc
  generalize hrest : cs.dropWhile Char.isDigit = rest at hcs
  by_cases hpoint : rest.head? = some '.'
  · obtain ⟨after, rfl⟩ := List.head?_eq_some_iff.1 hpoint
    have hcut : cutFraction (cs.dropWhile Char.isDigit) =
        (after.takeWhile Char.isDigit, after.dropWhile Char.isDigit) := by rw [hrest, cutFraction]
    obtain ⟨hne, e, htail, rfl⟩ := (readWritten?_eq_some_iff rfl hcut).1 h
    have hfraction : ∀ c ∈ after.takeWhile Char.isDigit, c.isDigit = true :=
      fun c hc => List.mem_takeWhile_imp hc
    have hdigits : IsDigits (cs.takeWhile Char.isDigit ++ after.takeWhile Char.isDigit) :=
      ⟨hne, List.forall_mem_append.2 ⟨hwhole, hfraction⟩⟩
    have hdecimal := IsDecimal.point hdigits htail
    rwa [List.append_assoc, List.cons_append, List.takeWhile_append_dropWhile, hcs] at hdecimal
  · have hcut : cutFraction (cs.dropWhile Char.isDigit) = ([], rest) := by
      rw [hrest]
      apply cutFraction_of_head
      rintro c hc rfl
      exact hpoint hc
    obtain ⟨hne, e, htail, rfl⟩ := (readWritten?_eq_some_iff rfl hcut).1 h
    rw [List.append_nil] at hne ⊢
    have hdecimal := IsDecimal.whole ⟨hne, hwhole⟩ htail
    rw [hcs] at hdecimal
    simpa [Written.exact] using hdecimal

theorem exists_readWritten? {cs : List Char} {q : ℚ} (h : IsDecimal cs q) :
    ∃ w, readWritten? cs = some w ∧ w.exact = q := by
  cases h with
  | @whole digits tail e hdigits htail =>
    obtain ⟨htake, hdrop⟩ := takeWhile_append_eq hdigits.2 fun c hc => (htail.head c hc).1
    have hcut : cutFraction ((digits ++ tail).dropWhile Char.isDigit) = ([], tail) := by
      rw [hdrop]
      exact cutFraction_of_head fun c hc => (htail.head c hc).2
    refine ⟨_, (readWritten?_eq_some_iff htake hcut).2 ⟨?_, e, htail, rfl⟩, ?_⟩
    · rw [List.append_nil]
      exact hdigits.1
    · simp [Written.exact]
  | @point whole fraction tail e hdigits htail =>
    obtain ⟨hwhole, hfraction⟩ := List.forall_mem_append.1 hdigits.2
    have hpoint : ∀ c ∈ ('.' :: fraction ++ tail).head?, c.isDigit = false := by
      intro c hc
      cases hc
      rfl
    obtain ⟨htake, hdrop⟩ := takeWhile_append_eq hwhole hpoint
    obtain ⟨htake', hdrop'⟩ := takeWhile_append_eq hfraction fun c hc => (htail.head c hc).1
    have hcut : cutFraction ((whole ++ ('.' :: fraction ++ tail)).dropWhile Char.isDigit) =
        (fraction, tail) := by
      rw [hdrop, List.cons_append, cutFraction, htake', hdrop']
    rw [List.append_assoc]
    exact ⟨_, (readWritten?_eq_some_iff htake hcut).2 ⟨hdigits.1, e, htail, rfl⟩, rfl⟩

/-! ## Signs and words -/

/-- A number without a sign, and its value. -/
inductive IsMagnitude (cs : List Char) : WithTop ℚ → Prop
  | infinity (h : cs.map Char.toLower = "inf".toList ∨ cs.map Char.toLower = "infinity".toList) :
      IsMagnitude cs ⊤
  | decimal {q : ℚ} (h : IsDecimal cs q) : IsMagnitude cs q

/-- The text denotes `a`: a number that is not negative, perhaps after a `+`. -/
def Denotes (cs : List Char) (a : WithTop ℚ) : Prop :=
  ∃ core, (cs = core ∨ cs = '+' :: core) ∧ IsMagnitude core a

theorem not_isUpper_of_isDigit {c : Char} (h : c.isDigit = true) : ¬ c.isUpper = true := by
  have hdigit := toNat_of_isDigit h
  simp only [Char.isUpper, decide_eq_true_eq, UInt32.le_iff_toNat_le, not_and]
  intro hlow
  have : 65 ≤ c.toNat := hlow
  omega

/-- No word is a decimal. -/
theorem IsDecimal.head_of_toLower {cs : List Char} {q : ℚ} (h : IsDecimal cs q) {c : Char}
    {rest : List Char} (hword : cs.map Char.toLower = c :: rest) : c.isDigit = true ∨ c = '.' := by
  have hlower {c c' : Char} {rest rest' : List Char} (hc : c.isDigit = true)
      (hword : (c :: rest).map Char.toLower = c' :: rest') : c'.isDigit = true := by
    rw [List.map_cons, Char.toLower_eq_of_not_isUpper (not_isUpper_of_isDigit hc)] at hword
    rwa [← (List.cons.inj hword).1]
  cases h with
  | @whole digits tail _ hdigits _ =>
    obtain ⟨first, more, rfl⟩ := List.exists_cons_of_ne_nil hdigits.1
    exact .inl (hlower (hdigits.2 first List.mem_cons_self) hword)
  | @point whole fraction tail _ hdigits _ =>
    cases whole with
    | nil => exact .inr (List.cons.inj hword).1.symm
    | cons first more => exact .inl (hlower (hdigits.2 first List.mem_cons_self) hword)

theorem exists_readMagnitude? {cs : List Char} {a : WithTop ℚ} (h : IsMagnitude cs a) :
    ∃ x, readMagnitude? cs = some x ∧ Rounds a x := by
  cases h with
  | infinity hword => exact ⟨.infinity, if_pos hword, rounds_infinity le_top⟩
  | decimal hdecimal =>
    obtain ⟨w, hread, rfl⟩ := exists_readWritten? hdecimal
    have hword {word : List Char} (h : cs.map Char.toLower = 'i' :: word ∨
        cs.map Char.toLower = 'n' :: word) : False := by
      rcases h with h | h <;> exact absurd (hdecimal.head_of_toLower h) (by decide)
    refine ⟨w.value, ?_, w.rounds_value⟩
    rw [readMagnitude?, hread, if_neg, if_neg]
    · rfl
    · exact fun h => hword (.inr h)
    · exact fun h => h.elim (fun h => hword (.inl h)) fun h => hword (.inl h)

theorem of_readMagnitude? {cs : List Char} {x : Binary64} (h : readMagnitude? cs = some x) :
    x = .nan ∨ ∃ a, IsMagnitude cs a ∧ Rounds a x := by
  rw [readMagnitude?] at h
  split at h
  · cases h
    exact .inr ⟨⊤, .infinity ‹_›, rounds_infinity le_top⟩
  split at h
  · cases h
    exact .inl rfl
  · obtain ⟨w, hread, rfl⟩ := Option.map_eq_some_iff.1 h
    exact .inr ⟨w.exact, .decimal (isDecimal_of_readWritten? hread), w.rounds_value⟩

/-- A number has no sign in front. -/
theorem IsMagnitude.ne_sign {cs : List Char} {a : WithTop ℚ} (h : IsMagnitude cs a)
    (rest : List Char) : cs ≠ '-' :: rest ∧ cs ≠ '+' :: rest := by
  cases h with
  | infinity hword =>
    constructor <;>
    · rintro rfl
      rcases hword with hword | hword <;> exact absurd (List.cons.inj hword).1 (by decide)
  | decimal hdecimal =>
    constructor <;>
    · rintro rfl
      exact absurd (hdecimal.head_of_toLower rfl) (by decide)

theorem exists_readFloat? {cs : List Char} {a : WithTop ℚ} (h : Denotes cs a) :
    ∃ x, readFloat? cs = some x ∧ Rounds a x := by
  obtain ⟨core, rfl | rfl, hcore⟩ := h
  · obtain ⟨x, hread, hrounds⟩ := exists_readMagnitude? hcore
    refine ⟨x, ?_, hrounds⟩
    unfold readFloat?
    split
    · exact absurd rfl (hcore.ne_sign _).1
    · exact absurd rfl (hcore.ne_sign _).2
    · exact hread
  · exact exists_readMagnitude? hcore

/-- Only numbers are read as positive floats. -/
theorem exists_denotes_of_readFloat? {cs : List Char} {x : Binary64} (h : readFloat? cs = some x)
    (hpos : 0 < x) : ∃ a, Denotes cs a ∧ Rounds a x := by
  unfold readFloat? at h
  split at h
  · obtain ⟨y, hread, rfl⟩ := Option.map_eq_some_iff.1 h
    rcases of_readMagnitude? hread with rfl | ⟨a, -, hrounds⟩
    · exact absurd hpos (by decide)
    · exact absurd hpos hrounds.unsigned.not_zero_lt_neg
  · rcases of_readMagnitude? h with rfl | ⟨a, hmagnitude, hrounds⟩
    · exact absurd hpos (by decide)
    · exact ⟨a, ⟨_, .inr rfl, hmagnitude⟩, hrounds⟩
  · rcases of_readMagnitude? h with rfl | ⟨a, hmagnitude, hrounds⟩
    · exact absurd hpos (by decide)
    · exact ⟨a, ⟨_, .inl rfl, hmagnitude⟩, hrounds⟩

/-! ## No blanks -/

theorem IsExponent.isBlank_eq_false {cs : List Char} {e : ℤ} (h : IsExponent cs e) :
    ∀ c ∈ cs, isBlank c = false := by
  have hblank {digits : List Char} (hdigits : IsDigits digits) : ∀ c ∈ digits, isBlank c = false :=
    fun c hc => isBlank_of_isDigit (hdigits.2 c hc)
  cases h with
  | unsigned hdigits => exact hblank hdigits
  | plus hdigits => exact List.forall_mem_cons.2 ⟨by decide, hblank hdigits⟩
  | minus hdigits => exact List.forall_mem_cons.2 ⟨by decide, hblank hdigits⟩

theorem IsTail.isBlank_eq_false {cs : List Char} {e : ℤ} (h : IsTail cs e) :
    ∀ c ∈ cs, isBlank c = false := by
  cases h with
  | none => exact List.forall_mem_nil _
  | exponent hmark hexponent =>
    refine List.forall_mem_cons.2 ⟨?_, hexponent.isBlank_eq_false⟩
    rcases hmark with rfl | rfl <;> decide

theorem IsDecimal.isBlank_eq_false {cs : List Char} {q : ℚ} (h : IsDecimal cs q) :
    ∀ c ∈ cs, isBlank c = false := by
  cases h with
  | whole hdigits htail =>
    refine List.forall_mem_append.2 ⟨fun c hc => ?_, htail.isBlank_eq_false⟩
    exact isBlank_of_isDigit (hdigits.2 c hc)
  | point hdigits htail =>
    obtain ⟨hwhole, hfraction⟩ := List.forall_mem_append.1 hdigits.2
    refine List.forall_mem_append.2 ⟨List.forall_mem_append.2 ⟨fun c hc => ?_,
      List.forall_mem_cons.2 ⟨by decide, fun c hc => ?_⟩⟩, htail.isBlank_eq_false⟩
    · exact isBlank_of_isDigit (hwhole c hc)
    · exact isBlank_of_isDigit (hfraction c hc)

theorem not_isUpper_of_isBlank {c : Char} (h : isBlank c = true) : ¬ c.isUpper = true := by
  simp only [isBlank, blankRanges, List.any_cons, List.any_nil, Bool.or_false, Bool.or_eq_true,
    Bool.and_eq_true, decide_eq_true_eq] at h
  simp only [Char.isUpper, decide_eq_true_eq, UInt32.le_iff_toNat_le, not_and]
  intro hlow hhigh
  have hlow : 65 ≤ c.toNat := hlow
  have hhigh : c.toNat ≤ 90 := hhigh
  omega

theorem isBlank_eq_false_of_toLower {cs word : List Char} (h : cs.map Char.toLower = word)
    (hword : word.all (!isBlank ·) = true) : ∀ c ∈ cs, isBlank c = false := by
  intro c hc
  by_contra hblank
  rw [Bool.not_eq_false] at hblank
  have hlower := List.all_eq_true.1 hword c.toLower (h ▸ List.mem_map_of_mem hc)
  rw [Char.toLower_eq_of_not_isUpper (not_isUpper_of_isBlank hblank), hblank] at hlower
  cases hlower

theorem Denotes.isBlank_eq_false {cs : List Char} {a : WithTop ℚ} (h : Denotes cs a) :
    ∀ c ∈ cs, isBlank c = false := by
  obtain ⟨core, hcs, hcore⟩ := h
  have hblank : ∀ c ∈ core, isBlank c = false := by
    cases hcore with
    | infinity hword =>
      rcases hword with hword | hword <;> exact isBlank_eq_false_of_toLower hword (by decide)
    | decimal hdecimal => exact hdecimal.isBlank_eq_false
  rcases hcs with rfl | rfl
  · exact hblank
  · exact List.forall_mem_cons.2 ⟨by decide, hblank⟩

end CacheDelay.Decimal

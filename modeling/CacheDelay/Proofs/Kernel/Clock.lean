import CacheDelay.Kernel.Clock
import CacheDelay.Proofs.Decimal.Reader
import CacheDelay.Proofs.Results
import CacheDelay.Report.Config

/-!
# What a description of the processors says

A line gives a frequency if a number stands between its first two colons (`Gives`). The frequency of
the clock is the first one above `floatFloor`, which is not read as zero
(`processorMhz?_of_first_given`). It can be used in an analysis if it is in the range of floats. It
need not be: a line may give an infinite frequency, which is taken in place of a finite one further
down (`processorMhz?_infinite`).
-/

namespace CacheDelay.Kernel

open CacheDelay.Decimal CacheDelay.Report CacheDelay.Text

variable {line : List Char} {a : WithTop ℚ} {x : Binary64}

/-- The line gives the frequency `a`: it begins with `cpu MHz`, and between its first two colons
stands a number for `a`, perhaps between blanks. -/
def Gives (line : List Char) (a : WithTop ℚ) : Prop :=
  "cpu MHz".toList <+: line ∧ ∃ front field rest number,
    (':' ∉ front ∧ line = front ++ ':' :: (field ++ rest)) ∧
      (':' ∉ field ∧ ∀ c ∈ rest.head?, c = ':') ∧ Padded field number ∧ Denotes number a

/-- The line gives a frequency that is not read as zero. -/
def GivesPositive (line : List Char) : Prop := ∃ a, Gives line a ∧ floatFloor < a

/-- The first of the lines with a frequency that is not read as zero gives the frequency `a`. -/
def FirstGiven (lines : List (List Char)) (a : WithTop ℚ) : Prop :=
  ∃ before line after, lines = before ++ line :: after ∧ Gives line a ∧ floatFloor < a ∧
    ∀ other ∈ before, ¬ GivesPositive other

/-! ## One line -/

theorem readMhzLine?_eq_some_iff : readMhzLine? line = some x ↔
    "cpu MHz".toList <+: line ∧ ∃ front rest, (':' ∉ front ∧ line = front ++ ':' :: rest) ∧
      readFloat? (trim (rest.takeWhile (· != ':'))) = some x ∧ 0 < x := by
  rw [readMhzLine?]
  generalize "cpu MHz".toList = key
  rw [← List.isPrefixOf_iff_prefix]
  cases key.isPrefixOf line with
  | false => exact iff_of_false nofun (fun h => absurd h.1 (by decide))
  | true =>
    simp only [← cutAt_eq_some_iff, Bool.not_true, Bool.false_eq_true, if_false, true_and,
      Option.bind_eq_bind, Option.bind_eq_some_iff, Prod.exists,
      Option.ite_none_right_eq_some, Option.some.injEq, exists_eq_right_right]

/-- A line that gives a positive frequency is read. -/
theorem exists_readMhzLine? (h : Gives line a) (hpos : floatFloor < a) :
    ∃ x, readMhzLine? line = some x ∧ Rounds a x := by
  obtain ⟨hkey, front, field, rest, number, hline, ⟨hfield, hrest⟩, hpadded, hnumber⟩ := h
  obtain ⟨x, hread, hrounds⟩ := exists_readFloat? hnumber
  have hfield : ∀ c ∈ field, (c != ':') = true := by
    intro c hc
    rw [bne_iff_ne]
    rintro rfl
    exact hfield hc
  have hrest : ∀ c ∈ rest.head?, (c != ':') = false := by
    intro c hc
    rw [hrest c hc]
    rfl
  refine ⟨x, readMhzLine?_eq_some_iff.2 ⟨hkey, front, field ++ rest, hline, ?_, ?_⟩, hrounds⟩
  · rw [(takeWhile_append_eq hfield hrest).1, trim_of_padded hnumber.isBlank_eq_false hpadded,
      hread]
  · exact hrounds.zero_lt_iff.2 hpos

theorem exists_gives_of_readMhzLine? (h : readMhzLine? line = some x) :
    ∃ a, Gives line a ∧ floatFloor < a ∧ Rounds a x := by
  obtain ⟨hkey, front, rest, hline, hread, hpos⟩ := readMhzLine?_eq_some_iff.1 h
  obtain ⟨a, hdenotes, hrounds⟩ := exists_denotes_of_readFloat? hread hpos
  refine ⟨a, ⟨hkey, front, rest.takeWhile (· != ':'), rest.dropWhile (· != ':'), _, ?_, ⟨?_, ?_⟩,
    padded_trim _, hdenotes⟩, hrounds.zero_lt_iff.1 hpos, hrounds⟩
  · rwa [List.takeWhile_append_dropWhile]
  · intro hmem
    exact absurd (List.mem_takeWhile_imp hmem) (by decide)
  · intro c hc
    have hstop := List.head?_dropWhile_not (· != ':') rest
    rw [Option.mem_def.1 hc] at hstop
    simpa using hstop

theorem readMhzLine?_eq_none_iff : readMhzLine? line = none ↔ ¬ GivesPositive line := by
  constructor
  · rintro h ⟨a, hgives, hpos⟩
    obtain ⟨x, hread, -⟩ := exists_readMhzLine? hgives hpos
    cases h.symm.trans hread
  · intro h
    cases hread : readMhzLine? line with
    | none => rfl
    | some x =>
      obtain ⟨a, hgives, hpos, -⟩ := exists_gives_of_readMhzLine? hread
      exact absurd ⟨a, hgives, hpos⟩ h

/-! ## Lines in turn -/

theorem validate_eq_ok_iff {config : Config} (h : config.extent? = none) :
    config.validate = .ok () ↔ config.mhz.isFinite = true ∧ 0 < config.mhz := by
  rw [Config.validate, h]
  dsimp only
  rw [ite_error_eq_ok_iff, and_iff_left rfl, Bool.not_eq_true', Bool.not_eq_false,
    Bool.and_eq_true, decide_eq_true_eq]

/-- The frequency is the first that a line gives and that is not read as zero, and there is none
just if no line gives such a one. An analysis accepts it if it is in the range of floats. -/
theorem processorMhz?_of_first_given (text : List Char) :
    (processorMhz? text = none ↔ ∀ line ∈ lines text, ¬ GivesPositive line) ∧
      ∀ mhz, processorMhz? text = some mhz → 0 < mhz ∧ ∃ a, FirstGiven (lines text) a ∧
        ∀ config : Config, config.mhz = mhz → config.extent? = none →
          (config.validate = .ok () ↔ a < floatLimit) := by
  constructor
  · simp only [processorMhz?, List.findSome?_eq_none_iff, readMhzLine?_eq_none_iff]
  · intro mhz h
    obtain ⟨before, line, after, hlines, hline, hbefore⟩ := List.findSome?_eq_some_iff.1 h
    obtain ⟨a, hgives, hpos, hrounds⟩ := exists_gives_of_readMhzLine? hline
    have hmhz := hrounds.zero_lt_iff.2 hpos
    refine ⟨hmhz, a, ⟨before, line, after, hlines, hgives, hpos, ?_⟩, ?_⟩
    · exact fun other hother => readMhzLine?_eq_none_iff.1 (hbefore other hother)
    · rintro config rfl hextent
      rw [validate_eq_ok_iff hextent, and_iff_left hmhz, hrounds.isFinite_iff]

/-- A zero and what is no number are passed over. -/
theorem processorMhz?_of_first_given_in_third_line :
    let text := "cpu MHz: 0\ncpu MHz\t: nan\ncpu MHz : +2.128207e3 : 5\n".toList
    let config : Config := { mhz := ⟨0x40A0A069FBE76C8B⟩ }
    processorMhz? text = some config.mhz ∧ 0 < config.mhz ∧ config.validate = .ok () ∧
      ∃ a, FirstGiven (lines text) a ∧ a < floatLimit := by
  have hvalid : Config.validate { mhz := ⟨0x40A0A069FBE76C8B⟩ } = .ok () := rfl
  intro text config
  have hread : processorMhz? text = some config.mhz := by decide +kernel
  obtain ⟨hpos, a, hfirst, hlimit⟩ := (processorMhz?_of_first_given text).2 config.mhz hread
  exact ⟨hread, hpos, hvalid, a, hfirst, (hlimit config rfl rfl).1 hvalid⟩

/-- An infinite frequency is taken in place of a finite one on a later line, and no analysis accepts
it. -/
theorem processorMhz?_infinite :
    let text := "cpu MHz\t\t: inf\ncpu MHz\t\t: 2128.207\n".toList
    processorMhz? text = some .infinity ∧
      Config.validate { mhz := .infinity } = .error (.badClock .infinity) ∧
      (lines text).map readMhzLine? = [some .infinity, some ⟨0x40A0A069FBE76C8B⟩] ∧
      Config.validate { mhz := ⟨0x40A0A069FBE76C8B⟩ } = .ok () := by
  refine ⟨by decide +kernel, rfl, by decide +kernel, rfl⟩

end CacheDelay.Kernel

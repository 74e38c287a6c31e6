import CacheDelay.Proofs.Status.SharedMemory
import Mathlib.Algebra.Order.Floor.Div
import Mathlib.Order.Bounds.Basic

/-!
# Whole pages

Counting without bounds, the pages that a request needs have the least length that is a multiple of
the page size and holds it (`isLeast_pagesLength`). Rounding gives this length or none
(`roundToPages_eq_ok_iff`): none exactly if the request is longer than as many pages as a 64-bit
word can count (`exists_roundToPages_iff`, `wordPages`), so that no length is ever cut
(`roundToPages_isLeast`).
-/

namespace CacheDelay.Status

variable {page size limit n : Nat}

/-- The lengths of one or more whole pages that hold `size` bytes. -/
def pageLengths (page size : Nat) : Set Nat := {n | page ∣ n ∧ max size 1 ≤ n}

/-- The length of the pages that are needed for `size` bytes, however long. -/
def pagesLength (page size : Nat) : Nat := (max size 1 + page - 1) / page * page

/-- The length of as many pages as a word can count. -/
def wordPages (page : Nat) : Nat := Text.maxWord64 / page * page

/-! ## Lengths of pages -/

theorem isLeast_pagesLength (hpage : 0 < page) (size : Nat) :
    IsLeast (pageLengths page size) (pagesLength page size) := by
  refine ⟨⟨Nat.dvd_mul_left .., ?_⟩, ?_⟩
  · rw [pagesLength, Nat.mul_comm]
    exact le_smul_ceilDiv hpage
  · rintro n ⟨⟨k, rfl⟩, hk⟩
    have hcount : (max size 1 + page - 1) / page ≤ k := (ceilDiv_le_iff_le_mul hpage).2 hk
    rw [pagesLength, Nat.mul_comm]
    exact Nat.mul_le_mul_left page hcount

/-- The pages are within `limit` just if the bytes are within the whole pages of `limit`. -/
theorem pagesLength_le_iff (hpage : 0 < page) :
    pagesLength page size ≤ limit ↔ max size 1 ≤ limit / page * page := by
  obtain ⟨⟨hdvd, hholds⟩, hleast⟩ := isLeast_pagesLength hpage size
  constructor
  · intro hle
    calc max size 1
        ≤ pagesLength page size := hholds
      _ = pagesLength page size / page * page := (Nat.div_mul_cancel hdvd).symm
      _ ≤ limit / page * page := Nat.mul_le_mul_right page (Nat.div_le_div_right hle)
  · intro hfits
    exact (hleast ⟨Nat.dvd_mul_left .., hfits⟩).trans (Nat.div_mul_le_self limit page)

/-! ## Rounding -/

theorem roundToPages_eq_ok_iff :
    roundToPages page size = .ok n ↔ pagesLength page size ≤ Text.maxWord64 ∧
      pagesLength page size = n := by
  rw [roundToPages, ite_error_eq_ok_iff, Nat.not_lt, Except.ok.injEq]
  rfl

/-- A request is rounded just if it is no longer than as many pages as a word can count. -/
theorem exists_roundToPages_iff (hpage : 0 < page) :
    (∃ n, roundToPages page size = .ok n) ↔ max size 1 ≤ wordPages page := by
  simp only [roundToPages_eq_ok_iff, exists_and_left, exists_eq', and_true]
  exact pagesLength_le_iff hpage

theorem isLeast_of_roundToPages (hpage : 0 < page) (h : roundToPages page size = .ok n) :
    IsLeast (pageLengths page size) n := by
  obtain ⟨-, rfl⟩ := roundToPages_eq_ok_iff.1 h
  exact isLeast_pagesLength hpage size

/-- Every page size of a word leaves room for the status page. -/
theorem pageBytes_le_wordPages (hpage : 0 < page) (hword : page ≤ Text.maxWord64) :
    max pageBytes 1 ≤ wordPages page := by
  have hrest := Nat.mod_lt Text.maxWord64 hpage
  have hsplit := Nat.div_add_mod' Text.maxWord64 page
  have hone : page ≤ Text.maxWord64 / page * page :=
    Nat.le_mul_of_pos_left page (Nat.div_pos hword hpage)
  have hroom : 2 * max pageBytes 1 ≤ Text.maxWord64 := by decide
  rw [wordPages]
  omega

/-- What rounding gives is the least length of whole pages that holds the request, counted without
bounds, and a word that is no shorter than the request. It gives one exactly if the request is no
longer than as many pages as a word can count. The status page gets its least length whatever the
page size, and so does memory that is created. -/
theorem roundToPages_isLeast (hpage : 0 < page) :
    (∀ size n, roundToPages page size = .ok n →
      IsLeast (pageLengths page size) n ∧ n ≤ Text.maxWord64 ∧ size ≤ n) ∧
    (∀ size, (∃ n, roundToPages page size = .ok n) ↔ max size 1 ≤ wordPages page) ∧
    (page ≤ Text.maxWord64 → ∃ n, roundToPages page pageBytes = .ok n ∧
      IsLeast (pageLengths page pageBytes) n) ∧
    ∀ name size m, SharedMemory.create name size = .ok m →
      wholePages size = .ok m.size ∧ IsLeast (pageLengths memoryPage size) m.size := by
  refine ⟨fun size n h => ?_, fun size => exists_roundToPages_iff hpage, fun hword => ?_,
    fun name size m h => ?_⟩
  · obtain ⟨hword, rfl⟩ := roundToPages_eq_ok_iff.1 h
    have hleast := isLeast_pagesLength hpage size
    exact ⟨hleast, hword, (le_max_left size 1).trans hleast.1.2⟩
  · obtain ⟨n, h⟩ := (exists_roundToPages_iff hpage).2 (pageBytes_le_wordPages hpage hword)
    exact ⟨n, h, isLeast_of_roundToPages hpage h⟩
  · obtain ⟨length, hlength, -, rfl⟩ := SharedMemory.eq_of_create_eq_ok h
    exact ⟨hlength, isLeast_of_roundToPages (by decide) hlength⟩

/-- The length of as many pages as a word can count is rounded to itself, and one byte more is
refused. -/
theorem roundToPages_isLeast_at_wordPages :
    0 < memoryPage ∧
      (∃ n, wholePages 0xFFFFFFFFFFFFF000 = .ok n ∧
        IsLeast (pageLengths memoryPage 0xFFFFFFFFFFFFF000) n) ∧
      ¬∃ n, wholePages 0xFFFFFFFFFFFFF001 = .ok n := by
  have hpage : 0 < memoryPage := by decide
  obtain ⟨hleast, hfits, -⟩ := roundToPages_isLeast hpage
  obtain ⟨n, hn⟩ := (hfits 0xFFFFFFFFFFFFF000).2 (by decide)
  exact ⟨hpage, ⟨n, hn, (hleast _ n hn).1⟩, mt (hfits _).1 (by decide)⟩

end CacheDelay.Status

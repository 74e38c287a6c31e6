import CacheDelay.Proofs.Results
import CacheDelay.Proofs.Text.Numeral
import CacheDelay.Topology.CpuList

/-!
# What CPU lists say

The pieces of a CPU list are CPUs and ranges of CPUs (`IsPiece`). A list is read exactly if each of
its pieces is one, as the numbers of the pieces in turn (`readCpuList_eq_ok_iff`). In particular a
list in the notation of the kernel, single numbers and ranges with commas between them, is read as
the CPUs of its ranges, also with blanks around it (`readCpuList_of_padded`).
-/

namespace CacheDelay.Topology

open CacheDelay.Text

/-! ## Pieces -/

/-- The text is the number `n` of a CPU, perhaps between blanks. -/
def IsCpu (cs : List Char) (n : Nat) : Prop :=
  ∃ numeral, Padded cs numeral ∧ IsNumeral maxWord32 numeral n

/-- The piece is a CPU, or a range of CPUs that is cut at the first hyphen. -/
inductive IsPiece : List Char → List Nat → Prop where
  | single {piece : List Char} {n : Nat} (hhyphen : '-' ∉ piece) (hcpu : IsCpu piece n) :
    IsPiece piece [n]
  | range {before after : List Char} {low high : Nat} (hhyphen : '-' ∉ before)
    (hlow : IsCpu before low) (hhigh : IsCpu after high) (hle : low ≤ high) :
    IsPiece (before ++ '-' :: after) (List.range' low (high + 1 - low))

/-- The pieces of a list, between its commas. Empty ones do not count. -/
def listPieces (list : List Char) : List (List Char) :=
  ((trim list).splitOn ',').filter (!·.isEmpty)

variable {cs piece list : List Char} {c : Char} {n : Nat} {numbers : List Nat}
  {cpu low high : UInt32} {cpus : List UInt32} {range : UInt32 × UInt32}
  {ranges : List (UInt32 × UInt32)}

theorem IsCpu.lt (h : IsCpu cs n) : n < UInt32.size := by
  obtain ⟨numeral, -, hnumeral⟩ := h
  exact Nat.lt_succ_of_le hnumeral.le

theorem readCpu_eq_ok_iff : readCpu cs = .ok cpu ↔ IsCpu cs cpu.toNat := by
  have hword : readCpu cs = .ok cpu ↔ readNumeral maxWord32 (trim cs) = .ok cpu.toNat := by
    rw [readCpu]
    cases hread : readNumeral maxWord32 (trim cs) with
    | error fault => exact iff_of_false (fun h => by cases h) fun h => by cases h
    | ok n =>
      have hlt : n < UInt32.size := Nat.lt_succ_of_le (readNumeral_eq_ok_iff.1 hread).le
      rw [Except.ok.injEq, Except.ok.injEq, ← UInt32.toNat_inj, UInt32.toNat_ofNat_of_lt' hlt]
  rw [hword, readNumeral_trim_eq_ok_iff]
  rfl

theorem readCpu_of_isCpu (h : IsCpu cs n) : readCpu cs = .ok (UInt32.ofNat n) := by
  rw [readCpu_eq_ok_iff, UInt32.toNat_ofNat_of_lt' h.lt]
  exact h

theorem toNat_cpuRange (low high : UInt32) : (cpuRange low high).map UInt32.toNat =
    List.range' low.toNat (high.toNat + 1 - low.toNat) := by
  rw [cpuRange, List.map_map]
  refine (List.map_congr_left fun n hn => ?_).trans (List.map_id _)
  have hn := List.mem_range'_1.1 hn
  have hhigh := high.toNat_lt
  have hlt : n < UInt32.size := by
    show n < 4294967296
    omega
  exact UInt32.toNat_ofNat_of_lt' hlt

theorem readPiece_of_isPiece (h : IsPiece piece numbers) :
    readPiece piece = .ok (numbers.map UInt32.ofNat) := by
  cases h with
  | single hhyphen hcpu =>
    rw [readPiece, cutAt_of_not_mem hhyphen]
    dsimp only
    rw [readCpu_of_isCpu hcpu]
    rfl
  | @range before after low high hhyphen hlow hhigh hle =>
    have hlow' := UInt32.toNat_ofNat_of_lt' hlow.lt
    have hhigh' := UInt32.toNat_ofNat_of_lt' hhigh.lt
    have hle : ¬ UInt32.ofNat high < UInt32.ofNat low := by
      rw [UInt32.lt_iff_toNat_lt, hlow', hhigh']
      exact Nat.not_lt.2 hle
    rw [readPiece, cutAt_append_cons hhyphen]
    simp only [readCpu_of_isCpu hlow, readCpu_of_isCpu hhigh, bind, Except.bind, if_neg hle]
    rw [cpuRange, hlow', hhigh']
    rfl

theorem isPiece_of_readPiece (h : readPiece piece = .ok cpus) :
    IsPiece piece (cpus.map UInt32.toNat) := by
  rw [readPiece] at h
  split at h
  · rename_i hcut
    obtain ⟨cpu, hcpu, h⟩ := bind_eq_ok_iff.1 h
    cases h
    exact .single (cutAt_eq_none_iff.1 hcut) (readCpu_eq_ok_iff.1 hcpu)
  · rename_i before after hcut
    obtain ⟨hhyphen, rfl⟩ := cutAt_eq_some_iff.1 hcut
    obtain ⟨low, hlow, h⟩ := bind_eq_ok_iff.1 h
    obtain ⟨high, hhigh, h⟩ := bind_eq_ok_iff.1 h
    split at h
    · cases h
    · rename_i hle
      cases h
      rw [toNat_cpuRange]
      exact .range hhyphen (readCpu_eq_ok_iff.1 hlow) (readCpu_eq_ok_iff.1 hhigh)
        (UInt32.le_iff_toNat_le.1 (UInt32.not_lt.1 hle))

/-! ## Lists -/

theorem readCpuList_eq_ok_iff_results : readCpuList list = .ok cpus ↔
    ∃ results, List.Forall₂ (fun piece found => readPiece piece = .ok found) (listPieces list)
      results ∧ results.flatten = cpus := by
  show ((listPieces list).mapM readPiece >>= fun results => pure results.flatten) = _ ↔ _
  simp only [bind_eq_ok_iff, mapM_eq_ok_iff, pure, Except.pure, Except.ok.injEq]

/-- A list is read exactly if each of its pieces can be. -/
theorem exists_readCpuList_iff : (∃ cpus, readCpuList list = .ok cpus) ↔
    ∀ piece ∈ listPieces list, ∃ numbers, IsPiece piece numbers := by
  have hread (piece : List Char) :
      (∃ found, readPiece piece = .ok found) ↔ ∃ numbers, IsPiece piece numbers :=
    ⟨fun ⟨_, h⟩ => ⟨_, isPiece_of_readPiece h⟩, fun ⟨_, h⟩ => ⟨_, readPiece_of_isPiece h⟩⟩
  simp only [← hread, ← exists_forall₂_iff, readCpuList_eq_ok_iff_results]
  constructor
  · rintro ⟨cpus, results, hresults, -⟩
    exact ⟨results, hresults⟩
  · rintro ⟨results, hresults⟩
    exact ⟨_, results, hresults, rfl⟩

/-- A list is read as the numbers of its pieces, in their order. -/
theorem readCpuList_eq_ok_iff : readCpuList list = .ok cpus ↔
    ∃ parts, List.Forall₂ IsPiece (listPieces list) parts ∧
      parts.flatten = cpus.map UInt32.toNat := by
  rw [readCpuList_eq_ok_iff_results]
  constructor
  · rintro ⟨results, hresults, rfl⟩
    refine ⟨results.map (List.map UInt32.toNat), ?_, List.map_flatten.symm⟩
    exact List.forall₂_map_right_iff.2 (hresults.imp fun _ _ => isPiece_of_readPiece)
  · rintro ⟨parts, hparts, hcpus⟩
    refine ⟨parts.map (List.map UInt32.ofNat), ?_, ?_⟩
    · exact List.forall₂_map_right_iff.2 (hparts.imp fun _ _ => readPiece_of_isPiece)
    · rw [← List.map_flatten, hcpus, List.map_map]
      exact List.map_id'' (fun cpu => UInt32.ofNat_toNat) cpus

/-! ## Writing -/

/-- The digits of a number. -/
def writeNumber (n : UInt32) : List Char := Nat.toDigits 10 n.toNat

/-- A range of CPUs, as one number if it has one CPU. -/
def writeRange (range : UInt32 × UInt32) : List Char :=
  if range.1 = range.2 then writeNumber range.1
  else writeNumber range.1 ++ '-' :: writeNumber range.2

/-- Ranges of CPUs with commas between them. -/
def writeCpuList (ranges : List (UInt32 × UInt32)) : List Char :=
  [','].intercalate (ranges.map writeRange)

theorem readNumeral_writeNumber (n : UInt32) :
    readNumeral maxWord32 (writeNumber n) = .ok n.toNat :=
  readNumeral_toDigits (Nat.le_of_lt_succ n.toNat_lt)

theorem isCpu_writeNumber (cpu : UInt32) : IsCpu (writeNumber cpu) cpu.toNat :=
  ⟨_, padded_self _, readNumeral_eq_ok_iff.1 (readNumeral_writeNumber cpu)⟩

theorem not_mem_writeNumber (hc : c.isDigit = false) : c ∉ writeNumber cpu := by
  intro hmem
  rw [isDigit_of_mem hmem] at hc
  cases hc

/-- Ranges are written in digits and hyphens. -/
theorem of_mem_writeRange (h : c ∈ writeRange range) : c.isDigit = true ∨ c = '-' := by
  rw [writeRange] at h
  split at h
  · exact .inl (isDigit_of_mem h)
  · rcases List.mem_append.1 h with h | h
    · exact .inl (isDigit_of_mem h)
    · rcases List.mem_cons.1 h with h | h
      · exact .inr h
      · exact .inl (isDigit_of_mem h)

theorem writeRange_ne_nil (range : UInt32 × UInt32) : writeRange range ≠ [] := by
  rw [writeRange]
  split
  · exact Nat.toDigits_ne_nil
  · exact List.append_ne_nil_of_left_ne_nil Nat.toDigits_ne_nil _

theorem mem_cpuRange : cpu ∈ cpuRange low high ↔ low ≤ cpu ∧ cpu ≤ high := by
  rw [cpuRange, List.mem_map, UInt32.le_iff_toNat_le, UInt32.le_iff_toNat_le]
  constructor
  · rintro ⟨n, hn, rfl⟩
    have hrange := List.mem_range'_1.1 hn
    have hhigh := high.toNat_lt
    have hn : n < UInt32.size := by
      show n < 4294967296
      omega
    rw [UInt32.toNat_ofNat_of_lt' hn]
    omega
  · rintro ⟨hlow, hhigh⟩
    exact ⟨cpu.toNat, List.mem_range'_1.2 (by omega), UInt32.ofNat_toNat⟩

theorem isPiece_writeRange (h : range.1 ≤ range.2) : IsPiece (writeRange range)
    (List.range' range.1.toNat (range.2.toNat + 1 - range.1.toNat)) := by
  obtain ⟨low, high⟩ := range
  have hhyphen : '-' ∉ writeNumber low := not_mem_writeNumber (by decide)
  rw [writeRange]
  split
  · rename_i heq
    cases show low = high from heq
    rw [Nat.add_sub_cancel_left, List.range'_one]
    exact .single hhyphen (isCpu_writeNumber low)
  · exact .range hhyphen (isCpu_writeNumber low) (isCpu_writeNumber high)
      (UInt32.le_iff_toNat_le.1 h)

theorem comma_not_mem {piece : List Char} (h : piece ∈ ranges.map writeRange) : ',' ∉ piece := by
  obtain ⟨range, -, rfl⟩ := List.mem_map.1 h
  intro hmem
  rcases of_mem_writeRange hmem with hdigit | hhyphen
  · exact absurd hdigit (by decide)
  · exact absurd hhyphen (by decide)

theorem isBlank_of_mem_writeCpuList (h : c ∈ writeCpuList ranges) : isBlank c = false := by
  rcases of_mem_intercalate h with rfl | ⟨piece, hpiece, hc⟩
  · decide
  · obtain ⟨range, -, rfl⟩ := List.mem_map.1 hpiece
    rcases of_mem_writeRange hc with hdigit | rfl
    · exact isBlank_of_isDigit hdigit
    · decide

/-- The pieces of a list in the notation of the kernel are its ranges. -/
theorem listPieces_of_padded (h : Padded list (writeCpuList ranges)) :
    listPieces list = ranges.map writeRange := by
  rw [listPieces, trim_of_padded (fun _ => isBlank_of_mem_writeCpuList) h]
  by_cases hnil : ranges = []
  · rw [hnil]
    rfl
  · rw [writeCpuList, List.splitOn_intercalate ',' (fun _ => comma_not_mem) (by simpa using hnil)]
    refine List.filter_eq_self.2 fun piece hpiece => ?_
    obtain ⟨range, -, rfl⟩ := List.mem_map.1 hpiece
    rw [Bool.not_eq_true', List.isEmpty_eq_false_iff]
    exact writeRange_ne_nil range

/-- A list in the notation of the kernel, perhaps between blanks, is read as the CPUs of its
ranges. -/
theorem readCpuList_of_padded (h : ∀ range ∈ ranges, range.1 ≤ range.2)
    (hlist : Padded list (writeCpuList ranges)) :
    readCpuList list = .ok (ranges.flatMap fun range => cpuRange range.1 range.2) := by
  rw [readCpuList_eq_ok_iff_results, listPieces_of_padded hlist]
  refine ⟨ranges.map fun range => cpuRange range.1 range.2, ?_, List.flatMap_def.symm⟩
  rw [List.forall₂_map_left_iff, List.forall₂_map_right_iff, List.forall₂_same]
  exact fun range hrange => readPiece_of_isPiece (isPiece_writeRange (h range hrange))

theorem readCpuList_writeCpuList (h : ∀ range ∈ ranges, range.1 ≤ range.2) :
    readCpuList (writeCpuList ranges) =
      .ok (ranges.flatMap fun range => cpuRange range.1 range.2) :=
  readCpuList_of_padded h (padded_self _)

/-- CPU lists are read exactly if all their pieces are CPUs or ranges, as the numbers of these in
turn. Ranges that are written in the notation of the kernel, with or without a line feed at the end,
are read back as their numbers. -/
theorem readCpuList_exact_and_inverse :
    (∀ list, (∃ cpus, readCpuList list = .ok cpus) ↔
      ∀ piece ∈ listPieces list, ∃ numbers, IsPiece piece numbers) ∧
    (∀ list cpus, readCpuList list = .ok cpus ↔
      ∃ parts, List.Forall₂ IsPiece (listPieces list) parts ∧
        parts.flatten = cpus.map UInt32.toNat) ∧
    ∀ ranges : List (UInt32 × UInt32), (∀ range ∈ ranges, range.1 ≤ range.2) →
      ∀ ending, ending = [] ∨ ending = ['\n'] →
        ∃ cpus, readCpuList (writeCpuList ranges ++ ending) = .ok cpus ∧
          cpus.map UInt32.toNat = ranges.flatMap fun range =>
            List.range' range.1.toNat (range.2.toNat + 1 - range.1.toNat) := by
  refine ⟨fun _ => exists_readCpuList_iff, fun _ _ => readCpuList_eq_ok_iff, ?_⟩
  intro ranges hranges ending hending
  have hblank : ∀ c ∈ ending, isBlank c = true := by
    rcases hending with rfl | rfl
    · exact List.forall_mem_nil _
    · exact List.forall_mem_singleton.2 (by decide)
  have hpadded : Padded (writeCpuList ranges ++ ending) (writeCpuList ranges) :=
    ⟨[], ending, List.forall_mem_nil _, hblank, rfl⟩
  refine ⟨_, readCpuList_of_padded hranges hpadded, ?_⟩
  simp only [List.map_flatMap, toNat_cpuRange]

/-- Two ranges of the kernel and the line feed behind them. -/
theorem readCpuList_exact_and_inverse_two_ranges :
    (∀ range ∈ [((0 : UInt32), (3 : UInt32)), (8, 8)], range.1 ≤ range.2) ∧
    ∃ cpus, readCpuList "0-3,8\n".toList = .ok cpus ∧
      cpus.map UInt32.toNat = [0, 1, 2, 3, 8] := by
  have hranges : ∀ range ∈ [((0 : UInt32), (3 : UInt32)), (8, 8)], range.1 ≤ range.2 :=
    List.forall_mem_cons.2 ⟨by decide, List.forall_mem_singleton.2 (UInt32.le_refl 8)⟩
  obtain ⟨-, -, hwritten⟩ := readCpuList_exact_and_inverse
  exact ⟨hranges, hwritten _ hranges ['\n'] (.inr rfl)⟩

end CacheDelay.Topology

import CacheDelay.Probe.WorkingSets
import Mathlib.Logic.Basic

/-!
# What working sets hold

Working sets are rows of words, one row a slot. A word is found by the remainders of its slot and
offset (`position_eq_iff`), so that a write changes one word (`read_write`) and a pass over a set
adds one to the words of its row and to no other (`read_touch`). In any order of accesses the sets
therefore give what an array of cells gives that starts with zeros (`Shows.access`,
`results_of_accesses`), and no access leaves the lines that were reserved.
-/

namespace CacheDelay.Probe

namespace WorkingSets

variable {w : WorkingSets}

/-! ## Positions -/

theorem position_div (w : WorkingSets) (slot offset : Nat) :
    w.position slot offset / w.wordsPerSet = slot % w.count := by
  have ho := Nat.mod_lt offset w.wordsPerSet_pos
  rw [position, Nat.mul_comm, Nat.mul_add_div w.wordsPerSet_pos, Nat.div_eq_of_lt ho, Nat.add_zero]

theorem position_mod (w : WorkingSets) (slot offset : Nat) :
    w.position slot offset % w.wordsPerSet = offset % w.wordsPerSet := by
  rw [position, Nat.mul_comm, Nat.mul_add_mod, Nat.mod_mod]

/-- Slots and offsets name the same word exactly if their remainders agree. -/
theorem position_eq_iff {slot offset slot' offset' : Nat} :
    w.position slot offset = w.position slot' offset' ↔
      slot % w.count = slot' % w.count ∧ offset % w.wordsPerSet = offset' % w.wordsPerSet := by
  constructor
  · intro h
    rw [← position_div, ← position_mod w slot offset, h, position_div, position_mod]
    exact ⟨rfl, rfl⟩
  · rintro ⟨hslot, hoffset⟩
    rw [position, position, hslot, hoffset]

theorem position_zero (w : WorkingSets) (slot : Nat) :
    w.position slot 0 = slot % w.count * w.wordsPerSet := by
  rw [position, Nat.zero_mod, Nat.add_zero]

/-- The words from the first one of a set on, as many as it has, are its own. -/
theorem position_mem_set_iff {slot slot' offset : Nat} :
    w.position slot 0 ≤ w.position slot' offset ∧
      w.position slot' offset < w.position slot 0 + w.wordsPerSet ↔
    slot' % w.count = slot % w.count := by
  rw [position_zero, ← Nat.succ_mul, ← Nat.le_div_iff_mul_le w.wordsPerSet_pos,
    ← Nat.div_lt_iff_lt_mul w.wordsPerSet_pos, position_div]
  omega

/-! ## Lines -/

/-- The line that holds a word, counted from the first line of the first set. -/
def line (w : WorkingSets) (slot offset : Nat) : Nat :=
  slot % w.count * (w.wordsPerSet / lineWords) + offset % w.wordsPerSet / lineWords

theorem line_lt (h : lineWords ∣ w.wordsPerSet) (slot offset : Nat) :
    w.line slot offset < w.count * (w.wordsPerSet / lineWords) := by
  have hoffset : offset % w.wordsPerSet / lineWords < w.wordsPerSet / lineWords :=
    Nat.div_lt_div_of_lt_of_dvd h (Nat.mod_lt offset w.wordsPerSet_pos)
  calc w.line slot offset
      < slot % w.count * (w.wordsPerSet / lineWords) + w.wordsPerSet / lineWords :=
        Nat.add_lt_add_left hoffset _
    _ = (slot % w.count + 1) * (w.wordsPerSet / lineWords) := by rw [Nat.succ_mul]
    _ ≤ w.count * (w.wordsPerSet / lineWords) :=
        Nat.mul_le_mul_right _ (Nat.mod_lt slot w.count_pos)

/-- Sets that begin with a line are laid out line by line. -/
theorem position_eq_line (h : lineWords ∣ w.wordsPerSet) (slot offset : Nat) :
    w.position slot offset =
      w.line slot offset * lineWords + offset % w.wordsPerSet % lineWords := by
  rw [position, line, Nat.add_mul, Nat.mul_assoc, Nat.div_mul_cancel h, Nat.add_assoc,
    Nat.div_add_mod']

theorem position_add {offset : Nat} (h : offset < w.wordsPerSet) (slot : Nat) :
    w.position slot 0 + offset = w.position slot offset := by
  rw [position_zero, position, Nat.mod_eq_of_lt h]

/-! ## Accesses -/

theorem getElem?_increment (words : Array UInt32) (start n k : Nat) :
    (increment words start n)[k]? =
      if start ≤ k ∧ k < start + n then words[k]?.map (· + 1) else words[k]? := by
  induction n generalizing words start with
  | zero => rw [increment, if_neg (by omega)]
  | succ n ih =>
    rw [increment, ih, Array.getElem?_modify]
    by_cases hk : start = k
    · rw [if_neg (by omega), if_pos hk, if_pos (by omega)]
    · rw [if_neg hk]
      exact if_congr (by omega) rfl rfl

theorem getElem?_position (w : WorkingSets) (slot offset : Nat) :
    w.words[w.position slot offset]? = some (w.read slot offset) :=
  Array.getElem?_eq_getElem (w.position_lt slot offset)

/-- A pass over a set adds one to each word of the set. -/
theorem read_touch (w : WorkingSets) (slot slot' offset : Nat) :
    (w.touch slot).read slot' offset =
      if slot' % w.count = slot % w.count then w.read slot' offset + 1
      else w.read slot' offset := by
  refine Option.some.inj ?_
  rw [← getElem?_position]
  show (increment w.words (w.position slot 0) w.wordsPerSet)[w.position slot' offset]? = _
  rw [getElem?_increment, if_congr position_mem_set_iff rfl rfl, getElem?_position]
  split <;> rfl

/-- A write changes one word. -/
theorem read_write (w : WorkingSets) (slot offset slot' offset' : Nat) (value : UInt32) :
    (w.write slot offset value).read slot' offset' =
      if slot' % w.count = slot % w.count ∧ offset' % w.wordsPerSet = offset % w.wordsPerSet
      then value else w.read slot' offset' := by
  refine Option.some.inj ?_
  rw [← getElem?_position]
  show (w.words.set (w.position slot offset) value (w.position_lt slot offset))[
    w.position slot' offset']? = _
  rw [Array.getElem?_set, getElem?_position, if_congr (eq_comm.trans position_eq_iff) rfl rfl]
  split <;> rfl

end WorkingSets

/-- An access to working sets. -/
inductive Access where
  /-- Adds one to every word of a set. -/
  | touch (slot : Nat)
  | read (slot offset : Nat)
  | write (slot offset : Nat) (value : UInt32)

/-- Carries out accesses in order. Gives what each of them read, if it is one that reads. -/
def runAccesses {σ : Type} (act : σ → Access → Option UInt32 × σ) :
    σ → List Access → List (Option UInt32) × σ
  | s, [] => ([], s)
  | s, a :: rest =>
    let (result, s) := act s a
    let (results, s) := runAccesses act s rest
    (result :: results, s)

/-- Carries out one access to working sets. -/
def WorkingSets.access (w : WorkingSets) : Access → Option UInt32 × WorkingSets
  | .touch slot => (none, w.touch slot)
  | .read slot offset => (some (w.read slot offset), w)
  | .write slot offset value => (none, w.write slot offset value)

/-! ## Cells -/

/-- The values of cells of 32 bits, by row and column. -/
def Cells : Type := Nat → Nat → UInt32

namespace Cells

/-- All cells zero. -/
def zero : Cells := fun _ _ => 0

/-- One more, modulo 2³², in every cell of a row. -/
def touch (cells : Cells) (row : Nat) : Cells := fun i j =>
  if i = row then cells i j + 1 else cells i j

/-- Another value in one cell. -/
def write (cells : Cells) (row column : Nat) (value : UInt32) : Cells := fun i j =>
  if i = row ∧ j = column then value else cells i j

/-- Carries out one access to cells in `rows` rows and `columns` columns, where slots and offsets
wrap. -/
def access (rows columns : Nat) (cells : Cells) : Access → Option UInt32 × Cells
  | .touch slot => (none, cells.touch (slot % rows))
  | .read slot offset => (some (cells (slot % rows) (offset % columns)), cells)
  | .write slot offset value => (none, cells.write (slot % rows) (offset % columns) value)

end Cells

namespace WorkingSets

/-- Working sets of the given size whose words have the values of the cells. -/
structure Shows (rows columns : Nat) (w : WorkingSets) (cells : Cells) : Prop where
  count : w.count = rows
  wordsPerSet : w.wordsPerSet = columns
  read : ∀ slot offset, w.read slot offset = cells (slot % rows) (offset % columns)

variable {w : WorkingSets} {rows columns : Nat} {cells : Cells}

/-- An access gives what it gives for the cells, and leaves sets that show what it leaves there. -/
theorem Shows.access (h : Shows rows columns w cells) (a : Access) :
    (w.access a).1 = (cells.access rows columns a).1 ∧
      Shows rows columns (w.access a).2 (cells.access rows columns a).2 := by
  cases a with
  | touch slot =>
    refine ⟨rfl, h.count, h.wordsPerSet, fun slot' offset => ?_⟩
    show (w.touch slot).read slot' offset = _
    rw [read_touch, h.read, h.count]
    rfl
  | read slot offset => exact ⟨congrArg some (h.read slot offset), h⟩
  | write slot offset value =>
    refine ⟨rfl, h.count, h.wordsPerSet, fun slot' offset' => ?_⟩
    show (w.write slot offset value).read slot' offset' = _
    rw [read_write, h.read, h.count, h.wordsPerSet]
    rfl

theorem Shows.runAccesses (h : Shows rows columns w cells) (accesses : List Access) :
    (runAccesses WorkingSets.access w accesses).1 =
        (runAccesses (Cells.access rows columns) cells accesses).1 ∧
      Shows rows columns (runAccesses WorkingSets.access w accesses).2
        (runAccesses (Cells.access rows columns) cells accesses).2 := by
  induction accesses generalizing w cells with
  | nil => exact ⟨rfl, h⟩
  | cons a rest ih =>
    obtain ⟨hresult, hnext⟩ := h.access a
    obtain ⟨hresults, hlast⟩ := ih hnext
    exact ⟨congr (congrArg List.cons hresult) hresults, hlast⟩

/-! ## From the first access -/

/-- Working sets that could be had are as many as were asked for, of zeros, and their lines have
been taken from what was available. -/
theorem create_ok {available kib count left : Nat}
    (h : create available kib count = .ok (w, left)) :
    w.count = count ∧ w.wordsPerSet = 256 * kib ∧
      w.words = Array.replicate (count * (256 * kib)) 0 ∧
      available = left + count * (16 * kib) * lineBytes := by
  rw [create] at h
  dsimp only at h
  have hlines : kib * 1024 / lineBytes = 16 * kib := by rw [lineBytes]; omega
  have hwords : 16 * kib * lineWords = 256 * kib := by rw [lineWords]; omega
  split at h
  · cases h
  split at h
  · cases h
  split at h
  · cases h
  split at h
  · cases h
  rename_i rest hreserve
  cases h
  refine ⟨rfl, ?_, ?_, ?_⟩
  · show kib * 1024 / lineBytes * lineWords = _
    rw [hlines, hwords]
  · show Array.replicate (count * (kib * 1024 / lineBytes * lineWords)) 0 = _
    rw [hlines, hwords]
  · rw [reserve, hlines] at hreserve
    split at hreserve
    · cases hreserve
    split at hreserve
    · cases hreserve
    cases hreserve
    rw [Nat.mul_comm count]
    omega

theorem shows_of_create {available kib count left : Nat}
    (h : create available kib count = .ok (w, left)) : Shows count (256 * kib) w .zero := by
  obtain ⟨hcount, hsize, hwords, -⟩ := create_ok h
  refine ⟨hcount, hsize, fun slot offset => Option.some.inj ?_⟩
  have hlt := w.position_lt slot offset
  rw [← getElem?_position, hwords, Array.getElem?_replicate, if_pos (by simpa [hwords] using hlt)]
  rfl

/-- Accesses to new working sets give what they give for cells of zeros, one row a slot and one
column a word, which is also what the sets show in the end. A set has 256 words a KiB. Each word of
each slot is in one of the lines that were reserved, and a pass over a set runs through the words
of its slot. -/
theorem results_of_accesses {available kib count left : Nat}
    (h : create available kib count = .ok (w, left)) (accesses : List Access) :
    let run := runAccesses WorkingSets.access w accesses
    let cells := runAccesses (Cells.access count (256 * kib)) .zero accesses
    let lines := count * (16 * kib)
    run.1 = cells.1 ∧
      (∀ slot offset, run.2.read slot offset = cells.2 (slot % count) (offset % (256 * kib))) ∧
      run.2.count = count ∧ run.2.wordsPerSet = 256 * kib ∧
      available = left + lines * lineBytes ∧ run.2.words.size = lines * lineWords ∧
      ∀ slot offset, run.2.line slot offset < lines ∧
        run.2.position slot offset =
          run.2.line slot offset * lineWords + offset % (256 * kib) % lineWords ∧
        (offset < 256 * kib → run.2.position slot 0 + offset = run.2.position slot offset) := by
  intro run cells lines
  obtain ⟨-, -, -, havailable⟩ := create_ok h
  obtain ⟨hresults, hcount, hsize, hread⟩ := (shows_of_create h).runAccesses accesses
  have hwords : 256 * kib = 16 * kib * lineWords := by rw [lineWords]; omega
  have hdvd : lineWords ∣ run.2.wordsPerSet := hsize ▸ hwords ▸ Nat.dvd_mul_left ..
  have hlines : run.2.count * (run.2.wordsPerSet / lineWords) = lines := by
    rw [hcount, hsize, hwords, Nat.mul_div_cancel _ (by decide)]
  refine ⟨hresults, hread, hcount, hsize, havailable, ?_, fun slot offset => ⟨?_, ?_, ?_⟩⟩
  · rw [run.2.size_words, hcount, hsize, hwords, ← Nat.mul_assoc]
  · rw [← hlines]
    exact line_lt hdvd slot offset
  · rw [position_eq_line hdvd, hsize]
  · exact fun hoffset => position_add (hsize.symm ▸ hoffset) slot

/-- Two sets of one KiB: slot 3 and offset 261 wrap, and only the written word has another value. -/
theorem results_of_wrapping :
    ∃ w left, create 4096 1 2 = .ok (w, left) ∧
      (runAccesses WorkingSets.access w [.touch 1, .touch 3, .read 0 5, .write 3 261 4294967295,
        .touch 1, .read 1 5, .read 5 6]).1 =
          [none, none, some 0, none, none, some 0, some 3] := by
  obtain ⟨⟨w, left⟩, h⟩ : ∃ result, create 4096 1 2 = .ok result := ⟨_, rfl⟩
  exact ⟨w, left, h, (results_of_accesses h _).1⟩

end WorkingSets

end CacheDelay.Probe

import CacheDelay.Probe.Storage

/-!
# Working sets

Equally large, disjoint regions of words that the probe passes over, one region a job. `setCount`
says how many regions there must be so that a job never finds its own still in the cache.
-/

namespace CacheDelay.Probe

/-- The number of working sets of `kib` KiB that rotate through a cache of `cacheKib` KiB: twice the
cache and two more, unless that exceeds 64 bits. -/
def setCount (cacheKib kib : Nat) : Option Nat :=
  if kib = 0 then some 2
  else if Text.maxWord64 < cacheKib * 2 then none
  else if Text.maxWord64 < cacheKib * 2 / kib + 2 then none
  else some (cacheKib * 2 / kib + 2)

/-- Bytes in a cache line. -/
def lineBytes : Nat := 64

/-- Words in a cache line. -/
def lineWords : Nat := 16

/-- Regions of words, laid out one after the other. -/
structure WorkingSets where
  count : Nat
  wordsPerSet : Nat
  words : Array UInt32
  count_pos : 0 < count
  wordsPerSet_pos : 0 < wordsPerSet
  size_words : words.size = count * wordsPerSet

namespace WorkingSets

/-- Zeroed working sets, and the bytes still available then. -/
def create (available kib count : Nat) : Except Cause (WorkingSets × Nat) :=
  let bytes := kib * 1024
  if Text.maxWord64 < bytes then .error (.hugeWorkingSet kib)
  else if h : kib = 0 ∨ count = 0 then .error (.noWorkingSet kib count)
  else
    let lines := bytes / lineBytes
    if Text.maxWord64 < lines * count then .error (.hugeWorkingSets kib count)
    else
      match reserve available (lines * count * lineBytes) with
      | .error fault => .error (.workingSetStorage kib count fault)
      | .ok left =>
        .ok ({ count, wordsPerSet := lines * lineWords
               words := Array.replicate (count * (lines * lineWords)) 0
               count_pos := by omega
               wordsPerSet_pos := by simp only [lines, bytes, lineBytes, lineWords]; omega
               size_words := by simp }, left)

/-- The position of a word. Slots and offsets wrap. -/
def position (w : WorkingSets) (slot offset : Nat) : Nat :=
  slot % w.count * w.wordsPerSet + offset % w.wordsPerSet

theorem position_lt (w : WorkingSets) (slot offset : Nat) :
    w.position slot offset < w.words.size := by
  have hs := Nat.mod_lt slot w.count_pos
  have ho := Nat.mod_lt offset w.wordsPerSet_pos
  calc w.position slot offset < slot % w.count * w.wordsPerSet + w.wordsPerSet := by
        simpa [position] using ho
    _ = (slot % w.count + 1) * w.wordsPerSet := by rw [Nat.succ_mul]
    _ ≤ w.count * w.wordsPerSet := Nat.mul_le_mul_right _ hs
    _ = w.words.size := w.size_words.symm

/-- The words with one added to `n` of them from `start` on. -/
def increment (words : Array UInt32) (start : Nat) : Nat → Array UInt32
  | 0 => words
  | n + 1 => increment (words.modify start (· + 1)) (start + 1) n

theorem size_increment (words : Array UInt32) (start n : Nat) :
    (increment words start n).size = words.size := by
  induction n generalizing words start with
  | zero => rfl
  | succ n ih => simp [increment, ih]

/-- Reads and writes back every word of a set, adding one modulo 2³². -/
def touch (w : WorkingSets) (slot : Nat) : WorkingSets :=
  { w with
    words := increment w.words (w.position slot 0) w.wordsPerSet
    size_words := by rw [size_increment, w.size_words] }

/-- One word of a set. -/
def read (w : WorkingSets) (slot offset : Nat) : UInt32 :=
  have := w.position_lt slot offset
  w.words[w.position slot offset]

/-- Writes one word of a set. -/
def write (w : WorkingSets) (slot offset : Nat) (value : UInt32) : WorkingSets :=
  { w with
    words := w.words.set (w.position slot offset) value (w.position_lt slot offset)
    size_words := by simp [w.size_words] }

end WorkingSets

end CacheDelay.Probe

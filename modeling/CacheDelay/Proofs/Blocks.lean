import CacheDelay.Bytes

/-!
# Whole blocks

A list cut into blocks of one size has its whole blocks and, at the end, what is left over. A list
that is a number of whole blocks can be cut off at the front (`wholeBlocks_append`,
`leftover_append`), so that one more item either stays in the leftover or completes a block
(`wholeBlocks_concat`, `leftover_concat`). Its chunks are the same blocks and what is left over:
together they are the list (`flatten_chunks`), and cutting large chunks into small ones is cutting
the list into small ones (`flatMap_chunks`).
-/

namespace CacheDelay

variable {α : Type}

theorem blocks_add (size m n : Nat) (items : List α) :
    blocks size (m + n) items = blocks size m items ++ blocks size n (items.drop (m * size)) := by
  induction m generalizing items with
  | zero => simp [blocks]
  | succ m ih =>
    rw [Nat.succ_add, blocks, blocks, ih, List.drop_drop, List.cons_append, Nat.succ_mul,
      Nat.add_comm size]

/-- Blocks that fit into a list do not depend on what follows it. -/
theorem blocks_append {size m : Nat} {items : List α} (h : m * size ≤ items.length)
    (rest : List α) : blocks size m (items ++ rest) = blocks size m items := by
  induction m generalizing items with
  | zero => rfl
  | succ m ih =>
    rw [Nat.succ_mul] at h
    rw [blocks, blocks, List.take_append_of_le_length (by omega),
      List.drop_append_of_le_length (by omega), ih (by rw [List.length_drop]; omega)]

theorem length_blocks (size m : Nat) (items : List α) : (blocks size m items).length = m := by
  induction m generalizing items with
  | zero => rfl
  | succ m ih => rw [blocks, List.length_cons, ih]

/-- Blocks that fit into a list have the size of a block. -/
theorem length_of_mem_blocks {size m : Nat} {items part : List α} (h : m * size ≤ items.length)
    (hpart : part ∈ blocks size m items) : part.length = size := by
  induction m generalizing items with
  | zero => cases hpart
  | succ m ih =>
    rw [Nat.succ_mul] at h
    rw [blocks] at hpart
    rcases List.mem_cons.1 hpart with rfl | hpart
    · rw [List.length_take]
      omega
    · exact ih (by rw [List.length_drop]; omega) hpart

/-- The whole blocks of `size` items that a list begins with. -/
def wholeBlocks (size : Nat) (items : List α) : List (List α) :=
  blocks size (items.length / size) items

/-- What follows the whole blocks of a list. -/
def leftover (size : Nat) (items : List α) : List α :=
  items.drop (items.length / size * size)

theorem length_leftover (size : Nat) (items : List α) :
    (leftover size items).length = items.length % size := by
  rw [leftover, List.length_drop, Nat.mul_comm, Nat.mod_eq_sub]

theorem length_leftover_lt {size : Nat} (hsize : 0 < size) (items : List α) :
    (leftover size items).length < size := by
  rw [length_leftover]
  exact Nat.mod_lt _ hsize

/-- A list is a front of whole blocks and the leftover. -/
theorem exists_front (size : Nat) (items : List α) :
    ∃ front, items = front ++ leftover size items ∧ size ∣ front.length := by
  refine ⟨items.take (items.length / size * size), (List.take_append_drop ..).symm, ?_⟩
  rw [List.length_take, Nat.min_eq_left (Nat.div_mul_le_self ..)]
  exact Nat.dvd_mul_left ..

theorem length_of_mem_wholeBlocks {size : Nat} {items part : List α}
    (h : part ∈ wholeBlocks size items) : part.length = size :=
  length_of_mem_blocks (Nat.div_mul_le_self ..) h

theorem wholeBlocks_append {size : Nat} (hsize : 0 < size) {front : List α}
    (h : size ∣ front.length) (rest : List α) :
    wholeBlocks size (front ++ rest) = wholeBlocks size front ++ wholeBlocks size rest := by
  obtain ⟨m, hm⟩ := h
  have hdiv : (front ++ rest).length / size = m + rest.length / size := by
    rw [List.length_append, hm, Nat.mul_add_div hsize]
  have hfront : front.length / size = m := by rw [hm, Nat.mul_div_cancel_left _ hsize]
  have hlen : m * size = front.length := by rw [hm, Nat.mul_comm]
  rw [wholeBlocks, wholeBlocks, wholeBlocks, hdiv, hfront, blocks_add,
    blocks_append (Nat.le_of_eq hlen), hlen, List.drop_left]

theorem leftover_append {size : Nat} (hsize : 0 < size) {front : List α} (h : size ∣ front.length)
    (rest : List α) : leftover size (front ++ rest) = leftover size rest := by
  obtain ⟨m, hm⟩ := h
  have hdiv : (front ++ rest).length / size * size = front.length + rest.length / size * size := by
    rw [List.length_append, hm, Nat.mul_add_div hsize, Nat.add_mul, Nat.mul_comm m]
  rw [leftover, leftover, hdiv, List.drop_append, Nat.add_sub_cancel_left,
    List.drop_eq_nil_of_le (Nat.le_add_right ..), List.nil_append]

theorem wholeBlocks_of_lt {size : Nat} {items : List α} (h : items.length < size) :
    wholeBlocks size items = [] := by
  rw [wholeBlocks, Nat.div_eq_of_lt h, blocks]

theorem leftover_of_lt {size : Nat} {items : List α} (h : items.length < size) :
    leftover size items = items := by
  rw [leftover, Nat.div_eq_of_lt h, Nat.zero_mul, List.drop_zero]

/-- A list of `size` items is one block. -/
theorem wholeBlocks_of_length {size : Nat} (hsize : 0 < size) {items : List α}
    (h : items.length = size) : wholeBlocks size items = [items] := by
  rw [wholeBlocks, h, Nat.div_self hsize, blocks, blocks, List.take_of_length_le (Nat.le_of_eq h)]

theorem leftover_of_dvd {size : Nat} {items : List α} (h : size ∣ items.length) :
    leftover size items = [] := by
  rw [leftover, Nat.div_mul_cancel h, List.drop_length]

/-- The whole blocks of joined blocks are these blocks. -/
theorem wholeBlocks_flatten {size : Nat} (hsize : 0 < size) {parts : List (List α)}
    (h : ∀ part ∈ parts, part.length = size) : wholeBlocks size parts.flatten = parts := by
  induction parts with
  | nil => exact wholeBlocks_of_lt hsize
  | cons part parts ih =>
    have hpart : part.length = size := h part List.mem_cons_self
    rw [List.flatten_cons, wholeBlocks_append hsize ⟨1, by omega⟩,
      wholeBlocks_of_length hsize hpart, ih fun part hmem => h part (List.mem_cons_of_mem _ hmem),
      List.singleton_append]

theorem leftover_flatten {size : Nat} (hsize : 0 < size) {parts : List (List α)}
    (h : ∀ part ∈ parts, part.length = size) : leftover size parts.flatten = [] := by
  induction parts with
  | nil => exact leftover_of_lt hsize
  | cons part parts ih =>
    have hpart : part.length = size := h part List.mem_cons_self
    rw [List.flatten_cons, leftover_append hsize ⟨1, by omega⟩,
      ih fun part hmem => h part (List.mem_cons_of_mem _ hmem)]

/-! ## One more item -/

theorem wholeBlocks_concat {size : Nat} (hsize : 0 < size) (items : List α) (item : α) :
    wholeBlocks size (items ++ [item]) = wholeBlocks size items ++
      if (leftover size items).length + 1 = size then [leftover size items ++ [item]] else [] := by
  obtain ⟨front, hitems, hfront⟩ := exists_front size items
  have hlt := length_leftover_lt hsize items
  generalize leftover size items = left at hitems hlt
  subst hitems
  -- the front is cut off on both sides; what is left is short of a block by one item or more
  rw [List.append_assoc, wholeBlocks_append hsize hfront, wholeBlocks_append hsize hfront,
    wholeBlocks_of_lt hlt, List.append_nil]
  congr 1
  split
  · rename_i h
    exact wholeBlocks_of_length hsize (by simp [h])
  · exact wholeBlocks_of_lt (by rw [List.length_append, List.length_singleton]; omega)

theorem leftover_concat {size : Nat} (hsize : 0 < size) (items : List α) (item : α) :
    leftover size (items ++ [item]) =
      if (leftover size items).length + 1 = size then [] else leftover size items ++ [item] := by
  obtain ⟨front, hitems, hfront⟩ := exists_front size items
  have hlt := length_leftover_lt hsize items
  generalize leftover size items = left at hitems hlt
  subst hitems
  rw [List.append_assoc, leftover_append hsize hfront]
  split
  · rename_i h
    exact leftover_of_dvd (by simp [h])
  · exact leftover_of_lt (by rw [List.length_append, List.length_singleton]; omega)

/-! ## Chunks -/

theorem chunks_nil {size : Nat} (hsize : 0 < size) : chunks size ([] : List α) = [] := by
  rw [chunks, Nat.div_eq_of_lt (by rw [List.length_nil]; omega), blocks]

theorem chunks_of_length_le {size : Nat} {items : List α} (hpos : 0 < items.length)
    (h : items.length ≤ size) : chunks size items = [items] := by
  have hcount : (items.length + size - 1) / size = 1 :=
    Nat.div_eq_of_lt_le (by omega) (by omega)
  rw [chunks, hcount, blocks, blocks, List.take_of_length_le h]

theorem chunks_append {size : Nat} (hsize : 0 < size) {front : List α} (h : size ∣ front.length)
    (rest : List α) : chunks size (front ++ rest) = chunks size front ++ chunks size rest := by
  obtain ⟨m, hm⟩ := h
  have hlength : m * size = front.length := by rw [hm, Nat.mul_comm]
  have hfront : (front.length + size - 1) / size = m := by
    rw [hm, Nat.add_sub_assoc hsize, Nat.mul_add_div hsize, Nat.div_eq_of_lt (by omega),
      Nat.add_zero]
  have hcount : ((front ++ rest).length + size - 1) / size =
      m + (rest.length + size - 1) / size := by
    rw [List.length_append, hm, Nat.add_assoc, Nat.add_sub_assoc (by omega),
      Nat.mul_add_div hsize]
  rw [chunks, chunks, chunks, hcount, hfront, blocks_add, blocks_append (Nat.le_of_eq hlength),
    hlength, List.drop_left]

theorem chunks_of_dvd {size : Nat} (hsize : 0 < size) {items : List α} (h : size ∣ items.length) :
    chunks size items = wholeBlocks size items := by
  obtain ⟨m, hm⟩ := h
  rw [chunks, wholeBlocks, hm, Nat.add_sub_assoc hsize, Nat.mul_add_div hsize,
    Nat.div_eq_of_lt (by omega), Nat.add_zero, Nat.mul_div_cancel_left _ hsize]

/-- A fact about chunks holds if it holds of lists that make one chunk and can be extended by one
chunk at the front. -/
theorem chunks_induction {size : Nat} (hsize : 0 < size) {P : List α → Prop} (nil : P [])
    (single : ∀ items, 0 < items.length → items.length ≤ size → P items)
    (extend : ∀ front rest, front.length = size → P rest → P (front ++ rest)) (items : List α) :
    P items := by
  induction hn : items.length using Nat.strongRecOn generalizing items with
  | ind n ih =>
    by_cases hle : items.length ≤ size
    · rcases Nat.eq_zero_or_pos items.length with hzero | hpos
      · rw [List.length_eq_zero_iff.1 hzero]
        exact nil
      · exact single items hpos hle
    · rw [← List.take_append_drop size items]
      refine extend _ _ (by rw [List.length_take]; omega) (ih (n - size) (by omega) _ ?_)
      rw [List.length_drop, hn]

theorem flatten_chunks {size : Nat} (hsize : 0 < size) (items : List α) :
    (chunks size items).flatten = items := by
  induction items using chunks_induction hsize with
  | nil => rw [chunks_nil hsize, List.flatten_nil]
  | single items hpos hle => rw [chunks_of_length_le hpos hle, List.flatten_singleton]
  | extend front rest hfront ih =>
    rw [chunks_append hsize ⟨1, by omega⟩,
      chunks_of_length_le (by omega) (Nat.le_of_eq hfront), List.flatten_append, ih,
      List.flatten_singleton]

/-- Chunks of a multiple of `size`, cut into chunks of `size`, are the chunks of `size`. -/
theorem flatMap_chunks {size m : Nat} (hsize : 0 < size) (hm : 0 < m) (items : List α) :
    (chunks (m * size) items).flatMap (chunks size) = chunks size items := by
  have hlarge : 0 < m * size := Nat.mul_pos hm hsize
  induction items using chunks_induction hlarge with
  | nil => rw [chunks_nil hlarge, chunks_nil hsize, List.flatMap_nil]
  | single items hpos hle => rw [chunks_of_length_le hpos hle, List.flatMap_singleton]
  | extend front rest hfront ih =>
    rw [chunks_append hlarge ⟨1, by omega⟩,
      chunks_of_length_le (by omega) (Nat.le_of_eq hfront), List.flatMap_append, ih,
      List.flatMap_singleton, chunks_append hsize ⟨m, by rw [hfront, Nat.mul_comm]⟩]

end CacheDelay

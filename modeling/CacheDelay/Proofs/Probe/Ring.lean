import CacheDelay.Probe.Ring

/-!
# What a ring keeps

A ring means the list of the items that it keeps. Pushing an item appends it and lets go of the
oldest item if the ring was full (`toList_push`), so that many items leave the last ones that fit
(`toList_foldl_push`). The slots grow only until all that were reserved are filled, and from then on
each item goes to a slot in use (`slots_push_of_lt`, `slots_push_of_full`).
-/

namespace CacheDelay.Probe.Ring

variable {α : Type}

theorem length_toList (r : Ring α) : r.toList.length = r.slots.size := by
  rw [toList]
  split
  · rw [List.length_append, List.length_drop, List.length_take, Array.length_toList]
    have := r.filled
    rw [if_pos ‹_›] at this
    omega
  · rw [Array.length_toList]

theorem length_toList_le (r : Ring α) : r.toList.length ≤ r.capacity := by
  rw [length_toList]
  have := r.filled
  split at this <;> omega

theorem toList_empty {capacity : Nat} (h : 0 < capacity) :
    (empty capacity h : Ring α).toList = [] := rfl

theorem capacity_push (r : Ring α) (item : α) : (r.push item).capacity = r.capacity := by
  rw [push]
  split <;> rfl

/-- Filling a slot in use replaces its item. -/
theorem toList_fill_of_lt {slots : Array α} {next : Nat} (h : next < slots.size) (item : α) :
    (fill slots next item).toList =
      slots.toList.take next ++ [item] ++ slots.toList.drop (next + 1) := by
  rw [fill, dif_pos h, Array.toList_set, List.set_eq_take_append_cons_drop,
    if_pos (by rwa [Array.length_toList]), List.append_assoc, List.singleton_append]

/-- Filling the first free slot appends its item. -/
theorem toList_fill_of_eq {slots : Array α} {next : Nat} (h : slots.size = next) (item : α) :
    (fill slots next item).toList = slots.toList ++ [item] := by
  rw [fill, dif_neg (by omega), Array.toList_push]

/-- A push appends the item, and lets go of the oldest one if the ring was full. -/
theorem toList_push (r : Ring α) (item : α) :
    (r.push item).toList = (r.toList ++ [item]).drop (r.toList.length + 1 - r.capacity) := by
  have hlen := r.length_toList
  have hfilled := r.filled
  cases hw : r.wrapped with
  | false =>
    rw [if_neg (by simp [hw])] at hfilled
    have hold : r.toList = r.slots.toList := by rw [toList, if_neg (by simp [hw])]
    rw [Nat.sub_eq_zero_of_le (by omega), List.drop_zero, hold, ← toList_fill_of_eq hfilled.1 item,
      push]
    split
    · rw [toList, if_pos rfl, List.drop_zero, List.take_zero, List.append_nil]
    · rw [toList, if_neg (by simp [hw])]
  | true =>
    rw [if_pos hw] at hfilled
    -- the oldest item is in the slot that is filled, whether or not the next slot is the first
    have hold : r.toList = r.slots.toList.drop r.next ++ r.slots.toList.take r.next := by
      rw [toList, if_pos hw]
    have hfill := toList_fill_of_lt (show r.next < r.slots.size by omega) item
    have hfront : (r.slots.toList.take r.next ++ [item]).length = r.next + 1 := by
      rw [List.length_append, List.length_take, Array.length_toList, List.length_singleton]; omega
    rw [show r.toList.length + 1 - r.capacity = 1 by omega, hold, List.append_assoc,
      List.drop_append_of_le_length (by rw [List.length_drop, Array.length_toList]; omega),
      List.drop_drop, push]
    split
    · rw [toList, if_pos rfl, List.drop_zero, List.take_zero, List.append_nil, hfill,
        List.drop_eq_nil_of_le (by rw [Array.length_toList]; omega), List.append_nil,
        List.nil_append]
    · rw [toList, if_pos hw, hfill, List.drop_left' hfront, List.take_left' hfront]

/-- A ring keeps the last items that were pushed, as many as fit. -/
theorem toList_foldl_push (r : Ring α) (items : List α) :
    (items.foldl push r).toList =
      (r.toList ++ items).drop (r.toList.length + items.length - r.capacity) := by
  induction items generalizing r with
  | nil =>
    have := r.length_toList_le
    rw [List.foldl_nil, List.append_nil, List.length_nil, Nat.add_zero, Nat.sub_eq_zero_of_le this,
      List.drop_zero]
  | cons item items ih =>
    have := r.length_toList_le
    rw [List.foldl_cons, ih, capacity_push, toList_push, List.length_drop, List.length_append,
      List.length_singleton, List.length_cons, ← List.drop_append_of_le_length (by simp),
      List.drop_drop, List.append_assoc, List.singleton_append]
    congr 1
    omega

/-! ## Slots -/

theorem size_le_capacity (r : Ring α) : r.size ≤ r.capacity := by
  rw [size, ← length_toList]
  exact r.length_toList_le

theorem slots_push (r : Ring α) (item : α) : (r.push item).slots = fill r.slots r.next item := by
  rw [push]
  split <;> rfl

/-- A ring has been filled once as soon as all of its slots are in use. -/
theorem wrapped_iff (r : Ring α) : r.wrapped = true ↔ r.size = r.capacity := by
  have hfilled := r.filled
  rw [size]
  split at hfilled
  · rename_i hwrapped
    exact iff_of_true hwrapped hfilled.1
  · rename_i hwrapped
    exact iff_of_false hwrapped (by omega)

/-- While there is room, an item goes to the end of the slots. -/
theorem slots_push_of_lt {r : Ring α} (h : r.size < r.capacity) (item : α) :
    (r.push item).slots = r.slots.push item := by
  have hwrapped : ¬ r.wrapped = true := fun hwrapped => by
    have := r.wrapped_iff.1 hwrapped
    omega
  have hfilled := r.filled
  rw [if_neg hwrapped] at hfilled
  rw [slots_push, fill, dif_neg (by omega)]

/-- Once there is no room, an item replaces that of a slot in use. -/
theorem slots_push_of_full {r : Ring α} (h : r.size = r.capacity) (item : α) :
    ∃ hnext : r.next < r.slots.size, (r.push item).slots = r.slots.set r.next item hnext := by
  have hfilled := r.filled
  rw [if_pos (r.wrapped_iff.2 h)] at hfilled
  have hnext : r.next < r.slots.size := hfilled.1 ▸ hfilled.2
  exact ⟨hnext, by rw [slots_push, fill, dif_pos hnext]⟩

theorem capacity_foldl_push (r : Ring α) (items : List α) :
    (items.foldl push r).capacity = r.capacity := by
  induction items generalizing r with
  | nil => rfl
  | cons item items ih => rw [List.foldl_cons, ih, capacity_push]

/-! ## From the first item -/

theorem create_ok {available itemBytes capacity left : Nat} {ring : Ring α}
    (h : create available itemBytes capacity = .ok (ring, left)) :
    ∃ hpos : 0 < capacity, ring = .empty capacity hpos := by
  rw [create] at h
  split at h
  · cases h
  · split at h <;> cases h
    exact ⟨_, rfl⟩

/-- However many items are pushed to a new ring, it keeps the last ones in order, as many as fit,
and knows how many these are and whether its slots have all been filled. The next item goes to a new
slot while fewer than the reserved ones are in use, and after that to one that is in use. -/
theorem pushes_of_create {available itemBytes capacity left : Nat} {ring : Ring α}
    (h : create available itemBytes capacity = .ok (ring, left)) (items : List α) :
    let r := items.foldl push ring
    r.toList = items.drop (items.length - min items.length capacity) ∧
      r.size = min items.length capacity ∧ r.capacity = capacity ∧
      (r.wrapped = true ↔ capacity ≤ items.length) ∧
      ∀ item, (r.push item).size ≤ capacity ∧
        (r.size < capacity → (r.push item).slots = r.slots.push item) ∧
        (r.size = capacity → ∃ hnext : r.next < r.slots.size,
          (r.push item).slots = r.slots.set r.next item hnext) := by
  intro r
  obtain ⟨hpos, rfl⟩ := create_ok h
  have hcapacity : r.capacity = capacity := capacity_foldl_push _ items
  have hkept : r.toList = items.drop (items.length - capacity) := by
    rw [toList_foldl_push, toList_empty, List.nil_append, List.length_nil, Nat.zero_add]
    rfl
  have hsize : r.size = min items.length capacity := by
    rw [size, ← length_toList, hkept, List.length_drop]
    omega
  have hdrop : items.length - capacity = items.length - min items.length capacity := by omega
  refine ⟨hdrop ▸ hkept, hsize, hcapacity, ?_, fun item => ⟨?_, fun hroom => ?_, fun hfull => ?_⟩⟩
  · rw [wrapped_iff, hsize, hcapacity]
    omega
  · calc (r.push item).size ≤ (r.push item).capacity := size_le_capacity _
      _ = capacity := by rw [capacity_push, hcapacity]
  · exact slots_push_of_lt (by rwa [hcapacity]) item
  · exact slots_push_of_full (by rwa [hcapacity]) item

/-- Five items in a ring of three, which has wrapped: a sixth one takes the place of the oldest. -/
theorem pushes_of_five :
    ∃ (ring : Ring Nat) (left : Nat), create 100 8 3 = .ok (ring, left) ∧
      let r := [1, 2, 3, 4, 5].foldl push ring
      r.toList = [3, 4, 5] ∧ r.size = 3 ∧ r.wrapped = true ∧ (r.push 6).size ≤ 3 ∧
      ∃ hnext : r.next < r.slots.size, (r.push 6).slots = r.slots.set r.next 6 hnext := by
  have hcreate : create 100 8 3 = .ok ((.empty 3 (by decide) : Ring Nat), 76) := rfl
  refine ⟨_, _, hcreate, ?_⟩
  obtain ⟨hkept, hsize, -, hwrapped, hnext⟩ := pushes_of_create hcreate [1, 2, 3, 4, 5]
  exact ⟨hkept, hsize, hwrapped.2 (by decide), (hnext 6).1, (hnext 6).2.2 hsize⟩

end CacheDelay.Probe.Ring

import CacheDelay.Probe.Storage

/-!
# Rings

A ring keeps the most recent items, at most its capacity. While there is room an item goes to the
end of the slots; after that each item takes the place of the oldest one. `toList` gives the items
kept, oldest first, and is what a ring means.
-/

namespace CacheDelay.Probe

/-- A bounded store that overwrites its oldest item when full. -/
structure Ring (α : Type) where
  capacity : Nat
  slots : Array α
  /-- The slot that the next item goes to. -/
  next : Nat
  /-- Whether every slot has been filled. -/
  wrapped : Bool
  /-- Slots are filled in order; once all are, `next` is one of them. -/
  filled : if wrapped then slots.size = capacity ∧ next < capacity
    else slots.size = next ∧ next < capacity

namespace Ring

variable {α : Type}

/-- A ring without items. -/
def empty (capacity : Nat) (h : 0 < capacity) : Ring α := ⟨capacity, #[], 0, false, by simpa⟩

/-- A ring for `capacity` items of `itemBytes` bytes, and the bytes still available then. -/
def create (available itemBytes capacity : Nat) : Except Cause (Ring α × Nat) :=
  if h : capacity = 0 then .error .noRingCapacity
  else
    match reserve available (capacity * itemBytes) with
    | .ok left => .ok (empty capacity (Nat.pos_of_ne_zero h), left)
    | .error fault => .error (.ringStorage capacity fault)

/-- The slots with `item` at `next`. -/
def fill (slots : Array α) (next : Nat) (item : α) : Array α :=
  if h : next < slots.size then slots.set next item else slots.push item

theorem size_fill (slots : Array α) (next : Nat) (item : α) :
    (fill slots next item).size = if next < slots.size then slots.size else slots.size + 1 := by
  unfold fill
  split <;> simp [*]

/-- The ring with one more item. -/
def push (r : Ring α) (item : α) : Ring α :=
  if h : r.next + 1 = r.capacity then
    { capacity := r.capacity, slots := fill r.slots r.next item, next := 0, wrapped := true
      filled := by
        have := r.filled
        simp only [size_fill, if_true]
        split at this <;> split <;> omega }
  else
    { capacity := r.capacity, slots := fill r.slots r.next item, next := r.next + 1
      wrapped := r.wrapped
      filled := by
        have := r.filled
        simp only [size_fill]
        split at this <;> rename_i hw <;> simp only [hw] <;> split <;> grind }

/-- The number of items kept. -/
def size (r : Ring α) : Nat := r.slots.size

/-- Whether no item is kept. -/
def isEmpty (r : Ring α) : Bool := r.slots.isEmpty

/-- The items kept, oldest first. -/
def toList (r : Ring α) : List α :=
  if r.wrapped then r.slots.toList.drop r.next ++ r.slots.toList.take r.next else r.slots.toList

end Ring

end CacheDelay.Probe

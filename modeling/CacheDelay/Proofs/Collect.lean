import Mathlib.Data.List.Basic
import Mathlib.Data.List.Induction

/-!
# Collecting with the items before

`collect f items` is what `f` finds in a list when it looks at each item after the ones before it.
The last item only adds its own find (`collect_concat`), and items in which nothing is found can be
left out at the end (`collect_append_of_none`). In a list that follows another one the items are
looked at after both (`collect_append`), which shows only where an item is seen differently then
(`collect_congr`).
-/

namespace CacheDelay

variable {α β : Type}

/-- What `f` finds in a list, where it looks at each item after the ones before it. -/
def collect (f : List α → α → Option β) (items : List α) : List β :=
  (List.range items.length).filterMap fun i => items[i]?.bind (f (items.take i))

theorem collect_concat (f : List α → α → Option β) (items : List α) (item : α) :
    collect f (items ++ [item]) = collect f items ++ (f items item).toList := by
  rw [collect, List.length_append, List.length_singleton, List.range_succ, List.filterMap_append]
  congr 1
  · refine List.filterMap_congr fun i hi => ?_
    have hi := List.mem_range.1 hi
    rw [List.getElem?_append_left hi, List.take_append_of_le_length (Nat.le_of_lt hi)]
  · rw [List.filterMap_cons, List.getElem?_concat_length, List.take_left, Option.bind_some]
    cases f items item <;> rfl

theorem collect_append_of_none {f : List α → α → Option β} (items : List α) {rest : List α}
    (h : ∀ item ∈ rest, ∀ earlier, f earlier item = none) :
    collect f (items ++ rest) = collect f items := by
  induction rest using List.reverseRecOn with
  | nil => rw [List.append_nil]
  | append_singleton rest item ih =>
    rw [← List.append_assoc, collect_concat, h item (by simp), Option.toList_none, List.append_nil,
      ih fun item hitem => h item (List.mem_append_left _ hitem)]

theorem collect_append (f : List α → α → Option β) (items rest : List α) :
    collect f (items ++ rest) =
      collect f items ++ collect (fun earlier => f (items ++ earlier)) rest := by
  induction rest using List.reverseRecOn with
  | nil =>
    rw [List.append_nil]
    exact (List.append_nil _).symm
  | append_singleton rest item ih =>
    rw [← List.append_assoc, collect_concat, collect_concat, ih, List.append_assoc]

theorem collect_congr {f g : List α → α → Option β} {items : List α}
    (h : ∀ earlier item later, items = earlier ++ item :: later → f earlier item = g earlier item) :
    collect f items = collect g items := by
  induction items using List.reverseRecOn with
  | nil => rfl
  | append_singleton items item ih =>
    rw [collect_concat, collect_concat, h items item [] rfl]
    congr 1
    refine ih fun earlier other later hitems => h earlier other (later ++ [item]) ?_
    rw [hitems, List.append_assoc, List.cons_append]

end CacheDelay

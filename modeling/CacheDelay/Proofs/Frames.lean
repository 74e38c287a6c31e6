import CacheDelay.Proofs.Actions
import Mathlib.Order.Defs.Unbundled

/-!
# What actions leave alone

A `Frame` relates the world before an action to the world after it, whether it succeeds or fails. A
sequence keeps the frames of its parts (`Frame.bind`), and so do the loops.
-/

namespace CacheDelay.Action

open CacheDelay.Files

variable {α β : Type} {R : World → World → Prop}

/-- However the action ends, it leaves a world that `R` relates to the one before. -/
def Frame (R : World → World → Prop) (x : Action α) : Prop := ∀ w, R w (x w).2

theorem Frame.of_eq {x : Action α} (h : Frame R x) {w w' : World} {result : Except Failure α}
    (hrun : x w = (result, w')) : R w w' := by
  have hw := h w
  rwa [hrun] at hw

variable [IsPreorder World R]

/-- An action that never changes the world is within every frame. -/
theorem frame_of_same {x : Action α} (h : ∀ w, (x w).2 = w) : Frame R x := by
  intro w
  rw [h]
  exact Std.Refl.refl w

theorem frame_pure (a : α) : Frame R (pure a : Action α) := frame_of_same fun _ => rfl

theorem frame_fail (cause : Cause) : Frame R (fail cause : Action α) := frame_of_same fun _ => rfl

theorem frame_get : Frame R (get : Action World) := frame_of_same fun _ => rfl

theorem frame_ofExcept (x : Except Cause α) : Frame R (ofExcept x) := by
  cases x with
  | error cause => exact frame_fail cause
  | ok a => exact frame_pure a

theorem frame_query (look : Tree → Except FileFault α) : Frame R (query look) := by
  refine frame_of_same fun w => ?_
  cases h : look w.files with
  | error fault => rw [query_of_error h]
  | ok a => rw [query_of_ok h]

theorem Frame.bind {x : Action α} {f : α → Action β} (hx : Frame R x) (hf : ∀ a, Frame R (f a)) :
    Frame R (x >>= f) := by
  intro w
  rcases hrun : x w with ⟨failure | a, v⟩
  · rw [bind_of_error hrun]
    exact hx.of_eq hrun
  · rw [bind_of_ok hrun]
    exact IsTrans.trans _ _ _ (hx.of_eq hrun) (hf a v)

/-- What is done first in some cases, and what is done in all of them. -/
theorem Frame.when (c : Prop) [Decidable c] {x : Action Unit} {rest : Unit → Action α}
    (hx : Frame R x) (hrest : Frame R (rest ())) :
    Frame R (if c then x >>= rest else rest ()) := by
  split
  · exact hx.bind fun _ => hrest
  · exact hrest

theorem Frame.map {x : Action α} (hx : Frame R x) (f : α → β) : Frame R (f <$> x) := by
  rw [map_eq_pure_bind]
  exact hx.bind fun a => frame_pure (f a)

omit [IsPreorder World R] in
theorem Frame.within {x : Action α} (hx : Frame R x) (context : Context) :
    Frame R (x.within context) := by
  intro w
  rcases hrun : x w with ⟨failure | a, v⟩
  · rw [within_of_error hrun]
    exact hx.of_eq hrun
  · rw [within_of_ok hrun]
    exact hx.of_eq hrun

theorem Frame.mapM {f : α → Action β} (hf : ∀ a, Frame R (f a)) (items : List α) :
    Frame R (items.mapM f) := by
  induction items with
  | nil => exact frame_pure []
  | cons item items ih =>
    rw [List.mapM_cons]
    exact (hf item).bind fun b => ih.bind fun rest => frame_pure (b :: rest)

theorem Frame.foldlM {f : β → α → Action β} (hf : ∀ b a, Frame R (f b a)) (items : List α)
    (b : β) : Frame R (items.foldlM f b) := by
  induction items generalizing b with
  | nil => exact frame_pure b
  | cons item items ih =>
    rw [List.foldlM_cons]
    exact (hf b item).bind ih

end CacheDelay.Action

import Mathlib
/-!
# The last writer wins

A sequence of calls updates a partial map. The call `i` settles the points it
covers and leaves the others alone; after the whole sequence each point is as
the last call that covers it says.
-/

namespace Ulmix.Lib

variable {ι α β : Type} (covers : ι → α → Prop) [∀ i a, Decidable (covers i a)] (value : ι → α → β)

/-- The map `f` after the call `i`. -/
def overlay (f : α → Option β) (i : ι) : α → Option β := fun a => if covers i a then some (value i a) else f a

theorem overlay_idle {i : ι} (h : ∀ a, ¬ covers i a) (f : α → Option β) : overlay covers value f i = f := by
  funext a
  exact if_neg (h a)

/-- After all the calls, the last one to cover `a` decides. -/
theorem foldl_overlay (calls : List ι) (f : α → Option β) (a : α) :
    calls.foldl (overlay covers value) f a
      = ((calls.reverse.find? fun i => covers i a).map fun i => value i a).or (f a) := by
  induction calls generalizing f with
  | nil => simp
  | cons i calls ih =>
    rw [List.foldl_cons, ih, List.reverse_cons, List.find?_append, Option.map_or, Option.or_assoc]
    congr 1
    by_cases h : covers i a
    · simp [overlay, h]
    · simp [overlay, h]

end Ulmix.Lib

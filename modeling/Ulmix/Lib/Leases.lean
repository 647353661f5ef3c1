import Mathlib
/-!
# Reference counts

Each reference handed out is one entry of the list `held`. Counts back the
references when no resource has more of them than its count says; a resource
with count zero is then free to hand out.
-/

namespace Ulmix.Lib

variable {ι : Type} [DecidableEq ι]

/-- No resource is held more often than it is counted. -/
def Backed (count : ι → Nat) (held : List ι) : Prop := ∀ i, held.count i ≤ count i

namespace Backed

variable {count : ι → Nat} {held : List ι} {i : ι}

theorem nil (count : ι → Nat) : Backed count [] := fun _ => Nat.zero_le _

/-- One more reference, one more on the count. -/
theorem take (h : Backed count held) (i : ι) : Backed (Function.update count i (count i + 1)) (i :: held) := by
  intro j
  have hj := h j
  by_cases hji : j = i
  · subst hji
    rw [Function.update_self, List.count_cons_self]
    omega
  · rw [Function.update_of_ne hji, List.count_cons_of_ne (Ne.symm hji)]
    exact hj

/-- One reference less, one less on the count. -/
theorem drop (h : Backed count held) (i : ι) : Backed (Function.update count i (count i - 1)) (held.erase i) := by
  intro j
  have hj := h j
  by_cases hji : j = i
  · subst hji
    rw [Function.update_self, List.count_erase_self]
    omega
  · rw [Function.update_of_ne hji, List.count_erase_of_ne hji]
    exact hj

theorem pos (h : Backed count held) (hi : i ∈ held) : 0 < count i :=
  (List.count_pos_iff.2 hi).trans_le (h i)

/-- What is not counted is not held. -/
theorem notMem (h : Backed count held) (hi : count i = 0) : i ∉ held := fun hm => by
  have := h.pos hm
  omega

end Backed

end Ulmix.Lib

import Mathlib
/-!
# Numerals

A number written in some base, the highest digit first, with zeros in front up to
a width. Whatever the width, the number can be read off (`ofDigits_numeral`), so
numerals of different numbers differ. Reversing a list in place swaps its ends and
goes on with what lies between (`swap_ends`).
-/

namespace Ulmix.Lib

section Numeral
variable {b w x y d : Nat}

/-- `x` in base `b`, with zeros in front if there are fewer than `w` digits. -/
def numeral (b w x : Nat) : List Nat := List.replicate (w - (b.digits x).length) 0 ++ (b.digits x).reverse

theorem numeral_length (b w x : Nat) : (numeral b w x).length = max w (b.digits x).length := by
  simp only [numeral, List.length_append, List.length_replicate, List.length_reverse]
  omega

theorem numeral_digit_lt (hb : 1 < b) (hd : d ∈ numeral b w x) : d < b := by
  rcases List.mem_append.1 hd with hzero | hdigit
  · rw [List.eq_of_mem_replicate hzero]
    omega
  · exact Nat.digits_lt_base hb (List.mem_reverse.1 hdigit)

theorem numeral_reverse (b w x : Nat) :
    (numeral b w x).reverse = b.digits x ++ List.replicate (w - (b.digits x).length) 0 := by
  simp [numeral]

/-- The number is what its digits add up to. -/
theorem ofDigits_numeral (b w x : Nat) : Nat.ofDigits b (numeral b w x).reverse = x := by
  rw [numeral_reverse, Nat.ofDigits_append_replicate_zero, Nat.ofDigits_digits]

theorem numeral_inj (b w v : Nat) (h : numeral b w x = numeral b v y) : x = y := by
  rw [← ofDigits_numeral b w x, h, ofDigits_numeral]

/-- Up to the number of its digits the width makes no difference. -/
theorem numeral_of_le (h : w ≤ (b.digits x).length) : numeral b w x = (b.digits x).reverse := by
  unfold numeral
  rw [Nat.sub_eq_zero_of_le h, List.replicate_zero, List.nil_append]

/-- Where all significant digits fit, digit `k` from the right is `x / b ^ k % b`. -/
theorem numeral_eq_map (hb : 1 < b) (hx : x < b ^ w) :
    numeral b w x = ((List.range w).map fun k => x / b ^ k % b).reverse := by
  have hlen : (b.digits x).length ≤ w := (Nat.digits_length_le_iff hb x).2 hx
  rw [← List.reverse_inj, List.reverse_reverse, numeral_reverse]
  apply List.ext_getElem
  · simp only [List.length_append, List.length_replicate, List.length_map, List.length_range]
    omega
  · intro k hk _
    rw [List.getElem_map, List.getElem_range, ← Nat.getD_digits x k (by omega), List.getElem_append]
    split
    · rename_i hlt
      rw [List.getD_eq_getElem _ _ hlt]
    · rename_i hge
      rw [List.getElem_replicate, List.getD_eq_default _ _ (by omega)]

end Numeral

/-! ## Reversing in place -/

/-- Swapping two elements of a list, with what lies around and between them. -/
theorem swap_ends {α : Type} (before m after : List α) (x y : α) :
    ((before ++ x :: (m ++ y :: after)).set before.length y).set (before.length + m.length + 1) x =
      before ++ y :: (m ++ x :: after) := by
  rw [List.set_append_right _ _ le_rfl, Nat.sub_self, List.set_cons_zero,
    List.set_append_right _ _ (by omega), show before.length + m.length + 1 - before.length = m.length + 1 by omega,
    List.set_cons_succ, List.set_append_right _ _ le_rfl, Nat.sub_self, List.set_cons_zero]

end Ulmix.Lib

import Mathlib
/-!
# Bit fields

Table entries pack an aligned address and some flag bits into one number. The
low bits of an aligned address are zero, so `|||` with flags is addition, and a
mask of ones picks out a range of bits.
-/

namespace Ulmix.Lib

/-- Or-ing bits an aligned number leaves free adds them. -/
theorem or_eq_add {k p b : Nat} (hp : 2 ^ k ∣ p) (hb : b < 2 ^ k) : p ||| b = p + b := by
  obtain ⟨a, rfl⟩ := hp
  exact (Nat.two_pow_add_eq_or_of_lt hb a).symm

/-- A mask of `n` ones from bit `i` on keeps just these bits. -/
theorem and_ones (x i n : Nat) : x &&& ((2 ^ n - 1) <<< i) = x / 2 ^ i % 2 ^ n * 2 ^ i := by
  have h : x &&& ((2 ^ n - 1) <<< i) = ((x >>> i) &&& (2 ^ n - 1)) <<< i := by
    apply Nat.eq_of_testBit_eq
    intro j
    by_cases hj : i ≤ j
    · simp [hj, Bool.and_comm]
    · simp [hj]
  rw [h, Nat.and_two_pow_sub_one_eq_mod, Nat.shiftRight_eq_div_pow, Nat.shiftLeft_eq]

theorem testBit_of_dvd {k p : Nat} (hp : 2 ^ k ∣ p) {i : Nat} (hi : i < k) : p.testBit i = false := by
  obtain ⟨a, rfl⟩ := hp
  rw [Nat.testBit_two_pow_mul]
  simp [hi]

end Ulmix.Lib

import Mathlib
/-!
# 32-bit words and byte memory

Unsigned 32-bit arithmetic on `Nat`, and a byte-addressed memory holding
little-endian words at any address. Nothing here knows what the words mean.
-/

namespace Ulmix.Lib

/-! ## Unsigned 32-bit arithmetic -/

/-- `a + b` as a 32-bit unsigned sum. -/
def add32 (a b : Nat) : Nat := (a + b) % 2 ^ 32

/-- `a - b` as a 32-bit unsigned difference. -/
def sub32 (a b : Nat) : Nat := (a + (2 ^ 32 - b)) % 2 ^ 32

theorem add32_lt (a b : Nat) : add32 a b < 2 ^ 32 := Nat.mod_lt _ (by decide)

theorem sub32_lt (a b : Nat) : sub32 a b < 2 ^ 32 := Nat.mod_lt _ (by decide)

theorem add32_eq {a b : Nat} (h : a + b < 2 ^ 32) : add32 a b = a + b := Nat.mod_eq_of_lt h

theorem sub32_eq {a b : Nat} (ha : a < 2 ^ 32) (h : b ≤ a) : sub32 a b = a - b := by
  unfold sub32; omega

theorem sub32_add32 {a b : Nat} (ha : a < 2 ^ 32) (hb : b < 2 ^ 32) : sub32 (add32 a b) a = b := by
  unfold sub32 add32; omega

/-! ## Words in a byte memory -/

/-- Byte `i` of `v`, counted from the low end. -/
def byteOf (v i : Nat) : UInt8 := UInt8.ofNat (v / 256 ^ i)

/-- The word whose bytes, low end first, are `x`, `y`, `z`, `w`. -/
def ofBytes (x y z w : UInt8) : Nat := x.toNat + 256 * y.toNat + 65536 * z.toNat + 16777216 * w.toNat

/-- The little-endian word at `a`; addresses wrap at `2 ^ 32`. -/
def read32 (m : Nat → UInt8) (a : Nat) : Nat :=
  ofBytes (m (add32 a 0)) (m (add32 a 1)) (m (add32 a 2)) (m (add32 a 3))

/-- Store the word `v` at `a`. -/
def write32 (m : Nat → UInt8) (a v : Nat) : Nat → UInt8 := fun b =>
  if sub32 b a < 4 then byteOf v (sub32 b a) else m b

theorem ofBytes_lt (x y z w : UInt8) : ofBytes x y z w < 2 ^ 32 := by
  have := x.toNat_lt; have := y.toNat_lt; have := z.toNat_lt; have := w.toNat_lt
  unfold ofBytes; omega

theorem ofBytes_byteOf {v : Nat} (hv : v < 2 ^ 32) :
    ofBytes (byteOf v 0) (byteOf v 1) (byteOf v 2) (byteOf v 3) = v := by
  simp only [ofBytes, byteOf, UInt8.toNat_ofNat']
  omega

/-- A word is zero when its bytes are. -/
theorem ofBytes_eq_zero {x y z w : UInt8} : ofBytes x y z w = 0 ↔ x = 0 ∧ y = 0 ∧ z = 0 ∧ w = 0 := by
  simp only [ofBytes, ← UInt8.toNat_inj, UInt8.toNat_zero]
  omega

theorem read32_eq_zero (m : Nat → UInt8) {a : Nat} (ha : a + 4 ≤ 2 ^ 32) :
    read32 m a = 0 ↔ ∀ b, a ≤ b → b < a + 4 → m b = 0 := by
  unfold read32
  rw [ofBytes_eq_zero, add32_eq (by omega), add32_eq (by omega), add32_eq (by omega), add32_eq (by omega)]
  constructor
  · rintro ⟨h0, h1, h2, h3⟩ b hb hb'
    obtain rfl | rfl | rfl | rfl : b = a + 0 ∨ b = a + 1 ∨ b = a + 2 ∨ b = a + 3 := by omega
    all_goals assumption
  · intro h
    exact ⟨h _ (by omega) (by omega), h _ (by omega) (by omega), h _ (by omega) (by omega), h _ (by omega) (by omega)⟩

theorem read32_lt (m : Nat → UInt8) (a : Nat) : read32 m a < 2 ^ 32 := ofBytes_lt _ _ _ _

theorem write32_in (m : Nat → UInt8) {a i : Nat} (v : Nat) (ha : a < 2 ^ 32) (hi : i < 4) :
    write32 m a v (add32 a i) = byteOf v i := by
  unfold write32
  rw [sub32_add32 ha (by omega), if_pos hi]

/-- A store changes only the four bytes it names. -/
theorem write32_out (m : Nat → UInt8) {a b : Nat} (v : Nat) (ha : a + 4 ≤ 2 ^ 32) (hb : b < 2 ^ 32)
    (h : b < a ∨ a + 4 ≤ b) : write32 m a v b = m b := by
  unfold write32
  rw [if_neg]
  unfold sub32; omega

theorem read32_write32 (m : Nat → UInt8) {a v : Nat} (ha : a < 2 ^ 32) (hv : v < 2 ^ 32) :
    read32 (write32 m a v) a = v := by
  unfold read32
  rw [write32_in m v ha (by decide), write32_in m v ha (by decide), write32_in m v ha (by decide),
    write32_in m v ha (by decide), ofBytes_byteOf hv]

theorem read32_congr {m m' : Nat → UInt8} {a : Nat} (ha : a + 4 ≤ 2 ^ 32)
    (h : ∀ b, a ≤ b → b < a + 4 → m' b = m b) : read32 m' a = read32 m a := by
  unfold read32
  rw [add32_eq (by omega), add32_eq (by omega), add32_eq (by omega), add32_eq (by omega),
    h _ (by omega) (by omega), h _ (by omega) (by omega), h _ (by omega) (by omega),
    h _ (by omega) (by omega)]

/-- Words that do not overlap do not see each other's stores. -/
theorem read32_write32_apart (m : Nat → UInt8) {a b : Nat} (v : Nat) (ha : a + 4 ≤ 2 ^ 32)
    (hb : b + 4 ≤ 2 ^ 32) (h : a + 4 ≤ b ∨ b + 4 ≤ a) : read32 (write32 m a v) b = read32 m b :=
  read32_congr hb fun c h1 h2 => write32_out m v ha (by omega) (by omega)

end Ulmix.Lib

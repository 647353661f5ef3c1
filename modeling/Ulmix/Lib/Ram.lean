import Ulmix.Lib.Word
/-!
# Memory that remembers its stores

`Ram` is a byte memory together with the address of every word stored so far.
`Writes P r r'` says that from `r` to `r'` only bytes satisfying `P` were
stored to, so everything else still reads the same.
-/

namespace Ulmix.Lib

/-- Byte memory, and the addresses of the words stored so far, latest first. -/
structure Ram where
  bytes : Nat → UInt8
  stores : List Nat := []

namespace Ram

/-- The word at `a`. -/
def word (r : Ram) (a : Nat) : Nat := read32 r.bytes a

/-- Store the word `v` at `a`. -/
def put (r : Ram) (a v : Nat) : Ram := ⟨write32 r.bytes a v, a :: r.stores⟩

theorem word_lt (r : Ram) (a : Nat) : r.word a < 2 ^ 32 := read32_lt _ _

theorem word_put (r : Ram) {a v : Nat} (ha : a < 2 ^ 32) (hv : v < 2 ^ 32) : (r.put a v).word a = v :=
  read32_write32 _ ha hv

theorem word_put_apart (r : Ram) {a b : Nat} (v : Nat) (ha : a + 4 ≤ 2 ^ 32) (hb : b + 4 ≤ 2 ^ 32)
    (h : a + 4 ≤ b ∨ b + 4 ≤ a) : (r.put a v).word b = r.word b :=
  read32_write32_apart _ v ha hb h

/-! ## What was written -/

/-- From `r` to `r'`, only bytes satisfying `P` were stored to. -/
structure Writes (P : Nat → Prop) (r r' : Ram) : Prop where
  /-- Every word stored since lies in `P`. -/
  stored : ∃ new, r'.stores = new ++ r.stores ∧ ∀ a ∈ new, ∀ i < 4, P (a + i)
  /-- Every other byte is as it was. -/
  kept : ∀ b < 2 ^ 32, ¬ P b → r'.bytes b = r.bytes b

namespace Writes

variable {P Q : Nat → Prop} {r r' r'' : Ram}

theorem refl (P : Nat → Prop) (r : Ram) : Writes P r r := ⟨⟨[], rfl, by simp⟩, fun _ _ _ => rfl⟩

theorem trans (h : Writes P r r') (h' : Writes P r' r'') : Writes P r r'' := by
  obtain ⟨n, hn, hp⟩ := h.stored
  obtain ⟨n', hn', hp'⟩ := h'.stored
  refine ⟨⟨n' ++ n, by rw [hn', hn, List.append_assoc], fun a ha => ?_⟩, fun b hb hq => ?_⟩
  · rcases List.mem_append.1 ha with ha | ha
    · exact hp' a ha
    · exact hp a ha
  · rw [h'.kept b hb hq, h.kept b hb hq]

theorem mono (hPQ : ∀ b, P b → Q b) (h : Writes P r r') : Writes Q r r' := by
  obtain ⟨n, hn, hp⟩ := h.stored
  exact ⟨⟨n, hn, fun a ha i hi => hPQ _ (hp a ha i hi)⟩, fun b hb hq => h.kept b hb fun h' => hq (hPQ b h')⟩

theorem put (h : Writes P r r') {a : Nat} (v : Nat) (ha : a + 4 ≤ 2 ^ 32) (hP : ∀ i < 4, P (a + i)) :
    Writes P r (r'.put a v) := by
  refine h.trans ⟨⟨[a], rfl, by simpa using hP⟩, fun b hb hq => write32_out _ _ ha hb ?_⟩
  by_contra hc
  exact hq (by have := hP (b - a) (by omega); rwa [show a + (b - a) = b by omega] at this)

/-- A word outside what was written reads the same. -/
theorem word (h : Writes P r r') {a : Nat} (ha : a + 4 ≤ 2 ^ 32) (hP : ∀ i < 4, ¬ P (a + i)) :
    r'.word a = r.word a :=
  read32_congr ha fun b h1 h2 => h.kept b (by omega)
    (by have := hP (b - a) (by omega); rwa [show a + (b - a) = b by omega] at this)

end Writes

end Ram

end Ulmix.Lib

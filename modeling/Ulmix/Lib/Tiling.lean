import Mathlib
/-!
# Tilings

`Tiles addr P lo as hi`: the cells `as` lie one behind the other and fill
`[lo, hi)`. Each cell starts at its `addr` and ends where the next one starts,
and `P a b` holds of every cell `a` and its end `b`. Replacing cells by others
that fill the same space is `Tiles.append` on both sides.
-/

namespace Ulmix.Lib

variable {α β : Type} {addr : α → Nat} {P Q : α → Nat → Prop}

/-- The cells `as` fill `[lo, hi)`, and `P` holds of each cell and its end. -/
def Tiles (addr : α → Nat) (P : α → Nat → Prop) : Nat → List α → Nat → Prop
  | lo, [], hi => lo = hi
  | lo, a :: as, hi => addr a = lo ∧ ∃ b, P a b ∧ Tiles addr P b as hi

namespace Tiles

variable {lo hi : Nat}

theorem append {xs ys : List α} :
    Tiles addr P lo (xs ++ ys) hi ↔ ∃ b, Tiles addr P lo xs b ∧ Tiles addr P b ys hi := by
  induction xs generalizing lo with
  | nil =>
    constructor
    · exact fun h => ⟨lo, rfl, h⟩
    · rintro ⟨b, rfl, h⟩; exact h
  | cons a xs ih =>
    simp only [List.cons_append, Tiles, ih]
    constructor
    · rintro ⟨h1, c, h2, b, h3, h4⟩; exact ⟨b, ⟨h1, c, h2, h3⟩, h4⟩
    · rintro ⟨b, ⟨h1, c, h2, h3⟩, h4⟩; exact ⟨h1, c, h2, b, h3, h4⟩

/-- A cell in the middle, its end, and what lies on both sides. -/
theorem at_cell {xs ys : List α} {a : α} :
    Tiles addr P lo (xs ++ a :: ys) hi ↔
      ∃ b, Tiles addr P lo xs (addr a) ∧ P a b ∧ Tiles addr P b ys hi := by
  rw [append]
  constructor
  · rintro ⟨_, h1, rfl, b, h2, h3⟩; exact ⟨b, h1, h2, h3⟩
  · rintro ⟨b, h1, h2, h3⟩; exact ⟨_, h1, rfl, b, h2, h3⟩

/-- The space starts with the first cell. -/
theorem start_eq {as : List α} (h : Tiles addr P lo as hi) : lo = (as.head?.map addr).getD hi := by
  cases as with
  | nil => exact h
  | cons a as => exact h.1.symm

/-- Cells that say where they end: the last one ends where the space does. -/
theorem last_eq {stop : α → Nat} {as : List α} {a : α} (h : Tiles addr (fun a b => stop a = b) lo (as ++ [a]) hi) :
    stop a = hi := by
  obtain ⟨b, -, hb, hnil⟩ := at_cell.1 h
  exact hb.trans hnil

theorem mono (hPQ : ∀ a b, P a b → Q a b) {as : List α} (h : Tiles addr P lo as hi) : Tiles addr Q lo as hi := by
  induction as generalizing lo with
  | nil => exact h
  | cons a as ih =>
    obtain ⟨h1, b, h2, h3⟩ := h
    exact ⟨h1, b, hPQ a b h2, ih h3⟩

/-- What is known of every cell can be had with the tiling. -/
theorem and_mem {R : α → Prop} {as : List α} (h : Tiles addr P lo as hi) (hR : ∀ a ∈ as, R a) :
    Tiles addr (fun a b => R a ∧ P a b) lo as hi := by
  induction as generalizing lo with
  | nil => exact h
  | cons a as ih =>
    obtain ⟨h1, b, h2, h3⟩ := h
    exact ⟨h1, b, ⟨hR a (by simp), h2⟩, ih h3 fun x hx => hR x (by simp [hx])⟩

/-- The same cells seen through `g`. -/
theorem map (g : α → β) {addr' : β → Nat} {Q : β → Nat → Prop} (ha : ∀ a, addr' (g a) = addr a)
    (hPQ : ∀ a b, P a b → Q (g a) b) {as : List α} (h : Tiles addr P lo as hi) :
    Tiles addr' Q lo (as.map g) hi := by
  induction as generalizing lo with
  | nil => exact h
  | cons a as ih =>
    obtain ⟨h1, b, h2, h3⟩ := h
    exact ⟨(ha a).trans h1, b, hPQ a b h2, ih h3⟩

variable {w : Nat} (hw : ∀ a b, P a b → addr a + w ≤ b)
include hw

theorem le {as : List α} (h : Tiles addr P lo as hi) : lo + w * as.length ≤ hi := by
  induction as generalizing lo with
  | nil => simpa [Tiles] using h.le
  | cons a as ih =>
    obtain ⟨rfl, b, h2, h3⟩ := h
    have := hw a b h2
    have := ih h3
    rw [List.length_cons, Nat.mul_add]
    omega

/-- Every cell ends at some point of the space that is filled. -/
theorem mem {as : List α} (h : Tiles addr P lo as hi) {a : α} (ha : a ∈ as) :
    ∃ b, P a b ∧ lo ≤ addr a ∧ b ≤ hi := by
  obtain ⟨xs, ys, rfl⟩ := List.append_of_mem ha
  obtain ⟨b, h1, h2, h3⟩ := at_cell.1 h
  have := le hw h1
  have := le hw h3
  exact ⟨b, h2, by omega, by omega⟩

/-- Of two cells, the first one ends before the second one starts. -/
theorem pairwise {as : List α} (h : Tiles addr P lo as hi) :
    as.Pairwise fun a a' => ∃ b, P a b ∧ b ≤ addr a' := by
  induction as generalizing lo with
  | nil => exact .nil
  | cons a as ih =>
    obtain ⟨rfl, b, h2, h3⟩ := h
    refine .cons (fun a' ha' => ?_) (ih h3)
    obtain ⟨_, _, hlo, _⟩ := mem hw h3 ha'
    exact ⟨b, h2, hlo⟩

end Tiles

end Ulmix.Lib

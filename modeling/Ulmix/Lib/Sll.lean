import Mathlib
/-!
# Singly linked lists

`Sll next c as`: following `next` from `c` visits exactly `as` and then reaches
zero. Nodes are plain numbers and the links a plain function, so any memory
layout can be used. A list that ends visits no node twice (`Sll.nodup`).
-/

namespace Ulmix.Lib

/-- The nodes `as`, linked from `c` on and ended by zero. -/
def Sll (next : Nat → Nat) : Nat → List Nat → Prop
  | c, [] => c = 0
  | c, a :: as => c = a ∧ a ≠ 0 ∧ Sll next (next a) as

namespace Sll

variable {next next' : Nat → Nat} {c : Nat} {as bs : List Nat}

/-- Only the links of the nodes themselves matter. -/
theorem congr (h : Sll next c as) (hn : ∀ a ∈ as, next' a = next a) : Sll next' c as := by
  induction as generalizing c with
  | nil => exact h
  | cons a as ih =>
    obtain ⟨h1, h2, h3⟩ := h
    refine ⟨h1, h2, ?_⟩
    rw [hn a (by simp)]
    exact ih h3 (fun b hb => hn b (by simp [hb]))

theorem unique (h : Sll next c as) (h' : Sll next c bs) : as = bs := by
  induction as generalizing c bs with
  | nil =>
    cases bs with
    | nil => rfl
    | cons b bs => exact absurd (h'.1.symm.trans h) h'.2.1
  | cons a as ih =>
    cases bs with
    | nil => exact absurd (h.1.symm.trans h') h.2.1
    | cons b bs =>
      obtain ⟨rfl, -, h⟩ := h
      obtain ⟨rfl, -, h'⟩ := h'
      rw [ih h h']

theorem eq_nil (h : Sll next 0 as) : as = [] := h.unique rfl

/-- The rest of the list, from a node of it. -/
theorem suffix {xs : List Nat} {a : Nat} (h : Sll next c (xs ++ a :: as)) : Sll next a (a :: as) := by
  induction xs generalizing c with
  | nil =>
    obtain ⟨-, h2, h3⟩ := h
    exact ⟨rfl, h2, h3⟩
  | cons x xs ih => exact ih h.2.2

theorem ne_zero (h : Sll next c as) : ∀ a ∈ as, a ≠ 0 := by
  intro a ha
  obtain ⟨xs, ys, rfl⟩ := List.append_of_mem ha
  exact h.suffix.2.1

theorem nodup (h : Sll next c as) : as.Nodup := by
  induction as generalizing c with
  | nil => exact List.nodup_nil
  | cons a as ih =>
    refine List.nodup_cons.2 ⟨fun ha => ?_, ih h.2.2⟩
    -- a node met again would head two lists of different length
    obtain ⟨xs, ys, rfl⟩ := List.append_of_mem ha
    have hlong : Sll next a (a :: (xs ++ a :: ys)) := ⟨rfl, h.2⟩
    have hshort : Sll next a (a :: ys) := by
      rw [← List.cons_append] at hlong
      exact hlong.suffix
    have := congrArg List.length (hlong.unique hshort)
    simp only [List.length_cons, List.length_append] at this
    omega

/-- The last node of a chain is linked to another one. -/
theorem isChain_snoc {a b : Nat} (hc : as.IsChain fun a b => next a = b) (hnd : as.Nodup) (ha : a ∈ as.getLast?) :
    (as ++ [b]).IsChain fun x y => Function.update next a b x = y := by
  induction as with
  | nil => cases ha
  | cons x as ih =>
    cases as with
    | nil =>
      obtain rfl : x = a := by simpa using ha
      simp
    | cons y as =>
      obtain ⟨hx, hnd⟩ := List.nodup_cons.1 hnd
      obtain ⟨hxy, hc⟩ := List.isChain_cons_cons.1 hc
      have ha : a ∈ (y :: as).getLast? := by rwa [List.getLast?_cons_cons] at ha
      have hne : x ≠ a := fun heq => hx (heq ▸ List.mem_of_mem_getLast? ha)
      refine List.isChain_cons_cons.2 ⟨?_, ih hc hnd ha⟩
      rw [Function.update_of_ne hne]
      exact hxy

/-- A chain of nodes whose last one ends the list. -/
theorem of_isChain (hc : as.IsChain fun a b => next a = b) (h0 : ∀ a ∈ as, a ≠ 0)
    (hlast : ∀ a ∈ as.getLast?, next a = 0) : Sll next (as.head?.getD 0) as := by
  induction as with
  | nil => rfl
  | cons a as ih =>
    refine ⟨rfl, h0 a (by simp), ?_⟩
    cases as with
    | nil => exact hlast a rfl
    | cons b as =>
      have hab : next a = b := (List.isChain_cons_cons.1 hc).1
      rw [hab]
      exact ih (List.isChain_cons_cons.1 hc).2 (fun x hx => h0 x (by simp [hx])) hlast

/-- There are at most as many nodes as addresses. -/
theorem length_lt {n : Nat} (h : Sll next c as) (hn : 0 < n) (hlt : ∀ a ∈ as, a < n) : as.length < n := by
  have hsub : as ⊆ (List.range n).erase 0 := by
    intro a ha
    rw [List.mem_erase_of_ne (h.ne_zero a ha)]
    exact List.mem_range.2 (hlt a ha)
  have hle := (h.nodup.subperm hsub).length_le
  rw [List.length_erase_of_mem (List.mem_range.2 hn), List.length_range] at hle
  omega

end Sll

end Ulmix.Lib

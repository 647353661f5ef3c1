import Mathlib
/-!
# Doubly linked lists

`Dll next prev p c as l f`: following `next` from `c` visits exactly `as` and
then reaches `f`, and `prev` leads back from each node to the one before it,
from the first to `p`. The last node is `l` (`p` when there is none). Nodes are
plain numbers and the links plain functions, so any memory layout can be used.
-/

namespace Ulmix.Lib

/-- The nodes `as` linked both ways, between `p` on the left and `f` on the right. -/
def Dll (next prev : Nat → Nat) : Nat → Nat → List Nat → Nat → Nat → Prop
  | p, c, [], l, f => p = l ∧ c = f
  | p, c, a :: as, l, f => c = a ∧ prev a = p ∧ Dll next prev a (next a) as l f

namespace Dll

variable {next prev next' prev' : Nat → Nat} {p c l f : Nat}

theorem append {xs ys : List Nat} :
    Dll next prev p c (xs ++ ys) l f ↔ ∃ q d, Dll next prev p c xs q d ∧ Dll next prev q d ys l f := by
  induction xs generalizing p c with
  | nil =>
    constructor
    · exact fun h => ⟨p, c, ⟨rfl, rfl⟩, h⟩
    · rintro ⟨q, d, ⟨rfl, rfl⟩, h⟩; exact h
  | cons a xs ih =>
    simp only [List.cons_append, Dll, ih]
    constructor
    · rintro ⟨h1, h2, q, d, h3, h4⟩; exact ⟨q, d, ⟨h1, h2, h3⟩, h4⟩
    · rintro ⟨q, d, ⟨h1, h2, h3⟩, h4⟩; exact ⟨h1, h2, q, d, h3, h4⟩

/-- Only the links of the nodes themselves matter. -/
theorem congr {as : List Nat} (h : Dll next prev p c as l f)
    (hn : ∀ a ∈ as, next' a = next a) (hp : ∀ a ∈ as, prev' a = prev a) : Dll next' prev' p c as l f := by
  induction as generalizing p c with
  | nil => exact h
  | cons a as ih =>
    obtain ⟨h1, h2, h3⟩ := h
    refine ⟨h1, (hp a (by simp)).trans h2, ?_⟩
    rw [hn a (by simp)]
    exact ih h3 (fun b hb => hn b (by simp [hb])) (fun b hb => hp b (by simp [hb]))

/-- The links at a node in the middle: what is before it, and what follows. -/
theorem at_node {xs ys : List Nat} {a : Nat} (h : Dll next prev p c (xs ++ a :: ys) l f) :
    Dll next prev p c xs (prev a) a ∧ Dll next prev a (next a) ys l f := by
  obtain ⟨q, d, h1, rfl, rfl, h2⟩ := append.1 h
  exact ⟨h1, h2⟩

theorem next_eq {xs ys : List Nat} {a b : Nat} (h : Dll next prev p c (xs ++ a :: b :: ys) l f) : next a = b :=
  (at_node h).2.1

theorem prev_eq {xs ys : List Nat} {a b : Nat} (h : Dll next prev p c (xs ++ a :: b :: ys) l f) : prev b = a :=
  (at_node h).2.2.1

theorem next_last {xs : List Nat} {a : Nat} (h : Dll next prev p c (xs ++ [a]) l f) : next a = f :=
  (at_node h).2.2

theorem prev_first {ys : List Nat} {a : Nat} (h : Dll next prev p c (a :: ys) l f) : prev a = p := h.2.1

theorem head_eq {as : List Nat} (h : Dll next prev p c as l f) : ∀ a ∈ as.head?, a = c := by
  cases as with
  | nil => intro a ha; cases ha
  | cons b as =>
    rintro a ⟨⟩
    exact h.1.symm

/-- Only the first node is where the list starts. -/
theorem ne_of_mem_tail {as : List Nat} (h : Dll next prev p c as l f) (hnd : as.Nodup) : ∀ a ∈ as.tail, a ≠ c := by
  cases as with
  | nil => intro a ha; cases ha
  | cons b as =>
    intro a ha he
    rw [he, h.1] at ha
    exact (List.nodup_cons.1 hnd).1 ha

/-- Hang the list `as` behind another node: only the first back link changes. -/
theorem rehang {as : List Nat} {q : Nat} (h : Dll next prev p c as l f)
    (hn : ∀ a ∈ as, next' a = next a) (hp : ∀ a ∈ as.tail, prev' a = prev a)
    (hq : ∀ a ∈ as.head?, prev' a = q) : ∃ l', Dll next' prev' q c as l' f := by
  cases as with
  | nil => exact ⟨q, rfl, h.2⟩
  | cons a as =>
    obtain ⟨h1, -, h3⟩ := h
    refine ⟨l, h1, hq a rfl, ?_⟩
    rw [hn a (by simp)]
    exact congr h3 (fun b hb => hn b (by simp [hb])) hp

/-- Link the new node `n` in before the first one. -/
theorem push_front {as : List Nat} {n : Nat} (h : Dll next prev p c as l f) (hnn : next' n = c) (hpn : prev' n = p)
    (hn : ∀ a ∈ as, next' a = next a) (hp : ∀ a ∈ as.tail, prev' a = prev a) (hq : ∀ a ∈ as.head?, prev' a = n) :
    ∃ l', Dll next' prev' p n (n :: as) l' f := by
  obtain ⟨l', h'⟩ := rehang h hn hp hq
  refine ⟨l', rfl, hpn, ?_⟩
  rw [hnn]
  exact h'

/-- Link the new node `n` in behind `a`. -/
theorem insert_after {xs ys : List Nat} {a n : Nat} (hnd : (xs ++ a :: n :: ys).Nodup)
    (h : Dll next prev p c (xs ++ a :: ys) l f)
    (hn : ∀ b ∈ xs ++ a :: n :: ys, next' b = if b = a then n else if b = n then next a else next b)
    (hp : ∀ b ∈ xs ++ a :: n :: ys, prev' b = if b = n then a else if ys.head? = some b then n else prev b) :
    ∃ l', Dll next' prev' p c (xs ++ a :: n :: ys) l' f := by
  obtain ⟨h1, h2⟩ := at_node h
  have hys : ∃ l', Dll next' prev' n (next a) ys l' f := by
    refine rehang h2 (fun b hb => ?_) (fun b hb => ?_) (fun b hb => ?_)
    · rw [hn b (by simp [hb])]; grind
    · rw [hp b (by simp [List.mem_of_mem_tail hb])]; cases ys <;> grind
    · have hb' := Option.mem_def.1 hb
      have hbn : b ≠ n := by have := List.mem_of_mem_head? hb; grind
      rw [hp b (by simp [List.mem_of_mem_head? hb]), if_neg hbn, if_pos hb']
  obtain ⟨l', h3⟩ := hys
  have hxs : Dll next' prev' p c xs (prev a) a := by
    refine congr h1 (fun b hb => ?_) (fun b hb => ?_)
    · rw [hn b (by simp [hb])]; grind
    · rw [hp b (by simp [hb])]; cases ys <;> grind
  have hpa : prev' a = prev a := by rw [hp a (by simp)]; cases ys <;> grind
  have hna : next' a = n := by rw [hn a (by simp), if_pos rfl]
  have hpn : prev' n = a := by rw [hp n (by simp), if_pos rfl]
  have hnn : next' n = next a := by rw [hn n (by simp)]; grind
  exact ⟨l', append.2 ⟨_, _, hxs, rfl, hpa, hna, hpn, by rw [hnn]; exact h3⟩⟩

/-- Link the node `b` behind `a` out of the list. -/
theorem unlink_next {xs ys : List Nat} {a b : Nat} (hnd : (xs ++ a :: b :: ys).Nodup)
    (h : Dll next prev p c (xs ++ a :: b :: ys) l f)
    (hn : ∀ x ∈ xs ++ a :: ys, next' x = if x = a then next b else next x)
    (hp : ∀ x ∈ xs ++ a :: ys, prev' x = if ys.head? = some x then a else prev x) :
    ∃ l', Dll next' prev' p c (xs ++ a :: ys) l' f := by
  obtain ⟨h1, -, -, h2⟩ := at_node h
  have hys : ∃ l', Dll next' prev' a (next b) ys l' f := by
    refine rehang h2 (fun x hx => ?_) (fun x hx => ?_) (fun x hx => ?_)
    · rw [hn x (by simp [hx])]; grind
    · rw [hp x (by simp [List.mem_of_mem_tail hx])]; cases ys <;> grind
    · rw [hp x (by simp [List.mem_of_mem_head? hx]), if_pos (Option.mem_def.1 hx)]
  obtain ⟨l', h3⟩ := hys
  have hxs : Dll next' prev' p c xs (prev a) a := by
    refine congr h1 (fun x hx => ?_) (fun x hx => ?_)
    · rw [hn x (by simp [hx])]; grind
    · rw [hp x (by simp [hx])]; cases ys <;> grind
  have hpa : prev' a = prev a := by rw [hp a (by simp)]; cases ys <;> grind
  have hna : next' a = next b := by rw [hn a (by simp), if_pos rfl]
  exact ⟨l', append.2 ⟨_, _, hxs, rfl, hpa, by rw [hna]; exact h3⟩⟩

end Dll

end Ulmix.Lib

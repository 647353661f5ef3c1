import Mathlib
/-!
# Extents and the gaps between them

Half-open stretches of addresses, in any order. Of the addresses below `x`,
pairwise disjoint extents take the sum of what each takes; the rest is `gap`.
-/

namespace Ulmix.Lib

/-- `len` addresses from `lo` on. -/
structure Extent where
  lo : Nat
  len : Nat

namespace Extent

def Has (e : Extent) (a : Nat) : Prop := e.lo ≤ a ∧ a < e.lo + e.len

instance (e : Extent) (a : Nat) : Decidable (e.Has a) := inferInstanceAs (Decidable (_ ∧ _))

/-- How many of its addresses lie below `x`. -/
def below (e : Extent) (x : Nat) : Nat := min (e.lo + e.len) x - e.lo

/-- How many of its addresses lie at `x` or above. -/
def above (e : Extent) (x : Nat) : Nat := e.len - e.below x

theorem below_le (e : Extent) (x : Nat) : e.below x ≤ e.len := by
  unfold below
  omega

theorem below_add_above (e : Extent) (x : Nat) : e.below x + e.above x = e.len := by
  have := e.below_le x
  unfold above
  omega

def Apart (e f : Extent) : Prop := ∀ a, ¬ (e.Has a ∧ f.Has a)

/-- The addresses below `x` that no extent has. -/
def gap (es : List Extent) (x : Nat) : Nat := ((Finset.range x).filter fun a => ∀ e ∈ es, ¬ e.Has a).card

theorem card_has (e : Extent) (x : Nat) : ((Finset.range x).filter fun a => e.Has a).card = e.below x := by
  have hico : (Finset.range x).filter (fun a => e.Has a) = Finset.Ico e.lo (min (e.lo + e.len) x) := by
    ext a
    rw [Finset.mem_filter, Finset.mem_range, Finset.mem_Ico]
    unfold Has
    omega
  rw [hico, Nat.card_Ico]
  rfl

/-- An extent apart from all the others fills its part of the gap they leave. -/
theorem below_add_gap_cons {e : Extent} {es : List Extent} (hd : ∀ f ∈ es, Apart e f) (x : Nat) :
    e.below x + gap (e :: es) x = gap es x := by
  have hsplit : (Finset.range x).filter (fun a => ∀ f ∈ es, ¬ f.Has a)
      = (Finset.range x).filter (fun a => e.Has a) ∪ (Finset.range x).filter fun a => ∀ f ∈ e :: es, ¬ f.Has a := by
    ext a
    rw [Finset.mem_union, Finset.mem_filter, Finset.mem_filter, Finset.mem_filter]
    constructor
    · rintro ⟨ha, hn⟩
      by_cases he : e.Has a
      · exact .inl ⟨ha, he⟩
      · exact .inr ⟨ha, List.forall_mem_cons.2 ⟨he, hn⟩⟩
    · rintro (⟨ha, he⟩ | ⟨ha, hn⟩)
      · exact ⟨ha, fun f hf hfa => hd f hf a ⟨he, hfa⟩⟩
      · exact ⟨ha, (List.forall_mem_cons.1 hn).2⟩
  have hdisj : Disjoint ((Finset.range x).filter fun a => e.Has a)
      ((Finset.range x).filter fun a => ∀ f ∈ e :: es, ¬ f.Has a) := by
    apply Finset.disjoint_left.2
    intro a ha hn
    exact (Finset.mem_filter.1 hn).2 e List.mem_cons_self (Finset.mem_filter.1 ha).2
  unfold gap
  rw [hsplit, Finset.card_union_of_disjoint hdisj, card_has]

/-- What pairwise disjoint extents take below `x`, and what they leave, is all of it. -/
theorem below_add_gap {es : List Extent} (hd : es.Pairwise Apart) (x : Nat) :
    (es.map (·.below x)).sum + gap es x = x := by
  induction es with
  | nil =>
    have hall : (Finset.range x).filter (fun a => ∀ e ∈ ([] : List Extent), ¬ e.Has a) = Finset.range x := by
      apply Finset.filter_true_of_mem
      intro a _ e he
      cases he
    rw [gap, hall, Finset.card_range]
    exact Nat.zero_add x
  | cons e es ih =>
    obtain ⟨he, hes⟩ := List.pairwise_cons.1 hd
    have hcons := below_add_gap_cons he x
    have := ih hes
    rw [List.map_cons, List.sum_cons]
    omega

theorem sum_below_add_above (es : List Extent) (x : Nat) :
    (es.map (·.below x)).sum + (es.map (·.above x)).sum = (es.map (·.len)).sum := by
  induction es with
  | nil => rfl
  | cons e es ih =>
    have := e.below_add_above x
    simp only [List.map_cons, List.sum_cons]
    omega

/-- No gap where every address is taken. -/
theorem gap_eq_zero {es : List Extent} {x : Nat} (h : ∀ a < x, ∃ e ∈ es, e.Has a) : gap es x = 0 := by
  apply Finset.card_eq_zero.2
  apply Finset.filter_eq_empty_iff.2
  intro a ha hn
  obtain ⟨e, he, hea⟩ := h a (Finset.mem_range.1 ha)
  exact hn e he hea

end Extent

end Ulmix.Lib

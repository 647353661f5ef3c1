import Ulmix.Lib.Dll
import Ulmix.Memory.Heap
/-!
# Headers and their links

As long as the headers lie apart from each other, a store to one field of one
header is seen there and nowhere else (`Nodes.field_setField`). So
`link_new_entry` puts a header into the list and changes nothing but links, and
only bytes of headers are written.
-/
open Ulmix.Lib Ulmix.Sync

namespace Ulmix.Heap

/-! ## Headers apart from each other -/

/-- The headers at `a` and `b` do not overlap. -/
def Apart (a b : Nat) : Prop := a + 24 ≤ b ∨ b + 24 ≤ a

/-- Non-null, below 4 GiB and pairwise apart: addresses that can hold headers. -/
structure Nodes (as : List Nat) : Prop where
  hdr : ∀ a ∈ as, a ≠ 0 ∧ a + 24 ≤ 2 ^ 32
  apart : as.Pairwise Apart

/-- The bytes of the headers at `as`. -/
def InHdr (as : List Nat) (b : Nat) : Prop := ∃ a ∈ as, a ≤ b ∧ b < a + 24

theorem InHdr.sub {as bs : List Nat} {b : Nat} (h : InHdr as b) (hs : as.Sublist bs) : InHdr bs b := by
  obtain ⟨a, ha, hb⟩ := h
  exact ⟨a, hs.subset ha, hb⟩

theorem Apart.symm {a b : Nat} (h : Apart a b) : Apart b a := Or.symm h

theorem Nodes.eq_or_apart {as : List Nat} (h : Nodes as) {p q : Nat} (hp : p ∈ as) (hq : q ∈ as) :
    q = p ∨ Apart p q := by
  by_cases he : q = p
  · exact .inl he
  · have : Std.Symm Apart := ⟨fun _ _ => Apart.symm⟩
    exact .inr (h.apart.forall hp hq (Ne.symm he))

theorem Nodes.nodup {as : List Nat} (h : Nodes as) : as.Nodup :=
  h.apart.imp fun hab he => by unfold Apart at hab; omega

theorem Nodes.sub {as bs : List Nat} (h : Nodes as) (hs : bs.Sublist as) : Nodes bs :=
  ⟨fun a ha => h.hdr a (hs.subset ha), h.apart.sublist hs⟩

theorem off_lt (f : Field) : f.off + 4 ≤ 24 := by cases f <;> decide

theorem off_ne {f g : Field} (h : g ≠ f) : f.off + 4 ≤ g.off ∨ g.off + 4 ≤ f.off := by
  cases f <;> cases g <;> first | exact absurd rfl h | decide

theorem field_lt (r : Ram) (p : Nat) (f : Field) : field r p f < 2 ^ 32 := r.word_lt _

/-- A store to a header field, seen from any field of any header. -/
theorem Nodes.field_setField {as : List Nat} (h : Nodes as) {r : Ram} {p q v : Nat} (hp : p ∈ as) (hq : q ∈ as)
    (hv : v < 2 ^ 32) (f g : Field) :
    field (setField r p f v) q g = if q = p ∧ g = f then v else field r q g := by
  have hp' := (h.hdr p hp).2
  have hq' := (h.hdr q hq).2
  have hf := off_lt f
  have hg := off_lt g
  unfold field setField
  split
  · rename_i he
    rw [he.1, he.2]
    exact Ram.word_put _ (add32_lt _ _) hv
  · rename_i hne
    rw [add32_eq (by omega), add32_eq (by omega)]
    refine Ram.word_put_apart _ _ (by omega) (by omega) ?_
    rcases h.eq_or_apart hp hq with rfl | hap
    · have := off_ne (f := f) (g := g) (fun hgf => hne ⟨rfl, hgf⟩)
      omega
    · unfold Apart at hap
      omega

theorem writes_setField {as : List Nat} {r r' : Ram} {p : Nat} (hp : p ∈ as) (hp' : p + 24 ≤ 2 ^ 32) (f : Field)
    (v : Nat) (hw : Ram.Writes (InHdr as) r r') : Ram.Writes (InHdr as) r (setField r' p f v) := by
  have hf := off_lt f
  unfold setField
  rw [add32_eq (by omega)]
  exact hw.put v (by omega) fun i hi => ⟨p, hp, by omega, by omega⟩

/-- A header apart from everything written keeps its fields. -/
theorem field_of_writes {P : Nat → Prop} {r r' : Ram} (hw : Ram.Writes P r r') {p : Nat} (hp : p + 24 ≤ 2 ^ 32)
    (hP : ∀ b, p ≤ b → b < p + 24 → ¬ P b) (f : Field) : field r' p f = field r p f := by
  have hf := off_lt f
  unfold field
  rw [add32_eq (by omega)]
  exact hw.word (by omega) fun i hi => hP _ (by omega) (by omega)

theorem load_eq {p : Nat} (hp : p ≠ 0) (f : Field) (r : Ram) : load p f r = .ok (field r p f, r) := by
  simp [load, hp, Exec.bind_apply]

theorem store_eq {p : Nat} (hp : p ≠ 0) (f : Field) (v : Nat) (r : Ram) :
    store p f v r = .ok ((), setField r p f v) := by
  simp [store, hp]

/-! ## Linking in a new header -/

def nextOf (r : Ram) (p : Nat) : Nat := field r p .next

def previousOf (r : Ram) (p : Nat) : Nat := field r p .previous

/-- The headers at `as` form the list that starts at `lo`. -/
def Linked (r : Ram) (lo : Nat) (as : List Nat) : Prop := ∃ l, Dll (nextOf r) (previousOf r) 0 lo as l 0

/-- Fields other than the two links. -/
def Field.isLink : Field → Bool
  | .next | .previous => true
  | _ => false

/-- The entry after `a` is the head of the rest of the list, if there is one. -/
theorem Linked.next_head {r : Ram} {lo a : Nat} {xs ys : List Nat} (h : Linked r lo (xs ++ a :: ys)) :
    field r a .next = ys.head?.getD 0 := by
  obtain ⟨l, h⟩ := h
  cases ys with
  | nil =>
    have hn : nextOf r a = 0 := h.next_last
    exact hn
  | cons y ys =>
    have hn : nextOf r a = y := h.next_eq
    exact hn

/-- The entry before `a` is the last one of what comes before it. -/
theorem Linked.previous_last {r : Ram} {lo a : Nat} {xs ys : List Nat} (h : Linked r lo (xs ++ a :: ys)) :
    field r a .previous = xs.getLast?.getD 0 := by
  obtain ⟨l, h⟩ := h
  rcases List.eq_nil_or_concat xs with rfl | ⟨ws, w, rfl⟩
  · have hp : previousOf r a = 0 := h.prev_first
    exact hp
  · rw [List.concat_eq_append, List.append_assoc] at h
    rw [List.concat_eq_append, List.getLast?_concat]
    have hp : previousOf r a = w := h.prev_eq
    exact hp

/-- The memory after `link_new_entry`, field by field. -/
theorem link_new_entry_run {as : List Nat} (hN : Nodes as) {r : Ram} {a n : Nat} (ha : a ∈ as) (hn : n ∈ as)
    (han : n ≠ a) (hy : field r a .next ≠ 0 → field r a .next ∈ as) :
    ∃ r', link_new_entry n a r = .ok (n, r') ∧ Ram.Writes (InHdr as) r r' ∧
      ∀ p ∈ as, ∀ f, field r' p f =
        if p = a ∧ f = .next then n
        else if p = field r a .next ∧ f = .previous then n
        else if p = n ∧ f = .next then field r a .next
        else if p = n ∧ f = .previous then a
        else field r p f := by
  have ha0 := (hN.hdr a ha).1
  have hn0 := (hN.hdr n hn).1
  have ha24 := (hN.hdr a ha).2
  have hn24 := (hN.hdr n hn).2
  have ha4 : a < 2 ^ 32 := by omega
  have hn4 : n < 2 ^ 32 := by omega
  have hy4 := field_lt r a .next
  have h1 : ∀ p ∈ as, ∀ f, field (setField r n .previous a) p f = if p = n ∧ f = .previous then a else field r p f :=
    fun p hp f => hN.field_setField hn hp ha4 _ _
  have h1a : field (setField r n .previous a) a .next = field r a .next := by simp [h1 a ha]
  set r2 := setField (setField r n .previous a) n .next (field r a .next) with hr2
  have h2 : ∀ p ∈ as, ∀ f, field r2 p f =
      if p = n ∧ f = .next then field r a .next
      else if p = n ∧ f = .previous then a else field r p f := fun p hp f => by
    rw [hr2, hN.field_setField hn hp hy4, h1 p hp]
  have h2a : field r2 a .next = field r a .next := by simp [h2 a ha, Ne.symm han]
  have hw2 : Ram.Writes (InHdr as) r r2 := writes_setField hn hn24 _ _ (writes_setField hn hn24 _ _ (.refl _ _))
  by_cases hz : field r a .next = 0
  · refine ⟨setField r2 a .next n, ?_, writes_setField ha ha24 _ _ hw2, fun p hp f => ?_⟩
    · simp only [link_new_entry, Exec.bind_apply, load_eq ha0, store_eq hn0, h1a, ← hr2, h2a]
      rw [if_neg (fun h => h hz)]
      simp only [Exec.bind_apply, Exec.pure_apply, store_eq ha0]
    · have hp0 := (hN.hdr p hp).1
      rw [hN.field_setField ha hp hn4, h2 p hp]
      simp [hz, hp0]
  · have hyas := hy hz
    have h3 : ∀ p ∈ as, ∀ f, field (setField r2 (field r a .next) .previous n) p f =
        if p = field r a .next ∧ f = .previous then n else field r2 p f :=
      fun p hp f => hN.field_setField hyas hp hn4 _ _
    refine ⟨setField (setField r2 (field r a .next) .previous n) a .next n, ?_,
      writes_setField ha ha24 _ _ (writes_setField hyas (hN.hdr _ hyas).2 _ _ hw2), fun p hp f => ?_⟩
    · simp only [link_new_entry, Exec.bind_apply, load_eq ha0, store_eq hn0, h1a, ← hr2, h2a]
      rw [if_pos hz]
      simp only [Exec.bind_apply, Exec.pure_apply, load_eq ha0, store_eq ha0, h2a, store_eq hz]
    · rw [hN.field_setField ha hp hn4, h3 p hp, h2 p hp]

/-- `link_new_entry` puts the new header right behind `prev` and changes no other field. -/
theorem link_new_entry_spec {r : Ram} {lo a n : Nat} {xs ys : List Nat} (h : Linked r lo (xs ++ a :: ys))
    (hN : Nodes (xs ++ a :: n :: ys)) :
    ∃ r', link_new_entry n a r = .ok (n, r') ∧ Linked r' lo (xs ++ a :: n :: ys) ∧
      Ram.Writes (InHdr (xs ++ a :: n :: ys)) r r' ∧
      ∀ p ∈ xs ++ a :: n :: ys, ∀ f, f.isLink = false → field r' p f = field r p f := by
  have hnext := h.next_head
  have hnd := hN.nodup
  have han : n ≠ a := by grind
  have hyas : field r a .next ≠ 0 → field r a .next ∈ xs ++ a :: n :: ys := by
    rw [hnext]
    cases ys <;> simp
  obtain ⟨r', hr, hw, hf⟩ := link_new_entry_run hN (a := a) (n := n) (by simp) (by simp) han hyas
  refine ⟨r', hr, ?_, hw, fun p hp f hl => ?_⟩
  · obtain ⟨l, hd⟩ := h
    refine Dll.insert_after hnd hd (fun b hb => ?_) (fun b hb => ?_)
    · simp [nextOf, hf b hb]
    · have hb0 := (hN.hdr b hb).1
      have hny : n ≠ field r a .next := by
        have hn0 := (hN.hdr n (by simp)).1
        rw [hnext]
        cases ys <;> grind
      have hby : b = field r a .next ↔ ys.head? = some b := by
        rw [hnext]
        cases ys <;> grind
      simp only [previousOf, hf b hb, hby]
      grind
  · rw [hf p hp]
    cases f <;> simp_all [Field.isLink]

end Ulmix.Heap

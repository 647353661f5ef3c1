import Ulmix.Memory.Entries
/-!
# Taking an entry

`kmalloc` takes the first entry that fits, and `alloc_entry` replaces it by
`allocEntry`: what is left in front, the block, and what is left behind it.
-/
open Ulmix.Lib Ulmix.Sync

namespace Ulmix.Heap

/-! ## Taking an entry -/

/-- The header of the block `alloc_entry` takes from `e` behind `off` bytes of padding. -/
def Entry.newAddr (e : Entry) (off : Nat) : Nat := if 96 ≤ off then sub32 (add32 e.start off) 24 else e.addr

/-- What stays of `e` in front of the block. -/
def Entry.front (e : Entry) (off : Nat) : List Entry :=
  if 96 ≤ off then [{ e with size := sub32 (e.newAddr off) e.start }] else []

/-- The entry of the block. -/
def Entry.taken (e : Entry) (off size : Nat) : Entry where
  addr := e.newAddr off
  start := add32 e.start off
  size := if 96 < sub32 e.size size then size else e.size
  available := false

/-- What stays of `e` behind the block. -/
def Entry.tail (e : Entry) (off size : Nat) : List Entry :=
  if 96 < sub32 e.size size then
    [{ addr := add32 (add32 e.start off) size
       start := add32 (add32 (add32 e.start off) size) 24
       size := sub32 (sub32 (sub32 e.size off) size) 24
       available := true }]
  else []

/-- What `alloc_entry` makes of `e`. -/
def allocEntry (e : Entry) (off size : Nat) : List Entry := e.front off ++ e.taken off size :: e.tail off size

section Alloc
variable {r : Ram} {lo off size : Nat} {xs ys : List Entry} {e : Entry} {as : List Nat}

theorem alloc_front_spec (h : Represents r lo (xs ++ e :: ys))
    (hN : Nodes ((xs ++ e.front off).map Entry.addr ++ e.newAddr off :: ys.map Entry.addr))
    (ha : ∀ a ∈ (xs ++ e.front off).map Entry.addr ++ e.newAddr off :: ys.map Entry.addr, a ∈ as) :
    ∃ r' n, alloc_front e.addr off r = .ok (e.newAddr off, r') ∧ n.addr = e.newAddr off ∧
      Represents r' lo (xs ++ e.front off ++ n :: ys) ∧ field r' e.addr .start = e.start ∧
      Ram.Writes (InHdr as) r r' := by
  have he : e ∈ xs ++ e :: ys := by simp
  by_cases hoff : 96 ≤ off
  · have hfront : e.front off = [{ e with size := sub32 (e.newAddr off) e.start }] := if_pos hoff
    have hnew : sub32 (add32 e.start off) headerSize = e.newAddr off := (if_pos hoff).symm
    simp only [hfront, List.map_append, List.map_cons, List.map_nil, List.append_assoc, List.cons_append,
      List.nil_append] at hN ha ⊢
    obtain ⟨r1, n, h1, hn, hr1, hw1, -⟩ := h.link_new_entry hN ha
    obtain ⟨r2, h2, hr2, hw2, -⟩ := hr1.store_field (f := .size) rfl (sub32_lt (e.newAddr off) e.start)
      (ha _ (by simp))
    refine ⟨r2, n, ?_, hn, hr2, hr2.start_eq (e := e.set .size (sub32 (e.newAddr off) e.start)) (by simp),
      hw1.trans hw2⟩
    unfold alloc_front
    rw [if_pos (show off ≥ 4 * headerSize from hoff), Exec.bind_of_ok (h.load_field he _), h.start_eq he, hnew,
      Exec.bind_of_ok h1, Exec.bind_of_ok (hr1.load_field (by simp) _), hr1.start_eq (by simp), Exec.bind_of_ok h2]
    rfl
  · have hfront : e.front off = [] := if_neg hoff
    have hnew : e.newAddr off = e.addr := if_neg hoff
    rw [hfront, hnew, List.append_nil]
    refine ⟨r, e, ?_, rfl, h, h.start_eq he, .refl _ _⟩
    unfold alloc_front
    rw [if_neg (show ¬ off ≥ 4 * headerSize from hoff)]
    rfl

theorem alloc_tail_spec {n : Entry} (h : Represents r lo (xs ++ n :: ys)) (hn : n.start = add32 e.start off)
    (hsize : size < 2 ^ 32) (he : e.size < 2 ^ 32)
    (hN : Nodes (xs.map Entry.addr ++ n.addr :: (e.tail off size ++ ys).map Entry.addr))
    (ha : ∀ a ∈ xs.map Entry.addr ++ n.addr :: (e.tail off size ++ ys).map Entry.addr, a ∈ as) :
    ∃ r', alloc_tail n.addr e.size off size r = .ok ((), r') ∧
      Represents r' lo (xs ++ { n with size := if 96 < sub32 e.size size then size else e.size } ::
        (e.tail off size ++ ys)) ∧
      Ram.Writes (InHdr as) r r' ∧ field r' n.addr .description = field r n.addr .description := by
  by_cases hs : 96 < sub32 e.size size
  · have htail : e.tail off size = [_] := if_pos hs
    rw [if_pos hs]
    simp only [htail, List.map_cons, List.cons_append, List.nil_append] at hN ha ⊢
    obtain ⟨r1, t, h1, ht, hr1, hw1, hf1⟩ := h.link_new_entry hN ha
    have htn : n.addr ≠ t.addr := by
      have := hN.nodup
      rw [← ht] at this
      grind
    have hassoc : ∀ (x : Entry) (zs : List Entry), xs ++ n :: x :: zs = (xs ++ [n]) ++ x :: zs := by simp
    have hta : t.addr ∈ as := ht ▸ ha _ (by simp)
    rw [hassoc] at hr1
    obtain ⟨r2, h2, hr2, hw2, hf2⟩ := hr1.store_field (f := .start) rfl (add32_lt t.addr 24) hta
    obtain ⟨r3, h3, hr3, hw3, hf3⟩ := hr2.store_field (f := .available) rfl (v := 1) (by decide) (by simpa using hta)
    obtain ⟨r4, h4, hr4, hw4, hf4⟩ := hr3.store_field (f := .description) rfl (v := 0) (by decide) (by simpa using hta)
    obtain ⟨r5, h5, hr5, hw5, hf5⟩ := hr4.store_field (f := .size) rfl
      (sub32_lt (sub32 (sub32 e.size off) size) 24) (by simpa using hta)
    rw [← hassoc] at hr5
    obtain ⟨r6, h6, hr6, hw6, hf6⟩ := hr5.store_field (f := .size) rfl hsize (ha _ (by simp))
    have hdesc : field r6 n.addr .description = field r n.addr .description := by
      simp only [Entry.set_addr] at hf2 hf3 hf4 hf5 hf6
      rw [hf6 n (by simp) _ (.inr (by decide)), hf5 n (by simp) _ (.inr (by decide)), hf4 n (by simp) _ (.inl htn),
        hf3 n (by simp) _ (.inr (by decide)), hf2 n (by simp) _ (.inr (by decide)), hf1 n (by simp) _ rfl]
    refine ⟨r6, ?_, ?_, (hw1.trans (hw2.trans (hw3.trans (hw4.trans (hw5.trans hw6))))), hdesc⟩
    · unfold alloc_tail
      rw [if_pos (show sub32 e.size size > 4 * headerSize from hs), Exec.bind_of_ok (h.load_field (by simp) _),
        h.start_eq (by simp), hn, Exec.bind_of_ok h1, ← ht, headerSize]
      simp only [Entry.set_addr] at h2 h3 h4 h5 h6
      rw [Exec.bind_of_ok h2, Exec.bind_of_ok h3, Exec.bind_of_ok h4, Exec.bind_of_ok h5, h6]
    · simpa [Entry.set, ht] using hr6
  · have htail : e.tail off size = [] := if_neg hs
    rw [if_neg hs]
    simp only [htail, List.nil_append] at hN ha ⊢
    obtain ⟨r1, h1, hr1, hw1, hf1⟩ := h.store_field (f := .size) rfl he (ha _ (by simp))
    refine ⟨r1, ?_, hr1, hw1, hf1 n (by simp) _ (.inr (by decide))⟩
    unfold alloc_tail
    rw [if_neg (show ¬ sub32 e.size size > 4 * headerSize from hs)]
    exact h1

/-- `alloc_entry` up to the second `if`: the header of the block is in the list and says where the
block starts. -/
theorem alloc_entry_head {description : Nat} (h : Represents r lo (xs ++ e :: ys)) (hd : description < 2 ^ 32)
    (hN : Nodes ((xs ++ e.front off).map Entry.addr ++ e.newAddr off :: ys.map Entry.addr))
    (ha : ∀ a ∈ (xs ++ e.front off).map Entry.addr ++ e.newAddr off :: ys.map Entry.addr, a ∈ as) (size : Nat) :
    ∃ r' n, n.addr = e.newAddr off ∧ n.start = add32 e.start off ∧ n.available = false ∧
      Represents r' lo (xs ++ e.front off ++ n :: ys) ∧ Ram.Writes (InHdr as) r r' ∧
      field r' n.addr .description = description ∧
      alloc_entry e.addr off size description r = (do alloc_tail n.addr e.size off size; load n.addr .start) r' := by
  have he : e ∈ xs ++ e :: ys := by simp
  obtain ⟨r1, n, h1, hn, hr1, hstart, hw1⟩ := alloc_front_spec h hN ha
  have hnN : n.addr ∈ (xs ++ e.front off).map Entry.addr ++ e.newAddr off :: ys.map Entry.addr := by simp [hn]
  have hna := ha _ hnN
  obtain ⟨r2, h2, hr2, hw2, -⟩ := hr1.store_field (f := .available) rfl (v := 0) (by decide) hna
  obtain ⟨r3, h3, hr3, hw3, -⟩ := hr2.store_field (f := .description) rfl hd (by simpa using hna)
  have hstart3 : field r3 e.addr .start = e.start := by
    by_cases hoff : 96 ≤ off
    · refine hr3.start_eq (e := { e with size := sub32 (e.newAddr off) e.start }) ?_
      simp [Entry.front, hoff]
    · have hne : n.addr = e.addr := by rw [hn]; exact if_neg hoff
      have hns : n.start = e.start := by rw [← hr1.start_eq (e := n) (by simp), hne, hstart]
      rw [← hns, ← hne]
      exact hr3.start_eq (e := (n.set .available 0).set .description description) (by simp)
  obtain ⟨r4, h4, hr4, hw4, hf4⟩ := hr3.store_field (f := .start) rfl (add32_lt e.start off) (by simpa using hna)
  have hd3 : field r3 n.addr .description = description := by
    rw [Entry.set_addr, store_eq (hN.hdr _ hnN).1] at h3
    cases h3
    exact hN.field_setField hnN hnN hd _ _ |>.trans (if_pos ⟨rfl, rfl⟩)
  simp only [Entry.set_addr] at h2 h3 h4 hf4
  refine ⟨r4, _, ?_, rfl, rfl, hr4, hw1.trans (hw2.trans (hw3.trans hw4)), ?_, ?_⟩
  · simpa [Entry.set] using hn
  · exact (hf4 ((n.set .available 0).set .description description) (by simp) _ (.inr (by decide))).trans hd3
  · unfold alloc_entry
    rw [Exec.bind_of_ok (h.load_field he _), h.size_eq he, Exec.bind_of_ok h1, ← hn, Exec.bind_of_ok h2,
      Exec.bind_of_ok h3, Exec.bind_of_ok (load_eq (h.addr_ne he) _ _), hstart3, Exec.bind_of_ok h4]
    rfl

/-- `alloc_entry` replaces `e` by `allocEntry`, provided the new headers have room. -/
theorem alloc_entry_spec {description : Nat} (h : Represents r lo (xs ++ e :: ys)) (hsize : size < 2 ^ 32)
    (hd : description < 2 ^ 32) (hN : Nodes ((xs ++ allocEntry e off size ++ ys).map Entry.addr)) :
    ∃ r', alloc_entry e.addr off size description r = .ok (add32 e.start off, r') ∧
      Represents r' lo (xs ++ allocEntry e off size ++ ys) ∧
      Ram.Writes (InHdr ((xs ++ allocEntry e off size ++ ys).map Entry.addr)) r r' ∧
      field r' (e.newAddr off) .description = description := by
  have hez := h.size_lt (e := e) (by simp)
  have hsplit : xs ++ allocEntry e off size ++ ys =
      (xs ++ e.front off) ++ e.taken off size :: (e.tail off size ++ ys) := by simp [allocEntry]
  rw [hsplit] at hN ⊢
  generalize has : ((xs ++ e.front off) ++ e.taken off size :: (e.tail off size ++ ys)).map Entry.addr = as at hN ⊢
  have htaken : (e.taken off size).addr = e.newAddr off := rfl
  have hN1 : Nodes ((xs ++ e.front off).map Entry.addr ++ e.newAddr off :: ys.map Entry.addr) :=
    hN.sub (by rw [← has]; simp [htaken])
  have hsub1 : ∀ a ∈ (xs ++ e.front off).map Entry.addr ++ e.newAddr off :: ys.map Entry.addr, a ∈ as := by
    rw [← has]
    simp [htaken]
    grind
  obtain ⟨r1, n, hn, hns, hnav, hr1, hw1, hd1, hrun⟩ := alloc_entry_head h hd hN1 hsub1 size
  have hN2 : Nodes ((xs ++ e.front off).map Entry.addr ++ n.addr :: (e.tail off size ++ ys).map Entry.addr) := by
    rw [← has] at hN
    simpa [htaken, hn] using hN
  have hsub2 : ∀ a ∈ (xs ++ e.front off).map Entry.addr ++ n.addr :: (e.tail off size ++ ys).map Entry.addr,
      a ∈ as := by
    rw [← has]
    simp [htaken, hn]
  obtain ⟨r2, h2, hr2, hw2, hd2⟩ := alloc_tail_spec hr1 hns hsize hez hN2 hsub2
  have htake : ({ n with size := if 96 < sub32 e.size size then size else e.size } : Entry) = e.taken off size := by
    simp [Entry.taken, hn, hns, hnav]
  rw [htake] at hr2
  refine ⟨r2, ?_, hr2, hw1.trans hw2, ?_⟩
  · rw [hrun, Exec.bind_of_ok h2, hn, ← htaken, hr2.load_field (e := e.taken off size) (by simp) _,
      hr2.start_eq (e := e.taken off size) (by simp)]
    rfl
  · rw [← hn, hd2, hd1]

end Alloc

/-! ## The search -/

/-- The padding `kmalloc` computes for an entry. -/
def Entry.padding (e : Entry) (align : Nat) : Nat := sub32 (next_aligned_addr e.start align) e.start

theorem Entry.padding_eq {e : Entry} {align : Nat} (hs : e.start < 2 ^ 32) (ha : 1 ≤ align) (ha' : align < 2 ^ 32) :
    e.padding align = if e.start % align = 0 then 0 else align - e.start % align := by
  have hmod := Nat.mod_lt e.start ha
  unfold Entry.padding next_aligned_addr
  by_cases h0 : e.start % align = 0
  · simp only [h0, if_true]
    exact (sub32_eq hs le_rfl).trans (Nat.sub_self _)
  · simp only [h0, if_false]
    rw [sub32_eq ha' hmod.le, sub32_add32 hs (by omega)]

/-- Behind the padding comes a multiple of the alignment. -/
theorem Entry.padding_aligned {e : Entry} {align : Nat} (hs : e.start < 2 ^ 32) (ha : 1 ≤ align)
    (ha' : align < 2 ^ 32) : align ∣ e.start + e.padding align := by
  rw [e.padding_eq hs ha ha']
  by_cases h0 : e.start % align = 0
  · simpa [h0] using Nat.dvd_of_mod_eq_zero h0
  · have hmod := Nat.mod_lt e.start ha
    have hdiv := Nat.div_add_mod e.start align
    rw [if_neg h0]
    exact ⟨e.start / align + 1, by rw [Nat.mul_add]; omega⟩

/-- The test of `kmalloc`. -/
def Entry.fits (size align : Nat) (e : Entry) : Bool :=
  e.available && decide (e.size ≥ add32 size (e.padding align))

/-- The entry `kmalloc` takes. -/
def firstFit (es : List Entry) (size align : Nat) : Option Entry := es.find? (Entry.fits size align)

theorem kmalloc_loop_of_dll {r : Ram} {size align description fuel p c l : Nat} {es : List Entry}
    (hd : Dll (nextOf r) (previousOf r) p c (es.map Entry.addr) l 0) (h0 : ∀ e ∈ es, e.addr ≠ 0)
    (hh : ∀ e ∈ es, entryAt r e.addr = e) (hf : es.length < fuel) :
    kmalloc_loop size align description fuel c r = match firstFit es size align with
      | none => .ok (0, r)
      | some e => alloc_entry e.addr (e.padding align) size description r := by
  induction es generalizing fuel p c with
  | nil =>
    obtain ⟨fuel, rfl⟩ := Nat.exists_eq_add_of_lt hf
    obtain ⟨-, rfl⟩ := hd
    rfl
  | cons e es ih =>
    obtain ⟨fuel, rfl⟩ : ∃ n, fuel = n + 1 := ⟨fuel - 1, by simp at hf; omega⟩
    obtain ⟨rfl, -, hd⟩ := hd
    have hne : e.addr ≠ 0 := h0 e (by simp)
    have he := hh e (by simp)
    have hs : field r e.addr .start = e.start := congrArg Entry.start he
    have hz : field r e.addr .size = e.size := congrArg Entry.size he
    have hav : (field r e.addr .available ≠ 0) ↔ e.available := by
      have := congrArg Entry.available he
      simp only [entryAt] at this
      rw [← this]
      simp
    have hrest := ih hd (fun e he => h0 e (by simp [he])) (fun e he => hh e (by simp [he])) (by simpa using hf)
    rw [kmalloc_loop, if_neg hne]
    simp only [Exec.bind_of_ok (load_eq hne _ _), hs, hz]
    by_cases hfit : e.fits size align
    · have : field r e.addr .available ≠ 0 ∧ e.size ≥ add32 size (e.padding align) := by
        simpa [Entry.fits, ← hav] using hfit
      simp only [firstFit, List.find?_cons, hfit]
      exact congrFun (if_pos this) r
    · have : ¬ (field r e.addr .available ≠ 0 ∧ e.size ≥ add32 size (e.padding align)) := by
        simpa [Entry.fits, ← hav] using hfit
      simp only [firstFit, List.find?_cons, hfit]
      refine (congrFun (if_neg this) r).trans ?_
      rw [Exec.bind_of_ok (load_eq hne _ _)]
      exact hrest

/-- The search ends, and stops at the first entry that fits. -/
theorem kmalloc_loop_spec {r : Ram} {lo : Nat} {es : List Entry} (h : Represents r lo es)
    (size align description : Nat) :
    kmalloc_loop size align description (2 ^ 32) lo r = match firstFit es size align with
      | none => .ok (0, r)
      | some e => alloc_entry e.addr (e.padding align) size description r := by
  obtain ⟨l, hd⟩ := h.linked
  exact kmalloc_loop_of_dll hd (fun e he => h.addr_ne he) h.holds (by simpa using h.nodes.length_lt)

end Ulmix.Heap

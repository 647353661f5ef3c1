import Ulmix.Memory.Runs
/-!
# The links `kfree` follows

`kfree` reads `previous->available` and `next->available`, and `merge_entries`
writes `second->next->previous`, none of them after a test. Without alignment
every entry starts right behind its header and reaches to the next one, so
`kfree` finds the header of every block. Which of them it can free then depends
on the two links of that header and on the one behind (`NullLink`).
-/
open Ulmix.Lib Ulmix.Sync

namespace Ulmix.Heap

/-- `kfree(p)` is not refused, and the entry of `p` is the first one, the last one, or followed by
an available one that is the last. -/
def NullLink (r : Ram) (p : Nat) : Prop :=
  field r (p - 24) .size ≠ 0 ∧
    (field r (p - 24) .previous = 0 ∨ field r (p - 24) .next = 0 ∨
      (field r (field r (p - 24) .next) .available ≠ 0 ∧ field r (field r (p - 24) .next) .next = 0))

instance (r : Ram) (p : Nat) : Decidable (NullLink r p) := inferInstanceAs (Decidable (_ ∧ _))

/-- In the words of the list: the entry is not one `kfree` can handle. -/
theorem nullLink_iff {r : Ram} {lo : Nat} {xs ys : List Entry} {e : Entry} (h : Represents r lo (xs ++ e :: ys)) :
    NullLink r (e.addr + 24) ↔ e.size ≠ 0 ∧ ¬ Inner xs ys := by
  have hprev := h.previous_eq
  have hnext := h.next_eq
  unfold NullLink
  rw [Nat.add_sub_cancel, h.size_eq (by simp), hprev, hnext]
  refine and_congr_right fun _ => ?_
  rcases List.eq_nil_or_concat xs with rfl | ⟨ws, a, rfl⟩
  · simp [Inner]
  · rw [List.concat_eq_append] at h
    have ha : a.addr ≠ 0 := h.addr_ne (by simp)
    cases ys with
    | nil => simp [Inner]
    | cons c zs =>
      have hc : c.addr ≠ 0 := h.addr_ne (by simp)
      have hav : field r c.addr .available ≠ 0 ↔ c.available := h.available_iff (by simp)
      have h' : Represents r lo ((ws ++ [a] ++ [e]) ++ c :: zs) := by simpa using h
      have hzs : field r c.addr .next = 0 ↔ zs = [] := by
        rw [h'.next_eq]
        cases zs with
        | nil => simp
        | cons d zs => simpa using h.addr_ne (e := d) (by simp)
      simp only [List.head?_cons, Option.map_some, Option.getD_some, hav, hzs]
      simp [Inner, ha, hc]

/-- Calls of `kmalloc` ask for no alignment. -/
def Unaligned : Call → Prop
  | .kmalloc _ align _ => align = 1
  | _ => True

/-! ## The invariant -/

/-- The space of an entry is everything between its header and the next one. -/
def TightCell (e : Entry) (o : Option Block) (b : Nat) : Prop :=
  e.start = add32 e.addr 24 ∧ e.addr + 24 + e.size = b ∧
    ∀ blk ∈ o, e.available = false ∧ blk.ptr = e.start ∧ e.start = e.addr + 24 ∧ blk.size ≤ e.size

theorem tightCell_cells : Cells TightCell where
  room e o b h := by have := h.2.1; omega
  owned e blk b h := by
    obtain ⟨-, h2, h3⟩ := h
    obtain ⟨h4, h5, h6, h7⟩ := h3 blk rfl
    exact ⟨h4, h5, by omega, by omega⟩
  drop e blk b h := ⟨h.1, h.2.1, by simp⟩
  avail e blk b h _ _ := ⟨h.1, h.2.1, by simp⟩
  join a e b hb ha he _ _ := by
    obtain ⟨-, ha2, -⟩ := ha
    obtain ⟨he1, he2, -⟩ := he
    refine ⟨rfl, ?_, by simp⟩
    show a.addr + 24 + sub32 (add32 e.start e.size) (add32 a.addr 24) = b
    rw [he1]
    unfold add32 sub32
    omega

theorem Entry.padding_one {e : Entry} (h : e.start < 2 ^ 32) : e.padding 1 = 0 := by
  rw [e.padding_eq h le_rfl (by decide), Nat.mod_one, if_pos rfl]

theorem tightCell_alloc {e : Entry} {size b : Nat} (hb : b ≤ 2 ^ 32) (h : TightCell e none b) (hsize : size ≤ e.size) :
    Tiled TightCell e.addr (allocSlots e 0 size 1) b := by
  obtain ⟨h1, h2, -⟩ := h
  have hsub : sub32 e.size size = e.size - size := sub32_eq (by omega) hsize
  have hst : add32 e.start 0 = add32 e.addr 24 := by
    rw [h1]
    unfold add32
    omega
  refine allocSlots_tiled (by simp [Entry.front]) (fun a hm => ?_) ?_
  · by_cases hs : 96 < e.size - size
    · have h3 : add32 e.addr 24 = e.addr + 24 := add32_eq (by omega)
      have h4 : add32 (e.addr + 24) size = e.addr + 24 + size := add32_eq (by omega)
      have h5 : sub32 e.size 0 = e.size := sub32_eq (by omega) (by omega)
      rw [Entry.tail, hsub, if_pos hs, List.mem_singleton, hst, h3, h4, h5, hsub, sub32_eq (by omega) (by omega)] at hm
      subst hm
      exact ⟨rfl, by show e.addr + 24 + size + 24 + (e.size - size - 24) = b; omega, by simp⟩
    · simp [Entry.tail, hsub, hs] at hm
  · refine ⟨hst, ?_, fun blk hblk => ?_⟩
    · show e.addr + 24 + (if 96 < sub32 e.size size then size else e.size) = e.behind 0 size b
      rw [Entry.behind, hst, hsub]
      by_cases hs : 96 < e.size - size
      · have h3 : add32 e.addr 24 = e.addr + 24 := add32_eq (by omega)
        rw [if_pos hs, if_pos hs, h3, add32_eq (by omega)]
      · rw [if_neg hs, if_neg hs, h2]
    · by_cases hp : add32 e.start 0 = 0
      · simp [hp] at hblk
      · simp only [hp, if_false, Option.mem_some_iff] at hblk
        subst hblk
        refine ⟨rfl, rfl, ?_, ?_⟩
        · show add32 e.start 0 = e.addr + 24
          rw [hst] at hp ⊢
          unfold add32 at hp ⊢
          omega
        · show size ≤ if 96 < sub32 e.size size then size else e.size
          split <;> omega

/-! ## One call -/

section
variable {dbg : Bool} {lo hi : Nat} {s s' : Sys} {c : Call}

theorem fits_alloc (h : Sound TightCell lo hi s) {size : Nat} (hsize : size < 2 ^ 32) {ys : List Entry} {e : Entry}
    (hfit : firstFit s.heap.entries size 1 = some e) (hlt : e.start < 2 ^ 32)
    (hcell : TightCell e none (spaceEnd ys hi)) (hle : spaceEnd ys hi ≤ hi) :
    Tiled TightCell e.addr (allocSlots e (e.padding 1) size 1) (spaceEnd ys hi) := by
  have hfits := List.find?_some hfit
  rw [Entry.padding_one hlt]
  simp only [Entry.fits, Entry.padding_one hlt, Bool.and_eq_true, decide_eq_true_eq] at hfits
  rw [add32_eq (by omega)] at hfits
  exact tightCell_alloc (hle.trans h.hi_le) hcell hfits.2

theorem live_start (h : Sound TightCell lo hi s) {b : Block} (hb : b ∈ s.live) : s.heap.Header b.ptr := by
  obtain ⟨xs, ys, e, c, hr, -, hcell, -⟩ := h.of_live tightCell_cells hb
  obtain ⟨-, hptr, hst, -⟩ := hcell.2.2 b rfl
  refine .inr ⟨e, ?_, by omega⟩
  rw [hr.entries_eq h.start]
  simp

theorem unaligned_step (h : Sound TightCell lo hi s) (hok : Unaligned c) (hs : Step dbg s c s') :
    Sound TightCell lo hi s' := by
  cases hs with
  | kmalloc hc hk =>
    obtain rfl := hok
    exact (h.kmalloc tightCell_cells hc hk fun xs e ys hes hfit hlt hcell hle =>
      fits_alloc h hc.1 hfit hlt hcell hle).1
  | kfree hb hk => exact (h.kfree tightCell_cells hb hk (live_start h hb)).1
  | own hb hw => exact h.own tightCell_cells hb hw

/-- `kfree` of a live block follows a null link exactly when there is one, and returns otherwise. -/
theorem kfree_live (h : Sound TightCell lo hi s) {b : Block} (hb : b ∈ s.live) (dbg : Bool) :
    if NullLink s.heap.ram b.ptr then kfree dbg b.ptr s.heap = .error .nullDeref
    else ∃ k, kfree dbg b.ptr s.heap = .ok ((), k) := by
  obtain ⟨xs, ys, e, c, hr, -, hcell, -, hord, -⟩ := h.of_live tightCell_cells hb
  obtain ⟨hav, hptr, hst, -⟩ := hcell.2.2 b rfl
  have he : e ∈ xs.map Prod.fst ++ e :: ys.map Prod.fst := by simp
  have he0 := hr.addr_ne he
  have hlt := hr.start_lt he
  have hp : b.ptr = e.addr + 24 := by omega
  have hinv := hr.invalid_iff he hav (by omega)
  rw [hp, kfree_eq h.unlocked dbg (by omega) (by omega), Nat.add_sub_cancel]
  have hnull := nullLink_iff hr
  by_cases hz : e.size = 0
  · rw [if_neg (fun hc => (hnull.1 hc).1 hz), if_pos (hinv.2 hz)]
    exact ⟨_, rfl⟩
  · rw [if_neg (fun hc => hz (hinv.1 hc))]
    by_cases hin : Inner (xs.map Prod.fst) (ys.map Prod.fst)
    · rw [if_neg (fun hc => (hnull.1 hc).2 hin)]
      obtain ⟨hne, c', zs, hys, hlast⟩ := hin
      obtain ⟨ws, a, hxs⟩ := (List.eq_nil_or_concat (xs.map Prod.fst)).resolve_left hne
      rw [List.concat_eq_append] at hxs
      rw [hxs, hys, List.append_assoc] at hr hord
      have hlt : dbg → a.addr < e.addr ∧ e.addr < c'.addr := fun _ =>
        ⟨List.rel_of_pairwise_cons (List.pairwise_append.1 hord).2.1 (by simp),
          List.rel_of_pairwise_cons (List.pairwise_cons.1 (List.pairwise_append.1 hord).2.1).2 (by simp)⟩
      obtain ⟨r', hrun, -, -⟩ := kfree_entry_spec hr hlast fun hd => .of_lt (hlt hd)
      exact ⟨_, by rw [hrun]⟩
    · rw [if_pos (hnull.2 ⟨hz, hin⟩), kfree_entry_null hr hin fun _ => .of_pairwise hord]

end

/-! ## Runs -/

/-- In every state a run without alignment reaches, `kmalloc` returns, and `kfree` of a live block
follows a null link exactly when the block's header has one (`NullLink`), and returns otherwise. -/
theorem links_followed {dbg : Bool} {start_addr max_size : Nat} {k k0 : Kheap} (h24 : 24 ≤ max_size)
    (hmax : start_addr + max_size ≤ 2 ^ 32) (hsetup : setup_heap start_addr max_size k = .ok ((), k0)) {s : Sys}
    (hrun : RunFrom dbg (fun _ => Unaligned) k0 s) :
    (∀ size description, size < 2 ^ 32 → description < 2 ^ 32 →
        ∃ p k', kmalloc size 1 description s.heap = .ok (p, k')) ∧
      ∀ b ∈ s.live, (kfree dbg b.ptr s.heap = .error .nullDeref ↔ NullLink s.heap.ram b.ptr) ∧
        (¬ NullLink s.heap.ram b.ptr → ∃ k', kfree dbg b.ptr s.heap = .ok ((), k')) := by
  obtain ⟨hlo, hs0, hk, hr⟩ := setup_heap_spec h24 hmax hsetup
  have h0 : Sound TightCell start_addr (start_addr + max_size) ⟨k0, []⟩ :=
    ⟨hlo, hmax, hs0, hk, [(⟨start_addr, add32 start_addr 24, max_size - 24, true⟩, none)], hr,
      ⟨rfl, _, ⟨rfl, by show start_addr + 24 + (max_size - 24) = _; omega, by simp⟩, rfl⟩, .refl _⟩
  have h : Sound TightCell start_addr (start_addr + max_size) s :=
    hrun.inv _ h0 fun s c s' hs ⟨hok, hst⟩ => unaligned_step hs hok hst
  refine ⟨fun size description hsize hd => ?_, fun b hb => ?_⟩
  · have hc : (HeapCall.kmalloc size 1 description).Legal := ⟨hsize, le_rfl, by decide, hd⟩
    obtain ⟨p, k', hk', -⟩ := h.kmalloc_run tightCell_cells hc
      fun xs e ys _ hfit hlt hcell hle => fits_alloc h hsize hfit hlt hcell hle
    exact ⟨p, k', hk'⟩
  · have hfree := kfree_live h hb dbg
    by_cases hn : NullLink s.heap.ram b.ptr
    · rw [if_pos hn] at hfree
      exact ⟨iff_of_true hfree hn, fun hn' => absurd hn hn'⟩
    · rw [if_neg hn] at hfree
      obtain ⟨k', hk'⟩ := hfree
      exact ⟨iff_of_false (by simp [hk']) hn, fun _ => ⟨k', hk'⟩⟩

/-- The first block of a new heap has nothing before it. -/
theorem first_block_null :
    ∃ k0 k1, setup_heap 1 0x80000 blank = .ok ((), k0) ∧ kmalloc 10 1 0 k0 = .ok (25, k1) ∧
      kfree false 25 k1 = .error .nullDeref := by
  have hrun : ((do setup_heap 1 0x80000; kmalloc 10 1 0) blank).map Prod.fst = .ok 25 := by decide +kernel
  have hfree : (do setup_heap 1 0x80000; let p ← kmalloc 10 1 0; kfree false p) blank = .error .nullDeref :=
    Exec.error_of_map (by decide +kernel)
  obtain ⟨k1, h⟩ := Exec.exists_of_map hrun
  obtain ⟨_, k0, h0, h1⟩ := Exec.bind_ok.1 h
  refine ⟨k0, k1, h0, h1, ?_⟩
  rwa [Exec.bind_of_ok h0, Exec.bind_of_ok h1] at hfree

/-- On a heap with three blocks, the one in the middle can be freed. -/
theorem links_followed_middle :
    ∃ k0 s, setup_heap 1 0x80000 blank = .ok ((), k0) ∧ RunFrom true (fun _ => Unaligned) k0 s ∧
      ⟨59, 10, 1⟩ ∈ s.live ∧
      (∀ size description, size < 2 ^ 32 → description < 2 ^ 32 →
        ∃ p k', kmalloc size 1 description s.heap = .ok (p, k')) ∧
      ∀ b ∈ s.live, (kfree true b.ptr s.heap = .error .nullDeref ↔ NullLink s.heap.ram b.ptr) ∧
        (¬ NullLink s.heap.ram b.ptr → ∃ k', kfree true b.ptr s.heap = .ok ((), k')) := by
  have hrun : ((do
      setup_heap 1 0x80000
      let p ← kmalloc 10 1 0
      let q ← kmalloc 10 1 0
      let t ← kmalloc 10 1 0
      pure (p, q, t)) blank).map Prod.fst = .ok (25, 59, 93) := by decide +kernel
  obtain ⟨k3', h⟩ := Exec.exists_of_map hrun
  obtain ⟨_, k0, h0, h⟩ := Exec.bind_ok.1 h
  obtain ⟨p, k1, h1, h⟩ := Exec.bind_ok.1 h
  obtain ⟨q, k2, h2, h⟩ := Exec.bind_ok.1 h
  obtain ⟨t, k3, h3, h⟩ := Exec.bind_ok.1 h
  cases h
  have hs : RunFrom true (fun _ => Unaligned) k0 ⟨k3', addBlock 93 10 1 (addBlock 59 10 1 (addBlock 25 10 1 []))⟩ :=
    .call (i := .kmalloc 10 1 0) (.call (i := .kmalloc 10 1 0) (.call (i := .kmalloc 10 1 0) .start
      ⟨rfl, .kmalloc (by simp [HeapCall.Legal]) h1⟩) ⟨rfl, .kmalloc (by simp [HeapCall.Legal]) h2⟩)
      ⟨rfl, .kmalloc (by simp [HeapCall.Legal]) h3⟩
  exact ⟨k0, _, h0, hs, by simp [addBlock], links_followed (by decide) (by decide) h0 hs⟩

end Ulmix.Heap

import Ulmix.Memory.Runs
/-!
# The blocks handed out

The search of `kmalloc` compares `size + padding` with the size of the entry in
32 bits, and the test for splitting the rest off leaves the padding out. When
the block, its padding and the new header do fit before the next header
(`Roomy`), and `kfree` finds the headers of the blocks it is given, then blocks
are aligned, lie in the heap, and share no byte with each other, with a header
or with what a call writes.
-/
open Ulmix.Lib Ulmix.Sync

namespace Ulmix.Heap

/-! ## The claim on a state -/

/-- The live blocks are aligned, inside the heap, and apart from the headers and from each other. -/
structure Safe (lo hi : Nat) (s : Sys) : Prop where
  aligned : ∀ b ∈ s.live, b.align ∣ b.ptr
  inside : ∀ b ∈ s.live, lo ≤ b.ptr ∧ b.ptr + b.size ≤ hi
  apart : ∀ b ∈ s.live, ∀ x, b.In x → ¬ InHdr (s.heap.entries.map Entry.addr) x
  disjoint : s.live.Pairwise fun a b => ∀ x, a.In x → ¬ b.In x

/-- A byte of no live block. -/
def Sys.Outside (s : Sys) (x : Nat) : Prop := ∀ b ∈ s.live, ¬ b.In x

/-- What `kmalloc` takes and splits off fits before the next header, and `kfree` finds the header
of the block. -/
def Roomy (hi : Nat) (s : Sys) : Call → Prop
  | .kmalloc size align _ => ∀ xs e ys, s.heap.entries = xs ++ e :: ys →
      firstFit s.heap.entries size align = some e →
      e.addr + 24 + e.padding align + size ≤ spaceEnd ys hi ∧
        (96 < sub32 e.size size → e.addr + 24 + e.padding align + size + 24 ≤ spaceEnd ys hi)
  | .kfree b => s.heap.Header b.ptr
  | .own _ => True

/-! ## The invariant -/

/-- An available entry starts right behind its header; a block lies behind the header and is aligned. -/
def BlockCell (e : Entry) (o : Option Block) (b : Nat) : Prop :=
  e.addr + 24 ≤ b ∧ (e.available → e.start = add32 e.addr 24) ∧
    ∀ blk ∈ o, e.available = false ∧ blk.ptr = e.start ∧ e.addr + 24 ≤ e.start ∧ e.start + blk.size ≤ b ∧
      blk.align ∣ blk.ptr

theorem blockCell_cells : Cells BlockCell where
  room _ _ _ h := h.1
  owned e blk b h := by
    obtain ⟨h1, h2, h3, h4, -⟩ := h.2.2 blk rfl
    exact ⟨h1, h2, h3, h4⟩
  drop e blk b h := ⟨h.1, h.2.1, by simp⟩
  avail e blk b h hst hlt := ⟨h.1, fun _ => by
    show e.start = add32 e.addr 24
    rw [add32_eq (by omega), hst], by simp⟩
  join a e b _ ha he _ _ := ⟨by have := ha.1; have := he.1; simp only [Entry.join_addr]; omega, fun _ => rfl, by simp⟩

/-- What fits before the next header fills the space again. -/
theorem blockCell_alloc {e : Entry} {size align b : Nat} (hb : b ≤ 2 ^ 32) (h : BlockCell e none b)
    (hav : e.available) (ha : 1 ≤ align) (ha' : align < 2 ^ 32)
    (hfit : e.addr + 24 + e.padding align + size ≤ b)
    (hsplit : 96 < sub32 e.size size → e.addr + 24 + e.padding align + size + 24 ≤ b) :
    Tiled BlockCell e.addr (allocSlots e (e.padding align) size align) b := by
  have hstart := h.2.1 hav
  have hlt : e.start < 2 ^ 32 := hstart ▸ add32_lt _ _
  have hal := e.padding_aligned hlt ha ha'
  set off := e.padding align
  have hnew : e.newAddr off ≤ e.addr + off ∧ (96 ≤ off → e.newAddr off = e.addr + off) := by
    unfold Entry.newAddr
    by_cases hoff : 96 ≤ off
    · rw [if_pos hoff, hstart]
      unfold add32 sub32
      omega
    · rw [if_neg hoff]
      omega
  have hrest : 96 < sub32 e.size size → add32 (add32 e.start off) size = e.addr + 24 + off + size := fun hs => by
    have := hsplit hs
    have h1 : add32 e.addr 24 = e.addr + 24 := add32_eq (by omega)
    have h2 : add32 (e.addr + 24) off = e.addr + 24 + off := add32_eq (by omega)
    rw [hstart, h1, h2, add32_eq (by omega)]
  refine allocSlots_tiled (fun a hm => ?_) (fun a hm => ?_) ?_
  · by_cases hoff : 96 ≤ off
    · rw [Entry.front, if_pos hoff, List.mem_singleton] at hm
      subst hm
      exact ⟨by show e.addr + 24 ≤ _; omega, fun _ => hstart, by simp⟩
    · simp [Entry.front, hoff] at hm
  · by_cases hs : 96 < sub32 e.size size
    · rw [Entry.tail, if_pos hs, List.mem_singleton] at hm
      have := hsplit hs
      subst hm
      exact ⟨by show _ + 24 ≤ b; rw [hrest hs]; omega, fun _ => rfl, by simp⟩
    · simp [Entry.tail, hs] at hm
  · have hbehind : e.addr + 24 + off + size ≤ e.behind off size b := by
      unfold Entry.behind
      by_cases hs : 96 < sub32 e.size size
      · rw [if_pos hs, hrest hs]
      · rwa [if_neg hs]
    refine ⟨by show e.newAddr off + 24 ≤ _; omega, by simp [Entry.taken], fun blk hblk => ?_⟩
    by_cases hp : add32 e.start off = 0
    · simp [hp] at hblk
    · have hle : e.behind off size b ≤ 2 ^ 32 := by
        unfold Entry.behind
        split
        · exact (add32_lt _ _).le
        · exact hb
      have hst : add32 e.start off = e.addr + 24 + off ∧ e.start = e.addr + 24 := by
        rw [hstart] at hp ⊢
        unfold add32 at hp ⊢
        omega
      simp only [hp, if_false, Option.mem_some_iff] at hblk
      subst hblk
      refine ⟨rfl, rfl, ?_, ?_, ?_⟩
      · show e.newAddr off + 24 ≤ add32 e.start off
        omega
      · show add32 e.start off + size ≤ _
        omega
      · show align ∣ add32 e.start off
        rwa [hst.1, ← hst.2]

/-! ## Runs -/

section
variable {dbg : Bool} {lo hi : Nat} {s s' : Sys} {c : Call}

theorem safe_of_sound (h : Sound BlockCell lo hi s) : Safe lo hi s where
  aligned b hb := by
    obtain ⟨slots, -, ht, hp⟩ := h.slots
    obtain ⟨⟨e, o⟩, hm, rfl⟩ := List.mem_filterMap.1 (hp.subset hb)
    obtain ⟨c, hcell, -⟩ := ht.mem blockCell_cells.gap hm
    exact (hcell.2.2 b rfl).2.2.2.2
  inside b hb := ⟨(h.block blockCell_cells hb).1, (h.block blockCell_cells hb).2.1⟩
  apart b hb := (h.block blockCell_cells hb).2.2
  disjoint := h.disjoint blockCell_cells

/-- Headers lie outside the blocks. -/
theorem outside_of_hdr (h : Sound BlockCell lo hi s) {x : Nat} (hx : InHdr (s.heap.entries.map Entry.addr) x) :
    s.Outside x := fun _ hb hin => (h.block blockCell_cells hb).2.2 x hin hx

theorem mem_addBlock {p size align : Nat} {live : List Block} {b : Block} (h : b ∈ live) :
    b ∈ addBlock p size align live := by
  unfold addBlock
  split
  · exact h
  · exact List.mem_cons_of_mem _ h

/-- One call keeps the heap sound, and stores nothing in the blocks that were live. -/
theorem roomy_step (h : Sound BlockCell lo hi s) (hok : Roomy hi s c) (hs : Step dbg s c s') :
    Sound BlockCell lo hi s' ∧ ((∀ b, c ≠ .own b) → Ram.Writes s.Outside s.heap.ram s'.heap.ram) := by
  cases hs with
  | kmalloc hc hk =>
    obtain ⟨hs', hw⟩ := h.kmalloc blockCell_cells hc hk fun xs e ys hes hfit _ hcell hle => by
      obtain ⟨h1, h2⟩ := hok xs e ys hes hfit
      have hav := List.find?_some hfit
      simp only [Entry.fits, Bool.and_eq_true] at hav
      exact blockCell_alloc (hle.trans h.hi_le) hcell hav.1 hc.2.1 hc.2.2.1 h1 h2
    exact ⟨hs', fun _ => hw.mono fun x hx b hb => outside_of_hdr hs' hx b (mem_addBlock hb)⟩
  | kfree hb hk =>
    obtain ⟨hs', hw⟩ := h.kfree blockCell_cells hb hk hok
    exact ⟨hs', fun _ => hw.mono fun x hx => outside_of_hdr h hx⟩
  | own hb hw => exact ⟨h.own blockCell_cells hb hw, fun hc => absurd rfl (hc _)⟩

end

/-- In a run of calls that all meet `Roomy`, the blocks are safe in every state reached, and no
call to `kmalloc` or `kfree` stores a byte inside a live block. -/
theorem blocks_safe {dbg : Bool} {start_addr max_size : Nat} {k k0 : Kheap} (h24 : 24 ≤ max_size)
    (hmax : start_addr + max_size ≤ 2 ^ 32) (hsetup : setup_heap start_addr max_size k = .ok ((), k0)) {s : Sys}
    (hrun : RunFrom dbg (Roomy (start_addr + max_size)) k0 s) :
    Safe start_addr (start_addr + max_size) s ∧
      ∀ c s', Roomy (start_addr + max_size) s c → Step dbg s c s' → (∀ b, c ≠ .own b) →
        Ram.Writes s.Outside s.heap.ram s'.heap.ram := by
  obtain ⟨hlo, hstart, hk, hr⟩ := setup_heap_spec h24 hmax hsetup
  have h0 : Sound BlockCell start_addr (start_addr + max_size) ⟨k0, []⟩ :=
    ⟨hlo, hmax, hstart, hk, [(⟨start_addr, add32 start_addr 24, max_size - 24, true⟩, none)], hr,
      ⟨rfl, _, ⟨by show start_addr + 24 ≤ _; omega, fun _ => rfl, by simp⟩, rfl⟩, .refl _⟩
  have h : Sound BlockCell start_addr (start_addr + max_size) s :=
    hrun.inv _ h0 fun s c s' hs ⟨hok, hst⟩ => (roomy_step hs hok hst).1
  exact ⟨safe_of_sound h, fun c s' hok hst => (roomy_step h hok hst).2⟩

/-- One block with padding that has an entry in front of it and one behind it. -/
theorem blocks_safe_padded :
    ∃ k0 s, setup_heap 0x1000 0x1000 blank = .ok ((), k0) ∧ s.live = [⟨0x1080, 100, 128⟩] ∧
      RunFrom true (Roomy 0x2000) k0 s ∧ Safe 0x1000 0x2000 s ∧
      ∀ c s', Roomy 0x2000 s c → Step true s c s' → (∀ b, c ≠ .own b) →
        Ram.Writes s.Outside s.heap.ram s'.heap.ram := by
  have hrun : ((do setup_heap 0x1000 0x1000; kmalloc 100 128 0) blank).map Prod.fst = .ok 0x1080 := by decide +kernel
  obtain ⟨k1, h⟩ := Exec.exists_of_map hrun
  obtain ⟨_, k0, h0, h1⟩ := Exec.bind_ok.1 h
  obtain ⟨-, hstart, -, hr⟩ := setup_heap_spec (by decide) (by decide) h0
  have hok : Roomy 0x2000 ⟨k0, []⟩ (.kmalloc 100 128 0) := fun xs e ys hes _ => by
    have hes' := (hr.entries_eq hstart).symm.trans hes
    cases xs with
    | nil =>
      cases hes'
      decide
    | cons a xs => simp at hes'
  have hs : RunFrom true (Roomy 0x2000) k0 ⟨k1, addBlock 0x1080 100 128 []⟩ :=
    .call .start ⟨hok, .kmalloc (by simp [HeapCall.Legal]) h1⟩
  exact ⟨k0, _, h0, rfl, hs, blocks_safe (by decide) (by decide) h0 hs⟩

/-- The block and its padding fill the entry, and the code still puts a header behind them: it lies
behind the heap, and so does the block allocated from it. -/
theorem blocks_unsafe :
    ∃ k0 s, setup_heap 0x1000 0x1000 blank = .ok ((), k0) ∧ RunFrom true (fun _ _ => True) k0 s ∧
      ¬ Safe 0x1000 0x2000 s := by
  have hrun : ((do
      setup_heap 0x1000 0x1000
      let p ← kmalloc 3968 128 0
      let q ← kmalloc 100 1 0
      pure (p, q)) blank).map Prod.fst = .ok (0x1080, 0x2018) := by decide +kernel
  obtain ⟨k2, h⟩ := Exec.exists_of_map hrun
  obtain ⟨_, k0, h0, h⟩ := Exec.bind_ok.1 h
  obtain ⟨p, k1, h1, h⟩ := Exec.bind_ok.1 h
  obtain ⟨q, k2', h2, h⟩ := Exec.bind_ok.1 h
  cases h
  refine ⟨k0, ⟨k2, addBlock 0x2018 100 1 (addBlock 0x1080 3968 128 [])⟩, h0, ?_, fun hsafe => ?_⟩
  · exact .call (.call .start ⟨trivial, .kmalloc (by simp [HeapCall.Legal]) h1⟩)
      ⟨trivial, .kmalloc (by simp [HeapCall.Legal]) h2⟩
  · have := (hsafe.inside ⟨0x2018, 100, 1⟩ (by simp [addBlock])).2
    simp at this

end Ulmix.Heap

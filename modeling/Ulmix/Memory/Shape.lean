import Ulmix.Memory.Runs
/-!
# The shape of the entry list

A well-formed list starts at the start of the heap, is linked both ways, and its
entries fill the heap: each one's space reaches exactly to the next header. A
block whose padding is neither split off nor given back breaks this (its start
moves, its size stays), and so does a header split off where it does not fit.
Calls that do neither (`Exact`) keep the list well formed.
-/
open Ulmix.Lib Ulmix.Sync

namespace Ulmix.Heap

/-! ## Well-formed lists -/

/-- The entries `es` of the heap from `lo` to `hi`: what the list of headers should look like. -/
structure WellFormed (r : Ram) (lo hi : Nat) (es : List Entry) : Prop where
  /-- Following `next` from `lo` visits the entries and ends at null; `previous` leads back. -/
  represents : Represents r lo es
  increasing : es.Pairwise fun a b => a.addr < b.addr
  start : ∀ e ∈ es, e.addr + 24 ≤ e.start
  /-- Each entry ends where the next one's header is, and the last one where the heap ends. -/
  tiles : Tiles Entry.addr (fun e b => e.start + e.size = b) lo es hi

namespace WellFormed

variable {r : Ram} {lo hi : Nat} {es xs ys : List Entry} {e c : Entry}

/-- Each header has room in front of the space of its entry. -/
theorem cells (h : WellFormed r lo hi es) :
    Tiles Entry.addr (fun e b => e.addr + 24 ≤ e.start ∧ e.start + e.size = b) lo es hi :=
  h.tiles.and_mem h.start

theorem room (e : Entry) (b : Nat) (h : e.addr + 24 ≤ e.start ∧ e.start + e.size = b) : e.addr + 24 ≤ b := by omega

theorem stop_le (h : WellFormed r lo hi es) (he : e ∈ es) : e.start + e.size ≤ hi := by
  obtain ⟨b, ⟨-, rfl⟩, -, hb⟩ := h.cells.mem room he
  exact hb

theorem lo_le (h : WellFormed r lo hi es) (he : e ∈ es) : lo ≤ e.addr := by
  obtain ⟨b, -, hlo, -⟩ := h.cells.mem room he
  exact hlo

/-- No header behind an entry lies in its space. -/
theorem stop_le_addr (h : WellFormed r lo hi (xs ++ e :: ys)) (hc : c ∈ ys) : e.start + e.size ≤ c.addr := by
  have hp := (List.pairwise_append.1 (h.cells.pairwise room)).2.1
  obtain ⟨b, ⟨-, rfl⟩, hb⟩ := List.rel_of_pairwise_cons hp hc
  exact hb

end WellFormed

/-- `kmalloc` takes no more than there is: padding, block and, when the rest is split off, its
header fit into the entry; when nothing is split off there is no padding. -/
def Exact (s : Sys) : Call → Prop
  | .kmalloc size align _ => ∀ e, firstFit s.heap.entries size align = some e →
      e.padding align + size ≤ e.size ∧
        if 96 < e.size - size then
          e.padding align + size + 24 ≤ e.size ∧ e.start + e.padding align + size + 24 < 2 ^ 32
        else e.padding align = 0
  | .kfree b => s.heap.Header b.ptr
  | .own _ => True

/-! ## The invariant -/

/-- The space of the entry lies behind the header and reaches to the end of the cell. -/
def ShapeCell (e : Entry) (o : Option Block) (b : Nat) : Prop :=
  e.addr + 24 ≤ e.start ∧ e.start + e.size = b ∧
    ∀ blk ∈ o, e.available = false ∧ blk.ptr = e.start ∧ blk.size ≤ e.size

theorem shapeCell_cells : Cells ShapeCell where
  room e o b h := by have := h.1; have := h.2.1; omega
  owned e blk b h := by
    obtain ⟨h1, h2, h3⟩ := h
    obtain ⟨h4, h5, h6⟩ := h3 blk rfl
    exact ⟨h4, h5, h1, by omega⟩
  drop e blk b h := ⟨h.1, h.2.1, by simp⟩
  avail e blk b h _ _ := ⟨h.1, h.2.1, by simp⟩
  join a e b hb ha he _ _ := by
    obtain ⟨ha1, ha2, -⟩ := ha
    obtain ⟨he1, he2, -⟩ := he
    refine ⟨?_, ?_, by simp⟩
    · show a.addr + 24 ≤ add32 a.addr 24
      unfold add32
      omega
    · show add32 a.addr 24 + sub32 (add32 e.start e.size) (add32 a.addr 24) = b
      unfold add32 sub32
      omega

theorem shapeCell_alloc {e : Entry} {size align b : Nat} (hb : b ≤ 2 ^ 32) (h : ShapeCell e none b)
    (hlt : e.start < 2 ^ 32) (hfit : e.padding align + size ≤ e.size)
    (hsplit : if 96 < e.size - size then
        e.padding align + size + 24 ≤ e.size ∧ e.start + e.padding align + size + 24 < 2 ^ 32
      else e.padding align = 0) :
    Tiled ShapeCell e.addr (allocSlots e (e.padding align) size align) b := by
  obtain ⟨h1, h2, -⟩ := h
  generalize e.padding align = off at hfit hsplit
  have hsub : sub32 e.size size = e.size - size := sub32_eq (by omega) (by omega)
  have hst : add32 e.start off = e.start + off := by
    split at hsplit
    · exact add32_eq (by omega)
    · exact add32_eq (by omega)
  have hnew : 96 ≤ off → e.newAddr off = e.start + off - 24 := fun hoff => by
    rw [Entry.newAddr, if_pos hoff, hst, sub32_eq (by have := add32_lt e.start off; omega) (by omega)]
  refine allocSlots_tiled (fun a hm => ?_) (fun a hm => ?_) ?_
  · by_cases hoff : 96 ≤ off
    · rw [Entry.front, if_pos hoff, List.mem_singleton] at hm
      subst hm
      refine ⟨h1, ?_, by simp⟩
      show e.start + sub32 (e.newAddr off) e.start = e.newAddr off
      have := add32_lt e.start off
      rw [hnew hoff, sub32_eq (by omega) (by omega)]
      omega
    · simp [Entry.front, hoff] at hm
  · by_cases hs : 96 < e.size - size
    · rw [Entry.tail, hsub, if_pos hs, List.mem_singleton] at hm
      rw [if_pos hs] at hsplit
      have h3 : add32 (e.start + off) size = e.start + off + size := add32_eq (by omega)
      have h4 : sub32 e.size off = e.size - off := sub32_eq (by omega) (by omega)
      have h5 : sub32 (e.size - off) size = e.size - off - size := sub32_eq (by omega) (by omega)
      rw [hst, h3, h4, h5, add32_eq (by omega), sub32_eq (by omega) (by omega)] at hm
      subst hm
      exact ⟨le_rfl, by show e.start + off + size + 24 + (e.size - off - size - 24) = b; omega, by simp⟩
    · simp [Entry.tail, hsub, hs] at hm
  · have haddr : e.newAddr off + 24 ≤ e.start + off := by
      by_cases hoff : 96 ≤ off
      · rw [hnew hoff]; omega
      · rw [Entry.newAddr, if_neg hoff]; omega
    refine ⟨by show e.newAddr off + 24 ≤ add32 e.start off; omega, ?_, fun blk hblk => ?_⟩
    · show add32 e.start off + (if 96 < sub32 e.size size then size else e.size) = e.behind off size b
      rw [Entry.behind, hst, hsub]
      by_cases hs : 96 < e.size - size
      · rw [if_pos hs] at hsplit
        rw [if_pos hs, if_pos hs, add32_eq (by omega)]
      · rw [if_neg hs] at hsplit
        rw [if_neg hs, if_neg hs]
        omega
    · have hp : add32 e.start off ≠ 0 := by omega
      rw [if_neg hp, Option.mem_some_iff] at hblk
      subst hblk
      refine ⟨rfl, rfl, ?_⟩
      show size ≤ if 96 < sub32 e.size size then size else e.size
      split <;> omega

/-! ## Runs -/

theorem exact_step {dbg : Bool} {lo hi : Nat} {s s' : Sys} {c : Call} (h : Sound ShapeCell lo hi s) (hok : Exact s c)
    (hs : Step dbg s c s') : Sound ShapeCell lo hi s' := by
  cases hs with
  | kmalloc hc hk =>
    refine (h.kmalloc shapeCell_cells hc hk fun xs e ys hes hfit hlt hcell hle => ?_).1
    obtain ⟨h1, h2⟩ := hok e hfit
    exact shapeCell_alloc (hle.trans h.hi_le) hcell hlt h1 h2
  | kfree hb hk => exact (h.kfree shapeCell_cells hb hk hok).1
  | own hb hw => exact h.own shapeCell_cells hb hw

theorem Sound.scan_ends {C : Entry → Option Block → Nat → Prop} {lo hi : Nat} {s : Sys} (h : Sound C lo hi s)
    (size align description : Nat) : Heap.kmalloc size align description s.heap ≠ .error .diverges := by
  obtain ⟨slots, hr, -⟩ := h.slots
  rw [kmalloc_eq h.unlocked, h.start, kmalloc_loop_spec hr]
  cases firstFit (slots.map Prod.fst) size align with
  | none => simp
  | some e =>
    have := alloc_entry_never (f := .diverges) (by decide) e.addr (e.padding align) size description s.heap.ram
    cases ha : alloc_entry e.addr (e.padding align) size description s.heap.ram with
    | ok p => simp [ha]
    | error f =>
      rw [ha] at this
      simpa [ha] using this

/-- In a run of calls that are all `Exact`, the entry list is well formed in every state reached,
and the search of `kmalloc` ends. -/
theorem list_wellFormed {dbg : Bool} {start_addr max_size : Nat} {k k0 : Kheap} (h24 : 24 ≤ max_size)
    (hmax : start_addr + max_size ≤ 2 ^ 32) (hstart : start_addr + 24 < 2 ^ 32)
    (hsetup : setup_heap start_addr max_size k = .ok ((), k0)) {s : Sys} (hrun : RunFrom dbg Exact k0 s) :
    s.heap.heap_start = start_addr ∧ WellFormed s.heap.ram start_addr (start_addr + max_size) s.heap.entries ∧
      ∀ size align description, kmalloc size align description s.heap ≠ .error .diverges := by
  obtain ⟨hlo, hs0, hk, hr⟩ := setup_heap_spec h24 hmax hsetup
  have h0 : Sound ShapeCell start_addr (start_addr + max_size) ⟨k0, []⟩ :=
    ⟨hlo, hmax, hs0, hk, [(⟨start_addr, add32 start_addr 24, max_size - 24, true⟩, none)], hr,
      ⟨rfl, _, ⟨by show _ ≤ add32 _ _; rw [add32_eq hstart],
        by show add32 start_addr 24 + (max_size - 24) = _; rw [add32_eq hstart]; omega, by simp⟩, rfl⟩, .refl _⟩
  have h : Sound ShapeCell start_addr (start_addr + max_size) s :=
    hrun.inv _ h0 fun s c s' hs ⟨hok, hst⟩ => exact_step hs hok hst
  obtain ⟨slots, hr, ht, -⟩ := h.slots
  refine ⟨h.start, ?_, h.scan_ends⟩
  rw [hr.entries_eq h.start]
  refine ⟨hr, shapeCell_cells.ordered ht, fun e he => ?_, ht.map Prod.fst (fun _ => rfl) fun a b hab => hab.2.1⟩
  obtain ⟨x, hx, rfl⟩ := List.mem_map.1 he
  obtain ⟨b, hb, -⟩ := ht.mem shapeCell_cells.gap hx
  exact hb.1

/-- One block with padding that has an entry in front of it and one behind it. -/
theorem list_wellFormed_padded :
    ∃ k0 s, setup_heap 0x1000 0x1000 blank = .ok ((), k0) ∧ s.live = [⟨0x1080, 100, 128⟩] ∧
      RunFrom true Exact k0 s ∧ s.heap.heap_start = 0x1000 ∧ WellFormed s.heap.ram 0x1000 0x2000 s.heap.entries ∧
      ∀ size align description, kmalloc size align description s.heap ≠ .error .diverges := by
  have hrun : ((do setup_heap 0x1000 0x1000; kmalloc 100 128 0) blank).map Prod.fst = .ok 0x1080 := by decide +kernel
  obtain ⟨k1, h⟩ := Exec.exists_of_map hrun
  obtain ⟨_, k0, h0, h1⟩ := Exec.bind_ok.1 h
  obtain ⟨-, hstart, -, hr⟩ := setup_heap_spec (by decide) (by decide) h0
  have hok : Exact ⟨k0, []⟩ (.kmalloc 100 128 0) := fun e he => by
    rw [show (⟨k0, []⟩ : Sys).heap.entries = _ from hr.entries_eq hstart] at he
    obtain rfl := List.mem_singleton.1 (List.mem_of_find?_eq_some he)
    decide
  have hs : RunFrom true Exact k0 ⟨k1, addBlock 0x1080 100 128 []⟩ :=
    .call .start ⟨hok, .kmalloc (by simp [HeapCall.Legal]) h1⟩
  exact ⟨k0, _, h0, rfl, hs, list_wellFormed (by decide) (by decide) (by decide) h0 hs⟩

/-- A block whose padding stays with it: its start moves and its size does not. -/
theorem list_ill_formed :
    ∃ k0 s, setup_heap 0x1000 0x100 blank = .ok ((), k0) ∧ RunFrom true (fun _ _ => True) k0 s ∧
      s.heap.entries = [⟨0x1000, 0x1040, 232, false⟩] ∧ ¬ WellFormed s.heap.ram 0x1000 0x1100 s.heap.entries := by
  have hrun : ((do
      setup_heap 0x1000 0x100
      let p ← kmalloc 150 64 0
      let k ← get
      pure (p, k.entries)) blank).map Prod.fst = .ok (0x1040, [⟨0x1000, 0x1040, 232, false⟩]) := by decide +kernel
  obtain ⟨k2, h⟩ := Exec.exists_of_map hrun
  obtain ⟨_, k0, h0, h⟩ := Exec.bind_ok.1 h
  obtain ⟨p, k1, h1, h⟩ := Exec.bind_ok.1 h
  obtain ⟨k, k1', hget, h⟩ := Exec.bind_ok.1 h
  cases hget
  injection h with h
  injection h with hpair hk2
  injection hpair with hp hentries
  subst hp
  refine ⟨k0, ⟨k1, addBlock 0x1040 150 64 []⟩, h0, ?_, hentries, fun hw => ?_⟩
  · exact .call .start ⟨trivial, .kmalloc (by simp [HeapCall.Legal]) h1⟩
  · have := hw.tiles
    rw [show (⟨k1, addBlock 0x1040 150 64 []⟩ : Sys).heap.entries = _ from hentries] at this
    simp [Tiles] at this

end Ulmix.Heap

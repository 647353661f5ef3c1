import Ulmix.Lib.Tiling
import Ulmix.Memory.Allocating
import Ulmix.Memory.Freeing
import Ulmix.Memory.Lock
/-!
# Runs of the heap

A `Sys` is the heap together with the blocks handed out and not yet freed. In a
run, blocks are allocated and freed, and their owners write into them. The
headers cut the heap into cells, one behind the other. What holds of every cell
(`Cells`) is kept by `kmalloc` and `kfree` as long as what they put in place of
a cell fills it again.
-/
open Ulmix.Lib Ulmix.Sync

namespace Ulmix.Heap

/-! ## Calls and runs -/

/-- A block handed out, and what was asked for. -/
structure Block where
  ptr : Nat
  size : Nat
  align : Nat
  deriving DecidableEq, Repr

/-- The bytes of a block. -/
def Block.In (b : Block) (x : Nat) : Prop := b.ptr ≤ x ∧ x < b.ptr + b.size

/-- The heap, and the blocks that are live. -/
structure Sys where
  heap : Kheap
  live : List Block

inductive Call where
  | kmalloc (size align description : Nat)
  | kfree (b : Block)
  /-- The owner of a block writes into it. -/
  | own (b : Block)

/-- The blocks that are live after `kmalloc(size, align)` returned `p`. -/
def addBlock (p size align : Nat) (live : List Block) : List Block :=
  if p = 0 then live else ⟨p, size, align⟩ :: live

/-- A call that returns. -/
inductive Step (dbg : Bool) : Sys → Call → Sys → Prop
  | kmalloc {s : Sys} {size align description p : Nat} {k : Kheap}
      (hc : (HeapCall.kmalloc size align description).Legal)
      (h : kmalloc size align description s.heap = .ok (p, k)) :
      Step dbg s (.kmalloc size align description) ⟨k, addBlock p size align s.live⟩
  | kfree {s : Sys} {b : Block} {k : Kheap} (hb : b ∈ s.live) (h : kfree dbg b.ptr s.heap = .ok ((), k)) :
      Step dbg s (.kfree b) ⟨k, s.live.erase b⟩
  | own {s : Sys} {b : Block} {r : Ram} (hb : b ∈ s.live) (hw : Ram.Writes b.In s.heap.ram r) :
      Step dbg s (.own b) ⟨{ s.heap with ram := r }, s.live⟩

/-- Runs whose calls all meet `ok`, from a new heap on. -/
def RunFrom (dbg : Bool) (ok : Sys → Call → Prop) (k : Kheap) (s : Sys) : Prop :=
  Run (fun s c s' => ok s c ∧ Step dbg s c s') ⟨k, []⟩ s

/-! ## Cells -/

/-- An entry, and the live block in it. -/
abbrev Slot := Entry × Option Block

/-- What holds of every entry, the block in it and the address where its space ends. -/
structure Cells (C : Entry → Option Block → Nat → Prop) : Prop where
  room : ∀ e o b, C e o b → e.addr + 24 ≤ b
  owned : ∀ e blk b, C e (some blk) b →
    e.available = false ∧ blk.ptr = e.start ∧ e.addr + 24 ≤ e.start ∧ e.start + blk.size ≤ b
  drop : ∀ e blk b, C e (some blk) b → C e none b
  avail : ∀ e blk b, C e (some blk) b → e.start = e.addr + 24 → e.start < 2 ^ 32 →
    C { e with available := true } none b
  join : ∀ a e b, b ≤ 2 ^ 32 → C a none e.addr → C e none b → a.available → e.available → C (a.join e) none b

/-- The slots fill the heap from `lo` to `hi`. -/
def Tiled (C : Entry → Option Block → Nat → Prop) (lo : Nat) (slots : List Slot) (hi : Nat) : Prop :=
  Tiles (fun s : Slot => s.1.addr) (fun s b => C s.1 s.2 b) lo slots hi

/-- The heap from `lo` to `hi` is unlocked and cut into cells, one for each live block. -/
structure Sound (C : Entry → Option Block → Nat → Prop) (lo hi : Nat) (s : Sys) : Prop where
  lo_pos : 0 < lo
  hi_le : hi ≤ 2 ^ 32
  start : s.heap.heap_start = lo
  unlocked : s.heap.Unlocked
  slots : ∃ slots, Represents s.heap.ram lo (slots.map Prod.fst) ∧ Tiled C lo slots hi ∧
    s.live.Perm (slots.filterMap Prod.snd)

section
variable {C : Entry → Option Block → Nat → Prop} (hC : Cells C) {lo hi : Nat} {slots xs ys : List Slot}
include hC

theorem Cells.gap (a : Slot) (b : Nat) (h : C a.1 a.2 b) : a.1.addr + 24 ≤ b := hC.room _ _ _ h

theorem Cells.owner_none {e : Entry} {o : Option Block} {b : Nat} (h : C e o b) (he : e.available) : o = none := by
  cases o with
  | none => rfl
  | some blk => simp [(hC.owned e blk b h).1] at he

theorem Cells.nodes (h : Tiled C lo slots hi) (hlo : 0 < lo) (hhi : hi ≤ 2 ^ 32) :
    Nodes ((slots.map Prod.fst).map Entry.addr) := by
  rw [List.map_map]
  refine ⟨fun a ha => ?_, ?_⟩
  · obtain ⟨x, hx, rfl⟩ := List.mem_map.1 ha
    obtain ⟨b, hb, h1, h2⟩ := h.mem hC.gap hx
    have := hC.gap x b hb
    simp only [Function.comp]
    omega
  · rw [List.pairwise_map]
    refine (h.pairwise hC.gap).imp ?_
    rintro a a' ⟨b, hb, hle⟩
    exact .inl ((hC.gap a b hb).trans hle)

/-- The entries lie in the order of their addresses. -/
theorem Cells.ordered (h : Tiled C lo slots hi) : (slots.map Prod.fst).Pairwise fun a b => a.addr < b.addr := by
  rw [List.pairwise_map]
  refine (h.pairwise hC.gap).imp ?_
  rintro a a' ⟨b, hb, hle⟩
  have := hC.gap a b hb
  omega

/-- A header that lies inside a cell is the cell's own. -/
theorem Cells.own_header {e e' : Entry} {b : Nat} (hx : Tiled C lo xs e.addr) (hy : Tiled C b ys hi)
    (hm : e' ∈ xs.map Prod.fst ++ e :: ys.map Prod.fst) (h1 : e.addr ≤ e'.addr) (h2 : e'.addr + 24 ≤ b) : e' = e := by
  rcases List.mem_append.1 hm with hm | hm
  · obtain ⟨y, hym, rfl⟩ := List.mem_map.1 hm
    obtain ⟨b', hb, -, hle⟩ := hx.mem hC.gap hym
    have := hC.gap y b' hb
    omega
  · rcases List.mem_cons.1 hm with rfl | hm
    · rfl
    · obtain ⟨y, hym, rfl⟩ := List.mem_map.1 hm
      obtain ⟨b', hb, hge, -⟩ := hy.mem hC.gap hym
      omega

end

/-! ## The blocks of a sound heap -/

section
variable {C : Entry → Option Block → Nat → Prop} (hC : Cells C) {lo hi : Nat} {s : Sys}
include hC

/-- No two live blocks share a byte. -/
theorem Sound.disjoint (h : Sound C lo hi s) : s.live.Pairwise fun a b => ∀ x, a.In x → ¬ b.In x := by
  obtain ⟨slots, -, ht, hp⟩ := h.slots
  refine (hp.pairwise_iff fun {a b} hab x hb ha => hab x ha hb).2 (List.pairwise_filterMap.2 ?_)
  refine (ht.pairwise hC.gap).imp_of_mem ?_
  rintro ⟨e, o⟩ ⟨e', o'⟩ - hm' ⟨b, hcell, hle⟩ blk rfl blk' rfl x hx hx'
  obtain ⟨b', hcell', -, -⟩ := ht.mem hC.gap hm'
  obtain ⟨-, hp1, h1, h2⟩ := hC.owned e blk b hcell
  obtain ⟨-, hp2, h3, h4⟩ := hC.owned e' blk' b' hcell'
  unfold Block.In at hx hx'
  simp only at hle
  omega

/-- A live block has a cell. -/
theorem Sound.of_live (h : Sound C lo hi s) {b : Block} (hb : b ∈ s.live) :
    ∃ (xs ys : List Slot) (e : Entry) (c : Nat), Represents s.heap.ram lo (xs.map Prod.fst ++ e :: ys.map Prod.fst) ∧
      Tiled C lo xs e.addr ∧ C e (some b) c ∧ Tiled C c ys hi ∧
      (xs.map Prod.fst ++ e :: ys.map Prod.fst).Pairwise (fun a b => a.addr < b.addr) ∧
      s.live.Perm ((xs ++ (e, some b) :: ys).filterMap Prod.snd) := by
  obtain ⟨slots, hr, ht, hp⟩ := h.slots
  obtain ⟨⟨e, o⟩, hm, rfl⟩ := List.mem_filterMap.1 (hp.subset hb)
  obtain ⟨xs, ys, rfl⟩ := List.append_of_mem hm
  obtain ⟨c, hx, hcell, hy⟩ := Tiles.at_cell.1 ht
  have hord := hC.ordered ht
  rw [List.map_append, List.map_cons] at hr hord
  exact ⟨xs, ys, e, c, hr, hx, hcell, hy, hord, hp⟩

/-- A live block lies inside the heap and meets no header. -/
theorem Sound.block (h : Sound C lo hi s) {b : Block} (hb : b ∈ s.live) :
    lo ≤ b.ptr ∧ b.ptr + b.size ≤ hi ∧ ∀ x, b.In x → ¬ InHdr (s.heap.entries.map Entry.addr) x := by
  obtain ⟨xs, ys, e, c, hr, hx, hcell, hy, -, -⟩ := h.of_live hC hb
  obtain ⟨-, hptr, h1, h2⟩ := hC.owned e b c hcell
  have hlo := hx.le hC.gap
  have hhi := hy.le hC.gap
  refine ⟨by omega, by omega, ?_⟩
  rw [hr.entries_eq h.start]
  rintro x hx' ⟨a, ha, h3, h4⟩
  unfold Block.In at hx'
  obtain ⟨e', he', rfl⟩ := List.mem_map.1 ha
  rcases List.mem_append.1 he' with hm | hm
  · obtain ⟨y, hym, rfl⟩ := List.mem_map.1 hm
    obtain ⟨d, hd, -, hle⟩ := hx.mem hC.gap hym
    have := hC.gap _ _ hd
    omega
  · rcases List.mem_cons.1 hm with rfl | hm
    · omega
    · obtain ⟨y, hym, rfl⟩ := List.mem_map.1 hm
      obtain ⟨d, hd, hge, -⟩ := hy.mem hC.gap hym
      omega

/-- The owner of a block may write into it. -/
theorem Sound.own (h : Sound C lo hi s) {b : Block} (hb : b ∈ s.live) {r : Ram}
    (hw : Ram.Writes b.In s.heap.ram r) : Sound C lo hi ⟨{ s.heap with ram := r }, s.live⟩ := by
  obtain ⟨slots, hr, ht, hp⟩ := h.slots
  have hblock := (h.block hC hb).2.2
  rw [hr.entries_eq h.start] at hblock
  exact ⟨h.lo_pos, h.hi_le, h.start, h.unlocked, slots, hr.of_writes hw hblock, ht, hp⟩

end

/-! ## A new heap -/

theorem setup_heap_spec {lo size : Nat} {k k0 : Kheap} (h24 : 24 ≤ size) (hle : lo + size ≤ 2 ^ 32)
    (h : setup_heap lo size k = .ok ((), k0)) :
    0 < lo ∧ k0.heap_start = lo ∧ k0.Unlocked ∧ Represents k0.ram lo [⟨lo, add32 lo 24, size - 24, true⟩] := by
  have hlo : lo ≠ 0 := by
    rintro rfl
    cases h
  have hN : Nodes [lo] := ⟨by simp; omega, by simp⟩
  have hm : lo ∈ [lo] := by simp
  have hsize : sub32 size 24 = size - 24 := sub32_eq (by omega) h24
  set r1 := setField k.ram lo .available 1 with hr1
  set r2 := setField r1 lo .description 0 with hr2
  set r3 := setField r2 lo .next 0 with hr3
  set r4 := setField r3 lo .previous 0 with hr4
  set r5 := setField r4 lo .size (sub32 size 24) with hr5
  set r6 := setField r5 lo .start (add32 lo 24) with hr6
  have hrun : setup_heap lo size k = .ok ((), { ram := r6, heap_mtx := ⟨0, []⟩, heap_start := lo }) := by
    unfold setup_heap
    refine Exec.bind_of_ok (a := ()) (onRam_of_ok (r := r6) ?_)
    rw [Exec.bind_of_ok (store_eq hlo _ _ _), Exec.bind_of_ok (store_eq hlo _ _ _),
      Exec.bind_of_ok (store_eq hlo _ _ _), Exec.bind_of_ok (store_eq hlo _ _ _),
      Exec.bind_of_ok (store_eq hlo _ _ _)]
    exact store_eq hlo _ _ _
  have hf : ∀ f, field r6 lo f = match f with
      | .available => 1
      | .description => 0
      | .next => 0
      | .previous => 0
      | .size => size - 24
      | .start => add32 lo 24 := fun f => by
    rw [hr6, hN.field_setField hm hm (add32_lt _ _), hr5, hN.field_setField hm hm (sub32_lt _ _), hr4,
      hN.field_setField hm hm (by decide), hr3, hN.field_setField hm hm (by decide), hr2,
      hN.field_setField hm hm (by decide), hr1, hN.field_setField hm hm (by decide)]
    cases f <;> simp [hsize]
  rw [hrun] at h
  cases h
  refine ⟨Nat.pos_of_ne_zero hlo, rfl, rfl, hN, ⟨lo, rfl, hf .previous, rfl, hf .next⟩, fun e he => ?_⟩
  obtain rfl := List.mem_singleton.1 he
  simp [entryAt, hf]

/-! ## Allocating -/

/-- What `kmalloc` makes of the slot of `e`. -/
def allocSlots (e : Entry) (off size align : Nat) : List Slot :=
  (e.front off).map (·, none) ++
    (e.taken off size, if add32 e.start off = 0 then none else some ⟨add32 e.start off, size, align⟩) ::
      (e.tail off size).map (·, none)

/-- Where the space of an entry ends: at the next header, or at the end of the heap. -/
def spaceEnd (ys : List Entry) (hi : Nat) : Nat := (ys.head?.map Entry.addr).getD hi

/-- What lies behind the block: the entry of the rest, or what lay behind `e`. -/
def Entry.behind (e : Entry) (off size b : Nat) : Nat :=
  if 96 < sub32 e.size size then add32 (add32 e.start off) size else b

/-- The cells of what `kmalloc` makes of `e`: in front of the block, behind it, and its own. -/
theorem allocSlots_tiled {C : Entry → Option Block → Nat → Prop} {e : Entry} {off size align b : Nat}
    (hfront : ∀ a ∈ e.front off, C a none (e.newAddr off)) (htail : ∀ a ∈ e.tail off size, C a none b)
    (htaken : C (e.taken off size) (if add32 e.start off = 0 then none else some ⟨add32 e.start off, size, align⟩)
      (e.behind off size b)) :
    Tiled C e.addr (allocSlots e off size align) b := by
  have hrest : Tiled C (e.newAddr off) ((e.taken off size,
      if add32 e.start off = 0 then none else some ⟨add32 e.start off, size, align⟩) ::
        (e.tail off size).map (·, none)) b := by
    refine ⟨rfl, _, htaken, ?_⟩
    by_cases hs : 96 < sub32 e.size size
    · simp only [Entry.tail, Entry.behind, if_pos hs] at htail ⊢
      exact ⟨rfl, b, htail _ (by simp), rfl⟩
    · simp only [Entry.tail, Entry.behind, if_neg hs]
      rfl
  unfold allocSlots
  by_cases hoff : 96 ≤ off
  · have hf : e.front off = [_] := if_pos hoff
    rw [hf] at hfront ⊢
    exact ⟨rfl, _, hfront _ (by simp), hrest⟩
  · have hf : e.front off = [] := if_neg hoff
    have hnew : e.newAddr off = e.addr := if_neg hoff
    rw [hf, ← hnew]
    exact hrest

theorem allocSlots_fst (e : Entry) (off size align : Nat) :
    (allocSlots e off size align).map Prod.fst = allocEntry e off size := by
  simp [allocSlots, allocEntry, Function.comp_def]

theorem allocSlots_snd (e : Entry) (off size align : Nat) (xs ys : List Slot) (live : List Block)
    (h : live.Perm ((xs ++ (e, none) :: ys).filterMap Prod.snd)) :
    (addBlock (add32 e.start off) size align live).Perm
      ((xs ++ allocSlots e off size align ++ ys).filterMap Prod.snd) := by
  have hnone : ∀ l : List Entry, (l.map fun e => ((e, none) : Slot)).filterMap Prod.snd = [] := fun l => by
    simp [List.filterMap_map]
  unfold addBlock
  by_cases hp : add32 e.start off = 0
  · simpa [allocSlots, hp, hnone] using h
  · rw [if_neg hp]
    refine (h.cons _).trans ?_
    simp only [allocSlots, hp, if_false, List.filterMap_append, List.filterMap_cons, hnone, List.nil_append,
      List.append_assoc, List.cons_append]
    exact List.perm_middle.symm

section
variable {C : Entry → Option Block → Nat → Prop} (hC : Cells C) {lo hi : Nat} {s : Sys}
include hC

/-- `kmalloc` returns, and keeps a heap sound, if what it makes of the entry it takes fills the same
space. -/
theorem Sound.kmalloc_run (h : Sound C lo hi s) {size align description : Nat}
    (hc : (HeapCall.kmalloc size align description).Legal)
    (halloc : ∀ xs e ys, s.heap.entries = xs ++ e :: ys → firstFit s.heap.entries size align = some e →
      e.start < 2 ^ 32 → C e none (spaceEnd ys hi) → spaceEnd ys hi ≤ hi →
      Tiled C e.addr (allocSlots e (e.padding align) size align) (spaceEnd ys hi)) :
    ∃ p k, Heap.kmalloc size align description s.heap = .ok (p, k) ∧
      Sound C lo hi ⟨k, addBlock p size align s.live⟩ ∧
      Ram.Writes (InHdr (k.entries.map Entry.addr)) s.heap.ram k.ram := by
  obtain ⟨slots, hr, ht, hp⟩ := h.slots
  have hes : s.heap.entries = slots.map Prod.fst := hr.entries_eq h.start
  rw [kmalloc_eq h.unlocked, h.start, kmalloc_loop_spec hr, ← hes]
  cases hfit : firstFit s.heap.entries size align with
  | none => exact ⟨0, _, rfl, ⟨h.lo_pos, h.hi_le, h.start, rfl, slots, hr, ht, hp⟩, .refl _ _⟩
  | some e =>
    have he := hfit
    rw [firstFit, hes, List.find?_eq_some_iff_append] at hfit
    obtain ⟨hfits, as, bs, heq, -⟩ := hfit
    obtain ⟨xs, zs, rfl, rfl, hzs⟩ := List.map_eq_append_iff.1 heq
    obtain ⟨⟨e', o⟩, ys, rfl, rfl, rfl⟩ := List.map_eq_cons_iff.1 hzs
    have hav : e'.available := by
      simp only [Entry.fits, Bool.and_eq_true] at hfits
      exact hfits.1
    obtain ⟨b, hx, hcell, hy⟩ := Tiles.at_cell.1 ht
    obtain rfl := hC.owner_none hcell hav
    have hb : b = spaceEnd (ys.map Prod.fst) hi := by
      rw [hy.start_eq, spaceEnd, List.head?_map, Option.map_map]
      rfl
    have hble : b ≤ hi := (Nat.le_add_right _ _).trans (hy.le hC.gap)
    have hnew := halloc _ e' _ (hes.trans heq) he (hr.start_lt (by simp)) (hb ▸ hcell) (hb ▸ hble)
    rw [← hb] at hnew
    have ht' : Tiled C lo (xs ++ allocSlots e' (e'.padding align) size align ++ ys) hi :=
      Tiles.append.2 ⟨b, Tiles.append.2 ⟨_, hx, hnew⟩, hy⟩
    have hmap : (xs ++ allocSlots e' (e'.padding align) size align ++ ys).map Prod.fst =
        xs.map Prod.fst ++ allocEntry e' (e'.padding align) size ++ ys.map Prod.fst := by
      simp [allocSlots_fst]
    have hN := hC.nodes ht' h.lo_pos h.hi_le
    rw [List.map_append, List.map_cons] at hr
    rw [hmap] at hN
    obtain ⟨r', ha, hr', hw, -⟩ := alloc_entry_spec hr hc.1 hc.2.2.2 hN
    refine ⟨_, s.heap.settle r', by simp only [ha], ⟨h.lo_pos, h.hi_le, h.start, rfl, _, hmap ▸ hr', ht',
      allocSlots_snd _ _ _ _ _ _ _ hp⟩, ?_⟩
    rw [hr'.entries_eq (k := s.heap.settle r') h.start]
    exact hw

theorem Sound.kmalloc (h : Sound C lo hi s) {size align description p : Nat} {k : Kheap}
    (hc : (HeapCall.kmalloc size align description).Legal)
    (hk : Heap.kmalloc size align description s.heap = .ok (p, k))
    (halloc : ∀ xs e ys, s.heap.entries = xs ++ e :: ys → firstFit s.heap.entries size align = some e →
      e.start < 2 ^ 32 → C e none (spaceEnd ys hi) → spaceEnd ys hi ≤ hi →
      Tiled C e.addr (allocSlots e (e.padding align) size align) (spaceEnd ys hi)) :
    Sound C lo hi ⟨k, addBlock p size align s.live⟩ ∧
      Ram.Writes (InHdr (k.entries.map Entry.addr)) s.heap.ram k.ram := by
  obtain ⟨p', k', hk', hs, hw⟩ := h.kmalloc_run hC hc halloc
  rw [hk'] at hk
  cases hk
  exact ⟨hs, hw⟩

end

/-! ## Freeing -/

/-- `joinNext` on slots: what is joined has no owner. -/
def joinNextSlots (e : Entry) : List Slot → List Slot
  | [] => [(e, none)]
  | c :: ys => if c.1.available then (e.join c.1, none) :: ys else (e, none) :: c :: ys

/-- What `kfree` makes of the slot of `e` between `a` and `ys`. -/
def freeSlots (a : Slot) (e : Entry) (ys : List Slot) : List Slot :=
  let e := { e with available := true }
  if a.1.available then joinNextSlots (a.1.join e) ys else a :: joinNextSlots e ys

theorem joinNextSlots_fst (e : Entry) (ys : List Slot) :
    (joinNextSlots e ys).map Prod.fst = joinNext e (ys.map Prod.fst) := by
  cases ys with
  | nil => rfl
  | cons c ys => by_cases hc : c.1.available <;> simp [joinNextSlots, joinNext, hc]

theorem freeSlots_fst (a : Slot) (e : Entry) (ys : List Slot) :
    (freeSlots a e ys).map Prod.fst = freeEntry a.1 e (ys.map Prod.fst) := by
  by_cases ha : a.1.available <;> simp [freeSlots, freeEntry, ha, joinNextSlots_fst]

/-- `kfree` looks at the header of `p`: one that is in the list, or one it takes for invalid. -/
def Kheap.Header (k : Kheap) (p : Nat) : Prop :=
  invalid k.ram (p - 24) ∨ ∃ e ∈ k.entries, e.addr + 24 = p

section
variable {C : Entry → Option Block → Nat → Prop} (hC : Cells C) {lo hi : Nat} {s : Sys}
include hC

theorem joinNextSlots_tiled {e : Entry} {b : Nat} {ys : List Slot} (hhi : hi ≤ 2 ^ 32) (he : C e none b)
    (hav : e.available) (hy : Tiled C b ys hi) :
    Tiled C e.addr (joinNextSlots e ys) hi ∧ (joinNextSlots e ys).filterMap Prod.snd = ys.filterMap Prod.snd := by
  cases ys with
  | nil => exact ⟨⟨rfl, b, he, hy⟩, rfl⟩
  | cons c ys =>
    obtain ⟨rfl, d, hc, hy'⟩ := hy
    by_cases hca : c.1.available
    · obtain ⟨c, o⟩ := c
      obtain rfl := hC.owner_none hc hca
      have hd : d ≤ 2 ^ 32 := by
        have := hy'.le hC.gap
        omega
      rw [joinNextSlots, if_pos hca]
      exact ⟨⟨rfl, d, hC.join _ _ _ hd he hc hav hca, hy'⟩, rfl⟩
    · rw [joinNextSlots, if_neg hca]
      exact ⟨⟨rfl, _, he, rfl, d, hc, hy'⟩, rfl⟩

theorem freeSlots_tiled {a : Slot} {e : Entry} {blk : Block} {b : Nat} {ys : List Slot} (hhi : hi ≤ 2 ^ 32)
    (ha : C a.1 a.2 e.addr) (he : C e (some blk) b) (hst : e.start = e.addr + 24) (hlt : e.start < 2 ^ 32)
    (hy : Tiled C b ys hi) :
    Tiled C a.1.addr (freeSlots a e ys) hi ∧
      (freeSlots a e ys).filterMap Prod.snd = (a :: ys).filterMap Prod.snd := by
  have hb : b ≤ 2 ^ 32 := by
    have := hy.le hC.gap
    omega
  have he' := hC.avail e blk b he hst hlt
  unfold freeSlots
  by_cases hav : a.1.available
  · obtain ⟨a, o⟩ := a
    obtain rfl := hC.owner_none ha hav
    rw [if_pos hav]
    exact joinNextSlots_tiled hC hhi (hC.join a { e with available := true } b hb ha he' hav rfl) hav hy
  · rw [if_neg hav]
    obtain ⟨h1, h2⟩ := joinNextSlots_tiled hC hhi he' rfl hy
    exact ⟨⟨rfl, _, ha, h1⟩, by simp only [List.filterMap_cons, h2]⟩

/-- `kfree` of a live block keeps a heap sound if it finds the header of the block. -/
theorem Sound.kfree (h : Sound C lo hi s) {dbg : Bool} {b : Block} {k : Kheap} (hb : b ∈ s.live)
    (hk : Heap.kfree dbg b.ptr s.heap = .ok ((), k)) (hok : s.heap.Header b.ptr) :
    Sound C lo hi ⟨k, s.live.erase b⟩ ∧
      Ram.Writes (InHdr (s.heap.entries.map Entry.addr)) s.heap.ram k.ram := by
  obtain ⟨xs, ys, e, c, hr, hx, hcell, hy, hord, hp⟩ := h.of_live hC hb
  have hes := hr.entries_eq h.start
  obtain ⟨-, hptr, h1, h2⟩ := hC.owned e b c hcell
  have hlo := hx.le hC.gap
  have hhi := hy.le hC.gap
  have hpos := h.lo_pos
  have hstart : e.start < 2 ^ 32 := hr.start_lt (by simp)
  rw [kfree_eq h.unlocked dbg (by omega) (hptr ▸ hstart)] at hk
  have herase : (s.live.erase b).Perm (xs.filterMap Prod.snd ++ ys.filterMap Prod.snd) := by
    rw [List.filterMap_append, List.filterMap_cons] at hp
    have := (hp.trans List.perm_middle).erase b
    rwa [List.erase_cons_head] at this
  by_cases hi' : invalid s.heap.ram (b.ptr - 24)
  · rw [if_pos hi'] at hk
    cases hk
    refine ⟨⟨h.lo_pos, h.hi_le, h.start, rfl, xs ++ (e, none) :: ys, ?_,
      Tiles.at_cell.2 ⟨c, hx, hC.drop e b c hcell, hy⟩, by simpa using herase⟩, .refl _ _⟩
    rw [List.map_append, List.map_cons]
    exact hr
  · rw [if_neg hi'] at hk
    obtain ⟨e', he', hadd⟩ := hok.resolve_left hi'
    rw [hes] at he'
    obtain rfl := hC.own_header hx hy he' (by omega) (by omega)
    rw [show b.ptr - 24 = e'.addr by omega] at hk
    by_cases hin : Inner (xs.map Prod.fst) (ys.map Prod.fst)
    · obtain ⟨hne, c', zs, hys, hlast⟩ := hin
      rcases List.eq_nil_or_concat xs with rfl | ⟨ws, a, rfl⟩
      · exact absurd rfl hne
      rw [List.concat_eq_append] at hx herase hr hord hes
      rw [hys, List.map_append, List.append_assoc] at hr hord hes
      have hlt : a.1.addr < e'.addr ∧ e'.addr < c'.addr :=
        ⟨List.rel_of_pairwise_cons (List.pairwise_append.1 hord).2.1 (by simp),
          List.rel_of_pairwise_cons (List.pairwise_cons.1 (List.pairwise_append.1 hord).2.1).2 (by simp)⟩
      obtain ⟨r', hrun, hr', hw⟩ := kfree_entry_spec hr hlast fun _ => .of_lt hlt
      obtain ⟨m, hws, ha, hae⟩ := Tiles.at_cell.1 hx
      obtain rfl : m = e'.addr := hae
      obtain ⟨hfree, hlive⟩ := freeSlots_tiled hC h.hi_le ha hcell (by omega) hstart hy
      rw [hrun] at hk
      cases hk
      rw [hes]
      refine ⟨⟨h.lo_pos, h.hi_le, h.start, rfl, ws ++ freeSlots a e' ys, ?_,
        Tiles.append.2 ⟨_, hws, hfree⟩, ?_⟩, hw⟩
      · rw [List.map_append, freeSlots_fst, hys]
        exact hr'
      · rw [← List.filterMap_append, List.append_assoc, List.filterMap_append] at herase
        rw [List.filterMap_append, hlive]
        exact herase
    · rw [kfree_entry_null hr hin fun _ => .of_pairwise hord] at hk
      cases hk

end

end Ulmix.Heap

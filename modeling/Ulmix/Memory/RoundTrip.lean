import Ulmix.Memory.Blocks
import Ulmix.Memory.Shape
/-!
# `kmalloc` and then `kfree`

`kfree(kmalloc(size, align))` gives back the list it started from when `kfree`
finds the header at all (no padding, or enough of it for an entry of its own),
does not take the block for an invalid one (its recorded size is not zero), and
meets no null link (`Undone`); also for a request that wraps, as long as the new
headers lie apart from the others. Where they do (`Regular`), it is the only case
in which there is a block at all.
-/
open Ulmix.Lib Ulmix.Sync

namespace Ulmix.Heap

/-! ## The claim -/

/-- Available entries start right behind their headers, and no two of them are neighbours. -/
structure Tidy (es : List Entry) : Prop where
  behind : ∀ e ∈ es, e.available → e.start = e.addr + 24
  apart : es.IsChain fun a b => ¬ (a.available ∧ b.available)

/-- On every heap with the entries `es`: a block allocated and freed at once leaves them as they were. -/
def RoundTrips (dbg : Bool) (lo hi : Nat) (es : List Entry) (size align : Nat) : Prop :=
  ∀ k description p k1, k.Unlocked → k.heap_start = lo → WellFormed k.ram lo hi es → description < 2 ^ 32 →
    kmalloc size align description k = .ok (p, k1) → p ≠ 0 →
      ∃ k2, kfree dbg p k1 = .ok ((), k2) ∧ k2.entries = es

/-- The headers of the block taken from `e`, and of what is left behind it, do not overlap each other or those of the
list, and lie between the addresses 1 and `2 ^ 32`. -/
def HeadersApart (xs : List Entry) (e : Entry) (ys : List Entry) (off size : Nat) : Prop :=
  Nodes ((xs ++ allocEntry e off size ++ ys).map Entry.addr)

/-- There is no block to free: the header of the block or of what is left behind it would lie at address zero, where
`kmalloc` stops, or the block itself would, and `kmalloc` returns null. -/
def NoBlock (xs : List Entry) (e : Entry) (ys : List Entry) (off size : Nat) : Prop :=
  96 ≤ off ∧ e.newAddr off = 0 ∨
    Nodes ((xs ++ e.front off).map Entry.addr ++ e.newAddr off :: ys.map Entry.addr) ∧
      96 < sub32 e.size size ∧ add32 (add32 e.start off) size = 0 ∨
    HeadersApart xs e ys off size ∧ add32 e.start off = 0

/-- `kfree` can undo what `kmalloc` does to `e`, between `xs` and `ys`, for `off` bytes of padding:
`e` is not the last entry, and either there is no padding, `e` is not the first entry and the size
recorded for the block is not zero; or the padding becomes an entry, the block is not empty, what is
left behind it becomes one, too, and the new headers have room. A debug build wants the block behind `e`. -/
def Undone (dbg : Bool) (xs : List Entry) (e : Entry) (ys : List Entry) (off size : Nat) : Prop :=
  ys ≠ [] ∧
    (off = 0 ∧ xs ≠ [] ∧ (size ≠ 0 ∨ 0 < e.size ∧ e.size ≤ 96) ∨
      96 ≤ off ∧ size ≠ 0 ∧ 96 < sub32 e.size size ∧ HeadersApart xs e ys off size ∧
        (dbg → e.addr < e.newAddr off))

/-- The new headers have room, and the one `kfree` reads is not shifted by less than a word against the real one, and
not where a sum wrapped. -/
def Regular (xs : List Entry) (e : Entry) (ys : List Entry) (off size : Nat) : Prop :=
  HeadersApart xs e ys off size ∧ (off = 0 ∨ 96 ≤ off ∨ 4 ≤ off ∧ off + size < 2 ^ 32)

/-! ## The list after `kmalloc` -/

section
variable {r : Ram} {lo hi : Nat} {es xs ys : List Entry} {e : Entry}

theorem WellFormed.tiled (h : WellFormed r lo hi es) (ht : Tidy es) :
    Tiled BlockCell lo (es.map fun e => (e, none)) hi := by
  have hcell : ∀ as lo', (∀ e ∈ as, e ∈ es) → Tiles Entry.addr (fun e b => e.start + e.size = b) lo' as hi →
      Tiled BlockCell lo' (as.map fun e => (e, none)) hi := by
    intro as
    induction as with
    | nil =>
      intro lo' _ hts
      exact hts
    | cons e as ih =>
      rintro lo' hmem ⟨h1, b, h2, h3⟩
      have he := hmem e (by simp)
      have hst := h.start e he
      refine ⟨h1, b, ⟨by show e.addr + 24 ≤ b; omega, fun hav => ?_, by simp⟩,
        ih b (fun x hx => hmem x (by simp [hx])) h3⟩
      have hlt := h.represents.start_lt he
      have hbe := ht.behind e he hav
      show e.start = add32 e.addr 24
      rw [add32_eq (by omega), hbe]
  exact hcell es lo (fun _ he => he) h.tiles

/-- Behind the space of an entry come the cells of the entries behind it. -/
theorem WellFormed.space (h : WellFormed r lo hi (xs ++ e :: ys)) (ht : Tidy (xs ++ e :: ys)) :
    Tiled BlockCell (e.start + e.size) (ys.map fun e => (e, none)) hi := by
  obtain ⟨b, -, rfl, h2⟩ := Tiles.at_cell.1 h.tiles
  have htiled := h.tiled ht
  rw [List.map_append, List.map_cons] at htiled
  obtain ⟨b, -, -, hy⟩ := Tiles.at_cell.1 htiled
  have hb : b = e.start + e.size := by
    rw [hy.start_eq, h2.start_eq, List.head?_map, Option.map_map]
    rfl
  exact hb ▸ hy

theorem WellFormed.lo_pos (h : WellFormed r lo hi (xs ++ e :: ys)) : 0 < lo := by
  apply Nat.pos_of_ne_zero
  rw [h.tiles.start_eq]
  cases xs with
  | nil => exact h.represents.addr_ne (e := e) (by simp)
  | cons a xs => exact h.represents.addr_ne (e := a) (by simp)

theorem Tidy.before {a : Entry} (h : Tidy (xs ++ a :: e :: ys)) (he : e.available) : ¬ a.available := fun ha =>
  (List.isChain_append_cons_cons.1 h.apart).2.1 ⟨ha, he⟩

theorem Tidy.after {c : Entry} (h : Tidy (xs ++ e :: c :: ys)) (he : e.available) : ¬ c.available := fun hc =>
  (List.isChain_append_cons_cons.1 h.apart).2.1 ⟨he, hc⟩

/-- Where the entry is large enough for everything, the new headers have room. -/
theorem headersApart_of_room {size align : Nat} (hw : WellFormed r lo hi (xs ++ e :: ys)) (ht : Tidy (xs ++ e :: ys))
    (hhi : hi ≤ 2 ^ 32) (ha : 1 ≤ align) (ha' : align < 2 ^ 32) (hav : e.available)
    (hroom : e.padding align + size ≤ e.size) (hsplit : 96 < e.size - size → e.padding align + size + 24 ≤ e.size) :
    HeadersApart xs e ys (e.padding align) size := by
  have hsize := hw.represents.size_lt (e := e) (by simp)
  have hbe := ht.behind e (by simp) hav
  have htiled := hw.tiled ht
  rw [List.map_append, List.map_cons] at htiled
  obtain ⟨b, hx, hcell, hy⟩ := Tiles.at_cell.1 htiled
  have hb : b = e.start + e.size := hy.start_eq.trans (hw.space ht).start_eq.symm
  have hble : b ≤ hi := hb ▸ hw.stop_le (e := e) (by simp)
  have hsub : sub32 e.size size = e.size - size := sub32_eq hsize (by omega)
  have hcell' : BlockCell e none b := hcell
  have hnew := blockCell_alloc (hble.trans hhi) hcell' hav ha ha'
    (show e.addr + 24 + e.padding align + size ≤ b by omega) (by omega)
  have htiled' : Tiled BlockCell lo (xs.map (fun e => (e, none)) ++ allocSlots e (e.padding align) size align ++
      ys.map (fun e => (e, none))) hi := Tiles.append.2 ⟨b, Tiles.append.2 ⟨_, hx, hnew⟩, hy⟩
  have hmap : (xs.map (fun e => ((e, none) : Slot)) ++ allocSlots e (e.padding align) size align ++
      ys.map (fun e => (e, none))).map Prod.fst = xs ++ allocEntry e (e.padding align) size ++ ys := by
    simp [allocSlots_fst, Function.comp_def]
  have hN := blockCell_cells.nodes htiled' hw.lo_pos hhi
  rwa [hmap] at hN

/-- What `kmalloc` leaves where nothing overlaps. -/
theorem kmalloc_taken {k : Kheap} {size align description : Nat} (hk : k.Unlocked) (hs : k.heap_start = lo)
    (hw : WellFormed k.ram lo hi (xs ++ e :: ys)) (hsize : size < 2 ^ 32) (hd : description < 2 ^ 32)
    (hfit : firstFit (xs ++ e :: ys) size align = some e) (hN : HeadersApart xs e ys (e.padding align) size) :
    ∃ r, kmalloc size align description k = .ok (add32 e.start (e.padding align), k.settle r) ∧
      Represents r lo (xs ++ allocEntry e (e.padding align) size ++ ys) ∧
      Ram.Writes (InHdr ((xs ++ allocEntry e (e.padding align) size ++ ys).map Entry.addr)) k.ram r ∧
      field r (e.newAddr (e.padding align)) .description = description := by
  obtain ⟨r, ha, hr, hwr, hdesc⟩ := alloc_entry_spec hw.represents hsize hd hN
  refine ⟨r, ?_, hr, hwr, hdesc⟩
  rw [kmalloc_eq hk, hs, kmalloc_loop_spec hw.represents, hfit]
  simp only [ha]

/-- Where there is no block to free, `kmalloc` returns no other. -/
theorem alloc_entry_noBlock {off size description p : Nat} {r' : Ram} (h : Represents r lo (xs ++ e :: ys))
    (hsize : size < 2 ^ 32) (hd : description < 2 ^ 32) (hno : NoBlock xs e ys off size)
    (hrun : alloc_entry e.addr off size description r = .ok (p, r')) : p = 0 := by
  have he : e ∈ xs ++ e :: ys := by simp
  rcases hno with ⟨hoff, hzero⟩ | ⟨hN, hs, hzero⟩ | ⟨hN, hzero⟩
  · have hfront : alloc_front e.addr off r = .error .nullDeref := by
      rw [Entry.newAddr, if_pos hoff] at hzero
      unfold alloc_front
      rw [if_pos (show off ≥ 4 * headerSize from hoff), Exec.bind_of_ok (h.load_field he _), h.start_eq he, headerSize,
        hzero]
      rfl
    unfold alloc_entry at hrun
    rw [Exec.bind_of_ok (h.load_field he _), Exec.bind_of_error hfront] at hrun
    cases hrun
  · obtain ⟨r₁, n, -, hns, -, hr₁, -, -, hhead⟩ := alloc_entry_head h hd hN (fun _ h => h) size
    have hn : n ∈ xs ++ e.front off ++ n :: ys := by simp
    have htail : alloc_tail n.addr e.size off size r₁ = .error .nullDeref := by
      unfold alloc_tail
      rw [if_pos (show sub32 e.size size > 4 * headerSize from hs), Exec.bind_of_ok (hr₁.load_field hn _),
        hr₁.start_eq hn, hns, hzero]
      rfl
    rw [hhead, Exec.bind_of_error htail] at hrun
    cases hrun
  · obtain ⟨r₁, ha, -⟩ := alloc_entry_spec h hsize hd hN
    rw [ha] at hrun
    cases hrun
    exact hzero

/-- What `kfree` does afterwards, when the block's header is the one in front of it. -/
theorem kfree_taken {k : Kheap} {dbg : Bool} {as bs : List Entry} {t : Entry}
    (hr : Represents r lo (as ++ t :: bs)) (ht : t.available = false) (hst : t.start = t.addr + 24) :
    kfree dbg t.start (k.settle r) =
      if t.size = 0 then .ok ((), (k.settle r).settle r)
      else match kfree_entry dbg t.addr r with
        | .ok (_, r') => .ok ((), (k.settle r).settle r')
        | .error f => .error f := by
  have htm : t ∈ as ++ t :: bs := by simp
  have ht0 := hr.addr_ne htm
  have hlt := hr.start_lt htm
  have hinv := hr.invalid_iff htm ht (by omega)
  have hram : (k.settle r).ram = r := rfl
  have hfree := kfree_eq (k := k.settle r) rfl dbg (show 24 < t.start by omega) hlt
  rw [hfree, hram, show t.start - 24 = t.addr by omega]
  by_cases hz : t.size = 0
  · rw [if_pos (hinv.2 hz), if_pos hz]
  · rw [if_neg fun hc => hz (hinv.1 hc)]
    refine Eq.trans ?_ (if_neg hz).symm
    cases kfree_entry dbg t.addr r <;> rfl

theorem kfree_inner {k : Kheap} (dbg : Bool) {ws zs : List Entry} {a t c : Entry}
    (hr : Represents r lo (ws ++ a :: t :: c :: zs)) (ht : t.available = false) (hst : t.start = t.addr + 24)
    (hz : t.size ≠ 0) (hlast : c.available → zs ≠ []) (hlt : dbg → InOrder (some a) t (some c)) :
    ∃ r', kfree dbg t.start (k.settle r) = .ok ((), (k.settle r).settle r') ∧
      Represents r' lo (ws ++ freeEntry a t (c :: zs)) := by
  have hr' : Represents r lo ((ws ++ [a]) ++ t :: c :: zs) := by simpa using hr
  obtain ⟨r2, hrun, hr2, -⟩ := kfree_entry_spec hr hlast hlt
  exact ⟨r2, by rw [kfree_taken hr' ht hst, if_neg hz, hrun], hr2⟩

/-- What is left behind the block lies behind the header of `e`, as all behind it does. -/
theorem addr_lt_behind {off size : Nat} (hw : WellFormed r lo hi (xs ++ e :: ys)) (hhi : hi ≤ 2 ^ 32)
    (hst : e.start = e.addr + 24) (hfits : add32 size off ≤ e.size) (hN : HeadersApart xs e ys off size) :
    ∀ c ∈ e.tail off size ++ ys, e.addr < c.addr := by
  intro c hc
  have hstop := hw.stop_le (e := e) (by simp)
  have hc0 : c.addr ≠ 0 := (hN.hdr c.addr (List.mem_map_of_mem (by
    simp only [allocEntry, List.mem_append, List.mem_cons] at hc ⊢
    tauto))).1
  rcases List.mem_append.1 hc with hc | hc
  · by_cases hs : 96 < sub32 e.size size
    · rw [Entry.tail, if_pos hs, List.mem_singleton] at hc
      rw [hc] at hc0 ⊢
      show e.addr < add32 (add32 e.start off) size
      have hne : add32 (add32 e.start off) size ≠ 0 := hc0
      unfold add32 at hne hfits ⊢
      omega
    · simp [Entry.tail, hs] at hc
  · have := hw.stop_le_addr hc
    omega

end

/-! ## The condition is enough -/

section
variable {lo hi : Nat} {xs ys : List Entry} {e : Entry} {off size : Nat}

/-- Without padding: the block, joined with what was split off, is the entry it came from. -/
theorem undone_plain {a : Entry} (hst : e.start = e.addr + 24) (hav : e.available) (ha : ¬ a.available)
    (hlt : e.start + e.size < 2 ^ 32) (hsize : size ≤ e.size) (hys : ∀ c ∈ ys.head?, ¬ c.available) :
    freeEntry a (e.taken 0 size) (e.tail 0 size ++ ys) = a :: e :: ys := by
  have hsub : sub32 e.size size = e.size - size := sub32_eq (by omega) hsize
  have h0 : add32 e.start 0 = e.start := add32_eq (by omega)
  have hnew : e.newAddr 0 = e.addr := if_neg (by decide)
  have he : ({ addr := e.addr, start := e.start, size := e.size, available := true } : Entry) = e := by
    rw [← hav]
  by_cases hs : 96 < e.size - size
  · have h1 : add32 e.start size = e.start + size := add32_eq (by omega)
    have h2 : add32 (e.start + size) 24 = e.start + size + 24 := add32_eq (by omega)
    have h3 : sub32 e.size 0 = e.size := sub32_eq (by omega) (by omega)
    have h4 : sub32 (e.size - size) 24 = e.size - size - 24 := sub32_eq (by omega) (by omega)
    have h5 : add32 e.addr 24 = e.start := by rw [add32_eq (by omega), hst]
    have h6 : sub32 (add32 (e.start + size + 24) (e.size - size - 24)) e.start = e.size := by
      rw [add32_eq (by omega), sub32_eq (by omega) (by omega)]
      omega
    simp only [freeEntry, ha, Entry.taken, Entry.tail, hsub, if_pos hs, h0, h1, h2, h3, h4, hnew, List.cons_append,
      List.nil_append, joinNext, Entry.join, h5, h6]
    simp [he]
  · have hnil : e.tail 0 size = [] := by rw [Entry.tail, hsub, if_neg hs]
    have ht : ({ e.taken 0 size with available := true } : Entry) = e := by
      simp only [Entry.taken, hsub, if_neg hs, h0, hnew]
      exact he
    simp only [freeEntry, ha, hnil, List.nil_append, ht, Bool.false_eq_true, if_false]
    cases ys with
    | nil => rfl
    | cons c ys => simp [joinNext, hys c rfl]

theorem add32_sub32_cancel {a b c : Nat} (hb : b ≤ 2 ^ 32) : add32 (add32 a b) (sub32 c b) = add32 a c := by
  unfold sub32 add32
  omega

/-- With padding: the padding, the block and what was split off are the entry they came from, whatever wrapped. -/
theorem undone_padded (ys : List Entry) (hst : e.start = e.addr + 24) (hav : e.available) (hlt : e.start < 2 ^ 32)
    (hez : e.size < 2 ^ 32) (hoff : 96 ≤ off) (hoff' : off < 2 ^ 32) (hsize : size < 2 ^ 32)
    (hs : 96 < sub32 e.size size) :
    ∃ f t, e.front off = [f] ∧ f.addr = e.addr ∧ f.available ∧ e.tail off size = [t] ∧ t.available ∧
      freeEntry f (e.taken off size) (t :: ys) = e :: ys := by
  have h1 : add32 e.addr 24 = e.start := by rw [add32_eq (by omega), hst]
  have h2 : sub32 (add32 (add32 (add32 (add32 e.start off) size) 24) (sub32 (sub32 (sub32 e.size off) size) 24))
      e.start = e.size := by
    rw [add32_sub32_cancel (by decide), add32_sub32_cancel hsize.le, add32_sub32_cancel hoff'.le, sub32_add32 hlt hez]
  have he : ({ addr := e.addr, start := e.start, size := e.size, available := true } : Entry) = e := by
    rw [← hav]
  refine ⟨_, _, if_pos hoff, rfl, hav, if_pos hs, rfl, ?_⟩
  simp only [freeEntry, hav, if_true, Entry.taken, if_pos hs, joinNext, Entry.join, h1, h2, he]

/-- The header of a block that is not null lies in front of it. -/
theorem taken_start (hoff : 96 ≤ off) (hp : add32 e.start off ≠ 0) (hN : HeadersApart xs e ys off size) :
    (e.taken off size).start = (e.taken off size).addr + 24 := by
  have hnew := (hN.hdr (e.newAddr off) (List.mem_map_of_mem (a := e.taken off size) (by simp [allocEntry]))).2
  have hlt := add32_lt e.start off
  show add32 e.start off = e.newAddr off + 24
  rw [Entry.newAddr, if_pos hoff] at hnew ⊢
  unfold sub32 at hnew ⊢
  omega

/-- Where the condition holds, freeing a block at once gives back the list. -/
theorem roundTrips_of_undone (dbg : Bool) {es : List Entry} {align : Nat} (ht : Tidy es) (hhi : hi ≤ 2 ^ 32)
    (hsize : size < 2 ^ 32) (ha : 1 ≤ align) (ha' : align < 2 ^ 32)
    (h : ∀ xs e ys, es = xs ++ e :: ys → firstFit es size align = some e →
      NoBlock xs e ys (e.padding align) size ∨ Undone dbg xs e ys (e.padding align) size) :
    RoundTrips dbg lo hi es size align := by
  intro k description p k1 hk hs hw hd hrun hp
  cases hfit : firstFit es size align with
  | none =>
    rw [kmalloc_eq hk, hs, kmalloc_loop_spec hw.represents, hfit] at hrun
    cases hrun
    exact absurd rfl hp
  | some e =>
    have hfind := hfit
    rw [firstFit, List.find?_eq_some_iff_append] at hfind
    obtain ⟨hfits, xs, ys, rfl, -⟩ := hfind
    simp only [Entry.fits, Bool.and_eq_true, decide_eq_true_eq] at hfits
    obtain ⟨hav, hfits⟩ := hfits
    rcases h xs e ys rfl hfit with hno | ⟨hys, hcases⟩
    · -- no block comes back
      rw [kmalloc_eq hk, hs, kmalloc_loop_spec hw.represents, hfit] at hrun
      cases halloc : alloc_entry e.addr (e.padding align) size description k.ram with
      | error f =>
        simp only [halloc] at hrun
        cases hrun
      | ok pr =>
        simp only [halloc] at hrun
        cases hrun
        exact absurd (alloc_entry_noBlock hw.represents hsize hd hno halloc) hp
    · have hst := ht.behind e (by simp) hav
      have hez := hw.represents.size_lt (e := e) (by simp)
      obtain ⟨c, zs, rfl⟩ := List.exists_cons_of_ne_nil hys
      have hlt : e.start + e.size < 2 ^ 32 := by
        have hc := hw.represents.addr_le (e := c) (by simp)
        have hend := hw.stop_le_addr (c := c) (by simp)
        omega
      have hc := ht.after hav
      rcases hcases with ⟨hoff, hxs, hz⟩ | ⟨hoff, hz, hsplit, hN, hdbg⟩
      · have hle : size ≤ e.size := by
          rw [hoff, add32_eq (by omega)] at hfits
          omega
        have hN : HeadersApart xs e (c :: zs) (e.padding align) size :=
          headersApart_of_room hw ht hhi ha ha' hav (by omega) (by omega)
        have hbehind := addr_lt_behind hw hhi hst hfits hN
        obtain ⟨r, hk1, hr, -, -⟩ := kmalloc_taken hk hs hw hsize hd hfit hN
        rw [hoff] at hk1 hr hbehind
        rw [hk1] at hrun
        cases hrun
        obtain ⟨ws, a, rfl⟩ := (List.eq_nil_or_concat xs).resolve_left hxs
        have haddr : e.newAddr 0 = e.addr := if_neg (by decide)
        have hae : a.addr < e.addr := (List.pairwise_append.1 hw.increasing).2.2 a (by simp) e (by simp)
        have hlist : ws.concat a ++ allocEntry e 0 size ++ c :: zs =
            ws ++ a :: e.taken 0 size :: (e.tail 0 size ++ c :: zs) := by
          simp [allocEntry, Entry.front]
        rw [hlist] at hr
        rw [List.concat_eq_append, List.append_assoc] at ht
        have hsub : sub32 e.size size = e.size - size := sub32_eq (by omega) hle
        have hstart : (e.taken 0 size).start = (e.taken 0 size).addr + 24 := by
          show add32 e.start 0 = e.newAddr 0 + 24
          rw [haddr, add32_eq (by omega)]
          exact hst
        have htsize : (e.taken 0 size).size ≠ 0 := by
          show (if 96 < sub32 e.size size then size else e.size) ≠ 0
          rw [hsub]
          split <;> omega
        obtain ⟨d, ds, hd, hlast⟩ : ∃ d ds, e.tail 0 size ++ c :: zs = d :: ds ∧ (d.available → ds ≠ []) := by
          by_cases hs : 96 < sub32 e.size size
          · exact ⟨_, c :: zs, by rw [Entry.tail, if_pos hs]; rfl, fun _ => by simp⟩
          · exact ⟨c, zs, by rw [Entry.tail, if_neg hs]; rfl, fun h => absurd h hc⟩
        rw [hd] at hr hbehind
        have hed : (e.taken 0 size).addr < d.addr := by
          show e.newAddr 0 < d.addr
          rw [haddr]
          exact hbehind d (by simp)
        have hat : a.addr < (e.taken 0 size).addr := by
          show a.addr < e.newAddr 0
          rwa [haddr]
        obtain ⟨r2, hfree, hr2⟩ := kfree_inner dbg hr rfl hstart htsize hlast fun _ => .of_lt ⟨hat, hed⟩
        rw [← hd, undone_plain hst hav (ht.before hav) hlt hle (by simpa using hc)] at hr2
        refine ⟨_, hfree, ?_⟩
        rw [hr2.entries_eq (k := (k.settle r).settle r2) hs]
        simp
      · obtain ⟨r, hk1, hr, -, -⟩ := kmalloc_taken hk hs hw hsize hd hfit hN
        have hbehind := addr_lt_behind hw hhi hst hfits hN
        rw [hk1] at hrun
        cases hrun
        have hstart := taken_start hoff hp hN
        obtain ⟨f, t, hf, hfa, hfav, htail, htav, hundo⟩ :=
          undone_padded (c :: zs) hst hav (by omega) hez hoff (sub32_lt _ _) hsize hsplit
        have hlist : xs ++ allocEntry e (e.padding align) size ++ c :: zs =
            xs ++ f :: e.taken (e.padding align) size :: (t :: c :: zs) := by
          simp [allocEntry, hf, htail]
        rw [hlist] at hr
        rw [htail] at hbehind
        have htsize : (e.taken (e.padding align) size).size ≠ 0 := by
          show (if 96 < sub32 e.size size then size else e.size) ≠ 0
          rwa [if_pos hsplit]
        have hlt : dbg → InOrder (some f) (e.taken (e.padding align) size) (some t) := by
          rintro hd x ⟨⟩
          refine ⟨by rw [hfa]; exact hdbg hd, ?_⟩
          rintro y ⟨⟩
          rw [if_pos hfav, hfa]
          exact hbehind t (by simp)
        obtain ⟨r2, hfree, hr2⟩ := kfree_inner dbg hr rfl hstart htsize (fun _ => by simp) hlt
        rw [hundo] at hr2
        exact ⟨_, hfree, hr2.entries_eq (k := (k.settle r).settle r2) hs⟩

end

/-! ## And nothing else is -/

instance (as : List Nat) (b : Nat) : Decidable (InHdr as b) :=
  inferInstanceAs (Decidable (∃ a ∈ as, a ≤ b ∧ b < a + 24))

/-- The headers at `as`, and zeros everywhere else. -/
def bareRam (r : Ram) (as : List Nat) : Ram where
  bytes b := if InHdr as b then r.bytes b else 0
  stores := r.stores

theorem bareRam_writes (r : Ram) (as : List Nat) : Ram.Writes (fun b => ¬ InHdr as b) r (bareRam r as) where
  stored := ⟨[], rfl, by simp⟩
  kept b _ hb := if_pos (not_not.1 hb)

/-- An unlocked heap that starts at `lo` and holds nothing but the headers at `as`. -/
def bareHeap (r : Ram) (lo : Nat) (as : List Nat) : Kheap where
  ram := bareRam r as
  heap_mtx := { locked := 0, waiting := [] }
  heap_start := lo

/-- A header whose `previous` is null: `kfree` follows it. -/
theorem kfree_entry_fake {r : Ram} {p : Nat} (dbg : Bool) (hp : p ≠ 0) (hp' : p + 24 ≤ 2 ^ 32)
    (h0 : field r p .previous = 0) : kfree_entry dbg p r = .error .nullDeref := by
  have hN : Nodes [p] := ⟨by simp [hp]; omega, by simp⟩
  have hm : p ∈ [p] := by simp
  have hprev : field (setField (setField r p .available 1) p .description 0) p .previous = 0 := by
    rw [hN.field_setField hm hm (by decide), if_neg (by simp), hN.field_setField hm hm (by decide),
      if_neg (by simp), h0]
  unfold kfree_entry merge_previous
  rw [Exec.bind_of_ok (store_eq hp _ _ _), Exec.bind_of_ok (store_eq hp _ _ _)]
  apply Exec.bind_of_error
  rw [Exec.bind_of_ok (load_eq hp _ _), hprev]
  exact Exec.bind_of_error rfl

section
variable {lo hi : Nat} {xs ys : List Entry} {e : Entry} {off size : Nat}

/-- While the block is taken, the list is not the one before. -/
theorem allocEntry_ne (hav : e.available) : xs ++ allocEntry e off size ++ ys ≠ xs ++ e :: ys := by
  intro h
  rw [List.append_assoc, List.append_cancel_left_eq, allocEntry] at h
  by_cases hoff : 96 ≤ off
  · have := congrArg List.length h
    simp [Entry.front, hoff] at this
    omega
  · simp only [Entry.front, if_neg hoff, List.nil_append, List.cons_append, List.cons.injEq] at h
    rw [← h.1] at hav
    cases hav

/-- The header `kfree` reads in the middle of the block has a null link. -/
theorem shifted_previous {r r' : Ram} (hbefore : ∀ x ∈ xs, x.addr < e.addr)
    (hw : Ram.Writes (InHdr ((xs ++ allocEntry e off size ++ ys).map Entry.addr))
      (bareRam r' ((xs ++ e :: ys).map Entry.addr)) r)
    (hd : field r (e.newAddr off) .description = 0) (hst : e.start = e.addr + 24) (h4 : 4 ≤ off) (h96 : off < 96)
    (hlt : e.start + off < 2 ^ 32) (hbehind : ∀ c ∈ e.tail off size ++ ys, e.start + off ≤ c.addr) :
    field r (e.addr + off) .previous = 0 := by
  have haddr : e.newAddr off = e.addr := if_neg (by omega)
  have hlist : xs ++ allocEntry e off size ++ ys = xs ++ e.taken off size :: (e.tail off size ++ ys) := by
    have hf : e.front off = [] := if_neg (by omega)
    simp [allocEntry, hf]
  rw [hlist] at hw
  rw [haddr] at hd
  -- no header lies between the one of `e` and the block
  have hfree : ∀ b, e.addr + 24 ≤ b → b < e.start + off →
      ¬ InHdr ((xs ++ e.taken off size :: (e.tail off size ++ ys)).map Entry.addr) b := by
    rintro b hb1 hb2 ⟨a, ha, h1, h2⟩
    obtain ⟨x, hx, rfl⟩ := List.mem_map.1 ha
    rcases List.mem_append.1 hx with hx | hx
    · have hlt' := hbefore x hx
      omega
    · rcases List.mem_cons.1 hx with rfl | hx
      · have htaken : (e.taken off size).addr = e.addr := haddr
        omega
      · have := hbehind x hx
        omega
  have hold : ∀ b, InHdr ((xs ++ e :: ys).map Entry.addr) b →
      InHdr ((xs ++ e.taken off size :: (e.tail off size ++ ys)).map Entry.addr) b := fun b hb =>
    hb.sub (by simp [show (e.taken off size).addr = e.addr from haddr])
  have hzero : ∀ b, e.addr + 24 ≤ b → b < e.start + off → r.bytes b = 0 := fun b hb1 hb2 => by
    have hn := hfree b hb1 hb2
    rw [hw.kept b (by omega) hn]
    exact if_neg fun hb => hn (hold b hb)
  have hdesc : ∀ b, e.addr + 20 ≤ b → b < e.addr + 24 → r.bytes b = 0 := fun b hb1 hb2 => by
    rw [field, Field.off, add32_eq (by omega)] at hd
    exact (read32_eq_zero r.bytes (by omega)).1 hd b hb1 (by omega)
  rw [field, Field.off, add32_eq (by omega)]
  refine (read32_eq_zero r.bytes (by omega)).2 fun b hb1 hb2 => ?_
  by_cases hb : b < e.addr + 24
  · exact hdesc b (by omega) hb
  · exact hzero b (by omega) (by omega)

/-- A block `kfree` gives back through its own header has a size, and no null link was met. -/
theorem kfree_entry_of_entries {dbg : Bool} {k k2 : Kheap} {r : Ram} (hs : k.heap_start = lo) (hav : e.available)
    (hr : Represents r lo (xs ++ allocEntry e off size ++ ys))
    (hst : (e.taken off size).start = (e.taken off size).addr + 24)
    (hfree : kfree dbg (e.taken off size).start (k.settle r) = .ok ((), k2)) (hent : k2.entries = xs ++ e :: ys) :
    (e.taken off size).size ≠ 0 ∧ ∃ r', kfree_entry dbg (e.taken off size).addr r = .ok ((), r') := by
  have hlist : xs ++ allocEntry e off size ++ ys =
      (xs ++ e.front off) ++ e.taken off size :: (e.tail off size ++ ys) := by simp [allocEntry]
  have hr' := hr
  rw [hlist] at hr'
  rw [kfree_taken hr' rfl hst] at hfree
  by_cases hz : (e.taken off size).size = 0
  · rw [if_pos hz] at hfree
    cases hfree
    rw [hr.entries_eq (k := (k.settle r).settle r) hs] at hent
    exact absurd hent (allocEntry_ne hav)
  · rw [if_neg hz] at hfree
    cases hentry : kfree_entry dbg (e.taken off size).addr r with
    | ok ur => exact ⟨hz, ur.2, rfl⟩
    | error f =>
      simp only [hentry] at hfree
      cases hfree

theorem ys_ne_nil {zs : List Entry} (h : Inner zs (e.tail off size ++ ys)) : ys ≠ [] := by
  rintro rfl
  obtain ⟨-, c, zs', htail, hlast⟩ := h
  rw [List.append_nil] at htail
  by_cases hs : 96 < sub32 e.size size
  · rw [Entry.tail, if_pos hs, List.cons.injEq] at htail
    obtain ⟨rfl, rfl⟩ := htail
    exact hlast rfl rfl
  · rw [Entry.tail, if_neg hs] at htail
    cases htail

/-- Padding split off and nothing behind the block: the padding is counted in the size recorded for
the block, and again when the two are joined. -/
theorem oversized {dbg : Bool} {k k2 : Kheap} {r : Ram} {f c : Entry} {zs : List Entry} (hst : e.start = e.addr + 24)
    (hlt : e.start < 2 ^ 32) (hoff : 96 ≤ off) (hoff' : off < 2 ^ 32) (hns : ¬ 96 < sub32 e.size size)
    (hf : e.front off = [f]) (hfa : f.addr = e.addr) (hfav : f.available) (hc : ¬ c.available)
    (hr : Represents r lo (xs ++ allocEntry e off size ++ c :: zs)) (hz : (e.taken off size).size ≠ 0)
    (hstart : (e.taken off size).start = (e.taken off size).addr + 24)
    (hord : dbg → InOrder (some f) (e.taken off size) (some c)) (hs : k.heap_start = lo)
    (hfree : kfree dbg (e.taken off size).start (k.settle r) = .ok ((), k2))
    (hent : k2.entries = xs ++ e :: c :: zs) : False := by
  have htail : e.tail off size = [] := if_neg hns
  have hlist : xs ++ allocEntry e off size ++ c :: zs = xs ++ f :: e.taken off size :: c :: zs := by
    simp [allocEntry, hf, htail]
  rw [hlist] at hr
  obtain ⟨r2, hfree', hr2⟩ := kfree_inner dbg hr rfl hstart hz (fun h => absurd h hc) hord
  rw [hfree'] at hfree
  cases hfree
  rw [hr2.entries_eq (k := (k.settle r).settle r2) hs] at hent
  simp only [freeEntry, hfav, if_true, joinNext, hc, Bool.false_eq_true, if_false, List.append_cancel_left_eq,
    List.cons.injEq] at hent
  have hsz : sub32 (add32 (add32 e.start off) (e.taken off size).size) (add32 f.addr 24) = e.size :=
    congrArg Entry.size hent.1
  have htsize : (e.taken off size).size = e.size := if_neg hns
  have h24 : add32 f.addr 24 = e.start := by rw [hfa, add32_eq (by omega), hst]
  rw [htsize, h24] at hsz
  unfold sub32 add32 at hsz
  omega

/-- Where the new headers have room, the list is given back only under the condition. -/
theorem undone_of_roundTrips {dbg : Bool} {align : Nat} {k0 : Kheap} (hw0 : WellFormed k0.ram lo hi (xs ++ e :: ys))
    (ht : Tidy (xs ++ e :: ys)) (hhi : hi ≤ 2 ^ 32) (hsize : size < 2 ^ 32)
    (hfit : firstFit (xs ++ e :: ys) size align = some e) (hreg : Regular xs e ys (e.padding align) size)
    (hrt : RoundTrips dbg lo hi (xs ++ e :: ys) size align) :
    NoBlock xs e ys (e.padding align) size ∨ Undone dbg xs e ys (e.padding align) size := by
  obtain ⟨hN, hshift⟩ := hreg
  have hfits := List.find?_some hfit
  simp only [Entry.fits, Bool.and_eq_true, decide_eq_true_eq] at hfits
  obtain ⟨hav, hfits⟩ := hfits
  have hst := ht.behind e (by simp) hav
  have he0 := hw0.represents.addr_ne (e := e) (by simp)
  have hlt := hw0.represents.start_lt (e := e) (by simp)
  have hez := hw0.represents.size_lt (e := e) (by simp)
  have hstop := hw0.stop_le (e := e) (by simp)
  have hoff32 : e.padding align < 2 ^ 32 := sub32_lt _ _
  have hbehind := addr_lt_behind hw0 hhi hst hfits hN
  have hbefore : ∀ x ∈ xs, x.addr < e.addr := fun x hx =>
    (List.pairwise_append.1 hw0.increasing).2.2 x hx e (by simp)
  -- the same headers in a memory that holds nothing else
  have hw : WellFormed (bareHeap k0.ram lo ((xs ++ e :: ys).map Entry.addr)).ram lo hi (xs ++ e :: ys) :=
    ⟨hw0.represents.of_writes (bareRam_writes _ _) fun _ hb => hb, hw0.increasing, hw0.start, hw0.tiles⟩
  obtain ⟨r, hk1, hr, hwr, hd⟩ := kmalloc_taken (k := bareHeap k0.ram lo _) rfl rfl hw hsize (by decide : 0 < 2 ^ 32) hfit
    hN
  generalize e.padding align = off at *
  by_cases hp : add32 e.start off = 0
  · exact .inl (.inr (.inr ⟨hN, hp⟩))
  refine .inr ?_
  obtain ⟨k2, hfree, hent⟩ := hrt (bareHeap k0.ram lo ((xs ++ e :: ys).map Entry.addr)) 0 _ _ rfl rfl hw
    (by decide) hk1 hp
  have htsize : (e.taken off size).size = if 96 < sub32 e.size size then size else e.size := rfl
  by_cases hsmall : 0 < off ∧ off < 96
  · exfalso
    obtain ⟨h4, hwrap⟩ : 4 ≤ off ∧ off + size < 2 ^ 32 := by omega
    rw [add32_eq (by omega)] at hfits
    have hsum : e.start + off < 2 ^ 32 := by
      unfold add32 at hp
      omega
    have hp' : add32 e.start off = e.start + off := add32_eq hsum
    have hback : ∀ c ∈ e.tail off size ++ ys, e.start + off ≤ c.addr := by
      intro c hc
      have hec := hbehind c hc
      rcases List.mem_append.1 hc with hc | hc
      · by_cases hs : 96 < sub32 e.size size
        · rw [Entry.tail, if_pos hs, List.mem_singleton] at hc
          rw [hc] at hec ⊢
          have hec' : e.addr < add32 (add32 e.start off) size := hec
          show e.start + off ≤ add32 (add32 e.start off) size
          rw [hp'] at hec' ⊢
          unfold add32 at hec' ⊢
          omega
        · simp [Entry.tail, hs] at hc
      · have := hw0.stop_le_addr hc
        omega
    have hprev := shifted_previous hbefore hwr hd hst h4 hsmall.2 hsum hback
    have hk := kfree_eq (k := (bareHeap k0.ram lo ((xs ++ e :: ys).map Entry.addr)).settle r) rfl dbg
      (show 24 < e.start + off by omega) hsum
    rw [hp', hk, show e.start + off - 24 = e.addr + off by omega] at hfree
    split at hfree
    · cases hfree
      rw [hr.entries_eq rfl] at hent
      exact allocEntry_ne hav hent
    · have hfake : kfree_entry dbg (e.addr + off)
          ((bareHeap k0.ram lo ((xs ++ e :: ys).map Entry.addr)).settle r).ram = .error .nullDeref :=
        kfree_entry_fake dbg (by omega) (by omega) hprev
      rw [hfake] at hfree
      cases hfree
  have hlist : xs ++ allocEntry e off size ++ ys =
      (xs ++ e.front off) ++ e.taken off size :: (e.tail off size ++ ys) := by simp [allocEntry]
  have hr' := hr
  rw [hlist] at hr'
  rcases Nat.eq_zero_or_pos off with rfl | hpos
  · -- no padding: the header stays where it is
    have haddr : (e.taken 0 size).addr = e.addr := by
      show e.newAddr 0 = e.addr
      exact if_neg (by decide)
    have hstart : (e.taken 0 size).start = (e.taken 0 size).addr + 24 := by
      rw [haddr]
      show add32 e.start 0 = _
      rw [add32_eq (by omega)]
      exact hst
    obtain ⟨hz, r', hentry⟩ := kfree_entry_of_entries rfl hav hr hstart hfree hent
    have hin : Inner (xs ++ e.front 0) (e.tail 0 size ++ ys) := by
      by_contra hin
      rw [kfree_entry_null hr' hin fun _ => ?_] at hentry
      · cases hentry
      · intro x hx
        have hxe : x.addr < e.addr := hbefore x (by simpa [Entry.front] using List.mem_of_mem_getLast? hx)
        refine ⟨by rwa [haddr], fun y hy => ?_⟩
        have hey := hbehind y (List.mem_of_mem_head? hy)
        rw [haddr]
        split
        · exact hxe.trans hey
        · exact hey
    refine ⟨ys_ne_nil hin, .inl ⟨rfl, by simpa [Entry.front] using hin.1, ?_⟩⟩
    rw [add32_eq (by omega)] at hfits
    rw [htsize, sub32_eq hez (by omega)] at hz
    split at hz <;> omega
  · have h96 : 96 ≤ off := by omega
    have hstart := taken_start h96 hp hN
    obtain ⟨hz, r', hentry⟩ := kfree_entry_of_entries rfl hav hr hstart hfree hent
    obtain ⟨f, hf, hfa, hfav⟩ : ∃ f, e.front off = [f] ∧ f.addr = e.addr ∧ f.available := ⟨_, if_pos h96, rfl, hav⟩
    have hrf : Represents r lo (xs ++ f :: e.taken off size :: (e.tail off size ++ ys)) := by
      rw [hf, List.append_assoc] at hr'
      exact hr'
    have hdbg : dbg → e.addr < e.newAddr off := by
      rintro rfl
      by_contra hnot
      rw [kfree_entry_panic hrf hfav (by rw [hfa]; exact hnot)] at hentry
      cases hentry
    have hord : ∀ c ∈ (e.tail off size ++ ys).head?, dbg → InOrder (some f) (e.taken off size) (some c) := by
      rintro c hc hd x ⟨⟩
      refine ⟨by rw [hfa]; exact hdbg hd, ?_⟩
      rintro y ⟨⟩
      rw [if_pos hfav, hfa]
      exact hbehind c (List.mem_of_mem_head? hc)
    have hin : Inner (xs ++ e.front off) (e.tail off size ++ ys) := by
      by_contra hin
      rw [kfree_entry_null hr' hin fun hd => ?_] at hentry
      · cases hentry
      · rw [hf, List.getLast?_concat]
        rintro x ⟨⟩
        exact ⟨by rw [hfa]; exact hdbg hd, fun _ hy => (hord _ hy hd _ rfl).2 _ rfl⟩
    have hys := ys_ne_nil hin
    refine ⟨hys, .inr ?_⟩
    by_cases hs : 96 < sub32 e.size size
    · rw [htsize, if_pos hs] at hz
      exact ⟨h96, hz, hs, hN, hdbg⟩
    · exfalso
      obtain ⟨c, zs, rfl⟩ := List.exists_cons_of_ne_nil hys
      exact oversized hst hlt h96 hoff32 hs hf hfa hfav (ht.after hav) hr hz hstart
        (hord c (by simp [Entry.tail, hs])) rfl hfree hent

end

/-! ## Both directions -/

/-- `kfree` can undo what `kmalloc(size, align)` does to the entry it takes from `es`, or there is no block to free. -/
def UndoneFit (dbg : Bool) (es : List Entry) (size align : Nat) : Prop :=
  ∀ xs e ys, es = xs ++ e :: ys → firstFit es size align = some e →
    NoBlock xs e ys (e.padding align) size ∨ Undone dbg xs e ys (e.padding align) size

/-- `kmalloc` followed by `kfree` gives the list back where `UndoneFit` holds, and, as far as the new headers have
room, only there. -/
theorem kmalloc_kfree (dbg : Bool) {lo hi : Nat} {k0 : Kheap} {es : List Entry} {size align : Nat}
    (hw : WellFormed k0.ram lo hi es) (ht : Tidy es) (hhi : hi ≤ 2 ^ 32) (hsize : size < 2 ^ 32) (ha : 1 ≤ align)
    (ha' : align < 2 ^ 32) :
    (UndoneFit dbg es size align → RoundTrips dbg lo hi es size align) ∧
      ((∀ xs e ys, es = xs ++ e :: ys → firstFit es size align = some e → Regular xs e ys (e.padding align) size) →
        RoundTrips dbg lo hi es size align → UndoneFit dbg es size align) := by
  refine ⟨roundTrips_of_undone dbg ht hhi hsize ha ha', ?_⟩
  rintro hreg hrt xs e ys rfl hfit
  exact undone_of_roundTrips hw ht hhi hsize hfit (hreg xs e ys rfl hfit) hrt

/-- The list of a new heap. -/
theorem new_heap_wellFormed {lo size : Nat} {k k0 : Kheap} (h24 : 24 ≤ size) (hle : lo + size ≤ 2 ^ 32)
    (hlo : lo + 24 < 2 ^ 32) (h : setup_heap lo size k = .ok ((), k0)) :
    WellFormed k0.ram lo (lo + size) [⟨lo, lo + 24, size - 24, true⟩] := by
  obtain ⟨-, -, -, hr⟩ := setup_heap_spec h24 hle h
  rw [add32_eq hlo] at hr
  exact ⟨hr, by simp, by simp, ⟨rfl, _, by show lo + 24 + (size - 24) = _; omega, rfl⟩⟩

theorem single_tidy {lo size : Nat} : Tidy [⟨lo, lo + 24, size, true⟩] := ⟨by simp, .singleton _⟩

/-! ## Between two gaps -/

/-- Five blocks, the second and the fourth given back. -/
def gaps : Exec Kheap Unit := do
  setup_heap 0x1000 0x1000
  let _ ← kmalloc 100 1 0
  let b ← kmalloc 100 1 0
  let _ ← kmalloc 100 1 0
  let d ← kmalloc 100 1 0
  let _ ← kmalloc 100 1 0
  kfree true b
  kfree true d

def gapHeap : Kheap :=
  match gaps blank with
  | .ok (_, k) => k
  | .error _ => blank

def gapEntries : List Entry :=
  [⟨0x1000, 0x1018, 100, false⟩, ⟨0x107c, 0x1094, 100, true⟩, ⟨0x10f8, 0x1110, 100, false⟩, ⟨0x1174, 0x118c, 100, true⟩,
    ⟨0x11f0, 0x1208, 100, false⟩, ⟨0x126c, 0x1284, 3452, true⟩]

theorem gapHeap_wellFormed : WellFormed gapHeap.ram 0x1000 0x2000 gapEntries := by
  refine ⟨⟨⟨by decide, ?_⟩, ⟨0x126c, ?_⟩, by decide +kernel⟩, by decide, by decide, ?_⟩
  · unfold Apart
    decide
  · simp only [gapEntries, List.map_cons, List.map_nil, Dll]
    decide +kernel
  · exact ⟨rfl, _, rfl, rfl, _, rfl, rfl, _, rfl, rfl, _, rfl, rfl, _, rfl, rfl, _, rfl, rfl⟩

theorem gapEntries_tidy : Tidy gapEntries := by
  refine ⟨by decide, ?_⟩
  simp [gapEntries]

/-- An address says where the list is cut. -/
theorem split_gapEntries {xs ys : List Entry} {e : Entry} (h : gapEntries = xs ++ e :: ys) (he : e.addr = 0x107c) :
    xs = gapEntries.take 1 ∧ ys = gapEntries.drop 2 := by
  have hnodup : gapEntries.Pairwise fun a b => a.addr < b.addr := gapHeap_wellFormed.increasing
  have hlen : xs.length = 1 := by
    have hi : ∀ i (hi : i < gapEntries.length), gapEntries[i].addr = 0x107c → i = 1 := by decide
    have hx : xs.length < gapEntries.length := by simp [h]
    refine hi _ hx ?_
    simp only [h, List.getElem_append_right le_rfl, Nat.sub_self, List.getElem_cons_zero]
    exact he
  have htake : gapEntries.take 1 = xs := by
    rw [h, ← hlen, List.take_left]
  have hdrop : gapEntries.drop 2 = ys := by
    rw [h, show 2 = xs.length + 1 by omega, List.drop_append]
    simp
  exact ⟨htake.symm, hdrop.symm⟩

/-- The first gap is filled and given back: by a block as large as it is, and by one so large that the sum wraps, with
the new headers in the gap. -/
theorem kmalloc_kfree_gap : RoundTrips true 0x1000 0x2000 gapEntries 100 1 ∧
    RoundTrips true 0x1000 0x2000 gapEntries (2 ^ 32 - 60) 0x87c := by
  refine ⟨(kmalloc_kfree true gapHeap_wellFormed gapEntries_tidy (by decide) (by decide) (by decide) (by decide)).1 ?_,
    (kmalloc_kfree true gapHeap_wellFormed gapEntries_tidy (by decide) (by decide) (by decide) (by decide)).1 ?_⟩
  · intro xs e ys h hfit
    obtain rfl : (⟨0x107c, 0x1094, 100, true⟩ : Entry) = e := Option.some.inj hfit
    obtain ⟨rfl, rfl⟩ := split_gapEntries h rfl
    exact .inr ⟨by decide, .inl ⟨by decide, by decide, by decide⟩⟩
  · intro xs e ys h hfit
    obtain rfl : (⟨0x107c, 0x1094, 100, true⟩ : Entry) = e := Option.some.inj hfit
    obtain ⟨rfl, rfl⟩ := split_gapEntries h rfl
    refine .inr ⟨by decide, .inr ⟨by decide, by decide, by decide, ⟨by decide, ?_⟩, by decide⟩⟩
    unfold Apart
    decide

/-- A block with 40 bytes of padding: `kfree` looks for its header in the middle of the padding, takes
the pointer for invalid, and the block is lost. -/
theorem padded_block_lost :
    ∃ k0 : Kheap, WellFormed k0.ram 0x1000 0x2000 [⟨0x1000, 0x1018, 4072, true⟩] ∧ Tidy [⟨0x1000, 0x1018, 4072, true⟩] ∧
      ¬ RoundTrips false 0x1000 0x2000 [⟨0x1000, 0x1018, 4072, true⟩] 100 64 := by
  have hrun : ((do
      setup_heap 0x1000 0x1000
      let p ← kmalloc 100 64 0
      kfree false p
      let k ← get
      pure (p, k.entries)) blank).map Prod.fst =
        .ok (0x1040, [⟨0x1000, 0x1040, 100, false⟩, ⟨0x10a4, 0x10bc, 3908, true⟩]) := by decide +kernel
  obtain ⟨k3, h⟩ := Exec.exists_of_map hrun
  obtain ⟨_, k0, h0, h⟩ := Exec.bind_ok.1 h
  obtain ⟨p, k1, h1, h⟩ := Exec.bind_ok.1 h
  obtain ⟨_, k2, h2, h⟩ := Exec.bind_ok.1 h
  obtain ⟨k, k2', hget, h⟩ := Exec.bind_ok.1 h
  cases hget
  injection h with h
  injection h with hpair _
  injection hpair with hp hentries
  subst hp
  have hw := new_heap_wellFormed (by decide) (by decide) (by decide) h0
  obtain ⟨-, hstart, hk, -⟩ := setup_heap_spec (by decide) (by decide) h0
  refine ⟨k0, hw, single_tidy, fun hrt => ?_⟩
  obtain ⟨k2', hfree, hent⟩ := hrt k0 0 _ k1 hk hstart hw (by decide) h1 (by decide)
  rw [hfree] at h2
  cases h2
  rw [hent] at hentries
  cases hentries

end Ulmix.Heap

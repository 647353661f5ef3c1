import Ulmix.Memory.Headers
/-!
# The list of entries

`Represents r lo es`: in the memory `r`, following `next` from `lo` visits the
entries `es`, linked both ways, with their headers apart from each other. A
store to a field changes one entry, a new header adds one, and bytes outside
the headers do not matter.
-/
open Ulmix.Lib Ulmix.Sync

namespace Ulmix.Heap

/-! ## Entries -/

/-- What a header says about its block. -/
structure Entry where
  addr : Nat
  start : Nat
  size : Nat
  available : Bool
  deriving DecidableEq, Repr

/-- The entry whose header is at `p`. -/
def entryAt (r : Ram) (p : Nat) : Entry where
  addr := p
  start := field r p .start
  size := field r p .size
  available := field r p .available ≠ 0

/-- Follow `next` from `p`, through at most `fuel` headers. -/
def walk (r : Ram) : Nat → Nat → List Entry
  | 0, _ => []
  | fuel + 1, p => if p = 0 then [] else entryAt r p :: walk r fuel (field r p .next)

/-- The entry list of the heap: there are no more than `2 ^ 32` headers. -/
def Kheap.entries (k : Kheap) : List Entry := walk k.ram (2 ^ 32) k.heap_start

/-- The list that starts at `lo` consists of the entries `es`. -/
structure Represents (r : Ram) (lo : Nat) (es : List Entry) : Prop where
  nodes : Nodes (es.map Entry.addr)
  linked : Linked r lo (es.map Entry.addr)
  holds : ∀ e ∈ es, entryAt r e.addr = e

/-- A field other than the links is set. -/
def Entry.set (e : Entry) (f : Field) (v : Nat) : Entry :=
  match f with
  | .available => { e with available := v ≠ 0 }
  | .size => { e with size := v }
  | .start => { e with start := v }
  | _ => e

@[simp] theorem Entry.set_addr (e : Entry) (f : Field) (v : Nat) : (e.set f v).addr = e.addr := by
  cases f <;> rfl

@[simp] theorem entryAt_addr (r : Ram) (p : Nat) : (entryAt r p).addr = p := rfl

/-- Entries are read from the fields that are not links. -/
theorem entryAt_congr {r r' : Ram} {p : Nat} (h : ∀ f, f.isLink = false → field r' p f = field r p f) :
    entryAt r' p = entryAt r p := by
  simp only [entryAt, h .start rfl, h .size rfl, h .available rfl]

theorem Nodes.length_lt {as : List Nat} (h : Nodes as) : as.length < 2 ^ 32 := by
  have hs : as.toFinset ⊆ (Finset.range (2 ^ 32)).erase 0 := fun a ha => by
    have := h.hdr a (List.mem_toFinset.1 ha)
    simp only [Finset.mem_erase, Finset.mem_range]
    omega
  have hc := Finset.card_le_card hs
  rw [List.toFinset_card_of_nodup h.nodup, Finset.card_erase_of_mem (by simp), Finset.card_range] at hc
  omega

theorem walk_of_dll {r : Ram} {fuel p c l : Nat} {es : List Entry}
    (hd : Dll (nextOf r) (previousOf r) p c (es.map Entry.addr) l 0) (h0 : ∀ e ∈ es, e.addr ≠ 0)
    (hh : ∀ e ∈ es, entryAt r e.addr = e) (hf : es.length < fuel) : walk r fuel c = es := by
  induction es generalizing fuel p c with
  | nil =>
    obtain ⟨fuel, rfl⟩ := Nat.exists_eq_add_of_lt hf
    obtain ⟨-, rfl⟩ := hd
    rfl
  | cons e es ih =>
    obtain ⟨fuel, rfl⟩ : ∃ n, fuel = n + 1 := ⟨fuel - 1, by simp at hf; omega⟩
    obtain ⟨rfl, -, hd⟩ := hd
    rw [walk, if_neg (h0 e (by simp)), hh e (by simp)]
    exact congrArg _ (ih hd (fun e he => h0 e (by simp [he])) (fun e he => hh e (by simp [he])) (by simpa using hf))

namespace Represents

variable {r r' : Ram} {lo : Nat} {xs ys es : List Entry} {e : Entry}

theorem walk_eq (h : Represents r lo es) : walk r (2 ^ 32) lo = es := by
  obtain ⟨l, hd⟩ := h.linked
  refine walk_of_dll hd (fun e he => (h.nodes.hdr _ (List.mem_map_of_mem he)).1) h.holds ?_
  simpa using h.nodes.length_lt

theorem entries_eq {k : Kheap} (h : Represents k.ram lo es) (hs : k.heap_start = lo) : k.entries = es := by
  rw [Kheap.entries, hs, h.walk_eq]

theorem addr_ne (h : Represents r lo es) (he : e ∈ es) : e.addr ≠ 0 :=
  (h.nodes.hdr _ (List.mem_map_of_mem he)).1

theorem addr_le (h : Represents r lo es) (he : e ∈ es) : e.addr + 24 ≤ 2 ^ 32 :=
  (h.nodes.hdr _ (List.mem_map_of_mem he)).2

theorem size_eq (h : Represents r lo es) (he : e ∈ es) : field r e.addr .size = e.size :=
  congrArg Entry.size (h.holds e he)

theorem start_eq (h : Represents r lo es) (he : e ∈ es) : field r e.addr .start = e.start :=
  congrArg Entry.start (h.holds e he)

theorem available_iff (h : Represents r lo es) (he : e ∈ es) : field r e.addr .available ≠ 0 ↔ e.available := by
  have := congrArg Entry.available (h.holds e he)
  simp only [entryAt] at this
  rw [← this]
  simp

theorem size_lt (h : Represents r lo es) (he : e ∈ es) : e.size < 2 ^ 32 := h.size_eq he ▸ field_lt _ _ _

theorem start_lt (h : Represents r lo es) (he : e ∈ es) : e.start < 2 ^ 32 := h.start_eq he ▸ field_lt _ _ _

/-- Where `next` of an entry leads: to the first entry behind it. -/
theorem next_eq (h : Represents r lo (xs ++ e :: ys)) :
    field r e.addr .next = (ys.head?.map Entry.addr).getD 0 := by
  have := h.linked
  rw [List.map_append, List.map_cons] at this
  rw [this.next_head, List.head?_map]

/-- Where `previous` of an entry leads: to the last entry before it. -/
theorem previous_eq (h : Represents r lo (xs ++ e :: ys)) :
    field r e.addr .previous = (xs.getLast?.map Entry.addr).getD 0 := by
  have := h.linked
  rw [List.map_append, List.map_cons] at this
  rw [this.previous_last, List.getLast?_map]

/-- Memory that agrees on the headers represents the same list. -/
theorem congr (h : Represents r lo es) (hf : ∀ x ∈ es, ∀ f, field r' x.addr f = field r x.addr f) :
    Represents r' lo es := by
  refine ⟨h.nodes, ?_, fun e he => ?_⟩
  · obtain ⟨l, hd⟩ := h.linked
    refine ⟨l, hd.congr (fun a ha => ?_) (fun a ha => ?_)⟩ <;>
      obtain ⟨e, he, rfl⟩ := List.mem_map.1 ha <;> exact hf e he _
  · rw [← h.holds e he]
    exact entryAt_congr fun f _ => hf e he f

/-- Bytes outside the headers do not matter. -/
theorem of_writes {P : Nat → Prop} (h : Represents r lo es) (hw : Ram.Writes P r r')
    (hP : ∀ b, P b → ¬ InHdr (es.map Entry.addr) b) : Represents r' lo es :=
  h.congr fun _ he f => field_of_writes hw (h.addr_le he)
    (fun b h1 h2 hb => hP b hb ⟨_, List.mem_map_of_mem he, h1, h2⟩) f

/-- A store to a field that is not a link changes that field of one entry. -/
theorem set (h : Represents r lo (xs ++ e :: ys)) {f : Field} (hl : f.isLink = false) {v : Nat} (hv : v < 2 ^ 32) :
    Represents (setField r e.addr f v) lo (xs ++ e.set f v :: ys) := by
  have hmap : (xs ++ e.set f v :: ys).map Entry.addr = (xs ++ e :: ys).map Entry.addr := by simp
  have he : e.addr ∈ (xs ++ e :: ys).map Entry.addr := by simp
  have hfield : ∀ a ∈ (xs ++ e :: ys).map Entry.addr, ∀ g,
      field (setField r e.addr f v) a g = if a = e.addr ∧ g = f then v else field r a g :=
    fun a ha g => h.nodes.field_setField he ha hv f g
  have hother : ∀ e' ∈ xs ++ ys, entryAt (setField r e.addr f v) e'.addr = e' := fun e' he' => by
    have hmem : e' ∈ xs ++ e :: ys := by simp only [List.mem_append, List.mem_cons] at he' ⊢; tauto
    have hne : e'.addr ≠ e.addr := by
      have := h.nodes.nodup
      rw [List.map_append, List.map_cons, List.nodup_middle, List.nodup_cons, ← List.map_append] at this
      exact fun heq => this.1 (heq ▸ List.mem_map_of_mem he')
    rw [entryAt_congr (r := r) fun g _ => by
      rw [hfield _ (List.mem_map_of_mem hmem), if_neg fun hc => hne hc.1]]
    exact h.holds e' hmem
  have hself : entryAt (setField r e.addr f v) (e.set f v).addr = e.set f v := by
    have hs := h.start_eq (e := e) (by simp)
    have hz := h.size_eq (e := e) (by simp)
    have hav := h.available_iff (e := e) (by simp)
    cases f <;> simp_all [entryAt, Entry.set, Field.isLink]
  refine ⟨hmap ▸ h.nodes, ?_, fun e' he' => ?_⟩
  · rw [hmap]
    obtain ⟨l, hd⟩ := h.linked
    refine ⟨l, hd.congr (fun a ha => ?_) (fun a ha => ?_)⟩
    · exact (hfield a ha .next).trans (if_neg fun hc => by rw [← hc.2] at hl; cases hl)
    · exact (hfield a ha .previous).trans (if_neg fun hc => by rw [← hc.2] at hl; cases hl)
  · rcases List.mem_append.1 he' with he' | he'
    · exact hother e' (by simp [he'])
    · rcases List.mem_cons.1 he' with rfl | he'
      · exact hself
      · exact hother e' (by simp [he'])

theorem load_field (h : Represents r lo es) (he : e ∈ es) (f : Field) :
    load e.addr f r = .ok (field r e.addr f, r) := load_eq (h.addr_ne he) f r

/-- `e->f = v` for a field that is not a link: no other field changes. -/
theorem store_field (h : Represents r lo (xs ++ e :: ys)) {f : Field} (hl : f.isLink = false) {v : Nat}
    (hv : v < 2 ^ 32) {as : List Nat} (ha : e.addr ∈ as) :
    ∃ r', store e.addr f v r = .ok ((), r') ∧ Represents r' lo (xs ++ e.set f v :: ys) ∧
      Ram.Writes (InHdr as) r r' ∧
      ∀ x ∈ xs ++ e :: ys, ∀ g, x.addr ≠ e.addr ∨ g ≠ f → field r' x.addr g = field r x.addr g := by
  have he := h.addr_le (e := e) (by simp)
  refine ⟨_, store_eq (h.addr_ne (by simp)) f v r, h.set hl hv, writes_setField ha he f v (.refl _ r), ?_⟩
  intro x hx g hne
  rw [h.nodes.field_setField (by simp) (List.mem_map_of_mem hx) hv, if_neg (by tauto)]

/-- `link_new_entry` puts an entry in behind `a`; what it says is whatever is stored there. -/
theorem link_new_entry (h : Represents r lo (xs ++ e :: ys)) {n : Nat}
    (hN : Nodes (xs.map Entry.addr ++ e.addr :: n :: ys.map Entry.addr)) {as : List Nat}
    (ha : ∀ a ∈ xs.map Entry.addr ++ e.addr :: n :: ys.map Entry.addr, a ∈ as) :
    ∃ r' m, Heap.link_new_entry n e.addr r = .ok (n, r') ∧ m.addr = n ∧
      Represents r' lo (xs ++ e :: m :: ys) ∧ Ram.Writes (InHdr as) r r' ∧
      ∀ x ∈ xs ++ e :: ys, ∀ g, g.isLink = false → field r' x.addr g = field r x.addr g := by
  have hl := h.linked
  rw [List.map_append, List.map_cons] at hl
  obtain ⟨r', hr, hl', hw, hf⟩ := link_new_entry_spec hl hN
  have hframe : ∀ x ∈ xs ++ e :: ys, ∀ g, g.isLink = false → field r' x.addr g = field r x.addr g := by
    intro x hx g hg
    refine hf _ ?_ g hg
    simp only [List.mem_append, List.mem_cons, List.mem_map] at hx ⊢
    rcases hx with hx | rfl | hx
    · exact .inl ⟨x, hx, rfl⟩
    · exact .inr (.inl rfl)
    · exact .inr (.inr (.inr ⟨x, hx, rfl⟩))
  refine ⟨r', entryAt r' n, hr, rfl, ⟨by simpa using hN, by simpa using hl', fun e' he' => ?_⟩, ?_, hframe⟩
  · by_cases hn : e'.addr = n ∧ e' = entryAt r' n
    · rw [hn.2]; rfl
    · have hmem : e' ∈ xs ++ e :: ys := by
        simp only [List.mem_append, List.mem_cons] at he' ⊢
        rcases he' with he' | he' | rfl | he' <;> simp_all
      exact (entryAt_congr (hframe e' hmem)).trans (h.holds e' hmem)
  · exact hw.mono fun b ⟨a, h1, h2⟩ => ⟨a, ha a h1, h2⟩

end Represents

end Ulmix.Heap

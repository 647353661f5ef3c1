import Ulmix.Lib.Exec
import Ulmix.Lib.Dll
import Ulmix.Lib.Word
/-!
# User memory regions (`kernel/memory/mmap.c`)

An address space keeps its regions on a doubly linked list. `mm_mk_region` puts
a region in front unless it meets one already there; since that is all that ever
changes the list, the regions stay disjoint and an address has one region at
most for `mm_find_region` to find.
-/
open Ulmix.Lib

namespace Ulmix.Regions

/-! ## Model -/

structure MmrStruct where
  start : Nat
  end_addr : Nat
  size : Nat
  flags : Nat
  prev_region : Nat
  next_region : Nat

/-- The `mmr_struct`s and the field `user_regions` of the `mm_struct`s, by address. -/
structure Vma where
  mmr : Nat → MmrStruct
  user_regions : Nat → Nat
  /-- How often `kmalloc` was called. -/
  kmallocs : Nat

/-- What the `i`-th call of `kmalloc` returns, `0` for none. -/
abbrev Kmalloc := Nat → Nat → Nat → Nat

def kmalloc (h : Kmalloc) (size align : Nat) : Exec Vma Nat := do
  let s ← get
  set { s with kmallocs := s.kmallocs + 1 }
  pure (h s.kmallocs size align)

/-- `*p` -/
def load_mmr (p : Nat) : Exec Vma MmrStruct := do
  if p = 0 then Exec.fault .nullDeref
  else
    let s ← get
    pure (s.mmr p)

/-- `p->… = …` -/
def store_mmr (p : Nat) (f : MmrStruct → MmrStruct) : Exec Vma Unit := do
  if p = 0 then Exec.fault .nullDeref
  else modify fun s => { s with mmr := Function.update s.mmr p (f (s.mmr p)) }

/-- `mmap->user_regions` -/
def load_user_regions (mmap : Nat) : Exec Vma Nat := do
  if mmap = 0 then Exec.fault .nullDeref
  else
    let s ← get
    pure (s.user_regions mmap)

/-- `mmap->user_regions = v` -/
def store_user_regions (mmap v : Nat) : Exec Vma Unit := do
  if mmap = 0 then Exec.fault .nullDeref
  else modify fun s => { s with user_regions := Function.update s.user_regions mmap v }

/-- The three tests of `mm_conflicts`. -/
def meets (r : MmrStruct) (start stop : Nat) : Bool :=
  (start ≥ r.start && start < r.end_addr) || (stop > r.start && stop ≤ r.end_addr) ||
    (start ≤ r.start && stop ≥ r.end_addr)

/-- The loop of `mm_conflicts`. It writes nothing, and there are only `2 ^ 32`
addresses, so a loop that takes more steps never ends. -/
def mm_conflicts_loop (start stop : Nat) : Nat → Nat → Exec Vma Bool
  | 0, _ => Exec.fault .diverges
  | fuel + 1, region => do
    if region = 0 then pure false
    else
      let r ← load_mmr region
      if meets r start stop then pure true
      else mm_conflicts_loop start stop fuel r.next_region

def mm_conflicts (regions start stop : Nat) : Exec Vma Bool := mm_conflicts_loop start stop (2 ^ 32) regions

def mm_mk_region (h : Kmalloc) (mmap start stop flags : Nat) : Exec Vma Nat := do
  if ← mm_conflicts (← load_user_regions mmap) start stop then pure 0
  else
    let region ← kmalloc h 24 1
    store_mmr region fun r => { r with start := start }
    store_mmr region fun r => { r with size := sub32 stop start }
    store_mmr region fun r => { r with end_addr := stop }
    store_mmr region fun r => { r with flags := flags }
    store_mmr region fun r => { r with next_region := 0 }
    store_mmr region fun r => { r with prev_region := 0 }
    let existing ← load_user_regions mmap
    store_user_regions mmap region
    if existing ≠ 0 then
      store_mmr existing fun r => { r with prev_region := region }
      store_mmr region fun r => { r with next_region := existing }
    pure region

/-- The loop of `mm_find_region`. -/
def mm_find_region_loop (addr_in_region : Nat) : Nat → Nat → Exec Vma Nat
  | 0, _ => Exec.fault .diverges
  | fuel + 1, region => do
    if region = 0 then pure 0
    else
      let r ← load_mmr region
      if addr_in_region ≥ r.start ∧ addr_in_region < r.end_addr then pure region
      else mm_find_region_loop addr_in_region fuel r.next_region

def mm_find_region (mmap addr_in_region : Nat) : Exec Vma Nat := do
  mm_find_region_loop addr_in_region (2 ^ 32) (← load_user_regions mmap)

/-! ## The regions of an address space -/

/-- A region, and where its `mmr_struct` lies. -/
structure Region where
  addr : Nat
  start : Nat
  stop : Nat
  flags : Nat

namespace Region

def Has (r : Region) (a : Nat) : Prop := r.start ≤ a ∧ a < r.stop

instance (r : Region) (a : Nat) : Decidable (r.Has a) := inferInstanceAs (Decidable (_ ∧ _))

/-- Some address lies in the region and in `[start, stop)`. -/
def Meets (r : Region) (start stop : Nat) : Prop := ∃ a, r.Has a ∧ start ≤ a ∧ a < stop

/-- What the `mmr_struct` of the region holds, links apart. -/
structure StoredAs (r : Region) (m : MmrStruct) : Prop where
  start : m.start = r.start
  stop : m.end_addr = r.stop
  size : m.size = r.stop - r.start
  flags : m.flags = r.flags

end Region

/-- From call `c` on and before call `n`, `kmalloc` hands out blocks inside memory that do not overlap. -/
structure Fresh (h : Kmalloc) (c n : Nat) : Prop where
  pos : ∀ i, c ≤ i → i < n → 0 < h i 24 1
  inside : ∀ i, c ≤ i → i < n → h i 24 1 + 24 ≤ 2 ^ 32
  apart : ∀ i j, c ≤ i → i < j → j < n → h i 24 1 + 24 ≤ h j 24 1 ∨ h j 24 1 + 24 ≤ h i 24 1

/-- The address space `mm` has the regions `rs`: on a consistent doubly linked
list, stored as they are, no two of them with a common address. -/
structure Holds (h : Kmalloc) (c : Nat) (s : Vma) (mm : Nat) (rs : List Region) : Prop where
  listed : ∃ l, Dll (fun a => (s.mmr a).next_region) (fun a => (s.mmr a).prev_region) 0 (s.user_regions mm)
    (rs.map (·.addr)) l 0
  stored : ∀ r ∈ rs, r.StoredAs (s.mmr r.addr)
  proper : ∀ r ∈ rs, r.start < r.stop
  disjoint : rs.Pairwise fun r r' => ∀ a, ¬ (r.Has a ∧ r'.Has a)
  distinct : (rs.map (·.addr)).Nodup
  /-- The `mmr_struct`s are blocks of earlier calls. -/
  made : ∀ r ∈ rs, ∃ i, c ≤ i ∧ i < s.kmallocs ∧ r.addr = h i 24 1

namespace Holds

variable {h : Kmalloc} {c mm : Nat} {s : Vma} {rs : List Region}

theorem addr_bound (hs : Holds h c s mm rs) {n : Nat} (hf : Fresh h c n) (hn : s.kmallocs ≤ n) {r : Region}
    (hr : r ∈ rs) :
    0 < r.addr ∧ r.addr < 2 ^ 32 := by
  obtain ⟨i, hi, hi', he⟩ := hs.made r hr
  have h1 := hf.pos i hi (by omega)
  have h2 := hf.inside i hi (by omega)
  rw [he]
  omega

theorem length_lt (hs : Holds h c s mm rs) {n : Nat} (hf : Fresh h c n) (hn : s.kmallocs ≤ n) : rs.length < 2 ^ 32 := by
  have hsub : rs.map (·.addr) ⊆ List.range' 1 (2 ^ 32 - 1) := by
    intro a ha
    obtain ⟨r, hr, rfl⟩ := List.mem_map.1 ha
    have := hs.addr_bound hf hn hr
    rw [List.mem_range'_1]
    omega
  have hle := (List.subperm_of_subset hs.distinct hsub).length_le
  rw [List.length_map, List.length_range'] at hle
  omega

end Holds

/-! ## Searching the list -/

section Search
variable {s : Vma} {p a : Nat}

theorem load_mmr_run (ha : a ≠ 0) (s : Vma) : load_mmr a s = .ok (s.mmr a, s) := by
  simp [load_mmr, ha, Exec.bind_apply]

theorem store_mmr_run (ha : a ≠ 0) (f : MmrStruct → MmrStruct) (s : Vma) :
    store_mmr a f s = .ok ((), { s with mmr := Function.update s.mmr a (f (s.mmr a)) }) := by
  simp [store_mmr, ha]

theorem load_user_regions_run (ha : a ≠ 0) (s : Vma) : load_user_regions a s = .ok (s.user_regions a, s) := by
  simp [load_user_regions, ha, Exec.bind_apply]

theorem store_user_regions_run (ha : a ≠ 0) (v : Nat) (s : Vma) :
    store_user_regions a v s = .ok ((), { s with user_regions := Function.update s.user_regions a v }) := by
  simp [store_user_regions, ha]

/-- The three tests together ask for a common address. -/
theorem meets_iff {r : Region} {m : MmrStruct} (hm : r.StoredAs m) (hr : r.start < r.stop) {start stop : Nat}
    (hlt : start < stop) : meets m start stop = true ↔ r.Meets start stop := by
  have harith : meets m start stop = true ↔ r.start < stop ∧ start < r.stop := by
    unfold meets
    rw [hm.start, hm.stop]
    simp only [Bool.or_eq_true, Bool.and_eq_true, decide_eq_true_eq]
    omega
  rw [harith]
  unfold Region.Meets Region.Has
  constructor
  · rintro ⟨h1, h2⟩
    exact ⟨max r.start start, by omega, by omega, by omega⟩
  · rintro ⟨x, ⟨h1, h2⟩, h3, h4⟩
    omega

theorem mm_conflicts_loop_run {rs : List Region} {l : Nat} (start stop : Nat) {fuel : Nat}
    (hd : Dll (fun a => (s.mmr a).next_region) (fun a => (s.mmr a).prev_region) p a (rs.map (·.addr)) l 0)
    (h0 : ∀ r ∈ rs, r.addr ≠ 0) (hfuel : rs.length < fuel) :
    mm_conflicts_loop start stop fuel a s = .ok (rs.any fun r => meets (s.mmr r.addr) start stop, s) := by
  induction rs generalizing p a fuel with
  | nil =>
    obtain ⟨fuel, rfl⟩ := Nat.exists_eq_succ_of_ne_zero (show fuel ≠ 0 by omega)
    rw [mm_conflicts_loop, if_pos hd.2]
    rfl
  | cons r rs ih =>
    obtain ⟨fuel, rfl⟩ := Nat.exists_eq_succ_of_ne_zero (show fuel ≠ 0 by omega)
    obtain ⟨rfl, -, hnext⟩ := hd
    have hr := h0 r List.mem_cons_self
    rw [mm_conflicts_loop, if_neg hr, Exec.bind_of_ok (load_mmr_run hr s), List.any_cons]
    cases hmeet : meets (s.mmr r.addr) start stop with
    | true =>
      rw [if_pos rfl, Bool.true_or]
      rfl
    | false =>
      rw [if_neg Bool.false_ne_true, Bool.false_or]
      exact ih hnext (fun r' hr' => h0 r' (List.mem_cons_of_mem _ hr')) (Nat.lt_of_succ_lt_succ hfuel)

theorem mm_find_region_loop_run {rs : List Region} {l : Nat} (addr : Nat) {fuel : Nat}
    (hd : Dll (fun a => (s.mmr a).next_region) (fun a => (s.mmr a).prev_region) p a (rs.map (·.addr)) l 0)
    (hst : ∀ r ∈ rs, r.StoredAs (s.mmr r.addr)) (h0 : ∀ r ∈ rs, r.addr ≠ 0) (hfuel : rs.length < fuel) :
    mm_find_region_loop addr fuel a s = .ok (((rs.find? fun r => r.Has addr).map (·.addr)).getD 0, s) := by
  induction rs generalizing p a fuel with
  | nil =>
    obtain ⟨fuel, rfl⟩ := Nat.exists_eq_succ_of_ne_zero (show fuel ≠ 0 by omega)
    rw [mm_find_region_loop, if_pos hd.2]
    rfl
  | cons r rs ih =>
    obtain ⟨fuel, rfl⟩ := Nat.exists_eq_succ_of_ne_zero (show fuel ≠ 0 by omega)
    obtain ⟨rfl, -, hnext⟩ := hd
    have hr := h0 r List.mem_cons_self
    have hm := hst r List.mem_cons_self
    rw [mm_find_region_loop, if_neg hr, Exec.bind_of_ok (load_mmr_run hr s), hm.start, hm.stop]
    by_cases hin : addr ≥ r.start ∧ addr < r.stop
    · rw [if_pos hin, List.find?_cons_of_pos (by exact decide_eq_true hin)]
      rfl
    · rw [if_neg hin, List.find?_cons_of_neg (by exact fun hd => hin (of_decide_eq_true hd))]
      exact ih hnext (fun r' hr' => hst r' (List.mem_cons_of_mem _ hr'))
        (fun r' hr' => h0 r' (List.mem_cons_of_mem _ hr'))
        (Nat.lt_of_succ_lt_succ hfuel)

end Search

namespace Holds

variable {h : Kmalloc} {c mm n : Nat} {s : Vma} {rs : List Region}

theorem addr_ne (hs : Holds h c s mm rs) (hf : Fresh h c n) (hn : s.kmallocs ≤ n) {r : Region} (hr : r ∈ rs) :
    r.addr ≠ 0 := by
  have := hs.addr_bound hf hn hr
  omega

/-- An interval conflicts exactly when it meets a region. -/
theorem mm_conflicts_run (hs : Holds h c s mm rs) (hf : Fresh h c n) (hn : s.kmallocs ≤ n) {start stop : Nat}
    (hlt : start < stop) :
    ∃ b, mm_conflicts (s.user_regions mm) start stop s = .ok (b, s) ∧ (b = true ↔ ∃ r ∈ rs, r.Meets start stop) := by
  obtain ⟨l, hd⟩ := hs.listed
  refine ⟨_, mm_conflicts_loop_run start stop hd (fun r hr => hs.addr_ne hf hn hr) (hs.length_lt hf hn), ?_⟩
  rw [List.any_eq_true]
  constructor
  · rintro ⟨r, hr, hm⟩
    exact ⟨r, hr, (meets_iff (hs.stored r hr) (hs.proper r hr) hlt).1 hm⟩
  · rintro ⟨r, hr, hm⟩
    exact ⟨r, hr, (meets_iff (hs.stored r hr) (hs.proper r hr) hlt).2 hm⟩

/-- An address lies in one region at most. -/
theorem unique (hs : Holds h c s mm rs) {a : Nat} {r r' : Region} (hr : r ∈ rs) (hr' : r' ∈ rs) (ha : r.Has a)
    (ha' : r'.Has a) : r' = r := by
  by_contra hne
  have hsymm : Std.Symm fun r r' : Region => ∀ a, ¬ (r.Has a ∧ r'.Has a) := ⟨fun _ _ h a ha => h a ⟨ha.2, ha.1⟩⟩
  exact hs.disjoint.forall hr hr' (Ne.symm hne) a ⟨ha, ha'⟩

/-- `mm_find_region` finds the one region that has the address, if there is one. -/
theorem mm_find_region_run (hs : Holds h c s mm rs) (hf : Fresh h c n) (hn : s.kmallocs ≤ n) (hmm : mm ≠ 0) (a : Nat) :
    (∃ r ∈ rs, r.Has a ∧ (∀ r' ∈ rs, r'.Has a → r' = r) ∧ mm_find_region mm a s = .ok (r.addr, s)) ∨
    ((∀ r ∈ rs, ¬ r.Has a) ∧ mm_find_region mm a s = .ok (0, s)) := by
  obtain ⟨l, hd⟩ := hs.listed
  have hrun : mm_find_region mm a s = .ok (((rs.find? fun r => r.Has a).map (·.addr)).getD 0, s) :=
    (Exec.bind_of_ok (load_user_regions_run hmm s)).trans
      (mm_find_region_loop_run a hd hs.stored (fun r hr => hs.addr_ne hf hn hr) (hs.length_lt hf hn))
  cases hfind : rs.find? fun r => decide (r.Has a) with
  | none =>
    rw [hfind] at hrun
    refine .inr ⟨fun r hr => ?_, hrun⟩
    simpa using List.find?_eq_none.1 hfind r hr
  | some r =>
    rw [hfind] at hrun
    have hr := List.mem_of_find?_eq_some hfind
    have ha : r.Has a := of_decide_eq_true (List.find?_some (p := fun r : Region => decide (r.Has a)) hfind)
    exact .inl ⟨r, hr, ha, fun r' hr' ha' => hs.unique hr hr' ha ha', hrun⟩

end Holds

/-! ## Adding a region -/

/-- The state once the region at `p` was put in front. -/
def Vma.added (s : Vma) (mm p start stop flags : Nat) : Vma where
  mmr a :=
    if a = p then ⟨start, stop, sub32 stop start, flags, 0, s.user_regions mm⟩
    else if a = s.user_regions mm ∧ s.user_regions mm ≠ 0 then { s.mmr a with prev_region := p }
    else s.mmr a
  user_regions := Function.update s.user_regions mm p
  kmallocs := s.kmallocs + 1

section Added
variable {h : Kmalloc} {c mm n : Nat} {s : Vma} {rs : List Region}

theorem mm_mk_region_run {start stop flags p : Nat} (hmm : mm ≠ 0) (hp : h s.kmallocs 24 1 = p) (hp0 : p ≠ 0)
    (hne : s.user_regions mm ≠ p) (hfree : mm_conflicts (s.user_regions mm) start stop s = .ok (false, s)) :
    mm_mk_region h mm start stop flags s = .ok (p, s.added mm p start stop flags) := by
  have hload : ∀ t : Vma, load_user_regions mm t = .ok (t.user_regions mm, t) := load_user_regions_run hmm
  unfold mm_mk_region
  rw [Exec.bind_of_ok (hload s), Exec.bind_of_ok hfree, if_neg Bool.false_ne_true]
  have hk : kmalloc h 24 1 s = .ok (p, { s with kmallocs := s.kmallocs + 1 }) := by
    rw [← hp]
    rfl
  rw [Exec.bind_of_ok hk]
  simp only [Exec.bind_of_ok (store_mmr_run hp0 _ _), Exec.bind_of_ok (hload _),
    Exec.bind_of_ok (store_user_regions_run hmm _ _), Function.update_self, Function.update_idem]
  by_cases he : s.user_regions mm = 0
  · rw [if_neg (not_not_intro he)]
    show Except.ok (p, _) = _
    congr 2
    unfold Vma.added
    congr 1
    funext a
    by_cases ha : a = p
    · rw [ha, Function.update_self, if_pos rfl, he]
    · rw [Function.update_of_ne ha, if_neg ha, if_neg fun h => h.2 he]
  · rw [if_pos he]
    refine (Exec.bind_of_ok (store_mmr_run he _ _)).trans ?_
    refine (Exec.bind_of_ok (store_mmr_run hp0 _ _)).trans ?_
    show Except.ok (p, _) = _
    congr 2
    unfold Vma.added
    congr 1
    funext a
    by_cases ha : a = p
    · rw [ha, Function.update_self, if_pos rfl]
      dsimp only
      rw [Function.update_of_ne (Ne.symm hne), Function.update_self]
    · rw [Function.update_of_ne ha, if_neg ha]
      dsimp only
      by_cases hae : a = s.user_regions mm
      · rw [hae, Function.update_self, if_pos ⟨rfl, he⟩, Function.update_of_ne hne]
      · rw [Function.update_of_ne hae, Function.update_of_ne ha, if_neg fun h => hae h.1]

/-- The new region comes in front; the others are stored as before. -/
theorem Holds.added (hs : Holds h c s mm rs) (hf : Fresh h c n) (hn : s.kmallocs < n) (hc : c ≤ s.kmallocs)
    (flags : Nat) {start stop p : Nat} (hp : p = h s.kmallocs 24 1) (hlt : start < stop) (hstop : stop < 2 ^ 32)
    (hfree : ¬ ∃ r ∈ rs, r.Meets start stop) :
    Holds h c (s.added mm p start stop flags) mm (⟨p, start, stop, flags⟩ :: rs) := by
  have hnew : ∀ r ∈ rs, r.addr ≠ p := by
    intro r hr he
    obtain ⟨i, hi, hi', hri⟩ := hs.made r hr
    have := hf.apart i s.kmallocs hi hi' hn
    rw [← hri, ← hp] at this
    omega
  have hother : ∀ r ∈ rs, (s.added mm p start stop flags).mmr r.addr
      = if r.addr = s.user_regions mm ∧ s.user_regions mm ≠ 0 then { s.mmr r.addr with prev_region := p }
        else s.mmr r.addr := fun r hr => if_neg (hnew r hr)
  have hself : (s.added mm p start stop flags).mmr p = ⟨start, stop, sub32 stop start, flags, 0, s.user_regions mm⟩ :=
    if_pos rfl
  have hhead : (s.added mm p start stop flags).user_regions mm = p := Function.update_self _ _ _
  have hnext : ∀ r ∈ rs, ((s.added mm p start stop flags).mmr r.addr).next_region = (s.mmr r.addr).next_region := by
    intro r hr
    rw [hother r hr]
    split <;> rfl
  refine ⟨?_, ?_, ?_, ?_, ?_, ?_⟩
  · obtain ⟨l, hd⟩ := hs.listed
    rw [hhead]
    apply hd.push_front
    · show ((s.added mm p start stop flags).mmr p).next_region = _
      rw [hself]
    · show ((s.added mm p start stop flags).mmr p).prev_region = _
      rw [hself]
    · intro a ha
      obtain ⟨r, hr, rfl⟩ := List.mem_map.1 ha
      exact hnext r hr
    · intro a ha
      have hne := hd.ne_of_mem_tail hs.distinct a ha
      obtain ⟨r, hr, rfl⟩ := List.mem_map.1 (List.mem_of_mem_tail ha)
      show ((s.added mm p start stop flags).mmr r.addr).prev_region = _
      rw [hother r hr, if_neg fun h => hne h.1]
    · intro a ha
      have heq := hd.head_eq a ha
      obtain ⟨r, hr, rfl⟩ := List.mem_map.1 (List.mem_of_mem_head? ha)
      have h0 := hs.addr_ne hf hn.le hr
      show ((s.added mm p start stop flags).mmr r.addr).prev_region = _
      rw [hother r hr, if_pos ⟨heq, heq ▸ h0⟩]
  · intro r hr
    rcases List.mem_cons.1 hr with rfl | hr
    · show Region.StoredAs _ ((s.added mm p start stop flags).mmr p)
      rw [hself]
      exact ⟨rfl, rfl, sub32_eq hstop hlt.le, rfl⟩
    · rw [hother r hr]
      have := hs.stored r hr
      split
      · exact ⟨this.start, this.stop, this.size, this.flags⟩
      · exact this
  · intro r hr
    rcases List.mem_cons.1 hr with rfl | hr
    · exact hlt
    · exact hs.proper r hr
  · refine List.pairwise_cons.2 ⟨fun r hr a ha => hfree ⟨r, hr, a, ha.2, ha.1.1, ha.1.2⟩, hs.disjoint⟩
  · rw [List.map_cons, List.nodup_cons]
    refine ⟨fun hmem => ?_, hs.distinct⟩
    obtain ⟨r, hr, he⟩ := List.mem_map.1 hmem
    exact hnew r hr he
  · intro r hr
    rcases List.mem_cons.1 hr with rfl | hr
    · exact ⟨s.kmallocs, hc, Nat.lt_succ_self _, hp⟩
    · obtain ⟨i, hi, hi', he⟩ := hs.made r hr
      exact ⟨i, hi, Nat.lt_succ_of_lt hi', he⟩

end Added

/-! ## Runs -/

/-- The block of call `n` is inside memory and apart from those of the calls before it. -/
structure FreshAt (h : Kmalloc) (c n : Nat) : Prop where
  pos : 0 < h n 24 1
  inside : h n 24 1 + 24 ≤ 2 ^ 32
  apart : ∀ i, c ≤ i → i < n → h i 24 1 + 24 ≤ h n 24 1 ∨ h n 24 1 + 24 ≤ h i 24 1

theorem Fresh.succ {h : Kmalloc} {c n : Nat} (hf : Fresh h c n) (hn : FreshAt h c n) : Fresh h c (n + 1) := by
  refine ⟨fun i hi hi' => ?_, fun i hi hi' => ?_, fun i j hi hij hj => ?_⟩
  · rcases Nat.lt_succ_iff_lt_or_eq.1 hi' with hlt | rfl
    · exact hf.pos i hi hlt
    · exact hn.pos
  · rcases Nat.lt_succ_iff_lt_or_eq.1 hi' with hlt | rfl
    · exact hf.inside i hi hlt
    · exact hn.inside
  · rcases Nat.lt_succ_iff_lt_or_eq.1 hj with hlt | rfl
    · exact hf.apart i j hi hij hlt
    · exact hn.apart i hi hij

inductive Call where
  | mk_region (start stop flags : Nat)
  | find_region (addr : Nat)

/-- One call that returns, on 32-bit addresses. The block `kmalloc` may be asked for is a fresh one. -/
inductive Step (h : Kmalloc) (c mm : Nat) : Vma → Call → Vma → Prop
  | mk_region {s s' : Vma} {start stop flags r : Nat} : start < stop → stop < 2 ^ 32 → FreshAt h c s.kmallocs →
      mm_mk_region h mm start stop flags s = .ok (r, s') → Step h c mm s (.mk_region start stop flags) s'
  | find_region {s s' : Vma} {a r : Nat} : mm_find_region mm a s = .ok (r, s') → Step h c mm s (.find_region a) s'

section Runs
variable {h : Kmalloc} {c mm : Nat} {s s' : Vma} {rs : List Region}

theorem Holds.mk_region_meets (hs : Holds h c s mm rs) (hf : Fresh h c s.kmallocs) (hmm : mm ≠ 0) {start stop : Nat}
    (hlt : start < stop) (hmeet : ∃ r ∈ rs, r.Meets start stop) (flags : Nat) :
    mm_mk_region h mm start stop flags s = .ok (0, s) := by
  obtain ⟨b, hrun, hb⟩ := hs.mm_conflicts_run hf le_rfl hlt
  rw [hb.2 hmeet] at hrun
  unfold mm_mk_region
  rw [Exec.bind_of_ok (load_user_regions_run hmm s), Exec.bind_of_ok hrun]
  rfl

theorem Holds.mk_region_free (hs : Holds h c s mm rs) (hf : Fresh h c s.kmallocs) (hc : c ≤ s.kmallocs) (hmm : mm ≠ 0)
    (hn : FreshAt h c s.kmallocs) {start stop : Nat} (hlt : start < stop) (hstop : stop < 2 ^ 32)
    (hfree : ¬ ∃ r ∈ rs, r.Meets start stop) (flags : Nat) :
    ∃ s' p, mm_mk_region h mm start stop flags s = .ok (p, s') ∧ p ≠ 0 ∧ s'.kmallocs = s.kmallocs + 1 ∧
      Holds h c s' mm (⟨p, start, stop, flags⟩ :: rs) := by
  obtain ⟨b, hrun, hb⟩ := hs.mm_conflicts_run hf le_rfl hlt
  have hfalse : b = false := by
    cases b with
    | false => rfl
    | true => exact absurd (hb.1 rfl) hfree
  rw [hfalse] at hrun
  have hpos := hn.pos
  have hadd := hs.added (hf.succ hn) (Nat.lt_succ_self _) hc flags rfl hlt hstop hfree
  have hne : s.user_regions mm ≠ h s.kmallocs 24 1 := by
    intro he
    obtain ⟨l, hd⟩ := hs.listed
    cases rs with
    | nil =>
      have := hd.2
      omega
    | cons r rs =>
      have h1 : s.user_regions mm = r.addr := hd.1
      obtain ⟨i, hi, hi', hri⟩ := hs.made r List.mem_cons_self
      have := hn.apart i hi hi'
      omega
  exact ⟨_, _, mm_mk_region_run hmm rfl (by omega) hne hrun, by omega, rfl, hadd⟩

theorem Holds.step (hs : Holds h c s mm rs) (hf : Fresh h c s.kmallocs) (hc : c ≤ s.kmallocs) (hmm : mm ≠ 0) {i : Call}
    (ht : Step h c mm s i s') : ∃ rs', Holds h c s' mm rs' ∧ Fresh h c s'.kmallocs ∧ c ≤ s'.kmallocs := by
  cases ht with
  | mk_region hlt hstop hn hrun =>
    rename_i start stop flags r
    by_cases hmeet : ∃ r ∈ rs, r.Meets start stop
    · rw [hs.mk_region_meets hf hmm hlt hmeet flags] at hrun
      cases hrun
      exact ⟨rs, hs, hf, hc⟩
    · obtain ⟨t, p, hrun', -, hk, hs'⟩ := hs.mk_region_free hf hc hmm hn hlt hstop hmeet flags
      rw [hrun'] at hrun
      cases hrun
      rw [hk]
      exact ⟨_, hs', hf.succ hn, by omega⟩
  | find_region hrun =>
    rename_i a r
    rcases hs.mm_find_region_run hf le_rfl hmm a with ⟨_, _, _, _, hrun'⟩ | ⟨_, hrun'⟩
    · rw [hrun'] at hrun
      cases hrun
      exact ⟨rs, hs, hf, hc⟩
    · rw [hrun'] at hrun
      cases hrun
      exact ⟨rs, hs, hf, hc⟩

/-- A fresh address space has no regions. -/
theorem Holds.start (h : Kmalloc) (h0 : s.user_regions mm = 0) : Holds h s.kmallocs s mm [] := by
  refine ⟨⟨0, rfl, h0⟩, ?_, ?_, List.Pairwise.nil, List.nodup_nil, ?_⟩
  all_goals
    intro r hr
    cases hr

/-- The list of every state reached, with blocks enough for it. -/
theorem holds_of_run {s₀ : Vma} (hmm : mm ≠ 0) (h0 : s₀.user_regions mm = 0) (hr : Run (Step h s₀.kmallocs mm) s₀ s) :
    ∃ rs, Holds h s₀.kmallocs s mm rs ∧ Fresh h s₀.kmallocs s.kmallocs ∧ s₀.kmallocs ≤ s.kmallocs := by
  refine hr.inv (fun t => ∃ rs, Holds h s₀.kmallocs t mm rs ∧ Fresh h s₀.kmallocs t.kmallocs ∧
      s₀.kmallocs ≤ t.kmallocs) ?_ ?_
  · exact ⟨[], Holds.start h h0, ⟨by omega, by omega, by omega⟩, le_rfl⟩
  · intro t i t' ⟨rs, hs, hf, hc⟩ ht
    exact hs.step hf hc hmm ht

/-- A state has one list of regions. -/
theorem regions_unique {rs rs' : List Region} {p p' l l' a : Nat}
    (hd : Dll (fun a => (s.mmr a).next_region) (fun a => (s.mmr a).prev_region) p a (rs.map (·.addr)) l 0)
    (hd' : Dll (fun a => (s.mmr a).next_region) (fun a => (s.mmr a).prev_region) p' a (rs'.map (·.addr)) l' 0)
    (hst : ∀ r ∈ rs, r.StoredAs (s.mmr r.addr) ∧ r.addr ≠ 0)
    (hst' : ∀ r ∈ rs', r.StoredAs (s.mmr r.addr) ∧ r.addr ≠ 0) :
    rs = rs' := by
  induction rs generalizing rs' p p' a with
  | nil =>
    cases rs' with
    | nil => rfl
    | cons r' rs' => exact absurd (hd'.1.symm.trans hd.2) (hst' r' List.mem_cons_self).2
  | cons r rs ih =>
    obtain ⟨rfl, -, hnext⟩ := hd
    cases rs' with
    | nil => exact absurd hd'.2 (hst r List.mem_cons_self).2
    | cons r' rs' =>
      obtain ⟨he, -, hnext'⟩ := hd'
      have hm := (hst r List.mem_cons_self).1
      have hm' := (hst' r' List.mem_cons_self).1
      have hr : r = r' := by
        obtain ⟨a, start, stop, flags⟩ := r
        obtain ⟨a', start', stop', flags'⟩ := r'
        obtain rfl : a = a' := he
        obtain rfl : start = start' := hm.start.symm.trans hm'.start
        obtain rfl : stop = stop' := hm.stop.symm.trans hm'.stop
        obtain rfl : flags = flags' := hm.flags.symm.trans hm'.flags
        rfl
      subst hr
      rw [ih hnext hnext' (fun r hr => hst r (List.mem_cons_of_mem _ hr)) fun r hr =>
        hst' r (List.mem_cons_of_mem _ hr)]

theorem Holds.list_eq {rs rs' : List Region} (hs : Holds h c s mm rs) (hs' : Holds h c s mm rs')
    (hf : Fresh h c s.kmallocs) : rs = rs' := by
  obtain ⟨l, hd⟩ := hs.listed
  obtain ⟨l', hd'⟩ := hs'.listed
  exact regions_unique hd hd' (fun r hr => ⟨hs.stored r hr, hs.addr_ne hf le_rfl hr⟩)
    fun r hr => ⟨hs'.stored r hr, hs'.addr_ne hf le_rfl hr⟩

end Runs

/-- In every state reached from a fresh address space the regions are disjoint
intervals on a consistent list; `mm_mk_region` refuses exactly the intervals
that meet one and adds any other, and `mm_find_region` finds the one region that
has an address. -/
theorem regions_disjoint {h : Kmalloc} {mm : Nat} {s₀ s : Vma} (hmm : mm ≠ 0) (h0 : s₀.user_regions mm = 0)
    (hr : Run (Step h s₀.kmallocs mm) s₀ s) :
    ∃ rs, Holds h s₀.kmallocs s mm rs ∧
      (∀ start stop flags, start < stop → stop < 2 ^ 32 →
        ((∃ r ∈ rs, r.Meets start stop) → mm_mk_region h mm start stop flags s = .ok (0, s)) ∧
        ((¬ ∃ r ∈ rs, r.Meets start stop) → FreshAt h s₀.kmallocs s.kmallocs →
          ∃ s' p, mm_mk_region h mm start stop flags s = .ok (p, s') ∧ p ≠ 0 ∧
            Holds h s₀.kmallocs s' mm (⟨p, start, stop, flags⟩ :: rs))) ∧
      ∀ a, (∃ r ∈ rs, r.Has a ∧ (∀ r' ∈ rs, r'.Has a → r' = r) ∧ mm_find_region mm a s = .ok (r.addr, s)) ∨
        ((∀ r ∈ rs, ¬ r.Has a) ∧ mm_find_region mm a s = .ok (0, s)) := by
  obtain ⟨rs, hs, hf, hc⟩ := holds_of_run hmm h0 hr
  refine ⟨rs, hs, fun start stop flags hlt hstop => ⟨fun hmeet => ?_, fun hfree hn => ?_⟩, fun a => ?_⟩
  · exact hs.mk_region_meets hf hmm hlt hmeet flags
  · obtain ⟨s', p, hrun, hp, -, hs'⟩ := hs.mk_region_free hf hc hmm hn hlt hstop hfree flags
    exact ⟨s', p, hrun, hp, hs'⟩
  · exact hs.mm_find_region_run hf le_rfl hmm a

/-- No regions, and a heap that hands out one block behind the other. -/
def emptyVma : Vma := ⟨fun _ => ⟨0, 0, 0, 0, 0, 0⟩, fun _ => 0, 0⟩

def rowHeap : Kmalloc := fun i _ _ => (i + 1) * 24

theorem rowHeap_fresh (n : Nat) (hn : n < 100) : Fresh rowHeap 0 n ∧ FreshAt rowHeap 0 n := by
  refine ⟨⟨fun i _ hi => ?_, fun i _ hi => ?_, fun i j _ hij hj => ?_⟩, ?_, ?_, fun i _ hi => ?_⟩
  all_goals
    unfold rowHeap
    omega

/-- One region more, where there is room for it. -/
theorem mk_region_more {s : Vma} {rs : List Region} (hr : Run (Step rowHeap 0 4) emptyVma s)
    (hs : Holds rowHeap 0 s 4 rs) (hn : s.kmallocs < 100) (start stop : Nat) (hlt : start < stop)
    (hstop : stop < 2 ^ 32)
    (hfree : ∀ r ∈ rs, r.stop ≤ start) :
    ∃ t p, Run (Step rowHeap 0 4) emptyVma t ∧ Holds rowHeap 0 t 4 (⟨p, start, stop, 1⟩ :: rs) ∧
      t.kmallocs = s.kmallocs + 1 := by
  obtain ⟨hf, hat⟩ := rowHeap_fresh s.kmallocs hn
  have hnone : ¬ ∃ r ∈ rs, r.Meets start stop := by
    rintro ⟨r, hr, a, ha, hsa, -⟩
    have h1 := hfree r hr
    have h2 := ha.2
    omega
  obtain ⟨t, p, hrun, -, hk, ht⟩ := hs.mk_region_free hf (Nat.zero_le _) (by decide) hat hlt hstop hnone 1
  exact ⟨t, p, hr.call (.mk_region hlt hstop hat hrun), ht, hk⟩

theorem three_regions : ∃ s p q r, Run (Step rowHeap 0 4) emptyVma s ∧ s.kmallocs = 3 ∧
    Holds rowHeap 0 s 4 [⟨p, 0x5000, 0x6000, 1⟩, ⟨q, 0x3000, 0x4000, 1⟩, ⟨r, 0x1000, 0x2000, 1⟩] := by
  obtain ⟨s₁, r, hr₁, hs₁, hk₁⟩ := mk_region_more .start (Holds.start rowHeap (s := emptyVma) rfl) (by decide)
    0x1000 0x2000 (by decide) (by decide) (by simp)
  have hk₁ : s₁.kmallocs = 1 := hk₁
  obtain ⟨s₂, q, hr₂, hs₂, hk₂⟩ := mk_region_more hr₁ hs₁ (by omega) 0x3000 0x4000 (by decide) (by decide) (by simp)
  obtain ⟨s₃, p, hr₃, hs₃, hk₃⟩ := mk_region_more hr₂ hs₂ (by omega) 0x5000 0x6000 (by decide) (by decide) (by simp)
  exact ⟨s₃, p, q, r, hr₃, by omega, hs₃⟩

/-- What meets the one in the middle is refused, what touches its two neighbours is added; an address is found in
the region that has it, and the address behind that in none. -/
theorem regions_disjoint_three : ∃ s p q r, Run (Step rowHeap 0 4) emptyVma s ∧
    Holds rowHeap 0 s 4 [⟨p, 0x5000, 0x6000, 1⟩, ⟨q, 0x3000, 0x4000, 1⟩, ⟨r, 0x1000, 0x2000, 1⟩] ∧
    mm_mk_region rowHeap 4 0x3800 0x4800 1 s = .ok (0, s) ∧
    (∃ t n, mm_mk_region rowHeap 4 0x4000 0x5000 1 s = .ok (n, t) ∧ n ≠ 0 ∧ Holds rowHeap 0 t 4
      [⟨n, 0x4000, 0x5000, 1⟩, ⟨p, 0x5000, 0x6000, 1⟩, ⟨q, 0x3000, 0x4000, 1⟩, ⟨r, 0x1000, 0x2000, 1⟩]) ∧
    mm_find_region 4 0x3fff s = .ok (q, s) ∧ mm_find_region 4 0x4000 s = .ok (0, s) := by
  obtain ⟨s, p, q, r, hr, hk, hs⟩ := three_regions
  obtain ⟨hf, hat⟩ := rowHeap_fresh s.kmallocs (by omega)
  obtain ⟨rs, hs', hmk, hfind⟩ := regions_disjoint (by decide) (show emptyVma.user_regions 4 = 0 from rfl) hr
  obtain rfl := hs'.list_eq hs hf
  have hin : (⟨q, 0x3000, 0x4000, 1⟩ : Region).Has 0x3fff :=
    ⟨show 0x3000 ≤ 0x3fff by decide, show 0x3fff < 0x4000 by decide⟩
  refine ⟨s, p, q, r, hr, hs, ?_, ?_, ?_, ?_⟩
  · refine (hmk 0x3800 0x4800 1 (by decide) (by decide)).1 ⟨⟨q, 0x3000, 0x4000, 1⟩, by simp, 0x3fff, hin, ?_⟩
    decide
  · obtain ⟨t, n, hrun, hn, ht⟩ := (hmk 0x4000 0x5000 1 (by decide) (by decide)).2 (by
      rintro ⟨r', hr', a, ⟨hlo, hhi⟩, ha, ha'⟩
      simp only [List.mem_cons, List.not_mem_nil, or_false] at hr'
      rcases hr' with rfl | rfl | rfl <;> simp only at hlo hhi <;> omega) hat
    exact ⟨t, n, hrun, hn, ht⟩
  · rcases hfind 0x3fff with ⟨r', -, -, huniq, hfound⟩ | ⟨hnone, -⟩
    · rw [← huniq ⟨q, 0x3000, 0x4000, 1⟩ (by simp) hin] at hfound
      exact hfound
    · exact absurd hin (hnone _ (by simp))
  · rcases hfind 0x4000 with ⟨r', hr', ⟨hlo, hhi⟩, -⟩ | ⟨-, hfound⟩
    · simp only [List.mem_cons, List.not_mem_nil, or_false] at hr'
      rcases hr' with rfl | rfl | rfl <;> simp only at hlo hhi <;> omega
    · exact hfound

end Ulmix.Regions

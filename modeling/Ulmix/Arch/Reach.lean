import Ulmix.Arch.Mapping
/-!
# How far mm_map reaches

`page_tables` and the one page directory an address space has stand for the
first GiB. Nothing in `mm_map` keeps a range from going on behind it: the loop
then takes its table from behind the array (`map_pages_loop_leaves`). The
physical address is counted on in 32 bits; past their end the pages are mapped
to the frames from 0 on. The pointer table has one directory, and the words of
the other three stay 0 (`Upper`), so no page above 1 GiB is ever there.
-/
open Ulmix.Lib

namespace Ulmix.Paging

/-! ## Above 1 GiB -/

/-- The pointer table names no directory but the first. -/
def Upper (s : Vm) (mm : Nat) : Prop := ∀ k, 1 ≤ k → k < 4 → s.mem ((s.tablesOf mm).ptr_table + 8 * k) = 0

section Upper
variable {h : Kmalloc} {c mm : Nat} {s t : Vm} {f : Nat → Option Nat}

/-- The processor finds nothing there. -/
theorem Upper.paeWalk (hu : Upper s mm) (hptr : 32 ∣ (s.tablesOf mm).ptr_table) {v : Nat} (hv : 2 ^ 30 ≤ v)
    (hv' : v < 2 ^ 32) : paeWalk s.mem (s.tablesOf mm).ptr_table v = none := by
  have hword := hu (v / 2 ^ 30 % 4) (by omega) (by omega)
  have haddr : (s.tablesOf mm).ptr_table / 32 * 32 + 8 * (v / 2 ^ 30 % 4) =
      (s.tablesOf mm).ptr_table + 8 * (v / 2 ^ 30 % 4) := by omega
  unfold Paging.paeWalk
  simp only [haddr, hword, Nat.zero_testBit, Bool.false_eq_true, if_false]

theorem mk_mmap_upper (hf : Fresh h s.kmallocs) (hb : mk_mmap h s = .ok (mm, t)) : Upper t mm := by
  have hmm : h s.kmallocs 8 1 ≠ 0 :=
    Nat.pos_iff_ne_zero.1 (hf.pos _ le_rfl (by omega) 8 1 (by omega) (one_dvd _))
  have htab : h (s.kmallocs + 1) 2068 1 ≠ 0 :=
    Nat.pos_iff_ne_zero.1 (hf.pos _ (by omega) (by omega) 2068 1 (by omega) (one_dvd _))
  have hdir : h (s.kmallocs + 2) 4096 4096 ≠ 0 :=
    Nat.pos_iff_ne_zero.1 (hf.page_pos (by omega) (by omega))
  have hptr : h (s.kmallocs + 3) 32 32 ≠ 0 :=
    Nat.pos_iff_ne_zero.1 (hf.pos _ (by omega) (by omega) 32 32 (by omega) (by decide))
  have hptr_le := hf.inside (s.kmallocs + 3) (by omega) (by omega) 32 32 (by omega) (by decide)
  have hentry : ∀ t : Vm, entry_at (h (s.kmallocs + 3) 32 32) 0 t = .ok (h (s.kmallocs + 3) 32 32, t) := by
    intro t
    simp [entry_at, hptr, add32_eq (show h (s.kmallocs + 3) 32 32 + 0 < 2 ^ 32 by omega)]
  unfold mk_mmap PAGEDIR_SIZE PTR_TABLE_SIZE PAGESIZE at hb
  simp only [Exec.bind_apply, kmalloc_run, store_mm_run hmm, load_tables_run hmm, Vm.setMm, Function.update_self,
    store_tables_run htab, deref_tables_run htab, Vm.setTables, bzero_run hdir, bzero_run hptr, hentry,
    store64_run hptr, Exec.pure_apply, Nat.add_assoc, Nat.reduceAdd, Nat.reduceMul] at hb
  cases hb
  intro k hk hk'
  -- `bzero` cleared the whole pointer table, and only its first entry was written afterwards
  simp only [Vm.tablesOf, Vm.setWord, Function.update_self]
  rw [Function.update_of_ne (by omega), if_pos (by omega)]

/-- A page table is made elsewhere. -/
theorem Upper.newTable (hu : Upper s mm) (hm : Maps h c s mm f) (hf : Fresh h c) {i : Nat} (hi : i < 512)
    (ht : (s.tablesOf mm).page_tables i = 0) : Upper (s.newTable mm i (page h s.kmallocs)) mm := by
  intro k hk hk'
  have hdir := hm.ptr_apart_dir hf
  have hpage := hm.ptr_apart hf hm.kmallocs_ge (hm.kmallocs_lt hi ht)
  rw [newTable_ptr_table, newTable_mem_of_ne]
  · exact hu k hk hk'
  · omega
  · omega

/-- And its entries are stored elsewhere. -/
theorem Upper.store (hu : Upper s mm) (hm : Maps h c s mm f) (hf : Fresh h c) {i k : Nat} (hi : i < 512) (hk : k < 512)
    (ht : (s.tablesOf mm).page_tables i ≠ 0) (w : Nat) :
    Upper (s.setWord ((s.tablesOf mm).page_tables i + 8 * k) w) mm := by
  intro n hn hn'
  obtain ⟨j, h1, -, h3, h4⟩ := hm.table_call hi ht
  have hapart := hm.ptr_apart hf h1 h3
  rw [← h4] at hapart
  have hne : (s.tablesOf mm).ptr_table + 8 * n ≠ (s.tablesOf mm).page_tables i + 8 * k := by omega
  exact (Function.update_of_ne hne _ _).trans (hu n hn hn')

theorem Upper.get_pt_entry (hu : Upper s mm) (hm : Maps h c s mm f) (hf : Fresh h c) {i k e : Nat} (hi : i < 512)
    (hk : k < 512) (hrun : get_pt_entry h mm i k s = .ok (e, t)) : Upper t mm := by
  by_cases ht : (s.tablesOf mm).page_tables i = 0
  · rw [hm.get_pt_entry_absent hf hi hk ht] at hrun
    cases hrun
    exact hu.newTable hm hf hi ht
  · rw [hm.get_pt_entry_present hf hi hk ht] at hrun
    cases hrun
    exact hu

theorem map_pages_loop_upper (hf : Fresh h c) (fl pages : Nat) {s t : Vm} {f : Nat → Option Nat} {pd pt phys : Nat}
    (hu : Upper s mm) (hm : Maps h c s mm f) (hpt : pt < 512) (hle : 512 * pd + pt + pages ≤ 2 ^ 18)
    (hrun : map_pages_loop h mm fl pages pd pt phys s = .ok ((), t)) : Upper t mm := by
  induction pages generalizing s f pd pt phys with
  | zero =>
    cases hrun
    exact hu
  | succ pages ih =>
    have hpd : pd < 512 := by omega
    obtain ⟨s₁, hget, hm₁, ht, -⟩ := hm.get_pt_entry_spec hf hpd hpt
    have hne : (s₁.tablesOf mm).page_tables pd + 8 * pt ≠ 0 := by omega
    have hm₂ := hm₁.store hf hpd hpt ht (phys ||| PG_PRESENT ||| fl)
    have hu₂ := (hu.get_pt_entry hm hf hpd hpt hget).store hm₁ hf hpd hpt ht (phys ||| PG_PRESENT ||| fl)
    unfold map_pages_loop at hrun
    rw [Exec.bind_of_ok hget, Exec.bind_of_ok (load64_run hne s₁), Exec.bind_of_ok (store64_run hne _ s₁)] at hrun
    by_cases hlast : pt + 1 = 512
    · rw [if_pos hlast] at hrun
      exact ih hu₂ hm₂ (by omega) (by omega) hrun
    · rw [if_neg hlast] at hrun
      exact ih hu₂ hm₂ (by omega) (by omega) hrun

theorem Upper.mm_map (hu : Upper s mm) (hm : Maps h c s mm f) (hf : Fresh h c) {m : MapCall} (hr : m.InRange)
    (hrun : m.run h mm s = .ok ((), t)) : Upper t mm := by
  by_cases hidle : ¬ m.Aligned ∨ m.n = 0
  · rw [MapCall.run_idle hidle h mm s] at hrun
    cases hrun
    exact hu
  obtain ⟨hna, hn⟩ := not_or.1 hidle
  have ha := not_not.1 hna
  have hv := MapCall.page_count_mul_le ha.1 (by decide) (hr ha).1
  have hal := ha
  unfold MapCall.Aligned PAGESIZE at hal
  unfold MapCall.run Paging.mm_map map_pages at hrun
  -- aligned and not empty: the two early returns are not taken
  rw [if_neg (by unfold PAGESIZE; omega), if_neg (by omega)] at hrun
  refine map_pages_loop_upper hf _ _ hu hm (Nat.mod_lt _ (by decide)) ?_ hrun
  unfold PAGESIZE
  omega

theorem mapAll_upper (hf : Fresh h c) {calls : List MapCall} (hr : ∀ m ∈ calls, m.InRange) (hu : Upper s mm)
    (hm : Maps h c s mm f) (hrun : mapAll h mm calls s = .ok ((), t)) : Upper t mm := by
  induction calls generalizing s f with
  | nil =>
    cases hrun
    exact hu
  | cons m calls ih =>
    obtain ⟨s₁, hone, hm₁, -⟩ := mm_map_spec hm hf (hr m List.mem_cons_self)
    have hrest : mapAll h mm calls s₁ = .ok ((), t) := (Exec.bind_of_ok hone).symm.trans hrun
    exact ih (fun a ha => hr a (List.mem_cons_of_mem _ ha)) (hu.mm_map hm hf (hr m List.mem_cons_self) hone) hm₁ hrest

end Upper

/-- And no call below 1 GiB is about it. -/
theorem lastCall_high {calls : List MapCall} (hr : ∀ m ∈ calls, m.InRange) {v : Nat} (hv : 2 ^ 30 ≤ v) :
    lastCall calls v = none := by
  unfold lastCall
  rw [List.find?_eq_none]
  intro m hm hc
  obtain ⟨ha, -, -, hlt⟩ := of_decide_eq_true hc
  have hle := MapCall.page_count_mul_le ha.1 (by decide) (hr m (List.mem_reverse.1 hm) ha).1
  unfold PAGESIZE at hlt
  omega

/-! ## Past the last table -/

section Loop
variable {h : Kmalloc} {c mm : Nat} {s : Vm} {f : Nat → Option Nat}

/-- There is no table for the pages from 1 GiB on. -/
theorem get_pt_entry_outside (hm : Maps h c s mm f) (hf : Fresh h c) {pd : Nat} (hpd : 512 ≤ pd) (pt : Nat) :
    get_pt_entry h mm pd pt s = .error .outOfBounds := by
  have hload : load_page_table mm pd s = .error .outOfBounds := by
    unfold load_page_table
    rw [Exec.bind_of_ok (load_tables_run (hm.mm_ne hf) s), Exec.bind_of_ok (deref_tables_run (hm.tables_ne hf) s),
      if_neg (Nat.not_lt.2 hpd)]
    rfl
  exact Exec.bind_of_error hload

/-- A range that ends past the last table runs off `page_tables`. -/
theorem map_pages_loop_leaves (hf : Fresh h c) (fl pages : Nat) {s : Vm} {f : Nat → Option Nat} {pd pt : Nat}
    (phys : Nat)
    (hm : Maps h c s mm f) (hpt : pt < 512) (hpages : 0 < pages) (hlt : 2 ^ 18 < 512 * pd + pt + pages) :
    map_pages_loop h mm fl pages pd pt phys s = .error .outOfBounds := by
  induction pages generalizing s f pd pt phys with
  | zero => exact absurd hpages (Nat.lt_irrefl 0)
  | succ pages ih =>
    unfold map_pages_loop
    by_cases hpd : 512 ≤ pd
    · exact Exec.bind_of_error (get_pt_entry_outside hm hf hpd pt)
    -- the page is mapped, and the rest of the range still ends past the last table
    · obtain ⟨e, s₁, s₂, hget, hload, hstore, hm₂, -⟩ := map_page_spec hm hf (Nat.lt_of_not_le hpd) hpt phys fl
      rw [Exec.bind_of_ok hget, Exec.bind_of_ok hload, Exec.bind_of_ok hstore]
      by_cases hlast : pt + 1 = 512
      · rw [if_pos hlast]
        exact ih _ hm₂ (by omega) (by omega) (by omega)
      · rw [if_neg hlast]
        exact ih _ hm₂ (by omega) (by omega) (by omega)

end Loop

/-! ## One call -/

/-- The call stays inside `page_tables`, the tables and the directory; the pointer
table has that directory for every address of the range, and the entry of every
page holds the frame as far behind `start_phys` as the page is behind
`start_virt`. -/
def MapsInside (h : Kmalloc) (mm : Nat) (m : MapCall) (s : Vm) : Prop :=
  ∃ s', m.run h mm s = .ok ((), s') ∧ ∀ v, m.Covers v →
    s'.mem ((s'.tablesOf mm).ptr_table + 8 * (v / 2 ^ 30)) = (s'.tablesOf mm).page_dirs 0 ||| PG_PRESENT ∧
    s'.mem ((s'.tablesOf mm).page_tables (v / 2 ^ 21) + 8 * (v / 4096 % 512)) = m.entry v

section Call
variable {h : Kmalloc} {c mm : Nat} {s : Vm} {f : Nat → Option Nat} {m : MapCall}

/-- An entry that is mapped is stored in its table. -/
theorem Maps.mem_of_some (hm : Maps h c s mm f) {v w : Nat} (hv : v < 2 ^ 30) (hw : f (v / 4096) = some w) :
    s.mem ((s.tablesOf mm).page_tables (v / 2 ^ 21) + 8 * (v / 4096 % 512)) = w := by
  have hi : v / 2 ^ 21 < 512 := by omega
  have hk : v / 4096 % 512 < 512 := Nat.mod_lt _ (by decide)
  have hpage : 512 * (v / 2 ^ 21) + v / 4096 % 512 = v / 4096 := by omega
  rw [← hpage] at hw
  by_cases ht : (s.tablesOf mm).page_tables (v / 2 ^ 21) = 0
  · rw [hm.absent _ hi ht _ hk] at hw
    cases hw
  · rw [← hm.entry _ hi ht _ hk] at hw
    unfold pteOf at hw
    split at hw
    · exact Option.some.inj hw
    · cases hw

theorem mapsInside_of_inRange (hm : Maps h c s mm f) (hf : Fresh h c) (hr : m.InRange) : MapsInside h mm m s := by
  obtain ⟨s', hrun, hm', -⟩ := mm_map_spec hm hf hr
  refine ⟨s', hrun, fun v hv => ?_⟩
  have hlt : v < 2 ^ 30 := by
    have h1 := MapCall.page_count_mul_le hv.1.1 (by decide) (hr hv.1).1
    have h2 := hv.2.2.2
    unfold PAGESIZE at h2
    omega
  have hone : v / 2 ^ 30 = 0 := Nat.div_eq_of_lt hlt
  have hentry : m.apply f (v / 4096) = some (m.entry v) := by
    have hpage := MapCall.entry_page m v
    unfold MapCall.apply overlay
    rw [if_pos ((MapCall.covers_page v).2 hv), ← hpage]
  refine ⟨?_, hm'.mem_of_some hlt hentry⟩
  rw [hone]
  exact hm'.pdpte

/-- A range past 1 GiB ends outside `page_tables`. -/
theorem mm_map_leaves (hm : Maps h c s mm f) (hf : Fresh h c) (ha : m.Aligned) (hn : m.n ≠ 0)
    (hlt : 2 ^ 30 < m.start_virt + m.n) : m.run h mm s = .error .outOfBounds := by
  have hal := ha
  unfold MapCall.Aligned PAGESIZE at hal
  have hcount : 0 < page_count m.n ∧ m.n ≤ page_count m.n * 4096 := by
    unfold page_count PAGESIZE
    split <;> omega
  unfold MapCall.run mm_map map_pages
  rw [if_neg (by unfold PAGESIZE; omega), if_neg (by omega)]
  refine map_pages_loop_leaves hf m.crflags _ _ hm (Nat.mod_lt _ (by decide)) hcount.1 ?_
  unfold PAGESIZE
  omega

/-- A range of frames past 4 GiB goes on at frame 0. -/
theorem mm_map_wraps (hm : Maps h c s mm f) (hf : Fresh h c) (ha : m.Aligned) (hn : m.n ≠ 0)
    (hv : m.start_virt + m.n ≤ 2 ^ 30) (hp : m.start_phys < 2 ^ 32) (hlt : 2 ^ 32 < m.start_phys + m.n)
    (hfl : m.crflags < 2 ^ 32) : ¬ MapsInside h mm m s := by
  rintro ⟨s', hrun, hall⟩
  obtain ⟨s₁, hrun₁, hm₁, -⟩ := mm_map_run hm hf ha hn hv hp
  rw [hrun] at hrun₁
  cases hrun₁
  have hal := ha
  unfold MapCall.Aligned PAGESIZE at hal
  have hend := MapCall.page_count_mul_le ha.1 (by decide) hv
  have hcount : 0 < page_count m.n ∧ m.n ≤ page_count m.n * 4096 := by
    unfold page_count PAGESIZE
    split <;> omega
  -- the last page of the range
  obtain ⟨k, hk⟩ := Nat.exists_eq_add_of_lt hcount.1
  have hcov : m.Covers (m.start_virt + 4096 * k) := by
    refine ⟨ha, by omega, by omega, ?_⟩
    unfold PAGESIZE
    omega
  have hmap : mapRange f (m.start_virt / 4096) (page_count m.n) m.start_phys m.crflags
      ((m.start_virt + 4096 * k) / 4096)
      = some (add32 m.start_phys (4096 * k) ||| PG_PRESENT ||| m.crflags) := by
    unfold mapRange
    rw [if_pos (by omega)]
    congr 4
    omega
  have hstored := hm₁.mem_of_some (by omega) hmap
  rw [(hall _ hcov).2] at hstored
  have hsmall : add32 m.start_phys (4096 * k) ||| PG_PRESENT ||| m.crflags < 2 ^ 32 :=
    Nat.or_lt_two_pow (Nat.or_lt_two_pow (add32_lt _ _) (by decide)) hfl
  have hlarge : m.frame (m.start_virt + 4096 * k) ≤ m.entry (m.start_virt + 4096 * k) :=
    Nat.left_le_or.trans Nat.left_le_or
  have hframe : m.frame (m.start_virt + 4096 * k) = m.start_phys + 4096 * k := by
    unfold MapCall.frame PAGESIZE
    omega
  omega

/-- A call on page-aligned addresses stays inside the tables, with every frame
number as it should be, if and only if its range is empty, or ends within 1 GiB
of virtual and within 4 GiB of physical addresses. -/
theorem mm_map_inside_iff (hm : Maps h c s mm f) (hf : Fresh h c) (ha : m.Aligned) (hphys : m.start_phys < 2 ^ 32)
    (hfl : m.crflags < 2 ^ 32) :
    MapsInside h mm m s ↔ m.n = 0 ∨ (m.start_virt + m.n ≤ 2 ^ 30 ∧ m.start_phys + m.n ≤ 2 ^ 32) := by
  by_cases hn : m.n = 0
  · refine iff_of_true ⟨s, MapCall.run_idle (.inr hn) h mm s, fun v hv => ?_⟩ (.inl hn)
    exact absurd hn (Nat.pos_iff_ne_zero.1 hv.2.1)
  constructor
  · intro hin
    refine .inr ⟨Nat.le_of_not_lt fun hlt => ?_, Nat.le_of_not_lt fun hlt => ?_⟩
    · obtain ⟨s', hrun, -⟩ := hin
      rw [mm_map_leaves hm hf ha hn hlt] at hrun
      cases hrun
    · by_cases hv : m.start_virt + m.n ≤ 2 ^ 30
      · exact mm_map_wraps hm hf ha hn hv hphys hlt hfl hin
      · obtain ⟨s', hrun, -⟩ := hin
        rw [mm_map_leaves hm hf ha hn (Nat.lt_of_not_le hv)] at hrun
        cases hrun
  · rintro (h0 | hr)
    · exact absurd h0 hn
    · exact mapsInside_of_inRange hm hf fun _ => hr

end Call

/-- The last page below 1 GiB, in a new address space. -/
theorem mm_map_inside_last : ∃ s, mk_mmap pageHeap zeroVm = .ok (4096, s) ∧
    MapsInside pageHeap 4096 ⟨0x3ffff000, 0xfffff000, 4096, 3⟩ s := by
  obtain ⟨s, hb, -, -, htab, -, -, hpt, -⟩ := mk_mmap_run (s := zeroVm) pageHeap_fresh
  have hnull : ∀ i < 512, (s.tablesOf 4096).page_tables i = 0 := fun i _ => congrFun hpt i
  have hm := mk_mmap_maps (s := zeroVm) pageHeap_fresh rfl hb hnull
  exact ⟨s, hb, (mm_map_inside_iff hm pageHeap_fresh ⟨rfl, rfl⟩ (by decide) (by decide)).2
    (.inr ⟨by decide, by decide⟩)⟩

/-- The first page of the kernel heap is outside. -/
theorem mm_map_heap_outside : ∃ s, mk_mmap pageHeap zeroVm = .ok (4096, s) ∧
    mm_map pageHeap 4096 0xc0000000 0 4096 3 s = .error .outOfBounds := by
  obtain ⟨s, hb, -, -, htab, -, -, hpt, -⟩ := mk_mmap_run (s := zeroVm) pageHeap_fresh
  have hnull : ∀ i < 512, (s.tablesOf 4096).page_tables i = 0 := fun i _ => congrFun hpt i
  have hm := mk_mmap_maps (s := zeroVm) pageHeap_fresh rfl hb hnull
  exact ⟨s, hb, mm_map_leaves (m := ⟨0xc0000000, 0, 4096, 3⟩) hm pageHeap_fresh ⟨rfl, rfl⟩ (by decide) (by decide)⟩

end Ulmix.Paging

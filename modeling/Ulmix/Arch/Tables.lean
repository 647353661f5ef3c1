import Ulmix.Arch.Paging
import Ulmix.Lib.Bits
/-!
# Page tables as a map from pages to entries

`Maps h c s mm f` says that the tables of `mm` stand for `f`: page `512 i + k`
has entry `k` of table `i`, and none when table `i` was never made. The tables
are blocks of different `kmalloc` calls, so a store to one leaves the others
alone. Making an empty table keeps `f`; storing an entry changes it at one page;
the processor's walk reads it off.
-/
open Ulmix.Lib

namespace Ulmix.Paging

/-! ## What kmalloc promises -/

/-- From call `c` on, for as many calls as an address space takes: aligned
blocks inside memory that do not overlap. -/
structure Fresh (h : Kmalloc) (c : Nat) : Prop where
  pos : ∀ i, c ≤ i → i < c + 516 → ∀ size align, size ≤ 4096 → align ∣ 4096 → 0 < h i size align
  aligned : ∀ i, c ≤ i → i < c + 516 → ∀ size align, size ≤ 4096 → align ∣ 4096 → align ∣ h i size align
  inside : ∀ i, c ≤ i → i < c + 516 → ∀ size align, size ≤ 4096 → align ∣ 4096 → h i size align + size ≤ 2 ^ 32
  apart : ∀ i j, c ≤ i → i < j → j < c + 516 → ∀ size align size' align', size ≤ 4096 → align ∣ 4096 →
    size' ≤ 4096 → align' ∣ 4096 →
    h i size align + size ≤ h j size' align' ∨ h j size' align' + size' ≤ h i size align

/-- The page-sized block of call `i`. -/
def page (h : Kmalloc) (i : Nat) : Nat := h i 4096 4096

namespace Fresh

variable {h : Kmalloc} {c i j : Nat}

theorem page_pos (hf : Fresh h c) (hi : c ≤ i) (hi' : i < c + 516) : 0 < page h i :=
  hf.pos i hi hi' 4096 4096 le_rfl dvd_rfl

theorem page_dvd (hf : Fresh h c) (hi : c ≤ i) (hi' : i < c + 516) : 4096 ∣ page h i :=
  hf.aligned i hi hi' 4096 4096 le_rfl dvd_rfl

theorem page_le (hf : Fresh h c) (hi : c ≤ i) (hi' : i < c + 516) : page h i + 4096 ≤ 2 ^ 32 :=
  hf.inside i hi hi' 4096 4096 le_rfl dvd_rfl

theorem page_apart (hf : Fresh h c) (hi : c ≤ i) (hij : i < j) (hj : j < c + 516) :
    page h i + 4096 ≤ page h j ∨ page h j + 4096 ≤ page h i :=
  hf.apart i j hi hij hj 4096 4096 4096 4096 le_rfl dvd_rfl le_rfl dvd_rfl

/-- Pages of different calls do not overlap. -/
theorem page_apart' (hf : Fresh h c) (hi : c ≤ i) (hi' : i < c + 516) (hj : c ≤ j) (hj' : j < c + 516) (hij : i ≠ j) :
    page h i + 4096 ≤ page h j ∨ page h j + 4096 ≤ page h i := by
  rcases Nat.lt_or_gt_of_ne hij with h' | h'
  · exact hf.page_apart hi h' hj'
  · exact (hf.page_apart hj h' hi').symm

end Fresh

/-! ## The primitives -/

section Prims
variable {s : Vm} {mm t a i : Nat}

@[simp] theorem kmalloc_run (h : Kmalloc) (size align : Nat) (s : Vm) :
    kmalloc h size align s = .ok (h s.kmallocs size align, { s with kmallocs := s.kmallocs + 1 }) := rfl

theorem bzero_run (ha : a ≠ 0) (n : Nat) (s : Vm) :
    bzero a n s = .ok ((), { s with mem := fun b => if a ≤ b ∧ b < a + n then 0 else s.mem b }) := by
  simp [bzero, ha]

theorem load64_run (ha : a ≠ 0) (s : Vm) : load64 a s = .ok (s.mem a, s) := by
  simp [load64, ha, Exec.bind_apply]

theorem store64_run (ha : a ≠ 0) (w : Nat) (s : Vm) : store64 a w s = .ok ((), s.setWord a w) := by
  simp [store64, ha]

theorem entry_at_run (ha : a ≠ 0) (ha' : a + 4096 ≤ 2 ^ 32) (hi : i < 512) (s : Vm) :
    entry_at a i s = .ok (a + 8 * i, s) := by
  simp [entry_at, ha, hi, add32_eq (show a + 8 * i < 2 ^ 32 by omega)]

theorem load_tables_run (hm : mm ≠ 0) (s : Vm) : load_tables mm s = .ok ((s.mms mm).tables, s) := by
  simp [load_tables, hm, Exec.bind_apply]

theorem deref_tables_run (ht : t ≠ 0) (s : Vm) : deref_tables t s = .ok (s.tables t, s) := by
  simp [deref_tables, ht, Exec.bind_apply]

theorem store_tables_run (ht : t ≠ 0) (f : MmTables → MmTables) (s : Vm) :
    store_tables t f s = .ok ((), s.setTables t f) := by
  simp [store_tables, ht]

theorem store_mm_run (hm : mm ≠ 0) (f : MmStruct → MmStruct) (s : Vm) : store_mm mm f s = .ok ((), s.setMm mm f) := by
  simp [store_mm, hm]

theorem load_page_table_run (hm : mm ≠ 0) (ht : (s.mms mm).tables ≠ 0) (hi : i < 512) :
    load_page_table mm i s = .ok ((s.tablesOf mm).page_tables i, s) := by
  unfold load_page_table
  rw [Exec.bind_of_ok (load_tables_run hm s), Exec.bind_of_ok (deref_tables_run ht s), if_pos hi]
  rfl

/-- Without an address space in use, addresses are physical. -/
theorem mm_physical_off (hs : s.current_mm = 0) (a : Nat) : mm_physical a s = .ok (a, s) := by
  simp [mm_physical, Exec.bind_apply, hs]

end Prims

/-! ## Entries -/

/-- The entry `w`, if it is present. -/
def pteOf (w : Nat) : Option Nat := if w.testBit 0 then some w else none

/-- The directory entry for the page table at `p`. -/
def pdeOf (p : Nat) : Nat := p ||| PG_PRESENT ||| PG_USER ||| PG_RDWR

theorem pdeOf_eq (p : Nat) : pdeOf p = p ||| 7 := by
  unfold pdeOf
  rw [Nat.or_assoc, Nat.or_assoc]
  rfl

@[simp] theorem pteOf_zero : pteOf 0 = none := by decide

theorem pteOf_present (a fl : Nat) : pteOf (a ||| PG_PRESENT ||| fl) = some (a ||| PG_PRESENT ||| fl) := by
  have h : (a ||| PG_PRESENT ||| fl).testBit 0 = true := by
    have h1 : PG_PRESENT.testBit 0 = true := by decide
    rw [Nat.testBit_or, Nat.testBit_or, h1, Bool.or_true, Bool.true_or]
  exact if_pos h

/-- The flags of an entry do not disturb its address. -/
theorem entryBase_or {p b : Nat} (hp : 4096 ∣ p) (hp' : p + 4096 ≤ 2 ^ 32) (hb : b < 4096) :
    entryBase (p ||| b) = p := by
  unfold entryBase
  rw [or_eq_add (k := 12) hp hb]
  omega

theorem low_or {p b : Nat} (hp : 4096 ∣ p) (hb : b < 4096) : (p ||| b) % 4096 = b := by
  rw [or_eq_add (k := 12) hp hb]
  omega

/-! ## Representation -/

/-- The tables of `mm` were made by `kmalloc` calls from `c` on, and stand for `f`. -/
structure Maps (h : Kmalloc) (c : Nat) (s : Vm) (mm : Nat) (f : Nat → Option Nat) : Prop where
  off : s.current_mm = 0
  mm_at : mm = h c 8 1
  tables_at : (s.mms mm).tables = h (c + 1) 2068 1
  dir_at : (s.tablesOf mm).page_dirs 0 = page h (c + 2)
  ptr_at : (s.tablesOf mm).ptr_table = h (c + 3) 32 32
  /-- A page table is the page of a later call. -/
  table_at : ∀ i < 512, (s.tablesOf mm).page_tables i ≠ 0 →
    ∃ j, c + 4 ≤ j ∧ j < s.kmallocs ∧ (s.tablesOf mm).page_tables i = page h j
  distinct : ∀ i < 512, ∀ j < 512, (s.tablesOf mm).page_tables i ≠ 0 →
    (s.tablesOf mm).page_tables i = (s.tablesOf mm).page_tables j → i = j
  /-- One call for each table. -/
  count : s.kmallocs = c + 4 + ((Finset.range 512).filter fun i => (s.tablesOf mm).page_tables i ≠ 0).card
  pdpte : s.mem (s.tablesOf mm).ptr_table = (s.tablesOf mm).page_dirs 0 ||| PG_PRESENT
  pde : ∀ i < 512, s.mem ((s.tablesOf mm).page_dirs 0 + 8 * i)
    = if (s.tablesOf mm).page_tables i = 0 then 0 else pdeOf ((s.tablesOf mm).page_tables i)
  absent : ∀ i < 512, (s.tablesOf mm).page_tables i = 0 → ∀ k < 512, f (512 * i + k) = none
  entry : ∀ i < 512, (s.tablesOf mm).page_tables i ≠ 0 → ∀ k < 512,
    pteOf (s.mem ((s.tablesOf mm).page_tables i + 8 * k)) = f (512 * i + k)

namespace Maps

variable {h : Kmalloc} {c : Nat} {s : Vm} {mm : Nat} {f : Nat → Option Nat} {i j k : Nat}

theorem mm_ne (hm : Maps h c s mm f) (hf : Fresh h c) : mm ≠ 0 := by
  have := hf.pos c le_rfl (by omega) 8 1 (by omega) (one_dvd _)
  rw [← hm.mm_at] at this
  omega

theorem tables_ne (hm : Maps h c s mm f) (hf : Fresh h c) : (s.mms mm).tables ≠ 0 := by
  have := hf.pos (c + 1) (by omega) (by omega) 2068 1 (by omega) (one_dvd _)
  rw [hm.tables_at]
  omega

/-- While a table is missing, the calls counted on have not run out. -/
theorem kmallocs_lt (hm : Maps h c s mm f) (hi : i < 512) (ht : (s.tablesOf mm).page_tables i = 0) :
    s.kmallocs < c + 516 := by
  have hlt : ((Finset.range 512).filter fun i => (s.tablesOf mm).page_tables i ≠ 0).card < (Finset.range 512).card := by
    apply Finset.card_lt_card
    refine ⟨Finset.filter_subset _ _, fun hsub => ?_⟩
    have := hsub (Finset.mem_range.2 hi)
    simp [ht] at this
  rw [Finset.card_range] at hlt
  have := hm.count
  omega

theorem kmallocs_le (hm : Maps h c s mm f) : s.kmallocs ≤ c + 516 := by
  have hle := Finset.card_filter_le (Finset.range 512) fun i => (s.tablesOf mm).page_tables i ≠ 0
  rw [Finset.card_range] at hle
  have := hm.count
  omega

theorem kmallocs_ge (hm : Maps h c s mm f) : c + 4 ≤ s.kmallocs := by
  have := hm.count
  omega

/-- The call a table came from. -/
theorem table_call (hm : Maps h c s mm f) (hi : i < 512) (ht : (s.tablesOf mm).page_tables i ≠ 0) :
    ∃ j, c + 4 ≤ j ∧ j < s.kmallocs ∧ j < c + 516 ∧ (s.tablesOf mm).page_tables i = page h j := by
  obtain ⟨j, h1, h2, h3⟩ := hm.table_at i hi ht
  have := hm.kmallocs_le
  exact ⟨j, h1, h2, by omega, h3⟩

theorem dir_ne (hm : Maps h c s mm f) (hf : Fresh h c) : (s.tablesOf mm).page_dirs 0 ≠ 0 := by
  have := hf.page_pos (i := c + 2) (by omega) (by omega)
  rw [hm.dir_at]
  omega

theorem dir_dvd (hm : Maps h c s mm f) (hf : Fresh h c) : 4096 ∣ (s.tablesOf mm).page_dirs 0 := by
  rw [hm.dir_at]
  exact hf.page_dvd (by omega) (by omega)

theorem dir_le (hm : Maps h c s mm f) (hf : Fresh h c) : (s.tablesOf mm).page_dirs 0 + 4096 ≤ 2 ^ 32 := by
  rw [hm.dir_at]
  exact hf.page_le (by omega) (by omega)

theorem table_dvd (hm : Maps h c s mm f) (hf : Fresh h c) (hi : i < 512) (ht : (s.tablesOf mm).page_tables i ≠ 0) :
    4096 ∣ (s.tablesOf mm).page_tables i := by
  obtain ⟨j, h1, h2, h3, h4⟩ := hm.table_call hi ht
  rw [h4]
  exact hf.page_dvd (by omega) h3

theorem table_le (hm : Maps h c s mm f) (hf : Fresh h c) (hi : i < 512) (ht : (s.tablesOf mm).page_tables i ≠ 0) :
    (s.tablesOf mm).page_tables i + 4096 ≤ 2 ^ 32 := by
  obtain ⟨j, h1, h2, h3, h4⟩ := hm.table_call hi ht
  rw [h4]
  exact hf.page_le (by omega) h3

/-! ### No two tables overlap -/

theorem table_apart_dir (hm : Maps h c s mm f) (hf : Fresh h c) (hi : i < 512)
    (ht : (s.tablesOf mm).page_tables i ≠ 0) :
    (s.tablesOf mm).page_dirs 0 + 4096 ≤ (s.tablesOf mm).page_tables i ∨
      (s.tablesOf mm).page_tables i + 4096 ≤ (s.tablesOf mm).page_dirs 0 := by
  obtain ⟨j, h1, h2, h3, h4⟩ := hm.table_call hi ht
  rw [h4, hm.dir_at]
  exact hf.page_apart (by omega) (by omega) h3

theorem table_apart (hm : Maps h c s mm f) (hf : Fresh h c) (hi : i < 512) (hj : j < 512) (hij : i ≠ j)
    (ht : (s.tablesOf mm).page_tables i ≠ 0) (ht' : (s.tablesOf mm).page_tables j ≠ 0) :
    (s.tablesOf mm).page_tables i + 4096 ≤ (s.tablesOf mm).page_tables j ∨
      (s.tablesOf mm).page_tables j + 4096 ≤ (s.tablesOf mm).page_tables i := by
  obtain ⟨a, h1, h2, h3, h4⟩ := hm.table_call hi ht
  obtain ⟨b, h1', h2', h3', h4'⟩ := hm.table_call hj ht'
  have hab : a ≠ b := by
    intro he
    apply hij
    apply hm.distinct i hi j hj ht
    rw [h4, h4', he]
  rw [h4, h4']
  exact hf.page_apart' (by omega) h3 (by omega) h3' hab

/-- The pointer table ends before a page handed out later begins, or the other way round. -/
theorem ptr_apart (hm : Maps h c s mm f) (hf : Fresh h c) (hj : c + 4 ≤ j) (hj' : j < c + 516) :
    (s.tablesOf mm).ptr_table + 32 ≤ page h j ∨ page h j + 4096 ≤ (s.tablesOf mm).ptr_table := by
  rw [hm.ptr_at]
  exact hf.apart (c + 3) j (by omega) (by omega) hj' 32 32 4096 4096 (by omega) (by decide) le_rfl dvd_rfl

theorem ptr_apart_dir (hm : Maps h c s mm f) (hf : Fresh h c) :
    (s.tablesOf mm).page_dirs 0 + 4096 ≤ (s.tablesOf mm).ptr_table ∨
      (s.tablesOf mm).ptr_table + 32 ≤ (s.tablesOf mm).page_dirs 0 := by
  rw [hm.ptr_at, hm.dir_at]
  exact hf.apart (c + 2) (c + 3) (by omega) (by omega) (by omega) 4096 4096 32 32 le_rfl dvd_rfl (by omega) (by decide)

/-! ## Storing an entry -/

/-- A store to entry `k` of table `i` changes page `512 i + k` and no other. -/
theorem store (hm : Maps h c s mm f) (hf : Fresh h c) (hi : i < 512) (hk : k < 512)
    (ht : (s.tablesOf mm).page_tables i ≠ 0) (w : Nat) :
    Maps h c (s.setWord ((s.tablesOf mm).page_tables i + 8 * k) w) mm (Function.update f (512 * i + k) (pteOf w)) where
  off := hm.off
  mm_at := hm.mm_at
  tables_at := hm.tables_at
  dir_at := hm.dir_at
  ptr_at := hm.ptr_at
  table_at := hm.table_at
  distinct := hm.distinct
  count := hm.count
  pdpte := by
    have hne : (s.tablesOf mm).ptr_table ≠ (s.tablesOf mm).page_tables i + 8 * k := by
      obtain ⟨j, h1, h2, h3, h4⟩ := hm.table_call hi ht
      have := hm.ptr_apart hf h1 h3
      rw [← h4] at this
      omega
    exact (Function.update_of_ne hne _ _).trans hm.pdpte
  pde := by
    intro n hn
    have hne : (s.tablesOf mm).page_dirs 0 + 8 * n ≠ (s.tablesOf mm).page_tables i + 8 * k := by
      have := hm.table_apart_dir hf hi ht
      omega
    exact (Function.update_of_ne hne _ _).trans (hm.pde n hn)
  absent := by
    intro n hn htn m hm'
    have hne : n ≠ i := by
      rintro rfl
      exact ht htn
    rw [Function.update_of_ne (by omega)]
    exact hm.absent n hn htn m hm'
  entry := by
    intro n hn htn m hm'
    by_cases hni : n = i
    · subst hni
      by_cases hmk : m = k
      · subst hmk
        rw [Function.update_self]
        exact congrArg pteOf (Function.update_self _ _ _)
      · rw [Function.update_of_ne (by omega)]
        exact (congrArg pteOf (Function.update_of_ne (show (s.tablesOf mm).page_tables n + 8 * m ≠ _ by omega) _ _)).trans
          (hm.entry n hn htn m hm')
    · have := hm.table_apart hf hn hi hni htn ht
      rw [Function.update_of_ne (by omega)]
      exact (congrArg pteOf (Function.update_of_ne (show (s.tablesOf mm).page_tables n + 8 * m ≠ _ by omega) _ _)).trans
        (hm.entry n hn htn m hm')

end Maps

/-! ## Making a table -/

/-- The state once the page at `p` became table `i` of `mm`. -/
def Vm.newTable (s : Vm) (mm i p : Nat) : Vm :=
  ({ s with
      mem := fun b => if p ≤ b ∧ b < p + 4096 then 0 else s.mem b
      kmallocs := s.kmallocs + 1 }.setTables (s.mms mm).tables
    fun t => { t with page_tables := Function.update t.page_tables i p }).setWord
      ((s.tablesOf mm).page_dirs 0 + 8 * i) (pdeOf p)

theorem newTable_tablesOf (s : Vm) (mm i p : Nat) :
    (s.newTable mm i p).tablesOf mm
      = { s.tablesOf mm with page_tables := Function.update (s.tablesOf mm).page_tables i p } :=
  Function.update_self _ _ _

theorem newTable_page_tables (s : Vm) (mm i p j : Nat) :
    ((s.newTable mm i p).tablesOf mm).page_tables j = if j = i then p else (s.tablesOf mm).page_tables j := by
  rw [newTable_tablesOf]
  exact Function.update_apply _ _ _ _

@[simp] theorem newTable_page_dirs (s : Vm) (mm i p : Nat) :
    ((s.newTable mm i p).tablesOf mm).page_dirs = (s.tablesOf mm).page_dirs := by
  rw [newTable_tablesOf]

@[simp] theorem newTable_ptr_table (s : Vm) (mm i p : Nat) :
    ((s.newTable mm i p).tablesOf mm).ptr_table = (s.tablesOf mm).ptr_table := by
  rw [newTable_tablesOf]

/-- Outside the page and the directory entry, memory is as it was. -/
theorem newTable_mem_of_ne (s : Vm) (mm i p : Nat) {b : Nat} (hb : b ≠ (s.tablesOf mm).page_dirs 0 + 8 * i)
    (hb' : b < p ∨ p + 4096 ≤ b) : (s.newTable mm i p).mem b = s.mem b := by
  have hn : ¬ (p ≤ b ∧ b < p + 4096) := by omega
  exact (Function.update_of_ne hb _ _).trans (if_neg hn)

theorem newTable_mem_page (s : Vm) (mm i p : Nat) {b : Nat} (hb : b ≠ (s.tablesOf mm).page_dirs 0 + 8 * i)
    (hb' : p ≤ b) (hb'' : b < p + 4096) : (s.newTable mm i p).mem b = 0 := by
  exact (Function.update_of_ne hb _ _).trans (if_pos ⟨hb', hb''⟩)

theorem newTable_mem_dir (s : Vm) (mm i p : Nat) :
    (s.newTable mm i p).mem ((s.tablesOf mm).page_dirs 0 + 8 * i) = pdeOf p :=
  Function.update_self _ _ _

namespace Maps

variable {h : Kmalloc} {c : Nat} {s : Vm} {mm : Nat} {f : Nat → Option Nat} {i k : Nat}

/-- One more table, one more call. -/
theorem card_newTable (hi : i < 512) (ht : (s.tablesOf mm).page_tables i = 0) {p : Nat} (hp : p ≠ 0) :
    ((Finset.range 512).filter fun j => ((s.newTable mm i p).tablesOf mm).page_tables j ≠ 0).card
      = ((Finset.range 512).filter fun j => (s.tablesOf mm).page_tables j ≠ 0).card + 1 := by
  have hins : (Finset.range 512).filter (fun j => ((s.newTable mm i p).tablesOf mm).page_tables j ≠ 0)
      = insert i ((Finset.range 512).filter fun j => (s.tablesOf mm).page_tables j ≠ 0) := by
    ext j
    rw [Finset.mem_filter, Finset.mem_insert, Finset.mem_filter, newTable_page_tables]
    by_cases hj : j = i
    · simp [hj, hi, hp]
    · simp [hj]
  rw [hins, Finset.card_insert_of_notMem]
  simp [ht]

/-- The page of the next call is apart from every table made so far. -/
theorem next_apart (hm : Maps h c s mm f) (hf : Fresh h c) (hk : s.kmallocs < c + 516) (hi : i < 512)
    (ht : (s.tablesOf mm).page_tables i ≠ 0) :
    (s.tablesOf mm).page_tables i + 4096 ≤ page h s.kmallocs ∨
      page h s.kmallocs + 4096 ≤ (s.tablesOf mm).page_tables i := by
  obtain ⟨j, h1, h2, h3, h4⟩ := hm.table_call hi ht
  rw [h4]
  exact hf.page_apart (by omega) h2 hk

/-- A new table is empty: what is mapped stays the same. -/
theorem newTable (hm : Maps h c s mm f) (hf : Fresh h c) (hi : i < 512) (ht : (s.tablesOf mm).page_tables i = 0) :
    Maps h c (s.newTable mm i (page h s.kmallocs)) mm f := by
  have hk := hm.kmallocs_lt hi ht
  have hge := hm.kmallocs_ge
  have hp := hf.page_pos (by omega) hk
  have hdir : (s.tablesOf mm).page_dirs 0 + 4096 ≤ page h s.kmallocs ∨
      page h s.kmallocs + 4096 ≤ (s.tablesOf mm).page_dirs 0 := by
    rw [hm.dir_at]
    exact hf.page_apart (by omega) (by omega) hk
  refine ⟨hm.off, hm.mm_at, hm.tables_at, ?_, ?_, ?_, ?_, ?_, ?_, ?_, ?_, ?_⟩
  · rw [newTable_page_dirs]
    exact hm.dir_at
  · rw [newTable_ptr_table]
    exact hm.ptr_at
  · intro j hj htj
    rw [newTable_page_tables] at htj ⊢
    by_cases hji : j = i
    · rw [if_pos hji]
      exact ⟨s.kmallocs, hge, Nat.lt_succ_self _, rfl⟩
    · rw [if_neg hji] at htj ⊢
      obtain ⟨a, h1, h2, h3⟩ := hm.table_at j hj htj
      exact ⟨a, h1, Nat.lt_succ_of_lt h2, h3⟩
  · intro a ha b hb hta hab
    rw [newTable_page_tables] at hta hab
    rw [newTable_page_tables] at hab
    by_cases hai : a = i
    · by_cases hbi : b = i
      · rw [hai, hbi]
      · rw [if_pos hai, if_neg hbi] at hab
        have := hm.next_apart hf hk hb (by omega)
        omega
    · rw [if_neg hai] at hta hab
      by_cases hbi : b = i
      · rw [if_pos hbi] at hab
        have := hm.next_apart hf hk ha hta
        omega
      · rw [if_neg hbi] at hab
        exact hm.distinct a ha b hb hta hab
  · rw [card_newTable hi ht (by omega)]
    have := hm.count
    show s.kmallocs + 1 = _
    omega
  · rw [newTable_ptr_table, newTable_page_dirs]
    have h1 := hm.ptr_apart hf hge hk
    have h2 := hm.ptr_apart_dir hf
    exact (newTable_mem_of_ne s mm i _ (by omega) (by omega)).trans hm.pdpte
  · intro j hj
    rw [newTable_page_tables, newTable_page_dirs]
    by_cases hji : j = i
    · subst hji
      rw [if_pos rfl, if_neg (by omega)]
      exact newTable_mem_dir s mm j _
    · rw [if_neg hji]
      exact (newTable_mem_of_ne s mm i _ (by omega) (by omega)).trans (hm.pde j hj)
  · intro j hj htj
    rw [newTable_page_tables] at htj
    by_cases hji : j = i
    · rw [if_pos hji] at htj
      omega
    · rw [if_neg hji] at htj
      exact hm.absent j hj htj
  · intro j hj htj m hm'
    rw [newTable_page_tables] at htj ⊢
    by_cases hji : j = i
    · subst hji
      rw [if_pos rfl, newTable_mem_page s mm j _ (by omega) (by omega) (by omega), hm.absent j hj ht m hm']
      exact pteOf_zero
    · rw [if_neg hji] at htj ⊢
      have := hm.next_apart hf hk hj htj
      have := hm.table_apart_dir hf hj htj
      rw [newTable_mem_of_ne s mm i _ (by omega) (by omega)]
      exact hm.entry j hj htj m hm'

/-! ## get_pt_entry -/

theorem get_pt_entry_present (hm : Maps h c s mm f) (hf : Fresh h c) (hi : i < 512) (hk : k < 512)
    (ht : (s.tablesOf mm).page_tables i ≠ 0) :
    get_pt_entry h mm i k s = .ok ((s.tablesOf mm).page_tables i + 8 * k, s) := by
  have hrun : load_page_table mm i s = _ := load_page_table_run (hm.mm_ne hf) (hm.tables_ne hf) hi
  unfold get_pt_entry
  rw [Exec.bind_of_ok hrun, if_neg ht]
  show (load_page_table mm i >>= fun t => entry_at t k) s = _
  rw [Exec.bind_of_ok hrun]
  exact entry_at_run ht (hm.table_le hf hi ht) hk s

theorem get_pt_entry_absent (hm : Maps h c s mm f) (hf : Fresh h c) (hi : i < 512) (hk : k < 512)
    (ht : (s.tablesOf mm).page_tables i = 0) :
    get_pt_entry h mm i k s = .ok (page h s.kmallocs + 8 * k, s.newTable mm i (page h s.kmallocs)) := by
  have hlt := hm.kmallocs_lt hi ht
  have hge := hm.kmallocs_ge
  have hp := hf.page_pos (by omega) hlt
  have hmm := hm.mm_ne hf
  have htab := hm.tables_ne hf
  -- the state after each statement up to the directory entry
  let s₁ : Vm := { s with kmallocs := s.kmallocs + 1 }
  let s₂ : Vm := { s₁ with mem := fun b => if page h s.kmallocs ≤ b ∧ b < page h s.kmallocs + 4096 then 0 else s.mem b }
  let s₃ : Vm := s₂.setTables (s.mms mm).tables fun t =>
    { t with page_tables := Function.update t.page_tables i (page h s.kmallocs) }
  have hdir : (s₃.tables (s.mms mm).tables).page_dirs 0 = (s.tablesOf mm).page_dirs 0 := by
    show (Function.update s.tables (s.mms mm).tables _ (s.mms mm).tables).page_dirs 0 = _
    rw [Function.update_self]
    rfl
  have hnew : load_page_table mm i (s.newTable mm i (page h s.kmallocs)) = _ := load_page_table_run hmm htab hi
  have hnew_at : ((s.newTable mm i (page h s.kmallocs)).tablesOf mm).page_tables i = page h s.kmallocs := by
    rw [newTable_page_tables, if_pos rfl]
  unfold get_pt_entry
  rw [Exec.bind_of_ok (load_page_table_run hmm htab hi), if_pos ht]
  refine (Exec.bind_of_ok (kmalloc_run h _ _ s)).trans ?_
  refine (Exec.bind_of_ok (show bzero _ _ s₁ = .ok ((), s₂) from bzero_run (Nat.pos_iff_ne_zero.1 hp) 4096 s₁)).trans ?_
  refine (Exec.bind_of_ok (load_tables_run hmm s₂)).trans ?_
  refine (Exec.bind_of_ok (show store_tables _ _ s₂ = .ok ((), s₃) from store_tables_run htab _ s₂)).trans ?_
  refine (Exec.bind_of_ok (mm_physical_off (s := s₃) hm.off _)).trans ?_
  refine (Exec.bind_of_ok (load_tables_run hmm s₃)).trans ?_
  refine (Exec.bind_of_ok (deref_tables_run htab s₃)).trans ?_
  rw [hdir]
  refine (Exec.bind_of_ok (entry_at_run (hm.dir_ne hf) (hm.dir_le hf) hi s₃)).trans ?_
  have hne : (s.tablesOf mm).page_dirs 0 + 8 * i ≠ 0 := by
    have := hm.dir_ne hf
    omega
  have hlast : store64 _ _ s₃ = .ok ((), s.newTable mm i (page h s.kmallocs)) := store64_run hne _ s₃
  refine (Exec.bind_of_ok hlast).trans ?_
  refine (Exec.bind_of_ok hnew).trans ?_
  rw [hnew_at]
  exact entry_at_run (by omega) (hf.page_le (by omega) hlt) hk _

/-- `get_pt_entry` makes table `i` if it is missing, and touches no other. -/
theorem get_pt_entry_spec (hm : Maps h c s mm f) (hf : Fresh h c) (hi : i < 512) (hk : k < 512) :
    ∃ s', get_pt_entry h mm i k s = .ok ((s'.tablesOf mm).page_tables i + 8 * k, s') ∧ Maps h c s' mm f ∧
      (s'.tablesOf mm).page_tables i ≠ 0 ∧
      ∀ j, j ≠ i → (s'.tablesOf mm).page_tables j = (s.tablesOf mm).page_tables j := by
  by_cases ht : (s.tablesOf mm).page_tables i = 0
  · have hlt := hm.kmallocs_lt hi ht
    have hge := hm.kmallocs_ge
    have hp := hf.page_pos (by omega) hlt
    have hat : ((s.newTable mm i (page h s.kmallocs)).tablesOf mm).page_tables i = page h s.kmallocs := by
      rw [newTable_page_tables, if_pos rfl]
    refine ⟨s.newTable mm i (page h s.kmallocs), ?_, hm.newTable hf hi ht, ?_, ?_⟩
    · rw [hat]
      exact hm.get_pt_entry_absent hf hi hk ht
    · rw [hat]
      omega
    · intro j hj
      rw [newTable_page_tables, if_neg hj]
  · exact ⟨s, hm.get_pt_entry_present hf hi hk ht, hm, ht, fun _ _ => rfl⟩

/-! ## The processor's walk -/

/-- The processor finds exactly what the tables stand for. -/
theorem paeWalk_eq (hm : Maps h c s mm f) (hf : Fresh h c) {v : Nat} (hv : v < 2 ^ 30) :
    paeWalk s.mem (s.tablesOf mm).ptr_table v = (f (v / 4096)).map Mapped.ofEntry := by
  have hptr : (s.tablesOf mm).ptr_table / 32 * 32 + 8 * (v / 2 ^ 30 % 4) = (s.tablesOf mm).ptr_table := by
    have h32 : 32 ∣ (s.tablesOf mm).ptr_table := by
      rw [hm.ptr_at]
      exact hf.aligned (c + 3) (by omega) (by omega) 32 32 (by omega) (by decide)
    omega
  have hdir : entryBase ((s.tablesOf mm).page_dirs 0 ||| PG_PRESENT) = (s.tablesOf mm).page_dirs 0 :=
    entryBase_or (hm.dir_dvd hf) (hm.dir_le hf) (by decide)
  have hpres : ((s.tablesOf mm).page_dirs 0 ||| PG_PRESENT).testBit 0 = true := by
    have h1 : PG_PRESENT.testBit 0 = true := by decide
    rw [Nat.testBit_or, h1, Bool.or_true]
  have hi : v / 2 ^ 21 < 512 := by omega
  have hk : v / 4096 % 512 < 512 := Nat.mod_lt _ (by decide)
  have hik : 512 * (v / 2 ^ 21) + v / 4096 % 512 = v / 4096 := by omega
  have hpde := hm.pde (v / 2 ^ 21) hi
  unfold paeWalk
  simp only [hptr, hm.pdpte, hpres, hdir, Nat.mod_eq_of_lt hi, if_true]
  by_cases ht : (s.tablesOf mm).page_tables (v / 2 ^ 21) = 0
  · have habs := hm.absent _ hi ht _ hk
    rw [hik] at habs
    rw [if_pos ht] at hpde
    simp only [hpde, habs, Nat.zero_testBit, Bool.false_eq_true, if_false, Option.map_none]
  · have hent := hm.entry _ hi ht _ hk
    rw [hik] at hent
    rw [if_neg ht, pdeOf_eq] at hpde
    have hdvd := hm.table_dvd hf hi ht
    have hb0 : ((s.tablesOf mm).page_tables (v / 2 ^ 21) ||| 7).testBit 0 = true := by
      rw [Nat.testBit_or, show Nat.testBit 7 0 = true from rfl, Bool.or_true]
    have hb7 : ((s.tablesOf mm).page_tables (v / 2 ^ 21) ||| 7).testBit 7 = false := by
      rw [Nat.testBit_or, testBit_of_dvd (k := 12) hdvd (by omega)]
      rfl
    have hbase := entryBase_or (b := 7) hdvd (hm.table_le hf hi ht) (by omega)
    simp only [hpde, hb0, hb7, hbase, if_true, Bool.false_eq_true, if_false]
    rw [← hent]
    unfold pteOf
    split <;> rfl

end Maps

end Ulmix.Paging

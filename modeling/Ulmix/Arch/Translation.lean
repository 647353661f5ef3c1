import Ulmix.Arch.Mapping
/-!
# mm_physical against mm_map

`mm_map` makes one table for each 2 MiB, `mm_physical` looks for one in each
4 MiB. The two agree on the first table alone: behind it `mm_physical` reads
past the end of a table, or a table that was never made.
-/
open Ulmix.Lib

namespace Ulmix.Paging

/-- The index `mm_physical` uses in a page table. -/
theorem table_index (v : Nat) : (v &&& 0x003ff000) >>> 12 = v / 4096 % 1024 := by
  rw [show (0x003ff000 : Nat) = (2 ^ 10 - 1) <<< 12 from rfl, and_ones, Nat.shiftRight_eq_div_pow]
  omega

/-- Clearing the flags of an entry leaves its frame. -/
theorem and_frame {p b : Nat} (hp : 4096 ∣ p) (hp' : p + 4096 ≤ 2 ^ 32) (hb : b < 4096) :
    (p ||| b) &&& 0xfffff000 = p := by
  rw [show (0xfffff000 : Nat) = (2 ^ 20 - 1) <<< 12 from rfl, and_ones, or_eq_add (k := 12) hp hb]
  omega

/-- The address space `mm` once it is in use. -/
def Vm.applied (s : Vm) (mm : Nat) : Vm := { s with current_mm := mm, cr3 := (s.tablesOf mm).ptr_table }

section Physical
variable {h : Kmalloc} {c mm : Nat} {s : Vm} {f : Nat → Option Nat} {v : Nat}

theorem Maps.apply_mmap_run (hm : Maps h c s mm f) (hf : Fresh h c) : apply_mmap mm s = .ok ((), s.applied mm) := by
  unfold apply_mmap
  rw [Exec.bind_of_ok (load_tables_run (hm.mm_ne hf) s), Exec.bind_of_ok (deref_tables_run (hm.tables_ne hf) s),
    Exec.bind_of_ok (mm_physical_off hm.off _)]
  rfl

/-- `mm_physical` up to the table it looks in. -/
theorem Maps.mm_physical_eq (hm : Maps h c s mm f) (hf : Fresh h c) (hv : v / 2 ^ 22 < 512) :
    mm_physical v (s.applied mm) = (do
      let w ← load64 (← entry_at ((s.tablesOf mm).page_tables (v / 2 ^ 22)) (v / 4096 % 1024))
      pure (add32 (w &&& 0xfffff000) (v % PAGESIZE)) : Exec Vm Nat) (s.applied mm) := by
  have hmm : (s.applied mm).current_mm ≠ 0 := hm.mm_ne hf
  have htab : ((s.applied mm).mms mm).tables ≠ 0 := hm.tables_ne hf
  unfold mm_physical
  rw [Exec.bind_of_ok (Exec.get_apply _), if_neg hmm, table_index, Nat.shiftRight_eq_div_pow]
  exact Exec.bind_of_ok (load_page_table_run (hm.mm_ne hf) htab hv)

/-- Behind the end of a table, or in a table that was not made, there is no entry to read. -/
theorem Maps.mm_physical_error (hm : Maps h c s mm f) (hf : Fresh h c) (hv : v / 2 ^ 22 < 512)
    (hbad : (s.tablesOf mm).page_tables (v / 2 ^ 22) = 0 ∨ 512 ≤ v / 4096 % 1024) :
    ∃ e, mm_physical v (s.applied mm) = .error e := by
  rw [hm.mm_physical_eq hf hv]
  by_cases ht : (s.tablesOf mm).page_tables (v / 2 ^ 22) = 0
  · refine ⟨.nullDeref, Exec.bind_of_error ?_⟩
    rw [entry_at, if_pos ht]
    rfl
  · have hi : ¬ v / 4096 % 1024 < 512 := by omega
    refine ⟨.outOfBounds, Exec.bind_of_error ?_⟩
    rw [entry_at, if_neg ht, if_neg hi]
    rfl

/-- In the first 2 MiB, `mm_physical` reads the entry of the page. -/
theorem Maps.mm_physical_low (hm : Maps h c s mm f) (hf : Fresh h c) (hv : v < 2 ^ 21) {p b : Nat} (hp : 4096 ∣ p)
    (hp' : p + 4096 ≤ 2 ^ 32) (hb : b < 4096) (hmap : f (v / 4096) = some (p ||| b)) :
    mm_physical v (s.applied mm) = .ok (p + v % 4096, s.applied mm) := by
  have hi : v / 2 ^ 22 = 0 := by omega
  have hk : v / 4096 % 1024 = v / 4096 := by omega
  have hk' : v / 4096 < 512 := by omega
  have hpage : 512 * 0 + v / 4096 = v / 4096 := by omega
  have ht : (s.tablesOf mm).page_tables 0 ≠ 0 := by
    intro h0
    have := hm.absent 0 (by omega) h0 _ hk'
    rw [hpage, hmap] at this
    cases this
  have hent := hm.entry 0 (by omega) ht _ hk'
  rw [hpage, hmap] at hent
  have hword : s.mem ((s.tablesOf mm).page_tables 0 + 8 * (v / 4096)) = p ||| b := by
    unfold pteOf at hent
    split at hent
    · exact Option.some.inj hent
    · cases hent
  rw [hm.mm_physical_eq hf (by omega), hi, hk]
  refine (Exec.bind_of_ok (entry_at_run ht (hm.table_le hf (by omega) ht) hk' _)).trans ?_
  refine (Exec.bind_of_ok (load64_run (by omega) _)).trans ?_
  show Except.ok (add32 (s.mem _ &&& _) _, _) = _
  rw [hword, and_frame hp hp' hb]
  unfold PAGESIZE
  rw [add32_eq (by omega)]

end Physical

/-! ## Agreement -/

/-- `mm_physical` answers for the whole range what `mm_map` was asked to map. -/
def Agrees (h : Kmalloc) (s : Vm) (mm : Nat) (m : MapCall) : Prop :=
  ∃ s₂ s₃, mm_map h mm m.start_virt m.start_phys m.n m.crflags s = .ok ((), s₂) ∧ apply_mmap mm s₂ = .ok ((), s₃) ∧
    ∀ v, m.start_virt ≤ v → v < m.start_virt + m.n → mm_physical v s₃ = .ok (m.start_phys + (v - m.start_virt), s₃)

section Agreement
variable {h : Kmalloc} {c mm : Nat} {s : Vm} {m : MapCall}

theorem covers_of_lt (ha : m.Aligned) {v : Nat} (hv : m.start_virt ≤ v) (hv' : v < m.start_virt + m.n) :
    m.Covers v := by
  refine ⟨ha, by omega, hv, ?_⟩
  unfold page_count PAGESIZE
  split <;> omega

theorem Maps.agrees_of_le (hm : Maps h c s mm fun _ => none) (hf : Fresh h c) (ha : m.Aligned) (hr : m.InRange)
    (hfl : m.crflags < 4096) (hle : m.start_virt + m.n ≤ 2 ^ 21) : Agrees h s mm m := by
  obtain ⟨s₂, hrun, hm₂, -⟩ := mm_map_spec hm hf hr
  refine ⟨s₂, s₂.applied mm, hrun, hm₂.apply_mmap_run hf, fun v hv hv' => ?_⟩
  have hcov := covers_of_lt ha hv hv'
  have hp' := MapCall.page_count_mul_le ha.2 (by decide) (hr ha).2
  obtain ⟨⟨hav, hap⟩, -, -, hend⟩ := hcov
  unfold PAGESIZE at hav hap hend
  have hdvd : 4096 ∣ m.frame v := by
    unfold MapCall.frame PAGESIZE
    omega
  have hfle : m.frame v + 4096 ≤ 2 ^ 32 := by
    unfold MapCall.frame PAGESIZE
    omega
  have hlow : PG_PRESENT ||| m.crflags < 4096 := Nat.or_lt_two_pow (n := 12) (by decide) hfl
  have hmap : m.apply (fun _ => none) (v / 4096) = some (m.frame v ||| (PG_PRESENT ||| m.crflags)) := by
    have hc : m.Covers (4096 * (v / 4096)) := (MapCall.covers_page v).2 (covers_of_lt ha hv hv')
    rw [← Nat.or_assoc]
    exact (if_pos hc).trans (congrArg some (m.entry_page v))
  rw [hm₂.mm_physical_low hf (by omega) hdvd hfle hlow hmap]
  unfold MapCall.frame PAGESIZE
  congr 2
  omega

/-- Some address of a range that passes 2 MiB is not translated. -/
theorem Maps.le_of_agrees (hm : Maps h c s mm fun _ => none) (hf : Fresh h c) (hr : m.InRange) (ha : m.Aligned)
    (hn : 1 ≤ m.n) (hnull : ∀ i < 512, (s.tablesOf mm).page_tables i = 0) (hag : Agrees h s mm m) :
    m.start_virt + m.n ≤ 2 ^ 21 := by
  by_contra hgt
  obtain ⟨s₂, hrun, hm₂, hlow⟩ := mm_map_spec hm hf hr
  obtain ⟨t₂, t₃, hrun', happ, hag⟩ := hag
  obtain rfl : s₂ = t₂ := by
    have := hrun.symm.trans hrun'
    cases this
    rfl
  rw [hm₂.apply_mmap_run hf] at happ
  cases happ
  have hr' := (hr ha).1
  by_cases hv : m.start_virt < 2 ^ 21
  · -- address 2 MiB: entry 512 of the first table
    obtain ⟨e, he⟩ := hm₂.mm_physical_error hf (v := 2 ^ 21) (by omega) (.inr (by omega))
    rw [hag (2 ^ 21) (by omega) (by omega)] at he
    cases he
  · -- the first address: its 4 MiB slot names a table below the range
    have ht : (s₂.tablesOf mm).page_tables (m.start_virt / 2 ^ 22) = 0 := by
      rw [hlow _ (by omega)]
      exact hnull _ (by omega)
    obtain ⟨e, he⟩ := hm₂.mm_physical_error hf (v := m.start_virt) (by omega) (.inl ht)
    rw [hag _ le_rfl (by omega)] at he
    cases he

end Agreement

/-- After one `mm_map` on a new address space, `mm_physical` agrees with it on
the whole range if and only if the range ends within the first 2 MiB. -/
theorem mm_physical_agrees {h : Kmalloc} {s s₁ : Vm} {mm : Nat} (hf : Fresh h s.kmallocs) (hoff : s.current_mm = 0)
    (hb : mk_mmap h s = .ok (mm, s₁)) (hnull : ∀ i < 512, (s₁.tablesOf mm).page_tables i = 0) (m : MapCall)
    (ha : m.Aligned) (hn : 1 ≤ m.n) (hv : m.start_virt + m.n ≤ 2 ^ 30) (hp : m.start_phys + m.n ≤ 2 ^ 32)
    (hfl : m.crflags < 4096) : Agrees h s₁ mm m ↔ m.start_virt + m.n ≤ 2 ^ 21 := by
  have hm := mk_mmap_maps hf hoff hb hnull
  constructor
  · exact hm.le_of_agrees hf (fun _ => ⟨hv, hp⟩) ha hn hnull
  · exact hm.agrees_of_le hf ha (fun _ => ⟨hv, hp⟩) hfl

/-- The first megabyte, mapped to itself. -/
theorem mm_physical_agrees_low : ∃ s₁, mk_mmap pageHeap zeroVm = .ok (4096, s₁) ∧
    Agrees pageHeap s₁ 4096 ⟨0, 0, 0x100000, 2⟩ := by
  obtain ⟨s₁, hb, -, -, -, -, -, hpt, -⟩ := mk_mmap_run (s := zeroVm) pageHeap_fresh
  have hnull : ∀ i < 512, (s₁.tablesOf 4096).page_tables i = 0 := fun i _ => congrFun hpt i
  exact ⟨s₁, hb, (mm_physical_agrees pageHeap_fresh rfl hb hnull ⟨0, 0, 0x100000, 2⟩ ⟨rfl, rfl⟩ (by decide)
    (by decide) (by decide) (by decide)).2 (by decide)⟩

/-- One page at 4 MiB, mapped to itself: `mm_physical` looks in table 1, the
entry is in table 2. -/
theorem mm_physical_misses : ∃ s₁, mk_mmap pageHeap zeroVm = .ok (4096, s₁) ∧
    (∀ i < 512, (s₁.tablesOf 4096).page_tables i = 0) ∧ ¬ Agrees pageHeap s₁ 4096 ⟨0x400000, 0x400000, 0x1000, 2⟩ := by
  obtain ⟨s₁, hb, -, -, -, -, -, hpt, -⟩ := mk_mmap_run (s := zeroVm) pageHeap_fresh
  have hnull : ∀ i < 512, (s₁.tablesOf 4096).page_tables i = 0 := fun i _ => congrFun hpt i
  have hm := mk_mmap_maps pageHeap_fresh rfl hb hnull
  refine ⟨s₁, hb, hnull, fun hag => ?_⟩
  have := hm.le_of_agrees pageHeap_fresh (fun _ => ⟨by decide, by decide⟩) ⟨rfl, rfl⟩ (by decide) hnull hag
  exact absurd this (by decide)

end Ulmix.Paging

import Ulmix.Arch.Reach
import Ulmix.Arch.Translation
import Ulmix.Arch.Pfalloc
/-!
# Turning paging on (`setup_paging`, `arch/i686/paging.c`)

`setup_paging` maps the memory up to the end of the kernel to itself, and nothing else: the pointer table has one
directory, and the words of the other three stay 0 (`Upper`), whatever is mapped below 1 GiB. So a page above, such as
the first of the heap `kmain` sets up at 3 GiB, is not there.
-/
open Ulmix.Lib

namespace Ulmix.Paging

def PG_SUPV : Nat := 0x00
def PAG_PAE : Nat := 1 <<< 5
def PAG_WP : Nat := 1 <<< 16
def PAG_SMEP : Nat := 1 <<< 20
def PAG_ENABLE : Nat := 1 <<< 31

/-! ## The code -/

/-- The variables of `paging.c` and `pfalloc.c`, and the control registers. -/
structure Mmu where
  vm : Vm
  pfalloc : Frames.Pfalloc
  mm_default : Nat
  pae_support : Bool
  smep_support : Bool
  nx_support : Bool
  cr0 : Nat
  cr4 : Nat

def onVm {α : Type} (x : Exec Vm α) : Exec Mmu α := Exec.zoom Mmu.vm (fun v m => { m with vm := v }) x

/-- The table of the frames is a block with whatever it holds. -/
def setup_pfalloc (h : Kmalloc) (bytes : Nat → UInt8) (ram_size : Nat) : Exec Mmu Unit := do
  let pframes ← onVm (kmalloc h (ram_size / PAGESIZE) 1)
  let block := if pframes = 0 then none else some fun i => bytes (pframes + i)
  modify fun m => { m with pfalloc := Frames.setup_pfalloc ram_size block }

def paging_enable : Exec Mmu Unit := modify fun m =>
  let cr4 := if m.pae_support then m.cr4 ||| PAG_PAE else m.cr4
  { m with
    cr4 := if m.smep_support then cr4 ||| PAG_SMEP else cr4
    cr0 := m.cr0 ||| PAG_WP ||| PAG_ENABLE }

/-- `cpu_pae` is what `cpu_supports(CPU_PAE)` says, and `bss_end` the end of the kernel. -/
def setup_paging (h : Kmalloc) (bytes : Nat → UInt8) (cpu_pae : Bool) (ram_size bss_end : Nat) : Exec Mmu Unit := do
  modify fun m => { m with pae_support := cpu_pae, smep_support := false, nx_support := false }
  if !(← get).pae_support then
    Exec.fault .panic
  setup_pfalloc h bytes ram_size
  let mm ← onVm (mk_mmap h)
  modify fun m => { m with mm_default := mm }
  onVm (mm_map h mm 0 0 bss_end (PG_SUPV ||| PG_RDWR))
  onVm (apply_mmap mm)
  paging_enable

/-! ## The kernel's address space -/

/-- The call in `setup_paging`. -/
def kernelCall (bss_end : Nat) : MapCall := ⟨0, 0, bss_end, PG_SUPV ||| PG_RDWR⟩

theorem kernelCall_inRange {bss_end : Nat} (hb : bss_end ≤ 2 ^ 30) : (kernelCall bss_end).InRange := by
  intro _
  simp only [kernelCall, Nat.zero_add]
  omega

theorem kernelCall_covers {bss_end : Nat} (hb : 0 < bss_end) (v : Nat) :
    (kernelCall bss_end).Covers v ↔ v < page_count bss_end * PAGESIZE := by
  unfold MapCall.Covers MapCall.Aligned kernelCall
  simp only [Nat.zero_mod, and_self, true_and, Nat.zero_le, Nat.zero_add]
  exact and_iff_right hb

/-- Below 1 GiB: the kernel's pages are where they were, and no others are there. -/
theorem Maps.kernel_walk {h : Kmalloc} {c mm : Nat} {s : Vm} {bss_end v : Nat} (hf : Fresh h c)
    (hm : Maps h c s mm ((kernelCall bss_end).apply fun _ => none)) (hb : 0 < bss_end) (hb' : bss_end ≤ 2 ^ 30)
    (hv : v < 2 ^ 30) :
    paeWalk s.mem (s.tablesOf mm).ptr_table v =
      if v < page_count bss_end * PAGESIZE then some ⟨v / PAGESIZE * PAGESIZE, PG_PRESENT ||| PG_RDWR⟩ else none := by
  have hlast : (kernelCall bss_end).apply (fun _ => none) (v / 4096) =
      (lastCall [kernelCall bss_end] v).map fun m => m.entry v := foldl_apply [kernelCall bss_end] v
  have hfind : lastCall [kernelCall bss_end] v =
      if (kernelCall bss_end).Covers v then some (kernelCall bss_end) else none := by
    unfold lastCall
    rw [List.reverse_singleton, List.find?_singleton]
    simp only [decide_eq_true_eq]
  -- the only call so far, so a page is mapped where it covers it
  rw [hm.paeWalk_eq hf hv, hlast, hfind]
  by_cases hc : v < page_count bss_end * PAGESIZE
  · have hcov := (kernelCall_covers hb v).2 hc
    have hflags : (kernelCall bss_end).crflags < 4096 := show PG_SUPV ||| PG_RDWR < 4096 by decide
    have hentry := ofEntry_entry (kernelCall_inRange hb') hcov hflags
    rw [if_pos hcov, if_pos hc, Option.map_some, Option.map_some, hentry]
    simp [MapCall.frame, kernelCall, PG_SUPV]
  · rw [if_neg ((kernelCall_covers hb v).not.2 hc), if_neg hc]
    rfl

section
variable {h : Kmalloc} {bytes : Nat → UInt8} {ram_size bss_end : Nat} {m : Mmu}

theorem onVm_run {α : Type} {x : Exec Vm α} {a : α} {v : Vm} (hx : x m.vm = .ok (a, v)) :
    onVm x m = .ok (a, { m with vm := v }) := Exec.zoom_of_ok hx

theorem setup_pfalloc_run (h : Kmalloc) (bytes : Nat → UInt8) (ram_size : Nat) (m : Mmu) :
    ∃ pf, setup_pfalloc h bytes ram_size m =
      .ok ((), { m with vm := { m.vm with kmallocs := m.vm.kmallocs + 1 }, pfalloc := pf }) :=
  ⟨_, rfl⟩

/-- The steps of `setup_paging`, on a processor with PAE. -/
theorem setup_paging_run {mm : Nat} {s₁ s₂ s₃ : Vm}
    (hmk : mk_mmap h { m.vm with kmallocs := m.vm.kmallocs + 1 } = .ok (mm, s₁))
    (hmap : mm_map h mm 0 0 bss_end (PG_SUPV ||| PG_RDWR) s₁ = .ok ((), s₂))
    (happly : apply_mmap mm s₂ = .ok ((), s₃)) :
    ∃ t, setup_paging h bytes true ram_size bss_end m = .ok ((), t) ∧ t.vm = s₃ ∧ t.mm_default = mm ∧
      t.cr0 = m.cr0 ||| PAG_WP ||| PAG_ENABLE ∧ t.cr4 = m.cr4 ||| PAG_PAE := by
  obtain ⟨pf, hpf⟩ := setup_pfalloc_run h bytes ram_size
    { m with pae_support := true, smep_support := false, nx_support := false }
  refine ⟨⟨s₃, pf, mm, true, false, false, m.cr0 ||| PAG_WP ||| PAG_ENABLE, m.cr4 ||| PAG_PAE⟩, ?_, rfl, rfl, rfl, rfl⟩
  unfold setup_paging
  rw [Exec.bind_of_ok (Exec.modify_apply _ _), Exec.bind_of_ok (Exec.get_apply _)]
  simp only [Bool.not_true, Bool.false_eq_true, if_false]
  rw [Exec.bind_of_ok hpf, Exec.bind_of_ok (onVm_run hmk), Exec.bind_of_ok (Exec.modify_apply _ _),
    Exec.bind_of_ok (onVm_run hmap), Exec.bind_of_ok (onVm_run happly)]
  rfl

/-- `setup_paging` returns with paging on, and of all addresses those up to the end of the kernel are mapped, each to
itself, for the kernel to read and write; no other is mapped, and above 1 GiB none can be. A processor without PAE
stops the kernel. -/
theorem setup_paging_maps (hf : Fresh h (m.vm.kmallocs + 1)) (hoff : m.vm.current_mm = 0)
    (hnull : ∀ i < 512, (m.vm.tables (h (m.vm.kmallocs + 2) 2068 1)).page_tables i = 0) (hb : 0 < bss_end)
    (hb' : bss_end ≤ 2 ^ 30) :
    (∃ t, setup_paging h bytes true ram_size bss_end m = .ok ((), t) ∧ t.cr0.testBit 31 ∧ t.cr4.testBit 5 ∧
      t.vm.current_mm = t.mm_default ∧ ∀ v < 2 ^ 32, paeWalk t.vm.mem t.vm.cr3 v =
        if v < page_count bss_end * PAGESIZE then some ⟨v / PAGESIZE * PAGESIZE, PG_PRESENT ||| PG_RDWR⟩ else none) ∧
    setup_paging h bytes false ram_size bss_end m = .error .panic := by
  refine ⟨?_, rfl⟩
  obtain ⟨s₁, hmk, -, -, -, -, -, htables, -⟩ := mk_mmap_run (s := { m.vm with kmallocs := m.vm.kmallocs + 1 }) hf
  have hnull' : ∀ i < 512, (s₁.tablesOf (h (m.vm.kmallocs + 1) 8 1)).page_tables i = 0 := by
    intro i hi
    rw [htables]
    exact hnull i hi
  have hm₁ := mk_mmap_maps (s := { m.vm with kmallocs := m.vm.kmallocs + 1 }) hf hoff hmk hnull'
  obtain ⟨s₂, hmap, hm₂, -⟩ := mm_map_spec hm₁ hf (kernelCall_inRange hb')
  have hu := (mk_mmap_upper hf hmk).mm_map hm₁ hf (kernelCall_inRange hb') hmap
  obtain ⟨t, hrun, hvm, hmm, hcr0, hcr4⟩ :=
    @setup_paging_run h bytes ram_size bss_end m _ _ _ _ hmk hmap (hm₂.apply_mmap_run hf)
  have hptr : 32 ∣ (s₂.tablesOf (h (m.vm.kmallocs + 1) 8 1)).ptr_table := by
    rw [hm₂.ptr_at]
    exact hf.aligned (m.vm.kmallocs + 1 + 3) (by omega) (by omega) 32 32 (by omega) (by decide)
  have henable : PAG_ENABLE.testBit 31 = true := by decide
  have hpae : PAG_PAE.testBit 5 = true := by decide
  refine ⟨t, hrun, ?_, ?_, ?_, fun v hv => ?_⟩
  · rw [hcr0, Nat.testBit_or, henable, Bool.or_true]
  · rw [hcr4, Nat.testBit_or, hpae, Bool.or_true]
  · rw [hvm, hmm]
    rfl
  · rw [hvm]
    -- one directory spans 1 GiB; what lies above it has no entry in the pointer table
    by_cases hlow : v < 2 ^ 30
    · have hwalk := hm₂.kernel_walk hf hb hb' hlow
      exact hwalk
    · have hend := MapCall.page_count_mul_le (a := 0) (n := bss_end) rfl (show 2 ^ 30 % 4096 = 0 from rfl) (by omega)
      rw [if_neg (by unfold PAGESIZE; omega)]
      have hwalk := hu.paeWalk hptr (Nat.le_of_not_lt hlow) hv
      exact hwalk

/-- A machine at boot, with a heap of pages and memory that holds nothing. -/
def bootMmu : Mmu := ⟨zeroVm, ⟨0, none⟩, 0, false, false, false, 0x11, 0⟩

theorem pageHeap_fresh_next : Fresh pageHeap 1 :=
  ⟨fun i _ _ _ _ _ _ => Nat.mul_pos (Nat.succ_pos i) (by decide),
    fun i _ _ _ _ _ ha => ha.trans (Dvd.intro_left (i + 1) rfl),
    fun i _ hi size _ hs _ => by unfold pageHeap; omega,
    fun i j _ hij _ size _ _ _ hs _ _ _ => by unfold pageHeap; omega⟩

theorem setup_paging_maps_image :
    (∃ t, setup_paging pageHeap (fun _ => 0) true 0x1000000 0x123456 bootMmu = .ok ((), t) ∧ t.cr0.testBit 31 ∧
      t.cr4.testBit 5 ∧ t.vm.current_mm = t.mm_default ∧ ∀ v < 2 ^ 32, paeWalk t.vm.mem t.vm.cr3 v =
        if v < page_count 0x123456 * PAGESIZE then some ⟨v / PAGESIZE * PAGESIZE, PG_PRESENT ||| PG_RDWR⟩ else none) ∧
    setup_paging pageHeap (fun _ => 0) false 0x1000000 0x123456 bootMmu = .error .panic :=
  setup_paging_maps pageHeap_fresh_next rfl (fun _ _ => rfl) (by decide) (by decide)

end

end Ulmix.Paging

import Ulmix.Arch.Reach
/-!
# What mk_mmap leaves uncleared

`mk_mmap` clears the directory and the pointer table it gets from `kmalloc`, but
not `page_tables`. A word left there is taken for a page table: `get_pt_entry`
makes none, sets no directory entry, and the page stays unmapped. So the address
space is what the `mm_map` calls ask for, whatever memory held before, exactly
when these words were zero.
-/
open Ulmix.Lib

namespace Ulmix.Paging

/-- Where `page_tables` comes to lie, memory holds zeros. -/
def Cleared (h : Kmalloc) (s : Vm) : Prop := ∀ i < 512, (s.tables (h (s.kmallocs + 1) 2068 1)).page_tables i = 0

/-- After any calls the processor finds what these calls, and nothing else, asked for. -/
def AsAsked (h : Kmalloc) (s : Vm) : Prop :=
  ∀ mm s₁, mk_mmap h s = .ok (mm, s₁) → ∀ calls : List MapCall, (∀ m ∈ calls, m.InRange) →
    ∃ s₂, mapAll h mm calls s₁ = .ok ((), s₂) ∧ ∀ v < 2 ^ 32,
      paeWalk s₂.mem (s₂.tablesOf mm).ptr_table v = (lastCall calls v).map fun m => Mapped.ofEntry (m.entry v)

/-- No page table is taken to be present after `mk_mmap`. -/
def NonePresent (h : Kmalloc) (s : Vm) : Prop :=
  ∀ mm s₁, mk_mmap h s = .ok (mm, s₁) → ∀ i < 512, (s₁.tablesOf mm).page_tables i = 0

/-- On first use a page table is allocated and cleared. -/
def MadeOnUse (h : Kmalloc) (s : Vm) : Prop :=
  ∀ mm s₁, mk_mmap h s = .ok (mm, s₁) → ∀ calls : List MapCall, (∀ m ∈ calls, m.InRange) →
    ∀ s₂, mapAll h mm calls s₁ = .ok ((), s₂) → ∀ i < 512, ∀ k < 512, (s₂.tablesOf mm).page_tables i = 0 →
      ∃ s₃, get_pt_entry h mm i k s₂ = .ok (page h s₂.kmallocs + 8 * k, s₃) ∧ s₃.kmallocs = s₂.kmallocs + 1 ∧
        (s₃.tablesOf mm).page_tables i = page h s₂.kmallocs ∧ ∀ j < 512, s₃.mem (page h s₂.kmallocs + 8 * j) = 0

section Cleared
variable {h : Kmalloc} {s : Vm}

theorem nonePresent_iff (hf : Fresh h s.kmallocs) : NonePresent h s ↔ Cleared h s := by
  obtain ⟨s', hrun, -, -, -, -, -, hpt, -, -⟩ := mk_mmap_run hf
  constructor
  · intro hn i hi
    rw [← hpt]
    exact hn _ _ hrun i hi
  · intro hc mm s₁ hb i hi
    rw [hrun] at hb
    cases hb
    rw [hpt]
    exact hc i hi

theorem asAsked_of_cleared (hf : Fresh h s.kmallocs) (hoff : s.current_mm = 0) (hc : Cleared h s) : AsAsked h s := by
  intro mm s₁ hb calls hr
  have hnull := (nonePresent_iff hf).2 hc mm s₁ hb
  obtain ⟨s₂, hrun, hm⟩ := mapAll_spec (mk_mmap_maps hf hoff hb hnull) hf hr
  refine ⟨s₂, hrun, fun v hv => ?_⟩
  by_cases hlow : v < 2 ^ 30
  · rw [hm.paeWalk_eq hf hlow, foldl_apply, Option.map_map]
    rfl
  · -- no call asked for anything here
    have hu := mapAll_upper hf hr (mk_mmap_upper hf hb) (mk_mmap_maps hf hoff hb hnull) hrun
    have hptr : 32 ∣ (s₂.tablesOf mm).ptr_table := by
      rw [hm.ptr_at]
      exact hf.aligned (s.kmallocs + 3) (by omega) (by omega) 32 32 (by omega) (by decide)
    rw [hu.paeWalk hptr (Nat.le_of_not_lt hlow) hv, lastCall_high hr (Nat.le_of_not_lt hlow)]
    rfl

theorem madeOnUse_of_cleared (hf : Fresh h s.kmallocs) (hoff : s.current_mm = 0) (hc : Cleared h s) :
    MadeOnUse h s := by
  intro mm s₁ hb calls hr s₂ hrun i hi k hk ht
  have hnull := (nonePresent_iff hf).2 hc mm s₁ hb
  obtain ⟨s₂', hrun', hm⟩ := mapAll_spec (mk_mmap_maps hf hoff hb hnull) hf hr
  rw [hrun] at hrun'
  cases hrun'
  have hge := hm.kmallocs_ge
  have hlt := hm.kmallocs_lt hi ht
  have hapart : (s₂.tablesOf mm).page_dirs 0 + 4096 ≤ page h s₂.kmallocs ∨
      page h s₂.kmallocs + 4096 ≤ (s₂.tablesOf mm).page_dirs 0 := by
    rw [hm.dir_at]
    exact hf.page_apart (by omega) (by omega) hlt
  refine ⟨_, hm.get_pt_entry_absent hf hi hk ht, rfl, ?_, fun j hj => ?_⟩
  · rw [newTable_page_tables, if_pos rfl]
  · exact newTable_mem_page s₂ mm i _ (by omega) (by omega) (by omega)

end Cleared

/-! ## A leftover word -/

section Leftover
variable {h : Kmalloc} {s : Vm} {mm : Nat} {i k : Nat}

/-- Of three neighbouring entries one is neither of two given words. -/
theorem exists_entry_apart (g d p : Nat) : ∃ k < 3, add32 g (8 * k) ≠ d ∧ add32 g (8 * k) ≠ p := by
  by_contra hne
  have h : ∀ k < 3, add32 g (8 * k) = d ∨ add32 g (8 * k) = p := by
    intro k hk
    by_contra hc
    exact hne ⟨k, hk, fun hd => hc (.inl hd), fun hp => hc (.inr hp)⟩
  have h0 := h 0 (by omega)
  have h1 := h 1 (by omega)
  have h2 := h 2 (by omega)
  unfold add32 at h0 h1 h2
  omega

/-- A word taken for page table `i`: mapping a page through it stores the entry there and does nothing else. -/
theorem map_leftover (hmm : mm ≠ 0) (htab : (s.mms mm).tables ≠ 0) (hi : i < 512) (hk : k < 512)
    (hg : (s.tablesOf mm).page_tables i ≠ 0) {s₂ : Vm}
    (hrun : mm_map h mm ((512 * i + k) * 4096) 0 1 0 s = .ok ((), s₂)) :
    s₂ = s.setWord (add32 ((s.tablesOf mm).page_tables i) (8 * k)) PG_PRESENT := by
  have hload : load_page_table mm i s = _ := load_page_table_run hmm htab hi
  have hget : get_pt_entry h mm i k s = .ok (add32 ((s.tablesOf mm).page_tables i) (8 * k), s) := by
    unfold get_pt_entry
    rw [Exec.bind_of_ok hload, if_neg hg]
    show (load_page_table mm i >>= fun t => entry_at t k) s = _
    rw [Exec.bind_of_ok hload, entry_at, if_neg hg, if_pos hk]
    rfl
  have hpd : (512 * i + k) * 4096 / PAGESIZE / 512 = i := by
    unfold PAGESIZE
    omega
  have hpt : (512 * i + k) * 4096 / PAGESIZE % 512 = k := by
    unfold PAGESIZE
    omega
  have hal : ¬ ((512 * i + k) * 4096 % PAGESIZE ≠ 0 ∨ 0 % PAGESIZE ≠ 0) := by
    unfold PAGESIZE
    omega
  have hcount : page_count 1 = 0 + 1 := rfl
  unfold mm_map map_pages at hrun
  rw [if_neg hal, if_neg (by omega), hpd, hpt, hcount] at hrun
  obtain ⟨e, t₁, he, hrun⟩ := Exec.bind_ok.1 hrun
  rw [hget] at he
  cases he
  obtain ⟨w, t₂, hw, hrun⟩ := Exec.bind_ok.1 hrun
  by_cases hz : add32 ((s.tablesOf mm).page_tables i) (8 * k) = 0
  · -- the entry would lie at address zero
    unfold load64 at hw
    rw [if_pos hz] at hw
    cases hw
  rw [load64_run hz] at hw
  cases hw
  rw [Exec.bind_of_ok (store64_run hz _ s)] at hrun
  split at hrun <;> cases hrun <;> rfl

end Leftover

theorem cleared_of_asAsked {h : Kmalloc} {s : Vm} (hf : Fresh h s.kmallocs) (ha : AsAsked h s) : Cleared h s := by
  intro i hi
  by_contra hg
  obtain ⟨s₁, hmk, -, -, htab, hdir, hptr, hpt, hpdpte, hpde⟩ := mk_mmap_run hf
  have hmm : h s.kmallocs 8 1 ≠ 0 :=
    Nat.pos_iff_ne_zero.1 (hf.pos _ le_rfl (by omega) 8 1 (by omega) (one_dvd _))
  have htab' : (s₁.mms (h s.kmallocs 8 1)).tables ≠ 0 := by
    rw [htab]
    exact Nat.pos_iff_ne_zero.1 (hf.pos _ (by omega) (by omega) 2068 1 (by omega) (one_dvd _))
  rw [← hpt] at hg
  -- a page whose entry is stored neither on the directory entry nor on the pointer table
  obtain ⟨k, hk, hkd, hkp⟩ := exists_entry_apart ((s₁.tablesOf (h s.kmallocs 8 1)).page_tables i)
    (page h (s.kmallocs + 2) + 8 * i) (h (s.kmallocs + 3) 32 32)
  have hr : ∀ m ∈ [(⟨(512 * i + k) * 4096, 0, 1, 0⟩ : MapCall)], m.InRange := by
    intro m hm _
    rw [List.mem_singleton.1 hm]
    exact ⟨show (512 * i + k) * 4096 + 1 ≤ 2 ^ 30 by omega, show 0 + 1 ≤ 2 ^ 32 by omega⟩
  obtain ⟨s₂, hrun, hwalk⟩ := ha _ _ hmk _ hr
  obtain ⟨u, t, hone, hnil⟩ := Exec.bind_ok.1 hrun
  cases hnil
  have hs₂ := map_leftover hmm htab' hi (by omega) hg hone
  have hv := hwalk ((512 * i + k) * 4096) (by omega)
  have hcov : (⟨(512 * i + k) * 4096, 0, 1, 0⟩ : MapCall).Covers ((512 * i + k) * 4096) := by
    refine ⟨⟨?_, rfl⟩, Nat.le_refl 1, Nat.le_refl _, ?_⟩
    · show (512 * i + k) * 4096 % 4096 = 0
      omega
    · show (512 * i + k) * 4096 < (512 * i + k) * 4096 + page_count 1 * PAGESIZE
      have hcount : page_count 1 = 1 := rfl
      rw [hcount]
      unfold PAGESIZE
      omega
  have hlast : lastCall [⟨(512 * i + k) * 4096, 0, 1, 0⟩] ((512 * i + k) * 4096) =
      some ⟨(512 * i + k) * 4096, 0, 1, 0⟩ := by
    unfold lastCall
    rw [List.reverse_singleton, List.find?_cons_of_pos (by exact decide_eq_true hcov)]
  rw [hlast] at hv
  -- but the directory entry is still clear
  have hptr32 : 32 ∣ h (s.kmallocs + 3) 32 32 := hf.aligned (s.kmallocs + 3) (by omega) (by omega) 32 32 (by omega)
      (by decide)
  have hbase : entryBase (page h (s.kmallocs + 2) ||| PG_PRESENT) = page h (s.kmallocs + 2) :=
    entryBase_or (hf.page_dvd (by omega) (by omega)) (hf.page_le (by omega) (by omega)) (by decide)
  have hat : (s₂.tablesOf (h s.kmallocs 8 1)).ptr_table = h (s.kmallocs + 3) 32 32 := by
    rw [hs₂]
    exact hptr
  have hmem_ptr : s₂.mem (h (s.kmallocs + 3) 32 32) = page h (s.kmallocs + 2) ||| PG_PRESENT := by
    rw [hs₂]
    exact (Function.update_of_ne (Ne.symm hkp) _ _).trans hpdpte
  have hmem_dir : s₂.mem (page h (s.kmallocs + 2) + 8 * i) = 0 := by
    rw [hs₂]
    exact (Function.update_of_ne (Ne.symm hkd) _ _).trans (hpde i hi)
  have hidx : h (s.kmallocs + 3) 32 32 / 32 * 32 + 8 * ((512 * i + k) * 4096 / 2 ^ 30 % 4) =
      h (s.kmallocs + 3) 32 32 := by
    omega
  have hdidx : (512 * i + k) * 4096 / 2 ^ 21 % 512 = i := by omega
  unfold paeWalk at hv
  simp only [hat, hidx, hmem_ptr, hbase, hdidx, hmem_dir, Nat.zero_testBit, Bool.false_eq_true, if_false] at hv
  split at hv
  · cases hv
  · cases hv

/-- The address space does not depend on what memory held before if and only if
the words left uncleared were zero; one word that was not is enough for the
translation to come out wrong. -/
theorem translation_independent {h : Kmalloc} {s : Vm} (hf : Fresh h s.kmallocs) (hoff : s.current_mm = 0) :
    (NonePresent h s ∧ MadeOnUse h s ∧ AsAsked h s ↔ Cleared h s) ∧ (AsAsked h s → Cleared h s) := by
  refine ⟨⟨fun ha => cleared_of_asAsked hf ha.2.2, fun hc => ?_⟩, cleared_of_asAsked hf⟩
  exact ⟨(nonePresent_iff hf).2 hc, madeOnUse_of_cleared hf hoff hc, asAsked_of_cleared hf hoff hc⟩

/-- Memory full of ones, but for the words `page_tables` comes to lie on. -/
def dirtyVm : Vm where
  mem _ := 2 ^ 64 - 1
  tables _ := ⟨0xffffffff, fun _ => 0xffffffff, fun i => if i < 512 then 0 else 0xffffffff⟩
  mms _ := ⟨0xffffffff, 0xffffffff⟩
  current_mm := 0
  cr3 := 0
  kmallocs := 0

theorem translation_independent_dirty :
    NonePresent pageHeap dirtyVm ∧ MadeOnUse pageHeap dirtyVm ∧ AsAsked pageHeap dirtyVm :=
  (translation_independent (s := dirtyVm) pageHeap_fresh rfl).1.2 fun _ hi => if_pos hi

/-- One word of the block `kmalloc` returned second is not zero. -/
def leftoverVm : Vm := { zeroVm with tables := fun _ => ⟨0, fun _ => 0, fun i => if i = 0 then 0x700000 else 0⟩ }

theorem translation_depends : ¬ AsAsked pageHeap leftoverVm := by
  intro ha
  have hc := cleared_of_asAsked (s := leftoverVm) pageHeap_fresh ha 0 (by omega)
  exact absurd hc (by decide)

end Ulmix.Paging

import Ulmix.Arch.Tables
import Ulmix.Lib.Overlay
/-!
# What mm_map maps

One `mm_map` call settles the pages of its rounded-up range and leaves every
other page alone, whatever tables it has to make on the way. So after any
sequence of calls the processor finds, for each page, what the last call
covering it asked for.
-/
open Ulmix.Lib

namespace Ulmix.Paging

/-! ## Ranges of pages -/

/-- `f` with `pages` pages from `start` on mapped to the frames from `phys` on. -/
def mapRange (f : Nat → Option Nat) (start pages phys fl : Nat) : Nat → Option Nat := fun p =>
  if start ≤ p ∧ p < start + pages then some (add32 phys (4096 * (p - start)) ||| PG_PRESENT ||| fl) else f p

theorem mapRange_zero (f : Nat → Option Nat) (start phys fl : Nat) : mapRange f start 0 phys fl = f := by
  funext p
  exact if_neg (by omega)

/-- Mapping a page and then the pages behind it. -/
theorem mapRange_succ (f : Nat → Option Nat) (start pages : Nat) {phys : Nat} (fl : Nat) (hp : phys < 2 ^ 32) :
    mapRange f start (pages + 1) phys fl
      = mapRange (Function.update f start (some (phys ||| PG_PRESENT ||| fl))) (start + 1) pages
        (add32 phys 4096) fl := by
  funext p
  unfold mapRange
  rcases Nat.lt_trichotomy p start with hlt | rfl | hgt
  · rw [if_neg (by omega), if_neg (by omega), Function.update_of_ne (by omega)]
  · rw [if_pos (by omega), if_neg (by omega), Function.update_self, Nat.sub_self]
    congr 3
    exact add32_eq (by omega)
  · rw [Function.update_of_ne (by omega)]
    by_cases hin : p < start + (pages + 1)
    · rw [if_pos (by omega), if_pos (by omega)]
      have hsum : add32 phys (4096 * (p - start)) = add32 (add32 phys 4096) (4096 * (p - (start + 1))) := by
        unfold add32
        omega
      rw [hsum]
    · rw [if_neg (by omega), if_neg (by omega)]

section Loop
variable {h : Kmalloc} {c mm : Nat}

/-- One turn of the loop: the page's table exists afterwards, and its entry is stored. -/
theorem map_page_spec {s : Vm} {f : Nat → Option Nat} (hm : Maps h c s mm f) (hf : Fresh h c) {pd pt : Nat}
    (hpd : pd < 512) (hpt : pt < 512) (phys fl : Nat) :
    ∃ e s₁ s', get_pt_entry h mm pd pt s = .ok (e, s₁) ∧ load64 e s₁ = .ok (s₁.mem e, s₁) ∧
      store64 e (phys ||| PG_PRESENT ||| fl) s₁ = .ok ((), s') ∧
      Maps h c s' mm (Function.update f (512 * pd + pt) (some (phys ||| PG_PRESENT ||| fl))) ∧
      ∀ j, j ≠ pd → (s'.tablesOf mm).page_tables j = (s.tablesOf mm).page_tables j := by
  obtain ⟨s₁, hrun, hm₁, ht, hother⟩ := hm.get_pt_entry_spec hf hpd hpt
  have hne : (s₁.tablesOf mm).page_tables pd + 8 * pt ≠ 0 := by omega
  have hst := hm₁.store hf hpd hpt ht (phys ||| PG_PRESENT ||| fl)
  rw [pteOf_present] at hst
  exact ⟨_, s₁, _, hrun, load64_run hne s₁, store64_run hne _ s₁, hst, hother⟩

/-- The loop maps its range, and makes no table below the one it starts in. -/
theorem map_pages_loop_spec (hf : Fresh h c) (fl pages : Nat) {s : Vm} {f : Nat → Option Nat} {pd pt phys : Nat}
    (hm : Maps h c s mm f) (hpt : pt < 512) (hle : 512 * pd + pt + pages ≤ 2 ^ 18) (hp : phys < 2 ^ 32) :
    ∃ s', map_pages_loop h mm fl pages pd pt phys s = .ok ((), s') ∧
      Maps h c s' mm (mapRange f (512 * pd + pt) pages phys fl) ∧
      ∀ j, j < pd → (s'.tablesOf mm).page_tables j = (s.tablesOf mm).page_tables j := by
  induction pages generalizing s f pd pt phys with
  | zero =>
    rw [mapRange_zero]
    exact ⟨s, rfl, hm, fun _ _ => rfl⟩
  | succ pages ih =>
    obtain ⟨e, s₁, s₂, hget, hload, hstore, hm₂, hother⟩ := map_page_spec hm hf (show pd < 512 by omega) hpt phys fl
    rw [mapRange_succ f _ pages fl hp]
    unfold map_pages_loop
    rw [Exec.bind_of_ok hget, Exec.bind_of_ok hload, Exec.bind_of_ok hstore]
    by_cases hlast : pt + 1 = 512
    · -- the next page is the first of the next table
      rw [if_pos hlast]
      have hnext : 512 * (pd + 1) + 0 = 512 * pd + pt + 1 := by omega
      have hle' : 512 * (pd + 1) + 0 + pages ≤ 2 ^ 18 := by omega
      rw [← hnext]
      obtain ⟨s', hrun, hm', hlow⟩ := ih hm₂ (by omega) hle' (add32_lt phys PAGESIZE)
      refine ⟨s', hrun, hm', fun j hj => ?_⟩
      rw [hlow j (by omega), hother j (by omega)]
    · rw [if_neg hlast]
      have hle' : 512 * pd + (pt + 1) + pages ≤ 2 ^ 18 := by omega
      obtain ⟨s', hrun, hm', hlow⟩ := ih hm₂ (by omega) hle' (add32_lt phys PAGESIZE)
      refine ⟨s', hrun, hm', fun j hj => ?_⟩
      rw [hlow j hj, hother j (by omega)]

end Loop

/-! ## Calls -/

/-- The arguments of one `mm_map` call. -/
structure MapCall where
  start_virt : Nat
  start_phys : Nat
  n : Nat
  crflags : Nat

namespace MapCall

def Aligned (m : MapCall) : Prop := m.start_virt % PAGESIZE = 0 ∧ m.start_phys % PAGESIZE = 0

/-- The address `v` lies in the range, rounded up to pages. -/
def Covers (m : MapCall) (v : Nat) : Prop :=
  m.Aligned ∧ 1 ≤ m.n ∧ m.start_virt ≤ v ∧ v < m.start_virt + page_count m.n * PAGESIZE

instance (m : MapCall) (v : Nat) : Decidable (m.Covers v) := by
  unfold Covers Aligned
  infer_instance

/-- Below 1 GiB, and in memory. -/
def InRange (m : MapCall) : Prop := m.Aligned → m.start_virt + m.n ≤ 2 ^ 30 ∧ m.start_phys + m.n ≤ 2 ^ 32

/-- The frame for the page of `v`. -/
def frame (m : MapCall) (v : Nat) : Nat := m.start_phys + (v / PAGESIZE * PAGESIZE - m.start_virt)

/-- The entry for the page of `v`. -/
def entry (m : MapCall) (v : Nat) : Nat := m.frame v ||| PG_PRESENT ||| m.crflags

theorem page_count_mul_le {a n N : Nat} (ha : a % 4096 = 0) (hN : N % 4096 = 0) (h : a + n ≤ N) :
    a + page_count n * 4096 ≤ N := by
  unfold page_count PAGESIZE
  split <;> omega

theorem covers_page {m : MapCall} (v : Nat) : m.Covers (4096 * (v / 4096)) ↔ m.Covers v := by
  unfold Covers Aligned PAGESIZE
  constructor
  · rintro ⟨ha, hn, h1, h2⟩
    exact ⟨ha, hn, by omega, by omega⟩
  · rintro ⟨ha, hn, h1, h2⟩
    exact ⟨ha, hn, by omega, by omega⟩

theorem entry_page (m : MapCall) (v : Nat) : m.entry (4096 * (v / 4096)) = m.entry v := by
  unfold entry frame PAGESIZE
  rw [show 4096 * (v / 4096) / 4096 = v / 4096 by omega]

/-- The call as a program. -/
def run (m : MapCall) (h : Kmalloc) (mm : Nat) : Exec Vm Unit :=
  mm_map h mm m.start_virt m.start_phys m.n m.crflags

/-- What is mapped after the call. -/
def apply (f : Nat → Option Nat) (m : MapCall) : Nat → Option Nat :=
  overlay (fun (m : MapCall) p => m.Covers (4096 * p)) (fun m p => m.entry (4096 * p)) f m

/-- Unaligned addresses and empty ranges are turned away. -/
theorem run_idle {m : MapCall} (hm : ¬ m.Aligned ∨ m.n = 0) (h : Kmalloc) (mm : Nat) (s : Vm) :
    m.run h mm s = .ok ((), s) := by
  unfold run mm_map
  by_cases ha : m.Aligned
  · have hn : m.n = 0 := hm.resolve_left (not_not_intro ha)
    rw [if_neg (by unfold Aligned at ha; omega), if_pos (by omega)]
    rfl
  · rw [if_pos (by unfold Aligned at ha; omega)]
    rfl

theorem apply_idle {m : MapCall} (hm : ¬ m.Aligned ∨ m.n = 0) (f : Nat → Option Nat) : apply f m = f := by
  apply overlay_idle
  rintro p ⟨ha, hn, -⟩
  rcases hm with hm | hm
  · exact hm ha
  · omega

theorem apply_eq_mapRange {m : MapCall} (ha : m.Aligned) (hn : 1 ≤ m.n) (hr : m.InRange) (f : Nat → Option Nat) :
    apply f m = mapRange f (m.start_virt / 4096) (page_count m.n) m.start_phys m.crflags := by
  obtain ⟨hv, hp⟩ := ha
  have hp' := page_count_mul_le hp (by decide) (hr ⟨hv, hp⟩).2
  unfold PAGESIZE at hv hp
  funext p
  unfold apply overlay mapRange
  by_cases hin : m.start_virt / 4096 ≤ p ∧ p < m.start_virt / 4096 + page_count m.n
  · rw [if_pos hin, if_pos (show m.Covers (4096 * p) from ⟨⟨hv, hp⟩, hn, by omega, by unfold PAGESIZE; omega⟩)]
    have hframe : m.frame (4096 * p) = m.start_phys + 4096 * (p - m.start_virt / 4096) := by
      unfold frame PAGESIZE
      omega
    rw [add32_eq (by omega), ← hframe]
    rfl
  · rw [if_neg hin, if_neg]
    rintro ⟨-, -, h1, h2⟩
    unfold PAGESIZE at h2
    omega

end MapCall

section Map
variable {h : Kmalloc} {c mm : Nat} {s : Vm} {f : Nat → Option Nat}

/-- A call on aligned addresses maps its range below 1 GiB, counting the frames in
32 bits, and makes no table below it. -/
theorem mm_map_run (hm : Maps h c s mm f) (hf : Fresh h c) {m : MapCall} (ha : m.Aligned) (hn : m.n ≠ 0)
    (hv : m.start_virt + m.n ≤ 2 ^ 30) (hp : m.start_phys < 2 ^ 32) :
    ∃ s', m.run h mm s = .ok ((), s') ∧
      Maps h c s' mm (mapRange f (m.start_virt / 4096) (page_count m.n) m.start_phys m.crflags) ∧
      ∀ j, j < m.start_virt / 2 ^ 21 → (s'.tablesOf mm).page_tables j = (s.tablesOf mm).page_tables j := by
  have hv' := MapCall.page_count_mul_le ha.1 (by decide) hv
  have hal := ha
  unfold MapCall.Aligned PAGESIZE at hal
  have hphys : m.start_phys &&& 0xfffff000 = m.start_phys := by
    rw [show (0xfffff000 : Nat) = (2 ^ 20 - 1) <<< 12 from rfl, and_ones]
    omega
  have hpage : 512 * (m.start_virt / 4096 / 512) + m.start_virt / 4096 % 512 = m.start_virt / 4096 := by omega
  have hpages : 512 * (m.start_virt / 4096 / 512) + m.start_virt / 4096 % 512 + page_count m.n ≤ 2 ^ 18 := by omega
  obtain ⟨s', hrun, hm', hlow⟩ :=
    map_pages_loop_spec hf m.crflags (page_count m.n) hm (Nat.mod_lt _ (by decide)) hpages hp
  rw [hpage] at hm'
  refine ⟨s', ?_, hm', fun j hj => hlow j (by omega)⟩
  unfold MapCall.run mm_map map_pages
  rw [if_neg (by unfold PAGESIZE; omega), if_neg (by omega), hphys]
  exact hrun

/-- A call changes the map as it should, and makes no table below its range. -/
theorem mm_map_spec (hm : Maps h c s mm f) (hf : Fresh h c) {m : MapCall} (hr : m.InRange) :
    ∃ s', m.run h mm s = .ok ((), s') ∧ Maps h c s' mm (m.apply f) ∧
      ∀ j, j < m.start_virt / 2 ^ 21 → (s'.tablesOf mm).page_tables j = (s.tablesOf mm).page_tables j := by
  by_cases hidle : ¬ m.Aligned ∨ m.n = 0
  · rw [MapCall.apply_idle hidle]
    exact ⟨s, MapCall.run_idle hidle h mm s, hm, fun _ _ => rfl⟩
  obtain ⟨hna, hn⟩ := not_or.1 hidle
  have ha := not_not.1 hna
  obtain ⟨hv, hp⟩ := hr ha
  rw [MapCall.apply_eq_mapRange ha (by omega) hr]
  exact mm_map_run hm hf ha hn hv (by omega)

/-- The calls, one after another. -/
def mapAll (h : Kmalloc) (mm : Nat) : List MapCall → Exec Vm Unit
  | [] => pure ()
  | m :: calls => do
    m.run h mm
    mapAll h mm calls

theorem mapAll_spec (hm : Maps h c s mm f) (hf : Fresh h c) {calls : List MapCall} (hr : ∀ m ∈ calls, m.InRange) :
    ∃ s', mapAll h mm calls s = .ok ((), s') ∧ Maps h c s' mm (calls.foldl MapCall.apply f) := by
  induction calls generalizing s f with
  | nil => exact ⟨s, rfl, hm⟩
  | cons m calls ih =>
    obtain ⟨s₁, hrun, hm₁, -⟩ := mm_map_spec hm hf (hr m List.mem_cons_self)
    obtain ⟨s', hrun', hm'⟩ := ih hm₁ fun a ha => hr a (List.mem_cons_of_mem _ ha)
    exact ⟨s', (Exec.bind_of_ok hrun).trans hrun', hm'⟩

end Map

/-! ## mk_mmap -/

section Make
variable {h : Kmalloc} {s : Vm}

/-- `mk_mmap` returns. Its tables come from the four calls it makes, and only
`page_tables` is left as the memory had it. -/
theorem mk_mmap_run (hf : Fresh h s.kmallocs) :
    ∃ s', mk_mmap h s = .ok (h s.kmallocs 8 1, s') ∧ s'.current_mm = s.current_mm ∧
      s'.kmallocs = s.kmallocs + 4 ∧ (s'.mms (h s.kmallocs 8 1)).tables = h (s.kmallocs + 1) 2068 1 ∧
      (s'.tablesOf (h s.kmallocs 8 1)).page_dirs 0 = page h (s.kmallocs + 2) ∧
      (s'.tablesOf (h s.kmallocs 8 1)).ptr_table = h (s.kmallocs + 3) 32 32 ∧
      (s'.tablesOf (h s.kmallocs 8 1)).page_tables = (s.tables (h (s.kmallocs + 1) 2068 1)).page_tables ∧
      s'.mem (h (s.kmallocs + 3) 32 32) = page h (s.kmallocs + 2) ||| PG_PRESENT ∧
      ∀ i < 512, s'.mem (page h (s.kmallocs + 2) + 8 * i) = 0 := by
  have hmm : h s.kmallocs 8 1 ≠ 0 :=
    Nat.pos_iff_ne_zero.1 (hf.pos _ le_rfl (by omega) 8 1 (by omega) (one_dvd _))
  have htab : h (s.kmallocs + 1) 2068 1 ≠ 0 :=
    Nat.pos_iff_ne_zero.1 (hf.pos _ (by omega) (by omega) 2068 1 (by omega) (one_dvd _))
  have hdir : h (s.kmallocs + 2) 4096 4096 ≠ 0 :=
    Nat.pos_iff_ne_zero.1 (hf.page_pos (by omega) (by omega))
  have hptr : h (s.kmallocs + 3) 32 32 ≠ 0 :=
    Nat.pos_iff_ne_zero.1 (hf.pos _ (by omega) (by omega) 32 32 (by omega) (by decide))
  have hptr_le := hf.inside (s.kmallocs + 3) (by omega) (by omega) 32 32 (by omega) (by decide)
  have hapart := hf.apart (s.kmallocs + 2) (s.kmallocs + 3) (by omega) (by omega) (by omega) 4096 4096 32 32 le_rfl
    dvd_rfl (by omega) (by decide)
  have hentry : ∀ t : Vm, entry_at (h (s.kmallocs + 3) 32 32) 0 t = .ok (h (s.kmallocs + 3) 32 32, t) := by
    intro t
    simp [entry_at, hptr, add32_eq (show h (s.kmallocs + 3) 32 32 + 0 < 2 ^ 32 by omega)]
  unfold mk_mmap PAGEDIR_SIZE PTR_TABLE_SIZE PAGESIZE
  simp only [Exec.bind_apply, kmalloc_run, store_mm_run hmm, load_tables_run hmm, Vm.setMm, Function.update_self,
    store_tables_run htab, deref_tables_run htab, Vm.setTables, bzero_run hdir, bzero_run hptr, hentry,
    store64_run hptr, Exec.pure_apply, Nat.add_assoc, Nat.reduceAdd, Nat.reduceMul]
  refine ⟨_, rfl, rfl, rfl, ?_, ?_, ?_, ?_, ?_, ?_⟩
  all_goals simp only [Vm.tablesOf, Vm.setWord, Function.update_self]
  · rfl
  · rfl
  · intro i hi
    unfold page
    rw [Function.update_of_ne (by omega), if_neg (by omega), if_pos (by omega)]

/-- Nothing is mapped in an address space just made, if no word left in
`page_tables` looks like a table. -/
theorem mk_mmap_maps (hf : Fresh h s.kmallocs) (hoff : s.current_mm = 0) {mm : Nat} {s₁ : Vm}
    (hb : mk_mmap h s = .ok (mm, s₁)) (hnull : ∀ i < 512, (s₁.tablesOf mm).page_tables i = 0) :
    Maps h s.kmallocs s₁ mm fun _ => none := by
  obtain ⟨s', hrun, hoff', hk, htab, hdir, hptr, -, hpdpte, hpde⟩ := mk_mmap_run hf
  rw [hrun] at hb
  cases hb
  refine ⟨hoff'.trans hoff, rfl, htab, hdir, hptr, ?_, ?_, ?_, ?_, ?_, fun _ _ _ _ _ => rfl, ?_⟩
  · exact fun i hi ht => absurd (hnull i hi) ht
  · exact fun i hi _ _ ht => absurd (hnull i hi) ht
  · rw [hk, Finset.card_eq_zero.2]
    apply Finset.filter_eq_empty_iff.2
    intro i hi
    exact not_not_intro (hnull i (Finset.mem_range.1 hi))
  · rw [hptr, hdir]
    exact hpdpte
  · intro i hi
    rw [hdir, if_pos (hnull i hi)]
    exact hpde i hi
  · exact fun i hi ht => absurd (hnull i hi) ht

end Make

/-! ## The last call covering a page decides -/

/-- The last of `calls` whose range covers `v`. -/
def lastCall (calls : List MapCall) (v : Nat) : Option MapCall := calls.reverse.find? fun m => m.Covers v

theorem foldl_apply (calls : List MapCall) (v : Nat) :
    calls.foldl MapCall.apply (fun _ => none) (v / 4096) = (lastCall calls v).map fun m => m.entry v := by
  have h := foldl_overlay (fun (m : MapCall) p => m.Covers (4096 * p)) (fun m p => m.entry (4096 * p)) calls
    (fun _ => none) (v / 4096)
  simp only [MapCall.covers_page, MapCall.entry_page, Option.or_none] at h
  exact h

theorem ofEntry_entry {m : MapCall} {v : Nat} (hr : m.InRange) (hc : m.Covers v) (hfl : m.crflags < 4096) :
    Mapped.ofEntry (m.entry v) = ⟨m.frame v, PG_PRESENT ||| m.crflags⟩ := by
  obtain ⟨⟨hv, hp⟩, hn, h1, h2⟩ := hc
  have hp' := MapCall.page_count_mul_le hp (by decide) (hr ⟨hv, hp⟩).2
  unfold PAGESIZE at hv hp h2
  have hdvd : 4096 ∣ m.frame v := by
    unfold MapCall.frame PAGESIZE
    omega
  have hle : m.frame v + 4096 ≤ 2 ^ 32 := by
    unfold MapCall.frame PAGESIZE
    omega
  have hlow : PG_PRESENT ||| m.crflags < 4096 := Nat.or_lt_two_pow (n := 12) (by decide) hfl
  unfold Mapped.ofEntry MapCall.entry
  rw [Nat.or_assoc, entryBase_or hdvd hle hlow, low_or hdvd hlow]

/-- After any calls on a new address space, the processor finds every page below
1 GiB as the last call covering it mapped it, and the others not present. A call
with an unaligned address or an empty range changes nothing. -/
theorem mm_map_walk {h : Kmalloc} {s s₁ : Vm} {mm : Nat} (hf : Fresh h s.kmallocs) (hoff : s.current_mm = 0)
    (hb : mk_mmap h s = .ok (mm, s₁)) (hnull : ∀ i < 512, (s₁.tablesOf mm).page_tables i = 0)
    {calls : List MapCall} (hr : ∀ m ∈ calls, m.InRange) :
    (∃ s₂, mapAll h mm calls s₁ = .ok ((), s₂) ∧ ∀ v < 2 ^ 30,
      (lastCall calls v = none → paeWalk s₂.mem (s₂.tablesOf mm).ptr_table v = none) ∧
      ∀ m, lastCall calls v = some m →
        paeWalk s₂.mem (s₂.tablesOf mm).ptr_table v = some (Mapped.ofEntry (m.entry v)) ∧
        (m.crflags < 4096 →
          paeWalk s₂.mem (s₂.tablesOf mm).ptr_table v = some ⟨m.frame v, PG_PRESENT ||| m.crflags⟩)) ∧
    ∀ (m : MapCall) (t : Vm), ¬ m.Aligned ∨ m.n = 0 → m.run h mm t = .ok ((), t) := by
  refine ⟨?_, fun m t hm => MapCall.run_idle hm h mm t⟩
  obtain ⟨s₂, hrun, hm⟩ := mapAll_spec (mk_mmap_maps hf hoff hb hnull) hf hr
  refine ⟨s₂, hrun, fun v hv => ?_⟩
  have hwalk := hm.paeWalk_eq hf hv
  rw [foldl_apply, Option.map_map] at hwalk
  constructor
  · intro hnone
    rw [hwalk, hnone]
    rfl
  · intro m hsome
    rw [hsome] at hwalk
    refine ⟨hwalk, fun hfl => hwalk.trans (congrArg some ?_)⟩
    have hmem : m ∈ calls := List.mem_reverse.1 (List.mem_of_find?_eq_some hsome)
    have hcov : m.Covers v := of_decide_eq_true (List.find?_some (p := fun m : MapCall => decide (m.Covers v)) hsome)
    exact ofEntry_entry (hr m hmem) hcov hfl

/-- Memory with nothing in it, and a heap that hands out page after page. -/
def zeroVm : Vm := ⟨fun _ => 0, fun _ => ⟨0, fun _ => 0, fun _ => 0⟩, fun _ => ⟨0, 0⟩, 0, 0, 0⟩

def pageHeap : Kmalloc := fun i _ _ => (i + 1) * 4096

theorem pageHeap_fresh : Fresh pageHeap 0 := by
  refine ⟨?_, ?_, ?_, ?_⟩
  · intro i _ _ _ _ _ _
    unfold pageHeap
    omega
  · intro i _ _ _ align _ ha
    exact ha.trans (Dvd.intro_left (i + 1) rfl)
  · intro i _ hi size _ hs _
    unfold pageHeap
    omega
  · intro i j _ hij _ size _ _ _ hs _ _ _
    unfold pageHeap
    omega

/-- Page 2 is mapped twice, once across the end of the first table. -/
theorem mm_map_walk_twice : ∃ s₁ s₂, mk_mmap pageHeap zeroVm = .ok (4096, s₁) ∧
    mapAll pageHeap 4096 [⟨0x2000, 0x2000, 0x1ff001, 2⟩, ⟨0x2000, 0x7000, 1, 6⟩, ⟨1, 0, 9, 0⟩] s₁ = .ok ((), s₂) ∧
    paeWalk s₂.mem (s₂.tablesOf 4096).ptr_table 0x2000 = some ⟨0x7000, 7⟩ ∧
    paeWalk s₂.mem (s₂.tablesOf 4096).ptr_table 0x200000 = some ⟨0x200000, 3⟩ ∧
    paeWalk s₂.mem (s₂.tablesOf 4096).ptr_table 0x202000 = none := by
  obtain ⟨s₁, hb, -, -, htab, -, -, hpt, -⟩ := mk_mmap_run (s := zeroVm) pageHeap_fresh
  have hnull : ∀ i < 512, (s₁.tablesOf 4096).page_tables i = 0 := fun i _ => congrFun hpt i
  have hr : ∀ m ∈ ([⟨0x2000, 0x2000, 0x1ff001, 2⟩, ⟨0x2000, 0x7000, 1, 6⟩, ⟨1, 0, 9, 0⟩] : List MapCall),
      m.InRange := by
    intro m hm ha
    simp only [List.mem_cons, List.not_mem_nil, or_false] at hm
    obtain rfl | rfl | rfl := hm <;> revert ha <;> simp [MapCall.Aligned, PAGESIZE]
  obtain ⟨⟨s₂, hrun, hv⟩, -⟩ := mm_map_walk pageHeap_fresh rfl hb hnull hr
  refine ⟨s₁, s₂, hb, hrun, ?_, ?_, ?_⟩
  · exact (((hv 0x2000 (by omega)).2 _ rfl).2 (by decide))
  · exact (((hv 0x200000 (by omega)).2 _ rfl).2 (by decide))
  · exact (hv 0x202000 (by omega)).1 rfl

end Ulmix.Paging

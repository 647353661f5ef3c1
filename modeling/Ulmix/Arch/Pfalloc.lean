import Ulmix.Arch.Paging
import Ulmix.Lib.Leases
/-!
# Page frames (`arch/i686/pfalloc.c`)

One 8-bit reference count for each frame of memory. `get_free_page` hands out
the first frame with count zero; nothing stops its search at the end of the
table, and nothing stops a count at 255. As long as neither happens, the counts
back the references callers hold, so a frame handed out is nobody else's.
-/
open Ulmix.Lib
open Ulmix.Paging (PAGESIZE)

namespace Ulmix.Frames

/-! ## Model -/

/-- The table `pframes`, if there was room for it, and how many frames there are. -/
structure Pfalloc where
  page_count : Nat
  pframes : Option (List UInt8)

/-- `block` is what `kmalloc` returned: a block with whatever it holds, or none. -/
def setup_pfalloc (ram_size : Nat) (block : Option (Nat → UInt8)) : Pfalloc :=
  let page_count := ram_size / PAGESIZE
  ⟨page_count, block.map fun b => (List.range page_count).map b⟩

/-- `pframes[index].ref_count` -/
def load_ref_count (index : Nat) : Exec Pfalloc UInt8 := do
  let s ← get
  match s.pframes with
  | none => Exec.fault .nullDeref
  | some t => if h : index < t.length then pure t[index] else Exec.fault .outOfBounds

/-- `pframes[index].ref_count = v` -/
def store_ref_count (index : Nat) (v : UInt8) : Exec Pfalloc Unit := do
  let s ← get
  match s.pframes with
  | none => Exec.fault .nullDeref
  | some t =>
    if index < t.length then set { s with pframes := some (t.set index v) } else Exec.fault .outOfBounds

/-- The loop of `get_free_page`, with the counts from `index` on. Behind the
last one it reads past the table. -/
def get_free_page_loop : List UInt8 → Nat → Exec Pfalloc Nat
  | [], _ => Exec.fault .outOfBounds
  | ref_count :: rest, index => if ref_count ≠ 0 then get_free_page_loop rest (index + 1) else pure index

def get_free_page : Exec Pfalloc Nat := do
  let s ← get
  match s.pframes with
  | none => Exec.fault .nullDeref
  | some t =>
    let index ← get_free_page_loop t 0
    store_ref_count index ((← load_ref_count index) + 1)
    pure (index * PAGESIZE % 2 ^ 32)

def alloc_page (phys_addr : Nat) : Exec Pfalloc Nat := do
  if phys_addr % PAGESIZE ≠ 0 then pure 0
  else
    let index := phys_addr / PAGESIZE
    store_ref_count index ((← load_ref_count index) + 1)
    pure (index * PAGESIZE % 2 ^ 32)

def release_page (id : Nat) : Exec Pfalloc Unit := do
  if (← load_ref_count id) ≠ 0 then store_ref_count id ((← load_ref_count id) - 1)

/-! ## The table -/

namespace Pfalloc

/-- The counts in the table. -/
def frames (s : Pfalloc) : List UInt8 := s.pframes.getD []

/-- The count of frame `i`. -/
def count (s : Pfalloc) (i : Nat) : Nat := (s.frames.getD i 0).toNat

def setCount (s : Pfalloc) (i : Nat) (v : UInt8) : Pfalloc := { s with pframes := s.pframes.map (·.set i v) }

@[simp] theorem setCount_page_count (s : Pfalloc) (i : Nat) (v : UInt8) :
  (s.setCount i v).page_count = s.page_count := rfl

@[simp] theorem setCount_frames (s : Pfalloc) (i : Nat) (v : UInt8) : (s.setCount i v).frames = s.frames.set i v := by
  obtain ⟨n, t⟩ := s
  cases t <;> rfl

theorem setCount_count {s : Pfalloc} {i : Nat} (hi : i < s.frames.length) (v : UInt8) :
    (s.setCount i v).count = Function.update s.count i v.toNat := by
  funext j
  unfold count
  rw [setCount_frames]
  by_cases hj : j = i
  · subst hj
    simp [hi]
  · rw [Function.update_of_ne hj, List.getD_eq_getElem?_getD, List.getElem?_set_ne (Ne.symm hj),
      List.getD_eq_getElem?_getD]

theorem pframes_eq {s : Pfalloc} {i : Nat} (hi : i < s.frames.length) : s.pframes = some s.frames := by
  obtain ⟨n, t⟩ := s
  cases t with
  | none => simp [frames] at hi
  | some t => rfl

end Pfalloc

section Prims
variable {s : Pfalloc} {i : Nat}

theorem load_run (hi : i < s.frames.length) : load_ref_count i s = .ok (s.frames.getD i 0, s) := by
  have hp := Pfalloc.pframes_eq hi
  unfold load_ref_count
  rw [Exec.bind_of_ok (Exec.get_apply s), hp]
  simp [hi]

/-- Only the counts of the table can be read. -/
theorem lt_of_load {c : UInt8} {s' : Pfalloc} (h : load_ref_count i s = .ok (c, s')) : i < s.frames.length := by
  unfold load_ref_count at h
  rw [Exec.bind_of_ok (Exec.get_apply s)] at h
  cases hp : s.pframes with
  | none =>
    rw [hp] at h
    cases h
  | some t =>
    rw [hp] at h
    have ht : s.frames = t := by
      unfold Pfalloc.frames
      rw [hp]
      rfl
    rw [ht]
    by_contra hge
    simp only [dif_neg hge] at h
    cases h

theorem store_run (hi : i < s.frames.length) (v : UInt8) : store_ref_count i v s = .ok ((), s.setCount i v) := by
  have hp := Pfalloc.pframes_eq hi
  unfold store_ref_count
  rw [Exec.bind_of_ok (Exec.get_apply s), hp]
  simp [hi, Pfalloc.setCount, hp]

/-- The search stops at the first count that is zero, or runs off the table. -/
theorem get_free_page_loop_eq (t : List UInt8) (i : Nat) (s : Pfalloc) :
    get_free_page_loop t i s =
      if t.findIdx (· == 0) < t.length then .ok (i + t.findIdx (· == 0), s) else .error .outOfBounds := by
  induction t generalizing i with
  | nil => rfl
  | cons c t ih =>
    unfold get_free_page_loop
    by_cases hc : c = 0
    · simp [hc, List.findIdx_cons]
    · have hb : (c == 0) = false := beq_false_of_ne hc
      rw [if_pos hc, ih, List.findIdx_cons, hb, cond_false, List.length_cons]
      simp only [Nat.add_lt_add_iff_right, Nat.add_assoc, Nat.add_comm 1]

/-- The first frame nobody is counted on. -/
def Pfalloc.firstFree (s : Pfalloc) : Nat := s.frames.findIdx (· == 0)

theorem firstFree_count (h : s.firstFree < s.frames.length) : s.count s.firstFree = 0 := by
  have hz : s.frames[s.firstFree] = 0 := beq_iff_eq.1 (List.findIdx_getElem (p := fun c : UInt8 => c == 0) (w := h))
  unfold Pfalloc.count
  rw [List.getD_eq_getElem _ _ h, hz]
  rfl

theorem firstFree_le {i : Nat} (hi : i < s.frames.length) (hc : s.count i = 0) : s.firstFree ≤ i := by
  by_contra hlt
  have hne : (s.frames[i] == 0) = false :=
    List.not_of_lt_findIdx (p := fun c : UInt8 => c == 0) (Nat.lt_of_not_le hlt)
  unfold Pfalloc.count at hc
  rw [List.getD_eq_getElem _ _ hi] at hc
  have hz : s.frames[i] = 0 := UInt8.toNat_inj.1 hc
  rw [hz] at hne
  cases hne

theorem count_lt (s : Pfalloc) (i : Nat) : s.count i < 256 := UInt8.toNat_lt _

/-- Counting one reference more, short of the wrap. -/
theorem setCount_succ (hi : i < s.frames.length) (hc : s.count i ≠ 255) :
    (s.setCount i (s.frames.getD i 0 + 1)).count = Function.update s.count i (s.count i + 1) := by
  have hlt := count_lt s i
  rw [Pfalloc.setCount_count hi]
  congr 1
  unfold Pfalloc.count at hc hlt ⊢
  rw [UInt8.toNat_add]
  exact Nat.mod_eq_of_lt (show (s.frames.getD i 0).toNat + 1 < 256 by omega)

theorem setCount_pred (hi : i < s.frames.length) (hc : s.count i ≠ 0) :
    (s.setCount i (s.frames.getD i 0 - 1)).count = Function.update s.count i (s.count i - 1) := by
  rw [Pfalloc.setCount_count hi]
  congr 1
  unfold Pfalloc.count at hc ⊢
  rw [UInt8.toNat_sub_of_le]
  · rfl
  · rw [UInt8.le_iff_toNat_le]
    show 1 ≤ _
    omega

end Prims

/-! ## The three calls -/

section Calls
variable {s : Pfalloc} {i : Nat}

/-- `get_free_page` hands out the first free frame, if there is one. -/
theorem get_free_page_run (hlen : s.frames.length ≤ 2 ^ 20) (hfree : s.firstFree < s.frames.length) :
    get_free_page s = .ok (s.firstFree * PAGESIZE, s.setCount s.firstFree 1) := by
  have hp := Pfalloc.pframes_eq hfree
  have hzero : s.frames.getD s.firstFree 0 = 0 := UInt8.toNat_inj.1 (firstFree_count hfree)
  have hloop : get_free_page_loop s.frames 0 s = .ok (s.firstFree, s) := by
    rw [get_free_page_loop_eq, Nat.zero_add]
    exact if_pos hfree
  unfold get_free_page
  rw [Exec.bind_of_ok (Exec.get_apply s), hp]
  show (get_free_page_loop s.frames 0 >>= _) s = _
  rw [Exec.bind_of_ok hloop, Exec.bind_of_ok (load_run hfree), Exec.bind_of_ok (store_run hfree _), hzero]
  unfold PAGESIZE
  rw [Nat.mod_eq_of_lt (by omega)]
  rfl

/-- With no frame free the search leaves the table. -/
theorem get_free_page_error (hfree : ¬ s.firstFree < s.frames.length) : ∃ e, get_free_page s = .error e := by
  unfold get_free_page
  rw [Exec.bind_of_ok (Exec.get_apply s)]
  cases hp : s.pframes with
  | none => exact ⟨.nullDeref, rfl⟩
  | some t =>
    have ht : s.frames = t := by
      unfold Pfalloc.frames
      rw [hp]
      rfl
    refine ⟨.outOfBounds, Exec.bind_of_error ?_⟩
    rw [get_free_page_loop_eq]
    unfold Pfalloc.firstFree at hfree
    rw [ht] at hfree
    exact if_neg hfree

theorem alloc_page_run {phys : Nat} (ha : phys % PAGESIZE = 0) (hi : phys / PAGESIZE < s.frames.length) :
    alloc_page phys s = .ok (phys / PAGESIZE * PAGESIZE % 2 ^ 32,
      s.setCount (phys / PAGESIZE) (s.frames.getD (phys / PAGESIZE) 0 + 1)) := by
  unfold alloc_page
  rw [if_neg (not_not_intro ha)]
  refine (Exec.bind_of_ok (load_run hi)).trans ?_
  exact Exec.bind_of_ok (store_run hi _)

theorem release_page_run (hi : i < s.frames.length) (hc : s.count i ≠ 0) :
    release_page i s = .ok ((), s.setCount i (s.frames.getD i 0 - 1)) := by
  have hne : s.frames.getD i 0 ≠ 0 := by
    intro h
    apply hc
    unfold Pfalloc.count
    rw [h]
    rfl
  unfold release_page
  rw [Exec.bind_of_ok (load_run hi), if_pos hne, Exec.bind_of_ok (load_run hi)]
  exact store_run hi _

/-- A count that is zero stays zero. -/
theorem release_page_zero (hi : i < s.frames.length) (hc : s.count i = 0) : release_page i s = .ok ((), s) := by
  have hz : s.frames.getD i 0 = 0 := UInt8.toNat_inj.1 hc
  unfold release_page
  rw [Exec.bind_of_ok (load_run hi), hz]
  rfl

/-- `release_page` takes one off the count at `i`, if there is one to take. -/
theorem release_page_count (hi : i < s.frames.length) :
    ∃ s', release_page i s = .ok ((), s') ∧ s'.count = Function.update s.count i (s.count i - 1) := by
  by_cases hc : s.count i = 0
  · refine ⟨s, release_page_zero hi hc, ?_⟩
    rw [hc]
    exact (Function.update_eq_self_iff.2 hc.symm).symm
  · exact ⟨_, release_page_run hi hc, setCount_pred hi hc⟩

theorem lt_of_release_page {s' : Pfalloc} (h : release_page i s = .ok ((), s')) : i < s.frames.length := by
  obtain ⟨c, s₁, hload, -⟩ := Exec.bind_ok.1 h
  exact lt_of_load hload

end Calls

/-! ## Giving back what was allocated -/

/-- Releasing what `alloc` returns leaves every count as it was before. -/
def Restores (alloc : Exec Pfalloc Nat) (s : Pfalloc) : Prop :=
  ∃ id s₁ s₂, alloc s = .ok (id, s₁) ∧ release_page id s₁ = .ok ((), s₂) ∧ ∀ i, s₂.count i = s.count i

section GivingBack
variable {s : Pfalloc}

/-- The address of a frame is its index for the first frame only; the count of
any other frame stays as the allocation left it. -/
theorem restores_iff {alloc : Exec Pfalloc Nat} {i : Nat} {v : UInt8}
    (hrun : alloc s = .ok (i * PAGESIZE, s.setCount i v)) (hi : i < s.frames.length) (hv : v.toNat ≠ s.count i) :
    Restores alloc s ↔ i = 0 ∧ v.toNat - 1 = s.count 0 := by
  have hlen : (s.setCount i v).frames.length = s.frames.length := by simp
  constructor
  · rintro ⟨id, s₁, s₂, hok, hrel, hsame⟩
    rw [hrun] at hok
    cases hok
    have hlt := lt_of_release_page hrel
    obtain ⟨s', hrel', hcount⟩ := release_page_count hlt
    rw [hrel] at hrel'
    cases hrel'
    have hi' := hsame i
    rw [hcount, Pfalloc.setCount_count hi] at hi'
    by_cases hz : i = 0
    · subst hz
      rw [Nat.zero_mul, Function.update_self, Function.update_self] at hi'
      exact ⟨rfl, hi'⟩
    · have hne : i ≠ i * PAGESIZE := by
        unfold PAGESIZE
        omega
      rw [Function.update_of_ne hne, Function.update_self] at hi'
      exact absurd hi' hv
  · rintro ⟨rfl, hback⟩
    rw [Nat.zero_mul] at hrun
    obtain ⟨s', hrel, hcount⟩ := release_page_count (hlen ▸ hi)
    refine ⟨0, _, s', hrun, hrel, fun j => ?_⟩
    rw [hcount, Pfalloc.setCount_count hi, Function.update_self, Function.update_idem, hback, Function.update_eq_self]

/-- Releasing the address `get_free_page` returned restores the counts if and
only if frame 0 was free, and releasing the one `alloc_page` returned if and only
if it is that of frame 0, with a count that was not full. -/
theorem release_restores (hlen : s.frames.length ≤ 2 ^ 20) :
    ((∃ i < s.frames.length, s.count i = 0) → (Restores get_free_page s ↔ s.count 0 = 0)) ∧
    ∀ a, a % PAGESIZE = 0 → a / PAGESIZE < s.frames.length →
      (Restores (alloc_page a) s ↔ a = 0 ∧ s.count 0 ≠ 255) := by
  refine ⟨?_, fun a ha hi => ?_⟩
  · rintro ⟨i, hi, hc⟩
    have hfree := (firstFree_le hi hc).trans_lt hi
    have hzero := firstFree_count hfree
    have hne : (1 : UInt8).toNat ≠ s.count s.firstFree := by
      rw [hzero]
      decide
    rw [restores_iff (get_free_page_run hlen hfree) hfree hne]
    constructor
    · rintro ⟨h0, -⟩
      rwa [h0] at hzero
    · intro h0
      exact ⟨Nat.le_zero.1 (firstFree_le (Nat.zero_lt_of_lt hi) h0), h0.symm⟩
  · have hrun := alloc_page_run ha hi
    rw [Nat.mod_eq_of_lt (show a / PAGESIZE * PAGESIZE < 2 ^ 32 by unfold PAGESIZE at hi ⊢; omega)] at hrun
    have hlt := count_lt s (a / PAGESIZE)
    have hv : (s.frames.getD (a / PAGESIZE) 0 + 1).toNat = (s.count (a / PAGESIZE) + 1) % 256 := UInt8.toNat_add _ _
    rw [restores_iff hrun hi (by omega), hv]
    have ha0 : a / PAGESIZE = 0 ↔ a = 0 := by
      unfold PAGESIZE at ha ⊢
      omega
    rw [ha0]
    refine and_congr_right ?_
    rintro rfl
    rw [Nat.zero_div] at hlt ⊢
    omega

end GivingBack

/-- Two free frames: taking the first and giving it back, and sharing it, restore the counts. -/
theorem release_restores_first :
    Restores get_free_page ⟨2, some [0, 0]⟩ ∧ Restores (alloc_page 0) ⟨2, some [0, 0]⟩ := by
  obtain ⟨hget, halloc⟩ := release_restores (s := ⟨2, some [0, 0]⟩) (by decide)
  exact ⟨(hget ⟨0, by decide, rfl⟩).2 rfl, (halloc 0 rfl (by decide)).2 ⟨rfl, by decide⟩⟩

/-- With frame 0 taken, giving back frame 1 reads past the table, and so does
giving back a reference to it. -/
theorem release_misses :
    ¬ Restores get_free_page ⟨2, some [1, 0]⟩ ∧ ¬ Restores (alloc_page 4096) ⟨2, some [1, 0]⟩ := by
  constructor
  all_goals
    rintro ⟨id, s₁, s₂, hok, hrel, -⟩
    cases hok
    cases hrel

/-! ## Runs -/

/-- The table and the frames of the references that were not released. -/
structure Sys where
  pf : Pfalloc
  held : List Nat

inductive Call where
  | get_free_page
  | alloc_page (phys_addr : Nat)
  | release_page (id : Nat)

/-- One call that returns. Sharing names an existing frame, releasing a frame
with a reference left. -/
inductive Step : Sys → Call → Sys → Prop
  | get_free_page {s : Sys} {a : Nat} {pf : Pfalloc} : get_free_page s.pf = .ok (a, pf) →
      Step s .get_free_page ⟨pf, a / PAGESIZE :: s.held⟩
  | alloc_page {s : Sys} {phys a : Nat} {pf : Pfalloc} : phys % PAGESIZE = 0 → phys / PAGESIZE < s.pf.page_count →
      alloc_page phys s.pf = .ok (a, pf) → Step s (.alloc_page phys) ⟨pf, phys / PAGESIZE :: s.held⟩
  | release_page {s : Sys} {id : Nat} {pf : Pfalloc} : id ∈ s.held → release_page id s.pf = .ok ((), pf) →
      Step s (.release_page id) ⟨pf, s.held.erase id⟩

/-- Some frame of the table has count zero. -/
def HasFree (s : Sys) : Prop := ∃ i < s.pf.frames.length, s.pf.count i = 0

/-- What a call must find: a free frame, or a count that is not full. -/
def Fits (s : Sys) : Call → Prop
  | .get_free_page => HasFree s
  | .alloc_page phys => s.pf.count (phys / PAGESIZE) ≠ 255
  | .release_page _ => True

/-- `get_free_page` returns a frame that exists and nobody holds. -/
def SafeGet (s : Sys) : Prop :=
  ∃ a pf, get_free_page s.pf = .ok (a, pf) ∧ a / PAGESIZE < s.pf.page_count ∧ a / PAGESIZE ∉ s.held

/-- `get_free_page` returns a frame somebody holds. -/
def SharedGet (s : Sys) : Prop := ∃ a pf, get_free_page s.pf = .ok (a, pf) ∧ a / PAGESIZE ∈ s.held

/-- The shape of the table: one count for each frame, unless there was no room. -/
structure Shaped (s : Sys) : Prop where
  few : s.pf.page_count ≤ 2 ^ 20
  length : s.pf.frames = [] ∨ s.pf.frames.length = s.pf.page_count
  held : ∀ i ∈ s.held, i < s.pf.frames.length

theorem hasFree_iff {s : Sys} : HasFree s ↔ s.pf.firstFree < s.pf.frames.length := by
  constructor
  · rintro ⟨i, hi, hc⟩
    exact (firstFree_le hi hc).trans_lt hi
  · intro h
    exact ⟨s.pf.firstFree, h, firstFree_count h⟩

section Runs
variable {s s' : Sys} {i v : Nat}

theorem Shaped.le (h : Shaped s) : s.pf.frames.length ≤ s.pf.page_count := by
  rcases h.length with h' | h'
  · rw [h']
    exact Nat.zero_le _
  · exact h'.le

/-- A frame that exists has a count, if a call on it returned. -/
theorem lt_of_alloc_page {pf pf' : Pfalloc} {phys a : Nat} (ha : phys % PAGESIZE = 0)
    (hrun : alloc_page phys pf = .ok (a, pf')) : phys / PAGESIZE < pf.frames.length := by
  unfold alloc_page at hrun
  rw [if_neg (not_not_intro ha)] at hrun
  obtain ⟨c, s₁, hload, -⟩ := Exec.bind_ok.1 hrun
  exact lt_of_load hload

/-- What one call does: a frame is taken at count zero, shared, or released. -/
theorem step_cases (h : Shaped s) {c : Call} (hs : Step s c s') :
    (c = .get_free_page ∧ s.pf.firstFree < s.pf.frames.length ∧
      s' = ⟨s.pf.setCount s.pf.firstFree 1, s.pf.firstFree :: s.held⟩) ∨
    (∃ phys, c = .alloc_page phys ∧ phys / PAGESIZE < s.pf.frames.length ∧
      s' = ⟨s.pf.setCount (phys / PAGESIZE) (s.pf.frames.getD (phys / PAGESIZE) 0 + 1), phys / PAGESIZE :: s.held⟩) ∨
    (∃ id ∈ s.held, c = .release_page id ∧
      (release_page id s.pf = .ok ((), s'.pf)) ∧ s'.held = s.held.erase id) := by
  have hlen := h.le.trans h.few
  cases hs with
  | get_free_page hrun =>
    by_cases hfree : s.pf.firstFree < s.pf.frames.length
    · rw [get_free_page_run hlen hfree] at hrun
      cases hrun
      refine .inl ⟨rfl, hfree, ?_⟩
      rw [Nat.mul_div_cancel _ (by decide)]
    · obtain ⟨e, he⟩ := get_free_page_error hfree
      rw [he] at hrun
      cases hrun
  | alloc_page ha _ hrun =>
    have hi := lt_of_alloc_page ha hrun
    rw [alloc_page_run ha hi] at hrun
    cases hrun
    exact .inr (.inl ⟨_, rfl, hi, rfl⟩)
  | release_page hid hrun => exact .inr (.inr ⟨_, hid, rfl, hrun, rfl⟩)

/-- Counts changed in place leave the table in shape. -/
theorem Shaped.setCount (h : Shaped s) (i : Nat) (v : UInt8) {held : List Nat}
    (hheld : ∀ j ∈ held, j < s.pf.frames.length) : Shaped ⟨s.pf.setCount i v, held⟩ := by
  refine ⟨h.few, ?_, ?_⟩
  · rcases h.length with h' | h'
    · left
      simp [h']
    · right
      simp [h']
  · intro j hj
    simpa using hheld j hj

/-- The invariant: the table is in shape and its counts back the references. -/
structure Inv (s : Sys) : Prop where
  shaped : Shaped s
  backed : Backed s.pf.count s.held

theorem Inv.step (h : Inv s) {c : Call} (hfit : Fits s c) (hs : Step s c s') : Inv s' := by
  rcases step_cases h.shaped hs with ⟨rfl, hfree, rfl⟩ | ⟨phys, rfl, hi, rfl⟩ | ⟨id, hid, rfl, hrun, hheld⟩
  · refine ⟨h.shaped.setCount _ _ ?_, ?_⟩
    · intro j hj
      rcases List.mem_cons.1 hj with rfl | hj
      · exact hfree
      · exact h.shaped.held j hj
    · have hb := h.backed.take s.pf.firstFree
      rw [firstFree_count hfree] at hb
      show Backed (s.pf.setCount s.pf.firstFree 1).count _
      rw [Pfalloc.setCount_count hfree]
      exact hb
  · refine ⟨h.shaped.setCount _ _ ?_, ?_⟩
    · intro j hj
      rcases List.mem_cons.1 hj with rfl | hj
      · exact hi
      · exact h.shaped.held j hj
    · show Backed (s.pf.setCount _ _).count _
      rw [setCount_succ hi hfit]
      exact h.backed.take _
  · have hi := h.shaped.held id hid
    have hpos := h.backed.pos hid
    rw [release_page_run hi (by omega)] at hrun
    obtain ⟨pf, held⟩ := s'
    cases hheld
    cases hrun
    refine ⟨h.shaped.setCount _ _ fun j hj => h.shaped.held j (List.mem_of_mem_erase hj), ?_⟩
    show Backed (s.pf.setCount _ _).count _
    rw [setCount_pred hi (by omega)]
    exact h.backed.drop id

/-- A table just set up backs no references. -/
theorem Inv.start {ram_size : Nat} (hram : ram_size < 2 ^ 32) (block : Option (Nat → UInt8)) :
    Inv ⟨setup_pfalloc ram_size block, []⟩ := by
  refine ⟨⟨?_, ?_, fun _ hi => by cases hi⟩, Backed.nil _⟩
  · show ram_size / 4096 ≤ 2 ^ 20
    omega
  · cases block with
    | none => exact .inl rfl
    | some b =>
      right
      simp [setup_pfalloc, Pfalloc.frames]

theorem Inv.safeGet_iff (h : Inv s) : SafeGet s ↔ HasFree s := by
  have hlen := h.shaped.le.trans h.shaped.few
  rw [hasFree_iff]
  constructor
  · rintro ⟨a, pf, hrun, -, -⟩
    by_contra hfree
    obtain ⟨e, he⟩ := get_free_page_error hfree
    rw [he] at hrun
    cases hrun
  · intro hfree
    refine ⟨_, _, get_free_page_run hlen hfree, ?_⟩
    rw [Nat.mul_div_cancel _ (by decide)]
    exact ⟨hfree.trans_le h.shaped.le, h.backed.notMem (firstFree_count hfree)⟩

/-! ## Past a full count -/

/-- Taking the first free frame leaves only later ones free. -/
theorem firstFree_setCount (hfree : s.pf.firstFree < s.pf.frames.length) {i : Nat} (hi : i < s.pf.frames.length)
    (hc : s.pf.count i = 0) (hne : i ≠ s.pf.firstFree) :
    s.pf.firstFree < (s.pf.setCount s.pf.firstFree 1).firstFree ∧ (s.pf.setCount s.pf.firstFree 1).firstFree ≤ i := by
  have hi' : i < (s.pf.setCount s.pf.firstFree 1).frames.length := by simpa using hi
  have hc' : (s.pf.setCount s.pf.firstFree 1).count i = 0 := by
    rw [Pfalloc.setCount_count hfree, Function.update_of_ne hne]
    exact hc
  have hle := firstFree_le hi' hc'
  refine ⟨?_, hle⟩
  have hlt : (s.pf.setCount s.pf.firstFree 1).firstFree < (s.pf.setCount s.pf.firstFree 1).frames.length := by omega
  have hz := firstFree_count hlt
  rw [Pfalloc.setCount_count hfree] at hz
  by_cases heq : (s.pf.setCount s.pf.firstFree 1).firstFree = s.pf.firstFree
  · rw [heq, Function.update_self] at hz
    cases hz
  · rw [Function.update_of_ne heq] at hz
    have hlt' : (s.pf.setCount s.pf.firstFree 1).firstFree < s.pf.frames.length := by simpa using hlt
    have := firstFree_le hlt' hz
    omega

/-- A frame held at count zero is handed out again, once the free frames before it are taken. -/
theorem shared_of_zero {s₀ : Sys} (n : Nat) {s : Sys} (hr : Run Step s₀ s) (h : Shaped s) {i : Nat}
    (hi : i < s.pf.frames.length) (hc : s.pf.count i = 0) (hheld : i ∈ s.held) (hn : i - s.pf.firstFree ≤ n) :
    ∃ s', Run Step s₀ s' ∧ SharedGet s' := by
  induction n generalizing s with
  | zero =>
    have hle := firstFree_le hi hc
    have hrun := get_free_page_run (h.le.trans h.few) (hle.trans_lt hi)
    refine ⟨s, hr, _, _, hrun, ?_⟩
    rw [Nat.mul_div_cancel _ (by decide)]
    have heq : s.pf.firstFree = i := by omega
    rwa [heq]
  | succ n ih =>
    have hle := firstFree_le hi hc
    have hfree := hle.trans_lt hi
    by_cases heq : i - s.pf.firstFree ≤ n
    · exact ih hr h hi hc hheld heq
    · have hne : i ≠ s.pf.firstFree := by omega
      obtain ⟨h1, h2⟩ := firstFree_setCount hfree hi hc hne
      have hrun := get_free_page_run (h.le.trans h.few) hfree
      have hstep := Step.get_free_page hrun
      rw [Nat.mul_div_cancel _ (by decide)] at hstep
      have hshaped : Shaped ⟨s.pf.setCount s.pf.firstFree 1, s.pf.firstFree :: s.held⟩ := by
        apply h.setCount
        intro j hj
        rcases List.mem_cons.1 hj with rfl | hj
        · exact hfree
        · exact h.held j hj
      refine ih (hr.call hstep) hshaped (by simpa using hi) ?_ (List.mem_cons_of_mem _ hheld) ?_
      · show (s.pf.setCount s.pf.firstFree 1).count i = 0
        rw [Pfalloc.setCount_count hfree, Function.update_of_ne hne]
        exact hc
      · show i - (s.pf.setCount s.pf.firstFree 1).firstFree ≤ n
        omega

/-- Sharing a frame whose count is full loses every reference to it. -/
theorem shared_of_full {s₀ : Sys} (hr : Run Step s₀ s) (h : Shaped s) {phys : Nat}
    (hfull : s.pf.count (phys / PAGESIZE) = 255) (hs : Step s (.alloc_page phys) s') :
    ∃ s'', Run Step s₀ s'' ∧ SharedGet s'' := by
  have hr' := hr.call hs
  rcases step_cases h hs with ⟨he, -⟩ | ⟨phys', he, hi, rfl⟩ | ⟨id, -, he, -⟩
  · cases he
  · cases he
    refine shared_of_zero (phys / PAGESIZE) hr' ?_ (i := phys / PAGESIZE) (by simpa using hi) ?_ List.mem_cons_self
      (Nat.sub_le _ _)
    · apply h.setCount
      intro j hj
      rcases List.mem_cons.1 hj with rfl | hj
      · exact hi
      · exact h.held j hj
    · show (s.pf.setCount _ _).count _ = 0
      rw [Pfalloc.setCount_count hi, Function.update_self, UInt8.toNat_add]
      unfold Pfalloc.count at hfull
      rw [hfull]
      rfl
  · cases he

end Runs

/-- In every run in which no count is full when it is shared, `get_free_page`
returns an existing frame nobody holds whenever some frame is free, and reads
past the table otherwise. A run that shares a full count can go on to hand out a
frame that is still held. -/
theorem frames_safe {ram_size : Nat} (hram : ram_size < 2 ^ 32) (block : Option (Nat → UInt8)) {s : Sys}
    (hr : Run (fun s c s' => Fits s c ∧ Step s c s') ⟨setup_pfalloc ram_size block, []⟩ s) :
    (SafeGet s ↔ HasFree s) ∧
    ∀ phys s', ¬ Fits s (.alloc_page phys) → Step s (.alloc_page phys) s' →
      ∃ s'', Run Step ⟨setup_pfalloc ram_size block, []⟩ s'' ∧ SharedGet s'' := by
  have hinv : Inv s := hr.inv Inv (Inv.start hram block) fun _ _ _ hi hs => hi.step hs.1 hs.2
  refine ⟨hinv.safeGet_iff, fun phys s' hfit hs => ?_⟩
  have hr' : Run Step ⟨setup_pfalloc ram_size block, []⟩ s := hr.mono fun _ _ _ hs => hs.2
  exact shared_of_full hr' hinv.shaped (not_not.1 hfit) hs

/-- Two frames, both free at first: the second is handed out after the first. -/
theorem frames_safe_two : SafeGet ⟨⟨2, some [1, 0]⟩, [0]⟩ := by
  have hr : Run (fun s c s' => Fits s c ∧ Step s c s') ⟨setup_pfalloc 8192 (some fun _ => 0), []⟩
      ⟨⟨2, some [1, 0]⟩, [0]⟩ :=
    Run.start.call (i := .get_free_page) ⟨⟨0, by decide, rfl⟩, Step.get_free_page (a := 0) rfl⟩
  exact (frames_safe (by decide) _ hr).1.2 ⟨1, by decide, rfl⟩

/-- With one frame, taken, the next search reads past the table; and a frame
shared 256 times is handed out again. -/
theorem frames_unsafe :
    (∃ s, Run Step ⟨setup_pfalloc 4096 (some fun _ => 0), []⟩ s ∧ get_free_page s.pf = .error .outOfBounds) ∧
    ∃ s, Run Step ⟨setup_pfalloc 4096 (some fun _ => 0), []⟩ s ∧ SharedGet s := by
  refine ⟨⟨⟨⟨1, some [1]⟩, [0]⟩, Run.start.call (Step.get_free_page (a := 0) rfl), rfl⟩, ?_⟩
  have hshare : ∀ n : Nat, Run Step ⟨setup_pfalloc 4096 (some fun _ => 0), []⟩
      ⟨⟨1, some [UInt8.ofNat n]⟩, List.replicate n 0⟩ := by
    intro n
    induction n with
    | zero => exact .start
    | succ n ih =>
      have hrun : alloc_page 0 ⟨1, some [UInt8.ofNat n]⟩ = .ok (0, ⟨1, some [UInt8.ofNat (n + 1)]⟩) := by
        rw [UInt8.ofNat_add]
        rfl
      have hstep : Step ⟨⟨1, some [UInt8.ofNat n]⟩, List.replicate n 0⟩ (.alloc_page 0)
          ⟨⟨1, some [UInt8.ofNat (n + 1)]⟩, 0 / PAGESIZE :: List.replicate n 0⟩ := .alloc_page rfl Nat.zero_lt_one hrun
      exact ih.call hstep
  exact ⟨_, hshare 256, 0, ⟨1, some [1]⟩, rfl, by decide⟩

end Ulmix.Frames

import Ulmix.Memory.Heap
/-!
# The heap lock

`kmalloc` gives the lock back on both ways out. `kfree` has three ways out, and
the one for pointers below the size of a header keeps the lock: the call itself
returns, and the next one waits for ever.
-/
open Ulmix.Lib Ulmix.Sync

namespace Ulmix.Heap

/-- Nobody holds `_heap_mtx`. -/
def Kheap.Unlocked (k : Kheap) : Prop := k.heap_mtx.locked = 0

/-- The heap with the lock taken. -/
def Kheap.lock (k : Kheap) : Kheap := { k with heap_mtx := { k.heap_mtx with locked := 1 } }

/-- The heap after a call that left `r` in memory and gave the lock back. -/
def Kheap.settle (k : Kheap) (r : Ram) : Kheap :=
  { k with ram := r, heap_mtx := { locked := 0, waiting := k.heap_mtx.waiting.tail } }

theorem onRam_of_ok {α : Type} {x : Exec Ram α} {k : Kheap} {a : α} {r : Ram} (h : x k.ram = .ok (a, r)) :
    onRam x k = .ok (a, { k with ram := r }) := Exec.zoom_of_ok h

theorem onRam_of_error {α : Type} {x : Exec Ram α} {k : Kheap} {f : Fault} (h : x k.ram = .error f) :
    onRam x k = .error f := Exec.zoom_of_error h

/-! ## Calls with the lock free -/

section Calls
variable {k : Kheap} (hk : k.Unlocked)
include hk

theorem lock_free : onMtx mutex_lock k = .ok ((), k.lock) := Exec.zoom_of_ok (mutex_lock_free hk)

theorem kmalloc_eq (size align description : Nat) :
    kmalloc size align description k =
      match kmalloc_loop size align description (2 ^ 32) k.heap_start k.ram with
      | .ok (p, r) => .ok (p, k.settle r)
      | .error f => .error f := by
  unfold kmalloc
  rw [Exec.bind_of_ok (lock_free hk), Exec.bind_of_ok (Exec.get_apply _)]
  cases h : kmalloc_loop size align description (2 ^ 32) k.heap_start k.ram with
  | ok p => exact Exec.bind_of_ok (onRam_of_ok (k := k.lock) h)
  | error f => exact Exec.bind_of_error (onRam_of_error (k := k.lock) h)

/-- A pointer below the size of a header: `kfree` returns at once. -/
theorem kfree_small (dbg : Bool) {ptr : Nat} (hp : ptr < 24) : kfree dbg ptr k = .ok ((), k.lock) := by
  unfold kfree
  rw [Exec.bind_of_ok (lock_free hk), if_pos (show ptr < headerSize from hp)]
  rfl

theorem kfree_header_null (dbg : Bool) : kfree dbg 24 k = .error .nullDeref := by
  unfold kfree
  rw [Exec.bind_of_ok (lock_free hk)]
  rfl

theorem kfree_eq (dbg : Bool) {ptr : Nat} (hp : 24 < ptr) (hp' : ptr < 2 ^ 32) :
    kfree dbg ptr k =
      if invalid k.ram (ptr - 24) then .ok ((), k.settle k.ram)
      else match kfree_entry dbg (ptr - 24) k.ram with
        | .ok (_, r) => .ok ((), k.settle r)
        | .error f => .error f := by
  unfold kfree
  rw [Exec.bind_of_ok (lock_free hk), if_neg (show ¬ ptr < headerSize by unfold headerSize; omega)]
  have hsub : sub32 ptr headerSize = ptr - 24 := sub32_eq hp' (by unfold headerSize; omega)
  simp only [hsub]
  rw [if_neg (by omega), Exec.bind_of_ok (Exec.get_apply _)]
  have hram : k.lock.ram = k.ram := rfl
  by_cases hi : invalid k.ram (ptr - 24)
  · rw [if_pos hi, if_pos (hram ▸ hi)]
    rfl
  · rw [if_neg hi, if_neg (hram ▸ hi)]
    cases h : kfree_entry dbg (ptr - 24) k.ram with
    | ok p => exact Exec.bind_of_ok (onRam_of_ok (k := k.lock) h)
    | error f => exact Exec.bind_of_error (onRam_of_error (k := k.lock) h)

end Calls

/-! ## Only the lock makes a call wait -/

section
variable {f : Fault} (hf : .nullDeref ≠ f)
include hf

theorem load_never (p : Nat) (g : Field) : Exec.Never f (load p g) :=
  .ite (.fault hf) (.bind .get fun _ => .pure _)

theorem store_never (p : Nat) (g : Field) (v : Nat) : Exec.Never f (store p g v) :=
  .ite (.fault hf) (.modify _)

theorem link_new_entry_never (addr prev : Nat) : Exec.Never f (link_new_entry addr prev) := by
  unfold link_new_entry
  repeat' first
    | exact load_never hf _ _
    | exact store_never hf _ _ _
    | exact .pure _
    | refine .ite ?_ ?_
    | refine .bind ?_ fun _ => ?_

theorem alloc_front_never (entry off : Nat) : Exec.Never f (alloc_front entry off) := by
  unfold alloc_front
  refine .ite (.bind (load_never hf _ _) fun _ => .bind (link_new_entry_never hf _ _) fun _ => ?_) (.pure _)
  exact .bind (load_never hf _ _) fun _ => .bind (store_never hf _ _ _) fun _ => .pure _

theorem alloc_tail_never (new_entry prev_size off size : Nat) :
    Exec.Never f (alloc_tail new_entry prev_size off size) := by
  unfold alloc_tail
  refine .ite (.bind (load_never hf _ _) fun _ => .bind (link_new_entry_never hf _ _) fun _ => ?_)
    (store_never hf _ _ _)
  refine .bind (store_never hf _ _ _) fun _ => .bind (store_never hf _ _ _) fun _ => ?_
  exact .bind (store_never hf _ _ _) fun _ => .bind (store_never hf _ _ _) fun _ => store_never hf _ _ _

/-- `alloc_entry` can only end at a null pointer. -/
theorem alloc_entry_never (entry off size description : Nat) :
    Exec.Never f (alloc_entry entry off size description) := by
  unfold alloc_entry
  refine .bind (load_never hf _ _) fun _ => .bind (alloc_front_never hf _ _) fun _ => ?_
  refine .bind (store_never hf _ _ _) fun _ => .bind (store_never hf _ _ _) fun _ => ?_
  refine .bind (load_never hf _ _) fun _ => .bind (store_never hf _ _ _) fun _ => ?_
  exact .bind (alloc_tail_never hf _ _ _ _) fun _ => load_never hf _ _

theorem kmalloc_loop_never (hd : .diverges ≠ f) (size align description fuel entry : Nat) :
    Exec.Never f (kmalloc_loop size align description fuel entry) := by
  induction fuel generalizing entry with
  | zero => exact .fault hd
  | succ fuel ih =>
    unfold kmalloc_loop
    refine .ite (.pure _) (.bind (load_never hf _ _) fun _ => .bind (load_never hf _ _) fun _ => ?_)
    refine .bind (load_never hf _ _) fun _ => .bind (load_never hf _ _) fun _ => ?_
    exact .ite (alloc_entry_never hf _ _ _ _) (.bind (load_never hf _ _) fun _ => ih _)

omit hf in
theorem ASSERT_never (hp : .panic ≠ f) (dbg : Bool) {x : Exec Ram Bool} (hx : Exec.Never f x) :
    Exec.Never f (ASSERT dbg x) :=
  .ite (.bind hx fun _ => .ite (.pure _) (.fault hp)) (.pure _)

theorem merge_entries_never (hp : .panic ≠ f) (dbg : Bool) (first second : Nat) :
    Exec.Never f (merge_entries dbg first second) := by
  unfold merge_entries
  repeat' first
    | exact load_never hf _ _
    | exact store_never hf _ _ _
    | exact .pure _
    | refine ASSERT_never hp _ ?_
    | refine .bind ?_ fun _ => ?_

theorem kfree_entry_never (hp : .panic ≠ f) (dbg : Bool) (heap_entry : Nat) :
    Exec.Never f (kfree_entry dbg heap_entry) := by
  unfold kfree_entry merge_previous merge_next
  repeat' first
    | exact load_never hf _ _
    | exact store_never hf _ _ _
    | exact merge_entries_never hf hp _ _ _
    | exact .pure _
    | refine .ite ?_ ?_
    | refine .bind ?_ fun _ => ?_

end

theorem kmalloc_no_spin {k : Kheap} (hk : k.Unlocked) (size align description : Nat) :
    kmalloc size align description k ≠ .error .spin := by
  rw [kmalloc_eq hk]
  have hl := kmalloc_loop_never (f := .spin) (by decide) (by decide) size align description (2 ^ 32) k.heap_start k.ram
  cases h : kmalloc_loop size align description (2 ^ 32) k.heap_start k.ram with
  | ok p => simp
  | error f =>
    rw [h] at hl
    simpa using hl

theorem kfree_no_spin {k : Kheap} (hk : k.Unlocked) (dbg : Bool) {ptr : Nat} (hp : ptr < 2 ^ 32) :
    kfree dbg ptr k ≠ .error .spin := by
  rcases Nat.lt_trichotomy ptr 24 with h | rfl | h
  · simp [kfree_small hk dbg h]
  · simp [kfree_header_null hk dbg]
  · rw [kfree_eq hk dbg h hp]
    have hl := kfree_entry_never (f := .spin) (by decide) (by decide) dbg (ptr - 24) k.ram
    by_cases hi : invalid k.ram (ptr - 24)
    · simp [hi]
    · rw [if_neg hi]
      cases h : kfree_entry dbg (ptr - 24) k.ram with
      | ok p => simp
      | error f =>
        rw [h] at hl
        simpa using hl

/-! ## Which calls give the lock back -/

/-- A call into the heap. -/
inductive HeapCall where
  | kmalloc (size align description : Nat)
  | kfree (ptr : Nat)
  deriving DecidableEq, Repr

/-- The arguments are 32-bit values, and the alignment is not zero. -/
def HeapCall.Legal : HeapCall → Prop
  | .kmalloc size align description => size < 2 ^ 32 ∧ 1 ≤ align ∧ align < 2 ^ 32 ∧ description < 2 ^ 32
  | .kfree ptr => ptr < 2 ^ 32

/-- The call, with the pointer it returns if it returns one. -/
def HeapCall.exec (dbg : Bool) : HeapCall → Exec Kheap Nat
  | .kmalloc size align description => Heap.kmalloc size align description
  | .kfree ptr => do
    Heap.kfree dbg ptr
    pure 0

/-- `kfree` is not handed a pointer below the size of a header. -/
def HeapCall.Balanced : HeapCall → Prop
  | .kmalloc _ _ _ => True
  | .kfree ptr => 24 ≤ ptr

theorem kmalloc_unlocked {k k' : Kheap} (hk : k.Unlocked) {size align description p : Nat}
    (h : kmalloc size align description k = .ok (p, k')) : k'.Unlocked := by
  rw [kmalloc_eq hk] at h
  cases hl : kmalloc_loop size align description (2 ^ 32) k.heap_start k.ram with
  | ok q =>
    rw [hl] at h
    cases h
    rfl
  | error f =>
    rw [hl] at h
    cases h

theorem kfree_unlocked_iff {k k' : Kheap} (hk : k.Unlocked) {dbg : Bool} {ptr : Nat} (hp : ptr < 2 ^ 32)
    (h : kfree dbg ptr k = .ok ((), k')) : k'.Unlocked ↔ 24 ≤ ptr := by
  rcases Nat.lt_trichotomy ptr 24 with hlt | rfl | hgt
  · rw [kfree_small hk dbg hlt] at h
    cases h
    simp [Kheap.Unlocked, Kheap.lock]
    omega
  · rw [kfree_header_null hk dbg] at h
    cases h
  · refine ⟨fun _ => hgt.le, fun _ => ?_⟩
    rw [kfree_eq hk dbg hgt hp] at h
    by_cases hi : invalid k.ram (ptr - 24)
    · rw [if_pos hi] at h
      cases h
      rfl
    · rw [if_neg hi] at h
      cases hl : kfree_entry dbg (ptr - 24) k.ram with
      | ok q =>
        rw [hl] at h
        cases h
        rfl
      | error f =>
        rw [hl] at h
        cases h

/-- A legal call that returns. -/
def Returns (dbg : Bool) (k : Kheap) (c : HeapCall) (k' : Kheap) : Prop := c.Legal ∧ ∃ p, c.exec dbg k = .ok (p, k')

/-- From a free lock, a call that returns leaves it free exactly when it does not free a pointer
below the size of a header; and as long as no call does, none ever waits for the lock. -/
theorem lock_balanced (dbg : Bool) (k : Kheap) (hk : k.Unlocked) :
    (∀ c k', Returns dbg k c k' → (k'.Unlocked ↔ c.Balanced)) ∧
      ∀ k', Run (fun s c s' => c.Balanced ∧ Returns dbg s c s') k k' →
        k'.Unlocked ∧ ∀ c : HeapCall, c.Legal → c.exec dbg k' ≠ .error .spin := by
  have hstep : ∀ s c s', s.Unlocked → Returns dbg s c s' → (s'.Unlocked ↔ c.Balanced) := by
    rintro s (⟨size, align, description⟩ | ptr) s' hs ⟨hc, p, h⟩
    · exact iff_of_true (kmalloc_unlocked hs h) trivial
    · obtain ⟨_, s1, h1, h2⟩ := Exec.bind_ok.1 h
      cases h2
      exact kfree_unlocked_iff hs hc h1
  refine ⟨fun c k' h => hstep k c k' hk h, fun k' hrun => ?_⟩
  have hk' : k'.Unlocked := hrun.inv _ hk fun s c s' hs ⟨hb, hr⟩ => (hstep s c s' hs hr).2 hb
  refine ⟨hk', ?_⟩
  rintro (⟨size, align, description⟩ | ptr) hc h
  · exact kmalloc_no_spin hk' size align description h
  · have h' : (kfree dbg ptr >>= fun _ => pure 0 : Exec Kheap Nat) k' = .error .spin := h
    rw [Exec.bind_apply] at h'
    cases hf : kfree dbg ptr k' with
    | ok q => simp [hf] at h'
    | error f =>
      simp only [hf] at h'
      cases h'
      exact kfree_no_spin hk' dbg hc hf

/-- Memory full of zeros, no heap in it, the lock free. -/
def blank : Kheap where
  ram := { bytes := fun _ => 0 }
  heap_mtx := { locked := 0, waiting := [] }
  heap_start := 0

/-- On a new heap: after `kfree(NULL)` the next call waits for the lock. -/
theorem kfree_null_keeps_lock :
    ∃ k, setup_heap 1 0x80000 blank = .ok ((), k) ∧ k.Unlocked ∧ Returns false k (.kfree 0) k.lock ∧
      ¬ k.lock.Unlocked ∧ (HeapCall.kmalloc 16 4 0).exec false k.lock = .error .spin :=
  ⟨_, rfl, rfl, ⟨by simp [HeapCall.Legal], 0, rfl⟩, by simp [Kheap.Unlocked, Kheap.lock], rfl⟩

theorem lock_balanced_new_heap :
    ∃ k, setup_heap 1 0x80000 blank = .ok ((), k) ∧
      (∀ c k', Returns true k c k' → (k'.Unlocked ↔ c.Balanced)) ∧
      ∀ k', Run (fun s c s' => c.Balanced ∧ Returns true s c s') k k' →
        k'.Unlocked ∧ ∀ c : HeapCall, c.Legal → c.exec true k' ≠ .error .spin :=
  ⟨_, rfl, lock_balanced true _ rfl⟩

end Ulmix.Heap

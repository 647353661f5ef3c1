import Ulmix.Lib.Ram
import Ulmix.Sched.Sync
/-!
# The kernel heap (`kernel/memory/heap.c`, `kmalloc.c`, `kfree.c`)

The heap's bookkeeping lives in the memory it hands out: each block is preceded
by a `kheape_struct`, and the headers form a doubly linked list. The functions
below run on bytes, so a header read at the wrong address reads whatever is
stored there. `dbg` says whether the build defines `_DEBUG_`.
-/
open Ulmix.Lib Ulmix.Sync

namespace Ulmix.Heap

/-! ## Headers -/

/-- The fields of `struct kheape_struct`. -/
inductive Field where
  | available
  | size
  | start
  | next
  | previous
  | description
  deriving DecidableEq, Repr

/-- Where a field lies in the packed header. -/
def Field.off : Field → Nat
  | .available => 0
  | .size => 4
  | .start => 8
  | .next => 12
  | .previous => 16
  | .description => 20

/-- `sizeof(struct kheape_struct)`. -/
def headerSize : Nat := 24

/-- The field `f` of the header at `p`. -/
def field (r : Ram) (p : Nat) (f : Field) : Nat := r.word (add32 p f.off)

def setField (r : Ram) (p : Nat) (f : Field) (v : Nat) : Ram := r.put (add32 p f.off) v

/-- `p->f` -/
def load (p : Nat) (f : Field) : Exec Ram Nat := do
  if p = 0 then Exec.fault .nullDeref
  else
    let r ← get
    pure (field r p f)

/-- `p->f = v` -/
def store (p : Nat) (f : Field) (v : Nat) : Exec Ram Unit := do
  if p = 0 then Exec.fault .nullDeref
  else modify fun r => setField r p f v

/-- `ASSERT(x)`: evaluated in a debug build only. -/
def ASSERT (dbg : Bool) (x : Exec Ram Bool) : Exec Ram Unit := do
  if dbg then
    if ← x then pure () else Exec.fault .panic
  else pure ()

/-! ## Allocating -/

def link_new_entry (addr prev : Nat) : Exec Ram Nat := do
  let new_entry := addr
  store new_entry .previous prev
  store new_entry .next (← load prev .next)
  if (← load prev .next) ≠ 0 then
    store (← load prev .next) .previous new_entry
  store prev .next new_entry
  pure new_entry

/-- The first `if` of `alloc_entry`: where the header of the block comes to lie. -/
def alloc_front (entry start_offset : Nat) : Exec Ram Nat := do
  if start_offset ≥ 4 * headerSize then
    let new_entry ← link_new_entry (sub32 (add32 (← load entry .start) start_offset) headerSize) entry
    store entry .size (sub32 new_entry (← load entry .start))
    pure new_entry
  else pure entry

/-- The second `if` of `alloc_entry`: what is left behind the block becomes an entry. -/
def alloc_tail (new_entry prev_size start_offset size : Nat) : Exec Ram Unit := do
  if sub32 prev_size size > 4 * headerSize then
    let new_next ← link_new_entry (add32 (← load new_entry .start) size) new_entry
    store new_next .start (add32 new_next headerSize)
    store new_next .available 1
    store new_next .description 0
    store new_next .size (sub32 (sub32 (sub32 prev_size start_offset) size) headerSize)
    store new_entry .size size
  else store new_entry .size prev_size

def alloc_entry (entry start_offset size description : Nat) : Exec Ram Nat := do
  let prev_size ← load entry .size
  let new_entry ← alloc_front entry start_offset
  store new_entry .available 0
  store new_entry .description description
  store new_entry .start (add32 (← load entry .start) start_offset)
  alloc_tail new_entry prev_size start_offset size
  load new_entry .start

def next_aligned_addr (addr align : Nat) : Nat :=
  let remainder := addr % align
  if remainder = 0 then addr else add32 addr (sub32 align remainder)

/-- The search loop of `kmalloc`. It writes nothing before it stops, and there
are only `2 ^ 32` addresses, so a search that takes more steps never ends. -/
def kmalloc_loop (size align description : Nat) : Nat → Nat → Exec Ram Nat
  | 0, _ => Exec.fault .diverges
  | fuel + 1, entry => do
    if entry = 0 then pure 0
    else
      let start_offset := sub32 (next_aligned_addr (← load entry .start) align) (← load entry .start)
      let min_size := add32 size start_offset
      if (← load entry .available) ≠ 0 ∧ (← load entry .size) ≥ min_size then
        alloc_entry entry start_offset size description
      else
        kmalloc_loop size align description fuel (← load entry .next)

/-! ## The heap and its lock -/

/-- Memory, `_heap_mtx` and `_heap_start`. -/
structure Kheap where
  ram : Ram
  heap_mtx : Mutex
  heap_start : Nat

/-- A program on the memory. -/
def onRam {α : Type} (x : Exec Ram α) : Exec Kheap α := Exec.zoom Kheap.ram (fun r k => { k with ram := r }) x

/-- A program on `_heap_mtx`. -/
def onMtx {α : Type} (x : Exec Mutex α) : Exec Kheap α :=
  Exec.zoom Kheap.heap_mtx (fun m k => { k with heap_mtx := m }) x

def setup_heap (start_addr max_size : Nat) : Exec Kheap Unit := do
  let first_entry := start_addr
  onRam do
    store first_entry .available 1
    store first_entry .description 0
    store first_entry .next 0
    store first_entry .previous 0
    store first_entry .size (sub32 max_size headerSize)
    store first_entry .start (add32 start_addr headerSize)
  modify fun k => { k with heap_start := first_entry }
  onMtx mutex_init

/-- Returns the block, or `0` when no entry is large enough. -/
def kmalloc (size align description : Nat) : Exec Kheap Nat := do
  onMtx mutex_lock
  let k ← get
  let mptr ← onRam (kmalloc_loop size align description (2 ^ 32) k.heap_start)
  onMtx mutex_unlock
  pure mptr

/-! ## Freeing -/

def merge_entries (dbg : Bool) (first second : Nat) : Exec Ram Nat := do
  ASSERT dbg (pure (decide (first < second)))
  ASSERT dbg do
    pure (decide ((← load first .available) ≠ 0 ∧ (← load second .available) ≠ 0))
  ASSERT dbg do
    pure (decide ((← load second .previous) = first))
  store first .next (← load second .next)
  store first .start (add32 first headerSize)
  store (← load second .next) .previous first
  store first .size
    (sub32 (add32 (← load second .start) (← load second .size)) (← load first .start))
  pure first

/-- The signs of an invalid pointer `kfree` looks for in the header. -/
def invalid (r : Ram) (heap_entry : Nat) : Bool :=
  field r heap_entry .available ≠ 0 || field r heap_entry .size = 0 || field r heap_entry .start = 0

/-- `if (heap_entry->previous->available) heap_entry = merge_entries(…)` -/
def merge_previous (dbg : Bool) (heap_entry : Nat) : Exec Ram Nat := do
  if (← load (← load heap_entry .previous) .available) ≠ 0 then
    merge_entries dbg (← load heap_entry .previous) heap_entry
  else pure heap_entry

/-- `if (heap_entry->next->available) merge_entries(…)` -/
def merge_next (dbg : Bool) (heap_entry : Nat) : Exec Ram Unit := do
  if (← load (← load heap_entry .next) .available) ≠ 0 then
    let _ ← merge_entries dbg heap_entry (← load heap_entry .next)

/-- What `kfree` does with a header that passed its tests. -/
def kfree_entry (dbg : Bool) (heap_entry : Nat) : Exec Ram Unit := do
  store heap_entry .available 1
  store heap_entry .description 0
  let heap_entry ← merge_previous dbg heap_entry
  merge_next dbg heap_entry

def kfree (dbg : Bool) (ptr : Nat) : Exec Kheap Unit := do
  onMtx mutex_lock
  if ptr < headerSize then
    -- returns with the lock held
    pure ()
  else
    let heap_entry := sub32 ptr headerSize
    if heap_entry = 0 then Exec.fault .nullDeref
    else
      let k ← get
      if invalid k.ram heap_entry then onMtx mutex_unlock
      else do
        onRam (kfree_entry dbg heap_entry)
        onMtx mutex_unlock

end Ulmix.Heap

import Ulmix.Lib.Exec
import Ulmix.Lib.Word
/-!
# Page tables (`arch/i686/mmhelper.c`, `paging.c`)

A virtual address space is three levels of tables of 64-bit entries: a pointer
table of four, page directories of 512, page tables of 512. The kernel writes
them through the pointers it keeps in `mm_tables_struct`; the processor finds
its own way from `cr3` (`paeWalk`). `kmalloc` is a parameter, `h i size align`
being what the `i`-th call returns, `0` for none.
-/
open Ulmix.Lib

namespace Ulmix.Paging

def PAGESIZE : Nat := 4096
def PAGEDIR_SIZE : Nat := 4 * 1024
def PTR_TABLE_SIZE : Nat := 32
def PG_PRESENT : Nat := 0x01
def PG_RDWR : Nat := 0x02
def PG_USER : Nat := 0x04

/-! ## State -/

structure MmTables where
  ptr_table : Nat
  page_dirs : Nat → Nat
  page_tables : Nat → Nat

structure MmStruct where
  tables : Nat
  user_regions : Nat

/-- The 64-bit words of memory and the structures, by address. The contents of
a structure `kmalloc` has just returned are whatever they were before. -/
structure Vm where
  mem : Nat → Nat
  tables : Nat → MmTables
  mms : Nat → MmStruct
  current_mm : Nat
  cr3 : Nat
  /-- How often `kmalloc` was called. -/
  kmallocs : Nat

/-- `*mm->tables` -/
def Vm.tablesOf (s : Vm) (mm : Nat) : MmTables := s.tables (s.mms mm).tables

def Vm.setMm (s : Vm) (mm : Nat) (f : MmStruct → MmStruct) : Vm :=
  { s with mms := Function.update s.mms mm (f (s.mms mm)) }

def Vm.setTables (s : Vm) (t : Nat) (f : MmTables → MmTables) : Vm :=
  { s with tables := Function.update s.tables t (f (s.tables t)) }

def Vm.setWord (s : Vm) (a w : Nat) : Vm := { s with mem := Function.update s.mem a w }

abbrev Kmalloc := Nat → Nat → Nat → Nat

def kmalloc (h : Kmalloc) (size align : Nat) : Exec Vm Nat := do
  let s ← get
  set { s with kmallocs := s.kmallocs + 1 }
  pure (h s.kmallocs size align)

/-- `bzero` of whole words. -/
def bzero (p n : Nat) : Exec Vm Unit := do
  if p = 0 then Exec.fault .nullDeref
  else modify fun s => { s with mem := fun a => if p ≤ a ∧ a < p + n then 0 else s.mem a }

/-- `*p` for an entry of a page table. -/
def load64 (p : Nat) : Exec Vm Nat := do
  if p = 0 then Exec.fault .nullDeref
  else
    let s ← get
    pure (s.mem p)

/-- `*p = w` for an entry of a page table. -/
def store64 (p w : Nat) : Exec Vm Unit := do
  if p = 0 then Exec.fault .nullDeref
  else modify fun s => s.setWord p w

/-- `&t[i]` for a table `t` with room for 512 entries. -/
def entry_at (t i : Nat) : Exec Vm Nat := do
  if t = 0 then Exec.fault .nullDeref
  else if i < 512 then pure (add32 t (8 * i))
  else Exec.fault .outOfBounds

/-- `mmap->tables` -/
def load_tables (mmap : Nat) : Exec Vm Nat := do
  if mmap = 0 then Exec.fault .nullDeref
  else
    let s ← get
    pure (s.mms mmap).tables

/-- `*tables` -/
def deref_tables (t : Nat) : Exec Vm MmTables := do
  if t = 0 then Exec.fault .nullDeref
  else
    let s ← get
    pure (s.tables t)

/-- `tables->… = …` -/
def store_tables (t : Nat) (f : MmTables → MmTables) : Exec Vm Unit := do
  if t = 0 then Exec.fault .nullDeref
  else modify fun s => s.setTables t f

/-- `mmap->… = …` -/
def store_mm (mmap : Nat) (f : MmStruct → MmStruct) : Exec Vm Unit := do
  if mmap = 0 then Exec.fault .nullDeref
  else modify fun s => s.setMm mmap f

/-- `mmap->tables->page_tables[i]`, an array of 512. -/
def load_page_table (mmap i : Nat) : Exec Vm Nat := do
  let t ← deref_tables (← load_tables mmap)
  if i < 512 then pure (t.page_tables i) else Exec.fault .outOfBounds

/-! ## Translating -/

def mm_physical (addr : Nat) : Exec Vm Nat := do
  let s ← get
  if s.current_mm = 0 then pure addr
  else
    let ptable ← load_page_table s.current_mm (addr >>> 22)
    let phys_addr := (← load64 (← entry_at ptable ((addr &&& 0x003ff000) >>> 12))) &&& 0xfffff000
    pure (add32 phys_addr (addr % PAGESIZE))

/-! ## Mapping -/

def get_pt_entry (h : Kmalloc) (mmap pd_offset pt_offset : Nat) : Exec Vm Nat := do
  if (← load_page_table mmap pd_offset) = 0 then
    let ptable ← kmalloc h PAGEDIR_SIZE PAGESIZE
    bzero ptable PAGEDIR_SIZE
    let tables ← load_tables mmap
    store_tables tables fun t => { t with page_tables := Function.update t.page_tables pd_offset ptable }
    let phys ← mm_physical ptable
    let t ← deref_tables (← load_tables mmap)
    store64 (← entry_at (t.page_dirs 0) pd_offset) (phys ||| PG_PRESENT ||| PG_USER ||| PG_RDWR)
  entry_at (← load_page_table mmap pd_offset) pt_offset

/-- The loop of `map_pages`. -/
def map_pages_loop (h : Kmalloc) (mmap crflags : Nat) : Nat → Nat → Nat → Nat → Exec Vm Unit
  | 0, _, _, _ => pure ()
  | pages + 1, pd_offset, pt_offset, phys_addr => do
    let pt_entry ← get_pt_entry h mmap pd_offset pt_offset
    -- an entry already present is overwritten
    let _ ← load64 pt_entry
    store64 pt_entry (phys_addr ||| PG_PRESENT ||| crflags)
    if pt_offset + 1 = 512 then
      map_pages_loop h mmap crflags pages (pd_offset + 1) 0 (add32 phys_addr PAGESIZE)
    else
      map_pages_loop h mmap crflags pages pd_offset (pt_offset + 1) (add32 phys_addr PAGESIZE)

def map_pages (h : Kmalloc) (mmap start_page pages start_addr crflags : Nat) : Exec Vm Unit :=
  map_pages_loop h mmap crflags pages (start_page / 512) (start_page % 512) (start_addr &&& 0xfffff000)

/-- `n` rounded up to pages. -/
def page_count (n : Nat) : Nat := if n % PAGESIZE ≠ 0 then n / PAGESIZE + 1 else n / PAGESIZE

/-- `crflags` is the 32-bit pattern of the `int`. -/
def mm_map (h : Kmalloc) (mmap start_virt start_phys n crflags : Nat) : Exec Vm Unit := do
  if start_virt % PAGESIZE ≠ 0 ∨ start_phys % PAGESIZE ≠ 0 then pure ()
  else if n < 1 then pure ()
  else map_pages h mmap (start_virt / PAGESIZE) (page_count n) start_phys crflags

def mk_mmap (h : Kmalloc) : Exec Vm Nat := do
  let mm ← kmalloc h 8 1
  let tables ← kmalloc h 2068 1
  store_mm mm fun m => { m with tables := tables }
  let page_dir ← kmalloc h PAGEDIR_SIZE PAGESIZE
  store_tables (← load_tables mm) fun t => { t with page_dirs := Function.update t.page_dirs 0 page_dir }
  bzero ((← deref_tables (← load_tables mm)).page_dirs 0) PAGEDIR_SIZE
  let ptr_table ← kmalloc h PTR_TABLE_SIZE 0x20
  store_tables (← load_tables mm) fun t => { t with ptr_table := ptr_table }
  bzero (← deref_tables (← load_tables mm)).ptr_table PTR_TABLE_SIZE
  let t ← deref_tables (← load_tables mm)
  store64 (← entry_at t.ptr_table 0) (t.page_dirs 0 ||| PG_PRESENT)
  store_mm mm fun m => { m with user_regions := 0 }
  pure mm

def apply_mmap (mmap : Nat) : Exec Vm Unit := do
  let t ← deref_tables (← load_tables mmap)
  let pagedir ← mm_physical t.ptr_table
  modify fun s => { s with current_mm := mmap, cr3 := pagedir }

/-! ## The processor's walk -/

/-- Where a page lies, and the low bits of the entry that says so. -/
structure Mapped where
  frame : Nat
  flags : Nat
  deriving DecidableEq, Repr

/-- The address in an entry. -/
def entryBase (w : Nat) : Nat := w % 2 ^ 52 / 4096 * 4096

/-- What a page table entry maps its page to. -/
def Mapped.ofEntry (w : Nat) : Mapped := ⟨entryBase w, w % 4096⟩

/-- The PAE walk from the pointer table at `cr3`: `none` when some level is not
present. Bit 7 of a directory entry makes it map 2 MiB by itself. -/
def paeWalk (mem : Nat → Nat) (cr3 v : Nat) : Option Mapped :=
  let pdpte := mem (cr3 / 32 * 32 + 8 * (v / 2 ^ 30 % 4))
  if pdpte.testBit 0 then
    let pde := mem (entryBase pdpte + 8 * (v / 2 ^ 21 % 512))
    if pde.testBit 0 then
      if pde.testBit 7 then some ⟨pde % 2 ^ 52 / 2 ^ 21 * 2 ^ 21 + v / 4096 % 512 * 4096, pde % 4096⟩
      else
        let pte := mem (entryBase pde + 8 * (v / 4096 % 512))
        if pte.testBit 0 then some (Mapped.ofEntry pte) else none
    else none
  else none

end Ulmix.Paging

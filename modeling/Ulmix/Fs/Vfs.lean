import Ulmix.Lib.Prog
import Ulmix.Lib.Word
import Ulmix.Devices.Registry
/-!
# Directories and path names (`kernel/fs/vfs.c`, `kernel/include/vfs.h`)

The tree is made of `dir_struct`s, each with a list of `direntry_struct`s; a
filesystem hangs below the directory it is mounted on through an `mntp_struct`.
The state holds the objects of each type by their address, together with what
the ext2 driver keeps for a mounted filesystem. What `kmalloc` has handed out
and not got back is recorded with its type (`blocks`); what a block held before
is whatever the maps say at its address.

`namei` walks a path name, a NUL-terminated string inside an object `buf` that
may go on behind it.
-/
open Ulmix.Lib

namespace Ulmix.Fs

def SUCCESS : Int := 0
def ENOENT : Int := 2
def EIO : Int := 5
def ENOTDIR : Int := 20
def ENOTSUP : Int := 95

/-- `F_DIR` of `enum ftype_e`. -/
def F_DIR : Nat := 0x4000

/-! ## Objects -/

/-- The tables of functions a filesystem can put into `fops`. -/
inductive FsStruct where
  | ext2fs
  deriving DecidableEq, Repr

structure MntpStruct where
  fs_data : Nat
  part : Nat
  fs_info : FsStruct
  deriving DecidableEq, Repr

/-- `struct direntry_struct`; `name` is the 256 bytes of the array. -/
structure DirentryStruct where
  type : Nat
  mode : Nat
  size : Nat
  blocks : Nat
  name : List UInt8
  inode_no : Nat
  parent : Nat
  directory : Nat
  next : Nat
  payload : Nat
  deriving DecidableEq, Repr

structure DirStruct where
  inode_no : Nat
  fs_info : Nat
  mnt_point : Nat
  parent : Nat
  dir_entry : Nat
  entries : Nat
  deriving DecidableEq, Repr

/-- `struct ext2fs_struct`; `superblock` is the bytes of the `sb_t`. -/
structure Ext2fsStruct where
  superblock : List UInt8
  part : Nat
  block_size : Nat
  gd_count : Nat
  group_descriptors : Nat
  deriving DecidableEq, Repr

/-- What a block of the heap was allocated for. -/
inductive Kind where
  | dir | direntry | inode | mntp | ext2fs | gdt
  deriving DecidableEq, Repr

instance : LawfulBEq (Nat × Kind) := inferInstance

/-- A read a block device was asked for. -/
structure Request where
  bd : Nat
  sectors : Nat
  lba : Nat
  deriving DecidableEq, Repr

structure Vfs where
  dirs : Nat → DirStruct
  direntries : Nat → DirentryStruct
  mntps : Nat → MntpStruct
  fsinfos : Nat → Ext2fsStruct
  /-- The bytes of each `inode_struct`. -/
  inodes : Nat → List UInt8
  /-- The bytes of each table of group descriptors. -/
  gdts : Nat → List UInt8
  parts : Nat → Disks.HdStruct
  /-- The objects in use: the static ones, and the blocks of the heap. -/
  blocks : List (Nat × Kind)
  /-- `kfree` has kept the lock of the heap. -/
  heap_locked : Bool
  /-- How often `kmalloc` was called. -/
  kmallocs : Nat
  /-- How often it had nothing to give. -/
  refused : Nat
  /-- The reads so far, the last one first. -/
  reads : List Request

/-! ## Access -/

/-- `*p` for a `dir_struct`. -/
def load_dir (p : Nat) : Prog Vfs DirStruct := do
  if p = 0 then Prog.fault .nullDeref
  else
    let s ← get
    pure (s.dirs p)

/-- `p->… = …` for a `dir_struct`. -/
def store_dir (p : Nat) (f : DirStruct → DirStruct) : Prog Vfs Unit := do
  if p = 0 then Prog.fault .nullDeref
  else modify fun s => { s with dirs := Function.update s.dirs p (f (s.dirs p)) }

/-- `*p` for a `direntry_struct`. -/
def load_direntry (p : Nat) : Prog Vfs DirentryStruct := do
  if p = 0 then Prog.fault .nullDeref
  else
    let s ← get
    pure (s.direntries p)

/-- `p->… = …` for a `direntry_struct`. -/
def store_direntry (p : Nat) (f : DirentryStruct → DirentryStruct) : Prog Vfs Unit := do
  if p = 0 then Prog.fault .nullDeref
  else modify fun s => { s with direntries := Function.update s.direntries p (f (s.direntries p)) }

theorem load_dir_run {p : Nat} (hp : p ≠ 0) (s : Vfs) : load_dir p s = (.ok (s.dirs p), s) := by
  unfold load_dir
  rw [if_neg hp]
  rfl

theorem load_direntry_run {p : Nat} (hp : p ≠ 0) (s : Vfs) : load_direntry p s = (.ok (s.direntries p), s) := by
  unfold load_direntry
  rw [if_neg hp]
  rfl

/-- `buf[i]` -/
def char_at (buf : List UInt8) (i : Nat) : Prog Vfs UInt8 :=
  match buf[i]? with
  | some c => pure c
  | none => Prog.fault .outOfBounds

/-! ## Setting up -/

/-- The static `dir_struct` and `direntry_struct`: two addresses the heap never hands out. -/
def root_dir : Nat := 0x100
def root_direntry : Nat := 0x200

def setup_fs : Prog Vfs Unit := do
  store_dir root_dir fun d => { d with dir_entry := root_direntry, entries := 0, mnt_point := 0, parent := root_dir }
  store_direntry root_direntry fun e => { e with directory := root_dir, type := F_DIR, next := 0, parent := root_dir }

/-! ## Path names -/

/-- The character `/`. -/
def slash : UInt8 := 0x2f

/-- The file name `.`. -/
def dot : List UInt8 := [0x2e]

/-- The file name `..`. -/
def dotdot : List UInt8 := [0x2e, 0x2e]

/-- The loop of `strccpy`: `room` bytes are left behind the ones in `dest`, and the
terminating zero needs one of them. Returns the string copied and `src`. -/
def strccpy_loop (buf : List UInt8) (terminator : UInt8) : Nat → List UInt8 → Nat → Prog Vfs (List UInt8 × Nat)
  | 0, _, _ => Prog.fault .outOfBounds
  | room + 1, dest, src => do
    let c ← char_at buf src
    if c = 0 then pure (dest, src)
    else if c = terminator then pure (dest, src + 1)
    else strccpy_loop buf terminator room (dest ++ [c]) (src + 1)

/-- `strccpy` into an array of `room` bytes. -/
def strccpy (room : Nat) (buf : List UInt8) (src : Nat) (terminator : UInt8) : Prog Vfs (List UInt8 × Nat) :=
  strccpy_loop buf terminator room [] src

/-- `strcmp` of the string in the array `s1` with the string `s2`. -/
def strcmp : List UInt8 → List UInt8 → Prog Vfs Int
  | [], _ => Prog.fault .outOfBounds
  | a :: _, [] => if a ≠ 0 then pure (if a.toInt8 < 0 then -1 else 1) else pure 0
  | a :: s1, b :: s2 =>
    if a ≠ b then pure (if a.toInt8 < b.toInt8 then -1 else 1)
    else if a = 0 then pure 0
    else strcmp s1 s2

/-- The loop over the entries in `namei_recursive`, up to the entry it stops at. There
are only `2 ^ 32` addresses, so a longer list never ends. -/
def namei_find (current_name : List UInt8) : Nat → Nat → Prog Vfs Nat
  | 0, _ => Prog.fault .diverges
  | fuel + 1, entry => do
    if entry = 0 then pure 0
    else
      let e ← load_direntry entry
      if (← strcmp e.name current_name) = 0 then pure entry
      else namei_find current_name fuel e.next

/-- `namei_recursive`, with `get_direntries` for the filesystem's function. Each round
leaves the path name shorter, so one more round than it has bytes is never needed. -/
def namei_recursive (get_direntries : Nat → Prog Vfs Unit) (buf : List UInt8) :
    Nat → Nat → Nat → Prog Vfs (Except Int Nat)
  | 0, _, _ => Prog.fault .diverges
  | fuel + 1, pathname, working_dir => do
    let (name, rem) ← strccpy 256 buf pathname slash
    let current_name := if name.length = 0 then dot else name
    if (← load_dir working_dir).entries = 0 then pure (.error (-ENOENT))
    else
      let entry ← namei_find current_name (2 ^ 32) (← load_dir working_dir).entries
      if entry = 0 then pure (.error (-ENOENT))
      else
        let e ← load_direntry entry
        if (← char_at buf rem) = 0 then
          -- `*(rem - 1)`, which for an empty path lies before the string
          if rem = 0 then Prog.fault .outOfBounds
          else if (← char_at buf (rem - 1)) = slash ∧ e.type ≠ F_DIR then pure (.error (-ENOTDIR))
          else pure (.ok entry)
        else if e.type ≠ F_DIR then pure (.error (-ENOENT))
        else
          if (← load_dir e.directory).entries = 0 ∧ e.type = F_DIR then get_direntries e.directory
          namei_recursive get_direntries buf fuel rem (← load_direntry entry).directory

/-- `namei`: the entry it stores through `node`, or the error it returns. -/
def namei (get_direntries : Nat → Prog Vfs Unit) (buf : List UInt8) : Prog Vfs (Except Int Nat) := do
  if (← char_at buf 0) = slash then
    -- `pathname[1]` after `pathname += 1`
    if (← char_at buf 2) = 0 then pure (.ok (← load_dir root_dir).dir_entry)
    else namei_recursive get_direntries buf (buf.length + 1) 1 root_dir
  else namei_recursive get_direntries buf (buf.length + 1) 0 root_dir

end Ulmix.Fs

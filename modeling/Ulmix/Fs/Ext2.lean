import Ulmix.Fs.Vfs
/-!
# The ext2 driver (`kernel/fs/ext2.c`)

What the driver meets outside is a parameter: the answers of `kmalloc`, the
replies of the block devices and what a local array holds before it is written.
`debug` says whether `ASSERT` evaluates its argument. A division by zero ends
in a panic, and so does a failed assertion.

Of the structures on the disk the bytes are kept and read where the source
reads a field.
-/
open Ulmix.Lib

namespace Ulmix.Fs

def IO_BLOCK_SIZE : Nat := 512
def SB_SECT_OFFSET : Nat := 2
def SB_SECT_SIZE : Nat := 2

/-! ## Surroundings -/

/-- What a device answers: the value returned, and the bytes it has put into the
buffer from its start on. -/
structure Reply where
  ret : Int
  stored : List UInt8

structure Env where
  debug : Bool
  /-- The answer to the `i`-th call of `kmalloc`, `0` for none, with the objects in use and the size. -/
  kmalloc : Nat → List (Nat × Kind) → Nat → Nat
  /-- The reply to the `i`-th read, by device, number of sectors and first sector. -/
  read : Nat → Nat → Nat → Nat → Reply
  /-- The byte `k` of a local array the `i`-th read is to fill. -/
  stack : Nat → Nat → UInt8

/-- The bytes `buf` after `new` was written to its start. -/
def overwrite (buf new : List UInt8) : List UInt8 := new ++ buf.drop new.length

/-- `buf` with `n` bytes. -/
def resize (n : Nat) (buf : List UInt8) : List UInt8 := (buf ++ List.replicate n 0).take n

/-- `ASSERT(x)` -/
def assert (env : Env) (x : Prog Vfs Bool) : Prog Vfs Unit :=
  if env.debug then x >>= fun holds => if holds then pure () else Prog.fault .panic else pure ()

def div32 (a b : Nat) : Prog Vfs Nat := do
  if b = 0 then Prog.fault .panic else pure (a / b)

/-- `n` bytes at `buf + i`. -/
def slice (buf : List UInt8) (i n : Nat) : Prog Vfs (List UInt8) := do
  if i + n ≤ buf.length then pure ((buf.drop i).take n) else Prog.fault .outOfBounds

/-- An array on the stack, to be filled by the next read. -/
def local_array (env : Env) (n : Nat) : Prog Vfs (List UInt8) := do
  let s ← get
  pure ((List.range n).map (env.stack s.reads.length))

/-! ## The heap -/

/-- The state after `kmalloc` has answered `p`. -/
def Vfs.allocated (s : Vfs) (p : Nat) (kind : Kind) : Vfs :=
  if p = 0 then { s with kmallocs := s.kmallocs + 1, refused := s.refused + 1 }
  else { s with kmallocs := s.kmallocs + 1, blocks := (p, kind) :: s.blocks }

def kmalloc (env : Env) (size : Nat) (kind : Kind) : Prog Vfs Nat := do
  let s ← get
  if s.heap_locked then Prog.fault .spin
  else
    let p := env.kmalloc s.kmallocs s.blocks size
    set (s.allocated p kind)
    pure p

/-- `kfree` returns without unlocking the heap for a pointer below the size of a header.
Another pointer has to be one that is in use. -/
def kfree (p : Nat) (kind : Kind) : Prog Vfs Unit := do
  let s ← get
  if s.heap_locked then Prog.fault .spin
  else if p < 24 then set { s with heap_locked := true }
  else if (p, kind) ∈ s.blocks then set { s with blocks := s.blocks.erase (p, kind) }
  else Prog.fault .outOfBounds

/-! ## Access -/

/-- The little-endian words of a structure. -/
def le16 (b : List UInt8) (i : Nat) : Nat := (b.getD i 0).toNat + 256 * (b.getD (i + 1) 0).toNat
def le32 (b : List UInt8) (i : Nat) : Nat :=
  ofBytes (b.getD i 0) (b.getD (i + 1) 0) (b.getD (i + 2) 0) (b.getD (i + 3) 0)

/-! The fields of `sb_t`. -/

def total_inodes (sb : List UInt8) : Nat := le32 sb 0
def total_blocks (sb : List UInt8) : Nat := le32 sb 4
def block_size_log (sb : List UInt8) : Nat := le32 sb 24
def blocks_per_group (sb : List UInt8) : Nat := le32 sb 32
def inodes_per_group (sb : List UInt8) : Nat := le32 sb 40
def signature (sb : List UInt8) : Nat := le16 sb 56
def inode_size (sb : List UInt8) : Nat := le16 sb 88

/-! The fields of `inode_struct`. -/

def i_mode (inode : List UInt8) : Nat := le16 inode 0
def i_size (inode : List UInt8) : Nat := le32 inode 4
def i_blocks (inode : List UInt8) : Nat := le32 inode 28
def i_block (inode : List UInt8) (k : Nat) : Nat := le32 inode (40 + 4 * k)

/-- `bg_inode_table` of a `gd_struct`. -/
def bg_inode_table (gd : List UInt8) : Nat := le32 gd 8

/-- The header of a directory record, `struct ext2_direntry_struct`. -/
structure Ext2DirentryStruct where
  inode : Nat
  rec_len : Nat
  name_len : Nat
  file_type : Nat
  deriving DecidableEq, Repr

def Ext2DirentryStruct.ofBytes (b : List UInt8) : Ext2DirentryStruct :=
  ⟨le32 b 0, le16 b 4, (b.getD 6 0).toNat, (b.getD 7 0).toNat⟩

/-- `*p` for an `mntp_struct`. -/
def load_mntp (p : Nat) : Prog Vfs MntpStruct := do
  if p = 0 then Prog.fault .nullDeref
  else
    let s ← get
    pure (s.mntps p)

def store_mntp (p : Nat) (f : MntpStruct → MntpStruct) : Prog Vfs Unit := do
  if p = 0 then Prog.fault .nullDeref
  else modify fun s => { s with mntps := Function.update s.mntps p (f (s.mntps p)) }

/-- `*p` for an `ext2fs_struct`. -/
def load_fsinfo (p : Nat) : Prog Vfs Ext2fsStruct := do
  if p = 0 then Prog.fault .nullDeref
  else
    let s ← get
    pure (s.fsinfos p)

def store_fsinfo (p : Nat) (f : Ext2fsStruct → Ext2fsStruct) : Prog Vfs Unit := do
  if p = 0 then Prog.fault .nullDeref
  else modify fun s => { s with fsinfos := Function.update s.fsinfos p (f (s.fsinfos p)) }

/-- `*p` for an `hd_struct`. -/
def load_part (p : Nat) : Prog Vfs Disks.HdStruct := do
  if p = 0 then Prog.fault .nullDeref
  else
    let s ← get
    pure (s.parts p)

/-- `*p` for an `inode_struct`. It is reached through `payload`, which the driver does
not set everywhere, so the pointer has to be checked. -/
def load_inode (p : Nat) : Prog Vfs (List UInt8) := do
  let s ← get
  if p = 0 then Prog.fault .nullDeref
  else if (p, .inode) ∈ s.blocks then pure (s.inodes p)
  else Prog.fault .outOfBounds

/-- `memcpy` of `bytes` to the `inode_struct` at `p`. -/
def store_inode (p : Nat) (bytes : List UInt8) : Prog Vfs Unit := do
  let s ← get
  if p = 0 then Prog.fault .nullDeref
  else if (p, .inode) ∈ s.blocks ∧ bytes.length ≤ 128 then
    set { s with inodes := Function.update s.inodes p (overwrite (s.inodes p) bytes) }
  else Prog.fault .outOfBounds

/-- `group_descriptors[i]` -/
def load_gd (group_descriptors i : Nat) : Prog Vfs (List UInt8) := do
  if group_descriptors = 0 then Prog.fault .nullDeref
  else
    let s ← get
    slice (s.gdts group_descriptors) (32 * i) 32

/-- A device writes `bytes` to the table at `p`. -/
def store_gdt (p : Nat) (bytes : List UInt8) : Prog Vfs Unit := do
  let s ← get
  if bytes = [] then pure ()
  else if p = 0 then Prog.fault .nullDeref
  else if bytes.length ≤ (s.gdts p).length then
    set { s with gdts := Function.update s.gdts p (overwrite (s.gdts p) bytes) }
  else Prog.fault .outOfBounds

/-- Memory for a table, no more than asked for, holding what was there before. -/
def kmalloc_gdt (env : Env) (size : Nat) : Prog Vfs Nat := do
  let p ← kmalloc env size .gdt
  modify fun s => { s with gdts := Function.update s.gdts p (resize size (s.gdts p)) }
  pure p

/-! ## Reading -/

/-- `hdd_read`, where `part` is `fs->part`. -/
def hdd_read (env : Env) (part sectors lba : Nat) : Prog Vfs Reply := do
  let p ← load_part part
  if p.bd = 0 then Prog.fault .nullDeref
  else
    let s ← get
    set { s with reads := ⟨p.bd, sectors, add32 lba p.sect_offset⟩ :: s.reads }
    let r := env.read s.reads.length p.bd sectors (add32 lba p.sect_offset)
    pure { r with stored := r.stored.take (sectors * IO_BLOCK_SIZE) }

def ext2_probe (env : Env) (part : Nat) : Prog Vfs Int := do
  let sb ← local_array env 1024
  let r ← hdd_read env part SB_SECT_SIZE SB_SECT_OFFSET
  if r.ret < SB_SECT_SIZE then pure (- EIO)
  else if signature (overwrite sb r.stored) = 0xef53 then pure SUCCESS
  else pure (-ENOTSUP)

def fetch_inode (env : Env) (inode_no mnt_info inode : Nat) : Prog Vfs Int := do
  let fsinfo ← load_fsinfo (← load_mntp mnt_info).fs_data
  let sb := fsinfo.superblock
  if inode_no > total_inodes sb then pure (-ENOENT)
  else
    let block_group_no ← div32 (sub32 inode_no 1) (inodes_per_group sb)
    let inodes_per_disk_sector ← div32 IO_BLOCK_SIZE (inode_size sb)
    let disk_sector_offset ← div32 (sub32 inode_no 1 % inodes_per_group sb) inodes_per_disk_sector
    let block_group ← load_gd fsinfo.group_descriptors block_group_no
    let inode_table_lba := bg_inode_table block_group * (fsinfo.block_size / IO_BLOCK_SIZE) % 2 ^ 32
    let inode_buf ← local_array env IO_BLOCK_SIZE
    let r ← hdd_read env fsinfo.part 1 (add32 inode_table_lba disk_sector_offset)
    if r.ret < 0 then pure r.ret
    else
      let bytes ← slice (overwrite inode_buf r.stored)
        (sub32 inode_no 1 % inodes_per_disk_sector * inode_size sb) (inode_size sb)
      store_inode inode bytes
      pure SUCCESS

/-- The beginning of `direntry_get_inode`: memory for the inode if there is none yet. -/
def alloc_inode (env : Env) (direntry : Nat) : Prog Vfs Unit := do
  if (← load_direntry direntry).payload = 0 then
    let p ← kmalloc env 128 .inode
    store_direntry direntry fun e => { e with payload := p }

def direntry_get_inode (env : Env) (direntry : Nat) : Prog Vfs Nat := do
  alloc_inode env direntry
  let e ← load_direntry direntry
  let error ← fetch_inode env e.inode_no (← load_dir e.parent).fs_info e.payload
  if error < 0 then
    kfree e.payload .inode
    store_direntry direntry fun e => { e with payload := 0 }
    pure 0
  else pure e.payload

def get_direntry (env : Env) (direntry : Nat) : Prog Vfs Int := do
  assert env (pure (direntry ≠ 0))
  assert env do return (← load_dir (← load_direntry direntry).parent).fs_info ≠ 0
  let inode ← direntry_get_inode env direntry
  if inode = 0 then pure (- EIO)
  else
    let i ← load_inode inode
    store_direntry direntry fun e =>
      { e with mode := i_mode i, type := i_mode i &&& 0xf000, size := i_size i, blocks := i_blocks i }
    pure 0

/-! ## Loading a directory -/

/-- Where `last_next_ptr` points to: `dir->entries` at first, then the `next` of the last entry. -/
inductive NextPtr where
  | entries (dir : Nat)
  | next (entry : Nat)
  deriving DecidableEq, Repr

/-- `*last_next_ptr = entry` -/
def NextPtr.store : NextPtr → Nat → Prog Vfs Unit
  | .entries dir, entry => store_dir dir fun d => { d with entries := entry }
  | .next last, entry => store_direntry last fun e => { e with next := entry }

/-- `i` moved on to the next multiple of four. -/
def align4 (i : Nat) : Nat := i + if i % 4 ≠ 0 then 4 - i % 4 else 0

/-- The entry `current_entry` of `dir` gets a directory if the record says it is one. -/
def set_directory (env : Env) (dir current_entry file_type : Nat) : Prog Vfs Unit := do
  if file_type = 2 then
    let inode_no := (← load_direntry current_entry).inode_no
    let d ← load_dir dir
    if inode_no = d.inode_no then
      let payload := (← load_direntry d.dir_entry).payload
      store_direntry current_entry fun e => { e with directory := dir, payload := payload }
    else
      let parent ← load_dir d.parent
      if inode_no = parent.inode_no then
        let payload := (← load_direntry parent.dir_entry).payload
        store_direntry current_entry fun e => { e with directory := d.parent, payload := payload }
      else
        let directory ← kmalloc env 24 .dir
        store_direntry current_entry fun e => { e with directory := directory }
        store_dir directory fun _ => ⟨inode_no, d.fs_info, d.mnt_point, dir, current_entry, 0⟩

/-- The body of the loop of `ext2_get_direntries` behind the read: the new entry, and the next `i`. -/
def load_record (env : Env) (dir : Nat) (direntry_buf : List UInt8) (i : Nat) : Prog Vfs (Nat × Nat) := do
  let current_entry ← kmalloc env 292 .direntry
  let header ← slice direntry_buf i 8
  let fs_dir_entry := Ext2DirentryStruct.ofBytes header
  let name ← slice direntry_buf (8 + i) fs_dir_entry.name_len
  store_direntry current_entry fun e =>
    { e with
      name := overwrite e.name (name ++ [0])
      inode_no := fs_dir_entry.inode
      parent := dir
      directory := 0 }
  set_directory env dir current_entry fs_dir_entry.file_type
  assert env do return (← get_direntry env current_entry) ≥ 0
  pure (current_entry, align4 (i + fs_dir_entry.rec_len))

/-- The beginning of the loop of `ext2_get_direntries`: what is in `direntry_buf` then, or the error returned. -/
def next_block (env : Env) (f : Ext2fsStruct) (inode : Nat) (get_new_block : Bool) (current_block : Nat)
    (direntry_buf : List UInt8) : Prog Vfs (Except Int (List UInt8)) := do
  if get_new_block then
    let sectors := f.block_size / IO_BLOCK_SIZE
    let bytes ← load_inode inode
    let r ← hdd_read env f.part sectors (i_block bytes current_block * sectors % 2 ^ 32)
    if r.ret < 0 then pure (.error r.ret) else pure (.ok (overwrite direntry_buf r.stored))
  else pure (.ok direntry_buf)

/-- The loop of `ext2_get_direntries`. A record of length zero is read again and again; any
other moves `i` on, and `block_size` is below `2 ^ 32`. -/
def ext2_get_direntries_loop (env : Env) (dir fsinfo inode : Nat) :
    Nat → Nat → Bool → Nat → List UInt8 → NextPtr → Prog Vfs Int
  | 0, _, _, _, _, _ => Prog.fault .diverges
  | fuel + 1, i, get_new_block, current_block, direntry_buf, last_next_ptr => do
    let f ← load_fsinfo fsinfo
    if i < f.block_size then
      match ← next_block env f inode get_new_block current_block direntry_buf with
      | .error error => pure error
      | .ok direntry_buf =>
        let current_block := if get_new_block then current_block + 1 else current_block
        let (current_entry, i) ← load_record env dir direntry_buf i
        last_next_ptr.store current_entry
        ext2_get_direntries_loop env dir fsinfo inode fuel i false current_block direntry_buf (.next current_entry)
    else
      last_next_ptr.store 0
      pure SUCCESS

def ext2_get_direntries (env : Env) (dir : Nat) : Prog Vfs Int := do
  assert env (pure (dir ≠ 0))
  let d ← load_dir dir
  assert env (pure (d.fs_info ≠ 0))
  let fsinfo := (← load_mntp d.fs_info).fs_data
  if d.entries ≠ 0 then pure SUCCESS
  else
    let inode ← direntry_get_inode env d.dir_entry
    let direntry_buf ← local_array env (← load_fsinfo fsinfo).block_size
    ext2_get_direntries_loop env dir fsinfo inode (2 ^ 32) 0 true 0 direntry_buf (.entries dir)

/-! ## Mounting -/

/-- `0x400 << block_size_log`, the way the processor shifts. -/
def block_size_of (sb : List UInt8) : Nat := 0x400 * 2 ^ (block_size_log sb % 32) % 2 ^ 32

/-- `gdt_lba` -/
def gdt_lba (block_size : Nat) : Nat := (if block_size = 0x400 then 2 else 1) * (block_size / IO_BLOCK_SIZE)

/-- `gdt_size_sectors` -/
def gdt_size_sectors (gd_count : Nat) : Nat :=
  let gdt_size := gd_count * 32 % 2 ^ 32
  if gdt_size % IO_BLOCK_SIZE ≠ 0 then gdt_size / IO_BLOCK_SIZE + 1 else gdt_size / IO_BLOCK_SIZE

def ext2_mount (env : Env) (part mnt_point : Nat) : Prog Vfs Int := do
  let error ← ext2_probe env part
  if error < 0 then pure error
  else
    let fsinfo ← kmalloc env 2048 .ext2fs
    store_fsinfo fsinfo fun f => { f with part := part }
    let mnt_info ← kmalloc env 12 .mntp
    store_mntp mnt_info fun _ => ⟨fsinfo, part, .ext2fs⟩
    let r ← hdd_read env (← load_fsinfo fsinfo).part SB_SECT_SIZE SB_SECT_OFFSET
    store_fsinfo fsinfo fun f => { f with superblock := overwrite f.superblock r.stored }
    if r.ret < SB_SECT_SIZE then
      kfree fsinfo .ext2fs
      kfree mnt_info .mntp
      pure r.ret
    else
      let sb := (← load_fsinfo fsinfo).superblock
      let groups ← div32 (total_blocks sb) (blocks_per_group sb)
      store_fsinfo fsinfo fun f => { f with block_size := block_size_of sb, gd_count := add32 groups 1 }
      let sectors := gdt_size_sectors (add32 groups 1)
      let group_descriptors ← kmalloc_gdt env (sectors * IO_BLOCK_SIZE % 2 ^ 32)
      store_fsinfo fsinfo fun f => { f with group_descriptors := group_descriptors }
      let r ← hdd_read env (← load_fsinfo fsinfo).part sectors (gdt_lba (block_size_of sb))
      store_gdt group_descriptors r.stored
      if r.ret < 0 then
        kfree group_descriptors .gdt
        kfree fsinfo .ext2fs
        kfree mnt_info .mntp
        pure r.ret
      else
        let d ← load_dir mnt_point
        store_dir mnt_point fun d => { d with fs_info := mnt_info, mnt_point := mnt_point, inode_no := 2 }
        store_direntry d.dir_entry fun e => { e with inode_no := 2 }
        let error ← ext2_get_direntries env mnt_point
        if error < 0 then
          store_dir mnt_point fun d' => { d' with fs_info := d.fs_info, mnt_point := d.mnt_point }
          kfree group_descriptors .gdt
          kfree fsinfo .ext2fs
          kfree mnt_info .mntp
          pure error
        else pure SUCCESS

end Ulmix.Fs

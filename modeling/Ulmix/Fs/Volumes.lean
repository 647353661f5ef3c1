import Ulmix.Fs.Accesses
/-!
# Reading inodes

A mounted filesystem is, for the driver, what it has read of it: the superblock
and the group descriptors (`Volume`). From these follows where an inode lies
(`Volume.inodeSector`). `fetch_inode_sat` says all that `fetch_inode` can do;
what it and `direntry_get_inode` leave alone is derived from it.
-/
open Ulmix.Lib Ulmix.Lib.Prog

namespace Ulmix.Fs

/-! ## Volumes -/

theorem le16_append {b r : List UInt8} {i : Nat} (h : i + 1 < b.length) : le16 (b ++ r) i = le16 b i := by
  have h0 : i < b.length := by omega
  simp [le16, List.getElem?_append_left, h, h0]

theorem le32_append {b r : List UInt8} {i : Nat} (h : i + 3 < b.length) : le32 (b ++ r) i = le32 b i := by
  have h0 : i < b.length := by omega
  have h1 : i + 1 < b.length := by omega
  have h2 : i + 2 < b.length := by omega
  simp [le32, List.getElem?_append_left, h, h0, h1, h2]

/-- What the driver knows of a mounted filesystem. -/
structure Volume where
  superblock : List UInt8
  part : Nat
  block_size : Nat
  table : List UInt8

/-- The filesystem an `mntp_struct` leads to. -/
def Vfs.volume (s : Vfs) (mnt_info : Nat) : Volume where
  superblock := (s.fsinfos (s.mntps mnt_info).fs_data).superblock
  part := (s.fsinfos (s.mntps mnt_info).fs_data).part
  block_size := (s.fsinfos (s.mntps mnt_info).fs_data).block_size
  table := s.gdts (s.fsinfos (s.mntps mnt_info).fs_data).group_descriptors

namespace Volume

/-- Sectors in a block. -/
def sectors (v : Volume) : Nat := v.block_size / IO_BLOCK_SIZE

def group (v : Volume) (n : Nat) : Nat := sub32 n 1 / inodes_per_group v.superblock

def perSector (v : Volume) : Nat := IO_BLOCK_SIZE / inode_size v.superblock

/-- The sector of the partition that inode `n` is in. -/
def inodeSector (v : Volume) (n : Nat) : Nat :=
  add32 (bg_inode_table ((v.table.drop (32 * v.group n)).take 32) * v.sectors % 2 ^ 32)
    (sub32 n 1 % inodes_per_group v.superblock / v.perSector)

/-- Where in its sector inode `n` starts. -/
def inodeOffset (v : Volume) (n : Nat) : Nat := sub32 n 1 % v.perSector * inode_size v.superblock

/-- The driver gets as far as reading inode `n`. -/
structure Serves (v : Volume) (n : Nat) : Prop where
  known : n ≤ total_inodes v.superblock
  grouped : inodes_per_group v.superblock ≠ 0
  sized : inode_size v.superblock ≠ 0
  small : v.perSector ≠ 0
  described : 32 * v.group n + 32 ≤ v.table.length

end Volume

/-- The same filesystems are mounted in `s` and in `t`. -/
structure SameVolumes (s t : Vfs) : Prop where
  mntps : t.mntps = s.mntps
  fsinfos : t.fsinfos = s.fsinfos
  gdts : t.gdts = s.gdts
  parts : t.parts = s.parts

namespace SameVolumes

variable {s t u : Vfs}

theorem refl (s : Vfs) : SameVolumes s s := ⟨rfl, rfl, rfl, rfl⟩

theorem trans (h : SameVolumes s t) (h' : SameVolumes t u) : SameVolumes s u :=
  ⟨h'.mntps.trans h.mntps, h'.fsinfos.trans h.fsinfos, h'.gdts.trans h.gdts, h'.parts.trans h.parts⟩

theorem volume (h : SameVolumes s t) (m : Nat) : t.volume m = s.volume m := by
  unfold Vfs.volume
  rw [h.mntps, h.fsinfos, h.gdts]

end SameVolumes

/-- The read for inode `n`. -/
def Vfs.inodeRequest (s : Vfs) (mnt_info n : Nat) : Request :=
  s.request (s.volume mnt_info).part 1 ((s.volume mnt_info).inodeSector n)

/-- The state once a device was asked. -/
def Vfs.asked (s : Vfs) (q : Request) : Vfs := { s with reads := q :: s.reads }

theorem hdd_read_run {env : Env} {s : Vfs} {part sectors lba : Nat} (hp : part ≠ 0) (hbd : (s.parts part).bd ≠ 0) :
    hdd_read env part sectors lba s =
      (.ok (env.reply s.reads.length (s.request part sectors lba)), s.asked (s.request part sectors lba)) := by
  have hload : load_part part s = (.ok (s.parts part), s) := by
    rw [load_part, if_neg hp]
    rfl
  unfold hdd_read
  rw [bind_of_ok hload, if_neg hbd, bind_of_ok (get_apply s)]
  rfl

/-- `part` is a partition of a device. -/
def Attached (s : Vfs) (part : Nat) : Prop := part ≠ 0 ∧ (s.parts part).bd ≠ 0

theorem hdd_read_null {env : Env} {s : Vfs} {part sectors lba : Nat} (h : ¬ Attached s part) :
    hdd_read env part sectors lba s = (.error .nullDeref, s) := by
  by_cases hp : part = 0
  · have hload : load_part part s = (.error .nullDeref, s) := by
      rw [load_part, if_pos hp]
      rfl
    exact bind_of_error hload
  · have hload : load_part part s = (.ok (s.parts part), s) := by
      rw [load_part, if_neg hp]
      rfl
    have hbd : (s.parts part).bd = 0 := by
      by_contra hbd
      exact h ⟨hp, hbd⟩
    unfold hdd_read
    rw [bind_of_ok hload, if_pos hbd]
    rfl

/-- The answer to the read for inode `n`. -/
def Env.inodeReply (env : Env) (s : Vfs) (mnt_info n : Nat) : Reply :=
  env.reply s.reads.length (s.inodeRequest mnt_info n)

/-- The bytes of inode `n` as they come from the device. -/
def Env.inodeBytes (env : Env) (s : Vfs) (mnt_info n : Nat) : List UInt8 :=
  ((overwrite ((List.range IO_BLOCK_SIZE).map (env.stack s.reads.length)) (env.inodeReply s mnt_info n).stored).drop
    ((s.volume mnt_info).inodeOffset n)).take (inode_size (s.volume mnt_info).superblock)

/-- The state once `bytes` were copied to the inode at `p`. -/
def Vfs.copied (s : Vfs) (p : Nat) (bytes : List UInt8) : Vfs :=
  { s with inodes := Function.update s.inodes p (overwrite (s.inodes p) bytes) }

section
variable {env : Env} {P : Vfs → Prop} {E : Fault → Vfs → Prop} {n m p e : Nat}

theorem fetch_inode_sat {Q : Int → Vfs → Prop}
    (hmissing : ∀ s, P s → total_inodes (s.volume m).superblock < n → Q (-ENOENT) s)
    (hfailed : ∀ s, P s → (s.volume m).Serves n → (env.inodeReply s m n).ret < 0 →
      Q (env.inodeReply s m n).ret (s.asked (s.inodeRequest m n)))
    (hfetched : ∀ s, P s → (s.volume m).Serves n → 0 ≤ (env.inodeReply s m n).ret → p ≠ 0 → (p, .inode) ∈ s.blocks →
      (env.inodeBytes s m n).length ≤ 128 →
      Q SUCCESS ((s.asked (s.inodeRequest m n)).copied p (env.inodeBytes s m n)))
    (hE : ∀ e s, P s → E e s)
    (hE' : ∀ e s, P s → (s.volume m).Serves n → E e (s.asked (s.inodeRequest m n))) :
    Sat P (fetch_inode env n m p) Q E := by
  refine .bind (load_mntp_sat hE) fun mnt => ?_
  refine .bind (load_fsinfo_sat fun e s h => hE e s h.2.2) fun fsinfo => ?_
  refine .ite (fun hn => .pure fun s h => ?_) fun hn => ?_
  · obtain ⟨-, rfl, -, rfl, hP⟩ := h
    exact hmissing s hP hn
  refine .bind (div32_sat fun e s h => hE e s h.2.2.2.2) fun group => ?_
  refine .bind (div32_sat fun e s h => hE e s h.2.2.2.2.2) fun per_sector => ?_
  refine .bind (div32_sat fun e s h => hE e s h.2.2.2.2.2.2) fun offset => ?_
  refine .bind (load_gd_sat fun e s h => hE e s h.2.2.2.2.2.2.2) fun gd => ?_
  refine .bind local_array_sat fun buf => ?_
  -- what is known when the device is asked, and what remains of it afterwards
  refine .bind (hdd_read_sat (Q := fun r s' => ∃ s, (P s ∧ (s.volume m).Serves n) ∧ s' = s.asked (s.inodeRequest m n) ∧
    r = env.inodeReply s m n ∧ env.inodeBytes s m n = ((overwrite buf r.stored).drop
      (sub32 n 1 % per_sector * inode_size fsinfo.superblock)).take (inode_size fsinfo.superblock)) ?_
    fun e s h => hE e s h.2.2.2.2.2.2.2.2.2) fun r => ?_
  · rintro s ⟨hbuf, ⟨-, hlen, rfl⟩, ⟨hper, rfl⟩, ⟨hsize, rfl⟩, ⟨hgroup, rfl⟩, -, rfl, -, rfl, hP⟩
    have hreq : s.request (s.volume m).part 1 ((s.volume m).inodeSector n) = s.inodeRequest m n := rfl
    refine ⟨s, ⟨hP, ⟨Nat.le_of_not_lt hn, hgroup, hsize, hper, hlen⟩⟩, ?_, ?_, ?_⟩
    · exact congrArg s.asked hreq
    · exact congrArg (env.reply s.reads.length) hreq
    · rw [hbuf]
      rfl
  refine .ite (fun hr => .pure ?_) fun hr => ?_
  · rintro _ ⟨s, ⟨hP, hserves⟩, rfl, rfl, -⟩
    exact hfailed s hP hserves hr
  refine .bind (slice_sat ?_) fun bytes => ?_
  · rintro e _ ⟨s, ⟨hP, hserves⟩, rfl, -⟩
    exact hE' e s hP hserves
  refine .bind (Q := fun _ => Q SUCCESS) (store_inode_sat ?_ ?_) fun _ => .pure fun _ h => h
  · rintro _ ⟨⟨-, rfl⟩, s, ⟨hP, hserves⟩, rfl, rfl, hbytes⟩ hp hlive hlen
    rw [← hbytes] at hlen ⊢
    exact hfetched s hP hserves (Int.not_lt.1 hr) hp hlive hlen
  · rintro e _ ⟨-, s, ⟨hP, hserves⟩, rfl, -⟩
    exact hE' e s hP hserves

/-- `P` holds whatever reading the inode of the entry `e` does to the heap. -/
structure Indifferent (env : Env) (e : Nat) (P : Vfs → Prop) : Prop where
  copied : ∀ s p bytes, P s → P (s.copied p bytes)
  allocated : ∀ s p, P s → P (s.allocated p .inode)
  freed : ∀ s p, P s → P { s with blocks := s.blocks.erase (p, .inode) }
  locked : ∀ s, P s → P { s with heap_locked := true }
  payload : ∀ s p, P s → P { s with direntries := Function.update s.direntries e { s.direntries e with payload := p } }

/-- `fetch_inode` asks the device for one sector and writes to the inode. -/
theorem fetch_inode_keeps (hr : ∀ s, P s → (s.volume m).Serves n → P (s.asked (s.inodeRequest m n)))
    (hi : ∀ s b, P s → P (s.copied p b)) : Sat P (fetch_inode env n m p) (fun _ => P) (fun _ => P) :=
  fetch_inode_sat (fun _ h _ => h) (fun s h hs _ => hr s h hs) (fun s h hs _ _ _ _ => hi _ _ (hr s h hs))
    (fun _ _ h => h) fun _ s h hs => hr s h hs

theorem alloc_inode_sat {Q : Unit → Vfs → Prop} (h : ∀ s, P s → e ≠ 0 → (s.direntries e).payload ≠ 0 → Q () s)
    (hnull : ∀ s, P s → e ≠ 0 → (s.direntries e).payload = 0 →
      Q () { s.allocated (env.kmalloc s.kmallocs s.blocks 128) .inode with
        direntries := Function.update s.direntries e
          { s.direntries e with payload := env.kmalloc s.kmallocs s.blocks 128 } })
    (hE : ∀ e s, P s → E e s) : Sat P (alloc_inode env e) Q E := by
  refine .bind (load_direntry_sat hE) fun d => .ite (fun hd => ?_) fun hd => .pure ?_
  · refine .bind (kmalloc_sat (Q := fun p s' => ∃ s, (P s ∧ e ≠ 0 ∧ (s.direntries e).payload = 0) ∧
      p = env.kmalloc s.kmallocs s.blocks 128 ∧ s' = s.allocated p .inode) ?_ fun e s h => hE e s h.2.2) fun p => ?_
    · rintro s ⟨he, rfl, hP⟩
      exact ⟨s, ⟨hP, he, hd⟩, rfl, rfl⟩
    · rintro _ ⟨s, ⟨hP, he, hp⟩, rfl, rfl⟩
      rw [store_direntry_run he, allocated_direntries]
      exact ⟨fun a t ha => (by cases ha; exact hnull s hP he hp), fun e t ht => by cases ht⟩
  · rintro s ⟨he, rfl, hP⟩
    exact h s hP he hd

/-- What does not depend on reading the inode of an entry is kept, whatever comes of it. -/
theorem direntry_get_inode_keeps (hP : Indifferent env e P)
    (hr : ∀ s m n, P s → (s.volume m).Serves n → n = (s.direntries e).inode_no →
      m = (s.dirs (s.direntries e).parent).fs_info → P (s.asked (s.inodeRequest m n))) :
    Sat P (direntry_get_inode env e) (fun _ => P) (fun _ => P) := by
  have keep : ∀ (e : Fault) s, P s → (fun _ => P) e s := fun _ _ h => h
  refine .bind (alloc_inode_sat (Q := fun _ => P) (fun _ h _ _ => h) (fun s h _ _ => ?_) keep) fun _ => ?_
  · have := hP.payload _ (env.kmalloc s.kmallocs s.blocks 128) (hP.allocated s (env.kmalloc s.kmallocs s.blocks 128) h)
    rwa [allocated_direntries] at this
  refine .bind (load_direntry_sat keep) fun d => ?_
  refine .bind (load_dir_sat fun _ _ h => h.2.2) fun dir => ?_
  refine .bind (Q := fun _ => P) (fetch_inode_sat ?_ ?_ ?_ ?_ ?_) fun error => ?_
  · exact fun s h _ => h.2.2.2.2
  · rintro s ⟨-, rfl, -, rfl, h⟩ hs -
    exact hr s _ _ h hs rfl rfl
  · rintro s ⟨-, rfl, -, rfl, h⟩ hs - - - -
    exact hP.copied _ _ _ (hr s _ _ h hs rfl rfl)
  · exact fun _ s h => h.2.2.2.2
  · rintro e s ⟨-, rfl, -, rfl, h⟩ hs
    exact hr s _ _ h hs rfl rfl
  refine .ite (fun _ => ?_) fun _ => .pure fun _ h => h
  refine .bind (Q := fun _ => P) (kfree_sat (fun s h _ _ => hP.locked s h) (fun s h _ _ _ => hP.freed s _ h) keep)
    fun _ => ?_
  exact .bind (Q := fun _ => P) (store_direntry_sat (fun s h _ => hP.payload s 0 h) keep) fun _ => .pure fun _ h => h

end

/-! ## A small filesystem -/

/-- An address above all that are in use. -/
def nextAddress (blocks : List (Nat × Kind)) : Nat := (blocks.map Prod.fst).sum + 24

theorem nextAddress_fresh (blocks : List (Nat × Kind)) (kind : Kind) : (nextAddress blocks, kind) ∉ blocks := by
  intro h
  have := List.le_sum_of_mem (List.mem_map.2 ⟨_, h, rfl⟩ : nextAddress blocks ∈ blocks.map Prod.fst)
  unfold nextAddress at this
  omega

theorem nextAddress_ne (blocks : List (Nat × Kind)) : nextAddress blocks ≠ 0 :=
  Nat.ne_of_gt (Nat.add_pos_right _ (by decide))

/-- 16 inodes of 128 bytes and 16 blocks of 1024 in one group. -/
def smallSuperblock : List UInt8 :=
  (List.range 90).map fun i => match i with
    | 0 | 4 | 32 | 40 => 16
    | 56 => 0x53
    | 57 => 0xef
    | 88 => 128
    | _ => 0

/-- The inode table is in block 5. -/
def smallTable : List UInt8 := (List.range 512).map fun i => if i = 8 then 5 else 0

/-- Inode 2 is a directory in block 8, and inode 3 a file of five bytes. -/
def smallInodes : List UInt8 :=
  (List.range 512).map fun i => match i with
    | 128 => 0xed
    | 129 => 0x41
    | 133 => 4
    | 168 => 8
    | 256 => 0xa4
    | 257 => 0x81
    | 260 => 5
    | _ => 0

/-- A disk with `records` in the directory of inode 2. -/
def smallDisk (records : List UInt8) (lba : Nat) : List UInt8 :=
  match lba with
  | 2 => smallSuperblock
  | 4 => smallTable
  | 10 => smallInodes
  | 16 => records
  | _ => []

def smallEnv (records : List UInt8) : Env where
  debug := true
  kmalloc _ blocks _ := nextAddress blocks
  read _ _ sectors lba := ⟨sectors, smallDisk records lba⟩
  stack _ _ := 0

theorem smallEnv_fresh (records : List UInt8) : FreshBlocks (smallEnv records) :=
  fun _ blocks _ kind _ => nextAddress_fresh blocks kind

/-- The root directory with the filesystem mounted on it, and nothing loaded yet. -/
def smallVfs : Vfs where
  dirs _ := ⟨2, 0x300, root_dir, root_dir, root_direntry, 0⟩
  direntries _ := ⟨F_DIR, 0, 0, 0, List.replicate 256 0, 2, root_dir, root_dir, 0, 0⟩
  mntps _ := ⟨0x400, 0x600, .ext2fs⟩
  fsinfos _ := ⟨smallSuperblock, 0x600, 1024, 1, 0x500⟩
  inodes _ := List.replicate 128 0
  gdts _ := smallTable
  parts _ := ⟨0, 64, 0x83, 1⟩
  blocks := [(root_dir, .dir), (root_direntry, .direntry), (0x300, .mntp), (0x400, .ext2fs), (0x500, .gdt)]
  heap_locked := false
  kmallocs := 0
  refused := 0
  reads := []

/-- The record `.` of inode 2, up to the end of the block. -/
def dotRecord : List UInt8 := [2, 0, 0, 0, 0, 4, 1, 2, 0x2e]

/-- The small disk, with an error for the block of the root directory. -/
def faultyEnv : Env :=
  { smallEnv dotRecord with
    read := fun _ _ sectors lba => if lba = 16 then ⟨- EIO, []⟩ else ⟨sectors, smallDisk dotRecord lba⟩ }

theorem faultyEnv_fresh : FreshBlocks faultyEnv := smallEnv_fresh dotRecord

end Ulmix.Fs

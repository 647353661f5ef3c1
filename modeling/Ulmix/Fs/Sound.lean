import Ulmix.Fs.Isolation
import Ulmix.Fs.PathBounds
/-!
# What a disk says of a path

An image answers for itself which number a path has: each component is looked up
among the records of a directory, and the number found is that of the next one
(`Image.walk`). Nothing of the driver is in this, neither memory nor the order in
which things are read.

On a sound image (`Image.Sound`) the inodes and blocks are where the format has
them, and so they are in memory once the image is mounted
(`MountedFrom.validInode`, `MountedFrom.diskInode`).
-/
open Ulmix.Lib Ulmix.Lib.Prog

namespace Ulmix.Fs

/-! ## Names on a disk -/

/-- Where a walk over a disk ends: at inode `n`, found in directory `parent`, or nowhere. -/
inductive Answer where
  | found (parent n : Nat)
  | missing
  | notDirectory
  deriving DecidableEq, Repr

/-- The records of a block from the byte `i` on. Each is longer than a byte, so there are fewer than bytes. -/
def recordsFrom (blk : List UInt8) : Nat → Nat → List Nat
  | 0, _ => []
  | fuel + 1, i => if i < blk.length then i :: recordsFrom blk fuel (nextRecord blk i) else []

namespace Image
variable (v : Image)

/-- The block of directory `n`. -/
def dirBlock (n : Nat) : List UInt8 := v.block (i_block (v.inode n) 0)

/-- Inode `n` is that of a directory. -/
def IsDir (n : Nat) : Prop := i_mode (v.inode n) &&& 0xf000 = F_DIR

instance (n : Nat) : Decidable (v.IsDir n) := decEq (i_mode (v.inode n) &&& 0xf000) F_DIR

def records (n : Nat) : List Nat := recordsFrom (v.dirBlock n) (v.dirBlock n).length 0

/-- The number that the directory `n` has for a component. -/
def lookup (n : Nat) (component : List UInt8) : Option Nat :=
  ((v.records n).find? fun i => (fileAt (v.dirBlock n) i).1 = if component = [] then dot else component).map fun i =>
    (recordAt (v.dirBlock n) i).inode

/-- Look the components up one after another, from the directory `n`. An empty one at the end asks for a directory. -/
def walk : Nat → List (List UInt8) → Answer
  | _, [] => .missing
  | n, c :: cs => (v.lookup n c).elim .missing fun k =>
    if cs = [] then .found n k
    else if ¬ v.IsDir k then if cs = [[]] then .notDirectory else .missing
    else if cs = [[]] then .found n k
    else walk k cs

/-- What the disk says of a path, absolute or not. -/
def resolve (path : List UInt8) : Answer := v.walk 2 (components path)

/-- A disk with directories that are one block of records each, with inodes of 128 bytes of which a group has a
multiple of four, all of them known, with a table of less than 4 GiB, and with records that call a directory a
directory. -/
structure Sound : Prop where
  signature : Fs.signature v.superblock = 0xef53
  inode_size : Fs.inode_size v.superblock = 128
  grouped : 0 < inodes_per_group v.superblock
  per_group : inodes_per_group v.superblock % 4 = 0
  blocks : blocks_per_group v.superblock ≠ 0
  table : gdt_size_sectors (gdCount v.superblock) * IO_BLOCK_SIZE < 2 ^ 32
  block : ∃ k, v.blockSize = 1024 * 2 ^ k
  positive : ∀ n, v.Named n → 1 ≤ n
  known : ∀ n, v.Named n → n ≤ total_inodes v.superblock
  described : ∀ n, v.Named n → (n - 1) / inodes_per_group v.superblock < gdCount v.superblock
  tiled : ∀ n, v.Directory n → ∃ is, Tiles (v.dirBlock n) 0 is
  typed : ∀ n, v.Directory n → ∀ i ∈ v.records n,
    ((recordAt (v.dirBlock n) i).file_type = 2 ↔ v.IsDir (recordAt (v.dirBlock n) i).inode)

end Image

section
variable {v : Image} {p : Disks.HdStruct} {n i : Nat} {is : List Nat} {blk : List UInt8}

/-- Records that fill a block are all of them. -/
theorem Tiles.recordsFrom_eq (h : Tiles blk i is) (hi : i % 4 = 0) : ∀ fuel, is.length < fuel →
    recordsFrom blk fuel i = is := by
  induction h with
  | done =>
    intro fuel hfuel
    obtain ⟨fuel, rfl⟩ : ∃ k, fuel = k + 1 := ⟨fuel - 1, by omega⟩
    rw [recordsFrom, if_neg (Nat.lt_irrefl _)]
  | @record i is h4 hlen rest ih =>
    intro fuel hfuel
    obtain ⟨fuel, rfl⟩ : ∃ k, fuel = k + 1 := ⟨fuel - 1, by omega⟩
    have hnext : nextRecord blk i = i + (recordAt blk i).rec_len := align4_of_mod (by omega)
    have hroom := rest.room
    rw [List.length_cons] at hfuel
    rw [recordsFrom, if_pos (by omega), hnext, ih (by omega) fuel (by omega)]

theorem Image.dirBlock_length (v : Image) (n : Nat) : (v.dirBlock n).length = v.blockSize := diskBytes_length _ _ _

namespace Image.Sound

theorem blockSize_pos (h : v.Sound) : 0 < v.blockSize := by
  obtain ⟨k, hk⟩ := h.block
  rw [hk]
  positivity

theorem tiles (h : v.Sound) (hn : v.Directory n) : Tiles (v.dirBlock n) 0 (v.records n) := by
  obtain ⟨is, his⟩ := h.tiled n hn
  have hroom := his.room
  have hpos := h.blockSize_pos
  have hlen := v.dirBlock_length n
  have hrecords : v.records n = is := his.recordsFrom_eq rfl _ (by omega)
  rwa [hrecords]

theorem records_ne_nil (h : v.Sound) (hn : v.Directory n) : v.records n ≠ [] := by
  intro hnil
  have htiles := h.tiles hn
  have hpos := h.blockSize_pos
  have hlen := v.dirBlock_length n
  rw [hnil] at htiles
  generalize v.dirBlock n = blk at htiles hlen
  -- no record at all fills an empty block only
  obtain ⟨i, hi⟩ : ∃ i, i = 0 := ⟨0, rfl⟩
  rw [← hi] at htiles
  cases htiles
  omega

theorem number_lt (h : v.Sound) (hn : v.Named n) : n < 2 ^ 32 :=
  Nat.lt_of_le_of_lt (h.known n hn) (ofBytes_lt _ _ _ _)

theorem sub32_eq (h : v.Sound) (hn : v.Named n) : sub32 n 1 = n - 1 := Lib.sub32_eq (h.number_lt hn) (h.positive n hn)

theorem perSector (h : v.Sound) : v.volume.perSector = 4 := by
  unfold Volume.perSector
  rw [v.volume_superblock, h.inode_size]
  rfl

theorem group (h : v.Sound) (hn : v.Named n) : v.volume.group n = (n - 1) / inodes_per_group v.superblock := by
  unfold Volume.group
  rw [h.sub32_eq hn, v.volume_superblock]

end Image.Sound

theorem Image.table_length (v : Image) :
    v.volume.table.length = gdt_size_sectors (gdCount v.superblock) * IO_BLOCK_SIZE := diskBytes_length _ _ _

/-- The table has room for all descriptors. -/
theorem Confined.table_room (hc : Confined v p) (hsig : signature v.superblock = 0xef53) :
    32 * gdCount v.superblock ≤ v.volume.table.length := by
  have hgroups := hc.groups hsig
  have hcount : gdCount v.superblock = total_blocks v.superblock / blocks_per_group v.superblock + 1 := by
    unfold gdCount
    rw [add32_eq (by omega)]
  rw [v.table_length]
  unfold gdt_size_sectors
  rw [hcount]
  generalize total_blocks v.superblock / blocks_per_group v.superblock = k at hgroups
  have hio : IO_BLOCK_SIZE = 512 := rfl
  simp only [hio]
  split <;> omega

/-- A sector of four inodes, and the place in it. -/
theorem inodePlace_bytes (start table sectors x : Nat) :
    start + (table * sectors + x / 4) * IO_BLOCK_SIZE + x % 4 * 128 =
      start + table * (sectors * IO_BLOCK_SIZE) + x * 128 := by
  have htable : table * (sectors * IO_BLOCK_SIZE) = table * sectors * IO_BLOCK_SIZE := by ring
  have hio : IO_BLOCK_SIZE = 512 := rfl
  rw [htable, hio]
  omega

namespace Image.Sound

theorem in_table (h : v.Sound) (hc : Confined v p) (hn : v.Named n) :
    32 * ((n - 1) / inodes_per_group v.superblock) + 32 ≤ v.volume.table.length := by
  have hroom := hc.table_room h.signature
  have hgroup := h.described n hn
  omega

theorem serves (h : v.Sound) (hc : Confined v p) (hn : v.Named n) : v.volume.Serves n where
  known := by
    rw [v.volume_superblock]
    exact h.known n hn
  grouped := by
    rw [v.volume_superblock]
    exact Nat.ne_of_gt h.grouped
  sized := by
    rw [v.volume_superblock, h.inode_size]
    decide
  small := by
    rw [h.perSector]
    decide
  described := by
    rw [h.group hn]
    exact h.in_table hc hn

/-- The descriptor of the group of an inode is in the table. -/
theorem descriptor (h : v.Sound) (hc : Confined v p) (hn : v.Named n) :
    (v.volume.table.drop (32 * ((n - 1) / inodes_per_group v.superblock))).take 32 =
      v.descriptor ((n - 1) / inodes_per_group v.superblock) := by
  have hin := h.in_table hc hn
  have hlength := v.table_length
  have hmul : v.blockSize / IO_BLOCK_SIZE * IO_BLOCK_SIZE = v.blockSize := v.sectors_mul
  have hplace : gdt_lba v.blockSize * IO_BLOCK_SIZE = (if v.blockSize = 0x400 then 2 else 1) * v.blockSize := by
    unfold gdt_lba
    rw [Nat.mul_assoc, hmul]
  have htable : v.volume.table = diskBytes v.disk (v.start + gdt_lba v.blockSize * IO_BLOCK_SIZE)
      (gdt_size_sectors (gdCount v.superblock) * IO_BLOCK_SIZE) := rfl
  rw [htable, diskBytes_slice v.disk (by omega), hplace]
  rfl

/-- Inodes are where the format has them. -/
theorem inodeBytes (h : v.Sound) (hc : Confined v p) (hn : v.Named n) : v.inodeBytes n = v.inode n := by
  have hmul := v.sectors_mul
  have hdescriptor := h.descriptor hc hn
  -- four inodes are a sector, and the groups in front hold a multiple of four
  have hmod : (n - 1) % 4 = (n - 1) % inodes_per_group v.superblock % 4 :=
    (Nat.mod_mod_of_dvd _ (Nat.dvd_of_mod_eq_zero h.per_group)).symm
  have hin : (n - 1) % inodes_per_group v.superblock % 4 * 128 + 128 ≤ 1 * IO_BLOCK_SIZE := by
    have hio : IO_BLOCK_SIZE = 512 := rfl
    rw [hio]
    omega
  unfold Image.inodeBytes Image.inode Image.sectorBytes Volume.inodePlace Volume.inodeOffset
  rw [h.group hn, h.sub32_eq hn, h.perSector, hdescriptor, v.volume_superblock, h.inode_size, hmod,
    diskBytes_slice v.disk hin, ← hmul]
  generalize (n - 1) % inodes_per_group v.superblock = x
  exact congrArg (diskBytes v.disk · 128) (inodePlace_bytes _ _ _ _)

/-- Directories are where their inodes have them. -/
theorem directoryBlock (h : v.Sound) (hc : Confined v p) (hn : v.Directory n) : v.directoryBlock n = v.dirBlock n := by
  unfold Image.directoryBlock Image.dirBlock Image.block Image.blockPlace Image.sectorBytes
  rw [h.inodeBytes hc (.directory hn), Nat.mul_assoc, v.sectors_mul]

/-- The number in a record of a directory is named. -/
theorem record_reached (h : v.Sound) (hn : v.Directory n) (hi : i ∈ v.records n) :
    ReachedFrom (v.dirBlock n) 0 i ∧ i < (v.dirBlock n).length :=
  ((h.tiles hn).walk rfl).reached i hi

theorem record_named (h : v.Sound) (hc : Confined v p) (hn : v.Directory n) (hi : i ∈ v.records n) :
    v.Named (recordAt (v.dirBlock n) i).inode := by
  obtain ⟨hreach, hlt⟩ := h.record_reached hn hi
  rw [← h.directoryBlock hc hn] at hreach hlt ⊢
  exact .record hn (h.serves hc (.directory hn)) hreach hlt

/-- An inode lies in the partition. -/
theorem inode_fits (h : v.Sound) (hc : Confined v p) (hn : v.Named n) :
    bg_inode_table (v.descriptor ((n - 1) / inodes_per_group v.superblock)) * v.blockSize +
      (n - 1) % inodes_per_group v.superblock * 128 < p.sect_count * IO_BLOCK_SIZE := by
  have hroom := hc.places _ _ (.inode h.signature hn (h.serves hc hn))
  have hmul := v.sectors_mul
  unfold Volume.inodePlace at hroom
  rw [h.group hn, h.sub32_eq hn, h.perSector, h.descriptor hc hn, v.volume_superblock] at hroom
  generalize bg_inode_table _ = table at hroom ⊢
  rw [← hmul]
  have htable : table * (v.volume.sectors * IO_BLOCK_SIZE) = table * v.volume.sectors * IO_BLOCK_SIZE := by ring
  have hio : IO_BLOCK_SIZE = 512 := rfl
  rw [htable, hio]
  omega

/-- So does the block of a directory. -/
theorem block_fits (h : v.Sound) (hc : Confined v p) (hn : v.Directory n) :
    i_block (v.inode n) 0 * v.blockSize < p.sect_count * IO_BLOCK_SIZE := by
  have hroom := hc.places _ _ (.block h.signature hn (h.serves hc (.directory hn)))
  have hpos := Image.sectors_pos (Nat.ne_of_gt h.blockSize_pos)
  have hmul := v.sectors_mul
  unfold Image.blockPlace at hroom
  rw [h.inodeBytes hc (.directory hn)] at hroom
  have hblock : i_block (v.inode n) 0 * (v.volume.sectors * IO_BLOCK_SIZE) =
      i_block (v.inode n) 0 * v.volume.sectors * IO_BLOCK_SIZE := by ring
  have hio : IO_BLOCK_SIZE = 512 := rfl
  rw [← hmul, hblock, hio]
  omega

end Image.Sound

end

/-! ## What is in memory of it -/

section
variable {disks : Nat → Nat → UInt8} {p : Disks.HdStruct} {part m n k : Nat} {s t : Vfs}

/-- With the pointers in order, what is at `m` is the filesystem of the image, and the number of groups is kept. -/
structure Kept (v : Image) (p : Disks.HdStruct) (part m : Nat) (s : Vfs) : Prop where
  from_image : MountedFrom v part s m
  mounted : Mounted s m
  parts : s.parts part = p
  counted : (s.fsinfos (s.mntps m).fs_data).gd_count = gdCount v.superblock

theorem SameVolumes.kept {v : Image} (h : SameVolumes s t) (hm : MountedFrom v part t m) (hk : Kept v p part m s) :
    Kept v p part m t where
  from_image := hm
  mounted := h.mounted hk.mounted
  parts := by rw [h.parts, hk.parts]
  counted := by rw [h.fsinfos, h.mntps, hk.counted]

namespace Kept

variable (h : Kept (imageOf disks p) p part m s) (hv : (imageOf disks p).Sound) (hc : Confined (imageOf disks p) p)

include h in
theorem block_size : (s.volume m).block_size = (imageOf disks p).blockSize := h.from_image.copies.block_size

include h in
theorem volume_parts : s.parts (s.volume m).part = p := by
  rw [h.from_image.part, h.parts]

include h in
/-- Blocks are the blocks of the image. -/
theorem diskBlock (k : Nat) : s.diskBlock disks m k = (imageOf disks p).block k := by
  unfold Vfs.diskBlock Vfs.blockPlace Image.block
  rw [h.volume_parts, h.block_size]
  rfl

include h hv hc in
theorem inodePlace (hn : (imageOf disks p).Named n) : s.inodePlace m n = p.sect_offset * IO_BLOCK_SIZE +
    bg_inode_table ((imageOf disks p).descriptor ((n - 1) / inodes_per_group (imageOf disks p).superblock)) *
      (imageOf disks p).blockSize + (n - 1) % inodes_per_group (imageOf disks p).superblock * 128 := by
  obtain ⟨htotal, hper, hsize⟩ := h.from_image.copies.fields
  unfold Vfs.inodePlace
  dsimp only
  rw [h.volume_parts, hper, hsize, h.from_image.copies.table, h.block_size, hv.descriptor hc hn, hv.inode_size]

include h hv hc in
/-- Inodes are the inodes of the image. -/
theorem diskInode (hn : (imageOf disks p).Named n) : s.diskInode disks m n = (imageOf disks p).inode n := by
  unfold Vfs.diskInode Image.inode
  rw [h.inodePlace hv hc hn, h.volume_parts, h.from_image.copies.fields.2.2, hv.inode_size]
  rfl

include h hv hc in
theorem validInode (hn : (imageOf disks p).Named n) : ValidInode s m n := by
  obtain ⟨htotal, hper, hsize⟩ := h.from_image.copies.fields
  have hfits := hv.inode_fits hc hn
  have hends := hc.ends
  refine ⟨⟨h.mounted, ?_, ?_, ?_, hv.positive n hn, ?_, ?_, ?_, ?_⟩, ?_, ?_⟩
  · rw [hsize, hv.inode_size]
    simp
  · rw [hper]
    exact hv.grouped
  · rw [h.block_size]
    exact hv.block
  · rw [htotal]
    exact hv.known n hn
  · rw [hper, h.counted]
    exact hv.described n hn
  · rw [h.counted, h.from_image.copies.table]
    exact hc.table_room hv.signature
  · rw [h.inodePlace hv hc hn]
    have hio : IO_BLOCK_SIZE = 512 := rfl
    rw [hio] at hfits ⊢
    omega
  · rw [hsize, hv.inode_size]
  · rw [hper]
    exact hv.per_group

end Kept

end

end Ulmix.Fs

import Ulmix.Fs.Placed
import Ulmix.Fs.Reported
/-!
# Reads and partitions

`hdd_read` adds the offset of the partition to the sector it is given; nobody
compares a sector with `sect_count`. So the reads of the driver go where the
bytes of the partition send them. These places are collected in `Image.Place`:
the superblock, the table, the inodes that directories name and the first blocks
of these directories, in unbounded arithmetic. In every run of mounts and loads
the driver reads these places and no others, and if they lie in the partition,
so do all its reads (`reads_isolated`).
-/
open Ulmix.Lib Ulmix.Lib.Prog

namespace Ulmix.Fs

/-! ## The places of an image -/

/-- The sector of the partition that inode `n` is in, in unbounded arithmetic. -/
def Volume.inodePlace (v : Volume) (n : Nat) : Nat :=
  bg_inode_table ((v.table.drop (32 * v.group n)).take 32) * v.sectors +
    sub32 n 1 % inodes_per_group v.superblock / v.perSector

namespace Image
variable (v : Image)

/-- `n` sectors of the partition from the sector `first` on. -/
def sectorBytes (first n : Nat) : List UInt8 :=
  diskBytes v.disk (v.start + first * IO_BLOCK_SIZE) (n * IO_BLOCK_SIZE)

/-- What a mount keeps of the partition, but for its address. -/
def volume : Volume where
  superblock := v.superblock
  part := 0
  block_size := v.blockSize
  table := v.sectorBytes (gdt_lba v.blockSize) (gdt_size_sectors (gdCount v.superblock))

/-- Inode `n`, where `fetch_inode` looks for it. -/
def inodeBytes (n : Nat) : List UInt8 :=
  ((v.sectorBytes (v.volume.inodePlace n) 1).drop (v.volume.inodeOffset n)).take (inode_size v.superblock)

/-- The first sector of the first block of inode `n`. -/
def blockPlace (n : Nat) : Nat := i_block (v.inodeBytes n) 0 * v.volume.sectors

/-- This block, the one that the records of a directory are taken from. -/
def directoryBlock (n : Nat) : List UInt8 := v.sectorBytes (v.blockPlace n) v.volume.sectors

/-- The number 2, and the numbers that records of such directories give to directories. -/
inductive Directory : Nat → Prop
  | root : Directory 2
  | record {n i : Nat} : Directory n → v.volume.Serves n → ReachedFrom (v.directoryBlock n) 0 i →
      i < (v.directoryBlock n).length → (recordAt (v.directoryBlock n) i).file_type = 2 →
      Directory (recordAt (v.directoryBlock n) i).inode

/-- The numbers of directories, and those in their records. -/
inductive Named : Nat → Prop
  | directory {n : Nat} : v.Directory n → Named n
  | record {n i : Nat} : v.Directory n → v.volume.Serves n → ReachedFrom (v.directoryBlock n) 0 i →
      i < (v.directoryBlock n).length → Named (recordAt (v.directoryBlock n) i).inode

/-- The sectors of the partition that its bytes send the driver to: the first one, and how many. Without the
signature there is only the superblock. -/
inductive Place : Nat → Nat → Prop
  | superblock : Place SB_SECT_OFFSET SB_SECT_SIZE
  | table : signature v.superblock = 0xef53 → Place (gdt_lba v.blockSize) (gdt_size_sectors (gdCount v.superblock))
  | inode {n : Nat} : signature v.superblock = 0xef53 → v.Named n → v.volume.Serves n →
      Place (v.volume.inodePlace n) 1
  | block {n : Nat} : signature v.superblock = 0xef53 → v.Directory n → v.volume.Serves n →
      Place (v.blockPlace n) v.volume.sectors

end Image

/-! ## Reads in the partition -/

/-- The read covers sectors of the partition `p` only. -/
structure InPartition (p : Disks.HdStruct) (q : Request) : Prop where
  bd : q.bd = p.bd
  first : p.sect_offset ≤ q.lba
  last : q.lba + q.sectors ≤ p.sect_offset + p.sect_count

/-- The read is one of a place of `v` in the partition `p`. -/
structure ReadsPlace (v : Image) (p : Disks.HdStruct) (q : Request) : Prop where
  bd : q.bd = p.bd
  place : ∃ first, v.Place first q.sectors ∧ q.lba = p.sect_offset + first

/-- The partition `p` ends within 32 bits and has room for the places of `v`, the size of the table of `v` does not
leave 32 bits, and an inode is long enough for the number of a block. -/
structure Confined (v : Image) (p : Disks.HdStruct) : Prop where
  ends : p.sect_offset + p.sect_count ≤ 2 ^ 32
  places : ∀ first n, v.Place first n → first + n ≤ p.sect_count
  groups : signature v.superblock = 0xef53 →
    (total_blocks v.superblock / blocks_per_group v.superblock + 1) * 32 < 2 ^ 32
  sized : signature v.superblock = 0xef53 → 44 ≤ inode_size v.superblock

/-- All reads so far are of places of `v`. -/
def Vfs.ReadsPlaces (s : Vfs) (v : Image) (p : Disks.HdStruct) : Prop := ∀ q ∈ s.reads, ReadsPlace v p q

section
variable {v : Image} {p : Disks.HdStruct} {s t : Vfs} {q : Request} {first n : Nat}

theorem Confined.inPartition (h : Confined v p) (hq : ReadsPlace v p q) : InPartition p q := by
  obtain ⟨hbd, first, hplace, hlba⟩ := hq
  have := h.places _ _ hplace
  exact ⟨hbd, by omega, by omega⟩

/-- The sector number of a place does not leave 32 bits. -/
theorem Confined.request_eq (h : Confined v p) (hplace : v.Place first n) (hn : 0 < n) {part : Nat}
    (hp : s.parts part = p) : s.request part n (first % 2 ^ 32) = ⟨p.bd, n, p.sect_offset + first⟩ := by
  have hroom := h.places _ _ hplace
  have hends := h.ends
  unfold Vfs.request
  rw [hp, Nat.mod_eq_of_lt (by omega), add32_eq (by omega), Nat.add_comm]

theorem Confined.request (h : Confined v p) (hplace : v.Place first n) (hn : 0 < n) {part : Nat}
    (hp : s.parts part = p) : ReadsPlace v p (s.request part n (first % 2 ^ 32)) := by
  rw [h.request_eq hplace hn hp]
  exact ⟨rfl, first, hplace, rfl⟩

theorem Vfs.ReadsPlaces.asked (h : s.ReadsPlaces v p) (hq : ReadsPlace v p q) : (s.asked q).ReadsPlaces v p := by
  intro q' hq'
  rcases List.mem_cons.1 hq' with rfl | hq'
  · exact hq
  · exact h q' hq'

/-- A state with no other reads. -/
theorem Vfs.ReadsPlaces.of_reads (h : s.ReadsPlaces v p) (ht : t.reads = s.reads) : t.ReadsPlaces v p := by
  unfold Vfs.ReadsPlaces
  rw [ht]
  exact h

end

/-! ## What is in memory of it -/

/-- `u` is `w` as a mount has put it into memory, where the superblock may go on behind its end. -/
structure Volume.Copies (u w : Volume) : Prop where
  superblock : ∃ rest, u.superblock = w.superblock ++ rest
  block_size : u.block_size = w.block_size
  table : u.table = w.table

section
variable {u : Volume} {v : Image} {n : Nat}

theorem Image.superblock_length (v : Image) : v.superblock.length = 1024 := by
  unfold Image.superblock
  simp only [diskBytes_length, SB_SECT_SIZE, IO_BLOCK_SIZE]

theorem Image.volume_superblock (v : Image) : v.volume.superblock = v.superblock := by
  simp only [Image.volume]

namespace Volume.Copies

/-- The fields of the superblock are those of the image. -/
theorem fields (h : u.Copies v.volume) : total_inodes u.superblock = total_inodes v.superblock ∧
    inodes_per_group u.superblock = inodes_per_group v.superblock ∧
    inode_size u.superblock = inode_size v.superblock := by
  obtain ⟨rest, hrest⟩ := h.superblock
  have hlen := v.superblock_length
  rw [v.volume_superblock] at hrest
  rw [hrest]
  generalize v.superblock = sb at hlen
  exact ⟨le32_append (by omega), le32_append (by omega), le16_append (by omega)⟩

theorem sectors (h : u.Copies v.volume) : u.sectors = v.volume.sectors := by
  unfold Volume.sectors
  rw [h.block_size]

theorem group (h : u.Copies v.volume) (n : Nat) : u.group n = v.volume.group n := by
  unfold Volume.group
  rw [h.fields.2.1, v.volume_superblock]

theorem perSector (h : u.Copies v.volume) : u.perSector = v.volume.perSector := by
  unfold Volume.perSector
  rw [h.fields.2.2, v.volume_superblock]

theorem inodeOffset (h : u.Copies v.volume) (n : Nat) : u.inodeOffset n = v.volume.inodeOffset n := by
  unfold Volume.inodeOffset
  rw [h.perSector, h.fields.2.2, v.volume_superblock]

theorem inodePlace (h : u.Copies v.volume) (n : Nat) : u.inodePlace n = v.volume.inodePlace n := by
  unfold Volume.inodePlace
  rw [h.table, h.group, h.sectors, h.perSector, h.fields.2.1, v.volume_superblock]

theorem serves (h : u.Copies v.volume) (n : Nat) : u.Serves n ↔ v.volume.Serves n := by
  have hserves : ∀ w : Volume, w.Serves n ↔ n ≤ total_inodes w.superblock ∧ inodes_per_group w.superblock ≠ 0 ∧
      inode_size w.superblock ≠ 0 ∧ w.perSector ≠ 0 ∧ 32 * w.group n + 32 ≤ w.table.length := fun w =>
    ⟨fun hw => ⟨hw.known, hw.grouped, hw.sized, hw.small, hw.described⟩, fun hw =>
      ⟨hw.1, hw.2.1, hw.2.2.1, hw.2.2.2.1, hw.2.2.2.2⟩⟩
  obtain ⟨htotal, hper, hsize⟩ := h.fields
  rw [hserves, hserves, htotal, hper, hsize, h.perSector, h.group, h.table, v.volume_superblock]

end Volume.Copies

/-- Only the last step of the arithmetic matters modulo `2 ^ 32`. -/
theorem Volume.inodeSector_eq (u : Volume) (n : Nat) : u.inodeSector n = u.inodePlace n % 2 ^ 32 := by
  unfold Volume.inodeSector Volume.inodePlace add32
  rw [Nat.mod_add_mod]

end

/-! ## Mounted filesystems -/

/-- The filesystem at `m`, with all its structures in use, is the one of the partition at `part` with the bytes `v`. -/
structure MountedFrom (v : Image) (part : Nat) (s : Vfs) (m : Nat) : Prop where
  used : (m, .mntp) ∈ s.blocks
  fs_data : ((s.mntps m).fs_data, .ext2fs) ∈ s.blocks
  table_used : ((s.fsinfos (s.mntps m).fs_data).group_descriptors, .gdt) ∈ s.blocks
  table : (s.fsinfos (s.mntps m).fs_data).group_descriptors ≠ 0
  part : (s.volume m).part = part
  copies : (s.volume m).Copies v.volume

/-- The bytes of the partition `p` of one of the disks. -/
def imageOf (disks : Nat → Nat → UInt8) (p : Disks.HdStruct) : Image := ⟨disks p.bd, p.sect_offset * IO_BLOCK_SIZE⟩

section
variable {env : Env} {disks : Nat → Nat → UInt8} {p : Disks.HdStruct} {part m n : Nat} {s t : Vfs} {v : Image}

theorem MountedFrom.outlives (h : MountedFrom v part s m) (ho : Outlives s t) : MountedFrom v part t m := by
  have hm : t.mntps m = s.mntps m := ho.mntps m h.used
  have hf : t.fsinfos (t.mntps m).fs_data = s.fsinfos (s.mntps m).fs_data := by
    rw [hm]
    exact ho.fsinfos _ h.fs_data
  have hv : t.volume m = s.volume m := by
    unfold Vfs.volume
    rw [hf, ho.gdts _ h.table h.table_used]
  refine ⟨ho.blocks _ _ (by decide) h.used, ?_, ?_, ?_, ?_, ?_⟩
  · rw [hm]
    exact ho.blocks _ _ (by decide) h.fs_data
  · rw [hf]
    exact ho.blocks _ _ (by decide) h.table_used
  · rw [hf]
    exact h.table
  · rw [hv]
    exact h.part
  · rw [hv]
    exact h.copies

/-- The read for an inode that the image names. -/
theorem MountedFrom.inodeRequest (h : MountedFrom v part s m) (hc : Confined v p) (hp : s.parts part = p)
    (hsig : signature v.superblock = 0xef53) (hn : v.Named n) (hs : (s.volume m).Serves n) :
    ReadsPlace v p (s.inodeRequest m n) := by
  unfold Vfs.inodeRequest
  rw [h.part, Volume.inodeSector_eq, h.copies.inodePlace]
  exact hc.request (.inode hsig hn ((h.copies.serves n).1 hs)) Nat.one_pos hp

/-- The sectors of a place are read from where the image has them. -/
theorem Confined.diskBytes (hc : Confined (imageOf disks p) p) {first k : Nat}
    (hplace : (imageOf disks p).Place first k) (hk : 0 < k) (hp : s.parts part = p) :
    Fs.diskBytes (disks (s.request part k (first % 2 ^ 32)).bd)
      ((s.request part k (first % 2 ^ 32)).lba * IO_BLOCK_SIZE) (k * IO_BLOCK_SIZE) =
        (imageOf disks p).sectorBytes first k := by
  rw [hc.request_eq hplace hk hp]
  dsimp only
  rw [Nat.add_mul]
  rfl

theorem MountedFrom.fetched (h : MountedFrom (imageOf disks p) part s m) (hc : Confined (imageOf disks p) p)
    (hp : s.parts part = p) (hsig : signature (imageOf disks p).superblock = 0xef53) (hn : (imageOf disks p).Named n)
    (hs : (s.volume m).Serves n) : s.fetched disks m n = (imageOf disks p).inodeBytes n := by
  have hserves := (h.copies.serves n).1 hs
  have hbytes := hc.diskBytes (.inode hsig hn hserves) Nat.one_pos hp
  have hone : 1 * IO_BLOCK_SIZE = IO_BLOCK_SIZE := Nat.one_mul _
  unfold Vfs.fetched Vfs.inodeRequest Image.inodeBytes
  rw [h.part, Volume.inodeSector_eq, h.copies.inodePlace, h.copies.inodeOffset, h.copies.fields.2.2, ← hbytes, hone]

/-! ## The block of a directory -/

/-- A block is made of whole sectors. -/
theorem Image.sectors_mul (v : Image) : v.volume.sectors * IO_BLOCK_SIZE = v.blockSize := by
  have hdvd : IO_BLOCK_SIZE ∣ v.blockSize := by
    unfold Image.blockSize block_size_of
    refine (Nat.dvd_mod_iff (by decide)).2 ?_
    exact Dvd.dvd.mul_right (by decide) _
  have hblock : v.volume.block_size = v.blockSize := by simp only [Image.volume]
  unfold Volume.sectors
  rw [hblock, Nat.div_mul_cancel hdvd]

theorem Image.sectors_pos (h0 : v.blockSize ≠ 0) : 0 < v.volume.sectors :=
  Nat.pos_of_ne_zero fun h => h0 (by rw [← v.sectors_mul, h, Nat.zero_mul])

theorem Image.directoryBlock_length (v : Image) (n : Nat) : (v.directoryBlock n).length = v.blockSize := by
  unfold Image.directoryBlock Image.sectorBytes
  rw [diskBytes_length, v.sectors_mul]

theorem Image.inodeBytes_length (hs : v.volume.Serves n) : (v.inodeBytes n).length = inode_size v.superblock := by
  have hle := v.volume.inodeOffset_le n hs.small
  rw [v.volume_superblock] at hle
  unfold Image.inodeBytes Image.sectorBytes
  rw [List.length_take, List.length_drop, diskBytes_length]
  omega

/-- The number of the first block is read from the disk, whatever was in memory. -/
theorem Confined.i_block (hc : Confined v p) (hsig : signature v.superblock = 0xef53) (hs : v.volume.Serves n)
    (old : List UInt8) : Fs.i_block (overwrite old (v.inodeBytes n)) 0 = Fs.i_block (v.inodeBytes n) 0 := by
  have hlen := Image.inodeBytes_length hs
  have hsized := hc.sized hsig
  exact le32_append (by omega)

/-- The inode at `inode` is inode `n` of the image, a directory. -/
structure HoldsDirectory (v : Image) (s : Vfs) (inode n : Nat) : Prop where
  directory : v.Directory n
  serves : v.volume.Serves n
  bytes : ∃ old, s.inodes inode = overwrite old (v.inodeBytes n)

section
variable {inode : Nat}

theorem HoldsDirectory.blockRequest_eq (hi : HoldsDirectory v s inode n) (h : MountedFrom v part s m)
    (hc : Confined v p) (hsig : signature v.superblock = 0xef53) :
    s.blockRequest (s.fsinfos (s.mntps m).fs_data) inode =
      s.request part v.volume.sectors (v.blockPlace n % 2 ^ 32) := by
  obtain ⟨old, hold⟩ := hi.bytes
  have hpart : (s.fsinfos (s.mntps m).fs_data).part = part := h.part
  have hsectors : (s.fsinfos (s.mntps m).fs_data).block_size / IO_BLOCK_SIZE = v.volume.sectors := h.copies.sectors
  unfold Vfs.blockRequest Image.blockPlace
  rw [hold, hc.i_block hsig hi.serves, hpart, hsectors]

/-- The read of the first block. -/
theorem HoldsDirectory.blockRequest (hi : HoldsDirectory v s inode n) (h : MountedFrom v part s m)
    (hc : Confined v p) (hp : s.parts part = p) (hsig : signature v.superblock = 0xef53) (h0 : v.blockSize ≠ 0) :
    ReadsPlace v p (s.blockRequest (s.fsinfos (s.mntps m).fs_data) inode) := by
  rw [hi.blockRequest_eq h hc hsig]
  exact hc.request (.block hsig hi.directory hi.serves) (Image.sectors_pos h0) hp

/-- What is in the buffer after it. -/
theorem HoldsDirectory.firstBlock (hi : HoldsDirectory (imageOf disks p) s inode n)
    (h : MountedFrom (imageOf disks p) part s m) (hc : Confined (imageOf disks p) p) (hd : env.Delivers disks)
    (hp : s.parts part = p) (hsig : signature (imageOf disks p).superblock = 0xef53)
    (h0 : (imageOf disks p).blockSize ≠ 0)
    (hr : 0 ≤ (env.firstReply s (s.fsinfos (s.mntps m).fs_data) inode).ret) :
    env.firstBlock s (s.fsinfos (s.mntps m).fs_data) inode = (imageOf disks p).directoryBlock n := by
  have hplace : (imageOf disks p).Place _ _ := .block hsig hi.directory hi.serves
  have hbytes := hc.diskBytes hplace (Image.sectors_pos h0) hp
  have hreply : env.firstReply s (s.fsinfos (s.mntps m).fs_data) inode =
      env.reply s.reads.length (s.blockRequest (s.fsinfos (s.mntps m).fs_data) inode) := rfl
  have hsize : (s.fsinfos (s.mntps m).fs_data).block_size = (imageOf disks p).blockSize := by
    have := h.copies.block_size
    simp only [Image.volume] at this
    exact this
  rw [hreply] at hr
  unfold Env.firstBlock
  rw [hreply, hd.reply hr, hi.blockRequest_eq h hc hsig]
  refine (overwrite_full ?_).trans hbytes
  rw [diskBytes_length, List.length_map, List.length_range, hsize, ← Image.sectors_mul]
  exact le_refl _

end

/-! ## Reading an inode -/

/-- There is no filesystem, or the one of the image, and inode `n` is one the image names. -/
structure MayRead (v : Image) (part : Nat) (s : Vfs) (m n : Nat) : Prop where
  mounted : m = 0 ∨ MountedFrom v part s m
  signature : signature v.superblock = 0xef53
  named : v.Named n

/-- The state after the inode of the entry `e` was asked for. -/
structure Asked (v : Image) (p : Disks.HdStruct) (s : Vfs) (e : Nat) (t : Vfs) : Prop where
  payload : PayloadOnly s e t
  reads : t.ReadsPlaces v p

section
variable {e q : Nat}

theorem MayRead.request (h : MayRead v part s m n) (hm : m ≠ 0) (hc : Confined v p) (hp : s.parts part = p)
    (hs : (s.volume m).Serves n) : ReadsPlace v p (s.inodeRequest m n) :=
  (h.mounted.resolve_left hm).inodeRequest hc hp h.signature h.named hs

theorem asked_indifferent (env : Env) : Indifferent env e (Asked v p s e) where
  copied t a b h := ⟨(payloadOnly_indifferent env s e).copied t a b h.payload, h.reads.of_reads rfl⟩
  allocated t a h :=
    ⟨(payloadOnly_indifferent env s e).allocated t a h.payload, h.reads.of_reads (allocated_reads ..)⟩
  freed t a h := ⟨(payloadOnly_indifferent env s e).freed t a h.payload, h.reads.of_reads rfl⟩
  locked t h := ⟨(payloadOnly_indifferent env s e).locked t h.payload, h.reads.of_reads rfl⟩
  payload t a h := ⟨(payloadOnly_indifferent env s e).payload t a h.payload, h.reads.of_reads rfl⟩

/-- `fetch_inode` reads the sector the image has the inode in, if any. -/
theorem fetch_inode_isolated (hd : env.Delivers disks) (hc : Confined (imageOf disks p) p) (hp : s.parts part = p)
    (h : MayRead (imageOf disks p) part s m n) :
    Sat (Asked (imageOf disks p) p s e) (fetch_inode env n m q)
      (fun error t => Asked (imageOf disks p) p s e t ∧ (0 ≤ error → (imageOf disks p).volume.Serves n ∧
        ∃ old, t.inodes q = overwrite old ((imageOf disks p).inodeBytes n)))
      (fun _ t => t.ReadsPlaces (imageOf disks p) p) := by
  by_cases hm : m = 0
  · subst hm
    exact .bind (Q := fun _ _ => False) (.ite (fun _ => .fault fun _ ht => ht.reads) fun h0 => absurd rfl h0)
      fun mnt t ht => ht.elim
  have hmounted := h.mounted.resolve_left hm
  -- the read, and what is known behind it
  have hasked : ∀ t, Asked (imageOf disks p) p s e t → (t.volume m).Serves n →
      Asked (imageOf disks p) p s e (t.asked (t.inodeRequest m n)) := by
    intro t ht hs
    have hsame := ht.payload.sameVolumes
    rw [hsame.volume] at hs
    refine ⟨ht.payload.asked _, ht.reads.asked ?_⟩
    rw [hsame.inodeRequest]
    exact h.request hm hc hp hs
  refine fetch_inode_sat (fun t ht _ => ⟨ht, fun hr => absurd hr (by decide)⟩) (fun t ht hs hr => ?_)
    (fun t ht hs hr _ _ _ => ?_) (fun _ _ ht => ht.reads) (fun _ t ht hs => (hasked t ht hs).reads)
  · exact ⟨hasked t ht hs, fun h0 => absurd hr (Int.not_lt.2 h0)⟩
  · refine ⟨(asked_indifferent env).copied _ q _ (hasked t ht hs), fun _ => ?_⟩
    have hsame := ht.payload.sameVolumes
    rw [hsame.volume] at hs
    refine ⟨(hmounted.copies.serves n).1 hs, t.inodes q, ?_⟩
    rw [inodeBytes_fetched hd hr, hsame.fetched, hmounted.fetched hc hp h.signature h.named hs]
    exact Function.update_self ..

/-- `direntry_get_inode` comes back with the inode the image has, or with none. -/
theorem direntry_get_inode_isolated (hd : env.Delivers disks) (hc : Confined (imageOf disks p) p)
    (hp : s.parts part = p)
    (h : MayRead (imageOf disks p) part s (s.dirs (s.direntries e).parent).fs_info (s.direntries e).inode_no) :
    Sat (Asked (imageOf disks p) p s e) (direntry_get_inode env e)
      (fun inode t => Asked (imageOf disks p) p s e t ∧ (inode ≠ 0 →
        (imageOf disks p).volume.Serves (s.direntries e).inode_no ∧
        ∃ old, t.inodes inode = overwrite old ((imageOf disks p).inodeBytes (s.direntries e).inode_no)))
      (fun _ t => t.ReadsPlaces (imageOf disks p) p) := by
  have hkept : Indifferent env e (Asked (imageOf disks p) p s e) := asked_indifferent env
  have hE : ∀ (_ : Fault) t, Asked (imageOf disks p) p s e t → t.ReadsPlaces (imageOf disks p) p :=
    fun _ _ ht => ht.reads
  refine .bind (Q := fun _ => Asked (imageOf disks p) p s e) (alloc_inode_sat ?_ ?_ hE) fun _ => ?_
  · exact fun t ht _ _ => ht
  · intro t ht _ _
    have := hkept.payload _ (env.kmalloc t.kmallocs t.blocks 128)
      (hkept.allocated t (env.kmalloc t.kmallocs t.blocks 128) ht)
    rwa [allocated_direntries] at this
  -- the number and the parent of the entry are those of `s`
  refine .bind (Q := fun d t => (d.inode_no = (s.direntries e).inode_no ∧ d.parent = (s.direntries e).parent) ∧
    Asked (imageOf disks p) p s e t) ((load_direntry_sat hE).post ?_) fun d => .fact fun hentry => ?_
  · rintro _ t ⟨-, rfl, ht⟩
    obtain ⟨r, hr⟩ := ht.payload.direntries
    rw [hr, Function.update_self]
    exact ⟨⟨rfl, rfl⟩, ht⟩
  rw [hentry.1, hentry.2]
  refine .bind (Q := fun dir t => dir = s.dirs (s.direntries e).parent ∧ Asked (imageOf disks p) p s e t)
    ((load_dir_sat hE).post ?_) fun dir => .fact fun hdir => ?_
  · rintro _ t ⟨-, rfl, ht⟩
    rw [ht.payload.dirs]
    exact ⟨rfl, ht⟩
  subst hdir
  refine .bind (fetch_inode_isolated hd hc hp h) fun error => .ite (fun hneg => ?_) fun hneg => .pure fun t ht =>
    ⟨ht.1, fun _ => ht.2 (Int.not_lt.1 hneg)⟩
  refine .bind (Q := fun _ => Asked (imageOf disks p) p s e) (kfree_sat ?_ ?_ fun _ _ ht => ht.1.reads) fun _ => ?_
  · exact fun t ht _ _ => hkept.locked t ht.1
  · exact fun t ht _ _ _ => hkept.freed t _ ht.1
  · refine .bind (Q := fun _ => Asked (imageOf disks p) p s e)
      (store_direntry_sat (fun t ht _ => hkept.payload t 0 ht) hE) fun _ => .pure fun t ht => ⟨ht, ?_⟩
    exact fun h0 => absurd rfl h0

end

end

/-! ## What asks the devices for nothing -/

/-- `x` makes no reads, whatever comes of it. -/
def Silent {α : Type} (x : Prog Vfs α) : Prop := ∀ reads,
  Sat (fun s => s.reads = reads) x (fun _ s => s.reads = reads) fun _ s => s.reads = reads

namespace Silent
variable {α β : Type} {env : Env}

theorem pure (a : α) : Silent (Pure.pure a) := fun _ => .pure fun _ h => h

theorem bind {x : Prog Vfs α} {f : α → Prog Vfs β} (hx : Silent x) (hf : ∀ a, Silent (f a)) : Silent (x >>= f) :=
  fun reads => .bind (hx reads) fun a => hf a reads

theorem ite {c : Prop} [Decidable c] {x y : Prog Vfs α} (hx : Silent x) (hy : Silent y) :
    Silent (if c then x else y) :=
  fun reads => .ite (fun _ => hx reads) fun _ => hy reads

theorem load_dir (a : Nat) : Silent (load_dir a) := fun _ => (load_dir_sat fun _ _ h => h).post fun _ _ h => h.2.2

theorem load_direntry (a : Nat) : Silent (load_direntry a) :=
  fun _ => (load_direntry_sat fun _ _ h => h).post fun _ _ h => h.2.2

theorem load_inode (a : Nat) : Silent (load_inode a) := fun _ => (load_inode_sat fun _ _ h => h).post fun _ _ h => h.2

theorem store_dir (a : Nat) (f : DirStruct → DirStruct) : Silent (store_dir a f) :=
  fun _ => store_dir_sat (fun _ h _ => h) fun _ _ h => h

theorem store_direntry (a : Nat) (f : DirentryStruct → DirentryStruct) : Silent (store_direntry a f) :=
  fun _ => store_direntry_sat (fun _ h _ => h) fun _ _ h => h

theorem store_fsinfo (a : Nat) (f : Ext2fsStruct → Ext2fsStruct) : Silent (store_fsinfo a f) :=
  fun _ => store_fsinfo_sat (fun _ h _ => h) fun _ _ h => h

theorem store_mntp (a : Nat) (f : MntpStruct → MntpStruct) : Silent (store_mntp a f) :=
  fun _ => store_mntp_sat (fun _ h _ => h) fun _ _ h => h

theorem store_gdt (a : Nat) (bytes : List UInt8) : Silent (store_gdt a bytes) :=
  fun _ => store_gdt_sat (fun _ h => h) (fun _ h _ => h) fun _ _ h => h

theorem nextPtr_store (last : NextPtr) (a : Nat) : Silent (last.store a) :=
  fun _ => NextPtr.store_sat (fun s h => by cases last <;> exact h) fun _ _ h => h

theorem kmalloc (size : Nat) (kind : Kind) : Silent (kmalloc env size kind) :=
  fun _ => kmalloc_sat (fun s h => (allocated_reads s _ kind).trans h) fun _ _ h => h

theorem kfree (a : Nat) (kind : Kind) : Silent (kfree a kind) :=
  fun _ => kfree_sat (fun _ h _ _ => h) (fun _ h _ _ _ => h) fun _ _ h => h

theorem set_directory (dir e file_type : Nat) : Silent (set_directory env dir e file_type) := by
  refine .ite ?_ (.pure _)
  refine .bind (load_direntry _) fun entry => .bind (load_dir _) fun d => .ite ?_ ?_
  · exact .bind (load_direntry _) fun own => store_direntry _ _
  · refine .bind (load_dir _) fun parent => .ite ?_ ?_
    · exact .bind (load_direntry _) fun own => store_direntry _ _
    · exact .bind (kmalloc _ _) fun q => .bind (store_direntry _ _) fun _ => store_dir _ _

theorem no_mount (f m : Nat) (error : Int) : Silent (no_mount f m error) :=
  .bind (kfree _ _) fun _ => .bind (kfree _ _) fun _ => .pure _

theorem no_mount_free_gdt (g f m : Nat) (error : Int) : Silent (no_mount_free_gdt g f m error) :=
  .bind (kfree _ _) fun _ => no_mount _ _ _

/-- What is known of the reads outlives it. -/
theorem keeps {x : Prog Vfs α} (h : Silent x) (v : Image) (p : Disks.HdStruct) :
    Sat (fun s => s.ReadsPlaces v p) x (fun _ s => s.ReadsPlaces v p) fun _ s => s.ReadsPlaces v p :=
  fun s hs => ⟨fun a t ha => hs.of_reads ((h s.reads s rfl).1 a t ha),
    fun e t he => hs.of_reads ((h s.reads s rfl).2 e t he)⟩

/-- So it does beside what else is known of `x`. -/
theorem sat {P : Vfs → Prop} {Q : α → Vfs → Prop} {E : Fault → Vfs → Prop} {x : Prog Vfs α} (h : Silent x)
    (hx : Sat P x Q E) (v : Image) (p : Disks.HdStruct) :
    Sat (fun s => P s ∧ s.ReadsPlaces v p) x (fun a s => Q a s ∧ s.ReadsPlaces v p) fun _ s => s.ReadsPlaces v p :=
  fun s hs => ⟨fun a t ha => ⟨(hx s hs.1).1 a t ha, (h.keeps v p s hs.2).1 a t ha⟩, (h.keeps v p s hs.2).2⟩

end Silent

/-! ## Loading -/

section
variable {env : Env} {disks : Nat → Nat → UInt8} {p : Disks.HdStruct} {part dir e i : Nat} {s t : Vfs} {v : Image}
  {blk : List UInt8}

theorem Asked.refl (h : s.ReadsPlaces v p) (e : Nat) : Asked v p s e s := ⟨.refl s e, h⟩

/-- The entry `e` can be looked up. -/
structure Lookup (v : Image) (p : Disks.HdStruct) (part e : Nat) (s : Vfs) : Prop where
  parts : s.parts part = p
  mayRead : MayRead v part s (s.dirs (s.direntries e).parent).fs_info (s.direntries e).inode_no
  reads : s.ReadsPlaces v p

theorem get_direntry_isolated (hd : env.Delivers disks) (hc : Confined (imageOf disks p) p) :
    Sat (Lookup (imageOf disks p) p part e) (get_direntry env e) (fun _ s => s.ReadsPlaces (imageOf disks p) p)
      (fun _ s => s.ReadsPlaces (imageOf disks p) p) := by
  have hE : ∀ (_ : Fault) s, Lookup (imageOf disks p) p part e s → s.ReadsPlaces (imageOf disks p) p :=
    fun _ _ h => h.reads
  refine .bind (assert_keeps (.pure fun _ h => h) hE) fun _ => .bind (assert_keeps ?_ hE) fun _ => ?_
  · refine .bind ((load_direntry_sat hE).post fun _ _ h => h.2.2) fun d => ?_
    exact .bind ((load_dir_sat hE).post fun _ _ h => h.2.2) fun q => .pure fun _ h => h
  refine .bind (Q := fun _ s => s.ReadsPlaces (imageOf disks p) p) ?_ fun inode => ?_
  · intro s hs
    obtain ⟨hok, herror⟩ := direntry_get_inode_isolated hd hc hs.parts hs.mayRead s (.refl hs.reads e)
    exact ⟨fun a t ha => (hok a t ha).1.reads, herror⟩
  refine .ite (fun _ => .pure fun _ h => h) fun _ => ?_
  refine Silent.keeps (.bind (.load_inode inode) fun bytes => ?_) _ _
  exact .bind (.store_direntry _ _) fun _ => .pure _

/-- The directory `dir` belongs to a mount of the partition. -/
structure OnPartition (v : Image) (p : Disks.HdStruct) (part : Nat) (s : Vfs) (dir : Nat) : Prop where
  parts : s.parts part = p
  anchored : Anchored s dir
  mounted : MountedFrom v part s (s.dirs dir).fs_info
  signature : signature v.superblock = 0xef53

/-- The list of `dir` has got a new start or new entries since `s`, and nothing was read but places. -/
structure Extended (v : Image) (p : Disks.HdStruct) (s : Vfs) (dir x : Nat) (t : Vfs) : Prop where
  grown : Grown s dir x t
  reads : t.ReadsPlaces v p

theorem OnPartition.extended {x : Nat} (h : OnPartition v p part s dir) (ht : Grown s dir x t) :
    OnPartition v p part t dir where
  parts := by rw [ht.parts, h.parts]
  anchored := ht.anchored h.anchored
  mounted := by
    have hinfo : (t.dirs dir).fs_info = (s.dirs dir).fs_info := by rw [ht.dir]
    rw [hinfo]
    exact h.mounted.outlives ht.outlives
  signature := h.signature

/-- The entry made of a record can be looked up. -/
theorem OnPartition.lookup {x file_type : Nat} {w : DirentryStruct} (h : OnPartition v p part s dir)
    (ht : Directed s dir x e file_type w t) (hreads : t.ReadsPlaces v p) (hparent : w.parent = dir)
    (hn : v.Named w.inode_no) : Lookup v p part e t := by
  obtain ⟨d, ⟨hg, -, -⟩, hsame⟩ := ht
  have hp : (t.direntries e).parent = dir := hsame.parent.trans hparent
  have hno : (t.direntries e).inode_no = w.inode_no := hsame.inode_no
  have hext := h.extended hg
  refine ⟨hext.parts, ⟨.inr ?_, h.signature, hno ▸ hn⟩, hreads⟩
  rw [hp]
  exact hext.mounted

/-- A record with a number that the image names is loaded without a read elsewhere. -/
theorem load_record_isolated (hf : FreshBlocks env) (hd : env.Delivers disks) (hc : Confined (imageOf disks p) p)
    (h : OnPartition (imageOf disks p) p part s dir) (hn : (imageOf disks p).Named (recordAt blk i).inode) :
    Sat (fun t => t = s ∧ t.ReadsPlaces (imageOf disks p) p) (load_record env dir blk i)
      (fun _ t => t.ReadsPlaces (imageOf disks p) p) fun _ t => t.ReadsPlaces (imageOf disks p) p := by
  rw [load_record_eq]
  refine .bind (Q := fun e t => (Grown s dir (s.dirs dir).entries t ∧
    (e ≠ 0 → (e, .direntry) ∉ s.blocks ∧ (e, .direntry) ∈ t.blocks)) ∧ t.ReadsPlaces (imageOf disks p) p) ?_
    fun e => ?_
  · refine (Silent.kmalloc 292 .direntry).sat ((kmalloc_grown hf (by decide)).pre ?_) _ _
    rintro _ rfl
    exact Grown.refl _ dir
  refine .ite (fun _ => ?_) fun _ => .fault fun _ ht => ht.2
  refine .bind (Q := fun _ t => t.ReadsPlaces (imageOf disks p) p) ?_ fun _ => .pure fun _ ht => ht
  -- the entry with what the record says of it
  refine .bind (Q := fun _ t => (e ≠ 0 ∧ (e, .direntry) ∉ s.blocks) ∧ ∃ old : DirentryStruct,
    Holds s dir (s.dirs dir).entries e { old with
      name := overwrite old.name (nameAt blk i ++ [0]),
      inode_no := (recordAt blk i).inode, parent := dir, directory := 0 } t ∧ t.ReadsPlaces (imageOf disks p) p)
    (store_direntry_sat (fun t ht he => ?_) fun _ _ ht => ht.2) fun _ => .fact fun he => .of_exists fun old => ?_
  · obtain ⟨⟨hg, hnew⟩, hreads⟩ := ht
    obtain ⟨hfresh, hused⟩ := hnew he
    exact ⟨⟨he, hfresh⟩, t.direntries e, ⟨hg.store hfresh _, hused, Function.update_self ..⟩, hreads.of_reads rfl⟩
  refine .bind ((Silent.set_directory dir e (recordAt blk i).file_type).sat
    (set_directory_made hf h.anchored he.2 rfl) _ _) fun _ => ?_
  -- in the debug build its inode is read
  refine .ite (fun _ => .bind (Q := fun _ t => t.ReadsPlaces (imageOf disks p) p) ?_ fun b =>
    .ite (fun _ => .pure fun _ ht => ht) fun _ => .fault fun _ ht => ht) fun _ => .pure fun _ ht => ht.2
  have hentry : Sat (Lookup (imageOf disks p) p part e) (get_direntry env e) _ _ := get_direntry_isolated hd hc
  exact .bind (hentry.pre fun t ht => h.lookup ht.1 ht.2 rfl hn) fun r => .pure fun _ ht => ht

/-- The next pointer of `dir` itself, or of an entry that is not one of `s`. -/
def NewNext (s : Vfs) (dir : Nat) : NextPtr → Prop
  | .entries d => d = dir
  | .next e => (e, .direntry) ∉ s.blocks

theorem Extended.stored {x : Nat} (h : Extended v p s dir x t) {last : NextPtr} (hl : NewNext s dir last) (e : Nat) :
    ∃ y, Extended v p s dir y (last.stored e t) := by
  cases last with
  | entries d =>
    obtain rfl : d = dir := hl
    exact ⟨e, h.grown.start e, h.reads.of_reads rfl⟩
  | next a => exact ⟨x, h.grown.store hl _, h.reads.of_reads rfl⟩

/-- One record more. -/
theorem Extended.record {x : Nat} (ht : Extended (imageOf disks p) p s dir x t) (hf : FreshBlocks env)
    (hd : env.Delivers disks) (hc : Confined (imageOf disks p) p) (h : OnPartition (imageOf disks p) p part s dir)
    (hn : (imageOf disks p).Named (recordAt blk i).inode) :
    Sat (fun u => u = t) (load_record env dir blk i)
      (fun ei u => (ei.2 = nextRecord blk i ∧ (ei.1, .direntry) ∉ s.blocks) ∧
        ∃ y, Extended (imageOf disks p) p s dir y u)
      fun _ u => u.ReadsPlaces (imageOf disks p) p := by
  have hmade : Sat (fun u => u = t) (load_record env dir blk i) _ stopped :=
    load_record_made hf (ht.grown.anchored h.anchored)
  have hreads := load_record_isolated hf hd hc (h.extended ht.grown) hn
  rintro _ rfl
  refine ⟨fun ei u hu => ?_, (hreads _ ⟨rfl, ht.reads⟩).2⟩
  obtain ⟨hg, hm, hnext⟩ := (hmade _ rfl).1 ei u hu
  refine ⟨⟨hnext, fun he => hm.fresh (ht.grown.blocks _ _ (by decide) he)⟩, _, ht.grown.trans hg, ?_⟩
  exact (hreads _ ⟨rfl, ht.reads⟩).1 ei u hu

/-- The loop over the records of a block whose numbers the image names. -/
theorem loop_isolated (hf : FreshBlocks env) (hd : env.Delivers disks) (hc : Confined (imageOf disks p) p)
    (h : OnPartition (imageOf disks p) p part s dir) {f inode : Nat} (hbs : (s.fsinfos f).block_size = blk.length)
    (hn : ∀ i, ReachedFrom blk 0 i → i < blk.length → (imageOf disks p).Named (recordAt blk i).inode) :
    ∀ (fuel i block : Nat) (last : NextPtr), ReachedFrom blk 0 i → NewNext s dir last →
      Sat (fun t => ∃ x, Extended (imageOf disks p) p s dir x t)
        (ext2_get_direntries_loop env dir f inode fuel i false block blk last)
        (fun _ t => t.ReadsPlaces (imageOf disks p) p) fun _ t => t.ReadsPlaces (imageOf disks p) p := by
  have hE : ∀ (_ : Fault) t, (∃ x, Extended (imageOf disks p) p s dir x t) → t.ReadsPlaces (imageOf disks p) p :=
    fun _ _ ⟨_, ht⟩ => ht.reads
  intro fuel
  induction fuel with
  | zero => exact fun _ _ _ _ _ => .fault (hE .diverges)
  | succ fuel ih =>
    intro i block last hreach hl
    refine .bind (Q := fun fs t => fs.block_size = blk.length ∧ ∃ x, Extended (imageOf disks p) p s dir x t)
      ((load_fsinfo_sat hE).post ?_) fun fs => .fact fun hfs => ?_
    · rintro _ t ⟨-, rfl, x, ht⟩
      rw [ht.grown.fsinfos]
      exact ⟨hbs, x, ht⟩
    rw [hfs]
    refine .ite (fun hi => ?_) fun _ => ?_
    · rw [next_block_old, pure_bind]
      dsimp only
      refine .bind (Q := fun ei t => (ei.2 = nextRecord blk i ∧ (ei.1, .direntry) ∉ s.blocks) ∧
        ∃ x, Extended (imageOf disks p) p s dir x t) ?_ fun ei => .fact fun hei => ?_
      · rintro t ⟨x, ht⟩
        exact ht.record hf hd hc h (hn i hreach hi) t rfl
      refine .bind (Q := fun _ t => ∃ x, Extended (imageOf disks p) p s dir x t) (NextPtr.store_sat ?_ hE) fun _ => ?_
      · rintro t ⟨x, ht⟩
        exact ht.stored hl ei.1
      · refine ih ei.2 block (.next ei.1) (hreach.tail ⟨hi, hei.1⟩) hei.2
    · refine .bind (Q := fun _ t => ∃ x, Extended (imageOf disks p) p s dir x t) (NextPtr.store_sat ?_ hE) fun _ =>
        .pure fun _ ⟨_, ht⟩ => ht.reads
      rintro t ⟨x, ht⟩
      exact ht.stored hl 0

/-- The loop with the read of the block in front of it. -/
theorem block_isolated (hf : FreshBlocks env) (hd : env.Delivers disks) (hc : Confined (imageOf disks p) p)
    (h : OnPartition (imageOf disks p) p part s dir) (hreads : s.ReadsPlaces (imageOf disks p) p) {f inode n fuel : Nat}
    (hi : inode ≠ 0 → HoldsDirectory (imageOf disks p) s inode n) (hfs : (s.mntps (s.dirs dir).fs_info).fs_data = f) :
    (ext2_get_direntries_loop env dir f inode (fuel + 1) 0 true 0
      ((List.range (s.fsinfos f).block_size).map (env.stack s.reads.length)) (.entries dir) s).2.ReadsPlaces
        (imageOf disks p) p := by
  by_cases hf0 : f = 0
  · subst hf0
    exact hreads
  by_cases h0 : 0 < (s.fsinfos f).block_size
  · by_cases hready : inode ≠ 0 ∧ (inode, .inode) ∈ s.blocks ∧ Attached s (s.fsinfos f).part
    · obtain ⟨hne, hlive, hattached⟩ := hready
      have hholds := hi hne
      have hsize : (s.fsinfos f).block_size = (imageOf disks p).blockSize := by
        have := h.mounted.copies.block_size
        simp only [Image.volume] at this
        rw [← hfs]
        exact this
      have hblock : (imageOf disks p).blockSize ≠ 0 := by omega
      have hplace := hholds.blockRequest h.mounted hc h.parts h.signature hblock
      rw [hfs] at hplace
      by_cases hr : (env.firstReply s (s.fsinfos f) inode).ret < 0
      · rw [loop_fails _ _ hf0 h0 hne hlive hattached hr]
        exact hreads.asked hplace
      · have hr := Int.not_lt.1 hr
        -- the buffer is the block of the image
        have hblk := hholds.firstBlock h.mounted hc hd h.parts h.signature hblock (by rwa [← hfs] at hr)
        rw [hfs, Env.firstBlock] at hblk
        rw [loop_read hf0 h0 (next_block_run _ hne hlive hattached hr) rfl, hblk]
        have hg : Grown s dir (s.dirs dir).entries (s.asked (s.blockRequest (s.fsinfos f) inode)) :=
          (Grown.refl s dir).asked _
        refine (loop_isolated hf hd hc (h.extended hg) (hsize.trans ((imageOf disks p).directoryBlock_length n).symm)
          (fun i hreach hlt => ?_) (fuel + 1) 0 1 (.entries dir) .refl rfl).final ⟨_, .refl _ _, hreads.asked hplace⟩
        exact .record hholds.directory hholds.serves hreach hlt
    · obtain ⟨e, he⟩ := next_block_stops env
        ((List.range (s.fsinfos f).block_size).map (env.stack s.reads.length)) hready
      unfold ext2_get_direntries_loop
      rw [bind_of_ok (load_fsinfo_run hf0 s), if_pos h0, bind_of_error he]
      exact hreads
  · -- there is no block
    unfold ext2_get_direntries_loop
    rw [bind_of_ok (load_fsinfo_run hf0 s), if_neg h0]
    exact ((Silent.nextPtr_store (.entries dir) 0).bind fun _ => .pure SUCCESS).keeps _ _ |>.final hreads

/-- The directory `d` belongs to a mount of the partition, its entry to a directory that does so too or to none, and
its number is that of a directory of the image. -/
structure Belongs (v : Image) (part : Nat) (s : Vfs) (d : Nat) : Prop where
  mounted : MountedFrom v part s (s.dirs d).fs_info
  signature : signature v.superblock = 0xef53
  parent : (s.dirs (s.direntries (s.dirs d).dir_entry).parent).fs_info = 0 ∨
    MountedFrom v part s (s.dirs (s.direntries (s.dirs d).dir_entry).parent).fs_info
  directory : v.Directory (s.direntries (s.dirs d).dir_entry).inode_no

/-- A load of a directory that belongs to a mount reads places of the image and nothing else, whatever it comes to. -/
theorem load_isolated (hf : FreshBlocks env) (hd : env.Delivers disks) (hc : Confined (imageOf disks p) p)
    (hp : s.parts part = p) (ha : Anchored s dir) (hreads : s.ReadsPlaces (imageOf disks p) p)
    (hb : (s.dirs dir).fs_info ≠ 0 → Belongs (imageOf disks p) part s dir) :
    (ext2_get_direntries env dir s).2.ReadsPlaces (imageOf disks p) p := by
  by_cases hdir : dir ≠ 0 ∧ (s.dirs dir).fs_info ≠ 0
  · rw [ext2_get_direntries_run env hdir.1 hdir.2]
    by_cases h0 : (s.dirs dir).entries ≠ 0
    · rw [if_pos h0]
      exact hreads
    rw [if_neg h0]
    have hb := hb hdir.2
    have hinode : Sat (Asked (imageOf disks p) p s (s.dirs dir).dir_entry)
        (direntry_get_inode env (s.dirs dir).dir_entry) _ _ :=
      direntry_get_inode_isolated hd hc hp ⟨hb.parent, hb.signature, .directory hb.directory⟩
    refine (Sat.bind hinode fun inode => .of_final fun t ht => ?_).final (.refl hreads _)
    obtain ⟨⟨hpay, ht⟩, hread⟩ := ht
    generalize hfs : (s.mntps (s.dirs dir).fs_info).fs_data = f
    by_cases hf0 : f = 0
    · subst hf0
      exact ht
    rw [bind_of_ok (load_fsinfo_run hf0 t), bind_of_ok (local_array_run env _ t)]
    have hon : OnPartition (imageOf disks p) p part t dir := by
      refine ⟨by rw [hpay.parts, hp], hpay.anchored ha, ?_, hb.signature⟩
      rw [hpay.dirs]
      exact hb.mounted.outlives hpay.outlives
    obtain ⟨fuel, hfuel⟩ : ∃ k, 2 ^ 32 = k + 1 := ⟨2 ^ 32 - 1, by norm_num⟩
    rw [hfuel]
    exact block_isolated hf hd hc hon ht (fun hne => ⟨hb.directory, (hread hne).1, (hread hne).2⟩)
      (by rw [hpay.dirs, hpay.mntps, hfs])
  · obtain ⟨e, he⟩ := ext2_get_direntries_stops env hdir
    rw [he]
    exact hreads

end

/-! ## Mounting -/

section
variable {env : Env} {disks : Nat → Nat → UInt8} {p : Disks.HdStruct} {part mnt_point f m g : Nat} {s t : Vfs}
  {v : Image} {sb : List UInt8}

/-- The superblock is read whole, or not at all. -/
theorem superblock_delivered (hd : env.Delivers disks) (hc : Confined (imageOf disks p) p) (hp : s.parts part = p)
    {i : Nat} (hr : 0 ≤ (env.reply i (s.request part SB_SECT_SIZE SB_SECT_OFFSET)).ret) :
    (env.reply i (s.request part SB_SECT_SIZE SB_SECT_OFFSET)).stored = (imageOf disks p).superblock := by
  have hbytes := hc.diskBytes .superblock (by decide) hp
  rw [hd.reply hr]
  exact hbytes

theorem Confined.superblock_request (hc : Confined v p) (hp : s.parts part = p) :
    ReadsPlace v p (s.request part SB_SECT_SIZE SB_SECT_OFFSET) := hc.request .superblock (by decide) hp

/-- A probe that finds a filesystem has seen the signature. -/
theorem probed_signature (hd : env.Delivers disks) (hc : Confined (imageOf disks p) p) (hp : s.parts part = p)
    (h : ¬ env.probed s part < 0) : signature (imageOf disks p).superblock = 0xef53 := by
  unfold Env.probed at h
  dsimp only at h
  split at h
  · exact absurd (by decide) h
  · rename_i hr
    rw [superblock_delivered hd hc hp (le_trans (Int.natCast_nonneg _) (Int.not_lt.1 hr)), overwrite_full] at h
    · split at h
      · assumption
      · exact absurd (by decide) h
    · rw [Image.superblock_length, List.length_map, List.length_range]

/-- Behind a probe the driver keeps the superblock of the image. -/
theorem readSuperblock_copies (hd : env.Delivers disks) (hc : Confined (imageOf disks p) p) (hp : s.parts part = p)
    (hr : 0 ≤ (env.superblockReply s part).ret) :
    ∃ rest, env.readSuperblock s part = (imageOf disks p).superblock ++ rest := by
  have hstored : (env.superblockReply s part).stored = (imageOf disks p).superblock :=
    superblock_delivered hd hc hp hr
  unfold Env.readSuperblock
  rw [hstored]
  exact ⟨_, rfl⟩

/-- With it the table is where the image has it, and as long. -/
theorem superblock_table (h : ∃ rest, sb = v.superblock ++ rest) :
    gdCount sb = gdCount v.superblock ∧ block_size_of sb = v.blockSize := by
  obtain ⟨rest, hrest⟩ := h
  have hlen := v.superblock_length
  unfold Image.blockSize
  rw [hrest]
  generalize v.superblock = b at hlen
  have htotal : total_blocks (b ++ rest) = total_blocks b := le32_append (by omega)
  have hper : blocks_per_group (b ++ rest) = blocks_per_group b := le32_append (by omega)
  have hlog : block_size_log (b ++ rest) = block_size_log b := le32_append (by omega)
  unfold gdCount block_size_of
  rw [htotal, hper, hlog]
  exact ⟨rfl, rfl⟩

/-- There are descriptors. -/
theorem Confined.table_pos (hc : Confined v p) (hsig : signature v.superblock = 0xef53) :
    0 < gdt_size_sectors (gdCount v.superblock) := by
  have hgroups := hc.groups hsig
  have hcount : gdCount v.superblock = total_blocks v.superblock / blocks_per_group v.superblock + 1 := by
    unfold gdCount
    rw [add32_eq (by omega)]
  unfold gdt_size_sectors
  rw [hcount]
  generalize total_blocks v.superblock / blocks_per_group v.superblock = k at hgroups
  have hio : IO_BLOCK_SIZE = 512 := rfl
  simp only [hio]
  split <;> omega

theorem Confined.table_request (hc : Confined v p) (hp : s.parts part = p) (hsig : signature v.superblock = 0xef53)
    (hsb : ∃ rest, sb = v.superblock ++ rest) : ReadsPlace v p (s.tableRequest part sb) := by
  have hroom := hc.places _ _ (.table hsig)
  have hends := hc.ends
  have hpos := hc.table_pos hsig
  have hplace := hc.request (.table hsig) hpos hp
  rw [Nat.mod_eq_of_lt (by omega)] at hplace
  unfold Vfs.tableRequest
  rw [(superblock_table hsb).1, (superblock_table hsb).2]
  exact hplace

/-- The table is read whole, or not at all. -/
theorem table_delivered (hd : env.Delivers disks) (hc : Confined (imageOf disks p) p) (hp : s.parts part = p)
    (hsig : signature (imageOf disks p).superblock = 0xef53)
    (hsb : ∃ rest, env.readSuperblock s part = (imageOf disks p).superblock ++ rest)
    (hr : 0 ≤ (env.tableReply s part).ret) : (env.tableReply s part).stored = (imageOf disks p).volume.table := by
  have hroom := hc.places _ _ (.table hsig)
  have hends := hc.ends
  have hpos := hc.table_pos hsig
  have hbytes := hc.diskBytes (.table hsig) hpos hp
  rw [Nat.mod_eq_of_lt (by omega)] at hbytes
  unfold Env.tableReply at hr ⊢
  rw [hd.reply hr]
  unfold Vfs.tableRequest
  rw [(superblock_table hsb).1, (superblock_table hsb).2]
  simp only [Image.volume]
  exact hbytes

/-- So there is memory for it. -/
theorem table_stored {a : Nat} (hc : Confined v p) (hsig : signature v.superblock = 0xef53)
    (hstored : (env.tableReply s part).stored = v.volume.table)
    (h : (env.tableReply s part).stored = [] ∨ g ≠ 0 ∧ (env.tableReply s part).stored.length ≤ a) : g ≠ 0 := by
  rcases h with hempty | ⟨hg, -⟩
  · have hpos := hc.table_pos hsig
    have hlen := congrArg List.length (hstored.symm.trans hempty)
    simp only [Image.volume, Image.sectorBytes, diskBytes_length, List.length_nil] at hlen
    have hio : IO_BLOCK_SIZE = 512 := rfl
    rw [hio] at hlen
    omega
  · exact hg

/-- The superblock is read twice, and then the table. -/
theorem tableRead_readsPlaces (hc : Confined v p) (hp : s.parts part = p) (hsig : signature v.superblock = 0xef53)
    (hsb : ∃ rest, env.readSuperblock s part = v.superblock ++ rest) (hreads : s.ReadsPlaces v p) :
    (env.tableRead s part f m g).ReadsPlaces v p :=
  Vfs.ReadsPlaces.asked ((hreads.asked (hc.superblock_request hp)).asked (hc.superblock_request hp))
    (hc.table_request hp hsig hsb)

/-- A filesystem that was mounted is the one of the image. -/
theorem tableRead_mountedFrom (hsb : ∃ rest, env.readSuperblock s part = v.superblock ++ rest)
    (hstored : (env.tableReply s part).stored = v.volume.table) (hg : g ≠ 0) :
    MountedFrom v part ((env.tableRead s part f m g).rooted mnt_point m) m := by
  have hmntp : ((env.tableRead s part f m g).rooted mnt_point m).mntps m = ⟨f, part, .ext2fs⟩ := by
    simp [Vfs.rooted, Env.tableRead, Vfs.tabled, Env.mounting, Vfs.described]
  have hfsinfo : ((env.tableRead s part f m g).rooted mnt_point m).fsinfos f =
      ⟨env.readSuperblock s part, part, block_size_of (env.readSuperblock s part),
        gdCount (env.readSuperblock s part), g⟩ := by
    simp [Vfs.rooted, Env.tableRead, Vfs.tabled, mounting_fsinfos]
  have hblocks : ((env.tableRead s part f m g).rooted mnt_point m).blocks =
      (g, .gdt) :: (m, .mntp) :: (f, .ext2fs) :: s.blocks :=
    tabled_blocks hg (env.mounting s part f m) f (s.tableRequest part (env.readSuperblock s part))
  have hgdt : ((env.tableRead s part f m g).rooted mnt_point m).gdts g = v.volume.table := by
    have hbytes : gdtBytes (env.readSuperblock s part) ≤ v.volume.table.length := by
      unfold gdtBytes
      rw [(superblock_table hsb).1]
      simp only [Image.volume, Image.sectorBytes, diskBytes_length]
      exact Nat.mod_le _ _
    simp only [Vfs.rooted, Env.tableRead, Vfs.tabled, Function.update_self, mounting_fsinfos, hstored]
    exact overwrite_full (by simpa [resize] using hbytes)
  have hvolume : ((env.tableRead s part f m g).rooted mnt_point m).volume m =
      ⟨env.readSuperblock s part, part, block_size_of (env.readSuperblock s part), v.volume.table⟩ := by
    unfold Vfs.volume
    rw [hmntp, hfsinfo, hgdt]
  refine ⟨?_, ?_, ?_, ?_, by rw [hvolume], ?_, ?_, by rw [hvolume]⟩
  · rw [hblocks]
    simp
  · rw [hmntp, hblocks]
    simp
  · rw [hmntp, hfsinfo, hblocks]
    simp
  · rw [hmntp, hfsinfo]
    exact hg
  · rw [hvolume, v.volume_superblock]
    exact hsb
  · rw [hvolume, (superblock_table hsb).2]
    simp only [Image.volume]

/-- Where there is no memory for a mount nothing more is read. -/
theorem mount_superblock_reads (h : ¬ (s.heap_locked = false ∧ env.kmalloc s.kmallocs s.blocks 2048 ≠ 0 ∧
    env.kmalloc (s.kmallocs + 1) ((env.kmalloc s.kmallocs s.blocks 2048, .ext2fs) :: s.blocks) 12 ≠ 0)) :
    (mount_superblock env part mnt_point s).2.reads = s.reads := by
  unfold mount_superblock
  cases hl : s.heap_locked with
  | true => rw [bind_of_error (kmalloc_locked 2048 .ext2fs hl)]
  | false =>
    rw [bind_of_ok (kmalloc_run env 2048 .ext2fs hl)]
    by_cases hf : env.kmalloc s.kmallocs s.blocks 2048 = 0
    · rw [hf]
      rfl
    have hm : env.kmalloc (s.kmallocs + 1) ((env.kmalloc s.kmallocs s.blocks 2048, .ext2fs) :: s.blocks) 12 = 0 := by
      by_contra hm
      exact h ⟨hl, hf, hm⟩
    have hk := kmalloc_run env 12 .mntp (s := { s with
      kmallocs := s.kmallocs + 1
      blocks := (env.kmalloc s.kmallocs s.blocks 2048, .ext2fs) :: s.blocks
      fsinfos := Function.update s.fsinfos (env.kmalloc s.kmallocs s.blocks 2048)
        { s.fsinfos (env.kmalloc s.kmallocs s.blocks 2048) with part := part } }) hl
    rw [hm] at hk
    rw [allocated_of_ne hf, bind_of_ok (store_fsinfo_run hf _ _), bind_of_ok hk]
    rfl

/-- The end of a mount reads what the load reads. -/
theorem mount_tree_isolated (hreads : s.ReadsPlaces v p)
    (hload : (ext2_get_direntries env mnt_point (s.rooted mnt_point m)).2.ReadsPlaces v p) :
    (mount_tree env mnt_point g f m s).2.ReadsPlaces v p := by
  by_cases hd : mnt_point = 0
  · subst hd
    exact hreads
  by_cases he : (s.dirs mnt_point).dir_entry = 0
  · unfold mount_tree
    rw [bind_of_ok (load_dir_run hd s), bind_of_ok (store_dir_run hd _ _), he]
    exact hreads
  rw [mount_tree_run env s g f m hd he]
  refine Sat.final (R := fun t => t.ReadsPlaces v p) (P := fun t => t = s.rooted mnt_point m)
    (.bind (Q := fun _ t => t.ReadsPlaces v p) (.of_final ?_) fun error => ?_) rfl
  · rintro _ rfl
    exact hload
  · refine (Silent.ite (.bind (.store_dir _ _) fun _ => ?_) (.pure _)).keeps v p
    exact .no_mount_free_gdt g f m error

/-- What a mount makes of its mount point belongs to the mount. -/
theorem tableRead_belongs (hfresh : FreshMount s f m g) (hsig : signature v.superblock = 0xef53)
    (hsb : ∃ rest, env.readSuperblock s part = v.superblock ++ rest)
    (hstored : (env.tableReply s part).stored = v.volume.table) (hg : g ≠ 0)
    (hparent : (s.dirs (s.direntries (s.dirs mnt_point).dir_entry).parent).fs_info = 0 ∨
      MountedFrom v part s (s.dirs (s.direntries (s.dirs mnt_point).dir_entry).parent).fs_info) :
    Belongs v part ((env.tableRead s part f m g).rooted mnt_point m) mnt_point := by
  have hmounted : MountedFrom v part ((env.tableRead s part f m g).rooted mnt_point m) m :=
    tableRead_mountedFrom hsb hstored hg
  have hkept : Renumbered s mnt_point ((env.tableRead s part f m g).rooted mnt_point m) :=
    tableRead_rooted hfresh part _
  have hinfo : (((env.tableRead s part f m g).rooted mnt_point m).dirs mnt_point).fs_info = m := by simp [Vfs.rooted]
  have hentry : (((env.tableRead s part f m g).rooted mnt_point m).direntries (s.dirs mnt_point).dir_entry).parent =
      (s.direntries (s.dirs mnt_point).dir_entry).parent := by
    obtain ⟨n, q, hown⟩ := hkept.own
    rw [hown]
  have hnumber : (((env.tableRead s part f m g).rooted mnt_point m).direntries (s.dirs mnt_point).dir_entry).inode_no =
      2 := by
    simp [Vfs.rooted, tableRead_dirs]
  refine ⟨hinfo.symm ▸ hmounted, hsig, ?_, ?_⟩
  · rw [hkept.dir_entry, hentry]
    by_cases hd : (s.direntries (s.dirs mnt_point).dir_entry).parent = mnt_point
    · rw [hd, hinfo]
      exact .inr hmounted
    · rw [hkept.dirs _ hd]
      exact hparent.imp id fun h => h.outlives hkept.outlives
  · rw [hkept.dir_entry, hnumber]
    exact .root

/-- The read of the table, and what comes behind it. -/
theorem mount_table_isolated (hf : FreshBlocks env) (hd : env.Delivers disks) (hc : Confined (imageOf disks p) p)
    (hp : s.parts part = p) (ha : Anchored s mnt_point) (hreads : s.ReadsPlaces (imageOf disks p) p)
    (hsig : signature (imageOf disks p).superblock = 0xef53)
    (hsb : ∃ rest, env.readSuperblock s part = (imageOf disks p).superblock ++ rest)
    (hparent : (s.dirs (s.direntries (s.dirs mnt_point).dir_entry).parent).fs_info = 0 ∨
      MountedFrom (imageOf disks p) part s (s.dirs (s.direntries (s.dirs mnt_point).dir_entry).parent).fs_info)
    (hattached : Attached s part) (hl : s.heap_locked = false) (hf0 : f ≠ 0)
    (hfk : env.kmalloc s.kmallocs s.blocks 2048 = f) (hm0 : m ≠ 0)
    (hmk : env.kmalloc (s.kmallocs + 1) ((f, .ext2fs) :: s.blocks) 12 = m) :
    (mount_table env mnt_point f m (env.mounting s part f m)).2.ReadsPlaces (imageOf disks p) p := by
  have hq := hc.superblock_request hp
  have hmounting : (env.mounting s part f m).ReadsPlaces (imageOf disks p) p := (hreads.asked hq).asked hq
  by_cases hb : blocks_per_group (env.readSuperblock s part) = 0
  · rw [mount_table_panic hf0 (by rw [mounting_fsinfos]; exact hb)]
    exact hmounting
  obtain ⟨g, hgk⟩ : ∃ g, env.kmalloc (s.kmallocs + 2) ((m, .mntp) :: (f, .ext2fs) :: s.blocks)
    (gdtBytes (env.readSuperblock s part)) = g := ⟨_, rfl⟩
  have hfresh := freshMount_of hf hfk hf0 hmk hm0 hgk
  rw [mount_table_mounting env s part mnt_point f m hattached hf0 hl hb hgk]
  have hread : (env.tableRead s part f m g).ReadsPlaces (imageOf disks p) p :=
    tableRead_readsPlaces hc hp hsig hsb hreads
  -- the table goes into its memory
  rcases hst : store_gdt g (env.tableReply s part).stored ((env.mounting s part f m).tabled f g
    (s.tableRequest part (env.readSuperblock s part))) with ⟨e | x, w⟩
  · rw [bind_of_error hst]
    have htabled : ((env.mounting s part f m).tabled f g
        (s.tableRequest part (env.readSuperblock s part))).ReadsPlaces (imageOf disks p) p := hread.of_reads rfl
    have hw := ((Silent.store_gdt g (env.tableReply s part).stored).keeps _ _).final htabled
    rwa [hst] at hw
  rw [bind_of_ok hst]
  have hw : w = env.tableRead s part f m g := store_gdt_ok hst
  subst hw
  by_cases hr : (env.tableReply s part).ret < 0
  · rw [if_pos hr]
    exact ((Silent.no_mount_free_gdt g f m _).keeps _ _).final hread
  rw [if_neg hr]
  have hstored := table_delivered hd hc hp hsig hsb (Int.not_lt.1 hr)
  have hg := table_stored hc hsig hstored (store_gdt_fits hst)
  have hbelongs : Belongs (imageOf disks p) part ((env.tableRead s part f m g).rooted mnt_point m) mnt_point :=
    tableRead_belongs hfresh hsig hsb hstored hg hparent
  have hkept : Renumbered s mnt_point ((env.tableRead s part f m g).rooted mnt_point m) :=
    tableRead_rooted hfresh part _
  refine mount_tree_isolated hread (load_isolated hf hd hc ?_ ?_ (hread.of_reads rfl) fun _ => hbelongs)
  · rw [hkept.outlives.parts, hp]
  · refine ⟨hkept.outlives.blocks _ _ (by decide) ha.own, ?_⟩
    rw [hkept.parent]
    exact hkept.outlives.blocks _ _ (by decide) ha.parent

/-- A mount reads places of the image and nothing else, whatever it comes to. -/
theorem mount_isolated (hf : FreshBlocks env) (hd : env.Delivers disks) (hc : Confined (imageOf disks p) p)
    (hp : s.parts part = p) (ha : Anchored s mnt_point) (hreads : s.ReadsPlaces (imageOf disks p) p)
    (hparent : (s.dirs (s.direntries (s.dirs mnt_point).dir_entry).parent).fs_info = 0 ∨
      MountedFrom (imageOf disks p) part s (s.dirs (s.direntries (s.dirs mnt_point).dir_entry).parent).fs_info) :
    (ext2_mount env part mnt_point s).2.ReadsPlaces (imageOf disks p) p := by
  have hasked := hreads.asked (hc.superblock_request hp)
  by_cases hattached : Attached s part
  · by_cases hprobe : env.probed s part < 0
    · rw [ext2_mount_eq, bind_of_ok (ext2_probe_run hattached), if_pos hprobe]
      exact hasked
    by_cases hready : s.heap_locked = false ∧ env.kmalloc s.kmallocs s.blocks 2048 ≠ 0 ∧
        env.kmalloc (s.kmallocs + 1) ((env.kmalloc s.kmallocs s.blocks 2048, .ext2fs) :: s.blocks) 12 ≠ 0
    · obtain ⟨hl, hf0, hm0⟩ := hready
      rw [ext2_mount_run env s part mnt_point hattached hprobe hl rfl hf0 rfl hm0]
      by_cases hsuper : (env.superblockReply s part).ret < SB_SECT_SIZE
      · rw [if_pos hsuper]
        refine ((Silent.no_mount _ _ _).keeps _ _).final ?_
        exact hasked.asked (hc.superblock_request hp)
      rw [if_neg hsuper]
      have hret : 0 ≤ (env.superblockReply s part).ret := le_trans (Int.natCast_nonneg _) (Int.not_lt.1 hsuper)
      exact mount_table_isolated hf hd hc hp ha hreads (probed_signature hd hc hp hprobe)
        (readSuperblock_copies hd hc hp hret) hparent hattached hl hf0 rfl hm0 rfl
    · rw [ext2_mount_eq, bind_of_ok (ext2_probe_run hattached), if_neg hprobe]
      exact hasked.of_reads (mount_superblock_reads hready)
  · rw [ext2_mount_eq, bind_of_error (ext2_probe_null hattached)]
    exact hreads

end

/-! ## What every call keeps -/

/-- All directories of the tree belong to a mount of the partition or to none, and nothing but places was read. -/
structure Isolated (v : Image) (p : Disks.HdStruct) (part : Nat) (s : Vfs) : Prop where
  tree : VfsTree s
  not_null : ¬ TreeDir s 0
  parts : s.parts part = p
  reads : s.ReadsPlaces v p
  parent : ∀ d, TreeDir s d → TreeDir s (s.direntries (s.dirs d).dir_entry).parent
  mounted : ∀ d, TreeDir s d → (s.dirs d).fs_info = 0 ∨ MountedFrom v part s (s.dirs d).fs_info ∧
    signature v.superblock = 0xef53 ∧ v.Directory (s.direntries (s.dirs d).dir_entry).inode_no

section
variable {env : Env} {disks : Nat → Nat → UInt8} {p : Disks.HdStruct} {part dir d e i : Nat} {s t : Vfs} {v : Image}
  {l : List Nat} {r : Int}

theorem Isolated.belongs (h : Isolated v p part s) (hd : TreeDir s d) (hinfo : (s.dirs d).fs_info ≠ 0) :
    Belongs v part s d := by
  obtain ⟨hmounted, hsig, hdirectory⟩ := (h.mounted d hd).resolve_left hinfo
  exact ⟨hmounted, hsig, (h.mounted _ (h.parent d hd)).imp id And.left, hdirectory⟩

/-- Numbers and filesystems of the mount point are new, or as they were. -/
theorem Renumbered.isolated (h : Renumbered s dir t) (hs : Isolated v p part s) (hreads : t.ReadsPlaces v p)
    (hinfo : (t.dirs dir).fs_info = (s.dirs dir).fs_info ∨ Belongs v part t dir) : Isolated v p part t where
  tree := h.tree hs.tree
  not_null h0 := hs.not_null (h.sameLinks.treeDir h0)
  parts := by rw [h.outlives.parts, hs.parts]
  reads := hreads
  parent d hd := by
    obtain ⟨n, q, he⟩ := h.entry (s.dirs d).dir_entry
    rw [h.dir_entry, he]
    exact h.sameLinks.symm.treeDir (hs.parent d (h.sameLinks.treeDir hd))
  mounted d hd := by
    have hold := hs.mounted d (h.sameLinks.treeDir hd)
    -- a number is what it was, or 2
    have hnumber : v.Directory (s.direntries (s.dirs d).dir_entry).inode_no →
        v.Directory (t.direntries (t.dirs d).dir_entry).inode_no := by
      intro hn
      rw [h.dir_entry]
      by_cases he : (s.dirs d).dir_entry = (s.dirs dir).dir_entry
      · rw [he] at hn ⊢
        rcases h.number with ⟨-, hsame⟩ | ⟨-, htwo⟩
        · rwa [hsame]
        · rw [htwo]
          exact .root
      · rwa [h.entries _ he]
    have hkeep : (t.dirs d).fs_info = (s.dirs d).fs_info → (t.dirs d).fs_info = 0 ∨
        MountedFrom v part t (t.dirs d).fs_info ∧ signature v.superblock = 0xef53 ∧
          v.Directory (t.direntries (t.dirs d).dir_entry).inode_no := by
      intro hsame
      rw [hsame]
      exact hold.imp id fun ⟨hm, hsig, hn⟩ => ⟨hm.outlives h.outlives, hsig, hnumber hn⟩
    by_cases hdd : d = dir
    · subst hdd
      rcases hinfo with hsame | hb
      · exact hkeep hsame
      · exact .inr ⟨hb.mounted, hb.signature, hb.directory⟩
    · exact hkeep (by rw [h.dirs d hdd])

/-- The block whose records a load has gone through is that of the image. -/
theorem Isolated.block (h : Isolated (imageOf disks p) p part s) (hd : env.Delivers disks)
    (hc : Confined (imageOf disks p) p) (htd : TreeDir s dir) (h0 : (s.dirs dir).entries = 0)
    (hrun : ext2_get_direntries env dir s = (.ok r, t)) (hr : 0 ≤ r) {inode : Nat} {s' : Vfs}
    (hi : direntry_get_inode env (s.dirs dir).dir_entry s = (.ok inode, s'))
    (hbs : 0 < (s.fsinfos (s.mntps (s.dirs dir).fs_info).fs_data).block_size) :
    (imageOf disks p).volume.Serves (s.direntries (s.dirs dir).dir_entry).inode_no ∧
      env.firstBlock s' (s.fsinfos (s.mntps (s.dirs dir).fs_info).fs_data) inode =
        (imageOf disks p).directoryBlock (s.direntries (s.dirs dir).dir_entry).inode_no := by
  have hb := h.belongs htd (ext2_get_direntries_ok hrun).2.1
  obtain ⟨inode', s₂, hi₂, hloop, -, hfs⟩ := load_cases h0 hrun
  cases hi.symm.trans hi₂
  obtain ⟨fuel, hfuel⟩ : ∃ k, 2 ^ 32 = k + 1 := ⟨2 ^ 32 - 1, by norm_num⟩
  rw [hfuel] at hloop
  obtain ⟨hne, -, -, ⟨hneg, rfl, -⟩ | ⟨hret, -⟩⟩ := loop_begins (by rwa [hfs]) hloop
  · exact absurd hr (Int.not_le.2 hneg)
  have hinode : Sat (Asked (imageOf disks p) p s (s.dirs dir).dir_entry)
      (direntry_get_inode env (s.dirs dir).dir_entry) _ _ :=
    direntry_get_inode_isolated hd hc h.parts ⟨hb.parent, hb.signature, .directory hb.directory⟩
  obtain ⟨⟨hpay, -⟩, hread⟩ := (hinode s (.refl h.reads _)).1 inode s' hi
  obtain ⟨hserves, hbytes⟩ := hread hne
  have hmounted : MountedFrom (imageOf disks p) part s' (s.dirs dir).fs_info := hb.mounted.outlives hpay.outlives
  have hblocksize : (imageOf disks p).blockSize ≠ 0 := by
    have hcopies := hb.mounted.copies.block_size
    simp only [Image.volume, Vfs.volume] at hcopies
    omega
  refine ⟨hserves, ?_⟩
  have hblk := HoldsDirectory.firstBlock ⟨hb.directory, hserves, hbytes⟩ hmounted hc hd (by rw [hpay.parts, h.parts])
    hb.signature hblocksize (by rwa [hpay.mntps])
  rwa [hpay.mntps, hpay.fsinfos] at hblk

/-- The directory `d` was made for the entry `e` of `dir`, and its number is that of a directory of the image. -/
structure NewDirectory (v : Image) (s : Vfs) (dir : Nat) (t : Vfs) (e d : Nat) : Prop where
  fs_info : (t.dirs d).fs_info = (s.dirs dir).fs_info
  dir_entry : (t.dirs d).dir_entry = e
  parent : (t.direntries e).parent = dir
  directory : v.Directory (t.direntries e).inode_no

/-- A record of the image that says so gets such a directory. -/
theorem Made.newDirectory {n : Nat} (h : Made env s dir (v.directoryBlock n) t e i) (hn : v.Directory n)
    (hs : v.volume.Serves n) (hreach : ReachedFrom (v.directoryBlock n) 0 i) (hlt : i < (v.directoryBlock n).length)
    (hd : (t.direntries e).directory = d) (h0 : d ≠ 0) (hself : d ≠ dir) (hup : d ≠ (s.dirs dir).parent) :
    NewDirectory v s dir t e d := by
  have hdirectory := h.directory
  unfold DirectoryFor at hdirectory
  rw [hd] at hdirectory
  by_cases hft : (recordAt (v.directoryBlock n) i).file_type = 2
  · rw [if_neg (not_not_intro hft)] at hdirectory
    split at hdirectory
    · exact absurd hdirectory hself
    split at hdirectory
    · exact absurd hdirectory hup
    obtain ⟨-, -, -, hval⟩ := hdirectory
    refine ⟨by rw [hval], by rw [hval], h.parent, ?_⟩
    rw [h.inode_no]
    exact .record hn hs hreach hlt hft
  · rw [if_pos hft] at hdirectory
    exact absurd hdirectory h0

/-- New entries below `dir`, the directories of which are new directories of the image. -/
theorem Hung.isolated (h : Hung s dir l t) (hs : Isolated v p part s) (htd : TreeDir s dir)
    (h0 : (s.dirs dir).entries = 0) (hout : Outlives s t) (hreads : t.ReadsPlaces v p)
    (hnew : ∀ d, TreeDir t d → ∀ e ∈ l, (t.direntries e).directory = d → (d, .dir) ∉ s.blocks →
      NewDirectory v s dir t e d) : Isolated v p part t where
  tree := h.vfsTree hs.tree htd
  not_null := h.not_null hs.tree htd hs.not_null
  parts := by rw [hout.parts, hs.parts]
  reads := hreads
  parent d ht := by
    rcases h.treeDir hs.tree htd ht with hold | ⟨e, he, hde, hfresh, -⟩
    · obtain ⟨q, hq⟩ := h.entry _ (hs.tree.own d hold)
      rw [h.dir_entry (hs.tree.used d hold), hq]
      exact h.treeDir_old hs.tree h0 (hs.parent d hold)
    · obtain ⟨-, hentry, hparent, -⟩ := hnew d ht e he hde hfresh
      rw [hentry, hparent]
      exact h.treeDir_old hs.tree h0 htd
  mounted d ht := by
    rcases h.treeDir hs.tree htd ht with hold | ⟨e, he, hde, hfresh, -⟩
    · have hfs : (t.dirs d).fs_info = (s.dirs d).fs_info := by
        by_cases hdd : d = dir
        · obtain ⟨x, hx⟩ := h.self
          rw [hdd, hx]
        · rw [h.dirs d (hs.tree.used d hold) hdd]
      obtain ⟨q, hq⟩ := h.entry _ (hs.tree.own d hold)
      rw [hfs, h.dir_entry (hs.tree.used d hold), hq]
      exact (hs.mounted d hold).imp id fun ⟨hm, hsig, hn⟩ => ⟨hm.outlives hout, hsig, hn⟩
    · obtain ⟨hfs, hentry, -, hn⟩ := hnew d ht e he hde hfresh
      rw [hfs, hentry]
      exact (hs.mounted dir htd).imp id fun ⟨hm, hsig, _⟩ => ⟨hm.outlives hout, hsig, hn⟩

/-- Whatever a load returns. -/
theorem Isolated.load (h : Isolated (imageOf disks p) p part s) (hf : FreshBlocks env) (hd : env.Delivers disks)
    (hc : Confined (imageOf disks p) p) (htd : TreeDir s dir) (hrun : ext2_get_direntries env dir s = (.ok r, t)) :
    Isolated (imageOf disks p) p part t := by
  have ha := h.tree.anchored htd
  have hreads : t.ReadsPlaces (imageOf disks p) p := by
    have := load_isolated hf hd hc h.parts ha h.reads (h.belongs htd)
    rwa [hrun] at this
  by_cases hr : r < 0
  · -- nothing was made
    obtain ⟨-, inode, s', hi, -, -, rfl⟩ := load_failed hr hrun
    have hpay := (direntry_get_inode_payload env _ _).of_run hi
    have hkept := (Renumbered.of_same (.refl s) rfl rfl dir).payload hpay
    exact (hkept.later (hkept.outlives.asked _) rfl rfl).isolated h hreads (.inl (by rw [← hpay.dirs]; rfl))
  have hr := Int.not_lt.1 hr
  by_cases h0 : (s.dirs dir).entries = 0
  · obtain ⟨l, hhung⟩ := load_hung hf ha h0 hrun hr
    obtain ⟨-, inode, s', l', is, hi, hpay, hwalk, hbuilt, hlist⟩ := load_made hf ha h0 hrun hr
    obtain rfl := Sll.unique hhung.list hlist
    refine hhung.isolated h htd h0 (hpay.outlives.trans hbuilt.grown.outlives) hreads fun d ht e he hde hfresh => ?_
    obtain ⟨i, his, hmade⟩ := hbuilt.each e he
    obtain ⟨hreach, hlt⟩ := hwalk.reached i his
    obtain ⟨hserves, hblk⟩ := h.block hd hc htd h0 hrun hr hi (by rw [firstBlock_length] at hlt; omega)
    rw [hblk] at hmade hreach hlt
    have hnew := hmade.newDirectory (h.belongs htd (ext2_get_direntries_ok hrun).2.1).directory hserves hreach hlt hde
      (fun heq => hhung.not_null h.tree htd h.not_null (heq ▸ ht)) (fun heq => hfresh (heq ▸ ha.own))
      (fun heq => hfresh (by rw [heq, hpay.dirs]; exact ha.parent))
    exact ⟨by rw [hnew.fs_info, hpay.dirs], hnew.dir_entry, hnew.parent, hnew.directory⟩
  · obtain ⟨-, -, ⟨-, -, rfl⟩ | ⟨h0', -⟩⟩ := ext2_get_direntries_ok hrun
    · exact h
    · exact absurd h0' h0

/-- Whatever a mount returns. -/
theorem Isolated.mount (h : Isolated (imageOf disks p) p part s) (hf : FreshBlocks env) (hd : env.Delivers disks)
    (hc : Confined (imageOf disks p) p) (htd : TreeDir s d) (hrun : ext2_mount env part d s = (.ok r, t)) :
    Isolated (imageOf disks p) p part t := by
  have hparent := (h.mounted _ (h.parent d htd)).imp id And.left
  rcases mount_kept hf hrun with ⟨hkept, hinfo⟩ | ⟨rfl, f, m, g, hload⟩
  · have hreads : t.ReadsPlaces (imageOf disks p) p := by
      have := mount_isolated hf hd hc h.parts (h.tree.anchored htd) h.reads hparent
      rwa [hrun] at this
    exact hkept.isolated h hreads (.inl hinfo)
  · -- the mount has come to the load of `d`
    have hprobe : ¬ env.probed s part < 0 := by
      rcases ext2_mount_cases hrun with ⟨hneg, hr⟩ | ⟨hprobe, -⟩
      · rw [← hr] at hneg
        exact absurd hneg (by decide)
      · exact hprobe
    have hsig := probed_signature hd hc h.parts hprobe
    have hsb := readSuperblock_copies hd hc h.parts (le_trans (Int.natCast_nonneg _) hload.superblock)
    have hstored := table_delivered hd hc h.parts hsig hsb hload.table
    have hg := table_stored hc hsig hstored hload.stored
    have hbelongs : Belongs (imageOf disks p) part ((env.tableRead s part f m g).rooted d m) d :=
      tableRead_belongs hload.fresh hsig hsb hstored hg hparent
    rw [hload.state] at hbelongs
    have hreads : (env.handedOver s part d).ReadsPlaces (imageOf disks p) p := by
      have hread : (env.tableRead s part f m g).ReadsPlaces (imageOf disks p) p :=
        tableRead_readsPlaces hc h.parts hsig hsb h.reads
      rw [← hload.state]
      exact hread.of_reads rfl
    have hkept := hload.renumbered
    obtain ⟨r, -, hrun⟩ := hload.load
    exact (hkept.isolated h hreads (.inr hbelongs)).load hf hd hc (hkept.sameLinks.symm.treeDir htd) hrun

end

/-! ## Runs -/

/-- A call of the driver with a directory. -/
inductive DriverCall where
  | mount (mnt_point : Nat)
  | get_direntries (dir : Nat)

namespace DriverCall

def dir : DriverCall → Nat
  | mount d => d
  | get_direntries d => d

/-- The call, where what is mounted is the partition at `part`. -/
def run (env : Env) (part : Nat) : DriverCall → Prog Vfs Int
  | mount d => ext2_mount env part d
  | get_direntries d => ext2_get_direntries env d

end DriverCall

/-- The states that calls with directories of the tree lead to, from where nothing is mounted and nothing was read. -/
inductive CallsReach (env : Env) (part : Nat) (p : Disks.HdStruct) : Vfs → Prop
  | setup {s t : Vfs} : (root_dir, .dir) ∈ s.blocks → (root_direntry, .direntry) ∈ s.blocks → s.parts part = p →
      (s.dirs root_dir).fs_info = 0 → s.reads = [] → setup_fs s = (.ok (), t) → CallsReach env part p t
  | call {s t : Vfs} {c : DriverCall} {r : Int} : CallsReach env part p s → TreeDir s c.dir →
      c.run env part s = (.ok r, t) → CallsReach env part p t

section
variable {env : Env} {disks : Nat → Nat → UInt8} {p : Disks.HdStruct} {part : Nat} {s t : Vfs} {v : Image}

theorem setup_isolated (hdir : (root_dir, .dir) ∈ s.blocks) (hentry : (root_direntry, .direntry) ∈ s.blocks)
    (hp : s.parts part = p) (hinfo : (s.dirs root_dir).fs_info = 0) (hreads : s.reads = [])
    (h : setup_fs s = (.ok (), t)) : Isolated v p part t := by
  have hroot := fun d hd => setup_treeDir (d := d) h hd
  refine ⟨setup_tree hdir hentry h, fun h0 => absurd (hroot 0 h0) (by decide), ?_, ?_, fun d hd => ?_, fun d hd => ?_⟩
  · rw [setup_fs_run] at h
    cases h
    exact hp
  · rw [setup_fs_run] at h
    cases h
    intro q hq
    exact absurd (hreads ▸ hq) List.not_mem_nil
  · obtain rfl := hroot d hd
    rw [setup_fs_run] at h
    cases h
    exact hd
  · obtain rfl := hroot d hd
    rw [setup_fs_run] at h
    cases h
    exact .inl hinfo

theorem CallsReach.isolated (hf : FreshBlocks env) (hd : env.Delivers disks) (hc : Confined (imageOf disks p) p)
    (h : CallsReach env part p s) : Isolated (imageOf disks p) p part s := by
  induction h with
  | setup hdir hentry hp hinfo hreads hsetup => exact setup_isolated hdir hentry hp hinfo hreads hsetup
  | @call s t c r _ htd hrun ih =>
    cases c with
    | mount d => exact ih.mount hf hd hc htd hrun
    | get_direntries d => exact ih.load hf hd hc htd hrun

/-- In a run of calls on a partition that has room for the places of its image each read is one of such a place, with
the sector number not wrapped, and lies in the partition; also in the last call, where it need not return. -/
theorem reads_isolated (hf : FreshBlocks env) (hd : env.Delivers disks) (hc : Confined (imageOf disks p) p)
    (h : CallsReach env part p s) (c : DriverCall) (htd : TreeDir s c.dir) :
    ∀ q ∈ (c.run env part s).2.reads, ReadsPlace (imageOf disks p) p q ∧ InPartition p q := by
  have hs := h.isolated hf hd hc
  have hreads : (c.run env part s).2.ReadsPlaces (imageOf disks p) p := by
    cases c with
    | mount d =>
      have hparent := (hs.mounted _ (hs.parent d htd)).imp id And.left
      exact mount_isolated hf hd hc hs.parts (hs.tree.anchored htd) hs.reads hparent
    | get_direntries d => exact load_isolated hf hd hc hs.parts (hs.tree.anchored htd) hs.reads (hs.belongs htd)
  exact fun q hq => ⟨hreads q hq, hc.inPartition (hreads q hq)⟩

end

/-! ## The small disk -/

/-- Its 64 sectors. -/
def smallPart : Disks.HdStruct := ⟨0, 64, 0x83, 1⟩

theorem setUp_calls (env : Env) : CallsReach env 0x600 smallPart setUp :=
  .setup (s := bareVfs) (by decide) (by decide) rfl rfl rfl rfl

/-- The bytes of the small disk with a file. -/
def fileImage : Image := imageOf (fun _ => recordBytes fileRecords) smallPart

theorem fileImage_record {i : Nat} (hreach : ReachedFrom (fileImage.directoryBlock 2) 0 i)
    (hlt : i < (fileImage.directoryBlock 2).length) :
    recordAt (fileImage.directoryBlock 2) i = ⟨2, 12, 1, 2⟩ ∨
      recordAt (fileImage.directoryBlock 2) i = ⟨3, 1012, 1, 1⟩ := by
  have hblk : fileImage.directoryBlock 2 = smallBlock fileRecords := by decide +kernel
  have h0 : recordAt (smallBlock fileRecords) 0 = ⟨2, 12, 1, 2⟩ := by decide +kernel
  have h12 : recordAt (smallBlock fileRecords) 12 = ⟨3, 1012, 1, 1⟩ := by decide +kernel
  rw [hblk] at hreach hlt ⊢
  have hmem := ((smallBlock_tiles h0 h12 (by decide)).walk rfl).mem_of_reached hreach hlt
  simp only [List.mem_cons, List.not_mem_nil, or_false] at hmem
  rcases hmem with rfl | rfl
  · exact .inl h0
  · exact .inr h12

theorem fileImage_directory {n : Nat} (h : fileImage.Directory n) : n = 2 := by
  induction h with
  | root => rfl
  | record _ _ hreach hlt hft ih =>
    subst ih
    rcases fileImage_record hreach hlt with hr | hr
    · rw [hr]
    · rw [hr] at hft
      exact absurd hft (by decide)

theorem fileImage_named {n : Nat} (h : fileImage.Named n) : n = 2 ∨ n = 3 := by
  cases h with
  | directory hn => exact .inl (fileImage_directory hn)
  | record hn _ hreach hlt =>
    obtain rfl := fileImage_directory hn
    rcases fileImage_record hreach hlt with hr | hr
    · rw [hr]
      exact .inl rfl
    · rw [hr]
      exact .inr rfl

theorem fileImage_confined : Confined fileImage smallPart where
  ends := by decide
  places first n hplace := by
    cases hplace with
    | superblock => decide
    | table _ => decide +kernel
    | inode _ hn _ =>
      rcases fileImage_named hn with rfl | rfl
      · decide +kernel
      · decide +kernel
    | block _ hn _ =>
      obtain rfl := fileImage_directory hn
      decide +kernel
  groups _ := by decide +kernel
  sized _ := by decide +kernel

theorem reads_isolated_file : (⟨1, 2, 2⟩ : Request) ∈
    ((DriverCall.mount root_dir).run (diskServer (recordBytes fileRecords)) 0x600 setUp).2.reads ∧
      ∀ q ∈ ((DriverCall.mount root_dir).run (diskServer (recordBytes fileRecords)) 0x600 setUp).2.reads,
        ReadsPlace fileImage smallPart q ∧ InPartition smallPart q :=
  ⟨by decide +kernel,
    reads_isolated (diskServer_fresh _) (diskServer_delivers _) fileImage_confined (setUp_calls _) (.mount root_dir) .root⟩

/-- The same disk with 32 for the block of the root directory, the first one behind the partition, where it goes on
with the records. -/
def strayBytes (a : Nat) : UInt8 :=
  if a = 5 * 1024 + 168 then 32
  else if 64 * IO_BLOCK_SIZE ≤ a then recordBytes fileRecords (a - 48 * IO_BLOCK_SIZE)
  else recordBytes fileRecords a

/-- It is read there. -/
theorem stray_read : (⟨1, 2, 64⟩ : Request) ∈
    ((DriverCall.mount root_dir).run (diskServer strayBytes) 0x600 setUp).2.reads := by
  decide +kernel

theorem reads_stray : ¬ ∀ (env : Env) (disks : Nat → Nat → UInt8) (p : Disks.HdStruct) (part : Nat) (s : Vfs)
    (c : DriverCall), FreshBlocks env → env.Delivers disks → CallsReach env part p s → TreeDir s c.dir →
      ∀ q ∈ (c.run env part s).2.reads, InPartition p q := by
  intro hall
  have hin := hall (diskServer strayBytes) (fun _ => strayBytes) smallPart 0x600 setUp (.mount root_dir)
    (diskServer_fresh _) (diskServer_delivers _) (setUp_calls _) .root _ stray_read
  exact absurd hin.last (by decide)

end Ulmix.Fs

import Ulmix.Fs.Served
import Ulmix.Fs.OnDisk
/-!
# The directory on the disk

What a directory says lies on the disk: a block of records, and an inode for
each record in use. When nothing fails the list has one entry for every record,
with the number and the name of the record and the mode, type, size and blocks
of the inode. A record without a number is no exception, although ext2 has it
for a file that was removed; so the list is that of the records in use exactly
if all records are in use (`load_used_iff`).
-/
open Ulmix.Lib Ulmix.Lib.Prog

namespace Ulmix.Fs

/-! ## The disks -/

/-- Inode `n` of the filesystem at `m`, as it lies on its disk. -/
def Vfs.diskInode (s : Vfs) (disks : Nat → Nat → UInt8) (m n : Nat) : List UInt8 :=
  diskBytes (disks (s.parts (s.volume m).part).bd) (s.inodePlace m n) (inode_size (s.volume m).superblock)

/-- Where block `k` of the filesystem at `m` starts on its disk. -/
def Vfs.blockPlace (s : Vfs) (m k : Nat) : Nat :=
  (s.parts (s.volume m).part).sect_offset * IO_BLOCK_SIZE + k * (s.volume m).block_size

def Vfs.diskBlock (s : Vfs) (disks : Nat → Nat → UInt8) (m k : Nat) : List UInt8 :=
  diskBytes (disks (s.parts (s.volume m).part).bd) (s.blockPlace m k) (s.volume m).block_size

/-- The number of the block of `dir`: the first one in its inode, which has its number in its filesystem. -/
def Vfs.dirBlockNo (s : Vfs) (disks : Nat → Nat → UInt8) (dir : Nat) : Nat :=
  i_block (s.diskInode disks (s.dirs dir).fs_info (s.dirs dir).inode_no) 0

def Vfs.dirBlock (s : Vfs) (disks : Nat → Nat → UInt8) (dir : Nat) : List UInt8 :=
  s.diskBlock disks (s.dirs dir).fs_info (s.dirBlockNo disks dir)

/-- The number `ext2_get_direntries` finds: it takes the inode of the entry, in the filesystem the entry lies in. -/
def Vfs.readBlockNo (s : Vfs) (disks : Nat → Nat → UInt8) (dir : Nat) : Nat :=
  let e := s.direntries (s.dirs dir).dir_entry
  i_block (s.diskInode disks (s.dirs e.parent).fs_info e.inode_no) 0

def Vfs.readBlock (s : Vfs) (disks : Nat → Nat → UInt8) (dir : Nat) : List UInt8 :=
  s.diskBlock disks (s.dirs dir).fs_info (s.readBlockNo disks dir)

/-- The entry of `dir` has its number and lies in its filesystem. So it is everywhere but at a mount point inside
another filesystem. -/
structure OwnEntry (s : Vfs) (dir : Nat) : Prop where
  inode_no : (s.direntries (s.dirs dir).dir_entry).inode_no = (s.dirs dir).inode_no
  fs_info : (s.dirs (s.direntries (s.dirs dir).dir_entry).parent).fs_info = (s.dirs dir).fs_info

/-- Then the block that is read is the one of the directory. -/
theorem OwnEntry.readBlockNo {s : Vfs} {dir : Nat} (h : OwnEntry s dir) (disks : Nat → Nat → UInt8) :
    s.readBlockNo disks dir = s.dirBlockNo disks dir := by
  unfold Vfs.readBlockNo Vfs.dirBlockNo
  dsimp only
  rw [h.fs_info, h.inode_no]

theorem OwnEntry.readBlock {s : Vfs} {dir : Nat} (h : OwnEntry s dir) (disks : Nat → Nat → UInt8) :
    s.readBlock disks dir = s.dirBlock disks dir := by
  unfold Vfs.readBlock Vfs.dirBlock
  rw [h.readBlockNo]

/-- Inode `n` of a filesystem with inodes of 128 bytes, and a multiple of four of them in a group. -/
structure ValidInode (s : Vfs) (m n : Nat) : Prop where
  located : Located s m n
  size : inode_size (s.volume m).superblock = 128
  per_group : inodes_per_group (s.volume m).superblock % 4 = 0

section
variable {env : Env} {disks : Nat → Nat → UInt8} {s t : Vfs} {m n : Nat}

namespace SameVolumes

theorem inodePlace (h : SameVolumes s t) (m n : Nat) : t.inodePlace m n = s.inodePlace m n := by
  unfold Vfs.inodePlace
  rw [h.volume, h.parts]

theorem diskInode (h : SameVolumes s t) (disks : Nat → Nat → UInt8) (m n : Nat) :
    t.diskInode disks m n = s.diskInode disks m n := by
  unfold Vfs.diskInode
  rw [h.volume, h.parts, h.inodePlace]

theorem mounted (h : SameVolumes s t) (hm : Mounted s m) : Mounted t m := by
  refine ⟨hm.mnt_info, ?_, ?_, ?_, ?_⟩
  · rw [h.mntps]
    exact hm.fs_data
  · rw [h.fsinfos, h.mntps]
    exact hm.group_descriptors
  · rw [h.volume]
    exact hm.part
  · rw [h.parts, h.volume]
    exact hm.bd

theorem located (h : SameVolumes s t) (hl : Located s m n) : Located t m n := by
  have hgd : (t.fsinfos (t.mntps m).fs_data).gd_count = (s.fsinfos (s.mntps m).fs_data).gd_count := by
    rw [h.fsinfos, h.mntps]
  have hv := h.volume m
  refine ⟨h.mounted hl.mounted, ?_, ?_, ?_, hl.positive, ?_, ?_, ?_, ?_⟩
  · rw [hv]
    exact hl.sized
  · rw [hv]
    exact hl.grouped
  · rw [hv]
    exact hl.block
  · rw [hv]
    exact hl.known
  · rw [hv, hgd]
    exact hl.group
  · rw [hv, hgd]
    exact hl.loaded
  · rw [h.inodePlace]
    exact hl.fits

theorem validInode (h : SameVolumes s t) (hv : ValidInode s m n) : ValidInode t m n := by
  refine ⟨h.located hv.located, ?_, ?_⟩
  · rw [h.volume]
    exact hv.size
  · rw [h.volume]
    exact hv.per_group

end SameVolumes

namespace ValidInode

theorem readable (h : ValidInode s m n) (hserves : ∀ bd, env.Holds bd (disks bd)) : Readable env s m n where
  mounted := h.located.mounted
  serves := h.located.serves
  small := le_of_eq h.size
  answered i sectors lba := by
    rw [hserves]
    exact Int.natCast_nonneg _

theorem length (h : ValidInode s m n) : (s.diskInode disks m n).length = 128 := by
  rw [Vfs.diskInode, diskBytes_length, h.size]

/-- What the device delivers is what lies on its disk. -/
theorem inodeBytes (h : ValidInode s m n) (hserves : ∀ bd, env.Holds bd (disks bd)) :
    env.inodeBytes s m n = s.diskInode disks m n := by
  have hstart : s.inodeStart m n = s.inodePlace m n := by
    apply h.located.inodeStart_iff.2
    rw [h.size]
    apply Nat.mod_eq_zero_of_dvd
    exact (Nat.dvd_of_mod_eq_zero h.per_group).mul_left _
  rw [inodeBytes_disk (hserves _) h.located.perSector_ne, hstart]
  rfl

end ValidInode

/-- What is read over older bytes are the ones of the disk. -/
theorem ReadAs.fields {F : Vfs → Prop} {parent : Nat} {bytes : List UInt8} (h : ReadAs env F parent n bytes)
    (hserves : ∀ bd, env.Holds bd (disks bd)) (hv : ValidInode s m n)
    (hF : ∀ u, F u → SameVolumes s u ∧ (u.dirs parent).fs_info = m) :
    ∃ rest, bytes = s.diskInode disks m n ++ rest := by
  obtain ⟨u, old, hu, -, rfl⟩ := h
  obtain ⟨hsame, rfl⟩ := hF u hu
  rw [overwrite, (hsame.validInode hv).inodeBytes hserves, hsame.diskInode]
  exact ⟨_, rfl⟩

end

/-! ## The whole -/

/-- The directory `dir`, without a list yet, can be loaded: the debug build, a heap that never runs
out, disks that serve every read, and a directory that is what the filesystem says. (Of the memory
handed out nothing but the payload of an entry is ever read before it is written.) -/
structure Loadable (env : Env) (disks : Nat → Nat → UInt8) (s : Vfs) (dir : Nat) : Prop where
  debug : env.debug = true
  fresh : FreshBlocks env
  generous : env.Generous
  serves : ∀ bd, env.Holds bd (disks bd)
  usable : Usable s
  anchored : Anchored s dir
  linked : Linked s dir
  unloaded : (s.dirs dir).entries = 0
  mounted : Mounted s (s.dirs dir).fs_info
  entry_parent : (s.direntries (s.dirs dir).dir_entry).parent ≠ 0
  inode : ValidInode s (s.dirs (s.direntries (s.dirs dir).dir_entry).parent).fs_info
    (s.direntries (s.dirs dir).dir_entry).inode_no
  block : ∃ k, (s.volume (s.dirs dir).fs_info).block_size = 1024 * 2 ^ k
  block_size : (s.volume (s.dirs dir).fs_info).block_size < 2 ^ 32
  fits : s.blockPlace (s.dirs dir).fs_info (s.readBlockNo disks dir) < 2 ^ 32 * IO_BLOCK_SIZE

section
variable {env : Env} {disks : Nat → Nat → UInt8} {s t : Vfs} {dir m p k : Nat} {is : List Nat}

/-- The read of a block delivers it. -/
theorem firstReply_disk (hserves : ∀ bd, env.Holds bd (disks bd)) (hblock : ∃ k, (s.volume m).block_size = 1024 * 2 ^ k)
    (hk : i_block (s.inodes p) 0 = k) (hfits : s.blockPlace m k < 2 ^ 32 * IO_BLOCK_SIZE) :
    0 ≤ (env.firstReply s (s.fsinfos (s.mntps m).fs_data) p).ret ∧
      (env.firstReply s (s.fsinfos (s.mntps m).fs_data) p).stored = s.diskBlock disks m k := by
  obtain ⟨x, hx⟩ := hblock
  have hsectors : (s.volume m).block_size = (s.volume m).sectors * IO_BLOCK_SIZE := by
    rw [Volume.sectors, hx, Nat.div_mul_cancel]
    exact Dvd.dvd.mul_right (by decide) _
  unfold Vfs.blockPlace at hfits
  have hlba : add32 (k * (s.volume m).sectors % 2 ^ 32) (s.parts (s.volume m).part).sect_offset * IO_BLOCK_SIZE =
      s.blockPlace m k := by
    unfold Vfs.blockPlace
    have hmul : k * ((s.volume m).sectors * IO_BLOCK_SIZE) = k * (s.volume m).sectors * IO_BLOCK_SIZE := by ring
    have hio : IO_BLOCK_SIZE = 512 := rfl
    rw [hsectors, hmul, hio] at hfits ⊢
    rw [add32_eq, Nat.mod_eq_of_lt] <;> omega
  have hreply : env.firstReply s (s.fsinfos (s.mntps m).fs_data) p =
      env.reply s.reads.length (s.request (s.volume m).part (s.volume m).sectors
        (k * (s.volume m).sectors % 2 ^ 32)) := by
    rw [Env.firstReply, hk]
    rfl
  rw [hreply, Env.reply, Vfs.request, hserves]
  refine ⟨Int.natCast_nonneg _, ?_⟩
  dsimp only
  rw [List.take_of_length_le (by rw [diskBytes_length]), hlba, ← hsectors]
  rfl

/-- The directory's own inode is read, and names the block. -/
theorem Loadable.own_inode (h : Loadable env disks s dir) : ∃ p s',
    direntry_get_inode env (s.dirs dir).dir_entry s = (.ok p, s') ∧ p ≠ 0 ∧ (p, .inode) ∈ s'.blocks ∧ Usable s' ∧
      PayloadOnly s (s.dirs dir).dir_entry s' ∧ i_block (s'.inodes p) 0 = s.readBlockNo disks dir := by
  let e := (s.dirs dir).dir_entry
  let F : Vfs → Prop := fun t => t.dirs = s.dirs ∧ SameVolumes s t
  have hF : Apart e F := sameDirs_apart s e
  have hreads : Reads env F (s.direntries e) := by
    refine ⟨h.entry_parent, fun t ht => ?_⟩
    rw [ht.1]
    exact (ht.2.validInode h.inode).readable h.serves
  have hstart : Holding F e (s.direntries e) s := ⟨⟨rfl, rfl, rfl, rfl, rfl⟩, rfl, rfl, rfl, rfl⟩
  have hworks := direntry_get_inode_works h.generous hF h.linked.dir_entry hreads s ⟨hstart, h.usable⟩
  rcases hrun : direntry_get_inode env e s with ⟨f | p, s'⟩
  · exact (hworks.2 f s' hrun).elim
  obtain ⟨⟨hp, hlive⟩, -, hu⟩ := hworks.1 p s' hrun
  obtain ⟨-, hread⟩ := (direntry_get_inode_reads hF s hstart).1 p s' hrun
  obtain ⟨rest, hrest⟩ := (hread hp).fields h.serves h.inode fun u hu => ⟨hu.2, by rw [hu.1]⟩
  refine ⟨p, s', rfl, hp, hlive, hu, (direntry_get_inode_payload env e s).of_run hrun, ?_⟩
  rw [hrest, i_block, le32_append]
  · rfl
  · rw [h.inode.length]
    decide

/-- The block in the buffer is the one of the directory. -/
theorem Loadable.buffer (h : Loadable env disks s dir) {s' : Vfs} {p : Nat}
    (hpay : PayloadOnly s (s.dirs dir).dir_entry s') (hno : i_block (s'.inodes p) 0 = s.readBlockNo disks dir) :
    0 ≤ (env.firstReply s' (s.fsinfos (s.mntps (s.dirs dir).fs_info).fs_data) p).ret ∧
      env.firstBlock s' (s.fsinfos (s.mntps (s.dirs dir).fs_info).fs_data) p = s.readBlock disks dir := by
  have hsame := hpay.sameVolumes
  have hvolume := hsame.volume (s.dirs dir).fs_info
  have hplace : s'.blockPlace (s.dirs dir).fs_info (s.readBlockNo disks dir) = s.blockPlace (s.dirs dir).fs_info
      (s.readBlockNo disks dir) := by
    rw [Vfs.blockPlace, hvolume, hsame.parts, Vfs.blockPlace]
  have hblocks : ∃ k, (s'.volume (s.dirs dir).fs_info).block_size = 1024 * 2 ^ k := by
    rw [hvolume]
    exact h.block
  obtain ⟨hret, hstored⟩ := firstReply_disk (m := (s.dirs dir).fs_info) h.serves hblocks hno (hplace.trans_lt h.fits)
  rw [hsame.fsinfos, hsame.mntps] at hret hstored
  have hblock : s'.diskBlock disks (s.dirs dir).fs_info (s.readBlockNo disks dir) = s.readBlock disks dir := by
    rw [Vfs.diskBlock, hplace, hvolume, hsame.parts, Vfs.readBlock, Vfs.diskBlock]
  refine ⟨hret, ?_⟩
  rw [Env.firstBlock, hstored, hblock, overwrite_full]
  rw [Vfs.readBlock, Vfs.diskBlock, diskBytes_length, List.length_map, List.length_range]
  rfl

/-- Records that are all in use are loaded, and another directory can be loaded then. -/
theorem load_usable (h : Loadable env disks s dir) (htiles : Tiles (s.readBlock disks dir) 0 is)
    (hvalid : ∀ i ∈ is, ValidInode s (s.dirs dir).fs_info (recordAt (s.readBlock disks dir) i).inode) :
    ∃ t, ext2_get_direntries env dir s = (.ok SUCCESS, t) ∧ Usable t := by
  obtain ⟨p, s', hrun, hp, hlive, hu, hpay, hno⟩ := h.own_inode
  obtain ⟨hret, hbuf⟩ := h.buffer hpay hno
  have hsame := hpay.sameVolumes
  have hfs := hsame.fsinfos
  have hvolume := hsame.volume (s.dirs dir).fs_info
  have hlen : (s.readBlock disks dir).length = (s.volume (s.dirs dir).fs_info).block_size := diskBytes_length _ _ _
  have hpos : 0 < (s.volume (s.dirs dir).fs_info).block_size := by
    obtain ⟨k, hk⟩ := h.block
    rw [hk]
    positivity
  obtain ⟨fuel, hfuel⟩ : ∃ k, 2 ^ 32 = k + 1 := ⟨2 ^ 32 - 1, by norm_num⟩
  -- the loop, from the block on
  have hloop : Sat (fun t => (∃ x, Grown s' dir x t) ∧ Usable t)
      (ext2_get_direntries_loop env dir (s.mntps (s.dirs dir).fs_info).fs_data p (fuel + 1) 0 false 1
        (s.readBlock disks dir) (.entries dir))
      (fun r t => r = SUCCESS ∧ Usable t) nowhere := by
    refine loop_works h.fresh h.generous (hpay.anchored h.anchored) ?_ h.mounted.fs_data ?_ htiles rfl ?_ _ _ _ ?_ rfl
    · obtain ⟨hown, hparent, hentry, hup⟩ := h.linked
      refine ⟨hown, ?_, ?_, ?_⟩
      · rwa [hpay.dirs]
      · rwa [hpay.dirs]
      · rwa [hpay.dirs]
    · rw [hfs, hlen]
      rfl
    · intro i hi x t ht
      rw [hpay.dirs]
      exact ((hsame.trans ht.sameVolumes).validInode (hvalid i hi)).readable h.serves
    · have := htiles.room
      have := h.block_size
      omega
  have hread : ext2_get_direntries_loop env dir (s.mntps (s.dirs dir).fs_info).fs_data p (fuel + 1) 0 true 0
      ((List.range (s'.fsinfos (s.mntps (s.dirs dir).fs_info).fs_data).block_size).map (env.stack s'.reads.length))
        (.entries dir) s' =
      ext2_get_direntries_loop env dir (s.mntps (s.dirs dir).fs_info).fs_data p (fuel + 1) 0 false 1
        (s.readBlock disks dir)
        (.entries dir) (s'.asked (s'.blockRequest (s'.fsinfos (s.mntps (s.dirs dir).fs_info).fs_data) p)) := by
    refine loop_read h.mounted.fs_data (hfs ▸ hpos) ?_ rfl
    rw [hfs, next_block_run _ hp hlive ⟨?_, ?_⟩ hret]
    · rw [← hbuf]
      rfl
    · exact h.mounted.part
    · rw [hsame.parts]
      exact h.mounted.bd
  let q := s'.blockRequest (s'.fsinfos (s.mntps (s.dirs dir).fs_info).fs_data) p
  have hend := hloop (s'.asked q) ⟨⟨_, (Grown.refl s' dir).asked q⟩, hu.asked q⟩
  rw [ext2_get_direntries_run env h.linked.own h.mounted.mnt_info, if_neg (not_not_intro h.unloaded), load_entries,
    bind_of_ok hrun, bind_of_ok (load_fsinfo_run h.mounted.fs_data s'), bind_of_ok (local_array_run _ _ _),
      hfuel, hread]
  rcases hres : ext2_get_direntries_loop env dir (s.mntps (s.dirs dir).fs_info).fs_data p (fuel + 1) 0 false 1
    (s.readBlock disks dir)
      (.entries dir) (s'.asked q) with ⟨f | r, t⟩
  · exact (hend.2 f t hres).elim
  · obtain ⟨rfl, hu'⟩ := hend.1 r t hres
    exact ⟨t, rfl, hu'⟩

theorem load_works (h : Loadable env disks s dir) (htiles : Tiles (s.readBlock disks dir) 0 is)
    (hvalid : ∀ i ∈ is, ValidInode s (s.dirs dir).fs_info (recordAt (s.readBlock disks dir) i).inode) :
    ∃ t, ext2_get_direntries env dir s = (.ok SUCCESS, t) := by
  obtain ⟨t, hrun, -⟩ := load_usable h htiles hvalid
  exact ⟨t, hrun⟩

end

/-- The entry `e` carries the number and the name of the record at `i`, and what the inode with this number says. -/
structure Carries (disks : Nat → Nat → UInt8) (s : Vfs) (dir : Nat) (t : Vfs) (e i : Nat) : Prop where
  inode_no : (t.direntries e).inode_no = (recordAt (s.dirBlock disks dir) i).inode
  name : ∃ rest, (t.direntries e).name = nameAt (s.dirBlock disks dir) i ++ 0 :: rest
  inode : let inode := s.diskInode disks (s.dirs dir).fs_info (recordAt (s.dirBlock disks dir) i).inode
    (t.direntries e).mode = i_mode inode ∧ (t.direntries e).type = i_mode inode &&& 0xf000 ∧
      (t.direntries e).size = i_size inode ∧ (t.direntries e).blocks = i_blocks inode

/-- The call succeeds, and the list of `dir` has, in order, one entry for each of the records `is` in use. -/
def LoadsUsed (env : Env) (disks : Nat → Nat → UInt8) (s : Vfs) (dir : Nat) (is : List Nat) : Prop :=
  ∃ t, ext2_get_direntries env dir s = (.ok SUCCESS, t) ∧ ∃ l, Lists t dir l ∧
    List.Forall₂ (Carries disks s dir t) l (is.filter fun i => (recordAt (s.dirBlock disks dir) i).inode ≠ 0)

section
variable {env : Env} {disks : Nat → Nat → UInt8} {s s' t : Vfs} {dir e i n : Nat} {is : List Nat}

/-- What is described by the bytes read is described by those of the disk. -/
theorem Described.disk {F : Vfs → Prop} {w : DirentryStruct} {parent m : Nat} (h : Described env F parent n w)
    (hserves : ∀ bd, env.Holds bd (disks bd)) (hv : ValidInode s m n)
    (hF : ∀ u, F u → SameVolumes s u ∧ (u.dirs parent).fs_info = m) :
    w.mode = i_mode (s.diskInode disks m n) ∧ w.type = i_mode (s.diskInode disks m n) &&& 0xf000 ∧
      w.size = i_size (s.diskInode disks m n) ∧ w.blocks = i_blocks (s.diskInode disks m n) := by
  obtain ⟨bytes, hread, hmode, htype, hsize, hblocks⟩ := h
  obtain ⟨rest, rfl⟩ := hread.fields hserves hv hF
  have hlen : (s.diskInode disks m n).length = 128 := hv.length
  have hmode' : i_mode (s.diskInode disks m n ++ rest) = i_mode (s.diskInode disks m n) := le16_append (by omega)
  have hsize' : i_size (s.diskInode disks m n ++ rest) = i_size (s.diskInode disks m n) := le32_append (by omega)
  have hblocks' : i_blocks (s.diskInode disks m n ++ rest) = i_blocks (s.diskInode disks m n) := le32_append (by omega)
  rw [hmode'] at hmode htype
  exact ⟨hmode, htype, hsize.trans hsize', hblocks.trans hblocks'⟩

theorem Made.carries (h : Made env s' dir (s.dirBlock disks dir) t e i) (hl : Loadable env disks s dir)
    (hsame : SameVolumes s s') (hinfo : (s'.dirs dir).fs_info = (s.dirs dir).fs_info)
    (hv : ValidInode s (s.dirs dir).fs_info (recordAt (s.dirBlock disks dir) i).inode) : Carries disks s dir t e i where
  inode_no := h.inode_no
  name := by
    obtain ⟨old, hname⟩ := h.name
    rw [hname, overwrite, List.append_assoc, List.singleton_append]
    exact ⟨_, rfl⟩
  inode := by
    refine (h.described hl.debug).disk hl.serves hv fun u hu => ?_
    obtain ⟨x, hx⟩ := hu
    refine ⟨hsame.trans hx.sameVolumes, ?_⟩
    rw [hx.dir, hinfo]

/-- A call that succeeds has made an entry of every record of the block that was read, used or not. -/
theorem Loadable.built (h : Loadable env disks s dir) (hrun : ext2_get_direntries env dir s = (.ok SUCCESS, t)) :
    ∃ s' l is, PayloadOnly s (s.dirs dir).dir_entry s' ∧ Lists t dir l ∧ Walk (s.readBlock disks dir) 0 is ∧
      Built env s' dir (s.readBlock disks dir) l is t := by
  obtain ⟨p, s', hi, -, -, -, hpay, hno⟩ := h.own_inode
  obtain ⟨-, p', s₂, l, is, hi', -, hmade⟩ := load_made h.fresh h.anchored h.unloaded hrun (Int.le_refl 0)
  cases hi.symm.trans hi'
  rw [(h.buffer hpay hno).2] at hmade
  exact ⟨s', l, is, hpay, hmade.2.2, hmade.1, hmade.2.1⟩

theorem Loadable.made (h : Loadable env disks s dir) (htiles : Tiles (s.readBlock disks dir) 0 is)
    (hrun : ext2_get_direntries env dir s = (.ok SUCCESS, t)) : ∃ s' l, PayloadOnly s (s.dirs dir).dir_entry s' ∧
      Lists t dir l ∧ List.Forall₂ (Made env s' dir (s.readBlock disks dir) t) l is := by
  obtain ⟨s', l, is', hpay, hlist, hwalk, hbuilt⟩ := h.built hrun
  obtain rfl := hwalk.unique (htiles.walk rfl)
  exact ⟨s', l, hpay, hlist, hbuilt.made⟩

/-- An entry that carries a record says what it says. -/
theorem Carries.file (h : Carries disks s dir t e i) : t.file e = fileAt (s.dirBlock disks dir) i := by
  obtain ⟨rest, hname⟩ := h.name
  unfold Vfs.file fileAt
  rw [hname, h.inode_no, cstr_append_zero]

/-- What was loaded rightly was read from a block that says the same. -/
theorem LoadsUsed.contents (hload : LoadsUsed env disks s dir is) (h : Loadable env disks s dir)
    (htiles : Tiles (s.dirBlock disks dir) 0 is) :
    ∃ c, UsedContents (s.dirBlock disks dir) c ∧ Contents (s.readBlock disks dir) c := by
  obtain ⟨t, hrun, l, hl, hcarries⟩ := hload
  obtain ⟨s', l', is', -, hl', hwalk, hbuilt⟩ := h.built hrun
  refine ⟨l.map t.file, ⟨is, htiles.walk rfl, ?_⟩, (listedAs_iff hwalk hbuilt hl').1 ⟨l, hl, rfl⟩⟩
  have hfiles := hcarries.imp fun e i hc => hc.file
  have hsame := List.forall₂_map_right_iff.2 (List.forall₂_map_left_iff.2 hfiles)
  rw [List.forall₂_eq_eq_eq] at hsame
  rw [hsame, List.filter_map]
  rfl

/-- Where the list has one entry for each record in use, there is no other record. -/
theorem LoadsUsed.used (hload : LoadsUsed env disks s dir is) (h : Loadable env disks s dir) (hown : OwnEntry s dir)
    (htiles : Tiles (s.dirBlock disks dir) 0 is) : ∀ i ∈ is, (recordAt (s.dirBlock disks dir) i).inode ≠ 0 := by
  obtain ⟨t, hrun, l, hl, hcarries⟩ := hload
  obtain ⟨s', l', -, hl', hmade⟩ := h.made (by rwa [hown.readBlock]) hrun
  obtain rfl := Sll.unique hl hl'
  have hlength := hcarries.length_eq.symm.trans hmade.length_eq
  rw [List.length_filter_eq_length_iff] at hlength
  exact fun i hi => of_decide_eq_true (hlength i hi)

/-- The entries are those of the records in use only if the block that was read says what these say. Where that is
the directory's own block they are if and only if all records are in use: one that is not is taken for an entry, too. -/
theorem load_used_iff (h : Loadable env disks s dir) (htiles : Tiles (s.dirBlock disks dir) 0 is)
    (hvalid : ∀ i ∈ is, (recordAt (s.dirBlock disks dir) i).inode ≠ 0 →
      ValidInode s (s.dirs dir).fs_info (recordAt (s.dirBlock disks dir) i).inode) :
    (LoadsUsed env disks s dir is → ∃ c, UsedContents (s.dirBlock disks dir) c ∧
      Contents (s.readBlock disks dir) c) ∧
    (OwnEntry s dir →
      (LoadsUsed env disks s dir is ↔ ∀ i ∈ is, (recordAt (s.dirBlock disks dir) i).inode ≠ 0)) := by
  refine ⟨fun hload => hload.contents h htiles, fun hown => ⟨fun hload => hload.used h hown htiles, fun hused => ?_⟩⟩
  have hvalid' := fun i hi => hvalid i hi (hused i hi)
  have hread := hown.readBlock disks
  obtain ⟨t, hrun⟩ := load_works h (by rwa [hread]) (by rwa [hread])
  obtain ⟨s', l, hpay, hl, hmade⟩ := h.made (by rwa [hread]) hrun
  rw [hread] at hmade
  refine ⟨t, hrun, l, hl, ?_⟩
  rw [List.filter_eq_self.2 fun i hi => decide_eq_true (hused i hi)]
  -- each record is valid, and the entry made of it carries what it says
  have hboth := (List.forall₂_and_left is l).2 ⟨hvalid', hmade.flip⟩
  exact hboth.flip.imp fun e i hi => hi.2.carries h hpay.sameVolumes (by rw [hpay.dirs]) hi.1

end

/-! ## A disk that serves every read -/

/-- The bytes of the small disk. -/
def recordBytes (records : List UInt8) (a : Nat) : UInt8 :=
  (smallDisk records (a / IO_BLOCK_SIZE)).getD (a % IO_BLOCK_SIZE) 0

/-- A device that holds `disk`, with memory without end. -/
def diskServer (disk : Nat → UInt8) : Env := { diskEnv disk with kmalloc := fun _ blocks _ => nextAddress blocks }

/-- The block of the small directory with these records. -/
def smallBlock (records : List UInt8) : List UInt8 := smallVfs.dirBlock (fun _ => recordBytes records) root_dir

theorem smallVfs_valid {n : Nat} (hn : n = 2 ∨ n = 3) : ValidInode smallVfs 0x300 n := by
  have hmounted : Mounted smallVfs 0x300 := ⟨by decide, by decide, by decide, by decide, by decide⟩
  have hsized : inode_size (smallVfs.volume 0x300).superblock ∈ [128, 256, 512] := by decide +kernel
  rcases hn with rfl | rfl
  all_goals
    refine ⟨⟨hmounted, hsized, by decide +kernel, ⟨0, rfl⟩, by decide, by decide +kernel, by decide +kernel,
      by decide +kernel,
      by decide +kernel⟩, by decide +kernel, by decide +kernel⟩

theorem smallVfs_loadable {records : List UInt8} (h : smallVfs.readBlockNo (fun _ => recordBytes records) root_dir = 8) :
    Loadable (diskServer (recordBytes records)) (fun _ => recordBytes records) smallVfs root_dir where
  debug := rfl
  fresh _ blocks _ kind _ := nextAddress_fresh blocks kind
  generous _ blocks _ := nextAddress_ne blocks
  serves _ _ _ _ := rfl
  usable := ⟨rfl, fun _ => .inl rfl⟩
  anchored := ⟨by decide, by decide⟩
  linked := ⟨by decide, by decide, by decide, by decide⟩
  unloaded := rfl
  mounted := (smallVfs_valid (.inl rfl)).located.mounted
  entry_parent := by decide
  inode := smallVfs_valid (.inl rfl)
  block := ⟨0, rfl⟩
  block_size := by decide
  fits := by
    rw [h]
    decide

/-- Two records, the second one up to the end of the block. -/
theorem smallBlock_tiles {records : List UInt8} {n len file_type : Nat}
    (h0 : recordAt (smallBlock records) 0 = ⟨2, 12, 1, 2⟩)
    (h12 : recordAt (smallBlock records) 12 = ⟨n, 1012, len, file_type⟩) (hroom : len ≤ 255) :
    Tiles (smallBlock records) 0 [0, 12] := by
  have hlen : (smallBlock records).length = 1024 := by
    unfold smallBlock Vfs.dirBlock Vfs.diskBlock
    rw [diskBytes_length]
    rfl
  have hrec0 : (recordAt (smallBlock records) 0).rec_len = 12 := congrArg Ext2DirentryStruct.rec_len h0
  have hname0 : (recordAt (smallBlock records) 0).name_len = 1 := congrArg Ext2DirentryStruct.name_len h0
  have hrec12 : (recordAt (smallBlock records) 12).rec_len = 1012 := congrArg Ext2DirentryStruct.rec_len h12
  have hname12 : (recordAt (smallBlock records) 12).name_len = len := congrArg Ext2DirentryStruct.name_len h12
  have hend : Tiles (smallBlock records) (12 + (recordAt (smallBlock records) 12).rec_len) [] := by
    have hlast : 12 + (recordAt (smallBlock records) 12).rec_len = (smallBlock records).length := by omega
    rw [hlast]
    exact .done
  refine .record (by omega) (by omega) ?_
  rw [hrec0, Nat.zero_add]
  exact .record (by omega) (by omega) hend

/-- The directory itself and the file `a`. -/
def fileRecords : List UInt8 := [2, 0, 0, 0, 12, 0, 1, 2, 0x2e, 0, 0, 0, 3, 0, 0, 0, 0xf4, 3, 1, 1, 0x61]

/-- The same, but the file was removed. -/
def unusedRecords : List UInt8 := [2, 0, 0, 0, 12, 0, 1, 2, 0x2e, 0, 0, 0, 0, 0, 0, 0, 0xf4, 3, 1, 1, 0x61]

theorem load_used_file :
    LoadsUsed (diskServer (recordBytes fileRecords)) (fun _ => recordBytes fileRecords) smallVfs root_dir [0, 12] := by
  have h0 : recordAt (smallBlock fileRecords) 0 = ⟨2, 12, 1, 2⟩ := by decide +kernel
  have h12 : recordAt (smallBlock fileRecords) 12 = ⟨3, 1012, 1, 1⟩ := by decide +kernel
  have htiles := smallBlock_tiles h0 h12 (by decide)
  refine ((load_used_iff (smallVfs_loadable (by decide +kernel)) htiles fun i hi _ => ?_).2 ⟨rfl, rfl⟩).2 fun i hi => ?_
  · simp only [List.mem_cons, List.not_mem_nil, or_false] at hi
    rcases hi with rfl | rfl
    · exact smallVfs_valid (.inl (congrArg Ext2DirentryStruct.inode h0))
    · exact smallVfs_valid (.inr (congrArg Ext2DirentryStruct.inode h12))
  · simp only [List.mem_cons, List.not_mem_nil, or_false] at hi
    rcases hi with rfl | rfl
    · exact ne_of_eq_of_ne (congrArg Ext2DirentryStruct.inode h0) (by decide)
    · exact ne_of_eq_of_ne (congrArg Ext2DirentryStruct.inode h12) (by decide)

/-- The record of the removed file is not left out. -/
theorem load_unused : Loadable (diskServer (recordBytes unusedRecords))
    (fun _ => recordBytes unusedRecords) smallVfs root_dir ∧ Tiles (smallBlock unusedRecords) 0 [0, 12] ∧
    (∀ i ∈ [0, 12], (recordAt (smallBlock unusedRecords) i).inode ≠ 0 →
      ValidInode smallVfs 0x300 (recordAt (smallBlock unusedRecords) i).inode) ∧
    ¬ LoadsUsed (diskServer (recordBytes unusedRecords)) (fun _ => recordBytes unusedRecords) smallVfs root_dir
      [0, 12] := by
  have h0 : recordAt (smallBlock unusedRecords) 0 = ⟨2, 12, 1, 2⟩ := by decide +kernel
  have h12 : recordAt (smallBlock unusedRecords) 12 = ⟨0, 1012, 1, 1⟩ := by decide +kernel
  have hloadable : Loadable (diskServer (recordBytes unusedRecords))
      (fun _ => recordBytes unusedRecords) smallVfs root_dir :=
    smallVfs_loadable (by decide +kernel)
  have htiles := smallBlock_tiles h0 h12 (by decide)
  refine ⟨hloadable, htiles, fun i hi hne => ?_, fun hload => ?_⟩
  · simp only [List.mem_cons, List.not_mem_nil, or_false] at hi
    rcases hi with rfl | rfl
    · exact smallVfs_valid (.inl (congrArg Ext2DirentryStruct.inode h0))
    · exact absurd (congrArg Ext2DirentryStruct.inode h12) hne
  · exact hload.used hloadable ⟨rfl, rfl⟩ htiles 12 (by decide) (congrArg Ext2DirentryStruct.inode h12)

end Ulmix.Fs

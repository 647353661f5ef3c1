import Ulmix.Fs.Resolution
/-!
# The result of a mount

When a mount returns no error, a sound disk whose superblock, descriptors, root
inode and root block were all delivered in full is mounted rightly at the top
of the tree, provided that all records of its root are in use
(`RootDelivered.listsRoot`). A device that stops short delivers the same in
these reads as one that fails where it would stop short (`Env.strict`), and of
such a device the places of the image are known.
-/
open Ulmix.Lib Ulmix.Lib.Prog

namespace Ulmix.Fs

/-! ## A device that fails where it would stop short -/

/-- The device that answers with an error what it does not read in full. -/
def Env.strict (env : Env) : Env :=
  { env with
    read := fun i bd sectors lba =>
      if (env.read i bd sectors lba).ret = sectors then env.read i bd sectors lba else ⟨- EIO, []⟩ }

section
variable {env : Env} {disks : Nat → Nat → UInt8} {s : Vfs} {part mnt_point m n i : Nat} {q : Request}

theorem strict_delivers (hd : ∀ bd, env.Honest bd (disks bd)) : env.strict.Delivers disks := by
  intro i bd sectors lba
  unfold Env.strict
  dsimp only
  by_cases hret : (env.read i bd sectors lba).ret = sectors
  · rw [if_pos hret]
    refine .inr ?_
    rw [(hd bd i sectors lba).2 (by rw [hret]; exact Int.natCast_nonneg _), hret, Int.toNat_natCast]
  · rw [if_neg hret]
    exact .inl (by decide)

/-- What is read in full is the same. -/
theorem strict_reply (h : (env.reply i q).ret = q.sectors) : env.strict.reply i q = env.reply i q := by
  have hret : (env.read i q.bd q.sectors q.lba).ret = q.sectors := h
  unfold Env.reply Env.strict
  dsimp only
  rw [if_pos hret]

theorem strict_readSuperblock (h : (env.superblockReply s part).ret = SB_SECT_SIZE) :
    env.strict.readSuperblock s part = env.readSuperblock s part := by
  have hreply : env.strict.superblockReply s part = env.superblockReply s part := strict_reply h
  unfold Env.readSuperblock
  rw [hreply]
  rfl

theorem strict_tableReply (h : AllRead env s part) : env.strict.tableReply s part = env.tableReply s part := by
  unfold Env.tableReply
  rw [strict_readSuperblock h.1]
  exact strict_reply h.2

theorem strict_inodeBytes (h : (env.inodeReply s m n).ret = 1) : env.strict.inodeBytes s m n = env.inodeBytes s m n := by
  have hreply : env.strict.inodeReply s m n = env.inodeReply s m n := strict_reply h
  unfold Env.inodeBytes
  rw [hreply]
  rfl

end

/-! ## The root directory -/

/-- The partition holds a sound filesystem and is mounted at the top of the tree, where nothing was listed yet; inode 2
and its block are delivered in full, and all records of the block are in use. (Without memory for the descriptors the
mount would not return.) -/
structure RootDelivered (env : Env) (disks : Nat → Nat → UInt8) (s : Vfs) (part mnt_point : Nat) : Prop where
  sound : (s.image disks part).Sound
  confined : Confined (s.image disks part) (s.parts part)
  unloaded : (s.dirs mnt_point).entries = 0
  top : (s.direntries (s.dirs mnt_point).dir_entry).parent = mnt_point
  memory : env.kmalloc (s.kmallocs + 2)
    ((env.kmalloc (s.kmallocs + 1) ((env.kmalloc s.kmallocs s.blocks 2048, .ext2fs) :: s.blocks) 12, .mntp) ::
      (env.kmalloc s.kmallocs s.blocks 2048, .ext2fs) :: s.blocks) (gdtBytes (env.readSuperblock s part)) ≠ 0
  inode : let t := env.handedOver s part mnt_point
    (env.inodeReply t (t.dirs mnt_point).fs_info 2).ret = 1
  block : (env.blockReply (env.handedOver s part mnt_point) mnt_point).ret = (s.image disks part).volume.sectors
  used : ∀ i ∈ (s.image disks part).records 2, (recordAt (s.image disks part).root i).inode ≠ 0

section
variable {env : Env} {disks : Nat → Nat → UInt8} {s t : Vfs} {part mnt_point : Nat} {r : Int}

/-- The filesystem that is handed over is the one of the image. -/
theorem RootDelivered.mountedFrom (h : RootDelivered env disks s part mnt_point)
    (hd : ∀ bd, env.Honest bd (disks bd)) (hread : AllRead env s part) :
    MountedFrom (s.image disks part) part (env.handedOver s part mnt_point)
      ((env.handedOver s part mnt_point).dirs mnt_point).fs_info := by
  have hdelivers := strict_delivers hd
  have hsuper : env.strict.superblockReply s part = env.superblockReply s part := strict_reply hread.1
  have hsb := readSuperblock_copies hdelivers h.confined rfl (by rw [hsuper, hread.1]; decide)
  have hstored := table_delivered hdelivers h.confined rfl h.sound.signature hsb
    (by rw [strict_tableReply hread, hread.2]; exact Int.natCast_nonneg _)
  rw [strict_readSuperblock hread.1] at hsb
  rw [strict_tableReply hread] at hstored
  rw [handedOver_dirs, Function.update_self]
  exact tableRead_mountedFrom hsb hstored h.memory

theorem handedOver_parts (env : Env) (s : Vfs) (part mnt_point : Nat) :
    (env.handedOver s part mnt_point).parts = s.parts := by
  simp [Env.handedOver, Vfs.rooted, Vfs.tabled, Env.mounting, Vfs.described, Vfs.asked]

/-- The buffer comes to hold the block of the root directory. -/
theorem RootDelivered.listBuffer (h : RootDelivered env disks s part mnt_point)
    (hd : ∀ bd, env.Honest bd (disks bd)) (hread : AllRead env s part) :
    env.listBuffer (env.handedOver s part mnt_point) mnt_point = (s.image disks part).root := by
  have hmounted := h.mountedFrom hd hread
  have hinode := h.inode
  have hblock := h.block
  have hparts : (env.handedOver s part mnt_point).parts part = s.parts part := by rw [handedOver_parts]
  have hentry : ((env.handedOver s part mnt_point).dirs mnt_point).dir_entry = (s.dirs mnt_point).dir_entry := by
    rw [handedOver_dirs, Function.update_self]
  have hown : (env.handedOver s part mnt_point).direntries (s.dirs mnt_point).dir_entry =
      { s.direntries (s.dirs mnt_point).dir_entry with inode_no := 2 } := by
    rw [handedOver_direntries]
    simp [Vfs.rooted]
  generalize env.handedOver s part mnt_point = t at *
  have hc := h.confined
  have hsig := h.sound.signature
  have hserves := h.sound.serves hc (.directory .root)
  have hdelivers := strict_delivers hd
  -- the inode is the one of the image
  have hbytes : env.inodeBytes t (t.dirs mnt_point).fs_info 2 = (s.image disks part).inodeBytes 2 := by
    have hreply : env.strict.inodeReply t (t.dirs mnt_point).fs_info 2 =
        env.inodeReply t (t.dirs mnt_point).fs_info 2 := strict_reply hinode
    rw [← strict_inodeBytes hinode, inodeBytes_fetched hdelivers (by rw [hreply, hinode]; decide)]
    exact hmounted.fetched hc hparts hsig (.directory .root) ((hmounted.copies.serves 2).2 hserves)
  have hnumber : i_block (env.inodeAt t (t.dirs mnt_point).dir_entry) 0 =
      i_block ((s.image disks part).inodeBytes 2) 0 := by
    unfold Env.inodeAt Vfs.entryMount
    rw [hentry, hown]
    dsimp only
    rw [h.top, hbytes, hc.i_block hsig hserves]
  -- so the block that is asked for is the one of the root directory
  have hpart : (t.fsinfos (t.mntps (t.dirs mnt_point).fs_info).fs_data).part = part := hmounted.part
  have hsize : (t.fsinfos (t.mntps (t.dirs mnt_point).fs_info).fs_data).block_size = (s.image disks part).blockSize :=
    hmounted.copies.block_size
  have hsectors : (t.fsinfos (t.mntps (t.dirs mnt_point).fs_info).fs_data).block_size / IO_BLOCK_SIZE =
      (s.image disks part).volume.sectors := hmounted.copies.sectors
  have hpos := Image.sectors_pos (Nat.ne_of_gt h.sound.blockSize_pos)
  have hstored : (env.blockReply t mnt_point).stored = (s.image disks part).root := by
    have hreply : env.blockReply t mnt_point = env.reply (t.reads.length + 1)
        (t.request part (s.image disks part).volume.sectors ((s.image disks part).blockPlace 2 % 2 ^ 32)) := by
      unfold Env.blockReply Image.blockPlace
      dsimp only
      rw [hnumber, hpart, hsectors]
    have hfull := hblock
    rw [hreply] at hfull ⊢
    rw [← strict_reply hfull, hdelivers.reply (by rw [strict_reply hfull, hfull]; exact Int.natCast_nonneg _)]
    refine (hc.diskBytes (.block hsig .root hserves) hpos hparts).trans ?_
    exact h.sound.directoryBlock hc .root
  unfold Env.listBuffer
  rw [hstored]
  refine overwrite_full ?_
  rw [List.length_map, List.length_range, hsize]
  exact le_of_eq ((s.image disks part).dirBlock_length 2).symm

/-- Then the files of the root directory are in the buffer. -/
theorem RootDelivered.listsRoot (h : RootDelivered env disks s part mnt_point) (hd : ∀ bd, env.Honest bd (disks bd))
    (hread : AllRead env s part) : ListsRoot env disks s part mnt_point := by
  have hwalk : Walk (s.image disks part).root 0 ((s.image disks part).records 2) :=
    (h.sound.tiles .root).walk rfl
  refine ⟨((s.image disks part).records 2).map (fileAt (s.image disks part).root), ⟨_, hwalk, ?_⟩, ?_⟩
  · rw [List.filter_eq_self.2]
    intro f hf
    obtain ⟨i, hi, rfl⟩ := List.mem_map.1 hf
    exact decide_eq_true (h.used i hi)
  · rw [if_pos h.unloaded, h.listBuffer hd hread]
    exact ⟨_, hwalk, rfl⟩

/-- `ext2_mount` and `do_mount` return a number from 0 on only for a rightly mounted root directory if the mount stops
with an error, or all was read and the root directory was delivered; and exactly if the mount stops with an error, or
all was read and the files of the root directory are what the device leaves in the buffer, or what the old list has. -/
theorem mount_reported (hf : FreshBlocks env) (hd : ∀ bd, env.Honest bd (disks bd)) :
    (∀ s t part mnt_point r, (mnt_point ≠ 0 → Anchored s mnt_point) → ext2_mount env part mnt_point s = (.ok r, t) →
      (StopsWithError env s part mnt_point ∨ AllRead env s part ∧ RootDelivered env disks s part mnt_point →
        0 ≤ r → RightlyMounted env disks s part mnt_point t) ∧
      ((0 ≤ r → RightlyMounted env disks s part mnt_point t) ↔
        StopsWithError env s part mnt_point ∨ AllRead env s part ∧ ListsRoot env disks s part mnt_point)) ∧
    ∀ devices filesystems dev_major dev_minor mount_path s t r, VfsTree s →
      do_mount env devices filesystems dev_major dev_minor mount_path s = (.ok r, t) →
      ∃ target u, mount_target env devices filesystems dev_major dev_minor mount_path s = (.ok target, u) ∧
        match target with
        | .error error => r = error ∧ error < 0
        | .ok (_, part, mnt_point) =>
          (StopsWithError env u part mnt_point ∨ AllRead env u part ∧ RootDelivered env disks u part mnt_point →
            0 ≤ r → RightlyMounted env disks u part mnt_point t) ∧
          ((0 ≤ r → RightlyMounted env disks u part mnt_point t) ↔
            StopsWithError env u part mnt_point ∨ AllRead env u part ∧ ListsRoot env disks u part mnt_point) := by
  have hboth : ∀ s t part mnt_point r, (mnt_point ≠ 0 → Anchored s mnt_point) →
      ext2_mount env part mnt_point s = (.ok r, t) →
      (StopsWithError env s part mnt_point ∨ AllRead env s part ∧ RootDelivered env disks s part mnt_point →
        0 ≤ r → RightlyMounted env disks s part mnt_point t) ∧
      ((0 ≤ r → RightlyMounted env disks s part mnt_point t) ↔
        StopsWithError env s part mnt_point ∨ AllRead env s part ∧ ListsRoot env disks s part mnt_point) := by
    intro s t part mnt_point r ha hrun
    have hiff := mounted_iff hf hd ha hrun
    exact ⟨fun h => hiff.2 (h.imp_right fun h => ⟨h.1, h.2.listsRoot hd h.1⟩), hiff⟩
  refine ⟨hboth, fun devices filesystems dev_major dev_minor mount_path s t r hs hrun => ?_⟩
  rw [do_mount_eq] at hrun
  obtain ⟨target, u, htarget, hmount⟩ := bind_ok.1 hrun
  refine ⟨target, u, htarget, ?_⟩
  rcases target with error | ⟨⟨⟩, part, mnt_point⟩
  · cases hmount
    exact ⟨rfl, mount_target_error htarget⟩
  · exact hboth _ _ _ _ _ (mount_target_anchored hf hs htarget) hmount

end

theorem bareVfs_anchored : Anchored bareVfs root_dir := ⟨List.mem_cons_self .., List.mem_cons_self ..⟩

theorem diskServer_honest (disk : Nat → UInt8) (bd : Nat) : (diskServer disk).Honest bd disk := by
  intro i sectors lba
  refine ⟨le_refl _, fun _ => ?_⟩
  exact congrArg (fun n => diskBytes disk (lba * IO_BLOCK_SIZE) (n * IO_BLOCK_SIZE)) (Int.toNat_natCast sectors).symm

theorem treeImage_delivered : RootDelivered (diskServer treeBytes) (fun _ => treeBytes) bareVfs 0x600 root_dir where
  sound := treeImage_sound
  confined := treeImage_confined
  unloaded := rfl
  top := rfl
  memory := by decide +kernel
  inode := by decide +kernel
  block := by decide +kernel
  used i hi := by
    have hi : i ∈ treeImage.records 2 := hi
    rw [treeImage_records (.inl rfl)] at hi
    simp only [List.mem_cons, List.not_mem_nil, or_false] at hi
    rcases hi with rfl | rfl | rfl <;> decide +kernel

theorem mount_reported_tree : ∃ t, ext2_mount (diskServer treeBytes) 0x600 root_dir bareVfs = (.ok SUCCESS, t) ∧
    RightlyMounted (diskServer treeBytes) (fun _ => treeBytes) bareVfs 0x600 root_dir t := by
  have hrun : (ext2_mount (diskServer treeBytes) 0x600 root_dir bareVfs).1 = .ok SUCCESS := by decide +kernel
  have hread : AllRead (diskServer treeBytes) bareVfs 0x600 := ⟨by decide +kernel, by decide +kernel⟩
  refine ⟨_, run_eq hrun, ?_⟩
  exact ((mount_reported (diskServer_fresh treeBytes) (diskServer_honest treeBytes)).1 _ _ _ _ _
    (fun _ => bareVfs_anchored) (run_eq hrun)).1 (.inr ⟨hread, treeImage_delivered⟩) (by decide)

/-- The small disk, byte by byte. -/
def smallBytes (a : Nat) : UInt8 := (smallDisk dotRecord (a / IO_BLOCK_SIZE)).getD (a % IO_BLOCK_SIZE) 0

/-- A device with the small disk that answers the `i`-th read with `served i` of the sectors. -/
def servingEnv (served : Nat → Nat → Nat) : Env :=
  { smallEnv dotRecord with
    read := fun i _ sectors lba => ⟨(min (served i sectors) sectors : Nat),
      diskBytes smallBytes (lba * IO_BLOCK_SIZE) (min (served i sectors) sectors * IO_BLOCK_SIZE)⟩ }

theorem servingEnv_honest (served : Nat → Nat → Nat) (bd : Nat) : (servingEnv served).Honest bd smallBytes := by
  intro i sectors lba
  refine ⟨Int.ofNat_le.2 (Nat.min_le_right (served i sectors) sectors), fun _ => ?_⟩
  exact congrArg (fun n => diskBytes smallBytes (lba * IO_BLOCK_SIZE) (n * IO_BLOCK_SIZE)) (Int.toNat_natCast _).symm

theorem servingEnv_fresh (served : Nat → Nat → Nat) : FreshBlocks (servingEnv served) := smallEnv_fresh dotRecord

/-- If only the first sector of the superblock can be read, the number 1 is returned. -/
theorem mount_reports_short : ¬ ∀ env disks s t part mnt_point r, FreshBlocks env → (∀ bd, env.Honest bd (disks bd)) →
    (mnt_point ≠ 0 → Anchored s mnt_point) → ext2_mount env part mnt_point s = (.ok r, t) → 0 ≤ r →
    RightlyMounted env disks s part mnt_point t := by
  intro hall
  have hrun : (ext2_mount (servingEnv fun i n => if i = 1 then 1 else n) 0x600 root_dir bareVfs).1 = .ok 1 := by
    decide +kernel
  have hright := hall _ _ _ _ _ _ _ (servingEnv_fresh _) (servingEnv_honest _) (fun _ => bareVfs_anchored) (run_eq hrun)
    (by decide)
  have hread := hright.read.1
  revert hread
  decide +kernel

end Ulmix.Fs

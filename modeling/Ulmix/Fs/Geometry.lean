import Ulmix.Fs.Rollback
import Ulmix.Fs.Faults
/-!
# What a superblock can do to the driver

`ext2_mount` checks the signature of a superblock and nothing else. Its fields
then divide, index and size what `fetch_inode` does, where the one check is the
upper bound on the inode number. `superblock_safe` says for which superblocks
and numbers that is enough.
-/
open Ulmix.Lib Ulmix.Lib.Prog

namespace Ulmix.Fs

/-- The divisions of `fetch_inode` are defined for inode `n`. -/
def Divides (sb : List UInt8) (n : Nat) : Prop :=
  n ≤ total_inodes sb → inodes_per_group sb ≠ 0 ∧ 1 ≤ inode_size sb ∧ inode_size sb ≤ IO_BLOCK_SIZE

theorem perSector_ne_iff (size : Nat) : (size ≠ 0 ∧ IO_BLOCK_SIZE / size ≠ 0) ↔ 1 ≤ size ∧ size ≤ IO_BLOCK_SIZE := by
  constructor
  · rintro ⟨h0, hd⟩
    refine ⟨Nat.pos_of_ne_zero h0, ?_⟩
    by_contra hlt
    exact hd (Nat.div_eq_of_lt (Nat.lt_of_not_le hlt))
  · rintro ⟨h1, hle⟩
    exact ⟨Nat.ne_of_gt h1, Nat.ne_of_gt (Nat.div_pos hle h1)⟩

section
variable {env : Env} {s t : Vfs} {sb : List UInt8} {m n p : Nat}

theorem div32_zero (a : Nat) (s : Vfs) : div32 a 0 s = (.error .panic, s) := rfl

/-- A division by zero stops the machine. -/
theorem fetch_inode_panic (hm : Mounted s m) (h : ¬ Divides (s.volume m).superblock n) :
    fetch_inode env n m p s = (.error .panic, s) := by
  rw [Divides, Classical.not_imp] at h
  obtain ⟨hn, h⟩ := h
  have hn' : ¬ n > total_inodes (s.volume m).superblock := Nat.not_lt.2 hn
  unfold fetch_inode
  rw [bind_of_ok (load_mntp_run hm.mnt_info s), bind_of_ok (load_fsinfo_run hm.fs_data s)]
  refine (congrFun (if_neg hn') s).trans ?_
  by_cases hg : inodes_per_group (s.volume m).superblock = 0
  · exact bind_of_error (by rw [← div32_zero (sub32 n 1) s, ← hg]; rfl)
  refine (bind_of_ok (div32_run hg s)).trans ?_
  by_cases hz : inode_size (s.volume m).superblock = 0
  · exact bind_of_error (by rw [← div32_zero IO_BLOCK_SIZE s, ← hz]; rfl)
  refine (bind_of_ok (div32_run hz s)).trans ?_
  have hper : IO_BLOCK_SIZE / inode_size (s.volume m).superblock = 0 := by
    by_contra hne
    exact h ⟨hg, (perSector_ne_iff _).1 ⟨hz, hne⟩⟩
  refine bind_of_error ?_
  rw [← div32_zero (sub32 n 1 % inodes_per_group (s.volume m).superblock) s, ← hper]
  rfl

end

/-! ## Nothing else panics in the release build -/

def noPanic : Fault → Vfs → Prop := fun e _ => e ≠ .panic

theorem null_ne_panic : Fault.nullDeref ≠ .panic := by decide

theorem bounds_ne_panic : Fault.outOfBounds ≠ .panic := by decide

theorem spin_ne_panic : Fault.spin ≠ .panic := by decide

section
variable {env : Env}

/-- `fetch_inode` panics only where a division is undefined. -/
theorem fetch_inode_noPanic (n m p : Nat) :
    Sat (fun s => Divides (s.volume m).superblock n) (fetch_inode env n m p) (fun _ _ => True) noPanic := by
  refine .bind ((load_mntp_never null_ne_panic _).sat (load_mntp_sat any_stopped)) fun mnt => ?_
  refine .bind ((load_fsinfo_never null_ne_panic _).sat (load_fsinfo_sat any_stopped)) fun fsinfo => ?_
  refine .ite (fun _ => .pure fun _ _ => trivial) fun hn => ?_
  by_cases hg : inodes_per_group fsinfo.superblock ≠ 0 ∧ 1 ≤ inode_size fsinfo.superblock ∧
      inode_size fsinfo.superblock ≤ IO_BLOCK_SIZE
  · obtain ⟨hg, hsize⟩ := hg
    obtain ⟨hz, hper⟩ := (perSector_ne_iff _).2 hsize
    refine .bind (Q := fun _ _ => True) (.ite (fun h => absurd h hg) fun _ => .pure fun _ _ => trivial) fun group => ?_
    refine .bind (Q := fun q _ => q ≠ 0) (.ite (fun h => absurd h hz) fun _ => .pure fun _ _ => hper)
      fun per_sector => ?_
    refine .bind (Q := fun _ _ => True) (.ite (fun h s h0 => absurd h h0) fun _ => .pure fun _ _ => trivial)
      fun offset => ?_
    refine Never.bind (load_gd_never null_ne_panic bounds_ne_panic _ _) fun gd =>
      .bind (local_array_never _) fun buf => ?_
    refine Never.bind (hdd_read_never null_ne_panic _ _ _) fun r => .ite (.pure _) ?_
    refine Never.bind (slice_never bounds_ne_panic _ _ _) fun bytes => ?_
    exact .bind (store_inode_never null_ne_panic bounds_ne_panic _ _) fun _ => .pure _
  · rintro s ⟨-, rfl, -, rfl, h⟩
    exact absurd (h (Nat.not_lt.1 hn)) hg

/-- The divisions for the inode of the entry `e` are defined. -/
def EntryDivides (s : Vfs) (e : Nat) : Prop :=
  Divides (s.volume (s.dirs (s.direntries e).parent).fs_info).superblock (s.direntries e).inode_no

/-- The release build of `ext2_get_direntries` divides only to read the inode of the directory. -/
theorem load_noPanic (hd : env.debug = false) {dir : Nat} :
    Sat (fun s => EntryDivides s (s.dirs dir).dir_entry) (ext2_get_direntries env dir) (fun _ _ => True) noPanic := by
  unfold ext2_get_direntries
  rw [assert_off hd]
  refine .bind (Q := fun _ s => EntryDivides s (s.dirs dir).dir_entry) (.pure fun _ h => h) fun _ => ?_
  refine .bind (Q := fun d s => EntryDivides s d.dir_entry)
    ((load_dir_never null_ne_panic _).sat ((load_dir_sat any_stopped).post ?_)) fun d => ?_
  · rintro _ s ⟨-, rfl, h⟩
    exact h
  rw [assert_off hd]
  refine .bind (Q := fun _ s => EntryDivides s d.dir_entry) (.pure fun _ h => h) fun _ => ?_
  refine .bind ((load_mntp_never null_ne_panic _).sat ((load_mntp_sat any_stopped).post fun _ _ h => h.2.2))
    fun mnt => ?_
  refine .ite (fun _ => .pure fun _ _ => trivial) fun _ => ?_
  refine .bind (Q := fun _ _ => True) ?_ fun inode => ?_
  · -- `direntry_get_inode`
    refine .bind (Q := fun _ s => EntryDivides s d.dir_entry) ?_ fun _ => ?_
    · refine Never.sat ?_ (alloc_inode_sat ?_ ?_ any_stopped)
      · exact alloc_inode_never null_ne_panic spin_ne_panic _
      · exact fun s h _ _ => h
      · intro s h _ _
        simpa [EntryDivides, Vfs.volume] using h
    refine .bind ((load_direntry_never null_ne_panic _).sat (load_direntry_sat any_stopped)) fun e => ?_
    refine .bind ((load_dir_never null_ne_panic _).sat (load_dir_sat any_stopped)) fun parent => ?_
    refine .bind ((fetch_inode_noPanic _ _ _).pre ?_) fun error => ?_
    · rintro s ⟨-, rfl, -, rfl, h⟩
      exact h
    · refine Never.ite (.bind (kfree_never spin_ne_panic bounds_ne_panic _ _) fun _ => ?_) (.pure _)
      exact .bind (store_direntry_never null_ne_panic _ _) fun _ => .pure _
  · refine Never.bind (load_fsinfo_never null_ne_panic _) fun f => .bind (local_array_never _) fun buf => ?_
    refine loop_never null_ne_panic bounds_ne_panic spin_ne_panic ?_ (by decide) _ _ _ _ _ _ _ _ _
    intro h
    rw [hd] at h
    cases h

theorem no_mount_never (f m : Nat) (error : Int) : Never .panic (no_mount f m error) :=
  .bind (kfree_never spin_ne_panic bounds_ne_panic _ _) fun _ =>
    .bind (kfree_never spin_ne_panic bounds_ne_panic _ _) fun _ => .pure _

theorem no_mount_free_gdt_never (g f m : Nat) (error : Int) : Never .panic (no_mount_free_gdt g f m error) :=
  .bind (kfree_never spin_ne_panic bounds_ne_panic _ _) fun _ => no_mount_never _ _ _

/-- The filesystem that the entry of the mount point will belong to. -/
def entryMnt (s : Vfs) (mnt_point m : Nat) : Nat :=
  let parent := (s.direntries (s.dirs mnt_point).dir_entry).parent
  if parent = mnt_point then m else (s.dirs parent).fs_info

theorem mount_tree_noPanic (hd : env.debug = false) (mnt_point g f m : Nat) :
    Sat (fun s => Divides (s.volume (entryMnt s mnt_point m)).superblock 2) (mount_tree env mnt_point g f m)
      (fun _ _ => True) noPanic := by
  refine .bind ((load_dir_never null_ne_panic _).sat (load_dir_sat any_stopped)) fun d => ?_
  refine .bind (Q := fun _ s => (s.dirs mnt_point).dir_entry = d.dir_entry ∧
    Divides (s.volume (s.dirs (s.direntries d.dir_entry).parent).fs_info).superblock 2)
    ((store_dir_never null_ne_panic _ _).sat (store_dir_sat ?_ any_stopped)) fun _ => ?_
  · rintro s ⟨-, rfl, h⟩ -
    refine ⟨by simp, ?_⟩
    unfold entryMnt at h
    by_cases hp : (s.direntries (s.dirs mnt_point).dir_entry).parent = mnt_point
    · rw [if_pos hp] at h
      dsimp only
      rw [hp, Function.update_self]
      exact h
    · rw [if_neg hp] at h
      dsimp only
      rw [Function.update_of_ne hp]
      exact h
  refine .bind (Q := fun _ s => EntryDivides s (s.dirs mnt_point).dir_entry)
    ((store_direntry_never null_ne_panic _ _).sat (store_direntry_sat ?_ any_stopped)) fun _ => ?_
  · rintro s ⟨he, h⟩ -
    unfold EntryDivides
    dsimp only
    rw [he, Function.update_self]
    exact h
  refine .bind (load_noPanic hd) fun error => ?_
  exact Never.ite (.bind (store_dir_never null_ne_panic _ _) fun _ => no_mount_free_gdt_never _ _ _ _) (.pure _)

end

/-! ## A mount -/

section
variable {env : Env} {s t : Vfs} {sb : List UInt8} {m n p part mnt_point : Nat}

/-- No run of the release build of `ext2_mount` on a device that delivers `sb` divides by
zero, unless the root inode is looked for in another filesystem that has no place for it.
(The debug build adds assertions, and calls of `fetch_inode`.) -/
def MountSafe (sb : List UInt8) : Prop :=
  ∀ env s t part mnt_point, env.debug = false → (env.superblockReply s part).stored = sb →
    ((s.direntries (s.dirs mnt_point).dir_entry).parent = mnt_point ∨
      Divides (s.volume (s.dirs (s.direntries (s.dirs mnt_point).dir_entry).parent).fs_info).superblock 2) →
    ext2_mount env part mnt_point s ≠ (.error .panic, t)

theorem readSuperblock_fields (hlen : sb.length = 1024) (h : (env.superblockReply s part).stored = sb) :
    total_blocks (env.readSuperblock s part) = total_blocks sb ∧
      blocks_per_group (env.readSuperblock s part) = blocks_per_group sb ∧
      ∀ n, Divides (env.readSuperblock s part) n ↔ Divides sb n := by
  have hread : env.readSuperblock s part =
      sb ++ (s.fsinfos (env.kmalloc s.kmallocs s.blocks 2048)).superblock.drop sb.length := by
    rw [Env.readSuperblock, h, overwrite]
  unfold Divides total_blocks blocks_per_group total_inodes inodes_per_group inode_size
  rw [hread]
  refine ⟨le32_append (by omega), le32_append (by omega), fun n => ?_⟩
  rw [le32_append (by omega), le32_append (by omega), le16_append (by omega)]

/-- A filesystem has the superblock it had, or the one that was read. -/
theorem tabled_superblock (env : Env) (s : Vfs) (part f m g x : Nat) (q : Request) (G : Nat → List UInt8) :
    (({ (env.mounting s part f m).tabled f g q with gdts := G } : Vfs).volume x).superblock =
      if x = m ∨ (s.mntps x).fs_data = f then env.readSuperblock s part else (s.volume x).superblock := by
  have hm : ((env.mounting s part f m).tabled f g q).mntps = Function.update s.mntps m ⟨f, part, .ext2fs⟩ :=
    allocated_mntps _ _ _
  have hf : ∀ y, (((env.mounting s part f m).tabled f g q).fsinfos y).superblock =
      if y = f then env.readSuperblock s part else (s.fsinfos y).superblock := by
    intro y
    by_cases hy : y = f <;> simp [Vfs.tabled, Env.mounting, Vfs.described, Vfs.asked, hy]
  simp only [Vfs.volume, hm, hf]
  by_cases hx : x = m
  · simp [hx]
  · simp [hx]

theorem mountSafe_of (hlen : sb.length = 1024) (hb : blocks_per_group sb ≠ 0) (hdiv : Divides sb 2) : MountSafe sb := by
  intro env s t part mnt_point hd hsb hother h
  obtain ⟨-, hbpg, hfields⟩ := readSuperblock_fields hlen hsb
  rcases ext2_mount_settled settled_panic h with ⟨-, hx, -⟩ | ⟨hp, -, hl, f, m, hf0, hm0, -, -, hrun⟩
  · cases hx
  by_cases hsuper : (env.superblockReply s part).ret < SB_SECT_SIZE
  · rw [if_pos hsuper] at hrun
    exact (no_mount_never f m _ _ trivial).2 _ _ hrun rfl
  rw [if_neg hsuper, mount_table_mounting env s part mnt_point f m hp hf0 hl (hbpg ▸ hb) rfl] at hrun
  generalize hg : env.kmalloc (s.kmallocs + 2) _ _ = g at hrun
  have hrest : Sat (fun s' => s' = (env.mounting s part f m).tabled f g
      (s.tableRequest part (env.readSuperblock s part)))
      (do
        store_gdt g (env.tableReply s part).stored
        if (env.tableReply s part).ret < 0 then no_mount_free_gdt g f m (env.tableReply s part).ret
        else mount_tree env mnt_point g f m) (fun _ _ => True) noPanic := by
    have hroot : ∀ G, Divides (({ (env.mounting s part f m).tabled f g
        (s.tableRequest part (env.readSuperblock s part)) with
        gdts := G } : Vfs).volume (entryMnt s mnt_point m)).superblock 2 := by
      intro G
      rw [tabled_superblock]
      split
      · exact (hfields 2).2 hdiv
      · rename_i hne
        rcases hother with hparent | hother
        · exact absurd (.inl (if_pos hparent)) hne
        · by_cases hparent : (s.direntries (s.dirs mnt_point).dir_entry).parent = mnt_point
          · exact absurd (.inl (if_pos hparent)) hne
          · rwa [entryMnt, if_neg hparent]
    have hstore := store_gdt_never null_ne_panic bounds_ne_panic g (env.tableReply s part).stored
    refine .bind (Q := fun _ s' => Divides (s'.volume (entryMnt s' mnt_point m)).superblock 2)
      (hstore.sat (store_gdt_sat ?_ ?_ any_stopped)) fun _ => ?_
    · rintro _ rfl
      have := hroot ((env.mounting s part f m).tabled f g (s.tableRequest part (env.readSuperblock s part))).gdts
      unfold entryMnt at this ⊢
      rw [tabled_direntries, tabled_dirs]
      exact this
    · rintro _ rfl -
      have := hroot (Function.update
        ((env.mounting s part f m).tabled f g (s.tableRequest part (env.readSuperblock s part))).gdts g
        (overwrite (((env.mounting s part f m).tabled f g (s.tableRequest part (env.readSuperblock s part))).gdts g)
          (env.tableReply s part).stored))
      unfold entryMnt at this ⊢
      dsimp only
      rw [tabled_direntries, tabled_dirs]
      exact this
    · refine .ite (fun _ => ?_) fun _ => ?_
      · exact (no_mount_free_gdt_never _ _ _ _).anyway
      · exact mount_tree_noPanic hd _ _ _ _
  exact (hrest _ rfl).2 _ _ hrun rfl

/-- A release build, and a device that delivers `sb` twice and nothing behind it. -/
def superblockEnv (sb : List UInt8) : Env where
  debug := false
  kmalloc _ blocks _ := nextAddress blocks
  read i _ sectors _ := ⟨sectors, if i < 2 then sb else []⟩
  stack _ _ := 0

/-- The root directory before anything is mounted, with an inode for its entry. -/
def suppliedVfs : Vfs :=
  { bareVfs with
    direntries := fun _ => ⟨F_DIR, 0, 0, 0, List.replicate 256 0, 0, root_dir, root_dir, 0, 0x700⟩
    blocks := (0x700, .inode) :: bareVfs.blocks }

theorem load_panic {dir : Nat} (hd : env.debug = false) (hdir : dir ≠ 0) (h0 : (s.dirs dir).entries = 0)
    (hfs : (s.dirs dir).fs_info ≠ 0) (he : (s.dirs dir).dir_entry ≠ 0)
    (hpay : (s.direntries (s.dirs dir).dir_entry).payload ≠ 0)
    (hpar : (s.direntries (s.dirs dir).dir_entry).parent ≠ 0)
    (hm : Mounted s (s.dirs (s.direntries (s.dirs dir).dir_entry).parent).fs_info)
    (h : ¬ EntryDivides s (s.dirs dir).dir_entry) : ext2_get_direntries env dir s = (.error .panic, s) := by
  have halloc : alloc_inode env (s.dirs dir).dir_entry s = (.ok (), s) := by
    unfold alloc_inode
    rw [bind_of_ok (load_direntry_run he s), if_neg hpay]
    rfl
  have hinode : direntry_get_inode env (s.dirs dir).dir_entry s = (.error .panic, s) := by
    unfold direntry_get_inode
    rw [bind_of_ok halloc, bind_of_ok (load_direntry_run he s), bind_of_ok (load_dir_run hpar s)]
    exact bind_of_error (fetch_inode_panic hm h)
  unfold ext2_get_direntries
  rw [assert_off hd, bind_of_ok (pure_apply _ _), bind_of_ok (load_dir_run hdir s), assert_off hd,
    bind_of_ok (pure_apply _ _), bind_of_ok (load_mntp_run hfs s), if_neg (not_not_intro h0)]
  exact bind_of_error hinode

theorem superblockEnv_reply (hlen : sb.length = 1024) :
    (superblockEnv sb).superblockReply suppliedVfs 0x600 = ⟨2, sb⟩ := by
  have h : (superblockEnv sb).superblockReply suppliedVfs 0x600 = ⟨2, sb.take (SB_SECT_SIZE * IO_BLOCK_SIZE)⟩ := rfl
  rw [h, List.take_of_length_le (by rw [hlen]; decide)]

theorem superblockEnv_probed (hlen : sb.length = 1024) (hsig : signature sb = 0xef53) :
    (superblockEnv sb).probed suppliedVfs 0x600 = SUCCESS := by
  have hreply : (superblockEnv sb).reply suppliedVfs.reads.length
      (suppliedVfs.request 0x600 SB_SECT_SIZE SB_SECT_OFFSET) =
      ⟨2, sb⟩ := by
    rw [← superblockEnv_reply hlen]
    rfl
  have hsig' : ∀ old : List UInt8, signature (overwrite old sb) = 0xef53 := by
    intro old
    rw [overwrite, signature, le16_append (by omega)]
    exact hsig
  unfold Env.probed
  rw [hreply]
  simp only [hsig']
  decide

theorem superblockEnv_run (hlen : sb.length = 1024) (hsig : signature sb = 0xef53) : ∃ f m, f ≠ 0 ∧ m ≠ 0 ∧
    ext2_mount (superblockEnv sb) 0x600 root_dir suppliedVfs =
      mount_table (superblockEnv sb) root_dir f m ((superblockEnv sb).mounting suppliedVfs 0x600 f m) := by
  refine ⟨nextAddress suppliedVfs.blocks, nextAddress ((nextAddress suppliedVfs.blocks, .ext2fs) :: suppliedVfs.blocks),
    nextAddress_ne _, nextAddress_ne _, ?_⟩
  rw [ext2_mount_run (superblockEnv sb) suppliedVfs 0x600 root_dir ⟨by decide, by decide⟩
    (by rw [superblockEnv_probed hlen hsig]; decide) rfl rfl (nextAddress_ne _) rfl (nextAddress_ne _),
    if_neg (by rw [superblockEnv_reply hlen]; exact (by decide : ¬ (2 : Int) < SB_SECT_SIZE))]
  rfl

/-- A superblock without blocks in a group, or without a place for the root inode, stops the machine. -/
theorem of_mountSafe (hlen : sb.length = 1024) (hsig : signature sb = 0xef53) (h : MountSafe sb) :
    blocks_per_group sb ≠ 0 ∧ Divides sb 2 := by
  have hsb : ((superblockEnv sb).superblockReply suppliedVfs 0x600).stored = sb := by rw [superblockEnv_reply hlen]
  obtain ⟨-, hbpg, hfields⟩ := readSuperblock_fields hlen hsb
  obtain ⟨f, m, hf0, hm0, hrun⟩ := superblockEnv_run hlen hsig
  have hno := fun t => h (superblockEnv sb) suppliedVfs t 0x600 root_dir rfl hsb (.inl rfl)
  rw [hrun] at hno
  have hb : blocks_per_group sb ≠ 0 := by
    intro hb
    refine hno _ (mount_table_panic hf0 ?_)
    rw [mounting_fsinfos]
    exact hbpg.trans hb
  refine ⟨hb, ?_⟩
  by_contra hdiv
  -- the table is asked for, and the root directory loaded
  have hgroups : blocks_per_group ((superblockEnv sb).readSuperblock suppliedVfs 0x600) ≠ 0 := hbpg.symm ▸ hb
  have htable : (superblockEnv sb).tableReply suppliedVfs 0x600 =
      ⟨gdt_size_sectors (gdCount ((superblockEnv sb).readSuperblock suppliedVfs 0x600)), []⟩ := by
    have hreply : (superblockEnv sb).tableReply suppliedVfs 0x600 =
        ⟨gdt_size_sectors (gdCount ((superblockEnv sb).readSuperblock suppliedVfs 0x600)),
          ([] : List UInt8).take (gdt_size_sectors (gdCount ((superblockEnv sb).readSuperblock suppliedVfs 0x600)) *
            IO_BLOCK_SIZE)⟩ := rfl
    rw [hreply, List.take_nil]
  have hrun' := mount_table_mounting (superblockEnv sb) suppliedVfs 0x600 root_dir f m ⟨by decide, by decide⟩ hf0 rfl
    hgroups rfl
  rw [htable] at hrun'
  generalize hg : (superblockEnv sb).kmalloc _ _ _ = g at hrun'
  have hg0 : g ≠ 0 := hg ▸ nextAddress_ne _
  generalize hv : ((superblockEnv sb).mounting suppliedVfs 0x600 f m).tabled f g _ = v at hrun'
  have hvdirs : v.dirs = suppliedVfs.dirs := hv ▸ tabled_dirs _ _ _ _
  have hventries : v.direntries = suppliedVfs.direntries := hv ▸ tabled_direntries _ _ _ _
  have hvmntps : v.mntps m = ⟨f, 0x600, .ext2fs⟩ := by
    rw [← hv, Vfs.tabled, allocated_mntps]
    exact Function.update_self _ _ _
  have hvf : (v.fsinfos f).part = 0x600 ∧ (v.fsinfos f).group_descriptors = g ∧
      (v.fsinfos f).superblock = (superblockEnv sb).readSuperblock suppliedVfs 0x600 := by
    rw [← hv]
    simp [Vfs.tabled, mounting_fsinfos]
  have hvparts : v.parts = suppliedVfs.parts := hv ▸ allocated_parts _ _ _
  have hmounted : Mounted (v.rooted root_dir m) m := by
    refine ⟨hm0, ?_, ?_, ?_, ?_⟩ <;> simp only [Vfs.rooted, Vfs.volume, hvmntps, hvf, hvparts]
    · exact hf0
    · exact hg0
    · decide
    · decide
  have hdir : (v.rooted root_dir m).dirs root_dir = ⟨2, m, root_dir, root_dir, root_direntry, 0⟩ := by
    simp only [Vfs.rooted, hvdirs, Function.update_self]
    rfl
  have hentry : (v.rooted root_dir m).direntries root_direntry =
      ⟨F_DIR, 0, 0, 0, List.replicate 256 0, 2, root_dir, root_dir, 0, 0x700⟩ := by
    simp only [Vfs.rooted, hvdirs, hventries]
    exact Function.update_self _ _ _
  have hsuper : ((v.rooted root_dir m).volume m).superblock = (superblockEnv sb).readSuperblock suppliedVfs 0x600 := by
    simp only [Vfs.rooted, Vfs.volume, hvmntps, hvf]
  refine hno (v.rooted root_dir m) (hrun'.trans ?_)
  rw [bind_of_ok (show store_gdt g [] v = (.ok (), v) from rfl), if_neg (by exact Int.not_lt.2 (Int.natCast_nonneg _)),
    mount_tree_run _ _ _ _ _ (by decide) (by rw [hvdirs]; decide)]
  refine bind_of_error (load_panic rfl (by decide) ?_ ?_ ?_ ?_ ?_ ?_ ?_)
  all_goals simp only [EntryDivides, hdir, hentry]
  · exact hm0
  · decide
  · decide
  · decide
  · exact hmounted
  · rw [hsuper, hfields]
    exact hdiv

end

/-! ## An inode -/

/-- The filesystem at `m` was mounted with the superblock `sb`, and has a table of no fewer
than `gd_count` descriptors. -/
structure MountedWith (sb : List UInt8) (s : Vfs) (m : Nat) : Prop where
  mounted : Mounted s m
  superblock : (s.volume m).superblock = sb
  gd_count : (s.fsinfos (s.mntps m).fs_data).gd_count = gdCount sb
  table : 32 * (s.fsinfos (s.mntps m).fs_data).gd_count ≤ (s.volume m).table.length

/-- There is no inode `n`, or no group for it. -/
def Unservable (sb : List UInt8) (n : Nat) : Prop :=
  n = 0 ∨ total_inodes sb < n ∨ gdCount sb ≤ (n - 1) / inodes_per_group sb

/-- No run of `fetch_inode` for inode `n` stops: it divides by zero nowhere, takes one of the
`gd_count` descriptors, reads within `inode_buf` and writes no more than an `inode_struct`.
An inode that is not there is reported. -/
def FetchSafe (sb : List UInt8) (n : Nat) : Prop :=
  ∀ env s m p, MountedWith sb s m → p ≠ 0 → (p, .inode) ∈ s.blocks →
    ∃ r t, fetch_inode env n m p s = (.ok r, t) ∧ (Unservable sb n → r = -ENOENT)

/-- Inode `n` is refused, or has a place in the table of one of the groups, and fits into an `inode_struct`. -/
def Placed (sb : List UInt8) (n : Nat) : Prop :=
  n ≤ total_inodes sb → 1 ≤ n ∧ inodes_per_group sb ≠ 0 ∧ 1 ≤ inode_size sb ∧ inode_size sb ≤ 128 ∧
    (n - 1) / inodes_per_group sb < gdCount sb

/-- A filesystem with the superblock `sb` and a table of exactly `gd_count` descriptors. -/
def superblockVfs (sb : List UInt8) : Vfs :=
  { smallVfs with
    fsinfos := fun _ => ⟨sb, 0x600, block_size_of sb, gdCount sb, 0x500⟩
    gdts := fun _ => List.replicate (32 * gdCount sb) 0
    blocks := (0x700, .inode) :: smallVfs.blocks }

section
variable {env : Env} {s : Vfs} {sb : List UInt8} {m n p : Nat}

theorem superblockVfs_mounted (sb : List UInt8) : MountedWith sb (superblockVfs sb) 0x300 where
  mounted := ⟨by decide, (by decide : (0x400 : Nat) ≠ 0), (by decide : (0x500 : Nat) ≠ 0),
    (by decide : (0x600 : Nat) ≠ 0), (by decide : (1 : Nat) ≠ 0)⟩
  superblock := rfl
  gd_count := rfl
  table := by
    simp only [Vfs.volume, superblockVfs, List.length_replicate]
    exact le_refl _

theorem resize_length (k : Nat) (buf : List UInt8) : (resize k buf).length = k := by
  simp [resize]

/-- The memory for the table is as long as the descriptors, up to where its size leaves 32 bits. -/
theorem gdtBytes_le (h : 32 * gdCount sb + IO_BLOCK_SIZE ≤ 2 ^ 32) : 32 * gdCount sb ≤ gdtBytes sb := by
  have hio : IO_BLOCK_SIZE = 512 := rfl
  rw [hio] at h
  unfold gdtBytes gdt_size_sectors
  simp only [hio]
  split <;> omega

/-- This is what `ext2_mount` comes to before it reads the table. -/
theorem tabled_mountedWith {part f g : Nat} {q : Request} (hp : Attached s part) (hf0 : f ≠ 0) (hm0 : m ≠ 0)
    (hg0 : g ≠ 0) (h : 32 * gdCount (env.readSuperblock s part) + IO_BLOCK_SIZE ≤ 2 ^ 32) :
    MountedWith (env.readSuperblock s part) ((env.mounting s part f m).tabled f g q) m := by
  have hmntp : ((env.mounting s part f m).tabled f g q).mntps m = ⟨f, part, .ext2fs⟩ := by
    rw [Vfs.tabled, allocated_mntps]
    exact Function.update_self _ _ _
  have hfsinfo : ((env.mounting s part f m).tabled f g q).fsinfos f =
      ⟨env.readSuperblock s part, part, block_size_of (env.readSuperblock s part),
        gdCount (env.readSuperblock s part), g⟩ := by
    simp [Vfs.tabled, mounting_fsinfos]
  have hparts : ((env.mounting s part f m).tabled f g q).parts = s.parts := allocated_parts _ _ _
  have htable : (((env.mounting s part f m).tabled f g q).gdts g).length = gdtBytes (env.readSuperblock s part) := by
    simp only [Vfs.tabled, mounting_fsinfos, Function.update_self]
    exact resize_length _ _
  refine ⟨⟨hm0, ?_, ?_, ?_, ?_⟩, ?_, ?_, ?_⟩ <;> simp only [Vfs.volume, hmntp, hfsinfo, hparts]
  · exact hf0
  · exact hg0
  · exact hp.1
  · exact hp.2
  · rw [htable]
    exact gdtBytes_le h

theorem fetchSafe_of (hn : n < 2 ^ 32) (h : Placed sb n) : FetchSafe sb n := by
  intro env s m p hm hp hlive
  obtain ⟨hmounted, hsb, hcount, htable⟩ := hm
  rw [fetch_inode_eq]
  by_cases hknown : n ≤ total_inodes sb
  · obtain ⟨h1, hipg, hpos, hle, hgroup⟩ := h hknown
    have hfit : inode_size sb ≤ IO_BLOCK_SIZE := hle.trans (by decide)
    have hper := (perSector_ne_iff (inode_size sb)).2 ⟨hpos, hfit⟩
    have hserves : (s.volume m).Serves n := by
      refine ⟨?_, ?_, ?_, ?_, ?_⟩ <;> simp only [Volume.perSector, Volume.group, hsb]
      · exact hknown
      · exact hipg
      · exact hper.1
      · exact hper.2
      · rw [sub32_eq hn h1]
        rw [hcount] at htable
        omega
    have hsource : inode_source env n m s = _ := inode_source_run hmounted hserves
    by_cases hr : (env.inodeReply s m n).ret < 0
    · rw [if_pos hr] at hsource
      refine ⟨_, _, bind_of_ok hsource, ?_⟩
      rintro (h0 | htotal | hmissing) <;> omega
    · rw [if_neg hr] at hsource
      have hlen : (env.inodeBytes s m n).length ≤ 128 := by
        rw [inodeBytes_length hserves.small, hsb]
        exact hle
      have hstore : store_inode p (env.inodeBytes s m n) (s.asked (s.inodeRequest m n)) =
          (.ok (), (s.asked (s.inodeRequest m n)).copied p (env.inodeBytes s m n)) := by
        unfold store_inode
        rw [bind_of_ok (get_apply _), if_neg hp]
        exact congrFun (if_pos ⟨hlive, hlen⟩) _
      refine ⟨_, _, (bind_of_ok hsource).trans (bind_of_ok hstore), ?_⟩
      rintro (h0 | htotal | hmissing) <;> omega
  · have hsource : inode_source env n m s = _ := inode_source_missing hmounted (by rw [hsb]; omega)
    exact ⟨_, _, bind_of_ok hsource, fun _ => rfl⟩

theorem placed_of (hn : n < 2 ^ 32) (h : FetchSafe sb n) : Placed sb n := by
  intro hknown
  have hm := superblockVfs_mounted sb
  obtain ⟨r, t, hrun, hmissing⟩ := h (diskEnv fun _ => 0) (superblockVfs sb) 0x300 0x700 hm (by decide)
    (List.mem_cons_self ..)
  have hserved := (fetch_inode_sat (P := fun s => s = superblockVfs sb) (Q := fun r _ =>
    ((superblockVfs sb).volume 0x300).Serves n ∧ r = SUCCESS ∧ inode_size sb ≤ 128) ?_ ?_ ?_ any_stopped
    fun _ _ _ _ => trivial).of_run hrun
  · obtain ⟨⟨-, hipg, hsize, hper, hdescribed⟩, hr, hle⟩ := hserved
    have h1 : 1 ≤ n := by
      apply Nat.pos_of_ne_zero
      intro h0
      have := hmissing (.inl h0)
      rw [hr] at this
      exact absurd this (by decide)
    refine ⟨h1, hipg, ((perSector_ne_iff _).1 ⟨hsize, hper⟩).1, hle, ?_⟩
    have hlen : ((superblockVfs sb).volume 0x300).table.length = 32 * gdCount sb := List.length_replicate ..
    rw [hlen, Volume.group, sub32_eq hn h1] at hdescribed
    simp only [hm.superblock] at hdescribed
    omega
  · rintro _ rfl hlt
    rw [hm.superblock] at hlt
    omega
  · rintro _ rfl - hr
    exact absurd hr (by exact Int.not_lt.2 (by decide : (0 : Int) ≤ ((1 : Nat) : Int)))
  · rintro _ rfl hserves - - - hlen
    rw [inodeBytes_length hserves.small] at hlen
    exact ⟨hserves, rfl, hlen⟩

theorem Placed.divides (h : Placed sb n) : Divides sb n := fun hn =>
  ⟨(h hn).2.1, (h hn).2.2.1, (h hn).2.2.2.1.trans (by decide)⟩

/-- A superblock lets the driver stop nowhere, and the root inode and inode `n` be read or refused,
exactly if blocks come in groups and both inodes have a place. -/
theorem superblock_safe (hlen : sb.length = 1024) (hsig : signature sb = 0xef53) (hn : n < 2 ^ 32) :
    MountSafe sb ∧ FetchSafe sb 2 ∧ FetchSafe sb n ↔ blocks_per_group sb ≠ 0 ∧ Placed sb 2 ∧ Placed sb n := by
  constructor
  · rintro ⟨hmount, hroot, hfetch⟩
    obtain ⟨hb, -⟩ := of_mountSafe hlen hsig hmount
    exact ⟨hb, placed_of (by decide) hroot, placed_of hn hfetch⟩
  · rintro ⟨hb, hroot, hplaced⟩
    exact ⟨mountSafe_of hlen hb hroot.divides, fetchSafe_of (by decide) hroot, fetchSafe_of hn hplaced⟩

end

/-- The superblock of the small filesystem, in full, with inodes of `size` bytes. -/
def sizedSuperblock (size : Nat) : List UInt8 :=
  ((smallSuperblock ++ List.replicate 934 0).set 88 (UInt8.ofNat (size % 256))).set 89 (UInt8.ofNat (size / 256))

theorem sizedSuperblock_placed {n : Nat} (h : n ∈ [2, 16]) : Placed (sizedSuperblock 128) n := by
  have hipg : inodes_per_group (sizedSuperblock 128) ≠ 0 := by decide +kernel
  have hsize : 1 ≤ inode_size (sizedSuperblock 128) ∧ inode_size (sizedSuperblock 128) ≤ 128 := by decide +kernel
  simp only [List.mem_cons, List.not_mem_nil, or_false] at h
  rcases h with rfl | rfl
  · exact fun _ => ⟨by decide, hipg, hsize.1, hsize.2, by decide +kernel⟩
  · exact fun _ => ⟨by decide, hipg, hsize.1, hsize.2, by decide +kernel⟩

theorem superblock_safe_small :
    MountSafe (sizedSuperblock 128) ∧ FetchSafe (sizedSuperblock 128) 2 ∧ FetchSafe (sizedSuperblock 128) 16 :=
  (superblock_safe (by decide +kernel) (by decide +kernel) (by decide)).2
    ⟨by decide +kernel, sizedSuperblock_placed (by decide), sizedSuperblock_placed (by decide)⟩

/-- Inodes of 256 bytes, as filesystems have them today, do not fit into an `inode_struct`. -/
theorem superblock_wide : signature (sizedSuperblock 256) = 0xef53 ∧
    ¬ (MountSafe (sizedSuperblock 256) ∧ FetchSafe (sizedSuperblock 256) 2 ∧ FetchSafe (sizedSuperblock 256) 11) := by
  refine ⟨by decide +kernel, fun h => ?_⟩
  obtain ⟨-, -, -, hle, -⟩ := placed_of (by decide) h.2.2 (by decide +kernel)
  exact absurd hle (by decide +kernel)

end Ulmix.Fs

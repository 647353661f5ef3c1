import Ulmix.Fs.DoMount
import Ulmix.Fs.OnDisk
/-!
# What a mount that returns no error has done

Of the reads of `ext2_mount` the second one of the superblock is checked for its
length, but the number of sectors is then returned as it is, and a caller takes
every number from 0 on for success. The read of the descriptors is checked for
errors only. A directory that has entries already is not loaded again. So a
mount that is reported to have succeeded has mounted the root directory of the
partition exactly if it was read in full and is what came into the buffer, or
what was there before (`mounted_iff`).
-/
open Ulmix.Lib Ulmix.Lib.Prog

namespace Ulmix.Fs

/-- The partition at `part`, with the disks of all devices. -/
def Vfs.image (s : Vfs) (disks : Nat → Nat → UInt8) (part : Nat) : Image :=
  ⟨disks (s.parts part).bd, (s.parts part).sect_offset * IO_BLOCK_SIZE⟩

/-- In `t` the mount point leads to the filesystem that was read from `part`. -/
structure Describes (env : Env) (s : Vfs) (part mnt_point : Nat) (t : Vfs) : Prop where
  mntp_part : (t.mntps (t.dirs mnt_point).fs_info).part = part
  fs_info : (t.mntps (t.dirs mnt_point).fs_info).fs_info = .ext2fs
  fs_part : (t.volume (t.dirs mnt_point).fs_info).part = part
  superblock : (t.volume (t.dirs mnt_point).fs_info).superblock = env.readSuperblock s part
  block_size : (t.volume (t.dirs mnt_point).fs_info).block_size = block_size_of (env.readSuperblock s part)
  table : ∃ old, (t.volume (t.dirs mnt_point).fs_info).table = overwrite old (env.tableReply s part).stored

/-- All sectors of the superblock and of the descriptors were read. -/
def AllRead (env : Env) (s : Vfs) (part : Nat) : Prop :=
  (env.superblockReply s part).ret = SB_SECT_SIZE ∧
    (env.tableReply s part).ret = gdt_size_sectors (gdCount (env.readSuperblock s part))

/-- What a mount that was started in `s` and has succeeded should leave. -/
structure RightlyMounted (env : Env) (disks : Nat → Nat → UInt8) (s : Vfs) (part mnt_point : Nat) (t : Vfs) : Prop where
  probed : (env.reply s.reads.length (s.request part SB_SECT_SIZE SB_SECT_OFFSET)).ret = SB_SECT_SIZE
  read : AllRead env s part
  describes : Describes env s part mnt_point t
  root : ∃ c, UsedContents (s.image disks part).root c ∧ ListedAs t mnt_point c

/-- The buffer the records of `dir` are read from: what the device delivers of the first block, over what was on the
stack. -/
def Env.listBuffer (env : Env) (s : Vfs) (dir : Nat) : List UInt8 :=
  overwrite ((List.range (s.fsinfos (s.mntps (s.dirs dir).fs_info).fs_data).block_size).map
    (env.stack (s.reads.length + 1))) (env.blockReply s dir).stored

/-- A negative number comes back from the probe, the superblock, the table or the block of the directory. -/
def StopsWithError (env : Env) (s : Vfs) (part mnt_point : Nat) : Prop :=
  env.probed s part < 0 ∨ (env.superblockReply s part).ret < 0 ∨
    (env.superblockReply s part).ret = SB_SECT_SIZE ∧ ((env.tableReply s part).ret < 0 ∨
      Unloaded (env.handedOver s part mnt_point) mnt_point ∧ ¬ FirstBlockServed env
        (env.handedOver s part mnt_point) mnt_point)

/-- The files of the root directory are in the buffer, or in the list that is there already. -/
def ListsRoot (env : Env) (disks : Nat → Nat → UInt8) (s : Vfs) (part mnt_point : Nat) : Prop :=
  ∃ c, UsedContents (s.image disks part).root c ∧
    if (s.dirs mnt_point).entries = 0 then Contents (env.listBuffer (env.handedOver s part mnt_point) mnt_point) c
    else ListedAs (s.rooted mnt_point 0) mnt_point c

section
variable {env : Env} {disks : Nat → Nat → UInt8} {s t : Vfs} {part mnt_point dir : Nat} {r : Int} {c : List File}

/-! ## The list -/

/-- A call that returns has read the block into the buffer, if it has any bytes. -/
theorem listBuffer_eq {inode : Nat} {s' : Vfs} (h0 : (s.dirs dir).entries = 0)
    (hrun : ext2_get_direntries env dir s = (.ok r, t))
    (hi : direntry_get_inode env (s.dirs dir).dir_entry s = (.ok inode, s')) :
    env.listBuffer s dir = env.firstBlock s' (s.fsinfos (s.mntps (s.dirs dir).fs_info).fs_data) inode := by
  by_cases hbs : 0 < (s.fsinfos (s.mntps (s.dirs dir).fs_info).fs_data).block_size
  · obtain ⟨inode', s₁, hi', hloop, -, hfs⟩ := load_cases h0 hrun
    cases hi.symm.trans hi'
    obtain ⟨hne, -⟩ := loop_begins (hfs ▸ hbs) hloop
    obtain ⟨-, -, -, hreads, -⟩ := ((direntry_get_inode_asks env _ s).of_run hi).2 hne
    rw [Env.listBuffer, Env.firstBlock, firstReply_eq hi hne, hreads]
    rfl
  · have hlist : (env.listBuffer s dir).length = 0 := by
      have hstored : (env.blockReply s dir).stored.length ≤
          (s.fsinfos (s.mntps (s.dirs dir).fs_info).fs_data).block_size :=
        (List.length_take_le ..).trans (Nat.div_mul_le_self _ _)
      rw [Env.listBuffer, overwrite_within] <;> simp <;> omega
    have hfirst := firstBlock_length env s' (s.fsinfos (s.mntps (s.dirs dir).fs_info).fs_data) inode
    rw [List.length_eq_zero_iff.1 hlist, List.length_eq_zero_iff.1 (hfirst.trans (by omega))]

/-- What a load leaves is what was in the buffer. -/
theorem load_listedAs (hf : FreshBlocks env) (ha : Anchored s dir) (h0 : (s.dirs dir).entries = 0)
    (hrun : ext2_get_direntries env dir s = (.ok r, t)) (hr : 0 ≤ r) :
    ListedAs t dir c ↔ Contents (env.listBuffer s dir) c := by
  obtain ⟨-, inode, s', l, is, hi, -, hwalk, hbuilt, hlist⟩ := load_made hf ha h0 hrun hr
  rw [listBuffer_eq h0 hrun hi]
  exact listedAs_iff hwalk hbuilt hlist

theorem handedOver_dirs (env : Env) (s : Vfs) (part mnt_point : Nat) : (env.handedOver s part mnt_point).dirs =
    Function.update s.dirs mnt_point { s.dirs mnt_point with
      fs_info := env.kmalloc (s.kmallocs + 1) ((env.kmalloc s.kmallocs s.blocks 2048, .ext2fs) :: s.blocks) 12
      mnt_point := mnt_point, inode_no := 2 } := by
  unfold Env.handedOver Vfs.rooted
  dsimp only
  rw [tabled_dirs]
  rfl

theorem handedOver_direntries (env : Env) (s : Vfs) (part mnt_point : Nat) :
    (env.handedOver s part mnt_point).direntries = (s.rooted mnt_point 0).direntries := by
  unfold Env.handedOver Vfs.rooted
  dsimp only
  rw [tabled_dirs, tabled_direntries]
  rfl

theorem handedOver_anchored (ha : Anchored s mnt_point) : Anchored (env.handedOver s part mnt_point) mnt_point := by
  have hb : ∀ b ∈ s.blocks, b ∈ (env.handedOver s part mnt_point).blocks := by
    intro b hb
    unfold Env.handedOver Vfs.rooted Vfs.tabled
    refine mem_allocated ?_
    simp only [Env.mounting, Vfs.described, Vfs.asked, List.mem_cons]
    exact .inr (.inr hb)
  refine ⟨hb _ ha.own, hb _ ?_⟩
  rw [handedOver_dirs, Function.update_self]
  exact ha.parent

/-! ## The filesystem -/

theorem handedOver_describes (env : Env) (s : Vfs) (part mnt_point : Nat) :
    Describes env s part mnt_point (env.handedOver s part mnt_point) := by
  have hinfo : ((env.handedOver s part mnt_point).dirs mnt_point).fs_info =
      env.kmalloc (s.kmallocs + 1) ((env.kmalloc s.kmallocs s.blocks 2048, .ext2fs) :: s.blocks) 12 := by
    rw [handedOver_dirs, Function.update_self]
  refine ⟨?_, rfl, ?_, ?_, ?_, ?_⟩
  all_goals
    rw [hinfo]
    simp only [Env.handedOver, Vfs.rooted, Vfs.tabled, Env.mounting, Vfs.described, Vfs.asked, Vfs.volume,
      allocated_mntps, Function.update_self]
  exact ⟨_, rfl⟩

/-- Loading changes nothing of this. -/
theorem Describes.load {u : Vfs} (h : Describes env s part mnt_point u)
    (hinfo : (t.dirs mnt_point).fs_info = (u.dirs mnt_point).fs_info)
    (hm : t.mntps = u.mntps) (hf : t.fsinfos = u.fsinfos) (hg : t.gdts = u.gdts) :
      Describes env s part mnt_point t := by
  have hvolume : ∀ m, t.volume m = u.volume m := fun m => by rw [Vfs.volume, hm, hf, hg]; rfl
  refine ⟨?_, rfl, ?_, ?_, ?_, ?_⟩
  · rw [hinfo, hm]
    exact h.mntp_part
  · rw [hinfo, hvolume]
    exact h.fs_part
  · rw [hinfo, hvolume]
    exact h.superblock
  · rw [hinfo, hvolume]
    exact h.block_size
  · rw [hinfo, hvolume]
    exact h.table

theorem load_describes (hf : FreshBlocks env) (ha : Anchored s dir) {q : Vfs} (h : Describes env q part dir s)
    (hrun : ext2_get_direntries env dir s = (.ok r, t)) (hr : 0 ≤ r) : Describes env q part dir t := by
  by_cases h0 : (s.dirs dir).entries = 0
  · obtain ⟨-, inode, s', l, is, -, hpay, -, hbuilt, -⟩ := load_made hf ha h0 hrun hr
    refine h.load ?_ (hbuilt.grown.mntps.trans hpay.mntps) (hbuilt.grown.fsinfos.trans hpay.fsinfos)
      (hbuilt.grown.gdts.trans hpay.gdts)
    rw [hbuilt.grown.dir, hpay.dirs]
  · obtain ⟨-, -, ⟨-, -, rfl⟩ | ⟨h0', -⟩⟩ := ext2_get_direntries_ok hrun
    · exact h
    · exact absurd h0' h0

/-! ## The whole -/

/-- A device delivers no more than it is asked for. -/
theorem Env.Honest.le (hd : ∀ bd, env.Honest bd (disks bd)) (i : Nat) (q : Request) : (env.reply i q).ret ≤ q.sectors :=
  (hd q.bd i q.sectors q.lba).1

/-- A list that is there is the one from before the mount, with the number of the root for the mount point's own entry. -/
theorem handedOver_listedAs (env : Env) (s : Vfs) (part mnt_point : Nat) (c : List File) :
    ListedAs (env.handedOver s part mnt_point) mnt_point c ↔ ListedAs (s.rooted mnt_point 0) mnt_point c := by
  have hentries : ((env.handedOver s part mnt_point).dirs mnt_point).entries =
      ((s.rooted mnt_point 0).dirs mnt_point).entries := by
    simp [handedOver_dirs, Vfs.rooted]
  have hfile : (env.handedOver s part mnt_point).file = (s.rooted mnt_point 0).file := by
    unfold Vfs.file
    rw [handedOver_direntries]
  unfold ListedAs
  rw [hentries, handedOver_direntries, hfile]

/-- The mount point lists what was in the buffer, or what it listed before. -/
theorem mounted_listedAs (hf : FreshBlocks env) (ha : Anchored s mnt_point)
    (hload : ext2_get_direntries env mnt_point (env.handedOver s part mnt_point) = (.ok r, t)) (hr : 0 ≤ r) :
    ListedAs t mnt_point c ↔
      if (s.dirs mnt_point).entries = 0 then Contents (env.listBuffer (env.handedOver s part mnt_point) mnt_point) c
      else ListedAs (s.rooted mnt_point 0) mnt_point c := by
  have hentries : ((env.handedOver s part mnt_point).dirs mnt_point).entries = (s.dirs mnt_point).entries := by
    rw [handedOver_dirs, Function.update_self]
  by_cases h0 : (s.dirs mnt_point).entries = 0
  · rw [if_pos h0]
    exact load_listedAs hf (handedOver_anchored ha) (hentries.trans h0) hload hr
  · rw [if_neg h0, ← handedOver_listedAs env s part mnt_point]
    obtain ⟨-, -, ⟨-, -, rfl⟩ | ⟨h0', -⟩⟩ := ext2_get_direntries_ok hload
    · rfl
    · exact absurd (hentries.symm.trans h0') h0

/-- A mount that returns no error has mounted the root directory of the partition exactly if all was read
and this is what the buffer or the old list has. -/
theorem mounted_iff (hf : FreshBlocks env) (hd : ∀ bd, env.Honest bd (disks bd))
    (ha : mnt_point ≠ 0 → Anchored s mnt_point) (hrun : ext2_mount env part mnt_point s = (.ok r, t)) :
    (0 ≤ r → RightlyMounted env disks s part mnt_point t) ↔
      StopsWithError env s part mnt_point ∨ AllRead env s part ∧ ListsRoot env disks s part mnt_point := by
  have hle : (env.superblockReply s part).ret ≤ SB_SECT_SIZE := Env.Honest.le hd _ _
  rcases ext2_mount_cases hrun with ⟨hprobe, rfl⟩ | ⟨hprobe, ⟨hsuper, rfl⟩ |
    ⟨hsuper, ⟨htable, rfl⟩ | ⟨htable, error, w, hload, hcase⟩⟩⟩
  · exact iff_of_true (fun h => absurd hprobe (Int.not_lt.2 h)) (.inl (.inl hprobe))
  · by_cases hneg : (env.superblockReply s part).ret < 0
    · exact iff_of_true (fun h => absurd hneg (Int.not_lt.2 h)) (.inl (.inr (.inl hneg)))
    · -- the number of sectors that were read is returned
      refine iff_of_false (fun h => ?_) ?_
      · have := (h (Int.not_lt.1 hneg)).read.1
        omega
      · rintro ((h | h | ⟨h, -⟩) | ⟨⟨h, -⟩, -⟩)
        · exact hprobe h
        · exact hneg h
        · omega
        · omega
  · have heq : (env.superblockReply s part).ret = SB_SECT_SIZE := by omega
    exact iff_of_true (fun h => absurd htable (Int.not_lt.2 h)) (.inl (.inr (.inr ⟨heq, .inl htable⟩)))
  · have heq : (env.superblockReply s part).ret = SB_SECT_SIZE := by omega
    have hmnt : mnt_point ≠ 0 := (ext2_get_direntries_ok hload).1
    rcases hcase with ⟨hneg, rfl⟩ | ⟨hpos, rfl, rfl⟩
    · -- the block of the directory could not be read
      have hunloaded := (load_failed hneg hload).1
      have hserved := (served_iff hunloaded hload).not.1 (Int.not_le.2 hneg)
      exact iff_of_true (fun h => absurd hneg (Int.not_lt.2 h)) (.inl (.inr (.inr ⟨heq, .inr ⟨hunloaded, hserved⟩⟩)))
    · have hstops : ¬ StopsWithError env s part mnt_point := by
        rintro (h | h | ⟨-, h | ⟨hunloaded, hserved⟩⟩)
        · exact hprobe h
        · have hsize : (SB_SECT_SIZE : Int) = 2 := rfl
          omega
        · exact htable h
        · exact hserved ((served_iff hunloaded hload).1 hpos)
      have hlist : ∀ c, ListedAs t mnt_point c ↔ _ := fun c => mounted_listedAs (c := c) hf (ha hmnt) hload hpos
      rw [or_iff_right hstops]
      constructor
      · intro h
        obtain ⟨c, hroot, hc⟩ := (h (by decide)).root
        exact ⟨(h (by decide)).read, c, hroot, (hlist c).1 hc⟩
      · rintro ⟨hread, c, hroot, hc⟩ -
        refine ⟨?_, hread, ?_, c, hroot, (hlist c).2 hc⟩
        · have hle : (env.reply s.reads.length (s.request part SB_SECT_SIZE SB_SECT_OFFSET)).ret ≤ SB_SECT_SIZE :=
            Env.Honest.le hd _ _
          have hge : ¬ (env.reply s.reads.length (s.request part SB_SECT_SIZE SB_SECT_OFFSET)).ret < SB_SECT_SIZE := by
            intro hlt
            refine hprobe ?_
            simp only [Env.probed]
            rw [if_pos hlt]
            decide
          omega
        · exact load_describes hf (handedOver_anchored (ha hmnt)) (handedOver_describes env s part mnt_point) hload hpos

/-! ## `do_mount` -/

theorem namei_recursive_error {g : Nat → Prog Vfs Unit} {buf : List UInt8} : ∀ (fuel p d : Nat),
    Sat (fun _ => True) (namei_recursive g buf fuel p d)
      (fun found _ => ∀ error, found = .error error → error < 0) stopped := by
  intro fuel
  induction fuel with
  | zero => exact fun _ _ => .fault (any_stopped _)
  | succ fuel ih =>
    intro p d
    have missing : Sat (fun _ => True) (pure (.error (-ENOENT)) : Prog Vfs (Except Int Nat))
        (fun found _ => ∀ error, found = .error error → error < 0) stopped :=
          .pure fun _ _ error h => by cases h; decide
    refine .bind .anything fun name => .bind .anything fun _ => .ite (fun _ => missing) fun _ => ?_
    refine .bind .anything fun _ => .bind .anything fun entry => .ite (fun _ => missing) fun _ => ?_
    refine .bind .anything fun e => .bind .anything fun c => .ite (fun _ => ?_) fun _ =>
      .ite (fun _ => missing) fun _ => ?_
    · refine .ite (fun _ => .fault (any_stopped _)) fun _ => .bind .anything fun c' => ?_
      exact .ite (fun _ => .pure fun _ _ error h => by cases h; decide) fun _ => .pure fun _ _ error h => by cases h
    · refine .bind .anything fun _ => .ite (fun _ => .bind .anything fun _ => ?_) fun _ => ?_
      all_goals exact .bind .anything fun _ => ih _ _

/-- What stands for an error is negative. -/
theorem namei_error {g : Nat → Prog Vfs Unit} {buf : List UInt8} :
    Sat (fun _ => True) (namei g buf) (fun found _ => ∀ error, found = .error error → error < 0) stopped := by
  refine .bind .anything fun c => .ite (fun _ => ?_) fun _ => namei_recursive_error _ _ _
  refine .bind .anything fun c' => .ite (fun _ => ?_) fun _ => namei_recursive_error _ _ _
  exact .bind .anything fun _ => .pure fun _ _ error h => by cases h

section
variable {devices : Disks.Devices} {filesystems : Filesystems} {dev_major dev_minor : Nat} {mount_path : List UInt8}
  {u : Vfs}

theorem mount_target_error {error : Int}
    (h : mount_target env devices filesystems dev_major dev_minor mount_path s = (.ok (.error error), u)) :
      error < 0 := by
  unfold mount_target at h
  by_cases h0 : hdstruct devices dev_major dev_minor = 0
  · rw [if_pos h0] at h
    cases h
    decide
  · rw [if_neg h0] at h
    obtain ⟨probed, v, -, h₁⟩ := bind_ok.1 h
    cases probed with
    | none =>
      cases h₁
      decide
    | some fs =>
      obtain ⟨found, w, hnamei, h₂⟩ := bind_ok.1 h₁
      cases found with
      | error error' =>
        cases h₂
        exact (namei_error v trivial).1 _ _ hnamei error rfl
      | ok de =>
        obtain ⟨e, w', -, h₃⟩ := bind_ok.1 h₂
        cases h₃

/-- What is handed over is a directory of the tree. -/
theorem mount_target_anchored (hf : FreshBlocks env) (hs : VfsTree s) {fs : FsStruct}
    (h : mount_target env devices filesystems dev_major dev_minor mount_path s = (.ok (.ok (fs, part, mnt_point)), u))
    (hmnt : mnt_point ≠ 0) : Anchored u mnt_point := by
  obtain ⟨rfl, -, -, de, -, hlead, hdirectory⟩ := mount_target_ok.1 h
  have hprobed := (probe_fs_asks env filesystems (hdstruct devices dev_major dev_minor) s).vfsTree hs
  obtain ⟨hu, hin⟩ := (namei_inTree (get_direntries_loadsTree hf) _ hprobed).1 _ _ hlead
  obtain ⟨d, hd, rfl | hlist⟩ := hin de rfl
  · rw [← hdirectory, hu.back d hd]
    exact hu.anchored hd
  · subst hdirectory
    exact hu.anchored (hd.child hlist hmnt)

end

end

end Ulmix.Fs

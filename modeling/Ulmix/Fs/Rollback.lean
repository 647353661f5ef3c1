import Ulmix.Fs.Mount
/-!
# What a failed mount leaves

Up to the table of group descriptors a failed `ext2_mount` gives back what it
took. Behind it the mount point has been changed, and the label
`no_mount_unmount` restores two of its fields, but neither its `inode_no` nor
the one of its entry, nor the inode that was allocated for the entry.
-/
open Ulmix.Lib Ulmix.Lib.Prog

namespace Ulmix.Fs

/-! ## A failed load -/

section
variable {env : Env} {s t u : Vfs} {part mnt_point dir e : Nat} {r : Int}

/-- Nothing but the inode of the entry `e` has changed since `s`, which has one now. -/
def Supplied (s : Vfs) (e : Nat) (t : Vfs) : Prop :=
  t.dirs = s.dirs ∧
    ((s.direntries e).payload ≠ 0 ∧ t.direntries = s.direntries ∧ t.blocks = s.blocks ∨
      (s.direntries e).payload = 0 ∧ ∃ p,
        t.direntries = Function.update s.direntries e { s.direntries e with payload := p } ∧
        (p ≠ 0 → t.blocks = (p, .inode) :: s.blocks))

/-- An inode that is returned is the entry's, old or new. -/
theorem direntry_get_inode_supplied (env : Env) (s : Vfs) (e : Nat) :
    Sat (fun s' => s' = s) (direntry_get_inode env e)
      (fun p t => p ≠ 0 → Supplied s e t ∧ p = (t.direntries e).payload) stopped := by
  refine .bind (Q := fun _ => Supplied s e) (alloc_inode_sat ?_ ?_ any_stopped) fun _ => ?_
  · rintro _ rfl - hp
    exact ⟨rfl, .inl ⟨hp, rfl, rfl⟩⟩
  · rintro _ rfl - hp
    refine ⟨by simp, .inr ⟨hp, _, rfl, fun hq => ?_⟩⟩
    dsimp only
    rw [allocated_of_ne hq]
  refine .bind (load_direntry_sat any_stopped) fun d => ?_
  refine .bind (load_dir_sat any_stopped) fun dir => ?_
  refine .bind (Q := fun _ t => Supplied s e t ∧ d.payload = (t.direntries e).payload) ?_ fun error => ?_
  · refine (fetch_inode_keeps (P := fun t => Supplied s e t ∧ d.payload = (t.direntries e).payload)
      (fun _ h _ => h) fun _ _ h => h).mono ?_ (fun _ _ h => h) any_stopped
    rintro t ⟨-, -, -, rfl, h⟩
    exact ⟨h, rfl⟩
  refine .ite (fun _ => ?_) fun _ => .pure fun _ h _ => h
  refine .bind (Q := fun _ _ => True) .anything fun _ => ?_
  refine .bind (Q := fun _ _ => True) .anything fun _ => ?_
  exact .pure fun _ _ h => absurd rfl h

/-- A load that returns an error has supplied the entry of the directory with an inode. -/
theorem load_supplied (hr : r < 0) (hrun : ext2_get_direntries env dir s = (.ok r, t)) :
    Supplied s (s.dirs dir).dir_entry t ∧ (t.direntries (s.dirs dir).dir_entry).payload ≠ 0 := by
  obtain ⟨-, inode, s', hi, hne, -, rfl⟩ := load_failed hr hrun
  obtain ⟨hsup, hpay⟩ := (direntry_get_inode_supplied env s _).of_run hi hne
  exact ⟨hsup, hpay ▸ hne⟩

/-! ## A failed mount -/

/-- The mount point, its entry and the heap are in `t` as they were in `s`. -/
structure Restored (mnt_point : Nat) (s t : Vfs) : Prop where
  dir : t.dirs mnt_point = s.dirs mnt_point
  inode_no : (t.direntries (s.dirs mnt_point).dir_entry).inode_no = (s.direntries (s.dirs mnt_point).dir_entry).inode_no
  payload : (t.direntries (s.dirs mnt_point).dir_entry).payload = (s.direntries (s.dirs mnt_point).dir_entry).payload
  blocks : t.blocks = s.blocks

/-- An error is found before the mount point is touched. -/
def StopsEarly (env : Env) (s : Vfs) (part : Nat) : Prop :=
  env.probed s part < 0 ∨ (env.superblockReply s part).ret < SB_SECT_SIZE ∨ (env.tableReply s part).ret < 0

/-- The mount point and its entry have the number of the root already, and the entry an inode. -/
def RootAlready (s : Vfs) (mnt_point : Nat) : Prop :=
  (s.dirs mnt_point).inode_no = 2 ∧ (s.direntries (s.dirs mnt_point).dir_entry).inode_no = 2 ∧
    (s.direntries (s.dirs mnt_point).dir_entry).payload ≠ 0

/-- What giving back leaves, when the blocks of the mount are the last ones taken. -/
theorem released {B : List (Nat × Kind)} {f m g : Nat} :
    ((((g, Kind.gdt) :: (m, Kind.mntp) :: (f, Kind.ext2fs) :: B).erase (g, .gdt)).erase (f, .ext2fs)).erase
      (m, .mntp) = B := by
  simp

/-- The last part fails: the numbers stay changed, and an inode the entry got stays allocated. -/
theorem mount_tree_failed {f m g : Nat} {B : List (Nat × Kind)} (hm : 24 ≤ m) (hr : r ≠ SUCCESS)
    (hB : 24 ≤ g → s.blocks = (g, .gdt) :: (m, .mntp) :: (f, .ext2fs) :: B)
    (hrun : mount_tree env mnt_point g f m s = (.ok r, t)) :
    (t.dirs mnt_point = s.dirs mnt_point ∧
      (t.direntries (s.dirs mnt_point).dir_entry).inode_no = (s.direntries (s.dirs mnt_point).dir_entry).inode_no ∧
      (t.direntries (s.dirs mnt_point).dir_entry).payload = (s.direntries (s.dirs mnt_point).dir_entry).payload ∧
      t.blocks = B) ↔ RootAlready s mnt_point := by
  obtain ⟨hd, he⟩ := mount_tree_settled (settled_ok r) hrun
  rw [mount_tree_run env s g f m hd he] at hrun
  obtain ⟨error, w, hload, h₁⟩ := bind_ok.1 hrun
  by_cases herror : error < 0
  · rw [if_pos herror] at h₁
    obtain ⟨⟨hdirs, hcase⟩, hpay⟩ := load_supplied herror hload
    have hentry : ((s.rooted mnt_point m).dirs mnt_point).dir_entry = (s.dirs mnt_point).dir_entry := by
      simp [Vfs.rooted]
    rw [hentry] at hcase hpay
    obtain ⟨_, w₁, hst, h₂⟩ := bind_ok.1 h₁
    rw [store_dir_run hd] at hst
    cases hst
    obtain ⟨-, hg, rfl⟩ := no_mount_free_gdt_ok hm h₂
    have hdir : w.dirs mnt_point = { s.dirs mnt_point with fs_info := m, mnt_point := mnt_point, inode_no := 2 } := by
      rw [hdirs]
      simp [Vfs.rooted]
    have hpayload : ((s.rooted mnt_point m).direntries (s.dirs mnt_point).dir_entry).payload =
        (s.direntries (s.dirs mnt_point).dir_entry).payload := by
      simp [Vfs.rooted]
    have hnumber : (w.direntries (s.dirs mnt_point).dir_entry).inode_no = 2 := by
      rcases hcase with ⟨-, hw, -⟩ | ⟨-, p, hw, -⟩ <;> rw [hw] <;> simp [Vfs.rooted]
    have hblocks : (s.rooted mnt_point m).blocks = (g, .gdt) :: (m, .mntp) :: (f, .ext2fs) :: B := hB hg
    simp only [Function.update_self, hdir, hnumber]
    rw [hpayload] at hcase
    unfold RootAlready
    rcases hcase with ⟨hold, hw, hb⟩ | ⟨hnull, p, hw, hb⟩
    · -- the inode is the one from before
      rw [hb, hblocks, released, hw, hpayload]
      constructor
      · rintro ⟨h, h', -⟩
        exact ⟨by rw [← h], h'.symm, hold⟩
      · rintro ⟨h, h', -⟩
        refine ⟨?_, h'.symm, rfl, rfl⟩
        rw [← h]
    · refine iff_of_false ?_ fun h => h.2.2 hnull
      rintro ⟨-, -, h, -⟩
      exact hpay (h.trans hnull)
  · rw [if_neg herror] at h₁
    cases h₁
    exact absurd rfl hr

/-- An `ext2_mount` that returns an error leaves things as they were exactly if it stops before
the mount point is touched, or the numbers it sets were set and the entry had an inode. -/
theorem mount_restores (hb : BehindHeader env) (hrun : ext2_mount env part mnt_point s = (.ok r, t))
    (hr : r ≠ SUCCESS) :
    Restored mnt_point s t ↔ StopsEarly env s part ∨ RootAlready s mnt_point := by
  rcases ext2_mount_settled (settled_ok r) hrun with ⟨hprobe, -, rfl⟩ | ⟨hp, hprobe, hl, f, m, hf0, hm0, -, hm, hrun⟩
  · exact iff_of_true ⟨rfl, rfl, rfl, rfl⟩ (.inl (.inl hprobe))
  have hm24 : 24 ≤ m := hm ▸ hb _ _ _ (hm ▸ hm0)
  by_cases hsuper : (env.superblockReply s part).ret < SB_SECT_SIZE
  · rw [if_pos hsuper] at hrun
    obtain ⟨-, -, rfl⟩ := no_mount_ok hm24 hrun
    refine iff_of_true ⟨rfl, rfl, rfl, ?_⟩ (.inl (.inr (.inl hsuper)))
    simp [Env.mounting, Vfs.described, Vfs.asked]
  rw [if_neg hsuper] at hrun
  have hgroups := mount_table_ok hf0 hrun
  rw [mounting_fsinfos] at hgroups
  rw [mount_table_mounting env s part mnt_point f m hp hf0 hl hgroups rfl] at hrun
  generalize env.kmalloc (s.kmallocs + 2) _ _ = g at hrun
  obtain ⟨_, v, hst, h₁⟩ := bind_ok.1 hrun
  obtain ⟨G, rfl⟩ : ∃ G, v = { (env.mounting s part f m).tabled f g
      (s.tableRequest part (env.readSuperblock s part)) with gdts := G } :=
    ⟨_, store_gdt_ok hst⟩
  have hdirs := tabled_dirs (env.mounting s part f m) f g (s.tableRequest part (env.readSuperblock s part))
  have hentries := tabled_direntries (env.mounting s part f m) f g (s.tableRequest part (env.readSuperblock s part))
  have hblocks := fun hg => tabled_blocks (g := g) hg (env.mounting s part f m) f
    (s.tableRequest part (env.readSuperblock s part))
  generalize (env.mounting s part f m).tabled f g (s.tableRequest part (env.readSuperblock s part)) = v at *
  have hdir : ({ v with gdts := G } : Vfs).dirs mnt_point = s.dirs mnt_point := congrFun hdirs mnt_point
  have hentry : ({ v with gdts := G } : Vfs).direntries = s.direntries := hentries
  have hv : 24 ≤ g → ({ v with gdts := G } : Vfs).blocks = (g, .gdt) :: (m, .mntp) :: (f, .ext2fs) :: s.blocks :=
    fun hg => hblocks (by omega)
  generalize ({ v with gdts := G } : Vfs) = w at hdir hentry hv h₁
  by_cases htable : (env.tableReply s part).ret < 0
  · rw [if_pos htable] at h₁
    obtain ⟨-, hg, rfl⟩ := no_mount_free_gdt_ok hm24 h₁
    refine iff_of_true ⟨hdir, by rw [← hentry], by rw [← hentry], ?_⟩ (.inl (.inr (.inr htable)))
    dsimp only
    rw [hv hg, released]
  · rw [if_neg htable] at h₁
    have hroot : RootAlready w mnt_point ↔ RootAlready s mnt_point := by
      unfold RootAlready
      rw [hdir, hentry]
    have hfailed := mount_tree_failed hm24 hr hv h₁
    rw [hdir, hentry, hroot] at hfailed
    rw [or_iff_right (by rintro (h | h | h) <;> contradiction), ← hfailed]
    exact ⟨fun h => ⟨h.dir, h.inode_no, h.payload, h.blocks⟩, fun h => ⟨h.1, h.2.1, h.2.2.1, h.2.2.2⟩⟩

end

/-- The root directory before anything is mounted, and a partition that is attached. -/
def bareVfs : Vfs :=
  { smallVfs with
    dirs := fun _ => ⟨0, 0, 0, root_dir, root_direntry, 0⟩
    direntries := fun _ => ⟨F_DIR, 0, 0, 0, List.replicate 256 0, 0, root_dir, root_dir, 0, 0⟩
    mntps := fun _ => ⟨0, 0, .ext2fs⟩
    fsinfos := fun _ => ⟨[], 0, 0, 0, 0⟩
    gdts := fun _ => []
    blocks := [(root_dir, .dir), (root_direntry, .direntry)] }

/-- The small disk, with an error for the group descriptors. -/
def tablelessEnv : Env :=
  { smallEnv dotRecord with
    read := fun _ _ sectors lba => if lba = 4 then ⟨- EIO, []⟩ else ⟨sectors, smallDisk dotRecord lba⟩ }

theorem mount_restores_tableless : ∃ t, ext2_mount tablelessEnv 0x600 root_dir bareVfs = (.ok (- EIO), t) ∧
    Restored root_dir bareVfs t := by
  have hrun : (ext2_mount tablelessEnv 0x600 root_dir bareVfs).1 = .ok (- EIO) := by decide +kernel
  have hearly : StopsEarly tablelessEnv bareVfs 0x600 := .inr (.inr (by decide +kernel))
  refine ⟨_, run_eq hrun, ?_⟩
  exact (mount_restores (fun _ _ _ _ => Nat.le_add_left _ _) (run_eq hrun) (by decide)).2 (.inl hearly)

theorem faulty_mount : ∃ t, ext2_mount faultyEnv 0x600 root_dir bareVfs = (.ok (- EIO), t) ∧
    (t.dirs root_dir).inode_no = 2 ∧ t.blocks.length = 3 := by
  have hrun : (ext2_mount faultyEnv 0x600 root_dir bareVfs).1 = .ok (- EIO) := by decide +kernel
  exact ⟨_, run_eq hrun, by decide +kernel, by decide +kernel⟩

/-- The mount fails, and the directory keeps the number of the root and a new inode. -/
theorem mount_leaves_number : ∃ t, ext2_mount faultyEnv 0x600 root_dir bareVfs = (.ok (- EIO), t) ∧
    ¬ Restored root_dir bareVfs t := by
  obtain ⟨t, hrun, hnumber, -⟩ := faulty_mount
  refine ⟨t, hrun, fun h => ?_⟩
  rw [h.dir] at hnumber
  exact absurd hnumber (by decide)

end Ulmix.Fs

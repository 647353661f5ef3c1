import Ulmix.Devices.Partitions
import Ulmix.Fs.Paths
import Ulmix.Fs.Tree
/-!
# Mounting by path (`kernel/fs/fs.c`, `kernel/fs/mount.c`)

`do_mount` looks the partition up, asks the registered filesystems whether they
know what is on it, follows the path and hands the directory of the entry found
to the filesystem. The type of the entry is not looked at. So a path that leads
to something else than a directory hands over a null pointer, unless the call is
refused before for want of a partition or of a filesystem (`do_mount_refuses`).
-/
open Ulmix.Lib Ulmix.Lib.Prog

namespace Ulmix.Fs

def EAGAIN : Int := 11
def ENODEV : Int := 19
def EFSNOTSUP : Int := 134

/-! ## Filesystems -/

/-- `struct fs_fops_struct`. -/
structure FsFops where
  fs_probe : Nat → Prog Vfs Int
  fs_mount : Nat → Nat → Prog Vfs Int
  fs_get_direntries : Nat → Prog Vfs Int

def FsStruct.mbr_id : FsStruct → Nat
  | .ext2fs => 0x83

def FsStruct.fops (env : Env) : FsStruct → FsFops
  | .ext2fs => ⟨ext2_probe env, ext2_mount env, ext2_get_direntries env⟩

def MAX_FILESYSTEMS : Nat := 16

/-- The array of registered filesystems. -/
abbrev Filesystems := Nat → Option FsStruct

def register_fs (filesystems : Filesystems) (fs : FsStruct) : Int × Filesystems :=
  match (List.range MAX_FILESYSTEMS).find? fun i => filesystems i = none with
  | some i => (SUCCESS, Function.update filesystems i (some fs))
  | none => (-EAGAIN, filesystems)

/-- The loop of `probe_fs` over the slots `is`. -/
def probe_fs_loop (env : Env) (filesystems : Filesystems) (part : Nat) : List Nat → Prog Vfs (Option FsStruct)
  | [] => pure none
  | i :: is =>
    match filesystems i with
    | none => probe_fs_loop env filesystems part is
    | some fs => do
      if fs.mbr_id = (← load_part part).fs_type then
        if (← (fs.fops env).fs_probe part) = SUCCESS then pure (some fs)
        else probe_fs_loop env filesystems part is
      else probe_fs_loop env filesystems part is

def probe_fs (env : Env) (filesystems : Filesystems) (part : Nat) : Prog Vfs (Option FsStruct) :=
  probe_fs_loop env filesystems part (List.range MAX_FILESYSTEMS)

/-- `get_direntries` of `vfs.c`. -/
def get_direntries (env : Env) (dir : Nat) : Prog Vfs Unit := do
  let m ← load_mntp (← load_dir dir).fs_info
  let _ ← (m.fs_info.fops env).fs_get_direntries dir

/-! ## `do_mount` -/

/-- The address `&bd->part_list[index]`: the list starts at byte 24 of a `gendisk_struct`, and an `hd_struct` has 16. -/
def part_address (p : Disks.PartRef) : Nat := (p.bd + 24 + 16 * p.index) % 2 ^ 32

/-- The pointer `get_hdstruct` returns. -/
def hdstruct (devices : Disks.Devices) (major minor : Nat) : Nat :=
  match Disks.get_hdstruct major minor devices with
  | .ok (some p, _) => part_address p
  | _ => 0

def do_mount (env : Env) (devices : Disks.Devices) (filesystems : Filesystems) (dev_major dev_minor : Nat)
    (mount_path : List UInt8) : Prog Vfs Int := do
  let part := hdstruct devices dev_major dev_minor
  if part = 0 then pure (-ENODEV)
  else
    match ← probe_fs env filesystems part with
    | none => pure (-EFSNOTSUP)
    | some fs =>
      match ← namei (get_direntries env) mount_path with
      | .error error => pure error
      | .ok de => (fs.fops env).fs_mount part (← load_direntry de).directory

/-- `do_mount` up to the call of `fs_mount`: the error it returns, or what is mounted where. -/
def mount_target (env : Env) (devices : Disks.Devices) (filesystems : Filesystems) (dev_major dev_minor : Nat)
    (mount_path : List UInt8) : Prog Vfs (Except Int (FsStruct × Nat × Nat)) := do
  let part := hdstruct devices dev_major dev_minor
  if part = 0 then pure (.error (-ENODEV))
  else
    match ← probe_fs env filesystems part with
    | none => pure (.error (-EFSNOTSUP))
    | some fs =>
      match ← namei (get_direntries env) mount_path with
      | .error error => pure (.error error)
      | .ok de => return .ok (fs, part, (← load_direntry de).directory)

/-- The call of `fs_mount`. -/
def mount_at (env : Env) : Except Int (FsStruct × Nat × Nat) → Prog Vfs Int
  | .error error => pure error
  | .ok (fs, part, directory) => (fs.fops env).fs_mount part directory

theorem do_mount_eq (env : Env) (devices : Disks.Devices) (filesystems : Filesystems) (dev_major dev_minor : Nat)
    (mount_path : List UInt8) : do_mount env devices filesystems dev_major dev_minor mount_path =
      mount_target env devices filesystems dev_major dev_minor mount_path >>= mount_at env := by
  unfold do_mount mount_target
  rw [ite_bind]
  refine if_congr Iff.rfl rfl ?_
  rw [bind_assoc]
  refine bind_congr fun fs => ?_
  cases fs with
  | none => rfl
  | some fs =>
    dsimp only
    rw [bind_assoc]
    refine bind_congr fun found => ?_
    cases found with
    | error error => rfl
    | ok de =>
      dsimp only
      rw [bind_assoc]
      rfl

/-! ## What comes before `fs_mount` -/

section
variable {env : Env} {s t : Vfs} {part : Nat} {filesystems : Filesystems}

/-- The devices have been asked for something since `s`, and that is all. -/
def OnlyAsked (s t : Vfs) : Prop := ∃ reads, t = { s with reads := reads }

theorem ext2_probe_asks : Sat (OnlyAsked s) (ext2_probe env part) (fun _ => OnlyAsked s) (fun _ => OnlyAsked s) := by
  refine .bind (local_array_sat.post fun _ _ h => h.2) fun sb => ?_
  refine .bind (Q := fun _ => OnlyAsked s) (hdd_read_sat ?_ fun _ _ h => h) fun r => ?_
  · rintro _ ⟨reads, rfl⟩
    exact ⟨_, rfl⟩
  · exact .ite (fun _ => .pure fun _ h => h) fun _ => .ite (fun _ => .pure fun _ h => h) fun _ => .pure fun _ h => h

theorem load_part_asks : Sat (OnlyAsked s) (load_part part) (fun _ => OnlyAsked s) (fun _ => OnlyAsked s) :=
  (load_sat fun _ _ h => h).post fun _ _ h => h.2.2

theorem probe_fs_loop_asks (is : List Nat) : Sat (OnlyAsked s) (probe_fs_loop env filesystems part is)
    (fun _ => OnlyAsked s) (fun _ => OnlyAsked s) := by
  induction is with
  | nil => exact .pure fun _ h => h
  | cons i is ih =>
    unfold probe_fs_loop
    cases filesystems i with
    | none => exact ih
    | some fs =>
      cases fs
      refine .bind load_part_asks fun p => .ite (fun _ => ?_) fun _ => ih
      exact .bind ext2_probe_asks fun r => .ite (fun _ => .pure fun _ h => h) fun _ => ih

/-- Probing leaves the tree alone, also where it stops. -/
theorem probe_fs_asks (env : Env) (filesystems : Filesystems) (part : Nat) (s : Vfs) :
    OnlyAsked s (probe_fs env filesystems part s).2 := by
  obtain ⟨hok, herror⟩ := probe_fs_loop_asks (List.range MAX_FILESYSTEMS) s ⟨s.reads, rfl⟩
  unfold probe_fs
  rcases hrun : probe_fs_loop env filesystems part (List.range MAX_FILESYSTEMS) s with ⟨e | fs, t⟩
  · exact herror e t hrun
  · exact hok fs t hrun

theorem OnlyAsked.sameLinks (h : OnlyAsked s t) : SameLinks s t := by
  obtain ⟨reads, rfl⟩ := h
  exact ⟨fun _ => rfl, fun _ => rfl, fun _ => rfl, fun _ => rfl, fun _ => rfl⟩

theorem OnlyAsked.vfsTree (h : OnlyAsked s t) (hs : VfsTree s) : VfsTree t := by
  refine hs.of_sameLinks h.sameLinks fun b kind _ hb => ?_
  obtain ⟨reads, rfl⟩ := h
  exact hb

/-- A call of the filesystem's function. -/
theorem get_direntries_ok {d : Nat} (hrun : get_direntries env d s = (.ok (), t)) :
    ∃ r, ext2_get_direntries env d s = (.ok r, t) := by
  obtain ⟨dir, s₁, h₁, h₂⟩ := bind_ok.1 hrun
  obtain ⟨-, rfl, rfl⟩ := (load_dir_sat (P := fun t => t = s) any_stopped).of_run h₁
  obtain ⟨m, s₂, h₃, h₄⟩ := bind_ok.1 h₂
  obtain ⟨-, rfl, rfl⟩ := (load_mntp_sat (P := fun t => t = s₁) any_stopped).of_run h₃
  obtain ⟨r, s₃, h₅, h₆⟩ := bind_ok.1 h₄
  cases h₆
  cases hfs : (s₂.mntps (s₂.dirs d).fs_info).fs_info
  rw [hfs] at h₅
  exact ⟨r, h₅⟩

theorem get_direntries_loadsTree (hf : FreshBlocks env) : LoadsTree (get_direntries env) := by
  intro s t d hs hd hrun
  obtain ⟨r, hload⟩ := get_direntries_ok hrun
  exact load_tree hf hs hd hload

end

/-! ## Paths to something else than a directory -/

/-- An entry of the tree has a directory exactly if its type says so. -/
def Typed (s : Vfs) : Prop := ∀ e, InTree s e → ((s.direntries e).type = F_DIR ↔ (s.direntries e).directory ≠ 0)

section
variable (env : Env) (devices : Disks.Devices) (filesystems : Filesystems) (dev_major dev_minor : Nat)
  (mount_path : List UInt8) (s : Vfs)

/-- The path, followed where `do_mount` does it, leads to the entry `de` and leaves `t`. -/
def LeadsTo (de : Nat) (t : Vfs) : Prop :=
  namei (get_direntries env) mount_path (probe_fs env filesystems (hdstruct devices dev_major dev_minor) s).2 =
    (.ok (.ok de), t)

/-- `do_mount` returns an error if the path leads to something else than a directory, and leaves the tree as it
is; and it hands over no null pointer. -/
def RefusesFiles : Prop :=
  (∀ de t, LeadsTo env devices filesystems dev_major dev_minor mount_path s de t → (t.direntries de).type ≠ F_DIR →
    ∃ error u, do_mount env devices filesystems dev_major dev_minor mount_path s = (.ok error, u) ∧ error < 0 ∧
      u.dirs = s.dirs ∧ u.direntries = s.direntries) ∧
  ∀ fs part t, mount_target env devices filesystems dev_major dev_minor mount_path s ≠ (.ok (.ok (fs, part, 0)), t)

/-- The call comes to an end before it follows the path: there is no such partition, or no filesystem for it. -/
def RefusedBefore : Prop :=
  hdstruct devices dev_major dev_minor = 0 ∨
    ∃ u, probe_fs env filesystems (hdstruct devices dev_major dev_minor) s = (.ok none, u)

end

section
variable {env : Env} {devices : Disks.Devices} {filesystems : Filesystems} {dev_major dev_minor : Nat}
  {mount_path : List UInt8} {s t : Vfs}

theorem refused_before (h : RefusedBefore env devices filesystems dev_major dev_minor s) :
    ∃ error u, do_mount env devices filesystems dev_major dev_minor mount_path s = (.ok error, u) ∧ error < 0 ∧
      u.dirs = s.dirs ∧ u.direntries = s.direntries := by
  unfold do_mount
  by_cases h0 : hdstruct devices dev_major dev_minor = 0
  · exact ⟨-ENODEV, s, by rw [if_pos h0]; rfl, by decide, rfl, rfl⟩
  · rcases h with h | ⟨u, hu⟩
    · exact absurd h h0
    · have hasked := probe_fs_asks env filesystems (hdstruct devices dev_major dev_minor) s
      rw [hu] at hasked
      obtain ⟨reads, rfl⟩ := hasked
      exact ⟨-EFSNOTSUP, { s with reads := reads }, by rw [if_neg h0, bind_of_ok hu]; rfl, by decide, rfl, rfl⟩

/-- What is handed over is the directory of the entry the path leads to. -/
theorem mount_target_ok {fs : FsStruct} {part directory : Nat} :
    mount_target env devices filesystems dev_major dev_minor mount_path s = (.ok (.ok (fs, part, directory)), t) ↔
      hdstruct devices dev_major dev_minor = part ∧ part ≠ 0 ∧ (probe_fs env filesystems part s).1 = .ok (some fs) ∧
        ∃ de, de ≠ 0 ∧ LeadsTo env devices filesystems dev_major dev_minor mount_path s de t ∧
          (t.direntries de).directory = directory := by
  unfold mount_target LeadsTo
  constructor
  · intro hrun
    by_cases h0 : hdstruct devices dev_major dev_minor = 0
    · rw [if_pos h0] at hrun
      cases hrun
    · rw [if_neg h0] at hrun
      obtain ⟨probed, u, hprobe, h₁⟩ := bind_ok.1 hrun
      cases probed with
      | none => cases h₁
      | some fs' =>
        obtain ⟨found, v, hnamei, h₂⟩ := bind_ok.1 h₁
        cases found with
        | error error => cases h₂
        | ok de =>
          obtain ⟨e, w, hload, h₃⟩ := bind_ok.1 h₂
          obtain ⟨hde, rfl, rfl⟩ := (load_direntry_sat (P := fun t => t = v) any_stopped).of_run hload
          cases h₃
          refine ⟨rfl, h0, by rw [hprobe], de, hde, ?_, rfl⟩
          rw [hprobe]
          exact hnamei
  · rintro ⟨rfl, h0, hprobe, de, hde, hnamei, rfl⟩
    rw [if_neg h0, bind_of_ok (run_eq hprobe)]
    dsimp only
    rw [bind_of_ok hnamei]
    exact bind_of_ok (load_direntry_run hde t)

/-- Paths that do not lead to a directory are refused exactly if the call is refused before the path is followed. -/
theorem do_mount_refuses (hf : FreshBlocks env) (hs : VfsTree s)
    (ht : ∀ de t, LeadsTo env devices filesystems dev_major dev_minor mount_path s de t → Typed t) :
    RefusesFiles env devices filesystems dev_major dev_minor mount_path s ↔
      ∀ de t, LeadsTo env devices filesystems dev_major dev_minor mount_path s de t →
        (t.direntries de).type = F_DIR ∨ RefusedBefore env devices filesystems dev_major dev_minor s := by
  have hprobed := (probe_fs_asks env filesystems (hdstruct devices dev_major dev_minor) s).vfsTree hs
  have hin : ∀ de t, LeadsTo env devices filesystems dev_major dev_minor mount_path s de t → InTree t de :=
      fun de t h =>
    (((namei_inTree (get_direntries_loadsTree hf)) _ hprobed).1 _ _ h).2 de rfl
  constructor
  · rintro ⟨hrefuse, hnull⟩ de t hlead
    by_cases htype : (t.direntries de).type = F_DIR
    · exact .inl htype
    refine .inr ?_
    obtain ⟨error, u, hrun, -⟩ := hrefuse de t hlead htype
    by_cases h0 : hdstruct devices dev_major dev_minor = 0
    · exact .inl h0
    rw [do_mount_eq] at hrun
    obtain ⟨target, v, htarget, -⟩ := bind_ok.1 hrun
    have hstop := htarget
    unfold mount_target at hstop
    rw [if_neg h0] at hstop
    obtain ⟨probed, w, hprobe, h₁⟩ := bind_ok.1 hstop
    cases probed with
    | none => exact .inr ⟨w, hprobe⟩
    | some fs =>
      -- the entry found has no directory, and that is what is handed over
      have hdirectory : (t.direntries de).directory = 0 := by
        by_contra hne
        exact htype ((ht de t hlead de (hin de t hlead)).2 hne)
      have hlead' := hlead
      unfold LeadsTo at hlead'
      rw [hprobe] at hlead'
      dsimp only at h₁
      rw [bind_of_ok hlead'] at h₁
      obtain ⟨e, w', hload, -⟩ := bind_ok.1 h₁
      obtain ⟨hde, -, -⟩ := (load_direntry_sat (P := fun t' => t' = t) any_stopped).of_run hload
      exact absurd (mount_target_ok.2 ⟨rfl, h0, by rw [hprobe], de, hde, hlead, hdirectory⟩) (hnull fs _ t)
  · intro h
    have hbefore : ∀ de t, LeadsTo env devices filesystems dev_major dev_minor mount_path s de t →
        (t.direntries de).type ≠ F_DIR → RefusedBefore env devices filesystems dev_major dev_minor s :=
      fun de t hlead htype => (h de t hlead).resolve_left htype
    refine ⟨fun de t hlead htype => refused_before (hbefore de t hlead htype), fun fs part t htarget => ?_⟩
    obtain ⟨rfl, h0, hprobe, de, -, hlead, hdirectory⟩ := mount_target_ok.1 htarget
    have htype : (t.direntries de).type ≠ F_DIR := fun heq => (ht de t hlead de (hin de t hlead)).1 heq hdirectory
    rcases hbefore de t hlead htype with h0' | ⟨u, hu⟩
    · exact h0 h0'
    · rw [hu] at hprobe
      cases hprobe

end

/-- A disk with one partition, as the registry has it. -/
def oneDisk : Disks.Devices :=
  { Disks.noDisks with
    bd_list := fun i => if i = 0 then 0x900 else 0
    gendisks := fun bd => { Disks.noDisks.gendisks bd with
      part_count := 1, part_list := fun _ => ⟨0, 64, 0x83, 0x900⟩ } }

/-- What `init_ext2` leaves. -/
def onlyExt2 : Filesystems := (register_fs (fun _ => none) .ext2fs).2

/-- The root directory with a file, its objects in use. -/
def fileVfs : Vfs :=
  { oneFile with
    direntries := Function.update oneFile.direntries root_direntry
      ⟨F_DIR, 0, 0, 0, List.replicate 256 0, 2, root_dir, root_dir, 0, 0⟩
    parts := fun _ => ⟨0, 64, 0x83, 0x900⟩
    blocks := [(root_dir, .dir), (root_direntry, .direntry), (0x300, .direntry), (0x400, .direntry),
      (0x500, .direntry)] }

/-- The tree of `t` is this one. -/
def HasFile (t : Vfs) : Prop :=
  t.dirs root_dir = fileVfs.dirs root_dir ∧ ∀ e ∈ [root_direntry, 0x300, 0x400, 0x500],
    t.direntries e = fileVfs.direntries e

instance (t : Vfs) : Decidable (HasFile t) := inferInstanceAs (Decidable (_ ∧ _))

section
variable {t : Vfs} {d : Nat}

theorem HasFile.lists (h : HasFile t) : Lists t root_dir [0x300, 0x400, 0x500] := by
  have hlinks : Sll (fun e => (fileVfs.direntries e).next) (t.dirs root_dir).entries [0x300, 0x400, 0x500] := by
    rw [h.1]
    exact ⟨rfl, by decide, rfl, by decide, rfl, by decide, rfl⟩
  exact hlinks.congr fun e he => congrArg DirentryStruct.next (h.2 e (List.mem_cons_of_mem _ he))

theorem HasFile.treeDir (h : HasFile t) (hd : TreeDir t d) : d = root_dir := by
  induction hd with
  | root => rfl
  | parent _ ih =>
    rw [ih, h.1]
    rfl
  | child _ hlist hne ih =>
    rw [ih, h.lists.onList] at hlist
    rw [h.2 _ (List.mem_cons_of_mem _ hlist)] at hne ⊢
    fin_cases hlist
    · rfl
    · rfl
    · exact absurd rfl hne

theorem HasFile.typed (h : HasFile t) : Typed t := by
  intro e he
  obtain ⟨d, hd, hcase⟩ := he
  rw [h.treeDir hd, h.lists.onList, h.1] at hcase
  have hmem : e ∈ [root_direntry, 0x300, 0x400, 0x500] := by
    rcases hcase with rfl | he
    · exact List.mem_cons_self ..
    · exact List.mem_cons_of_mem _ he
  rw [h.2 e hmem]
  fin_cases hmem <;> decide

end

theorem fileVfs_tree : VfsTree fileVfs := by
  have h : HasFile fileVfs := ⟨rfl, fun _ _ => rfl⟩
  refine ⟨fun d hd => ?_, fun d hd => ?_, fun d hd => ?_, fun d hd => ?_⟩
  · rw [h.treeDir hd]
    decide
  · rw [h.treeDir hd]
    decide
  · rw [h.treeDir hd]
    rfl
  · rw [h.treeDir hd]
    exact ⟨_, h.lists, by decide⟩

/-- The paths `/./.` and `/./a`. -/
def dotPath : List UInt8 := [0x2f, 0x2e, 0x2f, 0x2e, 0]

def filePath : List UInt8 := [0x2f, 0x2e, 0x2f, 0x61, 0]

theorem leadsTo_typed (path : List UInt8) {de : Nat} {t : Vfs}
    (hfile : HasFile (namei (get_direntries (smallEnv [])) path
      (probe_fs (smallEnv []) onlyExt2 (hdstruct oneDisk 4 1) fileVfs).2).2)
    (h : LeadsTo (smallEnv []) oneDisk onlyExt2 4 1 path fileVfs de t) : Typed t := by
  rw [h] at hfile
  exact hfile.typed

theorem dotPath_leads {de : Nat} {t : Vfs} (h : LeadsTo (smallEnv []) oneDisk onlyExt2 4 1 dotPath fileVfs de t) :
    (t.direntries de).type = F_DIR := by
  have hde : (namei (get_direntries (smallEnv [])) dotPath
      (probe_fs (smallEnv []) onlyExt2 (hdstruct oneDisk 4 1) fileVfs).2).1 = .ok (.ok 0x300) := by decide +kernel
  have hdir : ((namei (get_direntries (smallEnv [])) dotPath
      (probe_fs (smallEnv []) onlyExt2 (hdstruct oneDisk 4 1) fileVfs).2).2.direntries 0x300).type = F_DIR := by
    decide +kernel
  rw [h] at hde hdir
  cases hde
  exact hdir

theorem do_mount_refuses_directory : RefusesFiles (smallEnv []) oneDisk onlyExt2 4 1 dotPath fileVfs :=
  (do_mount_refuses (smallEnv_fresh []) fileVfs_tree fun _ _ => leadsTo_typed dotPath (by decide +kernel)).2
    fun _ _ h => .inl (dotPath_leads h)

/-- For a file `do_mount` hands over a null pointer. -/
theorem do_mount_takes_files : ¬ ∀ env devices filesystems dev_major dev_minor mount_path s, FreshBlocks env →
    VfsTree s → (∀ de t, LeadsTo env devices filesystems dev_major dev_minor mount_path s de t → Typed t) →
    RefusesFiles env devices filesystems dev_major dev_minor mount_path s := by
  intro hall
  have hrefuse := hall _ oneDisk onlyExt2 4 1 filePath _ (smallEnv_fresh []) fileVfs_tree
    fun _ _ => leadsTo_typed filePath (by decide +kernel)
  have hrun : (mount_target (smallEnv []) oneDisk onlyExt2 4 1 filePath fileVfs).1 = .ok (.ok (.ext2fs, 0x918, 0)) := by
    decide +kernel
  exact hrefuse.2 _ _ _ (run_eq hrun)

end Ulmix.Fs

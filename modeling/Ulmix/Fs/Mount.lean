import Ulmix.Fs.Builds
import Ulmix.Fs.Inodes
/-!
# Mounting, step by step

`ext2_mount` falls into parts, each ending where an error can be returned: the
probe, the superblock (`mount_superblock`), the table of group descriptors
(`mount_table`) and the root directory (`mount_tree`).
-/
open Ulmix.Lib Ulmix.Lib.Prog

namespace Ulmix.Fs

/-! ## The parts -/

/-- The label `no_mount`. -/
def no_mount (fsinfo mnt_info : Nat) (error : Int) : Prog Vfs Int := do
  kfree fsinfo .ext2fs
  kfree mnt_info .mntp
  pure error

/-- The label `no_mount_free_gdt`. -/
def no_mount_free_gdt (group_descriptors fsinfo mnt_info : Nat) (error : Int) : Prog Vfs Int := do
  kfree group_descriptors .gdt
  no_mount fsinfo mnt_info error

/-- The end of `ext2_mount`, with everything but the tree in place. -/
def mount_tree (env : Env) (mnt_point group_descriptors fsinfo mnt_info : Nat) : Prog Vfs Int := do
  let d ← load_dir mnt_point
  store_dir mnt_point fun d => { d with fs_info := mnt_info, mnt_point := mnt_point, inode_no := 2 }
  store_direntry d.dir_entry fun e => { e with inode_no := 2 }
  let error ← ext2_get_direntries env mnt_point
  if error < 0 then
    store_dir mnt_point fun d' => { d' with fs_info := d.fs_info, mnt_point := d.mnt_point }
    no_mount_free_gdt group_descriptors fsinfo mnt_info error
  else pure SUCCESS

/-- `ext2_mount` behind the read of the superblock. -/
def mount_table (env : Env) (mnt_point fsinfo mnt_info : Nat) : Prog Vfs Int := do
  let sb := (← load_fsinfo fsinfo).superblock
  let groups ← div32 (total_blocks sb) (blocks_per_group sb)
  store_fsinfo fsinfo fun f => { f with block_size := block_size_of sb, gd_count := add32 groups 1 }
  let sectors := gdt_size_sectors (add32 groups 1)
  let group_descriptors ← kmalloc_gdt env (sectors * IO_BLOCK_SIZE % 2 ^ 32)
  store_fsinfo fsinfo fun f => { f with group_descriptors := group_descriptors }
  let r ← hdd_read env (← load_fsinfo fsinfo).part sectors (gdt_lba (block_size_of sb))
  store_gdt group_descriptors r.stored
  if r.ret < 0 then no_mount_free_gdt group_descriptors fsinfo mnt_info r.ret
  else mount_tree env mnt_point group_descriptors fsinfo mnt_info

/-- `ext2_mount` behind the probe. -/
def mount_superblock (env : Env) (part mnt_point : Nat) : Prog Vfs Int := do
  let fsinfo ← kmalloc env 2048 .ext2fs
  store_fsinfo fsinfo fun f => { f with part := part }
  let mnt_info ← kmalloc env 12 .mntp
  store_mntp mnt_info fun _ => ⟨fsinfo, part, .ext2fs⟩
  let r ← hdd_read env (← load_fsinfo fsinfo).part SB_SECT_SIZE SB_SECT_OFFSET
  store_fsinfo fsinfo fun f => { f with superblock := overwrite f.superblock r.stored }
  if r.ret < SB_SECT_SIZE then no_mount fsinfo mnt_info r.ret
  else mount_table env mnt_point fsinfo mnt_info

theorem ext2_mount_eq (env : Env) (part mnt_point : Nat) : ext2_mount env part mnt_point = (do
    let error ← ext2_probe env part
    if error < 0 then pure error else mount_superblock env part mnt_point) := rfl

/-! ## What each part does -/

section
variable {env : Env} {s t : Vfs} {part mnt_point f m g : Nat} {r : Int}

/-- What `ext2_probe` returns. -/
def Env.probed (env : Env) (s : Vfs) (part : Nat) : Int :=
  let r := env.reply s.reads.length (s.request part SB_SECT_SIZE SB_SECT_OFFSET)
  if r.ret < SB_SECT_SIZE then - EIO
  else if signature (overwrite ((List.range 1024).map (env.stack s.reads.length)) r.stored) = 0xef53 then SUCCESS
  else -ENOTSUP

theorem ext2_probe_run (h : Attached s part) :
    ext2_probe env part s = (.ok (env.probed s part), s.asked (s.request part SB_SECT_SIZE SB_SECT_OFFSET)) := by
  unfold ext2_probe
  rw [bind_of_ok (local_array_run env 1024 s), bind_of_ok (hdd_read_run h.1 h.2)]
  simp only [Env.probed]
  split
  · rfl
  · split <;> rfl

theorem ext2_probe_null (h : ¬ Attached s part) : ext2_probe env part s = (.error .nullDeref, s) := by
  unfold ext2_probe
  rw [bind_of_ok (local_array_run env 1024 s), bind_of_error (hdd_read_null h)]

/-- The state once the structures for a filesystem are there and the superblock `sb` in place. -/
def Vfs.described (s : Vfs) (f m part : Nat) (sb : List UInt8) (q : Request) : Vfs :=
  { s with
    kmallocs := s.kmallocs + 2
    blocks := (m, .mntp) :: (f, .ext2fs) :: s.blocks
    fsinfos := Function.update s.fsinfos f { s.fsinfos f with part := part, superblock := sb }
    mntps := Function.update s.mntps m ⟨f, part, .ext2fs⟩
    reads := q :: s.reads }

theorem allocated_of_ne {p : Nat} (hp : p ≠ 0) (s : Vfs) (kind : Kind) :
    s.allocated p kind = { s with kmallocs := s.kmallocs + 1, blocks := (p, kind) :: s.blocks } := if_neg hp

theorem kmalloc_run (env : Env) (size : Nat) (kind : Kind) (hl : s.heap_locked = false) :
    kmalloc env size kind s = (.ok (env.kmalloc s.kmallocs s.blocks size),
      s.allocated (env.kmalloc s.kmallocs s.blocks size) kind) := by
  unfold kmalloc
  rw [bind_of_ok (get_apply s), hl]
  rfl

theorem kmalloc_locked (size : Nat) (kind : Kind) (hl : s.heap_locked = true) :
    kmalloc env size kind s = (.error .spin, s) := by
  unfold kmalloc
  rw [bind_of_ok (get_apply s), hl]
  rfl

theorem store_fsinfo_run (hp : f ≠ 0) (h : Ext2fsStruct → Ext2fsStruct) (s : Vfs) :
    store_fsinfo f h s = (.ok (), { s with fsinfos := Function.update s.fsinfos f (h (s.fsinfos f)) }) := by
  rw [store_fsinfo, if_neg hp]
  rfl

theorem store_mntp_run (hp : m ≠ 0) (h : MntpStruct → MntpStruct) (s : Vfs) :
    store_mntp m h s = (.ok (), { s with mntps := Function.update s.mntps m (h (s.mntps m)) }) := by
  rw [store_mntp, if_neg hp]
  rfl

theorem mount_superblock_run (env : Env) (s : Vfs) (part mnt_point : Nat) (hl : s.heap_locked = false)
    (hf : env.kmalloc s.kmallocs s.blocks 2048 = f) (hf0 : f ≠ 0)
    (hm : env.kmalloc (s.kmallocs + 1) ((f, .ext2fs) :: s.blocks) 12 = m) (hm0 : m ≠ 0) (hp : Attached s part) :
    mount_superblock env part mnt_point s =
      let q := s.request part SB_SECT_SIZE SB_SECT_OFFSET
      let r := env.reply s.reads.length q
      (if r.ret < SB_SECT_SIZE then no_mount f m r.ret else mount_table env mnt_point f m)
        (s.described f m part (overwrite (s.fsinfos f).superblock r.stored) q) := by
  have hk := kmalloc_run (s := s) env 2048 .ext2fs hl
  have hk' := kmalloc_run env 12 .mntp (s := { s with
    kmallocs := s.kmallocs + 1
    blocks := (f, .ext2fs) :: s.blocks
    fsinfos := Function.update s.fsinfos f { s.fsinfos f with part := part } }) hl
  rw [hf, allocated_of_ne hf0] at hk
  rw [hm, allocated_of_ne hm0] at hk'
  unfold mount_superblock
  rw [bind_of_ok hk, bind_of_ok (store_fsinfo_run hf0 _ _), bind_of_ok hk', bind_of_ok (store_mntp_run hm0 _ _),
    bind_of_ok (load_fsinfo_run hf0 _)]
  simp only [Function.update_self]
  refine (bind_of_ok (hdd_read_run (s := _) hp.1 ?_)).trans ?_
  · exact hp.2
  rw [bind_of_ok (store_fsinfo_run hf0 _ _)]
  simp only [Vfs.asked, Function.update_self, Function.update_idem]
  rfl

/-- The number of descriptors that goes with a superblock. -/
def gdCount (sb : List UInt8) : Nat := add32 (total_blocks sb / blocks_per_group sb) 1

/-- The size of the table in bytes. -/
def gdtBytes (sb : List UInt8) : Nat := gdt_size_sectors (gdCount sb) * IO_BLOCK_SIZE % 2 ^ 32

/-- The read of the table. -/
def Vfs.tableRequest (s : Vfs) (part : Nat) (sb : List UInt8) : Request :=
  s.request part (gdt_size_sectors (gdCount sb)) (gdt_lba (block_size_of sb))

/-- The state once there is memory for the table and it was asked for, with `q`. -/
def Vfs.tabled (s : Vfs) (f g : Nat) (q : Request) : Vfs :=
  { s.allocated g .gdt with
    fsinfos := Function.update s.fsinfos f
      { s.fsinfos f with
        block_size := block_size_of (s.fsinfos f).superblock
        gd_count := gdCount (s.fsinfos f).superblock
        group_descriptors := g }
    gdts := Function.update s.gdts g (resize (gdtBytes (s.fsinfos f).superblock) (s.gdts g))
    reads := q :: s.reads }

theorem tabled_dirs (s : Vfs) (f g : Nat) (q : Request) : (s.tabled f g q).dirs = s.dirs := allocated_dirs s g .gdt

theorem tabled_direntries (s : Vfs) (f g : Nat) (q : Request) : (s.tabled f g q).direntries = s.direntries :=
  allocated_direntries s g .gdt

theorem tabled_blocks (hg : g ≠ 0) (s : Vfs) (f : Nat) (q : Request) :
    (s.tabled f g q).blocks = (g, .gdt) :: s.blocks := congrArg Vfs.blocks (allocated_of_ne hg s .gdt)

theorem mount_table_panic (hf0 : f ≠ 0) (h : blocks_per_group (s.fsinfos f).superblock = 0) :
    mount_table env mnt_point f m s = (.error .panic, s) := by
  unfold mount_table
  rw [bind_of_ok (load_fsinfo_run hf0 s)]
  refine bind_of_error ?_
  rw [div32, if_pos h]
  rfl

theorem kmalloc_gdt_run (env : Env) (size : Nat) (hl : s.heap_locked = false)
    (hg : env.kmalloc s.kmallocs s.blocks size = g) :
    kmalloc_gdt env size s =
      (.ok g, { s.allocated g .gdt with gdts := Function.update s.gdts g (resize size (s.gdts g)) }) := by
  have hk := kmalloc_run (s := s) env size .gdt hl
  rw [hg] at hk
  unfold kmalloc_gdt
  rw [bind_of_ok hk, bind_of_ok (modify_apply _ _), allocated_gdts]
  rfl

theorem mount_table_run (env : Env) (s : Vfs) (mnt_point m : Nat) (hf0 : f ≠ 0) (hl : s.heap_locked = false)
    (hb : blocks_per_group (s.fsinfos f).superblock ≠ 0) (hp : Attached s (s.fsinfos f).part)
    (hg : env.kmalloc s.kmallocs s.blocks (gdtBytes (s.fsinfos f).superblock) = g) :
    mount_table env mnt_point f m s =
      let q := s.tableRequest (s.fsinfos f).part (s.fsinfos f).superblock
      let r := env.reply s.reads.length q
      (do
        store_gdt g r.stored
        if r.ret < 0 then no_mount_free_gdt g f m r.ret else mount_tree env mnt_point g f m) (s.tabled f g q) := by
  have hk := kmalloc_gdt_run (s := { s with
    fsinfos := Function.update s.fsinfos f { s.fsinfos f with
      block_size := block_size_of (s.fsinfos f).superblock,
      gd_count := gdCount (s.fsinfos f).superblock } }) env _ hl hg
  unfold mount_table
  rw [bind_of_ok (load_fsinfo_run hf0 s)]
  refine (bind_of_ok (div32_run hb s)).trans ?_
  rw [bind_of_ok (store_fsinfo_run hf0 _ _)]
  refine (bind_of_ok hk).trans ?_
  rw [bind_of_ok (store_fsinfo_run hf0 _ _), bind_of_ok (load_fsinfo_run hf0 _)]
  have hparts : ∀ t : Vfs, (t.allocated g .gdt).parts = t.parts := fun t => allocated_parts t g .gdt
  simp only [allocated_fsinfos, Function.update_self, Function.update_idem]
  refine (bind_of_ok (hdd_read_run (s := _) hp.1 ?_)).trans ?_
  · rw [hparts]
    exact hp.2
  · unfold Vfs.tabled Vfs.allocated
    by_cases hg0 : g = 0
    · rw [if_pos hg0, if_pos hg0]
      rfl
    · rw [if_neg hg0, if_neg hg0]
      rfl

theorem store_dir_run {d : Nat} (hd : d ≠ 0) (h : DirStruct → DirStruct) (s : Vfs) :
    store_dir d h s = (.ok (), { s with dirs := Function.update s.dirs d (h (s.dirs d)) }) := by
  rw [store_dir, if_neg hd]
  rfl

/-- The state once the mount point leads to `m`. -/
def Vfs.rooted (s : Vfs) (mnt_point m : Nat) : Vfs :=
  { s with
    dirs := Function.update s.dirs mnt_point
      { s.dirs mnt_point with fs_info := m, mnt_point := mnt_point, inode_no := 2 }
    direntries := Function.update s.direntries (s.dirs mnt_point).dir_entry
      { s.direntries (s.dirs mnt_point).dir_entry with inode_no := 2 } }

theorem mount_tree_run (env : Env) (s : Vfs) (g f m : Nat) (hd : mnt_point ≠ 0)
    (he : (s.dirs mnt_point).dir_entry ≠ 0) :
    mount_tree env mnt_point g f m s =
      (do
        let error ← ext2_get_direntries env mnt_point
        if error < 0 then
          store_dir mnt_point fun d' =>
            { d' with fs_info := (s.dirs mnt_point).fs_info, mnt_point := (s.dirs mnt_point).mnt_point }
          no_mount_free_gdt g f m error
        else pure SUCCESS) (s.rooted mnt_point m) := by
  unfold mount_tree
  rw [bind_of_ok (load_dir_run hd s), bind_of_ok (store_dir_run hd _ _), bind_of_ok (store_direntry_run he _ _)]
  rfl

/-! ## Runs that return -/

/-- What a run comes to that found the heap unlocked and followed no null pointer. -/
def Settled {α : Type} (x : Except Fault α) : Prop := x ≠ .error .spin ∧ x ≠ .error .nullDeref

theorem settled_ok {α : Type} (a : α) : Settled (.ok a : Except Fault α) := ⟨fun h => (by cases h), fun h => by cases h⟩

theorem settled_panic {α : Type} : Settled (.error .panic : Except Fault α) :=
  ⟨fun h => (by cases h), fun h => by cases h⟩

theorem mount_superblock_settled {x : Except Fault Int} (hx : Settled x)
    (h : mount_superblock env part mnt_point s = (x, t)) :
    s.heap_locked = false ∧ env.kmalloc s.kmallocs s.blocks 2048 ≠ 0 ∧
      env.kmalloc (s.kmallocs + 1) ((env.kmalloc s.kmallocs s.blocks 2048, .ext2fs) :: s.blocks) 12 ≠ 0 := by
  unfold mount_superblock at h
  have hl : s.heap_locked = false := by
    cases hl : s.heap_locked with
    | false => rfl
    | true =>
      rw [bind_of_error (kmalloc_locked 2048 .ext2fs hl)] at h
      cases h
      exact absurd rfl hx.1
  rw [bind_of_ok (kmalloc_run env 2048 .ext2fs hl)] at h
  have hf0 : env.kmalloc s.kmallocs s.blocks 2048 ≠ 0 := by
    intro hf
    rw [hf, bind_of_error (show store_fsinfo 0 _ _ = (.error .nullDeref, _) from rfl)] at h
    cases h
    exact absurd rfl hx.2
  refine ⟨hl, hf0, fun hm => ?_⟩
  have hk := kmalloc_run env 12 .mntp (s := { s with
    kmallocs := s.kmallocs + 1
    blocks := (env.kmalloc s.kmallocs s.blocks 2048, .ext2fs) :: s.blocks
    fsinfos := Function.update s.fsinfos (env.kmalloc s.kmallocs s.blocks 2048)
      { s.fsinfos (env.kmalloc s.kmallocs s.blocks 2048) with part := part } }) hl
  rw [hm] at hk
  rw [allocated_of_ne hf0, bind_of_ok (store_fsinfo_run hf0 _ _), bind_of_ok hk,
    bind_of_error (show store_mntp 0 _ _ = (.error .nullDeref, _) from rfl)] at h
  cases h
  exact absurd rfl hx.2

theorem mount_table_ok (hf0 : f ≠ 0) (h : mount_table env mnt_point f m s = (.ok r, t)) :
    blocks_per_group (s.fsinfos f).superblock ≠ 0 := by
  intro hb
  rw [mount_table_panic hf0 hb] at h
  cases h

theorem mount_tree_settled {x : Except Fault Int} (hx : Settled x) (h : mount_tree env mnt_point g f m s = (x, t)) :
    mnt_point ≠ 0 ∧ (s.dirs mnt_point).dir_entry ≠ 0 := by
  unfold mount_tree at h
  have hd : mnt_point ≠ 0 := by
    intro hd
    rw [hd, bind_of_error (show load_dir 0 s = (.error .nullDeref, s) from rfl)] at h
    cases h
    exact absurd rfl hx.2
  refine ⟨hd, fun he => ?_⟩
  rw [bind_of_ok (load_dir_run hd s), bind_of_ok (store_dir_run hd _ _), he,
    bind_of_error (show store_direntry 0 _ _ = (.error .nullDeref, _) from rfl)] at h
  cases h
  exact absurd rfl hx.2

theorem kfree_ok {p : Nat} {kind : Kind} {u : Unit} (h : kfree p kind s = (.ok u, t)) :
    s.heap_locked = false ∧ (p < 24 ∧ t = { s with heap_locked := true } ∨
      24 ≤ p ∧ t = { s with blocks := s.blocks.erase (p, kind) }) := by
  refine (kfree_sat (P := fun s' => s' = s) (Q := fun _ t => s.heap_locked = false ∧
    (p < 24 ∧ t = { s with heap_locked := true } ∨ 24 ≤ p ∧ t = { s with blocks := s.blocks.erase (p, kind) }))
    ?_ ?_ any_stopped).of_run h
  · rintro _ rfl hl hp
    exact ⟨hl, .inl ⟨hp, rfl⟩⟩
  · rintro _ rfl hl hp -
    exact ⟨hl, .inr ⟨hp, rfl⟩⟩

/-- A block lies behind its header. -/
def BehindHeader (env : Env) : Prop := ∀ i blocks size, env.kmalloc i blocks size ≠ 0 → 24 ≤ env.kmalloc i blocks size

theorem no_mount_ok {error : Int} (hm : 24 ≤ m) (h : no_mount f m error s = (.ok r, t)) :
    r = error ∧ s.heap_locked = false ∧
      t = { s with blocks := (s.blocks.erase (f, .ext2fs)).erase (m, .mntp) } := by
  obtain ⟨_, s₁, h₁, h₂⟩ := bind_ok.1 h
  obtain ⟨_, s₂, h₃, h₄⟩ := bind_ok.1 h₂
  cases h₄
  obtain ⟨hl, hcase⟩ := kfree_ok h₁
  obtain ⟨hl', hcase'⟩ := kfree_ok h₃
  refine ⟨rfl, hl, ?_⟩
  rcases hcase with ⟨-, rfl⟩ | ⟨-, rfl⟩
  · cases hl'
  · rcases hcase' with ⟨hlt, -⟩ | ⟨-, rfl⟩
    · omega
    · rfl

/-- Without a table the heap would be locked when the next block is given back. -/
theorem no_mount_free_gdt_ok {error : Int} (hm : 24 ≤ m) (h : no_mount_free_gdt g f m error s = (.ok r, t)) :
    r = error ∧ 24 ≤ g ∧ t = { s with blocks := ((s.blocks.erase (g, .gdt)).erase (f, .ext2fs)).erase (m, .mntp) } := by
  obtain ⟨_, s₁, h₁, h₂⟩ := bind_ok.1 h
  obtain ⟨hr, hl', rfl⟩ := no_mount_ok hm h₂
  obtain ⟨-, hcase⟩ := kfree_ok h₁
  rcases hcase with ⟨-, rfl⟩ | ⟨hg, rfl⟩
  · cases hl'
  · exact ⟨hr, hg, rfl⟩

/-! ## The whole -/

/-- The answer to the second read of the superblock. -/
def Env.superblockReply (env : Env) (s : Vfs) (part : Nat) : Reply :=
  env.reply (s.reads.length + 1) (s.request part SB_SECT_SIZE SB_SECT_OFFSET)

/-- The superblock that is read then. -/
def Env.readSuperblock (env : Env) (s : Vfs) (part : Nat) : List UInt8 :=
  overwrite (s.fsinfos (env.kmalloc s.kmallocs s.blocks 2048)).superblock (env.superblockReply s part).stored

/-- The answer to the read of the group descriptors. -/
def Env.tableReply (env : Env) (s : Vfs) (part : Nat) : Reply :=
  env.reply (s.reads.length + 2) (s.tableRequest part (env.readSuperblock s part))

/-- The state once the superblock was read, with the structures at `f` and `m`. -/
def Env.mounting (env : Env) (s : Vfs) (part f m : Nat) : Vfs :=
  (s.asked (s.request part SB_SECT_SIZE SB_SECT_OFFSET)).described f m part (env.readSuperblock s part)
    (s.request part SB_SECT_SIZE SB_SECT_OFFSET)

theorem ext2_mount_run (env : Env) (s : Vfs) (part mnt_point : Nat) (hp : Attached s part)
    (hprobe : ¬ env.probed s part < 0) (hl : s.heap_locked = false)
    (hf : env.kmalloc s.kmallocs s.blocks 2048 = f) (hf0 : f ≠ 0)
    (hm : env.kmalloc (s.kmallocs + 1) ((f, .ext2fs) :: s.blocks) 12 = m) (hm0 : m ≠ 0) :
    ext2_mount env part mnt_point s =
      (if (env.superblockReply s part).ret < SB_SECT_SIZE then no_mount f m (env.superblockReply s part).ret
        else mount_table env mnt_point f m) (env.mounting s part f m) := by
  subst hf
  rw [ext2_mount_eq, bind_of_ok (ext2_probe_run hp), if_neg hprobe]
  exact mount_superblock_run env (s.asked (s.request part SB_SECT_SIZE SB_SECT_OFFSET)) part mnt_point hl rfl hf0 hm hm0 hp

theorem mounting_fsinfos (env : Env) (s : Vfs) (part f m : Nat) : (env.mounting s part f m).fsinfos f =
    { s.fsinfos f with part := part, superblock := env.readSuperblock s part } := Function.update_self _ _ _

theorem mount_table_mounting (env : Env) (s : Vfs) (part mnt_point f m : Nat) (hp : Attached s part) (hf0 : f ≠ 0)
    (hl : s.heap_locked = false) (hb : blocks_per_group (env.readSuperblock s part) ≠ 0)
    (hg : env.kmalloc (s.kmallocs + 2) ((m, .mntp) :: (f, .ext2fs) :: s.blocks)
      (gdtBytes (env.readSuperblock s part)) = g) :
    mount_table env mnt_point f m (env.mounting s part f m) =
      (do
        store_gdt g (env.tableReply s part).stored
        if (env.tableReply s part).ret < 0 then no_mount_free_gdt g f m (env.tableReply s part).ret
        else mount_tree env mnt_point g f m)
      ((env.mounting s part f m).tabled f g (s.tableRequest part (env.readSuperblock s part))) := by
  have hf := mounting_fsinfos env s part f m
  have hrun := mount_table_run (g := g) env (env.mounting s part f m) mnt_point m hf0 hl (by rw [hf]; exact hb)
    (by rw [hf]; exact hp) (by rw [hf]; exact hg)
  rw [hf] at hrun
  exact hrun

/-- The probe failed, or the superblock was read into new structures. -/
theorem ext2_mount_settled {x : Except Fault Int} (hx : Settled x) (h : ext2_mount env part mnt_point s = (x, t)) :
    (env.probed s part < 0 ∧ x = .ok (env.probed s part) ∧ t = s.asked (s.request part SB_SECT_SIZE SB_SECT_OFFSET)) ∨
      Attached s part ∧ ¬ env.probed s part < 0 ∧ s.heap_locked = false ∧ ∃ f m, f ≠ 0 ∧ m ≠ 0 ∧
        env.kmalloc s.kmallocs s.blocks 2048 = f ∧ env.kmalloc (s.kmallocs + 1) ((f, .ext2fs) :: s.blocks) 12 = m ∧
        (if (env.superblockReply s part).ret < SB_SECT_SIZE then no_mount f m (env.superblockReply s part).ret
          else mount_table env mnt_point f m) (env.mounting s part f m) = (x, t) := by
  have h' := h
  rw [ext2_mount_eq] at h
  by_cases hp : Attached s part
  · rw [bind_of_ok (ext2_probe_run hp)] at h
    by_cases hprobe : env.probed s part < 0
    · rw [if_pos hprobe] at h
      cases h
      exact .inl ⟨hprobe, rfl, rfl⟩
    · rw [if_neg hprobe] at h
      obtain ⟨hl, hf0, hm0⟩ := mount_superblock_settled hx h
      rw [ext2_mount_run env s part mnt_point hp hprobe hl rfl hf0 rfl hm0] at h'
      exact .inr ⟨hp, hprobe, hl, _, _, hf0, hm0, rfl, rfl, h'⟩
  · rw [bind_of_error (ext2_probe_null hp)] at h
    cases h
    exact absurd rfl hx.2

/-- Storing nothing is storing, too. -/
theorem store_gdt_ok {p : Nat} {bytes : List UInt8} {x : Unit} (h : store_gdt p bytes s = (.ok x, t)) :
    t = { s with gdts := Function.update s.gdts p (overwrite (s.gdts p) bytes) } := by
  by_cases hb : bytes = []
  · rw [hb] at h ⊢
    cases h
    have hsame : overwrite (s.gdts p) [] = s.gdts p := rfl
    rw [hsame, Function.update_eq_self]
  · unfold store_gdt at h
    rw [bind_of_ok (get_apply s), if_neg hb] at h
    split at h
    · cases h
    · split at h
      · cases h
        rfl
      · cases h

theorem no_mount_returns {error : Int} (h : no_mount f m error s = (.ok r, t)) : r = error := by
  obtain ⟨_, s₁, -, h₁⟩ := bind_ok.1 h
  obtain ⟨_, s₂, -, h₂⟩ := bind_ok.1 h₁
  cases h₂
  rfl

theorem no_mount_free_gdt_returns {error : Int} (h : no_mount_free_gdt g f m error s = (.ok r, t)) : r = error := by
  obtain ⟨_, s₁, -, h₁⟩ := bind_ok.1 h
  exact no_mount_returns h₁

/-- The state in which `ext2_mount` has the root directory loaded. -/
def Env.handedOver (env : Env) (s : Vfs) (part mnt_point : Nat) : Vfs :=
  let f := env.kmalloc s.kmallocs s.blocks 2048
  let m := env.kmalloc (s.kmallocs + 1) ((f, .ext2fs) :: s.blocks) 12
  let sb := env.readSuperblock s part
  let g := env.kmalloc (s.kmallocs + 2) ((m, .mntp) :: (f, .ext2fs) :: s.blocks) (gdtBytes sb)
  let t := (env.mounting s part f m).tabled f g (s.tableRequest part sb)
  ({ t with
    gdts := Function.update t.gdts g (overwrite (t.gdts g) (env.tableReply s part).stored) } : Vfs).rooted mnt_point m

/-- How a mount that returns gets there: the probe, the superblock or the table ends it, or the
directory is loaded, and an error of that or success returned. -/
theorem ext2_mount_cases (h : ext2_mount env part mnt_point s = (.ok r, t)) :
    env.probed s part < 0 ∧ r = env.probed s part ∨ ¬ env.probed s part < 0 ∧
      ((env.superblockReply s part).ret < SB_SECT_SIZE ∧ r = (env.superblockReply s part).ret ∨
        ¬ (env.superblockReply s part).ret < SB_SECT_SIZE ∧
        ((env.tableReply s part).ret < 0 ∧ r = (env.tableReply s part).ret ∨ ¬ (env.tableReply s part).ret < 0 ∧
          ∃ error w, ext2_get_direntries env mnt_point (env.handedOver s part mnt_point) = (.ok error, w) ∧
            (error < 0 ∧ r = error ∨ 0 ≤ error ∧ r = SUCCESS ∧ t = w))) := by
  rcases ext2_mount_settled (settled_ok r) h with ⟨hprobe, hr, -⟩ | ⟨hp, hprobe, hl, f, m, hf0, hm0, hf, hm, hrun⟩
  · exact .inl ⟨hprobe, Except.ok.inj hr⟩
  refine .inr ⟨hprobe, ?_⟩
  by_cases hsuper : (env.superblockReply s part).ret < SB_SECT_SIZE
  · rw [if_pos hsuper] at hrun
    exact .inl ⟨hsuper, no_mount_returns hrun⟩
  refine .inr ⟨hsuper, ?_⟩
  rw [if_neg hsuper] at hrun
  have hgroups := mount_table_ok hf0 hrun
  rw [mounting_fsinfos] at hgroups
  rw [mount_table_mounting env s part mnt_point f m hp hf0 hl hgroups rfl] at hrun
  obtain ⟨_, v, hst, h₁⟩ := bind_ok.1 hrun
  obtain rfl := store_gdt_ok hst
  by_cases htable : (env.tableReply s part).ret < 0
  · rw [if_pos htable] at h₁
    exact .inl ⟨htable, no_mount_free_gdt_returns h₁⟩
  refine .inr ⟨htable, ?_⟩
  rw [if_neg htable] at h₁
  obtain ⟨hd, he⟩ := mount_tree_settled (settled_ok r) h₁
  rw [mount_tree_run env _ _ f m hd he] at h₁
  obtain ⟨error, w, hload, h₂⟩ := bind_ok.1 h₁
  refine ⟨error, w, ?_, ?_⟩
  · subst hf hm
    exact hload
  · by_cases herror : error < 0
    · rw [if_pos herror] at h₂
      obtain ⟨_, w₁, -, h₃⟩ := bind_ok.1 h₂
      exact .inl ⟨herror, no_mount_free_gdt_returns h₃⟩
    · rw [if_neg herror] at h₂
      cases h₂
      exact .inr ⟨Int.not_lt.1 herror, rfl, rfl⟩

end

end Ulmix.Fs

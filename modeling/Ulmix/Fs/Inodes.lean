import Ulmix.Fs.Volumes
/-!
# Where an inode is read from

`fetch_inode` takes the sector from the number of the inode in its group, and
the place in the sector from its number in the filesystem. The two fit together
as long as the groups in front hold a multiple of the inodes in a sector
(`fetch_inode_offset`).

`inode_source` is what happens before `memcpy`; with the pointers in order it is
known what comes of it (`inode_source_run`).
-/
open Ulmix.Lib Ulmix.Lib.Prog

namespace Ulmix.Fs

/-! ## In front of `memcpy` -/

/-- The part of `fetch_inode` in front of `memcpy`: the error it returns, or the bytes to be copied. -/
def inode_source (env : Env) (inode_no mnt_info : Nat) : Prog Vfs (Except Int (List UInt8)) := do
  let fsinfo ← load_fsinfo (← load_mntp mnt_info).fs_data
  let sb := fsinfo.superblock
  if inode_no > total_inodes sb then pure (.error (-ENOENT))
  else
    let block_group_no ← div32 (sub32 inode_no 1) (inodes_per_group sb)
    let inodes_per_disk_sector ← div32 IO_BLOCK_SIZE (inode_size sb)
    let disk_sector_offset ← div32 (sub32 inode_no 1 % inodes_per_group sb) inodes_per_disk_sector
    let block_group ← load_gd fsinfo.group_descriptors block_group_no
    let inode_table_lba := bg_inode_table block_group * (fsinfo.block_size / IO_BLOCK_SIZE) % 2 ^ 32
    let inode_buf ← local_array env IO_BLOCK_SIZE
    let r ← hdd_read env fsinfo.part 1 (add32 inode_table_lba disk_sector_offset)
    if r.ret < 0 then pure (.error r.ret)
    else
      let bytes ← slice (overwrite inode_buf r.stored)
        (sub32 inode_no 1 % inodes_per_disk_sector * inode_size sb) (inode_size sb)
      pure (.ok bytes)

/-- `memcpy`, and the end of `fetch_inode`. -/
def copy_inode (inode : Nat) : Except Int (List UInt8) → Prog Vfs Int
  | .error error => pure error
  | .ok bytes => do
    store_inode inode bytes
    pure SUCCESS

/-- From the read on. -/
theorem read_source_eq (env : Env) (part lba p i n : Nat) :
    (do
      let inode_buf ← local_array env IO_BLOCK_SIZE
      let r ← hdd_read env part 1 lba
      if r.ret < 0 then pure r.ret
      else do
        let bytes ← slice (overwrite inode_buf r.stored) i n
        store_inode p bytes
        pure SUCCESS : Prog Vfs Int) =
    (do
      let inode_buf ← local_array env IO_BLOCK_SIZE
      let r ← hdd_read env part 1 lba
      if r.ret < 0 then pure (.error r.ret)
      else do
        let bytes ← slice (overwrite inode_buf r.stored) i n
        pure (.ok bytes)) >>= copy_inode p := by
  rw [bind_assoc]
  refine bind_congr fun inode_buf => ?_
  rw [bind_assoc]
  refine bind_congr fun r => ?_
  rw [ite_bind]
  refine if_congr Iff.rfl ?_ ?_
  · rw [pure_bind, copy_inode]
  · rw [bind_assoc]
    refine bind_congr fun bytes => ?_
    rw [pure_bind, copy_inode]

theorem fetch_inode_eq (env : Env) (n m p : Nat) : fetch_inode env n m p = inode_source env n m >>= copy_inode p := by
  unfold fetch_inode inode_source
  rw [bind_assoc]
  refine bind_congr fun mnt => ?_
  rw [bind_assoc]
  refine bind_congr fun fsinfo => ?_
  rw [ite_bind]
  refine if_congr Iff.rfl (by rw [pure_bind, copy_inode]) ?_
  rw [bind_assoc]
  refine bind_congr fun block_group_no => ?_
  rw [bind_assoc]
  refine bind_congr fun inodes_per_disk_sector => ?_
  rw [bind_assoc]
  refine bind_congr fun disk_sector_offset => ?_
  rw [bind_assoc]
  refine bind_congr fun block_group => ?_
  exact read_source_eq env _ _ p _ _

/-! ## With the pointers in order -/

/-- No pointer on the way from the `mntp_struct` at `m` to the device is null. -/
structure Mounted (s : Vfs) (m : Nat) : Prop where
  mnt_info : m ≠ 0
  fs_data : (s.mntps m).fs_data ≠ 0
  group_descriptors : (s.fsinfos (s.mntps m).fs_data).group_descriptors ≠ 0
  part : (s.volume m).part ≠ 0
  bd : (s.parts (s.volume m).part).bd ≠ 0

section
variable {env : Env} {s : Vfs} {m n p : Nat}

theorem inode_source_missing (hm : Mounted s m) (hn : total_inodes (s.volume m).superblock < n) :
    inode_source env n m s = (.ok (.error (-ENOENT)), s) := by
  unfold inode_source
  rw [bind_of_ok (load_mntp_run hm.mnt_info s), bind_of_ok (load_fsinfo_run hm.fs_data s)]
  exact congrFun (if_pos hn) s

/-- An inode lies within its sector. -/
theorem Volume.inodeOffset_le (v : Volume) (n : Nat) (h : v.perSector ≠ 0) :
    v.inodeOffset n + inode_size v.superblock ≤ IO_BLOCK_SIZE := by
  have hlt : sub32 n 1 % v.perSector < v.perSector := Nat.mod_lt _ (Nat.pos_of_ne_zero h)
  calc v.inodeOffset n + inode_size v.superblock
      = (sub32 n 1 % v.perSector + 1) * inode_size v.superblock := by rw [Volume.inodeOffset]; ring
    _ ≤ v.perSector * inode_size v.superblock := Nat.mul_le_mul_right _ hlt
    _ ≤ IO_BLOCK_SIZE := Nat.div_mul_le_self _ _

theorem overwrite_length (buf new : List UInt8) : buf.length ≤ (overwrite buf new).length := by
  simp only [overwrite, List.length_append, List.length_drop]
  omega

/-- The sector buffer of `fetch_inode` is long enough. -/
theorem sector_length (env : Env) (s : Vfs) (m n : Nat) : IO_BLOCK_SIZE ≤
    (overwrite ((List.range IO_BLOCK_SIZE).map (env.stack s.reads.length)) (env.inodeReply s m n).stored).length := by
  refine le_trans ?_ (overwrite_length _ _)
  simp

theorem inodeBytes_length (h : (s.volume m).perSector ≠ 0) :
    (env.inodeBytes s m n).length = inode_size (s.volume m).superblock := by
  have hle := (s.volume m).inodeOffset_le n h
  have hlen := sector_length env s m n
  unfold Env.inodeBytes
  rw [List.length_take, List.length_drop]
  omega

/-- The device is asked, and its error returned, or the bytes of the inode are there. -/
theorem inode_source_run (hm : Mounted s m) (hs : (s.volume m).Serves n) :
    inode_source env n m s =
      (.ok (if (env.inodeReply s m n).ret < 0 then .error (env.inodeReply s m n).ret else .ok (env.inodeBytes s m n)),
        s.asked (s.inodeRequest m n)) := by
  have hn : ¬ n > total_inodes (s.volume m).superblock := Nat.not_lt.2 hs.known
  have hread : hdd_read env (s.volume m).part 1 ((s.volume m).inodeSector n) s =
      (.ok (env.inodeReply s m n), s.asked (s.inodeRequest m n)) := hdd_read_run hm.part hm.bd
  have hslice := (Nat.le_trans ((s.volume m).inodeOffset_le n hs.small) (sector_length env s m n))
  unfold inode_source
  rw [bind_of_ok (load_mntp_run hm.mnt_info s), bind_of_ok (load_fsinfo_run hm.fs_data s)]
  refine (congrFun (if_neg hn) s).trans ?_
  refine (bind_of_ok (div32_run hs.grouped s)).trans ?_
  refine (bind_of_ok (div32_run hs.sized s)).trans ?_
  refine (bind_of_ok (div32_run hs.small s)).trans ?_
  refine (bind_of_ok (load_gd_run hm.group_descriptors hs.described)).trans ?_
  refine (bind_of_ok (local_array_run env IO_BLOCK_SIZE s)).trans ?_
  refine (bind_of_ok hread).trans ?_
  by_cases hr : (env.inodeReply s m n).ret < 0
  · rw [if_pos hr, if_pos hr]
    rfl
  · rw [if_neg hr, if_neg hr]
    exact bind_of_ok (slice_run hslice _)

end

/-! ## The bytes on the disk -/

/-- `n` bytes of `disk` from the byte `a` on. -/
def diskBytes (disk : Nat → UInt8) (a n : Nat) : List UInt8 := (List.range n).map fun k => disk (a + k)

/-- The device `bd` serves every read with what `disk` holds. -/
def Env.Holds (env : Env) (bd : Nat) (disk : Nat → UInt8) : Prop :=
  ∀ i sectors lba, env.read i bd sectors lba = ⟨sectors, diskBytes disk (lba * IO_BLOCK_SIZE) (sectors * IO_BLOCK_SIZE)⟩

theorem diskBytes_length (disk : Nat → UInt8) (a n : Nat) : (diskBytes disk a n).length = n := by
  simp [diskBytes]

theorem diskBytes_slice (disk : Nat → UInt8) {a n i k : Nat} (h : i + k ≤ n) :
    ((diskBytes disk a n).drop i).take k = diskBytes disk (a + i) k := by
  apply List.ext_getElem
  · simp only [diskBytes, List.length_take, List.length_drop, List.length_map, List.length_range]
    omega
  · intro j h₁ h₂
    simp [diskBytes, Nat.add_assoc]

theorem overwrite_full {buf new : List UInt8} (h : buf.length ≤ new.length) : overwrite buf new = new := by
  rw [overwrite, List.drop_eq_nil_of_le h, List.append_nil]

/-- Where the bytes of inode `n` start on the device, as `fetch_inode` has it. -/
def Vfs.inodeStart (s : Vfs) (m n : Nat) : Nat :=
  (s.inodeRequest m n).lba * IO_BLOCK_SIZE + (s.volume m).inodeOffset n

section
variable {env : Env} {s : Vfs} {m n : Nat} {disk : Nat → UInt8}

theorem inodeBytes_disk (h : env.Holds (s.parts (s.volume m).part).bd disk) (hper : (s.volume m).perSector ≠ 0) :
    env.inodeBytes s m n = diskBytes disk (s.inodeStart m n) (inode_size (s.volume m).superblock) := by
  have hstored : (env.inodeReply s m n).stored = diskBytes disk
      ((s.inodeRequest m n).lba * IO_BLOCK_SIZE) IO_BLOCK_SIZE := by
    have hreply : (env.inodeReply s m n).stored =
      (env.read s.reads.length (s.parts (s.volume m).part).bd 1 (s.inodeRequest m n).lba).stored.take
        (1 * IO_BLOCK_SIZE) := rfl
    rw [hreply, h, Nat.one_mul]
    dsimp only
    rw [List.take_of_length_le]
    rw [diskBytes_length]
  have hle := (s.volume m).inodeOffset_le n hper
  rw [Env.inodeBytes, overwrite_full (by rw [hstored, diskBytes_length]; simp), hstored, diskBytes_slice disk hle,
    Vfs.inodeStart]

/-- Where the bytes of inode `n` are to be found: in the table of its group, behind the
inodes of the group in front of it. -/
def Vfs.inodePlace (s : Vfs) (m n : Nat) : Nat :=
  let v := s.volume m
  let group := (n - 1) / inodes_per_group v.superblock
  (s.parts v.part).sect_offset * IO_BLOCK_SIZE +
    bg_inode_table ((v.table.drop (32 * group)).take 32) * v.block_size +
    (n - 1) % inodes_per_group v.superblock * inode_size v.superblock

/-- Whatever the disk holds, `fetch_inode` hands the bytes of inode `n` to `memcpy`. -/
def ReadsRight (s : Vfs) (m n : Nat) : Prop :=
  ∀ env disk, env.Holds (s.parts (s.volume m).part).bd disk →
    (inode_source env n m s).1 = .ok (.ok (diskBytes disk (s.inodePlace m n) (inode_size (s.volume m).superblock)))

/-- Inode `n` is one of a mounted filesystem with an admissible geometry. -/
structure Located (s : Vfs) (m n : Nat) : Prop where
  mounted : Mounted s m
  sized : inode_size (s.volume m).superblock ∈ [128, 256, 512]
  grouped : 1 ≤ inodes_per_group (s.volume m).superblock
  block : ∃ k, (s.volume m).block_size = 1024 * 2 ^ k
  positive : 1 ≤ n
  known : n ≤ total_inodes (s.volume m).superblock
  group : (n - 1) / inodes_per_group (s.volume m).superblock < (s.fsinfos (s.mntps m).fs_data).gd_count
  loaded : 32 * (s.fsinfos (s.mntps m).fs_data).gd_count ≤ (s.volume m).table.length
  /-- The sector has a number of 32 bits. -/
  fits : s.inodePlace m n < 2 ^ 32 * IO_BLOCK_SIZE

namespace Located

theorem sub32_eq (h : Located s m n) : sub32 n 1 = n - 1 :=
  Lib.sub32_eq (Nat.lt_of_le_of_lt h.known (ofBytes_lt _ _ _ _)) h.positive

theorem perSector_mul (h : Located s m n) :
    (s.volume m).perSector * inode_size (s.volume m).superblock = IO_BLOCK_SIZE := by
  have hsized := h.sized
  simp only [List.mem_cons, List.not_mem_nil, or_false] at hsized
  rcases hsized with hsize | hsize | hsize <;> rw [Volume.perSector, hsize] <;> rfl

theorem perSector_ne (h : Located s m n) : (s.volume m).perSector ≠ 0 := by
  intro h0
  have := h.perSector_mul
  rw [h0, Nat.zero_mul] at this
  exact absurd this (by decide)

theorem size_pos (h : Located s m n) : 0 < inode_size (s.volume m).superblock := by
  apply Nat.pos_of_ne_zero
  intro h0
  have := h.perSector_mul
  rw [h0, Nat.mul_zero] at this
  exact absurd this (by decide)

theorem serves (h : Located s m n) : (s.volume m).Serves n where
  known := h.known
  grouped := Nat.ne_of_gt h.grouped
  sized := Nat.ne_of_gt h.size_pos
  small := h.perSector_ne
  described := by
    have hgroup : (s.volume m).group n = (n - 1) / inodes_per_group (s.volume m).superblock := by
      rw [Volume.group, h.sub32_eq]
    have := h.group
    have := h.loaded
    rw [hgroup]
    omega

/-- The first inode in the sector of inode `n` is where it should be. -/
theorem inodeStart_eq (h : Located s m n) : s.inodeStart m n + (n - 1) % inodes_per_group (s.volume m).superblock %
      (s.volume m).perSector * inode_size (s.volume m).superblock =
    s.inodePlace m n + (n - 1) % (s.volume m).perSector * inode_size (s.volume m).superblock := by
  obtain ⟨k, hk⟩ := h.block
  have hmul := h.perSector_mul
  have hfits := h.fits
  have hgroup : (s.volume m).group n = (n - 1) / inodes_per_group (s.volume m).superblock := by
    rw [Volume.group, h.sub32_eq]
  have hblock : (s.volume m).block_size = (s.volume m).sectors * IO_BLOCK_SIZE := by
    rw [Volume.sectors, hk, Nat.div_mul_cancel]
    exact Dvd.dvd.mul_right (by decide) _
  simp only [Vfs.inodeStart, Vfs.inodePlace, Vfs.inodeRequest, Vfs.request, Volume.inodeSector, Volume.inodeOffset,
    hgroup, h.sub32_eq, hblock] at hfits ⊢
  generalize bg_inode_table _ = table at hfits ⊢
  generalize (s.volume m).perSector = per at hmul hfits ⊢
  generalize inode_size _ = size at hmul hfits ⊢
  generalize (n - 1) % inodes_per_group _ = x at hfits ⊢
  generalize (s.volume m).sectors = sectors at hfits ⊢
  generalize (s.parts _).sect_offset = offset at hfits ⊢
  -- the inodes of the group in front fill whole sectors, up to the ones in the same sector
  have hx : x * size = x / per * IO_BLOCK_SIZE + x % per * size := by
    calc x * size = (per * (x / per) + x % per) * size := by rw [Nat.div_add_mod]
      _ = x / per * (per * size) + x % per * size := by ring
      _ = x / per * IO_BLOCK_SIZE + x % per * size := by rw [hmul]
  have htable : table * (sectors * IO_BLOCK_SIZE) = table * sectors * IO_BLOCK_SIZE := by ring
  rw [hx, htable] at hfits ⊢
  have hio : IO_BLOCK_SIZE = 512 := rfl
  rw [hio] at hfits ⊢
  have hlba : add32 (add32 (table * sectors % 2 ^ 32) (x / per)) offset = table * sectors + x / per + offset := by
    rw [add32_eq (a := table * sectors % 2 ^ 32), add32_eq, Nat.mod_eq_of_lt] <;> omega
  rw [hlba]
  omega

end Located

/-- A device that holds `disk`, with a heap that hands out nothing. -/
def diskEnv (disk : Nat → UInt8) : Env where
  debug := true
  kmalloc _ _ _ := 0
  read _ _ sectors lba := ⟨sectors, diskBytes disk (lba * IO_BLOCK_SIZE) (sectors * IO_BLOCK_SIZE)⟩
  stack _ _ := 0

theorem diskBytes_inj {a b k : Nat} (hk : 0 < k) (h : ∀ disk, diskBytes disk a k = diskBytes disk b k) : a = b := by
  have hhead := congrArg (·[0]?) (h fun i => if i = b then 1 else 0)
  simp only [diskBytes, List.getElem?_map, List.getElem?_range hk, Option.map_some, Nat.add_zero, if_true,
    Option.some.injEq] at hhead
  by_contra hab
  rw [if_neg hab] at hhead
  exact absurd hhead (by decide)

theorem readsRight_iff (h : Located s m n) : ReadsRight s m n ↔ s.inodeStart m n = s.inodePlace m n := by
  have hrun (env : Env) (disk : Nat → UInt8) (henv : env.Holds (s.parts (s.volume m).part).bd disk) :
      (inode_source env n m s).1 =
        .ok (.ok (diskBytes disk (s.inodeStart m n) (inode_size (s.volume m).superblock))) := by
    have hret : (env.inodeReply s m n).ret = ((1 : Nat) : Int) := congrArg Reply.ret (henv s.reads.length 1 _)
    rw [inode_source_run h.mounted h.serves, if_neg (by rw [hret]; decide), inodeBytes_disk henv h.perSector_ne]
  constructor
  · intro hall
    apply diskBytes_inj h.size_pos
    intro disk
    have henv : (diskEnv disk).Holds (s.parts (s.volume m).part).bd disk := fun _ _ _ => rfl
    have := (hrun _ disk henv).symm.trans (hall _ disk henv)
    exact Except.ok.inj (Except.ok.inj this)
  · intro heq env disk henv
    rw [hrun env disk henv, heq]

/-- The two places are the same exactly if the inodes of the groups in front fill whole sectors. -/
theorem Located.inodeStart_iff (h : Located s m n) : s.inodeStart m n = s.inodePlace m n ↔
    (n - 1) / inodes_per_group (s.volume m).superblock * inodes_per_group (s.volume m).superblock %
      (IO_BLOCK_SIZE / inode_size (s.volume m).superblock) = 0 := by
  have hstart := h.inodeStart_eq
  have hsplit := Nat.div_add_mod' (n - 1) (inodes_per_group (s.volume m).superblock)
  have hper : IO_BLOCK_SIZE / inode_size (s.volume m).superblock = (s.volume m).perSector := rfl
  rw [hper]
  generalize (n - 1) / inodes_per_group _ * inodes_per_group _ = front at hsplit ⊢
  generalize (n - 1) % inodes_per_group _ = x at hsplit hstart
  have hplace : s.inodeStart m n = s.inodePlace m n ↔ x % (s.volume m).perSector =
      (n - 1) % (s.volume m).perSector := by
    constructor
    · intro heq
      rw [heq] at hstart
      exact Nat.eq_of_mul_eq_mul_right h.size_pos (Nat.add_left_cancel hstart)
    · intro heq
      rw [heq] at hstart
      exact Nat.add_right_cancel hstart
  rw [hplace, ← hsplit]
  have hmod : front + x ≡ 0 + x [MOD (s.volume m).perSector] ↔ front ≡ 0 [MOD (s.volume m).perSector] :=
    ⟨Nat.ModEq.add_right_cancel' x, Nat.ModEq.add_right x⟩
  rw [Nat.zero_add] at hmod
  exact eq_comm.trans hmod

/-- Inode `n` is read from the right place, whatever the disk holds, exactly if the inodes of
the groups in front of its own fill whole sectors. -/
theorem fetch_inode_offset (h : Located s m n) :
    (∀ env p, fetch_inode env n m p = inode_source env n m >>= copy_inode p) ∧
      (ReadsRight s m n ↔
        (n - 1) / inodes_per_group (s.volume m).superblock * inodes_per_group (s.volume m).superblock %
        (IO_BLOCK_SIZE / inode_size (s.volume m).superblock) = 0) :=
  ⟨fun env p => fetch_inode_eq env n m p, (readsRight_iff h).trans h.inodeStart_iff⟩

end

/-- Two groups of ten inodes of 128 bytes. -/
def tenSuperblock : List UInt8 := smallSuperblock.set 40 10

/-- The small filesystem with groups of ten inodes. -/
def tenVfs : Vfs := { smallVfs with fsinfos := fun _ => ⟨tenSuperblock, 0x600, 1024, 2, 0x500⟩ }

theorem tenVfs_located {n : Nat} (h : n ∈ [10, 11]) : Located tenVfs 0x300 n := by
  have hmounted : Mounted tenVfs 0x300 := ⟨by decide, by decide, by decide, by decide, by decide⟩
  have hsized : inode_size (tenVfs.volume 0x300).superblock ∈ [128, 256, 512] := by decide +kernel
  have hgrouped : 1 ≤ inodes_per_group (tenVfs.volume 0x300).superblock := by decide +kernel
  simp only [List.mem_cons, List.not_mem_nil, or_false] at h
  rcases h with rfl | rfl
  all_goals
    exact ⟨hmounted, hsized, hgrouped, ⟨0, rfl⟩, by decide, by decide +kernel, by decide +kernel, by decide +kernel,
      by decide +kernel⟩

theorem fetch_inode_offset_first : ReadsRight tenVfs 0x300 10 :=
  (fetch_inode_offset (tenVfs_located (by decide))).2.mpr (by decide +kernel)

/-- The first inode of the second group is taken from the middle of its sector. -/
theorem fetch_inode_misplaced : ¬ ReadsRight tenVfs 0x300 11 := by
  rw [readsRight_iff (tenVfs_located (by decide))]
  decide +kernel

end Ulmix.Fs

import Ulmix.Fs.Volumes
/-!
# Loading a directory, step by step

`ext2_get_direntries` first looks whether there is a list already. If there is
none it reads the inode of the directory and goes through the records of the
first block (`load_entries`). An error is returned by the read of this block
only: without an inode the read is not reached, and behind it nothing but
success is returned.
-/
open Ulmix.Lib Ulmix.Lib.Prog

namespace Ulmix.Fs

section
variable {env : Env} {s s' t td : Vfs} {dir f inode : Nat} {r : Int} {blk : List UInt8}

/-! ## The inode of the directory -/

/-- Reading the inode of the directory's own entry moves neither directories nor filesystems. -/
theorem direntry_get_inode_frame (env : Env) (e : Nat) (s : Vfs) :
    Sat (fun s' => s' = s) (direntry_get_inode env e) (fun _ t => t.dirs = s.dirs ∧ t.fsinfos = s.fsinfos) stopped := by
  refine (direntry_get_inode_keeps (P := fun t => t.dirs = s.dirs ∧ t.fsinfos = s.fsinfos) ⟨?_, ?_, ?_, ?_, ?_⟩ ?_).mono
    (fun _ h => h ▸ ⟨rfl, rfl⟩) (fun _ _ h => h) any_stopped
  · exact fun _ _ _ h => h
  · exact fun _ _ h => by simpa using h
  · exact fun _ _ h => h
  · exact fun _ h => h
  · exact fun _ _ h => h
  · exact fun _ _ _ h _ _ _ => h

/-- The filesystem the entry `e` lies in. -/
def Vfs.entryMount (s : Vfs) (e : Nat) : Nat := (s.dirs (s.direntries e).parent).fs_info

/-- Where the inode of the entry `e` lies: where it lay before, or in what `kmalloc` returns for it. -/
def Env.inodeMemory (env : Env) (s : Vfs) (e : Nat) : Nat :=
  if (s.direntries e).payload = 0 then env.kmalloc s.kmallocs s.blocks 128 else (s.direntries e).payload

/-- The inode of `e` when it was read: what the device delivers over what was there. -/
def Env.inodeAt (env : Env) (s : Vfs) (e : Nat) : List UInt8 :=
  overwrite (s.inodes (env.inodeMemory s e)) (env.inodeBytes s (s.entryMount e) (s.direntries e).inode_no)

/-- The entry `e` has memory for its inode. -/
structure Prepared (env : Env) (s : Vfs) (e : Nat) (t : Vfs) : Prop where
  same : SameVolumes s t
  reads : t.reads = s.reads
  dirs : t.dirs = s.dirs
  inodes : t.inodes = s.inodes
  entry : t.direntries e = { s.direntries e with payload := env.inodeMemory s e }

theorem SameVolumes.inodeRequest {s t : Vfs} (h : SameVolumes s t) (m n : Nat) :
    t.inodeRequest m n = s.inodeRequest m n := by
  unfold Vfs.inodeRequest Vfs.request
  rw [h.volume, h.parts]

theorem SameVolumes.inodeReply {s t : Vfs} (h : SameVolumes s t) (hr : t.reads = s.reads) (env : Env) (m n : Nat) :
    env.inodeReply t m n = env.inodeReply s m n := by
  unfold Env.inodeReply
  rw [hr, h.inodeRequest]

theorem SameVolumes.inodeBytes {s t : Vfs} (h : SameVolumes s t) (hr : t.reads = s.reads) (env : Env) (m n : Nat) :
    env.inodeBytes t m n = env.inodeBytes s m n := by
  unfold Env.inodeBytes
  rw [hr, h.inodeReply hr, h.volume]

/-- What the inode of `e` comes to. Its read is the only one, and an inode that is returned is the one delivered. -/
theorem direntry_get_inode_asks (env : Env) (e : Nat) (s : Vfs) :
    let q := s.inodeRequest (s.entryMount e) (s.direntries e).inode_no
    Sat (fun s' => s' = s) (direntry_get_inode env e)
      (fun p t => (t.reads = s.reads ∨ t.reads = q :: s.reads) ∧ (p ≠ 0 → (p, .inode) ∈ t.blocks ∧
        t.inodes p = env.inodeAt s e ∧ t.parts = s.parts ∧ t.reads = q :: s.reads ∧
        0 ≤ (env.inodeReply s (s.entryMount e) (s.direntries e).inode_no).ret))
      (fun _ t => t.reads = s.reads ∨ t.reads = q :: s.reads) := by
  intro q
  let Asked (t : Vfs) : Prop := t.reads = s.reads ∨ t.reads = q :: s.reads
  let Delivered (p : Nat) (t : Vfs) : Prop := (p, .inode) ∈ t.blocks ∧ t.inodes p = env.inodeAt s e ∧
    t.parts = s.parts ∧ t.reads = q :: s.reads ∧
    0 ≤ (env.inodeReply s (s.entryMount e) (s.direntries e).inode_no).ret
  refine .bind (Q := fun _ => Prepared env s e) (alloc_inode_sat ?_ ?_ ?_) fun _ => ?_
  · rintro t rfl - hp
    refine ⟨.refl _, rfl, rfl, rfl, ?_⟩
    rw [Env.inodeMemory, if_neg hp]
  · rintro t rfl - hp
    refine ⟨⟨?_, ?_, ?_, ?_⟩, ?_, ?_, ?_, ?_⟩
    · exact allocated_mntps ..
    · exact allocated_fsinfos ..
    · exact allocated_gdts ..
    · exact allocated_parts ..
    · exact allocated_reads ..
    · exact allocated_dirs ..
    · exact allocated_inodes ..
    · rw [Env.inodeMemory, if_pos hp]
      exact Function.update_self ..
  · rintro f t rfl
    exact .inl rfl
  refine .bind (load_direntry_sat fun _ t h => .inl h.reads) fun d => ?_
  refine .bind (load_dir_sat fun _ t h => .inl h.2.2.reads) fun dir => ?_
  refine .bind (Q := fun error t => Asked t ∧ (error < 0 ∨ Delivered d.payload t)) (fetch_inode_sat ?_ ?_ ?_ ?_ ?_)
    fun error => ?_
  · rintro t ⟨-, -, -, -, h⟩ -
    exact ⟨.inl h.reads, .inl (by decide)⟩
  · rintro t ⟨-, rfl, -, rfl, h⟩ - hneg
    refine ⟨.inr ?_, .inl hneg⟩
    show t.inodeRequest _ _ :: t.reads = _
    rw [h.same.inodeRequest, h.reads, h.dirs, h.entry]
    rfl
  · rintro t ⟨-, rfl, -, rfl, h⟩ - hr hp hlive -
    have hreads : ((t.asked (t.inodeRequest (t.dirs (t.direntries e).parent).fs_info
        (t.direntries e).inode_no)).copied (t.direntries e).payload
        (env.inodeBytes t (t.dirs (t.direntries e).parent).fs_info (t.direntries e).inode_no)).reads = q :: s.reads := by
      show t.inodeRequest _ _ :: t.reads = _
      rw [h.same.inodeRequest, h.reads, h.dirs, h.entry]
      rfl
    refine ⟨.inr hreads, .inr ⟨hlive, ?_, h.same.parts, hreads, ?_⟩⟩
    · show Function.update t.inodes _ (overwrite (t.inodes _) _) _ = _
      rw [Function.update_self, h.same.inodeBytes h.reads, h.inodes, h.dirs, h.entry]
      rfl
    · rw [h.same.inodeReply h.reads, h.dirs, h.entry] at hr
      exact hr
  · rintro _ t ⟨-, -, -, -, h⟩
    exact .inl h.reads
  · rintro _ t ⟨-, rfl, -, rfl, h⟩ -
    refine .inr ?_
    show t.inodeRequest _ _ :: t.reads = _
    rw [h.same.inodeRequest, h.reads, h.dirs, h.entry]
    rfl
  refine .ite (fun _ => ?_) fun hpos => .pure fun t h => ⟨h.1, fun _ => h.2.resolve_left hpos⟩
  refine .bind (Q := fun _ => Asked) (kfree_sat ?_ ?_ ?_) fun _ => ?_
  · exact fun t h _ _ => h.1
  · exact fun t h _ _ _ => h.1
  · exact fun _ t h => h.1
  refine .bind (Q := fun _ => Asked) (store_direntry_sat (fun t h _ => h) fun _ t h => h) fun _ => ?_
  exact .pure fun t h => ⟨h, fun h0 => absurd rfl h0⟩

/-! ## The first block -/

/-- The answer to the read of the block with the number in the first `i_block`. -/
def Env.firstReply (env : Env) (s : Vfs) (f : Ext2fsStruct) (inode : Nat) : Reply :=
  env.reply s.reads.length (s.request f.part (f.block_size / IO_BLOCK_SIZE)
    (i_block (s.inodes inode) 0 * (f.block_size / IO_BLOCK_SIZE) % 2 ^ 32))

theorem next_block_old (fs : Ext2fsStruct) (inode block : Nat) (buf : List UInt8) :
    next_block env fs inode false block buf = pure (.ok buf) := rfl

/-- The read of the first block. -/
def Vfs.blockRequest (s : Vfs) (fs : Ext2fsStruct) (inode : Nat) : Request :=
  s.request fs.part (fs.block_size / IO_BLOCK_SIZE)
    (i_block (s.inodes inode) 0 * (fs.block_size / IO_BLOCK_SIZE) % 2 ^ 32)

theorem load_inode_run (hi : inode ≠ 0) (hlive : (inode, .inode) ∈ s.blocks) :
    load_inode inode s = (.ok (s.inodes inode), s) := by
  unfold load_inode
  rw [bind_of_ok (get_apply s), if_neg hi, if_pos hlive]
  rfl

/-- What stands in the way of reading the first block. -/
theorem next_block_stops (env : Env) {fs : Ext2fsStruct} (buf : List UInt8)
    (h : ¬ (inode ≠ 0 ∧ (inode, .inode) ∈ s.blocks ∧ Attached s fs.part)) :
    ∃ e, next_block env fs inode true 0 buf s = (.error e, s) := by
  unfold next_block
  rw [if_pos rfl]
  by_cases hi : inode = 0
  · subst hi
    exact ⟨.nullDeref, rfl⟩
  · by_cases hlive : (inode, .inode) ∈ s.blocks
    · have hp : ¬ Attached s fs.part := fun hp => h ⟨hi, hlive, hp⟩
      refine ⟨.nullDeref, ?_⟩
      rw [bind_of_ok (load_inode_run hi hlive)]
      exact bind_of_error (hdd_read_null hp)
    · refine ⟨.outOfBounds, bind_of_error ?_⟩
      unfold load_inode
      rw [bind_of_ok (get_apply s), if_neg hi, if_neg hlive]
      rfl

/-- The first block is there, or the device's error is returned. -/
theorem next_block_first {fs : Ext2fsStruct} (buf : List UInt8) (hi : inode ≠ 0) (hlive : (inode, .inode) ∈ s.blocks)
    (hp : Attached s fs.part) : next_block env fs inode true 0 buf s =
      (.ok (if (env.firstReply s fs inode).ret < 0 then .error (env.firstReply s fs inode).ret
        else .ok (overwrite buf (env.firstReply s fs inode).stored)), s.asked (s.blockRequest fs inode)) := by
  unfold next_block
  rw [if_pos rfl, bind_of_ok (load_inode_run hi hlive)]
  refine (bind_of_ok (hdd_read_run hp.1 hp.2)).trans ?_
  have hreply : env.reply s.reads.length (s.blockRequest fs inode) = env.firstReply s fs inode := rfl
  by_cases hr : (env.firstReply s fs inode).ret < 0
  · rw [if_pos hr]
    exact congrFun (if_pos hr) _
  · rw [if_neg hr]
    exact congrFun (if_neg hr) _

theorem next_block_run {fs : Ext2fsStruct} {inode : Nat} (buf : List UInt8) (hi : inode ≠ 0)
    (hlive : (inode, .inode) ∈ s.blocks) (hp : Attached s fs.part) (hr : 0 ≤ (env.firstReply s fs inode).ret) :
    next_block env fs inode true 0 buf s =
      (.ok (.ok (overwrite buf (env.firstReply s fs inode).stored)), s.asked (s.blockRequest fs inode)) := by
  rw [next_block_first buf hi hlive hp, if_neg (Int.not_lt.2 hr)]

/-- Reading the block first is like having it in the buffer. -/
theorem loop_read {t : Vfs} {fuel inode : Nat} {garbage : List UInt8} {last : NextPtr} (hf : f ≠ 0)
    (h0 : 0 < (s.fsinfos f).block_size)
    (hn : next_block env (s.fsinfos f) inode true 0 garbage s = (.ok (.ok blk), t)) (ht : t.fsinfos f = s.fsinfos f) :
    ext2_get_direntries_loop env dir f inode (fuel + 1) 0 true 0 garbage last s =
      ext2_get_direntries_loop env dir f inode (fuel + 1) 0 false 1 blk last t := by
  unfold ext2_get_direntries_loop
  rw [bind_of_ok (load_fsinfo_run hf s), bind_of_ok (load_fsinfo_run hf t), ht, if_pos h0, if_pos h0, bind_of_ok hn]
  rfl

/-- Behind its first read the loop returns no error. -/
theorem loop_success {P : Vfs → Prop} {fsinfo inode : Nat} : ∀ (fuel i block : Nat) (buf : List UInt8)
    (last : NextPtr), Sat P (ext2_get_direntries_loop env dir fsinfo inode fuel i false block buf last)
      (fun r _ => 0 ≤ r) stopped := by
  intro fuel
  induction fuel generalizing P with
  | zero =>
    intro i block buf last
    exact .fault (any_stopped _)
  | succ fuel ih =>
    intro i block buf last
    refine .bind (load_fsinfo_sat any_stopped) fun f => ?_
    refine .ite (fun _ => ?_) fun _ => ?_
    · refine .bind (Q := fun next _ => ∀ r, next ≠ .error r) ?_ fun next => ?_
      · exact .ite (fun h => by cases h) fun _ => .pure fun _ _ r h => by cases h
      · cases next with
        | error error => exact fun s h => absurd rfl (h error)
        | ok buf =>
          refine .bind (Q := fun _ _ => True) .anything fun ei => ?_
          exact .bind (Q := fun _ _ => True) .anything fun _ => ih _ _ _ _
    · exact .bind (Q := fun _ _ => True) .anything fun _ => .pure fun _ _ => by decide

/-- What the first round of the loop comes to. -/
theorem loop_begins {fuel : Nat} {buf : List UInt8} {last : NextPtr} (h0 : 0 < (s.fsinfos f).block_size)
    (hrun : ext2_get_direntries_loop env dir f inode (fuel + 1) 0 true 0 buf last s = (.ok r, t)) :
    inode ≠ 0 ∧ (inode, .inode) ∈ s.blocks ∧ Attached s (s.fsinfos f).part ∧
      ((env.firstReply s (s.fsinfos f) inode).ret < 0 ∧ r = (env.firstReply s (s.fsinfos f) inode).ret ∧
          t = s.asked (s.blockRequest (s.fsinfos f) inode) ∨
        0 ≤ (env.firstReply s (s.fsinfos f) inode).ret ∧
          ext2_get_direntries_loop env dir f inode (fuel + 1) 0 false 1
            (overwrite buf (env.firstReply s (s.fsinfos f) inode).stored) last
            (s.asked (s.blockRequest (s.fsinfos f) inode)) = (.ok r, t)) := by
  have hrun' := hrun
  unfold ext2_get_direntries_loop at hrun
  obtain ⟨fs, s₁, hf, h₁⟩ := bind_ok.1 hrun
  obtain ⟨hf0, rfl, hs₁⟩ := (load_fsinfo_sat any_stopped).of_run hf
  obtain rfl : s = s₁ := hs₁.symm
  rw [if_pos h0] at h₁
  by_cases hready : inode ≠ 0 ∧ (inode, .inode) ∈ s.blocks ∧ Attached s (s.fsinfos f).part
  · obtain ⟨hi, hlive, hp⟩ := hready
    refine ⟨hi, hlive, hp, ?_⟩
    by_cases hr : (env.firstReply s (s.fsinfos f) inode).ret < 0
    · rw [bind_of_ok (next_block_first buf hi hlive hp), if_pos hr] at h₁
      cases h₁
      exact .inl ⟨hr, rfl, rfl⟩
    · have hn := next_block_run buf hi hlive hp (Int.not_lt.1 hr)
      rw [loop_read hf0 h0 hn rfl] at hrun'
      exact .inr ⟨Int.not_lt.1 hr, hrun'⟩
  · obtain ⟨e, he⟩ := next_block_stops env buf hready
    rw [bind_of_error he] at h₁
    cases h₁

/-- The error of the first read is returned. -/
theorem loop_fails {fuel : Nat} (buf : List UInt8) (last : NextPtr) (hf : f ≠ 0) (h0 : 0 < (s.fsinfos f).block_size)
    (hi : inode ≠ 0) (hlive : (inode, .inode) ∈ s.blocks) (hp : Attached s (s.fsinfos f).part)
    (hr : (env.firstReply s (s.fsinfos f) inode).ret < 0) :
    ext2_get_direntries_loop env dir f inode (fuel + 1) 0 true 0 buf last s =
      (.ok (env.firstReply s (s.fsinfos f) inode).ret, s.asked (s.blockRequest (s.fsinfos f) inode)) := by
  unfold ext2_get_direntries_loop
  rw [bind_of_ok (load_fsinfo_run hf s), if_pos h0, bind_of_ok (next_block_first buf hi hlive hp), if_pos hr]
  rfl

/-- The only error there is comes from the read of the first block. -/
theorem loop_error {fuel : Nat} {buf : List UInt8} (h0 : 0 < (s.fsinfos f).block_size)
    (hrun : ext2_get_direntries_loop env dir f inode (fuel + 1) 0 true 0 buf (.entries dir) s = (.ok r, td)) :
    0 ≤ r ↔ 0 ≤ (env.firstReply s (s.fsinfos f) inode).ret := by
  obtain ⟨-, -, -, ⟨hneg, rfl, -⟩ | ⟨hpos, hrest⟩⟩ := loop_begins h0 hrun
  · rfl
  · exact iff_of_true ((loop_success (P := fun _ => True) _ _ _ _ _ _ trivial).1 _ _ hrest) hpos

/-! ## The whole -/

/-- `ext2_get_direntries` of a directory without a list, with its own entry at `direntry` and `fs_data` at `fsinfo`. -/
def load_entries (env : Env) (dir direntry fsinfo : Nat) : Prog Vfs Int := do
  let inode ← direntry_get_inode env direntry
  let direntry_buf ← local_array env (← load_fsinfo fsinfo).block_size
  ext2_get_direntries_loop env dir fsinfo inode (2 ^ 32) 0 true 0 direntry_buf (.entries dir)

theorem assert_run (env : Env) {b : Bool} (hb : b = true) (s : Vfs) : assert env (pure b) s = (.ok (), s) := by
  subst hb
  unfold assert
  split <;> rfl

/-- With its pointers in order it has a list already, or loads one. -/
theorem ext2_get_direntries_run (env : Env) (hd : dir ≠ 0) (hm : (s.dirs dir).fs_info ≠ 0) :
    ext2_get_direntries env dir s =
      if (s.dirs dir).entries ≠ 0 then (.ok SUCCESS, s)
      else load_entries env dir (s.dirs dir).dir_entry (s.mntps (s.dirs dir).fs_info).fs_data s := by
  unfold ext2_get_direntries
  rw [bind_of_ok (assert_run env (decide_eq_true hd) s), bind_of_ok (load_dir_run hd s),
    bind_of_ok (assert_run env (decide_eq_true hm) s), bind_of_ok (load_mntp_run hm s)]
  split <;> rfl

/-- Without them it stops at once. -/
theorem ext2_get_direntries_stops (env : Env) (h : ¬ (dir ≠ 0 ∧ (s.dirs dir).fs_info ≠ 0)) :
    ∃ e, ext2_get_direntries env dir s = (.error e, s) := by
  have hassert : ∀ b : Bool, assert env (pure b) s = (.ok (), s) ∨ assert env (pure b) s = (.error .panic, s) := by
    intro b
    unfold assert
    cases env.debug <;> cases b
    · exact .inl rfl
    · exact .inl rfl
    · exact .inr rfl
    · exact .inl rfl
  unfold ext2_get_direntries
  rcases hassert (dir ≠ 0) with ha | ha
  · rw [bind_of_ok ha]
    by_cases hd : dir = 0
    · subst hd
      exact ⟨.nullDeref, rfl⟩
    · have hm : (s.dirs dir).fs_info = 0 := by
        by_contra hm
        exact h ⟨hd, hm⟩
      rw [bind_of_ok (load_dir_run hd s)]
      rcases hassert ((s.dirs dir).fs_info ≠ 0) with ha | ha
      · rw [bind_of_ok ha, hm]
        exact ⟨.nullDeref, rfl⟩
      · rw [bind_of_error ha]
        exact ⟨_, rfl⟩
  · rw [bind_of_error ha]
    exact ⟨_, rfl⟩

/-- A call that returns had its pointers in order. -/
theorem ext2_get_direntries_ok (hrun : ext2_get_direntries env dir s = (.ok r, t)) :
    dir ≠ 0 ∧ (s.dirs dir).fs_info ≠ 0 ∧
      ((s.dirs dir).entries ≠ 0 ∧ r = SUCCESS ∧ t = s ∨ (s.dirs dir).entries = 0 ∧
        load_entries env dir (s.dirs dir).dir_entry (s.mntps (s.dirs dir).fs_info).fs_data s = (.ok r, t)) := by
  by_cases h : dir ≠ 0 ∧ (s.dirs dir).fs_info ≠ 0
  · refine ⟨h.1, h.2, ?_⟩
    rw [ext2_get_direntries_run env h.1 h.2] at hrun
    by_cases h0 : (s.dirs dir).entries = 0
    · rw [if_neg (not_not_intro h0)] at hrun
      exact .inr ⟨h0, hrun⟩
    · rw [if_pos h0] at hrun
      cases hrun
      exact .inl ⟨h0, rfl, rfl⟩
  · obtain ⟨e, he⟩ := ext2_get_direntries_stops env h
    rw [he] at hrun
    cases hrun

theorem load_entries_ok {e : Nat} (hrun : load_entries env dir e f s = (.ok r, t)) : ∃ inode s',
    direntry_get_inode env e s = (.ok inode, s') ∧ f ≠ 0 ∧
      ext2_get_direntries_loop env dir f inode (2 ^ 32) 0 true 0
        ((List.range (s'.fsinfos f).block_size).map (env.stack s'.reads.length)) (.entries dir) s' = (.ok r, t) := by
  obtain ⟨inode, s', hi, h₁⟩ := bind_ok.1 hrun
  obtain ⟨fs, s₂, hf, h₂⟩ := bind_ok.1 h₁
  obtain ⟨hf0, rfl, hs₂⟩ := (load_fsinfo_sat any_stopped).of_run hf
  obtain rfl : s' = s₂ := hs₂.symm
  rw [bind_of_ok (local_array_run _ _ _)] at h₂
  exact ⟨inode, s', hi, hf0, h₂⟩

/-- There is no list yet, and a block to read one from. -/
def Unloaded (s : Vfs) (dir : Nat) : Prop :=
  (s.dirs dir).entries = 0 ∧ 0 < (s.fsinfos (s.mntps (s.dirs dir).fs_info).fs_data).block_size

/-- The answer to the read of the first block of `dir`, which follows the one of its inode. -/
def Env.blockReply (env : Env) (s : Vfs) (dir : Nat) : Reply :=
  let fs := s.fsinfos (s.mntps (s.dirs dir).fs_info).fs_data
  env.reply (s.reads.length + 1) (s.request fs.part (fs.block_size / IO_BLOCK_SIZE)
    (i_block (env.inodeAt s (s.dirs dir).dir_entry) 0 * (fs.block_size / IO_BLOCK_SIZE) % 2 ^ 32))

/-- The device serves the read of the first block of `dir`. -/
def FirstBlockServed (env : Env) (s : Vfs) (dir : Nat) : Prop := 0 ≤ (env.blockReply s dir).ret

/-- With the inode there this is the read that is made. -/
theorem firstReply_eq (hi : direntry_get_inode env (s.dirs dir).dir_entry s = (.ok inode, s')) (hne : inode ≠ 0) :
    env.firstReply s' (s.fsinfos (s.mntps (s.dirs dir).fs_info).fs_data) inode = env.blockReply s dir := by
  obtain ⟨-, hinode, hparts, hreads, -⟩ := ((direntry_get_inode_asks env _ s).of_run hi).2 hne
  unfold Env.firstReply Env.blockReply Vfs.request
  rw [hinode, hparts, hreads]
  rfl

/-- What a call that returns and has no list to return at once comes to: there is no block to
read, the read of the block failed, or the records were gone through. -/
theorem load_cases (h0 : (s.dirs dir).entries = 0) (hrun : ext2_get_direntries env dir s = (.ok r, t)) :
    ∃ inode s', direntry_get_inode env (s.dirs dir).dir_entry s = (.ok inode, s') ∧
      ext2_get_direntries_loop env dir (s.mntps (s.dirs dir).fs_info).fs_data inode (2 ^ 32) 0 true 0
        ((List.range (s.fsinfos (s.mntps (s.dirs dir).fs_info).fs_data).block_size).map (env.stack s'.reads.length))
        (.entries dir) s' = (.ok r, t) ∧ s'.dirs = s.dirs ∧ s'.fsinfos = s.fsinfos := by
  obtain ⟨-, -, ⟨hne, -, -⟩ | ⟨-, hload⟩⟩ := ext2_get_direntries_ok hrun
  · exact absurd h0 hne
  · obtain ⟨inode, s', hi, -, hloop⟩ := load_entries_ok hload
    obtain ⟨hdirs, hfs⟩ := (direntry_get_inode_frame env _ s).of_run hi
    rw [hfs] at hloop
    exact ⟨inode, s', hi, hloop, hdirs, hfs⟩

/-- An error comes from the read of the block, before anything is made of it. -/
theorem load_failed (hr : r < 0) (hrun : ext2_get_direntries env dir s = (.ok r, t)) :
    Unloaded s dir ∧ ∃ inode s', direntry_get_inode env (s.dirs dir).dir_entry s = (.ok inode, s') ∧ inode ≠ 0 ∧
      r = (env.firstReply s' (s.fsinfos (s.mntps (s.dirs dir).fs_info).fs_data) inode).ret ∧
      t = s'.asked (s'.blockRequest (s.fsinfos (s.mntps (s.dirs dir).fs_info).fs_data) inode) := by
  have h0 : (s.dirs dir).entries = 0 := by
    obtain ⟨-, -, ⟨-, rfl, -⟩ | ⟨h0, -⟩⟩ := ext2_get_direntries_ok hrun
    · exact absurd hr (by decide)
    · exact h0
  obtain ⟨inode, s', hi, hloop, -, hfs⟩ := load_cases h0 hrun
  have hbs : 0 < (s.fsinfos (s.mntps (s.dirs dir).fs_info).fs_data).block_size := by
    by_contra hbs
    unfold ext2_get_direntries_loop at hloop
    obtain ⟨fs, s₂, hf, h₂⟩ := bind_ok.1 hloop
    obtain ⟨-, rfl, rfl⟩ := (load_fsinfo_sat (P := fun t => t = s') any_stopped).of_run hf
    rw [hfs, if_neg hbs] at h₂
    obtain ⟨_, s₃, -, h₃⟩ := bind_ok.1 h₂
    cases h₃
    exact absurd hr (by decide)
  obtain ⟨hne, -, -, ⟨-, rfl, rfl⟩ | ⟨-, hrest⟩⟩ := loop_begins (hfs ▸ hbs) hloop
  · rw [hfs]
    exact ⟨⟨h0, hbs⟩, inode, s', hi, hne, rfl, rfl⟩
  · have := (loop_success (P := fun _ => True) _ _ _ _ _ _ trivial).1 _ _ hrest
    omega

/-- A call that makes a list returns an error exactly if its first read is not served. -/
theorem served_iff (hl : Unloaded s dir) (hrun : ext2_get_direntries env dir s = (.ok r, td)) :
    0 ≤ r ↔ FirstBlockServed env s dir := by
  obtain ⟨inode, s', hi, hloop, -, hfs⟩ := load_cases hl.1 hrun
  obtain ⟨hne, -⟩ := loop_begins (hfs ▸ hl.2) hloop
  rw [loop_error (hfs ▸ hl.2) hloop, hfs, firstReply_eq hi hne]
  rfl

end

end Ulmix.Fs

import Ulmix.Fs.Faults
import Ulmix.Fs.Mount
import Mathlib.Logic.Relation
/-!
# The records of a directory block

The loop of `ext2_get_direntries` starts at the first byte of the block and goes
on by `rec_len`, rounded up to a multiple of four, as long as it is below
`block_size`. That a record moves on and lies in the block is taken for granted:
the loop ends, and stays in its buffer, exactly if this holds for every record
it comes to (`records_inside`). A name always fits, since its length is a byte.
-/
open Ulmix.Lib Ulmix.Lib.Prog

namespace Ulmix.Fs

/-! ## The walk over a block -/

/-- The header that starts at the byte `i`. -/
def recordAt (blk : List UInt8) (i : Nat) : Ext2DirentryStruct := .ofBytes ((blk.drop i).take 8)

/-- The name behind it. -/
def nameAt (blk : List UInt8) (i : Nat) : List UInt8 := (blk.drop (8 + i)).take (recordAt blk i).name_len

/-- Where the loop goes on after it. -/
def nextRecord (blk : List UInt8) (i : Nat) : Nat := align4 (i + (recordAt blk i).rec_len)

/-- The loop comes from `i` to `j` in one round. -/
def Follows (blk : List UInt8) (i j : Nat) : Prop := i < blk.length ∧ j = nextRecord blk i

/-- The loop, started at `i`, comes to `j`. -/
def ReachedFrom (blk : List UInt8) (i j : Nat) : Prop := Relation.ReflTransGen (Follows blk) i j

/-- The record at `i` lies in the block, as far as it is read, and is not the last one for ever. -/
structure RecordInside (blk : List UInt8) (i : Nat) : Prop where
  inside : 8 + i + (recordAt blk i).name_len ≤ blk.length
  moves : (recordAt blk i).rec_len ≠ 0

/-- What holds of every record from `i` on. -/
def InsideFrom (blk : List UInt8) (i : Nat) : Prop := ∀ j, ReachedFrom blk i j → j < blk.length → RecordInside blk j

section
variable {blk : List UInt8} {i j : Nat}

theorem name_len_lt (blk : List UInt8) (i : Nat) : (recordAt blk i).name_len < 256 := UInt8.toNat_lt _

theorem nameAt_length_le (blk : List UInt8) (i : Nat) : (nameAt blk i).length ≤ 255 := by
  have := name_len_lt blk i
  rw [nameAt, List.length_take]
  omega

theorem le_align4 (i : Nat) : i ≤ align4 i := Nat.le_add_right _ _

theorem align4_mod (i : Nat) : align4 i % 4 = 0 := by
  unfold align4
  split <;> omega

theorem align4_of_mod (h : i % 4 = 0) : align4 i = i := by
  rw [align4, if_neg (not_not_intro h), Nat.add_zero]

theorem RecordInside.lt_next (h : RecordInside blk i) : i < nextRecord blk i := by
  refine Nat.lt_of_lt_of_le ?_ (le_align4 _)
  exact Nat.lt_add_of_pos_right (Nat.pos_of_ne_zero h.moves)

theorem InsideFrom.next (h : InsideFrom blk i) (hi : i < blk.length) : InsideFrom blk (nextRecord blk i) :=
  fun j hj => h j (.head ⟨hi, rfl⟩ hj)

/-- A walk that leaves the block somewhere is at that place, or goes on to it. -/
theorem not_insideFrom (hi4 : i % 4 = 0) (h : ¬ InsideFrom blk i) :
    i < blk.length ∧ (¬ 8 + i + (recordAt blk i).name_len ≤ blk.length ∨ ¬ InsideFrom blk (nextRecord blk i)) := by
  unfold InsideFrom at h
  rw [not_forall] at h
  obtain ⟨j, h⟩ := h
  rw [Classical.not_imp, Classical.not_imp] at h
  obtain ⟨hreach, hj, hbad⟩ := h
  rcases Relation.ReflTransGen.cases_head hreach with rfl | ⟨k, ⟨hi, rfl⟩, hrest⟩
  · refine ⟨hj, ?_⟩
    by_cases hin : 8 + i + (recordAt blk i).name_len ≤ blk.length
    · -- a record of length zero is followed by itself
      have hzero : (recordAt blk i).rec_len = 0 := by
        by_contra hne
        exact hbad ⟨hin, hne⟩
      have hnext : nextRecord blk i = i := by
        rw [nextRecord, hzero, Nat.add_zero, align4_of_mod hi4]
      exact .inr fun hall => hbad (hnext ▸ hall (nextRecord blk i) .refl (hnext.symm ▸ hj))
    · exact .inl hin
  · exact ⟨hi, .inr fun hall => hbad (hall j hrest hj)⟩

end

/-! ## One record -/

/-- What the loop does with a new entry: its name and number, the directory, and in the debug build the inode. -/
def fill_entry (env : Env) (dir current_entry : Nat) (fs_dir_entry : Ext2DirentryStruct) (name : List UInt8) :
    Prog Vfs Unit := do
  store_direntry current_entry fun e =>
    { e with name := overwrite e.name (name ++ [0]), inode_no := fs_dir_entry.inode, parent := dir, directory := 0 }
  set_directory env dir current_entry fs_dir_entry.file_type
  assert env do return (← get_direntry env current_entry) ≥ 0

/-- The two copies out of the buffer are in order, or one of them is not. -/
theorem load_record_eq (env : Env) (dir : Nat) (blk : List UInt8) (i : Nat) : load_record env dir blk i = (do
    let current_entry ← kmalloc env 292 .direntry
    if 8 + i + (recordAt blk i).name_len ≤ blk.length then
      fill_entry env dir current_entry (recordAt blk i) (nameAt blk i)
      pure (current_entry, nextRecord blk i)
    else fault .outOfBounds) := by
  unfold load_record
  refine bind_congr fun e => ?_
  by_cases hheader : i + 8 ≤ blk.length
  · have hslice : slice blk i 8 = pure ((blk.drop i).take 8) := if_pos hheader
    rw [hslice, pure_bind]
    by_cases hname : 8 + i + (recordAt blk i).name_len ≤ blk.length
    · have hslice : slice blk (8 + i) (recordAt blk i).name_len = pure (nameAt blk i) := if_pos hname
      rw [if_pos hname]
      unfold fill_entry
      simp only [bind_assoc]
      refine (congrArg (· >>= _) hslice).trans ?_
      rw [pure_bind]
      rfl
    · have hslice : slice blk (8 + i) (recordAt blk i).name_len = fault .outOfBounds := if_neg hname
      rw [if_neg hname]
      exact (congrArg (· >>= _) hslice).trans rfl
  · have hslice : slice blk i 8 = fault .outOfBounds := if_neg hheader
    rw [hslice, if_neg (by omega)]
    rfl

/-! ## What a round keeps -/

/-- Every name is an array of 256 bytes, and the block size of the filesystem is `N`. -/
structure Whole (f N : Nat) (s : Vfs) : Prop where
  names : ∀ e, (s.direntries e).name.length = 256
  block_size : (s.fsinfos f).block_size = N

section
variable {env : Env} {f N dir i e file_type : Nat} {s : Vfs}

theorem Whole.allocated (h : Whole f N s) (p : Nat) (kind : Kind) : Whole f N (s.allocated p kind) := by
  refine ⟨?_, ?_⟩
  · rw [allocated_direntries]
    exact h.names
  · rw [allocated_fsinfos]
    exact h.block_size

theorem Whole.store (h : Whole f N s) {p : Nat} {v : DirentryStruct} (hv : v.name.length = 256) :
    Whole f N { s with direntries := Function.update s.direntries p v } := by
  refine ⟨fun e => ?_, h.block_size⟩
  by_cases hep : e = p
  · subst hep
    simpa using hv
  · simpa [hep] using h.names e

theorem whole_keep : ∀ (e : Fault) s, Whole f N s → (fun _ => Whole f N) e s := fun _ _ h => h

theorem overwrite_within {buf new : List UInt8} (h : new.length ≤ buf.length) :
    (overwrite buf new).length = buf.length := by
  simp only [overwrite, List.length_append, List.length_drop]
  omega

theorem set_directory_whole :
    Sat (Whole f N) (set_directory env dir e file_type) (fun _ => Whole f N) (fun _ => Whole f N) := by
  refine .ite (fun _ => ?_) fun _ => .pure fun _ h => h
  refine .bind ((load_direntry_sat whole_keep).post fun _ _ h => h.2.2) fun _ => ?_
  refine .bind ((load_dir_sat whole_keep).post fun _ _ h => h.2.2) fun d => ?_
  refine .ite (fun _ => ?_) fun _ => ?_
  · refine .bind ((load_direntry_sat whole_keep).post fun _ _ h => h.2.2) fun _ => ?_
    exact store_direntry_sat (fun s h _ => h.store (h.names _)) whole_keep
  · refine .bind ((load_dir_sat whole_keep).post fun _ _ h => h.2.2) fun parent => ?_
    refine .ite (fun _ => ?_) fun _ => ?_
    · refine .bind ((load_direntry_sat whole_keep).post fun _ _ h => h.2.2) fun _ => ?_
      exact store_direntry_sat (fun s h _ => h.store (h.names _)) whole_keep
    · refine .bind (kmalloc_sat (Q := fun _ => Whole f N) (fun s h => h.allocated _ _) whole_keep) fun q => ?_
      refine .bind (store_direntry_sat (Q := fun _ => Whole f N) (fun s h _ => h.store (h.names _)) whole_keep)
        fun _ => ?_
      exact store_dir_sat (fun s h _ => ⟨h.names, h.block_size⟩) whole_keep

theorem get_direntry_whole : Sat (Whole f N) (get_direntry env e) (fun _ => Whole f N) (fun _ => Whole f N) := by
  refine .bind (assert_keeps (.pure fun _ h => h) whole_keep) fun _ => ?_
  refine .bind (assert_keeps ?_ whole_keep) fun _ => ?_
  · refine .bind ((load_direntry_sat whole_keep).post fun _ _ h => h.2.2) fun _ => ?_
    exact .bind ((load_dir_sat whole_keep).post fun _ _ h => h.2.2) fun _ => .pure fun _ h => h
  refine .bind (Q := fun _ => Whole f N) (direntry_get_inode_keeps ⟨?_, ?_, ?_, ?_, ?_⟩ ?_) fun inode => ?_
  · exact fun s p b h => ⟨h.names, h.block_size⟩
  · exact fun s p h => h.allocated p .inode
  · exact fun s p h => ⟨h.names, h.block_size⟩
  · exact fun s h => ⟨h.names, h.block_size⟩
  · exact fun s p h => h.store (h.names _)
  · exact fun s m n h _ _ _ => ⟨h.names, h.block_size⟩
  refine .ite (fun _ => .pure fun _ h => h) fun _ => ?_
  refine .bind ((load_inode_sat whole_keep).post fun _ _ h => h.2) fun i => ?_
  refine .bind (store_direntry_sat (Q := fun _ => Whole f N) (fun s h _ => h.store (h.names _)) whole_keep) fun _ => ?_
  exact .pure fun _ h => h

/-- A name goes into the array of its entry. -/
theorem fill_entry_whole {r : Ext2DirentryStruct} {name : List UInt8} (hlen : name.length ≤ 255) :
    Sat (Whole f N) (fill_entry env dir e r name) (fun _ => Whole f N) (fun _ => Whole f N) := by
  refine .bind (store_direntry_sat (Q := fun _ => Whole f N) (fun s h _ => h.store ?_) whole_keep) fun _ => ?_
  · have hold := h.names e
    dsimp only
    rw [overwrite_within, hold]
    rw [List.length_append, List.length_singleton, hold]
    exact Nat.succ_le_succ hlen
  refine .bind set_directory_whole fun _ => assert_keeps ?_ whole_keep
  exact .bind get_direntry_whole fun r => .pure fun _ h => h

theorem load_record_whole {blk : List UInt8} :
    Sat (Whole f N) (load_record env dir blk i) (fun ei s => Whole f N s ∧ ei.2 = nextRecord blk i)
      (fun _ => Whole f N) := by
  rw [load_record_eq]
  refine .bind (kmalloc_sat (Q := fun _ => Whole f N) (fun s h => h.allocated _ _) whole_keep) fun e => ?_
  refine .ite (fun _ => ?_) fun _ => .fault fun _ h => h
  exact .bind (fill_entry_whole (nameAt_length_le blk i)) fun _ => .pure fun _ h => ⟨h, rfl⟩

end

/-! ## Records that lie in the block -/

/-- How a run may stop: not for want of an end, in the release build not outside the buffer,
and with the names in their arrays. -/
def Contained (env : Env) (f N : Nat) (e : Fault) (s : Vfs) : Prop :=
  e ≠ .diverges ∧ (env.debug = false → e ≠ .outOfBounds) ∧ Whole f N s

section
variable {env : Env} {f N dir i : Nat} {s : Vfs} {blk : List UInt8}

theorem contained_of {α : Type} {x : Prog Vfs α} {P : Vfs → Prop} {Q : α → Vfs → Prop}
    (hx : Sat P x Q (fun _ => Whole f N)) (hv : Never .diverges x)
    (ho : env.debug = false → Never .outOfBounds x) : Sat P x Q (Contained env f N) :=
  fun s hs => ⟨(hx s hs).1, fun e t he =>
    ⟨(hv s trivial).2 e t he, fun hd => (ho hd s trivial).2 e t he, (hx s hs).2 e t he⟩⟩

theorem fill_entry_inside (hd : env.debug = false) {e : Nat} {r : Ext2DirentryStruct} {name : List UInt8} :
    Never .outOfBounds (fill_entry env dir e r name) := by
  refine .bind (store_direntry_never (by decide) _ _) fun _ =>
    .bind (set_directory_never (by decide) (by decide) _ _ _) fun _ => ?_
  rw [assert_off hd]
  exact .pure _

/-- A record that lies in the block is read without leaving it. -/
theorem load_record_contained (h : 8 + i + (recordAt blk i).name_len ≤ blk.length) :
    Sat (Whole f N) (load_record env dir blk i) (fun ei s => Whole f N s ∧ ei.2 = nextRecord blk i)
      (Contained env f N) := by
  refine contained_of load_record_whole ?_ fun hd => ?_
  · exact load_record_never (by decide) (by decide) (by decide) (fun _ => by decide) _ _ _
  · rw [load_record_eq]
    refine .bind (kmalloc_never (by decide) _ _) fun e => ?_
    rw [if_pos h]
    exact .bind (fill_entry_inside hd) fun _ => .pure _

theorem store_contained (last : NextPtr) (p : Nat) :
    Sat (Whole f N) (last.store p) (fun _ => Whole f N) (Contained env f N) := by
  refine contained_of (NextPtr.store_sat (fun s h => ?_) whole_keep) ?_ fun _ => ?_
  · cases last with
    | entries d => exact ⟨h.names, h.block_size⟩
    | next e => exact h.store (h.names e)
  · exact nextPtr_store_never (by decide) _ _
  · exact nextPtr_store_never (by decide) _ _

theorem load_fsinfo_contained :
    Sat (Whole f N) (load_fsinfo f) (fun fs s => fs.block_size = N ∧ Whole f N s) (Contained env f N) := by
  refine contained_of ((load_fsinfo_sat whole_keep).post fun fs s h => ?_) ?_ fun _ => ?_
  · obtain ⟨-, rfl, h⟩ := h
    exact ⟨h.block_size, h⟩
  · exact load_fsinfo_never (by decide) _
  · exact load_fsinfo_never (by decide) _

/-- Each round leaves less of the block, if all records are as they should be. -/
theorem loop_contained {inode : Nat} : ∀ (fuel i block : Nat) (last : NextPtr), InsideFrom blk i →
    blk.length - i < fuel →
    Sat (Whole f blk.length) (ext2_get_direntries_loop env dir f inode fuel i false block blk last)
      (fun _ => Whole f blk.length) (Contained env f blk.length) := by
  intro fuel
  induction fuel with
  | zero =>
    intro i block last _ hfuel
    exact absurd hfuel (Nat.not_lt_zero _)
  | succ fuel ih =>
    intro i block last hinside hfuel
    refine .bind load_fsinfo_contained fun fs => ?_
    by_cases hN : fs.block_size = blk.length
    · rw [hN]
      refine .pre (P := Whole f blk.length) (.ite (fun hi => ?_) fun _ => ?_) fun _ h => h.2
      · have hrecord := hinside i .refl hi
        have hlt := hrecord.lt_next
        rw [next_block_old, pure_bind]
        refine .bind (load_record_contained hrecord.inside) fun ei => ?_
        by_cases hnext : ei.2 = nextRecord blk i
        · refine .bind ((store_contained _ _).pre fun _ h => h.1) fun _ => ?_
          rw [hnext]
          exact ih _ _ _ (hinside.next hi) (by omega)
        · exact fun s h => absurd h.2 hnext
      · exact .bind (store_contained _ _) fun _ => .pure fun _ h => h
    · exact fun s h => absurd h.1 hN

/-- The first read puts the block into the buffer, or its error ends the loop. -/
theorem next_block_contained {inode : Nat} {garbage : List UInt8} (hs : Whole f blk.length s)
    (hlive : (inode, .inode) ∈ s.blocks)
    (hread : overwrite garbage (env.firstReply s (s.fsinfos f) inode).stored = blk) :
    Sat (fun s' => s' = s) (next_block env (s.fsinfos f) inode true 0 garbage)
      (fun next s => (∀ buf, next = .ok buf → buf = blk) ∧ Whole f blk.length s) (Contained env f blk.length) := by
  unfold next_block
  rw [if_pos rfl]
  refine .bind (Q := fun bytes s' => bytes = s.inodes inode ∧ s' = s) ?_ fun bytes => ?_
  · rintro s rfl
    unfold load_inode
    rw [bind_of_ok (get_apply s)]
    by_cases hi : inode = 0
    · rw [if_pos hi]
      exact (Sat.fault fun _ h => h ▸ ⟨by decide, fun _ => by decide, hs⟩) s rfl
    · rw [if_neg hi, if_pos hlive]
      exact (Sat.pure fun _ h => h ▸ ⟨rfl, rfl⟩) s rfl
  by_cases hb : bytes = s.inodes inode
  · subst hb
    refine .bind (Q := fun r s' => r = env.firstReply s (s.fsinfos f) inode ∧ Whole f blk.length s')
      (contained_of (hdd_read_sat ?_ ?_) ?_ fun _ => ?_) fun r => ?_
    · rintro _ ⟨-, rfl⟩
      exact ⟨rfl, hs.names, hs.block_size⟩
    · rintro _ _ ⟨-, rfl⟩
      exact hs
    · exact hdd_read_never (by decide) _ _ _
    · exact hdd_read_never (by decide) _ _ _
    refine .ite (fun _ => .pure fun _ h => ⟨fun _ hbuf => (by cases hbuf), h.2⟩) fun _ => .pure fun _ h => ⟨?_, h.2⟩
    intro buf hbuf
    cases hbuf
    rw [h.1]
    exact hread
  · exact fun s' h => absurd h.1 hb

end

/-! ## The loop -/

/-- Whatever surrounds the loop, from a block with the bytes `blk` on it ends, and keeps within the
buffer and the names. (In the debug build the fault of a bad access may be one of `get_direntry`.) -/
def RecordsInside (blk : List UInt8) : Prop :=
  ∀ env s dir f inode garbage, Whole f blk.length s → (inode, .inode) ∈ s.blocks →
    overwrite garbage (env.firstReply s (s.fsinfos f) inode).stored = blk →
    let r := ext2_get_direntries_loop env dir f inode (2 ^ 32) 0 true 0 garbage (.entries dir) s
    r.1 ≠ .error .diverges ∧ (env.debug = false → r.1 ≠ .error .outOfBounds) ∧ ∀ e, (r.2.direntries e).name.length = 256

section
variable {blk : List UInt8}

theorem recordsInside_of (hlen : blk.length < 2 ^ 32) (h : InsideFrom blk 0) : RecordsInside blk := by
  intro env s dir f inode garbage hs hlive hread
  have hrest : ∀ i block last, InsideFrom blk i → blk.length - i < 2 ^ 32 - 1 →
      Sat (Whole f blk.length) (ext2_get_direntries_loop env dir f inode (2 ^ 32 - 1) i false block blk last)
        (fun _ => Whole f blk.length) (Contained env f blk.length) := fun _ _ _ hi hlt => loop_contained _ _ _ _ hi hlt
  have hloop : Sat (fun s' => s' = s) (ext2_get_direntries_loop env dir f inode (2 ^ 32 - 1 + 1) 0 true 0 garbage
      (.entries dir))
      (fun _ => Whole f blk.length) (Contained env f blk.length) := by
    refine .bind (Q := fun fs s' => fs = s.fsinfos f ∧ s' = s)
      (contained_of ((load_fsinfo_sat ?_).post ?_) ?_ fun _ => ?_)
      fun fs => ?_
    · rintro _ _ rfl
      exact hs
    · rintro fs _ ⟨-, rfl, rfl⟩
      exact ⟨rfl, rfl⟩
    · exact load_fsinfo_never (by decide) _
    · exact load_fsinfo_never (by decide) _
    by_cases hfs : fs = s.fsinfos f
    · subst hfs
      rw [hs.block_size]
      refine .pre (.ite (fun h0 => ?_) fun _ => ?_) fun _ h => h.2
      · refine .bind (next_block_contained hs hlive hread) fun next => ?_
        cases next with
        | error error => exact .pure fun _ h => h.2
        | ok buf =>
          by_cases hbuf : buf = blk
          · subst hbuf
            have hrecord := h 0 .refl h0
            have hlt := hrecord.lt_next
            refine .bind ((load_record_contained hrecord.inside).pre fun _ h => h.2) fun ei => ?_
            by_cases hnext : ei.2 = nextRecord buf 0
            · refine .bind ((store_contained _ _).pre fun _ h => h.1) fun _ => ?_
              rw [hnext]
              exact hrest _ _ _ (h.next h0) (by omega)
            · exact fun s h => absurd h.2 hnext
          · exact fun s' h => absurd (h.1 buf rfl) hbuf
      · exact .bind ((store_contained _ _).pre fun _ h => h ▸ hs) fun _ => .pure fun _ h => h
    · exact fun s' h => absurd h.1 hfs
  have hfuel : 2 ^ 32 = 2 ^ 32 - 1 + 1 := rfl
  have hrun := hloop s rfl
  rw [← hfuel] at hrun
  generalize ext2_get_direntries_loop env dir f inode (2 ^ 32) 0 true 0 garbage (.entries dir) s = r at hrun
  rcases r with ⟨e | r, t⟩
  · obtain ⟨hdiv, hout, hwhole⟩ := hrun.2 e t rfl
    refine ⟨fun he => hdiv (Except.error.inj he), fun hd he => hout hd (Except.error.inj he), hwhole.names⟩
  · refine ⟨fun he => (by cases he), fun _ he => (by cases he), (hrun.1 r t rfl).names⟩

end

/-! ## Records that do not -/

/-- A release build with memory without end, and a device that delivers nothing. -/
def idleEnv : Env where
  debug := false
  kmalloc _ blocks _ := nextAddress blocks
  read _ _ sectors _ := ⟨sectors, []⟩
  stack _ _ := 0

/-- Nothing stands in the way of the loop. -/
structure Ready (f N : Nat) (s : Vfs) : Prop where
  unlocked : s.heap_locked = false
  pointers : ∀ d, (s.dirs d).dir_entry ≠ 0 ∧ (s.dirs d).parent ≠ 0
  block_size : (s.fsinfos f).block_size = N

section
variable {E : Fault → Vfs → Prop} {blk : List UInt8} {f N dir e file_type i : Nat}

theorem kmalloc_ready (size : Nat) (kind : Kind) :
    Sat (Ready f N) (kmalloc idleEnv size kind) (fun p s => p ≠ 0 ∧ Ready f N s) E := by
  refine .runs fun s hs => ⟨_, _, kmalloc_run idleEnv size kind hs.unlocked, nextAddress_ne _, ?_⟩
  have halloc := allocated_of_ne (nextAddress_ne s.blocks) s kind
  exact halloc.symm ▸ ⟨hs.unlocked, hs.pointers, hs.block_size⟩

theorem load_direntry_ready (he : e ≠ 0) : Sat (Ready f N) (load_direntry e) (fun _ => Ready f N) E :=
  .runs fun s hs => ⟨_, _, load_direntry_run he s, hs⟩

theorem load_dir_ready (hd : dir ≠ 0) :
    Sat (Ready f N) (load_dir dir) (fun d s => (d.dir_entry ≠ 0 ∧ d.parent ≠ 0) ∧ Ready f N s) E :=
  .runs fun s hs => ⟨_, _, load_dir_run hd s, hs.pointers dir, hs⟩

theorem store_direntry_ready (he : e ≠ 0) (g : DirentryStruct → DirentryStruct) :
    Sat (Ready f N) (store_direntry e g) (fun _ => Ready f N) E :=
  .runs fun s hs => ⟨_, _, store_direntry_run he g s, hs.unlocked, hs.pointers, hs.block_size⟩

theorem store_dir_ready (hd : dir ≠ 0) {g : DirStruct → DirStruct}
    (hg : ∀ d, d.dir_entry ≠ 0 ∧ d.parent ≠ 0 → (g d).dir_entry ≠ 0 ∧ (g d).parent ≠ 0) :
    Sat (Ready f N) (store_dir dir g) (fun _ => Ready f N) E := by
  refine .runs fun s hs => ⟨_, _, store_dir_run hd g s, hs.unlocked, fun d => ?_, hs.block_size⟩
  by_cases hdd : d = dir
  · subst hdd
    simpa using hg _ (hs.pointers d)
  · simpa [hdd] using hs.pointers d

theorem set_directory_ready (hd : dir ≠ 0) (he : e ≠ 0) :
    Sat (Ready f N) (set_directory idleEnv dir e file_type) (fun _ => Ready f N) E := by
  refine .ite (fun _ => ?_) fun _ => .pure fun _ h => h
  refine .bind (load_direntry_ready he) fun _ => .bind (load_dir_ready hd) fun d => ?_
  by_cases hptr : d.dir_entry ≠ 0 ∧ d.parent ≠ 0
  · refine .pre (P := Ready f N) (.ite (fun _ => ?_) fun _ => ?_) fun _ h => h.2
    · exact .bind (load_direntry_ready hptr.1) fun _ => store_direntry_ready he _
    · refine .bind (load_dir_ready hptr.2) fun parent => ?_
      by_cases hpar : parent.dir_entry ≠ 0 ∧ parent.parent ≠ 0
      · refine .pre (P := Ready f N) (.ite (fun _ => ?_) fun _ => ?_) fun _ h => h.2
        · exact .bind (load_direntry_ready hpar.1) fun _ => store_direntry_ready he _
        · refine .bind (kmalloc_ready _ _) fun q => ?_
          by_cases hq : q ≠ 0
          · refine .pre (P := Ready f N) ?_ fun _ h => h.2
            exact .bind (store_direntry_ready he _) fun _ => store_dir_ready hq fun _ _ => ⟨he, hd⟩
          · exact fun s h => absurd h.1 hq
      · exact fun s h => absurd h.1 hpar
  · exact fun s h => absurd h.1 hptr

/-- A record that lies in the block becomes an entry. -/
theorem load_record_ready (hd : dir ≠ 0) (h : 8 + i + (recordAt blk i).name_len ≤ blk.length) :
    Sat (Ready f N) (load_record idleEnv dir blk i) (fun ei s => (ei.1 ≠ 0 ∧ ei.2 = nextRecord blk i) ∧
      Ready f N s) E := by
  rw [load_record_eq]
  refine .bind (kmalloc_ready _ _) fun e => ?_
  by_cases he : e ≠ 0
  · rw [if_pos h]
    refine .pre (P := Ready f N) (.bind (Q := fun _ => Ready f N) ?_ fun _ => .pure fun _ h => ⟨⟨he, rfl⟩, h⟩)
      fun _ h => h.2
    refine .bind (store_direntry_ready he _) fun _ => .bind (set_directory_ready hd he) fun _ => ?_
    rw [assert_off rfl]
    exact .pure fun _ h => h
  · exact fun s h => absurd h.1 he

/-- Of another one bytes behind the block are read. -/
theorem load_record_outside (h : ¬ 8 + i + (recordAt blk i).name_len ≤ blk.length) :
    Sat (Ready f N) (load_record idleEnv dir blk i) (fun _ _ => False) (fun e _ => e = .outOfBounds) := by
  rw [load_record_eq]
  refine .bind (kmalloc_ready _ _) fun e => ?_
  rw [if_neg h]
  exact .fault fun _ _ => rfl

/-- The pointer that `last_next_ptr` was made from. -/
def NextPtr.object : NextPtr → Nat
  | .entries dir => dir
  | .next entry => entry

theorem store_ready {last : NextPtr} (hlast : last.object ≠ 0) (p : Nat) :
    Sat (Ready f N) (last.store p) (fun _ => Ready f N) E := by
  cases last with
  | entries d =>
    unfold NextPtr.store
    exact store_dir_ready hlast fun _ h => h
  | next e =>
    unfold NextPtr.store
    exact store_direntry_ready hlast _

/-- A walk that leaves the block, or does not move on, ends in no other way. -/
theorem loop_escapes (hf : f ≠ 0) (hd : dir ≠ 0) {inode : Nat} : ∀ (fuel i block : Nat) (last : NextPtr), i % 4 = 0 →
    last.object ≠ 0 → ¬ InsideFrom blk i →
    Sat (Ready f blk.length) (ext2_get_direntries_loop idleEnv dir f inode fuel i false block blk last)
      (fun _ _ => False) (fun e _ => e = .diverges ∨ e = .outOfBounds) := by
  intro fuel
  induction fuel with
  | zero =>
    intro i block last _ _ _
    exact .fault fun _ _ => .inl rfl
  | succ fuel ih =>
    intro i block last hi4 hlast hbad
    obtain ⟨hi, hcase⟩ := not_insideFrom hi4 hbad
    refine .bind (Q := fun fs s => fs.block_size = blk.length ∧ Ready f blk.length s)
      (.runs fun s hs => ⟨_, _, load_fsinfo_run hf s, hs.block_size, hs⟩) fun fs => ?_
    by_cases hN : fs.block_size = blk.length
    · rw [hN, if_pos hi, next_block_old, pure_bind]
      refine .pre (P := Ready f blk.length) ?_ fun _ h => h.2
      by_cases hin : 8 + i + (recordAt blk i).name_len ≤ blk.length
      · refine .bind (load_record_ready hd hin) fun ei => ?_
        by_cases hei : ei.1 ≠ 0 ∧ ei.2 = nextRecord blk i
        · refine .bind ((store_ready hlast _).pre fun _ h => h.2) fun _ => ?_
          rw [hei.2]
          exact ih _ _ (.next ei.1) (align4_mod _) hei.1 (hcase.resolve_left (not_not_intro hin))
        · exact fun s h => absurd h.1 hei
      · refine .bind (Q := fun _ _ => False) ((load_record_outside hin).mono (fun _ h => h) (fun _ _ h => h) ?_)
          fun _ => ?_
        · exact fun _ _ h => .inr h
        · exact fun s h => h.elim
    · exact fun s h => absurd h.1 hN

end

/-- The small filesystem with blocks of `N` bytes, and an inode. -/
def recordsVfs (N : Nat) : Vfs :=
  { smallVfs with
    fsinfos := fun _ => ⟨smallSuperblock, 0x600, N, 1, 0x500⟩
    blocks := (0x700, .inode) :: smallVfs.blocks }

section
variable {blk : List UInt8}

theorem insideFrom_of (h : RecordsInside blk) : InsideFrom blk 0 := by
  by_contra hbad
  obtain ⟨h0, -⟩ := not_insideFrom (by decide) hbad
  have hstored : (idleEnv.firstReply (recordsVfs blk.length) ((recordsVfs blk.length).fsinfos 0x400) 0x700).stored = [] :=
    List.take_nil
  have hwhole : Whole 0x400 blk.length (recordsVfs blk.length) := ⟨fun _ => List.length_replicate .., rfl⟩
  obtain ⟨hdiv, hout, -⟩ := h idleEnv (recordsVfs blk.length) root_dir 0x400 0x700 blk hwhole (List.mem_cons_self ..)
    (by rw [hstored]; rfl)
  -- the first read leaves the buffer as it is
  have hread : next_block idleEnv ((recordsVfs blk.length).fsinfos 0x400) 0x700 true 0 blk
      (recordsVfs blk.length) = _ :=
    next_block_run blk (by decide) (List.mem_cons_self ..) ⟨(by decide : 0x600 ≠ 0), (by decide : 1 ≠ 0)⟩
      (Int.natCast_nonneg _)
  have hold : overwrite blk [] = blk := rfl
  rw [hstored, hold] at hread
  have hfuel : 2 ^ 32 = 2 ^ 32 - 1 + 1 := rfl
  rw [hfuel, loop_read (by decide) h0 hread rfl] at hdiv hout
  generalize (recordsVfs blk.length).blockRequest _ _ = q at hdiv hout
  have hready : Ready 0x400 blk.length ((recordsVfs blk.length).asked q) :=
    ⟨rfl, fun _ => ⟨(by decide : root_direntry ≠ 0), (by decide : root_dir ≠ 0)⟩, rfl⟩
  have hescape : Sat (Ready 0x400 blk.length)
      (ext2_get_direntries_loop idleEnv root_dir 0x400 0x700 (2 ^ 32 - 1 + 1) 0 false 1 blk (.entries root_dir)) _ _ :=
    loop_escapes (by decide) (by decide) _ _ _ _ (by decide) (by decide) hbad
  have hescape := hescape _ hready
  generalize ext2_get_direntries_loop idleEnv root_dir 0x400 0x700 (2 ^ 32 - 1 + 1) 0 false 1 blk (.entries root_dir)
    ((recordsVfs blk.length).asked q) = r at hdiv hout hescape
  rcases r with ⟨e | r, t⟩
  · rcases hescape.2 e t rfl with rfl | rfl
    · exact hdiv rfl
    · exact hout rfl rfl
  · exact hescape.1 r t rfl

/-- The loop ends and keeps within the block, whatever surrounds it, exactly if every record it
comes to, from the first one on, lies in the block and has a length that is not zero. -/
theorem records_inside (hlen : blk.length < 2 ^ 32) :
    RecordsInside blk ↔ ∀ i, ReachedFrom blk 0 i → i < blk.length → RecordInside blk i :=
  ⟨insideFrom_of, recordsInside_of hlen⟩

end

/-- A block of 1024 bytes with the one record `.`. -/
def dotBlock : List UInt8 := dotRecord ++ List.replicate 1015 0

theorem dotBlock_length : dotBlock.length = 1024 := by decide +kernel

theorem dotBlock_reached {i : Nat} (h : ReachedFrom dotBlock 0 i) : i = 0 ∨ i = 1024 := by
  induction h with
  | refl => exact .inl rfl
  | tail _ hstep ih =>
    obtain ⟨hlt, rfl⟩ := hstep
    rcases ih with rfl | rfl
    · exact .inr (by decide +kernel)
    · rw [dotBlock_length] at hlt
      exact absurd hlt (Nat.lt_irrefl _)

theorem records_inside_dot : RecordsInside dotBlock := by
  refine (records_inside (by decide +kernel)).2 fun i hreach hi => ?_
  rcases dotBlock_reached hreach with rfl | rfl
  · exact ⟨by decide +kernel, by decide +kernel⟩
  · rw [dotBlock_length] at hi
    exact absurd hi (Nat.lt_irrefl _)

/-- In a block full of zeros the first record is read for ever. -/
theorem records_inside_zeros : ¬ RecordsInside (List.replicate 1024 0) := by
  intro h
  have hmoves := (insideFrom_of h 0 .refl (by decide +kernel)).moves
  exact hmoves (by decide +kernel)

end Ulmix.Fs

import Ulmix.Fs.Rollback
/-!
# Reads that fail while a directory is loaded

`ext2_get_direntries` reads the inode of the directory, then its block, then in
the debug build the inode of each entry. Only the second of these reads is
checked: its error is returned, and nothing has been made by then. Without the
first inode a null pointer is followed, and without one of an entry an
assertion fails. So a failed read is reported exactly if it is the one of the
block (`failed_read_reported`).
-/
open Ulmix.Lib Ulmix.Lib.Prog

namespace Ulmix.Fs

/-! ## What can be reached -/

/-- Following `next` from `c` comes to the entry `e`. -/
inductive OnList (s : Vfs) : Nat → Nat → Prop
  | here {c : Nat} : c ≠ 0 → OnList s c c
  | further {c e : Nat} : c ≠ 0 → OnList s (s.direntries c).next e → OnList s c e

/-- The directories that pointers lead to from the root. -/
inductive TreeDir (s : Vfs) : Nat → Prop
  | root : TreeDir s root_dir
  | parent {d : Nat} : TreeDir s d → TreeDir s (s.dirs d).parent
  | child {d e : Nat} : TreeDir s d → OnList s (s.dirs d).entries e → (s.direntries e).directory ≠ 0 →
      TreeDir s (s.direntries e).directory

/-- The entry `e` belongs to a directory of the tree or is on its list. -/
def InTree (s : Vfs) (e : Nat) : Prop :=
  ∃ d, TreeDir s d ∧ (e = (s.dirs d).dir_entry ∨ OnList s (s.dirs d).entries e)

/-- The payload of the entry `e` is an inode that is not in use any more. -/
def Dangling (s : Vfs) (e : Nat) : Prop := (s.direntries e).payload ≠ 0 ∧ ((s.direntries e).payload, .inode) ∉ s.blocks

section
variable {s t : Vfs} {c d e : Nat}

/-- All links between directories and entries are in `t` what they are in `s`. -/
structure SameLinks (s t : Vfs) : Prop where
  parent : ∀ d, (t.dirs d).parent = (s.dirs d).parent
  dir_entry : ∀ d, (t.dirs d).dir_entry = (s.dirs d).dir_entry
  entries : ∀ d, (t.dirs d).entries = (s.dirs d).entries
  next : ∀ e, (t.direntries e).next = (s.direntries e).next
  directory : ∀ e, (t.direntries e).directory = (s.direntries e).directory

theorem SameLinks.onList (h : SameLinks s t) (ht : OnList t c e) : OnList s c e := by
  induction ht with
  | here hc => exact .here hc
  | further hc _ ih =>
    rw [h.next] at ih
    exact .further hc ih

theorem SameLinks.treeDir (h : SameLinks s t) (ht : TreeDir t d) : TreeDir s d := by
  induction ht with
  | root => exact .root
  | parent _ ih =>
    rw [h.parent]
    exact .parent ih
  | child _ hlist hne ih =>
    rw [h.directory] at hne ⊢
    rw [h.entries] at hlist
    exact .child ih (h.onList hlist) hne

theorem SameLinks.inTree (h : SameLinks s t) (ht : InTree t e) : InTree s e := by
  obtain ⟨d, hd, hcase⟩ := ht
  rw [h.dir_entry, h.entries] at hcase
  exact ⟨d, h.treeDir hd, hcase.imp_right h.onList⟩

/-- An inode for an entry changes no link, and leaves no payload dangling. -/
theorem Supplied.sameLinks (h : Supplied s e t) : SameLinks s t := by
  obtain ⟨hdirs, ⟨-, hentries, -⟩ | ⟨-, p, hentries, -⟩⟩ := h
  · exact ⟨fun _ => by rw [hdirs], fun _ => by rw [hdirs], fun _ => by rw [hdirs], fun _ => by rw [hentries],
      fun _ => by rw [hentries]⟩
  · refine ⟨fun _ => by rw [hdirs], fun _ => by rw [hdirs], fun _ => by rw [hdirs], fun x => ?_, fun x => ?_⟩
    all_goals
      rw [hentries]
      by_cases hx : x = e
      · subst hx
        simp
      · simp [hx]

theorem Supplied.dangling (h : Supplied s e t) (hne : (t.direntries e).payload ≠ 0) {x : Nat} (hx : Dangling t x) :
    Dangling s x := by
  obtain ⟨-, ⟨-, hentries, hblocks⟩ | ⟨-, p, hentries, hblocks⟩⟩ := h
  · unfold Dangling at hx ⊢
    rwa [hentries, hblocks] at hx
  · have hp : p ≠ 0 := by
      rw [hentries] at hne
      simpa using hne
    unfold Dangling at hx ⊢
    rw [hentries, hblocks hp] at hx
    by_cases hxe : x = e
    · subst hxe
      simp at hx
    · rw [Function.update_of_ne hxe] at hx
      exact ⟨hx.1, fun hmem => hx.2 (List.mem_cons_of_mem _ hmem)⟩

end

/-! ## The reads of a call -/

/-- Of the reads that `t` has and `s` has not, one was answered with an error. -/
def ReadFailed (env : Env) (s t : Vfs) : Prop :=
  ∃ later q earlier, t.reads = later ++ q :: (earlier ++ s.reads) ∧ (env.reply (earlier ++ s.reads).length q).ret < 0

/-- What the caller should find when a read fails: an error, the old list, and no payload that dangles. -/
def FailsClean (env : Env) (s : Vfs) (dir : Nat) : Prop :=
  ∃ r t, ext2_get_direntries env dir s = (.ok r, t) ∧ r < 0 ∧ (t.dirs dir).entries = (s.dirs dir).entries ∧
    ((∀ e, InTree s e → ¬ Dangling s e) → ∀ e, InTree t e → ¬ Dangling t e)

/-- The inode of the directory is delivered, and the read of its first block is answered with an error. -/
def BlockReadFails (env : Env) (s : Vfs) (dir : Nat) : Prop :=
  let e := (s.dirs dir).dir_entry
  Unloaded s dir ∧ 0 ≤ (env.inodeReply s (s.entryMount e) (s.direntries e).inode_no).ret ∧
    (env.blockReply s dir).ret < 0

section
variable {env : Env} {s t : Vfs} {dir e inode : Nat}

theorem not_readFailed (h : t.reads = s.reads) : ¬ ReadFailed env s t := by
  rintro ⟨later, q, earlier, hreads, -⟩
  have hlen := congrArg List.length (h.symm.trans hreads)
  simp only [List.length_append, List.length_cons] at hlen
  omega

/-- One read that was served is none that failed. -/
theorem not_readFailed_one {q : Request} (h : t.reads = q :: s.reads) (hq : 0 ≤ (env.reply s.reads.length q).ret) :
    ¬ ReadFailed env s t := by
  rintro ⟨later, q', earlier, hreads, hneg⟩
  have heq := h.symm.trans hreads
  have hlen := congrArg List.length heq
  simp only [List.length_append, List.length_cons] at hlen
  obtain rfl : later = [] := List.eq_nil_of_length_eq_zero (by omega)
  obtain rfl : earlier = [] := List.eq_nil_of_length_eq_zero (by omega)
  obtain rfl : q = q' := (List.cons.inj heq).1
  exact absurd hneg (Int.not_lt.2 hq)

/-- If the block is what could not be read, its error is returned. -/
theorem block_read_fails (hfail : ReadFailed env s (ext2_get_direntries env dir s).2) (h : BlockReadFails env s dir) :
    ∃ r t, ext2_get_direntries env dir s = (.ok r, t) ∧ r < 0 := by
  obtain ⟨hl, hserved, hneg⟩ := h
  have hasks := direntry_get_inode_asks env (s.dirs dir).dir_entry s s rfl
  -- a stop before the second read would leave no failed one
  have hnone : ∀ t, t.reads = s.reads ∨ t.reads = s.inodeRequest (s.entryMount (s.dirs dir).dir_entry)
      (s.direntries (s.dirs dir).dir_entry).inode_no :: s.reads → ¬ ReadFailed env s t := fun t ht =>
    ht.elim not_readFailed fun ht => not_readFailed_one ht hserved
  by_cases hptr : dir ≠ 0 ∧ (s.dirs dir).fs_info ≠ 0
  · rw [ext2_get_direntries_run env hptr.1 hptr.2, if_neg (not_not_intro hl.1), load_entries] at hfail ⊢
    rcases hi : direntry_get_inode env (s.dirs dir).dir_entry s with ⟨e | inode, s'⟩
    · rw [bind_of_error hi] at hfail
      exact absurd hfail (hnone s' (hasks.2 e s' hi))
    obtain ⟨hreads, hinode⟩ := hasks.1 inode s' hi
    obtain ⟨hdirs, hfs⟩ := (direntry_get_inode_frame env _ s).of_run hi
    rw [bind_of_ok hi] at hfail ⊢
    have h0 := hl.2
    have hfirst := firstReply_eq hi
    rw [← hfs] at h0 hfirst
    generalize (s.mntps (s.dirs dir).fs_info).fs_data = f at h0 hfirst hfail ⊢
    by_cases hf : f = 0
    · have hload : load_fsinfo f s' = (.error .nullDeref, s') := by
        rw [load_fsinfo, if_pos hf]
        rfl
      rw [bind_of_error hload] at hfail
      exact absurd hfail (hnone s' hreads)
    rw [bind_of_ok (load_fsinfo_run hf s'), bind_of_ok (local_array_run env _ s')] at hfail ⊢
    obtain ⟨fuel, hfuel⟩ : ∃ k, 2 ^ 32 = k + 1 := ⟨2 ^ 32 - 1, by norm_num⟩
    rw [hfuel] at hfail ⊢
    by_cases hready : inode ≠ 0 ∧ (inode, .inode) ∈ s'.blocks ∧ Attached s' (s'.fsinfos f).part
    · have hneg' := hneg
      rw [← hfirst hready.1] at hneg'
      exact ⟨_, _, loop_fails _ _ hf h0 hready.1 hready.2.1 hready.2.2 hneg', hneg'⟩
    · obtain ⟨e, he⟩ := next_block_stops env
        ((List.range (s'.fsinfos f).block_size).map (env.stack s'.reads.length)) hready
      unfold ext2_get_direntries_loop at hfail
      rw [bind_of_ok (load_fsinfo_run hf s'), if_pos h0, bind_of_error he] at hfail
      exact absurd hfail (hnone s' hreads)
  · obtain ⟨e, he⟩ := ext2_get_direntries_stops env hptr
    rw [he] at hfail
    exact absurd hfail (not_readFailed rfl)

/-- A read that fails while a directory is loaded is reported, and leaves the tree as it was,
exactly if it is the read of the directory's block. -/
theorem failed_read_reported (hfail : ReadFailed env s (ext2_get_direntries env dir s).2) :
    FailsClean env s dir ↔ BlockReadFails env s dir := by
  constructor
  · rintro ⟨r, t, hrun, hr, -, -⟩
    obtain ⟨hl, inode, s', hi, hne, rfl, -⟩ := load_failed hr hrun
    obtain ⟨-, -, -, -, hserved⟩ := ((direntry_get_inode_asks env _ s).of_run hi).2 hne
    rw [firstReply_eq hi hne] at hr
    exact ⟨hl, hserved, hr⟩
  · intro h
    obtain ⟨r, t, hrun, hr⟩ := block_read_fails hfail h
    obtain ⟨hsup, hpay⟩ := load_supplied hr hrun
    refine ⟨r, t, hrun, hr, by rw [hsup.1], fun hsafe e he hd => ?_⟩
    exact hsafe e (hsup.sameLinks.inTree he) (hsup.dangling hpay hd)

end

theorem failed_read_reported_block : FailsClean faultyEnv smallVfs root_dir :=
  (failed_read_reported ⟨[], ⟨1, 2, 16⟩, [⟨1, 1, 10⟩], by decide +kernel, by decide +kernel⟩).2
    ⟨⟨by decide +kernel, by decide +kernel⟩, by decide +kernel, by decide +kernel⟩

/-- The small disk, with an error for the sector of the inodes. -/
def inodelessEnv : Env :=
  { smallEnv dotRecord with
    read := fun _ _ sectors lba => if lba = 10 then ⟨- EIO, []⟩ else ⟨sectors, smallDisk dotRecord lba⟩ }

/-- Without the inode of the directory a null pointer is followed. -/
theorem failed_read_crashes : ¬ ∀ env s dir, ReadFailed env s (ext2_get_direntries env dir s).2 →
    FailsClean env s dir := by
  intro hall
  have hcrash : (ext2_get_direntries inodelessEnv root_dir smallVfs).1 = .error .nullDeref := by decide +kernel
  have hfail : ReadFailed inodelessEnv smallVfs (ext2_get_direntries inodelessEnv root_dir smallVfs).2 :=
    ⟨[], ⟨1, 1, 10⟩, [], by decide +kernel, by decide +kernel⟩
  obtain ⟨r, t, hrun, -⟩ := hall _ _ _ hfail
  rw [hrun] at hcrash
  cases hcrash

end Ulmix.Fs

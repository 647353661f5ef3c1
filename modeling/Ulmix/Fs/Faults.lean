import Ulmix.Fs.Builds
/-!
# The faults a call can end in

An access faults at a null pointer or outside its object, `kmalloc` and `kfree`
at a locked heap, a division and an assertion panic. What a call cannot end in
follows from the accesses it is made of.
-/
open Ulmix.Lib Ulmix.Lib.Prog

namespace Ulmix.Fs

section
variable {env : Env} {e : Fault}

/-! ## Accesses -/

theorem load_dir_never (hn : .nullDeref ≠ e) (p : Nat) : Never e (load_dir p) :=
  .ite (.fault hn) (.bind .get fun _ => .pure _)

theorem load_direntry_never (hn : .nullDeref ≠ e) (p : Nat) : Never e (load_direntry p) :=
  .ite (.fault hn) (.bind .get fun _ => .pure _)

theorem load_mntp_never (hn : .nullDeref ≠ e) (p : Nat) : Never e (load_mntp p) :=
  .ite (.fault hn) (.bind .get fun _ => .pure _)

theorem load_fsinfo_never (hn : .nullDeref ≠ e) (p : Nat) : Never e (load_fsinfo p) :=
  .ite (.fault hn) (.bind .get fun _ => .pure _)

theorem load_part_never (hn : .nullDeref ≠ e) (p : Nat) : Never e (load_part p) :=
  .ite (.fault hn) (.bind .get fun _ => .pure _)

theorem store_dir_never (hn : .nullDeref ≠ e) (p : Nat) (f : DirStruct → DirStruct) : Never e (store_dir p f) :=
  .ite (.fault hn) (.modify _)

theorem store_direntry_never (hn : .nullDeref ≠ e) (p : Nat) (f : DirentryStruct → DirentryStruct) :
    Never e (store_direntry p f) :=
  .ite (.fault hn) (.modify _)

theorem nextPtr_store_never (hn : .nullDeref ≠ e) (last : NextPtr) (p : Nat) : Never e (last.store p) := by
  cases last with
  | entries dir =>
    unfold NextPtr.store
    exact store_dir_never hn _ _
  | next entry =>
    unfold NextPtr.store
    exact store_direntry_never hn _ _

theorem div32_never (hp : .panic ≠ e) (a b : Nat) : Never e (div32 a b) := .ite (.fault hp) (.pure _)

theorem slice_never (ho : .outOfBounds ≠ e) (buf : List UInt8) (i n : Nat) : Never e (slice buf i n) :=
  .ite (.pure _) (.fault ho)

theorem local_array_never (n : Nat) : Never e (local_array env n) := .bind .get fun _ => .pure _

theorem load_inode_never (hn : .nullDeref ≠ e) (ho : .outOfBounds ≠ e) (p : Nat) : Never e (load_inode p) :=
  .bind .get fun _ => .ite (.fault hn) (.ite (.pure _) (.fault ho))

theorem store_inode_never (hn : .nullDeref ≠ e) (ho : .outOfBounds ≠ e) (p : Nat) (bytes : List UInt8) :
    Never e (store_inode p bytes) :=
  .bind .get fun _ => .ite (.fault hn) (.ite (.set _) (.fault ho))

theorem load_gd_never (hn : .nullDeref ≠ e) (ho : .outOfBounds ≠ e) (t i : Nat) : Never e (load_gd t i) :=
  .ite (.fault hn) (.bind .get fun _ => slice_never ho _ _ _)

theorem store_gdt_never (hn : .nullDeref ≠ e) (ho : .outOfBounds ≠ e) (p : Nat) (bytes : List UInt8) :
    Never e (store_gdt p bytes) :=
  .bind .get fun _ => .ite (.pure _) (.ite (.fault hn) (.ite (.set _) (.fault ho)))

theorem kmalloc_never (hs : .spin ≠ e) (size : Nat) (kind : Kind) : Never e (kmalloc env size kind) :=
  .bind .get fun _ => .ite (.fault hs) (.bind (.set _) fun _ => .pure _)

theorem kfree_never (hs : .spin ≠ e) (ho : .outOfBounds ≠ e) (p : Nat) (kind : Kind) : Never e (kfree p kind) :=
  .bind .get fun _ => .ite (.fault hs) (.ite (.set _) (.ite (.set _) (.fault ho)))

theorem hdd_read_never (hn : .nullDeref ≠ e) (part sectors lba : Nat) : Never e (hdd_read env part sectors lba) :=
  .bind (load_part_never hn _) fun _ => .ite (.fault hn) (.bind .get fun _ => .bind (.set _) fun _ => .pure _)

theorem assert_never {x : Prog Vfs Bool} (hx : env.debug = true → Never e x ∧ .panic ≠ e) : Never e (assert env x) := by
  cases hd : env.debug with
  | false =>
    rw [assert_off hd]
    exact .pure _
  | true =>
    obtain ⟨hx, hp⟩ := hx hd
    exact .ite (.bind hx fun _ => .ite (.pure _) (.fault hp)) (.pure _)

/-! ## Functions -/

theorem set_directory_never (hn : .nullDeref ≠ e) (hs : .spin ≠ e) (dir d file_type : Nat) :
    Never e (set_directory env dir d file_type) := by
  refine .ite ?_ (.pure _)
  refine .bind (load_direntry_never hn _) fun entry => .bind (load_dir_never hn _) fun _ => .ite ?_ ?_
  · exact .bind (load_direntry_never hn _) fun _ => store_direntry_never hn _ _
  · refine .bind (load_dir_never hn _) fun parent => .ite ?_ ?_
    · exact .bind (load_direntry_never hn _) fun _ => store_direntry_never hn _ _
    · exact .bind (kmalloc_never hs _ _) fun _ => .bind (store_direntry_never hn _ _) fun _ => store_dir_never hn _ _

theorem alloc_inode_never (hn : .nullDeref ≠ e) (hs : .spin ≠ e) (d : Nat) : Never e (alloc_inode env d) :=
  .bind (load_direntry_never hn _) fun _ =>
    .ite (.bind (kmalloc_never hs _ _) fun _ => store_direntry_never hn _ _) (.pure _)

theorem fetch_inode_never (hn : .nullDeref ≠ e) (ho : .outOfBounds ≠ e) (hp : .panic ≠ e) (n m p : Nat) :
    Never e (fetch_inode env n m p) := by
  refine .bind (load_mntp_never hn _) fun _ => .bind (load_fsinfo_never hn _) fun _ => .ite (.pure _) ?_
  refine .bind (div32_never hp _ _) fun _ => .bind (div32_never hp _ _) fun _ => .bind (div32_never hp _ _) fun _ => ?_
  refine .bind (load_gd_never hn ho _ _) fun _ => .bind (local_array_never _) fun _ => ?_
  refine .bind (hdd_read_never hn _ _ _) fun _ => ?_
  exact .ite (.pure _) (.bind (slice_never ho _ _ _) fun _ => .bind (store_inode_never hn ho _ _) fun _ => .pure _)

/-- Reading an inode ends no other way than an access, a division or a locked heap does. -/
theorem direntry_get_inode_never (hn : .nullDeref ≠ e) (ho : .outOfBounds ≠ e) (hs : .spin ≠ e) (hp : .panic ≠ e)
    (d : Nat) : Never e (direntry_get_inode env d) := by
  refine .bind (alloc_inode_never hn hs _) fun _ => .bind (load_direntry_never hn _) fun _ => ?_
  refine .bind (load_dir_never hn _) fun _ => .bind (fetch_inode_never hn ho hp _ _ _) fun _ => .ite ?_ (.pure _)
  exact .bind (kfree_never hs ho _ _) fun _ => .bind (store_direntry_never hn _ _) fun _ => .pure _

theorem get_direntry_never (hn : .nullDeref ≠ e) (ho : .outOfBounds ≠ e) (hs : .spin ≠ e) (hp : .panic ≠ e)
    (d : Nat) : Never e (get_direntry env d) := by
  refine .bind (assert_never fun _ => ⟨.pure _, hp⟩) fun _ => ?_
  refine .bind (assert_never fun _ => ⟨?_, hp⟩) fun _ => ?_
  · exact .bind (load_direntry_never hn _) fun _ => .bind (load_dir_never hn _) fun _ => .pure _
  refine .bind (direntry_get_inode_never hn ho hs hp _) fun _ => .ite (.pure _) ?_
  exact .bind (load_inode_never hn ho _) fun _ => .bind (store_direntry_never hn _ _) fun _ => .pure _

theorem load_record_never (hn : .nullDeref ≠ e) (ho : .outOfBounds ≠ e) (hs : .spin ≠ e)
    (ha : env.debug = true → .panic ≠ e) (dir i : Nat) (buf : List UInt8) : Never e (load_record env dir buf i) := by
  refine .bind (kmalloc_never hs _ _) fun d => ?_
  refine .bind (slice_never ho _ _ _) fun header => .bind (slice_never ho _ _ _) fun name => ?_
  refine .bind (store_direntry_never hn _ _) fun _ => .bind (set_directory_never hn hs _ _ _) fun _ => ?_
  refine .bind (assert_never fun hd => ⟨?_, ha hd⟩) fun _ => .pure _
  exact .bind (get_direntry_never hn ho hs (ha hd) _) fun _ => .pure _

theorem next_block_never (hn : .nullDeref ≠ e) (ho : .outOfBounds ≠ e) (f : Ext2fsStruct) (inode : Nat) (new : Bool)
    (block : Nat) (buf : List UInt8) : Never e (next_block env f inode new block buf) := by
  refine .ite ?_ (.pure _)
  exact .bind (load_inode_never hn ho _) fun _ => .bind (hdd_read_never hn _ _ _) fun _ => .ite (.pure _) (.pure _)

theorem loop_never (hn : .nullDeref ≠ e) (ho : .outOfBounds ≠ e) (hs : .spin ≠ e) (ha : env.debug = true → .panic ≠ e)
    (hv : .diverges ≠ e) (dir fsinfo inode : Nat) : ∀ (fuel i : Nat) (new : Bool) (block : Nat)
    (buf : List UInt8) (last : NextPtr), Never e (ext2_get_direntries_loop env dir fsinfo inode fuel i new block buf last) := by
  intro fuel
  induction fuel with
  | zero =>
    intro i new block buf last
    exact .fault hv
  | succ fuel ih =>
    intro i new block buf last
    refine .bind (load_fsinfo_never hn _) fun f => .ite ?_ (.bind (nextPtr_store_never hn _ _) fun _ => .pure _)
    refine .bind (next_block_never hn ho _ _ _ _ _) fun next => ?_
    cases next with
    | error error => exact .pure _
    | ok buf =>
      refine .bind (load_record_never hn ho hs ha _ _ _) fun ei => ?_
      exact .bind (nextPtr_store_never hn _ _) fun _ => ih _ _ _ _ _

end

end Ulmix.Fs

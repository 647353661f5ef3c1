import Ulmix.Fs.Ext2
/-!
# What the accesses of the driver do

One rule for each access: a load changes nothing, a store changes one object, a
read of the device is logged. A fault leaves the state as it was, so the rules
ask for `P` to imply what has to hold after a fault.
-/
open Ulmix.Lib Ulmix.Lib.Prog

namespace Ulmix.Fs

/-- Nothing is said of a run that stops. -/
def stopped : Fault → Vfs → Prop := fun _ _ => True

theorem any_stopped {P : Vfs → Prop} : ∀ e s, P s → stopped e s := fun _ _ _ => trivial

/-! ## Loads -/

section
variable {P : Vfs → Prop} {E : Fault → Vfs → Prop} {env : Env}

/-- The shape all loads have: a pointer that is not null, and the value there. -/
theorem load_sat {α : Type} {p : Nat} {v : Vfs → α} (hE : ∀ e s, P s → E e s) :
    Sat P (if p = 0 then fault .nullDeref else do let s ← get; pure (v s)) (fun a s => p ≠ 0 ∧ a = v s ∧ P s) E := by
  refine .ite (fun _ => .fault (hE _)) fun hp => ?_
  exact fun s hs => ⟨fun a t ha => (by cases ha; exact ⟨hp, rfl, hs⟩), fun e t he => by cases he⟩

theorem load_dir_sat {p : Nat} (hE : ∀ e s, P s → E e s) :
    Sat P (load_dir p) (fun d s => p ≠ 0 ∧ d = s.dirs p ∧ P s) E := load_sat hE

theorem load_direntry_sat {p : Nat} (hE : ∀ e s, P s → E e s) :
    Sat P (load_direntry p) (fun e s => p ≠ 0 ∧ e = s.direntries p ∧ P s) E := load_sat hE

theorem load_mntp_sat {p : Nat} (hE : ∀ e s, P s → E e s) :
    Sat P (load_mntp p) (fun m s => p ≠ 0 ∧ m = s.mntps p ∧ P s) E := load_sat hE

theorem load_fsinfo_sat {p : Nat} (hE : ∀ e s, P s → E e s) :
    Sat P (load_fsinfo p) (fun f s => p ≠ 0 ∧ f = s.fsinfos p ∧ P s) E := load_sat hE

theorem slice_sat {buf : List UInt8} {i n : Nat} (hE : ∀ e s, P s → E e s) :
    Sat P (slice buf i n) (fun b s => (i + n ≤ buf.length ∧ b = (buf.drop i).take n) ∧ P s) E :=
  .ite (fun hle => .pure fun _ hs => ⟨⟨hle, rfl⟩, hs⟩) fun _ => .fault (hE _)

theorem div32_sat {a b : Nat} (hE : ∀ e s, P s → E e s) : Sat P (div32 a b) (fun q s => (b ≠ 0 ∧ q = a / b) ∧ P s) E :=
  .ite (fun _ => .fault (hE _)) fun hb => .pure fun _ hs => ⟨⟨hb, rfl⟩, hs⟩

theorem assert_sat {Q : Bool → Vfs → Prop} {x : Prog Vfs Bool} (hx : env.debug = true → Sat P x Q E)
    (hE : ∀ b e s, Q b s → E e s) :
    Sat P (assert env x) (fun _ s => if env.debug = true then Q true s else P s) E := by
  refine .ite (fun hd => ?_) fun hd => .pure fun s hs => by rwa [if_neg hd]
  refine .bind (hx hd) fun b => .ite (fun hb => .pure fun s hs => ?_) fun _ => .fault (hE b _)
  rw [if_pos hd]
  exact hb ▸ hs

theorem assert_off (hd : env.debug = false) (x : Prog Vfs Bool) : assert env x = pure () := by
  unfold assert
  rw [hd]
  rfl

/-- An assertion that only looks. -/
theorem assert_keeps {x : Prog Vfs Bool} (hx : Sat P x (fun _ => P) E) (hE : ∀ e s, P s → E e s) :
    Sat P (assert env x) (fun _ => P) E := by
  refine (assert_sat (Q := fun _ => P) (fun _ => hx) fun _ => hE).post fun _ s h => ?_
  split at h <;> exact h

theorem local_array_sat {n : Nat} :
    Sat P (local_array env n) (fun b s => b = (List.range n).map (env.stack s.reads.length) ∧ P s) E :=
  fun s hs => ⟨fun a t ha => (by cases ha; exact ⟨rfl, hs⟩), fun e t he => by cases he⟩

theorem load_gd_sat {t i : Nat} (hE : ∀ e s, P s → E e s) :
    Sat P (load_gd t i) (fun b s => (t ≠ 0 ∧ 32 * i + 32 ≤ (s.gdts t).length ∧
      b = ((s.gdts t).drop (32 * i)).take 32) ∧ P s) E := by
  refine .ite (fun _ => .fault (hE _)) fun ht s hs => ?_
  rw [bind_of_ok (get_apply s)]
  have hsl : Sat P (slice (s.gdts t) (32 * i) 32) _ E := slice_sat hE
  have hsl := hsl s hs
  refine ⟨fun b u hb => ?_, hsl.2⟩
  have hu : (slice (s.gdts t) (32 * i) 32 s).2 = s := by
    unfold slice
    split <;> rfl
  obtain rfl : u = s := by simpa [hb] using hu
  obtain ⟨⟨hlen, rfl⟩, hs⟩ := hsl.1 b u hb
  exact ⟨⟨ht, hlen, rfl⟩, hs⟩

theorem load_inode_sat {p : Nat} (hE : ∀ e s, P s → E e s) :
    Sat P (load_inode p) (fun b s => (p ≠ 0 ∧ (p, .inode) ∈ s.blocks ∧ b = s.inodes p) ∧ P s) E := by
  intro s hs
  unfold load_inode
  rw [bind_of_ok (get_apply s)]
  split
  · exact (Sat.fault (hE _)) s hs
  · rename_i hp
    split
    · rename_i hm
      exact ⟨fun a t ha => (by cases ha; exact ⟨⟨hp, hm, rfl⟩, hs⟩), fun e t he => by cases he⟩
    · exact (Sat.fault (hE _)) s hs

end

section
variable {s : Vfs} {p : Nat}

theorem load_mntp_run (hp : p ≠ 0) (s : Vfs) : load_mntp p s = (.ok (s.mntps p), s) := by
  rw [load_mntp, if_neg hp]
  rfl

theorem load_fsinfo_run (hp : p ≠ 0) (s : Vfs) : load_fsinfo p s = (.ok (s.fsinfos p), s) := by
  rw [load_fsinfo, if_neg hp]
  rfl

theorem div32_run {a b : Nat} (hb : b ≠ 0) (s : Vfs) : div32 a b s = (.ok (a / b), s) := by
  rw [div32, if_neg hb]
  rfl

theorem slice_run {buf : List UInt8} {i k : Nat} (h : i + k ≤ buf.length) (s : Vfs) :
    slice buf i k s = (.ok ((buf.drop i).take k), s) := by
  rw [slice, if_pos h]
  rfl

theorem load_gd_run {i : Nat} (hp : p ≠ 0) (h : 32 * i + 32 ≤ (s.gdts p).length) :
    load_gd p i s = (.ok (((s.gdts p).drop (32 * i)).take 32), s) := by
  rw [load_gd, if_neg hp, bind_of_ok (get_apply s)]
  exact slice_run h s

theorem local_array_run (env : Env) (k : Nat) (s : Vfs) :
    local_array env k s = (.ok ((List.range k).map (env.stack s.reads.length)), s) := rfl

end

/-! ## Stores -/

theorem store_direntry_run {p : Nat} (hp : p ≠ 0) (f : DirentryStruct → DirentryStruct) (s : Vfs) :
    store_direntry p f s = (.ok (), { s with direntries := Function.update s.direntries p (f (s.direntries p)) }) := by
  rw [store_direntry, if_neg hp]
  rfl

section
variable {P : Vfs → Prop} {E : Fault → Vfs → Prop} {Q : Unit → Vfs → Prop} {p : Nat}

theorem store_dir_sat {f : DirStruct → DirStruct}
    (h : ∀ s, P s → p ≠ 0 → Q () { s with dirs := Function.update s.dirs p (f (s.dirs p)) })
    (hE : ∀ e s, P s → E e s) : Sat P (store_dir p f) Q E := by
  refine .ite (fun _ => .fault (hE _)) fun hp => ?_
  exact .modify fun s hs => h s hs hp

theorem store_direntry_sat {f : DirentryStruct → DirentryStruct}
    (h : ∀ s, P s → p ≠ 0 → Q () { s with direntries := Function.update s.direntries p (f (s.direntries p)) })
    (hE : ∀ e s, P s → E e s) : Sat P (store_direntry p f) Q E := by
  refine .ite (fun _ => .fault (hE _)) fun hp => ?_
  exact .modify fun s hs => h s hs hp

theorem store_mntp_sat {f : MntpStruct → MntpStruct}
    (h : ∀ s, P s → p ≠ 0 → Q () { s with mntps := Function.update s.mntps p (f (s.mntps p)) })
    (hE : ∀ e s, P s → E e s) : Sat P (store_mntp p f) Q E := by
  refine .ite (fun _ => .fault (hE _)) fun hp => ?_
  exact .modify fun s hs => h s hs hp

theorem store_fsinfo_sat {f : Ext2fsStruct → Ext2fsStruct}
    (h : ∀ s, P s → p ≠ 0 → Q () { s with fsinfos := Function.update s.fsinfos p (f (s.fsinfos p)) })
    (hE : ∀ e s, P s → E e s) : Sat P (store_fsinfo p f) Q E := by
  refine .ite (fun _ => .fault (hE _)) fun hp => ?_
  exact .modify fun s hs => h s hs hp

theorem store_inode_sat {bytes : List UInt8}
    (h : ∀ s, P s → p ≠ 0 → (p, .inode) ∈ s.blocks → bytes.length ≤ 128 →
      Q () { s with inodes := Function.update s.inodes p (overwrite (s.inodes p) bytes) })
    (hE : ∀ e s, P s → E e s) : Sat P (store_inode p bytes) Q E := by
  intro s hs
  unfold store_inode
  rw [bind_of_ok (get_apply s)]
  split
  · exact (Sat.fault (hE _)) s hs
  · rename_i hp
    split
    · rename_i hand
      exact ⟨fun a t ha => by cases ha; exact h s hs hp hand.1 hand.2, fun e t he => by cases he⟩
    · exact (Sat.fault (hE _)) s hs

theorem store_gdt_sat {bytes : List UInt8} (h0 : ∀ s, P s → Q () s)
    (h : ∀ s, P s → p ≠ 0 → Q () { s with gdts := Function.update s.gdts p (overwrite (s.gdts p) bytes) })
    (hE : ∀ e s, P s → E e s) : Sat P (store_gdt p bytes) Q E := by
  intro s hs
  unfold store_gdt
  rw [bind_of_ok (get_apply s)]
  split
  · exact (Sat.pure h0) s hs
  · split
    · exact (Sat.fault (hE _)) s hs
    · rename_i hp
      split
      · exact ⟨fun a t ha => by cases ha; exact h s hs hp, fun e t he => by cases he⟩
      · exact (Sat.fault (hE _)) s hs

/-- The state after `*last_next_ptr = entry`. -/
def NextPtr.stored (entry : Nat) (s : Vfs) : NextPtr → Vfs
  | .entries dir => { s with dirs := Function.update s.dirs dir { s.dirs dir with entries := entry } }
  | .next last => { s with direntries := Function.update s.direntries last { s.direntries last with next := entry } }

theorem NextPtr.store_sat {last : NextPtr} {entry : Nat} (h : ∀ s, P s → Q () (last.stored entry s))
    (hE : ∀ e s, P s → E e s) : Sat P (last.store entry) Q E := by
  cases last with
  | entries dir =>
    unfold NextPtr.store
    exact store_dir_sat (fun s hs _ => h s hs) hE
  | next last =>
    unfold NextPtr.store
    exact store_direntry_sat (fun s hs _ => h s hs) hE

end

/-! ## The heap and the devices -/

/-- `kmalloc` hands out nothing that is in use. -/
def FreshBlocks (env : Env) : Prop :=
  ∀ i blocks size kind, env.kmalloc i blocks size ≠ 0 → (env.kmalloc i blocks size, kind) ∉ blocks

section
variable {P : Vfs → Prop} {E : Fault → Vfs → Prop} {env : Env}

section
variable (s : Vfs) (p : Nat) (kind : Kind)

@[simp] theorem allocated_dirs : (s.allocated p kind).dirs = s.dirs := by unfold Vfs.allocated; split <;> rfl

@[simp] theorem allocated_direntries : (s.allocated p kind).direntries = s.direntries := by
  unfold Vfs.allocated; split <;> rfl

@[simp] theorem allocated_mntps : (s.allocated p kind).mntps = s.mntps := by unfold Vfs.allocated; split <;> rfl

@[simp] theorem allocated_fsinfos : (s.allocated p kind).fsinfos = s.fsinfos := by unfold Vfs.allocated; split <;> rfl

@[simp] theorem allocated_gdts : (s.allocated p kind).gdts = s.gdts := by unfold Vfs.allocated; split <;> rfl

@[simp] theorem allocated_inodes : (s.allocated p kind).inodes = s.inodes := by unfold Vfs.allocated; split <;> rfl

@[simp] theorem allocated_parts : (s.allocated p kind).parts = s.parts := by unfold Vfs.allocated; split <;> rfl

@[simp] theorem allocated_reads : (s.allocated p kind).reads = s.reads := by unfold Vfs.allocated; split <;> rfl

theorem mem_allocated {s : Vfs} {p : Nat} {kind : Kind} {b : Nat × Kind} (h : b ∈ s.blocks) :
    b ∈ (s.allocated p kind).blocks := by
  unfold Vfs.allocated
  split
  · exact h
  · exact List.mem_cons_of_mem _ h

end

theorem kmalloc_sat {Q : Nat → Vfs → Prop} {size : Nat} {kind : Kind}
    (h : ∀ s, P s → Q (env.kmalloc s.kmallocs s.blocks size) (s.allocated (env.kmalloc s.kmallocs s.blocks size) kind))
    (hE : ∀ e s, P s → E e s) : Sat P (kmalloc env size kind) Q E := by
  intro s hs
  unfold kmalloc
  rw [bind_of_ok (get_apply s)]
  split
  · exact (Sat.fault (hE _)) s hs
  · exact ⟨fun a t ha => by cases ha; exact h s hs, fun e t he => by cases he⟩

theorem kfree_sat {Q : Unit → Vfs → Prop} {p : Nat} {kind : Kind}
    (h0 : ∀ s, P s → s.heap_locked = false → p < 24 → Q () { s with heap_locked := true })
    (h : ∀ s, P s → s.heap_locked = false → 24 ≤ p → (p, kind) ∈ s.blocks →
      Q () { s with blocks := s.blocks.erase (p, kind) })
    (hE : ∀ e s, P s → E e s) : Sat P (kfree p kind) Q E := by
  intro s hs
  unfold kfree
  rw [bind_of_ok (get_apply s)]
  split
  · exact (Sat.fault (hE _)) s hs
  · rename_i hl
    have hl : s.heap_locked = false := by simpa using hl
    split
    · rename_i hp
      exact ⟨fun a t ha => by cases ha; exact h0 s hs hl hp, fun e t he => by cases he⟩
    · rename_i hp
      split
      · rename_i hm
        exact ⟨fun a t ha => by cases ha; exact h s hs hl (by omega) hm, fun e t he => by cases he⟩
      · exact (Sat.fault (hE _)) s hs

/-- What `hdd_read` asks the device for. -/
def Vfs.request (s : Vfs) (part sectors lba : Nat) : Request :=
  ⟨(s.parts part).bd, sectors, add32 lba (s.parts part).sect_offset⟩

/-- The answer to a request, and what of it fits into the buffer. -/
def Env.reply (env : Env) (i : Nat) (q : Request) : Reply :=
  { env.read i q.bd q.sectors q.lba with
    stored := (env.read i q.bd q.sectors q.lba).stored.take (q.sectors * IO_BLOCK_SIZE) }

theorem hdd_read_sat {Q : Reply → Vfs → Prop} {part sectors lba : Nat}
    (h : ∀ s, P s → Q (env.reply s.reads.length (s.request part sectors lba))
      { s with reads := s.request part sectors lba :: s.reads })
    (hE : ∀ e s, P s → E e s) : Sat P (hdd_read env part sectors lba) Q E := by
  intro s hs
  unfold hdd_read
  by_cases hp : part = 0
  · have hload : load_part part s = (.error .nullDeref, s) := by
      rw [load_part, if_pos hp]
      rfl
    rw [bind_of_error hload]
    exact ⟨fun a t ha => (by cases ha), fun e t he => by cases he; exact hE _ s hs⟩
  · have hload : load_part part s = (.ok (s.parts part), s) := by
      rw [load_part, if_neg hp]
      rfl
    rw [bind_of_ok hload]
    split
    · exact (Sat.fault (hE _)) s hs
    · exact ⟨fun a t ha => by cases ha; exact h s hs, fun e t he => by cases he⟩

end

end Ulmix.Fs

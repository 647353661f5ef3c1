import Ulmix.Fs.Loading
import Ulmix.Lib.Sll
/-!
# The debug build and the release build

`ASSERT(get_direntry(current_entry) >= 0)` is the only place where an entry gets
its type, mode, size, blocks and inode; without `_DEBUG_` nothing of it is left.
What an entry then holds is what the heap held before. So the two builds agree
on a directory, whatever the heap holds, exactly if there is no entry to build:
the entries are there already, or the block size is zero (`builds_agree`).
-/
open Ulmix.Lib Ulmix.Lib.Prog

namespace Ulmix.Fs

/-- The two builds of the same kernel, in the same surroundings. -/
def Env.build (env : Env) (debug : Bool) : Env := { env with debug := debug }

/-! ## What a heap held before -/

/-- `t` is `s`, except for what lies where no object in `used` is. -/
def Refilled (used : Nat → Prop) (s t : Vfs) : Prop :=
  ∃ g : Nat → DirentryStruct, (∀ e, used e → g e = s.direntries e) ∧ t = { s with direntries := g }

section
variable {used : Nat → Prop} {env : Env} (b b' : Bool)

theorem load_direntry_inStep {e : Nat} (he : used e) : InStep (Refilled used) (load_direntry e) (load_direntry e) := by
  rintro s t ⟨g, hg, rfl⟩
  unfold load_direntry
  split
  · exact ⟨rfl, g, hg, rfl⟩
  · exact ⟨congrArg Except.ok (hg e he), g, hg, rfl⟩

theorem store_direntry_inStep {e : Nat} {f : DirentryStruct → DirentryStruct} (he : used e) :
    InStep (Refilled used) (store_direntry e f) (store_direntry e f) := by
  rintro s t ⟨g, hg, rfl⟩
  unfold store_direntry
  split
  · exact ⟨rfl, g, hg, rfl⟩
  · refine ⟨rfl, Function.update g e (f (g e)), fun e' he' => ?_, rfl⟩
    by_cases hee : e' = e
    · subst hee
      simp [modify_apply, hg e' he]
    · simp [modify_apply, hee, hg e' he']

/-- A program that neither looks at an entry nor writes one. -/
theorem inStep_of_direntries {α : Type} {x : Prog Vfs α}
    (h : ∀ s g, x { s with direntries := g } = ((x s).1, { (x s).2 with direntries := g }) ∧
      (x s).2.direntries = s.direntries) :
    InStep (Refilled used) x x := by
  rintro s t ⟨g, hg, rfl⟩
  obtain ⟨hrun, hkeep⟩ := h s g
  rw [hrun]
  exact ⟨rfl, g, fun e he => by rw [hkeep]; exact hg e he, rfl⟩

theorem load_dir_inStep (p : Nat) : InStep (Refilled used) (load_dir p) (load_dir p) :=
  inStep_of_direntries fun s g => by unfold load_dir; split <;> exact ⟨rfl, rfl⟩

theorem load_mntp_inStep (p : Nat) : InStep (Refilled used) (load_mntp p) (load_mntp p) :=
  inStep_of_direntries fun s g => by unfold load_mntp; split <;> exact ⟨rfl, rfl⟩

theorem load_fsinfo_inStep (p : Nat) : InStep (Refilled used) (load_fsinfo p) (load_fsinfo p) :=
  inStep_of_direntries fun s g => by unfold load_fsinfo; split <;> exact ⟨rfl, rfl⟩

theorem load_part_inStep (p : Nat) : InStep (Refilled used) (load_part p) (load_part p) :=
  inStep_of_direntries fun s g => by unfold load_part; split <;> exact ⟨rfl, rfl⟩

theorem slice_inStep (buf : List UInt8) (i n : Nat) : InStep (Refilled used) (slice buf i n) (slice buf i n) :=
  .ite (fun _ => .pure _) fun _ => .fault _

theorem div32_inStep (a b : Nat) : InStep (Refilled used) (div32 a b) (div32 a b) :=
  .ite (fun _ => .fault _) fun _ => .pure _

theorem local_array_inStep (n : Nat) :
    InStep (Refilled used) (local_array (env.build b) n) (local_array (env.build b') n) :=
  inStep_of_direntries (x := local_array (env.build b) n) fun _ _ => ⟨rfl, rfl⟩

theorem allocated_with (s : Vfs) (g : Nat → DirentryStruct) (p : Nat) (kind : Kind) :
    ({ s with direntries := g } : Vfs).allocated p kind = { s.allocated p kind with direntries := g } := by
  unfold Vfs.allocated
  split <;> rfl

theorem kmalloc_inStep (size : Nat) (kind : Kind) :
    InStep (Refilled used) (kmalloc (env.build b) size kind) (kmalloc (env.build b') size kind) := by
  refine inStep_of_direntries (x := kmalloc (env.build b) size kind) fun s g => ?_
  unfold kmalloc
  rw [bind_of_ok (get_apply _), bind_of_ok (get_apply _)]
  split
  · exact ⟨rfl, rfl⟩
  · refine ⟨?_, allocated_direntries s _ kind⟩
    exact congrArg (Prod.mk (Except.ok _)) (allocated_with s g _ kind)

theorem kfree_inStep (p : Nat) (kind : Kind) : InStep (Refilled used) (kfree p kind) (kfree p kind) := by
  refine inStep_of_direntries fun s g => ?_
  unfold kfree
  rw [bind_of_ok (get_apply _), bind_of_ok (get_apply _)]
  split
  · exact ⟨rfl, rfl⟩
  · split
    · exact ⟨rfl, rfl⟩
    · split <;> exact ⟨rfl, rfl⟩

theorem load_inode_inStep (p : Nat) : InStep (Refilled used) (load_inode p) (load_inode p) := by
  refine inStep_of_direntries fun s g => ?_
  unfold load_inode
  rw [bind_of_ok (get_apply _), bind_of_ok (get_apply _)]
  split
  · exact ⟨rfl, rfl⟩
  · split <;> exact ⟨rfl, rfl⟩

theorem store_inode_inStep (p : Nat) (bytes : List UInt8) :
    InStep (Refilled used) (store_inode p bytes) (store_inode p bytes) := by
  refine inStep_of_direntries fun s g => ?_
  unfold store_inode
  rw [bind_of_ok (get_apply _), bind_of_ok (get_apply _)]
  split
  · exact ⟨rfl, rfl⟩
  · split <;> exact ⟨rfl, rfl⟩

theorem load_gd_inStep (t i : Nat) : InStep (Refilled used) (load_gd t i) (load_gd t i) := by
  refine inStep_of_direntries fun s g => ?_
  unfold load_gd
  split
  · exact ⟨rfl, rfl⟩
  · rw [bind_of_ok (get_apply _), bind_of_ok (get_apply _)]
    unfold slice
    split <;> exact ⟨rfl, rfl⟩

theorem hdd_read_inStep (part sectors lba : Nat) :
    InStep (Refilled used) (hdd_read (env.build b) part sectors lba) (hdd_read (env.build b') part sectors lba) := by
  refine .bind (load_part_inStep part) fun p => .ite (fun _ => .fault _) fun _ => ?_
  exact inStep_of_direntries fun _ _ => ⟨rfl, rfl⟩

theorem fetch_inode_inStep (n m p : Nat) :
    InStep (Refilled used) (fetch_inode (env.build b) n m p) (fetch_inode (env.build b') n m p) := by
  refine .bind (load_mntp_inStep _) fun mnt => ?_
  refine .bind (load_fsinfo_inStep _) fun fsinfo => ?_
  refine .ite (fun _ => .pure _) fun _ => ?_
  refine .bind (div32_inStep _ _) fun group => ?_
  refine .bind (div32_inStep _ _) fun per_sector => ?_
  refine .bind (div32_inStep _ _) fun offset => ?_
  refine .bind (load_gd_inStep _ _) fun gd => ?_
  refine .bind (local_array_inStep b b' _) fun buf => ?_
  refine .bind (hdd_read_inStep b b' _ _ _) fun r => ?_
  refine .ite (fun _ => .pure _) fun _ => ?_
  refine .bind (slice_inStep _ _ _) fun bytes => ?_
  exact .bind (store_inode_inStep _ _) fun _ => .pure _

/-- Reading the inode of an entry that is in use does not depend on the rest of the heap. -/
theorem direntry_get_inode_inStep {e : Nat} (he : used e) :
    InStep (Refilled used) (direntry_get_inode (env.build b) e) (direntry_get_inode (env.build b') e) := by
  refine .bind (.bind (load_direntry_inStep he) fun d => .ite (fun _ => ?_) fun _ => .pure _) fun _ => ?_
  · exact .bind (kmalloc_inStep b b' _ _) fun p => store_direntry_inStep he
  refine .bind (load_direntry_inStep he) fun d => ?_
  refine .bind (load_dir_inStep _) fun dir => ?_
  refine .bind (fetch_inode_inStep b b' _ _ _) fun error => ?_
  refine .ite (fun _ => ?_) fun _ => .pure _
  exact .bind (kfree_inStep _ _) fun _ => .bind (store_direntry_inStep he) fun _ => .pure _

end

/-! ## What the release build leaves in an entry -/

/-- Outside the blocks `B` entries have the type `t`, and `B` is still in use. -/
structure Untouched (B : List (Nat × Kind)) (t : Nat) (s : Vfs) : Prop where
  types : ∀ e, (e, .direntry) ∉ B → (s.direntries e).type = t
  blocks : ∀ p kind, kind ≠ .inode → (p, kind) ∈ B → (p, kind) ∈ s.blocks

section
variable {env : Env} {B : List (Nat × Kind)} {t dir x : Nat} {s : Vfs}

/-- The state of the loop: what is untouched, and where the list of `dir` starts. -/
def Started (B : List (Nat × Kind)) (t dir x : Nat) (s : Vfs) : Prop := Untouched B t s ∧ (s.dirs dir).entries = x

theorem Untouched.store (h : Untouched B t s) {p : Nat} {v : DirentryStruct} (hv : v.type = (s.direntries p).type) :
    Untouched B t { s with direntries := Function.update s.direntries p v } := by
  refine ⟨fun e he => ?_, h.blocks⟩
  rw [← h.types e he]
  by_cases hep : e = p
  · subst hep
    simp [hv]
  · simp [hep]

theorem Untouched.allocated (h : Untouched B t s) (p : Nat) (kind : Kind) : Untouched B t (s.allocated p kind) := by
  refine ⟨fun e he => ?_, fun q k hk hq => ?_⟩
  · rw [allocated_direntries]
    exact h.types e he
  · exact mem_allocated (h.blocks q k hk hq)

theorem Started.store (h : Started B t dir x s) {p : Nat} {v : DirentryStruct} (hv : v.type = (s.direntries p).type) :
    Started B t dir x { s with direntries := Function.update s.direntries p v } :=
  ⟨h.1.store hv, h.2⟩

theorem kmalloc_started {size : Nat} {kind : Kind} (hf : FreshBlocks env) (hk : kind ≠ .inode) :
    Sat (Started B t dir x) (kmalloc env size kind) (fun p s =>
      Started B t dir x s ∧ (p ≠ 0 → (p, kind) ∉ B)) stopped := by
  refine kmalloc_sat (fun s h => ⟨⟨h.1.allocated _ kind, ?_⟩, fun hp hB => ?_⟩) any_stopped
  · rw [allocated_dirs]
    exact h.2
  · exact hf _ _ _ kind hp (h.1.blocks _ kind hk hB)

theorem set_directory_started {e file_type : Nat} (hf : FreshBlocks env) (hdir : (dir, .dir) ∈ B) :
    Sat (Started B t dir x) (set_directory env dir e file_type) (fun _ => Started B t dir x) stopped := by
  refine .ite (fun _ => ?_) fun _ => .pure fun _ h => h
  refine .bind ((load_direntry_sat any_stopped).post fun _ _ h => h.2.2) fun _ => ?_
  refine .bind ((load_dir_sat any_stopped).post fun _ _ h => h.2.2) fun d => ?_
  refine .ite (fun _ => ?_) fun _ => ?_
  · refine .bind ((load_direntry_sat any_stopped).post fun _ _ h => h.2.2) fun _ => ?_
    exact store_direntry_sat (fun s h _ => h.store rfl) any_stopped
  · refine .bind ((load_dir_sat any_stopped).post fun _ _ h => h.2.2) fun parent => ?_
    refine .ite (fun _ => ?_) fun _ => ?_
    · refine .bind ((load_direntry_sat any_stopped).post fun _ _ h => h.2.2) fun _ => ?_
      exact store_direntry_sat (fun s h _ => h.store rfl) any_stopped
    · -- the new directory is not the one whose list is built
      refine .bind (kmalloc_started hf (by decide)) fun q => ?_
      refine .bind (Q := fun _ s => Started B t dir x s ∧ (q ≠ 0 → (q, .dir) ∉ B)) ?_ fun _ => ?_
      · exact store_direntry_sat (fun s h _ => ⟨h.1.store rfl, h.2⟩) any_stopped
      · refine store_dir_sat (fun s h hq => ⟨⟨h.1.1.types, h.1.1.blocks⟩, ?_⟩) any_stopped
        have hne : dir ≠ q := fun heq => h.2 hq (heq ▸ hdir)
        dsimp only
        rw [Function.update_of_ne hne]
        exact h.1.2

/-- A record becomes an entry whose type nobody sets. -/
theorem load_record_started {buf : List UInt8} {i : Nat} (hf : FreshBlocks env) (hd : env.debug = false)
    (hdir : (dir, .dir) ∈ B) :
    Sat (Started B t dir x) (load_record env dir buf i)
      (fun ei s => Started B t dir x s ∧ ei.1 ≠ 0 ∧ (ei.1, .direntry) ∉ B) stopped := by
  refine .bind (kmalloc_started hf (by decide)) fun e => ?_
  refine .bind ((slice_sat any_stopped).post fun _ _ h => h.2) fun header => ?_
  refine .bind ((slice_sat any_stopped).post fun _ _ h => h.2) fun name => ?_
  refine .bind (Q := fun _ s => Started B t dir x s ∧ e ≠ 0 ∧ (e, .direntry) ∉ B) ?_ fun _ => ?_
  · exact store_direntry_sat (fun s h he => ⟨h.1.store rfl, he, h.2 he⟩) any_stopped
  by_cases hpure : e ≠ 0 ∧ (e, .direntry) ∉ B
  · refine .bind ((set_directory_started hf hdir).pre fun _ h => h.1) fun _ => ?_
    rw [assert_off hd]
    exact .bind (.pure fun _ h => h) fun _ => .pure fun s h => ⟨h, hpure⟩
  · exact fun s h => absurd h.2 hpure

/-- The entries behind the first one do not move the start of the list. -/
theorem loop_started {fsinfo inode : Nat} (hf : FreshBlocks env) (hd : env.debug = false) (hdir : (dir, .dir) ∈ B) :
    ∀ (fuel i block e : Nat) (buf : List UInt8),
      Sat (Started B t dir x) (ext2_get_direntries_loop env dir fsinfo inode fuel i false block buf (.next e))
        (fun _ => Started B t dir x) stopped := by
  intro fuel
  induction fuel with
  | zero =>
    intro i block e buf
    exact .fault (any_stopped _)
  | succ fuel ih =>
    intro i block e buf
    have hstore : ∀ p, Sat (Started B t dir x) ((NextPtr.next e).store p) (fun _ => Started B t dir x) stopped :=
      fun p => NextPtr.store_sat (fun s h => h.store rfl) any_stopped
    refine .bind ((load_fsinfo_sat any_stopped).post fun _ _ h => h.2.2) fun f => ?_
    refine .ite (fun _ => ?_) fun _ => .bind (hstore 0) fun _ => .pure fun _ h => h
    refine .bind (Q := fun _ => Started B t dir x) (.ite (fun h => by cases h) fun _ => .pure fun _ h => h)
      fun next => ?_
    cases next with
    | error error => exact .pure fun _ h => h
    | ok buf =>
      refine .bind ((load_record_started hf hd hdir).post fun _ _ h => h.1) fun ei => ?_
      exact .bind (hstore _) fun _ => ih _ _ _ _

/-- Once a record is there, the list starts with an entry of the type found in the heap. -/
theorem loop_first {fsinfo inode fuel : Nat} {buf : List UInt8} (hf : FreshBlocks env) (hd : env.debug = false)
    (hdir : (dir, .dir) ∈ B) :
    Sat (fun s => Started B t dir x s ∧ 0 < (s.fsinfos fsinfo).block_size)
      (ext2_get_direntries_loop env dir fsinfo inode (fuel + 1) 0 true 0 buf (.entries dir))
      (fun r s => r < 0 ∨ ∃ e ≠ 0, (e, .direntry) ∉ B ∧ Started B t dir e s) stopped := by
  refine .bind (load_fsinfo_sat any_stopped) fun f => ?_
  refine .ite (fun _ => ?_) fun hbs => fun s h => absurd (h.2.1 ▸ h.2.2.2) hbs
  refine .bind (Q := fun next s => Started B t dir x s ∧ ∀ r, next = .error r → r < 0) ?_ fun next => ?_
  · refine .bind ((load_inode_sat any_stopped).post fun _ _ h => h.2.2.2.1) fun bytes => ?_
    refine .bind (hdd_read_sat (Q := fun _ => Started B t dir x)
      (fun s h => ⟨⟨h.1.types, h.1.blocks⟩, h.2⟩) any_stopped) fun r => ?_
    refine .ite (fun hr => .pure fun _ h => ⟨h, fun r' hr' => by cases hr'; exact hr⟩) fun _ => ?_
    exact .pure fun _ h => ⟨h, fun r' hr' => by cases hr'⟩
  · cases next with
    | error r => exact .pure fun _ h => .inl (h.2 r rfl)
    | ok buf =>
      refine .bind ((load_record_started hf hd hdir).pre fun _ h => h.1) fun ei => ?_
      refine .bind (Q := fun _ s => Started B t dir ei.1 s ∧ ei.1 ≠ 0 ∧ (ei.1, .direntry) ∉ B) ?_ fun _ => ?_
      · refine NextPtr.store_sat (fun s h => ⟨⟨⟨h.1.1.types, h.1.1.blocks⟩, ?_⟩, h.2⟩) any_stopped
        simp [NextPtr.stored]
      by_cases hpure : ei.1 ≠ 0 ∧ (ei.1, .direntry) ∉ B
      · refine (loop_started hf hd hdir _ _ _ _ _).mono (fun _ h => h.1) (fun r s h => ?_) any_stopped
        exact .inr ⟨ei.1, hpure.1, hpure.2, h⟩
      · exact fun s h => absurd h.2 hpure

end

/-! ## The two builds -/

/-- What the builds are compared by: type, mode, size, blocks and the inode an entry leads to. -/
structure EntryView where
  type : Nat
  mode : Nat
  size : Nat
  blocks : Nat
  inode : Option (List UInt8)
  deriving DecidableEq, Repr

/-- The entry `d` with the inode it has in the heap. -/
def EntryView.of (blocks : List (Nat × Kind)) (inodes : Nat → List UInt8) (d : DirentryStruct) : EntryView where
  type := d.type
  mode := d.mode
  size := d.size
  blocks := d.blocks
  inode := if (d.payload, .inode) ∈ blocks then some (inodes d.payload) else none

def Vfs.view (s : Vfs) (e : Nat) : EntryView := .of s.blocks s.inodes (s.direntries e)

/-- The list of `dir` has the same entries in `s` and in `t`. -/
def SameEntries (dir : Nat) (s t : Vfs) : Prop :=
  ∃ ls lt, Sll (fun e => (s.direntries e).next) (s.dirs dir).entries ls ∧
    Sll (fun e => (t.direntries e).next) (t.dirs dir).entries lt ∧ ls.map s.view = lt.map t.view

theorem SameEntries.empty {dir : Nat} {s t : Vfs} (hs : (s.dirs dir).entries = 0) (ht : (t.dirs dir).entries = 0) :
    SameEntries dir s t := ⟨[], [], hs, ht, rfl⟩

/-- `dir`, its own entry and the entries on its list are objects in use. -/
structure InUse (s : Vfs) (dir : Nat) : Prop where
  used : (dir, .dir) ∈ s.blocks
  entry : ((s.dirs dir).dir_entry, .direntry) ∈ s.blocks
  listed : ∃ l, Sll (fun e => (s.direntries e).next) (s.dirs dir).entries l ∧ ∀ e ∈ l, (e, .direntry) ∈ s.blocks

/-- The objects of the tree, which both builds find the same. -/
def Vfs.inUse (s : Vfs) (e : Nat) : Prop := (e, .direntry) ∈ s.blocks

/-- There is no list yet, and a block of records from which one is made. -/
def LoadsRecords (env : Env) (s : Vfs) (dir : Nat) : Prop := Unloaded s dir ∧ FirstBlockServed env s dir

section
variable {env : Env} {s s' td : Vfs} {dir : Nat} {r : Int}

/-- A list that is there already stays the same. -/
theorem SameEntries.refilled (hu : InUse s dir) (hR : Refilled s.inUse s s') : SameEntries dir s s' := by
  obtain ⟨g, hg, rfl⟩ := hR
  obtain ⟨l, hl, hmem⟩ := hu.listed
  refine ⟨l, l, hl, hl.congr fun e he => ?_, List.map_congr_left fun e he => ?_⟩
  · exact congrArg DirentryStruct.next (hg e (hmem e he))
  · exact congrArg (EntryView.of s.blocks s.inodes) (hg e (hmem e he)).symm

theorem next_block_inStep {used : Nat → Prop} (b b' : Bool) (f : Ext2fsStruct) (inode : Nat) (new : Bool) (block : Nat)
    (buf : List UInt8) :
    InStep (Refilled used) (next_block (env.build b) f inode new block buf)
      (next_block (env.build b') f inode new block buf) := by
  refine .ite (fun _ => ?_) fun _ => .pure _
  refine .bind (load_inode_inStep _) fun bytes => .bind (hdd_read_inStep b b' _ _ _) fun r => ?_
  exact .ite (fun _ => .pure _) fun _ => .pure _

/-- Without a record the loops of the two builds do the same. -/
theorem loop_release {used : Nat → Prop} {fsinfo inode fuel : Nat} {buf : List UInt8} (hR : Refilled used s s')
    (h0 : (s.dirs dir).entries = 0)
    (hrun : ext2_get_direntries_loop (env.build true) dir fsinfo inode (fuel + 1) 0 true 0 buf (.entries dir) s =
      (.ok r, td))
    (h : (s.fsinfos fsinfo).block_size = 0 ∨ r < 0) :
    ∃ tr, ext2_get_direntries_loop (env.build false) dir fsinfo inode (fuel + 1) 0 true 0 buf (.entries dir) s' =
      (.ok r, tr) ∧
      (td.dirs dir).entries = 0 ∧ (tr.dirs dir).entries = 0 := by
  unfold ext2_get_direntries_loop at hrun
  obtain ⟨f, s₁, hf, hstep⟩ := bind_ok.1 hrun
  obtain ⟨s₁', hf', hR⟩ := (load_fsinfo_inStep fsinfo).ok hf hR
  obtain ⟨-, rfl, hs₁⟩ := (load_fsinfo_sat fun _ _ h => h).of_run hf
  obtain rfl : s = s₁ := hs₁.symm
  unfold ext2_get_direntries_loop
  rw [bind_of_ok hf']
  by_cases hbs : 0 < (s.fsinfos fsinfo).block_size
  · rw [if_pos hbs] at hstep ⊢
    have hr : r < 0 := h.resolve_left (by omega)
    obtain ⟨next, s₂, hn, hrun⟩ := bind_ok.1 hstep
    obtain ⟨s₂', hn', hR⟩ := (next_block_inStep true false _ _ _ _ _).ok hn hR
    have hdirs : s₂.dirs = s.dirs := by
      have hsat : Sat (fun t => t.dirs = s.dirs) (next_block (env.build true) (s.fsinfos fsinfo) inode true 0 buf)
          (fun _ t => t.dirs = s.dirs) (fun _ _ => True) := by
        refine .ite (fun _ => ?_) fun _ => .pure fun _ h => h
        refine .bind ((load_inode_sat any_stopped).post fun _ _ h => h.2) fun bytes => ?_
        refine .bind (hdd_read_sat (Q := fun _ t => t.dirs = s.dirs) (fun _ h => h) any_stopped) fun r => ?_
        exact .ite (fun _ => .pure fun _ h => h) fun _ => .pure fun _ h => h
      exact (hsat s rfl).1 _ _ hn
    rw [bind_of_ok hn']
    cases next with
    | error error =>
      cases hrun
      obtain ⟨g, -, rfl⟩ := hR
      exact ⟨_, rfl, hdirs ▸ h0, hdirs ▸ h0⟩
    | ok buf =>
      -- from here on only success is returned
      exfalso
      obtain ⟨ei, s₃, -, hrun⟩ := bind_ok.1 hrun
      obtain ⟨_, s₄, -, hrun⟩ := bind_ok.1 hrun
      have := (loop_success (P := fun _ => True) _ _ _ _ _ s₄ trivial).1 _ _ hrun
      omega
  · rw [if_neg hbs] at hstep ⊢
    have hstore : ∀ t t' : Vfs, (do (NextPtr.entries dir).store 0; pure SUCCESS : Prog Vfs Int) t = (.ok r, t') →
        r = SUCCESS ∧ dir ≠ 0 ∧ (t'.dirs dir).entries = 0 := by
      intro t t' hst
      obtain ⟨_, t₁, hst, hok⟩ := bind_ok.1 hst
      cases hok
      by_cases hd : dir = 0
      · rw [NextPtr.store, store_dir, if_pos hd] at hst
        cases hst
      · rw [NextPtr.store, store_dir, if_neg hd] at hst
        cases hst
        exact ⟨rfl, hd, by simp⟩
    obtain ⟨rfl, hd, htd⟩ := hstore _ _ hstep
    obtain ⟨tr, hrel⟩ : ∃ tr, (do (NextPtr.entries dir).store 0; pure SUCCESS : Prog Vfs Int) s₁' =
        (.ok SUCCESS, tr) := by
      rw [NextPtr.store, store_dir, if_neg hd]
      exact ⟨_, rfl⟩
    exact ⟨tr, hrel, htd, (hstore _ _ hrel).2.2⟩

/-- If no record is loaded, or an error returned, the release build does what the debug build does. -/
theorem release_agrees (hu : InUse s dir) (hrun : ext2_get_direntries (env.build true) dir s = (.ok r, td))
    (h : ¬ Unloaded s dir ∨ r < 0) (hR : Refilled s.inUse s s') :
    ∃ tr, ext2_get_direntries (env.build false) dir s' = (.ok r, tr) ∧ SameEntries dir td tr := by
  obtain ⟨hd, hm, hcase⟩ := ext2_get_direntries_ok hrun
  have hrel : ext2_get_direntries (env.build false) dir s' =
      if (s.dirs dir).entries ≠ 0 then (.ok SUCCESS, s')
      else load_entries (env.build false) dir (s.dirs dir).dir_entry (s.mntps (s.dirs dir).fs_info).fs_data s' := by
    obtain ⟨g, -, rfl⟩ := hR
    exact ext2_get_direntries_run _ hd hm
  rw [hrel]
  rcases hcase with ⟨h0, rfl, rfl⟩ | ⟨h0, hload⟩
  · rw [if_pos h0]
    exact ⟨s', rfl, .refilled hu hR⟩
  · rw [if_neg (not_not_intro h0)]
    obtain ⟨inode, s₁, hi, hf, hloop⟩ := load_entries_ok hload
    obtain ⟨s₁', hi', hR₁⟩ := (direntry_get_inode_inStep true false hu.entry).ok hi hR
    have hkeep := (direntry_get_inode_frame (env.build true) _ s).of_run hi
    obtain ⟨s₂', hf', hR₂⟩ := (load_fsinfo_inStep _).ok (load_fsinfo_run hf s₁) hR₁
    obtain ⟨s₃', hb', hR₃⟩ := (local_array_inStep true false _).ok (local_array_run (env.build true) _ s₁) hR₂
    have hbs : (s₁.fsinfos (s.mntps (s.dirs dir).fs_info).fs_data).block_size = 0 ∨ r < 0 := by
      rw [hkeep.2]
      refine h.imp_left fun hn => ?_
      by_contra hpos
      exact hn ⟨h0, Nat.pos_of_ne_zero hpos⟩
    obtain ⟨tr, htr, htd0, htr0⟩ := loop_release hR₃ (hkeep.1 ▸ h0) hloop hbs
    refine ⟨tr, ?_, .empty htd0 htr0⟩
    unfold load_entries
    rw [bind_of_ok hi', bind_of_ok hf', bind_of_ok hb']
    exact htr

theorem Untouched.freed {B : List (Nat × Kind)} {t : Nat} (h : Untouched B t s) (p : Nat) :
    Untouched B t { s with blocks := s.blocks.erase (p, .inode) } :=
  ⟨h.types, fun q k hk hq => (List.mem_erase_of_ne (by simp [hk])).2 (h.blocks q k hk hq)⟩

/-- The release build makes a list that starts with an entry of the type found in the heap. -/
theorem release_first {t : Nat} (hf : FreshBlocks env) (hd : env.debug = false) (hdir : (dir, .dir) ∈ s.blocks)
    (ht : ∀ e, (e, .direntry) ∉ s.blocks → (s.direntries e).type = t) (hl : Unloaded s dir) :
    Sat (fun s' => s' = s) (ext2_get_direntries env dir)
      (fun r s' => r < 0 ∨ ∃ e ≠ 0, (e, .direntry) ∉ s.blocks ∧ Started s.blocks t dir e s') stopped := by
  unfold ext2_get_direntries
  rw [assert_off hd]
  refine .bind (Q := fun _ s' => s' = s) (.pure fun _ h => h) fun _ => ?_
  refine .bind (load_dir_sat any_stopped) fun d => ?_
  rw [assert_off hd]
  refine .bind (Q := fun _ s' => dir ≠ 0 ∧ d = s'.dirs dir ∧ s' = s) (.pure fun _ h => h) fun _ => ?_
  refine .bind (load_mntp_sat any_stopped) fun m => ?_
  refine .ite (fun hne s' h => ?_) fun _ => ?_
  · obtain ⟨-, -, -, rfl, rfl⟩ := h
    exact absurd hl.1 hne
  by_cases hm : m = s.mntps (s.dirs dir).fs_info
  · subst hm
    have hkeep : Sat (fun s' => Untouched s.blocks t s' ∧ s'.dirs = s.dirs ∧ s'.fsinfos = s.fsinfos)
        (direntry_get_inode env d.dir_entry)
        (fun _ s' => Untouched s.blocks t s' ∧ s'.dirs = s.dirs ∧ s'.fsinfos = s.fsinfos) stopped := by
      refine (direntry_get_inode_keeps ⟨?_, ?_, ?_, ?_, ?_⟩ ?_).mono (fun _ h => h) (fun _ _ h => h) any_stopped
      · exact fun s' p b h => ⟨⟨h.1.types, h.1.blocks⟩, h.2⟩
      · exact fun s' p h => ⟨h.1.allocated p .inode, by simpa using h.2⟩
      · exact fun s' p h => ⟨h.1.freed p, h.2⟩
      · exact fun s' h => ⟨⟨h.1.types, h.1.blocks⟩, h.2⟩
      · exact fun s' p h => ⟨h.1.store rfl, h.2⟩
      · exact fun s' _ _ h _ _ _ => ⟨⟨h.1.types, h.1.blocks⟩, h.2⟩
    refine .bind (hkeep.pre ?_) fun inode => ?_
    · rintro s' ⟨-, -, -, -, rfl⟩
      exact ⟨⟨ht, fun _ _ _ h => h⟩, rfl, rfl⟩
    refine .bind ((load_fsinfo_sat any_stopped).post fun _ _ h => h.2.2) fun f => ?_
    refine .bind (local_array_sat.post fun _ _ h => h.2) fun buf => ?_
    obtain ⟨fuel, hfuel⟩ : ∃ k, 2 ^ 32 = k + 1 := ⟨2 ^ 32 - 1, by norm_num⟩
    rw [hfuel]
    refine (loop_first (x := 0) hf hd hdir).pre fun s' h => ⟨⟨h.1, ?_⟩, ?_⟩
    · rw [h.2.1]
      exact hl.1
    · rw [h.2.2]
      exact hl.2
  · intro s' h
    obtain ⟨-, rfl, -, rfl, rfl⟩ := h
    exact absurd rfl hm

/-- The state `s` where every entry not in use has the type `t`. -/
def Vfs.typed (s : Vfs) (t : Nat) : Vfs :=
  { s with
    direntries := fun e => if (e, .direntry) ∈ s.blocks then s.direntries e else { s.direntries e with type := t } }

theorem typed_refilled (s : Vfs) (t : Nat) : Refilled s.inUse s (s.typed t) :=
  ⟨_, fun _ he => if_pos he, rfl⟩

theorem typed_type {s : Vfs} {e : Nat} (t : Nat) (he : (e, .direntry) ∉ s.blocks) :
    ((s.typed t).direntries e).type = t := by
  simp [Vfs.typed, he]

/-- Loading a record, the release build makes entries of every type there is in the heap. -/
theorem release_type {t : Nat} (hf : FreshBlocks env) (hu : InUse s dir) (hl : Unloaded s dir) (hr : 0 ≤ r)
    (h : ∀ s', Refilled s.inUse s s' →
      ∃ tr, ext2_get_direntries (env.build false) dir s' = (.ok r, tr) ∧ SameEntries dir td tr) :
    ∃ a l, Sll (fun e => (td.direntries e).next) (td.dirs dir).entries (a :: l) ∧ (td.direntries a).type = t := by
  obtain ⟨tr, hrun, ls, lt, hls, hlt, hview⟩ := h _ (typed_refilled s t)
  have hfirst : Sat (fun s' => s' = s.typed t) (ext2_get_direntries (env.build false) dir) _ stopped :=
    release_first hf rfl hu.used (fun e he => typed_type t he) hl
  obtain hneg | ⟨e, he, hnew, hu', hhead⟩ := hfirst.of_run hrun
  · omega
  rw [hhead] at hlt
  cases lt with
  | nil => exact absurd hlt he
  | cons a l =>
    obtain rfl := hlt.1
    cases ls with
    | nil => cases hview
    | cons b l' =>
      refine ⟨b, l', hls, ?_⟩
      have hab := (List.cons.inj hview).1
      exact (congrArg EntryView.type hab).trans (hu'.types e hnew)

/-- Where no assertion of the debug build fails, the release build makes the same entries,
whatever the heap holds, if and only if no record is loaded. -/
theorem builds_agree (hf : FreshBlocks env) (hu : InUse s dir)
    (hrun : ext2_get_direntries (env.build true) dir s = (.ok r, td)) :
    (∀ s', Refilled s.inUse s s' →
      ∃ tr, ext2_get_direntries (env.build false) dir s' = (.ok r, tr) ∧ SameEntries dir td tr) ↔
      ¬ LoadsRecords (env.build true) s dir := by
  refine ⟨fun h hl => ?_, fun h s' hR => ?_⟩
  · have hr : 0 ≤ r := (served_iff hl.1 hrun).2 hl.2
    obtain ⟨a, l, hl₀, h₀⟩ := release_type (t := 0) hf hu hl.1 hr h
    obtain ⟨b, l', hl₁, h₁⟩ := release_type (t := 1) hf hu hl.1 hr h
    obtain ⟨rfl, -⟩ := List.cons.inj (hl₀.unique hl₁)
    omega
  · refine release_agrees hu hrun ?_ hR
    by_cases hl : Unloaded s dir
    · refine .inr (Int.not_le.1 fun hr => h ⟨hl, (served_iff hl hrun).1 hr⟩)
    · exact .inl hl

end

theorem smallVfs_inUse : InUse smallVfs root_dir where
  used := by decide
  entry := by decide
  listed := ⟨[], rfl, fun _ h => by cases h⟩

theorem builds_agree_faulty : ∃ td, ext2_get_direntries (faultyEnv.build true) root_dir smallVfs = (.ok (- EIO), td) ∧
    ∀ s', Refilled smallVfs.inUse smallVfs s' → ∃ tr,
      ext2_get_direntries (faultyEnv.build false) root_dir s' = (.ok (- EIO), tr) ∧ SameEntries root_dir td tr := by
  have hrun : (ext2_get_direntries (faultyEnv.build true) root_dir smallVfs).1 = .ok (- EIO) := by decide +kernel
  have hfailed : ¬ 0 ≤ ((faultyEnv.build true).blockReply smallVfs root_dir).ret := by decide +kernel
  exact ⟨_, run_eq hrun, (builds_agree faultyEnv_fresh smallVfs_inUse (run_eq hrun)).2 fun h => hfailed h.2⟩

/-- The debug build loads the record of the small disk. -/
theorem smallVfs_debug : ∃ td, ext2_get_direntries ((smallEnv dotRecord).build true) root_dir smallVfs = (.ok 0, td) ∧
    (td.dirs root_dir).entries ≠ 0 ∧ (td.direntries (td.dirs root_dir).entries).type = F_DIR := by
  have hrun : (ext2_get_direntries ((smallEnv dotRecord).build true) root_dir smallVfs).1 = .ok 0 := by decide +kernel
  exact ⟨_, run_eq hrun, by decide +kernel, by decide +kernel⟩

/-- The loader, as `namei` calls it. -/
def loads (env : Env) (dir : Nat) : Prog Vfs Unit := do
  let _ ← ext2_get_direntries env dir

/-- The release build makes an entry, too, but in memory full of zeros it is no directory: the path `/./.` leads nowhere
there. -/
theorem builds_differ : ∃ td tr,
    ext2_get_direntries ((smallEnv dotRecord).build true) root_dir smallVfs = (.ok 0, td) ∧
      ext2_get_direntries ((smallEnv dotRecord).build false) root_dir (smallVfs.typed 0) = (.ok 0, tr) ∧
      ¬ SameEntries root_dir td tr ∧
      (∃ de, (namei (loads ((smallEnv dotRecord).build true)) [0x2f, 0x2e, 0x2f, 0x2e, 0] td).1 = .ok (.ok de)) ∧
      (namei (loads ((smallEnv dotRecord).build false)) [0x2f, 0x2e, 0x2f, 0x2e, 0] tr).1 = .ok (.error (- ENOENT)) := by
  obtain ⟨td, hrun, hne, htype⟩ := smallVfs_debug
  have hrel : (ext2_get_direntries ((smallEnv dotRecord).build false) root_dir (smallVfs.typed 0)).1 = .ok 0 := by
    decide +kernel
  have hzero : ((ext2_get_direntries ((smallEnv dotRecord).build false) root_dir (smallVfs.typed 0)).2.direntries
      ((ext2_get_direntries ((smallEnv dotRecord).build false) root_dir
        (smallVfs.typed 0)).2.dirs root_dir).entries).type = 0 := by
    decide +kernel
  have hfound : (namei (loads ((smallEnv dotRecord).build true)) [0x2f, 0x2e, 0x2f, 0x2e, 0]
      (ext2_get_direntries ((smallEnv dotRecord).build true) root_dir smallVfs).2).1 = .ok (.ok 7728) := by
    decide +kernel
  have hmissing : (namei (loads ((smallEnv dotRecord).build false)) [0x2f, 0x2e, 0x2f, 0x2e, 0]
      (ext2_get_direntries ((smallEnv dotRecord).build false) root_dir (smallVfs.typed 0)).2).1 =
        .ok (.error (- ENOENT)) := by
    decide +kernel
  rw [hrun] at hfound
  have hrun' := run_eq hrel
  generalize
    (ext2_get_direntries ((smallEnv dotRecord).build false) root_dir (smallVfs.typed 0)).2 = tr at hzero hrun' hmissing
  refine ⟨td, tr, hrun, hrun', ?_, ⟨_, hfound⟩, hmissing⟩
  rintro ⟨ls, lt, hls, hlt, hview⟩
  cases ls with
  | nil => exact hne hls
  | cons a l =>
    cases lt with
    | nil => cases hview
    | cons b l' =>
      have hab := congrArg EntryView.type (List.cons.inj hview).1
      rw [hls.1] at htype
      rw [hlt.1] at hzero
      exact absurd (htype.symm.trans (hab.trans hzero)) (by decide)

end Ulmix.Fs

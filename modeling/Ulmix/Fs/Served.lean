import Ulmix.Fs.Tree
import Ulmix.Fs.Inodes
/-!
# Loading a directory when nothing fails

With memory that never runs out and inodes that can be read no step of the
debug build stops: an entry gets its inode (`get_direntry_works`), a record
becomes an entry (`load_record_works`), and records that fill the block are gone
through to the end (`loop_works`). What the entries then say is the matter of
`Entries`.
-/
open Ulmix.Lib Ulmix.Lib.Prog

namespace Ulmix.Fs

/-! ## Without a fault -/

/-- No run stops. -/
def nowhere : Fault → Vfs → Prop := fun _ _ => False

/-- The heap can be used, and no payload dangles. -/
structure Usable (s : Vfs) : Prop where
  unlocked : s.heap_locked = false
  payloads : ∀ e, (s.direntries e).payload = 0 ∨ ((s.direntries e).payload, .inode) ∈ s.blocks

/-- `kmalloc` always has something to give. -/
def Env.Generous (env : Env) : Prop := ∀ i blocks size, env.kmalloc i blocks size ≠ 0

/-- Inode `n` of the filesystem at `m` can be read into the memory of an inode. -/
structure Readable (env : Env) (t : Vfs) (m n : Nat) : Prop where
  mounted : Mounted t m
  serves : (t.volume m).Serves n
  small : inode_size (t.volume m).superblock ≤ 128
  answered : ∀ i sectors lba, 0 ≤ (env.read i (t.parts (t.volume m).part).bd sectors lba).ret

namespace Usable

variable {s : Vfs} {e p : Nat} {kind : Kind}

theorem allocated (h : Usable s) (p : Nat) (kind : Kind) : Usable (s.allocated p kind) := by
  refine ⟨?_, fun e => ?_⟩
  · unfold Vfs.allocated
    split <;> exact h.unlocked
  · rw [allocated_direntries]
    exact (h.payloads e).imp_right mem_allocated

theorem asked (h : Usable s) (q : Request) : Usable (s.asked q) := ⟨h.unlocked, h.payloads⟩

theorem copied (h : Usable s) (p : Nat) (bytes : List UInt8) : Usable (s.copied p bytes) := ⟨h.unlocked, h.payloads⟩

/-- An entry is stored whose payload is none, or an inode in use. -/
theorem store (h : Usable s) {v : DirentryStruct} (hv : v.payload = 0 ∨ (v.payload, .inode) ∈ s.blocks) :
    Usable { s with direntries := Function.update s.direntries e v } := by
  refine ⟨h.unlocked, fun e' => ?_⟩
  dsimp only
  by_cases he : e' = e
  · subst he
    rwa [Function.update_self]
  · rw [Function.update_of_ne he]
    exact h.payloads e'

theorem store_dir (h : Usable s) (d : Nat) (v : DirStruct) : Usable { s with dirs := Function.update s.dirs d v } :=
  ⟨h.unlocked, h.payloads⟩

end Usable

section
variable {env : Env} {s t : Vfs} {P : Vfs → Prop} {F : Vfs → Prop} {v : DirentryStruct} {m n e p : Nat}

theorem kmalloc_works (hg : env.Generous) {Q : Nat → Vfs → Prop} {size : Nat} {kind : Kind}
    (h : ∀ s p, P s → p = env.kmalloc s.kmallocs s.blocks size → p ≠ 0 → (p, kind) ∈ (s.allocated p kind).blocks →
      Usable (s.allocated p kind) → Q p (s.allocated p kind)) :
    Sat (fun s => P s ∧ Usable s) (kmalloc env size kind) Q nowhere := by
  refine .runs fun s hs => ⟨env.kmalloc s.kmallocs s.blocks size,
    s.allocated (env.kmalloc s.kmallocs s.blocks size) kind,
    kmalloc_run env size kind hs.2.unlocked, h s _ hs.1 rfl (hg _ _ _) ?_ (hs.2.allocated _ _)⟩
  rw [allocated_of_ne (hg _ _ _)]
  exact List.mem_cons_self

/-- An inode that can be read is copied. -/
theorem fetch_inode_run (h : Readable env t m n) (hp : p ≠ 0) (hlive : (p, .inode) ∈ t.blocks) :
    fetch_inode env n m p t =
      (.ok SUCCESS, (t.asked (t.inodeRequest m n)).copied p (env.inodeBytes t m n)) := by
  have hret : ¬ (env.inodeReply t m n).ret < 0 := Int.not_lt.2 (h.answered _ _ _)
  have hlen : (env.inodeBytes t m n).length ≤ 128 := by
    rw [inodeBytes_length h.serves.small]
    exact h.small
  have hsource : inode_source env n m t = _ := inode_source_run h.mounted h.serves
  rw [if_neg hret] at hsource
  rw [fetch_inode_eq, bind_of_ok hsource, copy_inode]
  refine bind_of_ok (a := ()) ?_
  unfold store_inode
  rw [bind_of_ok (get_apply _), if_neg hp]
  exact congrFun (if_pos (And.intro hlive hlen)) _

/-- An assertion that holds. -/
theorem assert_holds {x : Prog Vfs Bool} (hx : x s = (.ok true, s)) : assert env x s = (.ok (), s) := by
  unfold assert
  split
  · exact bind_of_ok hx
  · rfl

/-- One that holds at the end of what it evaluates. -/
theorem assert_works {Q : Vfs → Prop} {x : Prog Vfs Bool} (hx : Sat P x (fun b t => b = true ∧ Q t) nowhere)
    (hP : ∀ t, P t → Q t) : Sat P (assert env x) (fun _ => Q) nowhere := by
  refine .ite (fun _ => .bind hx fun b => ?_) fun _ => .pure hP
  refine .ite (fun _ => .pure fun t h => h.2) fun hb => ?_
  exact fun t h => absurd h.1 hb

/-! ## The inode of an entry -/

/-- In every state that satisfies `F` the inode of an entry that has `v` from its record can be read. -/
structure Reads (env : Env) (F : Vfs → Prop) (v : DirentryStruct) : Prop where
  parent : v.parent ≠ 0
  inode : ∀ t, F t → Readable env t (t.dirs v.parent).fs_info v.inode_no

/-- The entry has memory for its inode. -/
theorem alloc_inode_works (hg : env.Generous) (hF : Apart e F) (he : e ≠ 0) :
    Sat (fun t => Holding F e v t ∧ Usable t) (alloc_inode env e)
      (fun _ t => (Holding F e v t ∧ Usable t) ∧ (t.direntries e).payload ≠ 0) nowhere := by
  refine .bind (Q := fun d t => d = t.direntries e ∧ Holding F e v t ∧ Usable t)
    (.runs fun t h => ⟨_, t, load_direntry_run he t, rfl, h⟩) fun d => .ite (fun hd => ?_) fun hd => ?_
  · refine .bind (Q := fun p t => (Holding F e v t ∧ Usable t) ∧ p ≠ 0 ∧ (p, .inode) ∈ t.blocks) ?_ fun p => ?_
    · refine (kmalloc_works (P := fun t => Holding F e v t) hg fun t p h _ hp hused hu =>
        ⟨⟨⟨hF.allocated t p h.1, ?_⟩, hu⟩, hp, hused⟩).pre
        fun t h => h.2
      rw [allocated_direntries]
      exact h.2
    · refine .runs fun t h => ⟨(), _, store_direntry_run he _ t, ⟨h.1.1.entry hF ⟨rfl, rfl, rfl, rfl⟩, ?_⟩, ?_⟩
      · exact h.1.2.store (.inr h.2.2)
      · dsimp only
        rw [Function.update_self]
        exact h.2.1
  · refine .pure ?_
    rintro t ⟨rfl, h⟩
    exact ⟨h, hd⟩

/-- Its inode is read. -/
theorem direntry_get_inode_works (hg : env.Generous) (hF : Apart e F) (he : e ≠ 0) (hread : Reads env F v) :
    Sat (fun t => Holding F e v t ∧ Usable t) (direntry_get_inode env e)
      (fun p t => (p ≠ 0 ∧ (p, .inode) ∈ t.blocks) ∧ Holding F e v t ∧ Usable t) nowhere := by
  refine .bind (alloc_inode_works hg hF he) fun _ => ?_
  refine .bind (Q := fun d t => d = t.direntries e ∧ (Holding F e v t ∧ Usable t) ∧ (t.direntries e).payload ≠ 0)
    (.runs fun t h => ⟨_, t, load_direntry_run he t, rfl, h⟩) fun d => ?_
  refine .bind (Q := fun q t => q = t.dirs d.parent ∧ d = t.direntries e ∧ (Holding F e v t ∧ Usable t) ∧
    (t.direntries e).payload ≠ 0)
    (.runs fun t h => ⟨t.dirs d.parent, t, load_dir_run ?_ t, rfl, h⟩) fun q => ?_
  · obtain ⟨rfl, h, -⟩ := h
    rw [h.1.2.parent]
    exact hread.parent
  refine .bind (Q := fun r t => r = SUCCESS ∧ (d.payload ≠ 0 ∧ (d.payload, .inode) ∈ t.blocks) ∧ Holding F e v t ∧
    Usable t)
    (.runs ?_) fun r => .fact fun hr => ?_
  · rintro t ⟨rfl, rfl, h, hp⟩
    have hlive : ((t.direntries e).payload, .inode) ∈ t.blocks := (h.2.payloads e).resolve_left hp
    have hinode := hread.inode t h.1.1
    rw [← h.1.2.parent, ← h.1.2.inode_no] at hinode
    refine ⟨_, _, fetch_inode_run hinode hp hlive, rfl, ⟨hp, hlive⟩, ⟨?_, h.1.2⟩, (h.2.asked _).copied _ _⟩
    exact hF.copied _ _ _ (hF.asked t _ h.1.1)
  · subst hr
    exact .ite (fun h => absurd h (by decide)) fun _ => .pure fun t h => h

/-- Its data is there. -/
theorem get_direntry_works (hg : env.Generous) (hF : Apart e F) (he : e ≠ 0) (hread : Reads env F v) :
    Sat (fun t => Holding F e v t ∧ Usable t) (get_direntry env e) (fun r t => r = 0 ∧ Usable t) nowhere := by
  refine .bind (Q := fun _ t => Holding F e v t ∧ Usable t)
    (.runs fun t h => ⟨_, t, assert_run env (decide_eq_true he) t, h⟩) fun _ => ?_
  refine .bind (Q := fun _ t => Holding F e v t ∧ Usable t) (.runs fun t h => ⟨_, t, assert_holds ?_, h⟩) fun _ => ?_
  · have hparent : (t.direntries e).parent ≠ 0 := by
      rw [h.1.2.parent]
      exact hread.parent
    have hinfo : (t.dirs (t.direntries e).parent).fs_info ≠ 0 := by
      rw [h.1.2.parent]
      exact (hread.inode t h.1.1).mounted.mnt_info
    rw [bind_of_ok (load_direntry_run he t), bind_of_ok (load_dir_run hparent t), decide_eq_true hinfo]
    rfl
  refine .bind (direntry_get_inode_works hg hF he hread) fun p => ?_
  refine .ite (fun hp => fun t h => absurd hp h.1.1) fun hp => ?_
  refine .bind (Q := fun _ => Usable) (.runs fun t h => ⟨_, t, load_inode_run hp h.1.2, h.2.2⟩) fun i => ?_
  refine .bind (Q := fun _ => Usable) (.runs fun t h => ⟨(), _, store_direntry_run he _ t, h.store (h.payloads e)⟩)
    fun _ => ?_
  exact .pure fun t h => ⟨rfl, h⟩

end

/-! ## One record -/

section
variable {env : Env} {s t : Vfs} {dir x e i : Nat} {v : DirentryStruct} {blk : List UInt8} {file_type : Nat}

/-- The pointers from `dir` that are followed for its entries. -/
structure Linked (s : Vfs) (dir : Nat) : Prop where
  own : dir ≠ 0
  parent : (s.dirs dir).parent ≠ 0
  dir_entry : (s.dirs dir).dir_entry ≠ 0
  parent_entry : (s.dirs (s.dirs dir).parent).dir_entry ≠ 0

theorem Grown.dir_entry (h : Grown s dir x t) {d : Nat} (hd : (d, .dir) ∈ s.blocks) :
    (t.dirs d).dir_entry = (s.dirs d).dir_entry := by
  by_cases hne : d = dir
  · rw [hne, h.dir]
  · rw [h.dirs d hd hne]

/-- The directory of an entry is set. -/
theorem set_directory_works (hg : env.Generous) (ha : Anchored s dir) (hl : Linked s dir) (he : e ≠ 0)
    (file_type : Nat) :
    Sat (fun t => Grown s dir x t ∧ Usable t) (set_directory env dir e file_type) (fun _ => Usable) nowhere := by
  refine .ite (fun hft => ?_) fun hft => .pure fun t h => h.2
  refine .bind (Q := fun _ t => Grown s dir x t ∧ Usable t) (.runs fun t h => ⟨_, t, load_direntry_run he t, h⟩)
    fun v => ?_
  refine .bind (Q := fun d t => d = t.dirs dir ∧ Grown s dir x t ∧ Usable t)
    (.runs fun t h => ⟨_, t, load_dir_run hl.own t, rfl, h⟩) fun d => ?_
  -- the payload of another entry is shared
  have hshare : ∀ (y q : Nat), y ≠ 0 → Sat (fun t => Grown s dir x t ∧ Usable t) (do
      let payload := (← load_direntry y).payload
      store_direntry e fun e => { e with directory := q, payload := payload }) (fun _ => Usable) nowhere := by
    intro y q hy
    refine .bind (Q := fun w t => w = t.direntries y ∧ Usable t)
      (.runs fun t h => ⟨_, t, load_direntry_run hy t, rfl, h.2⟩) fun w => ?_
    refine .runs fun t h => ⟨(), _, store_direntry_run he _ t, h.2.store ?_⟩
    rw [h.1]
    exact h.2.payloads y
  refine .ite (fun _ => ?_) fun _ => ?_
  · intro t h
    obtain ⟨rfl, h⟩ := h
    have hentry : (t.dirs dir).dir_entry ≠ 0 := by
      rw [h.1.dir_entry ha.own]
      exact hl.dir_entry
    exact hshare _ dir hentry t h
  refine .bind (Q := fun q t => (d.parent = (s.dirs dir).parent ∧ q = t.dirs d.parent) ∧ Grown s dir x t ∧ Usable t)
    (.runs fun t h => ⟨t.dirs d.parent, t, load_dir_run ?_ t, ⟨?_, rfl⟩, h.2⟩) fun parent => ?_
  · rw [h.1, h.2.1.dir]
    exact hl.parent
  · rw [h.1, h.2.1.dir]
  refine .ite (fun _ => ?_) fun _ => ?_
  · intro t h
    obtain ⟨⟨hparent, rfl⟩, h⟩ := h
    have hentry : (t.dirs d.parent).dir_entry ≠ 0 := by
      rw [hparent, h.1.dir_entry ha.parent]
      exact hl.parent_entry
    exact hshare _ d.parent hentry t h
  · refine .bind (Q := fun q t => q ≠ 0 ∧ Usable t) ?_ fun q => .fact fun hq => ?_
    · exact (kmalloc_works (P := fun _ => True) hg fun t p _ _ hp _ hu => ⟨hp, hu⟩).pre fun t h => ⟨trivial, h.2.2⟩
    refine .bind (Q := fun _ => Usable) (.runs fun t h => ⟨(), _, store_direntry_run he _ t,
      h.store (h.payloads e)⟩) fun _ => ?_
    exact .runs fun t h => ⟨(), _, store_dir_run hq _ t, h.store_dir _ _⟩

/-- The inode with this number can be read, whatever is added to `dir`. -/
def ReadsOf (env : Env) (s : Vfs) (dir n : Nat) : Prop :=
  ∀ x t, Grown s dir x t → Readable env t (s.dirs dir).fs_info n

/-- A record in use becomes an entry. -/
theorem load_record_works (hf : FreshBlocks env) (hg : env.Generous) (ha : Anchored s dir) (hl : Linked s dir)
    (hread : ReadsOf env s dir (recordAt blk i).inode) (hin : 8 + i + (recordAt blk i).name_len ≤ blk.length)
    (hu : Usable s) :
    Sat (fun t => t = s) (load_record env dir blk i) (fun ei t => (ei.1 ≠ 0 ∧ ei.2 = nextRecord blk i) ∧
      Usable t) nowhere := by
  rw [load_record_eq]
  refine .bind (Q := fun e t => (e ≠ 0 ∧ (e, .direntry) ∉ s.blocks) ∧
    (Grown s dir (s.dirs dir).entries t ∧ (e, .direntry) ∈ t.blocks) ∧ Usable t)
    ?_ fun e => .fact fun he => ?_
  · refine (kmalloc_works (P := fun t => t = s) hg ?_).pre fun t h => ⟨h, h ▸ hu⟩
    rintro _ p rfl rfl hp hused hu
    exact ⟨⟨hp, hf _ _ _ _ hp⟩, ⟨(Grown.refl _ dir).allocated _ _, hused⟩, hu⟩
  obtain ⟨he0, hfresh⟩ := he
  refine .ite (fun _ => ?_) fun h => absurd hin h
  refine .bind (Q := fun _ => Usable) ?_ fun _ => .pure fun t h => ⟨⟨he0, rfl⟩, h⟩
  refine .bind (Q := fun _ t => (∃ old : DirentryStruct, Holds s dir (s.dirs dir).entries e { old with
      name := overwrite old.name (nameAt blk i ++ [0]),
      inode_no := (recordAt blk i).inode, parent := dir, directory := 0 } t) ∧ Usable t)
    (.runs fun t h => ⟨(), _, store_direntry_run he0 _ t, ⟨t.direntries e, h.1.1.store hfresh _, h.1.2,
      Function.update_self ..⟩,
      h.2.store (h.2.payloads e)⟩) fun _ => ?_
  refine .bind (Q := fun _ t => (∃ old : DirentryStruct, Directed s dir (s.dirs dir).entries e
    (recordAt blk i).file_type { old with
      name := overwrite old.name (nameAt blk i ++ [0]),
      inode_no := (recordAt blk i).inode, parent := dir, directory := 0 } t) ∧ Usable t)
    ?_ fun _ => ?_
  · rintro t ⟨⟨old, hold⟩, hu⟩
    have hmade := (set_directory_made hf ha hfresh rfl : Sat _
        (set_directory env dir e (recordAt blk i).file_type) _ _) t hold
    have hworks := set_directory_works hg ha hl he0 (recordAt blk i).file_type t ⟨hold.1, hu⟩
    exact ⟨fun a u hrun => ⟨⟨old, hmade.1 a u hrun⟩, hworks.1 a u hrun⟩, fun f u hrun => hworks.2 f u hrun⟩
  refine assert_works ?_ fun t h => h.2
  rintro t ⟨⟨old, d, hold⟩, hu⟩
  have hreads : Reads env (Situated s dir (s.dirs dir).entries e (recordAt blk i).file_type (recordAt blk i).inode d)
      { old with
        name := overwrite old.name (nameAt blk i ++ [0]),
        inode_no := (recordAt blk i).inode, parent := dir, directory := d } := by
    refine ⟨hl.own, fun u h => ?_⟩
    have hinfo : (u.dirs dir).fs_info = (s.dirs dir).fs_info := by rw [h.1.dir]
    dsimp only
    rw [hinfo]
    exact hread _ u h.1
  have hworks := get_direntry_works hg (situated_apart hfresh) he0 hreads
  refine (Sat.bind hworks fun r => ?_ : Sat _ _ (fun b t => b = true ∧ Usable t) nowhere) t ⟨hold, hu⟩
  refine .pure ?_
  rintro t ⟨rfl, h⟩
  exact ⟨rfl, h⟩

end

/-! ## All records -/

/-- The records `is` fill the block from `i` to its end, each with room for its header and its name. -/
inductive Tiles (blk : List UInt8) : Nat → List Nat → Prop
  | done : Tiles blk blk.length []
  | record {i : Nat} {is : List Nat} : (recordAt blk i).rec_len % 4 = 0 →
      8 + (recordAt blk i).name_len ≤ (recordAt blk i).rec_len →
      Tiles blk (i + (recordAt blk i).rec_len) is → Tiles blk i (i :: is)

namespace Tiles

variable {blk : List UInt8} {i : Nat} {is : List Nat}

theorem room (h : Tiles blk i is) : i + 8 * is.length ≤ blk.length := by
  induction h with
  | done => simp
  | record h4 hlen rest ih =>
    rw [List.length_cons]
    omega

/-- The loop comes to the records as they lie in the block. -/
theorem walk (h : Tiles blk i is) (hi : i % 4 = 0) : Walk blk i is := by
  induction h with
  | done => exact .stop le_rfl
  | @record i is h4 hlen rest ih =>
    have hnext : nextRecord blk i = i + (recordAt blk i).rec_len := align4_of_mod (by omega)
    have hroom := rest.room
    refine .record (by omega) ?_
    rw [hnext]
    exact ih (by omega)

end Tiles

/-- Where `last_next_ptr` points to is in `dir`, or in an entry that was not there before. -/
def NextPtr.Outside (s : Vfs) (dir : Nat) : NextPtr → Prop
  | .entries d => d = dir
  | .next e => e ≠ 0 ∧ (e, .direntry) ∉ s.blocks

section
variable {env : Env} {s t : Vfs} {dir x e f i inode : Nat} {blk : List UInt8} {is : List Nat} {last : NextPtr}

theorem NextPtr.Outside.store_works (ho : last.Outside s dir) (hd : dir ≠ 0) (p : Nat) :
    Sat (fun t => (∃ x, Grown s dir x t) ∧ Usable t) (last.store p)
      (fun _ t => (∃ x, Grown s dir x t) ∧ Usable t) nowhere := by
  cases last with
  | entries d =>
    obtain rfl : d = dir := ho
    refine .runs fun t h => ⟨(), _, store_dir_run hd (fun d => { d with entries := p }) t, ?_, h.2.store_dir _ _⟩
    obtain ⟨x, hx⟩ := h.1
    exact ⟨p, hx.start p⟩
  | next e =>
    refine .runs fun t h => ⟨(), _, store_direntry_run ho.1 (fun e => { e with next := p }) t, ?_,
      h.2.store (h.2.payloads e)⟩
    obtain ⟨x, hx⟩ := h.1
    exact ⟨x, hx.store ho.2 _⟩

theorem Grown.linked (h : Grown s dir x t) (ha : Anchored s dir) (hl : Linked s dir) : Linked t dir := by
  have hparent : (t.dirs dir).parent = (s.dirs dir).parent := by rw [h.dir]
  refine ⟨hl.own, ?_, ?_, ?_⟩
  · rw [hparent]
    exact hl.parent
  · rw [h.dir_entry ha.own]
    exact hl.dir_entry
  · rw [hparent, h.dir_entry ha.parent]
    exact hl.parent_entry

theorem ReadsOf.later {n : Nat} (h : ReadsOf env s dir n) (hg : Grown s dir x t) : ReadsOf env t dir n := by
  intro y u hu
  have hinfo : (t.dirs dir).fs_info = (s.dirs dir).fs_info := by rw [hg.dir]
  rw [hinfo]
  exact h y u (hg.trans hu)

/-- Records that fill the block, all of them in use, are gone through to the end. -/
theorem loop_works (hf : FreshBlocks env) (hg : env.Generous) (ha : Anchored s dir) (hl : Linked s dir) (hf0 : f ≠ 0)
    (hbs : (s.fsinfos f).block_size = blk.length) (htiles : Tiles blk i is) :
    i % 4 = 0 → (∀ j ∈ is, ReadsOf env s dir (recordAt blk j).inode) → ∀ (fuel block : Nat) (last : NextPtr),
      is.length < fuel → last.Outside s dir →
      Sat (fun t => (∃ x, Grown s dir x t) ∧ Usable t)
        (ext2_get_direntries_loop env dir f inode fuel i false block blk last)
        (fun r t => r = SUCCESS ∧ Usable t) nowhere := by
  induction htiles with
  | done =>
    intro _ _ fuel block last hfuel ho
    obtain ⟨fuel, rfl⟩ : ∃ k, fuel = k + 1 := ⟨fuel - 1, by omega⟩
    refine .bind (Q := fun fs t => fs.block_size = blk.length ∧ (∃ x, Grown s dir x t) ∧ Usable t)
      (.runs fun t h => ⟨_, t, load_fsinfo_run hf0 t, ?_, h⟩) fun fs => .fact fun hfs => ?_
    · obtain ⟨x, hx⟩ := h.1
      rw [hx.fsinfos, hbs]
    rw [hfs, if_neg (Nat.lt_irrefl _)]
    exact .bind (ho.store_works hl.own 0) fun _ => .pure fun _ h => ⟨rfl, h.2⟩
  | @record i is h4 hlen rest ih =>
    intro hi hreads fuel block last hfuel ho
    obtain ⟨fuel, rfl⟩ : ∃ k, fuel = k + 1 := ⟨fuel - 1, by omega⟩
    have hroom := rest.room
    have hnext : nextRecord blk i = i + (recordAt blk i).rec_len := align4_of_mod (by omega)
    refine .bind (Q := fun fs t => fs.block_size = blk.length ∧ (∃ x, Grown s dir x t) ∧ Usable t)
      (.runs fun t h => ⟨_, t, load_fsinfo_run hf0 t, ?_, h⟩) fun fs => .fact fun hfs => ?_
    · obtain ⟨x, hx⟩ := h.1
      rw [hx.fsinfos, hbs]
    rw [hfs, if_pos (by omega), next_block_old, pure_bind]
    refine .bind (Q := fun ei t => (ei.2 = nextRecord blk i ∧ (NextPtr.next ei.1).Outside s dir) ∧
      (∃ x, Grown s dir x t) ∧ Usable t) ?_ fun ei => .fact fun hei => ?_
    · -- the record becomes an entry, and is known to be made in new memory
      rintro t ⟨⟨x, hx⟩, hu⟩
      have hread := (hreads i (List.mem_cons_self ..)).later hx
      have hworks := load_record_works hf hg (hx.anchored ha) (hx.linked ha hl) hread (by omega) hu t rfl
      have hmade : Sat (fun t' => t' = t) (load_record env dir blk i) _ stopped := load_record_made hf (hx.anchored ha)
      refine ⟨fun ei u hrun => ?_, hworks.2⟩
      obtain ⟨⟨he, hei⟩, hu'⟩ := hworks.1 ei u hrun
      obtain ⟨hg', hm, -⟩ := hmade.of_run hrun
      exact ⟨⟨hei, he, fun hmem => hm.fresh (hx.blocks _ _ (by decide) hmem)⟩, ⟨_, hx.trans hg'⟩, hu'⟩
    refine .bind (ho.store_works hl.own _) fun _ => ?_
    rw [hei.1, hnext]
    refine ih (by omega) (fun j hj => hreads j (List.mem_cons_of_mem _ hj)) fuel _ _ ?_ hei.2
    rw [List.length_cons] at hfuel
    omega

end

end Ulmix.Fs

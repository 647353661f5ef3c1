import Ulmix.Fs.Records
/-!
# The entries a load makes

Each round of the loop of `ext2_get_direntries` makes one entry out of one
record, in memory that was free (`load_record_made`). What was in use before is
left alone (`Grown`), so the entries made in earlier rounds stay what they are,
and at the end the list of the directory has one entry for each record, in the
order of the records (`load_made`).
-/
open Ulmix.Lib Ulmix.Lib.Prog

namespace Ulmix.Fs

/-! ## What is left alone -/

/-- All that was in use in `s` is in `t` as it was, but the list of `dir` starts at `x`. -/
structure Grown (s : Vfs) (dir x : Nat) (t : Vfs) : Prop where
  direntries : ∀ e, (e, .direntry) ∈ s.blocks → t.direntries e = s.direntries e
  dirs : ∀ d, (d, .dir) ∈ s.blocks → d ≠ dir → t.dirs d = s.dirs d
  dir : t.dirs dir = { s.dirs dir with entries := x }
  mntps : t.mntps = s.mntps
  fsinfos : t.fsinfos = s.fsinfos
  gdts : t.gdts = s.gdts
  parts : t.parts = s.parts
  blocks : ∀ p kind, kind ≠ .inode → (p, kind) ∈ s.blocks → (p, kind) ∈ t.blocks

section
variable {s t u : Vfs} {dir x y e d : Nat}

theorem Grown.refl (s : Vfs) (dir : Nat) : Grown s dir (s.dirs dir).entries s :=
  ⟨fun _ _ => rfl, fun _ _ _ => rfl, rfl, rfl, rfl, rfl, rfl, fun _ _ _ h => h⟩

theorem Grown.trans (h : Grown s dir x t) (h' : Grown t dir y u) : Grown s dir y u where
  direntries e he := (h'.direntries e (h.blocks _ _ (by decide) he)).trans (h.direntries e he)
  dirs d hd hne := (h'.dirs d (h.blocks _ _ (by decide) hd) hne).trans (h.dirs d hd hne)
  dir := by rw [h'.dir, h.dir]
  mntps := h'.mntps.trans h.mntps
  fsinfos := h'.fsinfos.trans h.fsinfos
  gdts := h'.gdts.trans h.gdts
  parts := h'.parts.trans h.parts
  blocks p kind hk hp := h'.blocks p kind hk (h.blocks p kind hk hp)

theorem Grown.inode_no (h : Grown s dir x t) (hd : (d, .dir) ∈ s.blocks) :
    (t.dirs d).inode_no = (s.dirs d).inode_no := by
  by_cases hne : d = dir
  · rw [hne, h.dir]
  · rw [h.dirs d hd hne]

theorem Grown.sameVolumes (h : Grown s dir x t) : SameVolumes s t := ⟨h.mntps, h.fsinfos, h.gdts, h.parts⟩

theorem Grown.store (h : Grown s dir x t) (he : (e, .direntry) ∉ s.blocks) (v : DirentryStruct) :
    Grown s dir x { t with direntries := Function.update t.direntries e v } where
  direntries e' he' := by
    have hne : e' ≠ e := fun heq => he (heq ▸ he')
    dsimp only
    rw [Function.update_of_ne hne]
    exact h.direntries e' he'
  dirs := h.dirs
  dir := h.dir
  mntps := h.mntps
  fsinfos := h.fsinfos
  gdts := h.gdts
  parts := h.parts
  blocks := h.blocks

theorem Grown.store_dir (h : Grown s dir x t) (hdir : (dir, .dir) ∈ s.blocks) (hd : (d, .dir) ∉ s.blocks)
    (v : DirStruct) :
    Grown s dir x { t with dirs := Function.update t.dirs d v } where
  direntries := h.direntries
  dirs d' hd' hne := by
    have hdd : d' ≠ d := fun heq => hd (heq ▸ hd')
    dsimp only
    rw [Function.update_of_ne hdd]
    exact h.dirs d' hd' hne
  dir := by
    have hdd : dir ≠ d := fun heq => hd (heq ▸ hdir)
    dsimp only
    rw [Function.update_of_ne hdd]
    exact h.dir
  mntps := h.mntps
  fsinfos := h.fsinfos
  gdts := h.gdts
  parts := h.parts
  blocks := h.blocks

/-- The list gets another start. -/
theorem Grown.start (h : Grown s dir x t) (y : Nat) :
    Grown s dir y { t with dirs := Function.update t.dirs dir { t.dirs dir with entries := y } } where
  direntries := h.direntries
  dirs d hd hne := by
    dsimp only
    rw [Function.update_of_ne hne]
    exact h.dirs d hd hne
  dir := by
    dsimp only
    rw [Function.update_self, h.dir]
  mntps := h.mntps
  fsinfos := h.fsinfos
  gdts := h.gdts
  parts := h.parts
  blocks := h.blocks

theorem Grown.allocated (h : Grown s dir x t) (p : Nat) (kind : Kind) : Grown s dir x (t.allocated p kind) where
  direntries := by simpa using h.direntries
  dirs := by simpa using h.dirs
  dir := by simpa using h.dir
  mntps := by simpa using h.mntps
  fsinfos := by simpa using h.fsinfos
  gdts := by simpa using h.gdts
  parts := by simpa using h.parts
  blocks q k hk hq := mem_allocated (h.blocks q k hk hq)

theorem Grown.freed (h : Grown s dir x t) (p : Nat) :
    Grown s dir x { t with blocks := t.blocks.erase (p, .inode) } where
  direntries := h.direntries
  dirs := h.dirs
  dir := h.dir
  mntps := h.mntps
  fsinfos := h.fsinfos
  gdts := h.gdts
  parts := h.parts
  blocks q k hk hq := (List.mem_erase_of_ne (by simp [hk])).2 (h.blocks q k hk hq)

theorem Grown.asked (h : Grown s dir x t) (q : Request) : Grown s dir x (t.asked q) :=
  ⟨h.direntries, h.dirs, h.dir, h.mntps, h.fsinfos, h.gdts, h.parts, h.blocks⟩

theorem Grown.copied (h : Grown s dir x t) (p : Nat) (bytes : List UInt8) : Grown s dir x (t.copied p bytes) :=
  ⟨h.direntries, h.dirs, h.dir, h.mntps, h.fsinfos, h.gdts, h.parts, h.blocks⟩

theorem Grown.locked (h : Grown s dir x t) : Grown s dir x { t with heap_locked := true } :=
  ⟨h.direntries, h.dirs, h.dir, h.mntps, h.fsinfos, h.gdts, h.parts, h.blocks⟩

end

/-! ## The inode of an entry -/

/-- `F` does not speak of the entry `e`, of inodes and of what the devices were asked. -/
structure Apart (e : Nat) (F : Vfs → Prop) : Prop where
  copied : ∀ s p bytes, F s → F (s.copied p bytes)
  allocated : ∀ s p, F s → F (s.allocated p .inode)
  freed : ∀ s p, F s → F { s with blocks := s.blocks.erase (p, .inode) }
  locked : ∀ s, F s → F { s with heap_locked := true }
  asked : ∀ s q, F s → F (s.asked q)
  entry : ∀ s v, F s → F { s with direntries := Function.update s.direntries e v }

/-- What is known of directories and filesystems. -/
theorem sameDirs_apart (s : Vfs) (e : Nat) : Apart e fun t => t.dirs = s.dirs ∧ SameVolumes s t where
  copied _ _ _ h := ⟨h.1, h.2.1, h.2.2, h.2.3, h.2.4⟩
  allocated t p h := by
    refine ⟨by simpa using h.1, ?_, ?_, ?_, ?_⟩
    · simpa using h.2.mntps
    · simpa using h.2.fsinfos
    · simpa using h.2.gdts
    · simpa using h.2.parts
  freed _ _ h := ⟨h.1, h.2.1, h.2.2, h.2.3, h.2.4⟩
  locked _ h := ⟨h.1, h.2.1, h.2.2, h.2.3, h.2.4⟩
  asked _ _ h := ⟨h.1, h.2.1, h.2.2, h.2.3, h.2.4⟩
  entry _ _ h := ⟨h.1, h.2.1, h.2.2, h.2.3, h.2.4⟩

/-- What an entry has from its record. -/
structure SameRecord (v w : DirentryStruct) : Prop where
  name : w.name = v.name
  inode_no : w.inode_no = v.inode_no
  parent : w.parent = v.parent
  directory : w.directory = v.directory

theorem SameRecord.trans {v w x : DirentryStruct} (h : SameRecord v w) (h' : SameRecord w x) : SameRecord v x :=
  ⟨h'.name.trans h.name, h'.inode_no.trans h.inode_no, h'.parent.trans h.parent, h'.directory.trans h.directory⟩

/-- `bytes` were read for inode `n` of the filesystem of `parent` in a state that satisfies `F`, over older ones. -/
def ReadAs (env : Env) (F : Vfs → Prop) (parent n : Nat) (bytes : List UInt8) : Prop :=
  ∃ u old, F u ∧ 0 ≤ (env.inodeReply u (u.dirs parent).fs_info n).ret ∧
    bytes = overwrite old (env.inodeBytes u (u.dirs parent).fs_info n)

/-- The entry has its mode, type, size and blocks from an inode that was read so. -/
def Described (env : Env) (F : Vfs → Prop) (parent n : Nat) (w : DirentryStruct) : Prop :=
  ∃ bytes, ReadAs env F parent n bytes ∧ w.mode = i_mode bytes ∧ w.type = i_mode bytes &&& 0xf000 ∧
    w.size = i_size bytes ∧ w.blocks = i_blocks bytes

theorem Described.mono {env : Env} {F G : Vfs → Prop} (hFG : ∀ u, F u → G u) {parent n : Nat} {w : DirentryStruct}
    (h : Described env F parent n w) : Described env G parent n w := by
  obtain ⟨bytes, ⟨u, old, hu, hread⟩, hw⟩ := h
  exact ⟨bytes, ⟨u, old, hFG u hu, hread⟩, hw⟩

section
variable {env : Env} {e : Nat} {F : Vfs → Prop} {v : DirentryStruct}

/-- `F` holds, and the entry `e` has from its record what `v` has. -/
def Holding (F : Vfs → Prop) (e : Nat) (v : DirentryStruct) (s : Vfs) : Prop := F s ∧ SameRecord v (s.direntries e)

theorem Holding.entry (hF : Apart e F) {s : Vfs} (h : Holding F e v s) {w : DirentryStruct}
    (hw : SameRecord (s.direntries e) w) : Holding F e v { s with direntries := Function.update s.direntries e w } := by
  refine ⟨hF.entry s w h.1, ?_⟩
  dsimp only
  rw [Function.update_self]
  exact h.2.trans hw

theorem direntry_get_inode_reads (hF : Apart e F) :
    Sat (Holding F e v) (direntry_get_inode env e)
      (fun p s => Holding F e v s ∧ (p ≠ 0 → ReadAs env F v.parent v.inode_no (s.inodes p))) stopped := by
  refine .bind (Q := fun _ => Holding F e v) (alloc_inode_sat ?_ ?_ any_stopped) fun _ => ?_
  · exact fun _ h _ _ => h
  · intro s h _ _
    have halloc : Holding F e v (s.allocated (env.kmalloc s.kmallocs s.blocks 128) .inode) := by
      refine ⟨hF.allocated s _ h.1, ?_⟩
      rw [allocated_direntries]
      exact h.2
    have := halloc.entry hF (w := { s.direntries e with payload := env.kmalloc s.kmallocs s.blocks 128 })
      (by rw [allocated_direntries]; exact ⟨rfl, rfl, rfl, rfl⟩)
    rwa [allocated_direntries] at this
  refine .bind (load_direntry_sat any_stopped) fun d => ?_
  refine .bind (load_dir_sat any_stopped) fun dir => ?_
  refine .bind (Q := fun error s => Holding F e v s ∧
    (¬ error < 0 → ReadAs env F v.parent v.inode_no (s.inodes d.payload))) (fetch_inode_sat ?_ ?_ ?_ any_stopped ?_)
      fun error => ?_
  · exact fun s h _ => ⟨h.2.2.2.2, fun hn => absurd (by decide) hn⟩
  · rintro s ⟨-, -, -, -, h⟩ - hr
    exact ⟨⟨hF.asked s _ h.1, h.2⟩, fun hn => absurd hr hn⟩
  · rintro s ⟨-, rfl, -, rfl, h⟩ - hr - - -
    refine ⟨⟨hF.copied _ _ _ (hF.asked s _ h.1), h.2⟩, fun _ => ?_⟩
    rw [h.2.inode_no, h.2.parent] at hr ⊢
    exact ⟨s, s.inodes (s.direntries e).payload, h.1, hr, Function.update_self ..⟩
  · exact fun _ _ _ _ => trivial
  refine .ite (fun _ => ?_) fun hn => .pure fun _ h => ⟨h.1, fun _ => h.2 hn⟩
  refine .bind (Q := fun _ => Holding F e v) (kfree_sat ?_ ?_ any_stopped) fun _ => ?_
  · exact fun s h _ _ => ⟨hF.locked s h.1.1, h.1.2⟩
  · exact fun s h _ _ _ => ⟨hF.freed s _ h.1.1, h.1.2⟩
  refine .bind (Q := fun _ => Holding F e v) (store_direntry_sat ?_ any_stopped) fun _ => ?_
  · exact fun s h _ => h.entry hF ⟨rfl, rfl, rfl, rfl⟩
  · exact .pure fun _ h => ⟨h, fun h0 => absurd rfl h0⟩

/-- What `get_direntry` says of an entry without an error it has from its inode. -/
theorem get_direntry_describes (hF : Apart e F) :
    Sat (Holding F e v) (get_direntry env e)
      (fun r s => Holding F e v s ∧ (0 ≤ r → Described env F v.parent v.inode_no (s.direntries e))) stopped := by
  refine .bind (assert_keeps (.pure fun _ h => h) any_stopped) fun _ => ?_
  refine .bind (assert_keeps ?_ any_stopped) fun _ => ?_
  · refine .bind ((load_direntry_sat any_stopped).post fun _ _ h => h.2.2) fun _ => ?_
    exact .bind ((load_dir_sat any_stopped).post fun _ _ h => h.2.2) fun _ => .pure fun _ h => h
  refine .bind (direntry_get_inode_reads hF) fun inode => ?_
  refine .ite (fun _ => .pure fun _ h => ⟨h.1, fun hr => absurd hr (by decide)⟩) fun hi => ?_
  refine .bind (load_inode_sat any_stopped) fun bytes => ?_
  refine .bind (Q := fun _ s => Holding F e v s ∧ Described env F v.parent v.inode_no (s.direntries e))
    (store_direntry_sat ?_ any_stopped) fun _ => .pure fun _ h => ⟨h.1, fun _ => h.2⟩
  rintro s ⟨⟨-, -, rfl⟩, h, hread⟩ -
  refine ⟨h.entry hF ⟨rfl, rfl, rfl, rfl⟩, s.inodes inode, hread hi, ?_⟩
  simp

/-- In the debug build this holds of every entry the loop goes on with. -/
theorem assert_describes (hF : Apart e F) :
    Sat (Holding F e v) (assert env do return (← get_direntry env e) ≥ 0)
      (fun _ s => Holding F e v s ∧ (env.debug = true → Described env F v.parent v.inode_no
        (s.direntries e))) stopped := by
  cases hd : env.debug with
  | false =>
    rw [assert_off hd]
    exact .pure fun _ h => ⟨h, fun hfalse => by cases hfalse⟩
  | true =>
    refine .mono (assert_sat (Q := fun holds s => Holding F e v s ∧
      (holds = true → Described env F v.parent v.inode_no (s.direntries e))) (fun _ => ?_) fun _ => any_stopped)
      (fun _ h => h) (fun _ s h => ?_) any_stopped
    · refine .bind (get_direntry_describes hF) fun r => .pure fun s h => ⟨h.1, fun hr => h.2 (of_decide_eq_true hr)⟩
    · rw [if_pos hd] at h
      exact ⟨h.1, fun _ => h.2 rfl⟩

end

/-! ## One record -/

/-- The directory `d` of an entry of `dir` with the number `n`, in `t`: none, `dir` itself, its
parent, or a new one. -/
def DirectoryFor (s : Vfs) (dir file_type n e d : Nat) (t : Vfs) : Prop :=
  if file_type ≠ 2 then d = 0
  else if n = (s.dirs dir).inode_no then d = dir
  else if n = (s.dirs (s.dirs dir).parent).inode_no then d = (s.dirs dir).parent
  else d ≠ 0 ∧ (d, .dir) ∉ s.blocks ∧ (d, .dir) ∈ t.blocks ∧
    t.dirs d = ⟨n, (s.dirs dir).fs_info, (s.dirs dir).mnt_point, dir, e, 0⟩

/-- The entry `e`, made in `t` out of the record at `i` while the entries of `dir` are loaded. -/
structure Made (env : Env) (s : Vfs) (dir : Nat) (blk : List UInt8) (t : Vfs) (e i : Nat) : Prop where
  pointer : e ≠ 0
  fresh : (e, .direntry) ∉ s.blocks
  used : (e, .direntry) ∈ t.blocks
  name : ∃ old, (t.direntries e).name = overwrite old (nameAt blk i ++ [0])
  inode_no : (t.direntries e).inode_no = (recordAt blk i).inode
  parent : (t.direntries e).parent = dir
  directory : DirectoryFor s dir (recordAt blk i).file_type (recordAt blk i).inode e (t.direntries e).directory t
  described : env.debug = true →
    Described env (fun u => ∃ x, Grown s dir x u) dir (recordAt blk i).inode (t.direntries e)

/-- The directory and its parent are in use. -/
structure Anchored (s : Vfs) (dir : Nat) : Prop where
  own : (dir, .dir) ∈ s.blocks
  parent : ((s.dirs dir).parent, .dir) ∈ s.blocks

section
variable {env : Env} {s t u : Vfs} {dir x y e d i n file_type : Nat} {blk : List UInt8} {v : DirentryStruct}

theorem Grown.anchored (h : Grown s dir x t) (ha : Anchored s dir) : Anchored t dir := by
  refine ⟨h.blocks _ _ (by decide) ha.own, ?_⟩
  rw [h.dir]
  exact h.blocks _ _ (by decide) ha.parent

theorem DirectoryFor.start (hg : Grown s dir x t) (ha : Anchored s dir) (h : DirectoryFor t dir file_type n e d u) :
    DirectoryFor s dir file_type n e d u := by
  have hself : (t.dirs dir).inode_no = (s.dirs dir).inode_no := hg.inode_no ha.own
  have hparent : (t.dirs dir).parent = (s.dirs dir).parent := by rw [hg.dir]
  have hup : (t.dirs (t.dirs dir).parent).inode_no = (s.dirs (s.dirs dir).parent).inode_no := by
    rw [hparent, hg.inode_no ha.parent]
  have hinfo : (t.dirs dir).fs_info = (s.dirs dir).fs_info := by rw [hg.dir]
  have hmnt : (t.dirs dir).mnt_point = (s.dirs dir).mnt_point := by rw [hg.dir]
  unfold DirectoryFor at h ⊢
  rw [hself, hup, hparent, hinfo, hmnt] at h
  by_cases hft : file_type ≠ 2
  · rwa [if_pos hft] at h ⊢
  rw [if_neg hft] at h ⊢
  by_cases hn : n = (s.dirs dir).inode_no
  · rwa [if_pos hn] at h ⊢
  rw [if_neg hn] at h ⊢
  by_cases hn' : n = (s.dirs (s.dirs dir).parent).inode_no
  · rwa [if_pos hn'] at h ⊢
  rw [if_neg hn'] at h ⊢
  exact ⟨h.1, fun hd => h.2.1 (hg.blocks _ _ (by decide) hd), h.2.2⟩

/-- Whatever leaves directories alone. -/
theorem DirectoryFor.congr (h : DirectoryFor s dir file_type n e d t)
    (hnew : (d, .dir) ∉ s.blocks → (d, .dir) ∈ t.blocks → (d, .dir) ∈ u.blocks ∧ u.dirs d = t.dirs d) :
    DirectoryFor s dir file_type n e d u := by
  unfold DirectoryFor at h ⊢
  by_cases hft : file_type ≠ 2
  · rwa [if_pos hft] at h ⊢
  rw [if_neg hft] at h ⊢
  by_cases hn : n = (s.dirs dir).inode_no
  · rwa [if_pos hn] at h ⊢
  rw [if_neg hn] at h ⊢
  by_cases hn' : n = (s.dirs (s.dirs dir).parent).inode_no
  · rwa [if_pos hn'] at h ⊢
  rw [if_neg hn'] at h ⊢
  obtain ⟨h0, hfresh, hused, hval⟩ := h
  obtain ⟨hused', hsame⟩ := hnew hfresh hused
  exact ⟨h0, hfresh, hused', hsame.trans hval⟩

theorem DirectoryFor.later (h : DirectoryFor s dir file_type n e d t) (ha : Anchored s dir) (hg : Grown t dir y u) :
    DirectoryFor s dir file_type n e d u :=
  h.congr fun hfresh hused =>
    ⟨hg.blocks _ _ (by decide) hused, hg.dirs d hused fun heq => hfresh (heq ▸ ha.own)⟩

theorem kmalloc_grown {size : Nat} {kind : Kind} (hf : FreshBlocks env) (hk : kind ≠ .inode) :
    Sat (Grown s dir x) (kmalloc env size kind)
      (fun p t => Grown s dir x t ∧ (p ≠ 0 → (p, kind) ∉ s.blocks ∧ (p, kind) ∈ t.blocks)) stopped := by
  refine kmalloc_sat (fun t h => ⟨h.allocated _ kind, fun hp => ⟨fun hmem => ?_, ?_⟩⟩) any_stopped
  · exact hf _ _ _ kind hp (h.blocks _ kind hk hmem)
  · rw [allocated_of_ne hp]
    exact List.mem_cons_self ..

/-- The new entry `e` of `dir` has the directory `d`. -/
def Situated (s : Vfs) (dir x e file_type n d : Nat) (t : Vfs) : Prop :=
  Grown s dir x t ∧ (e, .direntry) ∈ t.blocks ∧ DirectoryFor s dir file_type n e d t

theorem situated_apart (he : (e, .direntry) ∉ s.blocks) : Apart e (Situated s dir x e file_type n d) where
  copied t p bytes h := ⟨h.1.copied p bytes, h.2.1, h.2.2.congr fun _ hd => ⟨hd, rfl⟩⟩
  allocated t p h := by
    refine ⟨h.1.allocated p .inode, mem_allocated h.2.1, h.2.2.congr fun _ hd => ⟨mem_allocated hd, ?_⟩⟩
    rw [allocated_dirs]
  freed t p h := by
    refine ⟨h.1.freed p, (List.mem_erase_of_ne (by simp)).2 h.2.1, h.2.2.congr fun _ hd => ⟨?_, rfl⟩⟩
    exact (List.mem_erase_of_ne (by simp)).2 hd
  locked t h := ⟨h.1.locked, h.2.1, h.2.2.congr fun _ hd => ⟨hd, rfl⟩⟩
  asked t q h := ⟨h.1.asked q, h.2.1, h.2.2.congr fun _ hd => ⟨hd, rfl⟩⟩
  entry t v h := ⟨h.1.store he v, h.2.1, h.2.2.congr fun _ hd => ⟨hd, rfl⟩⟩

/-- The entry `e` is `v`. -/
def Holds (s : Vfs) (dir x e : Nat) (v : DirentryStruct) (t : Vfs) : Prop :=
  Grown s dir x t ∧ (e, .direntry) ∈ t.blocks ∧ t.direntries e = v

/-- The entry `e` has the directory it should have, and the rest from `v`. -/
def Directed (s : Vfs) (dir x e file_type : Nat) (v : DirentryStruct) (t : Vfs) : Prop :=
  ∃ d, Holding (Situated s dir x e file_type v.inode_no d) e { v with directory := d } t

/-- An entry is pointed to a directory that was there. -/
theorem Holds.directed (h : Holds s dir x e v t) (he : (e, .direntry) ∉ s.blocks) (p : Nat)
    (hd : ∀ t, DirectoryFor s dir file_type v.inode_no e d t) :
    Directed s dir x e file_type v { t with
      direntries := Function.update t.direntries e { t.direntries e with directory := d, payload := p } } := by
  obtain ⟨hg, hused, rfl⟩ := h
  refine ⟨d, ⟨hg.store he _, hused, hd _⟩, ?_⟩
  dsimp only
  rw [Function.update_self]
  exact ⟨rfl, rfl, rfl, rfl⟩

theorem set_directory_made (hf : FreshBlocks env) (ha : Anchored s dir) (he : (e, .direntry) ∉ s.blocks)
    (hv : v.directory = 0) :
    Sat (Holds s dir x e v) (set_directory env dir e file_type) (fun _ => Directed s dir x e file_type v) stopped := by
  refine .ite (fun hft => ?_) fun hft => .pure fun t h => ?_
  · refine .bind (Q := fun w t => w.inode_no = v.inode_no ∧ Holds s dir x e v t)
      ((load_direntry_sat any_stopped).post ?_) fun w => .fact fun hw => ?_
    · rintro _ t ⟨-, rfl, h⟩
      exact ⟨by rw [h.2.2], h⟩
    refine .bind (Q := fun d t => d = { s.dirs dir with entries := x } ∧ Holds s dir x e v t)
      ((load_dir_sat any_stopped).post ?_) fun d => .fact fun hd => ?_
    · rintro _ t ⟨-, rfl, h⟩
      exact ⟨h.1.dir, h⟩
    subst hd
    dsimp only
    rw [hw]
    have hft' : ¬ file_type ≠ 2 := not_not_intro hft
    refine .ite (fun hn => ?_) fun hn => ?_
    · refine .bind ((load_direntry_sat any_stopped).post fun _ _ h => h.2.2) fun own => ?_
      refine store_direntry_sat (fun t h _ => h.directed he own.payload fun t' => ?_) any_stopped
      rw [DirectoryFor, if_neg hft', if_pos hn]
    refine .bind (Q := fun parent t => parent.inode_no = (s.dirs (s.dirs dir).parent).inode_no ∧ Holds s dir x e v t)
      ((load_dir_sat any_stopped).post ?_) fun parent => .fact fun hparent => ?_
    · rintro _ t ⟨-, rfl, h⟩
      exact ⟨h.1.inode_no ha.parent, h⟩
    rw [hparent]
    refine .ite (fun hn' => ?_) fun hn' => ?_
    · refine .bind ((load_direntry_sat any_stopped).post fun _ _ h => h.2.2) fun own => ?_
      refine store_direntry_sat (fun t h _ => h.directed he own.payload fun t' => ?_) any_stopped
      rw [DirectoryFor, if_neg hft', if_neg hn, if_pos hn']
    · refine .bind (Q := fun q t => Holds s dir x e v t ∧ (q ≠ 0 → (q, .dir) ∉ s.blocks ∧ (q, .dir) ∈ t.blocks))
        (kmalloc_sat (fun t h => ?_) any_stopped) fun q => ?_
      · obtain ⟨hg, hused, hval⟩ := h
        refine ⟨⟨hg.allocated _ .dir, mem_allocated hused, ?_⟩, fun hq => ⟨fun hmem => ?_, ?_⟩⟩
        · rw [allocated_direntries]
          exact hval
        · exact hf _ _ _ .dir hq (hg.blocks _ .dir (by decide) hmem)
        · rw [allocated_of_ne hq]
          exact List.mem_cons_self ..
      refine .bind (Q := fun _ t => (Grown s dir x t ∧ (e, .direntry) ∈ t.blocks ∧
        SameRecord { v with directory := q } (t.direntries e)) ∧
          (q ≠ 0 → (q, .dir) ∉ s.blocks ∧ (q, .dir) ∈ t.blocks)) ?_ fun _ => ?_
      · refine store_direntry_sat (fun t h _ => ⟨⟨h.1.1.store he _, h.1.2.1, ?_⟩, h.2⟩) any_stopped
        dsimp only
        rw [Function.update_self, h.1.2.2]
        exact ⟨rfl, rfl, rfl, rfl⟩
      · refine store_dir_sat (fun t h hq => ?_) any_stopped
        obtain ⟨⟨hg, hused, hval⟩, hnew⟩ := h
        obtain ⟨hfresh, hq'⟩ := hnew hq
        refine ⟨q, ⟨hg.store_dir ha.own hfresh _, hused, ?_⟩, hval⟩
        rw [DirectoryFor, if_neg hft', if_neg hn, if_neg hn']
        exact ⟨hq, hfresh, hq', Function.update_self ..⟩
  · obtain ⟨hg, hused, rfl⟩ := h
    refine ⟨0, ⟨hg, hused, ?_⟩, rfl, rfl, rfl, hv⟩
    rw [DirectoryFor, if_pos hft]

/-- A record becomes an entry. -/
theorem load_record_made (hf : FreshBlocks env) (ha : Anchored s dir) :
    Sat (fun t => t = s) (load_record env dir blk i) (fun ei t => Grown s dir (s.dirs dir).entries t ∧
      Made env s dir blk t ei.1 i ∧ ei.2 = nextRecord blk i) stopped := by
  rw [load_record_eq]
  refine .bind (Q := fun e t => Grown s dir (s.dirs dir).entries t ∧
    (e ≠ 0 → (e, .direntry) ∉ s.blocks ∧ (e, .direntry) ∈ t.blocks)) ?_ fun e => ?_
  · refine (kmalloc_grown hf (by decide)).pre ?_
    rintro _ rfl
    exact Grown.refl _ dir
  refine .ite (fun _ => ?_) fun _ => .fault (any_stopped _)
  refine .bind (Q := fun _ t => Grown s dir (s.dirs dir).entries t ∧ Made env s dir blk t e i) ?_ fun _ =>
    .pure fun _ h => ⟨h.1, h.2, rfl⟩
  -- the entry with what the record says of it
  refine .bind (Q := fun _ t => (e ≠ 0 ∧ (e, .direntry) ∉ s.blocks) ∧ ∃ old : DirentryStruct,
    Holds s dir (s.dirs dir).entries e { old with
      name := overwrite old.name (nameAt blk i ++ [0]),
      inode_no := (recordAt blk i).inode, parent := dir, directory := 0 } t)
    (store_direntry_sat (fun t h he => ?_) any_stopped) fun _ => .fact fun he => .of_exists fun old => ?_
  · obtain ⟨hfresh, hused⟩ := h.2 he
    exact ⟨⟨he, hfresh⟩, t.direntries e, h.1.store hfresh _, hused, Function.update_self ..⟩
  obtain ⟨he0, hfresh⟩ := he
  refine .bind (set_directory_made hf ha hfresh rfl) fun _ => ?_
  refine .of_exists fun d => (assert_describes (situated_apart hfresh)).post fun _ t h => ?_
  obtain ⟨⟨⟨hg, hused, hplaced⟩, hsame⟩, hdescribed⟩ := h
  refine ⟨hg, he0, hfresh, hused, ⟨old.name, hsame.name⟩, hsame.inode_no, hsame.parent, ?_, fun hd => ?_⟩
  · rw [hsame.directory]
    exact hplaced
  · exact (hdescribed hd).mono fun u hu => ⟨_, hu.1⟩

end

/-! ## All records -/

/-- The records the loop comes to from the byte `i` on. -/
inductive Walk (blk : List UInt8) : Nat → List Nat → Prop
  | stop {i : Nat} : blk.length ≤ i → Walk blk i []
  | record {i : Nat} {is : List Nat} : i < blk.length → Walk blk (nextRecord blk i) is → Walk blk i (i :: is)

/-- The entries `l`, linked one to the next from the start of the list on, are made of the records `is`. -/
structure Built (env : Env) (s : Vfs) (dir : Nat) (blk : List UInt8) (l is : List Nat) (t : Vfs) : Prop where
  grown : Grown s dir (l.head?.getD (s.dirs dir).entries) t
  chain : l.IsChain fun a b => (t.direntries a).next = b
  nodup : l.Nodup
  made : List.Forall₂ (Made env s dir blk t) l is

/-- Where `last_next_ptr` points to behind the entries `l`. -/
def lastNext (dir : Nat) (l : List Nat) : NextPtr := l.getLast?.elim (.entries dir) .next

section
variable {env : Env} {s t u : Vfs} {dir x y e f i : Nat} {blk : List UInt8} {l is : List Nat}

theorem Walk.unique {js : List Nat} (h : Walk blk i is) (h' : Walk blk i js) : is = js := by
  induction h generalizing js with
  | stop hle =>
    cases h' with
    | stop _ => rfl
    | record hlt _ => exact absurd hle (Nat.not_le.2 hlt)
  | record hlt _ ih =>
    cases h' with
    | stop hle => exact absurd hle (Nat.not_le.2 hlt)
    | record _ hrest => rw [ih hrest]

theorem Made.later (h : Made env s dir blk t e i) (ha : Anchored s dir) (hg : Grown t dir y u) :
    Made env s dir blk u e i := by
  have he := hg.direntries e h.used
  refine ⟨h.pointer, h.fresh, hg.blocks _ _ (by decide) h.used, ?_, ?_, ?_, ?_, fun hd => ?_⟩
  · rw [he]
    exact h.name
  · rw [he]
    exact h.inode_no
  · rw [he]
    exact h.parent
  · rw [he]
    exact h.directory.later ha hg
  · rw [he]
    exact h.described hd

/-- An entry made later is one made while the whole list is loaded. -/
theorem Made.start (h : Made env t dir blk u e i) (ha : Anchored s dir) (hg : Grown s dir x t) :
    Made env s dir blk u e i where
  pointer := h.pointer
  fresh he := h.fresh (hg.blocks _ _ (by decide) he)
  used := h.used
  name := h.name
  inode_no := h.inode_no
  parent := h.parent
  directory := h.directory.start hg ha
  described hd := (h.described hd).mono fun _ ⟨_, hu⟩ => ⟨_, hg.trans hu⟩

/-- The links between the entries are not part of what a record says. -/
theorem Made.link (h : Made env s dir blk t e i) (a b : Nat) :
    Made env s dir blk { t with
      direntries := Function.update t.direntries a { t.direntries a with next := b } } e i := by
  have hsame : ∀ {α : Type} (g : DirentryStruct → α), (∀ w : DirentryStruct, g { w with next := b } = g w) →
      g (Function.update t.direntries a { t.direntries a with next := b } e) = g (t.direntries e) := by
    intro α g hg
    by_cases hea : e = a
    · rw [hea, Function.update_self, hg]
    · rw [Function.update_of_ne hea]
  refine ⟨h.pointer, h.fresh, h.used, ?_, ?_, ?_, ?_, fun hd => ?_⟩
  · exact (hsame DirentryStruct.name fun _ => rfl).symm ▸ h.name
  · exact (hsame DirentryStruct.inode_no fun _ => rfl).trans h.inode_no
  · exact (hsame DirentryStruct.parent fun _ => rfl).trans h.parent
  · exact (hsame DirentryStruct.directory fun _ => rfl).symm ▸ h.directory.congr fun _ hd => ⟨hd, rfl⟩
  · obtain ⟨bytes, hread, hmode, htype, hsize, hblocks⟩ := h.described hd
    refine ⟨bytes, hread, ?_, ?_, ?_, ?_⟩
    · exact (hsame DirentryStruct.mode fun _ => rfl).trans hmode
    · exact (hsame DirentryStruct.type fun _ => rfl).trans htype
    · exact (hsame DirentryStruct.size fun _ => rfl).trans hsize
    · exact (hsame DirentryStruct.blocks fun _ => rfl).trans hblocks

theorem Built.start (s : Vfs) : Built env s dir blk [] [] s := ⟨Grown.refl s dir, .nil, .nil, .nil⟩

/-- Each entry is made of one of the records. -/
theorem Built.each (h : Built env s dir blk l is t) : ∀ e ∈ l, ∃ i ∈ is, Made env s dir blk t e i := by
  have hrecord : List.Forall₂ (fun i e => i ∈ is ∧ Made env s dir blk t e i) is l :=
    (List.forall₂_and_left is l).2 ⟨fun i hi => hi, h.made.flip⟩
  have hall : List.Forall₂ (fun e i => (∃ i ∈ is, Made env s dir blk t e i) ∧ Made env s dir blk t e i) l is :=
    hrecord.flip.imp fun e i hm => ⟨⟨i, hm⟩, hm.2⟩
  exact ((List.forall₂_and_left l is).1 hall).1

/-- The entries that are there are new objects. -/
theorem Built.mem (h : Built env s dir blk l is t) :
    ∀ a ∈ l, a ≠ 0 ∧ (a, .direntry) ∉ s.blocks ∧ (a, .direntry) ∈ t.blocks := by
  intro a ha
  obtain ⟨i, -, hm⟩ := h.each a ha
  exact ⟨hm.pointer, hm.fresh, hm.used⟩

/-- One more entry behind the last one. -/
theorem Built.snoc (h : Built env s dir blk l is t) (ha : Anchored s dir) (hg : Grown t dir (t.dirs dir).entries u)
    (hm : Made env t dir blk u e i) : Built env s dir blk (l ++ [e]) (is ++ [i]) ((lastNext dir l).stored e u) := by
  have hat := h.grown.anchored ha
  have hsu := h.grown.trans hg
  have hnew : e ∉ l := fun he => hm.fresh (h.mem e he).2.2
  have hme := hm.start ha h.grown
  have hmade : List.Forall₂ (Made env s dir blk u) (l ++ [e]) (is ++ [i]) :=
    List.rel_append (h.made.imp fun a j hj => hj.later ha hg) (.cons hme .nil)
  have hnodup : (l ++ [e]).Nodup := List.nodup_append.2 ⟨h.nodup, List.nodup_singleton e, by
    rintro a ha' b hb rfl
    exact hnew (List.mem_singleton.1 hb ▸ ha')⟩
  cases hlast : l.getLast? with
  | none =>
    obtain rfl := List.getLast?_eq_none_iff.1 hlast
    have hu := (Grown.refl u dir).start e
    exact ⟨hsu.start e, .singleton _, hnodup, hmade.imp fun a j hj => hj.later ha hu⟩
  | some a =>
    have hmem : a ∈ l := List.mem_of_getLast? hlast
    obtain ⟨b, l', rfl⟩ : ∃ b l', l = b :: l' := List.exists_cons_of_ne_nil (List.ne_nil_of_mem hmem)
    have hsame : ∀ x ∈ b :: l', u.direntries x = t.direntries x := fun x hx => hg.direntries x (h.mem x hx).2.2
    have hchain : (b :: l').IsChain fun x y => (u.direntries x).next = y :=
      h.chain.imp_of_mem_imp fun x y hx _ hxy => by rw [hsame x hx]; exact hxy
    unfold lastNext
    rw [hlast]
    refine ⟨?_, ?_, hnodup, hmade.imp fun x j hj => hj.link a e⟩
    · have hstart : (u.dirs dir).entries = b := by
        rw [hg.dir, h.grown.dir]
        rfl
      have hgrown := hsu.store (h.mem a hmem).2.1 { u.direntries a with next := e }
      rw [h.grown.dir] at hgrown
      exact hgrown
    · refine (Sll.isChain_snoc hchain h.nodup hlast).imp fun x y hxy => ?_
      dsimp only [NextPtr.stored, Option.elim]
      by_cases hxa : x = a
      · rw [hxa, Function.update_self] at hxy ⊢
        exact hxy
      · rw [Function.update_of_ne hxa] at hxy ⊢
        exact hxy

/-- The end of the list. -/
theorem Built.close (h : Built env s dir blk l is t) (h0 : (s.dirs dir).entries = 0) :
    Built env s dir blk l is ((lastNext dir l).stored 0 t) ∧
      Sll (fun e => (((lastNext dir l).stored 0 t).direntries e).next)
        (((lastNext dir l).stored 0 t).dirs dir).entries l := by
  cases hlast : l.getLast? with
  | none =>
    obtain rfl := List.getLast?_eq_none_iff.1 hlast
    obtain rfl : is = [] := List.forall₂_nil_left_iff.1 h.made
    have hgrown : Grown s dir (s.dirs dir).entries ((lastNext dir []).stored 0 t) := by
      rw [h0]
      exact h.grown.start 0
    refine ⟨⟨hgrown, .nil, .nil, .nil⟩, ?_⟩
    have hend : (((lastNext dir []).stored 0 t).dirs dir).entries = 0 := by
      rw [hgrown.dir]
      exact h0
    exact hend
  | some a =>
    have hmem : a ∈ l := List.mem_of_getLast? hlast
    unfold lastNext
    rw [hlast]
    have hclosed : ∀ x, (Function.update t.direntries a { t.direntries a with next := 0 } x).next =
        Function.update (fun x => (t.direntries x).next) a 0 x := by
      intro x
      by_cases hxa : x = a
      · rw [hxa, Function.update_self, Function.update_self]
      · rw [Function.update_of_ne hxa, Function.update_of_ne hxa]
    have hchain : l.IsChain fun x y => (Function.update t.direntries a
        { t.direntries a with next := 0 } x).next = y := by
      refine List.IsChain.imp (fun x y hxy => (hclosed x).trans hxy) ?_
      exact (List.isChain_append.1 (Sll.isChain_snoc h.chain h.nodup hlast)).1
    have hgrown := h.grown.store (h.mem a hmem).2.1 { t.direntries a with next := 0 }
    refine ⟨⟨hgrown, hchain, h.nodup, h.made.imp fun x j hj => hj.link a 0⟩, ?_⟩
    have hstart : (t.dirs dir).entries = l.head?.getD 0 := by
      rw [h.grown.dir, h0]
    have hlist := Sll.of_isChain hchain (fun x hx => (h.mem x hx).1) (fun x hx => by
      obtain rfl : a = x := Option.some.inj (hlast.symm.trans hx)
      rw [Function.update_self])
    rw [← hstart] at hlist
    exact hlist

/-- The loop makes an entry of each record it comes to. -/
theorem loop_made (hf : FreshBlocks env) (ha : Anchored s dir) (h0 : (s.dirs dir).entries = 0)
    (hbs : (s.fsinfos f).block_size = blk.length) {inode : Nat} : ∀ (fuel i block : Nat) (l is : List Nat),
    Sat (Built env s dir blk l is)
      (ext2_get_direntries_loop env dir f inode fuel i false block blk (lastNext dir l))
      (fun r t => r = SUCCESS ∧ ∃ l' is', Walk blk i is' ∧ Built env s dir blk (l ++ l') (is ++ is') t ∧
        Sll (fun e => (t.direntries e).next) (t.dirs dir).entries (l ++ l')) stopped := by
  intro fuel
  induction fuel with
  | zero =>
    intro i block l is
    exact .fault (any_stopped _)
  | succ fuel ih =>
    intro i block l is
    refine .bind (Q := fun fs t => fs.block_size = blk.length ∧ Built env s dir blk l is t)
      ((load_fsinfo_sat any_stopped).post ?_) fun fs => .fact fun hfs => ?_
    · rintro _ t ⟨-, rfl, h⟩
      rw [h.grown.fsinfos]
      exact ⟨hbs, h⟩
    rw [hfs]
    refine .ite (fun hi => ?_) fun hi => ?_
    · rw [next_block_old, pure_bind]
      dsimp only
      refine .bind (Q := fun ei u => ei.2 = nextRecord blk i ∧ ∃ t, Built env s dir blk l is t ∧
        Grown t dir (t.dirs dir).entries u ∧ Made env t dir blk u ei.1 i) ?_ fun ei => .fact fun hnext => ?_
      · intro t ht
        have hload : Sat (fun t' => t' = t) (load_record env dir blk i) _ stopped :=
            load_record_made hf (ht.grown.anchored ha)
        obtain ⟨hok, -⟩ := hload t rfl
        refine ⟨fun ei u hu => ?_, fun _ _ _ => trivial⟩
        obtain ⟨hg, hm, hnext⟩ := hok ei u hu
        exact ⟨hnext, t, ht, hg, hm⟩
      · refine .bind (Q := fun _ => Built env s dir blk (l ++ [ei.1]) (is ++ [i])) ?_ fun _ => ?_
        · refine NextPtr.store_sat (fun u h => ?_) any_stopped
          obtain ⟨t, ht, hg, hm⟩ := h
          exact ht.snoc ha hg hm
        · have hlast : lastNext dir (l ++ [ei.1]) = .next ei.1 := by
            rw [lastNext, List.getLast?_concat]
            rfl
          have hrest := ih ei.2 block (l ++ [ei.1]) (is ++ [i])
          rw [hlast] at hrest
          refine hrest.post fun r t h => ?_
          obtain ⟨hr, l', is', hwalk, hbuilt, hlist⟩ := h
          rw [List.append_assoc] at hbuilt hlist
          rw [List.append_assoc] at hbuilt
          exact ⟨hr, [ei.1] ++ l', [i] ++ is', .record hi (hnext ▸ hwalk), hbuilt, hlist⟩
    · refine .bind (Q := fun _ t => Built env s dir blk l is t ∧
        Sll (fun e => (t.direntries e).next) (t.dirs dir).entries l)
        (NextPtr.store_sat (fun t h => h.close h0) any_stopped) fun _ => .pure fun t h => ?_
      refine ⟨rfl, [], [], .stop (Nat.not_lt.1 hi), ?_, ?_⟩
      · rw [List.append_nil, List.append_nil]
        exact h.1
      · rw [List.append_nil]
        exact h.2

end

/-! ## The whole -/

/-- Only inodes and the payload of the entry `e` are in `t` not what they are in `s`. -/
structure PayloadOnly (s : Vfs) (e : Nat) (t : Vfs) : Prop where
  dirs : t.dirs = s.dirs
  direntries : ∃ p, t.direntries = Function.update s.direntries e { s.direntries e with payload := p }
  mntps : t.mntps = s.mntps
  fsinfos : t.fsinfos = s.fsinfos
  gdts : t.gdts = s.gdts
  parts : t.parts = s.parts
  blocks : ∀ p kind, kind ≠ .inode → (p, kind) ∈ s.blocks → (p, kind) ∈ t.blocks

/-- The block a directory is read from, as it is in the buffer then. -/
def Env.firstBlock (env : Env) (s : Vfs) (fs : Ext2fsStruct) (inode : Nat) : List UInt8 :=
  overwrite ((List.range fs.block_size).map (env.stack s.reads.length)) (env.firstReply s fs inode).stored

section
variable {env : Env} {s t : Vfs} {dir e inode : Nat} {r : Int}

theorem PayloadOnly.sameVolumes (h : PayloadOnly s e t) : SameVolumes s t := ⟨h.mntps, h.fsinfos, h.gdts, h.parts⟩

theorem payloadOnly_indifferent (env : Env) (s : Vfs) (e : Nat) : Indifferent env e (PayloadOnly s e) where
  copied _ _ _ h := ⟨h.dirs, h.direntries, h.mntps, h.fsinfos, h.gdts, h.parts, h.blocks⟩
  allocated t p h := by
    refine ⟨?_, ?_, ?_, ?_, ?_, ?_, fun q k hk hq => mem_allocated (h.blocks q k hk hq)⟩
    · simpa using h.dirs
    · simpa using h.direntries
    · simpa using h.mntps
    · simpa using h.fsinfos
    · simpa using h.gdts
    · simpa using h.parts
  freed _ _ h := ⟨h.dirs, h.direntries, h.mntps, h.fsinfos, h.gdts, h.parts,
    fun q k hk hq => (List.mem_erase_of_ne (by simp [hk])).2 (h.blocks q k hk hq)⟩
  locked _ h := ⟨h.dirs, h.direntries, h.mntps, h.fsinfos, h.gdts, h.parts, h.blocks⟩
  payload t p h := by
    refine ⟨h.dirs, ⟨p, ?_⟩, h.mntps, h.fsinfos, h.gdts, h.parts, h.blocks⟩
    obtain ⟨q, hq⟩ := h.direntries
    rw [hq, Function.update_self, Function.update_idem]

theorem PayloadOnly.refl (s : Vfs) (e : Nat) : PayloadOnly s e s :=
  ⟨rfl, ⟨_, (Function.update_eq_self ..).symm⟩, rfl, rfl, rfl, rfl, fun _ _ _ h => h⟩

theorem PayloadOnly.asked (h : PayloadOnly s e t) (q : Request) : PayloadOnly s e (t.asked q) :=
  ⟨h.dirs, h.direntries, h.mntps, h.fsinfos, h.gdts, h.parts, h.blocks⟩

theorem direntry_get_inode_payload (env : Env) (e : Nat) (s : Vfs) :
    Sat (fun s' => s' = s) (direntry_get_inode env e) (fun _ => PayloadOnly s e) stopped := by
  refine (direntry_get_inode_keeps (payloadOnly_indifferent env s e) fun t m n h _ _ _ => h.asked _).mono ?_
    (fun _ _ h => h) any_stopped
  rintro _ rfl
  exact .refl ..

theorem firstBlock_length (env : Env) (s : Vfs) (fs : Ext2fsStruct) (inode : Nat) :
    (env.firstBlock s fs inode).length = fs.block_size := by
  have hstored : (env.firstReply s fs inode).stored.length ≤ fs.block_size := by
    refine le_trans (List.length_take_le ..) ?_
    exact Nat.div_mul_le_self _ _
  unfold Env.firstBlock
  rw [overwrite_within]
  · simp
  · simpa using hstored

theorem PayloadOnly.anchored (h : PayloadOnly s e t) (ha : Anchored s dir) : Anchored t dir := by
  refine ⟨h.blocks _ _ (by decide) ha.own, ?_⟩
  rw [h.dirs]
  exact h.blocks _ _ (by decide) ha.parent

/-- A call without an error has made an entry of each record of the block. -/
theorem load_made (hf : FreshBlocks env) (ha : Anchored s dir) (h0 : (s.dirs dir).entries = 0)
    (hrun : ext2_get_direntries env dir s = (.ok r, t)) (hr : 0 ≤ r) : r = SUCCESS ∧ ∃ inode s' l is,
      direntry_get_inode env (s.dirs dir).dir_entry s = (.ok inode, s') ∧ PayloadOnly s (s.dirs dir).dir_entry s' ∧
      let blk := env.firstBlock s' (s.fsinfos (s.mntps (s.dirs dir).fs_info).fs_data) inode
      Walk blk 0 is ∧ Built env s' dir blk l is t ∧ Sll (fun e => (t.direntries e).next) (t.dirs dir).entries l := by
  obtain ⟨inode, s', hi, hloop, hdirs, hfs⟩ := load_cases h0 hrun
  have hpayload := (direntry_get_inode_payload env _ s).of_run hi
  generalize (s.mntps (s.dirs dir).fs_info).fs_data = f at hloop
  have hlen := firstBlock_length env s' (s.fsinfos f) inode
  have h0' : (s'.dirs dir).entries = 0 := by rw [hdirs, h0]
  have hmade : ∀ u, Grown s' dir (s'.dirs dir).entries u → ext2_get_direntries_loop env dir f inode (2 ^ 32) 0 false 1
      (env.firstBlock s' (s.fsinfos f) inode) (.entries dir) u = (.ok r, t) → _ := fun u hu hru =>
    (loop_made hf (hpayload.anchored ha) h0' (by rw [hfs, hlen]) (2 ^ 32) 0 1 [] [] u ⟨hu, .nil, .nil, .nil⟩).1 r t hru
  obtain ⟨u, hu, hru⟩ : ∃ u, Grown s' dir (s'.dirs dir).entries u ∧
      ext2_get_direntries_loop env dir f inode (2 ^ 32) 0 false 1
      (env.firstBlock s' (s.fsinfos f) inode) (.entries dir) u = (.ok r, t) := by
    obtain ⟨fuel, hfuel⟩ : ∃ k, 2 ^ 32 = k + 1 := ⟨2 ^ 32 - 1, by norm_num⟩
    rw [hfuel] at hloop ⊢
    by_cases hbs : 0 < (s.fsinfos f).block_size
    · obtain ⟨-, -, -, ⟨hneg, rfl, -⟩ | ⟨-, hrest⟩⟩ := loop_begins (hfs ▸ hbs) hloop
      · exact absurd hr (Int.not_le.2 hneg)
      · rw [hfs] at hrest
        exact ⟨_, (Grown.refl s' dir).asked _, hrest⟩
    · -- nothing is read
      refine ⟨s', Grown.refl s' dir, ?_⟩
      have hbs' : ¬ 0 < (s'.fsinfos f).block_size := by rwa [hfs]
      unfold ext2_get_direntries_loop at hloop ⊢
      obtain ⟨fs, s₂, hload, h₂⟩ := bind_ok.1 hloop
      obtain ⟨hf0, rfl, rfl⟩ := (load_fsinfo_sat (P := fun t => t = s') any_stopped).of_run hload
      rw [bind_of_ok hload, if_neg hbs']
      rwa [if_neg hbs'] at h₂
  obtain ⟨rfl, l, is, hwalk, hbuilt, hlist⟩ := hmade u hu hru
  exact ⟨rfl, inode, s', l, is, hi, hpayload, hwalk, hbuilt, hlist⟩

end

end Ulmix.Fs

import Ulmix.Fs.Calls
import Ulmix.Fs.OnDisk
import Ulmix.Fs.UsedRecords
/-!
# Where the entries of the tree lead

An entry gets its directory from the type and the number in its record, and its
type from the mode in its inode; nobody compares the two. So the tree is as it
should be (`EntryPlaced`) as long as every directory that is loaded has records that
agree with the inodes and with the directory they are in (`LoadAgrees`,
`reached_placed`).
-/
open Ulmix.Lib Ulmix.Lib.Prog

namespace Ulmix.Fs

/-! ## Entries in their place -/

/-- The directory `q` is that of the entry `e` of `d` alone. -/
structure OwnDirectory (s : Vfs) (d e q : Nat) : Prop where
  parent : (s.dirs q).parent = d
  dir_entry : (s.dirs q).dir_entry = e
  inode_no : (s.dirs q).inode_no = (s.direntries e).inode_no
  self : q ≠ d
  up : q ≠ (s.dirs d).parent

/-- The entry `e` of the directory `d` has a directory exactly if it is one, and the right one. -/
structure EntryPlaced (s : Vfs) (d e : Nat) : Prop where
  typed : (s.direntries e).type = F_DIR ↔ (s.direntries e).directory ≠ 0
  dot : cstr (s.direntries e).name = dot → (s.direntries e).directory = d
  dotdot : cstr (s.direntries e).name = dotdot → (s.direntries e).directory = (s.dirs d).parent
  other : (s.direntries e).type = F_DIR → cstr (s.direntries e).name ≠ Fs.dot → cstr (s.direntries e).name ≠ Fs.dotdot →
    OwnDirectory s d e (s.direntries e).directory

/-- All entries of the tree are. -/
def AllPlaced (s : Vfs) : Prop := ∀ d e, TreeDir s d → OnList s (s.dirs d).entries e → EntryPlaced s d e

/-! ## What a disk has to say -/

/-- A read fails, or it delivers what is on the disk. -/
def Env.Delivers (env : Env) (disks : Nat → Nat → UInt8) : Prop := ∀ i bd sectors lba,
  (env.read i bd sectors lba).ret < 0 ∨
    (env.read i bd sectors lba).stored = diskBytes (disks bd) (lba * IO_BLOCK_SIZE) (sectors * IO_BLOCK_SIZE)

/-- What `fetch_inode` takes for inode `n` of the filesystem at `m`. -/
def Vfs.fetched (s : Vfs) (disks : Nat → Nat → UInt8) (m n : Nat) : List UInt8 :=
  ((diskBytes (disks (s.inodeRequest m n).bd) ((s.inodeRequest m n).lba * IO_BLOCK_SIZE) IO_BLOCK_SIZE).drop
    ((s.volume m).inodeOffset n)).take (inode_size (s.volume m).superblock)

/-- What `ext2_get_direntries` takes for block `k` of the filesystem at `m`. -/
def Vfs.fetchedBlock (s : Vfs) (disks : Nat → Nat → UInt8) (m k : Nat) : List UInt8 :=
  let v := s.volume m
  let q := s.request v.part v.sectors (k * v.sectors % 2 ^ 32)
  diskBytes (disks q.bd) (q.lba * IO_BLOCK_SIZE) (q.sectors * IO_BLOCK_SIZE)

/-- The record at `i` says of its inode, of `dir` and of the parent of `dir` what they say of themselves. -/
structure RecordAgrees (disks : Nat → Nat → UInt8) (s : Vfs) (dir : Nat) (blk : List UInt8) (i : Nat) : Prop where
  type : ∀ old, (recordAt blk i).file_type = 2 ↔
    i_mode (overwrite old (s.fetched disks (s.dirs dir).fs_info (recordAt blk i).inode)) &&& 0xf000 = F_DIR
  dot : cstr (nameAt blk i) = dot → (recordAt blk i).file_type = 2 ∧ (recordAt blk i).inode = (s.dirs dir).inode_no
  dotdot : cstr (nameAt blk i) = dotdot → (recordAt blk i).file_type = 2 ∧
    if (recordAt blk i).inode = (s.dirs dir).inode_no then (s.dirs dir).parent = dir
    else (recordAt blk i).inode = (s.dirs (s.dirs dir).parent).inode_no
  other : cstr (nameAt blk i) ≠ Fs.dot → cstr (nameAt blk i) ≠ Fs.dotdot → (recordAt blk i).file_type = 2 →
    (recordAt blk i).inode ≠ (s.dirs dir).inode_no ∧ (recordAt blk i).inode ≠ (s.dirs (s.dirs dir).parent).inode_no

/-- In the debug build, all records of the block of `dir` agree. (`old` and `garbage` are what was in memory where
less than a whole inode or block is read.) -/
def LoadAgrees (env : Env) (disks : Nat → Nat → UInt8) (s : Vfs) (dir : Nat) : Prop :=
  (s.dirs dir).entries = 0 → env.debug = true ∧
    ∀ old garbage : List UInt8, garbage.length = (s.volume (s.dirs dir).fs_info).block_size →
      let own := s.direntries (s.dirs dir).dir_entry
      let inode := overwrite old (s.fetched disks (s.dirs own.parent).fs_info own.inode_no)
      let blk := overwrite garbage (s.fetchedBlock disks (s.dirs dir).fs_info (i_block inode 0))
      ∀ i, ReachedFrom blk 0 i → i < blk.length → RecordAgrees disks s dir blk i

section
variable {env : Env} {disks : Nat → Nat → UInt8} {s s' t u : Vfs} {dir d e i m n p : Nat} {blk : List UInt8}
  {is l : List Nat} {r : Int}

/-! ## What is read -/

theorem SameVolumes.fetched (h : SameVolumes s t) (disks : Nat → Nat → UInt8) (m n : Nat) :
    t.fetched disks m n = s.fetched disks m n := by
  unfold Vfs.fetched Vfs.inodeRequest Vfs.request
  rw [h.volume, h.parts]

theorem SameVolumes.fetchedBlock (h : SameVolumes s t) (disks : Nat → Nat → UInt8) (m k : Nat) :
    t.fetchedBlock disks m k = s.fetchedBlock disks m k := by
  unfold Vfs.fetchedBlock Vfs.request
  rw [h.volume, h.parts]

/-- An answer without an error is what lies on the disk. -/
theorem Env.Delivers.reply (h : env.Delivers disks) {i : Nat} {q : Request} (hr : 0 ≤ (env.reply i q).ret) :
    (env.reply i q).stored = diskBytes (disks q.bd) (q.lba * IO_BLOCK_SIZE) (q.sectors * IO_BLOCK_SIZE) := by
  rcases h i q.bd q.sectors q.lba with hneg | hstored
  · exact absurd hneg (Int.not_lt.2 hr)
  · rw [Env.reply, hstored]
    dsimp only
    rw [List.take_of_length_le]
    rw [diskBytes_length]

theorem inodeBytes_fetched (h : env.Delivers disks) (hr : 0 ≤ (env.inodeReply s m n).ret) :
    env.inodeBytes s m n = s.fetched disks m n := by
  have hstored : (env.inodeReply s m n).stored =
      diskBytes (disks (s.inodeRequest m n).bd) ((s.inodeRequest m n).lba * IO_BLOCK_SIZE) IO_BLOCK_SIZE := by
    have hsectors : (s.inodeRequest m n).sectors * IO_BLOCK_SIZE = IO_BLOCK_SIZE := Nat.one_mul _
    rw [Env.inodeReply, h.reply hr, hsectors]
  rw [Env.inodeBytes, hstored, overwrite_full]
  · rfl
  · simp [diskBytes_length]

/-- The bytes read for an inode are those of the disk, over older ones. -/
theorem ReadAs.fetched {F : Vfs → Prop} {parent : Nat} {bytes : List UInt8} (h : ReadAs env F parent n bytes)
    (hd : env.Delivers disks) (hF : ∀ u, F u → SameVolumes s u ∧ (u.dirs parent).fs_info = m) :
    ∃ old, bytes = overwrite old (s.fetched disks m n) := by
  obtain ⟨u, old, hu, hr, rfl⟩ := h
  obtain ⟨hsame, rfl⟩ := hF u hu
  rw [inodeBytes_fetched hd hr, hsame.fetched]
  exact ⟨old, rfl⟩

/-! ## The records of a load -/

/-- The records the loop comes to are reached. -/
theorem Walk.reached (h : Walk blk i is) : ∀ j ∈ is, ReachedFrom blk i j ∧ j < blk.length := by
  induction h with
  | stop _ => exact fun _ hj => absurd hj List.not_mem_nil
  | @record i is hlt _ ih =>
    intro j hj
    rcases List.mem_cons.1 hj with rfl | hj
    · exact ⟨.refl, hlt⟩
    · obtain ⟨hreach, hjlt⟩ := ih j hj
      exact ⟨.head ⟨hlt, rfl⟩ hreach, hjlt⟩

theorem Walk.mem_of_reached {j : Nat} (h : Walk blk i is) (hreach : ReachedFrom blk i j)
    (hj : j < blk.length) : j ∈ is := by
  induction h with
  | stop hle =>
    rcases Relation.ReflTransGen.cases_head hreach with rfl | ⟨k, ⟨hlt, -⟩, -⟩
    · exact absurd hj (Nat.not_lt.2 hle)
    · exact absurd hlt (Nat.not_lt.2 hle)
  | record hlt _ ih =>
    rcases Relation.ReflTransGen.cases_head hreach with rfl | ⟨k, ⟨-, rfl⟩, hrest⟩
    · exact List.mem_cons_self ..
    · exact List.mem_cons_of_mem _ (ih hrest)

/-- The records that a load goes through agree. -/
theorem LoadAgrees.records (h : LoadAgrees env disks s dir) (hd : env.Delivers disks) (h0 : (s.dirs dir).entries = 0)
    (hrun : ext2_get_direntries env dir s = (.ok r, t)) (hr : 0 ≤ r)
    (hi : direntry_get_inode env (s.dirs dir).dir_entry s = (.ok p, s'))
    (hpay : PayloadOnly s (s.dirs dir).dir_entry s')
    (hwalk : Walk (env.firstBlock s' (s.fsinfos (s.mntps (s.dirs dir).fs_info).fs_data) p) 0 is) :
    ∀ i ∈ is, RecordAgrees disks s dir (env.firstBlock s' (s.fsinfos (s.mntps (s.dirs dir).fs_info).fs_data) p) i := by
  have hlen := firstBlock_length env s' (s.fsinfos (s.mntps (s.dirs dir).fs_info).fs_data) p
  have hsame := hpay.sameVolumes
  by_cases hbs : (s.fsinfos (s.mntps (s.dirs dir).fs_info).fs_data).block_size = 0
  · -- an empty block has no records
    intro i hi
    have hlt := (hwalk.reached i hi).2
    omega
  -- the inode of the directory was read, and so was its block
  obtain ⟨p', s₂, hi₂, hloop, -, hfs⟩ := load_cases h0 hrun
  cases hi.symm.trans hi₂
  obtain ⟨fuel, hfuel⟩ : ∃ k, 2 ^ 32 = k + 1 := ⟨2 ^ 32 - 1, by norm_num⟩
  rw [hfuel] at hloop
  obtain ⟨hp, -, -, ⟨hneg, rfl, -⟩ | ⟨hret, -⟩⟩ := loop_begins (by rw [hfs]; omega) hloop
  · exact absurd hr (Int.not_le.2 hneg)
  rw [hfs] at hret
  have hF : Apart (s.dirs dir).dir_entry fun t => t.dirs = s.dirs ∧ SameVolumes s t := sameDirs_apart s _
  obtain ⟨-, hread⟩ := (direntry_get_inode_reads hF s ⟨⟨rfl, .refl s⟩, rfl, rfl, rfl, rfl⟩).1 p s' hi
  obtain ⟨old, hold⟩ := (hread hp).fetched hd fun u hu => ⟨hu.2, by rw [hu.1]⟩
  have hblk : env.firstBlock s' (s.fsinfos (s.mntps (s.dirs dir).fs_info).fs_data) p =
      overwrite ((List.range (s.volume (s.dirs dir).fs_info).block_size).map (env.stack s'.reads.length))
        (s.fetchedBlock disks (s.dirs dir).fs_info (i_block (s'.inodes p) 0)) := by
    rw [Env.firstBlock, Env.firstReply, hd.reply hret, ← hsame.fetchedBlock, Vfs.fetchedBlock, hsame.volume]
    rfl
  intro i hmem
  obtain ⟨hreach, hlt⟩ := hwalk.reached i hmem
  rw [hblk, hold] at hreach hlt ⊢
  exact (h h0).2 old _ (by simp) i hreach hlt

/-! ## What a load leaves -/

/-- The type of an entry that was made is that of its inode. -/
theorem Made.type (h : Made env s' dir blk t e i) (hd : env.Delivers disks) (hdebug : env.debug = true)
    (hsame : SameVolumes s s') (hinfo : (s'.dirs dir).fs_info = m) :
    ∃ old, (t.direntries e).type = i_mode (overwrite old (s.fetched disks m (recordAt blk i).inode)) &&& 0xf000 := by
  obtain ⟨bytes, hread, -, htype, -⟩ := h.described hdebug
  obtain ⟨old, rfl⟩ := hread.fetched hd fun u ⟨x, hx⟩ => ⟨hsame.trans hx.sameVolumes, by rw [hx.dir, hinfo]⟩
  exact ⟨old, htype⟩

/-- An entry made of a record that agrees is in its place. -/
theorem Made.placed (h : Made env s' dir blk t e i) (hr : RecordAgrees disks s dir blk i) (hd : env.Delivers disks)
    (hdebug : env.debug = true) (hpay : PayloadOnly s d s') (ha : Anchored s' dir) (hdir : dir ≠ 0)
    (hparent : (s.dirs dir).parent ≠ 0) (hup : (t.dirs dir).parent = (s.dirs dir).parent) : EntryPlaced t dir e := by
  obtain ⟨old, htype⟩ := h.type hd hdebug hpay.sameVolumes (by rw [hpay.dirs])
  have hname : cstr (t.direntries e).name = cstr (nameAt blk i) := by
    obtain ⟨old, hname⟩ := h.name
    rw [hname, cstr_overwrite]
  have hown := h.directory
  unfold DirectoryFor at hown
  have hparent' := ha.parent
  have hself' := ha.own
  rw [hpay.dirs] at hown hparent'
  rw [← h.inode_no] at hown
  by_cases hft : (recordAt blk i).file_type = 2
  · rw [if_neg (not_not_intro hft)] at hown
    have hF : (t.direntries e).type = F_DIR := by
      rw [htype]
      exact (hr.type old).1 hft
    have hno := h.inode_no
    by_cases hn : (t.direntries e).inode_no = (s.dirs dir).inode_no
    · rw [if_pos hn] at hown
      refine ⟨⟨fun _ => hown ▸ hdir, fun _ => hF⟩, fun _ => hown, fun hdd => ?_, fun _ h1 h2 => ?_⟩
      · rw [hname] at hdd
        have := (hr.dotdot hdd).2
        rw [← hno, if_pos hn] at this
        rw [hown, hup, this]
      · rw [hname] at h1 h2
        exact absurd (hno ▸ hn) (hr.other h1 h2 hft).1
    rw [if_neg hn] at hown
    by_cases hn' : (t.direntries e).inode_no = (s.dirs (s.dirs dir).parent).inode_no
    · rw [if_pos hn'] at hown
      refine ⟨⟨fun _ => hown ▸ hparent, fun _ => hF⟩, fun hdot => ?_, fun _ => hown.trans hup.symm, fun _ h1 h2 => ?_⟩
      · rw [hname] at hdot
        exact absurd (hno.trans (hr.dot hdot).2) hn
      · rw [hname] at h1 h2
        exact absurd (hno ▸ hn') (hr.other h1 h2 hft).2
    · rw [if_neg hn'] at hown
      obtain ⟨h0, hfresh, -, hval⟩ := hown
      refine ⟨⟨fun _ => h0, fun _ => hF⟩, fun hdot => ?_, fun hdd => ?_, fun _ _ _ => ⟨?_, ?_, ?_, ?_, ?_⟩⟩
      · rw [hname] at hdot
        exact absurd (hno.trans (hr.dot hdot).2) hn
      · rw [hname] at hdd
        have := (hr.dotdot hdd).2
        rw [← hno, if_neg hn] at this
        exact absurd this hn'
      · rw [hval]
      · rw [hval]
      · rw [hval]
      · exact fun heq => hfresh (heq ▸ hself')
      · exact fun heq => hfresh (heq ▸ hup ▸ hparent')
  · rw [if_pos hft] at hown
    have hF : (t.direntries e).type ≠ F_DIR := by
      rw [htype]
      exact fun hF => hft ((hr.type old).2 hF)
    refine ⟨⟨fun h => absurd h hF, fun h => absurd hown h⟩, fun hdot => ?_, fun hdd => ?_, fun h => absurd h hF⟩
    · exact absurd (hr.dot (hname ▸ hdot)).1 hft
    · exact absurd (hr.dotdot (hname ▸ hdd)).1 hft

/-- What is said of an entry depends on few fields. -/
theorem EntryPlaced.congr (h : EntryPlaced s d e) (hname : (t.direntries e).name = (s.direntries e).name)
    (htype : (t.direntries e).type = (s.direntries e).type) 
    (hdirectory : (t.direntries e).directory = (s.direntries e).directory)
    (hparent : (t.dirs d).parent = (s.dirs d).parent)
    (hown : ∀ q, q ≠ 0 → q = (s.direntries e).directory → OwnDirectory s d e q → OwnDirectory t d e q) :
      EntryPlaced t d e := by
  refine ⟨?_, fun hdot => ?_, fun hdd => ?_, fun hF h1 h2 => ?_⟩
  · rw [htype, hdirectory]
    exact h.typed
  · rw [hdirectory]
    exact h.dot (hname ▸ hdot)
  · rw [hdirectory, hparent]
    exact h.dotdot (hname ▸ hdd)
  · rw [hname] at h1 h2
    rw [htype] at hF
    rw [hdirectory]
    exact hown _ (h.typed.1 hF) rfl (h.other hF h1 h2)

/-- New entries below `dir` leave the others in their places. -/
theorem Hung.placed (h : Hung s dir l t) (hs : VfsTree s) (hd : TreeDir s d) (he : OnList s (s.dirs d).entries e)
    (hp : EntryPlaced s d e) : EntryPlaced t d e := by
  obtain ⟨p, hentry⟩ := h.entry e (hs.entry_used hd he)
  have hparent := h.parent (hs.used d hd)
  refine hp.congr (by rw [hentry]) (by rw [hentry]) (by rw [hentry]) hparent fun q hq0 hq hown => ?_
  have hqd : TreeDir s q := hq ▸ hd.child he (hq ▸ hq0)
  have hused := hs.used q hqd
  refine ⟨?_, ?_, ?_, hown.self, ?_⟩
  · rw [h.parent hused]
    exact hown.parent
  · rw [h.dir_entry hused]
    exact hown.dir_entry
  · rw [h.inode_no hused, hown.inode_no, hentry]
  · rw [hparent]
    exact hown.up

/-- Other numbers and inodes for a directory and its entry do so, too. -/
theorem Renumbered.placed (h : Renumbered s dir t) (hs : VfsTree s) (hdir : TreeDir s dir) (hp : AllPlaced s) :
    AllPlaced t := by
  intro d e hd he
  have hd' := h.sameLinks.treeDir hd
  rw [h.list] at he
  have he' := h.sameLinks.onList he
  obtain ⟨n, p, hentry⟩ := h.entry e
  refine (hp d e hd' he').congr (by rw [hentry]) (by rw [hentry]) (by rw [hentry]) (h.parent d) fun q hq0 hq hown => ?_
  refine ⟨?_, ?_, ?_, hown.self, ?_⟩
  · rw [h.parent]
    exact hown.parent
  · rw [h.dir_entry]
    exact hown.dir_entry
  · by_cases hqd : q = dir
    · -- the entry of `dir` gets the number `dir` gets
      subst hqd
      have he_own := hown.dir_entry
      rcases h.number with ⟨hn, hn'⟩ | ⟨hn, hn'⟩
      · rw [he_own] at hn'
        rw [hn, hn', hown.inode_no]
      · rw [he_own] at hn'
        rw [hn, hn']
    · have hne : e ≠ (s.dirs dir).dir_entry := by
        intro heq
        rw [heq, hs.back dir hdir] at hq
        exact hqd hq
      rw [h.dirs q hqd, h.entries e hne]
      exact hown.inode_no
  · rw [h.parent]
    exact hown.up

/-- Null is no directory of the tree. -/
theorem Hung.not_null (h : Hung s dir l t) (hs : VfsTree s) (hdir : TreeDir s dir)
    (hnull : ¬ TreeDir s 0) : ¬ TreeDir t 0 := by
  have hall : ∀ d, TreeDir t d → d ≠ 0 := by
    intro d hd
    induction hd with
    | root => decide
    | parent hd _ =>
      rcases h.treeDir hs hdir hd with hold | ⟨e, -, -, -, -, n, m, p, hnew⟩
      · rw [h.parent (hs.used _ hold)]
        exact fun h0 => hnull (h0 ▸ hold.parent)
      · rw [hnew]
        exact fun h0 => hnull (h0 ▸ hdir)
    | child _ _ hne _ => exact hne
  exact fun h0 => hall 0 h0 rfl

/-- The tree is one, without null, and all entries are in their places. -/
structure InPlace (s : Vfs) : Prop where
  tree : VfsTree s
  not_null : ¬ TreeDir s 0
  placed : AllPlaced s

theorem Renumbered.inPlace (h : Renumbered s dir t) (hs : InPlace s) (hdir : TreeDir s dir) : InPlace t :=
  ⟨h.tree hs.tree, fun h0 => hs.not_null (h.sameLinks.treeDir h0), h.placed hs.tree hdir hs.placed⟩

/-- A load of records that agree leaves it so. -/
theorem load_inPlace (hf : FreshBlocks env) (hd : env.Delivers disks) (hs : InPlace s) (hdir : TreeDir s dir)
    (hagree : LoadAgrees env disks s dir) (hrun : ext2_get_direntries env dir s = (.ok r, t)) : InPlace t := by
  by_cases hr : r < 0
  · -- nothing was made
    obtain ⟨-, inode, s', hi, -, -, rfl⟩ := load_failed hr hrun
    have hpay := (direntry_get_inode_payload env _ _).of_run hi
    have hkept := (Renumbered.of_same (.refl s) rfl rfl dir).payload hpay
    exact (hkept.later (hkept.outlives.asked _) rfl rfl).inPlace hs hdir
  have hr := Int.not_lt.1 hr
  by_cases h0 : (s.dirs dir).entries = 0
  · have ha := hs.tree.anchored hdir
    obtain ⟨l, hhung⟩ := load_hung hf ha h0 hrun hr
    obtain ⟨-, inode, s', l', is, hi, hpay, hwalk, hbuilt, hlist⟩ := load_made hf ha h0 hrun hr
    obtain rfl := Sll.unique hhung.list hlist
    have hrecords := hagree.records hd h0 hrun hr hi hpay hwalk
    refine ⟨hhung.vfsTree hs.tree hdir, hhung.not_null hs.tree hdir hs.not_null, fun d e htd he => ?_⟩
    rcases hhung.treeDir hs.tree hdir htd with hold | ⟨e', -, -, -, -, n, m, q, hnew⟩
    · by_cases hdd : d = dir
      · subst hdd
        rw [hhung.list.onList] at he
        obtain ⟨i, his, hmade⟩ := hbuilt.each e he
        have hd0 : d ≠ 0 := (ext2_get_direntries_ok hrun).1
        have hparent : (s.dirs d).parent ≠ 0 := fun h => hs.not_null (h ▸ hdir.parent)
        have hup := hhung.parent (hs.tree.used d hold)
        exact hmade.placed (hrecords i his) hd (hagree h0).1 hpay (hpay.anchored ha) hd0 hparent hup
      · have he' := (hhung.onList hs.tree hold hdd).1 he
        exact hhung.placed hs.tree hold he' (hs.placed d e hold he')
    · -- a new directory has no list yet
      rw [hnew] at he
      cases he <;> contradiction
  · obtain ⟨-, -, ⟨-, -, rfl⟩ | ⟨h0', -⟩⟩ := ext2_get_direntries_ok hrun
    · exact hs
    · exact absurd h0' h0

theorem setup_inPlace (hdir : (root_dir, .dir) ∈ s.blocks) (hentry : (root_direntry, .direntry) ∈ s.blocks)
    (h : setup_fs s = (.ok (), t)) : InPlace t := by
  refine ⟨setup_tree hdir hentry h, fun h0 => absurd (setup_treeDir h h0) (by decide), fun d e hd he => ?_⟩
  obtain rfl := setup_treeDir h hd
  rw [setup_fs_run] at h
  cases h
  cases he <;> contradiction

/-- In every state that is reached by loads of records that agree, the entries of the tree are in their places. -/
theorem reached_placed (hf : FreshBlocks env) (hd : env.Delivers disks) (h : Reached env (LoadAgrees env disks) s) :
    AllPlaced s := by
  refine InPlace.placed ?_
  induction h with
  | setup hdir hentry hsetup => exact setup_inPlace hdir hentry hsetup
  | mount _ htd hagree hrun ih =>
    rcases mount_kept hf hrun with ⟨hkept, -⟩ | ⟨-, f, m, g, hload⟩
    · exact hkept.inPlace ih htd
    · have hkept := hload.renumbered
      obtain ⟨r, -, hrun⟩ := hload.load
      exact load_inPlace hf hd (hkept.inPlace ih htd) (hkept.sameLinks.symm.treeDir htd) hagree hrun
  | load _ htd hagree hrun ih => exact load_inPlace hf hd ih htd hagree hrun

end

/-! ## Small disks -/

/-- Where a whole inode and a whole block are read, it does not matter what was in memory before. -/
theorem loadAgrees_of {env : Env} {disks : Nat → Nat → UInt8} {s : Vfs} {dir : Nat} {inode blk : List UInt8}
    (hdebug : env.debug = true)
    (hinode : s.fetched disks (s.dirs (s.direntries (s.dirs dir).dir_entry).parent).fs_info
      (s.direntries (s.dirs dir).dir_entry).inode_no = inode)
    (hlen : 44 ≤ inode.length) (hblk : s.fetchedBlock disks (s.dirs dir).fs_info (i_block inode 0) = blk)
    (hwhole : (s.volume (s.dirs dir).fs_info).block_size ≤ blk.length)
    (h : ∀ i, ReachedFrom blk 0 i → i < blk.length → RecordAgrees disks s dir blk i) : LoadAgrees env disks s dir := by
  refine fun _ => ⟨hdebug, fun old garbage hgarbage => ?_⟩
  dsimp only
  have hno : i_block (overwrite old inode) 0 = i_block inode 0 := le32_append (by omega)
  rw [hinode, hno, hblk, overwrite_full (hgarbage.trans_le hwhole)]
  exact h

theorem diskServer_fresh (disk : Nat → UInt8) : FreshBlocks (diskServer disk) :=
  fun _ blocks _ kind _ => nextAddress_fresh blocks kind

theorem diskServer_delivers (disk : Nat → UInt8) : (diskServer disk).Delivers fun _ => disk := fun _ _ _ _ => .inr rfl

/-- The tree before anything is mounted. -/
def setUp : Vfs := (setup_fs bareVfs).2

theorem setUp_reached (env : Env) (C : Vfs → Nat → Prop) : Reached env C setUp :=
  .setup (s := bareVfs) (by decide) (by decide) rfl

/-- The state in which the small disk with a file is loaded. -/
def fileRoot : Vfs := (diskServer (recordBytes fileRecords)).handedOver setUp 0x600 root_dir

theorem fileRoot_agrees : LoadAgrees (diskServer (recordBytes fileRecords))
    (fun _ => recordBytes fileRecords) fileRoot root_dir := by
  have hblk : fileRoot.fetchedBlock (fun _ => recordBytes fileRecords) (fileRoot.dirs root_dir).fs_info
      (i_block (fileRoot.fetched (fun _ => recordBytes fileRecords) (fileRoot.dirs root_dir).fs_info 2) 0) =
        smallBlock fileRecords := by
    decide +kernel
  have h0 : recordAt (smallBlock fileRecords) 0 = ⟨2, 12, 1, 2⟩ := by decide +kernel
  have h12 : recordAt (smallBlock fileRecords) 12 = ⟨3, 1012, 1, 1⟩ := by decide +kernel
  have hwalk := (smallBlock_tiles h0 h12 (by decide)).walk rfl
  have hlen : (smallBlock fileRecords).length = 1024 := by decide +kernel
  refine loadAgrees_of rfl rfl (by decide +kernel) hblk (by rw [hlen]; decide +kernel) fun i hreach hi => ?_
  have hmem := hwalk.mem_of_reached hreach hi
  simp only [List.mem_cons, List.not_mem_nil, or_false] at hmem
  rcases hmem with rfl | rfl
  · have hname : cstr (nameAt (smallBlock fileRecords) 0) = dot := by decide +kernel
    refine ⟨fun old => ?_, fun _ => ?_, fun hdd => ?_, fun hdot => absurd hname hdot⟩
    · rw [h0, i_mode, overwrite, le16_append (by decide +kernel)]
      decide +kernel
    · rw [h0]
      decide +kernel
    · rw [hname] at hdd
      exact absurd hdd (by decide)
  · have hname : cstr (nameAt (smallBlock fileRecords) 12) = [0x61] := by decide +kernel
    refine ⟨fun old => ?_, fun hdot => ?_, fun hdd => ?_, fun _ _ hft => ?_⟩
    · rw [h12, i_mode, overwrite, le16_append (by decide +kernel)]
      decide +kernel
    · rw [hname] at hdot
      exact absurd hdot (by decide)
    · rw [hname] at hdd
      exact absurd hdd (by decide)
    · rw [h12] at hft
      exact absurd hft (by decide)

theorem reached_placed_file : ∃ t, ext2_mount (diskServer (recordBytes fileRecords)) 0x600 root_dir setUp =
    (.ok SUCCESS, t) ∧ AllPlaced t := by
  have hrun : (ext2_mount (diskServer (recordBytes fileRecords)) 0x600 root_dir setUp).1 = .ok SUCCESS := by
    decide +kernel
  refine ⟨_, run_eq hrun, ?_⟩
  exact reached_placed (diskServer_fresh _) (diskServer_delivers _)
    (.mount (setUp_reached _ _) .root fileRoot_agrees (run_eq hrun))

/-! ## A directory mounted below the root -/

/-- A directory `d` with the number 3. -/
def nestedRecords : List UInt8 :=
  [2, 0, 0, 0, 12, 0, 1, 2, 0x2e, 0, 0, 0, 2, 0, 0, 0, 12, 0, 2, 2, 0x2e, 0x2e, 0, 0, 3, 0, 0, 0, 0xe8, 3, 1, 2, 0x64]

/-- The small disk with these records, and inode 3 a directory. -/
def nestedBytes (a : Nat) : UInt8 := if a = 5 * 1024 + 257 then 0x41 else recordBytes nestedRecords a

/-- The filesystem is mounted on the root. -/
def mountedOnce : Vfs := (ext2_mount (diskServer nestedBytes) 0x600 root_dir setUp).2

/-- The entry behind `e`. -/
def Vfs.after (s : Vfs) (e : Nat) : Nat := (s.direntries e).next

theorem OnList.second {s : Vfs} {c : Nat} (hc : c ≠ 0) (he : s.after c ≠ 0) : OnList s c (s.after c) :=
  .further hc (.here he)

/-- The directory of the third entry of the root. -/
def Vfs.thirdDir (s : Vfs) : Nat := (s.direntries (s.after (s.after (s.dirs root_dir).entries))).directory

/-- It is mounted on `d`, too. -/
def mountedTwice : Vfs := (ext2_mount (diskServer nestedBytes) 0x600 mountedOnce.thirdDir mountedOnce).2

theorem thirdDir_tree {s : Vfs} (h : (s.dirs root_dir).entries ≠ 0 ∧ s.after (s.dirs root_dir).entries ≠ 0 ∧
    s.after (s.after (s.dirs root_dir).entries) ≠ 0 ∧ s.thirdDir ≠ 0) : TreeDir s s.thirdDir := by
  obtain ⟨h0, h1, h2, hd⟩ := h
  exact .child .root (.further h0 (.further h1 (.here h2))) hd

/-- In the directory mounted below the root the entry `..` leads to that directory. -/
theorem nested_mounts : (ext2_mount (diskServer nestedBytes) 0x600 root_dir setUp).1 = .ok SUCCESS ∧
    ((mountedOnce.dirs root_dir).entries ≠ 0 ∧ mountedOnce.after (mountedOnce.dirs root_dir).entries ≠ 0 ∧
      mountedOnce.after (mountedOnce.after (mountedOnce.dirs root_dir).entries) ≠ 0 ∧ mountedOnce.thirdDir ≠ 0) ∧
    (ext2_mount (diskServer nestedBytes) 0x600 mountedOnce.thirdDir mountedOnce).1 = .ok SUCCESS ∧
    ((mountedTwice.dirs root_dir).entries ≠ 0 ∧ mountedTwice.after (mountedTwice.dirs root_dir).entries ≠ 0 ∧
      mountedTwice.after (mountedTwice.after (mountedTwice.dirs root_dir).entries) ≠ 0 ∧ mountedTwice.thirdDir ≠ 0) ∧
    (mountedTwice.dirs mountedTwice.thirdDir).entries ≠ 0 ∧
    mountedTwice.after (mountedTwice.dirs mountedTwice.thirdDir).entries ≠ 0 ∧
    cstr (mountedTwice.direntries (mountedTwice.after (mountedTwice.dirs mountedTwice.thirdDir).entries)).name =
      dotdot ∧
    (mountedTwice.direntries (mountedTwice.after (mountedTwice.dirs mountedTwice.thirdDir).entries)).directory ≠
      (mountedTwice.dirs mountedTwice.thirdDir).parent := by
  decide +kernel

theorem dotdot_misplaced : ¬ ∀ env disks s, FreshBlocks env → env.Delivers disks → env.debug = true →
    Reached env (fun _ _ => True) s → AllPlaced s := by
  intro hall
  obtain ⟨hrun, honce, hrun', htwice, hlist, he, hname, hdirectory⟩ := nested_mounts
  have hfirst : Reached (diskServer nestedBytes) (fun _ _ => True) mountedOnce :=
    .mount (setUp_reached _ _) .root trivial (run_eq hrun)
  have hreached : Reached (diskServer nestedBytes) (fun _ _ => True) mountedTwice :=
    .mount hfirst (thirdDir_tree honce) trivial (run_eq hrun')
  have hplaced := hall _ _ _ (diskServer_fresh nestedBytes) (diskServer_delivers nestedBytes) rfl hreached _ _
    (thirdDir_tree htwice) (.second hlist he)
  exact hdirectory (hplaced.dotdot hname)

end Ulmix.Fs

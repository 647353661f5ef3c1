import Ulmix.Fs.Sound
import Ulmix.Fs.Listing
/-!
# Path names lead to what the disk says

A directory is read when a path first leads through it, and never again. So what
`namei` finds depends on a memory that grows with each call. `Faithful` says that
this memory is a part of the disk: each directory of the tree has the number of a
directory of the image and, if it was loaded, an entry for each of its records.
Loading keeps this (`Faithful.load`), and what was there before stays
(`Extends`). So every walk ends where the one over the disk does, whatever was
looked up before (`namei_resolves`, `lookups_resolve`).
-/
open Ulmix.Lib Ulmix.Lib.Prog

namespace Ulmix.Fs

/-! ## Memory that is a part of the disk -/

/-- The debug build, with memory without end and devices that hold `disks` and never fail. -/
structure Working (env : Env) (disks : Nat → Nat → UInt8) : Prop where
  debug : env.debug = true
  fresh : FreshBlocks env
  generous : env.Generous
  serves : ∀ bd, env.Holds bd (disks bd)

/-- The entry `e` has the number `n` and what the inode with this number says. -/
structure HasInode (v : Image) (s : Vfs) (e n : Nat) : Prop where
  inode_no : (s.direntries e).inode_no = n
  mode : (s.direntries e).mode = i_mode (v.inode n)
  type : (s.direntries e).type = i_mode (v.inode n) &&& 0xf000
  size : (s.direntries e).size = i_size (v.inode n)
  blocks : (s.direntries e).blocks = i_blocks (v.inode n)

/-- The entry `e` is that of the record at `i` in the directory `n`. -/
structure EntryShows (v : Image) (s : Vfs) (n e i : Nat) : Prop where
  name : cstr (s.direntries e).name = (fileAt (v.dirBlock n) i).1
  terminated : 0 ∈ (s.direntries e).name
  inode : HasInode v s e (recordAt (v.dirBlock n) i).inode
  directory : (recordAt (v.dirBlock n) i).file_type = 2 → (s.direntries e).directory ≠ 0 ∧
    (s.dirs (s.direntries e).directory).inode_no = (recordAt (v.dirBlock n) i).inode

/-- The directory `d` lists the directory with its number. -/
def Listed (v : Image) (s : Vfs) (d : Nat) : Prop :=
  ∃ l, Lists s d l ∧ List.Forall₂ (EntryShows v s (s.dirs d).inode_no) l (v.records (s.dirs d).inode_no)

/-- All there is in memory of the filesystem at `m` is on the image. -/
structure Faithful (v : Image) (p : Disks.HdStruct) (part m : Nat) (s : Vfs) : Prop extends Isolated v p part s where
  usable : Usable s
  kept : Kept v p part m s
  fs_info : ∀ d, TreeDir s d → (s.dirs d).fs_info = m
  dir_entry : ∀ d, TreeDir s d → (s.dirs d).dir_entry ≠ 0
  numbered : ∀ d, TreeDir s d → (s.direntries (s.dirs d).dir_entry).inode_no = (s.dirs d).inode_no
  listed : ∀ d, TreeDir s d → (s.dirs d).entries = 0 ∨ Listed v s d
  inside : ∀ d e, TreeDir s d → OnList s (s.dirs d).entries e → (s.direntries e).parent = d

/-- Whatever could be reached in `s` is in `t`, entries up to their payload. -/
structure Extends (s t : Vfs) : Prop where
  dirs : ∀ d, TreeDir s d → TreeDir t d
  inode_no : ∀ d, TreeDir s d → (t.dirs d).inode_no = (s.dirs d).inode_no
  loaded : ∀ d, TreeDir s d → (s.dirs d).entries ≠ 0 → (t.dirs d).entries ≠ 0
  entries : ∀ d e, TreeDir s d → OnList s (s.dirs d).entries e →
    OnList t (t.dirs d).entries e ∧ ∃ q, t.direntries e = { s.direntries e with payload := q }

section
variable {env : Env} {disks : Nat → Nat → UInt8} {p : Disks.HdStruct} {part m n d e i q : Nat} {s s' t u : Vfs}
  {v : Image} {l : List Nat}

theorem OnList.ne_zero {c : Nat} (h : OnList s c e) : c ≠ 0 := by
  cases h with
  | here hc => exact hc
  | further hc => exact hc

namespace Extends

theorem refl (s : Vfs) : Extends s s := ⟨fun _ h => h, fun _ _ => rfl, fun _ _ h => h, fun _ _ _ h => ⟨h, _, rfl⟩⟩

theorem trans (h : Extends s t) (h' : Extends t u) : Extends s u where
  dirs d hd := h'.dirs d (h.dirs d hd)
  inode_no d hd := (h'.inode_no d (h.dirs d hd)).trans (h.inode_no d hd)
  loaded d hd h0 := h'.loaded d (h.dirs d hd) (h.loaded d hd h0)
  entries d e hd he := by
    obtain ⟨ht, q, hq⟩ := h.entries d e hd he
    obtain ⟨hu, q', hq'⟩ := h'.entries d e (h.dirs d hd) ht
    exact ⟨hu, q', by rw [hq', hq]⟩

end Extends

theorem HasInode.payload (h : HasInode v s e n) (ht : t.direntries e = { s.direntries e with payload := q }) :
    HasInode v t e n := by
  refine ⟨?_, ?_, ?_, ?_, ?_⟩ <;> rw [ht]
  · exact h.inode_no
  · exact h.mode
  · exact h.type
  · exact h.size
  · exact h.blocks

/-- The entry of a directory is one of a directory. -/
theorem HasInode.type_iff (h : HasInode v s e n) : (s.direntries e).type = F_DIR ↔ v.IsDir n := by
  rw [h.type]
  exact Iff.rfl

/-- An entry shows what it did, as long as its directory has its number. -/
theorem EntryShows.payload (h : EntryShows v s n e i) (ht : t.direntries e = { s.direntries e with payload := q })
    (hdir : (s.direntries e).directory ≠ 0 →
      (t.dirs (s.direntries e).directory).inode_no = (s.dirs (s.direntries e).directory).inode_no) :
    EntryShows v t n e i where
  name := by
    rw [ht]
    exact h.name
  terminated := by
    rw [ht]
    exact h.terminated
  inode := h.inode.payload ht
  directory hft := by
    obtain ⟨hne, hno⟩ := h.directory hft
    rw [ht]
    exact ⟨hne, (hdir hne).trans hno⟩

namespace Faithful

theorem number (h : Faithful v p part m s) (hd : TreeDir s d) : v.Directory (s.dirs d).inode_no := by
  have hmounted := h.mounted d hd
  rw [h.fs_info d hd, h.numbered d hd] at hmounted
  exact (hmounted.resolve_left h.kept.mounted.mnt_info).2.2

theorem nonnull (h : Faithful v p part m s) (hd : TreeDir s d) : d ≠ 0 := fun h0 => h.not_null (h0 ▸ hd)

theorem entry_ne_zero (h : Faithful v p part m s) (hd : TreeDir s d) (he : OnList s (s.dirs d).entries e) : e ≠ 0 := by
  obtain ⟨l, hl, -⟩ := h.tree.listed d hd
  exact hl.ne_zero e (hl.onList.1 he)

theorem ownEntry (h : Faithful v p part m s) (hd : TreeDir s d) : OwnEntry s d where
  inode_no := h.numbered d hd
  fs_info := (h.fs_info _ (h.parent d hd)).trans (h.fs_info d hd).symm

/-- The block of a directory is the one of the image. -/
theorem dirBlock (h : Faithful (imageOf disks p) p part m s) (hv : (imageOf disks p).Sound)
    (hc : Confined (imageOf disks p) p) (hd : TreeDir s d) :
    s.dirBlockNo disks d = i_block ((imageOf disks p).inode (s.dirs d).inode_no) 0 ∧
      s.dirBlock disks d = (imageOf disks p).dirBlock (s.dirs d).inode_no := by
  have hno : s.dirBlockNo disks d = i_block ((imageOf disks p).inode (s.dirs d).inode_no) 0 := by
    unfold Vfs.dirBlockNo
    rw [h.fs_info d hd, h.kept.diskInode hv hc (.directory (h.number hd))]
  refine ⟨hno, ?_⟩
  unfold Vfs.dirBlock
  rw [h.fs_info d hd, h.kept.diskBlock, hno]
  rfl

/-- So it can be loaded. -/
theorem loadable (h : Faithful (imageOf disks p) p part m s) (hw : Working env disks)
    (hv : (imageOf disks p).Sound) (hc : Confined (imageOf disks p) p) (hd : TreeDir s d)
    (h0 : (s.dirs d).entries = 0) : Loadable env disks s d where
  debug := hw.debug
  fresh := hw.fresh
  generous := hw.generous
  serves := hw.serves
  usable := h.usable
  anchored := h.tree.anchored hd
  linked := ⟨h.nonnull hd, h.nonnull hd.parent, h.dir_entry d hd, h.dir_entry _ hd.parent⟩
  unloaded := h0
  mounted := by
    rw [h.fs_info d hd]
    exact h.kept.mounted
  entry_parent := h.nonnull (h.parent d hd)
  inode := by
    rw [h.fs_info _ (h.parent d hd), h.numbered d hd]
    exact h.kept.validInode hv hc (.directory (h.number hd))
  block := by
    rw [h.fs_info d hd, h.kept.block_size]
    exact hv.block
  block_size := by
    rw [h.fs_info d hd, h.kept.block_size]
    exact Nat.mod_lt _ (by decide)
  fits := by
    have hfits := hv.block_fits hc (h.number hd)
    have hends := hc.ends
    unfold Vfs.blockPlace
    rw [h.fs_info d hd, h.kept.volume_parts, h.kept.block_size, (h.ownEntry hd).readBlockNo disks,
      (h.dirBlock hv hc hd).1]
    have hio : IO_BLOCK_SIZE = 512 := rfl
    rw [hio] at hfits ⊢
    omega

end Faithful

/-! ## Loading -/

/-- Related lists have related elements. -/
theorem forall₂_right {α β : Type} {R : α → β → Prop} {as : List α} {bs : List β} (h : List.Forall₂ R as bs) :
    ∀ a ∈ as, ∃ b ∈ bs, R a b := by
  induction h with
  | nil => simp
  | cons hab _ ih =>
    intro a ha
    rcases List.mem_cons.1 ha with rfl | ha
    · exact ⟨_, List.mem_cons_self, hab⟩
    · obtain ⟨b, hb, hab⟩ := ih a ha
      exact ⟨b, List.mem_cons_of_mem _ hb, hab⟩

/-- A directory that was made for an entry has the number in its record, and no list. -/
theorem Made.new_directory {blk : List UInt8} (h : Made env s d blk t e i) (h0 : (t.direntries e).directory ≠ 0)
    (hself : (t.direntries e).directory ≠ d) (hup : (t.direntries e).directory ≠ (s.dirs d).parent) :
    t.dirs (t.direntries e).directory =
      ⟨(recordAt blk i).inode, (s.dirs d).fs_info, (s.dirs d).mnt_point, d, e, 0⟩ := by
  have hdir := h.directory
  unfold DirectoryFor at hdir
  split at hdir
  · exact absurd hdir h0
  · split at hdir
    · exact absurd hdir hself
    · split at hdir
      · exact absurd hdir hup
      · exact hdir.2.2.2

/-- The directory of an entry has the number in the record of the entry. -/
theorem Made.directory_number {blk : List UInt8} (h : Made env s d blk t e i) (hft : (recordAt blk i).file_type = 2)
    (ha : d ≠ 0 ∧ (s.dirs d).parent ≠ 0) (hself : (t.dirs d).inode_no = (s.dirs d).inode_no)
    (hup : (t.dirs (s.dirs d).parent).inode_no = (s.dirs (s.dirs d).parent).inode_no) :
    (t.direntries e).directory ≠ 0 ∧ (t.dirs (t.direntries e).directory).inode_no = (recordAt blk i).inode := by
  have hdir := h.directory
  unfold DirectoryFor at hdir
  rw [if_neg (not_not_intro hft)] at hdir
  split at hdir
  · rename_i hn
    rw [hdir, hself, hn]
    exact ⟨ha.1, rfl⟩
  · split at hdir
    · rename_i hn
      rw [hdir, hup, hn]
      exact ⟨ha.2, rfl⟩
    · obtain ⟨hne, -, -, hval⟩ := hdir
      exact ⟨hne, by rw [hval]⟩

/-- What a load leaves where it was. -/
theorem Hung.extends (h : Hung s d l t) (hs : VfsTree s) (h0 : (s.dirs d).entries = 0) :
    Extends s t where
  dirs _ hx := h.treeDir_old hs h0 hx
  inode_no x hx := h.inode_no (hs.used x hx)
  loaded x hx hne := by
    have hxd : x ≠ d := fun heq => hne (heq ▸ h0)
    rw [h.dirs x (hs.used x hx) hxd]
    exact hne
  entries x e hx he := by
    have hxd : x ≠ d := fun heq => he.ne_zero (heq ▸ h0)
    exact ⟨(h.onList hs hx hxd).2 he, h.entry e (hs.entry_used hx he)⟩

/-- A list stays what it is. -/
theorem Hung.listed (h : Hung s d l t) (hs : VfsTree s) {x : Nat} (hx : TreeDir s x) (hxd : x ≠ d)
    (hl : Listed v s x) : Listed v t x := by
  obtain ⟨k, hk, hshow⟩ := hl
  refine ⟨k, (h.lists hs hx hxd).2 hk, ?_⟩
  rw [h.inode_no (hs.used x hx)]
  -- the entries are on a list of the tree, and their directories in it
  have hmem : ∀ e ∈ k, OnList s (s.dirs x).entries e := fun e he => hk.onList.2 he
  refine ((List.forall₂_and_left _ _).2 ⟨hmem, hshow⟩).imp fun e i hei => ?_
  obtain ⟨he, hei⟩ := hei
  obtain ⟨q, hq⟩ := h.entry e (hs.entry_used hx he)
  exact hei.payload hq fun hne => h.inode_no (hs.used _ (hx.child he hne))

/-- Loading leaves the filesystems alone. -/
theorem load_sameVolumes {r : Int} (hf : FreshBlocks env) (ha : Anchored s d) (h0 : (s.dirs d).entries = 0)
    (hrun : ext2_get_direntries env d s = (.ok r, t)) (hr : 0 ≤ r) : SameVolumes s t := by
  obtain ⟨-, inode, s', l, is, -, hpay, -, hbuilt, -⟩ := load_made hf ha h0 hrun hr
  exact hpay.sameVolumes.trans hbuilt.grown.sameVolumes

/-- The entry made of a record shows it. -/
theorem Made.shows (h : Made env s' d (s.dirBlock disks d) t e i) (hl : Loadable env disks s d)
    (hpay : PayloadOnly s (s.dirs d).dir_entry s')
    (hvalid : ValidInode s (s.dirs d).fs_info (recordAt (s.dirBlock disks d) i).inode)
    (hinode : ∀ n, n = (recordAt (s.dirBlock disks d) i).inode → s.diskInode disks (s.dirs d).fs_info n = v.inode n)
    (hblk : s.dirBlock disks d = v.dirBlock n) (hself : (t.dirs d).inode_no = (s.dirs d).inode_no)
    (hup : (t.dirs (s.dirs d).parent).inode_no = (s.dirs (s.dirs d).parent).inode_no) : EntryShows v t n e i := by
  obtain ⟨-, ⟨rest, hname⟩, hmode, htype, hsize, hblocks⟩ := h.carries hl hpay.sameVolumes (by rw [hpay.dirs]) hvalid
  have hfile := h.file
  rw [hinode _ rfl] at hmode htype hsize hblocks
  rw [hblk] at hfile hname hmode htype hsize hblocks h
  refine ⟨congrArg Prod.fst hfile, ?_, ⟨congrArg Prod.snd hfile, hmode, htype, hsize, hblocks⟩, fun hft => ?_⟩
  · rw [hname]
    simp
  · refine h.directory_number hft ⟨hl.linked.own, ?_⟩ ?_ ?_
    · rw [hpay.dirs]
      exact hl.linked.parent
    · rw [hself, hpay.dirs]
    · rw [hpay.dirs]
      exact hup

/-- A directory of the tree is loaded, and memory is part of the disk as before. -/
theorem Faithful.load (h : Faithful (imageOf disks p) p part m s) (hw : Working env disks)
    (hv : (imageOf disks p).Sound) (hc : Confined (imageOf disks p) p) (hd : TreeDir s d)
    (h0 : (s.dirs d).entries = 0) : ∃ t, ext2_get_direntries env d s = (.ok SUCCESS, t) ∧
      Faithful (imageOf disks p) p part m t ∧ Extends s t ∧ (t.dirs d).entries ≠ 0 := by
  have hl := h.loadable hw hv hc hd h0
  have ha := h.tree.anchored hd
  have hnumber := h.number hd
  obtain ⟨hno, hblk⟩ := h.dirBlock hv hc hd
  have htiles : Tiles (s.dirBlock disks d) 0 ((imageOf disks p).records (s.dirs d).inode_no) := by
    rw [hblk]
    exact hv.tiles hnumber
  have hnamed : ∀ i ∈ (imageOf disks p).records (s.dirs d).inode_no,
      (imageOf disks p).Named (recordAt (s.dirBlock disks d) i).inode := by
    rw [hblk]
    exact fun i hi => hv.record_named hc hnumber hi
  have hvalid : ∀ i ∈ (imageOf disks p).records (s.dirs d).inode_no,
      ValidInode s (s.dirs d).fs_info (recordAt (s.dirBlock disks d) i).inode := by
    rw [h.fs_info d hd]
    exact fun i hi => h.kept.validInode hv hc (hnamed i hi)
  have hread := (h.ownEntry hd).readBlock disks
  obtain ⟨t, hrun, husable⟩ := load_usable hl (by rwa [hread]) (by rwa [hread])
  obtain ⟨s', l, hpay, hlist, hmade⟩ := hl.made (by rwa [hread]) hrun
  rw [hread] at hmade
  obtain ⟨l', hhung⟩ := load_hung hw.fresh ha h0 hrun (Int.le_refl 0)
  obtain rfl := Sll.unique hlist hhung.list
  have hdelivers : env.Delivers disks := fun i bd sectors lba => .inr (by rw [hw.serves])
  have hisolated := h.toIsolated.load hw.fresh hdelivers hc hd hrun
  have hext := hhung.extends h.tree h0
  -- the new entries show the records
  have hnew : Listed (imageOf disks p) t d := by
    refine ⟨l, hlist, ?_⟩
    rw [hext.inode_no d hd]
    refine (((List.forall₂_and_left _ _).2 ⟨hvalid, ((List.forall₂_and_left _ _).2 ⟨hnamed, hmade.flip⟩)⟩).flip).imp ?_
    rintro e i ⟨hvi, hni, hei⟩
    refine hei.shows hl hpay hvi (fun n hn => ?_) hblk (hext.inode_no d hd) (hext.inode_no _ hd.parent)
    rw [h.fs_info d hd]
    exact h.kept.diskInode hv hc (hn ▸ hni)
  -- and a new directory is the one of its entry
  have hcases : ∀ x, TreeDir t x → TreeDir s x ∨ (t.dirs x).fs_info = m ∧ (t.dirs x).dir_entry ≠ 0 ∧
      (t.direntries (t.dirs x).dir_entry).inode_no = (t.dirs x).inode_no ∧ (t.dirs x).entries = 0 := by
    intro x hx
    refine (hhung.treeDir h.tree hd hx).imp_right ?_
    rintro ⟨e, he, rfl, hfresh, -⟩
    obtain ⟨i, -, hei⟩ := forall₂_right hmade e he
    have hval := hei.new_directory (fun heq => hisolated.not_null (heq ▸ hx)) (fun heq => hfresh (heq ▸ ha.own))
      fun heq => hfresh (by rw [heq, hpay.dirs]; exact ha.parent)
    rw [hval, hpay.dirs, h.fs_info d hd]
    exact ⟨rfl, hei.pointer, hei.inode_no, rfl⟩
  have hinfo : ∀ x, TreeDir s x → (t.dirs x).fs_info = m := by
    intro x hx
    by_cases hxd : x = d
    · obtain ⟨y, hy⟩ := hhung.self
      rw [hxd, hy]
      exact h.fs_info d hd
    · rw [hhung.dirs x (h.tree.used x hx) hxd]
      exact h.fs_info x hx
  have hentry : ∀ x, TreeDir s x → (t.dirs x).dir_entry = (s.dirs x).dir_entry :=
    fun x hx => hhung.dir_entry (h.tree.used x hx)
  have hmounted := (hisolated.mounted _ .root).resolve_left (by rw [hinfo _ .root]; exact h.kept.mounted.mnt_info)
  rw [hinfo _ .root] at hmounted
  have hvolumes := load_sameVolumes hw.fresh ha h0 hrun (Int.le_refl 0)
  refine ⟨t, hrun, ⟨hisolated, husable, hvolumes.kept hmounted.1 h.kept, fun x hx => ?_, fun x hx => ?_, fun x hx => ?_,
    fun x hx => ?_, fun x e hx he => ?_⟩, hext, fun hnone => ?_⟩
  · rcases hcases x hx with hold | hnew
    · exact hinfo x hold
    · exact hnew.1
  · rcases hcases x hx with hold | hnew
    · rw [hentry x hold]
      exact h.dir_entry x hold
    · exact hnew.2.1
  · rcases hcases x hx with hold | hnew
    · obtain ⟨q, hq⟩ := hhung.entry _ (h.tree.own x hold)
      rw [hentry x hold, hext.inode_no x hold, hq]
      exact h.numbered x hold
    · exact hnew.2.2.1
  · rcases hcases x hx with hold | hnew
    · by_cases hxd : x = d
      · exact .inr (hxd ▸ hnew)
      · rw [hhung.dirs x (h.tree.used x hold) hxd]
        exact (h.listed x hold).imp_right (hhung.listed h.tree hold hxd)
    · exact .inl hnew.2.2.2
  · rcases hcases x hx with hold | hnew
    · by_cases hxd : x = d
      · subst hxd
        obtain ⟨i, -, hei⟩ := forall₂_right hmade e (hlist.onList.1 he)
        exact hei.parent
      · have he' := (hhung.onList h.tree hold hxd).1 he
        obtain ⟨q, hq⟩ := hhung.entry e (h.tree.entry_used hold he')
        rw [hq]
        exact h.inside x e hold he'
    · exact absurd hnew.2.2.2 he.ne_zero
  · -- a directory has records
    have hnil : l = [] := by
      unfold Lists at hlist
      rw [hnone] at hlist
      exact hlist.eq_nil
    rw [hnil] at hmade
    exact hv.records_ne_nil hnumber (List.forall₂_nil_left_iff.1 hmade)

/-! ## One component -/

/-- The entry `e` is on the list of its parent, a directory of the tree with the number `q`. -/
structure InDirectory (s : Vfs) (e q : Nat) : Prop where
  parent : TreeDir s (s.direntries e).parent
  entries : OnList s (s.dirs (s.direntries e).parent).entries e
  inode_no : (s.dirs (s.direntries e).parent).inode_no = q

/-- How `namei` tells what the disk says: by an entry of the tree that has the inode and its parent, or by an error. -/
def Answers (v : Image) (s : Vfs) : Answer → Except Int Nat → Prop
  | .found q n, r => ∃ e, r = .ok e ∧ InDirectory s e q ∧ HasInode v s e n
  | .missing, r => r = .error (-ENOENT)
  | .notDirectory, r => r = .error (-ENOTDIR)

/-- An answer stays right. -/
theorem Answers.extends {a : Answer} {r : Except Int Nat} (h : Answers v s a r) (hext : Extends s t) :
    Answers v t a r := by
  cases a with
  | found q n =>
    obtain ⟨e, rfl, ⟨hd, he, hno⟩, hn⟩ := h
    obtain ⟨ht, x, hx⟩ := hext.entries _ e hd he
    have hparent : (t.direntries e).parent = (s.direntries e).parent := by rw [hx]
    refine ⟨e, rfl, ⟨?_, ?_, ?_⟩, hn.payload hx⟩
    · rw [hparent]
      exact hext.dirs _ hd
    · rw [hparent]
      exact ht
    · rw [hparent]
      exact (hext.inode_no _ hd).trans hno
  | missing => exact h
  | notDirectory => exact h

/-- Searches in related lists end at related elements. -/
theorem forall₂_find {α β : Type} {R : α → β → Prop} {f : α → Bool} {g : β → Bool} (hfg : ∀ a b, R a b → f a = g b)
    {as : List α} {bs : List β} (h : List.Forall₂ R as bs) : as.find? f = none ∧ bs.find? g = none ∨
      ∃ a b, as.find? f = some a ∧ bs.find? g = some b ∧ R a b := by
  induction h with
  | nil => exact .inl ⟨rfl, rfl⟩
  | @cons a b as bs hab _ ih =>
    rw [List.find?_cons, List.find?_cons, ← hfg a b hab]
    cases f a
    · exact ih
    · exact .inr ⟨a, b, rfl, rfl, hab⟩

/-- A component is found in the list of entries as it is among the records. -/
theorem find_shows (hl : List.Forall₂ (EntryShows v s n) l (v.records n)) (c : List UInt8) :
    (l.find? fun e => cstr (s.direntries e).name = if c = [] then dot else c) = none ∧ v.lookup n c = none ∨
      ∃ e i, (l.find? fun e => cstr (s.direntries e).name = if c = [] then dot else c) = some e ∧
        EntryShows v s n e i ∧ i ∈ v.records n ∧ v.lookup n c = some (recordAt (v.dirBlock n) i).inode := by
  unfold Image.lookup
  have hsame : ∀ e i, EntryShows v s n e i → decide (cstr (s.direntries e).name = if c = [] then dot else c) =
      decide ((fileAt (v.dirBlock n) i).1 = if c = [] then dot else c) := fun e i h => by rw [h.name]
  rcases forall₂_find hsame hl with ⟨he, hi⟩ | ⟨e, i, he, hi, hei⟩
  · exact .inl ⟨he, by rw [hi]; rfl⟩
  · exact .inr ⟨e, i, he, hei, List.mem_of_find?_eq_some hi, by rw [hi]; rfl⟩

namespace Faithful

theorem inDirectory (h : Faithful v p part m s) (hd : TreeDir s d) (he : OnList s (s.dirs d).entries e) :
    InDirectory s e (s.dirs d).inode_no := by
  refine ⟨?_, ?_, ?_⟩ <;> rw [h.inside d e hd he]
  · exact hd
  · exact he

variable {buf post c : List UInt8} {b x : UInt8} {fuel rem pos : Nat} {g : Nat → Prog Vfs Unit}

/-- In a loaded directory the search is over the records. -/
theorem component (h : Faithful (imageOf disks p) p part m s) (hv : (imageOf disks p).Sound) (hd : TreeDir s d)
    (hne : (s.dirs d).entries ≠ 0) (hb : b = 0 ∨ b = slash) (hbuf : buf.drop pos = c ++ b :: post) (hc : c.length < 256)
    (h0 : 0 ∉ c) (hslash : slash ∉ c) :
    (imageOf disks p).lookup (s.dirs d).inode_no c = none ∧
        namei_recursive g buf (fuel + 1) pos d s = (.ok (.error (-ENOENT)), s) ∨
      ∃ e i, OnList s (s.dirs d).entries e ∧ EntryShows (imageOf disks p) s (s.dirs d).inode_no e i ∧
        i ∈ (imageOf disks p).records (s.dirs d).inode_no ∧ (imageOf disks p).lookup (s.dirs d).inode_no c =
          some (recordAt ((imageOf disks p).dirBlock (s.dirs d).inode_no) i).inode ∧
        namei_recursive g buf (fuel + 1) pos d s =
          namei_follow g buf fuel (if b = 0 then pos + c.length else pos + c.length + 1) e s := by
  obtain ⟨l, hl, hshow⟩ := (h.listed d hd).resolve_left hne
  have hname : 0 ∉ (if c = [] then dot else c) := by
    split
    · decide
    · exact h0
  have hlen : l.length < 2 ^ 32 := by
    have hroom := (hv.tiles (h.number hd)).room
    have hsize := (imageOf disks p).dirBlock_length (s.dirs d).inode_no
    have hlt : (imageOf disks p).blockSize < 2 ^ 32 := Nat.mod_lt _ (by decide)
    rw [hshow.length_eq]
    omega
  have hterm : ∀ e ∈ l, 0 ∈ (s.direntries e).name := by
    intro e he
    obtain ⟨i, -, hei⟩ := forall₂_right hshow e he
    exact hei.terminated
  have hfind := namei_find_run hname l (2 ^ 32) _ hlen hl hterm
  rw [namei_recursive_copied (h.nonnull hd) hb hbuf hc h0 hslash, if_neg hne, Prog.bind_of_ok hfind]
  rcases find_shows hshow c with ⟨hnone, hlookup⟩ | ⟨e, i, he, hei, hi, hlookup⟩
  · rw [hnone]
    exact .inl ⟨hlookup, rfl⟩
  · have hmem := List.mem_of_find?_eq_some he
    rw [he]
    refine .inr ⟨e, i, hl.onList.2 hmem, hei, hi, hlookup, ?_⟩
    dsimp only [Option.getD]
    rw [if_neg (hl.ne_zero e hmem)]

/-- `get_direntries` returns with the directory loaded, and does nothing if it was. -/
theorem gets (h : Faithful (imageOf disks p) p part m s) (hw : Working env disks)
    (hv : (imageOf disks p).Sound) (hc : Confined (imageOf disks p) p) (hd : TreeDir s d) :
    ∃ t, get_direntries env d s = (.ok (), t) ∧ Faithful (imageOf disks p) p part m t ∧ Extends s t ∧
      (t.dirs d).entries ≠ 0 ∧ ((s.dirs d).entries ≠ 0 → t = s) := by
  have hm : (s.dirs d).fs_info ≠ 0 := by
    rw [h.fs_info d hd]
    exact h.kept.mounted.mnt_info
  by_cases h0 : (s.dirs d).entries = 0
  · obtain ⟨t, hrun, ht, hext, hne⟩ := h.load hw hv hc hd h0
    refine ⟨t, ?_, ht, hext, hne, fun hloaded => absurd h0 hloaded⟩
    unfold get_direntries
    rw [Prog.bind_of_ok (load_dir_run (h.nonnull hd) s), Prog.bind_of_ok (load_mntp_run hm s)]
    exact Prog.bind_of_ok hrun
  · exact ⟨s, get_direntries_loaded env (h.nonnull hd) hm h0, h, .refl s, h0, fun _ => rfl⟩

/-- Before the end of the path the search goes on in the directory with the number in the record. -/
theorem follow (h : Faithful (imageOf disks p) p part m s) (hw : Working env disks)
    (hv : (imageOf disks p).Sound) (hc : Confined (imageOf disks p) p) (hd : TreeDir s d)
    (he : OnList s (s.dirs d).entries e) (hshow : EntryShows (imageOf disks p) s (s.dirs d).inode_no e i)
    (hi : i ∈ (imageOf disks p).records (s.dirs d).inode_no) (hx : buf[rem]? = some x) (hx0 : x ≠ 0) :
    ¬ (imageOf disks p).IsDir (recordAt ((imageOf disks p).dirBlock (s.dirs d).inode_no) i).inode ∧
        namei_follow (get_direntries env) buf fuel rem e s = (.ok (.error (-ENOENT)), s) ∨
      (imageOf disks p).IsDir (recordAt ((imageOf disks p).dirBlock (s.dirs d).inode_no) i).inode ∧
        ∃ t q, Faithful (imageOf disks p) p part m t ∧ Extends s t ∧ TreeDir t q ∧ (t.dirs q).entries ≠ 0 ∧
          (t.dirs q).inode_no = (recordAt ((imageOf disks p).dirBlock (s.dirs d).inode_no) i).inode ∧
          namei_follow (get_direntries env) buf fuel rem e s =
            namei_recursive (get_direntries env) buf fuel rem q t := by
  have he0 := h.entry_ne_zero hd he
  have hload := load_direntry_run he0 s
  unfold namei_follow
  rw [Prog.bind_of_ok hload, Prog.bind_of_ok (char_at_run hx s), if_neg hx0]
  by_cases hdir : (imageOf disks p).IsDir (recordAt ((imageOf disks p).dirBlock (s.dirs d).inode_no) i).inode
  swap
  · have htype : (s.direntries e).type ≠ F_DIR := fun ht => hdir (hshow.inode.type.symm.trans ht)
    rw [if_pos htype]
    exact .inl ⟨hdir, rfl⟩
  have htype : (s.direntries e).type = F_DIR := hshow.inode.type.trans hdir
  obtain ⟨hne, hno⟩ := hshow.directory ((hv.typed _ (h.number hd) i hi).2 hdir)
  have hchild := hd.child he hne
  obtain ⟨t, hrun, ht, hext, hloaded, hsame⟩ := h.gets hw hv hc hchild
  refine .inr ⟨hdir, t, _, ht, hext, hext.dirs _ hchild, hloaded, (hext.inode_no _ hchild).trans hno, ?_⟩
  rw [if_neg (not_not_intro htype), Prog.bind_of_ok (load_dir_run hne s)]
  by_cases h0 : (s.dirs (s.direntries e).directory).entries = 0
  · have hagain : load_direntry e t = (.ok (t.direntries e), t) := load_direntry_run he0 t
    obtain ⟨-, q, hq⟩ := hext.entries d e hd he
    have hdirectory : (t.direntries e).directory = (s.direntries e).directory := by rw [hq]
    rw [if_pos ⟨h0, htype⟩]
    refine (Prog.bind_of_ok hrun).trans ?_
    refine (Prog.bind_of_ok hagain).trans ?_
    rw [hdirectory]
  · rw [hsame h0, if_neg fun hand => h0 hand.1]
    exact Prog.bind_of_ok hload

end Faithful

/-! ## A path -/

theorem splitOn_ne_trailing (x : UInt8) (xs : List UInt8) : (x :: xs).splitOn slash ≠ [[]] := by
  rw [List.splitOn_cons_eq_if_modifyHead]
  split
  · intro hc
    exact List.splitOn_ne_nil slash xs (List.cons.inj hc).2
  · cases hxs : xs.splitOn slash with
    | nil => exact absurd hxs (List.splitOn_ne_nil _ _)
    | cons y ys => simp

/-- From a loaded directory on, `namei_recursive` ends where the walk over the image does. -/
theorem namei_recursive_resolves (hw : Working env disks) (hv : (imageOf disks p).Sound)
    (hc : Confined (imageOf disks p) p) {buf tail : List UInt8} : ∀ (fuel pos : Nat) (rest : List UInt8) (d : Nat)
      (s : Vfs), Faithful (imageOf disks p) p part m s → TreeDir s d → (s.dirs d).entries ≠ 0 → rest ≠ [] →
      rest.length < fuel → buf.drop pos = rest ++ 0 :: tail → 0 ∉ rest → (∀ c ∈ rest.splitOn slash, c.length < 256) →
      ∃ r t, namei_recursive (get_direntries env) buf fuel pos d s = (.ok r, t) ∧
        Faithful (imageOf disks p) p part m t ∧ Extends s t ∧
        Answers (imageOf disks p) t ((imageOf disks p).walk (s.dirs d).inode_no (rest.splitOn slash)) r := by
  intro fuel
  induction fuel with
  | zero =>
    intro pos rest d s _ _ _ _ hfuel
    cases hfuel
  | succ fuel ih =>
    intro pos rest d s h hd hloaded hne hfuel hbuf h0 hcomp
    have hat : ∀ i, buf[pos + i]? = (rest ++ 0 :: tail)[i]? := fun i => by rw [← hbuf, List.getElem?_drop]
    by_cases hs : slash ∈ rest
    · obtain ⟨c, rest', rfl, hsc⟩ := List.eq_append_cons_of_mem hs
      have hsplit : (c ++ slash :: rest').splitOn slash = c :: rest'.splitOn slash := by
        rw [List.splitOn_append_cons_self, List.splitOn_eq_singleton hsc]
        rfl
      rw [hsplit] at hcomp ⊢
      simp only [List.mem_append, List.mem_cons, not_or] at h0
      have hbuf' : buf.drop pos = c ++ slash :: (rest' ++ 0 :: tail) := by simpa using hbuf
      have hdrop : buf.drop (pos + c.length + 1) = rest' ++ 0 :: tail := by
        rw [← List.drop_drop, ← List.drop_drop, hbuf']
        simp
      rw [Image.walk]
      rcases h.component (g := get_direntries env) hv hd hloaded (.inr rfl) hbuf' (hcomp c (by simp)) h0.1
        hsc with ⟨hnone, hrun⟩ | ⟨e, i, he, hshow, hi, hlookup, hrun⟩
      · rw [hnone, hrun]
        exact ⟨_, s, rfl, h, .refl s, rfl⟩
      rw [hlookup, hrun, if_neg (by decide : slash ≠ 0)]
      dsimp only [Option.elim]
      rw [if_neg (List.splitOn_ne_nil _ _)]
      cases rest' with
      | nil =>
        -- a trailing slash asks for a directory
        have hnul : buf[pos + c.length + 1]? = some 0 := by
          have := hat (c.length + 1)
          simpa [Nat.add_assoc] using this
        have hprev : buf[pos + c.length + 1 - 1]? = some slash := by
          have := hat c.length
          simpa using this
        rw [namei_follow_end _ fuel (h.entry_ne_zero hd he) (by omega) hnul hprev]
        refine ⟨_, s, rfl, h, .refl s, ?_⟩
        have hiff := hshow.inode.type_iff
        have hend : ([] : List UInt8).splitOn slash = [[]] := rfl
        rw [hend, if_pos rfl, if_pos rfl]
        by_cases ht : (imageOf disks p).IsDir (recordAt ((imageOf disks p).dirBlock (s.dirs d).inode_no) i).inode
        · rw [if_neg (not_not_intro ht), if_neg fun hand => hand.2 (hiff.2 ht)]
          exact ⟨e, rfl, h.inDirectory hd he, hshow.inode⟩
        · rw [if_pos ht, if_pos ⟨rfl, fun heq => ht (hiff.1 heq)⟩]
          rfl
      | cons x xs =>
        have hx0 : x ≠ 0 := fun hx => h0.2.2 (by simp [hx])
        have hx : buf[pos + c.length + 1]? = some x := by
          have := congrArg (fun l => l[0]?) hdrop
          simpa using this
        have hnot := splitOn_ne_trailing x xs
        rw [if_neg hnot, if_neg hnot]
        rcases h.follow hw hv hc hd he hshow hi hx hx0 with ⟨hdir, hend⟩ | ⟨hdir, t, q, ht, hext, hq, hqe, hqn,
          hon⟩
        · rw [if_pos hdir, hend]
          exact ⟨_, s, rfl, h, .refl s, rfl⟩
        · rw [if_neg (not_not_intro hdir), hon]
          obtain ⟨r, u, hr, hu, hext', hans⟩ := ih (pos + c.length + 1) (x :: xs) q t ht hq hqe (by simp)
            (by simp only [List.length_append, List.length_cons] at hfuel ⊢; omega) hdrop h0.2.2
            fun c' hc' => hcomp c' (List.mem_cons_of_mem _ hc')
          rw [hqn] at hans
          exact ⟨r, u, hr, hu, hext.trans hext', hans⟩
    · have hsplit : rest.splitOn slash = [rest] := List.splitOn_eq_singleton hs
      rw [hsplit] at hcomp ⊢
      rw [Image.walk]
      rcases h.component (g := get_direntries env) hv hd hloaded (.inl rfl) hbuf (hcomp rest (by simp)) h0 hs
        with ⟨hnone, hrun⟩ | ⟨e, i, he, hshow, hi, hlookup, hrun⟩
      · rw [hnone, hrun]
        exact ⟨_, s, rfl, h, .refl s, rfl⟩
      rw [hlookup, hrun, if_pos rfl]
      have hpos : 0 < rest.length := List.length_pos_of_ne_nil hne
      have hnul : buf[pos + rest.length]? = some 0 := by
        have := hat rest.length
        simpa using this
      -- the last character of the component is no slash
      have hlast : buf[pos + rest.length - 1]? = some (rest.getLast hne) := by
        have := hat (rest.length - 1)
        rw [List.getElem?_append_left (by omega), ← List.getLast?_eq_getElem?,
          List.getLast?_eq_getLast_of_ne_nil hne] at this
        rw [Nat.add_sub_assoc hpos, this]
      have hne_slash : rest.getLast hne ≠ slash := fun heq => hs (heq ▸ List.getLast_mem hne)
      rw [namei_follow_end _ fuel (h.entry_ne_zero hd he) (by omega) hnul hlast]
      refine ⟨_, s, rfl, h, .refl s, ?_⟩
      dsimp only [Option.elim]
      rw [if_pos rfl, if_neg fun hand => hne_slash hand.1]
      exact ⟨e, rfl, h.inDirectory hd he, hshow.inode⟩

/-- A path whose end `namei` sees: not empty and, if it is absolute, of three bytes or more, with components that fit
into the array they are copied to. -/
structure Walkable (path : List UInt8) : Prop where
  nonempty : path ≠ []
  absolute : path.head? = some slash → 3 ≤ path.length
  string : 0 ∉ path
  fits : ∀ c ∈ components path, c.length < 256

/-- One lookup: the answer is the one of the disk, and what was in memory stays. -/
theorem namei_resolves (hw : Working env disks) (hv : (imageOf disks p).Sound) (hc : Confined (imageOf disks p) p)
    {path : List UInt8} (tail : List UInt8) (hpath : Walkable path) (h : Faithful (imageOf disks p) p part m s)
    (hroot : (s.dirs root_dir).entries ≠ 0) (htwo : (s.dirs root_dir).inode_no = 2) :
    ∃ r t, namei (get_direntries env) (path ++ 0 :: tail) s = (.ok r, t) ∧
      Faithful (imageOf disks p) p part m t ∧ Extends s t ∧
        Answers (imageOf disks p) t ((imageOf disks p).resolve path) r := by
  obtain ⟨hne, habs, h0, hfits⟩ := hpath
  unfold components at hfits
  by_cases hslash : path.head? = some slash
  · have hlen := habs hslash
    rw [if_pos hslash] at hfits
    obtain ⟨x, y, rest, rfl⟩ : ∃ x y rest, path = slash :: x :: y :: rest := by
      match path, hslash, hlen with
      | a :: x :: y :: rest, hslash, _ =>
        obtain rfl : a = slash := by simpa using hslash
        exact ⟨x, y, rest, rfl⟩
    have hy : y ≠ 0 := fun hy => h0 (by simp [hy])
    rw [namei_absolute _ rfl (x := y) rfl, if_neg hy]
    have hres : (imageOf disks p).resolve (slash :: x :: y :: rest) =
        (imageOf disks p).walk (s.dirs root_dir).inode_no ((x :: y :: rest).splitOn slash) := by
      rw [htwo]
      rfl
    rw [hres]
    refine namei_recursive_resolves hw hv hc _ 1 (x :: y :: rest) root_dir s h .root hroot (by simp) ?_ rfl ?_ hfits
    · simp only [List.length_append, List.length_cons]
      omega
    · exact fun hm => h0 (List.mem_cons_of_mem _ hm)
  · rw [if_neg hslash] at hfits
    obtain ⟨a, rest, rfl⟩ := List.exists_cons_of_ne_nil hne
    have ha : a ≠ slash := fun heq => hslash (by simp [heq])
    have hres : (imageOf disks p).resolve (a :: rest) =
        (imageOf disks p).walk (s.dirs root_dir).inode_no ((a :: rest).splitOn slash) := by
      unfold Image.resolve components
      rw [if_neg hslash, htwo]
    have hrun : namei (get_direntries env) (a :: rest ++ 0 :: tail) s = namei_recursive (get_direntries env)
        (a :: rest ++ 0 :: tail) ((a :: rest ++ 0 :: tail).length + 1) 0 root_dir s := by
      unfold namei
      refine (Prog.bind_of_ok (char_at_run (c := a) rfl s)).trans ?_
      rw [if_neg ha]
    rw [hrun, hres]
    refine namei_recursive_resolves hw hv hc _ 0 (a :: rest) root_dir s h .root hroot (by simp) ?_ rfl h0 hfits
    simp only [List.length_append, List.length_cons]
    omega

/-! ## The mount -/

/-- A mount of a sound image comes to the load of the mount point. -/
theorem mount_loads (hw : Working env disks) (hv : (imageOf disks p).Sound) (hc : Confined (imageOf disks p) p)
    (hp : s.parts part = p) (hattached : Attached s part) (hl : s.heap_locked = false) (hd : d ≠ 0)
    (he : (s.dirs d).dir_entry ≠ 0) : ∃ f m g, FreshMount s f m g ∧ f ≠ 0 ∧ m ≠ 0 ∧ g ≠ 0 ∧
      (∃ rest, env.readSuperblock s part = (imageOf disks p).superblock ++ rest) ∧
      (env.tableReply s part).stored = (imageOf disks p).volume.table ∧
      ∀ t, ext2_get_direntries env d ((env.tableRead s part f m g).rooted d m) = (.ok SUCCESS, t) →
        ext2_mount env part d s = (.ok SUCCESS, t) := by
  have hdelivers : env.Delivers disks := fun i bd sectors lba => .inr (by rw [hw.serves])
  have hret : ∀ i q, (env.reply i q).ret = (q.sectors : Int) := fun i q => by rw [Env.reply, hw.serves]
  have hsuper : (env.superblockReply s part).ret = SB_SECT_SIZE := hret _ _
  have htable : 0 ≤ (env.tableReply s part).ret := by
    unfold Env.tableReply
    rw [hret]
    exact Int.natCast_nonneg _
  have hsb := readSuperblock_copies hdelivers hc hp (by rw [hsuper]; decide)
  have hstored := table_delivered hdelivers hc hp hv.signature hsb htable
  have hprobed : env.probed s part = SUCCESS := by
    have hsuperblock := superblock_delivered (i := s.reads.length) hdelivers hc hp
      (by rw [hret]; exact Int.natCast_nonneg _)
    unfold Env.probed
    dsimp only
    rw [hret, hsuperblock, overwrite_full (by rw [Image.superblock_length, List.length_map, List.length_range]),
      if_pos hv.signature]
    exact if_neg (lt_irrefl _)
  have hblocks : blocks_per_group (env.readSuperblock s part) ≠ 0 := by
    obtain ⟨rest, hrest⟩ := hsb
    have hlen := (imageOf disks p).superblock_length
    have hne := hv.blocks
    rw [hrest]
    generalize (imageOf disks p).superblock = sb at hlen hne
    have hper : blocks_per_group (sb ++ rest) = blocks_per_group sb := le32_append (by omega)
    rwa [hper]
  obtain ⟨f, hf⟩ : ∃ f, env.kmalloc s.kmallocs s.blocks 2048 = f := ⟨_, rfl⟩
  obtain ⟨m, hm⟩ : ∃ m, env.kmalloc (s.kmallocs + 1) ((f, .ext2fs) :: s.blocks) 12 = m := ⟨_, rfl⟩
  obtain ⟨g, hg⟩ : ∃ g, env.kmalloc (s.kmallocs + 2) ((m, .mntp) :: (f, .ext2fs) :: s.blocks)
    (gdtBytes (env.readSuperblock s part)) = g := ⟨_, rfl⟩
  have hf0 : f ≠ 0 := hf ▸ hw.generous _ _ _
  have hm0 : m ≠ 0 := hm ▸ hw.generous _ _ _
  have hg0 : g ≠ 0 := hg ▸ hw.generous _ _ _
  refine ⟨f, m, g, freshMount_of hw.fresh hf hf0 hm hm0 hg, hf0, hm0, hg0, hsb, hstored, fun t hload => ?_⟩
  have hroom : (env.tableReply s part).stored.length ≤ (((env.mounting s part f m).tabled f g
      (s.tableRequest part (env.readSuperblock s part))).gdts g).length := by
    have hlen : (((env.mounting s part f m).tabled f g
        (s.tableRequest part (env.readSuperblock s part))).gdts g).length = gdtBytes (env.readSuperblock s part) := by
      simp [Vfs.tabled, mounting_fsinfos, resize]
    unfold gdtBytes at hlen
    rw [(superblock_table hsb).1, Nat.mod_eq_of_lt hv.table] at hlen
    rw [hlen, hstored, Image.table_length]
  have hstore : store_gdt g (env.tableReply s part).stored ((env.mounting s part f m).tabled f g
      (s.tableRequest part (env.readSuperblock s part))) = (.ok (), env.tableRead s part f m g) := by
    unfold store_gdt
    rw [bind_of_ok (get_apply _)]
    by_cases hnil : (env.tableReply s part).stored = []
    · -- nothing to store
      have hpos := hc.table_pos hv.signature
      have hlen := Image.table_length (imageOf disks p)
      rw [← hstored, hnil, List.length_nil] at hlen
      have hio : IO_BLOCK_SIZE = 512 := rfl
      rw [hio] at hlen
      omega
    · rw [if_neg hnil, if_neg hg0, if_pos hroom]
      rfl
  have hdirs := tableRead_dirs env s part f m g
  have hsuper' : ¬ (env.superblockReply s part).ret < SB_SECT_SIZE := by
    rw [hsuper]
    exact lt_irrefl _
  rw [ext2_mount_run env s part d hattached (by rw [hprobed]; decide) hl hf hf0 hm hm0, if_neg hsuper',
    mount_table_mounting env s part d f m hattached hf0 hl hblocks hg, bind_of_ok hstore, if_neg (Int.not_lt.2 htable),
    mount_tree_run env _ g f m hd (by rw [hdirs]; exact he), bind_of_ok hload]
  rfl

/-- What a mount of the root leaves to be loaded is part of the disk. -/
theorem tableRead_faithful {f g : Nat} (hv : (imageOf disks p).Sound) (hc : Confined (imageOf disks p) p)
    (h : Isolated (imageOf disks p) p part s) (husable : Usable s) (hattached : Attached s part)
    (honly : ∀ d, TreeDir s d → d = root_dir) (hentry : (s.dirs root_dir).dir_entry ≠ 0)
    (h0 : (s.dirs root_dir).entries = 0) (hfresh : FreshMount s f m g) (hf0 : f ≠ 0) (hm0 : m ≠ 0) (hg0 : g ≠ 0)
    (hsb : ∃ rest, env.readSuperblock s part = (imageOf disks p).superblock ++ rest)
    (hstored : (env.tableReply s part).stored = (imageOf disks p).volume.table) :
    Faithful (imageOf disks p) p part m ((env.tableRead s part f m g).rooted root_dir m) := by
  have hkept : Renumbered s root_dir ((env.tableRead s part f m g).rooted root_dir m) :=
    tableRead_rooted hfresh part root_dir
  have hmounted : MountedFrom (imageOf disks p) part ((env.tableRead s part f m g).rooted root_dir m) m :=
    tableRead_mountedFrom hsb hstored hg0
  have hbelongs := tableRead_belongs hfresh hv.signature hsb hstored hg0
    ((h.mounted _ (h.parent _ .root)).imp id And.left)
  have hreads : ((env.tableRead s part f m g).rooted root_dir m).ReadsPlaces (imageOf disks p) p :=
    (tableRead_readsPlaces (f := f) (m := m) (g := g) hc h.parts hv.signature hsb h.reads).of_reads rfl
  have hdirs : ((env.tableRead s part f m g).rooted root_dir m).dirs root_dir =
      { s.dirs root_dir with fs_info := m, mnt_point := root_dir, inode_no := 2 } := by
    simp [Vfs.rooted, tableRead_dirs]
  have hown : ((env.tableRead s part f m g).rooted root_dir m).direntries (s.dirs root_dir).dir_entry =
      { s.direntries (s.dirs root_dir).dir_entry with inode_no := 2 } := by
    simp [Vfs.rooted, tableRead_dirs, tableRead_direntries]
  have hroot := fun d hd => honly d (hkept.sameLinks.treeDir hd)
  have hfsinfo : ((env.tableRead s part f m g).rooted root_dir m).fsinfos
      (((env.tableRead s part f m g).rooted root_dir m).mntps m).fs_data =
        ⟨env.readSuperblock s part, part, block_size_of (env.readSuperblock s part),
          gdCount (env.readSuperblock s part), g⟩ := by
    simp [Vfs.rooted, Env.tableRead, Vfs.tabled, Env.mounting, Vfs.described]
  refine ⟨hkept.isolated h hreads (.inr hbelongs), ⟨?_, fun e => ?_⟩,
    ⟨hmounted, ⟨hm0, ?_, hmounted.table, ?_, ?_⟩, ?_, ?_⟩, fun d hd => ?_, fun d hd => ?_, fun d hd => ?_, fun d hd => ?_,
      fun d e hd he => ?_⟩
  · have hlocked : ((env.tableRead s part f m g).rooted root_dir m).heap_locked = s.heap_locked := by
      simp [Vfs.rooted, Env.tableRead, Vfs.tabled, Env.mounting, Vfs.described, Vfs.allocated, hg0, Vfs.asked]
    rw [hlocked]
    exact husable.unlocked
  · have hpayload : (((env.tableRead s part f m g).rooted root_dir m).direntries e).payload =
        (s.direntries e).payload := by
      by_cases he : e = (s.dirs root_dir).dir_entry
      · rw [he, hown]
      · rw [hkept.entries e he]
    have hblocks : ((env.tableRead s part f m g).rooted root_dir m).blocks =
        (g, .gdt) :: (m, .mntp) :: (f, .ext2fs) :: s.blocks :=
      tabled_blocks hg0 (env.mounting s part f m) f (s.tableRequest part (env.readSuperblock s part))
    rw [hpayload, hblocks]
    exact (husable.payloads e).imp_right fun hmem => by simp [hmem]
  · have hdata : (((env.tableRead s part f m g).rooted root_dir m).mntps m).fs_data = f := by
      simp [Vfs.rooted, Env.tableRead, Vfs.tabled, Env.mounting, Vfs.described]
    rw [hdata]
    exact hf0
  · rw [hmounted.part]
    exact hattached.1
  · rw [hmounted.part, hkept.outlives.parts]
    exact hattached.2
  · rw [hkept.outlives.parts, h.parts]
  · rw [hfsinfo]
    exact (superblock_table hsb).1
  · rw [hroot d hd, hdirs]
  · rw [hroot d hd, hdirs]
    exact hentry
  · rw [hroot d hd, hdirs, hown]
  · rw [hroot d hd, hdirs]
    exact .inl h0
  · rw [hroot d hd, hdirs] at he
    exact absurd h0 he.ne_zero

/-- Nothing is mounted yet, the partition at `part` is `p`, and the heap can be used. -/
structure Booted (p : Disks.HdStruct) (part : Nat) (s : Vfs) : Prop where
  dir : (root_dir, .dir) ∈ s.blocks
  entry : (root_direntry, .direntry) ∈ s.blocks
  attached : part ≠ 0 ∧ p.bd ≠ 0
  parts : s.parts part = p
  unmounted : (s.dirs root_dir).fs_info = 0
  reads : s.reads = []
  usable : Usable s

/-- When the root is mounted, memory is part of the disk. -/
theorem mount_faithful (hw : Working env disks) (hv : (imageOf disks p).Sound) (hc : Confined (imageOf disks p) p)
    (hs : Booted p part s) (hsetup : setup_fs s = (.ok (), s')) :
    ∃ t m, ext2_mount env part root_dir s' = (.ok SUCCESS, t) ∧ Faithful (imageOf disks p) p part m t ∧
      (t.dirs root_dir).entries ≠ 0 ∧ (t.dirs root_dir).inode_no = 2 := by
  have hisolated : Isolated (imageOf disks p) p part s' :=
    setup_isolated hs.dir hs.entry hs.parts hs.unmounted hs.reads hsetup
  have honly := fun d hd => setup_treeDir (d := d) hsetup hd
  rw [setup_fs_run] at hsetup
  obtain ⟨hentry, h0, husable⟩ : (s'.dirs root_dir).dir_entry = root_direntry ∧ (s'.dirs root_dir).entries = 0 ∧
      Usable s' := by
    cases hsetup
    refine ⟨rfl, rfl, hs.usable.unlocked, fun e => ?_⟩
    by_cases he : e = root_direntry
    · simpa [he] using hs.usable.payloads root_direntry
    · simpa [he] using hs.usable.payloads e
  have hattached : Attached s' part := ⟨hs.attached.1, by rw [hisolated.parts]; exact hs.attached.2⟩
  have hne : (s'.dirs root_dir).dir_entry ≠ 0 := by
    rw [hentry]
    decide
  obtain ⟨f, m, g, hfresh, hf0, hm0, hg0, hsb, hstored, hmount⟩ := mount_loads hw hv hc (d := root_dir) hisolated.parts
    hattached husable.unlocked (by decide) hne
  have hfaithful := tableRead_faithful hv hc hisolated husable hattached honly hne h0 hfresh hf0 hm0 hg0 hsb hstored
  have hdirs : ((env.tableRead s' part f m g).rooted root_dir m).dirs root_dir =
      { s'.dirs root_dir with fs_info := m, mnt_point := root_dir, inode_no := 2 } := by
    simp [Vfs.rooted, tableRead_dirs]
  obtain ⟨t, hrun, ht, hext, hloaded⟩ := hfaithful.load hw hv hc .root (by rw [hdirs]; exact h0)
  refine ⟨t, m, hmount t hrun, ht, hloaded, ?_⟩
  rw [hext.inode_no _ .root, hdirs]

/-! ## Any number of lookups -/

/-- The paths are looked up one after another, each in what the ones before have left. -/
def lookups (get_direntries : Nat → Prog Vfs Unit) : List (List UInt8) → Prog Vfs (List (Except Int Nat))
  | [] => pure []
  | path :: paths => do
    let r ← namei get_direntries (path ++ [0])
    let rs ← lookups get_direntries paths
    pure (r :: rs)

theorem lookups_faithful (hw : Working env disks) (hv : (imageOf disks p).Sound) (hc : Confined (imageOf disks p) p) :
    ∀ (paths : List (List UInt8)) (s : Vfs), (∀ path ∈ paths, Walkable path) →
      Faithful (imageOf disks p) p part m s → (s.dirs root_dir).entries ≠ 0 → (s.dirs root_dir).inode_no = 2 →
      ∃ rs t, lookups (get_direntries env) paths s = (.ok rs, t) ∧ Faithful (imageOf disks p) p part m t ∧
        Extends s t ∧ List.Forall₂ (fun path r => Answers (imageOf disks p) t ((imageOf disks p).resolve path) r) paths rs := by
  intro paths
  induction paths with
  | nil =>
    intro s _ h _ _
    exact ⟨[], s, rfl, h, .refl s, .nil⟩
  | cons path paths ih =>
    intro s hpaths h hroot htwo
    obtain ⟨r, t, hrun, ht, hext, hans⟩ := namei_resolves hw hv hc [] (hpaths path (by simp)) h hroot htwo
    obtain ⟨rs, u, hruns, hu, hext', hanss⟩ := ih t (fun q hq => hpaths q (by simp [hq])) ht (hext.loaded _ .root hroot)
      ((hext.inode_no _ .root).trans htwo)
    refine ⟨r :: rs, u, ?_, hu, hext.trans hext', .cons (hans.extends hext') hanss⟩
    unfold lookups
    rw [bind_of_ok hrun, bind_of_ok hruns]
    rfl

end

/-! ## A disk with a directory in the root -/

/-- Inode 2 is a directory in block 8, inode 3 one in block 9, and inode 4 a file of five bytes. -/
def treeInodes : List UInt8 :=
  (List.range 512).map fun i => match i with
    | 128 => 0xed
    | 129 => 0x41
    | 133 => 4
    | 168 => 8
    | 256 => 0xed
    | 257 => 0x41
    | 261 => 4
    | 296 => 9
    | 384 => 0xa4
    | 385 => 0x81
    | 388 => 5
    | _ => 0

/-- A directory with the number `own` in the directory `up`, and an entry in it. -/
def treeRecords (own up number file_type name : UInt8) : List UInt8 :=
  [own, 0, 0, 0, 12, 0, 1, 2, 0x2e, 0, 0, 0, up, 0, 0, 0, 12, 0, 2, 2, 0x2e, 0x2e, 0, 0,
    number, 0, 0, 0, 0xe8, 3, 1, file_type, name]

/-- The directory `b` in the root, with the file `a`. -/
def treeDisk (lba : Nat) : List UInt8 :=
  match lba with
  | 2 => smallSuperblock
  | 4 => smallTable
  | 10 => treeInodes
  | 16 => treeRecords 2 2 3 2 0x62
  | 18 => treeRecords 3 2 4 1 0x61
  | _ => []

def treeBytes (a : Nat) : UInt8 := (treeDisk (a / IO_BLOCK_SIZE)).getD (a % IO_BLOCK_SIZE) 0

def treeImage : Image := imageOf (fun _ => treeBytes) smallPart

/-- Three records, the last one up to the end of the block. -/
theorem threeRecords_tiles {blk : List UInt8} {a b c : Ext2DirentryStruct} (hlen : blk.length = 1024)
    (h0 : recordAt blk 0 = a) (h12 : recordAt blk 12 = b) (h24 : recordAt blk 24 = c)
    (ha : a.rec_len = 12 ∧ a.name_len = 1) (hb : b.rec_len = 12 ∧ b.name_len = 2)
    (hc : c.rec_len = 1000 ∧ c.name_len = 1) : Tiles blk 0 [0, 12, 24] := by
  subst h0 h12 h24
  have hend : Tiles blk (24 + (recordAt blk 24).rec_len) [] := by
    have hlast : 24 + (recordAt blk 24).rec_len = blk.length := by omega
    rw [hlast]
    exact .done
  refine .record (by omega) (by omega) ?_
  rw [ha.1, Nat.zero_add]
  refine .record (by omega) (by omega) ?_
  have hnext : 12 + (recordAt blk 12).rec_len = 24 := by omega
  rw [hnext]
  exact .record (by omega) (by omega) hend

theorem treeImage_tiles {n : Nat} (hn : n = 2 ∨ n = 3) : Tiles (treeImage.dirBlock n) 0 [0, 12, 24] := by
  rcases hn with rfl | rfl
  · exact threeRecords_tiles (a := ⟨2, 12, 1, 2⟩) (b := ⟨2, 12, 2, 2⟩) (c := ⟨3, 1000, 1, 2⟩) (by decide +kernel)
      (by decide +kernel) (by decide +kernel) (by decide +kernel) ⟨rfl, rfl⟩ ⟨rfl, rfl⟩ ⟨rfl, rfl⟩
  · exact threeRecords_tiles (a := ⟨3, 12, 1, 2⟩) (b := ⟨2, 12, 2, 2⟩) (c := ⟨4, 1000, 1, 1⟩) (by decide +kernel)
      (by decide +kernel) (by decide +kernel) (by decide +kernel) ⟨rfl, rfl⟩ ⟨rfl, rfl⟩ ⟨rfl, rfl⟩

theorem treeImage_block {n : Nat} (hn : n = 2 ∨ n = 3) : treeImage.directoryBlock n = treeImage.dirBlock n := by
  rcases hn with rfl | rfl <;> decide +kernel

/-- The records of the two directories. -/
theorem treeImage_record {n i : Nat} (hn : n = 2 ∨ n = 3) (hreach : ReachedFrom (treeImage.directoryBlock n) 0 i)
    (hlt : i < (treeImage.directoryBlock n).length) : i ∈ [0, 12, 24] := by
  rw [treeImage_block hn] at hreach hlt
  exact ((treeImage_tiles hn).walk rfl).mem_of_reached hreach hlt

theorem treeImage_directory {n : Nat} (h : treeImage.Directory n) : n = 2 ∨ n = 3 := by
  induction h with
  | root => exact .inl rfl
  | record _ _ hreach hlt hft ih =>
    have hi := treeImage_record ih hreach hlt
    rw [treeImage_block ih] at hft ⊢
    simp only [List.mem_cons, List.not_mem_nil, or_false] at hi
    rcases ih with rfl | rfl <;> rcases hi with rfl | rfl | rfl
    all_goals first
      | exact .inl (by decide +kernel)
      | exact .inr (by decide +kernel)
      | exact absurd hft (by decide +kernel)

theorem treeImage_named {n : Nat} (h : treeImage.Named n) : n = 2 ∨ n = 3 ∨ n = 4 := by
  cases h with
  | directory hn => exact (treeImage_directory hn).imp_right .inl
  | record hn _ hreach hlt =>
    have hn := treeImage_directory hn
    have hi := treeImage_record hn hreach hlt
    rw [treeImage_block hn]
    simp only [List.mem_cons, List.not_mem_nil, or_false] at hi
    rcases hn with rfl | rfl <;> rcases hi with rfl | rfl | rfl <;> decide +kernel

theorem treeImage_records {n : Nat} (hn : n = 2 ∨ n = 3) : treeImage.records n = [0, 12, 24] :=
  (treeImage_tiles hn).recordsFrom_eq rfl _ (by rcases hn with rfl | rfl <;> decide +kernel)

theorem treeImage_confined : Confined treeImage smallPart where
  ends := by decide
  places first n hplace := by
    cases hplace with
    | superblock => decide
    | table _ => decide +kernel
    | inode _ hn _ =>
      rcases treeImage_named hn with rfl | rfl | rfl <;> decide +kernel
    | block _ hn _ =>
      rcases treeImage_directory hn with rfl | rfl <;> decide +kernel
  groups _ := by decide +kernel
  sized _ := by decide +kernel

theorem treeImage_sound : treeImage.Sound where
  signature := by decide +kernel
  inode_size := by decide +kernel
  grouped := by decide +kernel
  per_group := by decide +kernel
  blocks := by decide +kernel
  table := by decide +kernel
  block := ⟨0, by decide +kernel⟩
  positive n hn := by
    rcases treeImage_named hn with rfl | rfl | rfl <;> decide
  known n hn := by
    rcases treeImage_named hn with rfl | rfl | rfl <;> decide +kernel
  described n hn := by
    rcases treeImage_named hn with rfl | rfl | rfl <;> decide +kernel
  tiled n hn := ⟨_, treeImage_tiles (treeImage_directory hn)⟩
  typed n hn i hi := by
    have hn := treeImage_directory hn
    rw [treeImage_records hn] at hi
    simp only [List.mem_cons, List.not_mem_nil, or_false] at hi
    rcases hn with rfl | rfl <;> rcases hi with rfl | rfl | rfl <;> decide +kernel

theorem diskServer_working (disk : Nat → UInt8) : Working (diskServer disk) fun _ => disk where
  debug := rfl
  fresh := diskServer_fresh disk
  generous _ blocks _ := nextAddress_ne blocks
  serves _ _ _ _ := rfl

theorem bareVfs_booted : Booted smallPart 0x600 bareVfs where
  dir := by decide
  entry := by decide
  attached := ⟨by decide, by decide⟩
  parts := rfl
  unmounted := rfl
  reads := rfl
  usable := ⟨rfl, fun _ => .inl rfl⟩

/-- The paths `/b/a`, `b/..`, `/b/a/`, `/b/x` and once more `/b/a`. -/
def treePaths : List (List UInt8) :=
  [[0x2f, 0x62, 0x2f, 0x61], [0x62, 0x2f, 0x2e, 0x2e], [0x2f, 0x62, 0x2f, 0x61, 0x2f], [0x2f, 0x62, 0x2f, 0x78],
    [0x2f, 0x62, 0x2f, 0x61]]

example : treePaths.map treeImage.resolve = [.found 3 4, .found 3 2, .notDirectory, .missing, .found 3 4] := by
  decide +kernel

theorem treePaths_walkable : ∀ path ∈ treePaths, Walkable path := by
  intro path hpath
  simp only [treePaths, List.mem_cons, List.not_mem_nil, or_false] at hpath
  rcases hpath with rfl | rfl | rfl | rfl | rfl <;> exact ⟨by decide, by decide, by decide, by decide +kernel⟩

end Ulmix.Fs

import Ulmix.Fs.Entries
import Ulmix.Fs.FailedReads
/-!
# The tree of directories

What pointers lead to from the root is in use, lists end, and the entry of a
directory points back to it (`VfsTree`). Loading a directory hangs new entries
below it, some of them with a new directory, and leaves everything else where it
is; so the tree stays a tree, and none of its directories is lost (`load_tree`).

A path name leads to an entry of the tree, also where `namei` loads directories
on its way (`namei_inTree`).
-/
open Ulmix.Lib Ulmix.Lib.Prog

namespace Ulmix.Fs

/-- The list of the directory `d` is `l`. -/
def Lists (s : Vfs) (d : Nat) (l : List Nat) : Prop := Sll (fun e => (s.direntries e).next) (s.dirs d).entries l

/-- What pointers lead to from the root is in use and well linked. -/
structure VfsTree (s : Vfs) : Prop where
  used : ∀ d, TreeDir s d → (d, .dir) ∈ s.blocks
  own : ∀ d, TreeDir s d → ((s.dirs d).dir_entry, .direntry) ∈ s.blocks
  back : ∀ d, TreeDir s d → (s.direntries (s.dirs d).dir_entry).directory = d
  listed : ∀ d, TreeDir s d → ∃ l, Lists s d l ∧ ∀ e ∈ l, (e, .direntry) ∈ s.blocks

section
variable {s t u : Vfs} {dir c d e : Nat} {l : List Nat}

theorem Lists.onList (h : Lists s d l) : OnList s (s.dirs d).entries e ↔ e ∈ l := by
  unfold Lists at h
  generalize (s.dirs d).entries = c at h ⊢
  constructor
  · intro he
    induction he generalizing l with
    | here hc =>
      rcases l with _ | ⟨a, l⟩
      · exact absurd h hc
      · simp [h.1]
    | further hc _ ih =>
      rcases l with _ | ⟨a, l⟩
      · exact absurd h hc
      · obtain ⟨rfl, -, h⟩ := h
        exact List.mem_cons_of_mem _ (ih h)
  · intro he
    induction l generalizing c with
    | nil => cases he
    | cons a l ih =>
      obtain ⟨rfl, ha, h⟩ := h
      rcases List.mem_cons.1 he with rfl | he
      · exact .here ha
      · exact .further ha (ih _ h he)

theorem VfsTree.entry_used (hs : VfsTree s) (hd : TreeDir s d) (he : OnList s (s.dirs d).entries e) :
    (e, .direntry) ∈ s.blocks := by
  obtain ⟨l, hl, hused⟩ := hs.listed d hd
  exact hused e (hl.onList.1 he)

theorem VfsTree.anchored (hs : VfsTree s) (hd : TreeDir s d) : Anchored s d :=
  ⟨hs.used d hd, hs.used _ hd.parent⟩

/-! ## The same links -/

theorem SameLinks.symm (h : SameLinks s t) : SameLinks t s :=
  ⟨fun d => (h.parent d).symm, fun d => (h.dir_entry d).symm, fun d => (h.entries d).symm, fun e => (h.next e).symm,
    fun e => (h.directory e).symm⟩

/-- A tree is its links. -/
theorem VfsTree.of_sameLinks (hs : VfsTree s) (h : SameLinks s t)
    (hb : ∀ p kind, kind ≠ .inode → (p, kind) ∈ s.blocks → (p, kind) ∈ t.blocks) : VfsTree t where
  used d hd := hb _ _ (by decide) (hs.used d (h.treeDir hd))
  own d hd := by
    rw [h.dir_entry]
    exact hb _ _ (by decide) (hs.own d (h.treeDir hd))
  back d hd := by
    rw [h.dir_entry, h.directory]
    exact hs.back d (h.treeDir hd)
  listed d hd := by
    obtain ⟨l, hl, hused⟩ := hs.listed d (h.treeDir hd)
    refine ⟨l, ?_, fun e he => hb _ _ (by decide) (hused e he)⟩
    unfold Lists
    rw [h.entries]
    exact hl.congr fun e _ => h.next e

/-! ## New entries -/

/-- The entries `l` have been hung below `dir`. What was in use in `s` is in `t` as it was, entries up to their payload. -/
structure Hung (s : Vfs) (dir : Nat) (l : List Nat) (t : Vfs) : Prop where
  entry_used : ∀ e, (e, .direntry) ∈ s.blocks → (e, .direntry) ∈ t.blocks
  entry : ∀ e, (e, .direntry) ∈ s.blocks → ∃ p, t.direntries e = { s.direntries e with payload := p }
  dir_used : ∀ d, (d, .dir) ∈ s.blocks → (d, .dir) ∈ t.blocks
  dirs : ∀ d, (d, .dir) ∈ s.blocks → d ≠ dir → t.dirs d = s.dirs d
  self : ∃ x, t.dirs dir = { s.dirs dir with entries := x }
  list : Lists t dir l
  made : ∀ e ∈ l, (e, .direntry) ∈ t.blocks
  /-- None, `dir` itself, its parent, or a new one. -/
  directory : ∀ e ∈ l, let d := (t.direntries e).directory
    d = 0 ∨ d = dir ∨ d = (s.dirs dir).parent ∨
      (d, .dir) ∉ s.blocks ∧ (d, .dir) ∈ t.blocks ∧ ∃ n m p, t.dirs d = ⟨n, m, p, dir, e, 0⟩

namespace Hung

theorem parent (h : Hung s dir l t) (hd : (d, .dir) ∈ s.blocks) : (t.dirs d).parent = (s.dirs d).parent := by
  by_cases hdd : d = dir
  · obtain ⟨x, hx⟩ := h.self
    rw [hdd, hx]
  · rw [h.dirs d hd hdd]

theorem dir_entry (h : Hung s dir l t) (hd : (d, .dir) ∈ s.blocks) : (t.dirs d).dir_entry = (s.dirs d).dir_entry := by
  by_cases hdd : d = dir
  · obtain ⟨x, hx⟩ := h.self
    rw [hdd, hx]
  · rw [h.dirs d hd hdd]

theorem inode_no (h : Hung s dir l t) (hd : (d, .dir) ∈ s.blocks) : (t.dirs d).inode_no = (s.dirs d).inode_no := by
  by_cases hdd : d = dir
  · obtain ⟨x, hx⟩ := h.self
    rw [hdd, hx]
  · rw [h.dirs d hd hdd]

theorem next (h : Hung s dir l t) (he : (e, .direntry) ∈ s.blocks) : (t.direntries e).next = (s.direntries e).next := by
  obtain ⟨p, hp⟩ := h.entry e he
  rw [hp]

theorem entry_directory (h : Hung s dir l t) (he : (e, .direntry) ∈ s.blocks) :
    (t.direntries e).directory = (s.direntries e).directory := by
  obtain ⟨p, hp⟩ := h.entry e he
  rw [hp]

/-- The other lists are what they were. -/
theorem lists (h : Hung s dir l t) (hs : VfsTree s) (hd : TreeDir s d) (hdd : d ≠ dir) {k : List Nat} :
    Lists t d k ↔ Lists s d k := by
  obtain ⟨k', hk, hused⟩ := hs.listed d hd
  have hk' : Lists t d k' := by
    unfold Lists
    rw [h.dirs d (hs.used d hd) hdd]
    exact hk.congr fun e he => h.next (hused e he)
  constructor
  · intro ht
    rwa [Sll.unique ht hk']
  · intro ht
    rwa [Sll.unique ht hk]

theorem onList (h : Hung s dir l t) (hs : VfsTree s) (hd : TreeDir s d) (hdd : d ≠ dir) :
    OnList t (t.dirs d).entries e ↔ OnList s (s.dirs d).entries e := by
  obtain ⟨k, hk, -⟩ := hs.listed d hd
  rw [hk.onList, ((h.lists hs hd hdd).2 hk).onList]

/-- A directory of the tree was one before, or belongs to one of the new entries. -/
theorem treeDir (h : Hung s dir l t) (hs : VfsTree s) (hd : TreeDir s dir) (ht : TreeDir t d) :
    TreeDir s d ∨ ∃ e ∈ l, (t.direntries e).directory = d ∧ (d, .dir) ∉ s.blocks ∧ (d, .dir) ∈ t.blocks ∧
      ∃ n m p, t.dirs d = ⟨n, m, p, dir, e, 0⟩ := by
  induction ht with
  | root => exact .inl .root
  | parent _ ih =>
    rcases ih with hold | ⟨e, -, -, -, -, n, m, p, hd'⟩
    · rw [h.parent (hs.used _ hold)]
      exact .inl hold.parent
    · rw [hd']
      exact .inl hd
  | @child d' e _ hlist hne ih =>
    rcases ih with hold | ⟨e', -, -, -, -, n, m, p, hd'⟩
    · by_cases hdd : d' = dir
      · rw [hdd, h.list.onList] at hlist
        rcases h.directory e hlist with h0 | hself | hparent | hnew
        · exact absurd h0 hne
        · rw [hself]
          exact .inl hd
        · rw [hparent]
          exact .inl hd.parent
        · exact .inr ⟨e, hlist, rfl, hnew⟩
      · rw [h.onList hs hold hdd] at hlist
        rw [h.entry_directory (hs.entry_used hold hlist)] at hne ⊢
        exact .inl (hold.child hlist hne)
    · -- a new directory has no list yet
      rw [hd'] at hlist
      cases hlist <;> contradiction

/-- No directory is lost. -/
theorem treeDir_old (h : Hung s dir l t) (hs : VfsTree s) (h0 : (s.dirs dir).entries = 0) (hd : TreeDir s d) :
    TreeDir t d := by
  induction hd with
  | root => exact .root
  | parent hd ih =>
    rw [← h.parent (hs.used _ hd)]
    exact ih.parent
  | @child d' e hd hlist hne ih =>
    have hdd : d' ≠ dir := by
      rintro rfl
      rw [h0] at hlist
      cases hlist <;> contradiction
    have he := h.entry_directory (hs.entry_used hd hlist)
    rw [← he] at hne ⊢
    exact ih.child ((h.onList hs hd hdd).2 hlist) hne

theorem vfsTree (h : Hung s dir l t) (hs : VfsTree s) (hd : TreeDir s dir) : VfsTree t where
  used d ht := by
    rcases h.treeDir hs hd ht with hold | ⟨-, -, -, -, hused, -⟩
    · exact h.dir_used d (hs.used d hold)
    · exact hused
  own d ht := by
    rcases h.treeDir hs hd ht with hold | ⟨e, he, -, -, -, n, m, p, hd'⟩
    · rw [h.dir_entry (hs.used d hold)]
      exact h.entry_used _ (hs.own d hold)
    · rw [hd']
      exact h.made e he
  back d ht := by
    rcases h.treeDir hs hd ht with hold | ⟨e, -, hdir, -, -, n, m, p, hd'⟩
    · rw [h.dir_entry (hs.used d hold), h.entry_directory (hs.own d hold)]
      exact hs.back d hold
    · rw [hd']
      exact hdir
  listed d ht := by
    rcases h.treeDir hs hd ht with hold | ⟨e, -, -, -, -, n, m, p, hd'⟩
    · by_cases hdd : d = dir
      · rw [hdd]
        exact ⟨l, h.list, h.made⟩
      · obtain ⟨k, hk, hused⟩ := hs.listed d hold
        exact ⟨k, (h.lists hs hold hdd).2 hk, fun e he => h.entry_used e (hused e he)⟩
    · refine ⟨[], ?_, by simp⟩
      unfold Lists
      rw [hd']
      rfl

end Hung

end

/-! ## Loading -/

section
variable {env : Env} {s t : Vfs} {dir d e : Nat} {r : Int}

/-- What a load makes hangs below the directory. -/
theorem load_hung (hf : FreshBlocks env) (ha : Anchored s dir) (h0 : (s.dirs dir).entries = 0)
    (hrun : ext2_get_direntries env dir s = (.ok r, t)) (hr : 0 ≤ r) : ∃ l, Hung s dir l t := by
  obtain ⟨-, inode, s', l, is, -, hpay, -, hbuilt, hlist⟩ := load_made hf ha h0 hrun hr
  obtain ⟨q, hq⟩ := hpay.direntries
  refine ⟨l, fun e he => ?_, fun e he => ?_, fun d hd => ?_, fun d hd hdd => ?_, ?_, hlist, fun e he => ?_,
    fun e he => ?_⟩
  · exact hbuilt.grown.blocks _ _ (by decide) (hpay.blocks _ _ (by decide) he)
  · rw [hbuilt.grown.direntries e (hpay.blocks _ _ (by decide) he), hq]
    by_cases hee : e = (s.dirs dir).dir_entry
    · subst hee
      exact ⟨q, by simp⟩
    · exact ⟨(s.direntries e).payload, by simp [hee]⟩
  · exact hbuilt.grown.blocks _ _ (by decide) (hpay.blocks _ _ (by decide) hd)
  · rw [hbuilt.grown.dirs d (hpay.blocks _ _ (by decide) hd) hdd, hpay.dirs]
  · exact ⟨_, by rw [hbuilt.grown.dir, hpay.dirs]⟩
  · exact (hbuilt.mem e he).2.2
  · obtain ⟨i, -, hmade⟩ := hbuilt.each e he
    have hd := hmade.directory
    unfold DirectoryFor at hd
    rw [hpay.dirs] at hd
    split at hd
    · exact .inl hd
    · split at hd
      · exact .inr (.inl hd)
      · split at hd
        · exact .inr (.inr (.inl hd))
        · obtain ⟨-, hfresh, hused, hval⟩ := hd
          exact .inr (.inr (.inr ⟨fun h => hfresh (hpay.blocks _ _ (by decide) h), hused, _, _, _, hval⟩))

/-- Loading a directory of the tree leaves a tree with all directories there were, and
the entries as they were but for their payload. -/
structure TreeKept (s t : Vfs) : Prop where
  tree : VfsTree t
  dirs : ∀ d, TreeDir s d → TreeDir t d
  entries : ∀ d e, TreeDir s d → OnList s (s.dirs d).entries e → OnList t (t.dirs d).entries e
  directory : ∀ e, (e, .direntry) ∈ s.blocks → (t.direntries e).directory = (s.direntries e).directory

theorem TreeKept.of_sameLinks (hs : VfsTree s) (h : SameLinks s t)
    (hb : ∀ p kind, kind ≠ .inode → (p, kind) ∈ s.blocks → (p, kind) ∈ t.blocks) : TreeKept s t where
  tree := hs.of_sameLinks h hb
  dirs _ hd := h.symm.treeDir hd
  entries d e _ he := by
    rw [h.entries]
    exact h.symm.onList he
  directory e _ := h.directory e

theorem Hung.treeKept {l : List Nat} (h : Hung s dir l t) (hs : VfsTree s) (hd : TreeDir s dir)
    (h0 : (s.dirs dir).entries = 0) :
    TreeKept s t where
  tree := h.vfsTree hs hd
  dirs _ hd' := h.treeDir_old hs h0 hd'
  entries d e hd' he := by
    have hdd : d ≠ dir := by
      rintro rfl
      rw [h0] at he
      cases he <;> contradiction
    exact (h.onList hs hd' hdd).2 he
  directory e he := h.entry_directory he

/-- A call of `ext2_get_direntries` that returns, whatever it returns. -/
theorem load_tree (hf : FreshBlocks env) (hs : VfsTree s) (hd : TreeDir s dir)
    (hrun : ext2_get_direntries env dir s = (.ok r, t)) : TreeKept s t := by
  by_cases hr : r < 0
  · obtain ⟨hsup, hpay⟩ := load_supplied hr hrun
    refine .of_sameLinks hs hsup.sameLinks fun b kind _ hb => ?_
    rcases hsup.2 with ⟨-, -, hblocks⟩ | ⟨-, p, hentries, hblocks⟩
    · rwa [hblocks]
    · rw [hentries, Function.update_self] at hpay
      rw [hblocks hpay]
      exact List.mem_cons_of_mem _ hb
  · by_cases h0 : (s.dirs dir).entries = 0
    · obtain ⟨l, hl⟩ := load_hung hf (hs.anchored hd) h0 hrun (Int.not_lt.1 hr)
      exact hl.treeKept hs hd h0
    · obtain ⟨-, -, ⟨-, -, rfl⟩ | ⟨h0', -⟩⟩ := ext2_get_direntries_ok hrun
      · exact .of_sameLinks hs ⟨fun _ => rfl, fun _ => rfl, fun _ => rfl, fun _ => rfl, fun _ => rfl⟩ fun _ _ _ hb => hb
      · exact absurd h0' h0

end

/-! ## Path names -/

section
variable {P : Vfs → Prop} {buf : List UInt8}

theorem char_at_sat (i : Nat) : Sat P (char_at buf i) (fun _ => P) stopped := by
  unfold char_at
  split
  · exact .pure fun _ h => h
  · exact .fault (any_stopped _)

theorem strccpy_sat {terminator : UInt8} : ∀ (room : Nat) (dest : List UInt8) (src : Nat),
    Sat P (strccpy_loop buf terminator room dest src) (fun _ => P) stopped := by
  intro room
  induction room with
  | zero => exact fun _ _ => .fault (any_stopped _)
  | succ room ih =>
    intro dest src
    refine .bind (char_at_sat src) fun c => .ite (fun _ => .pure fun _ h => h) fun _ => ?_
    exact .ite (fun _ => .pure fun _ h => h) fun _ => ih _ _

theorem strcmp_sat (b : List UInt8) : ∀ a, Sat P (strcmp a b) (fun _ => P) stopped := by
  intro a
  induction a generalizing b with
  | nil => exact .fault (any_stopped _)
  | cons x a ih =>
    cases b with
    | nil => exact .ite (fun _ => .pure fun _ h => h) fun _ => .pure fun _ h => h
    | cons y b =>
      refine .ite (fun _ => .pure fun _ h => h) fun _ => ?_
      exact .ite (fun _ => .pure fun _ h => h) fun _ => ih b

/-- The search finds entries of the list only. -/
theorem namei_find_sat {s : Vfs} (name : List UInt8) : ∀ (fuel c : Nat),
    Sat (fun t => t = s) (namei_find name fuel c) (fun e t => t = s ∧ (e ≠ 0 → OnList s c e)) stopped := by
  intro fuel
  induction fuel with
  | zero => exact fun _ => .fault (any_stopped _)
  | succ fuel ih =>
    intro c
    refine .ite (fun _ => .pure fun _ h => ⟨h, fun h0 => absurd rfl h0⟩) fun hc => ?_
    refine .bind (Q := fun e t => e = s.direntries c ∧ t = s) ((load_direntry_sat any_stopped).post ?_) fun e =>
      .fact fun he => ?_
    · rintro _ _ ⟨-, rfl, rfl⟩
      exact ⟨rfl, rfl⟩
    refine .bind (strcmp_sat _ _) fun order => .ite (fun _ => .pure fun _ h => ⟨h, fun _ => .here hc⟩) fun _ => ?_
    refine (ih e.next).post fun e' t h => ⟨h.1, fun hne => .further hc ?_⟩
    rw [← he]
    exact h.2 hne

section
variable {g : Nat → Prog Vfs Unit}

/-- `get_direntries` loads directories of the tree. -/
def LoadsTree (g : Nat → Prog Vfs Unit) : Prop :=
  ∀ s t d, VfsTree s → TreeDir s d → g d s = (.ok (), t) → TreeKept s t

/-- What `namei_recursive` finds is in the tree it leaves. -/
theorem namei_recursive_inTree (hg : LoadsTree g) : ∀ (fuel p d : Nat),
    Sat (fun s => VfsTree s ∧ TreeDir s d) (namei_recursive g buf fuel p d)
      (fun r s => VfsTree s ∧ ∀ e, r = .ok e → InTree s e) stopped := by
  intro fuel
  induction fuel with
  | zero => exact fun _ _ => .fault (any_stopped _)
  | succ fuel ih =>
    intro p d
    refine .bind (strccpy_sat _ _ _) fun name => ?_
    refine .bind ((load_dir_sat any_stopped).post fun _ _ h => h.2.2) fun _ => ?_
    refine .ite (fun _ => .pure fun _ h => ⟨h.1, fun e he => by cases he⟩) fun _ => ?_
    refine .bind (Q := fun dir s => dir = s.dirs d ∧ VfsTree s ∧ TreeDir s d) ((load_dir_sat any_stopped).post ?_)
      fun dir => ?_
    · exact fun _ _ h => ⟨h.2.1, h.2.2⟩
    refine .bind (Q := fun entry s => (VfsTree s ∧ TreeDir s d) ∧
      (entry ≠ 0 → OnList s (s.dirs d).entries entry)) ?_ fun entry => ?_
    · rintro s ⟨rfl, h⟩
      refine ⟨fun e t he => ?_, fun _ _ _ => trivial⟩
      obtain ⟨rfl, hlist⟩ := (namei_find_sat _ _ _).of_run he
      exact ⟨h, hlist⟩
    refine .ite (fun _ => .pure fun _ h => ⟨h.1.1, fun e he => by cases he⟩) fun hentry => ?_
    refine .bind (Q := fun e s => e = s.direntries entry ∧ (VfsTree s ∧ TreeDir s d) ∧
      OnList s (s.dirs d).entries entry)
      ((load_direntry_sat any_stopped).post fun _ _ h => ⟨h.2.1, h.2.2.1, h.2.2.2 hentry⟩) fun e => ?_
    refine .bind (char_at_sat _) fun c => .ite (fun _ => ?_) fun _ => ?_
    · -- the end of the path
      refine .ite (fun _ => .fault (any_stopped _)) fun _ => .bind (char_at_sat _) fun c' => ?_
      refine .ite (fun _ => .pure fun _ h => ⟨h.2.1.1, fun e he => by cases he⟩) fun _ => .pure fun s h =>
        ⟨h.2.1.1, fun e' he => ?_⟩
      cases he
      exact ⟨d, h.2.1.2, .inr h.2.2⟩
    refine .ite (fun _ => .pure fun _ h => ⟨h.2.1.1, fun e he => by cases he⟩) fun _ => ?_
    -- the search goes on in the directory of the entry, which is one of the tree
    have hrest : Sat (fun s => VfsTree s ∧ TreeDir s (s.direntries entry).directory)
        (do namei_recursive g buf fuel name.2 (← load_direntry entry).directory)
        (fun r s => VfsTree s ∧ ∀ e, r = .ok e → InTree s e) stopped := by
      refine .bind ((load_direntry_sat any_stopped).post ?_) fun e => ih name.2 e.directory
      rintro _ s ⟨-, rfl, h⟩
      exact h
    refine .bind (Q := fun _ s => (VfsTree s ∧ TreeDir s (s.direntries entry).directory) ∧
      (entry, .direntry) ∈ s.blocks ∧
      e.directory = (s.direntries entry).directory) ((load_dir_sat any_stopped).post ?_) fun _ =>
      .ite (fun _ => ?_) fun _ => hrest.pre fun s h => h.1
    · rintro _ s ⟨hne, -, rfl, h, hlist⟩
      exact ⟨⟨h.1, h.2.child hlist hne⟩, h.1.entry_used h.2 hlist, rfl⟩
    refine .bind (Q := fun _ s => VfsTree s ∧ TreeDir s (s.direntries entry).directory) ?_ fun _ => hrest
    rintro s ⟨⟨hs, hd⟩, hused, he⟩
    refine ⟨fun u t hu => ?_, fun _ _ _ => trivial⟩
    have hkept := hg s t _ hs (he ▸ hd) hu
    refine ⟨hkept.tree, ?_⟩
    rw [hkept.directory entry hused]
    exact hkept.dirs _ hd

/-- `namei` leaves a tree, and what it finds is in it. -/
theorem namei_inTree (hg : LoadsTree g) :
    Sat VfsTree (namei g buf) (fun r s => VfsTree s ∧ ∀ e, r = .ok e → InTree s e) stopped := by
  refine .bind (char_at_sat 0) fun c => .ite (fun _ => ?_) fun _ => (namei_recursive_inTree hg _ _ _).pre fun _ h =>
    ⟨h, .root⟩
  refine .bind (char_at_sat 2) fun c' => .ite (fun _ => ?_) fun _ =>
    (namei_recursive_inTree hg _ _ _).pre fun _ h => ⟨h, .root⟩
  refine .bind (load_dir_sat any_stopped) fun d => .pure fun s h => ⟨h.2.2, fun e he => ?_⟩
  cases he
  exact ⟨root_dir, .root, .inl (by rw [h.2.1])⟩

end

end

end Ulmix.Fs

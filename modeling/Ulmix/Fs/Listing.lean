import Ulmix.Fs.DoMount
/-!
# Listing the tree (`print_file_tree` in `kernel/fs/vfs.c`)

`print_dir` loads a directory, prints its entries and calls itself for those that have
the bit of `F_DIR` in their type. The types of `enum ftype_e` are no single bits:
`F_BLOCK` and `F_SOCKET` have this one too, and no directory. So a listing is the
preorder of the tree, each entry printed once and each directory entered once,
exactly where no such node is in it (`print_file_tree_iff`); at the first one the call
follows a null pointer.

A tree is given as `Forest`: the list of a directory, with what is below each entry.
What the function of a filesystem owes its caller is that it brings this list into
memory (`Provides`); what was loaded before may have to be loaded once more.
-/
open Ulmix.Lib Ulmix.Lib.Prog

namespace Ulmix.Fs

/-! ## The function -/

def F_FIFO : Nat := 0x1000
def F_CHAR : Nat := 0x2000
def F_BLOCK : Nat := 0x6000
def F_REGULAR : Nat := 0x8000
def F_SYMLINK : Nat := 0xa000
def F_SOCKET : Nat := 0xc000
def F_UNKNOWN : Nat := 0

/-- `enum ftype_e` -/
def ftype_e : List Nat := [F_FIFO, F_CHAR, F_DIR, F_BLOCK, F_REGULAR, F_SYMLINK, F_SOCKET, F_UNKNOWN]

/-- What a listing does: it prints, and it enters the directory of an entry. -/
inductive Event where
  | title
  | printed (entry : Nat) (line : List UInt8)
  | descended (entry : Nat)
  deriving DecidableEq, Repr

structure Listing where
  fs : Vfs
  events : List Event

namespace Listing

def onFs {α : Type} (x : Prog Vfs α) : Prog Listing α := fun s => ((x s.fs).1, { s with fs := (x s.fs).2 })

def record (e : Event) : Prog Listing Unit := modify fun s => { s with events := s.events ++ [e] }

end Listing

open Listing

/-- `level` blanks, the name and a line feed. -/
def line (level : Nat) (name : List UInt8) : List UInt8 := List.replicate level 0x20 ++ name ++ [0x0a]

/-- What `print_dir` does with one entry, with the function itself for the call in it. -/
def print_entry (print_dir : Nat → Nat → Prog Listing Unit) (file : Nat) (e : DirentryStruct) (level : Nat) :
    Prog Listing Unit := do
  if (← onFs (strcmp e.name dot)) ≠ 0 then
    if (← onFs (strcmp e.name dotdot)) ≠ 0 then
      record (.printed file (line level (cstr e.name)))
      if e.type &&& F_DIR ≠ 0 then
        record (.descended file)
        print_dir e.directory (level + 1)

/-- The loop of `print_dir`. -/
def print_dir_loop (print_dir : Nat → Nat → Prog Listing Unit) : Nat → Nat → Nat → Prog Listing Unit
  | 0, _, _ => Prog.fault .diverges
  | fuel + 1, file, level =>
    if file = 0 then pure ()
    else do
      print_entry print_dir file (← onFs (load_direntry file)) level
      print_dir_loop print_dir fuel (← onFs (load_direntry file)).next level

/-- `print_dir`, with `get_direntries` for the filesystem's function. The fuel bounds how deep the
calls nest, and the length of each list. -/
def print_dir (get_direntries : Nat → Prog Vfs Unit) : Nat → Nat → Nat → Prog Listing Unit
  | 0, _, _ => Prog.fault .diverges
  | fuel + 1, dir, level => do
    onFs (get_direntries dir)
    print_dir_loop (print_dir get_direntries fuel) fuel (← onFs (load_dir dir)).entries level

def print_file_tree (get_direntries : Nat → Prog Vfs Unit) (fuel : Nat) : Prog Listing Unit := do
  record .title
  print_dir get_direntries fuel root_dir 1

/-! ## Trees -/

/-- The fields of an entry that a listing reads. -/
structure FileInfo where
  type : Nat
  name : List UInt8
  directory : Nat

namespace FileInfo

/-- Named `.` or `..`. -/
def Dotted (file : FileInfo) : Prop := file.name = dot ∨ file.name = dotdot

instance (file : FileInfo) : Decidable file.Dotted := by unfold Dotted; infer_instance

/-- A directory with another name. -/
def Descends (file : FileInfo) : Prop := file.type = F_DIR ∧ ¬ file.Dotted

instance (file : FileInfo) : Decidable file.Descends := by unfold Descends; infer_instance

end FileInfo

/-- A list of entries, with what is below each of them. -/
inductive Forest where
  | nil
  | cons (entry : Nat) (file : FileInfo) (below rest : Forest)

namespace Forest

/-- The pointer to the list. -/
def first : Forest → Nat
  | nil => 0
  | cons entry _ _ _ => entry

/-- An entry of the list itself. -/
inductive Here : Forest → Nat → FileInfo → Forest → Prop
  | head {entry : Nat} {file : FileInfo} {below rest : Forest} : Here (cons entry file below rest) entry file below
  | tail {entry e : Nat} {file f : FileInfo} {below rest b : Forest} : Here rest e f b →
      Here (cons entry file below rest) e f b

/-- An entry of the list, or of one below it. -/
inductive Node : Forest → Nat → FileInfo → Prop
  | head {entry : Nat} {file : FileInfo} {below rest : Forest} : Node (cons entry file below rest) entry file
  | inside {entry e : Nat} {file f : FileInfo} {below rest : Forest} : Node below e f →
      Node (cons entry file below rest) e f
  | later {entry e : Nat} {file f : FileInfo} {below rest : Forest} : Node rest e f →
      Node (cons entry file below rest) e f

/-- Every type is one of the enumeration, only directories have one, and only a directory with a
name of its own has something below it. -/
def Tree : Forest → Prop
  | nil => True
  | cons _ file below rest => file.type ∈ ftype_e ∧ (file.directory ≠ 0 ↔ file.type = F_DIR) ∧
      (¬ file.Descends → below = nil) ∧ below.Tree ∧ rest.Tree

/-- All entries, an entry before what is below it. -/
def entries : Forest → List Nat
  | nil => []
  | cons entry _ below rest => entry :: (below.entries ++ rest.entries)

/-- No entry with a name of its own is of a type that looks like a directory and is none. -/
def Clear : Forest → Prop
  | nil => True
  | cons _ file below rest => (¬ file.Dotted → file.type ≠ F_BLOCK ∧ file.type ≠ F_SOCKET) ∧ below.Clear ∧ rest.Clear

/-- The events a listing of this tree should consist of. -/
def listing : Nat → Forest → List Event
  | _, nil => []
  | level, cons entry file below rest =>
    (if file.Dotted then [] else .printed entry (line level file.name) ::
      (if file.type = F_DIR then .descended entry :: below.listing (level + 1) else [])) ++ rest.listing level

/-- The list is in memory as it is in the tree. -/
def Shows (s : Vfs) : Forest → Prop
  | nil => True
  | cons entry file _ rest => entry ≠ 0 ∧ 0 ∈ (s.direntries entry).name ∧ cstr (s.direntries entry).name = file.name ∧
      (s.direntries entry).type = file.type ∧ (s.direntries entry).directory = file.directory ∧
      (s.direntries entry).next = rest.first ∧ rest.Shows s

end Forest

/-- In the tree `F` the list of the directory `d` is `f`. -/
inductive Subtree (F : Forest) : Nat → Forest → Prop
  | root : Subtree F root_dir F
  | inside {d e : Nat} {f b : Forest} {file : FileInfo} : Subtree F d f → f.Here e file b → file.Descends →
      Subtree F file.directory b

/-- What the function of a filesystem owes its caller for the tree `F`: with `loaded s L` for a state
in which the directories `L` were loaded, it loads one more and leaves these as they are; and it
follows a null pointer if it is given one. -/
structure Provides (get_direntries : Nat → Prog Vfs Unit) (F : Forest) (loaded : Vfs → Set Nat → Prop) : Prop where
  null : ∀ s, get_direntries 0 s = (.error .nullDeref, s)
  load : ∀ s L d f, Subtree F d f → loaded s L → ∃ t, get_direntries d s = (.ok (), t) ∧ loaded t (insert d L)
  list : ∀ s L d f, Subtree F d f → loaded s L → d ∈ L → (s.dirs d).entries = f.first ∧ f.Shows s

/-! ## The bit and the type -/

/-- The types with the bit of `F_DIR`. -/
theorem dir_bit_iff : ∀ type ∈ ftype_e, (type &&& F_DIR ≠ 0 ↔ type = F_DIR ∨ type = F_BLOCK ∨ type = F_SOCKET) :=
    by decide

/-! ## The loop -/

section
variable {get_direntries : Nat → Prog Vfs Unit} {F f : Forest} {loaded : Vfs → Set Nat → Prop} {d : Nat}

theorem onFs_run {α : Type} {x : Prog Vfs α} {s : Listing} {a : α} {t : Vfs} (h : x s.fs = (.ok a, t)) :
    onFs x s = (.ok a, { s with fs := t }) := by
  unfold onFs
  rw [h]

theorem record_run (e : Event) (s : Listing) : record e s = (.ok (), { s with events := s.events ++ [e] }) := rfl

/-- An entry is printed and entered, unless it is one of the dots. -/
theorem print_entry_run (print_dir : Nat → Nat → Prog Listing Unit) {entry : Nat} {file : FileInfo}
    {below rest : Forest} {s : Listing} (h : (Forest.cons entry file below rest).Shows s.fs) (level : Nat) :
    print_entry print_dir entry (s.fs.direntries entry) level s =
      if file.Dotted then (.ok (), s)
      else (if file.type &&& F_DIR ≠ 0 then do
          record (.descended entry)
          print_dir file.directory (level + 1)
        else pure ()) { s with events := s.events ++ [Event.printed entry (line level file.name)] } := by
  obtain ⟨hne, h0, hname, htype, hdir, -, -⟩ := h
  obtain ⟨a, ha, hdot⟩ := strcmp_run s.fs (s.fs.direntries entry).name dot h0 (by decide)
  obtain ⟨b, hb, hdotdot⟩ := strcmp_run s.fs (s.fs.direntries entry).name dotdot h0 (by decide)
  rw [hname] at hdot hdotdot
  unfold print_entry
  rw [Prog.bind_of_ok (onFs_run ha), htype, hdir, hname]
  by_cases h1 : a = 0
  · have hd : file.Dotted := .inl (hdot.1 h1)
    rw [if_neg (not_not_intro h1), if_pos hd]
    rfl
  rw [if_pos h1]
  refine (Prog.bind_of_ok (onFs_run hb)).trans ?_
  by_cases h2 : b = 0
  · have hd : file.Dotted := .inr (hdotdot.1 h2)
    rw [if_neg (not_not_intro h2), if_pos hd]
    rfl
  · have hd : ¬ file.Dotted := by
      rintro (h | h)
      · exact h1 (hdot.2 h)
      · exact h2 (hdotdot.2 h)
    rw [if_pos h2, if_neg hd]
    exact Prog.bind_of_ok (record_run _ s)

/-- The list `f` is what is left of a directory `d` of the tree. -/
structure Left (F : Forest) (loaded : Vfs → Set Nat → Prop) (d : Nat) (f : Forest) : Prop where
  tree : f.Tree
  here : ∀ e file b, f.Here e file b → file.Descends → Subtree F file.directory b
  shows : ∀ s L, loaded s L → d ∈ L → f.Shows s

theorem Left.rest {entry : Nat} {file : FileInfo} {below rest : Forest}
    (h : Left F loaded d (.cons entry file below rest)) :
    Left F loaded d rest where
  tree := h.tree.2.2.2.2
  here e f b hb := h.here e f b (.tail hb)
  shows s L hs hd := (h.shows s L hs hd).2.2.2.2.2.2

/-- The list of the directory that a call is made for. -/
theorem Left.below (hp : Provides get_direntries F loaded) {entry : Nat} {file : FileInfo} {below rest : Forest}
    (h : Left F loaded d (.cons entry file below rest)) (hdesc : file.Descends) :
      Left F loaded file.directory below := by
  have hcont := h.here entry file below .head hdesc
  exact ⟨h.tree.2.2.2.1, fun e f b hb hd => .inside hcont hb hd, fun s L hs hd => (hp.list s L _ _ hcont hs hd).2⟩

/-- What goes before the loop in `print_dir`. -/
theorem print_dir_start (hp : Provides get_direntries F loaded) (hcont : Subtree F d f) (hne : d ≠ 0) {s : Listing}
    {L : Set Nat} (hs : loaded s.fs L) (fuel level : Nat) :
    ∃ t, loaded t (insert d L) ∧ print_dir get_direntries (fuel + 1) d level s =
      print_dir_loop (print_dir get_direntries fuel) fuel f.first level { s with fs := t } := by
  obtain ⟨t, hrun, ht⟩ := hp.load s.fs L d f hcont hs
  refine ⟨t, ht, ?_⟩
  have hload : onFs (load_dir d) { s with fs := t } = (.ok (t.dirs d), { s with fs := t }) :=
      onFs_run (load_dir_run hne t)
  rw [print_dir, Prog.bind_of_ok (onFs_run hrun), Prog.bind_of_ok hload,
    (hp.list t _ d f hcont ht (Set.mem_insert d L)).1]

/-- Where nothing looks like a directory and is none, the loop goes through the list and all below it. -/
theorem print_dir_loop_run (hp : Provides get_direntries F loaded) (f : Forest) : ∀ d, Left F loaded d f → f.Clear →
    ∃ m, ∀ fuel k, m ≤ fuel → m ≤ k → ∀ level (s : Listing) L, loaded s.fs L → d ∈ L → ∃ t L',
      print_dir_loop (print_dir get_direntries fuel) k f.first level s = (.ok (), ⟨t, s.events ++ f.listing level⟩) ∧
        loaded t L' ∧ L ⊆ L' := by
  induction f with
  | nil =>
    intro d _ _
    refine ⟨1, fun fuel k _ hk level s L hs _ => ⟨s.fs, L, ?_, hs, Set.Subset.rfl⟩⟩
    obtain ⟨k, rfl⟩ : ∃ n, k = n + 1 := ⟨k - 1, by omega⟩
    rw [Forest.first, print_dir_loop, if_pos rfl, Forest.listing, List.append_nil]
    rfl
  | cons entry file below rest ihb ihr =>
    intro d hleft hclear
    obtain ⟨htype, hdir, hnone, -, -⟩ := hleft.tree
    obtain ⟨hself, hbelow, hrest⟩ := hclear
    obtain ⟨mr, hr⟩ := ihr d hleft.rest hrest
    -- the entry alone, with what is below it
    have hentry : ∃ m, ∀ fuel, m ≤ fuel → ∀ level (s : Listing) L, loaded s.fs L → d ∈ L → ∃ t L',
        print_entry (print_dir get_direntries fuel) entry (s.fs.direntries entry) level s =
          (.ok (), ⟨t, s.events ++ (if file.Dotted then [] else .printed entry (line level file.name) ::
            (if file.type = F_DIR then .descended entry :: below.listing (level + 1) else []))⟩) ∧ loaded t L' ∧
              L ⊆ L' := by
      by_cases hdot : file.Dotted
      · refine ⟨0, fun fuel _ level s L hs hd => ⟨s.fs, L, ?_, hs, Set.Subset.rfl⟩⟩
        rw [print_entry_run _ (hleft.shows _ _ hs hd), if_pos hdot, if_pos hdot, List.append_nil]
      · have hbit : (file.type &&& F_DIR ≠ 0) ↔ file.type = F_DIR := by
          rw [dir_bit_iff _ htype]
          have := hself hdot
          tauto
        by_cases hF : file.type = F_DIR
        · have hdesc : file.Descends := ⟨hF, hdot⟩
          obtain ⟨mb, hb⟩ := ihb _ (hleft.below hp hdesc) hbelow
          refine ⟨mb + 1, fun fuel hfuel level s L hs hd => ?_⟩
          obtain ⟨fuel, rfl⟩ : ∃ n, fuel = n + 1 := ⟨fuel - 1, by omega⟩
          obtain ⟨t, ht, hstart⟩ := print_dir_start hp (hleft.here entry file below .head hdesc) (hdir.2 hF)
            (s := { s with events := s.events ++ [.printed entry (line level file.name)] ++
              [.descended entry] }) hs fuel (level + 1)
          obtain ⟨u, L', hloop, hu, hsub⟩ := hb fuel fuel (by omega) (by omega) (level + 1)
            ⟨t, s.events ++ [.printed entry (line level file.name)] ++ [.descended entry]⟩ _ ht (Set.mem_insert _ L)
          refine ⟨u, L', ?_, hu, (Set.subset_insert _ _).trans hsub⟩
          rw [print_entry_run _ (hleft.shows _ _ hs hd), if_neg hdot, if_pos (hbit.2 hF), if_neg hdot, if_pos hF,
            Prog.bind_of_ok (record_run _ _), hstart, hloop]
          simp
        · refine ⟨0, fun fuel _ level s L hs hd => ⟨s.fs, L, ?_, hs, Set.Subset.rfl⟩⟩
          rw [print_entry_run _ (hleft.shows _ _ hs hd), if_neg hdot, if_neg (mt hbit.1 hF), if_neg hdot, if_neg hF]
          rfl
    obtain ⟨me, he⟩ := hentry
    refine ⟨max me mr + 1, fun fuel k hfuel hk level s L hs hd => ?_⟩
    obtain ⟨k, rfl⟩ : ∃ n, k = n + 1 := ⟨k - 1, by omega⟩
    have hne := (hleft.shows _ _ hs hd).1
    obtain ⟨t, L', hrun, ht, hsub⟩ := he fuel (by omega) level s L hs hd
    obtain ⟨u, L'', hloop, hu, hsub'⟩ := hr fuel k (by omega) (by omega) level ⟨t, _⟩ L' ht (hsub hd)
    refine ⟨u, L'', ?_, hu, hsub.trans hsub'⟩
    have hnext := (hleft.shows _ _ ht (hsub hd)).2.2.2.2.2.1
    rw [Forest.first, print_dir_loop, if_neg hne, Prog.bind_of_ok (onFs_run (load_direntry_run hne s.fs)),
      Prog.bind_of_ok hrun, Prog.bind_of_ok (onFs_run (load_direntry_run hne t)), hnext, hloop, Forest.listing,
      List.append_assoc]

/-- A loop that returns met nothing that looks like a directory and is none. -/
theorem print_dir_loop_ok (hp : Provides get_direntries F loaded) (f : Forest) : ∀ d, Left F loaded d f →
    ∀ (fuel k level : Nat) (s t : Listing) L, loaded s.fs L → d ∈ L →
      print_dir_loop (print_dir get_direntries fuel) k f.first level s = (.ok (), t) →
      f.Clear ∧ ∃ L', loaded t.fs L' ∧ L ⊆ L' := by
  induction f with
  | nil =>
    intro d _ fuel k level s t L hs _ hrun
    cases k with
    | zero => cases hrun
    | succ k =>
      rw [Forest.first, print_dir_loop, if_pos rfl] at hrun
      cases hrun
      exact ⟨trivial, L, hs, Set.Subset.rfl⟩
  | cons entry file below rest ihb ihr =>
    intro d hleft fuel k level s t L hs hd hrun
    obtain ⟨htype, hdir, hnone, -, -⟩ := hleft.tree
    have hne := (hleft.shows _ _ hs hd).1
    cases k with
    | zero => cases hrun
    | succ k =>
      rw [Forest.first, print_dir_loop, if_neg hne, Prog.bind_of_ok (onFs_run (load_direntry_run hne s.fs))] at hrun
      obtain ⟨_, u, hentry, hrun⟩ := Prog.bind_ok.1 hrun
      have hself : ((¬ file.Dotted → file.type ≠ F_BLOCK ∧ file.type ≠ F_SOCKET) ∧ below.Clear) ∧
          ∃ L', loaded u.fs L' ∧ L ⊆ L' := by
        rw [print_entry_run _ (hleft.shows _ _ hs hd)] at hentry
        by_cases hdot : file.Dotted
        · have hnil : below = .nil := hnone fun h => h.2 hdot
          rw [if_pos hdot] at hentry
          cases hentry
          exact ⟨⟨fun h => absurd hdot h, hnil ▸ trivial⟩, L, hs, Set.Subset.rfl⟩
        rw [if_neg hdot] at hentry
        by_cases hbit : file.type &&& F_DIR ≠ 0
        · rw [if_pos hbit, Prog.bind_of_ok (record_run _ _)] at hentry
          cases fuel with
          | zero => cases hentry
          | succ fuel =>
            by_cases h0 : file.directory = 0
            · -- the function would have been called with a null pointer
              rw [h0, print_dir] at hentry
              obtain ⟨_, v, hnull, -⟩ := Prog.bind_ok.1 hentry
              unfold onFs at hnull
              rw [hp.null] at hnull
              cases hnull
            · have hF := hdir.1 h0
              have hdesc : file.Descends := ⟨hF, hdot⟩
              obtain ⟨v, hv, hstart⟩ := print_dir_start hp (hleft.here entry file below .head hdesc) h0
                (s := { s with events := s.events ++ [.printed entry (line level file.name)] ++
                  [.descended entry] }) hs fuel (level + 1)
              rw [hstart] at hentry
              obtain ⟨hclear, L', hu, hsub⟩ := ihb _ (hleft.below hp hdesc) fuel fuel (level + 1)
                ⟨v, s.events ++ [.printed entry (line level file.name)] ++ [.descended entry]⟩ u _ hv
                  (Set.mem_insert _ L) hentry
              refine ⟨⟨fun _ => ?_, hclear⟩, L', hu, (Set.subset_insert _ _).trans hsub⟩
              rw [hF]
              decide
        · have hnot := mt (dir_bit_iff _ htype).2 hbit
          rw [if_neg hbit] at hentry
          cases hentry
          have hnil : below = .nil := hnone fun h => hnot (.inl h.1)
          exact ⟨⟨fun _ => by tauto, hnil ▸ trivial⟩, L, hs, Set.Subset.rfl⟩
      obtain ⟨⟨hgood, hbelow⟩, L', hu, hsub⟩ := hself
      rw [Prog.bind_of_ok (onFs_run (load_direntry_run hne u.fs)), (hleft.shows _ _ hu (hsub hd)).2.2.2.2.2.1] at hrun
      obtain ⟨hrest, L'', ht, hsub'⟩ := ihr d hleft.rest fuel k level u t L' hu (hsub hd) hrun
      exact ⟨⟨hgood, hbelow, hrest⟩, L'', ht, hsub.trans hsub'⟩

end

/-! ## Each entry once -/

namespace Event

/-- The entry that is printed or entered. -/
def subject : Event → Option Nat
  | title => none
  | printed entry _ | descended entry => some entry

/-- The entry `e` is printed. -/
def prints (e : Nat) : Event → Bool
  | printed entry _ => entry = e
  | _ => false

end Event

namespace Forest

variable {f : Forest} {e : Nat} {file : FileInfo}

theorem Node.mem (h : f.Node e file) : e ∈ f.entries := by
  induction h with
  | head => exact List.mem_cons_self
  | inside _ ih => exact List.mem_cons_of_mem _ (List.mem_append_left _ ih)
  | later _ ih => exact List.mem_cons_of_mem _ (List.mem_append_right _ ih)

/-- A listing is about the entries of the tree. -/
theorem listing_subject (f : Forest) : ∀ {level : Nat} {ev : Event}, ev ∈ f.listing level → ∀ e, ev.subject = some e →
    e ∈ f.entries := by
  induction f with
  | nil =>
    intro level ev h
    cases h
  | cons x file below rest ihb ihr =>
    intro level ev h e he
    rw [listing] at h
    rcases List.mem_append.1 h with h | h
    · by_cases hdot : file.Dotted
      · rw [if_pos hdot] at h
        cases h
      rw [if_neg hdot] at h
      rcases List.mem_cons.1 h with rfl | h
      · cases he
        exact List.mem_cons_self
      by_cases hF : file.type = F_DIR
      · rw [if_pos hF] at h
        rcases List.mem_cons.1 h with rfl | h
        · cases he
          exact List.mem_cons_self
        · exact List.mem_cons_of_mem _ (List.mem_append_left _ (ihb h e he))
      · rw [if_neg hF] at h
        cases h
    · exact List.mem_cons_of_mem _ (List.mem_append_right _ (ihr h e he))

theorem listing_silent (level : Nat) (h : e ∉ f.entries) :
    (f.listing level).countP (Event.prints e) = 0 ∧ .descended e ∉ f.listing level := by
  refine ⟨List.countP_eq_zero.2 fun ev hev hprints => ?_, fun hdesc => h (listing_subject f hdesc e rfl)⟩
  cases ev with
  | printed entry line =>
    have heq : entry = e := by simpa [Event.prints] using hprints
    exact h (listing_subject f hev e (by rw [heq]; rfl))
  | title => cases hprints
  | descended => cases hprints

theorem listing_dotted {x level : Nat} {below rest : Forest} (hdot : file.Dotted) :
    (cons x file below rest).listing level = rest.listing level := by
  rw [listing, if_pos hdot, List.nil_append]

theorem listing_leaf {x level : Nat} {below rest : Forest} (hdot : ¬ file.Dotted) (hF : file.type ≠ F_DIR) :
    (cons x file below rest).listing level = .printed x (line level file.name) :: rest.listing level := by
  rw [listing, if_neg hdot, if_neg hF, List.singleton_append]

theorem listing_directory {x level : Nat} {below rest : Forest} (hdot : ¬ file.Dotted) (hF : file.type = F_DIR) :
    (cons x file below rest).listing level = .printed x (line level file.name) :: .descended x ::
      (below.listing (level + 1) ++ rest.listing level) := by
  rw [listing, if_neg hdot, if_pos hF, List.cons_append, List.cons_append]

/-- An entry below another one: that one is a directory with a name of its own. -/
theorem Tree.descends {x : Nat} {below rest : Forest} (h : (cons x file below rest).Tree) (hne : below ≠ nil) :
    file.Descends :=
  of_not_not fun hnot => hne (h.2.2.1 hnot)

theorem Node.ne_nil (h : f.Node e file) : f ≠ nil := by
  rintro rfl
  cases h

/-- In a tree each entry is printed once and entered once, or not at all. -/
theorem listing_once (h : f.Node e file) : ∀ level : Nat, f.Tree → f.entries.Nodup →
    (f.listing level).countP (Event.prints e) = (if file.Dotted then 0 else 1) ∧
      (.descended e ∈ f.listing level ↔ file.Descends) := by
  induction h with
  | @head x file below rest =>
    intro level htree hnodup
    obtain ⟨hx, -⟩ := List.nodup_cons.1 hnodup
    obtain ⟨hxb, hxr⟩ := not_or.1 (mt List.mem_append.2 hx)
    obtain ⟨hcb, hdb⟩ := listing_silent (level + 1) hxb
    obtain ⟨hcr, hdr⟩ := listing_silent level hxr
    by_cases hdot : file.Dotted
    · rw [listing_dotted hdot, if_pos hdot]
      exact ⟨hcr, iff_of_false hdr fun hd => hd.2 hdot⟩
    rw [if_neg hdot]
    by_cases hF : file.type = F_DIR
    · rw [listing_directory hdot hF]
      refine ⟨?_, iff_of_true (by simp) ⟨hF, hdot⟩⟩
      simp [List.countP_append, Event.prints, hcb, hcr]
    · rw [listing_leaf hdot hF]
      refine ⟨?_, iff_of_false ?_ fun hd => hF hd.1⟩
      · simp [Event.prints, hcr]
      · simp [hdr]
  | @inside x e file' file below rest hnode ih =>
    intro level htree hnodup
    obtain ⟨hx, hnodup⟩ := List.nodup_cons.1 hnodup
    obtain ⟨hxb, -⟩ := not_or.1 (mt List.mem_append.2 hx)
    obtain ⟨hbelow, -, hdisjoint⟩ := List.nodup_append'.1 hnodup
    obtain ⟨hF, hdot⟩ := htree.descends hnode.ne_nil
    obtain ⟨hcr, hdr⟩ := listing_silent level (hdisjoint hnode.mem)
    obtain ⟨hcount, hdesc⟩ := ih (level + 1) htree.2.2.2.1 hbelow
    have hne : x ≠ e := fun h => hxb (h ▸ hnode.mem)
    rw [listing_directory hdot hF, ← hcount, ← hdesc]
    constructor
    · simp [List.countP_append, Event.prints, hne, hcr]
    · simp [hdr, Ne.symm hne]
  | @later x e file' file below rest hnode ih =>
    intro level htree hnodup
    obtain ⟨hx, hnodup⟩ := List.nodup_cons.1 hnodup
    obtain ⟨-, hxr⟩ := not_or.1 (mt List.mem_append.2 hx)
    obtain ⟨-, hrest, hdisjoint⟩ := List.nodup_append'.1 hnodup
    obtain ⟨hcb, hdb⟩ := listing_silent (level + 1) fun h => hdisjoint h hnode.mem
    obtain ⟨hcount, hdesc⟩ := ih level htree.2.2.2.2 hrest
    have hne : x ≠ e := fun h => hxr (h ▸ hnode.mem)
    rw [← hcount, ← hdesc]
    by_cases hdot : file'.Dotted
    · rw [listing_dotted hdot]
      exact ⟨rfl, Iff.rfl⟩
    by_cases hF : file'.type = F_DIR
    · rw [listing_directory hdot hF]
      constructor
      · simp [List.countP_append, Event.prints, hne, hcb]
      · simp [hdb, Ne.symm hne]
    · rw [listing_leaf hdot hF]
      constructor
      · simp [Event.prints, hne]
      · simp

theorem clear_iff : f.Clear ↔ ∀ e file, f.Node e file → ¬ file.Dotted → file.type ≠ F_BLOCK ∧ file.type ≠ F_SOCKET := by
  induction f with
  | nil => exact iff_of_true trivial fun e file h => nomatch h
  | cons x file' below rest ihb ihr =>
    rw [Clear, ihb, ihr]
    constructor
    · rintro ⟨hself, hbelow, hrest⟩ e file (_ | hnode | hnode)
      · exact hself
      · exact hbelow e file hnode
      · exact hrest e file hnode
    · intro h
      exact ⟨h x file' .head, fun e file hnode => h e file (.inside hnode), fun e file hnode => h e file (.later hnode)⟩

theorem Tree.below {b : Forest} (htree : f.Tree) (h : f.Here e file b) : b.Tree := by
  induction h with
  | head => exact htree.2.2.2.1
  | tail _ ih => exact ih htree.2.2.2.2

theorem Tree.directory {b : Forest} (htree : f.Tree) (h : f.Here e file b) :
    file.directory ≠ 0 ↔ file.type = F_DIR := by
  induction h with
  | head => exact htree.2.1
  | tail _ ih => exact ih htree.2.2.2.2

end Forest

/-! ## The listing of a tree -/

section
variable {get_direntries : Nat → Prog Vfs Unit} {F : Forest} {loaded : Vfs → Set Nat → Prop} {s : Vfs} {L : Set Nat}

/-- The lists of a tree are trees, at addresses. -/
theorem Subtree.tree {d : Nat} {f : Forest} (h : Subtree F d f) (htree : F.Tree) : d ≠ 0 ∧ f.Tree := by
  induction h with
  | root => exact ⟨by decide, htree⟩
  | inside _ hhere hdesc ih => exact ⟨(ih.2.directory hhere).2 hdesc.1, ih.2.below hhere⟩

theorem root_left (hp : Provides get_direntries F loaded) (htree : F.Tree) : Left F loaded root_dir F where
  tree := htree
  here _ _ _ hb hd := .inside .root hb hd
  shows s L hs hd := (hp.list s L root_dir F .root hs hd).2

/-- `print_file_tree` after the title. -/
theorem print_file_tree_start (hp : Provides get_direntries F loaded) (hs : loaded s L) (fuel : Nat) :
    ∃ t, loaded t (insert root_dir L) ∧ print_file_tree get_direntries (fuel + 1) ⟨s, []⟩ =
      print_dir_loop (print_dir get_direntries fuel) fuel F.first 1 ⟨t, [.title]⟩ := by
  obtain ⟨t, ht, hstart⟩ := print_dir_start hp .root (by decide) (s := ⟨s, [.title]⟩) hs fuel 1
  refine ⟨t, ht, ?_⟩
  rw [print_file_tree, Prog.bind_of_ok (record_run _ _)]
  exact hstart

theorem print_file_tree_ok (hp : Provides get_direntries F loaded) (htree : F.Tree) (hs : loaded s L) {fuel : Nat}
    {t : Listing} (hrun : print_file_tree get_direntries fuel ⟨s, []⟩ = (.ok (), t)) : F.Clear := by
  cases fuel with
  | zero => cases hrun
  | succ fuel =>
    obtain ⟨u, hu, hstart⟩ := print_file_tree_start hp hs fuel
    rw [hstart] at hrun
    exact (print_dir_loop_ok hp F root_dir (root_left hp htree) fuel fuel 1 _ t _ hu (Set.mem_insert _ L) hrun).1

/-- For every tree: the listing ends, having printed each entry but the dots once and entered
the directories among them, exactly when none of them is a block device or a socket. -/
theorem print_file_tree_iff (hp : Provides get_direntries F loaded) (htree : F.Tree) (hdistinct : F.entries.Nodup)
    (hs : loaded s L) :
    (∃ m, ∀ fuel ≥ m, ∃ t, print_file_tree get_direntries fuel ⟨s, []⟩ = (.ok (), t) ∧
        t.events = .title :: F.listing 1 ∧ ∀ e file, F.Node e file →
          t.events.countP (Event.prints e) = (if file.Dotted then 0 else 1) ∧
            (.descended e ∈ t.events ↔ file.type = F_DIR ∧ ¬ file.Dotted)) ↔
      ∀ e file, F.Node e file → ¬ file.Dotted → file.type ≠ F_BLOCK ∧ file.type ≠ F_SOCKET := by
  constructor
  · rintro ⟨m, hm⟩
    obtain ⟨t, hrun, -⟩ := hm m le_rfl
    exact Forest.clear_iff.1 (print_file_tree_ok hp htree hs hrun)
  · intro hclear
    obtain ⟨m, hm⟩ := print_dir_loop_run hp F root_dir (root_left hp htree) (Forest.clear_iff.2 hclear)
    refine ⟨m + 1, fun fuel hfuel => ?_⟩
    obtain ⟨fuel, rfl⟩ : ∃ n, fuel = n + 1 := ⟨fuel - 1, by omega⟩
    obtain ⟨t, ht, hstart⟩ := print_file_tree_start hp hs fuel
    obtain ⟨u, L', hrun, -, -⟩ := hm fuel fuel (by omega) (by omega) 1 ⟨t, [.title]⟩ _ ht (Set.mem_insert _ L)
    refine ⟨_, hstart.trans hrun, rfl, fun e file hnode => ?_⟩
    obtain ⟨hcount, hdesc⟩ := Forest.listing_once hnode 1 htree hdistinct
    rw [← hcount]
    exact ⟨by simp [Event.prints], by simpa [FileInfo.Descends] using hdesc⟩

end

/-! ## Trees in memory -/

/-- The whole tree is in memory, and each directory belongs to a mounted filesystem. -/
structure InMemory (s : Vfs) (F : Forest) : Prop where
  list : ∀ d f, Subtree F d f → (s.dirs d).entries = f.first ∧ f.Shows s
  loaded : ∀ d f, Subtree F d f → f ≠ .nil
  mounted : ∀ d f, Subtree F d f → (s.dirs d).fs_info ≠ 0

theorem get_direntries_null (env : Env) (s : Vfs) : get_direntries env 0 s = (.error .nullDeref, s) := rfl

/-- A directory whose list is in memory is not read again. -/
theorem get_direntries_loaded (env : Env) {s : Vfs} {d : Nat} (hd : d ≠ 0) (hm : (s.dirs d).fs_info ≠ 0)
    (he : (s.dirs d).entries ≠ 0) : get_direntries env d s = (.ok (), s) := by
  have hrun := ext2_get_direntries_run env hd hm
  rw [if_pos he] at hrun
  rw [get_direntries, bind_of_ok (load_dir_run hd s), bind_of_ok (load_mntp_run hm s)]
  exact bind_of_ok hrun

/-- What the kernel provides for a tree that is in memory. -/
theorem InMemory.provides {s : Vfs} {F : Forest} (h : InMemory s F) (htree : F.Tree) (env : Env) :
    Provides (get_direntries env) F fun t _ => t = s where
  null := get_direntries_null env
  load := by
    rintro t L d f hcont rfl
    obtain ⟨hlist, hshows⟩ := h.list d f hcont
    refine ⟨t, get_direntries_loaded env (hcont.tree htree).1 (h.mounted d f hcont) ?_, rfl⟩
    cases f with
    | nil => exact absurd rfl (h.loaded d _ hcont)
    | cons entry file below rest =>
      rw [hlist]
      exact hshows.1
  list := by
    rintro t L d f hcont rfl -
    exact h.list d f hcont

/-! ## A directory in the root directory -/

/-- The root directory holds the directory `a`, and that one a file `b` of some type. -/
def nested (type : Nat) : Vfs :=
  { oneFile with
    dirs := fun d =>
      if d = 0x600 then ⟨12, 1, 0, root_dir, 0x500, 0x700⟩ else ⟨2, 1, 0, root_dir, root_direntry, 0x300⟩
    direntries := fun e =>
      if e = 0x500 then ⟨F_DIR, 0, 0, 0, nameArray [0x61], 12, root_dir, 0x600, 0, 0⟩
      else if e = 0x700 then ⟨F_DIR, 0, 0, 0, nameArray dot, 12, 0x600, 0x600, 0x800, 0⟩
      else if e = 0x800 then ⟨F_DIR, 0, 0, 0, nameArray dotdot, 2, 0x600, root_dir, 0x900, 0⟩
      else if e = 0x900 then ⟨type, 0, 0, 0, nameArray [0x62], 13, 0x600, 0, 0, 0⟩
      else oneFile.direntries e }

/-- The directory `a`. -/
def innerForest (type : Nat) : Forest :=
  .cons 0x700 ⟨F_DIR, dot, 0x600⟩ .nil (.cons 0x800 ⟨F_DIR, dotdot, root_dir⟩ .nil
    (.cons 0x900 ⟨type, [0x62], 0⟩ .nil .nil))

def nestedForest (type : Nat) : Forest :=
  .cons 0x300 ⟨F_DIR, dot, root_dir⟩ .nil (.cons 0x400 ⟨F_DIR, dotdot, root_dir⟩ .nil
    (.cons 0x500 ⟨F_DIR, [0x61], 0x600⟩ (innerForest type) .nil))

section
variable {type : Nat} (htype : type ∈ ftype_e) (hdir : type ≠ F_DIR)

include htype hdir in
theorem nestedForest_tree : (nestedForest type).Tree := by
  have hroot : F_DIR ∈ ftype_e ∧ (root_dir ≠ 0 ↔ F_DIR = F_DIR) := by decide
  have hinner : F_DIR ∈ ftype_e ∧ (0x600 ≠ 0 ↔ F_DIR = F_DIR) := by decide
  have hfile : (0 ≠ 0 ↔ type = F_DIR) := iff_of_false (fun h => h rfl) hdir
  exact ⟨hroot.1, hroot.2, fun _ => rfl, trivial, hroot.1, hroot.2, fun _ => rfl, trivial,
    hinner.1, hinner.2, fun h => absurd (by decide) h,
    ⟨hinner.1, hinner.2, fun _ => rfl, trivial, hroot.1, hroot.2, fun _ => rfl, trivial, htype, hfile, fun _ => rfl,
      trivial, trivial⟩,
    trivial⟩

theorem nested_names : ∀ name ∈ [dot, dotdot, [0x61], [0x62]],
    0 ∈ nameArray name ∧ cstr (nameArray name) = name := by decide

include hdir in
theorem nested_contents {d : Nat} {f : Forest} (h : Subtree (nestedForest type) d f) :
    (d = root_dir ∧ f = nestedForest type) ∨ (d = 0x600 ∧ f = innerForest type) := by
  induction h with
  | root => exact .inl ⟨rfl, rfl⟩
  | inside _ hhere hdesc ih =>
    rcases ih with ⟨-, rfl⟩ | ⟨-, rfl⟩
    · rcases hhere with _ | (_ | (_ | ⟨⟨⟩⟩))
      · exact absurd hdesc (by decide)
      · exact absurd hdesc (by decide)
      · exact .inr ⟨rfl, rfl⟩
    · rcases hhere with _ | (_ | (_ | ⟨⟨⟩⟩))
      · exact absurd hdesc (by decide)
      · exact absurd hdesc (by decide)
      · exact absurd hdesc.1 hdir

include hdir in
theorem nested_inMemory : InMemory (nested type) (nestedForest type) where
  list := by
    intro d f h
    have hdot := nested_names dot (by decide)
    have hdotdot := nested_names dotdot (by decide)
    have ha := nested_names [0x61] (by decide)
    have hb := nested_names [0x62] (by decide)
    rcases nested_contents hdir h with ⟨rfl, rfl⟩ | ⟨rfl, rfl⟩
    · exact ⟨rfl, (by decide : 0x300 ≠ 0), hdot.1, hdot.2, rfl, rfl, rfl, (by decide : 0x400 ≠ 0), hdotdot.1, hdotdot.2,
        rfl, rfl, rfl, (by decide : 0x500 ≠ 0), ha.1, ha.2, rfl, rfl, rfl, trivial⟩
    · exact ⟨rfl, (by decide : 0x700 ≠ 0), hdot.1, hdot.2, rfl, rfl, rfl, (by decide : 0x800 ≠ 0), hdotdot.1, hdotdot.2,
        rfl, rfl, rfl, (by decide : 0x900 ≠ 0), hb.1, hb.2, rfl, rfl, rfl, trivial⟩
  loaded := by
    intro d f h
    rcases nested_contents hdir h with ⟨rfl, rfl⟩ | ⟨rfl, rfl⟩ <;> exact Forest.noConfusion
  mounted := by
    intro d f h
    rcases nested_contents hdir h with ⟨rfl, rfl⟩ | ⟨rfl, rfl⟩ <;> exact one_ne_zero

end

theorem print_file_tree_iff_regular : ∃ m, ∀ fuel ≥ m, ∃ t,
    print_file_tree (get_direntries (smallEnv [])) fuel ⟨nested F_REGULAR, []⟩ = (.ok (), t) ∧
      t.events = .title :: (nestedForest F_REGULAR).listing 1 := by
  have htree := @nestedForest_tree F_REGULAR (by decide) (by decide)
  have hmem := @nested_inMemory F_REGULAR (by decide)
  have hclear : (nestedForest F_REGULAR).Clear :=
    ⟨by decide, trivial, by decide, trivial, by decide, ⟨by decide, trivial, by decide, trivial, by decide, trivial,
      trivial⟩, trivial⟩
  obtain ⟨m, hm⟩ := (@print_file_tree_iff _ _ _ (nested F_REGULAR) ∅ (hmem.provides htree (smallEnv [])) htree
      (by decide) rfl).2
    (Forest.clear_iff.1 hclear)
  refine ⟨m, fun fuel hfuel => ?_⟩
  obtain ⟨t, hrun, hevents, -⟩ := hm fuel hfuel
  exact ⟨t, hrun, hevents⟩

/-- A block device is taken for a directory, which it has none of. -/
theorem print_file_tree_block_device : (nestedForest F_BLOCK).Tree ∧ InMemory (nested F_BLOCK) (nestedForest F_BLOCK) ∧
    (print_file_tree (get_direntries (smallEnv [])) 8 ⟨nested F_BLOCK, []⟩).1 = .error .nullDeref :=
  ⟨nestedForest_tree (by decide) (by decide), nested_inMemory (by decide), by decide +kernel⟩

end Ulmix.Fs

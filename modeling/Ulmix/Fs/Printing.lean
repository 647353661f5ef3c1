import Ulmix.Fs.Resolution
/-!
# The tree that is printed is the one on the disk

`print_file_tree` loads each directory it comes to, so its output should depend on
nothing but the disk. `Image.tree` is what the disk has to print: the names in the
directories, each directory followed by what is in it. The depth bounds how often
this goes down; where directories nest no deeper (`Image.Nests`), it is the whole
tree, and the lines printed are exactly these, whatever was looked up before
(`print_file_tree_prints`).
-/
open Ulmix.Lib Ulmix.Lib.Prog

namespace Ulmix.Fs

open Listing

/-! ## What the disk has to print -/

namespace Image
variable (v : Image)

/-- The name in the record at `i` of directory `n` is `.` or `..`. -/
def Dotted (n i : Nat) : Prop := (fileAt (v.dirBlock n) i).1 = dot ∨ (fileAt (v.dirBlock n) i).1 = dotdot

instance (n i : Nat) : Decidable (v.Dotted n i) := by unfold Dotted; infer_instance

/-- The lines for the record at `i` of directory `n`, with `below` for those of a directory. -/
def recordLines (below : Nat → List (List UInt8)) (level n i : Nat) : List (List UInt8) :=
  if v.Dotted n i then []
  else line level (fileAt (v.dirBlock n) i).1 ::
    if v.IsDir (recordAt (v.dirBlock n) i).inode then below (recordAt (v.dirBlock n) i).inode else []

/-- The lines for what is in directory `n`, to a depth. -/
def tree : Nat → Nat → Nat → List (List UInt8)
  | 0, _, _ => []
  | depth + 1, level, n => (v.records n).flatMap (v.recordLines (tree depth (level + 1)) level n)

/-- From directory `n` on, directories with a name of their own are nested in no more than `depth` levels. -/
def Nests : Nat → Nat → Prop
  | 0, _ => False
  | depth + 1, n => ∀ i ∈ v.records n, ¬ v.Dotted n i → v.IsDir (recordAt (v.dirBlock n) i).inode →
      Nests depth (recordAt (v.dirBlock n) i).inode

/-- Nothing with a name of its own has the bit of a directory in its type and is none. -/
def Unmistaken : Prop := ∀ n, v.Directory n → ∀ i ∈ v.records n, ¬ v.Dotted n i →
  i_mode (v.inode (recordAt (v.dirBlock n) i).inode) &&& 0xf000 &&& F_DIR ≠ 0 →
    v.IsDir (recordAt (v.dirBlock n) i).inode

end Image

/-- The line an event has printed. -/
def Event.line? : Event → Option (List UInt8)
  | .printed _ line => some line
  | _ => none

/-- The lines printed so far. -/
def Listing.lines (s : Listing) : List (List UInt8) := s.events.filterMap Event.line?

section
variable {env : Env} {disks : Nat → Nat → UInt8} {p : Disks.HdStruct} {part m n d e i : Nat} {s t : Vfs} {v : Image}

/-! ## One entry -/

/-- What an entry shows it shows later. -/
theorem Extends.shows (h : Extends s t) (hd : TreeDir s d) (he : OnList s (s.dirs d).entries e)
    (hshow : EntryShows v s n e i) : EntryShows v t n e i := by
  obtain ⟨-, q, hq⟩ := h.entries d e hd he
  exact hshow.payload hq fun hne => h.inode_no _ (hd.child he hne)

/-- The names `.` and `..` are passed over. -/
theorem print_entry_shows (print_dir : Nat → Nat → Prog Listing Unit) {s : Listing} (h : EntryShows v s.fs n e i)
    (level : Nat) : print_entry print_dir e (s.fs.direntries e) level s =
      if v.Dotted n i then (.ok (), s)
      else (if (s.fs.direntries e).type &&& F_DIR ≠ 0 then do
          record (.descended e)
          print_dir (s.fs.direntries e).directory (level + 1)
        else pure ())
          { s with events := s.events ++ [Event.printed e (line level (fileAt (v.dirBlock n) i).1)] } := by
  obtain ⟨a, ha, hdot⟩ := strcmp_run s.fs (s.fs.direntries e).name dot h.terminated (by decide)
  obtain ⟨b, hb, hdotdot⟩ := strcmp_run s.fs (s.fs.direntries e).name dotdot h.terminated (by decide)
  rw [h.name] at hdot hdotdot
  unfold print_entry
  rw [bind_of_ok (onFs_run ha), h.name]
  by_cases h1 : a = 0
  · have hd : v.Dotted n i := .inl (hdot.1 h1)
    rw [if_neg (not_not_intro h1), if_pos hd]
    rfl
  rw [if_pos h1]
  refine (bind_of_ok (onFs_run hb)).trans ?_
  by_cases h2 : b = 0
  · have hd : v.Dotted n i := .inr (hdotdot.1 h2)
    rw [if_neg (not_not_intro h2), if_pos hd]
    rfl
  · have hd : ¬ v.Dotted n i := by
      rintro (h | h)
      · exact h1 (hdot.2 h)
      · exact h2 (hdotdot.2 h)
    rw [if_pos h2, if_neg hd]
    exact bind_of_ok (record_run _ s)

theorem lines_printed (s : Listing) (e : Nat) (l : List UInt8) (fs : Vfs) :
    (⟨fs, s.events ++ [Event.printed e l]⟩ : Listing).lines = s.lines ++ [l] := by
  simp [Listing.lines, Event.line?]

theorem lines_descended (s : Listing) (e : Nat) (fs : Vfs) :
    (⟨fs, s.events ++ [Event.descended e]⟩ : Listing).lines = s.lines := by
  simp [Listing.lines, Event.line?]

/-! ## A directory -/

/-- Directories nested in no more than `depth` levels are printed as they are on the disk. -/
def Prints (env : Env) (v : Image) (p : Disks.HdStruct) (part m depth : Nat) : Prop :=
  ∀ (fuel d level : Nat) (s : Listing), Faithful v p part m s.fs → TreeDir s.fs d →
    v.Nests depth (s.fs.dirs d).inode_no → 2 ^ 32 + depth ≤ fuel →
    ∃ t, print_dir (get_direntries env) fuel d level s = (.ok (), t) ∧ Faithful v p part m t.fs ∧ Extends s.fs t.fs ∧
      t.lines = s.lines ++ v.tree depth level (s.fs.dirs d).inode_no

/-- An entry is printed with what is below it. -/
theorem print_entry_prints {depth fuel level : Nat} {s : Listing} (hv : v.Sound) (hplain : v.Unmistaken)
    (hprints : Prints env v p part m depth) (hfuel : 2 ^ 32 + depth ≤ fuel) (h : Faithful v p part m s.fs)
    (hd : TreeDir s.fs d) (hn : (s.fs.dirs d).inode_no = n) (he : OnList s.fs (s.fs.dirs d).entries e)
    (hshow : EntryShows v s.fs n e i) (hi : i ∈ v.records n)
    (hnests : ¬ v.Dotted n i → v.IsDir (recordAt (v.dirBlock n) i).inode →
      v.Nests depth (recordAt (v.dirBlock n) i).inode) :
    ∃ t, print_entry (print_dir (get_direntries env) fuel) e (s.fs.direntries e) level s = (.ok (), t) ∧
      Faithful v p part m t.fs ∧ Extends s.fs t.fs ∧
      t.lines = s.lines ++ v.recordLines (v.tree depth (level + 1)) level n i := by
  have hdirectory : v.Directory n := hn ▸ h.number hd
  unfold Image.recordLines
  rw [print_entry_shows _ hshow]
  by_cases hdot : v.Dotted n i
  · rw [if_pos hdot, if_pos hdot, List.append_nil]
    exact ⟨s, rfl, h, .refl _, rfl⟩
  rw [if_neg hdot, if_neg hdot]
  have hbit : (s.fs.direntries e).type &&& F_DIR ≠ 0 ↔ v.IsDir (recordAt (v.dirBlock n) i).inode := by
    constructor
    · intro hne
      rw [hshow.inode.type] at hne
      exact hplain n hdirectory i hi hdot hne
    · intro hdir
      rw [hshow.inode.type_iff.2 hdir]
      decide
  by_cases hdir : v.IsDir (recordAt (v.dirBlock n) i).inode
  · obtain ⟨hne, hno⟩ := hshow.directory ((hv.typed n hdirectory i hi).2 hdir)
    let s₁ : Listing := ⟨s.fs, s.events ++ [Event.printed e (line level (fileAt (v.dirBlock n) i).1)]⟩
    let s₂ : Listing := ⟨s.fs, s₁.events ++ [Event.descended e]⟩
    obtain ⟨t, hrun, ht, hext, hlines⟩ := hprints fuel _ (level + 1) s₂ h (hd.child he hne)
      (by rw [hno]; exact hnests hdot hdir) hfuel
    refine ⟨t, ?_, ht, hext, ?_⟩
    · rw [if_pos (hbit.2 hdir), bind_of_ok (record_run _ _)]
      exact hrun
    · have hlines₂ : s₂.lines = s.lines ++ [line level (fileAt (v.dirBlock n) i).1] :=
        (lines_descended s₁ e s.fs).trans (lines_printed s e _ s.fs)
      rw [hlines, hlines₂, if_pos hdir, hno, List.append_assoc]
      rfl
  · rw [if_neg (mt hbit.1 hdir), if_neg hdir]
    exact ⟨_, rfl, h, .refl _, lines_printed s e _ s.fs⟩

/-- The loop prints the rest of a list. -/
theorem print_dir_loop_prints {depth fuel level : Nat} (hv : v.Sound) (hplain : v.Unmistaken)
    (hprints : Prints env v p part m depth) (hfuel : 2 ^ 32 + depth ≤ fuel) : ∀ (l is : List Nat) (k c : Nat)
      (s : Listing), Faithful v p part m s.fs → TreeDir s.fs d → (s.fs.dirs d).inode_no = n →
      List.Forall₂ (EntryShows v s.fs n) l is → Sll (fun e => (s.fs.direntries e).next) c l →
      (∀ e ∈ l, OnList s.fs (s.fs.dirs d).entries e) → (∀ i ∈ is, i ∈ v.records n) → l.length < k →
      v.Nests (depth + 1) n →
      ∃ t, print_dir_loop (print_dir (get_direntries env) fuel) k c level s = (.ok (), t) ∧
        Faithful v p part m t.fs ∧ Extends s.fs t.fs ∧
        t.lines = s.lines ++ is.flatMap (v.recordLines (v.tree depth (level + 1)) level n) := by
  intro l is
  induction l generalizing is with
  | nil =>
    intro k c s h _ _ hshow hl _ _ hk _
    obtain ⟨k, rfl⟩ : ∃ j, k = j + 1 := ⟨k - 1, by simp only [List.length_nil] at hk; omega⟩
    obtain rfl := List.forall₂_nil_left_iff.1 hshow
    obtain rfl : c = 0 := hl
    refine ⟨s, ?_, h, .refl _, by simp⟩
    rw [print_dir_loop, if_pos rfl]
    rfl
  | cons e l ih =>
    intro k c s h hd hn hshow hl hlist hin hk hnests
    obtain ⟨k, rfl⟩ : ∃ j, k = j + 1 := ⟨k - 1, by omega⟩
    cases hshow with
    | @cons _ i _ is hei hshow =>
      obtain ⟨rfl, hne, hl⟩ := hl
      have he := hlist c (by simp)
      have hi := hin i (by simp)
      obtain ⟨t, hrun, ht, hext, hlines⟩ := print_entry_prints hv hplain hprints hfuel h hd hn he hei hi
        (hnests i hi)
      obtain ⟨-, q, hq⟩ := hext.entries d c hd he
      have hnext : (t.fs.direntries c).next = (s.fs.direntries c).next := by rw [hq]
      -- the rest of the list is where it was
      have hrest : Sll (fun e => (t.fs.direntries e).next) (s.fs.direntries c).next l := by
        refine hl.congr fun a ha => ?_
        obtain ⟨-, q, hq⟩ := hext.entries d a hd (hlist a (by simp [ha]))
        rw [hq]
      have hshow' : List.Forall₂ (EntryShows v t.fs n) l is := by
        refine ((List.forall₂_and_left _ _).2 ⟨fun a ha => hlist a (by simp [ha]), hshow⟩).imp fun a j haj => ?_
        exact hext.shows hd haj.1 haj.2
      obtain ⟨u, hloop, hu, hext', hlines'⟩ := ih is k _ t ht (hext.dirs d hd) ((hext.inode_no d hd).trans hn) hshow'
        hrest (fun a ha => (hext.entries d a hd (hlist a (by simp [ha]))).1) (fun j hj => hin j (by simp [hj]))
        (by simp only [List.length_cons] at hk; omega) hnests
      refine ⟨u, ?_, hu, hext.trans hext', ?_⟩
      · rw [print_dir_loop, if_neg hne, bind_of_ok (onFs_run (load_direntry_run hne s.fs)), bind_of_ok hrun,
          bind_of_ok (onFs_run (load_direntry_run hne t.fs)), hnext]
        exact hloop
      · rw [hlines', hlines, List.append_assoc, List.flatMap_cons]

end

section
variable {env : Env} {disks : Nat → Nat → UInt8} {p : Disks.HdStruct} {part m : Nat} {s : Vfs}

/-- Each level more is printed. -/
theorem print_dir_prints (hw : Working env disks) (hv : (imageOf disks p).Sound) (hc : Confined (imageOf disks p) p)
    (hplain : (imageOf disks p).Unmistaken) (depth : Nat) : Prints env (imageOf disks p) p part m depth := by
  induction depth with
  | zero => exact fun _ _ _ _ _ _ hnests => hnests.elim
  | succ depth ih =>
    intro fuel d level s h hd hnests hfuel
    obtain ⟨fuel, rfl⟩ : ∃ k, fuel = k + 1 := ⟨fuel - 1, by omega⟩
    obtain ⟨t, hrun, ht, hext, hloaded, -⟩ := h.gets hw hv hc hd
    have htd := hext.dirs d hd
    have hno := hext.inode_no d hd
    obtain ⟨l, hl, hshow⟩ := (ht.listed d htd).resolve_left hloaded
    have hlen : l.length < 2 ^ 32 := by
      have hroom := (hv.tiles (ht.number htd)).room
      have hsize := (imageOf disks p).dirBlock_length (t.dirs d).inode_no
      have hlt : (imageOf disks p).blockSize < 2 ^ 32 := Nat.mod_lt _ (by decide)
      rw [hshow.length_eq]
      omega
    obtain ⟨u, hloop, hu, hext', hlines⟩ := print_dir_loop_prints hv hplain ih
      (by omega : 2 ^ 32 + depth ≤ fuel) l _ fuel _ ⟨t, s.events⟩ ht htd rfl hshow hl (fun e he => hl.onList.2 he)
      (fun i hi => hi) (by omega) (by rw [hno]; exact hnests)
    refine ⟨u, ?_, hu, hext.trans hext', ?_⟩
    · have hload : onFs (load_dir d) ⟨t, s.events⟩ = (.ok (t.dirs d), ⟨t, s.events⟩) :=
        onFs_run (load_dir_run (ht.nonnull htd) t)
      rw [print_dir, bind_of_ok (onFs_run hrun), bind_of_ok hload]
      exact hloop
    · rw [hlines, ← hno]
      rfl

end

theorem treeImage_unmistaken : treeImage.Unmistaken := by
  intro n hn i hi
  have hn := treeImage_directory hn
  rw [treeImage_records hn] at hi
  simp only [List.mem_cons, List.not_mem_nil, or_false] at hi
  rcases hn with rfl | rfl <;> rcases hi with rfl | rfl | rfl <;> decide +kernel

/-- The directory of the third inode lists `.`, `..` and a file, so it nests no further. -/
theorem treeImage_nests_three : treeImage.Nests 1 3 := by
  intro i hi hdot hdir
  rw [treeImage_records (.inr rfl)] at hi
  simp only [List.mem_cons, List.not_mem_nil, or_false] at hi
  rcases hi with rfl | rfl | rfl
  · exact absurd (by decide +kernel) hdot
  · exact absurd (by decide +kernel) hdot
  · exact absurd hdir (by decide +kernel)

theorem treeImage_nests : treeImage.Nests 2 2 := by
  intro i hi hdot hdir
  rw [treeImage_records (.inl rfl)] at hi
  simp only [List.mem_cons, List.not_mem_nil, or_false] at hi
  rcases hi with rfl | rfl | rfl
  · exact absurd (by decide +kernel) hdot
  · exact absurd (by decide +kernel) hdot
  · have hthree : (recordAt (treeImage.dirBlock 2) 24).inode = 3 := by decide +kernel
    rw [hthree]
    exact treeImage_nests_three

end Ulmix.Fs

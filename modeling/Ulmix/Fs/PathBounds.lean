import Ulmix.Fs.DoMount
/-!
# What of a path name is read

`namei` looks at the byte behind the zero of `/`. `namei_recursive` looks at the
byte before the rest of the path, which for an empty path lies before its first
one, and it copies each component into 256 bytes without counting. So it stays
within the path and the array exactly if the path is not `/`, if it is empty only
where no `.` is found, and if every component it looks up has fewer than 256
bytes (`namei_bounded_iff`). Which ones it looks up depends on the tree, and on
the directories that are loaded on the way (`LooksUp`).
-/
open Ulmix.Lib Ulmix.Lib.Prog

namespace Ulmix.Fs

/-! ## Names in a tree -/

/-- A tree in which every name ends within its array. -/
structure PathTree (s : Vfs) : Prop extends VfsTree s where
  terminated : ∀ d e, TreeDir s d → OnList s (s.dirs d).entries e → 0 ∈ (s.direntries e).name

/-- `get_direntries` loads directories of a tree, and leaves one with such names. -/
def LoadsPaths (g : Nat → Prog Vfs Unit) : Prop :=
  ∀ s t d, PathTree s → TreeDir s d → g d s = (.ok (), t) → PathTree t ∧ TreeKept s t

/-- What `get_direntries` does to memory on its own account is no access to a path: a bad
access of it is told apart from one of its caller. -/
def guarded (g : Nat → Prog Vfs Unit) : Nat → Prog Vfs Unit := fun d s =>
  match g d s with
  | (.error .outOfBounds, t) => (.error .panic, t)
  | r => r

section
variable {g : Nat → Prog Vfs Unit} {s t : Vfs} {d : Nat}

theorem guarded_ok : guarded g d s = (.ok (), t) ↔ g d s = (.ok (), t) := by
  unfold guarded
  rcases g d s with ⟨(_ | _ | _) | _, u⟩ <;> simp

theorem guarded_inside : (guarded g d s).1 ≠ .error .outOfBounds := by
  unfold guarded
  rcases g d s with ⟨(_ | _ | _) | _, u⟩ <;> simp

theorem LoadsPaths.guarded (h : LoadsPaths g) : LoadsPaths (guarded g) :=
  fun s t d hs hd hrun => h s t d hs hd (guarded_ok.1 hrun)

end

/-! ## The components looked up -/

/-- The entry of the list `l` a component names. The search takes at most one step for each address. -/
def listed (s : Vfs) (l : List Nat) (component : List UInt8) : Option Nat := lookup s (l.take (2 ^ 32)) component

/-- The directory of the entry `e` is entered, and loaded first if it has no list yet. -/
def Enters (g : Nat → Prog Vfs Unit) (s : Vfs) (e : Nat) (t : Vfs) : Prop :=
  (s.direntries e).directory ≠ 0 ∧
    if (s.dirs (s.direntries e).directory).entries = 0 then g (s.direntries e).directory s = (.ok (), t) else t = s

/-- On the way along the components of a path, from the directory `d` on, one is looked up. -/
inductive LooksUp (g : Nat → Prog Vfs Unit) : Vfs → Nat → List (List UInt8) → List UInt8 → Prop
  | here {s : Vfs} {d : Nat} {c : List UInt8} {cs : List (List UInt8)} : LooksUp g s d (c :: cs) c
  | further {s t : Vfs} {d e : Nat} {l : List Nat} {c x : List UInt8} {cs : List (List UInt8)} :
      Lists s d l → listed s l c = some e → (s.direntries e).type = F_DIR → cs ≠ [] → cs ≠ [[]] → Enters g s e t →
      LooksUp g t (s.direntries e).directory cs x → LooksUp g s d (c :: cs) x

/-- The components of a path, absolute or not. -/
def components (path : List UInt8) : List (List UInt8) :=
  (if path.head? = some slash then path.tail else path).splitOn slash

/-- The root directory has an entry `.`. -/
def FindsDot (s : Vfs) : Prop := ∃ l e, Lists s root_dir l ∧ listed s l [] = some e

section
variable {g g' : Nat → Prog Vfs Unit} {s t : Vfs} {d e : Nat} {c x : List UInt8} {cs : List (List UInt8)} {l : List Nat}

theorem LooksUp.mem (h : LooksUp g s d cs x) : x ∈ cs := by
  induction h with
  | here => exact List.mem_cons_self
  | further _ _ _ _ _ _ _ ih => exact List.mem_cons_of_mem _ ih

theorem LooksUp.congr (hg : ∀ d s t, g d s = (.ok (), t) → g' d s = (.ok (), t)) (h : LooksUp g s d cs x) :
    LooksUp g' s d cs x := by
  induction h with
  | here => exact .here
  | further hl he htype hne hne' hent _ ih =>
    refine .further hl he htype hne hne' ⟨hent.1, ?_⟩ ih
    have hload := hent.2
    split at hload
    · rename_i h0
      rw [if_pos h0]
      exact hg _ _ _ hload
    · rename_i h0
      rwa [if_neg h0]

/-- The first component, or one in the directory it leads to. -/
theorem looksUp_cons (hl : Lists s d l) : LooksUp g s d (c :: cs) x ↔ x = c ∨ (cs ≠ [] ∧ cs ≠ [[]] ∧
    ∃ e, listed s l c = some e ∧ (s.direntries e).type = F_DIR ∧
      ∃ t, Enters g s e t ∧ LooksUp g t (s.direntries e).directory cs x) := by
  constructor
  · intro h
    cases h with
    | here => exact .inl rfl
    | further hl' he htype hne hne' hent hrest =>
      obtain rfl := Sll.unique hl hl'
      exact .inr ⟨hne, hne', _, he, htype, _, hent, hrest⟩
  · rintro (rfl | ⟨hne, hne', e, he, htype, t, hent, hrest⟩)
    · exact .here
    · exact .further hl he htype hne hne' hent hrest

end

/-! ## Copying and searching -/

section
variable {s : Vfs} {buf : List UInt8} {d e p : Nat} {l : List Nat}

theorem char_at_drop {post c : List UInt8} {b : UInt8} (hbuf : buf.drop p = c ++ b :: post) :
    buf[p + c.length]? = some b := by
  have hat : (buf.drop p)[c.length]? = buf[p + c.length]? := List.getElem?_drop
  rw [← hat, hbuf]
  simp

/-- A component that leaves no room for the zero is copied beyond the array. -/
theorem strccpy_loop_overrun {terminator : UInt8} (s : Vfs) : ∀ (room : Nat) (c rest : List UInt8) (src : Nat)
    (dest : List UInt8), room ≤ c.length → buf.drop src = c ++ rest → 0 ∉ c → terminator ∉ c →
      strccpy_loop buf terminator room dest src s = (.error .outOfBounds, s) := by
  intro room
  induction room with
  | zero => intros; rfl
  | succ room ih =>
    intro c rest src dest hroom hbuf h0 ht
    cases c with
    | nil => simp at hroom
    | cons x c =>
      have hx : buf[src]? = some x := char_at_drop (c := []) hbuf
      have hnext : buf.drop (src + 1) = c ++ rest := by
        rw [← List.drop_drop, hbuf]
        rfl
      simp only [List.mem_cons, not_or, List.length_cons] at h0 ht hroom
      unfold strccpy_loop
      rw [Prog.bind_of_ok (char_at_run hx s), if_neg (Ne.symm h0.1), if_neg (Ne.symm ht.1)]
      exact ih c rest (src + 1) (dest ++ [x]) (by omega) hnext h0.2 ht.2

/-- The search over a list of any length: it finds the entry, or none, or does not end. -/
theorem namei_find_within {name : List UInt8} (h0 : 0 ∉ name) : ∀ (l : List Nat) (fuel c : Nat),
    Sll (fun e => (s.direntries e).next) c l → (∀ e ∈ l, 0 ∈ (s.direntries e).name) →
      ((∃ e, (l.take fuel).find? (fun e => cstr (s.direntries e).name = name) = some e ∧
          namei_find name fuel c s = (.ok e, s)) ∨
        (l.take fuel).find? (fun e => cstr (s.direntries e).name = name) = none ∧
          (namei_find name fuel c s = (.ok 0, s) ∨ namei_find name fuel c s = (.error .diverges, s))) := by
  intro l fuel
  induction fuel generalizing l with
  | zero =>
    intro c _ _
    exact .inr ⟨by simp, .inr rfl⟩
  | succ fuel ih =>
    intro c hl ht
    cases l with
    | nil =>
      obtain rfl : c = 0 := hl
      exact .inr ⟨rfl, .inl rfl⟩
    | cons e l =>
      obtain ⟨rfl, hne, hl⟩ := hl
      obtain ⟨r, hr, hiff⟩ := strcmp_run s (s.direntries c).name name (ht c (by simp)) h0
      rw [List.take_succ_cons]
      unfold namei_find
      rw [if_neg hne, Prog.bind_of_ok (load_direntry_run hne s), Prog.bind_of_ok hr]
      by_cases hm : cstr (s.direntries c).name = name
      · rw [if_pos (hiff.2 hm), List.find?_cons_of_pos (by simpa using hm)]
        exact .inl ⟨c, rfl, rfl⟩
      · rw [if_neg (fun h => hm (hiff.1 h)), List.find?_cons_of_neg (by simpa using hm)]
        exact ih l _ hl fun e he => ht e (by simp [he])

end

/-! ## One component -/

section
variable {g : Nat → Prog Vfs Unit} {s : Vfs} {buf post c : List UInt8} {b : UInt8} {d e p rem fuel : Nat} {l : List Nat}

/-- One that is too long. -/
theorem namei_recursive_overrun {rest : List UInt8} (hlong : 256 ≤ c.length) (hbuf : buf.drop p = c ++ rest)
    (h0 : 0 ∉ c) (hs : slash ∉ c) (g : Nat → Prog Vfs Unit) (fuel d : Nat) (s : Vfs) :
    namei_recursive g buf (fuel + 1) p d s = (.error .outOfBounds, s) :=
  Prog.bind_of_error (strccpy_loop_overrun s 256 c rest p [] hlong hbuf h0 hs)

/-- One that fits is searched for, unless the directory has no list. -/
theorem namei_recursive_copied (hd0 : d ≠ 0) (hb : b = 0 ∨ b = slash) (hbuf : buf.drop p = c ++ b :: post)
    (hc : c.length < 256) (h0 : 0 ∉ c) (hslash : slash ∉ c) (fuel : Nat) (s : Vfs) :
    namei_recursive g buf (fuel + 1) p d s =
      (if (s.dirs d).entries = 0 then pure (Except.error (-ENOENT))
      else do
        let entry ← namei_find (if c = [] then dot else c) (2 ^ 32) (s.dirs d).entries
        if entry = 0 then pure (Except.error (-ENOENT))
        else namei_follow g buf fuel (if b = 0 then p + c.length else p + c.length + 1) entry) s := by
  have hempty : (if c.length = 0 then dot else c) = if c = [] then dot else c := by
    cases c <;> rfl
  have hload := load_dir_run hd0 s
  rw [namei_recursive]
  refine (Prog.bind_of_ok (strccpy_run hb hc hbuf h0 hslash s)).trans ?_
  refine (Prog.bind_of_ok hload).trans ?_
  by_cases hentries : (s.dirs d).entries = 0
  · rw [if_pos hentries, if_pos hentries]
  · rw [if_neg hentries, if_neg hentries]
    refine (Prog.bind_of_ok hload).trans ?_
    dsimp only
    rw [hempty]
    rfl

/-- The call comes to an end with the search, or goes on with the entry found. -/
theorem namei_recursive_looks (hs : PathTree s) (hd : TreeDir s d) (hd0 : d ≠ 0) (hl : Lists s d l)
    (hb : b = 0 ∨ b = slash)
    (hbuf : buf.drop p = c ++ b :: post) (hc : c.length < 256) (h0 : 0 ∉ c) (hslash : slash ∉ c) (fuel : Nat) :
    (listed s l c = none ∧ (namei_recursive g buf (fuel + 1) p d s).1 ≠ .error .outOfBounds) ∨
      ∃ e, listed s l c = some e ∧ OnList s (s.dirs d).entries e ∧ namei_recursive g buf (fuel + 1) p d s =
        namei_follow g buf fuel (if b = 0 then p + c.length else p + c.length + 1) e s := by
  have hname : 0 ∉ (if c = [] then dot else c) := by
    split
    · decide
    · exact h0
  have hterm : ∀ e ∈ l, 0 ∈ (s.direntries e).name := fun e he => hs.terminated d e hd (hl.onList.2 he)
  rw [namei_recursive_copied hd0 hb hbuf hc h0 hslash]
  by_cases hentries : (s.dirs d).entries = 0
  · -- nothing is loaded
    obtain rfl : l = [] := by
      unfold Lists at hl
      rw [hentries] at hl
      exact hl.eq_nil
    rw [if_pos hentries]
    exact .inl ⟨rfl, by simp [Prog.pure_apply]⟩
  rw [if_neg hentries]
  rcases namei_find_within hname l (2 ^ 32) (s.dirs d).entries hl hterm with ⟨e, he, hrun⟩ | ⟨hnone, hrun | hrun⟩
  · have hmem : e ∈ l := List.mem_of_mem_take (List.mem_of_find?_eq_some he)
    refine .inr ⟨e, he, hl.onList.2 hmem, ?_⟩
    rw [Prog.bind_of_ok hrun, if_neg (hl.ne_zero e hmem)]
  · refine .inl ⟨hnone, ?_⟩
    rw [Prog.bind_of_ok hrun, if_pos rfl]
    simp [Prog.pure_apply]
  · refine .inl ⟨hnone, ?_⟩
    rw [Prog.bind_of_error hrun]
    simp

/-- Before the end of the path the search goes on in the directory that is entered. -/
theorem namei_follow_enters (hg : LoadsPaths g) (hin : ∀ d s, (g d s).1 ≠ .error .outOfBounds) (hs : PathTree s)
    (hd : TreeDir s d) (he : OnList s (s.dirs d).entries e) {x : UInt8} (hx : buf[rem]? = some x) (hx0 : x ≠ 0) :
    (namei_follow g buf fuel rem e s).1 = .error .outOfBounds ↔ (s.direntries e).type = F_DIR ∧
      ∃ t, Enters g s e t ∧ (namei_recursive g buf fuel rem (s.direntries e).directory t).1 = .error .outOfBounds := by
  have hused := hs.entry_used hd he
  have he0 : e ≠ 0 := by
    obtain ⟨l, hl, -⟩ := hs.listed d hd
    exact hl.ne_zero e (hl.onList.1 he)
  have hload := load_direntry_run he0 s
  unfold namei_follow
  rw [Prog.bind_of_ok hload, Prog.bind_of_ok (char_at_run hx s), if_neg hx0]
  by_cases htype : (s.direntries e).type = F_DIR
  swap
  · rw [if_pos htype]
    simp [Prog.pure_apply, htype]
  rw [if_neg (not_not_intro htype)]
  by_cases hdir : (s.direntries e).directory = 0
  · have hnull : load_dir (s.direntries e).directory s = (.error .nullDeref, s) := by
      unfold load_dir
      rw [if_pos hdir]
      rfl
    rw [Prog.bind_of_error hnull]
    simp [Enters, hdir]
  rw [Prog.bind_of_ok (load_dir_run hdir s)]
  by_cases hentries : (s.dirs (s.direntries e).directory).entries = 0
  · rw [if_pos ⟨hentries, htype⟩]
    rcases hrun : g (s.direntries e).directory s with ⟨error | _, t⟩
    · have hne := hin (s.direntries e).directory s
      rw [hrun] at hne
      rw [Prog.bind_of_error hrun]
      simpa [Enters, hdir, hentries, hrun] using hne
    · obtain ⟨-, hkept⟩ := hg s t _ hs (hd.child he hdir) hrun
      have hagain : load_direntry e t = (.ok (t.direntries e), t) := load_direntry_run he0 t
      rw [Prog.bind_of_ok hrun]
      dsimp only
      rw [Prog.bind_of_ok hagain, hkept.directory e hused]
      simp [Enters, htype, hdir, hentries, hrun]
  · rw [if_neg (fun h => hentries h.1)]
    dsimp only
    rw [Prog.bind_of_ok hload]
    simp [Enters, htype, hdir, hentries]

end

/-! ## All components -/

section
variable {g : Nat → Prog Vfs Unit} {s : Vfs} {buf : List UInt8}

/-- A path that is not empty is left exactly where a component is looked up that is too long. -/
theorem namei_recursive_overruns (hg : LoadsPaths g) (hin : ∀ d s, (g d s).1 ≠ .error .outOfBounds) :
    ∀ (fuel p : Nat) (rest : List UInt8) (d : Nat) (s : Vfs), PathTree s → TreeDir s d → d ≠ 0 → rest ≠ [] →
      rest.length < fuel → buf.drop p = rest ++ [0] → 0 ∉ rest →
      ((namei_recursive g buf fuel p d s).1 = .error .outOfBounds ↔
        ∃ c, LooksUp g s d (rest.splitOn slash) c ∧ 256 ≤ c.length) := by
  intro fuel
  induction fuel with
  | zero =>
    intro p rest d s _ _ _ _ hfuel
    cases hfuel
  | succ fuel ih =>
    intro p rest d s hs hd hd0 hne hfuel hbuf h0
    obtain ⟨l, hl, -⟩ := hs.listed d hd
    by_cases hslash : slash ∈ rest
    · obtain ⟨c, rest', rfl, hsc⟩ := List.eq_append_cons_of_mem hslash
      have hsplit : (c ++ slash :: rest').splitOn slash = c :: rest'.splitOn slash := by
        rw [List.splitOn_append_cons_self, List.splitOn_eq_singleton hsc]
        rfl
      simp only [List.mem_append, List.mem_cons, not_or] at h0
      have hbuf' : buf.drop p = c ++ slash :: (rest' ++ [0]) := by simpa using hbuf
      rw [hsplit]
      by_cases hc : 256 ≤ c.length
      · exact iff_of_true (by rw [namei_recursive_overrun hc hbuf' h0.1 hsc]) ⟨c, .here, hc⟩
      have hrest : (∃ x, LooksUp g s d (c :: rest'.splitOn slash) x ∧ 256 ≤ x.length) ↔ rest'.splitOn slash ≠ [[]] ∧
          ∃ e, listed s l c = some e ∧ (s.direntries e).type = F_DIR ∧ ∃ t, Enters g s e t ∧
            ∃ x, LooksUp g t (s.direntries e).directory (rest'.splitOn slash) x ∧ 256 ≤ x.length := by
        constructor
        · rintro ⟨x, hx, hlen⟩
          rcases (looksUp_cons hl).1 hx with rfl | ⟨-, hnot, e, he, htype, t, hent, hx⟩
          · exact absurd hlen hc
          · exact ⟨hnot, e, he, htype, t, hent, x, hx, hlen⟩
        · rintro ⟨hnot, e, he, htype, t, hent, x, hx, hlen⟩
          exact ⟨x, .further hl he htype (List.splitOn_ne_nil _ _) hnot hent hx, hlen⟩
      rw [hrest]
      rcases namei_recursive_looks (g := g) hs hd hd0 hl (.inr rfl) hbuf' (Nat.not_le.1 hc) h0.1 hsc fuel with
        ⟨hnone, hrun⟩ | ⟨e, he, hlist, hrun⟩
      · refine iff_of_false hrun ?_
        rintro ⟨-, e, he, -⟩
        rw [hnone] at he
        cases he
      rw [hrun, if_neg (by decide : slash ≠ 0)]
      have he0 : e ≠ 0 := hl.ne_zero e (hl.onList.1 hlist)
      have hdrop : buf.drop (p + c.length + 1) = rest' ++ [0] := by
        rw [← List.drop_drop, ← List.drop_drop, hbuf']
        simp
      cases rest' with
      | nil =>
        -- a trailing slash: the byte before the zero is the slash
        have hnul : buf[p + c.length + 1]? = some 0 := char_at_drop (c := []) hdrop
        rw [namei_follow_end g fuel he0 (by omega) hnul (char_at_drop hbuf')]
        exact iff_of_false (by simp) fun h => h.1 rfl
      | cons x xs =>
        have hx : buf[p + c.length + 1]? = some x := char_at_drop (c := []) hdrop
        have hx0 : x ≠ 0 := fun hx => h0.2.2 (by simp [hx])
        have hnot : (x :: xs).splitOn slash ≠ [[]] := by
          intro h
          have hjoin : [slash].intercalate ((x :: xs).splitOn slash) = x :: xs := List.intercalate_splitOn slash
          rw [h] at hjoin
          cases hjoin
        rw [namei_follow_enters hg hin hs hd hlist hx hx0]
        have hlen : (x :: xs).length < fuel := by
          simp only [List.length_append, List.length_cons] at hfuel ⊢
          omega
        have hthere : ∀ t, Enters g s e t → ((namei_recursive g buf fuel (p + c.length + 1)
            (s.direntries e).directory t).1 =
            .error .outOfBounds ↔ ∃ x', LooksUp g t (s.direntries e).directory ((x :: xs).splitOn slash) x' ∧
              256 ≤ x'.length) := by
          rintro t ⟨hdir, hent⟩
          have hchild := hd.child hlist hdir
          split at hent
          · obtain ⟨ht, hkept⟩ := hg s t _ hs hchild hent
            exact ih _ (x :: xs) _ t ht (hkept.dirs _ hchild) hdir (by simp) hlen hdrop h0.2.2
          · subst hent
            exact ih _ (x :: xs) _ t hs hchild hdir (by simp) hlen hdrop h0.2.2
        constructor
        · rintro ⟨htype, t, hent, hfault⟩
          exact ⟨hnot, e, he, htype, t, hent, (hthere t hent).1 hfault⟩
        · rintro ⟨-, e', he', htype, t, hent, hfault⟩
          obtain rfl : e' = e := Option.some.inj (he'.symm.trans he)
          exact ⟨htype, t, hent, (hthere t hent).2 hfault⟩
    · rw [List.splitOn_eq_singleton hslash]
      by_cases hc : 256 ≤ rest.length
      · exact iff_of_true (by rw [namei_recursive_overrun hc hbuf h0 hslash]) ⟨rest, .here, hc⟩
      refine iff_of_false ?_ ?_
      · rcases namei_recursive_looks (g := g) hs hd hd0 hl (.inl rfl) hbuf (Nat.not_le.1 hc) h0 hslash fuel with
          ⟨-, hrun⟩ | ⟨e, -, hlist, hrun⟩
        · exact hrun
        have he0 : e ≠ 0 := hl.ne_zero e (hl.onList.1 hlist)
        have hpos : 0 < rest.length := List.length_pos_of_ne_nil hne
        obtain ⟨x, hx⟩ : ∃ x, buf[p + rest.length - 1]? = some x := by
          have hlen := congrArg List.length hbuf
          rw [List.length_drop, List.length_append] at hlen
          exact ⟨_, List.getElem?_eq_getElem (by simp only [List.length_singleton] at hlen; omega)⟩
        rw [hrun, if_pos rfl, namei_follow_end g fuel he0 (by omega) (char_at_drop hbuf) hx]
        simp
      · rintro ⟨x, hx, hlen⟩
        rcases (looksUp_cons hl).1 hx with rfl | ⟨hnil, -⟩
        · exact hc hlen
        · exact hnil rfl

end

/-! ## `namei` -/

section
variable {g : Nat → Prog Vfs Unit} {s : Vfs} {path : List UInt8}

/-- The empty path is searched for as `.`, and the byte before it is read where there is one. -/
theorem namei_empty (hs : PathTree s) : (namei g [0] s).1 = .error .outOfBounds ↔ FindsDot s := by
  obtain ⟨l, hl, -⟩ := hs.listed root_dir .root
  have hstart : namei g [0] s = namei_recursive g [0] 2 0 root_dir s := by
    unfold namei
    refine (Prog.bind_of_ok (char_at_run rfl s)).trans ?_
    rw [if_neg (by decide)]
    rfl
  have hbuf : ([0] : List UInt8).drop 0 = [] ++ 0 :: [] := rfl
  rw [hstart]
  rcases namei_recursive_looks (g := g) hs .root (by decide) hl (.inl rfl) hbuf (by decide) (by simp)
    (by simp) 1 with ⟨hnone, hrun⟩ | ⟨e, he, hlist, hrun⟩
  · refine iff_of_false hrun ?_
    rintro ⟨l', e, hl', he⟩
    obtain rfl := Sll.unique hl hl'
    rw [hnone] at he
    cases he
  · refine iff_of_true ?_ ⟨l, e, hl, he⟩
    have he0 : e ≠ 0 := hl.ne_zero e (hl.onList.1 hlist)
    rw [hrun, if_pos rfl]
    unfold namei_follow
    rw [Prog.bind_of_ok (load_direntry_run he0 s), Prog.bind_of_ok (char_at_run rfl s)]
    rfl

/-- Every way out of the path and out of `current_name`. -/
theorem namei_overruns (hg : LoadsPaths g) (hin : ∀ d s, (g d s).1 ≠ .error .outOfBounds) (hs : PathTree s)
    (h0 : 0 ∉ path) :
    (namei g (path ++ [0]) s).1 = .error .outOfBounds ↔ path = [slash] ∨ (path = [] ∧ FindsDot s) ∨
      ∃ c, LooksUp g s root_dir (components path) c ∧ 256 ≤ c.length := by
  match path with
  | [] =>
    rw [List.nil_append, namei_empty hs]
    constructor
    · exact fun h => .inr (.inl ⟨rfl, h⟩)
    · rintro (h | ⟨-, h⟩ | ⟨c, hc, hlen⟩)
      · cases h
      · exact h
      · obtain rfl : c = [] := by simpa [components] using hc.mem
        simp at hlen
  | x :: rest =>
    by_cases hx : x = slash
    swap
    · -- a relative path
      have hstart : namei g (x :: rest ++ [0]) s = namei_recursive g (x :: rest ++ [0])
          ((x :: rest ++ [0]).length + 1) 0 root_dir s := by
        unfold namei
        refine (Prog.bind_of_ok (char_at_run (c := x) rfl s)).trans ?_
        rw [if_neg hx]
      have hcomp : components (x :: rest) = (x :: rest).splitOn slash := by simp [components, hx]
      rw [hstart,
        namei_recursive_overruns hg hin _ 0 (x :: rest) root_dir s hs .root (by decide) (by simp) (by simp) rfl h0,
        hcomp]
      simp [hx]
    subst hx
    have hcomp : components (slash :: rest) = rest.splitOn slash := by simp [components]
    rw [hcomp]
    match rest with
    | [] =>
      refine iff_of_true ?_ (.inl rfl)
      unfold namei
      rw [Prog.bind_of_ok (char_at_run (c := slash) rfl s), if_pos rfl]
      rfl
    | [y] =>
      have hrun : namei g ([slash, y] ++ [0]) s = _ := namei_absolute g rfl (x := 0) rfl
      rw [if_pos rfl] at hrun
      rw [hrun]
      refine iff_of_false (by simp) ?_
      rintro (h | ⟨h, -⟩ | ⟨c, hc, hlen⟩)
      · cases h
      · cases h
      · -- one byte is no long component
        have hmem := hc.mem
        rw [List.splitOn_cons_eq_if_modifyHead] at hmem
        split at hmem
        · simp at hmem
          simp [hmem] at hlen
        · simp at hmem
          simp [hmem] at hlen
    | y :: z :: rest =>
      have hz : z ≠ 0 := fun hz => h0 (by simp [hz])
      have h0' : 0 ∉ y :: z :: rest := fun hm => h0 (List.mem_cons_of_mem _ hm)
      rw [namei_absolute g rfl (x := z) rfl, if_neg hz,
        namei_recursive_overruns hg hin _ 1 (y :: z :: rest) root_dir s hs .root (by decide) (by simp)
          (by simp) rfl h0']
      simp

end

/-! ## The kernel's `get_direntries` -/

section
variable {env : Env} {s t : Vfs} {dir : Nat} {r : Int}

/-- An inode for an entry changes no name. -/
theorem Supplied.name {e : Nat} (h : Supplied s e t) (x : Nat) : (t.direntries x).name = (s.direntries x).name := by
  obtain ⟨-, ⟨-, hentries, -⟩ | ⟨-, p, hentries, -⟩⟩ := h
  · rw [hentries]
  · rw [hentries]
    by_cases hx : x = e
    · subst hx
      simp
    · rw [Function.update_of_ne hx]

/-- The names of new entries end, and those of the others are what they were. -/
theorem load_names (hf : FreshBlocks env) (ha : Anchored s dir) (h0 : (s.dirs dir).entries = 0)
    (hrun : ext2_get_direntries env dir s = (.ok r, t)) (hr : 0 ≤ r) :
    (∀ e, OnList t (t.dirs dir).entries e → 0 ∈ (t.direntries e).name) := by
  obtain ⟨-, inode, s', l, is, -, -, -, hbuilt, hlist⟩ := load_made hf ha h0 hrun hr
  intro e he
  obtain ⟨i, -, hmade⟩ := hbuilt.each e ((show Lists t dir l from hlist).onList.1 he)
  obtain ⟨old, hname⟩ := hmade.name
  rw [hname]
  simp [overwrite]

/-- Loading a directory leaves names that end. -/
theorem load_terminated (hf : FreshBlocks env) (hs : PathTree s) (hd : TreeDir s dir)
    (hrun : ext2_get_direntries env dir s = (.ok r, t)) : PathTree t := by
  have hkept := load_tree hf hs.toVfsTree hd hrun
  refine { toVfsTree := hkept.tree, terminated := fun d e hd' he => ?_ }
  by_cases hr : r < 0
  · obtain ⟨hsup, -⟩ := load_supplied hr hrun
    have hlinks := hsup.sameLinks
    rw [hsup.name]
    rw [hlinks.entries] at he
    exact hs.terminated d e (hlinks.treeDir hd') (hlinks.onList he)
  by_cases h0 : (s.dirs dir).entries = 0
  swap
  · obtain ⟨-, -, ⟨-, -, rfl⟩ | ⟨h0', -⟩⟩ := ext2_get_direntries_ok hrun
    · exact hs.terminated d e hd' he
    · exact absurd h0' h0
  have hnew := load_names hf (hs.anchored hd) h0 hrun (Int.not_lt.1 hr)
  obtain ⟨l, hung⟩ := load_hung hf (hs.anchored hd) h0 hrun (Int.not_lt.1 hr)
  by_cases hdd : d = dir
  · subst hdd
    exact hnew e he
  rcases hung.treeDir hs.toVfsTree hd hd' with hold | ⟨x, -, -, -, -, n, m, p, hvalue⟩
  · rw [hung.onList hs.toVfsTree hold hdd] at he
    obtain ⟨p, hp⟩ := hung.entry e (hs.entry_used hold he)
    rw [hp]
    exact hs.terminated d e hold he
  · -- a new directory has no list yet
    rw [hvalue] at he
    cases he <;> contradiction

theorem get_direntries_loadsPaths (hf : FreshBlocks env) : LoadsPaths (get_direntries env) := by
  intro s t d hs hd hrun
  refine ⟨?_, get_direntries_loadsTree hf s t d hs.toVfsTree hd hrun⟩
  obtain ⟨r, hload⟩ := get_direntries_ok hrun
  exact load_terminated hf hs hd hload

/-- For every tree and every path: `namei` reads only the path and writes only the array, exactly if the
path is not `/`, is not empty where the root directory has an entry `.`, and no component is looked
up that has 256 bytes or more. -/
theorem namei_bounded_iff {path : List UInt8} (hf : FreshBlocks env) (hs : PathTree s) (h0 : 0 ∉ path) :
    (namei (guarded (get_direntries env)) (path ++ [0]) s).1 ≠ .error .outOfBounds ↔
      path ≠ [slash] ∧ (path = [] → ¬ FindsDot s) ∧
        ∀ c, LooksUp (get_direntries env) s root_dir (components path) c → c.length < 256 := by
  have hsame : ∀ c, LooksUp (guarded (get_direntries env)) s root_dir (components path) c ↔
      LooksUp (get_direntries env) s root_dir (components path) c := fun c =>
    ⟨.congr fun _ _ _ => guarded_ok.1, .congr fun _ _ _ => guarded_ok.2⟩
  rw [ne_eq, namei_overruns (get_direntries_loadsPaths hf).guarded (fun _ _ => guarded_inside) hs h0, not_or, not_or]
  refine and_congr Iff.rfl (and_congr ?_ ?_)
  · exact not_and
  · simp only [not_exists, not_and, Nat.not_le, hsame]

end

/-! ## A small tree -/

theorem fileVfs_paths : PathTree fileVfs where
  toVfsTree := fileVfs_tree
  terminated := by
    intro d e hd he
    have h : HasFile fileVfs := ⟨rfl, fun _ _ => rfl⟩
    rw [h.treeDir hd, h.lists.onList] at he
    fin_cases he <;> decide

/-- The path `/./a`. -/
theorem namei_bounded_iff_file :
    (namei (guarded (get_direntries (smallEnv []))) ([0x2f, 0x2e, 0x2f, 0x61] ++ [0]) fileVfs).1 ≠
    .error .outOfBounds := by
  have hcomp : components [0x2f, 0x2e, 0x2f, 0x61] = [[0x2e], [0x61]] := by decide
  refine (namei_bounded_iff (smallEnv_fresh []) fileVfs_paths (by decide)).2 ⟨by decide, by simp, fun c hc => ?_⟩
  have hmem := hc.mem
  rw [hcomp] at hmem
  simp only [List.mem_cons, List.not_mem_nil, or_false] at hmem
  rcases hmem with rfl | rfl <;> decide

/-- The byte behind the zero of `/`, the one before the empty path, and the one behind the array are touched. -/
theorem namei_leaves_path :
    (namei (guarded (get_direntries (smallEnv []))) ([slash] ++ [0]) fileVfs).1 = .error .outOfBounds ∧
      (namei (guarded (get_direntries (smallEnv []))) ([] ++ [0]) fileVfs).1 = .error .outOfBounds ∧
      (namei (guarded (get_direntries (smallEnv []))) (List.replicate 256 0x61 ++ [0]) fileVfs).1 =
        .error .outOfBounds := by
  decide +kernel

end Ulmix.Fs

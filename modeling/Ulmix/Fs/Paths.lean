import Ulmix.Fs.Vfs
import Ulmix.Lib.Sll
/-!
# What a path name leads to

`walk` looks the components of a path up one after another: an empty component
stands for `.`, and one behind the last slash asks for a directory. On a loaded
tree `namei_recursive` does exactly this (`namei_recursive_run`). `namei` itself
tests the wrong byte for the end of `/`: the one behind it is at `pathname[0]`
by then. So the walk is what happens from three bytes on, every path of two
bytes gives the root, and `/` the root only if a zero happens to follow the
string (`namei_walk`).
-/
open Ulmix.Lib

namespace Ulmix.Fs

/-! ## Walking -/

/-- Where a walk ends. -/
inductive Outcome where
  | found (entry : Nat)
  | missing
  | notDirectory
  deriving DecidableEq, Repr

/-- How `namei` tells its caller; any error says that something is missing. -/
def Outcome.Reported : Outcome → Except Int Nat → Prop
  | .found e, r => r = .ok e
  | .missing, r => ∃ n < 0, r = .error n
  | .notDirectory, r => r = .error (-ENOTDIR)

/-- The string at the front of an array of characters. -/
def cstr (a : List UInt8) : List UInt8 := a.takeWhile (· ≠ 0)

/-- The entry a component names in the list `es` of a directory. -/
def lookup (s : Vfs) (es : List Nat) (component : List UInt8) : Option Nat :=
  es.find? fun e => cstr (s.direntries e).name = if component = [] then dot else component

/-- Look the components up one after another, from the directory `d`. An empty one at
the end asks for a directory and is no further step. -/
def walk (s : Vfs) (es : Nat → List Nat) : Nat → List (List UInt8) → Outcome
  | _, [] => .missing
  | d, c :: cs => (lookup s (es d) c).elim .missing fun e =>
    if cs = [] then .found e
    else if (s.direntries e).type ≠ F_DIR then if cs = [[]] then .notDirectory else .missing
    else if cs = [[]] then .found e
    else walk s es (s.direntries e).directory cs

/-- What an absolute path leads to. -/
def resolve (s : Vfs) (es : Nat → List Nat) (path : List UInt8) : Outcome :=
  if path = [slash] then .found (s.dirs root_dir).dir_entry else walk s es root_dir (path.tail.splitOn slash)

/-! ## Loaded trees -/

/-- All directories `D` below the root are loaded: `es d` is the list of the entries of `d`. -/
structure Loaded (s : Vfs) (D : Set Nat) (es : Nat → List Nat) : Prop where
  root : root_dir ∈ D
  nonnull : ∀ d ∈ D, d ≠ 0
  listed : ∀ d ∈ D, Sll (fun e => (s.direntries e).next) (s.dirs d).entries (es d)
  pointer : ∀ d ∈ D, ∀ e ∈ es d, e < 2 ^ 32
  terminated : ∀ d ∈ D, ∀ e ∈ es d, 0 ∈ (s.direntries e).name
  below : ∀ d ∈ D, ∀ e ∈ es d, (s.direntries e).type = F_DIR → (s.direntries e).directory ∈ D
  dot : ∀ d ∈ D, ∃ e ∈ es d, cstr (s.direntries e).name = dot ∧ (s.direntries e).type = F_DIR ∧
    (s.direntries e).directory = d
  dotdot : ∀ d ∈ D, ∃ e ∈ es d, cstr (s.direntries e).name = [0x2e, 0x2e] ∧ (s.direntries e).type = F_DIR ∧
    (s.direntries e).directory = (s.dirs d).parent
  /-- The root's own entry is in no list. -/
  own : ∀ d ∈ D, (s.dirs root_dir).dir_entry ∉ es d

namespace Loaded

variable {s : Vfs} {D : Set Nat} {es : Nat → List Nat}

theorem entries_ne_zero (h : Loaded s D es) {d : Nat} (hd : d ∈ D) : (s.dirs d).entries ≠ 0 := by
  intro h0
  obtain ⟨e, he, -⟩ := h.dot d hd
  have hl := h.listed d hd
  rw [h0] at hl
  rw [hl.eq_nil] at he
  cases he

/-- A walk ends at an entry of a list. -/
theorem walk_mem (h : Loaded s D es) : ∀ (cs : List (List UInt8)) (d : Nat), d ∈ D → ∀ e, walk s es d cs = .found e →
    ∃ d' ∈ D, e ∈ es d' := by
  intro cs
  induction cs with
  | nil =>
    intro d _ e he
    cases he
  | cons c cs ih =>
    intro d hd e he
    rw [walk] at he
    cases hl : lookup s (es d) c with
    | none =>
      rw [hl] at he
      cases he
    | some e' =>
      have hmem : e' ∈ es d := List.mem_of_find?_eq_some hl
      rw [hl] at he
      dsimp only [Option.elim] at he
      split at he
      · cases he
        exact ⟨d, hd, hmem⟩
      · split at he
        · split at he <;> cases he
        · rename_i ht
          split at he
          · cases he
            exact ⟨d, hd, hmem⟩
          · exact ih _ (h.below d hd e' hmem (not_not.1 ht)) e he

end Loaded

/-! ## Strings -/

theorem char_at_run {buf : List UInt8} {i : Nat} {c : UInt8} (h : buf[i]? = some c) (s : Vfs) :
    char_at buf i s = (.ok c, s) := by
  unfold char_at
  rw [h]
  rfl

theorem strccpy_loop_run {buf post c : List UInt8} {b terminator : UInt8} (hb : b = 0 ∨ b = terminator) (s : Vfs) :
    ∀ (room src : Nat) (dest : List UInt8), c.length < room → buf.drop src = c ++ b :: post → 0 ∉ c → terminator ∉ c →
      strccpy_loop buf terminator room dest src s =
        (.ok (dest ++ c, if b = 0 then src + c.length else src + c.length + 1), s) := by
  induction c with
  | nil =>
    intro room src dest hroom hbuf _ _
    obtain ⟨room, rfl⟩ : ∃ k, room = k + 1 := ⟨room - 1, by simp only [List.length_nil] at hroom; omega⟩
    have hc : buf[src]? = some b := by
      have : (buf.drop src)[0]? = buf[src + 0]? := List.getElem?_drop
      rw [hbuf] at this
      simpa using this.symm
    unfold strccpy_loop
    refine (Prog.bind_of_ok (char_at_run hc s)).trans ?_
    by_cases h0 : b = 0
    · rw [if_pos h0, if_pos h0, List.append_nil]
      rfl
    · rw [if_neg h0, if_neg h0, if_pos (hb.resolve_left h0), List.append_nil]
      rfl
  | cons x c ih =>
    intro room src dest hroom hbuf h0 ht
    obtain ⟨room, rfl⟩ : ∃ k, room = k + 1 := ⟨room - 1, by omega⟩
    have hc : buf[src]? = some x := by
      have : (buf.drop src)[0]? = buf[src + 0]? := List.getElem?_drop
      rw [hbuf] at this
      simpa using this.symm
    have hnext : buf.drop (src + 1) = c ++ b :: post := by
      rw [← List.drop_drop, hbuf]
      rfl
    simp only [List.mem_cons, not_or, List.length_cons] at h0 ht hroom
    unfold strccpy_loop
    refine (Prog.bind_of_ok (char_at_run hc s)).trans ?_
    rw [if_neg (Ne.symm h0.1), if_neg (Ne.symm ht.1), ih room (src + 1) (dest ++ [x]) (by omega) hnext h0.2 ht.2]
    simp only [List.append_assoc, List.cons_append, List.nil_append, List.length_cons]
    congr 4 <;> omega

/-- `strccpy` stops at the terminator or the end of the string, whichever comes first. -/
theorem strccpy_run {buf post c : List UInt8} {b terminator : UInt8} {room src : Nat} (hb : b = 0 ∨ b = terminator)
    (hroom : c.length < room) (hbuf : buf.drop src = c ++ b :: post) (h0 : 0 ∉ c) (ht : terminator ∉ c) (s : Vfs) :
    strccpy room buf src terminator s = (.ok (c, if b = 0 then src + c.length else src + c.length + 1), s) :=
  strccpy_loop_run hb s room src [] hroom hbuf h0 ht

/-- `strcmp` finds out whether the strings are the same. -/
theorem strcmp_run (s : Vfs) : ∀ (a b : List UInt8), 0 ∈ a → 0 ∉ b →
    ∃ r, strcmp a b s = (.ok r, s) ∧ (r = 0 ↔ cstr a = b) := by
  intro a
  induction a with
  | nil =>
    intro b ha
    cases ha
  | cons x a ih =>
    intro b ha hb
    cases b with
    | nil =>
      by_cases hx : x = 0
      · exact ⟨0, by simp [strcmp, hx]; rfl, by simp [cstr, hx]⟩
      · refine ⟨if x.toInt8 < 0 then -1 else 1, by simp [strcmp, hx]; rfl, ?_⟩
        simp only [cstr, List.takeWhile_cons, ne_eq, hx, not_false_eq_true, decide_true, if_true]
        split <;> simp
    | cons y b =>
      simp only [List.mem_cons, not_or] at ha hb
      by_cases hxy : x = y
      · subst hxy
        have hx : x ≠ 0 := Ne.symm hb.1
        obtain ⟨r, hr, hiff⟩ := ih b (ha.resolve_left hb.1) hb.2
        refine ⟨r, ?_, ?_⟩
        · simpa [strcmp, hx] using hr
        · rw [hiff]
          simp [cstr, hx]
      · refine ⟨if x.toInt8 < y.toInt8 then -1 else 1, by simp [strcmp, hxy]; rfl, ?_⟩
        have hne : cstr (x :: a) ≠ y :: b := by
          intro h
          by_cases hx : x = 0
          · simp [cstr, hx] at h
          · simp [cstr, hx] at h
            exact hxy h.1
        constructor
        · intro h
          split at h <;> cases h
        · intro h
          exact absurd h hne

/-! ## Looking a component up -/

theorem namei_find_run {s : Vfs} {name : List UInt8} (h0 : 0 ∉ name) : ∀ (l : List Nat) (fuel c : Nat),
    l.length < fuel → Sll (fun e => (s.direntries e).next) c l → (∀ e ∈ l, 0 ∈ (s.direntries e).name) →
      namei_find name fuel c s = (.ok ((l.find? fun e => cstr (s.direntries e).name = name).getD 0), s) := by
  intro l
  induction l with
  | nil =>
    intro fuel c hfuel hl _
    obtain ⟨fuel, rfl⟩ : ∃ k, fuel = k + 1 := ⟨fuel - 1, by simp only [List.length_nil] at hfuel; omega⟩
    have h0 : c = 0 := hl
    unfold namei_find
    rw [if_pos h0]
    rfl
  | cons e l ih =>
    intro fuel c hfuel hl ht
    obtain ⟨fuel, rfl⟩ : ∃ k, fuel = k + 1 := ⟨fuel - 1, by omega⟩
    obtain ⟨rfl, hne, hl⟩ := hl
    obtain ⟨r, hr, hiff⟩ := strcmp_run s (s.direntries c).name name (ht c (by simp)) h0
    unfold namei_find
    rw [if_neg hne]
    refine (Prog.bind_of_ok (load_direntry_run hne s)).trans ?_
    refine (Prog.bind_of_ok hr).trans ?_
    by_cases hm : cstr (s.direntries c).name = name
    · rw [if_pos (hiff.2 hm), List.find?_cons_of_pos (by simpa using hm)]
      rfl
    · rw [if_neg (fun h => hm (hiff.1 h)), List.find?_cons_of_neg (by simpa using hm)]
      exact ih fuel _ (by simp only [List.length_cons] at hfuel; omega) hl (fun e he => ht e (by simp [he]))

/-! ## The recursion walks -/

section
variable {s : Vfs} {D : Set Nat} {es : Nat → List Nat} {buf post c : List UInt8} {b : UInt8} {p d : Nat}

/-- What `namei_recursive` does with the entry it has found for a component. -/
def namei_follow (get_direntries : Nat → Prog Vfs Unit) (buf : List UInt8) (fuel rem entry : Nat) :
    Prog Vfs (Except Int Nat) := do
  let e ← load_direntry entry
  if (← char_at buf rem) = 0 then
    if rem = 0 then Prog.fault .outOfBounds
    else if (← char_at buf (rem - 1)) = slash ∧ e.type ≠ F_DIR then pure (.error (-ENOTDIR))
    else pure (.ok entry)
  else if e.type ≠ F_DIR then pure (.error (-ENOENT))
  else
    if (← load_dir e.directory).entries = 0 ∧ e.type = F_DIR then get_direntries e.directory
    namei_recursive get_direntries buf fuel rem (← load_direntry entry).directory

/-- One round: the component up to the slash or the end is looked up. -/
theorem namei_recursive_step (h : Loaded s D es) (g : Nat → Prog Vfs Unit) (fuel : Nat) (hd : d ∈ D)
    (hb : b = 0 ∨ b = slash) (hbuf : buf.drop p = c ++ b :: post) (hc : c.length < 256) (h0 : 0 ∉ c) (hs : slash ∉ c) :
    namei_recursive g buf (fuel + 1) p d s =
      (lookup s (es d) c).elim (.ok (.error (-ENOENT)), s) fun e =>
        namei_follow g buf fuel (if b = 0 then p + c.length else p + c.length + 1) e s := by
  have hname : 0 ∉ (if c = [] then dot else c) := by
    split
    · decide
    · exact h0
  have hempty : (if c.length = 0 then dot else c) = if c = [] then dot else c := by
    cases c <;> rfl
  have hfind : namei_find (if c.length = 0 then dot else c) (2 ^ 32) (s.dirs d).entries s =
      (.ok ((lookup s (es d) c).getD 0), s) := by
    rw [hempty]
    have hlen := (h.listed d hd).length_lt (by decide) (h.pointer d hd)
    exact namei_find_run hname (es d) (2 ^ 32) _ hlen (h.listed d hd) (h.terminated d hd)
  have hload := load_dir_run (h.nonnull d hd) s
  rw [namei_recursive]
  refine (Prog.bind_of_ok (strccpy_run hb hc hbuf h0 hs s)).trans ?_
  refine (Prog.bind_of_ok hload).trans ?_
  rw [if_neg (h.entries_ne_zero hd)]
  refine (Prog.bind_of_ok hload).trans ?_
  refine (Prog.bind_of_ok hfind).trans ?_
  cases hl : lookup s (es d) c with
  | none => rfl
  | some e =>
    have he : e ≠ 0 := (h.listed d hd).ne_zero e (List.mem_of_find?_eq_some hl)
    dsimp only [Option.getD, Option.elim]
    rw [if_neg he]
    rfl

/-- At the end of the string the entry found is the result. -/
theorem namei_follow_end (g : Nat → Prog Vfs Unit) (fuel : Nat) {rem e : Nat} {x : UInt8} (he : e ≠ 0) (hrem : rem ≠ 0)
    (hnul : buf[rem]? = some 0) (hx : buf[rem - 1]? = some x) :
    namei_follow g buf fuel rem e s =
      (.ok (if x = slash ∧ (s.direntries e).type ≠ F_DIR then .error (-ENOTDIR) else .ok e), s) := by
  unfold namei_follow
  refine (Prog.bind_of_ok (load_direntry_run he s)).trans ?_
  refine (Prog.bind_of_ok (char_at_run hnul s)).trans ?_
  rw [if_pos rfl, if_neg hrem]
  refine (Prog.bind_of_ok (char_at_run hx s)).trans ?_
  split <;> rfl

/-- Before the end the search goes on below the entry, which has to be a directory. -/
theorem namei_follow_inner (h : Loaded s D es) (g : Nat → Prog Vfs Unit) (fuel : Nat) {rem e : Nat} {x : UInt8}
    (hd : d ∈ D) (he : e ∈ es d) (hx : buf[rem]? = some x) (hx0 : x ≠ 0) :
    namei_follow g buf fuel rem e s =
      if (s.direntries e).type ≠ F_DIR then (.ok (.error (-ENOENT)), s)
      else namei_recursive g buf fuel rem (s.direntries e).directory s := by
  have hload := load_direntry_run ((h.listed d hd).ne_zero e he) s
  unfold namei_follow
  refine (Prog.bind_of_ok hload).trans ?_
  refine (Prog.bind_of_ok (char_at_run hx s)).trans ?_
  rw [if_neg hx0]
  split
  · rfl
  · rename_i ht
    have hdir := h.below d hd e he (not_not.1 ht)
    refine (Prog.bind_of_ok (load_dir_run (h.nonnull _ hdir) s)).trans ?_
    rw [if_neg (fun hand => h.entries_ne_zero hdir hand.1)]
    exact Prog.bind_of_ok hload

end

theorem namei_recursive_run {s : Vfs} {D : Set Nat} {es : Nat → List Nat} (h : Loaded s D es) (g : Nat → Prog Vfs Unit)
    {buf tail : List UInt8} : ∀ (fuel p : Nat) (rest : List UInt8) (d : Nat), d ∈ D → rest ≠ [] → rest.length < fuel →
      buf.drop p = rest ++ 0 :: tail → 0 ∉ rest → (∀ c ∈ rest.splitOn slash, c.length < 256) →
      ∃ r, namei_recursive g buf fuel p d s = (.ok r, s) ∧ (walk s es d (rest.splitOn slash)).Reported r := by
  intro fuel
  induction fuel with
  | zero =>
    intro p rest d _ _ hfuel
    cases hfuel
  | succ fuel ih =>
    intro p rest d hd hne hfuel hbuf h0 hcomp
    have hat : ∀ i, buf[p + i]? = (rest ++ 0 :: tail)[i]? := fun i => by rw [← hbuf, List.getElem?_drop]
    by_cases hs : slash ∈ rest
    · obtain ⟨c, rest', rfl, hsc⟩ := List.eq_append_cons_of_mem hs
      have hsplit : (c ++ slash :: rest').splitOn slash = c :: rest'.splitOn slash := by
        rw [List.splitOn_append_cons_self, List.splitOn_eq_singleton hsc]
        rfl
      rw [hsplit] at hcomp ⊢
      simp only [List.mem_append, List.mem_cons, not_or] at h0
      have hbuf' : buf.drop p = c ++ slash :: (rest' ++ 0 :: tail) := by simpa using hbuf
      have hdrop : buf.drop (p + c.length + 1) = rest' ++ 0 :: tail := by
        rw [← List.drop_drop, ← List.drop_drop, hbuf']
        simp
      rw [namei_recursive_step h g fuel hd (.inr rfl) hbuf' (hcomp c (by simp)) h0.1 hsc, walk]
      rw [if_neg (by decide : slash ≠ 0)]
      cases hl : lookup s (es d) c with
      | none => exact ⟨_, rfl, -2, by decide, rfl⟩
      | some e =>
        have hmem : e ∈ es d := List.mem_of_find?_eq_some hl
        dsimp only [Option.elim]
        rw [if_neg (List.splitOn_ne_nil _ _)]
        cases rest' with
        | nil =>
          -- a trailing slash
          have hnul : buf[p + c.length + 1]? = some 0 := by
            have := hat (c.length + 1)
            simpa [Nat.add_assoc] using this
          have hprev : buf[p + c.length + 1 - 1]? = some slash := by
            have := hat c.length
            simpa using this
          rw [namei_follow_end g fuel ((h.listed d hd).ne_zero e hmem) (by omega) hnul hprev]
          refine ⟨_, rfl, ?_⟩
          by_cases ht : (s.direntries e).type = F_DIR
          · simp [ht, Outcome.Reported]
          · simp [ht, Outcome.Reported]
        | cons x xs =>
          have hx0 : x ≠ 0 := fun hx => h0.2.2 (by simp [hx])
          have hx : buf[p + c.length + 1]? = some x := by
            have := congrArg (fun l => l[0]?) hdrop
            simpa using this
          have hnot : (x :: xs).splitOn slash ≠ [[]] := by
            rw [List.splitOn_cons_eq_if_modifyHead]
            split
            · intro hc
              exact List.splitOn_ne_nil slash xs (List.cons.inj hc).2
            · cases hxs : xs.splitOn slash with
              | nil => exact absurd hxs (List.splitOn_ne_nil _ _)
              | cons y ys => simp
          rw [namei_follow_inner h g fuel hd hmem hx hx0, if_neg hnot, if_neg hnot]
          split
          · exact ⟨_, rfl, -2, by decide, rfl⟩
          · rename_i ht
            refine ih (p + c.length + 1) (x :: xs) _ (h.below d hd e hmem (not_not.1 ht)) (by simp) ?_ hdrop h0.2.2 ?_
            · simp only [List.length_append, List.length_cons] at hfuel ⊢
              omega
            · exact fun c' hc' => hcomp c' (List.mem_cons_of_mem _ hc')
    · have hsplit : rest.splitOn slash = [rest] := List.splitOn_eq_singleton hs
      rw [hsplit] at hcomp ⊢
      rw [namei_recursive_step h g fuel hd (.inl rfl) hbuf (hcomp rest (by simp)) h0 hs, walk, if_pos rfl]
      cases hl : lookup s (es d) rest with
      | none => exact ⟨_, rfl, -2, by decide, rfl⟩
      | some e =>
        have hmem : e ∈ es d := List.mem_of_find?_eq_some hl
        have hpos : 0 < rest.length := List.length_pos_of_ne_nil hne
        have hnul : buf[p + rest.length]? = some 0 := by
          have := hat rest.length
          simpa using this
        -- the last character of the component is no slash
        have hlast : buf[p + rest.length - 1]? = some (rest.getLast hne) := by
          have := hat (rest.length - 1)
          rw [List.getElem?_append_left (by omega), ← List.getLast?_eq_getElem?,
            List.getLast?_eq_getLast_of_ne_nil hne] at this
          rw [← this]
          congr 1
          omega
        have hne_slash : rest.getLast hne ≠ slash := fun heq => hs (heq ▸ List.getLast_mem hne)
        dsimp only [Option.elim]
        rw [namei_follow_end g fuel ((h.listed d hd).ne_zero e hmem) (by omega) hnul hlast]
        refine ⟨_, rfl, ?_⟩
        simp [hne_slash, Outcome.Reported]

/-! ## `namei` -/

/-- An absolute path is answered with the root's own entry if a zero follows its second byte. -/
theorem namei_absolute {s : Vfs} (g : Nat → Prog Vfs Unit) {buf : List UInt8} {x : UInt8} (h0 : buf[0]? = some slash)
    (hx : buf[2]? = some x) :
    namei g buf s = if x = 0 then (.ok (.ok (s.dirs root_dir).dir_entry), s)
      else namei_recursive g buf (buf.length + 1) 1 root_dir s := by
  unfold namei
  refine (Prog.bind_of_ok (char_at_run h0 s)).trans ?_
  rw [if_pos rfl]
  refine (Prog.bind_of_ok (char_at_run hx s)).trans ?_
  split
  · exact Prog.bind_of_ok (load_dir_run (by decide) s)
  · rfl

/-- For the string `/` the rest of the object decides, and it has to decide for the root. -/
theorem namei_root {s : Vfs} {D : Set Nat} {es : Nat → List Nat} (h : Loaded s D es) (g : Nat → Prog Vfs Unit)
    (tail : List UInt8) :
    namei g ([slash] ++ 0 :: tail) s = (.ok (.ok (s.dirs root_dir).dir_entry), s) ↔ tail.head? = some 0 := by
  cases tail with
  | nil =>
    refine ⟨fun hr => ?_, fun ht => by cases ht⟩
    have hfault : namei g [slash, 0] s = (.error .outOfBounds, s) := by
      unfold namei
      refine (Prog.bind_of_ok (char_at_run rfl s)).trans ?_
      rw [if_pos rfl]
      rfl
    cases hfault.symm.trans hr
  | cons x tail =>
    rw [namei_absolute g rfl (x := x) rfl]
    by_cases hx : x = 0
    · simp [hx]
    · rw [if_neg hx]
      refine ⟨fun hr => ?_, fun ht => absurd (by simpa using ht) hx⟩
      -- the empty string is looked up, and nothing in the root's list is the root's own entry
      rw [namei_recursive_step (c := []) h g _ h.root (.inl rfl) rfl (by decide) (by simp) (by simp)] at hr
      cases hl : lookup s (es root_dir) [] with
      | none =>
        rw [hl] at hr
        cases hr
      | some e =>
        have hmem : e ∈ es root_dir := List.mem_of_find?_eq_some hl
        rw [hl] at hr
        dsimp only [Option.elim] at hr
        rw [namei_follow_end (x := slash) g _ ((h.listed _ h.root).ne_zero e hmem) (by decide) rfl rfl] at hr
        split at hr
        · cases hr
        · cases hr
          exact absurd hmem (h.own _ h.root)

/-- An absolute path leads where the walk does exactly if it has three bytes or
more, or is `/` with one more zero behind the end of the string. -/
theorem namei_walk {s : Vfs} {D : Set Nat} {es : Nat → List Nat} (h : Loaded s D es) (g : Nat → Prog Vfs Unit)
    (path tail : List UInt8) (h0 : 0 ∉ path) (habs : path.head? = some slash)
    (hcomp : ∀ c ∈ path.tail.splitOn slash, c.length < 256) :
    (∃ r, namei g (path ++ 0 :: tail) s = (.ok r, s) ∧ (resolve s es path).Reported r) ↔
      3 ≤ path.length ∨ (path = [slash] ∧ tail.head? = some 0) := by
  obtain ⟨rest, rfl⟩ : ∃ rest, path = slash :: rest := by
    cases path with
    | nil => cases habs
    | cons x rest => exact ⟨rest, by cases habs; rfl⟩
  match rest with
  | [] =>
    rw [← namei_root h g tail]
    constructor
    · rintro ⟨r, hr, hrep⟩
      have : r = .ok (s.dirs root_dir).dir_entry := hrep
      exact .inr ⟨rfl, this ▸ hr⟩
    · rintro (hlen | ⟨-, hr⟩)
      · simp at hlen
      · exact ⟨_, hr, rfl⟩
  | [x] =>
    constructor
    · rintro ⟨r, hr, hrep⟩
      -- the terminating zero itself is taken for the end of `/`
      have hroot : namei g ([slash, x] ++ 0 :: tail) s = _ := namei_absolute g rfl (x := 0) rfl
      rw [if_pos rfl, hr] at hroot
      have hres : resolve s es [slash, x] = walk s es root_dir ([x].splitOn slash) := if_neg (by simp)
      rw [hres] at hrep
      cases hw : walk s es root_dir ([x].splitOn slash) with
      | found e =>
        rw [hw] at hrep
        obtain ⟨d, hd, hmem⟩ := h.walk_mem _ _ h.root e hw
        have : e = (s.dirs root_dir).dir_entry := by
          have hre : r = .ok e := hrep
          rw [hre] at hroot
          injection hroot with hroot
          injection hroot with hroot
          injection hroot
        exact absurd (this ▸ hmem) (h.own d hd)
      | missing =>
        rw [hw] at hrep
        obtain ⟨n, -, rfl⟩ := hrep
        cases hroot
      | notDirectory =>
        rw [hw] at hrep
        have hre : r = .error (-ENOTDIR) := hrep
        rw [hre] at hroot
        cases hroot
    · rintro (hlen | ⟨heq, -⟩)
      · simp at hlen
      · simp at heq
  | x :: y :: rest =>
    refine ⟨fun _ => .inl (by simp), fun _ => ?_⟩
    have hy : y ≠ 0 := fun hy => h0 (by simp [hy])
    have hres : resolve s es (slash :: x :: y :: rest) = walk s es root_dir ((x :: y :: rest).splitOn slash) :=
      if_neg (by simp)
    rw [hres, namei_absolute g rfl (x := y) rfl, if_neg hy]
    refine namei_recursive_run h g _ 1 (x :: y :: rest) root_dir h.root (by simp) ?_ rfl ?_ hcomp
    · simp only [List.length_append, List.length_cons]
      omega
    · exact fun hm => h0 (List.mem_cons_of_mem _ hm)

/-! ## A small tree -/

/-- A file name in its array. -/
def nameArray (name : List UInt8) : List UInt8 := name ++ List.replicate (256 - name.length) 0

/-- A root directory with the entries `.`, `..` and the file `a`. -/
def oneFile : Vfs where
  dirs _ := ⟨2, 0, 0, root_dir, root_direntry, 0x300⟩
  direntries e :=
    if e = 0x300 then ⟨F_DIR, 0, 0, 0, nameArray [0x2e], 2, root_dir, root_dir, 0x400, 0⟩
    else if e = 0x400 then ⟨F_DIR, 0, 0, 0, nameArray [0x2e, 0x2e], 2, root_dir, root_dir, 0x500, 0⟩
    else ⟨0x8000, 0, 0, 0, nameArray [0x61], 11, root_dir, 0, 0, 0⟩
  mntps _ := ⟨0, 0, .ext2fs⟩
  fsinfos _ := ⟨[], 0, 0, 0, 0⟩
  inodes _ := []
  gdts _ := []
  parts _ := ⟨0, 0, 0, 0⟩
  blocks := []
  heap_locked := false
  kmallocs := 0
  refused := 0
  reads := []

theorem oneFile_loaded : Loaded oneFile {root_dir} fun _ => [0x300, 0x400, 0x500] where
  root := rfl
  nonnull := by
    intro d hd
    rw [Set.mem_singleton_iff.1 hd]
    decide
  listed := fun _ _ => ⟨rfl, by decide, rfl, by decide, rfl, by decide, rfl⟩
  pointer := fun _ _ => by decide
  terminated := fun _ _ => by decide
  below := fun _ _ => by decide
  dot := by
    intro d hd
    rw [Set.mem_singleton_iff.1 hd]
    exact ⟨0x300, by decide, by decide, rfl, rfl⟩
  dotdot := fun _ _ => ⟨0x400, by decide, by decide, rfl, rfl⟩
  own := fun _ _ => by decide

/-- `/./a` leads to the file. -/
theorem oneFile_walk : ∃ r, namei (fun _ => pure ()) ([0x2f, 0x2e, 0x2f, 0x61] ++ 0 :: []) oneFile = (.ok r, oneFile) ∧
    (resolve oneFile (fun _ => [0x300, 0x400, 0x500]) [0x2f, 0x2e, 0x2f, 0x61]).Reported r :=
  (namei_walk oneFile_loaded (fun _ => pure ()) [0x2f, 0x2e, 0x2f, 0x61] [] (by decide) rfl (by decide)).2
    (.inl (by decide))

/-- `/a` does not: it is answered with the root directory. -/
theorem namei_two_bytes : ¬ ∀ (s : Vfs) (D : Set Nat) (es : Nat → List Nat), Loaded s D es →
    ∀ (g : Nat → Prog Vfs Unit) (path tail : List UInt8), 0 ∉ path → path.head? = some slash →
      (∀ c ∈ path.tail.splitOn slash, c.length < 256) →
      ∃ r, namei g (path ++ 0 :: tail) s = (.ok r, s) ∧ (resolve s es path).Reported r := by
  intro hall
  obtain ⟨r, hr, hrep⟩ := hall oneFile {root_dir} _ oneFile_loaded (fun _ => pure ()) [0x2f, 0x61] []
    (by decide) rfl (by decide)
  have hroot : namei (fun _ => pure ()) ([0x2f, 0x61] ++ 0 :: []) oneFile = (.ok (.ok root_direntry), oneFile) :=
    namei_absolute _ rfl (x := 0) rfl
  have hres : resolve oneFile (fun _ => [0x300, 0x400, 0x500]) [0x2f, 0x61] = .found 0x500 := by decide
  rw [hres] at hrep
  have hre : r = .ok 0x500 := hrep
  rw [hre, hroot] at hr
  injection hr with hr
  injection hr with hr
  injection hr with hr
  exact absurd hr (by decide)

end Ulmix.Fs

import Ulmix.Userspace.Itoa
/-!
# Formatted text of the user library (`sprintf` in `userspace/stdlib/printf.c`)

To `sprintf` a format is a list of directives: bytes to be copied, and a `%` with the
byte behind it. What it comes to is put together from the strings that the conversions
leave in their array and from the strings among the arguments (`formatted`).

The length of a text is kept in a variable that outlives its round. A conversion that
`sprintf` does not know sets none, and the end of the text moves on by the length of the
last one again (`reused`). So the text is right exactly where no unknown conversion
stands behind one that had a text, and no `%` at the very end, which makes the loop
step over the terminating zero.
-/
open Ulmix.Lib
open Ulmix.Libc (stores stores_run)

namespace Ulmix.Stdlib

open Sprintf

/-! ## Formats and what they come to -/

/-- A part of a format: a byte that is copied, a `%` with the byte behind it, or a `%` at the very end. -/
inductive Directive where
  | literal (c : UInt8)
  | conversion (c : UInt8)
  | dangling
  deriving DecidableEq, Repr

def directives : List UInt8 → List Directive
  | [] => []
  | [c] => [if c = 0x25 then .dangling else .literal c]
  | c :: d :: rest => if c = 0x25 then .conversion d :: directives rest else .literal c :: directives (d :: rest)

/-- The string that begins an object, if it ends there. -/
def string : List UInt8 → Option (List UInt8)
  | [] => none
  | c :: s => if c = 0 then some [] else (string s).map (c :: ·)

/-- The call that puts a number into `strbuf`. -/
def number (c : UInt8) (n : Nat) : Exec (List UInt8) Unit :=
  if c = 0x64 then itoa (int32 n) 10 else if c = 0x53 then strsize n else itoa (int32 n) 16

/-- The string that a call leaves in `strbuf`, and all of `strbuf` then. -/
def leaves (x : Exec (List UInt8) Unit) (strbuf : List UInt8) : Option (List UInt8 × List UInt8) :=
  match x strbuf with
  | .ok (_, strbuf) => (string strbuf).map (·, strbuf)
  | .error _ => none

/-- The text of a conversion that is known, with `strbuf` and the arguments then. -/
def conversion (c : UInt8) (strbuf : List UInt8) (ap : List Arg) : Option (List UInt8 × List UInt8 × List Arg) :=
  if c = 0x25 then some ([0x25], strbuf, ap)
  else if c = 0x73 then
    match ap with
    | .string s :: ap => (string s).map (·, strbuf, ap)
    | _ => none
  else
    match ap with
    | .word n :: ap => (leaves (number c n) strbuf).map fun (text, strbuf) => (text, strbuf, ap)
    | _ => none

/-- The bytes that are copied and the texts of the known conversions, in order. -/
def formatted : List Directive → List UInt8 → List Arg → Option (List UInt8)
  | [], _, _ => some []
  | .literal c :: ds, strbuf, ap => (formatted ds strbuf ap).map (c :: ·)
  | .conversion c :: ds, strbuf, ap =>
    if Supported c then
      match conversion c strbuf ap with
      | some (text, strbuf, ap) => (formatted ds strbuf ap).map (text ++ ·)
      | none => none
    else formatted ds strbuf ap
  | .dangling :: ds, strbuf, ap => formatted ds strbuf ap

/-- How far the unknown conversions move the end of the text on, `len` being the length of the last text. -/
def reused : Nat → List Directive → List UInt8 → List Arg → Nat
  | _, [], _, _ => 0
  | len, .literal _ :: ds, strbuf, ap => reused len ds strbuf ap
  | len, .conversion c :: ds, strbuf, ap =>
    if Supported c then
      match conversion c strbuf ap with
      | some (text, strbuf, ap) => reused text.length ds strbuf ap
      | none => 0
    else len + reused len ds strbuf ap
  | len, .dangling :: ds, strbuf, ap => reused len ds strbuf ap

/-! ## Strings -/

theorem string_of_append {t : List UInt8} (h0 : 0 ∉ t) (rest : List UInt8) : string (t ++ 0 :: rest) = some t := by
  induction t with
  | nil => simp [string]
  | cons c t ih =>
    obtain ⟨hc, ht⟩ := not_or.1 (mt List.mem_cons.2 h0)
    rw [List.cons_append, string, if_neg (Ne.symm hc), ih ht, Option.map_some]

theorem string_isSome {s : List UInt8} (h0 : 0 ∈ s) : ∃ t, string s = some t := by
  induction s with
  | nil => cases h0
  | cons c s ih =>
    unfold string
    by_cases hc : c = 0
    · exact ⟨[], if_pos hc⟩
    · obtain ⟨t, ht⟩ := ih ((List.mem_cons.1 h0).resolve_left (Ne.symm hc))
      exact ⟨c :: t, by rw [if_neg hc, ht, Option.map_some]⟩

/-- Copying a string is storing it with its zero. -/
theorem strcat_loop_eq {src t : List UInt8} (h : string src = some t) : ∀ dest length,
    strcat_loop src dest length = (do
      stores dest (t ++ [0])
      pure (length + t.length)) := by
  induction src generalizing t with
  | nil => cases h
  | cons c src ih =>
    intro dest length
    unfold string at h
    unfold strcat_loop
    by_cases hc : c = 0
    · rw [if_pos hc] at h
      cases h
      simp [hc, stores]
    · rw [if_neg hc] at h
      obtain ⟨t', ht', rfl⟩ := Option.map_eq_some_iff.1 h
      rw [if_pos hc, ih ht']
      simp [stores, Nat.add_assoc, Nat.add_comm 1]

theorem strcat_loop_none {src : List UInt8} (h : string src = none) : ∀ (dest length : Nat) (s : List UInt8) {r},
    strcat_loop src dest length s ≠ .ok r := by
  induction src with
  | nil =>
    intro dest length s r hrun
    cases hrun
  | cons c src ih =>
    intro dest length s r hrun
    unfold string at h
    unfold strcat_loop at hrun
    by_cases hc : c = 0
    · simp [hc] at h
    · rw [if_neg hc, Option.map_eq_none_iff] at h
      rw [if_pos hc] at hrun
      obtain ⟨_, s', -, hrun⟩ := Exec.bind_ok.1 hrun
      exact ih h _ _ s' hrun

section
variable {dest : Nat} {src s t : List UInt8}

/-- Behind a zero there is nothing to skip. -/
theorem strcat_eq (h0 : s[dest]? = some 0) : strcat dest src s = strcat_loop src dest 0 s := by
  have hload : load dest s = .ok (0, s) := by
    unfold load
    rw [Exec.bind_of_ok (Exec.get_apply _), h0]
    rfl
  unfold strcat
  rw [Exec.bind_of_ok hload]
  simp

theorem strcat_run (h0 : s[dest]? = some 0) (ht : string src = some t) (hroom : dest + t.length < s.length) :
    ∃ s', strcat dest src s = .ok (t.length, s') ∧ s'.length = s.length ∧
      s'.take (dest + t.length) = s.take dest ++ t := by
  have hbefore : (s.take dest).length = dest := by
    rw [List.length_take]
    omega
  have hstores := stores_run (t ++ [0]) (s.take dest) (s.drop dest)
  rw [List.take_append_drop, hbefore, if_pos (by simp; omega)] at hstores
  have hrun : strcat dest src s = .ok (t.length, s.take dest ++ (t ++ [0]) ++ (s.drop dest).drop
      (t ++ [0]).length) := by
    rw [strcat_eq h0, strcat_loop_eq ht, Exec.bind_of_ok hstores]
    simp
  refine ⟨_, hrun, ?_, ?_⟩
  · simp only [List.length_append, List.length_drop, List.length_singleton, hbefore]
    omega
  · rw [List.append_assoc, List.append_assoc, ← List.append_assoc, List.take_left' (by simp [hbefore])]

/-- To a string that is not empty the copy is appended. -/
theorem strcat_behind {u rest : List UInt8} (h0 : 0 ∉ t) (hne : t ≠ []) (hu : string src = some u)
    (hroom : u.length ≤ rest.length) :
    strcat 0 src (t ++ 0 :: rest) = .ok (u.length, t ++ u ++ 0 :: rest.drop u.length) := by
  obtain ⟨c, t', rfl⟩ := List.exists_cons_of_ne_nil hne
  have hc : c ≠ 0 := fun heq => h0 (by simp [heq])
  have hload : load 0 (c :: t' ++ 0 :: rest) = .ok (c, c :: t' ++ 0 :: rest) := rfl
  have hstores := stores_run (u ++ [0]) (c :: t') (0 :: rest)
  rw [if_pos (by simp only [List.length_append, List.length_cons, List.length_nil]; omega)] at hstores
  unfold strcat
  rw [Exec.bind_of_ok hload, if_pos hc, Exec.bind_of_ok (Libc.strlen_run h0 rest)]
  dsimp only
  rw [Nat.zero_add, strcat_loop_eq hu, Exec.bind_of_ok hstores]
  simp

theorem strcat_ok (h0 : s[dest]? = some 0) {n : Nat} {s' : List UInt8} (h : strcat dest src s = .ok (n, s')) :
    ∃ t, string src = some t ∧ n = t.length := by
  rw [strcat_eq h0] at h
  cases ht : string src with
  | none => exact absurd h (strcat_loop_none ht _ _ _)
  | some t =>
    refine ⟨t, rfl, ?_⟩
    rw [strcat_loop_eq ht] at h
    obtain ⟨_, _, -, h⟩ := Exec.bind_ok.1 h
    cases h
    exact Nat.zero_add _

end

/-! ## One conversion -/

section
variable {c : UInt8} {o o' : Sprintf} {src t strbuf : List UInt8} {ap : List Arg}

theorem va_string_iff : va_string o = .ok (t, o') ↔ ∃ ap, o.ap = .string t :: ap ∧ o' = { o with ap := ap } := by
  unfold va_string
  rw [Exec.bind_of_ok (Exec.get_apply _)]
  rcases hap : o.ap with _ | ⟨n | s, ap⟩
  · simp
  · simp
  · constructor
    · rintro h
      cases h
      exact ⟨ap, rfl, rfl⟩
    · rintro ⟨ap', heq, rfl⟩
      cases heq
      rfl

theorem va_word_iff {n : Nat} : va_word o = .ok (n, o') ↔ ∃ ap, o.ap = .word n :: ap ∧ o' = { o with ap := ap } := by
  unfold va_word
  rw [Exec.bind_of_ok (Exec.get_apply _)]
  rcases hap : o.ap with _ | ⟨m | s, ap⟩
  · simp
  · constructor
    · rintro h
      cases h
      exact ⟨ap, rfl, rfl⟩
    · rintro ⟨ap', heq, rfl⟩
      cases heq
      rfl
  · simp

theorem append_run (h0 : o.object[o.buf]? = some 0) (ht : string src = some t)
    (hroom : o.buf + t.length < o.object.length) :
    ∃ object, append src o = .ok ((), { o with object := object, len := t.length }) ∧ object.length = o.object.length ∧
      object.take (o.buf + t.length) = o.object.take o.buf ++ t := by
  obtain ⟨object, hrun, hlen, htake⟩ := strcat_run h0 ht hroom
  refine ⟨object, ?_, hlen, htake⟩
  have hcat : onObject (strcat o.buf src) o = .ok (t.length, { o with object := object }) := Exec.zoom_of_ok hrun
  unfold append
  rw [Exec.bind_of_ok (Exec.get_apply _), Exec.bind_of_ok hcat]
  rfl

theorem append_ok (h0 : o.object[o.buf]? = some 0) (h : append src o = .ok ((), o')) :
    ∃ t object, string src = some t ∧ o' = { o with object := object, len := t.length } := by
  unfold append at h
  rw [Exec.bind_of_ok (Exec.get_apply _)] at h
  obtain ⟨n, o₁, hzoom, h⟩ := Exec.bind_ok.1 h
  unfold onObject at hzoom
  obtain ⟨object, hcat, rfl⟩ := Exec.zoom_ok.1 hzoom
  obtain ⟨t, ht, rfl⟩ := strcat_ok h0 hcat
  cases h
  exact ⟨t, object, ht, rfl⟩

/-- The known conversions: a `%` is stored, a string is copied from where it is, and a number by way of `strbuf`. -/
theorem directive_eq (hc : Supported c) : directive c =
    (if c = 0x25 then do
      let o ← get
      onObject (store o.buf 0x25)
      modify fun o => { o with len := 1 }
    else if c = 0x73 then do append (← va_string)
    else do
      let n ← va_word
      onStrbuf (number c n)
      append (← get).strbuf) := by
  rcases hc with rfl | rfl | rfl | rfl | rfl | rfl <;> simp [directive, number, append_itoa]

/-- A conversion that has a text puts it behind what is there. -/
theorem directive_run (hc : Supported c) (hconv : conversion c o.strbuf o.ap = some (t, strbuf, ap))
    (h0 : o.object[o.buf]? = some 0) (hroom : o.buf + t.length < o.object.length) :
    ∃ object, directive c o = .ok ((), { o with object := object, strbuf := strbuf, len := t.length, ap := ap }) ∧
      object.length = o.object.length ∧ object.take (o.buf + t.length) = o.object.take o.buf ++ t := by
  rw [directive_eq hc]
  unfold conversion at hconv
  by_cases hpercent : c = 0x25
  · rw [if_pos hpercent] at hconv ⊢
    cases hconv
    have hlt : o.buf < o.object.length := (List.getElem?_eq_some_iff.1 h0).1
    refine ⟨o.object.set o.buf 0x25, ?_, List.length_set, by simp [List.take_add_one, List.take_set_of_le, hlt]⟩
    rw [Exec.bind_of_ok (Exec.get_apply _), Exec.bind_of_ok (onObject_store hlt)]
    rfl
  rw [if_neg hpercent] at hconv ⊢
  by_cases hstring : c = 0x73
  · rw [if_pos hstring] at hconv ⊢
    split at hconv
    · rename_i s ap' hap
      obtain ⟨t', ht, heq⟩ := Option.map_eq_some_iff.1 hconv
      cases heq
      rw [Exec.bind_of_ok (va_string_iff.2 ⟨ap, hap, rfl⟩)]
      exact append_run (o := { o with ap := ap }) h0 ht hroom
    · cases hconv
  · rw [if_neg hstring] at hconv ⊢
    split at hconv
    · rename_i n ap' hap
      obtain ⟨⟨t', strbuf'⟩, hleaves, heq⟩ := Option.map_eq_some_iff.1 hconv
      cases heq
      unfold leaves at hleaves
      split at hleaves
      · rename_i b hrun
        obtain ⟨t', ht, heq⟩ := Option.map_eq_some_iff.1 hleaves
        cases heq
        have hnumber : onStrbuf (number c n) { o with ap := ap } = .ok ((), { o with strbuf := strbuf, ap := ap }) :=
          Exec.zoom_of_ok hrun
        rw [Exec.bind_of_ok (va_word_iff.2 ⟨ap, hap, rfl⟩), Exec.bind_of_ok hnumber, Exec.bind_of_ok (Exec.get_apply _)]
        exact append_run (o := { o with strbuf := strbuf, ap := ap }) h0 ht hroom
      · cases hleaves
    · cases hconv

/-- A known conversion that returns has a text. -/
theorem directive_ok (hc : Supported c) (h0 : o.object[o.buf]? = some 0) (h : directive c o = .ok ((), o')) :
    ∃ t object strbuf ap, conversion c o.strbuf o.ap = some (t, strbuf, ap) ∧
      o' = { o with object := object, strbuf := strbuf, len := t.length, ap := ap } := by
  rw [directive_eq hc] at h
  unfold conversion
  by_cases hpercent : c = 0x25
  · have hlt : o.buf < o.object.length := (List.getElem?_eq_some_iff.1 h0).1
    rw [if_pos hpercent, Exec.bind_of_ok (Exec.get_apply _), Exec.bind_of_ok (onObject_store hlt)] at h
    rw [if_pos hpercent]
    cases h
    exact ⟨_, _, _, _, rfl, rfl⟩
  rw [if_neg hpercent] at h ⊢
  by_cases hstring : c = 0x73
  · rw [if_pos hstring] at h ⊢
    obtain ⟨s, o₁, hfetch, h⟩ := Exec.bind_ok.1 h
    obtain ⟨ap, hap, rfl⟩ := va_string_iff.1 hfetch
    obtain ⟨t, object, ht, rfl⟩ := append_ok (by exact h0) h
    exact ⟨t, object, o.strbuf, ap, by simp only [hap, ht, Option.map_some], rfl⟩
  · rw [if_neg hstring] at h ⊢
    obtain ⟨n, o₁, hfetch, h⟩ := Exec.bind_ok.1 h
    obtain ⟨ap, hap, rfl⟩ := va_word_iff.1 hfetch
    obtain ⟨_, o₂, hzoom, h⟩ := Exec.bind_ok.1 h
    unfold onStrbuf at hzoom
    obtain ⟨strbuf, hnumber, rfl⟩ := Exec.zoom_ok.1 hzoom
    rw [Exec.bind_of_ok (Exec.get_apply _)] at h
    obtain ⟨t, object, ht, rfl⟩ := append_ok (by exact h0) h
    refine ⟨t, object, strbuf, ap, ?_, rfl⟩
    rw [hap]
    unfold leaves
    dsimp only at hnumber ht ⊢
    rw [hnumber]
    dsimp only
    rw [ht]
    rfl

end

/-! ## The loop -/

section
variable {c d : UInt8} {fmt rest t w strbuf : List UInt8} {ap : List Arg} {o : Sprintf} {r : Unit × Sprintf}

/-- A store returns if it is within the buffer. -/
theorem onObject_store_bind {i : Nat} {f : Unit → Exec Sprintf Unit} : (onObject (store i c) >>= f) o = .ok r ↔
    i < o.object.length ∧ f () { o with object := o.object.set i c } = .ok r := by
  by_cases hlt : i < o.object.length
  · rw [Exec.bind_of_ok (onObject_store hlt)]
    exact (and_iff_right hlt).symm
  · have hstore : store i c o.object = .error .outOfBounds := by
      unfold store
      rw [Exec.bind_of_ok (Exec.get_apply _), if_neg hlt]
      rfl
    have hzoom : onObject (store i c) o = .error .outOfBounds := Exec.zoom_of_error hstore
    rw [Exec.bind_of_error hzoom]
    exact iff_of_false (fun h => nomatch h) fun h => hlt h.1

/-- The round of a `%`: a zero is stored where the text ends, and behind the conversion the end moves on. -/
theorem sprintf_loop_percent : sprintf_loop (0x25 :: d :: rest) o = .ok r ↔ o.buf < o.object.length ∧
    ∃ o₁, directive d { o with object := o.object.set o.buf 0 } = .ok ((), o₁) ∧
      sprintf_loop rest { o₁ with length := o₁.length + o₁.len, buf := o₁.buf + o₁.len } = .ok r := by
  rw [sprintf_loop, if_neg (by decide), if_pos rfl, Exec.bind_of_ok (Exec.get_apply _), onObject_store_bind,
    Exec.bind_ok]
  constructor
  · rintro ⟨hlt, _, o₁, hdir, hrest⟩
    rw [Exec.bind_of_ok (Exec.modify_apply _ _)] at hrest
    exact ⟨hlt, o₁, hdir, hrest⟩
  · rintro ⟨hlt, o₁, hdir, hrest⟩
    refine ⟨hlt, (), o₁, hdir, ?_⟩
    rw [Exec.bind_of_ok (Exec.modify_apply _ _)]
    exact hrest

/-- The round of a byte that is copied. -/
theorem sprintf_loop_literal (h0 : c ≠ 0) (hc : c ≠ 0x25) (hrest : rest ≠ []) : sprintf_loop (c :: rest) o = .ok r ↔
    o.buf < o.object.length ∧
      sprintf_loop rest { o with object := o.object.set o.buf c, buf := o.buf + 1, length := o.length + 1 } =
        .ok r := by
  obtain ⟨d, rest, rfl⟩ := List.exists_cons_of_ne_nil hrest
  rw [sprintf_loop, if_neg h0, if_neg hc, Exec.bind_of_ok (Exec.get_apply _), onObject_store_bind]
  exact Iff.rfl

theorem sprintf_loop_end (after : List UInt8) : sprintf_loop (0 :: after) o = .ok ((), o) := by
  cases after with
  | nil =>
    rw [sprintf_loop, if_pos rfl]
    rfl
  | cons d after =>
    rw [sprintf_loop, if_pos rfl]
    rfl

theorem getElem?_set_buf (h : o.buf < o.object.length) : (o.object.set o.buf c)[o.buf]? = some c := by simp [h]

end

/-- A run that returns over a format that ends with its zero made something of every directive,
and the length is that of the texts and what was counted again. -/
theorem sprintf_loop_ok (fmt : List UInt8) : ∀ {o o' : Sprintf}, 0 ∉ fmt →
    sprintf_loop (fmt ++ [0]) o = .ok ((), o') → .dangling ∉ directives fmt ∧ ∃ w,
      formatted (directives fmt) o.strbuf o.ap = some w ∧
      o'.length = o.length + (w.length + reused o.len (directives fmt) o.strbuf o.ap) := by
  induction fmt using directives.induct with
  | case1 =>
    intro o o' _ h
    rw [List.nil_append, sprintf_loop_end] at h
    cases h
    simp [directives, formatted, reused]
  | case2 c =>
    intro o o' h0 h
    have hc0 : c ≠ 0 := fun heq => h0 (by simp [heq])
    by_cases hc : c = 0x25
    · -- behind the `%` and the zero there is nothing to read
      rw [hc, List.singleton_append, sprintf_loop_percent] at h
      obtain ⟨-, o₁, -, hrest⟩ := h
      cases hrest
    · rw [List.singleton_append, sprintf_loop_literal hc0 hc (by simp), sprintf_loop_end] at h
      cases h.2
      simp [directives, hc, formatted, reused]
  | case3 d rest ih =>
    intro o o' h0 h
    have h0' : 0 ∉ rest := fun hm => h0 (by simp [hm])
    rw [List.cons_append, List.cons_append, sprintf_loop_percent] at h
    obtain ⟨hlt, o₁, hdir, hrest⟩ := h
    rw [directives, if_pos rfl]
    by_cases hd : Supported d
    · obtain ⟨t, object, strbuf, ap, hconv, rfl⟩ := directive_ok hd (by exact getElem?_set_buf hlt) hdir
      obtain ⟨hdangling, w, hw, hlen⟩ := ih h0' hrest
      dsimp only at hconv hw hlen
      refine ⟨by simpa using hdangling, t ++ w, ?_, ?_⟩
      · simp only [formatted, if_pos hd, hconv, hw, Option.map_some]
      · simp only [reused, if_pos hd, hconv, List.length_append, hlen]
        omega
    · rw [directive_skipped hd] at hdir
      cases hdir
      obtain ⟨hdangling, w, hw, hlen⟩ := ih h0' hrest
      dsimp only at hw hlen
      refine ⟨by simpa using hdangling, w, ?_, ?_⟩
      · simp only [formatted, if_neg hd, hw]
      · simp only [reused, if_neg hd, hlen]
        omega
  | case4 c d rest hc ih =>
    intro o o' h0 h
    have hc0 : c ≠ 0 := fun heq => h0 (by simp [heq])
    have h0' : 0 ∉ d :: rest := fun hm => h0 (List.mem_cons_of_mem _ hm)
    rw [List.cons_append, sprintf_loop_literal hc0 hc (by simp)] at h
    obtain ⟨hdangling, w, hw, hlen⟩ := ih h0' h.2
    dsimp only at hw hlen
    rw [directives, if_neg hc]
    refine ⟨by simpa using hdangling, c :: w, ?_, ?_⟩
    · simp only [formatted, hw, Option.map_some]
    · simp only [reused, List.length_cons, hlen]
      omega

/-- Whatever lies behind the zero of the format, the loop puts `w` behind what is there. -/
def Outputs (fmt : List UInt8) (o : Sprintf) (w : List UInt8) : Prop :=
  ∃ o', (∀ after, sprintf_loop (fmt ++ 0 :: after) o = .ok ((), o')) ∧ o'.length = o.length + w.length ∧
    o'.object.take o'.length = o.object.take o.length ++ w

section
variable {c d : UInt8} {rest t w strbuf : List UInt8} {ap : List Arg} {o : Sprintf}

theorem outputs_nil (o : Sprintf) : Outputs [] o [] :=
  ⟨o, fun after => by rw [List.nil_append, sprintf_loop_end], rfl, by simp⟩

theorem outputs_literal (h0 : c ≠ 0) (hc : c ≠ 0x25) (hbuf : o.buf = o.length) (hlt : o.length < o.object.length)
    (h : Outputs rest { o with object := o.object.set o.buf c, buf := o.buf + 1, length := o.length + 1 } w) :
    Outputs (c :: rest) o (c :: w) := by
  obtain ⟨o', hrun, hl, htake⟩ := h
  dsimp only at hl htake
  refine ⟨o', fun after => ?_, by rw [hl, List.length_cons]; omega, ?_⟩
  · rw [List.cons_append, sprintf_loop_literal h0 hc (by simp)]
    exact ⟨by omega, hrun after⟩
  · rw [htake, hbuf]
    simp [List.take_add_one, List.take_set_of_le, hlt]

/-- The text of a known conversion is put in front of what the rest puts out. -/
theorem outputs_known (hd : Supported d) (hconv : conversion d o.strbuf o.ap = some (t, strbuf, ap))
    (hbuf : o.buf = o.length) (hroom : o.length + t.length < o.object.length) :
    ∃ object, object.length = o.object.length ∧
      (Outputs rest ⟨object, o.buf + t.length, o.length + t.length, strbuf, t.length, ap⟩ w →
        Outputs (0x25 :: d :: rest) o (t ++ w)) := by
  have hlt : o.buf < o.object.length := by omega
  obtain ⟨object, hdir, hlen, htake⟩ := directive_run (o := { o with object := o.object.set o.buf 0 }) hd hconv
    (getElem?_set_buf hlt) (by simp only [List.length_set]; omega)
  rw [List.length_set] at hlen
  rw [List.take_set_of_le le_rfl] at htake
  refine ⟨object, hlen, ?_⟩
  rintro ⟨o', hrun, hl, htake'⟩
  dsimp only at hl htake'
  refine ⟨o', fun after => ?_, ?_, ?_⟩
  · rw [List.cons_append, List.cons_append, sprintf_loop_percent]
    exact ⟨hlt, _, hdir, hrun after⟩
  · rw [hl, List.length_append, Nat.add_assoc]
  · rw [htake', ← hbuf, htake, List.append_assoc]

/-- An unknown conversion moves the end of the text on by the length it finds. -/
theorem outputs_unknown (hd : ¬ Supported d) (hbuf : o.buf = o.length) (hlt : o.length < o.object.length)
    (hlen : o.len = 0)
    (h : Outputs rest { o with object := o.object.set o.buf 0 } w) : Outputs (0x25 :: d :: rest) o w := by
  obtain ⟨o', hrun, hl, htake⟩ := h
  dsimp only at hl htake
  refine ⟨o', fun after => ?_, hl, ?_⟩
  · rw [List.cons_append, List.cons_append, sprintf_loop_percent, directive_skipped hd]
    refine ⟨by omega, _, rfl, ?_⟩
    simpa only [hlen, Nat.add_zero] using hrun after
  · rw [htake, List.take_set_of_le (by omega)]

end

/-- If no length is counted again, the texts are put one behind the other, and nothing behind the
zero of the format is read. -/
theorem sprintf_loop_run (fmt : List UInt8) : ∀ {o : Sprintf} {w : List UInt8}, 0 ∉ fmt → .dangling ∉ directives fmt →
    formatted (directives fmt) o.strbuf o.ap = some w → reused o.len (directives fmt) o.strbuf o.ap = 0 →
    o.buf = o.length → o.length + w.length < o.object.length → Outputs fmt o w := by
  induction fmt using directives.induct with
  | case1 =>
    intro o w _ _ hw _ _ _
    cases hw
    exact outputs_nil o
  | case2 c =>
    intro o w h0 hdangling hw _ hbuf hroom
    have hc0 : c ≠ 0 := fun heq => h0 (by simp [heq])
    have hc : c ≠ 0x25 := fun heq => hdangling (by simp [directives, heq])
    rw [directives, if_neg hc] at hw
    cases hw
    exact outputs_literal hc0 hc hbuf (Nat.lt_of_succ_lt hroom) (outputs_nil _)
  | case3 d rest ih =>
    intro o w h0 hdangling hw hreused hbuf hroom
    have h0' : 0 ∉ rest := fun hm => h0 (by simp [hm])
    rw [directives, if_pos rfl] at hdangling hw hreused
    have hdangling' : .dangling ∉ directives rest := fun hm => hdangling (List.mem_cons_of_mem _ hm)
    by_cases hd : Supported d
    · simp only [formatted, reused, if_pos hd] at hw hreused
      cases hconv : conversion d o.strbuf o.ap with
      | none =>
        rw [hconv] at hw
        cases hw
      | some r =>
        obtain ⟨t, strbuf, ap⟩ := r
        rw [hconv] at hw hreused
        obtain ⟨v, hv, rfl⟩ := Option.map_eq_some_iff.1 hw
        rw [List.length_append] at hroom
        obtain ⟨object, hlen, houtputs⟩ := @outputs_known d rest t v strbuf ap o hd hconv hbuf (by omega)
        exact houtputs (ih h0' hdangling' hv hreused (by simp only [hbuf]) (by simp only [hlen]; omega))
    · simp only [formatted, reused, if_neg hd] at hw hreused
      have hlen : o.len = 0 := by omega
      have hrest : Outputs rest { o with object := o.object.set o.buf 0 } w :=
        ih h0' hdangling' hw (by simp only; omega) hbuf (by simpa using hroom)
      exact outputs_unknown hd hbuf (by omega) hlen hrest
  | case4 c d rest hc ih =>
    intro o w h0 hdangling hw hreused hbuf hroom
    have hc0 : c ≠ 0 := fun heq => h0 (by simp [heq])
    have h0' : 0 ∉ d :: rest := fun hm => h0 (List.mem_cons_of_mem _ hm)
    rw [directives, if_neg hc] at hdangling hw hreused
    obtain ⟨v, hv, rfl⟩ := Option.map_eq_some_iff.1 hw
    rw [List.length_cons] at hroom
    have hdangling' : .dangling ∉ directives (d :: rest) := fun hm => hdangling (List.mem_cons_of_mem _ hm)
    apply outputs_literal hc0 hc hbuf (by omega)
    exact ih h0' hdangling' hv hreused (by simp only [hbuf]) (by simp only [List.length_set]; omega)

/-- `sprintf` returns, reads nothing behind the zero of the format, and puts out what the format comes to. -/
def Formats (fmt buf strbuf : List UInt8) (ap : List Arg) : Prop :=
  ∃ w buf' length, formatted (directives fmt) strbuf ap = some w ∧
    (∀ after, sprintf buf strbuf (fmt ++ 0 :: after) ap = .ok (buf', length)) ∧ length ≤ buf'.length ∧
      buf'.take length = w

/-- Every directive has its text, none stands at the very end and no length is counted again. -/
structure Whole (len : Nat) (ds : List Directive) (strbuf : List UInt8) (ap : List Arg) : Prop where
  complete : .dangling ∉ ds
  texts : ∃ w, formatted ds strbuf ap = some w
  once : reused len ds strbuf ap = 0

theorem sprintf_texts_iff {fmt buf strbuf : List UInt8} {ap : List Arg} (h0 : 0 ∉ fmt)
    (hroom : ∀ w, formatted (directives fmt) strbuf ap = some w → w.length < buf.length) :
    Formats fmt buf strbuf ap ↔ Whole 0 (directives fmt) strbuf ap := by
  constructor
  · rintro ⟨w, buf', length, hw, hrun, hle, htake⟩
    have hloop := hrun []
    unfold sprintf at hloop
    cases hstart : (do onObject (store 0 0); sprintf_loop (fmt ++ [0])) ⟨buf, 0, 0, strbuf, 0, ap⟩ with
    | error e =>
      rw [hstart] at hloop
      cases hloop
    | ok r =>
      rw [hstart] at hloop
      cases hloop
      rw [onObject_store_bind] at hstart
      obtain ⟨hdangling, v, hv, hlen⟩ := sprintf_loop_ok fmt h0 hstart.2
      dsimp only at hv hlen
      have hcount := congrArg List.length htake
      rw [List.length_take, Nat.min_eq_left hle] at hcount
      rw [hw] at hv
      cases hv
      exact ⟨hdangling, ⟨w, hw⟩, by omega⟩
  · rintro ⟨hdangling, ⟨w, hw⟩, hreused⟩
    have hlt := hroom w hw
    obtain ⟨o', hrun, hl, htake⟩ := sprintf_loop_run fmt (o := ⟨buf.set 0 0, 0, 0, strbuf, 0, ap⟩) h0 hdangling hw
      hreused rfl (by simpa using hlt)
    simp only [Nat.zero_add, List.take_zero, List.nil_append] at hl htake
    refine ⟨w, o'.object, o'.length, hw, fun after => ?_, ?_, htake⟩
    · have hstore : onObject (store 0 0) ⟨buf, 0, 0, strbuf, 0, ap⟩ = .ok ((), ⟨buf.set 0 0, 0, 0, strbuf, 0, ap⟩) :=
        onObject_store (by exact Nat.zero_lt_of_lt hlt)
      unfold sprintf
      rw [Exec.bind_of_ok hstore, hrun after]
    · have hcount := congrArg List.length htake
      rw [List.length_take] at hcount
      omega

/-! ## Which numbers have a text -/

/-- The numbers `itoa` returns for, where a conversion calls it with its argument. -/
def Converts (c : UInt8) (n : Nat) : Prop :=
  (c = 0x64 → int32 n ≠ -2 ^ 31) ∧ (c = 0x78 ∨ c = 0x58 → (int32 n).natAbs < 16 ^ 7)

/-- `x` leaves a string in the array, and not an empty one. -/
def HasText (x : Exec (List UInt8) Unit) (strbuf : List UInt8) : Prop :=
  ∃ t strbuf', leaves x strbuf = some (t, strbuf') ∧ t ≠ [] ∧ strbuf'.length = 64

section
variable {strbuf : List UInt8} {n base : Int} {k : Nat}

theorem leaves_of_run {x : Exec (List UInt8) Unit} {t rest : List UInt8} (h : x strbuf = .ok ((), t ++ 0 :: rest))
    (h0 : 0 ∉ t) :
    leaves x strbuf = some (t, t ++ 0 :: rest) := by
  unfold leaves
  rw [h]
  dsimp only
  rw [string_of_append h0, Option.map_some]

theorem itoa_hasText (hb : 2 ≤ base ∧ base ≤ 36) (h64 : strbuf.length = 64) (hstop : Stops (magnitude n) base k)
    (hk : k ≤ 31) :
    HasText (itoa n base) strbuf := by
  obtain ⟨t, rest, hrun, h0, hne, -, hlen⟩ := @itoa_string n base k hb hstop strbuf (by omega)
  refine ⟨t, t ++ 0 :: rest, leaves_of_run hrun h0, hne, ?_⟩
  rw [List.length_append, List.length_cons]
  omega

theorem itoa_leaves_none (hb : 2 ≤ base ∧ base ≤ 36) (hn : n ≠ 0) (h : ∀ k, ¬ Stops (magnitude n) base k) :
    leaves (itoa n base) strbuf = none := by
  unfold leaves
  cases hrun : itoa n base strbuf with
  | error e => rfl
  | ok r =>
    obtain ⟨k, hstop, -⟩ := (itoa_returns_iff hb hn strbuf).1 ⟨r.2, hrun⟩
    exact absurd hstop (h k)

theorem size_unit_lt {n : Nat} (h : n < 2 ^ 32) : (size_unit n).1 < 1024 := by
  unfold size_unit
  split
  · dsimp only
    omega
  split
  · dsimp only
    omega
  split <;> dsimp only <;> omega

theorem unit_ne_zero (n : Nat) : ∃ u, chars [(size_unit n).2] = [u] ∧ u ≠ 0 := by
  unfold size_unit
  split
  · exact ⟨0x47, rfl, by decide⟩
  split
  · exact ⟨0x4d, rfl, by decide⟩
  split
  · exact ⟨0x4b, rfl, by decide⟩
  · exact ⟨0x42, rfl, by decide⟩

/-- A size has less than five digits, and its unit behind them. -/
theorem strsize_hasText {n : Nat} (hn : n < 2 ^ 32) (h64 : strbuf.length = 64) : HasText (strsize n) strbuf := by
  have hlt := size_unit_lt hn
  have hint : int32 (size_unit n).1 = (size_unit n).1 := by
    unfold int32
    exact Int.bmod_eq_of_le (by omega) (by omega)
  have hstop : Stops (magnitude (size_unit n).1) 10 4 := by
    have hpower : (power 10 4).natAbs = 10 ^ 4 := by decide
    have hmagnitude : magnitude ((size_unit n).1 : Int) = (size_unit n).1 := if_neg (by omega)
    unfold Stops
    rw [hmagnitude]
    omega
  obtain ⟨t, rest, hrun, h0, hne, hshort, hlen⟩ := @itoa_string (size_unit n).1 10 4 (by decide) hstop strbuf (by omega)
  obtain ⟨u, hunit, hu⟩ := unit_ne_zero n
  have hsource : string ([u] ++ [0]) = some [u] := string_of_append (by simpa using hu.symm) []
  have hstrcat : strcat 0 ([u] ++ [0]) (t ++ 0 :: rest) = .ok (1, t ++ [u] ++ 0 :: rest.drop 1) :=
    strcat_behind h0 hne hsource (by rw [List.length_singleton]; omega)
  have hstrsize : strsize n strbuf = .ok ((), t ++ [u] ++ 0 :: rest.drop 1) := by
    unfold strsize
    rw [hint, hunit, Exec.bind_of_ok hrun, Exec.bind_of_ok hstrcat]
    rfl
  have hnot : 0 ∉ t ++ [u] := by
    intro hm
    rcases List.mem_append.1 hm with hm | hm
    · exact h0 hm
    · exact hu (List.mem_singleton.1 hm).symm
  refine ⟨t ++ [u], t ++ [u] ++ 0 :: rest.drop 1, leaves_of_run hstrsize hnot, by simp, ?_⟩
  simp only [List.length_append, List.length_cons, List.length_drop, List.length_nil]
  omega

/-- A number is converted if and only if it is one of those. -/
theorem number_hasText {c : UInt8} {n : Nat} (hc : Supported c) (hstring : c ≠ 0x73) (hpercent : c ≠ 0x25)
    (hn : n < 2 ^ 32) (h64 : strbuf.length = 64) : (Converts c n → HasText (number c n) strbuf) ∧
      (¬ Converts c n → leaves (number c n) strbuf = none) := by
  obtain ⟨hlow, hhigh⟩ := int32_range n
  have hx : c ≠ 0x64 → c ≠ 0x53 → (c = 0x78 ∨ c = 0x58) := by
    intro hd hS
    rcases hc with h | h | h | h | h | h
    · exact absurd h hd
    · exact absurd h hstring
    · exact .inl h
    · exact .inr h
    · exact absurd h hS
    · exact absurd h hpercent
  have hother : c = 0x64 ∨ c = 0x53 → ¬ (c = 0x78 ∨ c = 0x58) := by
    rintro (rfl | rfl) <;> decide
  unfold number Converts
  by_cases hd : c = 0x64
  · rw [if_pos hd]
    constructor
    · intro h
      exact itoa_hasText (by decide) h64 (stops_decimal hlow hhigh (h.1 hd)) le_rfl
    · intro h
      have hlowest : int32 n = -2 ^ 31 := by
        by_contra hne
        exact h ⟨fun _ => hne, fun hhex => absurd hhex (hother (.inl hd))⟩
      exact itoa_leaves_none (by decide) (by omega) fun k hstop => hstop.decimal hlow hhigh hlowest
  rw [if_neg hd]
  by_cases hS : c = 0x53
  · rw [if_pos hS]
    refine ⟨fun _ => strsize_hasText hn h64, fun h => absurd ⟨fun h' => absurd h' hd, fun hhex => ?_⟩ h⟩
    exact absurd hhex (hother (.inr hS))
  · rw [if_neg hS]
    constructor
    · intro h
      exact itoa_hasText (by decide) h64 (stops_hexadecimal hlow hhigh (h.2 (hx hd hS))) (by decide)
    · intro h
      have hge : ¬ (int32 n).natAbs < 16 ^ 7 := fun hlt => h ⟨fun h' => absurd h' hd, fun _ => hlt⟩
      exact itoa_leaves_none (by decide) (by omega) fun k hstop => hge (hstop.hexadecimal hlow hhigh)

end

/-! ## The condition -/

/-- The conversions find what they fetch: words, and strings that end in their object. -/
def Suits : List Directive → List Arg → Prop
  | [], _ => True
  | .conversion c :: ds, ap =>
    if c = 0x73 then
      match ap with
      | .string s :: ap => 0 ∈ s ∧ Suits ds ap
      | _ => False
    else if Supported c ∧ c ≠ 0x25 then
      match ap with
      | .word n :: ap => n < 2 ^ 32 ∧ Suits ds ap
      | _ => False
    else Suits ds ap
  | .literal _ :: ds, ap => Suits ds ap
  | .dangling :: ds, ap => Suits ds ap

/-- Every number is one that `itoa` returns for, an unknown conversion stands only where `fresh` is true,
that is where no text was made so far or the last one was empty, and there is no `%` at the very end. -/
def Meets : Bool → List Directive → List Arg → Prop
  | _, [], _ => True
  | fresh, .conversion c :: ds, ap =>
    if c = 0x73 then
      match ap with
      | .string s :: ap => Meets (s.head? = some 0) ds ap
      | _ => False
    else if Supported c ∧ c ≠ 0x25 then
      match ap with
      | .word n :: ap => Converts c n ∧ Meets false ds ap
      | _ => False
    else if c = 0x25 then Meets false ds ap
    else fresh = true ∧ Meets fresh ds ap
  | fresh, .literal _ :: ds, ap => Meets fresh ds ap
  | _, .dangling :: _, _ => False

section
variable {c : UInt8} {len : Nat} {ds : List Directive} {strbuf strbuf' t : List UInt8} {ap ap' : List Arg}

theorem whole_nil (len : Nat) (strbuf : List UInt8) (ap : List Arg) : Whole len [] strbuf ap :=
  ⟨by simp, ⟨[], rfl⟩, rfl⟩

theorem whole_literal : Whole len (.literal c :: ds) strbuf ap ↔ Whole len ds strbuf ap := by
  constructor
  · rintro ⟨hcomplete, ⟨w, hw⟩, honce⟩
    obtain ⟨v, hv, -⟩ := Option.map_eq_some_iff.1 hw
    exact ⟨fun hm => hcomplete (List.mem_cons_of_mem _ hm), ⟨v, hv⟩, honce⟩
  · rintro ⟨hcomplete, ⟨w, hw⟩, honce⟩
    exact ⟨by simpa using hcomplete, ⟨c :: w, by rw [formatted, hw, Option.map_some]⟩, honce⟩

/-- From a known conversion on the length of its text counts. -/
theorem whole_known (hc : Supported c) (h : conversion c strbuf ap = some (t, strbuf', ap')) :
    Whole len (.conversion c :: ds) strbuf ap ↔ Whole t.length ds strbuf' ap' := by
  have hformatted : formatted (.conversion c :: ds) strbuf ap = (formatted ds strbuf' ap').map (t ++ ·) := by
    rw [formatted, if_pos hc, h]
  have hreused : reused len (.conversion c :: ds) strbuf ap = reused t.length ds strbuf' ap' := by
    rw [reused, if_pos hc, h]
  constructor
  · rintro ⟨hcomplete, ⟨w, hw⟩, honce⟩
    rw [hformatted] at hw
    obtain ⟨v, hv, -⟩ := Option.map_eq_some_iff.1 hw
    exact ⟨fun hm => hcomplete (List.mem_cons_of_mem _ hm), ⟨v, hv⟩, hreused ▸ honce⟩
  · rintro ⟨hcomplete, ⟨w, hw⟩, honce⟩
    exact ⟨by simpa using hcomplete, ⟨t ++ w, by rw [hformatted, hw, Option.map_some]⟩, hreused.trans honce⟩

theorem not_whole_none (hc : Supported c) (h : conversion c strbuf ap = none) :
    ¬ Whole len (.conversion c :: ds) strbuf ap := by
  rintro ⟨-, ⟨w, hw⟩, -⟩
  rw [formatted, if_pos hc, h] at hw
  cases hw

theorem whole_unknown (hc : ¬ Supported c) : Whole len (.conversion c :: ds) strbuf ap ↔ len = 0 ∧
    Whole len ds strbuf ap := by
  have hreused : reused len (.conversion c :: ds) strbuf ap = len + reused len ds strbuf ap := by rw [reused, if_neg hc]
  have hformatted : formatted (.conversion c :: ds) strbuf ap = formatted ds strbuf ap := by rw [formatted, if_neg hc]
  constructor
  · rintro ⟨hcomplete, ⟨w, hw⟩, honce⟩
    exact ⟨by omega, fun hm => hcomplete (List.mem_cons_of_mem _ hm), ⟨w, hformatted ▸ hw⟩, by omega⟩
  · rintro ⟨hlen, hcomplete, ⟨w, hw⟩, honce⟩
    exact ⟨by simpa using hcomplete, ⟨w, hformatted.trans hw⟩, by omega⟩

theorem conversion_string {src : List UInt8} (h : string src = some t) :
    conversion 0x73 strbuf (.string src :: ap) = some (t, strbuf, ap) := by
  unfold conversion
  rw [if_neg (by decide), if_pos rfl]
  dsimp only
  rw [h, Option.map_some]

theorem conversion_word (hstring : c ≠ 0x73) (hpercent : c ≠ 0x25) (n : Nat) :
    conversion c strbuf (.word n :: ap) =
      (leaves (number c n) strbuf).map fun (text, strbuf) => (text, strbuf, ap) := by
  unfold conversion
  rw [if_neg hpercent, if_neg hstring]

/-- The empty string is the one that begins with its zero. -/
theorem string_empty_iff {src : List UInt8} (h : string src = some t) :
    decide (src.head? = some 0) = true ↔ t.length = 0 := by
  cases src with
  | nil => cases h
  | cons a src =>
    unfold string at h
    by_cases ha : a = 0
    · rw [if_pos ha] at h
      cases h
      simp [ha]
    · rw [if_neg ha] at h
      obtain ⟨t', -, rfl⟩ := Option.map_eq_some_iff.1 h
      simp [ha]

end

/-- By induction on the directives, with `strbuf` as it is then and the length of the last text. -/
theorem whole_iff (ds : List Directive) : ∀ {fresh : Bool} {len : Nat} {strbuf : List UInt8} {ap : List Arg},
    (fresh = true ↔ len = 0) → strbuf.length = 64 → Suits ds ap → (Whole len ds strbuf ap ↔ Meets fresh ds ap) := by
  induction ds with
  | nil =>
    intro fresh len strbuf ap _ _ _
    exact iff_of_true (whole_nil _ _ _) trivial
  | cons d ds ih =>
    intro fresh len strbuf ap hfresh h64 hsuits
    cases d with
    | literal c => exact whole_literal.trans (ih hfresh h64 hsuits)
    | dangling => exact iff_of_false (fun h => h.complete (by simp)) id
    | conversion c =>
      unfold Suits at hsuits
      unfold Meets
      by_cases hstring : c = 0x73
      · rw [if_pos hstring] at hsuits ⊢
        have hc : Supported c := .inr (.inl hstring)
        rcases ap with _ | ⟨n | src, ap⟩
        · cases hsuits
        · cases hsuits
        · obtain ⟨h0, hrest⟩ := hsuits
          obtain ⟨t, ht⟩ := string_isSome h0
          have hconv := @conversion_string strbuf t ap src ht
          rw [← hstring] at hconv
          exact (whole_known hc hconv).trans (ih (string_empty_iff ht) h64 hrest)
      rw [if_neg hstring] at hsuits ⊢
      by_cases hnumber : Supported c ∧ c ≠ 0x25
      · rw [if_pos hnumber] at hsuits ⊢
        rcases ap with _ | ⟨n | s, ap⟩
        · cases hsuits
        · obtain ⟨hn, hrest⟩ := hsuits
          obtain ⟨hyes, hno⟩ := number_hasText hnumber.1 hstring hnumber.2 hn h64
          have hconv := @conversion_word c strbuf ap hstring hnumber.2 n
          by_cases hconverts : Converts c n
          · obtain ⟨t, strbuf', hleaves, hne, h64'⟩ := hyes hconverts
            rw [hleaves, Option.map_some] at hconv
            have hlen : false = true ↔ t.length = 0 := by simpa using hne
            exact (whole_known hnumber.1 hconv).trans ((ih hlen h64' hrest).trans (and_iff_right hconverts).symm)
          · rw [hno hconverts, Option.map_none] at hconv
            exact iff_of_false (not_whole_none hnumber.1 hconv) fun h => hconverts h.1
        · cases hsuits
      rw [if_neg hnumber] at hsuits ⊢
      by_cases hpercent : c = 0x25
      · have hc : Supported c := by
          rw [hpercent]
          decide
        rw [if_pos hpercent]
        exact (whole_known hc (if_pos hpercent)).trans (ih (by simp) h64 hsuits)
      · have hc : ¬ Supported c := fun h => hnumber ⟨h, hpercent⟩
        rw [if_neg hpercent, whole_unknown hc, hfresh, ih hfresh h64 hsuits]

/-- Where the condition is met and the text fits into its array, `printf` writes the text. -/
theorem printf_formatted (stack : Nat → Nat → UInt8) {fmt after w : List UInt8} {ap : List Arg} {s : Process}
    (h0 : 0 ∉ fmt) (hsuits : Suits (directives fmt) ap) (hmeets : Meets true (directives fmt) ap)
    (hw : formatted (directives fmt) ((List.range' 256 64).map (stack s.printfs)) ap = some w) (hlen : w.length < 256) :
    printf stack (fmt ++ 0 :: after) ap s =
      .ok ((), { s with stdout := s.stdout ++ w, printfs := s.printfs + 1 }) := by
  have hwhole : Whole 0 (directives fmt) ((List.range' 256 64).map (stack s.printfs)) ap :=
    (whole_iff _ (by simp) (by simp) hsuits).2 hmeets
  have hroom : ∀ v, formatted (directives fmt) ((List.range' 256 64).map (stack s.printfs)) ap = some v →
      v.length < ((List.range 256).map (stack s.printfs)).length := by
    intro v hv
    rw [hw] at hv
    cases hv
    simpa using hlen
  obtain ⟨v, buf', length, hv, hrun, hle, htake⟩ := (sprintf_texts_iff h0 hroom).2 hwhole
  rw [hw] at hv
  cases hv
  unfold printf
  rw [Exec.bind_of_ok (Exec.get_apply _), Exec.bind_of_ok (Exec.set_apply _ _)]
  simp only [hrun after]
  unfold write
  rw [if_pos hle, Exec.modify_apply, htake]

/-- For every format and arguments that suit it: `sprintf` returns, reads nothing behind the zero of the format
and puts out the copied bytes and the texts, if and only if there is no `%` at the very end, no unknown
conversion behind a text, and no number that `itoa` does not return for. -/
theorem sprintf_formatted_iff {fmt buf strbuf : List UInt8} {ap : List Arg} (h0 : 0 ∉ fmt)
    (hsuits : Suits (directives fmt) ap)
    (h64 : strbuf.length = 64) (hroom : ∀ w, formatted (directives fmt) strbuf ap = some w → w.length < buf.length) :
    Formats fmt buf strbuf ap ↔ Meets true (directives fmt) ap :=
  (sprintf_texts_iff h0 hroom).trans (whole_iff _ (by simp) h64 hsuits)

/-- An unknown conversion in front of the known ones does no harm. -/
theorem sprintf_formatted_iff_unknown_first :
    Formats (chars "%q%d%%".toList) (List.replicate 16 0) (List.replicate 64 0) [.word 7] := by
  have htext : formatted (directives (chars "%q%d%%".toList)) (List.replicate 64 0) [.word 7] =
      some (chars "7%".toList) := by
    decide +kernel
  have hdirectives : directives (chars "%q%d%%".toList) = [.conversion 0x71, .conversion 0x64, .conversion 0x25] := by
    decide +kernel
  refine (sprintf_formatted_iff (by decide +kernel) ?_ rfl fun w hw => ?_).2 ?_
  · rw [hdirectives]
    simp [Suits, Supported]
  · rw [htext] at hw
    cases hw
    decide
  · rw [hdirectives]
    simp [Meets, Supported, Converts, int32]

/-- Behind a number an unknown conversion counts its length again, behind a `%` at the very end the
loop reads on, and a number of eight hexadecimal digits divides by zero. -/
theorem sprintf_wrong :
    ¬ Formats (chars "%d%q".toList) (List.replicate 16 0) (List.replicate 64 0) [.word 7] ∧
    ¬ Formats (chars "%".toList) (List.replicate 16 0) (List.replicate 64 0) [] ∧
    ¬ Formats (chars "%x".toList) (List.replicate 16 0) (List.replicate 64 0) [.word (2 ^ 28)] := by
  have hagain : sprintf (List.replicate 16 0) (List.replicate 64 0) (chars "%d%q".toList ++ [0]) [.word 7] =
      .ok (0x37 :: List.replicate 15 0, 2) := by rfl
  have htext : formatted (directives (chars "%d%q".toList)) (List.replicate 64 0) [.word 7] = some [0x37] :=
      by decide +kernel
  have hend : sprintf (List.replicate 16 0) (List.replicate 64 0) (chars "%".toList ++ [0]) [] =
      .error .outOfBounds := by rfl
  have hzero : sprintf (List.replicate 16 0) (List.replicate 64 0) (chars "%x".toList ++ [0]) [.word (2 ^ 28)] =
      .error .panic := by rfl
  refine ⟨?_, ?_, ?_⟩
  · rintro ⟨w, buf', length, hw, hrun, -, htake⟩
    have hsame := hagain.symm.trans (hrun [])
    cases hsame
    rw [htext] at hw
    cases hw
    exact absurd htake (by decide)
  · rintro ⟨w, buf', length, -, hrun, -⟩
    cases hend.symm.trans (hrun [])
  · rintro ⟨w, buf', length, -, hrun, -⟩
    cases hzero.symm.trans (hrun [])

end Ulmix.Stdlib

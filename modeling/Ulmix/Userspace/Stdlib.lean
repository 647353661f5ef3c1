import Ulmix.Lib.Exec
/-!
# Text output of the user library (`userspace/stdlib/string.c`, `printf.c`, `stdio.c`)

A string lies in an object, a list of bytes, and ends at the object's first
zero; reading or writing past the end of the object is a fault. `sprintf` looks
only at the character right behind a `%`. One it does not know is skipped, and
what would follow it in a standard directive is copied like any other text:
`visible` is what a format comes to when none of its directives is known.
-/
open Ulmix.Lib

namespace Ulmix.Stdlib

/-- The characters of a string, without the terminating zero. -/
def chars (s : List Char) : List UInt8 := s.map fun c => UInt8.ofNat c.toNat

/-- `s[i] = c` -/
def store (i : Nat) (c : UInt8) : Exec (List UInt8) Unit := do
  let s ← get
  if i < s.length then set (s.set i c) else Exec.fault .outOfBounds

/-- `s[i]` -/
def load (i : Nat) : Exec (List UInt8) UInt8 := do
  let s ← get
  match s[i]? with
  | some c => pure c
  | none => Exec.fault .outOfBounds

/-! ## `string.c` -/

/-- The distance from `i` to the first zero. -/
def strlen (i : Nat) : Exec (List UInt8) Nat := do
  let s ← get
  match (s.drop i).findIdx? (· = 0) with
  | some n => pure n
  | none => Exec.fault .outOfBounds

def reverse_loop : Nat → Nat → Nat → Exec (List UInt8) Unit
  | 0, _, _ => pure ()
  | fuel + 1, i, j => do
    if i < j then
      let c ← load i
      store i (← load j)
      store j c
      reverse_loop fuel (i + 1) (j - 1)
    else pure ()

def reverse : Exec (List UInt8) Unit := do
  let n ← strlen 0
  reverse_loop n 0 (n - 1)

/-- The loop of `strcat` over the bytes of the object `src` lies in: how many it has copied. -/
def strcat_loop : List UInt8 → Nat → Nat → Exec (List UInt8) Nat
  | [], _, _ => Exec.fault .outOfBounds
  | c :: src, dest, length => do
    if c ≠ 0 then
      store dest c
      strcat_loop src (dest + 1) (length + 1)
    else
      store dest 0
      pure length

def strcat (dest : Nat) (src : List UInt8) : Exec (List UInt8) Nat := do
  let skipped ← if (← load dest) ≠ 0 then strlen dest else pure 0
  strcat_loop src (dest + skipped) 0

/-- An `int` for what does not fit into one. -/
def int32 (n : Int) : Int := Int.bmod n (2 ^ 32)

theorem int32_range (n : Int) : -2 ^ 31 ≤ int32 n ∧ int32 n < 2 ^ 31 := by
  unfold int32
  have hlow := @Int.le_bmod n (2 ^ 32) (by decide)
  have hhigh := @Int.bmod_lt n (2 ^ 32) (by decide)
  omega

/-- `a / b`, which the processor refuses for the divisor zero and for a quotient that is no `int`. -/
def idiv (a b : Int) : Exec (List UInt8) Int :=
  if b = 0 ∨ (a = -2 ^ 31 ∧ b = -1) then Exec.fault .panic else pure (a.tdiv b)

/-- `a % b` -/
def imod (a b : Int) : Exec (List UInt8) Int :=
  if b = 0 ∨ (a = -2 ^ 31 ∧ b = -1) then Exec.fault .panic else pure (a.tmod b)

/-- A `char` for a number. -/
def char (n : Int) : UInt8 := UInt8.ofNat (n % 256).toNat

def get_letter (n : Int) : UInt8 := if n < 10 then char (0x30 + n) else char (0x61 - 10 + n)

/-- The loop of `itoa`: `buf` behind the last digit. Each round stores one, so there are
no more of them than bytes in the object. -/
def itoa_loop (n base : Int) : Nat → Int → Int → Nat → Exec (List UInt8) Nat
  | 0, _, _, _ => Exec.fault .diverges
  | fuel + 1, last_div, div, buf => do
    if (← idiv n last_div) ≠ 0 then
      let digit ← idiv (← imod n div) last_div
      store buf (get_letter digit)
      itoa_loop n base fuel div (int32 (div * base)) (buf + 1)
    else pure buf

/-- `itoa`, where the state is the object at `str`. -/
def itoa (n base : Int) : Exec (List UInt8) Unit := do
  if n = 0 then
    store 0 0x30
    store 1 0
  else
    if n < 0 then store 0 0x2d
    let str ← get
    let buf ← itoa_loop (if n < 0 then int32 (-n) else n) base (str.length + 1) 1 base (if n < 0 then 1 else 0)
    store buf 0
    reverse

/-- The number and the unit `strsize` shows. -/
def size_unit (n : Nat) : Nat × Char :=
  if n / (1024 * 1024 * 1024) > 0 then (n / (1024 * 1024 * 1024), 'G')
  else if n / (1024 * 1024) > 0 then (n / (1024 * 1024), 'M')
  else if n / 1024 > 0 then (n / 1024, 'K')
  else (n, 'B')

def strsize (n : Nat) : Exec (List UInt8) Unit := do
  itoa (int32 (size_unit n).1) 10
  let _ ← strcat 0 (chars [(size_unit n).2] ++ [0])

/-! ## `printf.c` -/

/-- An argument `va_arg` fetches: a word, or a pointer to a string in an object. -/
inductive Arg where
  | word (n : Nat)
  | string (s : List UInt8)
  deriving DecidableEq, Repr

/-- The variables of `sprintf`, with the object `buf` points into. -/
structure Sprintf where
  object : List UInt8
  /-- `buf` as it is moved on. -/
  buf : Nat
  length : Nat
  strbuf : List UInt8
  len : Nat
  ap : List Arg

namespace Sprintf

def onObject {α : Type} (x : Exec (List UInt8) α) : Exec Sprintf α :=
  Exec.zoom object (fun b o => { o with object := b }) x

def onStrbuf {α : Type} (x : Exec (List UInt8) α) : Exec Sprintf α :=
  Exec.zoom strbuf (fun b o => { o with strbuf := b }) x

end Sprintf

open Sprintf

/-- `va_arg(ap, int)` and `va_arg(ap, unsigned int)` -/
def va_word : Exec Sprintf Nat := do
  let o ← get
  match o.ap with
  | .word n :: ap =>
    set { o with ap := ap }
    pure n
  | _ => Exec.fault .outOfBounds

/-- `va_arg(ap, char*)` -/
def va_string : Exec Sprintf (List UInt8) := do
  let o ← get
  match o.ap with
  | .string s :: ap =>
    set { o with ap := ap }
    pure s
  | _ => Exec.fault .outOfBounds

/-- `len = strcat(buf, src)` -/
def append (src : List UInt8) : Exec Sprintf Unit := do
  let o ← get
  let len ← onObject (strcat o.buf src)
  modify fun o => { o with len := len }

/-- `len = strcat(buf, itoa(n, strbuf, base))` -/
def append_itoa (n base : Int) : Exec Sprintf Unit := do
  onStrbuf (itoa n base)
  append (← get).strbuf

/-- The `switch` of `sprintf`. -/
def directive (c : UInt8) : Exec Sprintf Unit := do
  if c = 0x64 then append_itoa (int32 (← va_word)) 10
  else if c = 0x73 then append (← va_string)
  else if c = 0x78 ∨ c = 0x58 then append_itoa (int32 (← va_word)) 16
  else if c = 0x53 then
    let n ← va_word
    onStrbuf (strsize n)
    append (← get).strbuf
  else if c = 0x25 then
    let o ← get
    onObject (store o.buf 0x25)
    modify fun o => { o with len := 1 }
  else pure ()

/-- The loop of `sprintf`, over the rest of the object that `format` lies in. Behind a `%`
at its very end the loop goes on past the terminating zero. -/
def sprintf_loop : List UInt8 → Exec Sprintf Unit
  | [] => Exec.fault .outOfBounds
  | [c] => if c = 0 then pure () else Exec.fault .outOfBounds
  | c :: d :: rest =>
    if c = 0 then pure ()
    else if c = 0x25 then do
      let o ← get
      onObject (store o.buf 0)
      directive d
      modify fun o => { o with length := o.length + o.len, buf := o.buf + o.len }
      sprintf_loop rest
    else do
      let o ← get
      onObject (store o.buf c)
      modify fun o => { o with buf := o.buf + 1, length := o.length + 1 }
      sprintf_loop (d :: rest)

/-- `sprintf`: what the buffer holds then, and the length returned. -/
def sprintf (buf strbuf format : List UInt8) (ap : List Arg) : Except Fault (List UInt8 × Nat) :=
  match (do onObject (store 0 0); sprintf_loop format) ⟨buf, 0, 0, strbuf, 0, ap⟩ with
  | .ok (_, o) => .ok (o.object, o.length)
  | .error e => .error e

/-! ## `stdio.c` -/

/-- A process with a file it reads: what is left of the file and what was written. -/
structure Process where
  file : List UInt8
  stdout : List UInt8
  /-- How often `printf` was called. -/
  printfs : Nat

def write (buf : List UInt8) (len : Nat) : Exec Process Unit :=
  if len ≤ buf.length then modify fun s => { s with stdout := s.stdout ++ buf.take len }
  else Exec.fault .outOfBounds

def putchar (c : UInt8) : Exec Process Unit := write [c] 1

/-- `printf`; `stack` tells what the local arrays hold before they are written, for each call. -/
def printf (stack : Nat → Nat → UInt8) (format : List UInt8) (args : List Arg) : Exec Process Unit := do
  let s ← get
  set { s with printfs := s.printfs + 1 }
  match sprintf ((List.range 256).map (stack s.printfs)) ((List.range' 256 64).map (stack s.printfs)) format args with
  | .ok (buf, len) => write buf len
  | .error e => Exec.fault e

/-! ## Formats without a known directive -/

/-- The characters that `sprintf` knows behind a `%`. -/
def Supported (c : UInt8) : Prop := c = 0x64 ∨ c = 0x73 ∨ c = 0x78 ∨ c = 0x58 ∨ c = 0x53 ∨ c = 0x25

instance (c : UInt8) : Decidable (Supported c) := by unfold Supported; infer_instance

/-- What `sprintf` makes of a format none of whose directives it knows. -/
def visible : List UInt8 → Option (List UInt8)
  | [] => none
  | [c] => if c = 0 then some [] else none
  | c :: d :: rest =>
    if c = 0 then some []
    else if c = 0x25 then (if Supported d then none else visible rest)
    else (visible (d :: rest)).map (c :: ·)

theorem directive_skipped {c : UInt8} (h : ¬ Supported c) : directive c = pure () := by
  unfold Supported at h
  unfold directive
  grind

theorem onObject_store {o : Sprintf} {i : Nat} {c : UInt8} (h : i < o.object.length) :
    onObject (store i c) o = .ok ((), { o with object := o.object.set i c }) := by
  apply Exec.zoom_of_ok
  unfold store
  rw [Exec.bind_of_ok (Exec.get_apply _), if_pos h]
  rfl

/-- With no known directive in the format, `sprintf` puts `visible` behind what is there. -/
theorem sprintf_loop_visible {fmt w : List UInt8} (hw : visible fmt = some w) {o : Sprintf} (hlen : o.len = 0)
    (hbuf : o.buf = o.length) (hroom : o.length + w.length < o.object.length) :
    ∃ o', sprintf_loop fmt o = .ok ((), o') ∧ o'.length = o.length + w.length ∧
      o'.object.length = o.object.length ∧
      o'.object.take o'.length = o.object.take o.length ++ w := by
  induction fmt using visible.induct generalizing o w with
  | case1 => simp [visible] at hw
  | case2 =>
    simp only [visible, if_pos, Option.some.injEq] at hw
    subst hw
    exact ⟨o, rfl, by simp, rfl, by simp⟩
  | case3 c hc => simp [visible, hc] at hw
  | case4 d rest =>
    simp only [visible, if_pos, Option.some.injEq] at hw
    subst hw
    exact ⟨o, rfl, by simp, rfl, by simp⟩
  | case5 d rest hd => simp [visible, hd] at hw
  | case6 d rest hd _ ih =>
    have hv : visible rest = some w := by simpa [visible, hd] using hw
    have h0 : o.buf < o.object.length := by omega
    obtain ⟨o', hrun, hl, hol, htake⟩ := ih hv
      (o := { o with object := o.object.set o.buf 0 }) hlen hbuf (by simpa using hroom)
    refine ⟨o', ?_, hl, by simpa using hol, ?_⟩
    · rw [sprintf_loop, if_neg (by decide), if_pos rfl, Exec.bind_of_ok (Exec.get_apply _),
        Exec.bind_of_ok (onObject_store h0), directive_skipped hd, Exec.bind_of_ok (Exec.pure_apply _ _),
        Exec.bind_of_ok (Exec.modify_apply _ _)]
      simpa only [hlen, Nat.add_zero] using hrun
    · rw [htake]
      simp only [List.take_set_of_le (Nat.le_of_eq hbuf.symm)]
  | case7 c d rest h0 hp ih =>
    obtain ⟨v, hv, rfl⟩ : ∃ v, visible (d :: rest) = some v ∧ c :: v = w := by simpa [visible, h0, hp] using hw
    simp only [List.length_cons] at hroom
    have h1 : o.buf < o.object.length := by omega
    obtain ⟨o', hrun, hl, hol, htake⟩ := ih hv
      (o := { o with object := o.object.set o.buf c, buf := o.buf + 1, length := o.length + 1 })
      hlen (by simpa using hbuf) (by simp only [List.length_set]; omega)
    refine ⟨o', ?_, by rw [hl]; simp only [List.length_cons]; omega, by simpa using hol, ?_⟩
    · rw [sprintf_loop, if_neg h0, if_neg hp, Exec.bind_of_ok (Exec.get_apply _),
        Exec.bind_of_ok (onObject_store h1), Exec.bind_of_ok (Exec.modify_apply _ _)]
      exact hrun
    · rw [htake]
      have hlt : o.length < o.object.length := by omega
      simp [hbuf, List.take_add_one, List.take_set_of_le, hlt]

theorem sprintf_visible {buf strbuf fmt w : List UInt8} (hw : visible fmt = some w) (hroom : w.length < buf.length)
    (ap : List Arg) : ∃ buf', sprintf buf strbuf fmt ap = .ok (buf', w.length) ∧
      buf'.length = buf.length ∧ buf'.take w.length = w := by
  have h0 : 0 < buf.length := by omega
  obtain ⟨o', hrun, hl, hol, htake⟩ := sprintf_loop_visible hw
    (o := ⟨buf.set 0 0, 0, 0, strbuf, 0, ap⟩) rfl rfl (by simpa using hroom)
  simp only [Nat.zero_add, List.length_set, List.take_zero, List.nil_append] at hl hol htake
  refine ⟨o'.object, ?_, hol, by rw [← hl]; exact htake⟩
  unfold sprintf
  rw [Exec.bind_of_ok (onObject_store (by exact h0)), hrun]
  simp [hl]

/-! ## What a program prints -/

/-- `x` returns and writes `w`, and does nothing else to the file and the output. -/
def Prints (x : Exec Process Unit) (w : List UInt8) : Prop :=
  ∀ s, ∃ n, x s = .ok ((), { s with stdout := s.stdout ++ w, printfs := n })

namespace Prints

theorem pure : Prints (Pure.pure ()) [] := fun s => ⟨s.printfs, by simp⟩

theorem bind {x y : Exec Process Unit} {v w : List UInt8} (hx : Prints x v) (hy : Prints y w) :
    Prints (x >>= fun _ => y) (v ++ w) := by
  intro s
  obtain ⟨n, hn⟩ := hx s
  obtain ⟨m, hm⟩ := hy { s with stdout := s.stdout ++ v, printfs := n }
  refine ⟨m, ?_⟩
  rw [Exec.bind_of_ok hn, hm, List.append_assoc]

theorem ite {p : Prop} [Decidable p] {x y : Exec Process Unit} {v w : List UInt8} (hx : Prints x v) (hy : Prints y w) :
    Prints (if p then x else y) (if p then v else w) := by
  by_cases hp : p
  · rwa [if_pos hp, if_pos hp]
  · rwa [if_neg hp, if_neg hp]

theorem when {p : Prop} [Decidable p] {x : Exec Process Unit} {w : List UInt8} (hx : Prints x w) :
    Prints (if p then x else Pure.pure ()) (if p then w else []) := hx.ite pure

theorem forM {α : Type} (l : List α) {f : α → Exec Process Unit} {w : α → List UInt8} (h : ∀ a, Prints (f a) (w a)) :
    Prints (l.forM f) (l.flatMap w) := by
  induction l with
  | nil => exact pure
  | cons a l ih =>
    rw [List.forM, List.flatMap_cons]
    exact (h a).bind ih

end Prints

theorem write_prints (w : List UInt8) {buf : List UInt8} {len : Nat} (h : len ≤ buf.length) (hw : buf.take len = w) :
    Prints (write buf len) w := by
  intro s
  refine ⟨s.printfs, ?_⟩
  unfold write
  rw [if_pos h, Exec.modify_apply, hw]

theorem putchar_prints (c : UInt8) : Prints (putchar c) [c] := write_prints [c] (by simp) rfl

/-- A format without a known directive is printed without its arguments. -/
theorem printf_prints (stack : Nat → Nat → UInt8) {fmt w : List UInt8} (hw : visible fmt = some w) (h : w.length < 256)
    (args : List Arg) : Prints (printf stack fmt args) w := by
  intro s
  obtain ⟨buf, hrun, hlen, htake⟩ : ∃ buf, sprintf ((List.range 256).map (stack s.printfs))
      ((List.range' 256 64).map (stack s.printfs)) fmt args = .ok (buf, w.length) ∧
      buf.length = ((List.range 256).map (stack s.printfs)).length ∧ buf.take w.length = w :=
    sprintf_visible hw (by simpa using h) args
  unfold printf
  rw [Exec.bind_of_ok (Exec.get_apply _), Exec.bind_of_ok (Exec.set_apply _ _), hrun]
  exact write_prints w (by simp only [hlen, List.length_map, List.length_range]; omega) htake _

end Ulmix.Stdlib

import Ulmix.Userspace.Stdlib
/-!
# The dump of a file (`userspace/hexdump/hexdump.c`)

`main` prints the address of each chunk with `0x%08lx` and each byte with
`%02x`. `sprintf` knows neither directive, so the lines show `8lx` for an
address and `2x` for a byte (`shown_line`) where `meant_line` would have the
digits, and the column of characters at the end is all they tell of a file
(`dump_column`). `hexdump_faithful` says which files are dumped the way they
should be, and which can at least be told from every other file.
-/
open Ulmix.Lib Ulmix.Stdlib

namespace Ulmix.Hexdump

/-! ## The program -/

def fmtArguments : List UInt8 :=
  chars ['h', 'e', 'x', 'd', 'u', 'm', 'p', ':', ' ', 'e', 'r', 'r', 'o', 'r', ':', ' ', 't', 'o', 'o', ' ',
    'f', 'e', 'w', ' ', 'a', 'r', 'g', 'u', 'm', 'e', 'n', 't', 's', '\n'] ++ [0]

def fmtErrno : List UInt8 :=
  chars ['h', 'e', 'x', 'd', 'u', 'm', 'p', ':', ' ', 'e', 'r', 'r', 'n', 'o', ' ', '%', 'd', ':', ' ',
    'c', 'a', 'n', 'n', 'o', 't', ' ', 'o', 'p', 'e', 'n', ' ', 'f', 'i', 'l', 'e', '\n'] ++ [0]

def fmtAddress : List UInt8 := chars ['0', 'x', '%', '0', '8', 'l', 'x', ':', ' ', ' '] ++ [0]

def fmtByte : List UInt8 := chars ['%', '0', '2', 'x', ' '] ++ [0]

def fmtBlank : List UInt8 := chars [' ', ' ', ' '] ++ [0]

/-- The character `print_ascii` shows for a byte. -/
def column (b : UInt8) : UInt8 := if 32 ≤ b ∧ b < 127 then b else 0x2e

def print_ascii (buf : List UInt8) (len : Nat) : Exec Process Unit := do
  putchar 0x20
  putchar 0x7c
  (List.range len).forM fun i => putchar (column (buf.getD i 0))
  putchar 0x7c
  putchar 0x0a

/-- `read` of at most `n` bytes. -/
def read (n : Nat) : Exec Process (List UInt8) := do
  let s ← get
  set { s with file := s.file.drop n }
  pure (s.file.take n)

/-- What `main` prints for the `len` bytes in `buf`. -/
def print_line (stack : Nat → Nat → UInt8) (offset : Nat) (buf : List UInt8) (len : Nat) : Exec Process Unit := do
  printf stack fmtAddress [.word offset]
  (List.range len).forM fun i => do
    printf stack fmtByte [.word (buf.getD i 0).toNat]
    if i = 7 then putchar 0x20 else pure ()
  (List.range (16 - len)).forM fun _ => printf stack fmtBlank []
  (if len < 8 then putchar 0x20 else pure ())
  print_ascii buf len

/-- The loop in `main`; every round but the last takes bytes from the file. -/
def main_loop (stack : Nat → Nat → UInt8) : Nat → List UInt8 → Nat → Exec Process Unit
  | 0, _, _ => Exec.fault .diverges
  | fuel + 1, buf, offset => do
    let chunk ← read 16
    if 0 < chunk.length then do
      let buf := chunk ++ buf.drop chunk.length
      print_line stack offset buf chunk.length
      if chunk.length < 16 then pure ()
      else main_loop stack fuel buf ((offset + 16) % 2 ^ 32)
    else pure ()

/-- `main`, where `open` returns `fd` and leaves `errno`, and `garbage` is what `buf` holds at first. -/
def main (stack : Nat → Nat → UInt8) (garbage : List UInt8) (argc fd : Int) (errno : Nat) : Exec Process Int := do
  if argc < 2 then
    printf stack fmtArguments []
    pure 1
  else if fd < 0 then
    printf stack fmtErrno [.word errno]
    pure 1
  else
    let s ← get
    main_loop stack (s.file.length + 1) garbage 0
    pure 0

/-- What `hexdump` writes for a file it can open. -/
def output (stack : Nat → Nat → UInt8) (garbage file : List UInt8) : Option (List UInt8) :=
  match main stack garbage 2 3 0 ⟨file, [], 0⟩ with
  | .ok (_, s) => some s.stdout
  | .error _ => none

/-! ## A line -/

/-- The text of a line with `address` at its beginning and `byte b` for a byte. -/
def line (address : List UInt8) (byte : UInt8 → List UInt8) (chunk : List UInt8) : List UInt8 :=
  address ++ (List.range chunk.length).flatMap (fun i => byte (chunk.getD i 0) ++ if i = 7 then [0x20] else []) ++
    (List.range (16 - chunk.length)).flatMap (fun _ => [0x20, 0x20, 0x20]) ++
    (if chunk.length < 8 then [0x20] else []) ++ [0x20, 0x7c] ++ chunk.map column ++ [0x7c, 0x0a]

/-- The line as it comes out. -/
def shown_line (_offset : Nat) (chunk : List UInt8) : List UInt8 :=
  line (chars ['0', 'x', '8', 'l', 'x', ':', ' ', ' ']) (fun _ => chars ['2', 'x', ' ']) chunk

/-- The digit of `n` with the weight `16 ^ k`. -/
def hexDigit (n k : Nat) : UInt8 :=
  let d := n / 16 ^ k % 16
  UInt8.ofNat (if d < 10 then 0x30 + d else 0x61 - 10 + d)

/-- `n` in hexadecimal with `width` digits, what `%0…x` stands for. -/
def hex (width n : Nat) : List UInt8 := (List.range width).reverse.map (hexDigit n)

/-- The line as the formats mean it. -/
def meant_line (offset : Nat) (chunk : List UInt8) : List UInt8 :=
  line (chars ['0', 'x'] ++ hex 8 offset ++ chars [':', ' ', ' ']) (fun b => hex 2 b.toNat ++ chars [' ']) chunk

/-- The lines for the chunks of `file`, the first of them at `offset`. -/
def lines (line : Nat → List UInt8 → List UInt8) : Nat → Nat → List UInt8 → List UInt8
  | 0, _, _ => []
  | n + 1, offset, file =>
    if file = [] then [] else line offset (file.take 16) ++ lines line n (offset + 16) (file.drop 16)

/-- The text of a whole file. -/
def text (line : Nat → List UInt8 → List UInt8) (file : List UInt8) : List UInt8 := lines line file.length 0 file

/-- What `hexdump` should print. -/
def listing (file : List UInt8) : List UInt8 := text meant_line file

/-- What it prints. -/
def dump (file : List UInt8) : List UInt8 := text shown_line file

example : listing [0x41, 0x0a] = chars ['0', 'x', '0', '0', '0', '0', '0', '0', '0', '0', ':', ' ', ' ', '4', '1',
    ' ', '0', 'a', ' ']
    ++ List.replicate 43 0x20 ++ chars [' ', '|', 'A', '.', '|', '\n'] := by decide

/-! ## What is printed -/

theorem print_ascii_prints (chunk rest : List UInt8) :
    Prints (print_ascii (chunk ++ rest) chunk.length) ([0x20, 0x7c] ++ chunk.map column ++ [0x7c, 0x0a]) := by
  have hcolumn : (List.range chunk.length).flatMap (fun i => [column ((chunk ++ rest).getD i 0)]) =
      chunk.map column := by
    rw [← List.map_eq_flatMap]
    apply List.ext_getElem (by simp)
    intro i hi _
    simp only [List.length_map, List.length_range] at hi
    simp [List.getElem?_append_left hi, hi]
  have h := ((putchar_prints 0x20).bind ((putchar_prints 0x7c).bind
    ((Prints.forM (List.range chunk.length) fun i => putchar_prints (column ((chunk ++ rest).getD i 0))).bind
      ((putchar_prints 0x7c).bind (putchar_prints 0x0a)))))
  rw [hcolumn] at h
  simpa [print_ascii] using h

theorem visible_fmtAddress : visible fmtAddress = some (chars ['0', 'x', '8', 'l', 'x', ':', ' ', ' ']) := by decide

theorem visible_fmtByte : visible fmtByte = some (chars ['2', 'x', ' ']) := by decide

theorem visible_fmtBlank : visible fmtBlank = some [0x20, 0x20, 0x20] := by decide

theorem print_data_prints (stack : Nat → Nat → UInt8) (chunk rest : List UInt8) :
    Prints ((List.range chunk.length).forM fun i => do
        printf stack fmtByte [.word ((chunk ++ rest).getD i 0).toNat]
        if i = 7 then putchar 0x20 else pure ())
      ((List.range chunk.length).flatMap fun i => chars ['2', 'x', ' '] ++ if i = 7 then [0x20] else []) := by
  apply Prints.forM
  intro i
  exact (printf_prints stack visible_fmtByte (by decide) _).bind (putchar_prints 0x20).when

theorem print_line_prints (stack : Nat → Nat → UInt8) (offset : Nat) (chunk rest : List UInt8) :
    Prints (print_line stack offset (chunk ++ rest) chunk.length) (shown_line offset chunk) := by
  have haddress := printf_prints stack visible_fmtAddress (by decide) [.word offset]
  have hblank := Prints.forM (List.range (16 - chunk.length)) fun _ =>
    printf_prints stack visible_fmtBlank (by decide) []
  have hgap := (putchar_prints 0x20).when (p := chunk.length < 8)
  have h := haddress.bind ((print_data_prints stack chunk rest).bind
    (hblank.bind (hgap.bind (print_ascii_prints chunk rest))))
  unfold print_line shown_line line
  simp only [List.append_assoc] at h ⊢
  exact h

/-- The loop prints the lines that are shown, whatever `buf` holds and wherever it starts. -/
theorem main_loop_prints (stack : Nat → Nat → UInt8) {n : Nat} {buf : List UInt8} {offset offset' : Nat} {s : Process}
    (hn : s.file.length ≤ n) : ∃ s', main_loop stack (n + 1) buf offset s = .ok ((), s') ∧
      s'.stdout = s.stdout ++ lines shown_line n offset' s.file := by
  induction n generalizing s buf offset offset' with
  | zero =>
    have hf : s.file = [] := List.length_eq_zero_iff.mp (by omega)
    have hread : read 16 s = .ok ([], { s with file := [] }) := by
      unfold read
      rw [Exec.bind_of_ok (Exec.get_apply _), hf]
      rfl
    refine ⟨_, (Exec.bind_of_ok hread).trans rfl, by simp [lines]⟩
  | succ n ih =>
    have hread : read 16 s = .ok (s.file.take 16, { s with file := s.file.drop 16 }) := rfl
    rw [main_loop, Exec.bind_of_ok hread]
    by_cases hf : s.file = []
    · refine ⟨{ s with file := s.file.drop 16 }, ?_, by simp [lines, hf]⟩
      rw [if_neg (by simp [hf])]
      rfl
    · have hpos : 0 < (s.file.take 16).length := by
        have := List.length_pos_iff.mpr hf
        simp only [List.length_take]
        omega
      obtain ⟨k, hk⟩ := print_line_prints stack offset (s.file.take 16) (buf.drop (s.file.take 16).length)
        { s with file := s.file.drop 16 }
      rw [if_pos hpos, Exec.bind_of_ok hk, lines, if_neg hf]
      by_cases hlast : (s.file.take 16).length < 16
      · rw [if_pos hlast]
        refine ⟨_, rfl, ?_⟩
        have hdrop : s.file.drop 16 = [] := by
          rw [List.length_take] at hlast
          exact List.drop_eq_nil_of_le (by omega)
        cases n <;> simp [hdrop, lines, shown_line]
      · rw [if_neg hlast]
        obtain ⟨s', hs', hout⟩ : ∃ s', main_loop stack (n + 1) (s.file.take 16 ++ buf.drop (s.file.take 16).length)
              ((offset + 16) % 2 ^ 32) ⟨s.file.drop 16, s.stdout ++ shown_line offset (s.file.take 16), k⟩ =
                .ok ((), s') ∧
            s'.stdout = (s.stdout ++ shown_line offset (s.file.take 16)) ++
              lines shown_line n (offset' + 16) (s.file.drop 16) := ih (by simp only [List.length_drop]; omega)
        refine ⟨s', hs', ?_⟩
        rw [hout, List.append_assoc]
        rfl

theorem output_eq (stack : Nat → Nat → UInt8) (garbage file : List UInt8) :
    output stack garbage file = some (dump file) := by
  obtain ⟨s', hs', hout⟩ : ∃ s', main_loop stack (file.length + 1) garbage 0 ⟨file, [], 0⟩ = .ok ((), s') ∧
      s'.stdout = [] ++ lines shown_line file.length 0 file := main_loop_prints stack (Nat.le_refl _)
  have hmain : main stack garbage 2 3 0 ⟨file, [], 0⟩ = .ok (0, s') := by
    unfold main
    rw [if_neg (by decide), if_neg (by decide), Exec.bind_of_ok (Exec.get_apply _), Exec.bind_of_ok hs']
    rfl
  unfold output
  rw [hmain]
  exact congrArg some hout

/-! ## What it tells of a file -/

/-- A byte the last column shows as it is and shows for no other. -/
def Shown (b : UInt8) : Prop := 32 ≤ b ∧ b < 127 ∧ b ≠ 0x2e

theorem eq_of_column {b c : UInt8} (hb : Shown b) (h : column c = column b) : c = b := by
  obtain ⟨h32, h127, hdot⟩ := hb
  unfold column at h
  rw [if_pos (show 32 ≤ b ∧ b < 127 from ⟨h32, h127⟩)] at h
  split at h
  · exact h
  · exact absurd h.symm hdot

/-- For a byte that is not shown there is another one that looks the same. -/
theorem exists_same_column {b : UInt8} (hb : ¬ Shown b) : ∃ c, c ≠ b ∧ column c = column b := by
  by_cases hdot : b = 0x2e
  · exact ⟨0, by rw [hdot]; decide, by rw [hdot]; decide⟩
  · refine ⟨0x2e, Ne.symm hdot, ?_⟩
    have hp : ¬ (32 ≤ b ∧ b < 127) := fun h => hb ⟨h.1, h.2, hdot⟩
    unfold column
    rw [if_neg hp, if_pos (by decide)]

/-- A line up to the last column, for a chunk of `n` bytes. -/
def shown_head (n : Nat) : List UInt8 :=
  chars ['0', 'x', '8', 'l', 'x', ':', ' ', ' '] ++
    (List.range n).flatMap (fun i => chars ['2', 'x', ' '] ++ if i = 7 then [0x20] else []) ++
    (List.range (16 - n)).flatMap (fun _ => [0x20, 0x20, 0x20]) ++ (if n < 8 then [0x20] else []) ++ [0x20, 0x7c]

theorem shown_line_eq (offset : Nat) (chunk : List UInt8) :
    shown_line offset chunk = (shown_head chunk.length ++ (chunk.map column ++ [0x7c])) ++ [0x0a] := by
  simp only [shown_line, line, shown_head, List.append_assoc, List.cons_append, List.nil_append]

theorem shown_head_length : ∀ n ≤ 16, (shown_head n).length = 59 := by decide

theorem shown_head_newline : ∀ n ≤ 16, 0x0a ∉ shown_head n := by decide

theorem column_newline (b : UInt8) : column b ≠ 0x0a := by
  intro h
  unfold column at h
  split at h
  · rename_i hp
    rw [h] at hp
    exact absurd hp (by decide)
  · exact absurd h (by decide)

/-- The first line of a text, and what comes behind it. -/
theorem newline_inj {l l' r r' : List UInt8} (hl : 0x0a ∉ l) (hl' : 0x0a ∉ l')
    (h : l ++ [0x0a] ++ r = l' ++ [0x0a] ++ r') : l = l' ∧ r = r' := by
  have htake (x y : List UInt8) (hx : 0x0a ∉ x) : (x ++ [0x0a] ++ y).takeWhile (· ≠ 0x0a) = x := by
    rw [List.append_assoc, List.takeWhile_append_of_pos (fun a ha => by simpa using fun h : a = 0x0a => hx (h ▸ ha))]
    simp
  have hll : l = l' := by rw [← htake l r hl, h, htake l' r' hl']
  subst hll
  exact ⟨rfl, List.append_cancel_left h⟩

/-- Two chunks whose lines begin two equal texts have the same last column. -/
theorem shown_line_inj {offset offset' : Nat} {c c' r r' : List UInt8} (hc : c.length ≤ 16) (hc' : c'.length ≤ 16)
    (h : shown_line offset c ++ r = shown_line offset' c' ++ r') : c.map column = c'.map column ∧ r = r' := by
  have hnew (d : List UInt8) (hd : d.length ≤ 16) :
      0x0a ∉ shown_head d.length ++ (d.map column ++ [0x7c]) := by
    simp only [List.mem_append, List.mem_map, not_or]
    refine ⟨shown_head_newline _ hd, ?_, by decide⟩
    rintro ⟨b, -, hb⟩
    exact column_newline b hb
  rw [shown_line_eq, shown_line_eq] at h
  obtain ⟨hbody, hrest⟩ := newline_inj (hnew c hc) (hnew c' hc') h
  have hlen : (shown_head c.length).length = (shown_head c'.length).length := by
    rw [shown_head_length _ hc, shown_head_length _ hc']
  exact ⟨List.append_cancel_right (List.append_inj hbody hlen).2, hrest⟩

theorem shown_line_congr {c c' : List UInt8} (h : c.map column = c'.map column) (offset offset' : Nat) :
    shown_line offset c = shown_line offset' c' := by
  have hlen : c.length = c'.length := by simpa using congrArg List.length h
  rw [shown_line_eq, shown_line_eq, h, hlen]

theorem lines_congr {n : Nat} {f g : List UInt8} (h : f.map column = g.map column) (offset offset' : Nat) :
    lines shown_line n offset f = lines shown_line n offset' g := by
  induction n generalizing f g offset offset' with
  | zero => rfl
  | succ n ih =>
    have hnil : f = [] ↔ g = [] := by
      rw [← List.map_eq_nil_iff (f := column), h, List.map_eq_nil_iff]
    have htake : (f.take 16).map column = (g.take 16).map column := by rw [List.map_take, List.map_take, h]
    have hdrop : (f.drop 16).map column = (g.drop 16).map column := by rw [List.map_drop, List.map_drop, h]
    simp only [lines, hnil, shown_line_congr htake offset offset', ih hdrop (offset + 16) (offset' + 16)]

theorem lines_inj {n m : Nat} {f g : List UInt8} {offset offset' : Nat} (hf : f.length ≤ n) (hg : g.length ≤ m)
    (h : lines shown_line n offset f = lines shown_line m offset' g) : f.map column = g.map column := by
  have hnil (k o : Nat) (e : List UInt8) (hk : e.length ≤ k) (he : lines shown_line k o e = []) : e = [] := by
    cases k with
    | zero => exact List.length_eq_zero_iff.mp (by omega)
    | succ k =>
      by_contra hne
      simp [lines, hne, shown_line_eq] at he
  induction n generalizing f g m offset offset' with
  | zero =>
    have hf0 : f = [] := List.length_eq_zero_iff.mp (by omega)
    rw [hf0, hnil m offset' g hg h.symm]
  | succ n ih =>
    by_cases hf0 : f = []
    · rw [hf0, hnil m offset' g hg (by rw [← h, hf0]; rfl)]
    · by_cases hg0 : g = []
      · exact absurd (hnil (n + 1) offset f hf (by rw [h, hg0]; cases m <;> rfl)) hf0
      · obtain ⟨m, rfl⟩ : ∃ k, m = k + 1 := by
          have := List.length_pos_iff.mpr hg0
          exact ⟨m - 1, by omega⟩
        rw [lines, lines, if_neg hf0, if_neg hg0] at h
        obtain ⟨hcol, hrest⟩ := shown_line_inj (by simp) (by simp) h
        have hih := ih (by simp only [List.length_drop]; omega) (by simp only [List.length_drop]; omega) hrest
        rw [← List.take_append_drop 16 f, ← List.take_append_drop 16 g, List.map_append, List.map_append, hcol, hih]

/-- Two files are dumped alike when the last column is the same all through. -/
theorem dump_column {f g : List UInt8} : dump f = dump g ↔ f.map column = g.map column := by
  constructor
  · exact lines_inj (Nat.le_refl _) (Nat.le_refl _)
  · intro h
    have hlen : f.length = g.length := by simpa using congrArg List.length h
    unfold dump text
    rw [hlen]
    exact lines_congr h 0 0

theorem dump_ne_listing {f : List UInt8} (hf : f ≠ []) : dump f ≠ listing f := by
  intro h
  obtain ⟨n, hn⟩ : ∃ n, f.length = n + 1 := by
    have := List.length_pos_iff.mpr hf
    exact ⟨f.length - 1, by omega⟩
  have haddress : hex 8 0 = chars ['0', '0', '0', '0', '0', '0', '0', '0'] := by decide
  have h2 := congrArg (·[2]?) h
  simp [dump, listing, text, hn, lines, hf, shown_line, meant_line, line, haddress, chars] at h2

/-- The file is dumped as the formats mean it. -/
def Listed (stack : Nat → Nat → UInt8) (garbage file : List UInt8) : Prop :=
  output stack garbage file = some (listing file)

/-- No other file has the same dump. -/
def Determined (stack : Nat → Nat → UInt8) (garbage file : List UInt8) : Prop :=
  ∀ stack' garbage' other, output stack' garbage' other = output stack garbage file → other = file

/-- Only the empty file is dumped as it should be. A dump can be told from those of all other
files when the last column shows every byte. -/
theorem hexdump_faithful (stack : Nat → Nat → UInt8) (garbage file : List UInt8) :
    ((Listed stack garbage file ∧ Determined stack garbage file) ↔ file = []) ∧
      (Determined stack garbage file ↔ ∀ b ∈ file, Shown b) := by
  have hdet : Determined stack garbage file ↔ ∀ b ∈ file, Shown b := by
    unfold Determined
    simp only [output_eq, Option.some.injEq, dump_column, forall_const]
    constructor
    · intro h b hb
      by_contra hshown
      obtain ⟨c, hne, hcol⟩ := exists_same_column hshown
      obtain ⟨l, r, rfl⟩ := List.append_of_mem hb
      have := h (l ++ c :: r) (by simp [hcol])
      simp only [List.append_cancel_left_eq, List.cons.injEq, and_true] at this
      exact hne this
    · intro h other hcol
      apply List.ext_getElem (by simpa using congrArg List.length hcol)
      intro i hi hi'
      apply eq_of_column (h _ (List.getElem_mem hi'))
      simpa [hi, hi'] using congrArg (·[i]?) hcol
  refine ⟨⟨?_, ?_⟩, hdet⟩
  · rintro ⟨hlisted, -⟩
    by_contra hf
    rw [Listed, output_eq] at hlisted
    exact dump_ne_listing hf (Option.some.inj hlisted)
  · intro hf
    refine ⟨?_, hdet.mpr (by simp [hf])⟩
    rw [Listed, output_eq, hf]
    rfl

/-- The files with the one byte `0` and the one byte `1` have the same dump. -/
theorem hexdump_conflates :
    output (fun _ _ => 0) [] [0x00] = some (dump [0x00]) ∧ output (fun _ _ => 0) [] [0x01] = some (dump [0x00]) ∧
      ¬ Determined (fun _ _ => 0) [] [0x00] := by
  have h0 := output_eq (fun _ _ => 0) [] [0x00]
  have h1 : output (fun _ _ => 0) [] [0x01] = some (dump [0x00]) := by
    rw [output_eq, (dump_column (f := [0x01]) (g := [0x00])).mpr (by decide)]
  refine ⟨h0, h1, fun h => ?_⟩
  have := h (fun _ _ => 0) [] [0x01] (h1.trans h0.symm)
  exact absurd this (by decide)

end Ulmix.Hexdump

import Ulmix.Lib.Exec
/-!
# The shell (`userspace/ushell/ushell.c`)

`getline` fills a table with the words of a line, and `main` points the slots of
`execve_argv` to them. Table and slots are used again for the next line. A last
word `&` gets no slot, but the terminator is written behind the place where it
would be: the slot in between keeps what an earlier command left there.

So what a command is given depends on the commands before it (`fills`), and
`shell_vectors` says for a whole session which commands are given their words.
-/
open Ulmix.Lib

namespace Ulmix.Shell

def ARG_LENGTH : Nat := 64
def ARG_MAX : Nat := 16

/-- `EOF`, as the `char` that `getchar` returns. -/
def EOF : UInt8 := 0xff

def space : UInt8 := 0x20
def newline : UInt8 := 0x0a

/-! ## The program -/

/-- A slot of `execve_argv`: never written, `NULL`, or `argvp[i]`. -/
inductive Slot where
  | uninit
  | null
  | word (i : Nat)
  deriving DecidableEq, Repr

/-- A call of `execve`: the table and the slots as the child has them. -/
structure Call where
  argvp : Nat → Nat → UInt8
  argv : Nat → Slot

structure State where
  argvp : Nat → Nat → UInt8
  execve_argv : Nat → Slot
  /-- What is still to be read. -/
  stdin : List UInt8
  forks : Nat
  execs : List Call

/-- The table with `c` in byte `i`: behind the end of a row the next one begins. -/
def put_char (argvp : Nat → Nat → UInt8) (i : Nat) (c : UInt8) : Nat → Nat → UInt8 :=
  Function.update argvp (i / ARG_MAX) (Function.update (argvp (i / ARG_MAX)) (i % ARG_MAX) c)

/-- `argv[argc][argc_ind] = c` -/
def store_char (argc argc_ind : Nat) (c : UInt8) : Exec State Unit :=
  if argc * ARG_MAX + argc_ind < ARG_LENGTH * ARG_MAX then
    modify fun s => { s with argvp := put_char s.argvp (argc * ARG_MAX + argc_ind) c }
  else Exec.fault .outOfBounds

/-- The loop of `getline` over the characters `getchar` returns. -/
def getline_loop : List UInt8 → Nat → Nat → Exec State Nat
  | [], argc, _ => do
    modify fun s => { s with stdin := [] }
    return argc
  | c :: rest, argc, argc_ind =>
    if c = EOF then do
      modify fun s => { s with stdin := rest }
      return argc
    else if c = space ∨ c = newline then do
      store_char argc argc_ind 0
      let argc := if argc_ind ≠ 0 then argc + 1 else argc
      if c = newline then
        modify fun s => { s with stdin := rest }
        return argc
      else getline_loop rest argc 0
    else do
      store_char argc argc_ind c
      getline_loop rest argc (argc_ind + 1)

def getline : Exec State Nat := do
  let s ← get
  getline_loop s.stdin 0 0

/-- `strcmp` of a row of the table with a string. -/
def strcmp_from (s1 : Nat → UInt8) : List UInt8 → Nat → Int
  | [], i => if s1 i ≠ 0 then (if (s1 i).toInt8 < 0 then -1 else 1) else 0
  | c :: s2, i =>
    if s1 i ≠ c then (if (s1 i).toInt8 < c.toInt8 then -1 else 1)
    else if s1 i = 0 then 0
    else strcmp_from s1 s2 (i + 1)

def strcmp (s1 : Nat → UInt8) (s2 : List UInt8) : Int := strcmp_from s1 s2 0

def strExit : List UInt8 := [0x65, 0x78, 0x69, 0x74]
def strKheap : List UInt8 := [0x6b, 0x68, 0x65, 0x61, 0x70]
def strCd : List UInt8 := [0x63, 0x64]
def strPwd : List UInt8 := [0x70, 0x77, 0x64]
def strAmp : List UInt8 := [0x26]

def set_slot (i : Nat) (v : Slot) : Exec State Unit :=
  if i < ARG_MAX then modify fun s => { s with execve_argv := Function.update s.execve_argv i v }
  else Exec.fault .outOfBounds

/-- The body of the loop that fills `execve_argv`; `detached` only decides about waiting. -/
def fill_slot (argc i : Nat) : Exec State Unit := do
  let s ← get
  if i = argc - 1 ∧ strcmp (s.argvp i) strAmp = 0 then return ()
  else set_slot i (.word i)

/-- `fork`, and `execve` in the child. `fork i` says whether the `i`-th call makes one. -/
def spawn (fork : Nat → Bool) : Exec State Unit :=
  modify fun s => { s with
    forks := s.forks + 1
    execs := if fork s.forks then s.execs ++ [⟨s.argvp, s.execve_argv⟩] else s.execs }

/-- One round of the loop in `main`: whether there is a next one. -/
def shell_line (fork : Nat → Bool) : Exec State Bool := do
  let argc ← getline
  let s ← get
  if argc = 0 then return true
  else if strcmp (s.argvp 0) strExit = 0 then return false
  else if strcmp (s.argvp 0) strKheap = 0 ∨ strcmp (s.argvp 0) strCd = 0 ∨ strcmp (s.argvp 0) strPwd =
    0 then return true
  else
    (List.range argc).forM (fill_slot argc)
    set_slot argc .null
    spawn fork
    return true

/-- The first `n` rounds. -/
def main_loop (fork : Nat → Bool) : Nat → Exec State Unit
  | 0 => return ()
  | n + 1 => do
    if ← shell_line fork then main_loop fork n else return ()

/-! ## What a command is given -/

/-- The string in a row of the table. -/
def cstring (row : Nat → UInt8) : List UInt8 := ((List.range ARG_MAX).map row).takeWhile (· ≠ 0)

/-- The strings from slot `i` on up to the first `NULL`. -/
def Call.vector_from (e : Call) : Nat → Nat → Option (List (List UInt8))
  | 0, _ => none
  | n + 1, i =>
    match e.argv i with
    | .uninit => none
    | .null => some []
    | .word k => (e.vector_from n (i + 1)).map (cstring (e.argvp k) :: ·)

def Call.vector (e : Call) : Option (List (List UInt8)) := e.vector_from ARG_MAX 0

/-- The words of a line. -/
def words (line : List UInt8) : List (List UInt8) := (line.splitOn space).filter (· ≠ [])

/-- The words without a final `&`. -/
def arguments (ws : List (List UInt8)) : List (List UInt8) := if ws.getLast? = some strAmp then ws.dropLast else ws

/-- A line as it can be typed: at most 15 words of at most 15 characters. -/
structure Typed (line : List UInt8) : Prop where
  newline : newline ∉ line
  eof : EOF ∉ line
  nul : 0 ∉ line
  few : (words line).length ≤ 15
  short : ∀ w ∈ words line, w.length ≤ 15

/-- The commands of a session that are run in a child, up to `exit`. -/
def commands : List (List UInt8) → List (List (List UInt8))
  | [] => []
  | line :: lines =>
    match words line with
    | [] => commands lines
    | w :: ws =>
      if w = strExit then []
      else if w = strKheap ∨ w = strCd ∨ w = strPwd then commands lines
      else (w :: ws) :: commands lines

/-- What the commands are to be given, where `fork` makes a child for them. -/
def expected (fork : Nat → Bool) : Nat → List (List (List UInt8)) → List (List (List UInt8))
  | _, [] => []
  | n, ws :: rest => if fork n then arguments ws :: expected fork (n + 1) rest else expected fork (n + 1) rest

/-- The slots once the command `ws` was read. -/
def fills (slots : Nat → Slot) (ws : List (List UInt8)) (i : Nat) : Slot :=
  if i = ws.length then .null else if i < (arguments ws).length then .word i else slots i

/-- The last word is not `&`, or its slot holds a `NULL` of an earlier command. -/
def Meets (slots : Nat → Slot) (ws : List (List UInt8)) : Prop :=
  ws.getLast? ≠ some strAmp ∨ slots (ws.length - 1) = .null

/-- Every command that is run meets the condition, with the slots as they are then. -/
def AllMeet (fork : Nat → Bool) : Nat → (Nat → Slot) → List (List (List UInt8)) → Prop
  | _, _, [] => True
  | n, slots, ws :: rest => (fork n = true → Meets slots ws) ∧ AllMeet fork (n + 1) (fills slots ws) rest

/-! ## Strings -/

/-- The row holds the string `w`. -/
def Holds (row : Nat → UInt8) (w : List UInt8) : Prop := (∀ j (h : j < w.length), row j = w[j]) ∧ row w.length = 0

theorem Holds.cstring_eq {row : Nat → UInt8} {w : List UInt8} (h : Holds row w) (h0 : 0 ∉ w)
    (hlen : w.length < ARG_MAX) :
    cstring row = w := by
  have hmap : (List.range ARG_MAX).map row = w ++ 0 :: ((List.range ARG_MAX).map row).drop (w.length + 1) := by
    apply List.ext_getElem
    · simp only [List.length_map, List.length_range, List.length_append, List.length_cons, List.length_drop]
      omega
    · intro i hi hi'
      rw [List.getElem_map, List.getElem_range]
      rcases Nat.lt_trichotomy i w.length with hlt | rfl | hgt
      · rw [List.getElem_append_left hlt, h.1 i hlt]
      · rw [List.getElem_append_right (Nat.le_refl _)]
        simpa using h.2
      · rw [List.getElem_append_right (by omega)]
        obtain ⟨k, rfl⟩ : ∃ k, i = w.length + 1 + k := ⟨i - w.length - 1, by omega⟩
        simp [show w.length + 1 + k - w.length = k + 1 by omega]
  have hpos : ∀ a ∈ w, decide (a ≠ 0) = true := fun a ha => decide_eq_true fun heq : a = 0 => h0 (heq ▸ ha)
  unfold cstring
  rw [hmap, List.takeWhile_append_of_pos hpos]
  simp

theorem strcmp_from_iff {row : Nat → UInt8} {w : List UInt8} (h : Holds row w) (h0 : 0 ∉ w) (s2 : List UInt8) :
    0 ∉ s2 → ∀ i, i ≤ w.length → (strcmp_from row s2 i = 0 ↔ w.drop i = s2) := by
  induction s2 with
  | nil =>
    intro _ i hi
    rw [strcmp_from, List.drop_eq_nil_iff]
    by_cases hlt : i < w.length
    · have hne : row i ≠ 0 := by
        rw [h.1 i hlt]
        exact fun heq => h0 (heq ▸ List.getElem_mem hlt)
      rw [if_pos hne]
      refine ⟨fun hcmp => ?_, fun hle => absurd hlt (by omega)⟩
      split at hcmp <;> cases hcmp
    · obtain rfl : i = w.length := by omega
      simp [h.2]
  | cons c s2 ih =>
    intro hs2 i hi
    have hc : c ≠ 0 := fun heq => hs2 (by simp [heq])
    rw [strcmp_from]
    by_cases hlt : i < w.length
    · rw [List.drop_eq_getElem_cons hlt, h.1 i hlt]
      by_cases heq : w[i] = c
      · rw [if_neg (not_not_intro heq), if_neg (by rwa [heq]), ih (fun hm => hs2 (by simp [hm])) (i + 1) (by omega),
          heq]
        simp
      · rw [if_pos heq]
        refine ⟨fun hcmp => ?_, fun hcons => absurd (List.cons.inj hcons).1 heq⟩
        split at hcmp <;> cases hcmp
    · obtain rfl : i = w.length := by omega
      rw [h.2, if_pos (Ne.symm hc), List.drop_length]
      refine ⟨fun hcmp => ?_, fun hcons => by cases hcons⟩
      split at hcmp <;> cases hcmp

/-- The comparison tells whether the row holds the string. -/
theorem Holds.strcmp_iff {row : Nat → UInt8} {w s2 : List UInt8} (h : Holds row w) (h0 : 0 ∉ w) (hs2 : 0 ∉ s2) :
    strcmp row s2 = 0 ↔ w = s2 := by
  have := strcmp_from_iff h h0 s2 hs2 0 (Nat.zero_le _)
  rwa [List.drop_zero] at this

/-! ## Reading a line -/

theorem store_char_run {argc ind : Nat} (c : UInt8) (ha : argc < ARG_LENGTH) (hi : ind < ARG_MAX) (s : State) :
    store_char argc ind c s =
      .ok ((), { s with argvp := Function.update s.argvp argc (Function.update (s.argvp argc) ind c) }) := by
  have hrow : (argc * ARG_MAX + ind) / ARG_MAX = argc := by
    unfold ARG_MAX at hi ⊢
    omega
  have hcolumn : (argc * ARG_MAX + ind) % ARG_MAX = ind := by
    unfold ARG_MAX at hi ⊢
    omega
  unfold store_char put_char
  rw [if_pos (by unfold ARG_LENGTH ARG_MAX at *; omega), hrow, hcolumn]
  rfl

/-- The words of a line whose first one starts with `cur`. -/
def wordsFrom (cur line : List UInt8) : List (List UInt8) :=
  ((line.splitOn space).modifyHead (cur ++ ·)).filter (· ≠ [])

theorem wordsFrom_nil (cur : List UInt8) : wordsFrom cur [] = if cur = [] then [] else [cur] := by
  unfold wordsFrom
  by_cases hcur : cur = []
  · simp [hcur]
  · simp [hcur]

theorem wordsFrom_empty (line : List UInt8) : wordsFrom [] line = words line := by
  unfold wordsFrom words
  cases line.splitOn space <;> simp

theorem wordsFrom_space (cur line : List UInt8) :
    wordsFrom cur (space :: line) = (if cur = [] then [] else [cur]) ++ words line := by
  unfold wordsFrom words
  rw [List.splitOn_cons_eq_if_modifyHead]
  by_cases hcur : cur = []
  · simp [hcur]
  · simp [hcur]

theorem wordsFrom_cons (cur line : List UInt8) {c : UInt8} (hc : c ≠ space) :
    wordsFrom cur (c :: line) = wordsFrom (cur ++ [c]) line := by
  unfold wordsFrom
  rw [List.splitOn_cons_eq_if_modifyHead, if_neg (by simpa using hc), List.modifyHead_modifyHead]
  congr 2
  funext w
  simp

/-- A word that has been started is one of the words. -/
theorem le_of_wordsFrom {cur line : List UInt8} (hcur : cur ≠ []) :
    0 < (wordsFrom cur line).length ∧ ∀ n, (∀ w ∈ wordsFrom cur line, w.length ≤ n) → cur.length ≤ n := by
  unfold wordsFrom
  cases hsplit : line.splitOn space with
  | nil => exact absurd hsplit (List.splitOn_ne_nil _ _)
  | cons w ws =>
    have hne : cur ++ w ≠ [] := by simp [hcur]
    have hmem : cur ++ w ∈ ((w :: ws).modifyHead (cur ++ ·)).filter (· ≠ []) :=
      List.mem_filter.2 ⟨by simp, decide_eq_true hne⟩
    refine ⟨List.length_pos_of_mem hmem, fun n hn => ?_⟩
    have := hn (cur ++ w) hmem
    rw [List.length_append] at this
    omega

/-- The rows hold the words `done`. -/
def Rows (argvp : Nat → Nat → UInt8) (done : List (List UInt8)) :
    Prop := ∀ i (h : i < done.length), Holds (argvp i) done[i]

/-- Writing behind the words that are complete leaves them. -/
theorem Rows.store {argvp : Nat → Nat → UInt8} {done : List (List UInt8)} (h : Rows argvp done) (row : Nat → UInt8) :
    Rows (Function.update argvp done.length row) done := by
  intro i hi
  rw [Function.update_of_ne (by omega)]
  exact h i hi

theorem Rows.snoc {argvp : Nat → Nat → UInt8} {done : List (List UInt8)} {w : List UInt8} (h : Rows argvp done)
    (hw : Holds (argvp done.length) w) : Rows argvp (done ++ [w]) := by
  intro i hi
  rw [List.length_append, List.length_singleton] at hi
  by_cases hlast : i = done.length
  · subst hlast
    rwa [List.getElem_concat_length rfl]
  · rw [List.getElem_append_left (by omega)]
    exact h i (by omega)

/-- The row after the terminator was written behind `cur`. -/
theorem holds_terminated {row : Nat → UInt8} {cur : List UInt8} (h : ∀ j (hj : j < cur.length), row j = cur[j]) :
    Holds (Function.update row cur.length 0) cur := by
  refine ⟨fun j hj => ?_, Function.update_self ..⟩
  rw [Function.update_of_ne (by omega)]
  exact h j hj

/-- The words so far, once a separator was read behind `cur`. -/
def closed (done : List (List UInt8)) (cur : List UInt8) : List (List UInt8) := if cur = [] then done else done ++ [cur]

theorem closed_length (done : List (List UInt8)) (cur : List UInt8) :
    (if cur.length ≠ 0 then done.length + 1 else done.length) = (closed done cur).length := by
  unfold closed
  by_cases hcur : cur = [] <;> simp [hcur]

theorem Rows.close {argvp : Nat → Nat → UInt8} {done : List (List UInt8)} {cur : List UInt8} (h : Rows argvp done)
    (hcur : ∀ j (hj : j < cur.length), argvp done.length j = cur[j]) :
    Rows (Function.update argvp done.length (Function.update (argvp done.length) cur.length 0)) (closed done cur) := by
  have hstore := h.store (Function.update (argvp done.length) cur.length 0)
  unfold closed
  by_cases hne : cur = []
  · rwa [if_pos hne]
  · rw [if_neg hne]
    refine hstore.snoc ?_
    rw [Function.update_self]
    exact holds_terminated hcur

theorem append_wordsFrom_nil (done : List (List UInt8)) (cur : List UInt8) :
    done ++ wordsFrom cur [] = closed done cur := by
  rw [wordsFrom_nil, closed]
  split <;> simp

theorem append_wordsFrom_space (done : List (List UInt8)) (cur line : List UInt8) :
    done ++ wordsFrom cur (space :: line) = closed done cur ++ words line := by
  rw [wordsFrom_space, closed]
  split <;> simp

/-- By induction on the line, with the complete words `done` and the started word `cur`. -/
theorem getline_loop_run (rest line : List UInt8) : ∀ (done : List (List UInt8)) (cur : List UInt8) (s : State),
    newline ∉ line → EOF ∉ line → done.length + (wordsFrom cur line).length ≤ 15 →
    (∀ w ∈ wordsFrom cur line, w.length ≤ 15) → Rows s.argvp done →
    (∀ j (hj : j < cur.length), s.argvp done.length j = cur[j]) →
    ∃ argvp, getline_loop (line ++ newline :: rest) done.length cur.length s =
        .ok ((done ++ wordsFrom cur line).length, { s with argvp := argvp, stdin := rest }) ∧
      Rows argvp (done ++ wordsFrom cur line) := by
  induction line with
  | nil =>
    intro done cur s _ _ hfew hshort hrows hcur
    have hlen : cur.length ≤ 15 := by
      by_cases hne : cur = []
      · simp [hne]
      · exact (le_of_wordsFrom hne).2 15 hshort
    have hclose := hrows.close hcur
    rw [List.nil_append, getline_loop, if_neg (by decide), if_pos (.inr rfl),
      Exec.bind_of_ok (store_char_run 0 (by unfold ARG_LENGTH; omega) (by unfold ARG_MAX; omega) s), if_pos rfl,
      append_wordsFrom_nil, closed_length]
    exact ⟨_, rfl, hclose⟩
  | cons c line ih =>
    intro done cur s hnl heof hfew hshort hrows hcur
    obtain ⟨hnl', hnl''⟩ := not_or.1 (mt List.mem_cons.2 hnl)
    obtain ⟨heof', heof''⟩ := not_or.1 (mt List.mem_cons.2 heof)
    have hlen : cur.length ≤ 15 := by
      by_cases hne : cur = []
      · simp [hne]
      · exact (le_of_wordsFrom hne).2 15 hshort
    rw [List.cons_append, getline_loop, if_neg (Ne.symm heof')]
    by_cases hsp : c = space
    · subst hsp
      have hclose := hrows.close hcur
      have hfew' : (closed done cur).length + (words line).length ≤ 15 := by
        rw [← List.length_append, ← append_wordsFrom_space, List.length_append]
        exact hfew
      have hshort' : ∀ w ∈ words line, w.length ≤ 15 := fun w hw =>
        hshort w (by rw [wordsFrom_space]; exact List.mem_append_right _ hw)
      rw [if_pos (.inl rfl),
        Exec.bind_of_ok (store_char_run 0 (by unfold ARG_LENGTH; omega) (by unfold ARG_MAX; omega) s),
        if_neg (by decide), append_wordsFrom_space, closed_length]
      rw [← wordsFrom_empty] at hfew' hshort' ⊢
      exact ih (closed done cur) [] _ hnl'' heof'' hfew' hshort' hclose fun j hj => by simp at hj
    · have hcons := wordsFrom_cons cur line hsp
      rw [hcons] at hfew hshort ⊢
      have hstart := @le_of_wordsFrom (cur ++ [c]) line (by simp)
      have hroom := hstart.2 15 hshort
      rw [List.length_append, List.length_singleton] at hroom
      rw [if_neg (by simp [hsp, Ne.symm hnl']),
        Exec.bind_of_ok (store_char_run c (by unfold ARG_LENGTH; omega) (by unfold ARG_MAX; omega) s)]
      have hih := ih done (cur ++ [c])
        { s with argvp := Function.update s.argvp done.length (Function.update (s.argvp done.length) cur.length c) }
        hnl'' heof'' hfew hshort (hrows.store _) fun j hj => ?_
      · rw [List.length_append, List.length_singleton] at hih
        exact hih
      · rw [List.length_append, List.length_singleton] at hj
        dsimp only
        rw [Function.update_self]
        by_cases hlast : j = cur.length
        · subst hlast
          rw [Function.update_self, List.getElem_concat_length rfl]
        · rw [Function.update_of_ne hlast, List.getElem_append_left (by omega)]
          exact hcur j (by omega)

theorem getline_run {line rest : List UInt8} {s : State} (hl : Typed line) (hin : s.stdin = line ++ newline :: rest) :
    ∃ argvp, getline s = .ok ((words line).length, { s with argvp := argvp, stdin := rest }) ∧
      Rows argvp (words line) := by
  have hrun := getline_loop_run rest line [] [] s hl.newline hl.eof (by rw [wordsFrom_empty]; simpa using hl.few)
    (by rw [wordsFrom_empty]; exact hl.short) (fun i hi => by simp at hi) fun j hj => by simp at hj
  rw [wordsFrom_empty, List.nil_append] at hrun
  unfold getline
  rw [Exec.bind_of_ok (Exec.get_apply s), hin]
  exact hrun

/-! ## Filling the slots -/

theorem set_slot_run {i : Nat} (hi : i < ARG_MAX) (v : Slot) (s : State) :
    set_slot i v s = .ok ((), { s with execve_argv := Function.update s.execve_argv i v }) := by
  unfold set_slot
  rw [if_pos hi]
  rfl

theorem getLast_iff {ws : List (List UInt8)} {k : Nat} (hk : k < ws.length) (hlast : k = ws.length - 1) :
    ws.getLast? = some strAmp ↔ ws[k] = strAmp := by
  rw [List.getLast?_eq_getElem?, ← hlast, List.getElem?_eq_getElem hk, Option.some_inj]

theorem arguments_length (ws : List (List UInt8)) :
    (arguments ws).length = if ws.getLast? = some strAmp then ws.length - 1 else ws.length := by
  unfold arguments
  split
  · exact List.length_dropLast
  · rfl

/-- Slot `i` is left out just for a final `&`. -/
theorem skipped_iff {ws : List (List UInt8)} {row : Nat → UInt8} {i : Nat} (hi : i < ws.length) (h : Holds row ws[i])
    (hnul : 0 ∉ ws[i]) : (i = ws.length - 1 ∧ strcmp row strAmp = 0) ↔ ¬ i < (arguments ws).length := by
  rw [h.strcmp_iff hnul (by decide), arguments_length]
  by_cases hlast : i = ws.length - 1
  · rw [← getLast_iff hi hlast]
    split
    · rename_i hamp
      simp only [hlast, hamp, and_self, true_iff]
      omega
    · rename_i hamp
      simp only [hamp, and_false, false_iff]
      omega
  · simp only [hlast, false_and, false_iff, not_not]
    split <;> omega

/-- The first `k` rounds fill the first `k` slots, save one for a final `&`. -/
theorem fill_slots_run {ws : List (List UInt8)} {s : State} (hlen : ws.length ≤ 15) (hnul : ∀ w ∈ ws, 0 ∉ w)
    (hrows : Rows s.argvp ws) (k : Nat) : k ≤ ws.length →
      (List.range k).forM (fill_slot ws.length) s =
        .ok ((), { s with execve_argv := fun i => if i < k ∧ i <
          (arguments ws).length then .word i else s.execve_argv i }) := by
  induction k with
  | zero =>
    intro _
    simp
  | succ k ih =>
    intro hk
    have hskip := skipped_iff (by omega) (hrows k (by omega)) (hnul _ (List.getElem_mem (by omega)))
    have hsplit : (List.range (k + 1)).forM (fill_slot ws.length) =
        (List.range k).forM (fill_slot ws.length) >>= fun _ => fill_slot ws.length k := by
      rw [List.range_succ, List.forM_eq_forM, List.forM_append, List.forM_cons]
      simp
    rw [hsplit, Exec.bind_of_ok (ih (by omega))]
    unfold fill_slot
    rw [Exec.bind_of_ok (Exec.get_apply _)]
    dsimp only
    by_cases hin : k < (arguments ws).length
    · rw [if_neg (fun h => hskip.1 h hin), set_slot_run (by unfold ARG_MAX; omega)]
      congr 3
      funext i
      by_cases hik : i = k
      · subst hik
        simp [hin]
      · rw [Function.update_of_ne hik]
        simp only [show i < k + 1 ↔ i < k by omega]
    · rw [if_pos (hskip.2 hin)]
      have hslots : (fun i => if i < k + 1 ∧ i < (arguments ws).length then .word i else s.execve_argv i) =
          fun i => if i < k ∧ i < (arguments ws).length then .word i else s.execve_argv i := by
        funext i
        have : (i < k + 1 ∧ i < (arguments ws).length) ↔ i < k ∧ i < (arguments ws).length := by omega
        simp only [this]
      rw [hslots]
      rfl

/-! ## What the child is given -/

theorem fills_of_lt (slots : Nat → Slot) {ws : List (List UInt8)} {i : Nat} (hi : i < (arguments ws).length) :
    fills slots ws i = .word i := by
  have hle : (arguments ws).length ≤ ws.length := by
    rw [arguments_length]
    split <;> omega
  unfold fills
  rw [if_neg (by omega), if_pos hi]

theorem arguments_getElem {ws : List (List UInt8)} {i : Nat} (hi : i < (arguments ws).length) (hi' : i < ws.length) :
    (arguments ws)[i] = ws[i] := by
  unfold arguments at hi ⊢
  split
  · exact List.getElem_dropLast _
  · rfl

theorem arguments_length_le (ws : List (List UInt8)) : (arguments ws).length ≤ ws.length := by
  rw [arguments_length]
  split <;> omega

/-- The vector is the words up to the slot behind them, and goes on from there. -/
theorem vector_from_fills {ws : List (List UInt8)} {e : Call} {slots : Nat → Slot} (hargv : e.argv = fills slots ws)
    (hrows : Rows e.argvp ws) (hnul : ∀ w ∈ ws, 0 ∉ w) (hshort : ∀ w ∈ ws, w.length ≤ 15) (n d : Nat) :
    ∀ i, i + d = (arguments ws).length →
      e.vector_from (n + d) i = (e.vector_from n (arguments ws).length).map ((arguments ws).drop i ++ ·) := by
  induction d with
  | zero =>
    intro i hi
    rw [← hi]
    simp [show i = (arguments ws).length by omega]
  | succ d ih =>
    intro i hi
    have hlt : i < (arguments ws).length := by omega
    have hlt' : i < ws.length := hlt.trans_le (arguments_length_le ws)
    have hstr : cstring (e.argvp i) = ws[i] := by
      refine (hrows i hlt').cstring_eq (hnul _ (List.getElem_mem hlt')) ?_
      exact Nat.lt_succ_of_le (hshort _ (List.getElem_mem hlt'))
    rw [← Nat.add_assoc, Call.vector_from, hargv, fills_of_lt slots hlt]
    dsimp only
    rw [ih (i + 1) (by omega), hstr, List.drop_eq_getElem_cons hlt, arguments_getElem hlt hlt']
    cases e.vector_from n (arguments ws).length <;> rfl

/-- The child is given the words without a final `&` if and only if the condition is met. -/
theorem vector_iff {ws : List (List UInt8)} {e : Call} {slots : Nat → Slot} (hargv : e.argv = fills slots ws)
    (hrows : Rows e.argvp ws) (hne : ws ≠ []) (hlen : ws.length ≤ 15) (hnul : ∀ w ∈ ws, 0 ∉ w)
    (hshort : ∀ w ∈ ws, w.length ≤ 15) : e.vector = some (arguments ws) ↔ Meets slots ws := by
  have hle := arguments_length_le ws
  have hpos := List.length_pos_of_ne_nil hne
  obtain ⟨m, hm⟩ : ∃ m, ARG_MAX = m + 1 + (arguments ws).length :=
      ⟨15 - (arguments ws).length, by unfold ARG_MAX; omega⟩
  have hvec := vector_from_fills hargv hrows hnul hshort (m + 1) (arguments ws).length 0 (by omega)
  unfold Call.vector Meets
  rw [hm, hvec, List.drop_zero, Call.vector_from, hargv]
  have hlength := arguments_length ws
  by_cases hamp : ws.getLast? = some strAmp
  · -- the slot of the `&` decides
    rw [if_pos hamp] at hlength
    have hslot : fills slots ws (arguments ws).length = slots (ws.length - 1) := by
      unfold fills
      rw [if_neg (by omega), if_neg (by omega), hlength]
    rw [hslot]
    cases hcase : slots (ws.length - 1) with
    | uninit => simp [hamp]
    | null => simp
    | word k =>
      simp only [hamp, ne_eq, not_true_eq_false, false_or, reduceCtorEq, iff_false]
      intro heq
      cases hv : e.vector_from m ((arguments ws).length + 1) with
      | none =>
        rw [hv] at heq
        cases heq
      | some v =>
        rw [hv] at heq
        have := congrArg List.length (Option.some_inj.1 heq)
        simp at this
  · rw [if_neg hamp] at hlength
    have hslot : fills slots ws (arguments ws).length = .null := by
      unfold fills
      rw [if_pos hlength]
    rw [hslot]
    simp [hamp]

/-! ## A session -/

theorem mem_of_mem_splitOn {c : UInt8} (line : List UInt8) :
    ∀ {w}, w ∈ line.splitOn space → c ∈ w → c ∈ line := by
  induction line with
  | nil =>
    intro w hw hc
    rw [List.splitOn_nil, List.mem_singleton] at hw
    rwa [hw] at hc
  | cons x line ih =>
    intro w hw hc
    rw [List.splitOn_cons_eq_if_modifyHead] at hw
    split at hw
    · rcases List.mem_cons.1 hw with rfl | hw
      · cases hc
      · exact List.mem_cons_of_mem _ (ih hw hc)
    · cases hsplit : line.splitOn space with
      | nil => exact absurd hsplit (List.splitOn_ne_nil _ _)
      | cons v vs =>
        rw [hsplit, List.modifyHead_cons] at hw
        rcases List.mem_cons.1 hw with rfl | hw
        · rcases List.mem_cons.1 hc with rfl | hc
          · exact List.mem_cons_self ..
          · exact List.mem_cons_of_mem _ (ih (by rw [hsplit]; simp) hc)
        · exact List.mem_cons_of_mem _ (ih (by rw [hsplit]; simp [hw]) hc)

theorem Typed.nul_words {line : List UInt8} (hl : Typed line) : ∀ w ∈ words line, 0 ∉ w := fun _ hw h0 =>
  hl.nul (mem_of_mem_splitOn line (List.mem_of_mem_filter hw) h0)

/-- Whether the loop goes on behind a line with the words `ws`, and the state then. -/
def after (fork : Nat → Bool) (s : State) : List (List UInt8) → Bool × State
  | [] => (true, s)
  | w :: ws =>
    if w = strExit then (false, s)
    else if w = strKheap ∨ w = strCd ∨ w = strPwd then (true, s)
    else (true, { s with
      execve_argv := fills s.execve_argv (w :: ws)
      forks := s.forks + 1
      execs := if fork s.forks then s.execs ++ [⟨s.argvp, fills s.execve_argv (w :: ws)⟩] else s.execs })

/-- One round of the loop. -/
theorem shell_line_run {fork : Nat → Bool} {line rest : List UInt8} {s : State} (hl : Typed line)
    (hin : s.stdin = line ++ newline :: rest) : ∃ argvp, Rows argvp (words line) ∧
      shell_line fork s = .ok (after fork { s with argvp := argvp, stdin := rest } (words line)) := by
  obtain ⟨argvp, hget, hrows⟩ := getline_run hl hin
  have hnul := hl.nul_words
  have hfew := hl.few
  refine ⟨argvp, hrows, ?_⟩
  generalize words line = ws at hget hrows hnul hfew ⊢
  unfold shell_line
  rw [Exec.bind_of_ok hget, Exec.bind_of_ok (Exec.get_apply _)]
  dsimp only
  cases ws with
  | nil => rfl
  | cons w ws =>
    have hcmp : ∀ s2 : List UInt8, 0 ∉ s2 → (strcmp (argvp 0) s2 = 0 ↔ w = s2) :=
      fun s2 h0 => (hrows 0 (by simp)).strcmp_iff (hnul w (by simp)) h0
    rw [if_neg (by simp)]
    unfold after
    simp only [hcmp strExit (by decide), hcmp strKheap (by decide), hcmp strCd (by decide), hcmp strPwd (by decide)]
    split
    · rfl
    split
    · rfl
    have hfill := fill_slots_run (s := { s with argvp := argvp, stdin := rest }) hfew hnul hrows _ (Nat.le_refl _)
    rw [Exec.bind_of_ok hfill, Exec.bind_of_ok (set_slot_run (by unfold ARG_MAX; omega) .null _)]
    have hslots : Function.update (fun i => if i < (w :: ws).length ∧ i < (arguments (w :: ws)).length then Slot.word i
        else s.execve_argv i) (w :: ws).length .null = fills s.execve_argv (w :: ws) := by
      funext i
      have hle := arguments_length_le (w :: ws)
      unfold fills
      by_cases hi : i = (w :: ws).length
      · rw [if_pos hi, hi, Function.update_self]
      · rw [if_neg hi, Function.update_of_ne hi]
        have : (i < (w :: ws).length ∧ i < (arguments (w :: ws)).length) ↔ i < (arguments (w :: ws)).length := by omega
        simp only [this]
    dsimp only
    rw [hslots]
    rfl

/-- The calls of a session, command by command. -/
theorem main_loop_run (fork : Nat → Bool) (rest : List UInt8) (lines : List (List UInt8)) : ∀ (s : State),
    (∀ l ∈ lines, Typed l) → s.stdin = lines.flatMap (· ++ [newline]) ++ rest →
    ∃ s' calls, main_loop fork lines.length s = .ok ((), s') ∧ s'.execs = s.execs ++ calls ∧
      (calls.map Call.vector = (expected fork s.forks (commands lines)).map some ↔
        AllMeet fork s.forks s.execve_argv (commands lines)) := by
  induction lines with
  | nil =>
    intro s _ _
    exact ⟨s, [], rfl, by simp, by simp [commands, expected, AllMeet]⟩
  | cons line lines ih =>
    intro s hl hin
    have hin' : s.stdin = line ++ newline :: (lines.flatMap (· ++ [newline]) ++ rest) := by
      rw [hin]
      simp
    obtain ⟨argvp, hrows, hrun⟩ : ∃ argvp, Rows argvp (words line) ∧ shell_line fork s =
        .ok (after fork { s with argvp := argvp, stdin := lines.flatMap (· ++ [newline]) ++ rest } (words line)) :=
      shell_line_run (hl line (by simp)) hin'
    have hl' : ∀ l ∈ lines, Typed l := fun l hm => hl l (by simp [hm])
    have hcommands : commands (line :: lines) = match words line with
      | [] => commands lines
      | w :: ws =>
        if w = strExit then []
        else if w = strKheap ∨ w = strCd ∨ w = strPwd then commands lines
        else (w :: ws) :: commands lines := rfl
    rw [hcommands]
    rw [List.length_cons, main_loop]
    cases hwords : words line with
    | nil =>
      rw [hwords, after] at hrun
      rw [Exec.bind_of_ok hrun]
      exact ih { s with argvp := argvp, stdin := _ } hl' rfl
    | cons w ws =>
      rw [hwords] at hrun hrows
      unfold after at hrun
      dsimp only at hrun ⊢
      by_cases hexit : w = strExit
      · rw [if_pos hexit] at hrun
        rw [if_pos hexit, Exec.bind_of_ok hrun]
        exact ⟨_, [], rfl, by simp, by simp [expected, AllMeet]⟩
      rw [if_neg hexit] at hrun ⊢
      by_cases hbuiltin : w = strKheap ∨ w = strCd ∨ w = strPwd
      · rw [if_pos hbuiltin] at hrun
        rw [if_pos hbuiltin, Exec.bind_of_ok hrun]
        exact ih { s with argvp := argvp, stdin := _ } hl' rfl
      rw [if_neg hbuiltin] at hrun
      rw [if_neg hbuiltin, Exec.bind_of_ok hrun, if_pos rfl]
      have hline := hl line (by simp)
      have hiff := vector_iff (e := ⟨argvp, fills s.execve_argv (w :: ws)⟩) rfl hrows (by simp) (hwords ▸ hline.few)
        (hwords ▸ hline.nul_words) (hwords ▸ hline.short)
      by_cases hfork : fork s.forks = true
      · rw [if_pos hfork]
        obtain ⟨s', calls, hs', hexecs, hcalls⟩ := ih (State.mk argvp (fills s.execve_argv (w :: ws)) _ (s.forks + 1)
          (s.execs ++ [⟨argvp, fills s.execve_argv (w :: ws)⟩])) hl' rfl
        refine ⟨s', ⟨argvp, fills s.execve_argv (w :: ws)⟩ :: calls, hs', ?_, ?_⟩
        · rw [hexecs, List.append_assoc, List.singleton_append]
        · rw [expected, if_pos hfork, List.map_cons, List.map_cons, List.cons.injEq, hiff, hcalls, AllMeet]
          simp [hfork]
      · rw [if_neg hfork]
        obtain ⟨s', calls, hs', hexecs, hcalls⟩ := ih (State.mk argvp (fills s.execve_argv (w :: ws)) _ (s.forks + 1)
          s.execs) hl' rfl
        refine ⟨s', calls, hs', hexecs, ?_⟩
        rw [expected, if_neg hfork, hcalls, AllMeet]
        simp [hfork]

/-- In every session each command is given its words, without a final `&`, if and only if at
each command the last word is not `&` or its slot holds a `NULL` an earlier command left. -/
theorem shell_vectors (fork : Nat → Bool) (s : State) (lines : List (List UInt8)) (rest : List UInt8)
    (hl : ∀ l ∈ lines, Typed l) (hin : s.stdin = lines.flatMap (· ++ [newline]) ++ rest) (h0 : s.execs = []) :
    ∃ s', main_loop fork lines.length s = .ok ((), s') ∧
      (s'.execs.map Call.vector = (expected fork s.forks (commands lines)).map some ↔
        AllMeet fork s.forks s.execve_argv (commands lines)) := by
  obtain ⟨s', calls, hrun, hexecs, hiff⟩ := main_loop_run fork rest lines s hl hin
  rw [h0, List.nil_append] at hexecs
  exact ⟨s', hrun, hexecs ▸ hiff⟩

/-- The shell as it starts, with `input` to be typed. -/
def started (input : List UInt8) : State := ⟨fun _ _ => 0, fun _ => .uninit, input, 0, []⟩

/-- `a b` -/
def lineAB : List UInt8 := [0x61, 0x20, 0x62]
/-- `c &` -/
def lineC : List UInt8 := [0x63, 0x20, 0x26]

theorem shell_vectors_detached : ∃ s', main_loop (fun _ => true) [lineAB, lineC].length
      (started ([lineAB, lineC].flatMap (· ++ [newline]) ++ [])) = .ok ((), s') ∧
    (s'.execs.map Call.vector = (expected (fun _ => true) 0 (commands [lineAB, lineC])).map some ↔
      AllMeet (fun _ => true) 0 (fun _ => .uninit) (commands [lineAB, lineC])) := by
  have htyped : ∀ l ∈ [lineAB, lineC], Typed l := by
    intro l hl
    rcases List.mem_cons.1 hl with rfl | hl
    · exact ⟨by decide, by decide, by decide, by decide, by decide⟩
    · rw [List.mem_singleton.1 hl]
      exact ⟨by decide, by decide, by decide, by decide, by decide⟩
  exact shell_vectors (fun _ => true) (started _) [lineAB, lineC] [] htyped rfl rfl

/-- The second command finds the slot of `b` behind its own name, with its `&` in it. -/
theorem shell_stale_argument : ∃ s', main_loop (fun _ => true) 2
      (started ([lineAB, lineC].flatMap (· ++ [newline]))) = .ok ((), s') ∧
    s'.execs.map Call.vector = [some [[0x61], [0x62]], some [[0x63], [0x26]]] ∧
    s'.execs.map Call.vector ≠ (expected (fun _ => true) 0 (commands [lineAB, lineC])).map some := by
  have hexpected : expected (fun _ => true) 0 (commands [lineAB, lineC]) = [[[0x61], [0x62]], [[0x63]]] := by decide
  have hvectors : (main_loop (fun _ => true) 2 (started ([lineAB, lineC].flatMap (· ++ [newline])))).map
      (fun r => r.2.execs.map Call.vector) = .ok [some [[0x61], [0x62]], some [[0x63], [0x26]]] := by rfl
  rw [hexpected]
  cases hrun : main_loop (fun _ => true) 2 (started ([lineAB, lineC].flatMap (· ++ [newline]))) with
  | error e =>
    rw [hrun] at hvectors
    cases hvectors
  | ok r =>
    rw [hrun] at hvectors
    have heq : r.2.execs.map Call.vector = [some [[0x61], [0x62]], some [[0x63], [0x26]]] := Except.ok.inj hvectors
    refine ⟨r.2, rfl, heq, ?_⟩
    rw [heq]
    decide

end Ulmix.Shell

import Ulmix.Userspace.Shell
/-!
# Lines of any length (`getline` in `userspace/ushell/ushell.c`)

Neither counter of `getline` is checked. The rows of the table lie one behind the other,
so a word of sixteen characters or more goes on in the next row, and the next word is
written over it there. What a slot points to is then cut, or continued with the next
word; it is still the word if the next word happens to be the rest of it.

`Fits` says word by word which lines are read right. The proof goes through the line with
the part `cur` of a word that was read so far, and looks at the table once the line is
read: the row of a word is left alone by what follows it, and the string in it goes on in
the next row (`string_at_row`).
-/
open Ulmix.Lib

namespace Ulmix.Shell

/-! ## Strings in the table -/

/-- Byte `p` of the table. -/
def byte (argvp : Nat → Nat → UInt8) (p : Nat) : UInt8 := argvp (p / ARG_MAX) (p % ARG_MAX)

/-- The string that begins at byte `p`, if it ends within the `n` bytes from there on. -/
def read_string (argvp : Nat → Nat → UInt8) : Nat → Nat → Option (List UInt8)
  | 0, _ => none
  | n + 1, p =>
    if byte argvp p = 0 then some [] else (read_string argvp n (p + 1)).map (byte argvp p :: ·)

/-- The string that `argv[i]` points to, if it ends within the table. -/
def argv (argvp : Nat → Nat → UInt8) (i : Nat) : Option (List UInt8) :=
  read_string argvp (ARG_LENGTH * ARG_MAX - i * ARG_MAX) (i * ARG_MAX)

/-- Word by word from row `i` on: a word has no zero in it; it has less than sixteen characters, or the next
word is what is left of it behind sixteen; the last one ends within the table, and where a space follows it
there is another row and the word has no more than sixteen characters. -/
def Fits (spaced : Prop) : Nat → List (List UInt8) → Prop
  | i, [] => i < ARG_LENGTH
  | i, [w] => 0 ∉ w ∧ i * ARG_MAX + w.length < ARG_LENGTH * ARG_MAX ∧
      (spaced → w.length ≤ ARG_MAX ∧ i + 1 < ARG_LENGTH)
  | i, w :: w' :: ws => 0 ∉ w ∧ (w.length < ARG_MAX ∨ w.drop ARG_MAX = w') ∧ Fits spaced (i + 1) (w' :: ws)

/-- A space stands at the end of the line. -/
def Spaced (line : List UInt8) : Prop := line.getLast? = some space

section
variable {argvp argvp' : Nat → Nat → UInt8} {u v w : List UInt8} {n p i : Nat}

theorem byte_put_char (argvp : Nat → Nat → UInt8) (i p : Nat) (c : UInt8) :
    byte (put_char argvp i c) p = if p = i then c else byte argvp p := by
  unfold byte put_char
  by_cases hp : p = i
  · rw [hp, Function.update_self, Function.update_self, if_pos rfl]
  · rw [if_neg hp]
    by_cases hrow : p / ARG_MAX = i / ARG_MAX
    · have hcolumn : p % ARG_MAX ≠ i % ARG_MAX := by
        unfold ARG_MAX at hrow ⊢
        omega
      rw [hrow, Function.update_self, Function.update_of_ne hcolumn]
    · rw [Function.update_of_ne hrow]

/-- The bytes from `p` on are those of `w`. -/
def At (argvp : Nat → Nat → UInt8) (p : Nat) (w : List UInt8) : Prop :=
  ∀ j (h : j < w.length), byte argvp (p + j) = w[j]

theorem at_nil (argvp : Nat → Nat → UInt8) (p : Nat) : At argvp p [] := fun j hj => absurd hj (Nat.not_lt_zero j)

theorem At.cons {c : UInt8} (h : At argvp p (c :: w)) : byte argvp p = c ∧ At argvp (p + 1) w := by
  refine ⟨h 0 (by simp), fun j hj => ?_⟩
  have hnext := h (j + 1) (by simpa using hj)
  rwa [show p + (j + 1) = p + 1 + j by omega] at hnext

theorem At.take (h : At argvp p w) (k : Nat) : At argvp p (w.take k) := by
  intro j hj
  rw [List.getElem_take]
  exact h j (hj.trans_le (List.length_take_le' ..))

theorem At.congr (h : At argvp p w) (hsame : ∀ q, p ≤ q → q < p + w.length → byte argvp' q = byte argvp q) :
    At argvp' p w := by
  intro j hj
  rw [hsame (p + j) (by omega) (by omega)]
  exact h j hj

theorem At.snoc (h : At argvp p w) (c : UInt8) : At (put_char argvp (p + w.length) c) p (w ++ [c]) := by
  intro j hj
  rw [List.length_append, List.length_singleton] at hj
  rw [byte_put_char]
  by_cases hlast : j = w.length
  · subst hlast
    rw [if_pos rfl, List.getElem_concat_length rfl]
  · rw [if_neg (by omega), List.getElem_append_left (by omega)]
    exact h j (by omega)

theorem At.terminated (h : At argvp p w) :
    At (put_char argvp (p + w.length) 0) p w ∧ byte (put_char argvp (p + w.length) 0) (p + w.length) = 0 :=
  ⟨h.congr fun q _ hq => by rw [byte_put_char, if_neg (by omega)], by rw [byte_put_char, if_pos rfl]⟩

/-- A string begins with the bytes that lie in front of its end. -/
theorem read_string_append (h : At argvp p u) (h0 : 0 ∉ u) (m : Nat) :
    read_string argvp (u.length + m) p = (read_string argvp m (p + u.length)).map (u ++ ·) := by
  induction u generalizing p with
  | nil => simp
  | cons c u ih =>
    obtain ⟨hc, hu⟩ := h.cons
    obtain ⟨hc0, hu0⟩ := not_or.1 (mt List.mem_cons.2 h0)
    rw [List.length_cons, show u.length + 1 + m = u.length + m + 1 by omega, read_string, hc, if_neg (Ne.symm hc0),
      ih hu hu0, Option.map_map, show p + 1 + u.length = p + (u.length + 1) by omega]
    rfl

theorem read_string_no_zero (h : read_string argvp n p = some w) : 0 ∉ w := by
  induction n generalizing p w with
  | zero => cases h
  | succ n ih =>
    unfold read_string at h
    split at h
    · cases h
      simp
    · rename_i hc
      obtain ⟨v, hv, rfl⟩ := Option.map_eq_some_iff.1 h
      exact fun hm => (List.mem_cons.1 hm).elim (fun heq => hc heq.symm) (ih hv)

/-- The string in a row, where the word `w` and its zero were written before the next row was. -/
theorem argv_row (hw : At argvp (i * ARG_MAX) w) (hzero : byte argvp (i * ARG_MAX + w.length) = 0)
    (hroom : i * ARG_MAX + w.length < ARG_LENGTH * ARG_MAX)
    (hsame : ∀ p < (i + 1) * ARG_MAX, byte argvp' p = byte argvp p) (hnext : argv argvp' (i + 1) = some v) :
    argv argvp' i = some w ↔ 0 ∉ w ∧ (w.length < ARG_MAX ∨ w.drop ARG_MAX = v) := by
  by_cases hshort : w.length < ARG_MAX
  · have hend : i * ARG_MAX + w.length < (i + 1) * ARG_MAX := by
      unfold ARG_MAX at hshort ⊢
      omega
    have hw' : At argvp' (i * ARG_MAX) w := hw.congr fun q _ hq => hsame q (by omega)
    constructor
    · exact fun h => ⟨read_string_no_zero h, .inl hshort⟩
    · rintro ⟨h0, -⟩
      obtain ⟨m, hm⟩ : ∃ m, ARG_LENGTH * ARG_MAX - i * ARG_MAX = w.length + (m + 1) :=
        ⟨ARG_LENGTH * ARG_MAX - i * ARG_MAX - w.length - 1, by omega⟩
      unfold argv
      rw [hm, read_string_append hw' h0, read_string, hsame _ hend, hzero, if_pos rfl, Option.map_some, List.append_nil]
  · -- the string goes on in the next row
    have hlen : (w.take ARG_MAX).length = ARG_MAX := by
      rw [List.length_take]
      omega
    have hw' : At argvp' (i * ARG_MAX) (w.take ARG_MAX) := (hw.take ARG_MAX).congr fun q _ hq => hsame q (by
      rw [hlen] at hq
      unfold ARG_MAX at hq ⊢
      omega)
    have hrow : 0 ∉ w.take ARG_MAX → argv argvp' i = some (w.take ARG_MAX ++ v) := by
      intro h0
      have hcount : ARG_LENGTH * ARG_MAX - i * ARG_MAX =
          (w.take ARG_MAX).length + (ARG_LENGTH * ARG_MAX - (i + 1) * ARG_MAX) := by
        rw [hlen]
        unfold ARG_MAX at hshort hroom ⊢
        omega
      unfold argv at hnext ⊢
      rw [hcount, read_string_append hw' h0, hlen, show i * ARG_MAX + ARG_MAX = (i + 1) * ARG_MAX by ring, hnext,
        Option.map_some]
    constructor
    · intro h
      have h0 := read_string_no_zero h
      rw [hrow fun hm => h0 (List.mem_of_mem_take hm)] at h
      have heq := Option.some_inj.1 h
      refine ⟨h0, .inr ?_⟩
      rw [← heq, List.drop_left' hlen]
    · rintro ⟨h0, hdrop⟩
      rw [hrow fun hm => h0 (List.mem_of_mem_take hm), ← hdrop.resolve_left hshort, List.take_append_drop]

/-- The string of a word that nothing was written behind. -/
theorem argv_last (hw : At argvp (i * ARG_MAX) w) (hzero : byte argvp (i * ARG_MAX + w.length) = 0)
    (hroom : i * ARG_MAX + w.length < ARG_LENGTH * ARG_MAX) : argv argvp i = some w ↔ 0 ∉ w := by
  constructor
  · exact read_string_no_zero
  · intro h0
    obtain ⟨m, hm⟩ : ∃ m, ARG_LENGTH * ARG_MAX - i * ARG_MAX = w.length + (m + 1) :=
      ⟨ARG_LENGTH * ARG_MAX - i * ARG_MAX - w.length - 1, by omega⟩
    unfold argv
    rw [hm, read_string_append hw h0, read_string, hzero, if_pos rfl, Option.map_some, List.append_nil]

/-- A row that begins with a zero holds the empty string. -/
theorem argv_empty (hi : i < ARG_LENGTH) (hzero : byte argvp (i * ARG_MAX) = 0) : argv argvp i = some [] := by
  have hzero' : byte argvp (i * ARG_MAX + ([] : List UInt8).length) = 0 := by rwa [List.length_nil, Nat.add_zero]
  have hroom : i * ARG_MAX + ([] : List UInt8).length < ARG_LENGTH * ARG_MAX := by
    unfold ARG_LENGTH ARG_MAX at *
    rw [List.length_nil]
    omega
  exact (argv_last (at_nil _ _) hzero' hroom).2 (by simp)

end

/-! ## The words -/

theorem words_nil_spaced {line : List UInt8} (h : words line = []) : Spaced (space :: line) := by
  have hall : ∀ c ∈ line, c = space := by
    induction line with
    | nil => simp
    | cons c line ih =>
      rw [← wordsFrom_empty] at h
      by_cases hc : c = space
      · rw [hc, wordsFrom_space, if_pos rfl, List.nil_append] at h
        simpa [hc] using ih h
      · rw [wordsFrom_cons _ _ hc] at h
        have hpos := (@le_of_wordsFrom ([] ++ [c]) line (by simp)).1
        rw [h] at hpos
        cases hpos
  unfold Spaced
  rw [List.getLast?_cons]
  cases hlast : line.getLast? with
  | none => rfl
  | some c => exact congrArg some (hall c (List.mem_of_getLast? hlast))

theorem spaced_cons {c : UInt8} {line : List UInt8} (h : c ≠ space ∨ line ≠ []) : Spaced (c :: line) ↔ Spaced line := by
  unfold Spaced
  rw [List.getLast?_cons]
  cases hlast : line.getLast? with
  | none =>
    have hline : line = [] := List.getLast?_eq_none_iff.1 hlast
    simpa using h.resolve_right (not_not.2 hline)
  | some d => rfl

theorem wordsFrom_head {cur : List UInt8} (hcur : cur ≠ []) (line : List UInt8) :
    ∃ w ws, wordsFrom cur line = w :: ws ∧ cur.length ≤ w.length := by
  unfold wordsFrom
  obtain ⟨w, ws, hsplit⟩ := List.exists_cons_of_ne_nil (List.splitOn_ne_nil space line)
  refine ⟨cur ++ w, ws.filter (· ≠ []), ?_, by simp⟩
  rw [hsplit, List.modifyHead_cons, List.filter_cons_of_pos (by simp [hcur])]

section
variable {spaced spaced' : Prop} {i : Nat} {w : List UInt8} {ws : List (List UInt8)}

/-- The first word and its zero lie within the table. -/
theorem Fits.room (h : Fits spaced i (w :: ws)) : i * ARG_MAX + w.length < ARG_LENGTH * ARG_MAX := by
  induction ws generalizing i w with
  | nil => exact h.2.1
  | cons w' ws ih =>
    obtain ⟨-, hrow, hrest⟩ := h
    have hnext := ih hrest
    rcases hrow with hshort | hdrop
    · unfold ARG_MAX at *
      omega
    · have hlen := congrArg List.length hdrop
      rw [List.length_drop] at hlen
      unfold ARG_MAX at *
      omega

theorem Fits.row (h : Fits spaced i ws) : i < ARG_LENGTH := by
  cases ws with
  | nil => exact h
  | cons w ws =>
    have hroom := h.room
    unfold ARG_LENGTH ARG_MAX at *
    omega

theorem Fits.congr (h : ws ≠ [] → (spaced ↔ spaced')) : Fits spaced i ws ↔ Fits spaced' i ws := by
  induction ws generalizing i with
  | nil => exact Iff.rfl
  | cons w ws ih =>
    have hsame := h (by simp)
    cases ws with
    | nil => simp only [Fits, hsame]
    | cons w' ws => simp only [Fits, ih fun _ => hsame]

end

/-! ## The loop -/

/-- The state with `c` in byte `p` of the table. -/
def State.put (s : State) (p : Nat) (c : UInt8) : State := { s with argvp := put_char s.argvp p c }

section
variable {rest line cur : List UInt8} {argc ind n : Nat} {c : UInt8} {s s' : State}

/-- A store returns if it is within the table. -/
theorem store_char_bind {α : Type} {f : Unit → Exec State α} {r : α × State} :
    (store_char argc ind c >>= f) s = .ok r ↔
      argc * ARG_MAX + ind < ARG_LENGTH * ARG_MAX ∧ f () (s.put (argc * ARG_MAX + ind) c) = .ok r := by
  unfold store_char
  by_cases hroom : argc * ARG_MAX + ind < ARG_LENGTH * ARG_MAX
  · rw [if_pos hroom, Exec.bind_of_ok (Exec.modify_apply _ _)]
    exact (and_iff_right hroom).symm
  · rw [if_neg hroom, Exec.bind_of_error (Exec.fault_apply _ _)]
    exact iff_of_false (fun h => nomatch h) fun h => hroom h.1

theorem getline_loop_newline : getline_loop (newline :: rest) argc ind = (do
    store_char argc ind 0
    modify fun s => { s with stdin := rest }
    return if ind ≠ 0 then argc + 1 else argc) := by
  rw [getline_loop, if_neg (by decide), if_pos (.inr rfl)]
  simp

theorem getline_loop_space : getline_loop (space :: rest) argc ind = (do
    store_char argc ind 0
    getline_loop rest (if ind ≠ 0 then argc + 1 else argc) 0) := by
  rw [getline_loop, if_neg (by decide), if_pos (.inl rfl)]
  simp [show space ≠ newline by decide]

theorem getline_loop_char (heof : c ≠ EOF) (hspace : c ≠ space) (hnewline : c ≠ newline) :
    getline_loop (c :: rest) argc ind = (do
      store_char argc ind c
      getline_loop rest argc (ind + 1)) := by
  rw [getline_loop, if_neg heof, if_neg (by simp [hspace, hnewline])]

end

/-- From a row on, the rows in front are left alone, and a row that no word follows in begins with a zero. -/
theorem getline_loop_frame (rest line : List UInt8) : ∀ {argc ind n : Nat} {s s' : State}, newline ∉ line → EOF ∉ line →
    getline_loop (line ++ newline :: rest) argc ind s = .ok (n, s') →
    (∀ p < argc * ARG_MAX, byte s'.argvp p = byte s.argvp p) ∧
      (ind = 0 → words line = [] → byte s'.argvp (argc * ARG_MAX) = 0) := by
  induction line with
  | nil =>
    intro argc ind n s s' _ _ h
    rw [List.nil_append, getline_loop_newline, store_char_bind] at h
    cases h.2
    refine ⟨fun p hp => ?_, fun hind _ => ?_⟩
    · exact (byte_put_char ..).trans (if_neg (by omega))
    · exact (byte_put_char ..).trans (if_pos (by omega))
  | cons c line ih =>
    intro argc ind n s s' hnl heof h
    obtain ⟨hnl', hnl''⟩ := not_or.1 (mt List.mem_cons.2 hnl)
    obtain ⟨heof', heof''⟩ := not_or.1 (mt List.mem_cons.2 heof)
    by_cases hc : c = space
    · rw [hc, List.cons_append, getline_loop_space, store_char_bind] at h
      obtain ⟨hframe, hzero⟩ := ih hnl'' heof'' h.2
      refine ⟨fun p hp => ?_, fun hind hwords => ?_⟩
      · rw [hframe p (by unfold ARG_MAX at *; split <;> omega)]
        exact (byte_put_char ..).trans (if_neg (by omega))
      · rw [hc, ← wordsFrom_empty, wordsFrom_space, if_pos rfl, List.nil_append] at hwords
        rw [hind] at hzero
        exact hzero rfl hwords
    · rw [List.cons_append, getline_loop_char (Ne.symm heof') hc (Ne.symm hnl'), store_char_bind] at h
      obtain ⟨hframe, -⟩ := ih hnl'' heof'' h.2
      refine ⟨fun p hp => ?_, fun _ hwords => ?_⟩
      · rw [hframe p hp]
        exact (byte_put_char ..).trans (if_neg (by omega))
      · rw [← wordsFrom_empty, wordsFrom_cons _ _ hc] at hwords
        obtain ⟨w, ws, hw, -⟩ := @wordsFrom_head ([] ++ [c]) (by simp) line
        rw [hw] at hwords
        cases hwords

/-! ## One character -/

/-- From row `i` on the slots point to the words `ws`. -/
def Slots (argvp : Nat → Nat → UInt8) (i : Nat) (ws : List (List UInt8)) : Prop :=
  ∀ j (h : j < ws.length), argv argvp (i + j) = some ws[j]

theorem slots_nil (argvp : Nat → Nat → UInt8) (i : Nat) : Slots argvp i [] := fun j hj => absurd hj (Nat.not_lt_zero j)

theorem slots_cons {argvp : Nat → Nat → UInt8} {i : Nat} {w : List UInt8} {ws : List (List UInt8)} :
    Slots argvp i (w :: ws) ↔ argv argvp i = some w ∧ Slots argvp (i + 1) ws := by
  constructor
  · intro h
    refine ⟨h 0 (by simp), fun j hj => ?_⟩
    have hnext := h (j + 1) (by simpa using hj)
    rwa [show i + (j + 1) = i + 1 + j by omega] at hnext
  · rintro ⟨hw, hws⟩ j hj
    cases j with
    | zero => exact hw
    | succ j =>
      rw [show i + (j + 1) = i + 1 + j by omega]
      exact hws j (by simpa using hj)

/-- With the part `cur` of a word in row `argc`: over the rest `line` of the line, the loop returns the number
of the words, and from that row on the slots point to them. -/
def Reads (rest line cur : List UInt8) (argc : Nat) (s : State) : Prop :=
  ∃ s', getline_loop (line ++ newline :: rest) argc cur.length s = .ok (argc + (wordsFrom cur line).length, s') ∧
    Slots s'.argvp argc (wordsFrom cur line)

section
variable {rest line cur : List UInt8} {argc : Nat} {c : UInt8} {s : State}

/-- The newline behind a separator. -/
theorem reads_newline_empty : Reads rest [] [] argc s ↔ Fits (Spaced []) argc [] := by
  unfold Reads
  rw [List.nil_append, getline_loop_newline, wordsFrom_nil, if_pos rfl]
  simp only [store_char_bind, List.length_nil]
  constructor
  · rintro ⟨s', ⟨hroom, -⟩, -⟩
    unfold Fits
    unfold ARG_LENGTH ARG_MAX at *
    omega
  · intro hfits
    have hrow := hfits.row
    refine ⟨_, ⟨?_, rfl⟩, slots_nil _ _⟩
    unfold ARG_LENGTH ARG_MAX at *
    omega

/-- The newline behind a word. -/
theorem reads_newline_word (hcur : At s.argvp (argc * ARG_MAX) cur) (hne : cur ≠ []) :
    Reads rest [] cur argc s ↔ Fits (Spaced []) argc [cur] := by
  obtain ⟨hend, hzero⟩ := hcur.terminated
  unfold Reads
  rw [List.nil_append, getline_loop_newline, wordsFrom_nil, if_neg hne, if_pos (by simpa using hne)]
  simp only [store_char_bind]
  constructor
  · rintro ⟨s', ⟨hroom, hrest⟩, hslots⟩
    cases hrest
    have hslot := (slots_cons.1 hslots).1
    exact ⟨(argv_last hend hzero hroom).1 hslot, hroom, fun hspaced => absurd hspaced (by simp [Spaced])⟩
  · rintro ⟨h0, hroom, -⟩
    exact ⟨_, ⟨hroom, rfl⟩, slots_cons.2 ⟨(argv_last hend hzero hroom).2 h0, slots_nil _ _⟩⟩

/-- A space behind a separator. -/
theorem reads_space_empty (hrest : Reads rest line [] argc (s.put (argc * ARG_MAX) 0) ↔
    Fits (Spaced line) argc (words line)) :
    Reads rest (space :: line) [] argc s ↔ Fits (Spaced (space :: line)) argc (words line) := by
  have hspaced : words line ≠ [] → (Spaced (space :: line) ↔ Spaced line) := fun hwords =>
    spaced_cons (.inr fun hnil => hwords (by rw [hnil]; rfl))
  unfold Reads at hrest ⊢
  rw [wordsFrom_empty, List.length_nil] at hrest
  rw [Fits.congr hspaced, ← hrest, List.cons_append, getline_loop_space, wordsFrom_space, if_pos rfl, List.nil_append]
  simp only [store_char_bind, List.length_nil]
  constructor
  · rintro ⟨s', ⟨-, hrun⟩, hslots⟩
    exact ⟨s', hrun, hslots⟩
  · rintro ⟨s', hrun, hslots⟩
    have hrow := (hrest.1 ⟨s', hrun, hslots⟩).row
    refine ⟨s', ⟨?_, hrun⟩, hslots⟩
    unfold ARG_LENGTH ARG_MAX at *
    omega

/-- A character of a word. -/
theorem reads_char (heof : c ≠ EOF) (hspace : c ≠ space) (hnewline : c ≠ newline)
    (hrest : Reads rest line (cur ++ [c]) argc (s.put (argc * ARG_MAX + cur.length) c) ↔
      Fits (Spaced line) argc (wordsFrom (cur ++ [c]) line)) :
    Reads rest (c :: line) cur argc s ↔ Fits (Spaced (c :: line)) argc (wordsFrom cur (c :: line)) := by
  unfold Reads at hrest ⊢
  rw [List.length_append, List.length_singleton] at hrest
  rw [wordsFrom_cons _ _ hspace, Fits.congr fun _ => spaced_cons (.inl hspace), ← hrest, List.cons_append,
    getline_loop_char heof hspace hnewline]
  simp only [store_char_bind]
  constructor
  · rintro ⟨s', ⟨-, hrun⟩, hslots⟩
    exact ⟨s', hrun, hslots⟩
  · rintro ⟨s', hrun, hslots⟩
    refine ⟨s', ⟨?_, hrun⟩, hslots⟩
    -- the word is at least as long as what was read of it
    have hfits := hrest.1 ⟨s', hrun, hslots⟩
    obtain ⟨w, ws, hw, hle⟩ := @wordsFrom_head (cur ++ [c]) (by simp) line
    rw [hw] at hfits
    have hword := hfits.room
    rw [List.length_append] at hle
    omega

/-- What the run behind a space needs: the space is stored, and the slot of the word is looked at in the end. -/
theorem reads_space (hne : cur ≠ []) : Reads rest (space :: line) cur argc s ↔
    argc * ARG_MAX + cur.length < ARG_LENGTH * ARG_MAX ∧
      ∃ s', getline_loop (line ++ newline :: rest) (argc + 1) 0 (s.put (argc * ARG_MAX + cur.length) 0) =
          .ok (argc + 1 + (words line).length, s') ∧
        argv s'.argvp argc = some cur ∧ Slots s'.argvp (argc + 1) (words line) := by
  unfold Reads
  rw [List.cons_append, getline_loop_space, wordsFrom_space, if_neg hne, if_pos (by simpa using hne),
    List.singleton_append, List.length_cons,
    show argc + ((words line).length + 1) = argc + 1 + (words line).length by omega]
  simp only [store_char_bind, slots_cons]
  constructor
  · rintro ⟨s', ⟨hroom, hrun⟩, hslots⟩
    exact ⟨hroom, s', hrun, hslots⟩
  · rintro ⟨hroom, s', hrun, hslots⟩
    exact ⟨s', ⟨hroom, hrun⟩, hslots⟩

/-- The slot of the word in front of a space, once the line is read. -/
theorem reads_space_slot (hcur : At s.argvp (argc * ARG_MAX) cur) (hnl : newline ∉ line) (heof : EOF ∉ line) {n : Nat}
    {s' : State} {v : List UInt8} (hroom : argc * ARG_MAX + cur.length < ARG_LENGTH * ARG_MAX)
    (hrun : getline_loop (line ++ newline :: rest) (argc + 1) 0 (s.put (argc * ARG_MAX + cur.length) 0) = .ok (n, s'))
    (hnext : argv s'.argvp (argc + 1) = some v) :
    argv s'.argvp argc = some cur ↔ 0 ∉ cur ∧ (cur.length < ARG_MAX ∨ cur.drop ARG_MAX = v) :=
  argv_row hcur.terminated.1 hcur.terminated.2 hroom (getline_loop_frame rest line hnl heof hrun).1 hnext

/-- A space behind the last word. -/
theorem reads_space_last (hcur : At s.argvp (argc * ARG_MAX) cur) (hne : cur ≠ []) (hnl : newline ∉ line)
    (heof : EOF ∉ line) (hwords : words line = [])
    (hrest : Reads rest line [] (argc + 1) (s.put (argc * ARG_MAX + cur.length) 0) ↔ argc + 1 < ARG_LENGTH) :
    Reads rest (space :: line) cur argc s ↔ Fits (Spaced (space :: line)) argc [cur] := by
  have hspaced : Spaced (space :: line) := words_nil_spaced hwords
  have hempty : ∀ s', getline_loop (line ++ newline :: rest) (argc + 1) 0 (s.put (argc * ARG_MAX + cur.length) 0) =
      .ok (argc + 1, s') → argc + 1 < ARG_LENGTH → argv s'.argvp (argc + 1) = some [] :=
    fun s' hrun hrow => argv_empty hrow ((getline_loop_frame rest line hnl heof hrun).2 rfl hwords)
  unfold Reads at hrest
  rw [wordsFrom_empty, hwords] at hrest
  rw [reads_space hne, hwords]
  constructor
  · rintro ⟨hroom, s', hrun, hslot, -⟩
    have hrow := hrest.1 ⟨s', hrun, slots_nil _ _⟩
    obtain ⟨h0, hshort⟩ := (reads_space_slot hcur hnl heof hroom hrun (hempty s' hrun hrow)).1 hslot
    rw [List.drop_eq_nil_iff] at hshort
    exact ⟨h0, hroom, fun _ => ⟨by omega, hrow⟩⟩
  · rintro ⟨h0, hroom, hlast⟩
    obtain ⟨hshort, hrow⟩ := hlast hspaced
    obtain ⟨s', hrun, hslots⟩ := hrest.2 hrow
    have hslot := reads_space_slot hcur hnl heof hroom hrun (hempty s' hrun hrow)
    exact ⟨hroom, s', hrun, hslot.2 ⟨h0, .inr (List.drop_eq_nil_iff.2 hshort)⟩, hslots⟩

/-- A space behind a word that others follow. -/
theorem reads_space_inner (hcur : At s.argvp (argc * ARG_MAX) cur) (hne : cur ≠ []) (hnl : newline ∉ line)
    (heof : EOF ∉ line) {w : List UInt8} {ws : List (List UInt8)} (hwords : words line = w :: ws)
    (hrest : Reads rest line [] (argc + 1) (s.put (argc * ARG_MAX + cur.length) 0) ↔
      Fits (Spaced line) (argc + 1) (w :: ws)) :
    Reads rest (space :: line) cur argc s ↔ Fits (Spaced (space :: line)) argc (cur :: w :: ws) := by
  have hspaced : Spaced (space :: line) ↔ Spaced line := spaced_cons (.inr (by
    rintro rfl
    cases hwords))
  unfold Reads at hrest
  rw [wordsFrom_empty, hwords] at hrest
  rw [reads_space hne, hwords, Fits.congr fun _ => hspaced]
  constructor
  · rintro ⟨hroom, s', hrun, hslot, hslots⟩
    obtain ⟨h0, hrow⟩ := (reads_space_slot hcur hnl heof hroom hrun (slots_cons.1 hslots).1).1 hslot
    exact ⟨h0, hrow, hrest.1 ⟨s', hrun, hslots⟩⟩
  · intro hfits
    have hroom := hfits.room
    obtain ⟨h0, hrow, hfits'⟩ := hfits
    obtain ⟨s', hrun, hslots⟩ := hrest.2 hfits'
    have hslot := reads_space_slot hcur hnl heof hroom hrun (slots_cons.1 hslots).1
    exact ⟨hroom, s', hrun, hslot.2 ⟨h0, hrow⟩, hslots⟩

end

/-! ## The line -/

/-- By induction on the line. -/
theorem reads_iff (rest line : List UInt8) : ∀ (cur : List UInt8) (argc : Nat)
    (s : State), newline ∉ line → EOF ∉ line →
    At s.argvp (argc * ARG_MAX) cur → (Reads rest line cur argc s ↔ Fits (Spaced line) argc (wordsFrom cur line)) := by
  induction line with
  | nil =>
    intro cur argc s _ _ hcur
    rw [wordsFrom_nil]
    by_cases hne : cur = []
    · rw [if_pos hne, hne]
      exact reads_newline_empty
    · rw [if_neg hne]
      exact reads_newline_word hcur hne
  | cons c line ih =>
    intro cur argc s hnl heof hcur
    obtain ⟨hnl', hnl''⟩ := not_or.1 (mt List.mem_cons.2 hnl)
    obtain ⟨heof', heof''⟩ := not_or.1 (mt List.mem_cons.2 heof)
    by_cases hc : c = space
    · rw [hc, wordsFrom_space]
      by_cases hne : cur = []
      · -- nothing was read since the last separator
        have hih := ih [] argc (s.put (argc * ARG_MAX) 0) hnl'' heof'' (at_nil _ _)
        rw [wordsFrom_empty] at hih
        rw [if_pos hne, List.nil_append, hne]
        exact reads_space_empty hih
      · -- a word ends, and the next one goes to the next row
        have hih := ih [] (argc + 1) (s.put (argc * ARG_MAX + cur.length) 0) hnl'' heof'' (at_nil _ _)
        rw [wordsFrom_empty] at hih
        rw [if_neg hne, List.singleton_append]
        cases hwords : words line with
        | nil =>
          rw [hwords] at hih
          exact reads_space_last hcur hne hnl'' heof'' hwords hih
        | cons w ws =>
          rw [hwords] at hih
          exact reads_space_inner hcur hne hnl'' heof'' hwords hih
    · exact reads_char (Ne.symm heof') hc (Ne.symm hnl') (ih _ _ _ hnl'' heof'' (hcur.snoc c))

/-- Short words fit while there are rows for them. -/
theorem fits_of_short {spaced : Prop} {ws : List (List UInt8)} (hnul : ∀ w ∈ ws, 0 ∉ w)
    (hshort : ∀ w ∈ ws, w.length ≤ 15) : ∀ i, i + ws.length < ARG_LENGTH → Fits spaced i ws := by
  induction ws with
  | nil => exact fun i hi => hi
  | cons w ws ih =>
    intro i hi
    have hw := hshort w (by simp)
    rw [List.length_cons] at hi
    cases ws with
    | nil =>
      rw [List.length_nil] at hi
      refine ⟨hnul w (by simp), ?_, fun _ => ⟨by unfold ARG_MAX; omega, by omega⟩⟩
      unfold ARG_LENGTH ARG_MAX at *
      omega
    | cons w' ws =>
      refine ⟨hnul w (by simp), .inl (Nat.lt_succ_of_le hw),
        ih (fun v hv => hnul v ?_) (fun v hv => hshort v ?_) (i + 1) (by omega)⟩
      · exact List.mem_cons_of_mem _ hv
      · exact List.mem_cons_of_mem _ hv

/-- The lines of a session are read right. -/
theorem Typed.fits {line : List UInt8} (h : Typed line) : Fits (Spaced line) 0 (words line) := by
  have hfew := h.few
  exact fits_of_short h.nul_words h.short 0 (by unfold ARG_LENGTH; omega)

/-- For every line and whatever is in the table before: `getline` stores nothing outside the table and returns
the number of the words, each slot pointing to its word, if and only if the words fit. -/
theorem getline_words_iff {line rest : List UInt8} {s : State} (hnl : newline ∉ line) (heof : EOF ∉ line)
    (hin : s.stdin = line ++ newline :: rest) :
    (∃ s', getline s = .ok ((words line).length, s') ∧
        ∀ i (h : i < (words line).length), argv s'.argvp i = some (words line)[i]) ↔
      Fits (Spaced line) 0 (words line) := by
  have hloop := reads_iff rest line [] 0 s hnl heof (at_nil _ _)
  unfold Reads Slots at hloop
  simp only [wordsFrom_empty, Nat.zero_add, List.length_nil] at hloop
  unfold getline
  rw [Exec.bind_of_ok (Exec.get_apply s), hin]
  exact hloop

/-- Seventeen characters are read right if nothing follows them. -/
theorem getline_words_iff_last : ∃ s', getline (started (List.replicate 17 0x61 ++ newline :: [])) = .ok (1, s') ∧
    argv s'.argvp 0 = some (List.replicate 17 0x61) := by
  have hwords : words (List.replicate 17 0x61) = [List.replicate 17 0x61] := by decide +kernel
  have hfits : Fits (Spaced (List.replicate 17 0x61)) 0 (words (List.replicate 17 0x61)) := by
    rw [hwords]
    exact ⟨by decide, by decide, fun h : List.getLast? _ = some space => absurd h (by decide)⟩
  have hwitness := (@getline_words_iff (List.replicate 17 0x61) [] (started (List.replicate 17 0x61 ++ newline :: []))
    (by decide) (by decide) rfl).2 hfits
  rw [hwords] at hwitness
  obtain ⟨s', hrun, hslots⟩ := hwitness
  exact ⟨s', hrun, hslots 0 (by decide)⟩

/-- Seventeen characters and a second word -/
def lineOverlong : List UInt8 := List.replicate 17 0x61 ++ [space, 0x62]

/-- Sixty-four words, and a space behind the last -/
def lineFull : List UInt8 := (List.replicate 64 [0x61, space]).flatten

/-- The seventeenth character is overwritten by the second word, and a space behind the last row that a
word can have makes the newline store outside the table. -/
theorem getline_overwrites :
    (¬ ∃ s', getline (started (lineOverlong ++ newline :: [])) = .ok ((words lineOverlong).length, s') ∧
      ∀ i (h : i < (words lineOverlong).length), argv s'.argvp i = some (words lineOverlong)[i]) ∧
    getline (started (lineFull ++ newline :: [])) = .error .outOfBounds := by
  have hwords : words lineOverlong = [List.replicate 17 0x61, [0x62]] := by decide +kernel
  have hslot : (getline (started (lineOverlong ++ newline :: []))).map (fun r => argv r.2.argvp 0) =
      .ok (some (List.replicate 16 0x61 ++ [0x62])) := by decide +kernel
  refine ⟨?_, Exec.error_of_map (by decide +kernel)⟩
  rw [hwords]
  rintro ⟨s', hrun, hslots⟩
  rw [hrun] at hslot
  have hfirst := (Except.ok.inj hslot).symm.trans (hslots 0 (by decide))
  exact absurd hfirst (by decide)

end Ulmix.Shell

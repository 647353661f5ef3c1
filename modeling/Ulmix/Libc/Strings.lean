import Ulmix.Lib.Numeral
import Ulmix.Userspace.Stdlib
/-!
# Numbers as text (`libc/string.c`)

A conversion gets a buffer, an object of some length, and stores one character after
the other from its start. Each loop here is a sequence of stores (`stores`), so what a
conversion does to its buffer is settled by the one word it stores: there is room for
it and the terminating zero, or the conversion runs out of the buffer (`Produces`).

`utoa` stores the digits from the lowest on and turns them round; `xtoa` goes through
the eight nibbles of a word from the highest on, and so never writes more than eight;
`itoa` drops the sign. `atoi` reads from the right, with `int` arithmetic that wraps.
-/
open Ulmix.Lib
open Ulmix.Stdlib (load store strlen int32 char chars)

namespace Ulmix.Libc

/-! ## The functions -/

/-- Word for word the function of the user library. -/
def reverse : Exec (List UInt8) Unit := Stdlib.reverse

def nchar (x : Int) : UInt8 :=
  let x := if x < 0 then int32 (-x) else x
  if x < 10 then char (0x30 + x) else char (0x61 + x - 10)

/-- The loop of `atoi`, with `i + 1` for `i`. -/
def atoi_loop : Nat → Int → Int → Exec (List UInt8) Int
  | 0, x, _ => pure x
  | i + 1, x, base => do
    let c ← load i
    atoi_loop i (int32 (x + int32 ((c.toInt8.toInt - 0x30) * base))) (int32 (base * 10))

def atoi : Exec (List UInt8) Int := do
  let len ← strlen 0
  atoi_loop (int32 (len - 1) + 1).toNat 0 1

/-- The first loop of `utoa`; ten digits are enough for 32 bits. -/
def utoa_digits : Nat → Nat → Nat → Exec (List UInt8) Nat
  | 0, _, _ => Exec.fault .diverges
  | fuel + 1, x, i => do
    if x > 0 then
      store i (nchar (x % 10 : Nat))
      utoa_digits fuel (x / 10) (i + 1)
    else pure i

/-- `while (pad-- > 0)` -/
def utoa_pad : Nat → Nat → Exec (List UInt8) Nat
  | 0, i => pure i
  | pad + 1, i => do
    store i 0x30
    utoa_pad pad (i + 1)

/-- `utoa`, where the state is the object at `buf`. -/
def utoa (x : Nat) (pad : Int) : Exec (List UInt8) Unit := do
  let pad := if pad < 1 then 1 else pad
  let i ← utoa_digits 11 x 0
  let i ← utoa_pad (pad - i).toNat i
  store i 0
  reverse

def itoa (x : Int) (pad : Int) : Exec (List UInt8) Unit :=
  let x := if x < 0 then int32 (-x) else x
  utoa (x % 2 ^ 32).toNat pad

/-- The loop of `xtoa`, with `i + 1` for `i`. -/
def xtoa_loop (x : Nat) (pad : Int) : Nat → Bool → Nat → Exec (List UInt8) Nat
  | 0, _, buf => pure buf
  | i + 1, start, buf => do
    let c := nchar (((x >>> (i * 4)) &&& 0xf : Nat))
    if c = 0x30 ∧ start ∧ (i : Int) ≥ pad then xtoa_loop x pad i start buf
    else
      store buf c
      xtoa_loop x pad i false (buf + 1)

def xtoa (x : Nat) (pad : Int) : Exec (List UInt8) Unit := do
  let pad := if pad < 1 then 1 else pad
  let buf ← xtoa_loop x pad 8 true 0
  store buf 0

/-! ## Storing a word -/

/-- Store the characters of `w` one behind the other. -/
def stores : Nat → List UInt8 → Exec (List UInt8) Unit
  | _, [] => pure ()
  | i, c :: w => do
    store i c
    stores (i + 1) w

theorem stores_append (v w : List UInt8) (i : Nat) :
    stores i (v ++ w) = (do stores i v; stores (i + v.length) w) := by
  induction v generalizing i with
  | nil => simp [stores]
  | cons c v ih =>
    have hi : i + (c :: v).length = i + 1 + v.length := by
      rw [List.length_cons]
      omega
    simp only [List.cons_append, stores, ih, bind_assoc, hi]

theorem store_run (before after : List UInt8) (c : UInt8) :
    store before.length c (before ++ after) =
      if after = [] then .error .outOfBounds else .ok ((), before ++ c :: after.drop 1) := by
  unfold store
  rw [Exec.bind_of_ok (Exec.get_apply _)]
  cases after with
  | nil => simp
  | cons a after => simp

/-- The word lies behind what is there, or there is too little room for it. -/
theorem stores_run (w before after : List UInt8) :
    stores before.length w (before ++ after) =
      if w.length ≤ after.length then .ok ((), before ++ w ++ after.drop w.length) else .error .outOfBounds := by
  induction w generalizing before after with
  | nil => simp [stores]
  | cons c w ih =>
    unfold stores
    cases after with
    | nil =>
      rw [Exec.bind_of_error (store_run before [] c)]
      simp
    | cons a after =>
      have hnext := ih (before ++ [c]) after
      simp only [List.length_append, List.length_singleton, List.append_assoc, List.singleton_append] at hnext
      rw [Exec.bind_of_ok (store_run before (a :: after) c), List.drop_one, List.tail_cons, hnext]
      simp

/-- `x` puts the string `w` at the start of its buffer, and leaves the buffer if `w` does not fit. -/
def Produces (x : Exec (List UInt8) Unit) (w : List UInt8) : Prop :=
  ∀ buf : List UInt8, x buf =
    if w.length < buf.length then .ok ((), w ++ 0 :: buf.drop (w.length + 1)) else .error .outOfBounds

/-- `x` writes the string `w` to any buffer long enough for it. -/
def Writes (x : Exec (List UInt8) Unit) (w : List UInt8) : Prop :=
  ∀ buf : List UInt8, w.length < buf.length → x buf = .ok ((), w ++ 0 :: buf.drop (w.length + 1))

theorem Produces.writes {x : Exec (List UInt8) Unit} {w : List UInt8} (h : Produces x w) : Writes x w := by
  intro buf hlen
  rw [h buf, if_pos hlen]

/-- A conversion writes one string: in a buffer of ones the last zero is behind it. -/
theorem Writes.unique {x : Exec (List UInt8) Unit} {v w : List UInt8} (hv : Writes x v) (hw : Writes x w) : v = w := by
  have hlast : ∀ v w : List UInt8, v.length < w.length → ∀ n rest,
      v ++ 0 :: List.replicate (w.length + n) 1 ≠ w ++ 0 :: rest := by
    intro v w hlt n rest heq
    have hat := congrArg (·[w.length]?) heq
    obtain ⟨k, hk⟩ : ∃ k, w.length - v.length = k + 1 := ⟨w.length - v.length - 1, by omega⟩
    simp only [List.getElem?_append_right hlt.le, hk, List.getElem?_append_right le_rfl, Nat.sub_self,
      List.getElem?_cons_succ, List.getElem?_replicate, List.getElem?_cons_zero] at hat
    rw [if_pos (by omega)] at hat
    cases hat
  let buf : List UInt8 := List.replicate (v.length + w.length + 1) 1
  have hrun := (hv buf (by simp only [buf, List.length_replicate]; omega)).symm.trans
    (hw buf (by simp only [buf, List.length_replicate]; omega))
  have hbuf := congrArg Prod.snd (Except.ok.inj hrun)
  simp only [buf, List.drop_replicate, show v.length + w.length + 1 - (v.length + 1) = w.length + 0 by omega,
    show v.length + w.length + 1 - (w.length + 1) = v.length + 0 by omega] at hbuf
  rcases Nat.lt_trichotomy v.length w.length with hlt | heq | hgt
  · exact absurd hbuf (hlast v w hlt 0 _)
  · exact (List.append_inj hbuf heq).1
  · exact absurd hbuf.symm (hlast w v hgt 0 _)

/-- Storing a string and its zero. -/
theorem stores_produces (w : List UInt8) : Produces (stores 0 (w ++ [0])) w := by
  intro buf
  have hrun := stores_run (w ++ [0]) [] buf
  simp only [List.length_nil, List.nil_append, List.length_append, List.length_singleton, List.append_assoc,
    List.singleton_append] at hrun
  rw [hrun]
  rfl

/-! ## Reversing -/

theorem store_set {i : Nat} {c : UInt8} {s : List UInt8} (h : i < s.length) : store i c s = .ok ((), s.set i c) := by
  unfold store
  rw [Exec.bind_of_ok (Exec.get_apply _), if_pos h]
  rfl

theorem load_run (before after : List UInt8) (c : UInt8) :
    load before.length (before ++ c :: after) = .ok (c, before ++ c :: after) := by
  unfold load
  rw [Exec.bind_of_ok (Exec.get_apply _)]
  simp

theorem strlen_run {w : List UInt8} (h : 0 ∉ w) (rest : List UInt8) :
    strlen 0 (w ++ 0 :: rest) = .ok (w.length, w ++ 0 :: rest) := by
  have hidx : (w ++ 0 :: rest).findIdx? (· = 0) = some w.length := by
    rw [List.findIdx?_append, List.findIdx?_eq_none_iff.2 (by intro c hc; simpa using fun h0 : c = 0 => h (h0 ▸ hc))]
    simp [List.findIdx?_cons]
  unfold strlen
  rw [Exec.bind_of_ok (Exec.get_apply _), List.drop_zero, hidx]
  rfl

theorem reverse_loop_run (m : List UInt8) : ∀ (fuel : Nat) (before after : List UInt8), m.length ≤ fuel →
    Stdlib.reverse_loop fuel before.length (before.length + m.length - 1) (before ++ m ++ after) =
      .ok ((), before ++ m.reverse ++ after) := by
  -- the ends change places, and the loop goes on with what is between them
  induction m using List.bidirectionalRec with
  | nil =>
    intro fuel before after _
    cases fuel with
    | zero => rfl
    | succ fuel =>
      unfold Stdlib.reverse_loop
      rw [if_neg (by simp)]
      rfl
  | singleton c =>
    intro fuel before after _
    cases fuel with
    | zero => rfl
    | succ fuel =>
      unfold Stdlib.reverse_loop
      rw [if_neg (by simp)]
      rfl
  | cons_append c m d ih =>
    intro fuel before after hfuel
    simp only [List.length_cons, List.length_append, List.length_nil] at hfuel ⊢
    obtain ⟨fuel, rfl⟩ : ∃ k, fuel = k + 1 := ⟨fuel - 1, by omega⟩
    have hbuf : before ++ (c :: (m ++ [d])) ++ after = before ++ c :: (m ++ d :: after) := by simp
    have hsecond : before ++ c :: (m ++ d :: after) = (before ++ c :: m) ++ d :: after := by simp
    have hj : before.length + (m.length + (0 + 1) + 1) - 1 = (before ++ c :: m).length := by
      simp only [List.length_append, List.length_cons]
      omega
    have hnext := ih fuel (before ++ [d]) (c :: after) (by omega)
    have hfirst : (before ++ [d]).length = before.length + 1 := by simp
    have hlast : (before ++ c :: m).length = before.length + m.length + 1 := by
      simp only [List.length_append, List.length_cons]
      omega
    rw [hbuf, hj]
    unfold Stdlib.reverse_loop
    rw [if_pos (by simp), Exec.bind_of_ok (load_run before _ c), hsecond,
      Exec.bind_of_ok (load_run (before ++ c :: m) after d), ← hsecond,
      Exec.bind_of_ok (store_set (by simp)), Exec.bind_of_ok (store_set (by simp)), hlast, swap_ends]
    simp only [hfirst, List.append_assoc, List.cons_append, List.nil_append] at hnext
    rw [show before.length + m.length + 1 - 1 = before.length + 1 + m.length - 1 by omega, hnext]
    simp

/-- A string is turned round where it lies. -/
theorem reverse_run {w : List UInt8} (h : 0 ∉ w) (rest : List UInt8) :
    reverse (w ++ 0 :: rest) = .ok ((), w.reverse ++ 0 :: rest) := by
  have hloop := reverse_loop_run w w.length [] (0 :: rest) le_rfl
  simp only [List.length_nil, Nat.zero_add, List.nil_append] at hloop
  unfold reverse Stdlib.reverse
  rw [Exec.bind_of_ok (strlen_run h rest), hloop]

/-! ## Digits -/

/-- `x` in base `b`, in the usual characters, with zeros in front up to a length of `pad`, and of one. -/
def text (b : Nat) (pad : Int) (x : Nat) : List UInt8 := chars ((numeral b (max pad 1).toNat x).map Nat.digitChar)

/-- The character of a digit. -/
def digitByte (d : Nat) : UInt8 := UInt8.ofNat (Nat.digitChar d).toNat

theorem nchar_digit : ∀ d < 16, nchar (d : Nat) = digitByte d := by decide

theorem digitByte_ne_zero : ∀ d < 16, digitByte d ≠ 0 := by decide

theorem text_eq (b : Nat) (pad : Int) (x : Nat) : text b pad x = (numeral b (max pad 1).toNat x).map digitByte := by
  simp [text, chars, digitByte, Function.comp_def]

theorem text_length (b : Nat) (pad : Int) (x : Nat) :
    (text b pad x).length = max (max pad 1).toNat (b.digits x).length := by
  rw [text_eq, List.length_map, numeral_length]

theorem text_no_zero {b : Nat} (hb : 1 < b) (hb16 : b ≤ 16) (pad : Int) (x : Nat) : 0 ∉ text b pad x := by
  intro h0
  rw [text_eq] at h0
  obtain ⟨d, hd, hzero⟩ := List.mem_map.1 h0
  have hlt := numeral_digit_lt hb hd
  exact digitByte_ne_zero d (by omega) hzero

/-- The digit a character stands for. -/
def digitValue (c : UInt8) : Nat := if c < 0x3a then c.toNat - 0x30 else c.toNat - 0x57

theorem digitValue_digitByte : ∀ d < 16, digitValue (digitByte d) = d := by decide

theorem text_digits {b : Nat} (hb : 1 < b) (hb16 : b ≤ 16) (pad : Int) (x : Nat) :
    (text b pad x).map digitValue = numeral b (max pad 1).toNat x := by
  rw [text_eq, List.map_map]
  refine (List.map_congr_left fun d hd => ?_).trans (List.map_id _)
  have hlt := numeral_digit_lt hb hd
  exact digitValue_digitByte d (by omega)

/-- A text belongs to one number, however it is padded. -/
theorem text_inj {b : Nat} (hb : 1 < b) (hb16 : b ≤ 16) {p q : Int} {x y : Nat} (h : text b p x = text b q y) :
    x = y := by
  have hdigits := congrArg (List.map digitValue) h
  rw [text_digits hb hb16, text_digits hb hb16] at hdigits
  exact numeral_inj b _ _ hdigits

/-! ## `utoa` -/

theorem utoa_digits_eq : ∀ (fuel x i : Nat), (Nat.digits 10 x).length < fuel →
    utoa_digits fuel x i = (do
      stores i ((Nat.digits 10 x).map digitByte)
      pure (i + (Nat.digits 10 x).length)) := by
  intro fuel
  induction fuel with
  | zero =>
    intro x i hfuel
    omega
  | succ fuel ih =>
    intro x i hfuel
    unfold utoa_digits
    by_cases hx : x > 0
    · have hdigits : Nat.digits 10 x = x % 10 :: Nat.digits 10 (x / 10) := Nat.digits_def' (by decide) hx
      rw [hdigits, List.length_cons] at hfuel
      rw [if_pos hx, hdigits, List.map_cons, stores, ih (x / 10) (i + 1) (by omega), nchar_digit _ (by omega)]
      simp [Nat.add_assoc, Nat.add_comm 1]
    · have h0 : x = 0 := by omega
      rw [if_neg hx, h0]
      simp [stores]

theorem utoa_pad_eq (n : Nat) : ∀ i, utoa_pad n i = (do
    stores i (List.replicate n (digitByte 0))
    pure (i + n)) := by
  induction n with
  | zero =>
    intro i
    simp [utoa_pad, stores]
  | succ n ih =>
    intro i
    have hzero : digitByte 0 = 0x30 := by decide
    rw [utoa_pad, ih, List.replicate_succ, stores, hzero]
    simp [Nat.add_assoc, Nat.add_comm 1]

/-- The digits are stored from the lowest on, the padding behind them, and the whole is turned round. -/
theorem utoa_eq {x : Nat} (hx : x < 2 ^ 32) (pad : Int) :
    utoa x pad = (do
      stores 0 ((text 10 pad x).reverse ++ [0])
      reverse) := by
  have hlen : (Nat.digits 10 x).length ≤ 10 := (Nat.digits_length_le_iff (by decide) x).2 (by omega)
  have hpad : (if pad < 1 then 1 else pad) = max pad 1 := by omega
  have htext : (text 10 pad x).reverse = (Nat.digits 10 x).map digitByte ++
      List.replicate ((max pad 1).toNat - (Nat.digits 10 x).length) (digitByte 0) := by
    rw [text_eq, ← List.map_reverse, numeral_reverse, List.map_append, List.map_replicate]
  have hcount : ((max pad 1) - ((0 + (Nat.digits 10 x).length : Nat) : Int)).toNat =
      (max pad 1).toNat - (Nat.digits 10 x).length := by
    omega
  unfold utoa
  dsimp only
  rw [hpad, htext, utoa_digits_eq 11 x 0 (by omega), stores_append, stores_append]
  simp only [utoa_pad_eq, hcount, bind_assoc, pure_bind, stores, bind_pure_unit, List.length_map, List.length_append,
    List.length_replicate, Nat.add_assoc]

theorem utoa_produces {x : Nat} (hx : x < 2 ^ 32) (pad : Int) : Produces (utoa x pad) (text 10 pad x) := by
  intro buf
  have h0 : 0 ∉ (text 10 pad x).reverse := by
    rw [List.mem_reverse]
    exact text_no_zero (by decide) (by decide) pad x
  rw [utoa_eq hx]
  have hstores := stores_produces (text 10 pad x).reverse buf
  rw [List.length_reverse] at hstores
  by_cases hlen : (text 10 pad x).length < buf.length
  · rw [if_pos hlen] at hstores ⊢
    rw [Exec.bind_of_ok hstores, reverse_run h0, List.reverse_reverse]
  · rw [if_neg hlen] at hstores ⊢
    rw [Exec.bind_of_error hstores]

/-! ## `atoi` -/

theorem digitByte_value : ∀ d < 10, (digitByte d).toInt8.toInt - 0x30 = d := by decide

/-- What a sum or product comes to in 32 bits is settled by what its parts come to. -/
theorem int32_add (x y : Int) : int32 (int32 x + int32 y) = int32 (x + y) := by
  unfold int32
  rw [Int.bmod_add_bmod, Int.add_bmod_bmod]

theorem int32_mul_left (x y : Int) : int32 (int32 x * y) = int32 (x * y) := by
  unfold int32
  rw [Int.bmod_mul_bmod]

theorem int32_mul_right (x y : Int) : int32 (x * int32 y) = int32 (x * y) := by
  unfold int32
  rw [Int.mul_bmod_bmod]

/-- `l` is the digits from the lowest on; `x` is what the ones behind them have added up to. -/
theorem atoi_loop_run (rest : List UInt8) : ∀ (l : List Nat) (x base : Int), (∀ d ∈ l, d < 10) →
    atoi_loop l.length (int32 x) (int32 base) (l.reverse.map digitByte ++ rest) =
      .ok (int32 (x + base * (Nat.ofDigits 10 l : Nat)), l.reverse.map digitByte ++ rest) := by
  intro l
  induction l generalizing rest with
  | nil =>
    intro x base _
    simp [atoi_loop]
  | cons d l ih =>
    intro x base hl
    have hload := load_run (l.reverse.map digitByte) rest (digitByte d)
    simp only [List.length_map, List.length_reverse] at hload
    have hnext := ih (digitByte d :: rest) (x + d * base) (base * 10) fun e he => hl e (List.mem_cons_of_mem _ he)
    have hsum : x + d * base + base * 10 * (Nat.ofDigits 10 l : Nat) = x + base * (Nat.ofDigits 10 (d :: l) : Nat) := by
      rw [Nat.ofDigits_cons]
      push_cast
      ring
    rw [List.length_cons, List.reverse_cons, List.map_append, List.map_singleton, List.append_assoc,
      List.singleton_append]
    unfold atoi_loop
    rw [Exec.bind_of_ok hload, digitByte_value d (hl d List.mem_cons_self), int32_mul_right, int32_add,
      int32_mul_left, hnext, hsum]

/-- Reading digits, the highest first, gives what they add up to, in 32 bits. -/
theorem atoi_digits {l : List Nat} (hl : ∀ d ∈ l, d < 10) (hlen : l.length < 2 ^ 31) (rest : List UInt8) :
    atoi (l.map digitByte ++ 0 :: rest) =
      .ok (int32 (Nat.ofDigits 10 l.reverse : Nat), l.map digitByte ++ 0 :: rest) := by
  have h0 : 0 ∉ l.map digitByte := by
    intro h0
    obtain ⟨d, hd, hzero⟩ := List.mem_map.1 h0
    have hlt := hl d hd
    exact digitByte_ne_zero d (by omega) hzero
  have hcount : (int32 ((l.map digitByte).length - 1) + 1).toNat = l.reverse.length := by
    rw [List.length_reverse, List.length_map]
    unfold int32
    rw [Int.bmod_eq_of_le (by omega) (by omega)]
    omega
  have hloop := atoi_loop_run (0 :: rest) l.reverse 0 1 fun d hd => hl d (List.mem_reverse.1 hd)
  rw [List.reverse_reverse, Int.zero_add, Int.one_mul] at hloop
  unfold atoi
  rw [Exec.bind_of_ok (strlen_run h0 rest), hcount]
  exact hloop

theorem atoi_text {x : Nat} (hx : x < 2 ^ 32) {pad : Int} (hpad : pad < 2 ^ 31) (rest : List UInt8) :
    atoi (text 10 pad x ++ 0 :: rest) = .ok (int32 x, text 10 pad x ++ 0 :: rest) := by
  have hdigits : (Nat.digits 10 x).length ≤ 10 := (Nat.digits_length_le_iff (by decide) x).2 (by omega)
  have hlen : (numeral 10 (max pad 1).toNat x).length < 2 ^ 31 := by
    rw [numeral_length]
    omega
  have hrun := atoi_digits (fun d hd => numeral_digit_lt (by decide) hd) hlen rest
  rwa [← text_eq, ofDigits_numeral] at hrun

/-! ## `xtoa` -/

/-- The lowest `i` nibbles of `x`, the highest of them first. -/
def nibbles (x i : Nat) : List UInt8 := ((List.range i).map fun k => digitByte (x / 16 ^ k % 16)).reverse

theorem nibbles_succ (x i : Nat) : nibbles x (i + 1) = digitByte (x / 16 ^ i % 16) :: nibbles x i := by
  simp [nibbles, List.range_succ]

theorem nibbles_eq {x i : Nat} (h : x < 16 ^ i) : nibbles x i = (numeral 16 i x).map digitByte := by
  rw [numeral_eq_map (by decide) h, List.map_reverse, List.map_map]
  rfl

theorem nchar_nibble (x i : Nat) : nchar (((x >>> (i * 4)) &&& 0xf : Nat)) = digitByte (x / 16 ^ i % 16) := by
  have hnibble : (x >>> (i * 4)) &&& 0xf = x / 16 ^ i % 16 := by
    rw [show (0xf : Nat) = 2 ^ 4 - 1 by decide, Nat.and_two_pow_sub_one_eq_mod, Nat.shiftRight_eq_div_pow,
      Nat.mul_comm i, Nat.pow_mul]
  rw [hnibble, nchar_digit _ (Nat.mod_lt _ (by decide))]

/-- Once a digit was stored, all that follow are. -/
theorem xtoa_loop_rest (x : Nat) (pad : Int) (i : Nat) : ∀ buf, xtoa_loop x pad i false buf = (do
    stores buf (nibbles x i)
    pure (buf + i)) := by
  induction i with
  | zero =>
    intro buf
    simp [xtoa_loop, nibbles, stores]
  | succ i ih =>
    intro buf
    unfold xtoa_loop
    dsimp only
    rw [nchar_nibble, if_neg (by simp), ih, nibbles_succ, stores]
    simp [Nat.add_assoc, Nat.add_comm 1]

/-- Zeros in front are left out down to the width `pad`. -/
theorem xtoa_loop_eq {pad : Int} (hpad : 1 ≤ pad) (i : Nat) : ∀ (x buf : Nat), x < 16 ^ i →
    xtoa_loop x pad i true buf = (do
      stores buf ((numeral 16 (min pad.toNat i) x).map digitByte)
      pure (buf + (numeral 16 (min pad.toNat i) x).length)) := by
  induction i with
  | zero =>
    intro x buf hx
    have h0 : x = 0 := by simpa using hx
    rw [h0]
    simp [xtoa_loop, numeral, stores]
  | succ i ih =>
    intro x buf hx
    have hlt : x / 16 ^ i < 16 := by
      rw [Nat.div_lt_iff_lt_mul (by positivity), Nat.mul_comm]
      rwa [Nat.pow_succ] at hx
    have hzero : ∀ d < 16, digitByte d = 0x30 ↔ d = 0 := by decide
    unfold xtoa_loop
    dsimp only
    rw [nchar_nibble, Nat.mod_eq_of_lt hlt]
    by_cases hskip : digitByte (x / 16 ^ i) = 0x30 ∧ true = true ∧ (i : Int) ≥ pad
    · -- nothing is stored for a zero that nothing is in front of
      have hx' : x < 16 ^ i := by
        have h0 := (hzero _ hlt).1 hskip.1
        exact (Nat.div_eq_zero_iff_lt (by positivity)).1 h0
      have hmin : min pad.toNat (i + 1) = min pad.toNat i := by omega
      rw [if_pos hskip, ih x buf hx', hmin]
    · have hwidth : numeral 16 (min pad.toNat (i + 1)) x = numeral 16 (i + 1) x := by
        by_cases hi : (i : Int) ≥ pad
        · have hge : 16 ^ i ≤ x := by
            by_contra hlt'
            exact hskip ⟨(hzero _ hlt).2 (Nat.div_eq_of_lt (by omega)), rfl, hi⟩
          have hdigits : i < (Nat.digits 16 x).length := (Nat.lt_digits_length_iff (by decide) x).2 hge
          rw [numeral_of_le (by omega), numeral_of_le (by omega)]
        · rw [show min pad.toNat (i + 1) = i + 1 by omega]
      have hall : (numeral 16 (i + 1) x).map digitByte = digitByte (x / 16 ^ i) :: nibbles x i := by
        rw [← nibbles_eq hx, nibbles_succ, Nat.mod_eq_of_lt hlt]
      have hlen : (numeral 16 (i + 1) x).length = i + 1 := by
        rw [← List.length_map digitByte, ← nibbles_eq hx]
        simp [nibbles]
      rw [if_neg hskip, xtoa_loop_rest, hwidth, hall, hlen, stores]
      simp [Nat.add_assoc, Nat.add_comm 1]

/-- `xtoa` pads like `utoa`, but to no more than eight characters. -/
theorem xtoa_produces {x : Nat} (hx : x < 2 ^ 32) (pad : Int) : Produces (xtoa x pad) (text 16 (min pad 8) x) := by
  have hpad : (if pad < 1 then 1 else pad) = max pad 1 := by omega
  have hwidth : min (max pad 1).toNat 8 = (max (min pad 8) 1).toNat := by omega
  have heq : xtoa x pad = stores 0 (text 16 (min pad 8) x ++ [0]) := by
    unfold xtoa
    dsimp only
    rw [hpad, xtoa_loop_eq (by omega) 8 x 0 (by omega), hwidth, ← text_eq, stores_append, text_eq, List.length_map]
    simp [stores]
  rw [heq]
  exact stores_produces _

/-! ## Encoding and decoding -/

/-- For every number and padding `utoa` writes the decimal text, and reading it back with
`atoi` gives the number, as a signed one. -/
theorem utoa_atoi {x : Nat} {pad : Int} (hx : x < 2 ^ 32) (hpad : pad < 2 ^ 31) :
    Writes (utoa x pad) (text 10 pad x) ∧
      ∀ buf : List UInt8, (text 10 pad x).length < buf.length →
        (do utoa x pad; atoi) buf = .ok (int32 x, text 10 pad x ++ 0 :: buf.drop ((text 10 pad x).length + 1)) := by
  have hwrites := (utoa_produces hx pad).writes
  refine ⟨hwrites, fun buf hlen => ?_⟩
  rw [Exec.bind_of_ok (hwrites buf hlen), atoi_text hx hpad]

/-- The largest number, with more zeros in front than 32 bits have digits for. -/
theorem utoa_atoi_largest : ∃ buf, (do utoa (2 ^ 32 - 1) 12; atoi) (List.replicate 16 0) = .ok (-1, buf) ∧
    text 10 12 (2 ^ 32 - 1) = chars "004294967295".toList := by
  have htext : text 10 12 (2 ^ 32 - 1) = chars "004294967295".toList := by decide +kernel
  have hrun := (@utoa_atoi (2 ^ 32 - 1) 12 (by decide) (by decide)).2 (List.replicate 16 0)
    (by rw [htext]; decide)
  exact ⟨_, hrun, htext⟩

/-! ## Hexadecimal padding -/

/-- `xtoa` follows the rule of `utoa`, in base 16, exactly for paddings up to the eight digits of a word. -/
theorem xtoa_padding_iff {x : Nat} (hx : x < 2 ^ 32) (pad : Int) : Writes (xtoa x pad) (text 16 pad x) ↔ pad ≤ 8 := by
  have hruns := (xtoa_produces hx pad).writes
  constructor
  · intro hwrites
    have hsame := hwrites.unique hruns
    have hdigits : (Nat.digits 16 x).length ≤ 8 := (Nat.digits_length_le_iff (by decide) x).2 (by omega)
    have hlen := congrArg List.length hsame
    rw [text_length, text_length] at hlen
    omega
  · intro hpad
    rwa [Int.min_eq_left hpad] at hruns

theorem xtoa_padding_iff_word : Writes (xtoa 0xbeef 8) (text 16 8 0xbeef) :=
  (xtoa_padding_iff (by decide) 8).2 (by decide)

/-- Asked for nine characters, `xtoa` writes eight. -/
theorem xtoa_nine : ¬ Writes (xtoa 0 9) (text 16 9 0) := by
  intro h
  have hsame := h.unique (xtoa_produces (by decide) 9).writes
  exact absurd hsame (by decide)

/-! ## The sign -/

/-- `itoa` writes the digits only. -/
theorem itoa_produces {x : Int} (hx : -2 ^ 31 ≤ x ∧ x < 2 ^ 31) (pad : Int) :
    Produces (itoa x pad) (text 10 pad x.natAbs) := by
  have habs : ((if x < 0 then int32 (-x) else x) % 2 ^ 32).toNat = x.natAbs := by
    split
    · -- the lowest number is its own negation, and as an unsigned number the right one
      have hneg : int32 (-x) % 2 ^ 32 = -x % 2 ^ 32 := Int.bmod_emod
      omega
    · omega
  unfold itoa
  dsimp only
  rw [habs]
  exact utoa_produces (by omega) pad

/-- The numeral of `x` with its sign; whether the padding counts the sign is left open. -/
def Signed (pad x : Int) (w : List UInt8) : Prop :=
  if x < 0 then ∃ width, w = 0x2d :: text 10 width x.natAbs else w = text 10 pad x.natAbs

theorem text_no_sign {b : Nat} (hb : 1 < b) (hb16 : b ≤ 16) (pad : Int) (x : Nat) : 0x2d ∉ text b pad x := by
  intro hsign
  have hdigit : ∀ d < 16, digitByte d ≠ 0x2d := by decide
  rw [text_eq] at hsign
  obtain ⟨d, hd, heq⟩ := List.mem_map.1 hsign
  have hlt := numeral_digit_lt hb hd
  exact hdigit d (by omega) heq

/-- What `itoa` writes has its sign exactly where there is none to write. -/
theorem itoa_signed {x : Int} (hx : -2 ^ 31 ≤ x ∧ x < 2 ^ 31) (pad : Int) :
    (∃ w, Writes (itoa x pad) w ∧ Signed pad x w) ↔ 0 ≤ x := by
  have hruns := (itoa_produces hx pad).writes
  constructor
  · rintro ⟨w, hw, hsigned⟩
    by_contra hneg
    unfold Signed at hsigned
    rw [if_pos (by omega)] at hsigned
    obtain ⟨width, rfl⟩ := hsigned
    have hsame := hw.unique hruns
    exact text_no_sign (by decide) (by decide) pad x.natAbs (hsame ▸ List.mem_cons_self)
  · intro hpos
    refine ⟨_, hruns, ?_⟩
    unfold Signed
    rw [if_neg (by omega)]

/-- Two numbers come out as the same text if they are equal up to the sign. -/
theorem itoa_same_iff {x y : Int} (hx : -2 ^ 31 ≤ x ∧ x < 2 ^ 31) (hy : -2 ^ 31 ≤ y ∧ y < 2 ^ 31) (pad : Int) :
    (∃ w, Writes (itoa x pad) w ∧ Writes (itoa y pad) w) ↔ x.natAbs = y.natAbs := by
  have hxw := (itoa_produces hx pad).writes
  have hyw := (itoa_produces hy pad).writes
  constructor
  · rintro ⟨w, hwx, hwy⟩
    exact text_inj (by decide) (by decide) ((hxw.unique hwx).trans (hwy.unique hyw))
  · intro habs
    exact ⟨_, hxw, habs ▸ hyw⟩

/-- Two numbers are written with their signs, and as different texts unless they are equal,
exactly when neither is negative. -/
theorem itoa_signed_iff {x y : Int} (hx : -2 ^ 31 ≤ x ∧ x < 2 ^ 31) (hy : -2 ^ 31 ≤ y ∧ y < 2 ^ 31) (pad : Int) :
    ((∃ w, Writes (itoa x pad) w ∧ Signed pad x w) ∧ (∃ w, Writes (itoa y pad) w ∧ Signed pad y w) ∧
      ((∃ w, Writes (itoa x pad) w ∧ Writes (itoa y pad) w) → x = y)) ↔ 0 ≤ x ∧ 0 ≤ y := by
  rw [itoa_signed hx, itoa_signed hy, itoa_same_iff hx hy]
  omega

theorem itoa_signed_iff_positive : ¬ ∃ w, Writes (itoa 7 3) w ∧ Writes (itoa 70 3) w := by
  have h := ((itoa_signed_iff (x := 7) (y := 70) (by decide) (by decide) 3).2 (by decide)).2.2
  exact fun hsame => absurd (h hsame) (by decide)

/-- Minus one is written without its sign, as one is. -/
theorem itoa_minus_one : (¬ ∃ w, Writes (itoa (-1) 1) w ∧ Signed 1 (-1) w) ∧
    ∃ w, Writes (itoa (-1) 1) w ∧ Writes (itoa 1 1) w :=
  ⟨fun h => absurd ((itoa_signed (by decide) 1).1 h) (by decide), (itoa_same_iff (by decide) (by decide) 1).2 rfl⟩

end Ulmix.Libc

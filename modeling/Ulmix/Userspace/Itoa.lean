import Ulmix.Libc.Strings
/-!
# Numerals of the user library (`itoa` in `userspace/stdlib/string.c`)

The loop of `itoa` stores the digits from the lowest on. Its two divisors are powers
of the base, as a 32-bit number wraps them (`power`), and it ends at the first one
that is larger than the number (`Stops`). So it takes every digit with the right
divisor only if the power behind the highest digit, wrapped, is still the larger one.

The sign is stored first and the whole string then turned round, so that the sign of a
negative number comes last.
-/
open Ulmix.Lib
open Ulmix.Libc (stores stores_append stores_run reverse_run)

namespace Ulmix.Stdlib

/-! ## The numeral -/

/-- The character of a digit. -/
def letter (d : Nat) : UInt8 := (chars "0123456789abcdefghijklmnopqrstuvwxyz".toList).getD d 0

/-- `n` in the base, with a sign in front if it is negative. -/
def canonical (n base : Int) : List UInt8 :=
  (if n < 0 then [0x2d] else []) ++ (numeral base.toNat 1 n.natAbs).map letter

theorem get_letter_digit : ∀ d < 36, get_letter (d : Nat) = letter d := by decide

theorem letter_inj : ∀ d < 36, ∀ e < 36, letter d = letter e → d = e := by decide

theorem letter_ne_zero : ∀ d < 36, letter d ≠ 0 := by decide

theorem letter_ne_sign : ∀ d < 36, letter d ≠ 0x2d := by decide

theorem letters_avoid {c : UInt8} (hc : ∀ d < 36, letter d ≠ c) {l : List Nat} (hl : ∀ d ∈ l, d < 36) :
    c ∉ l.map letter := by
  intro hmem
  obtain ⟨d, hd, heq⟩ := List.mem_map.1 hmem
  exact hc d (hl d hd) heq

section
variable {n base : Int} {i k p q : Nat}

theorem canonical_digit_lt (hb : 2 ≤ base ∧ base ≤ 36) : ∀ d ∈ numeral base.toNat 1 n.natAbs, d < 36 := fun _ hd =>
  (numeral_digit_lt (by omega) hd).trans_le (by omega)

theorem canonical_no_zero (hb : 2 ≤ base ∧ base ≤ 36) : 0 ∉ canonical n base := by
  have hdigits := letters_avoid letter_ne_zero (canonical_digit_lt (n := n) hb)
  unfold canonical
  split <;> simpa using hdigits

/-! ## The divisors -/

/-- What the loop computes for a power of the base. -/
def power (base : Int) (k : Nat) : Int := int32 (base ^ k)

/-- The quotient that ends the loop is zero. -/
def Stops (n base : Int) (k : Nat) : Prop := n.natAbs < (power base k).natAbs

theorem power_succ (base : Int) (k : Nat) : int32 (power base k * base) = power base (k + 1) := by
  unfold power
  rw [Libc.int32_mul_left, pow_succ]

theorem power_bound (base : Int) (k : Nat) : (power base k).natAbs ≤ 2 ^ 31 := by
  have hrange := int32_range (base ^ k)
  unfold power
  omega

/-- A power that still fits is the right one. -/
theorem power_eq (h0 : 0 ≤ base) (h : base ^ k < 2 ^ 31) : power base k = base ^ k := by
  have := pow_nonneg h0 k
  unfold power int32
  rw [Int.bmod_eq_of_le (by omega) (by omega)]

/-- Once a divisor is zero, all that follow are. -/
theorem power_ne_zero (h : power base (i + k) ≠ 0) : power base i ≠ 0 := by
  induction k with
  | zero => exact h
  | succ k ih =>
    apply ih
    intro h0
    apply h
    rw [← Nat.add_assoc, ← power_succ, h0]
    simp [int32]

theorem Stops.ne_zero (h : Stops n base (i + k)) : power base i ≠ 0 := by
  apply power_ne_zero (k := k)
  unfold Stops at h
  omega

/-- The lowest number is never below a power. -/
theorem Stops.ne_lowest (h : Stops n base k) : n ≠ -2 ^ 31 := by
  have := power_bound base k
  unfold Stops at h
  omega

theorem tdiv_eq_zero_iff (hpow : power base k ≠ 0) : n.tdiv (power base k) = 0 ↔ Stops n base k := by
  have habs : (n.tdiv (power base k)).natAbs = n.natAbs / (power base k).natAbs := Int.natAbs_tdiv n (power base k)
  rw [← Int.natAbs_eq_zero, habs, Nat.div_eq_zero_iff]
  unfold Stops
  omega

/-! ## The loop -/

/-- The characters that rounds `i` to `i + k` store. -/
def letters (n base : Int) (i k : Nat) : List UInt8 :=
  (List.range' i k).map fun j => get_letter ((n.tmod (power base (j + 1))).tdiv (power base j))

theorem letters_succ (n base : Int) (i k : Nat) : letters n base i (k + 1) =
    get_letter ((n.tmod (power base (i + 1))).tdiv (power base i)) :: letters n base (i + 1) k := by
  simp [letters, List.range'_succ]

@[simp] theorem letters_length (n base : Int) (i k : Nat) : (letters n base i k).length = k := by simp [letters]

theorem idiv_run {a b : Int} (ha : a ≠ -2 ^ 31) (hb : b ≠ 0) (s : List UInt8) : idiv a b s = .ok (a.tdiv b, s) := by
  unfold idiv
  rw [if_neg (by rintro (h | ⟨h, -⟩); exacts [hb h, ha h])]
  rfl

theorem imod_run {a b : Int} (ha : a ≠ -2 ^ 31) (hb : b ≠ 0) (s : List UInt8) : imod a b s = .ok (a.tmod b, s) := by
  unfold imod
  rw [if_neg (by rintro (h | ⟨h, -⟩); exacts [hb h, ha h])]
  rfl

theorem idiv_ok {a b c : Int} {s s' : List UInt8} (h : idiv a b s = .ok (c, s')) : b ≠ 0 ∧ c = a.tdiv b ∧ s' = s := by
  unfold idiv at h
  split at h
  · cases h
  · rename_i hok
    cases h
    exact ⟨fun h0 => hok (.inl h0), rfl, rfl⟩

/-- The first power from round `i` on that ends the loop is `k` rounds ahead. -/
def First (n base : Int) (i k : Nat) : Prop := Stops n base (i + k) ∧ ∀ j < k, ¬ Stops n base (i + j)

theorem First.succ (h : First n base i (k + 1)) : First n base (i + 1) k := by
  refine ⟨by rw [show i + 1 + k = i + (k + 1) by omega]; exact h.1, fun j hj => ?_⟩
  rw [show i + 1 + j = i + (j + 1) by omega]
  exact h.2 (j + 1) (by omega)

theorem First.cons (h0 : ¬ Stops n base i) (h : First n base (i + 1) k) : First n base i (k + 1) := by
  refine ⟨by rw [show i + (k + 1) = i + 1 + k by omega]; exact h.1, fun j hj => ?_⟩
  cases j with
  | zero => exact h0
  | succ j =>
    rw [show i + (j + 1) = i + 1 + j by omega]
    exact h.2 j (by omega)

theorem First.exists (h : Stops n base k) : ∃ j ≤ k, First n base 0 j := by
  classical
  have hex : ∃ j, Stops n base j := ⟨k, h⟩
  refine ⟨Nat.find hex, Nat.find_min' hex h, by rw [Nat.zero_add]; exact Nat.find_spec hex, fun j hj => ?_⟩
  rw [Nat.zero_add]
  exact Nat.find_min hex hj

/-- Where a power ends the loop, it is a sequence of stores. -/
theorem itoa_loop_eq (fuel : Nat) : ∀ (i k p : Nat), First n base i k → k < fuel →
    itoa_loop n base fuel (power base i) (power base (i + 1)) p = (do
      stores p (letters n base i k)
      pure (p + k)) := by
  induction fuel with
  | zero =>
    intro i k p _ hk
    omega
  | succ fuel ih =>
    intro i k p hfirst hk
    have hlow := hfirst.1.ne_lowest
    have hpow : power base i ≠ 0 := hfirst.1.ne_zero
    funext s
    unfold itoa_loop
    rw [Exec.bind_of_ok (idiv_run hlow hpow s)]
    cases k with
    | zero =>
      have hstop : n.tdiv (power base i) = 0 := (tdiv_eq_zero_iff hpow).2 hfirst.1
      rw [if_neg (not_not.2 hstop)]
      simp [letters, stores]
    | succ k =>
      have hpow' : power base (i + 1) ≠ 0 := hfirst.succ.1.ne_zero
      have hgo : n.tdiv (power base i) ≠ 0 := fun h0 => hfirst.2 0 (by omega) ((tdiv_eq_zero_iff hpow).1 h0)
      have hlow' : n.tmod (power base (i + 1)) ≠ -2 ^ 31 := by
        have := Int.natAbs_tmod n (power base (i + 1))
        have := Nat.mod_le n.natAbs (power base (i + 1)).natAbs
        have := Stops.ne_lowest hfirst.1
        have := power_bound base (i + (k + 1))
        have := hfirst.1
        unfold Stops at this
        omega
      rw [if_pos hgo, Exec.bind_of_ok (imod_run hlow hpow' s), Exec.bind_of_ok (idiv_run hlow' hpow s), letters_succ,
        power_succ, ih (i + 1) k (p + 1) hfirst.succ (by omega), stores]
      simp [Nat.add_assoc, Nat.add_comm 1]

/-- The loop returns only from a power that ends it. -/
theorem itoa_loop_ok (fuel : Nat) : ∀ {i p q : Nat} {s s' : List UInt8},
    itoa_loop n base fuel (power base i) (power base (i + 1)) p s = .ok (q, s') → ∃ k < fuel, First n base i k := by
  induction fuel with
  | zero =>
    intro i p q s s' h
    cases h
  | succ fuel ih =>
    intro i p q s s' h
    unfold itoa_loop at h
    obtain ⟨c, _, hdiv, hrest⟩ := Exec.bind_ok.1 h
    obtain ⟨hpow, rfl, rfl⟩ := idiv_ok hdiv
    by_cases hstop : Stops n base i
    · exact ⟨0, fuel.succ_pos, hstop, fun j hj => absurd hj (Nat.not_lt_zero j)⟩
    · rw [if_pos fun h0 => hstop ((tdiv_eq_zero_iff hpow).1 h0)] at hrest
      obtain ⟨_, _, -, hrest⟩ := Exec.bind_ok.1 hrest
      obtain ⟨_, _, -, hrest⟩ := Exec.bind_ok.1 hrest
      obtain ⟨_, _, -, hrest⟩ := Exec.bind_ok.1 hrest
      rw [power_succ] at hrest
      obtain ⟨k, hlt, hk⟩ := ih hrest
      exact ⟨k + 1, Nat.succ_lt_succ hlt, hk.cons hstop⟩

/-! ## The whole conversion -/

/-- The number the loop is run with. The lowest one has no positive counterpart and stays as it is. -/
def magnitude (n : Int) : Int := if n < 0 then int32 (-n) else n

/-- What is stored before the string is turned round, if the loop makes `k` rounds. -/
def stored (n base : Int) (k : Nat) : List UInt8 := (if n < 0 then [0x2d] else []) ++ letters (magnitude n) base 0 k

theorem stored_length (n base : Int) (k : Nat) : (stored n base k).length = (if n < 0 then 1 else 0) + k := by
  unfold stored
  split <;> simp [Nat.add_comm]

/-- The string that begins an object ends at the first zero. -/
theorem exists_first_zero (w rest : List UInt8) : ∃ rest', w ++ 0 :: rest = w.takeWhile (· ≠ 0) ++ 0 :: rest' := by
  induction w with
  | nil => exact ⟨rest, rfl⟩
  | cons c w ih =>
    by_cases hc : c = 0
    · exact ⟨w ++ 0 :: rest, by simp [hc]⟩
    · obtain ⟨rest', hrest'⟩ := ih
      exact ⟨rest', by rw [List.cons_append, hrest', List.takeWhile_cons_of_pos (by simpa using hc), List.cons_append]⟩

theorem takeWhile_no_zero (w : List UInt8) : 0 ∉ w.takeWhile (· ≠ 0) := fun hmem => by
  simpa using List.mem_takeWhile_imp hmem

theorem power_zero (base : Int) : power base 0 = 1 := by
  unfold power
  rw [pow_zero]
  decide

theorem power_one (hb : 2 ≤ base ∧ base ≤ 36) : power base 1 = base := by
  have hpow := @power_eq base 1 (by omega) (by rw [pow_one]; omega)
  rwa [pow_one] at hpow

/-- The conversion stores the sign and the digits, and turns them round. -/
theorem itoa_eq (hb : 2 ≤ base ∧ base ≤ 36) (hn : n ≠ 0) (hfirst : First (magnitude n) base 0 k) {buf : List UInt8}
    (hk : k ≤ buf.length) : itoa n base buf = (do stores 0 (stored n base k ++ [0]); reverse) buf := by
  have hloop : ∀ p, itoa_loop (magnitude n) base (buf.length + 1) 1 base p = (do
      stores p (letters (magnitude n) base 0 k)
      pure (p + k)) := by
    intro p
    have hrun := itoa_loop_eq (buf.length + 1) 0 k p hfirst (by omega)
    rwa [power_zero, power_one hb] at hrun
  unfold itoa stored
  rw [if_neg hn]
  unfold magnitude at hloop ⊢
  by_cases hneg : n < 0
  · simp only [hneg, if_true] at hloop ⊢
    rw [List.append_assoc, List.singleton_append, stores, bind_assoc]
    cases buf with
    | nil => rfl
    | cons a buf =>
      have hstore : store 0 0x2d (a :: buf) = .ok ((), 0x2d :: buf) := rfl
      rw [Exec.bind_of_ok hstore, Exec.bind_of_ok hstore, Exec.bind_of_ok (Exec.get_apply _), List.length_cons,
        ← List.length_cons (a := a), hloop, stores_append]
      simp [stores]
  · simp only [hneg, if_false] at hloop ⊢
    rw [Exec.bind_of_ok (Exec.get_apply _), hloop, List.nil_append, stores_append]
    simp [stores]

/-- What is in the object behind a conversion that returns, for a number that is not zero. -/
theorem itoa_run (hb : 2 ≤ base ∧ base ≤ 36) (hn : n ≠ 0) (hfirst : First (magnitude n) base 0 k) {buf : List UInt8}
    (hroom : (stored n base k).length < buf.length) : ∃ rest,
      itoa n base buf = .ok ((), ((stored n base k).takeWhile (· ≠ 0)).reverse ++ 0 :: rest) ∧
        ((stored n base k).takeWhile (· ≠ 0)).length + 1 + rest.length = buf.length := by
  have hlen := stored_length n base k
  obtain ⟨rest, hrest⟩ := exists_first_zero (stored n base k) (buf.drop ((stored n base k).length + 1))
  refine ⟨rest, ?_, ?_⟩
  rotate_left
  · have hlength := congrArg List.length hrest
    simp only [List.length_append, List.length_cons, List.length_drop] at hlength
    omega
  have hstores := Libc.stores_produces (stored n base k) buf
  rw [if_pos hroom, hrest] at hstores
  rw [itoa_eq hb hn hfirst (by omega), Exec.bind_of_ok hstores]
  exact reverse_run (takeWhile_no_zero _) rest

theorem store_length {i : Nat} {c : UInt8} {s s' : List UInt8}
    (h : store i c s = .ok ((), s')) : s'.length = s.length := by
  unfold store at h
  rw [Exec.bind_of_ok (Exec.get_apply _)] at h
  split at h
  · cases h
    exact List.length_set
  · cases h

/-- A conversion that returns had a power that ends its loop, and room for what it stored. -/
theorem itoa_ok (hb : 2 ≤ base ∧ base ≤ 36) (hn : n ≠ 0) {buf buf' : List UInt8}
    (h : itoa n base buf = .ok ((), buf')) :
    ∃ k, First (magnitude n) base 0 k ∧ (stored n base k).length < buf.length := by
  have hloop : ∀ {fuel p q : Nat} {s s' : List UInt8}, itoa_loop (magnitude n) base fuel 1 base p s = .ok (q, s') →
      ∃ k < fuel, First (magnitude n) base 0 k := by
    intro fuel p q s s' hrun
    exact @itoa_loop_ok (magnitude n) base fuel 0 p q s s' (by rwa [power_zero, power_one hb])
  obtain ⟨k, hlt, hfirst⟩ : ∃ k < buf.length + 1, First (magnitude n) base 0 k := by
    have hrun := h
    unfold itoa at hrun
    rw [if_neg hn] at hrun
    unfold magnitude at hloop ⊢
    by_cases hneg : n < 0
    · simp only [hneg, if_true] at hloop hrun ⊢
      obtain ⟨_, s, hstore, hrun⟩ := Exec.bind_ok.1 hrun
      rw [Exec.bind_of_ok (Exec.get_apply _)] at hrun
      obtain ⟨q, s', hrun, -⟩ := Exec.bind_ok.1 hrun
      rw [← store_length hstore]
      exact hloop hrun
    · simp only [hneg, if_false] at hloop hrun ⊢
      rw [Exec.bind_of_ok (Exec.get_apply _)] at hrun
      obtain ⟨q, s', hrun, -⟩ := Exec.bind_ok.1 hrun
      exact hloop hrun
  refine ⟨k, hfirst, ?_⟩
  by_contra hroom
  have hstores := Libc.stores_produces (stored n base k) buf
  rw [if_neg hroom] at hstores
  rw [itoa_eq hb hn hfirst (by omega), Exec.bind_of_error hstores] at h
  cases h

/-- `itoa` returns if and only if a power of the base, wrapped, comes out larger than the
number while there is room in the buffer. -/
theorem itoa_returns_iff (hb : 2 ≤ base ∧ base ≤ 36) (hn : n ≠ 0) (buf : List UInt8) :
    (∃ buf', itoa n base buf = .ok ((), buf')) ↔
      ∃ k, Stops (magnitude n) base k ∧ (if n < 0 then 1 else 0) + k < buf.length := by
  constructor
  · rintro ⟨buf', h⟩
    obtain ⟨k, hfirst, hroom⟩ := itoa_ok hb hn h
    rw [stored_length] at hroom
    exact ⟨k, by simpa using hfirst.1, hroom⟩
  · rintro ⟨k, hstop, hroom⟩
    obtain ⟨j, hj, hfirst⟩ := First.exists hstop
    obtain ⟨rest, hrun, -⟩ := @itoa_run n base j hb hn hfirst buf (by rw [stored_length]; omega)
    exact ⟨_, hrun⟩

/-! ## Which numbers it returns for -/

theorem magnitude_natAbs (hlow : -2 ^ 31 ≤ n) (hhigh : n < 2 ^ 31) : (magnitude n).natAbs = n.natAbs := by
  unfold magnitude
  split
  · -- the lowest number is its own negation
    by_cases hlowest : n = -2 ^ 31
    · rw [hlowest]
      decide
    · unfold int32
      rw [Int.bmod_eq_of_le (by omega) (by omega), Int.natAbs_neg]
  · rfl

/-- In base 10 there is such a power for every number but the lowest. -/
theorem stops_decimal (hlow : -2 ^ 31 ≤ n) (hhigh : n < 2 ^ 31) (hne : n ≠ -2 ^ 31) : Stops (magnitude n) 10 31 := by
  have habs := magnitude_natAbs hlow hhigh
  have hpower : (power 10 31).natAbs = 2 ^ 31 := by decide
  unfold Stops
  omega

theorem Stops.decimal (hlow : -2 ^ 31 ≤ n) (hhigh : n < 2 ^ 31) (h : Stops (magnitude n) 10 k) : n ≠ -2 ^ 31 := by
  have habs := magnitude_natAbs hlow hhigh
  have hbound := power_bound 10 k
  unfold Stops at h
  omega

theorem stops_hexadecimal (hlow : -2 ^ 31 ≤ n) (hhigh : n < 2 ^ 31) (hlt : n.natAbs < 16 ^ 7) :
    Stops (magnitude n) 16 7 := by
  have habs := magnitude_natAbs hlow hhigh
  have hpower : (power 16 7).natAbs = 16 ^ 7 := by decide
  unfold Stops
  omega

/-- In base 16 the powers behind the seventh come out as zero. -/
theorem Stops.hexadecimal (hlow : -2 ^ 31 ≤ n) (hhigh : n < 2 ^ 31) (h : Stops (magnitude n) 16 k) :
    n.natAbs < 16 ^ 7 := by
  have habs := magnitude_natAbs hlow hhigh
  unfold Stops at h
  by_cases hk : k < 8
  · have hle : (16 : Int) ^ k ≤ 16 ^ 7 := pow_le_pow_right₀ (by decide) (by omega)
    have hpower := @power_eq 16 k (by decide) (by omega)
    have hpos : (0 : Int) ≤ 16 ^ k := by positivity
    rw [hpower] at h
    omega
  · have hzero : power 16 k = 0 := by
      obtain ⟨j, rfl⟩ : ∃ j, k = 8 + j := ⟨k - 8, by omega⟩
      by_contra hne
      exact power_ne_zero hne (by decide)
    rw [hzero] at h
    omega

/-- The first character is none of the zeros that end a string. -/
theorem stored_head (hb : 2 ≤ base ∧ base ≤ 36) (hn : n ≠ 0) (hfirst : First (magnitude n) base 0 k) :
    (stored n base k).takeWhile (· ≠ 0) ≠ [] := by
  unfold stored
  by_cases hneg : n < 0
  · rw [if_pos hneg, List.singleton_append, List.takeWhile_cons_of_pos (by decide)]
    exact List.cons_ne_nil _ _
  · have hmagnitude : magnitude n = n := if_neg hneg
    obtain ⟨k, rfl⟩ : ∃ j, k = j + 1 := by
      cases k with
      | zero =>
        have hstop := hfirst.1
        unfold Stops at hstop
        rw [hmagnitude, Nat.zero_add, power_zero] at hstop
        omega
      | succ k => exact ⟨k, rfl⟩
    have hdigit : n.tmod base = ((n % base).toNat : Int) := by
      rw [Int.tmod_eq_emod_of_nonneg (by omega)]
      have := Int.emod_nonneg n (by omega : base ≠ 0)
      omega
    have hlt : (n % base).toNat < 36 := by
      have := Int.emod_lt_of_pos n (by omega : 0 < base)
      omega
    rw [if_neg hneg, List.nil_append, hmagnitude, letters_succ, power_zero, Nat.zero_add, power_one hb,
      Int.tdiv_one, hdigit, get_letter_digit _ hlt, List.takeWhile_cons_of_pos (by simpa using letter_ne_zero _ hlt)]
    exact List.cons_ne_nil _ _

/-- What is left in a buffer with room for it is a string, and not an empty one. -/
theorem itoa_string (hb : 2 ≤ base ∧ base ≤ 36) (hstop : Stops (magnitude n) base k) {buf : List UInt8}
    (hroom : k + 2 < buf.length) : ∃ t rest, itoa n base buf = .ok ((), t ++ 0 :: rest) ∧ 0 ∉ t ∧ t ≠ [] ∧
      t.length ≤ k + 1 ∧ t.length + 1 + rest.length = buf.length := by
  by_cases hn : n = 0
  · obtain ⟨c, buf, rfl⟩ := List.exists_cons_of_length_pos (by omega : 0 < buf.length)
    rw [List.length_cons] at hroom
    obtain ⟨d, buf, rfl⟩ := List.exists_cons_of_length_pos (by omega : 0 < buf.length)
    refine ⟨[0x30], buf, by rw [hn]; rfl, by decide, by decide, by simp, ?_⟩
    simp only [List.length_cons, List.length_nil]
    omega
  · obtain ⟨j, hj, hfirst⟩ := First.exists hstop
    have hlen := stored_length n base j
    have hle := (List.takeWhile_prefix (l := stored n base j) (· ≠ 0)).length_le
    have hlt : (stored n base j).length < buf.length := by
      rw [hlen]
      split <;> omega
    obtain ⟨rest, hrun, hcount⟩ := itoa_run hb hn hfirst hlt
    refine ⟨_, rest, hrun, fun h0 => takeWhile_no_zero _ (List.mem_reverse.1 h0), ?_, ?_, ?_⟩
    · rw [ne_eq, List.reverse_eq_nil_iff]
      exact stored_head hb hn hfirst
    · rw [List.length_reverse]
      split at hlen <;> omega
    · rw [List.length_reverse]
      exact hcount

/-! ## The digits -/

/-- The characters of the digits, from the lowest on. -/
def digitsUp (n base : Nat) : List UInt8 := (Nat.digits base n).map letter

theorem canonical_of_pos {n : Int} (hn : 0 < n) (base : Int) :
    canonical n base = (digitsUp n.toNat base.toNat).reverse := by
  have habs : n.natAbs = n.toNat := by omega
  have hdigits : 1 ≤ (Nat.digits base.toNat n.natAbs).length := by
    rw [Nat.one_le_iff_ne_zero, ne_eq, List.length_eq_zero_iff, Nat.digits_eq_nil_iff_eq_zero]
    omega
  unfold canonical digitsUp
  rw [if_neg (by omega), List.nil_append, numeral_of_le hdigits, List.map_reverse, habs]

theorem tmod_natAbs (x : Nat) (p : Int) : (x : Int).tmod p = ((x % p.natAbs : Nat) : Int) := by
  rcases Int.natAbs_eq p with hp | hp
  · rw [hp, Int.natAbs_natCast, Int.natCast_mod, Int.tmod_eq_emod_of_nonneg (by omega)]
  · rw [hp, Int.tmod_neg, Int.natAbs_neg, Int.natAbs_natCast, Int.natCast_mod, Int.tmod_eq_emod_of_nonneg (by omega)]

end

section
variable {x b j k : Nat}

theorem power_below (hb : 2 ≤ b) (hx : x < 2 ^ 31) (hj : j < (Nat.digits b x).length) : power b j = (b ^ j : Nat) := by
  have hle : b ^ j ≤ x := (Nat.lt_digits_length_iff hb x).1 hj
  rw [Nat.cast_pow]
  apply power_eq (by omega)
  rw [← Nat.cast_pow]
  omega

/-- As long as there are digits the loop goes on. -/
theorem not_stops_below (hb : 2 ≤ b) (hx : x < 2 ^ 31) (hj : j < (Nat.digits b x).length) : ¬ Stops x b j := by
  have hle : b ^ j ≤ x := (Nat.lt_digits_length_iff hb x).1 hj
  unfold Stops
  rw [power_below hb hx hj, Int.natAbs_natCast, Int.natAbs_natCast]
  omega

theorem letters_below (hb : 2 ≤ b) (hx : x < 2 ^ 31) (hj : j < (Nat.digits b x).length) (hk : j < k) :
    (letters x b 0 k)[j]? = some (get_letter ((x % (power b (j + 1)).natAbs / b ^ j : Nat) : Int)) := by
  unfold letters
  rw [List.getElem?_map, List.getElem?_range' (by omega), Option.map_some]
  simp only [Nat.zero_add, Nat.one_mul]
  rw [tmod_natAbs, power_below hb hx hj, ← Int.ofNat_tdiv]

/-- The right digit, if the power behind it is larger than the number. -/
theorem digit_eq (hb : 2 ≤ b) (hx : x < 2 ^ 31) (hj : j < (Nat.digits b x).length)
    (htop : Stops x b (Nat.digits b x).length) : x % (power b (j + 1)).natAbs / b ^ j = x / b ^ j % b := by
  by_cases hlast : j + 1 < (Nat.digits b x).length
  · rw [power_below hb hx hlast, Int.natAbs_natCast, pow_succ, Nat.mod_mul_right_div_self]
  · have heq : j + 1 = (Nat.digits b x).length := by omega
    have hlt : x < b ^ (j + 1) := by
      rw [heq]
      exact Nat.lt_base_pow_length_digits hb
    have hdigit : x / b ^ j < b := by
      rw [Nat.div_lt_iff_lt_mul (by positivity), Nat.mul_comm, ← pow_succ]
      exact hlt
    unfold Stops at htop
    rw [Int.natAbs_natCast] at htop
    rw [heq, Nat.mod_eq_of_lt htop, Nat.mod_eq_of_lt hdigit]

/-- The remainder by a divisor that is not larger leaves out at least one unit of the highest digit. -/
theorem top_digit_lt {P B : Nat} (hP : 0 < P) (hPx : P ≤ x) (hB : 0 < B) (hBx : B ≤ x) : x % P / B < x / B := by
  have hpos : 0 < x / B := Nat.div_pos hBx hB
  by_cases hPB : P < B
  · have hmod := Nat.mod_lt x hP
    rw [Nat.div_eq_of_lt (by omega)]
    exact hpos
  · have hmod : x % P ≤ x - P := by
      rw [Nat.mod_eq_sub_mod hPx]
      exact Nat.mod_le _ _
    have hsub : x % P / B ≤ (x - B) / B := Nat.div_le_div_right (by omega)
    rw [Nat.div_eq_sub_div hB hBx]
    omega

theorem digitsUp_length (x b : Nat) : (digitsUp x b).length = (Nat.digits b x).length := List.length_map _

theorem digitsUp_getElem? (hb : 2 ≤ b) (hj : j < (Nat.digits b x).length) :
    (digitsUp x b)[j]? = some (letter (x / b ^ j % b)) := by
  unfold digitsUp
  rw [List.getElem?_map, List.getElem?_eq_getElem hj, Option.map_some, ← Nat.getD_digits x j hb,
    List.getD_eq_getElem _ _ hj]

/-- The loop stores the digits, if the power behind the highest ends it. -/
theorem letters_eq (hb : 2 ≤ b) (hb36 : b ≤ 36) (hx : x < 2 ^ 31) (htop : Stops x b (Nat.digits b x).length) :
    letters x b 0 (Nat.digits b x).length = digitsUp x b := by
  apply List.ext_getElem?
  intro j
  by_cases hj : j < (Nat.digits b x).length
  · have hlt : x / b ^ j % b < 36 := (Nat.mod_lt _ (by omega)).trans_le hb36
    rw [letters_below hb hx hj hj, digit_eq hb hx hj htop, get_letter_digit _ hlt, digitsUp_getElem? hb hj]
  · rw [List.getElem?_eq_none (by simp; omega), List.getElem?_eq_none (by rw [digitsUp_length]; omega)]

/-- Otherwise the highest digit comes out wrong, however the loop goes on. -/
theorem letters_ne (hb : 2 ≤ b) (hb36 : b ≤ 36) (hx0 : 0 < x) (hx : x < 2 ^ 31)
    (htop : ¬ Stops x b (Nat.digits b x).length) (hfirst : First x b 0 k) : ¬ digitsUp x b <+: letters x b 0 k := by
  intro hprefix
  have hpos : 0 < (Nat.digits b x).length := List.length_pos_of_ne_nil (Nat.digits_ne_nil_iff_ne_zero.2 (by omega))
  obtain ⟨m, hm⟩ : ∃ m, (Nat.digits b x).length = m + 1 := ⟨_, (Nat.succ_pred_eq_of_pos hpos).symm⟩
  have hmlt : m < (Nat.digits b x).length := by omega
  have hle : b ^ m ≤ x := (Nat.lt_digits_length_iff hb x).1 hmlt
  have hlt : x < b ^ m * b := by
    rw [← pow_succ, ← hm]
    exact Nat.lt_base_pow_length_digits hb
  have hk : m + 1 < k := by
    by_contra hge
    rcases Nat.lt_or_eq_of_le (Nat.le_of_not_lt hge) with hbelow | heq
    · exact not_stops_below hb hx (by omega) (Nat.zero_add k ▸ hfirst.1)
    · rw [hm, ← heq, ← Nat.zero_add k] at htop
      exact htop hfirst.1
  have hne : power (b : Int) (m + 1) ≠ 0 := by
    have hstop : Stops x b (m + 1 + (k - (m + 1))) := by
      rw [show m + 1 + (k - (m + 1)) = 0 + k by omega]
      exact hfirst.1
    exact hstop.ne_zero
  have hPx : (power (b : Int) (m + 1)).natAbs ≤ x := by
    rw [hm] at htop
    unfold Stops at htop
    omega
  have hwrong := top_digit_lt (by omega) hPx (by positivity) hle
  have hright : x / b ^ m < b := by
    rw [Nat.div_lt_iff_lt_mul (by positivity), Nat.mul_comm]
    exact hlt
  obtain ⟨rest, hrest⟩ := hprefix
  have hchar : (digitsUp x b ++ rest)[m]? = (letters x b 0 k)[m]? := by rw [hrest]
  rw [List.getElem?_append_left (by rw [digitsUp_length]; exact hmlt), digitsUp_getElem? hb hmlt,
    letters_below hb hx hmlt (by omega), get_letter_digit _ (by omega), Nat.mod_eq_of_lt hright] at hchar
  have := letter_inj _ (by omega) _ (by omega) (Option.some_inj.1 hchar)
  omega

end

/-! ## Which numbers come out right -/

section
variable {n base : Int} {buf : List UInt8}

/-- The first zero of an object is at one place. -/
theorem string_unique {v w rest rest' : List UInt8} (hv : 0 ∉ v) (hw : 0 ∉ w) (h : v ++ 0 :: rest = w ++ 0 :: rest') :
    v = w := by
  induction v generalizing w with
  | nil =>
    cases w with
    | nil => rfl
    | cons d w =>
      rw [List.nil_append, List.cons_append, List.cons.injEq] at h
      exact absurd (h.1 ▸ List.mem_cons_self) hw
  | cons c v ih =>
    cases w with
    | nil =>
      rw [List.nil_append, List.cons_append, List.cons.injEq] at h
      exact absurd (h.1 ▸ List.mem_cons_self) hv
    | cons d w =>
      rw [List.cons_append, List.cons_append, List.cons.injEq] at h
      rw [h.1, ih (fun hm => hv (List.mem_cons_of_mem _ hm)) (fun hm => hw (List.mem_cons_of_mem _ hm)) h.2]

/-- A conversion that leaves the numeral has stored it backwards. -/
theorem canonical_stored (hb : 2 ≤ base ∧ base ≤ 36) (hn : n ≠ 0) {rest : List UInt8}
    (h : itoa n base buf = .ok ((), canonical n base ++ 0 :: rest)) :
    ∃ k, First (magnitude n) base 0 k ∧ (canonical n base).reverse <+: stored n base k := by
  obtain ⟨k, hfirst, hroom⟩ := itoa_ok hb hn h
  obtain ⟨rest', hrun, -⟩ := itoa_run hb hn hfirst hroom
  rw [h] at hrun
  have hsame := congrArg Prod.snd (Except.ok.inj hrun)
  have hstring := string_unique (canonical_no_zero hb)
    (fun h0 => takeWhile_no_zero _ (List.mem_reverse.1 h0)) hsame
  refine ⟨k, hfirst, ?_⟩
  rw [hstring, List.reverse_reverse]
  exact List.takeWhile_prefix _

/-- The sign of a negative number is stored first, and so is never the first of the string. -/
theorem itoa_negative (hb : 2 ≤ base ∧ base ≤ 36) (hn : n < 0) (rest : List UInt8) :
    itoa n base buf ≠ .ok ((), canonical n base ++ 0 :: rest) := by
  intro h
  obtain ⟨k, -, hprefix⟩ := canonical_stored hb (by omega) h
  have hdigits : (numeral base.toNat 1 n.natAbs).reverse ≠ [] := by
    have := numeral_length base.toNat 1 n.natAbs
    intro hnil
    rw [List.reverse_eq_nil_iff.1 hnil, List.length_nil] at this
    omega
  obtain ⟨d, ds, hds⟩ := List.exists_cons_of_ne_nil hdigits
  have hd : d < 36 := canonical_digit_lt hb d (List.mem_reverse.1 (hds ▸ List.mem_cons_self))
  have hfirst : (canonical n base).reverse = letter d :: (ds.map letter ++ [0x2d]) := by
    unfold canonical
    rw [if_pos hn, List.reverse_append, ← List.map_reverse, hds]
    rfl
  unfold stored at hprefix
  rw [if_pos hn, hfirst, List.singleton_append, List.cons_prefix_cons] at hprefix
  exact letter_ne_sign d hd hprefix.1

/-- A positive number has no sign, and its digits are all that is stored. -/
theorem stored_of_pos {x : Nat} (base : Int) (k : Nat) : stored x base k = letters x base 0 k := by
  unfold stored magnitude
  rw [if_neg (by omega), if_neg (by omega), List.nil_append]

/-- A positive number comes out right if and only if the power behind its highest digit ends the loop. -/
theorem itoa_positive_iff {x b : Nat} (hb : 2 ≤ b) (hb36 : b ≤ 36) (hx0 : 0 < x) (hx : x < 2 ^ 31)
    (hroom : (canonical x b).length < buf.length) :
    (∃ rest, itoa x b buf = .ok ((), canonical x b ++ 0 :: rest)) ↔ Stops x b (Nat.digits b x).length := by
  have hcanonical : canonical x b = (digitsUp x b).reverse := canonical_of_pos (Int.natCast_pos.2 hx0) b
  have hmagnitude : magnitude (x : Int) = x := if_neg (by omega)
  constructor
  · rintro ⟨rest, hrun⟩
    obtain ⟨k, hfirst, hprefix⟩ := canonical_stored (by omega) (by omega) hrun
    rw [hmagnitude] at hfirst
    rw [hcanonical, List.reverse_reverse, stored_of_pos] at hprefix
    by_contra htop
    exact letters_ne hb hb36 hx0 hx htop hfirst hprefix
  · intro htop
    have hfirst : First (magnitude x) b 0 (Nat.digits b x).length := by
      rw [hmagnitude]
      exact ⟨by rwa [Nat.zero_add], fun j hj => by rw [Nat.zero_add]; exact not_stops_below hb hx hj⟩
    have hletters := letters_eq hb hb36 hx htop
    have hlen : (stored x b (Nat.digits b x).length).length < buf.length := by
      rw [stored_of_pos, hletters, ← List.length_reverse, ← hcanonical]
      exact hroom
    obtain ⟨rest, hrun, -⟩ := itoa_run (by omega) (by omega) hfirst hlen
    have h0 : ∀ c ∈ digitsUp x b, decide (c ≠ 0) = true := by
      intro c hc
      have hnz := @canonical_no_zero x b (by omega)
      rw [hcanonical, List.mem_reverse] at hnz
      exact decide_eq_true fun heq : c = 0 => hnz (heq ▸ hc)
    refine ⟨rest, ?_⟩
    rw [hrun, stored_of_pos, hletters, List.takeWhile_eq_self_iff.2 h0, hcanonical]

/-- For every number and every base from 2 to 36, `itoa` returns and leaves the numeral if and only if
the number is not negative and less than the power of the base behind its highest digit, as 32 bits wrap it. -/
theorem itoa_canonical_iff (hlow : -2 ^ 31 ≤ n) (hhigh : n < 2 ^ 31) (hb : 2 ≤ base ∧ base ≤ 36)
    (hroom : (canonical n base).length < buf.length) :
    (∃ rest, itoa n base buf = .ok ((), canonical n base ++ 0 :: rest)) ↔
      0 ≤ n ∧ n < |int32 (base ^ (Nat.digits base.toNat n.toNat).length)| := by
  obtain ⟨b, rfl⟩ : ∃ b : Nat, base = b := ⟨base.toNat, by omega⟩
  rcases lt_trichotomy n 0 with hneg | rfl | hpos
  · simp only [itoa_negative hb hneg, exists_false, false_iff]
    omega
  · have htext : canonical 0 b = [0x30] := by
      unfold canonical numeral
      simp only [lt_irrefl, if_false, Int.natAbs_zero, Nat.digits_zero]
      rfl
    rw [htext] at hroom ⊢
    obtain ⟨c, buf, rfl⟩ := List.exists_cons_of_length_pos (by omega : 0 < buf.length)
    obtain ⟨d, buf, rfl⟩ := List.exists_cons_of_length_pos (by simpa using hroom : 0 < buf.length)
    simp only [le_refl, Int.toNat_zero, Nat.digits_zero, List.length_nil, pow_zero, true_and]
    exact ⟨fun _ => by decide, fun _ => ⟨buf, rfl⟩⟩
  · obtain ⟨x, rfl⟩ : ∃ x : Nat, n = x := ⟨n.toNat, by omega⟩
    rw [itoa_positive_iff (by omega) (by omega) (by omega) (by omega) hroom, Int.abs_eq_natAbs, Int.toNat_natCast,
      Int.toNat_natCast]
    unfold Stops power
    omega

theorem itoa_canonical_iff_hexadecimal :
    ∃ rest, itoa 0xfffffff 16 (List.replicate 16 1) = .ok ((), canonical 0xfffffff 16 ++ 0 :: rest) :=
  (@itoa_canonical_iff 0xfffffff 16 (List.replicate 16 1) (by decide) (by decide) (by decide) (by decide +kernel)).2
    (by decide +kernel)

/-- Minus five comes out with its sign at the end, a large number with digits in front that it does
not have, and one more than the largest that fits into seven hexadecimal digits divides by zero. -/
theorem itoa_wrong :
    (¬ ∃ rest, itoa (-5) 10 (List.replicate 16 0) = .ok ((), canonical (-5) 10 ++ 0 :: rest)) ∧
    (¬ ∃ rest, itoa 1500000000 10 (List.replicate 32 0) = .ok ((), canonical 1500000000 10 ++ 0 :: rest)) ∧
    itoa (2 ^ 28) 16 (List.replicate 32 0) = .error .panic := by
  have hminus : itoa (-5) 10 (List.replicate 16 0) = .ok ((), chars "5-".toList ++ List.replicate 14 0) := by rfl
  have hlarge : itoa 1500000000 10 (List.replicate 32 0) =
      .ok ((), chars "500000500000000".toList ++ List.replicate 17 0) := by rfl
  have hminus' : canonical (-5) 10 = chars "-5".toList := by decide +kernel
  have hlarge' : canonical 1500000000 10 = chars "1500000000".toList := by decide +kernel
  refine ⟨?_, ?_, by rfl⟩
  · rintro ⟨rest, hrun⟩
    rw [hminus, hminus'] at hrun
    cases hrun
  · rintro ⟨rest, hrun⟩
    rw [hlarge, hlarge'] at hrun
    cases hrun

end

end Ulmix.Stdlib

import Ulmix.Lib.Exec
/-!
# The last component of a path (`userspace/stdlib/libgen.c`)

`basename` walks back from the end of the string, and looks for nothing but a slash
and a zero. It knows no beginning: where the string has no slash, the index is
counted down past zero, and the walk goes on in what lies in front of the string.
It does end there, at the latest when it has come round to the string's own zero
(`basename_ends`), but it has read a byte that is none of the string's.
-/
open Ulmix.Lib

namespace Ulmix.Libgen

/-! ## The program -/

/-- What the mapped addresses hold. -/
abbrev Memory := Nat → Option UInt8

def slash : UInt8 := 0x2f

/-- The address `a + i`. -/
def offset (a i : Nat) : Nat := (a + i) % 2 ^ 32

/-- Read a byte. The state is the list of the addresses that were read. -/
def load (m : Memory) (a : Nat) : Exec (List Nat) UInt8 := do
  modify (· ++ [a])
  match m a with
  | some c => pure c
  | none => Exec.fault .outOfBounds

/-- The loop of `strlen`. After `2 ^ 32` rounds every address was read. -/
def strlen_loop (m : Memory) : Nat → Nat → Nat → Exec (List Nat) Nat
  | 0, _, _ => Exec.fault .diverges
  | fuel + 1, str, len => do
    if (← load m str) ≠ 0 then strlen_loop m fuel (offset str 1) (offset len 1) else pure len

def strlen (m : Memory) (str : Nat) : Exec (List Nat) Nat := strlen_loop m (2 ^ 32) str 0

/-- The loop of `basename`, with `ind` before it is counted down. -/
def basename_loop (m : Memory) (pathname : Nat) : Nat → Nat → Exec (List Nat) Nat
  | 0, _ => Exec.fault .diverges
  | fuel + 1, ind => do
    let ind := offset ind (2 ^ 32 - 1)
    if (← load m (offset pathname ind)) ≠ 0 then
      if (← load m (offset pathname ind)) = slash then pure (offset (offset pathname ind) 1)
      else basename_loop m pathname fuel ind
    else pure pathname

def basename (m : Memory) (pathname : Nat) : Exec (List Nat) Nat := do
  let ind ← strlen m pathname
  basename_loop m pathname (2 ^ 32) ind

/-! ## Strings in memory -/

/-- At `p` lies the string `s`. -/
structure StringAt (m : Memory) (p : Nat) (s : List UInt8) : Prop where
  byte : ∀ i (h : i < s.length), m (p + i) = some s[i]
  zero : m (p + s.length) = some 0
  nul : 0 ∉ s
  inside : p + s.length < 2 ^ 32

/-- What stands behind the last slash, or all if there is none. -/
def lastComponent (s : List UInt8) : List UInt8 := s.rtakeWhile (· ≠ slash)

section
variable {m : Memory} {p i : Nat} {s : List UInt8} {reads : List Nat}

theorem load_run {a : Nat} {c : UInt8} (h : m a = some c) (reads : List Nat) :
    load m a reads = .ok (c, reads ++ [a]) := by
  unfold load
  rw [Exec.bind_of_ok (Exec.modify_apply _ _), h]
  rfl

theorem load_ok {a : Nat} {c : UInt8} {reads' : List Nat} (h : load m a reads = .ok (c, reads')) :
    m a = some c ∧ reads' = reads ++ [a] := by
  cases hm : m a with
  | none =>
    unfold load at h
    rw [Exec.bind_of_ok (Exec.modify_apply _ _), hm] at h
    cases h
  | some d =>
    rw [load_run hm] at h
    cases h
    exact ⟨rfl, rfl⟩

theorem offset_of_lt {a i : Nat} (h : a + i < 2 ^ 32) : offset a i = a + i := Nat.mod_eq_of_lt h

/-- From byte `i` on there are `s.length - i` bytes in front of the zero. -/
theorem strlen_loop_run (hs : StringAt m p s) (k : Nat) : ∀ (fuel i : Nat) (reads : List Nat), i + k = s.length →
    k < fuel → strlen_loop m fuel (p + i) i reads = .ok (s.length, reads ++ List.range' (p + i) (k + 1)) := by
  induction k with
  | zero =>
    intro fuel i reads hi hfuel
    obtain ⟨fuel, rfl⟩ : ∃ n, fuel = n + 1 := ⟨fuel - 1, by omega⟩
    have hzero := hs.zero
    rw [← hi, Nat.add_zero] at hzero ⊢
    unfold strlen_loop
    rw [Exec.bind_of_ok (load_run hzero reads)]
    rfl
  | succ k ih =>
    intro fuel i reads hi hfuel
    obtain ⟨fuel, rfl⟩ : ∃ n, fuel = n + 1 := ⟨fuel - 1, by omega⟩
    have hlt : i < s.length := by omega
    have hne : s[i] ≠ 0 := fun h0 => hs.nul (h0 ▸ List.getElem_mem hlt)
    have hinside := hs.inside
    unfold strlen_loop
    rw [Exec.bind_of_ok (load_run (hs.byte i hlt) reads), if_pos hne, offset_of_lt (by omega),
      offset_of_lt (by omega), Nat.add_assoc, ih fuel (i + 1) _ (by omega) (by omega), List.append_assoc]
    rfl

theorem strlen_run (hs : StringAt m p s) (reads : List Nat) :
    strlen m p reads = .ok (s.length, reads ++ List.range' p (s.length + 1)) :=
  strlen_loop_run hs s.length (2 ^ 32) 0 reads (Nat.zero_add _) (by have := hs.inside; omega)

/-! ## Walking back -/

theorem offset_back {i : Nat} (h : i + 1 < 2 ^ 32) : offset (i + 1) (2 ^ 32 - 1) = i := by
  unfold offset
  omega

/-- A round within the string. -/
theorem basename_loop_step (hs : StringAt m p s) (hi : i < s.length) (fuel : Nat) (reads : List Nat) :
    basename_loop m p (fuel + 1) (i + 1) reads =
      if s[i] = slash then .ok (p + i + 1, reads ++ [p + i, p + i])
      else basename_loop m p fuel i (reads ++ [p + i, p + i]) := by
  have hinside := hs.inside
  have hne : s[i] ≠ 0 := fun h0 => hs.nul (h0 ▸ List.getElem_mem hi)
  have hload := hs.byte i hi
  rw [basename_loop]
  rw [offset_back (by omega), offset_of_lt (by omega), Exec.bind_of_ok (load_run hload reads), if_pos hne,
    Exec.bind_of_ok (load_run hload _), offset_of_lt (by omega), List.append_assoc]
  split <;> rfl

/-- The walk passes what is no slash, and reads it. -/
theorem basename_loop_pass (hs : StringAt m p s) (k : Nat) : ∀ (fuel : Nat) (reads : List Nat), i + k ≤ s.length →
    (∀ j (h : j < s.length), i ≤ j → j < i + k → s[j] ≠ slash) →
    ∃ reads', basename_loop m p (fuel + k) (i + k) reads = basename_loop m p fuel i (reads ++ reads') ∧
      ∀ a ∈ reads', p ≤ a ∧ a < p + s.length := by
  induction k with
  | zero =>
    intro fuel reads _ _
    exact ⟨[], by simp, by simp⟩
  | succ k ih =>
    intro fuel reads hk hpass
    obtain ⟨reads', hrun, hreads⟩ := ih fuel (reads ++ [p + (i + k), p + (i + k)]) (by omega)
      fun j hj hle hlt => hpass j hj hle (by omega)
    refine ⟨[p + (i + k), p + (i + k)] ++ reads', ?_, ?_⟩
    · rw [← Nat.add_assoc, ← Nat.add_assoc, basename_loop_step hs (by omega),
        if_neg (hpass _ _ (by omega) (by omega)), hrun, List.append_assoc]
    · intro a ha
      rcases List.mem_append.1 ha with ha | ha
      · simp only [List.mem_cons, List.not_mem_nil, or_false, or_self] at ha
        omega
      · exact hreads a ha

/-- A round that returns has read the byte in front of the index, or `q` is not what it returns. -/
theorem basename_loop_succ {fuel ind q : Nat} {reads' : List Nat}
    (h : basename_loop m p (fuel + 1) ind reads = .ok (q, reads')) :
    ∃ new, offset p (offset ind (2 ^ 32 - 1)) ∈ new ∧
      (reads' = reads ++ new ∨ basename_loop m p fuel (offset ind (2 ^ 32 - 1)) (reads ++ new) = .ok (q, reads')) := by
  rw [basename_loop] at h
  generalize offset ind (2 ^ 32 - 1) = ind' at h ⊢
  obtain ⟨c, reads₁, hload, hrest⟩ := Exec.bind_ok.1 h
  obtain ⟨-, rfl⟩ := load_ok hload
  by_cases hc : c ≠ 0
  · rw [if_pos hc] at hrest
    obtain ⟨c', reads₂, hload', hrest⟩ := Exec.bind_ok.1 hrest
    obtain ⟨-, rfl⟩ := load_ok hload'
    refine ⟨[offset p ind', offset p ind'], List.mem_cons_self, ?_⟩
    rw [List.append_assoc] at hrest
    split at hrest
    · cases hrest
      exact .inl rfl
    · exact .inr hrest
  · rw [if_neg hc] at hrest
    cases hrest
    exact ⟨[offset p ind'], List.mem_cons_self, .inl rfl⟩

/-- What was read stays on record. -/
theorem basename_loop_reads (fuel : Nat) : ∀ {ind q : Nat} {reads reads' : List Nat},
    basename_loop m p fuel ind reads = .ok (q, reads') → ∀ a ∈ reads, a ∈ reads' := by
  induction fuel with
  | zero =>
    intro ind q reads reads' h
    cases h
  | succ fuel ih =>
    intro ind q reads reads' h a ha
    obtain ⟨new, -, rfl | hrest⟩ := basename_loop_succ h
    · exact List.mem_append_left _ ha
    · exact ih hrest a (List.mem_append_left _ ha)

/-- A walk that returns has read the byte in front of the index. -/
theorem basename_loop_front {fuel ind q : Nat} {reads' : List Nat}
    (h : basename_loop m p fuel ind reads = .ok (q, reads')) : offset p (offset ind (2 ^ 32 - 1)) ∈ reads' := by
  cases fuel with
  | zero => cases h
  | succ fuel =>
    obtain ⟨new, hmem, rfl | hrest⟩ := basename_loop_succ h
    · exact List.mem_append_right _ hmem
    · exact basename_loop_reads fuel hrest _ (List.mem_append_right _ hmem)

/-! ## Which strings it is right for -/

theorem lastComponent_append {u v : List UInt8} (hv : slash ∉ v) : lastComponent (u ++ slash :: v) = v := by
  have hne : ∀ c ∈ v.reverse, decide (c ≠ slash) = true := by
    intro c hc
    exact decide_eq_true fun heq : c = slash => hv (List.mem_reverse.1 (heq ▸ hc))
  unfold lastComponent List.rtakeWhile
  rw [List.reverse_append, List.reverse_cons, List.append_assoc, List.takeWhile_append_of_pos hne]
  simp

theorem lastComponent_of_none (hs : slash ∉ s) : lastComponent s = s := by
  unfold lastComponent
  rw [List.rtakeWhile_eq_self_iff]
  intro c hc
  exact decide_eq_true fun heq : c = slash => hs (heq ▸ hc)

theorem exists_last_slash (h : slash ∈ s) : ∃ u v, s = u ++ slash :: v ∧ slash ∉ v := by
  obtain ⟨v, u, hsplit, hv⟩ := List.eq_append_cons_of_mem (List.mem_reverse.2 h)
  refine ⟨u.reverse, v.reverse, ?_, by simpa using hv⟩
  have hrev := congrArg List.reverse hsplit
  simpa using hrev

/-- `basename` reads bytes of the string and its zero only, and returns where its last component begins. -/
def Right (m : Memory) (p : Nat) (s : List UInt8) : Prop :=
  ∃ reads, basename m p [] = .ok (p + (s.length - (lastComponent s).length), reads) ∧
    ∀ a ∈ reads, p ≤ a ∧ a ≤ p + s.length

/-- There the last component lies. -/
theorem StringAt.last (hs : StringAt m p s) : StringAt m (p + (s.length - (lastComponent s).length))
    (lastComponent s) := by
  by_cases hslash : slash ∈ s
  · obtain ⟨u, v, rfl, hv⟩ := exists_last_slash hslash
    rw [lastComponent_append hv]
    have hlen : (u ++ slash :: v).length - v.length = u.length + 1 := by
      simp only [List.length_append, List.length_cons]
      omega
    have hzero := hs.zero
    have hinside := hs.inside
    rw [List.length_append, List.length_cons,
      show p + (u.length + (v.length + 1)) = p + (u.length + 1) + v.length by omega] at hzero hinside
    rw [hlen]
    refine ⟨fun i hi => ?_, hzero, fun hm => hs.nul (by simp [hm]), hinside⟩
    have hbyte := hs.byte (u.length + 1 + i) (by simp only [List.length_append, List.length_cons]; omega)
    rw [← Nat.add_assoc, List.getElem_append_right (by omega)] at hbyte
    simpa [show u.length + 1 + i - u.length = i + 1 by omega] using hbyte
  · rwa [lastComponent_of_none hslash, Nat.sub_self]

/-- The walk begins at the string's zero, and what `strlen` has read are bytes of the string. -/
theorem right_iff (hs : StringAt m p s) : Right m p s ↔
    ∃ reads, basename_loop m p (2 ^ 32) s.length (List.range' p (s.length + 1)) =
        .ok (p + (s.length - (lastComponent s).length), reads) ∧ ∀ a ∈ reads, p ≤ a ∧ a ≤ p + s.length := by
  have hstrlen := strlen_run hs []
  rw [List.nil_append] at hstrlen
  unfold Right basename
  rw [Exec.bind_of_ok hstrlen]

/-- The bytes that `strlen` reads, and those of a walk within the string. -/
theorem reads_inside {front back : List Nat} (hfront : ∀ a ∈ front, p ≤ a ∧ a < p + s.length)
    (hback : ∀ a ∈ back, p ≤ a ∧ a ≤ p + s.length) :
    ∀ a ∈ List.range' p (s.length + 1) ++ front ++ back, p ≤ a ∧ a ≤ p + s.length := by
  intro a ha
  rcases List.mem_append.1 ha with ha | ha
  · rcases List.mem_append.1 ha with ha | ha
    · rw [List.mem_range'_1] at ha
      omega
    · have := hfront a ha
      omega
  · exact hback a ha

/-- Where there is a slash, the walk stops at the last one. -/
theorem right_of_slash (hs : StringAt m p s) (hslash : slash ∈ s) : Right m p s := by
  have hinside := hs.inside
  rw [right_iff hs]
  obtain ⟨u, v, rfl, hv⟩ := exists_last_slash hslash
  have hlen : (u ++ slash :: v).length = u.length + 1 + v.length := by
    simp only [List.length_append, List.length_cons]
    omega
  have hlt : u.length < (u ++ slash :: v).length := by omega
  have hpass : ∀ j (h : j < (u ++ slash :: v).length), u.length + 1 ≤ j → j < u.length + 1 + v.length →
      (u ++ slash :: v)[j] ≠ slash := by
    intro j hj hle _ heq
    rw [List.getElem_append_right (by omega), List.getElem_cons, dif_neg (by omega)] at heq
    exact hv (heq ▸ List.getElem_mem _)
  obtain ⟨reads, hrun, hreads⟩ := basename_loop_pass hs v.length (2 ^ 32 - v.length)
    (List.range' p ((u ++ slash :: v).length + 1)) (by omega) hpass
  obtain ⟨fuel, hfuel⟩ : ∃ n, 2 ^ 32 - v.length = n + 1 := ⟨2 ^ 32 - v.length - 1, by omega⟩
  have hstep := basename_loop_step hs hlt fuel (List.range' p ((u ++ slash :: v).length + 1) ++ reads)
  rw [if_pos (by simp)] at hstep
  rw [show 2 ^ 32 - v.length + v.length = 2 ^ 32 by omega, ← hlen, hfuel, hstep] at hrun
  have hstart : p + ((u ++ slash :: v).length - v.length) = p + u.length + 1 := by omega
  rw [lastComponent_append hv, hstart]
  refine ⟨_, hrun, reads_inside hreads fun a ha => ?_⟩
  simp only [List.mem_cons, List.not_mem_nil, or_false, or_self] at ha
  omega

theorem offset_wrap : offset 0 (2 ^ 32 - 1) = 2 ^ 32 - 1 := Nat.mod_eq_of_lt (by omega)

/-- Where there is none, the walk passes the string, and goes on from the index zero. -/
theorem basename_loop_whole (hs : StringAt m p s) (hslash : slash ∉ s) : ∃ reads,
    basename_loop m p (2 ^ 32) s.length (List.range' p (s.length + 1)) =
        basename_loop m p (2 ^ 32 - s.length) 0 (List.range' p (s.length + 1) ++ reads) ∧
      ∀ a ∈ reads, p ≤ a ∧ a < p + s.length := by
  have hinside := hs.inside
  have hpass : ∀ j (h : j < s.length), 0 ≤ j → j < 0 + s.length → s[j] ≠ slash :=
    fun j hj _ _ heq => hslash (heq ▸ List.getElem_mem hj)
  obtain ⟨reads, hrun, hreads⟩ := basename_loop_pass hs s.length (2 ^ 32 - s.length) (List.range' p (s.length + 1))
    (by omega) hpass
  rw [show 2 ^ 32 - s.length + s.length = 2 ^ 32 by omega, Nat.zero_add] at hrun
  exact ⟨reads, hrun, hreads⟩

/-- The byte in front of the string is read, and is one of its own only if it goes round. -/
theorem full_of_right (hs : StringAt m p s) (hslash : slash ∉ s) (h : Right m p s) : s.length + 1 = 2 ^ 32 := by
  have hinside := hs.inside
  obtain ⟨reads, hpass, -⟩ := basename_loop_whole hs hslash
  obtain ⟨reads', hrun, hown⟩ := (right_iff hs).1 h
  rw [hpass] at hrun
  have hfront := hown _ (basename_loop_front hrun)
  rw [offset_wrap] at hfront
  unfold offset at hfront
  omega

/-- A string that fills the memory has its own zero in front. -/
theorem right_of_full (hs : StringAt m p s) (hslash : slash ∉ s) (hfull : s.length + 1 = 2 ^ 32) : Right m p s := by
  have hinside := hs.inside
  obtain rfl : p = 0 := by omega
  have hzero : m (2 ^ 32 - 1) = some 0 := by
    have := hs.zero
    rwa [Nat.zero_add, show s.length = 2 ^ 32 - 1 by omega] at this
  obtain ⟨reads, hpass, hreads⟩ := basename_loop_whole hs hslash
  obtain ⟨fuel, hfuel⟩ : ∃ n, 2 ^ 32 - s.length = n + 1 := ⟨2 ^ 32 - s.length - 1, by omega⟩
  have hround : ∀ reads, basename_loop m 0 (fuel + 1) 0 reads = .ok (0, reads ++ [2 ^ 32 - 1]) := by
    intro reads
    rw [basename_loop, offset_wrap, offset_wrap, Exec.bind_of_ok (load_run hzero reads), if_neg (by simp)]
    rfl
  rw [right_iff hs, hpass, hfuel, hround, lastComponent_of_none hslash, Nat.sub_self]
  refine ⟨_, rfl, reads_inside hreads fun a ha => ?_⟩
  rw [List.mem_singleton] at ha
  omega

/-- For every string, wherever it lies and whatever lies around it: `basename` is right if and only if the string
has a slash, or fills the whole memory. -/
theorem basename_iff (hs : StringAt m p s) : Right m p s ↔ slash ∈ s ∨ s.length + 1 = 2 ^ 32 := by
  by_cases hslash : slash ∈ s
  · exact iff_of_true (right_of_slash hs hslash) (.inl hslash)
  · constructor
    · exact fun h => .inr (full_of_right hs hslash h)
    · exact fun h => right_of_full hs hslash (h.resolve_left hslash)

/-- The rounds from the index `ind` to the one that reads the string's zero. -/
def rounds (s : List UInt8) (ind : Nat) : Nat := if s.length < ind then ind - s.length else ind + (2 ^ 32 - s.length)

theorem basename_loop_ends (hs : StringAt m p s) (fuel : Nat) : ∀ {ind : Nat} {reads : List Nat}, ind < 2 ^ 32 →
    rounds s ind ≤ fuel → basename_loop m p fuel ind reads ≠ .error .diverges := by
  have hinside := hs.inside
  induction fuel with
  | zero =>
    intro ind reads hind hrounds
    unfold rounds at hrounds
    split at hrounds <;> omega
  | succ fuel ih =>
    intro ind reads hind hrounds
    have hnext : offset ind (2 ^ 32 - 1) < 2 ^ 32 := Nat.mod_lt _ (by decide)
    have hcount : offset ind (2 ^ 32 - 1) ≠ s.length → rounds s (offset ind (2 ^ 32 - 1)) ≤ fuel := by
      unfold rounds offset at *
      intro hne
      split at hrounds <;> split <;> omega
    have hend : offset ind (2 ^ 32 - 1) = s.length → m (offset p (offset ind (2 ^ 32 - 1))) = some 0 := by
      intro heq
      rw [heq, offset_of_lt hinside]
      exact hs.zero
    rw [basename_loop]
    generalize offset ind (2 ^ 32 - 1) = ind' at hnext hcount hend ⊢
    cases hbyte : m (offset p ind') with
    | none =>
      have hload : load m (offset p ind') reads = .error .outOfBounds := by
        unfold load
        rw [Exec.bind_of_ok (Exec.modify_apply _ _), hbyte]
        rfl
      rw [Exec.bind_of_error hload]
      simp
    | some c =>
      rw [Exec.bind_of_ok (load_run hbyte reads)]
      by_cases hc : c ≠ 0
      · have hne : ind' ≠ s.length := by
          intro heq
          rw [hend heq] at hbyte
          exact hc (Option.some_inj.1 hbyte).symm
        rw [if_pos hc, Exec.bind_of_ok (load_run hbyte _)]
        split
        · simp
        · exact ih hnext (hcount hne)
      · rw [if_neg hc]
        simp

/-- Whatever lies around the string, the walk ends, or comes to an address that is not mapped. -/
theorem basename_ends (hs : StringAt m p s) (reads : List Nat) : basename m p reads ≠ .error .diverges := by
  have hinside := hs.inside
  unfold basename
  rw [Exec.bind_of_ok (strlen_run hs reads)]
  refine basename_loop_ends hs (2 ^ 32) (by omega) ?_
  unfold rounds
  rw [if_neg (lt_irrefl _)]
  omega

/-! ## Names without a slash -/

/-- The index counted down to `k` bytes in front of the string. -/
def before (k : Nat) : Nat := (2 ^ 32 - k) % 2 ^ 32

/-- A round in front of the string. -/
theorem basename_loop_before {c : UInt8} {k : Nat} (hk : k < p) (hp : p < 2 ^ 32) (hc : m (p - (k + 1)) = some c)
    (fuel : Nat) (reads : List Nat) : ∃ reads', basename_loop m p (fuel + 1) (before k) reads =
      if c = 0 then .ok (p, reads') else if c = slash then .ok (p - k, reads')
      else basename_loop m p fuel (before (k + 1)) reads' := by
  have hdown : offset (before k) (2 ^ 32 - 1) = before (k + 1) := by
    unfold offset before
    omega
  have haddress : offset p (before (k + 1)) = p - (k + 1) := by
    unfold offset before
    omega
  have hnext : offset (p - (k + 1)) 1 = p - k := by
    rw [offset_of_lt (by omega)]
    omega
  rw [basename_loop, hdown, haddress, Exec.bind_of_ok (load_run hc reads)]
  by_cases h0 : c = 0
  · simp only [if_pos h0]
    rw [if_neg (not_not.2 h0)]
    exact ⟨_, rfl⟩
  · simp only [if_neg h0]
    rw [if_pos h0, Exec.bind_of_ok (load_run hc _), hnext]
    refine ⟨reads ++ [p - (k + 1)] ++ [p - (k + 1)], ?_⟩
    split <;> rfl

theorem basename_loop_past {n : Nat} (hn : n < p) (hp : p < 2 ^ 32)
    (hpast : ∀ j < n, ∃ c, m (p - (j + 1)) = some c ∧ c ≠ 0 ∧ c ≠ slash) (fuel : Nat) (reads : List Nat) :
    ∃ reads', basename_loop m p (fuel + n) 0 reads = basename_loop m p fuel (before n) reads' := by
  induction n generalizing fuel with
  | zero => exact ⟨reads, rfl⟩
  | succ n ih =>
    obtain ⟨reads₁, hrun⟩ := ih (by omega) (fun j hj => hpast j (by omega)) (fuel + 1)
    obtain ⟨c, hc, h0, hslash⟩ := hpast n (by omega)
    obtain ⟨reads₂, hstep⟩ := basename_loop_before (by omega) hp hc fuel reads₁
    rw [if_neg h0, if_neg hslash] at hstep
    exact ⟨reads₂, by rw [show fuel + (n + 1) = fuel + 1 + n by omega, hrun, hstep]⟩

/-- A name without a slash is returned as it is if the walk finds a zero first, and with the `n` bytes
in front of it if it finds a slash first. -/
theorem basename_plain (hs : StringAt m p s) (hslash : slash ∉ s) {n : Nat} (hn : n < p)
    (hpast : ∀ j < n, ∃ c, m (p - (j + 1)) = some c ∧ c ≠ 0 ∧ c ≠ slash) {c : UInt8}
    (hc : m (p - (n + 1)) = some c) (hstop : c = 0 ∨ c = slash) : ∃ reads,
      basename m p [] = .ok (if c = 0 then p else p - n, reads) := by
  have hinside := hs.inside
  have hstrlen := strlen_run hs []
  obtain ⟨reads, hpass, -⟩ := basename_loop_whole hs hslash
  obtain ⟨fuel, hfuel⟩ : ∃ f, 2 ^ 32 - s.length = f + 1 + n := ⟨2 ^ 32 - s.length - 1 - n, by omega⟩
  obtain ⟨reads₁, hpast'⟩ := basename_loop_past hn (by omega) hpast (fuel + 1) (List.range' p (s.length + 1) ++ reads)
  obtain ⟨reads₂, hlast⟩ := basename_loop_before hn (by omega) hc fuel reads₁
  refine ⟨reads₂, ?_⟩
  rw [List.nil_append] at hstrlen
  unfold basename
  rw [Exec.bind_of_ok hstrlen, hpass, hfuel, hpast', hlast]
  rcases hstop with rfl | rfl
  · rfl
  · rw [if_neg (by decide), if_pos rfl, if_neg (by decide)]

end

/-- The string `s` at `0x1000`, with the bytes `front` before it and nothing else. -/
def alone (front s : List UInt8) : Memory := fun a =>
  if a + front.length < 0x1000 then none else (front ++ s ++ [0])[a + front.length - 0x1000]?

theorem alone_stringAt {front s : List UInt8} (h0 : 0 ∉ s) (hlen : 0x1000 + s.length < 2 ^ 32) :
    StringAt (alone front s) 0x1000 s := by
  have hat : ∀ i, alone front s (0x1000 + i) = (s ++ [0])[i]? := by
    intro i
    unfold alone
    rw [if_neg (by omega), List.append_assoc, List.getElem?_append_right (by omega)]
    congr 1
    omega
  refine ⟨fun i hi => ?_, ?_, h0, hlen⟩
  · rw [hat, List.getElem?_append_left hi, List.getElem?_eq_getElem hi]
  · rw [hat]
    simp

/-- `/bin/ls` -/
def absoluteLs : List UInt8 := [0x2f, 0x62, 0x69, 0x6e, 0x2f, 0x6c, 0x73]

/-- `ls` -/
def plainLs : List UInt8 := [0x6c, 0x73]

theorem basename_iff_absolute : Right (alone [] absoluteLs) 0x1000 absoluteLs :=
  (basename_iff (alone_stringAt (by decide) (by decide))).2 (.inl (by decide))

/-- Behind `/a` the plain name `ls` comes out as `als`, and where nothing is mapped in front of it, the walk
comes to an address that is not. -/
theorem basename_plain_name :
    ¬ Right (alone [slash, 0x61] plainLs) 0x1000 plainLs ∧
      basename (alone [slash, 0x61] plainLs) 0x1000 [] =
        .ok (0xfff, [0x1000, 0x1001, 0x1002, 0x1001, 0x1001, 0x1000, 0x1000, 0xfff, 0xfff, 0xffe, 0xffe]) ∧
      basename (alone [] plainLs) 0x1000 [] = .error .outOfBounds := by
  have hrun : basename (alone [slash, 0x61] plainLs) 0x1000 [] =
      .ok (0xfff, [0x1000, 0x1001, 0x1002, 0x1001, 0x1001, 0x1000, 0x1000, 0xfff, 0xfff, 0xffe, 0xffe]) := by rfl
  refine ⟨?_, hrun, by rfl⟩
  rintro ⟨reads, hright, -⟩
  rw [hrun] at hright
  cases hright

end Ulmix.Libgen

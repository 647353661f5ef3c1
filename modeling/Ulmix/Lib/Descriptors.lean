import Ulmix.Lib.ListStack
/-!
# Descriptors and the way to a handler

What a 32-bit x86 processor reads from the eight bytes of a segment or gate
descriptor, and what it does with a vector: the checks on the gate and on the code
segment it names, and the words it pushes on the way in and takes off with `iret`.
-/

namespace Ulmix.Lib.X86

/-- The bytes `bs` lie in memory from `a` on. -/
def Lies (mem : Nat → UInt8) (a : Nat) (bs : List UInt8) : Prop := ∀ j (h : j < bs.length), mem (add32 a j) = bs[j]

/-- A segment, decoded. -/
structure Segment where
  base : Nat
  /-- The last offset that is inside. -/
  limit : Nat
  /-- The type, with the bit that tells code and data from system segments on top. -/
  kind : Nat
  dpl : Nat
  present : Bool
  /-- 32-bit code or stack. -/
  big : Bool
  deriving DecidableEq, Repr

def segmentOf (mem : Nat → UInt8) (a : Nat) : Segment :=
  let low := read32 mem a
  let high := read32 mem (add32 a 4)
  let limit := low % 65536 + high / 65536 % 16 * 65536
  { base := low / 65536 + high % 256 * 65536 + high / 16777216 * 16777216
    limit := if high.testBit 23 then limit * 4096 + 4095 else limit
    kind := high / 256 % 32
    dpl := high / 8192 % 4
    present := high.testBit 15
    big := high.testBit 22 }

/-- A gate, decoded. -/
structure Gate where
  offset : Nat
  selector : Nat
  kind : Nat
  dpl : Nat
  present : Bool
  deriving DecidableEq, Repr

def gateOf (mem : Nat → UInt8) (a : Nat) : Gate :=
  let low := read32 mem a
  let high := read32 mem (add32 a 4)
  { offset := low % 65536 + high / 65536 * 65536
    selector := low / 65536
    kind := high / 256 % 32
    dpl := high / 8192 % 4
    present := high.testBit 15 }

/-- A descriptor table register. -/
structure TableReg where
  base : Nat
  limit : Nat
  deriving DecidableEq, Repr

/-- The segment a selector names, if the table reaches that far. -/
def TableReg.segment? (r : TableReg) (mem : Nat → UInt8) (selector : Nat) : Option Segment :=
  if selector / 8 * 8 + 7 ≤ r.limit then some (segmentOf mem (add32 r.base (selector / 8 * 8))) else none

/-- Where a vector leads. -/
inductive Taken where
  | gate (g : Gate)
  | task (g : Gate)
  /-- To another vector, with an error code. -/
  | fault (v code : Nat)
  deriving DecidableEq, Repr

/-- The processor at privilege `cpl` takes the vector `v`; `soft` if an `int` instruction asked for it. -/
def vectorTo (mem : Nat → UInt8) (gdtr idtr : TableReg) (cpl : Nat) (soft : Bool) (v : Nat) : Taken :=
  let ext := if soft then 0 else 1
  let g := gateOf mem (add32 idtr.base (8 * v))
  if idtr.limit < 8 * v + 7 then .fault 13 (8 * v + 2 + ext)
  else if g.kind ∉ [0x05, 0x06, 0x07, 0x0e, 0x0f] then .fault 13 (8 * v + 2 + ext)
  else if soft ∧ g.dpl < cpl then .fault 13 (8 * v + 2 + ext)
  else if g.present = false then .fault 11 (8 * v + 2 + ext)
  else if g.kind = 0x05 then .task g
  else
    match gdtr.segment? mem g.selector with
    | none => .fault 13 (g.selector / 8 * 8 + ext)
    | some s =>
      -- a code segment, of a privilege that is not lower
      if s.kind / 8 ≠ 3 ∨ cpl < s.dpl then .fault 13 (g.selector / 8 * 8 + ext)
      else if s.present = false then .fault 11 (g.selector / 8 * 8 + ext)
      else .gate g

/-- The stack the task register has for privilege 0: segment and pointer. -/
def kernelStack (mem : Nat → UInt8) (gdtr : TableReg) (tr : Nat) : Option (Nat × Nat) :=
  (gdtr.segment? mem tr).map fun s => (read32 mem (add32 s.base 8) % 65536, read32 mem (add32 s.base 4))

section
variable {mem : Nat → UInt8} {a : Nat}

/-- The descriptors of a table that lies in memory. -/
theorem lies_of_table {base n : Nat} {f : Nat → List UInt8} (hlen : ∀ v, (f v).length = 8) (hn : base + 8 * n ≤ 2 ^ 32)
    (hmem : ∀ i < 8 * n, mem (base + i) = (f (i / 8)).getD (i % 8) 0) {v : Nat} (hv : v < n) :
    Lies mem (add32 base (8 * v)) (f v) := by
  intro j hj
  have hj8 : j < 8 := (hlen v) ▸ hj
  have haddr : add32 (add32 base (8 * v)) j = base + (8 * v + j) := by
    unfold add32
    omega
  have hdiv : (8 * v + j) / 8 = v := by omega
  have hmod : (8 * v + j) % 8 = j := by omega
  rw [haddr, hmem _ (by omega), hdiv, hmod, List.getD_eq_getElem _ _ hj]

/-- The words of a table that lies in memory. -/
theorem read32_of_table {base n : Nat} {f : Nat → Nat} (hf : ∀ v < n, f v < 2 ^ 32) (hn : base + 4 * n ≤ 2 ^ 32)
    (hmem : ∀ i < 4 * n, mem (base + i) = byteOf (f (i / 4)) (i % 4)) {v : Nat} (hv : v < n) :
    read32 mem (add32 base (4 * v)) = f v := by
  have hbyte : ∀ j < 4, mem (add32 (add32 base (4 * v)) j) = byteOf (f v) j := by
    intro j hj
    have haddr : add32 (add32 base (4 * v)) j = base + (4 * v + j) := by
      unfold add32
      omega
    have hdiv : (4 * v + j) / 4 = v := by omega
    have hmod : (4 * v + j) % 4 = j := by omega
    rw [haddr, hmem _ (by omega), hdiv, hmod]
  unfold read32
  rw [hbyte 0 (by decide), hbyte 1 (by decide), hbyte 2 (by decide), hbyte 3 (by decide), ofBytes_byteOf (hf v hv)]

/-- Two words of a descriptor from its bytes. -/
theorem read32_of_lies {b0 b1 b2 b3 b4 b5 b6 b7 : UInt8} (h : Lies mem a [b0, b1, b2, b3, b4, b5, b6, b7]) :
    read32 mem a = ofBytes b0 b1 b2 b3 ∧ read32 mem (add32 a 4) = ofBytes b4 b5 b6 b7 := by
  have h0 := h 0 (by simp)
  have h1 := h 1 (by simp)
  have h2 := h 2 (by simp)
  have h3 := h 3 (by simp)
  have h4 := h 4 (by simp)
  have h5 := h 5 (by simp)
  have h6 := h 6 (by simp)
  have h7 := h 7 (by simp)
  simp only [List.getElem_cons_zero, List.getElem_cons_succ] at h0 h1 h2 h3 h4 h5 h6 h7
  have hadd : ∀ i j, add32 (add32 a i) j = add32 a (i + j) := by
    intro i j
    unfold add32
    omega
  unfold read32
  simp only [hadd]
  exact ⟨by rw [h0, h1, h2, h3], by rw [h4, h5, h6, h7]⟩

/-- Through a gate that is there, to a code segment that is there, only the privilege can stand in the way. -/
theorem vectorTo_gate {gdtr idtr : TableReg} {v cpl : Nat} {soft : Bool} {g : Gate} {s : Segment}
    (hg : gateOf mem (add32 idtr.base (8 * v)) = g) (hin : 8 * v + 7 ≤ idtr.limit)
    (hkind : g.kind = 0x0e) (hpresent : g.present = true)
    (hs : gdtr.segment? mem g.selector = some s) (hcode : s.kind / 8 = 3) (hdpl : s.dpl = 0)
    (hspresent : s.present = true) :
    vectorTo mem gdtr idtr cpl soft v =
      if soft ∧ g.dpl < cpl then .fault 13 (8 * v + 2 + if soft then 0 else 1) else .gate g := by
  unfold vectorTo
  simp only [hg, not_lt.2 hin, if_false, hkind, List.mem_cons, List.not_mem_nil, or_false, or_true, not_true_eq_false,
    hpresent, hs, hcode, hdpl, hspresent, ne_eq, Nat.not_lt_zero, reduceCtorEq, Nat.reduceEqDiff, or_self]

/-- What is no gate leads to the protection fault. -/
theorem vectorTo_none {gdtr idtr : TableReg} {v cpl : Nat} {soft : Bool}
    (hkind : (gateOf mem (add32 idtr.base (8 * v))).kind = 0) :
    vectorTo mem gdtr idtr cpl soft v = .fault 13 (8 * v + 2 + if soft then 0 else 1) := by
  unfold vectorTo
  simp [hkind]

end

end Ulmix.Lib.X86

import Ulmix.Lib.Word
/-!
# The instructions of 32-bit entry code

Registers, segment registers and byte memory of an x86 processor in 32-bit mode
with flat segments, and the few instructions hand-written entry code is made of:
pushes and pops, moves, an indexed load, a conditional forward jump, calls. What
a called function does is a parameter; the loads and calls made on the way are
recorded.
-/

namespace Ulmix.Lib.X86

inductive Reg where
  | eax | ecx | edx | ebx | esp | ebp | esi | edi
  deriving DecidableEq, Repr

inductive Seg where
  | ds | es | fs | gs
  deriving DecidableEq, Repr

/-- 32-bit registers, 16-bit segment registers, the zero flag and memory. -/
structure Cpu where
  regs : Reg → Nat
  segs : Seg → Nat
  zf : Bool
  mem : Nat → UInt8

/-- A call made: its target, and the stack it found. -/
structure Call where
  target : Nat
  esp : Nat
  mem : Nat → UInt8

/-- The processor, with the addresses loaded from and the calls made so far, latest first. -/
structure Machine where
  cpu : Cpu
  loads : List Nat
  calls : List Call

structure Env where
  /-- What the function at an address makes of the processor, from its first
  instruction to behind its `ret`; nothing if it does not return. -/
  callee : Nat → Cpu → Option Cpu
  /-- Whether pushing a segment register clears the upper half of the word or leaves it as it is:
  processors differ. -/
  zero_extends : Bool
  /-- The return addresses calls push. -/
  return_addr : Nat

inductive Instr where
  | nop
  | push (r : Reg)
  | push_imm (v : Nat)
  | push_seg (s : Seg)
  | pushad
  | pop (r : Reg)
  | pop_seg (s : Seg)
  | popad
  | mov_imm (r : Reg) (v : Nat)
  /-- To the lower half of the register. -/
  | mov_low (r : Reg) (v : Nat)
  | mov_seg (s : Seg) (r : Reg)
  | add (r r' : Reg)
  | add_imm (r : Reg) (v : Nat)
  | mul (r : Reg)
  | test (r r' : Reg)
  /-- `mov r, [r']` -/
  | load (r r' : Reg)
  /-- Past the next `n` instructions. -/
  | jz (n : Nat)
  | call (target : Nat)
  | call_reg (r : Reg)
  | iret
  deriving DecidableEq, Repr

/-- The bytes an instruction takes; `short` if the assembler gives a small immediate one byte. -/
def Instr.size (short : Bool) : Instr → Nat
  | .push_imm v => if short ∧ v < 128 then 2 else 5
  | .push_seg s | .pop_seg s => if s = .fs ∨ s = .gs then 2 else 1
  | .mov_imm .. | .call _ => 5
  | .mov_low .. => 4
  | .add_imm _ v => if short ∧ v < 128 then 3 else 6
  | .load _ r => if r = .esp ∨ r = .ebp then 3 else 2
  | .mov_seg .. | .add .. | .mul _ | .test .. | .jz _ | .call_reg _ => 2
  | .nop | .push _ | .pushad | .pop _ | .popad | .iret => 1

/-- The bytes a piece of code takes. -/
def codeSize (short : Bool) (is : List Instr) : Nat := (is.map (Instr.size short)).sum

theorem codeSize_append (short : Bool) (is js : List Instr) :
    codeSize short (is ++ js) = codeSize short is + codeSize short js := by
  simp [codeSize]

namespace Cpu

def set (c : Cpu) (r : Reg) (v : Nat) : Cpu := { c with regs := Function.update c.regs r v }

def set_seg (c : Cpu) (s : Seg) (v : Nat) : Cpu := { c with segs := Function.update c.segs s v }

/-- The word on top of the stack. -/
def top (c : Cpu) : Nat := read32 c.mem (c.regs .esp)

def push (c : Cpu) (v : Nat) : Cpu :=
  { c with
    regs := Function.update c.regs .esp (sub32 (c.regs .esp) 4)
    mem := write32 c.mem (sub32 (c.regs .esp) 4) v }

/-- Take the top word off the stack. -/
def drop (c : Cpu) : Cpu := c.set .esp (add32 (c.regs .esp) 4)

/-- A register popped is written last, `esp` too. -/
def pop (c : Cpu) (r : Reg) : Cpu := c.drop.set r c.top

def push_seg (c : Cpu) (zero_extends : Bool) (s : Seg) : Cpu :=
  c.push (c.segs s + 65536 * if zero_extends then 0 else read32 c.mem (sub32 (c.regs .esp) 4) / 65536)

def pushad (c : Cpu) : Cpu :=
  ((((((((c.push (c.regs .eax)).push (c.regs .ecx)).push (c.regs .edx)).push (c.regs .ebx)).push
    (c.regs .esp)).push (c.regs .ebp)).push (c.regs .esi)).push (c.regs .edi))

def popad (c : Cpu) : Cpu :=
  ((((((((c.pop .edi).pop .esi).pop .ebp).drop).pop .ebx).pop .edx).pop .ecx).pop .eax)

variable (c : Cpu) {r r' : Reg}

@[simp] theorem set_self (v : Nat) : (c.set r v).regs r = v := Function.update_self ..

theorem set_ne (v : Nat) (h : r' ≠ r) : (c.set r v).regs r' = c.regs r' := Function.update_of_ne h ..

theorem push_esp (v : Nat) : (c.push v).regs .esp = sub32 (c.regs .esp) 4 := by
  simp only [push, Function.update_self]

theorem push_ne (v : Nat) (h : r ≠ .esp) : (c.push v).regs r = c.regs r := by
  simp only [push, Function.update_of_ne h]

theorem push_mem (v : Nat) : (c.push v).mem = write32 c.mem (sub32 (c.regs .esp) 4) v := by
  simp only [push]

end Cpu

/-- The instructions that only change the processor. -/
def exec (e : Env) (i : Instr) (c : Cpu) : Cpu :=
  match i with
  | .push r => c.push (c.regs r)
  | .push_imm v => c.push v
  | .push_seg s => c.push_seg e.zero_extends s
  | .pushad => c.pushad
  | .pop r => c.pop r
  | .pop_seg s => c.drop.set_seg s (c.top % 65536)
  | .popad => c.popad
  | .mov_imm r v => c.set r (v % 2 ^ 32)
  | .mov_low r v => c.set r (c.regs r / 65536 * 65536 + v % 65536)
  | .mov_seg s r => c.set_seg s (c.regs r % 65536)
  | .add r r' => { c.set r (add32 (c.regs r) (c.regs r')) with zf := add32 (c.regs r) (c.regs r') == 0 }
  | .add_imm r v => { c.set r (add32 (c.regs r) v) with zf := add32 (c.regs r) v == 0 }
  | .mul r => (c.set .eax (c.regs .eax * c.regs r % 2 ^ 32)).set .edx (c.regs .eax * c.regs r / 2 ^ 32 % 2 ^ 32)
  | .test r r' => { c with zf := c.regs r &&& c.regs r' == 0 }
  | _ => c

/-- Call the function at `t`. -/
def Machine.enter (e : Env) (t : Nat) (m : Machine) : Machine :=
  let c := m.cpu.push e.return_addr
  { m with cpu := c, calls := ⟨t, c.regs .esp, c.mem⟩ :: m.calls }

theorem Machine.enter_calls (e : Env) (t : Nat) (m : Machine) :
    (m.enter e t).calls = ⟨t, (m.enter e t).cpu.regs .esp, (m.enter e t).cpu.mem⟩ :: m.calls := rfl

/-- How a piece of code ends. -/
inductive Outcome where
  /-- At an `iret` that has not run yet. -/
  | iret (m : Machine)
  /-- In a function that does not return. -/
  | inside (m : Machine)
  /-- Behind the last instruction. -/
  | off (m : Machine)

def Outcome.machine : Outcome → Machine
  | .iret m => m
  | .inside m => m
  | .off m => m

/-- Run from the instruction after the next `skip` ones. -/
def run (e : Env) : Nat → List Instr → Machine → Outcome
  | _, [], m => .off m
  | skip + 1, _ :: is, m => run e skip is m
  | 0, .iret :: _, m => .iret m
  | 0, .jz n :: is, m => run e (if m.cpu.zf then n else 0) is m
  | 0, .load r r' :: is, m =>
    run e 0 is { m with cpu := m.cpu.set r (read32 m.cpu.mem (m.cpu.regs r')), loads := m.cpu.regs r' :: m.loads }
  | 0, .call t :: is, m =>
    match e.callee t (m.enter e t).cpu with
    | none => .inside (m.enter e t)
    | some c => run e 0 is { m.enter e t with cpu := c }
  | 0, .call_reg r :: is, m =>
    match e.callee (m.cpu.regs r) (m.enter e (m.cpu.regs r)).cpu with
    | none => .inside (m.enter e (m.cpu.regs r))
    | some c => run e 0 is { m.enter e (m.cpu.regs r) with cpu := c }
  | 0, i :: is, m => run e 0 is { m with cpu := exec e i m.cpu }

theorem run_call_reg_none {e : Env} {r : Reg} {m : Machine} (is : List Instr)
    (h : e.callee (m.cpu.regs r) (m.enter e (m.cpu.regs r)).cpu = none) :
    run e 0 (.call_reg r :: is) m = .inside (m.enter e (m.cpu.regs r)) := by
  simp only [run, h]

theorem run_call_reg_some {e : Env} {r : Reg} {m : Machine} (is : List Instr) {c : Cpu}
    (h : e.callee (m.cpu.regs r) (m.enter e (m.cpu.regs r)).cpu = some c) :
    run e 0 (.call_reg r :: is) m = run e 0 is { m.enter e (m.cpu.regs r) with cpu := c } := by
  simp only [run, h]

/-- Functions that follow the C calling convention on a stack ending at `bottom`: if they return, then
with `ebx`, `esi`, `edi`, `ebp`, `esp` and the segment registers as they were and
the stack from their arguments on as it was. -/
structure Cdecl (callee : Nat → Cpu → Option Cpu) (bottom : Nat) : Prop where
  regs : ∀ t c c', callee t c = some c' → ∀ r ∈ [Reg.ebx, .esi, .edi, .ebp], c'.regs r = c.regs r
  esp : ∀ t c c', callee t c = some c' → c'.regs .esp = add32 (c.regs .esp) 4
  segs : ∀ t c c', callee t c = some c' → c'.segs = c.segs
  stack : ∀ t c c', callee t c = some c' → ∀ b < 2 ^ 32,
    sub32 b (add32 (c.regs .esp) 4) < sub32 bottom (add32 (c.regs .esp) 4) → c'.mem b = c.mem b
  words : ∀ t c c', callee t c = some c' → (∀ r, c.regs r < 2 ^ 32) → ∀ r, c'.regs r < 2 ^ 32

end Ulmix.Lib.X86

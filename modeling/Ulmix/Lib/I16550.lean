import Mathlib
/-!
# The transmitter of a 16550 UART

A byte written to the data port waits in a FIFO until the shift register takes it, and is sent from there; both
happen at times of their own. The divisor latch lies behind the same port. To clear the FIFO, or to turn the FIFOs
on or off, drops the bytes that wait; the one in the shift register is sent all the same. The receiver is left out.
-/

namespace Ulmix.Lib.I16550

structure Uart where
  ier : UInt8
  lcr : UInt8
  mcr : UInt8
  dll : UInt8
  dlm : UInt8
  /-- The FIFOs are on. -/
  enabled : Bool
  /-- The bytes that wait, the oldest first. -/
  fifo : List UInt8
  shift : Option UInt8
  /-- What went out on the line. -/
  sent : List UInt8
  deriving DecidableEq, Repr

namespace Uart

/-- The divisor latch access bit. -/
def dlab (u : Uart) : Bool := u.lcr.toNat.testBit 7

/-- How many bytes can wait. -/
def room (u : Uart) : Nat := if u.enabled then 16 else 1

/-- A byte that finds no room replaces the one before it. -/
def push (u : Uart) (v : UInt8) : Uart := { u with fifo := u.fifo.take (u.room - 1) ++ [v] }

/-- The FIFO control register. -/
def control (u : Uart) (v : UInt8) : Uart :=
  if v.toNat.testBit 0 = u.enabled ∧ ¬ v.toNat.testBit 2 then u
  else { u with enabled := v.toNat.testBit 0, fifo := [] }

/-- A write to the register at an offset. -/
def outb (offset : Nat) (v : UInt8) (u : Uart) : Uart :=
  match offset with
  | 0 => if u.dlab then { u with dll := v } else u.push v
  | 1 => if u.dlab then { u with dlm := v } else { u with ier := v &&& 0x0f }
  | 2 => u.control v
  | 3 => { u with lcr := v }
  | 4 => { u with mcr := v &&& 0x1f }
  | _ => u

/-- The line status register: nothing waits, and nothing is being sent either. -/
def lsr (u : Uart) : UInt8 :=
  (if u.fifo = [] then 0x20 else 0) ||| (if u.fifo = [] ∧ u.shift = none then 0x40 else 0)

/-- The bytes taken in and not dropped, in their order. -/
def accepted (u : Uart) : List UInt8 := u.sent ++ (u.shift.toList ++ u.fifo)

/-- How many steps the transmitter makes until it is empty. -/
def work (u : Uart) : Nat := 2 * u.fifo.length + u.shift.toList.length

end Uart

/-- The shift register takes a byte, or is done with one. -/
inductive Tick : Uart → Uart → Prop
  | load {u : Uart} {c : UInt8} {cs : List UInt8} : u.shift = none → u.fifo = c :: cs →
      Tick u { u with shift := some c, fifo := cs }
  | done {u : Uart} {c : UInt8} : u.shift = some c → Tick u { u with shift := none, sent := u.sent ++ [c] }

section
variable {u t : Uart}

theorem Tick.accepted (h : Tick u t) : t.accepted = u.accepted := by
  cases h with
  | load hshift hfifo => simp [Uart.accepted, hshift, hfifo]
  | done hshift => simp [Uart.accepted, hshift]

theorem Tick.dlab (h : Tick u t) : t.dlab = u.dlab := by
  cases h <;> rfl

theorem Tick.fifo_suffix (h : Tick u t) : t.fifo <:+ u.fifo := by
  cases h with
  | load _ hfifo =>
    rw [hfifo]
    exact List.suffix_cons _ _
  | done => exact List.suffix_rfl

theorem Tick.work_lt (h : Tick u t) : t.work < u.work := by
  cases h with
  | load hshift hfifo => simp [Uart.work, hshift, hfifo]; omega
  | done hshift => simp [Uart.work, hshift]

/-- Where the transmitter stands still, all is sent. -/
theorem accepted_of_stuck (h : ∀ t, ¬ Tick u t) : u.fifo = [] ∧ u.shift = none ∧ u.accepted = u.sent := by
  have hshift : u.shift = none := by
    cases hs : u.shift with
    | none => rfl
    | some c => exact absurd (.done hs) (h _)
  have hfifo : u.fifo = [] := by
    cases hf : u.fifo with
    | nil => rfl
    | cons c cs => exact absurd (.load hshift hf) (h _)
  refine ⟨hfifo, hshift, ?_⟩
  simp [Uart.accepted, hshift, hfifo]

theorem lsr_empty_iff : u.lsr &&& 0x20 ≠ 0 ↔ u.fifo = [] := by
  unfold Uart.lsr
  by_cases hf : u.fifo = []
  · rcases Option.eq_none_or_eq_some u.shift with hs | ⟨c, hs⟩
    · simp only [hf, hs, and_self, if_true, iff_true]
      decide
    · simp [hf, hs]
  · simp [hf]

/-- A byte is taken in where nothing waits. -/
theorem push_accepted (h : u.fifo = []) (v : UInt8) : (u.push v).accepted = u.accepted ++ [v] := by
  simp [Uart.push, Uart.accepted, h]

theorem control_clears {v : UInt8} (h : v.toNat.testBit 2) (u : Uart) :
    u.control v = { u with enabled := v.toNat.testBit 0, fifo := [] } := by
  unfold Uart.control
  rw [if_neg fun hc => hc.2 h]

end

end Ulmix.Lib.I16550

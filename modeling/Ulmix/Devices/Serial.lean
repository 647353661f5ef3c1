import Ulmix.Lib.Exec
import Ulmix.Lib.I16550
/-!
# The serial port (`arch/i686/debug.c`)

`debug_putchar` sets the port up before every character, for nothing ever sets `serial_initialized`. This clears the
FIFO, so that the wait for it to be empty is no wait, and a character that still waits there is gone. What arrives at
the other end is the text with the characters left out that the port could not take out of the FIFO in time.

`Safe` and `writes` read off the code that is left what it will do at the port; the invariant is about them, so it
does not go through the code instruction by instruction.
-/
open Ulmix.Lib Ulmix.Lib.I16550

namespace Ulmix.Serial

/-! ## The code -/

def port : Nat := 0x3f8

def BAUD_38400 : Nat := 3

inductive Action where
  | outb (port : Nat) (v : UInt8)
  /-- `while ((inb(port + 5) & mask) == 0);` -/
  | wait (mask : UInt8)
  deriving DecidableEq, Repr

def serial_init (baud : Nat) : List Action :=
  let divisor := if baud > 20 then 115200 / baud else baud
  [.outb (port + 1) 0x00, .outb (port + 3) 0x80, .outb (port + 0) (UInt8.ofNat divisor), .outb (port + 1) 0x00,
    .outb (port + 3) 0x03, .outb (port + 2) 0xc7, .outb (port + 4) 0x0b, .outb (port + 1) 0x01]

/-- `debug_putchar`, access by access: the port does not stop meanwhile. -/
def debug_putchar (serial_initialized : Bool) (c : UInt8) : List Action :=
  (if serial_initialized then [] else serial_init BAUD_38400) ++ [.wait 0x20, .outb port c]

/-! ## The system -/

/-- The port, and what is left of `debug_putchar`, if it runs. -/
structure System where
  uart : Uart
  serial_initialized : Bool
  code : List Action
  /-- The characters `debug_putchar` was called with. -/
  text : List UInt8
  /-- How many bytes were dropped from the FIFO. -/
  dropped : Nat

inductive Event where
  | debug_putchar (c : UInt8)
  | proceed
  | tick
  deriving DecidableEq, Repr

/-- The kernel puts out a character or makes the next access, or the transmitter makes a step. -/
inductive Step : System → Event → System → Prop
  | debug_putchar {s : System} {c : UInt8} : s.code = [] → Step s (.debug_putchar c)
      { s with code := debug_putchar s.serial_initialized c, text := s.text ++ [c] }
  | outb {s : System} {p : Nat} {v : UInt8} {rest : List Action} : s.code = .outb p v :: rest → Step s .proceed
      { s with
        code := rest
        uart := s.uart.outb (p - port) v
        dropped := s.dropped + (s.uart.fifo.length - (s.uart.outb (p - port) v).fifo.length) }
  | wait {s : System} {mask : UInt8} {rest : List Action} : s.code = .wait mask :: rest →
      s.uart.lsr &&& mask ≠ 0 → Step s .proceed { s with code := rest }
  | wait_again {s : System} {mask : UInt8} {rest : List Action} : s.code = .wait mask :: rest →
      s.uart.lsr &&& mask = 0 → Step s .proceed s
  | tick {s : System} {u : Uart} : Tick s.uart u → Step s .tick { s with uart := u }

/-- The step of an event, where it makes one. -/
def System.next (s : System) : Event → Option System
  | .debug_putchar c =>
    if s.code = [] then some { s with code := debug_putchar s.serial_initialized c, text := s.text ++ [c] } else none
  | .proceed =>
    match s.code with
    | [] => none
    | .outb p v :: rest =>
      some { s with
        code := rest
        uart := s.uart.outb (p - port) v
        dropped := s.dropped + (s.uart.fifo.length - (s.uart.outb (p - port) v).fifo.length) }
    | .wait mask :: rest => if s.uart.lsr &&& mask ≠ 0 then some { s with code := rest } else some s
  | .tick =>
    match s.uart.shift, s.uart.fifo with
    | some c, _ => some { s with uart := { s.uart with shift := none, sent := s.uart.sent ++ [c] } }
    | none, c :: cs => some { s with uart := { s.uart with shift := some c, fifo := cs } }
    | none, [] => none

theorem next_step {s t : System} {e : Event} (h : s.next e = some t) : Step s e t := by
  cases e with
  | debug_putchar c =>
    rw [System.next] at h
    split at h
    · next hcode =>
      cases h
      exact .debug_putchar hcode
    · cases h
  | proceed =>
    rw [System.next] at h
    split at h
    · cases h
    · next hcode =>
      obtain rfl := Option.some.inj h
      exact .outb hcode
    · next hcode =>
      split at h
      · next hready =>
        obtain rfl := Option.some.inj h
        exact .wait hcode hready
      · next hready =>
        obtain rfl := Option.some.inj h
        exact .wait_again hcode (not_not.1 hready)
  | tick =>
    rw [System.next] at h
    split at h
    · next hshift =>
      obtain rfl := Option.some.inj h
      exact .tick (.done hshift)
    · next hshift hfifo =>
      obtain rfl := Option.some.inj h
      exact .tick (.load hshift hfifo)
    · cases h

/-- Nothing was put out yet. -/
def booted (u : Uart) (serial_initialized : Bool) : System := ⟨u, serial_initialized, [], [], 0⟩

/-! ## What the code will do -/

/-- The bytes it will write to the data port. -/
def writes : Bool → List Action → List UInt8
  | _, [] => []
  | dlab, .outb p v :: rest =>
    if p = port then if dlab then writes dlab rest else v :: writes dlab rest
    else if p = port + 3 then writes (v.toNat.testBit 7) rest
    else writes dlab rest
  | dlab, .wait _ :: rest => writes dlab rest

/-- Data is written only where nothing waits. Code that sets the port up (`setup`) may clear the FIFO, before that,
and then nothing waits any more where it looks; other code leaves the data port what it was. -/
def Safe (setup : Bool) : Bool → Bool → List Action → Bool
  | dlab, _, [] => setup || !dlab
  | dlab, empty, .outb p v :: rest =>
    if p = port then if dlab then Safe setup dlab empty rest else empty && Safe setup dlab false rest
    else if p = port + 3 then Safe setup (v.toNat.testBit 7) empty rest
    else if p = port + 2 then
      setup && v.toNat.testBit 2 && !(writes dlab rest).isEmpty && Safe setup dlab true rest
    else (p == port + 1 || p == port + 4) && Safe setup dlab empty rest
  | dlab, empty, .wait mask :: rest => mask == 0x20 && (!setup || empty) && Safe setup dlab true rest

/-- It does no harm if less waits. -/
theorem safe_mono {setup dlab : Bool} {code : List Action} (h : Safe setup dlab false code = true) :
    ∀ empty, Safe setup dlab empty code = true := by
  intro empty
  cases empty with
  | false => exact h
  | true =>
    induction code generalizing dlab with
    | nil => exact h
    | cons a rest ih =>
      cases a with
      | wait mask =>
        simp only [Safe, Bool.and_eq_true, Bool.or_eq_true] at h ⊢
        exact ⟨⟨h.1.1, .inr trivial⟩, h.2⟩
      | outb p v =>
        simp only [Safe] at h ⊢
        by_cases h0 : p = port
        · rw [if_pos h0] at h ⊢
          cases dlab with
          | false => simp at h
          | true => exact ih h
        rw [if_neg h0] at h ⊢
        by_cases h3 : p = port + 3
        · rw [if_pos h3] at h ⊢
          exact ih h
        rw [if_neg h3] at h ⊢
        by_cases h2 : p = port + 2
        · rw [if_pos h2] at h ⊢
          exact h
        rw [if_neg h2] at h ⊢
        simp only [Bool.and_eq_true] at h ⊢
        exact ⟨h.1, ih h.2⟩

/-- `debug_putchar` is safe, and writes its character. Set up or not, the port may be in any state at its start, except
that a port taken for set up must be. -/
theorem debug_putchar_safe {serial_initialized dlab : Bool} (h : serial_initialized = true → dlab = false)
    (empty : Bool) (c : UInt8) :
    Safe (!serial_initialized) dlab empty (debug_putchar serial_initialized c) = true ∧
      writes dlab (debug_putchar serial_initialized c) = [c] := by
  cases serial_initialized with
  | true =>
    rw [h rfl]
    exact ⟨rfl, rfl⟩
  | false => cases dlab <;> exact ⟨rfl, rfl⟩

/-! ## One access -/

/-- The bytes sent or still to be sent. -/
def System.owed (s : System) : List UInt8 := s.uart.accepted ++ writes s.uart.dlab s.code

/-- What an access does to the port, with the bytes that were to be written before it and after it. -/
inductive Access (setup : Bool) (u : Uart) (ws : List UInt8) (t : Uart) (ws' : List UInt8) : Prop
  | other : t.accepted = u.accepted → t.fifo = u.fifo → ws' = ws → Access setup u ws t ws'
  | data {v : UInt8} : u.fifo = [] → t.fifo = [v] → t.accepted = u.accepted ++ [v] → ws = v :: ws' →
      Access setup u ws t ws'
  | clear : setup = true → t.fifo = [] → t.accepted = u.sent ++ u.shift.toList → ws' ≠ [] → ws' = ws →
      Access setup u ws t ws'

theorem outb_access {setup : Bool} {u : Uart} {p : Nat} {v : UInt8} {rest : List Action}
    (h : Safe setup u.dlab u.fifo.isEmpty (.outb p v :: rest) = true) :
    Safe setup (u.outb (p - port) v).dlab (u.outb (p - port) v).fifo.isEmpty rest = true ∧
      Access setup u (writes u.dlab (.outb p v :: rest)) (u.outb (p - port) v)
        (writes (u.outb (p - port) v).dlab rest) := by
  simp only [Safe] at h
  by_cases h0 : p = port
  · subst h0
    rw [if_pos rfl] at h
    simp only [Nat.sub_self, Uart.outb, writes, if_true]
    by_cases hd : u.dlab = true
    · rw [if_pos hd] at h
      simp only [if_pos hd]
      exact ⟨h, .other rfl rfl rfl⟩
    · rw [if_neg hd, Bool.and_eq_true, List.isEmpty_iff] at h
      have hpush : (u.push v).fifo = [v] := by simp [Uart.push, h.1]
      simp only [if_neg hd]
      refine ⟨?_, .data h.1 hpush (push_accepted h.1 v) rfl⟩
      rw [hpush]
      exact h.2
  rw [if_neg h0] at h
  by_cases h3 : p = port + 3
  · subst h3
    rw [if_pos rfl] at h
    simp only [Nat.add_sub_cancel_left, Uart.outb, writes, if_neg h0, if_true]
    exact ⟨h, .other rfl rfl rfl⟩
  rw [if_neg h3] at h
  by_cases h2 : p = port + 2
  · subst h2
    rw [if_pos rfl] at h
    simp only [Bool.and_eq_true, Bool.not_eq_true', List.isEmpty_eq_false_iff] at h
    obtain ⟨⟨⟨hsetup, hclear⟩, hleft⟩, hsafe⟩ := h
    simp only [Nat.add_sub_cancel_left, Uart.outb, writes, if_neg h0, if_neg h3, control_clears hclear]
    refine ⟨hsafe, .clear hsetup rfl ?_ hleft rfl⟩
    simp [Uart.accepted]
  rw [if_neg h2] at h
  simp only [Bool.and_eq_true, Bool.or_eq_true, beq_iff_eq] at h
  -- what is left: the interrupt enable and the modem control register
  obtain ⟨h1 | h4, hsafe⟩ := h
  · subst h1
    simp only [Nat.add_sub_cancel_left, Uart.outb, writes, if_neg h0, if_neg h3]
    by_cases hd : u.dlab = true
    · simp only [if_pos hd]
      exact ⟨hsafe, .other rfl rfl rfl⟩
    · simp only [if_neg hd]
      exact ⟨hsafe, .other rfl rfl rfl⟩
  · subst h4
    simp only [Nat.add_sub_cancel_left, Uart.outb, writes, if_neg h0, if_neg h3]
    exact ⟨hsafe, .other rfl rfl rfl⟩

/-! ## Every run -/

structure System.Inv (s : System) : Prop where
  safe : Safe (!s.serial_initialized) s.uart.dlab s.uart.fifo.isEmpty s.code = true
  owed : s.owed.Sublist s.text
  count : s.owed.length + s.dropped = s.text.length
  last : s.owed.getLast? = s.text.getLast?
  dropped : s.serial_initialized = true → s.dropped = 0

section
variable {s t : System}

/-- A step that sends nothing and writes nothing off. -/
theorem System.Inv.of_owed (h : s.Inv)
    (hsafe : Safe (!t.serial_initialized) t.uart.dlab t.uart.fifo.isEmpty t.code = true) (howed : t.owed = s.owed)
    (htext : t.text = s.text) (hdropped : t.dropped = s.dropped)
    (hset : t.serial_initialized = s.serial_initialized) : t.Inv where
  safe := hsafe
  owed := by
    rw [howed, htext]
    exact h.owed
  count := by
    rw [howed, hdropped, htext]
    exact h.count
  last := by
    rw [howed, htext]
    exact h.last
  dropped := by
    rw [hset, hdropped]
    exact h.dropped

theorem System.Inv.debug_putchar (h : s.Inv) (hc : s.code = []) (c : UInt8) :
    System.Inv { s with code := debug_putchar s.serial_initialized c, text := s.text ++ [c] } := by
  have hdlab : s.serial_initialized = true → s.uart.dlab = false := by
    intro hset
    have hsafe := h.safe
    rw [hc, hset] at hsafe
    simpa [Safe] using hsafe
  obtain ⟨hsafe, hwrites⟩ := debug_putchar_safe hdlab s.uart.fifo.isEmpty c
  have howed : s.owed = s.uart.accepted := by simp [System.owed, hc, writes]
  have hnew : System.owed { s with code := Serial.debug_putchar s.serial_initialized c, text := s.text ++ [c] } =
      s.owed ++ [c] := by
    rw [howed]
    simp only [System.owed, hwrites]
  have hcount := h.count
  refine ⟨hsafe, ?_, ?_, ?_, h.dropped⟩
  · rw [hnew]
    exact h.owed.append (.refl _)
  · rw [hnew]
    simp only [List.length_append, List.length_singleton]
    omega
  · rw [hnew]
    simp

theorem System.Inv.outb (h : s.Inv) {p : Nat} {v : UInt8} {rest : List Action} (hc : s.code = .outb p v :: rest) :
    System.Inv { s with
      code := rest
      uart := s.uart.outb (p - port) v
      dropped := s.dropped + (s.uart.fifo.length - (s.uart.outb (p - port) v).fifo.length) } := by
  have hsafe := h.safe
  have howed : s.owed = s.uart.accepted ++ writes s.uart.dlab (.outb p v :: rest) := by
    unfold System.owed
    rw [hc]
  have hsub := h.owed
  have hcount := h.count
  have hlast := h.last
  rw [hc] at hsafe
  rw [howed] at hsub hcount hlast
  obtain ⟨hsafe', haccess⟩ := outb_access hsafe
  generalize s.uart.outb (p - port) v = u at hsafe' haccess ⊢
  have hall : s.uart.accepted = s.uart.sent ++ s.uart.shift.toList ++ s.uart.fifo := by
    simp [Uart.accepted]
  cases haccess with
  | other hacc hfifo hws =>
    rw [hfifo, Nat.sub_self, Nat.add_zero]
    rw [← hacc, ← hws] at hsub hcount hlast
    exact ⟨hsafe', hsub, hcount, hlast, h.dropped⟩
  | data hempty hfifo hacc hws =>
    have hsame : s.uart.accepted ++ writes s.uart.dlab (.outb p v :: rest) = u.accepted ++ writes u.dlab rest := by
      rw [hacc, hws, List.append_assoc]
      rfl
    rw [hempty, List.length_nil, Nat.zero_sub, Nat.add_zero]
    rw [hsame] at hsub hcount hlast
    exact ⟨hsafe', hsub, hcount, hlast, h.dropped⟩
  | clear hsetup hfifo hacc hleft hws =>
    -- what waits is dropped, and the character behind it is still to come
    rw [← hws] at hsub hcount hlast
    refine ⟨hsafe', ?_, ?_, ?_, fun hset => ?_⟩
    · refine List.Sublist.trans (.append ?_ (.refl _)) hsub
      rw [hacc, hall]
      exact List.sublist_append_left _ _
    · simp only [System.owed, hacc, hfifo, hall, List.length_append, List.length_nil] at hcount ⊢
      omega
    · simp only [System.owed]
      rw [← hlast, List.getLast?_append_of_ne_nil _ hleft, List.getLast?_append_of_ne_nil _ hleft]
    · rw [hset] at hsetup
      cases hsetup

theorem System.Inv.wait (h : s.Inv) {mask : UInt8} {rest : List Action} (hc : s.code = .wait mask :: rest)
    (hready : s.uart.lsr &&& mask ≠ 0) : System.Inv { s with code := rest } := by
  have hsafe := h.safe
  rw [hc] at hsafe
  simp only [Safe, Bool.and_eq_true, beq_iff_eq] at hsafe
  obtain ⟨⟨hmask, -⟩, hrest⟩ := hsafe
  rw [hmask] at hready
  have hempty := lsr_empty_iff.1 hready
  have howed : System.owed { s with code := rest } = s.owed := by
    unfold System.owed
    rw [hc]
    rfl
  refine h.of_owed ?_ howed rfl rfl rfl
  dsimp only
  rw [hempty]
  exact hrest

theorem System.Inv.tick (h : s.Inv) {u : Uart} (hu : Tick s.uart u) : System.Inv { s with uart := u } := by
  have howed : System.owed { s with uart := u } = s.owed := by
    unfold System.owed
    rw [hu.accepted, hu.dlab]
  refine h.of_owed ?_ howed rfl rfl rfl
  have hsafe := h.safe
  dsimp only
  rw [hu.dlab]
  -- the port may have taken a character out of the FIFO, never put one in
  cases hf : s.uart.fifo.isEmpty with
  | false =>
    rw [hf] at hsafe
    exact safe_mono hsafe _
  | true =>
    rw [hf] at hsafe
    have hnil : u.fifo = [] := List.suffix_nil.1 (List.isEmpty_iff.1 hf ▸ hu.fifo_suffix)
    rw [hnil]
    exact hsafe

theorem System.Inv.step {e : Event} (h : s.Inv) (hst : Step s e t) : t.Inv := by
  cases hst with
  | debug_putchar hc => exact h.debug_putchar hc _
  | outb hc => exact h.outb hc
  | wait hc hready => exact h.wait hc hready
  | wait_again => exact h
  | tick hu => exact h.tick hu

theorem System.Inv.booted {u : Uart} {serial_initialized : Bool} (hu : u.accepted = [])
    (hset : serial_initialized = true → u.dlab = false) : (booted u serial_initialized).Inv := by
  have howed : (Serial.booted u serial_initialized).owed = [] := by
    simp [System.owed, Serial.booted, hu, writes]
  refine ⟨?_, ?_, ?_, ?_, fun _ => rfl⟩
  · cases serial_initialized with
    | false => rfl
    | true => simp [Serial.booted, Safe, hset]
  · rw [howed]
    exact List.nil_sublist _
  · rw [howed]
    rfl
  · rw [howed]
    rfl

theorem Step.serial_initialized {e : Event} (hst : Step s e t) : t.serial_initialized = s.serial_initialized := by
  cases hst <;> rfl

theorem System.Inv.run {u : Uart} {set : Bool} (hu : u.accepted = []) (hset : set = true → u.dlab = false)
    (hrun : Run Step (Serial.booted u set) s) : s.Inv ∧ s.serial_initialized = set :=
  hrun.inv (fun s => s.Inv ∧ s.serial_initialized = set) ⟨.booted hu hset, rfl⟩ fun _ _ _ h hst =>
    ⟨h.1.step hst, hst.serial_initialized.trans h.2⟩

/-! ## Characters put out one at a time -/

/-- A character comes only where none waits. -/
def Unhurried (s : System) (e : Event) (t : System) : Prop :=
  Step s e t ∧ ∀ c, e = .debug_putchar c → s.uart.fifo = []

/-- Where the character is still to be written, none waits. -/
structure System.Clear (s : System) : Prop where
  dropped : s.dropped = 0
  waits : writes s.uart.dlab s.code = [] ∨ s.uart.fifo = [] ∧ (writes s.uart.dlab s.code).length = 1

theorem System.Clear.outb (h : s.Clear) (hinv : s.Inv) {p : Nat} {v : UInt8} {rest : List Action}
    (hc : s.code = .outb p v :: rest) :
    System.Clear { s with
      code := rest
      uart := s.uart.outb (p - port) v
      dropped := s.dropped + (s.uart.fifo.length - (s.uart.outb (p - port) v).fifo.length) } := by
  have hsafe := hinv.safe
  have hwaits := h.waits
  rw [hc] at hsafe hwaits
  obtain ⟨-, haccess⟩ := outb_access hsafe
  generalize s.uart.outb (p - port) v = u at haccess ⊢
  have hzero := h.dropped
  cases haccess with
  | other hacc hfifo hws =>
    rw [← hfifo, ← hws] at hwaits
    refine ⟨?_, hwaits⟩
    dsimp only
    rw [hfifo]
    omega
  | data hempty hfifo hacc hws =>
    rw [hws] at hwaits
    have hone := (hwaits.resolve_left (List.cons_ne_nil _ _)).2
    refine ⟨?_, .inl ?_⟩
    · dsimp only
      rw [hempty, List.length_nil]
      omega
    · exact List.eq_nil_of_length_eq_zero (Nat.succ.inj hone)
  | clear hsetup hfifo hacc hleft hws =>
    rw [← hws] at hwaits
    obtain ⟨hempty, hone⟩ := hwaits.resolve_left hleft
    refine ⟨?_, .inr ⟨hfifo, hone⟩⟩
    dsimp only
    rw [hempty, List.length_nil]
    omega

theorem System.Clear.step {e : Event} (h : s.Clear) (hinv : s.Inv)
    (hset : s.serial_initialized = true → s.uart.dlab = false) (hst : Unhurried s e t) : t.Clear := by
  obtain ⟨hst, hcalm⟩ := hst
  cases hst with
  | @debug_putchar c hc =>
    have hwrites := (debug_putchar_safe hset s.uart.fifo.isEmpty c).2
    refine ⟨h.dropped, .inr ⟨hcalm c rfl, ?_⟩⟩
    dsimp only
    rw [hwrites]
    rfl
  | outb hc => exact h.outb hinv hc
  | @wait mask rest hc hready =>
    have hsame : writes s.uart.dlab s.code = writes s.uart.dlab rest := by
      rw [hc]
      rfl
    exact ⟨h.dropped, hsame ▸ h.waits⟩
  | wait_again => exact h
  | @tick u hu =>
    refine ⟨h.dropped, ?_⟩
    dsimp only
    rw [hu.dlab]
    refine h.waits.imp id fun hw => ⟨?_, hw.2⟩
    exact List.suffix_nil.1 (hw.1 ▸ hu.fifo_suffix)

/-- In every run of the kernel: what arrives is the text with some characters left out, never one too many or out of
its place. Every character is sent, waits, is still to be written, or was dropped; the last one put out is not
dropped, the loop never has to wait, and nothing is dropped if characters come only where none waits. -/
theorem serial_accounted {u : Uart} (hu : u.accepted = []) (hrun : Run Step (booted u false) s) :
    s.uart.sent.Sublist s.text ∧
    s.uart.sent.length + s.uart.shift.toList.length + s.uart.fifo.length + (writes s.uart.dlab s.code).length +
      s.dropped = s.text.length ∧
    (s.code = [] → s.uart.accepted.getLast? = s.text.getLast?) ∧
    (∀ mask rest, s.code = .wait mask :: rest → s.uart.lsr &&& mask ≠ 0) ∧
    (Run Unhurried (booted u false) s → s.uart.accepted ++ writes s.uart.dlab s.code = s.text) := by
  have hno : false = true → u.dlab = false := fun hset => nomatch hset
  obtain ⟨hinv, hset⟩ := System.Inv.run hu hno hrun
  have hcount := hinv.count
  refine ⟨?_, ?_, fun hc => ?_, fun mask rest hc => ?_, fun hcalm => ?_⟩
  · refine List.Sublist.trans ?_ hinv.owed
    simp only [System.owed, Uart.accepted, List.append_assoc]
    exact List.sublist_append_left _ _
  · simp only [System.owed, Uart.accepted, List.length_append] at hcount
    omega
  · have hlast := hinv.last
    simp only [System.owed, hc, writes, List.append_nil] at hlast
    exact hlast
  · have hsafe := hinv.safe
    rw [hc, hset] at hsafe
    simp only [Safe, Bool.not_false, Bool.not_true, Bool.false_or, Bool.and_eq_true, beq_iff_eq,
      List.isEmpty_iff] at hsafe
    rw [hsafe.1.1]
    exact lsr_empty_iff.2 hsafe.1.2
  · have hclear : (s.Inv ∧ s.serial_initialized = false) ∧ s.Clear := by
      refine hcalm.inv (fun s => (s.Inv ∧ s.serial_initialized = false) ∧ s.Clear)
        ⟨⟨.booted hu hno, rfl⟩, rfl, .inl rfl⟩ fun s e t h hst => ?_
      have hflag := hst.1.serial_initialized.trans h.1.2
      refine ⟨⟨h.1.1.step hst.1, hflag⟩, h.2.step h.1.1 (fun hset => ?_) hst⟩
      rw [h.1.2] at hset
      cases hset
    rw [hclear.2.dropped, Nat.add_zero] at hcount
    exact hinv.owed.eq_of_length hcount

/-- A port as the firmware leaves it. -/
def freshPort : Uart := ⟨0, 0, 0, 0, 0, false, [], none, []⟩

/-- `a` is sent, and `b` waits when `c` is put out. -/
def letterEvents : List Event :=
  .debug_putchar 0x61 :: List.replicate 10 .proceed ++ [.tick] ++
    .debug_putchar 0x62 :: List.replicate 10 .proceed ++ [.tick] ++
    .debug_putchar 0x63 :: List.replicate 10 .proceed

def letters : System := (letterEvents.foldlM System.next (booted freshPort false)).getD (booted freshPort false)

theorem letters_run : Run Step (booted freshPort false) letters := .getD (fun _ _ _ => next_step) _ .start

theorem serial_accounted_letters :
    (letters.text = [0x61, 0x62, 0x63] ∧ letters.uart.sent = [0x61] ∧ letters.uart.fifo = [0x63] ∧ letters.dropped = 1) ∧
    letters.uart.sent.Sublist letters.text ∧
    letters.uart.sent.length + letters.uart.shift.toList.length + letters.uart.fifo.length +
      (writes letters.uart.dlab letters.code).length + letters.dropped = letters.text.length ∧
    (letters.code = [] → letters.uart.accepted.getLast? = letters.text.getLast?) ∧
    (∀ mask rest, letters.code = .wait mask :: rest → letters.uart.lsr &&& mask ≠ 0) ∧
    (Run Unhurried (booted freshPort false) letters →
      letters.uart.accepted ++ writes letters.uart.dlab letters.code = letters.text) :=
  ⟨by decide +kernel, serial_accounted rfl letters_run⟩

/-! ## What arrives in the end -/

/-- A step without another character. -/
def Quiet (s : System) (e : Event) (t : System) : Prop := Step s e t ∧ ∀ c, e ≠ .debug_putchar c

def System.work (s : System) : Nat := 3 * s.code.length + s.uart.work

theorem outb_work (offset : Nat) (v : UInt8) (u : Uart) : (u.outb offset v).work ≤ u.work + 2 := by
  unfold Uart.outb
  split
  · split
    · exact Nat.le_add_right _ _
    · simp only [Uart.work, Uart.push, List.length_append, List.length_take, List.length_singleton]
      omega
  · split <;> exact Nat.le_add_right _ _
  · unfold Uart.control
    split
    · exact Nat.le_add_right _ _
    · simp only [Uart.work, List.length_nil]
      omega
  all_goals exact Nat.le_add_right _ _

/-- Every step that changes anything brings the end nearer. -/
theorem Quiet.work_lt {e : Event} (h : Quiet s e t) : t = s ∨ t.work < s.work := by
  obtain ⟨hst, hno⟩ := h
  cases hst with
  | debug_putchar => exact absurd rfl (hno _)
  | @outb p v rest hc =>
    have hle := outb_work (p - port) v s.uart
    refine .inr ?_
    simp only [System.work, hc, List.length_cons]
    omega
  | @wait mask rest hc =>
    refine .inr ?_
    simp only [System.work, hc, List.length_cons]
    omega
  | wait_again => exact .inl rfl
  | tick hu => exact .inr (Nat.add_lt_add_left hu.work_lt _)

theorem Quiet.text {e : Event} (h : Quiet s e t) : t.text = s.text := by
  obtain ⟨hst, hno⟩ := h
  cases hst with
  | debug_putchar => exact absurd rfl (hno _)
  | outb | wait | wait_again | tick => rfl

/-- Where no step changes anything, the function has returned and the port is empty. -/
theorem System.Inv.stuck (h : s.Inv) (hstuck : ∀ e t, Quiet s e t → t = s) : s.code = [] ∧ s.owed = s.uart.sent := by
  have hnotick : ∀ u, ¬ Tick s.uart u := by
    intro u hu
    have hsame : u = s.uart := congrArg System.uart (hstuck .tick _ ⟨.tick hu, fun c hc => nomatch hc⟩)
    exact absurd hu.work_lt (by rw [hsame]; exact Nat.lt_irrefl _)
  obtain ⟨hfifo, -, hsent⟩ := accepted_of_stuck hnotick
  have hproceed : ∀ t, Step s .proceed t → t.code = s.code := fun t hst =>
    congrArg System.code (hstuck .proceed t ⟨hst, fun c hc => nomatch hc⟩)
  have hcode : s.code = [] := by
    cases hc : s.code with
    | nil => rfl
    | cons a rest =>
      have hshort : rest ≠ a :: rest := (List.cons_ne_self a rest).symm
      cases a with
      | outb p v => exact absurd ((hproceed _ (.outb hc)).trans hc) hshort
      | wait mask =>
        -- the FIFO is empty, so the loop ends
        have hsafe := h.safe
        rw [hc] at hsafe
        simp only [Safe, Bool.and_eq_true, beq_iff_eq] at hsafe
        have hready : s.uart.lsr &&& mask ≠ 0 := by
          rw [hsafe.1.1]
          exact lsr_empty_iff.2 hfifo
        exact absurd ((hproceed _ (.wait hc hready)).trans hc) hshort
  refine ⟨hcode, ?_⟩
  simp [System.owed, hcode, writes, hsent]

/-- From any reachable state, if no character is put out any more, every step that changes anything brings the system
nearer to its end. There the function has returned, and what was sent is the text without the dropped characters, the
last of which was sent; had `serial_initialized` been set, it would be the whole text, at whatever speed. -/
theorem serial_drained {u : Uart} {serial_initialized : Bool} (hu : u.accepted = [])
    (hset : serial_initialized = true → u.dlab = false) (hrun : Run Step (booted u serial_initialized) s)
    (hrun' : Run Quiet s t) :
    t.text = s.text ∧ (∀ e v, Quiet t e v → v = t ∨ v.work < t.work) ∧
    ((∀ e v, Quiet t e v → v = t) →
      t.code = [] ∧ t.uart.sent.Sublist t.text ∧ t.uart.sent.length + t.dropped = t.text.length ∧
        t.uart.sent.getLast? = t.text.getLast? ∧ (serial_initialized = true → t.uart.sent = t.text)) := by
  have hs := System.Inv.run hu hset hrun
  have ht : (t.Inv ∧ t.serial_initialized = serial_initialized) ∧ t.text = s.text :=
    hrun'.inv (fun t => (t.Inv ∧ t.serial_initialized = serial_initialized) ∧ t.text = s.text) ⟨hs, rfl⟩
      fun _ _ _ h hq => ⟨⟨h.1.1.step hq.1, hq.1.serial_initialized.trans h.1.2⟩, hq.text.trans h.2⟩
  obtain ⟨⟨hinv, hflag⟩, htext⟩ := ht
  refine ⟨htext, fun e v hq => hq.work_lt, fun hstuck => ?_⟩
  obtain ⟨hcode, howed⟩ := hinv.stuck hstuck
  have hsub := hinv.owed
  have hcount := hinv.count
  have hlast := hinv.last
  rw [howed] at hsub hcount hlast
  refine ⟨hcode, hsub, hcount, hlast, fun htrue => ?_⟩
  rw [hinv.dropped (hflag.trans htrue), Nat.add_zero] at hcount
  exact hsub.eq_of_length hcount

def System.quietNext (s : System) : Event → Option System
  | .debug_putchar _ => none
  | e => s.next e

theorem quietNext_step {e : Event} (h : s.quietNext e = some t) : Quiet s e t := by
  cases e with
  | debug_putchar c => cases h
  | proceed => exact ⟨next_step h, fun _ hc => nomatch hc⟩
  | tick => exact ⟨next_step h, fun _ hc => nomatch hc⟩

/-- The port sends what waits. -/
def lettersSent : System := ([Event.tick, Event.tick].foldlM System.quietNext letters).getD letters

theorem lettersSent_run : Run Quiet letters lettersSent := .getD (fun _ _ _ => quietNext_step) _ .start

theorem lettersSent_stuck {e : Event} {v : System} (h : Quiet lettersSent e v) : v = lettersSent := by
  have hcode : lettersSent.code = [] := by decide +kernel
  have hshift : lettersSent.uart.shift = none := by decide +kernel
  have hfifo : lettersSent.uart.fifo = [] := by decide +kernel
  cases h.1 with
  | debug_putchar => exact absurd rfl (h.2 _)
  | outb hc => rw [hcode] at hc; cases hc
  | wait hc => rw [hcode] at hc; cases hc
  | wait_again => rfl
  | tick htick =>
    cases htick with
    | load _ hf => rw [hfifo] at hf; cases hf
    | done hs => rw [hshift] at hs; cases hs

/-- Two of the three letters arrive. -/
theorem serial_drained_letters : lettersSent.uart.sent = [0x61, 0x63] ∧ lettersSent.code = [] ∧
    lettersSent.uart.sent.Sublist lettersSent.text ∧
    lettersSent.uart.sent.length + lettersSent.dropped = lettersSent.text.length ∧
    lettersSent.uart.sent.getLast? = lettersSent.text.getLast? := by
  obtain ⟨-, -, hend⟩ := @serial_drained _ _ freshPort false rfl (fun hset => nomatch hset) letters_run lettersSent_run
  obtain ⟨hcode, hsub, hcount, hlast, -⟩ := hend fun _ _ => lettersSent_stuck
  exact ⟨by decide +kernel, hcode, hsub, hcount, hlast⟩

end

end Ulmix.Serial

import Ulmix.Arch.Entry
import Ulmix.Arch.Gdt
import Ulmix.Arch.Interrupts
/-!
# Interrupt gates (`arch/i686/idt.c`)

`setup_exc` and `setup_irq` find the stubs by the distance of the first two, so
all stubs of a kind have to be equally long. For the exceptions the two `nop`s
see to that, provided the assembler gives `push dword 0` two bytes
(`setup_idt_vectors`).
-/
open Ulmix.Lib Ulmix.Lib.X86 Ulmix.Lib.I8259 Ulmix.Entry

namespace Ulmix.Idt

/-! ## The code -/

def INT_GATE : Nat := 0x0e
def INT_PRESENT : Nat := 0x80
def INT_SUPV : Nat := 0x00
def INT_USER : Nat := 0x60
def IDT_ENTRIES : Nat := 256

structure IdtEntryStruct where
  offset_low : UInt16
  selector : UInt16
  zero : UInt8
  type : UInt8
  offset_high : UInt16
  deriving DecidableEq, Repr

/-- The struct is packed. -/
def IdtEntryStruct.bytes (e : IdtEntryStruct) : List UInt8 :=
  Gdt.bytes16 e.offset_low ++ Gdt.bytes16 e.selector ++ [e.zero, e.type] ++ Gdt.bytes16 e.offset_high

/-- The addresses of the table and of the functions installed. -/
structure Addresses where
  idt : Nat
  exc0 : Nat
  exc1 : Nat
  irq0 : Nat
  irq1 : Nat
  syscall_handler : Nat

/-- The table, its register, the controllers, and whether interrupts are on. -/
structure Setup where
  idt : Nat → IdtEntryStruct
  idtr : TableReg
  pics : Pair
  interrupts : Bool

/-- What `set_idt_entry` assigns. -/
def entryOf (handler flags : Nat) : IdtEntryStruct where
  offset_low := UInt16.ofNat (handler &&& 0x0000ffff)
  offset_high := UInt16.ofNat ((handler &&& 0xffff0000) >>> 16)
  zero := 0x00
  type := UInt8.ofNat flags
  selector := 0x0008

def set_idt_entry (id handler flags : Nat) : Exec Setup Unit := do
  if IDT_ENTRIES ≤ id then Exec.fault .outOfBounds
  modify fun s => { s with idt := Function.update s.idt id (entryOf handler flags) }

/-- The loops of `setup_exc` and `setup_irq` from entry `i` on, with `n` entries to go. -/
def set_entries (len flags : Nat) : Nat → Nat → Nat → Exec Setup Unit
  | 0, _, _ => pure ()
  | n + 1, i, ptr => do
    set_idt_entry i ptr flags
    set_entries len flags n (i + 1) (add32 ptr len)

def setup_exc (a : Addresses) : Exec Setup Unit :=
  set_entries (sub32 a.exc1 a.exc0) (INT_PRESENT ||| INT_GATE ||| INT_SUPV) 32 0 a.exc0

def pic_init : Exec Setup Unit := Exec.zoom Setup.pics (fun p s => { s with pics := p }) Interrupts.pic_init

def setup_irq (a : Addresses) : Exec Setup Unit := do
  set_entries (sub32 a.irq1 a.irq0) (INT_PRESENT ||| INT_GATE ||| INT_SUPV) 16 32 a.irq0
  pic_init

def idt_write (desc : TableReg) : Exec Setup Unit := modify fun s => { s with idtr := desc }

def sti : Exec Setup Unit := modify fun s => { s with interrupts := true }

def setup_idt (a : Addresses) : Exec Setup Unit := do
  setup_exc a
  setup_irq a
  -- no handlers for the others
  set_entries 0 0 (IDT_ENTRIES - (32 + 16)) (32 + 16) 0
  set_idt_entry 0x80 a.syscall_handler (INT_GATE ||| INT_PRESENT ||| INT_USER)
  idt_write ⟨a.idt, 8 * IDT_ENTRIES - 1⟩
  sti

/-! ## The stubs in memory -/

/-- Where the stub of an exception starts: they lie one after the other. -/
def exc_addr (short : Bool) (l : Symbols) (a : Addresses) (v : Nat) : Nat :=
  a.exc0 + ((List.range v).map fun u => codeSize short (exc l u)).sum

/-- Where the stub of the request `n` starts. -/
def irq_addr (short : Bool) (l : Symbols) (a : Addresses) (n : Nat) : Nat :=
  a.irq0 + ((List.range n).map fun u => codeSize short (irq l (32 + u))).sum

/-- The assembler and the linker placed the stubs: the second label of a kind is behind the first stub. -/
structure Placed (short : Bool) (l : Symbols) (a : Addresses) : Prop where
  exc1 : a.exc1 = exc_addr short l a 1
  irq1 : a.irq1 = irq_addr short l a 1
  exc : exc_addr short l a 32 ≤ 2 ^ 32
  irq : irq_addr short l a 16 ≤ 2 ^ 32
  syscall_handler : a.syscall_handler < 2 ^ 32

/-- What `EXC_HANDLER` assembles to, without what stands in for the error code. -/
def EXC_SIZE (short : Bool) : Nat := if short then 41 else 50

def IRQ_SIZE (short : Bool) : Nat := if short then 37 else 43

theorem codeSize_exc (short : Bool) (l : Symbols) {v : Nat} (hv : v < 128) :
    codeSize short (exc l v) = codeSize short (exc_pad v) + EXC_SIZE short := by
  have hpush : Instr.size short (.push_imm v) = if short then 2 else 5 := by simp [Instr.size, hv]
  unfold exc
  rw [codeSize_append]
  refine congrArg (codeSize short (exc_pad v) + ·) ?_
  simp only [codeSize, exc_enter, exc_leave, kernel_segments, List.cons_append, List.nil_append, List.map_cons,
    List.map_nil, List.sum_cons, List.sum_nil, hpush]
  cases short <;> rfl

theorem codeSize_irq (short : Bool) (l : Symbols) {v : Nat} (hv : v < 128) :
    codeSize short (irq l v) = IRQ_SIZE short := by
  have hpush : Instr.size short (.push_imm v) = if short then 2 else 5 := by simp [Instr.size, hv]
  simp only [codeSize, irq, irq_enter, irq_leave, kernel_segments, List.cons_append, List.nil_append, List.map_cons,
    List.map_nil, List.sum_cons, List.sum_nil, hpush]
  cases short <;> rfl

theorem codeSize_exc_pad (short : Bool) (v : Nat) :
    codeSize short (exc_pad v) = if pads v ∧ short = false then 5 else 2 := by
  unfold exc_pad
  cases pads v <;> cases short <;> rfl

theorem sum_map_const {f : Nat → Nat} {c : Nat} : ∀ {n : Nat}, (∀ u < n, f u = c) → ((List.range n).map f).sum = n * c
  | 0, _ => (Nat.zero_mul c).symm
  | n + 1, h => by
    rw [List.range_succ, List.map_append, List.sum_append, sum_map_const fun u hu => h u (by omega)]
    simp only [List.map_cons, List.map_nil, List.sum_cons, List.sum_nil, h n (Nat.lt_succ_self n)]
    rw [Nat.add_zero, Nat.succ_mul]

/-- With short immediates the exception stubs are equally long. -/
theorem exc_addr_short (l : Symbols) (a : Addresses) {v : Nat} (hv : v ≤ 32) :
    exc_addr true l a v = a.exc0 + v * (2 + EXC_SIZE true) := by
  unfold exc_addr
  rw [sum_map_const (c := 2 + EXC_SIZE true)]
  intro u hu
  rw [codeSize_exc true l (by omega), codeSize_exc_pad, if_neg (by simp)]

/-- The stubs for requests are, either way. -/
theorem irq_addr_eq (short : Bool) (l : Symbols) (a : Addresses) {n : Nat} (hn : n ≤ 16) :
    irq_addr short l a n = a.irq0 + n * IRQ_SIZE short := by
  unfold irq_addr
  rw [sum_map_const (c := IRQ_SIZE short)]
  intro u hu
  exact codeSize_irq short l (by omega)

/-- Without them the stub of the double fault is shorter, so the next one is not where the distance puts it. -/
theorem exc_addr_long (l : Symbols) (a : Addresses) :
    exc_addr false l a 1 = a.exc0 + 55 ∧ exc_addr false l a 9 = a.exc0 + 492 ∧
      exc_addr false l a 32 = a.exc0 + 1736 := by
  have hsize : ∀ u < 32, codeSize false (exc l u) = codeSize false (exc ⟨0, 0, 0⟩ u) := by
    intro u hu
    rw [codeSize_exc false l (by omega), codeSize_exc false _ (by omega)]
  have hsum : ∀ n ≤ 32, ((List.range n).map fun u => codeSize false (exc l u)).sum =
      ((List.range n).map fun u => codeSize false (exc ⟨0, 0, 0⟩ u)).sum := by
    intro n hn
    congr 1
    refine List.map_congr_left fun u hu => hsize u ?_
    have := List.mem_range.1 hu
    omega
  unfold exc_addr
  rw [hsum 1 (by decide), hsum 9 (by decide), hsum 32 (by decide)]
  exact ⟨rfl, rfl, rfl⟩

/-! ## The table -/

/-- The gate `entryOf` describes. -/
def gate (handler flags : Nat) : Gate where
  offset := handler
  selector := 8
  kind := flags % 32
  dpl := flags / 32 % 4
  present := flags.testBit 7

theorem entryOf_gate {mem : Nat → UInt8} {a handler flags : Nat} (hh : handler < 2 ^ 32) (hf : flags < 2 ^ 8)
    (h : Lies mem a (entryOf handler flags).bytes) : gateOf mem a = gate handler flags := by
  obtain ⟨hlow, hhigh⟩ := read32_of_lies h
  have hhalf : (UInt16.ofNat (handler &&& 0x0000ffff)).toNat = handler % 65536 := by
    rw [show (0x0000ffff : Nat) = 2 ^ 16 - 1 from rfl, Nat.and_two_pow_sub_one_eq_mod, UInt16.toNat_ofNat']
    omega
  have hupper : (UInt16.ofNat ((handler &&& 0xffff0000) >>> 16)).toNat = handler / 65536 := by
    rw [show (0xffff0000 : Nat) = (2 ^ 16 - 1) <<< 16 from rfl, and_ones, Nat.shiftRight_eq_div_pow,
      Nat.mul_div_cancel _ (by decide), UInt16.toNat_ofNat']
    omega
  have hsel : (0x0008 : UInt16).toNat = 8 := rfl
  have hflags : (UInt8.ofNat flags).toNat = flags := by
    rw [UInt8.toNat_ofNat']
    omega
  have hlow' : read32 mem a = handler % 65536 + 8 * 65536 := by
    rw [hlow]
    simp only [ofBytes, entryOf, hhalf, hsel, byteOf, UInt8.toNat_ofNat', pow_zero, pow_one, Nat.div_one]
    omega
  have hhigh' : read32 mem (add32 a 4) = flags * 256 + handler / 65536 * 65536 := by
    rw [hhigh]
    simp only [ofBytes, entryOf, hupper, hflags, byteOf, UInt8.toNat_ofNat', pow_zero, pow_one, Nat.div_one,
      UInt8.toNat_zero]
    omega
  unfold gateOf gate
  rw [hlow', hhigh']
  simp only [Gate.mk.injEq, Nat.testBit_eq_decide_div_mod_eq, decide_eq_decide]
  refine ⟨?_, ?_, ?_, ?_, ?_⟩ <;> omega

theorem set_idt_entry_run {id : Nat} (hid : id < IDT_ENTRIES) (handler flags : Nat) (s : Setup) :
    set_idt_entry id handler flags s =
      .ok ((), { s with idt := Function.update s.idt id (entryOf handler flags) }) := by
  unfold set_idt_entry
  rw [if_neg (not_le.2 hid)]
  rfl

/-- The loops point the entries at equal distances. -/
theorem set_entries_run (len flags : Nat) : ∀ (n i ptr : Nat) (s : Setup), i + n ≤ IDT_ENTRIES → ptr < 2 ^ 32 →
    set_entries len flags n i ptr s = .ok ((), { s with
      idt := fun k => if i ≤ k ∧ k < i + n then entryOf ((ptr + (k - i) * len) % 2 ^ 32) flags else s.idt k })
  | 0, i, ptr, s, _, _ => by
    have hsame : (fun k => if i ≤ k ∧ k < i + 0 then entryOf ((ptr + (k - i) * len) % 2 ^ 32) flags else s.idt k) =
        s.idt := by
      funext k
      exact if_neg (by omega)
    rw [hsame]
    rfl
  | n + 1, i, ptr, s, hi, hptr => by
    rw [set_entries, Exec.bind_of_ok (set_idt_entry_run (by omega) ptr flags s),
      set_entries_run len flags n (i + 1) (add32 ptr len) _ (by omega) (add32_lt _ _)]
    congr 3
    funext k
    by_cases hk : i + 1 ≤ k ∧ k < i + 1 + n
    · have hoff : k - i = (k - (i + 1)) + 1 := by omega
      rw [if_pos hk, if_pos (by omega), hoff, Nat.add_mul, Nat.one_mul]
      congr 1
      unfold add32
      omega
    · rw [if_neg hk]
      by_cases hki : k = i
      · subst hki
        rw [if_pos (by omega), Nat.sub_self, Nat.zero_mul, Nat.add_zero, Nat.mod_eq_of_lt hptr]
        exact Function.update_self ..
      · rw [if_neg (by omega)]
        exact Function.update_of_ne hki ..

/-- The entries after `setup_idt`. -/
def tableOf (a : Addresses) (v : Nat) : IdtEntryStruct :=
  if v = 0x80 then entryOf a.syscall_handler 0xee
  else if v < 32 then entryOf ((a.exc0 + v * sub32 a.exc1 a.exc0) % 2 ^ 32) 0x8e
  else if v < 48 then entryOf ((a.irq0 + (v - 32) * sub32 a.irq1 a.irq0) % 2 ^ 32) 0x8e
  else entryOf 0 0

theorem setup_idt_run {a : Addresses} (hexc : a.exc0 < 2 ^ 32) (hirq : a.irq0 < 2 ^ 32) (k : Setup) :
    ∃ t, setup_idt a k = .ok ((), t) ∧ t.interrupts = true ∧ t.idtr = ⟨a.idt, 2047⟩ ∧
      Interrupts.pic_init k.pics = .ok ((), t.pics) ∧ ∀ v < IDT_ENTRIES, t.idt v = tableOf a v := by
  obtain ⟨q, hpic, -⟩ := Interrupts.pic_init_run k.pics
  have hrun : ∀ s : Setup, s.pics = k.pics → pic_init s = .ok ((), { s with pics := q }) := by
    intro s hs
    refine Exec.zoom_of_ok ?_
    rw [hs]
    exact hpic
  unfold setup_idt setup_exc setup_irq
  rw [Exec.bind_of_ok (set_entries_run _ _ 32 0 a.exc0 k (by decide) hexc)]
  simp only [bind_assoc]
  rw [Exec.bind_of_ok (set_entries_run _ _ 16 32 a.irq0 _ (by decide) hirq)]
  rw [Exec.bind_of_ok (hrun _ ?_)]
  rw [Exec.bind_of_ok (set_entries_run 0 0 _ 48 0 _ (by decide) (by decide))]
  rw [Exec.bind_of_ok (set_idt_entry_run (by decide) ..)]
  swap
  · rfl
  refine ⟨_, rfl, rfl, rfl, hpic, fun v hv => ?_⟩
  unfold tableOf
  by_cases hv80 : v = 0x80
  · rw [if_pos hv80, hv80]
    rfl
  · rw [if_neg hv80]
    refine (Function.update_of_ne hv80 ..).trans ?_
    dsimp only
    by_cases hlow : v < 32
    · rw [if_neg (by omega), if_neg (by omega), if_pos (by omega), if_pos hlow]
      rfl
    · rw [if_neg hlow]
      by_cases hmid : v < 48
      · rw [if_neg (by omega), if_pos (by omega), if_pos hmid]
        rfl
      · unfold IDT_ENTRIES at hv
        rw [if_pos (by unfold IDT_ENTRIES; omega), if_neg hmid, Nat.mul_zero]
        rfl

/-! ## Vectors -/

/-- The stub a vector is for and the least privilege that may ask for it with `int`. -/
def target (short : Bool) (l : Symbols) (a : Addresses) (v : Nat) : Option (Nat × Nat) :=
  if v = 0x80 then some (a.syscall_handler, 3)
  else if v < 32 then some (exc_addr short l a v, 0)
  else if v < 48 then some (irq_addr short l a (v - 32), 0)
  else none

/-- What a vector should lead to: its stub with interrupts off, or the protection fault. -/
def expected (cpl : Nat) (soft : Bool) (v : Nat) : Option (Nat × Nat) → Taken
  | none => .fault 13 (8 * v + 2 + if soft then 0 else 1)
  | some (offset, dpl) =>
    if soft ∧ dpl < cpl then .fault 13 (8 * v + 2 + if soft then 0 else 1)
    else .gate { offset := offset, selector := 8, kind := 0x0e, dpl := dpl, present := true }

/-- What an entry of the table leads to. -/
def entered (a : Addresses) (v : Nat) : Option (Nat × Nat) :=
  if v = 0x80 then some (a.syscall_handler, 3)
  else if v < 32 then some ((a.exc0 + v * sub32 a.exc1 a.exc0) % 2 ^ 32, 0)
  else if v < 48 then some ((a.irq0 + (v - 32) * sub32 a.irq1 a.irq0) % 2 ^ 32, 0)
  else none

theorem vectorTo_entry {mem : Nat → UInt8} {gdtr idtr : TableReg} {s : Segment} {cpl v handler flags dpl : Nat}
    {soft : Bool} (hh : handler < 2 ^ 32) (hf : flags < 2 ^ 8) (hin : 8 * v + 7 ≤ idtr.limit)
    (h : Lies mem (add32 idtr.base (8 * v)) (entryOf handler flags).bytes) (hs : gdtr.segment? mem 8 = some s)
    (hcode : s.kind / 8 = 3) (hsdpl : s.dpl = 0) (hspresent : s.present = true)
    (hg : gate handler flags = { offset := handler, selector := 8, kind := 0x0e, dpl := dpl, present := true }) :
    vectorTo mem gdtr idtr cpl soft v = expected cpl soft v (some (handler, dpl)) := by
  have hgate := entryOf_gate hh hf h
  rw [hg] at hgate
  exact vectorTo_gate hgate hin rfl rfl hs hcode hsdpl hspresent

/-- The table leads where its entries say. -/
theorem vectorTo_table {a : Addresses} {mem : Nat → UInt8} {gdtr idtr : TableReg} {s : Segment} {v : Nat}
    (hsys : a.syscall_handler < 2 ^ 32) (hv : v < IDT_ENTRIES) (hidtr : idtr = ⟨a.idt, 2047⟩)
    (h : Lies mem (add32 a.idt (8 * v)) (tableOf a v).bytes) (hs : gdtr.segment? mem 8 = some s)
    (hcode : s.kind / 8 = 3) (hsdpl : s.dpl = 0) (hspresent : s.present = true) (cpl : Nat) (soft : Bool) :
    vectorTo mem gdtr idtr cpl soft v = expected cpl soft v (entered a v) := by
  unfold IDT_ENTRIES at hv
  subst hidtr
  unfold tableOf at h
  unfold entered
  by_cases hv80 : v = 0x80
  · rw [if_pos hv80] at h ⊢
    exact vectorTo_entry hsys (by decide) (by dsimp only; omega) h hs hcode hsdpl hspresent rfl
  rw [if_neg hv80] at h ⊢
  by_cases hlow : v < 32
  · rw [if_pos hlow] at h ⊢
    exact vectorTo_entry (Nat.mod_lt _ (by decide)) (by decide) (by dsimp only; omega) h hs hcode hsdpl hspresent rfl
  rw [if_neg hlow] at h ⊢
  by_cases hmid : v < 48
  · rw [if_pos hmid] at h ⊢
    exact vectorTo_entry (Nat.mod_lt _ (by decide)) (by decide) (by dsimp only; omega) h hs hcode hsdpl hspresent rfl
  rw [if_neg hmid] at h ⊢
  have hgate := entryOf_gate (by decide) (by decide) h
  exact vectorTo_none (by rw [hgate]; rfl)

/-- So it is with the segments of `setup_gdt`. -/
theorem vectorTo_entered {a : Addresses} {mem : Nat → UInt8} {gdt tss sp : Nat} {g : Gdt.Segmentation} {t : Setup}
    {v : Nat} (hflat : Gdt.Flat gdt tss sp g) (hin : Gdt.Installed mem gdt tss g) (htss : tss + 104 < 2 ^ 32)
    (hsys : a.syscall_handler < 2 ^ 32) (hidtr : t.idtr = ⟨a.idt, 2047⟩) (hv : v < IDT_ENTRIES)
    (htable : t.idt v = tableOf a v) (hlies : Lies mem (add32 a.idt (8 * v)) (t.idt v).bytes) (cpl : Nat) (soft : Bool) :
    vectorTo mem g.gdtr t.idtr cpl soft v = expected cpl soft v (entered a v) := by
  obtain ⟨kind, hseg, hkind⟩ := (hflat.segments hin htss).1 0x08 (by simp)
  rw [htable] at hlies
  exact vectorTo_table hsys hv hidtr hlies hseg (hkind.2 (by simp)) rfl rfl cpl soft

section
variable {short : Bool} {l : Symbols} {a : Addresses}

theorem Placed.exc0_lt (h : Placed short l a) : a.exc0 < 2 ^ 32 := by
  have hlast := h.exc
  cases short with
  | true =>
    rw [exc_addr_short l a (by decide)] at hlast
    simp only [EXC_SIZE, if_true] at hlast
    omega
  | false =>
    rw [(exc_addr_long l a).2.2] at hlast
    omega

theorem Placed.irq0_lt (h : Placed short l a) : a.irq0 < 2 ^ 32 := by
  have hlast := h.irq
  rw [irq_addr_eq short l a (by decide)] at hlast
  have hsize : 0 < IRQ_SIZE short := by cases short <;> decide
  omega

theorem Placed.exc_offset (h : Placed true l a) {v : Nat} (hv : v < 32) :
    (a.exc0 + v * sub32 a.exc1 a.exc0) % 2 ^ 32 = exc_addr true l a v := by
  have hlast := h.exc
  have hsecond := h.exc1
  rw [exc_addr_short l a (by decide)] at hlast hsecond
  rw [exc_addr_short l a hv.le]
  simp only [EXC_SIZE, if_true] at hlast hsecond ⊢
  rw [sub32_eq (by omega) (by omega)]
  have hlen : a.exc1 - a.exc0 = 43 := by omega
  rw [hlen]
  omega

theorem Placed.exc_offset_long (h : Placed false l a) :
    (a.exc0 + 9 * sub32 a.exc1 a.exc0) % 2 ^ 32 ≠ exc_addr false l a 9 := by
  obtain ⟨hone, hnine, hlast⟩ := exc_addr_long l a
  have hbound := h.exc
  have hsecond := h.exc1
  rw [hlast] at hbound
  rw [hone] at hsecond
  rw [hnine, sub32_eq (by omega) (by omega)]
  omega

theorem Placed.irq_offset (h : Placed short l a) {n : Nat} (hn : n < 16) :
    (a.irq0 + n * sub32 a.irq1 a.irq0) % 2 ^ 32 = irq_addr short l a n := by
  have hlast := h.irq
  have hsecond := h.irq1
  rw [irq_addr_eq short l a (by decide)] at hlast hsecond
  rw [irq_addr_eq short l a hn.le]
  have hsize : IRQ_SIZE short ≤ 43 ∧ 0 < IRQ_SIZE short := by cases short <;> decide
  rw [sub32_eq (by omega) (by omega)]
  have hlen : a.irq1 - a.irq0 = IRQ_SIZE short := by omega
  have hle : n * IRQ_SIZE short < 16 * IRQ_SIZE short := Nat.mul_lt_mul_of_pos_right hn hsize.2
  rw [hlen]
  omega

theorem Placed.entered_short (h : Placed true l a) {v : Nat} : entered a v = target true l a v := by
  unfold entered target
  split
  · rfl
  split
  · rename_i hv
    rw [h.exc_offset hv]
  split
  · rename_i hv
    rw [h.irq_offset (by omega)]
  · rfl

/-- After `setup_gdt` and `setup_idt`, with the stubs placed one after the other: every vector leads, at every
privilege, to its own stub with interrupts off, or to the protection fault if it has none or an `int` may not ask for
it; this is so exactly if the assembler gives small immediates one byte. -/
theorem setup_idt_vectors (hp : Placed short l a) {gdt tss : Nat} {g₀ g : Gdt.Segmentation}
    (hg : Gdt.setup_gdt gdt tss g₀ = .ok ((), g)) (htss : tss + 104 < 2 ^ 32) (k : Setup) :
    ∃ t, setup_idt a k = .ok ((), t) ∧ t.interrupts = true ∧ Interrupts.pic_init k.pics = .ok ((), t.pics) ∧
      ∀ mem, Gdt.Installed mem gdt tss g → (∀ v < IDT_ENTRIES, Lies mem (add32 a.idt (8 * v)) (t.idt v).bytes) →
        ((∀ cpl soft v, v < IDT_ENTRIES →
          vectorTo mem g.gdtr t.idtr cpl soft v = expected cpl soft v (target short l a v)) ↔ short = true) := by
  obtain ⟨t, hrun, hsti, hidtr, hpic, htable⟩ := setup_idt_run hp.exc0_lt hp.irq0_lt k
  refine ⟨t, hrun, hsti, hpic, fun mem hin hlies => ?_⟩
  obtain ⟨g', hrun', hflat⟩ := Gdt.setup_gdt_flat gdt tss g₀
  rw [hg] at hrun'
  cases hrun'
  have hto : ∀ cpl soft v, v < IDT_ENTRIES →
      vectorTo mem g.gdtr t.idtr cpl soft v = expected cpl soft v (entered a v) := fun cpl soft v hv =>
    vectorTo_entered hflat hin htss hp.syscall_handler hidtr hv (htable v hv) (hlies v hv) cpl soft
  constructor
  · intro hall
    -- with long immediates the stubs behind the double fault, which pads nothing, lie elsewhere
    by_contra hshort
    rw [Bool.not_eq_true] at hshort
    subst hshort
    have hnine := (hto 0 false 9 (by decide)).symm.trans (hall 0 false 9 (by decide))
    have heq : (a.exc0 + 9 * sub32 a.exc1 a.exc0) % 2 ^ 32 = exc_addr false l a 9 := by
      simpa [expected, entered, target] using hnine
    exact hp.exc_offset_long heq
  · rintro rfl cpl soft v hv
    rw [hto cpl soft v hv, hp.entered_short]

end

def linkedSymbols : Symbols := ⟨0x100800, 0x100900, 0x104000⟩

def linkedAt : Addresses where
  idt := 0x200000
  exc0 := 0x101000
  exc1 := 0x10102b
  irq0 := 0x102000
  irq1 := 0x102025
  syscall_handler := 0x103000

theorem linkedAt_placed : Placed true linkedSymbols linkedAt where
  exc1 := (exc_addr_short linkedSymbols linkedAt (v := 1) (by decide)).symm
  irq1 := (irq_addr_eq true linkedSymbols linkedAt (n := 1) (by decide)).symm
  exc := by
    rw [exc_addr_short linkedSymbols linkedAt (by decide)]
    decide
  irq := by
    rw [irq_addr_eq true linkedSymbols linkedAt (by decide)]
    decide
  syscall_handler := by decide

def blankSegments : Gdt.Segmentation := ⟨fun _ => ⟨0, 0, 0, 0, 0, 0⟩, fun _ => 0, ⟨0, 0⟩, fun _ => 0, 0, 0, 0⟩

def blankSetup : Setup := ⟨fun _ => ⟨0, 0, 0, 0, 0⟩, ⟨0, 0x3ff⟩, Interrupts.loaderPair, false⟩

theorem setup_idt_vectors_linked : ∃ g, Gdt.setup_gdt 0x201000 0x202000 blankSegments = .ok ((), g) ∧
    ∃ t, setup_idt linkedAt blankSetup = .ok ((), t) ∧ t.interrupts = true ∧
      Interrupts.pic_init Interrupts.loaderPair = .ok ((), t.pics) ∧
      ∀ mem, Gdt.Installed mem 0x201000 0x202000 g →
        (∀ v < IDT_ENTRIES, Lies mem (add32 linkedAt.idt (8 * v)) (t.idt v).bytes) →
        ((∀ cpl soft v, v < IDT_ENTRIES → vectorTo mem g.gdtr t.idtr cpl soft v =
          expected cpl soft v (target true linkedSymbols linkedAt v)) ↔ true = true) :=
  ⟨_, rfl, setup_idt_vectors linkedAt_placed rfl (by decide) blankSetup⟩

end Ulmix.Idt

import Ulmix.Lib.ListStack
/-!
# Entering and leaving the kernel (`arch/i686/exc.s`, `irq.s`, `syscall.s`)

The three hand-written entry sequences push the interrupted registers, call a C
function and pop them again. On a stack that is a list each sequence can simply
be evaluated (`exc_enter_steps`, `exc_leave_steps` and so on); the processor
follows it, so what is popped is what was pushed.
-/
open Ulmix.Lib Ulmix.Lib.X86

namespace Ulmix.Entry

/-! ## The code -/

/-- The addresses the linker gives the symbols the entry code refers to. -/
structure Symbols where
  exc_handler : Nat
  irq_handler_i686 : Nat
  syscall_table : Nat

/-- `mov ax, 0x10` and on to the segment registers. -/
def kernel_segments : List Instr :=
  [.mov_low .eax 0x10, .mov_seg .ds .eax, .mov_seg .es .eax, .mov_seg .fs .eax, .mov_seg .gs .eax]

/-- The condition under which `EXC_HANDLER` pushes a 0 in place of an error code. -/
def pads (exc_no : Nat) : Bool := exc_no ≠ 8 ∧ exc_no ≠ 17 ∧ exc_no ≠ 30 ∧ (exc_no < 10 ∨ exc_no > 14)

def exc_pad (exc_no : Nat) : List Instr := if pads exc_no then [.push_imm 0] else [.nop, .nop]

def exc_enter (exc_no : Nat) : List Instr :=
  [.push_seg .ds, .push_seg .es, .push_seg .fs, .push_seg .gs, .pushad] ++ kernel_segments ++
    [.push_imm exc_no, .push .esp]

def exc_leave : List Instr :=
  [.add_imm .esp 8, .popad, .pop_seg .gs, .pop_seg .fs, .pop_seg .es, .pop_seg .ds, .add_imm .esp 4]

/-- `EXC_HANDLER exc_no` -/
def exc (l : Symbols) (exc_no : Nat) : List Instr :=
  exc_pad exc_no ++ (exc_enter exc_no ++ .call l.exc_handler :: (exc_leave ++ [.iret]))

def irq_enter (irq_no : Nat) : List Instr :=
  [.pushad, .push_seg .ds, .push_seg .es, .push_seg .fs, .push_seg .gs] ++ kernel_segments ++ [.push_imm irq_no]

def irq_leave : List Instr :=
  [.add_imm .esp 4, .pop_seg .gs, .pop_seg .fs, .pop_seg .es, .pop_seg .ds, .popad]

/-- `IRQ_HANDLER irq_no` -/
def irq (l : Symbols) (irq_no : Nat) : List Instr :=
  irq_enter irq_no ++ .call l.irq_handler_i686 :: (irq_leave ++ [.iret])

/-- Saving the context, and the handler's address in the table. -/
def syscall_enter (l : Symbols) : List Instr :=
  [.push_seg .ds, .push_seg .es, .push_seg .fs, .push_seg .gs,
    .push .esp, .push .ebp, .push .edi, .push .esi, .push .edx, .push .ecx, .push .ebx,
    .mov_imm .edi l.syscall_table, .mov_imm .ebx 4, .mul .ebx, .add .edi .eax]

/-- `.not_implemented` -/
def syscall_leave : List Instr :=
  [.pop .ebx, .pop .ecx, .pop .edx, .pop .esi, .pop .edi, .pop .ebp, .pop .esp,
    .pop_seg .gs, .pop_seg .fs, .pop_seg .es, .pop_seg .ds]

/-- `-38` as a word. -/
def ENOSYS_WORD : Nat := 2 ^ 32 - 38

def syscall_dispatch : List Instr :=
  .mov_imm .eax ENOSYS_WORD :: .test .edi .edi :: .jz 6 ::
    (kernel_segments ++ .call_reg .edi :: (syscall_leave ++ [.iret]))

def syscall_handler (l : Symbols) : List Instr := syscall_enter l ++ .load .edi .edi :: syscall_dispatch

/-- `struct exc_context` -/
structure ExcContext where
  id : Nat
  edi : Nat
  esi : Nat
  ebp : Nat
  esp : Nat
  ebx : Nat
  edx : Nat
  ecx : Nat
  eax : Nat
  gs : Nat
  fs : Nat
  es : Nat
  ds : Nat
  error_code : Nat
  eip : Nat
  deriving DecidableEq, Repr

/-- `*context`, packed. -/
def exc_context (mem : Nat → UInt8) (context : Nat) : ExcContext where
  id := read32 mem (add32 context 0)
  edi := read32 mem (add32 context 4)
  esi := read32 mem (add32 context 8)
  ebp := read32 mem (add32 context 12)
  esp := read32 mem (add32 context 16)
  ebx := read32 mem (add32 context 20)
  edx := read32 mem (add32 context 24)
  ecx := read32 mem (add32 context 28)
  eax := read32 mem (add32 context 32)
  gs := read32 mem (add32 context 36)
  fs := read32 mem (add32 context 40)
  es := read32 mem (add32 context 44)
  ds := read32 mem (add32 context 48)
  error_code := read32 mem (add32 context 52)
  eip := read32 mem (add32 context 56)

/-! ## What the sequences do to a stack that is a list -/

/-- The registers `pushad` pushes, above the words `xs`. -/
def pushedRegs (regs : Reg → Nat) (k : Nat) (xs : List Item) : List Item :=
  .word (regs .edi) :: .word (regs .esi) :: .word (regs .ebp) :: .here k :: .word (regs .ebx) ::
    .word (regs .edx) :: .word (regs .ecx) :: .word (regs .eax) :: xs

/-- The segment registers as the entry code pushes them. -/
def pushedSegs (segs : Seg → Nat) (xs : List Item) : List Item :=
  .half (segs .gs) :: .half (segs .fs) :: .half (segs .es) :: .half (segs .ds) :: xs

/-- The registers after `popad` of what `pushad` pushed. -/
def popRegs (regs' regs : Reg → Nat) : Reg → Nat :=
  Function.update (Function.update (Function.update (Function.update (Function.update (Function.update (Function.update
    regs' .edi (regs .edi)) .esi (regs .esi)) .ebp (regs .ebp)) .ebx (regs .ebx)) .edx (regs .edx)) .ecx (regs .ecx))
    .eax (regs .eax)

def popSegs (segs' segs : Seg → Nat) : Seg → Nat :=
  Function.update (Function.update (Function.update (Function.update
    segs' .gs (segs .gs)) .fs (segs .fs)) .es (segs .es)) .ds (segs .ds)

theorem popRegs_eq (regs' regs : Reg → Nat) {r : Reg} (h : r ≠ .esp) : popRegs regs' regs r = regs r := by
  cases r <;> first | rfl | exact absurd rfl h

theorem popSegs_eq (segs' segs : Seg → Nat) : popSegs segs' segs = segs := by
  funext s
  cases s <;> rfl

theorem exc_pad_steps (v code : Nat) (regs : Reg → Nat) (segs : Seg → Nat) (xs : List Item) :
    ListCpu.steps (exc_pad v) ⟨regs, segs, if pads v then xs else .word code :: xs⟩ =
      some ⟨regs, segs, .word (if pads v then 0 else code) :: xs⟩ := by
  unfold exc_pad
  cases pads v <;> rfl

theorem exc_enter_steps (v : Nat) (regs : Reg → Nat) (segs : Seg → Nat) (xs : List Item) :
    ∃ regs' segs', ListCpu.steps (exc_enter v) ⟨regs, segs, xs⟩ = some ⟨regs', segs',
      .here (xs.length + 13) :: .word (v % 2 ^ 32) :: pushedRegs regs (xs.length + 4) (pushedSegs segs xs)⟩ :=
  ⟨_, _, rfl⟩

theorem exc_leave_steps (regs regs' : Reg → Nat) (segs segs' : Seg → Nat) (y z x : Item) (k : Nat) (xs : List Item) :
    ListCpu.steps exc_leave ⟨regs', segs', y :: z :: pushedRegs regs k (pushedSegs segs (x :: xs))⟩ =
      some ⟨popRegs regs' regs, popSegs segs' segs, xs⟩ := rfl

theorem irq_enter_steps (v : Nat) (regs : Reg → Nat) (segs : Seg → Nat) (xs : List Item) :
    ∃ regs' segs', ListCpu.steps (irq_enter v) ⟨regs, segs, xs⟩ = some ⟨regs', segs',
      .word (v % 2 ^ 32) :: pushedSegs segs (pushedRegs regs xs.length xs)⟩ :=
  ⟨_, _, rfl⟩

theorem irq_leave_steps (regs regs' : Reg → Nat) (segs segs' : Seg → Nat) (y : Item) (k : Nat) (xs : List Item) :
    ListCpu.steps irq_leave ⟨regs', segs', y :: pushedSegs segs (pushedRegs regs k xs)⟩ =
      some ⟨popRegs regs' regs, popSegs segs' segs, xs⟩ := rfl

/-- The context `syscall_handler` saves: the first five words are the arguments. -/
def syscallFrame (regs : Reg → Nat) (segs : Seg → Nat) (xs : List Item) : List Item :=
  .word (regs .ebx) :: .word (regs .ecx) :: .word (regs .edx) :: .word (regs .esi) :: .word (regs .edi) ::
    .word (regs .ebp) :: .here (xs.length + 4) :: pushedSegs segs xs

/-- The registers once the handler's address is computed. -/
def syscallRegs (l : Symbols) (regs : Reg → Nat) : Reg → Nat :=
  Function.update (Function.update (Function.update (Function.update (Function.update regs
    .edi (l.syscall_table % 2 ^ 32)) .ebx 4) .eax (regs .eax * 4 % 2 ^ 32)) .edx (regs .eax * 4 / 2 ^ 32 % 2 ^ 32))
    .edi (add32 (l.syscall_table % 2 ^ 32) (regs .eax * 4 % 2 ^ 32))

theorem syscall_enter_steps (l : Symbols) (regs : Reg → Nat) (segs : Seg → Nat) (xs : List Item) :
    ListCpu.steps (syscall_enter l) ⟨regs, segs, xs⟩ = some ⟨syscallRegs l regs, segs, syscallFrame regs segs xs⟩ := rfl

/-- The registers after `.not_implemented`. -/
def syscallPop (regs' regs : Reg → Nat) : Reg → Nat :=
  Function.update (Function.update (Function.update (Function.update (Function.update (Function.update
    regs' .ebx (regs .ebx)) .ecx (regs .ecx)) .edx (regs .edx)) .esi (regs .esi)) .edi (regs .edi)) .ebp (regs .ebp)

theorem syscallPop_eq (regs' regs : Reg → Nat) {r : Reg} (h : r ≠ .esp) (h' : r ≠ .eax) :
    syscallPop regs' regs r = regs r := by
  cases r <;> first | rfl | exact absurd rfl h | exact absurd rfl h'

theorem syscall_leave_steps (regs regs' : Reg → Nat) (segs segs' : Seg → Nat) (xs : List Item) :
    ListCpu.steps syscall_leave ⟨regs', segs', syscallFrame regs segs xs⟩ =
      some ⟨syscallPop regs' regs, popSegs segs' segs, xs⟩ := by
  have hesp : ListCpu.pop_esp ⟨syscallPop regs' regs, segs', .here (xs.length + 4) :: pushedSegs segs xs⟩ =
      some ⟨syscallPop regs' regs, segs', pushedSegs segs xs⟩ := if_pos rfl
  have hpop : ListCpu.steps syscall_leave ⟨regs', segs', syscallFrame regs segs xs⟩ =
      (ListCpu.pop_esp ⟨syscallPop regs' regs, segs', .here (xs.length + 4) :: pushedSegs segs xs⟩).bind
        (ListCpu.steps [.pop_seg .gs, .pop_seg .fs, .pop_seg .es, .pop_seg .ds]) := rfl
  rw [hpop, hesp]
  rfl

theorem kernel_segments_steps (regs : Reg → Nat) (segs : Seg → Nat) (xs : List Item) :
    ∃ regs' segs', (∀ r, r ≠ .eax → regs' r = regs r) ∧
      ListCpu.steps kernel_segments ⟨regs, segs, xs⟩ = some ⟨regs', segs', xs⟩ :=
  ⟨Function.update regs .eax (regs .eax / 65536 * 65536 + 0x10 % 65536), _, fun _ h => Function.update_of_ne h .., rfl⟩

/-! ## Through an entry and back -/

/-- The processor at an entry: the words `ws` are on its stack, which has room for the context. -/
structure Entered (c : Cpu) (ws : List Nat) : Prop where
  regs : ∀ r, c.regs r < 2 ^ 32
  segs : ∀ s, c.segs s < 2 ^ 16
  words : ∀ j (h : j < ws.length), read32 c.mem (add32 (c.regs .esp) (4 * j)) = ws[j]
  room : 4 * (ws.length + 20) < 2 ^ 32

/-- Where the stack that starts with `ws` ends. -/
def bottomOf (c : Cpu) (ws : List Nat) : Nat := add32 (c.regs .esp) (4 * ws.length)

/-- At its `iret` the processor is as it was at the entry, with `esp` at the words `frame`, `n` words up. -/
structure Left (changed : List Reg) (c c' : Cpu) (n : Nat) (frame : List Nat) : Prop where
  esp : c'.regs .esp = add32 (c.regs .esp) (4 * n)
  regs : ∀ r, r ≠ .esp → r ∉ changed → c'.regs r = c.regs r
  segs : c'.segs = c.segs
  frame : ∀ j (h : j < frame.length), read32 c'.mem (add32 (c'.regs .esp) (4 * j)) = frame[j]

theorem Entered.tracks {c : Cpu} {ws : List Nat} (h : Entered c ws) :
    Tracks (ws.length + 20) (bottomOf c ws) c.mem c ⟨c.regs, c.segs, ws.map .word⟩ :=
  .entry h.regs h.segs h.room (Nat.le_add_right ..) h.words

theorem Left.of_tracks {changed : List Reg} {depth : Nat} {mem : Nat → UInt8} {c c' : Cpu} (pre : List Nat)
    {frame : List Nat} {regs : Reg → Nat} (hb : 4 * (pre.length + frame.length) < 2 ^ 32)
    (h : Tracks depth (bottomOf c (pre ++ frame)) mem c' ⟨regs, c.segs, frame.map .word⟩)
    (hregs : ∀ r, r ≠ .esp → r ∉ changed → regs r = c.regs r) : Left changed c c' pre.length frame := by
  have hesp : c'.regs .esp = add32 (c.regs .esp) (4 * pre.length) := by
    rw [h.esp]
    unfold bottomOf add32 sub32
    rw [List.length_append, List.length_map]
    omega
  refine ⟨hesp, fun r hr hr' => (h.regs r hr).trans (hregs r hr hr'), h.segs, fun j hj => ?_⟩
  have hget := h.stack.get (j := j) (x := .word frame[j]) (by rw [List.length_map]; omega) (by simp [hj])
  have haddr : c'.regs .esp = sub32 (bottomOf c (pre ++ frame)) (4 * (frame.map Item.word).length) := h.esp
  rw [haddr]
  exact hget

/-- The vectors for which the processor itself pushes an error code. -/
def pushesCode (v : Nat) : Bool := v = 8 ∨ (10 ≤ v ∧ v ≤ 14) ∨ v = 17 ∨ v = 30

theorem pads_eq (v : Nat) : pads v = !pushesCode v := by
  unfold pads pushesCode
  by_cases h : v = 8 ∨ (10 ≤ v ∧ v ≤ 14) ∨ v = 17 ∨ v = 30
  · simp only [h, decide_true, Bool.not_true, decide_eq_false_iff_not]
    omega
  · simp only [h, decide_false, Bool.not_false, decide_eq_true_eq]
    omega

/-- `x` describes the interrupted processor `c`: the vector `v`, its registers, the error code and the address. -/
structure Describes (x : ExcContext) (c : Cpu) (v code eip : Nat) : Prop where
  id : x.id = v
  edi : x.edi = c.regs .edi
  esi : x.esi = c.regs .esi
  ebp : x.ebp = c.regs .ebp
  ebx : x.ebx = c.regs .ebx
  edx : x.edx = c.regs .edx
  ecx : x.ecx = c.regs .ecx
  eax : x.eax = c.regs .eax
  gs : x.gs % 65536 = c.segs .gs
  fs : x.fs % 65536 = c.segs .fs
  es : x.es % 65536 = c.segs .es
  ds : x.ds % 65536 = c.segs .ds
  error_code : x.error_code = code
  eip : x.eip = eip

/-- The words the exception stub pushed are a `struct exc_context`. -/
theorem describes_of_stack {bottom : Nat} {mem : Nat → UInt8} {c : Cpu} {v k code eip : Nat} {xs : List Item}
    (hv : v < 32) (hlen : 4 * (xs.length + 15) < 2 ^ 32)
    (h : OnStack bottom mem (.word (v % 2 ^ 32) :: pushedRegs c.regs k
      (pushedSegs c.segs (.word code :: .word eip :: xs)))) :
    Describes (exc_context mem (sub32 bottom (4 * (xs.length + 15)))) c v code eip where
  id := (h.get (j := 0) hlen rfl).trans (Nat.mod_eq_of_lt (by omega))
  edi := h.get (j := 1) hlen rfl
  esi := h.get (j := 2) hlen rfl
  ebp := h.get (j := 3) hlen rfl
  ebx := h.get (j := 5) hlen rfl
  edx := h.get (j := 6) hlen rfl
  ecx := h.get (j := 7) hlen rfl
  eax := h.get (j := 8) hlen rfl
  gs := h.get (j := 9) hlen rfl
  fs := h.get (j := 10) hlen rfl
  es := h.get (j := 11) hlen rfl
  ds := h.get (j := 12) hlen rfl
  error_code := h.get (j := 13) hlen rfl
  eip := h.get (j := 14) hlen rfl

/-- The error code on the stack, if the processor pushed one. -/
def pushedCode (v code : Nat) : List Nat := if pushesCode v then [code] else []

/-- The exception stub for `v`, entered with the return frame `eip :: frame`. -/
theorem exc_run {e : Env} {c : Cpu} {v code eip : Nat} {frame : List Nat} (l : Symbols) (hv : v < 32)
    (hc : Entered c (pushedCode v code ++ eip :: frame))
    (hf : Cdecl e.callee (bottomOf c (pushedCode v code ++ eip :: frame))) (hret : ∀ t c, e.callee t c ≠ none) :
    ∃ f c', run e 0 (exc l v) ⟨c, [], []⟩ = .iret ⟨c', [], [f]⟩ ∧ f.target = l.exc_handler ∧
      Describes (exc_context f.mem (read32 f.mem (add32 f.esp 4))) c v (if pushesCode v then code else 0) eip ∧
      Left [] c c' (pushedCode v code).length (eip :: frame) := by
  have hroom := hc.room
  have hcode : (pushedCode v code).length ≤ 1 := by
    unfold pushedCode
    cases pushesCode v <;> simp
  have hstack : (pushedCode v code ++ eip :: frame).map Item.word =
      if pads v then (eip :: frame).map Item.word else .word code :: (eip :: frame).map Item.word := by
    rw [pads_eq]
    unfold pushedCode
    cases pushesCode v <;> rfl
  have hpad : (if pads v then 0 else code) = if pushesCode v then code else 0 := by
    rw [pads_eq]
    cases pushesCode v <;> rfl
  have ht := hc.tracks
  rw [hstack] at ht
  obtain ⟨regs', segs', henter⟩ := exc_enter_steps v c.regs c.segs
      (.word (if pads v then 0 else code) :: (eip :: frame).map .word)
  have henter' := ListCpu.steps_append (exc_pad v) (exc_enter v)
    ⟨c.regs, c.segs, if pads v then (eip :: frame).map Item.word else .word code :: (eip :: frame).map Item.word⟩
  rw [exc_pad_steps, Option.bind_some, henter] at henter'
  have hleave := fun regs => exc_leave_steps c.regs regs c.segs segs' (.here ((frame.map Item.word).length + 15))
    (.word (v % 2 ^ 32)) (.word (if pads v then 0 else code)) ((frame.map Item.word).length + 6)
      ((eip :: frame).map .word)
  have hlen : (if pads v then (eip :: frame).map Item.word else .word code :: (eip :: frame).map Item.word).length =
      (pushedCode v code ++ eip :: frame).length := by
    rw [← hstack, List.length_map]
  have hpushes : ((exc_pad v ++ exc_enter v).map pushes).sum ≤ 15 := by
    rw [List.map_append, List.sum_append]
    have h14 : ((exc_enter v).map pushes).sum = 14 := rfl
    unfold exc_pad
    cases pads v <;> simp only [h14] <;> decide
  obtain ⟨f, c', regs, mem', hrun, htarget, hesp, hon, hleft⟩ := ht.bracket hc.room henter' hleave
    (by rw [hlen]; omega) rfl hf hret l.exc_handler
  rw [popSegs_eq] at hleft
  rw [List.append_assoc] at hrun
  refine ⟨f, c', hrun, htarget, ?_, .of_tracks _ ?_ hleft fun r hr _ => popRegs_eq _ _ hr⟩
  · have hcontext : read32 f.mem (add32 f.esp 4) =
        sub32 (bottomOf c (pushedCode v code ++ eip :: frame)) (4 * ((frame.map Item.word).length + 15)) := by
      rw [hesp]
      exact hon.1
    rw [hcontext, ← hpad]
    refine describes_of_stack hv ?_ hon.2
    rw [List.length_map]
    rw [List.length_append, List.length_cons] at hroom
    omega
  · rw [← List.length_append]
    omega

/-- The interrupt stub for `v`, entered with the return frame `frame`. -/
theorem irq_run {e : Env} {c : Cpu} {frame : List Nat} (l : Symbols) (v : Nat) (hc : Entered c frame)
    (hf : Cdecl e.callee (bottomOf c frame)) (hret : ∀ t c, e.callee t c ≠ none) :
    ∃ f c', run e 0 (irq l v) ⟨c, [], []⟩ = .iret ⟨c', [], [f]⟩ ∧ f.target = l.irq_handler_i686 ∧
      read32 f.mem (add32 f.esp 4) = v % 2 ^ 32 ∧ Left [] c c' 0 frame := by
  have hroom := hc.room
  obtain ⟨regs', segs', henter⟩ := irq_enter_steps v c.regs c.segs (frame.map .word)
  have hpushes : ((irq_enter v).map pushes).sum = 13 := rfl
  have hlen : (frame.map Item.word).length = frame.length := List.length_map ..
  obtain ⟨f, c', regs, mem', hrun, htarget, hesp, hon, hleft⟩ := hc.tracks.bracket hroom henter
    (fun regs => irq_leave_steps c.regs regs c.segs segs' (.word (v % 2 ^ 32)) _ _)
    (by rw [hpushes]; dsimp only; rw [hlen]; omega) rfl hf hret l.irq_handler_i686
  rw [popSegs_eq] at hleft
  refine ⟨f, c', hrun, htarget, ?_, .of_tracks [] (by simp only [List.length_nil]; omega) hleft
    fun r hr _ => popRegs_eq _ _ hr⟩
  rw [hesp]
  exact hon.1

/-! ## System calls -/

/-- The address of the table entry looked up for `eax`. -/
def entryAddr (l : Symbols) (eax : Nat) : Nat := add32 (l.syscall_table % 2 ^ 32) (eax * 4 % 2 ^ 32)

/-- Up to the load, with `depth` words of stack used at most. -/
theorem syscall_enter_run (e : Env) {depth bottom : Nat} {c : Cpu} {xs : List Item} (l : Symbols)
    (h : Tracks depth bottom c.mem c ⟨c.regs, c.segs, xs⟩) (hb : 4 * depth < 2 ^ 32) (hd : xs.length + 11 ≤ depth) :
    ∃ c₁, run e 0 (syscall_handler l) ⟨c, [], []⟩ = run e 0 syscall_dispatch
        ⟨c₁.set .edi (read32 c₁.mem (entryAddr l (c.regs .eax))), [entryAddr l (c.regs .eax)], []⟩ ∧
      Tracks depth bottom c.mem c₁ ⟨syscallRegs l c.regs, c.segs, syscallFrame c.regs c.segs xs⟩ := by
  obtain ⟨c₁, hrun, h₁⟩ := h.run e (.load .edi .edi :: syscall_dispatch) (syscall_enter l) (m := ⟨c, [], []⟩) hb
    (syscall_enter_steps l c.regs c.segs xs) hd
  refine ⟨c₁, ?_, h₁⟩
  have hedi : c₁.regs .edi = entryAddr l (c.regs .eax) := h₁.regs .edi (by decide)
  unfold syscall_handler
  rw [hrun, ← hedi]
  rfl

/-- The test decides whether the call is jumped over. -/
theorem syscall_test (e : Env) (m : Machine) :
    run e 0 syscall_dispatch m =
      run e (if m.cpu.regs .edi == 0 then 6 else 0) (kernel_segments ++ .call_reg .edi :: (syscall_leave ++ [.iret]))
        { m with cpu := { m.cpu.set .eax ENOSYS_WORD with zf := m.cpu.regs .edi == 0 } } := by
  have htest : run e 0 syscall_dispatch m =
      run e (if m.cpu.regs .edi &&& m.cpu.regs .edi == 0 then 6 else 0)
        (kernel_segments ++ .call_reg .edi :: (syscall_leave ++ [.iret]))
        { m with cpu := { m.cpu.set .eax ENOSYS_WORD with zf := m.cpu.regs .edi &&& m.cpu.regs .edi == 0 } } := rfl
  rw [htest, Nat.and_self]

/-- No handler: the jump leads past the call. -/
theorem syscall_missing (e : Env) {depth bottom : Nat} {mem : Nat → UInt8} {m : Machine} {regs regs' : Reg → Nat}
    {segs : Seg → Nat} {xs : List Item} (h : Tracks depth bottom mem m.cpu ⟨regs', segs, syscallFrame regs segs xs⟩)
    (hb : 4 * depth < 2 ^ 32) (hz : m.cpu.regs .edi = 0) :
    ∃ c', run e 0 syscall_dispatch m = .iret { m with cpu := c' } ∧ c'.regs .eax = ENOSYS_WORD ∧
      Tracks depth bottom mem c' ⟨syscallPop (Function.update regs' .eax ENOSYS_WORD) regs, segs, xs⟩ := by
  have hset := (h.set (r := .eax) (v := ENOSYS_WORD) (by decide) (by decide)).set_zf true
  obtain ⟨c', hrun, h'⟩ := hset.run e [.iret] syscall_leave
    (m := { m with cpu := { m.cpu.set .eax ENOSYS_WORD with zf := true } }) hb (syscall_leave_steps ..) h.deep
  rw [popSegs_eq] at h'
  refine ⟨c', ?_, h'.regs .eax (by decide), h'⟩
  rw [syscall_test, hz]
  exact hrun

/-- The machine when the handler at `t` is entered. -/
theorem syscall_found (e : Env) {depth bottom : Nat} {mem : Nat → UInt8} {m : Machine} {regs regs' : Reg → Nat}
    {segs : Seg → Nat} {xs : List Item} (h : Tracks depth bottom mem m.cpu ⟨regs', segs, syscallFrame regs segs xs⟩)
    (hb : 4 * depth < 2 ^ 32) (hz : m.cpu.regs .edi ≠ 0) :
    ∃ c₁ regs₁ segs₁, c₁.regs .edi = m.cpu.regs .edi ∧
      run e 0 syscall_dispatch m = run e 0 (.call_reg .edi :: (syscall_leave ++ [.iret])) { m with cpu := c₁ } ∧
      Tracks depth bottom mem c₁ ⟨regs₁, segs₁, syscallFrame regs segs xs⟩ := by
  have hset := (h.set (r := .eax) (v := ENOSYS_WORD) (by decide) (by decide)).set_zf false
  obtain ⟨regs₁, segs₁, hkeep, hsteps⟩ := kernel_segments_steps (Function.update regs' .eax ENOSYS_WORD) segs
    (syscallFrame regs segs xs)
  obtain ⟨c₁, hrun, h₁⟩ := hset.run e (.call_reg .edi :: (syscall_leave ++ [.iret])) kernel_segments
    (m := { m with cpu := { m.cpu.set .eax ENOSYS_WORD with zf := false } }) hb hsteps h.deep
  refine ⟨c₁, regs₁, segs₁, ?_, ?_, h₁⟩
  · have hedi : regs₁ .edi = regs' .edi := hkeep .edi (by decide)
    exact (h₁.regs .edi (by decide)).trans (hedi.trans (h.regs .edi (by decide)).symm)
  · have hnz : (m.cpu.regs .edi == 0) = false := by simpa using hz
    rw [syscall_test, hnz]
    exact hrun

/-- The system call entry, entered with the return frame `frame`. -/
theorem syscall_run {e : Env} {c : Cpu} {frame : List Nat} (l : Symbols) (hc : Entered c frame)
    (hf : Cdecl e.callee (bottomOf c frame)) (hret : ∀ t c, e.callee t c ≠ none) :
    ∃ m, run e 0 (syscall_handler l) ⟨c, [], []⟩ = .iret m ∧ Left [.eax] c m.cpu 0 frame := by
  have hroom := hc.room
  have hlen : (frame.map Item.word).length = frame.length := List.length_map ..
  obtain ⟨c₁, hrun, h₁⟩ := syscall_enter_run e l hc.tracks hroom (by rw [hlen]; omega)
  have h₂ := h₁.set (r := .edi) (by decide) (read32_lt c₁.mem (entryAddr l (c.regs .eax)))
  have hend : ∀ {regs mem c'}, Tracks (frame.length + 20) (bottomOf c frame) mem c'
      ⟨syscallPop regs c.regs, c.segs, frame.map .word⟩ →
      Left [.eax] c c' 0 frame := by
    intro regs mem c' ht
    exact Left.of_tracks [] (by simp only [List.length_nil]; omega) ht
      fun r hr hr' => syscallPop_eq _ _ hr fun h => hr' (h ▸ List.mem_singleton_self _)
  rw [hrun]
  let m₂ : Machine := ⟨c₁.set .edi (read32 c₁.mem (entryAddr l (c.regs .eax))), [entryAddr l (c.regs .eax)], []⟩
  by_cases hz : m₂.cpu.regs .edi = 0
  · obtain ⟨c', hrun', -, ht⟩ := syscall_missing e (m := m₂) h₂ hroom hz
    exact ⟨_, hrun', hend ht⟩
  · obtain ⟨c₃, regs₃, segs₃, -, hrun', h₃⟩ := syscall_found e (m := m₂) h₂ hroom hz
    let m₃ : Machine := { m₂ with cpu := c₃ }
    obtain ⟨c₄, hc₄⟩ := Option.ne_none_iff_exists'.1 (hret (c₃.regs .edi) (m₃.enter e (c₃.regs .edi)).cpu)
    have hshort : (syscallFrame c.regs c.segs (frame.map Item.word)).length < frame.length + 20 := by
      simp only [syscallFrame, pushedSegs, List.length_cons, List.length_map]
      omega
    obtain ⟨-, -, -, h₄⟩ := Tracks.call (m := m₃) h₃ hroom hshort hf hc₄
    obtain ⟨c', hrun₅, h₅⟩ := h₄.run e [.iret] syscall_leave (m := { m₃.enter e (c₃.regs .edi) with cpu := c₄ }) hroom
      (syscall_leave_steps c.regs c₄.regs c.segs segs₃ (frame.map .word)) hshort.le
    rw [popSegs_eq] at h₅
    refine ⟨{ m₃.enter e (c₃.regs .edi) with cpu := c' }, hrun'.trans ?_, hend h₅⟩
    have hcall : run e 0 (.call_reg .edi :: (syscall_leave ++ [.iret])) m₃ =
        run e 0 (syscall_leave ++ [.iret]) { m₃.enter e (c₃.regs .edi) with cpu := c₄ } := by
      simp only [run, m₃, hc₄]
    exact hcall.trans hrun₅

/-! ## Every entry -/

/-- When the C function follows its convention and returns, each entry reaches its `iret` with the
registers it was entered with, but for `eax` after a system call, and with `esp` at the return
frame; and an exception handler finds the interrupted registers in its context. -/
theorem entries_transparent {e : Env} {c : Cpu} (l : Symbols) (hret : ∀ t c, e.callee t c ≠ none) :
    (∀ v code eip frame, v < 32 → Entered c (pushedCode v code ++ eip :: frame) →
      Cdecl e.callee (bottomOf c (pushedCode v code ++ eip :: frame)) →
      ∃ f c', run e 0 (exc l v) ⟨c, [], []⟩ = .iret ⟨c', [], [f]⟩ ∧ f.target = l.exc_handler ∧
        Describes (exc_context f.mem (read32 f.mem (add32 f.esp 4))) c v (if pushesCode v then code else 0) eip ∧
        Left [] c c' (pushedCode v code).length (eip :: frame)) ∧
    (∀ v frame, Entered c frame → Cdecl e.callee (bottomOf c frame) →
      ∃ f c', run e 0 (irq l v) ⟨c, [], []⟩ = .iret ⟨c', [], [f]⟩ ∧ f.target = l.irq_handler_i686 ∧
        read32 f.mem (add32 f.esp 4) = v % 2 ^ 32 ∧ Left [] c c' 0 frame) ∧
    ∀ frame, Entered c frame → Cdecl e.callee (bottomOf c frame) →
      ∃ m, run e 0 (syscall_handler l) ⟨c, [], []⟩ = .iret m ∧ Left [.eax] c m.cpu 0 frame :=
  ⟨fun _ _ _ _ hv hc hf => exc_run l hv hc hf hret, fun v _ hc hf => irq_run l v hc hf hret,
    fun _ hc hf => syscall_run l hc hf hret⟩

/-- A function that returns at once. -/
def returning : Env := ⟨fun _ c => some (c.set .esp (add32 (c.regs .esp) 4)), true, 0⟩

theorem returning_cdecl (bottom : Nat) : Cdecl returning.callee bottom where
  regs := by
    rintro t c c' h r hr
    cases h
    exact Cpu.set_ne _ _ (by rintro rfl; exact absurd hr (by decide))
  esp := by
    rintro t c c' h
    cases h
    exact Cpu.set_self ..
  segs := by
    rintro t c c' h
    cases h
    rfl
  stack := by
    rintro t c c' h b _ _
    cases h
    rfl
  words := by
    rintro t c c' h hc r
    cases h
    by_cases hr : r = .esp
    · rw [hr, Cpu.set_self]
      exact add32_lt _ _
    · rw [Cpu.set_ne _ _ hr]
      exact hc r

/-- All zeros but for the stack pointer. -/
def idleCpu : Cpu := ⟨fun r => if r = .esp then 0x1000 else 7, fun _ => 0x23, false, fun _ => 0⟩

theorem idleCpu_entered : Entered idleCpu [0, 0, 0, 0] where
  regs := by intro r; cases r <;> decide
  segs := fun _ => by show 0x23 < 2 ^ 16; decide
  words
    | 0, _ | 1, _ | 2, _ | 3, _ => rfl
  room := by decide

theorem entries_transparent_page_fault :
    ∃ f c', run returning 0 (exc ⟨16, 32, 48⟩ 14) ⟨idleCpu, [], []⟩ = .iret ⟨c', [], [f]⟩ ∧ f.target = 16 ∧
      Describes (exc_context f.mem (read32 f.mem (add32 f.esp 4))) idleCpu 14 0 0 ∧ Left [] idleCpu c' 1 [0, 0, 0] :=
  (entries_transparent ⟨16, 32, 48⟩ (fun _ _ => by rintro ⟨⟩)).1 14 0 0 [0, 0] (by decide) idleCpu_entered
    (returning_cdecl _)

end Ulmix.Entry

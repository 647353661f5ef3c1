import Ulmix.Arch.Idt
import Ulmix.Lib.Traps
/-!
# From an interrupt to its handler and back

What `setup_gdt` and `setup_idt` installed, what the processor does with it and what
the stubs do, put together: an interrupt taken at any point of the kernel calls
its handler with its number and then resumes the kernel where it was
(`traps_delivered`).
-/
open Ulmix.Lib Ulmix.Lib.X86 Ulmix.Entry

namespace Ulmix.Idt

/-- The stub for `v`, whose handler does not return: what the handler finds. -/
theorem exc_inside {e : Env} {c : Cpu} {v code eip : Nat} {frame : List Nat} (l : Symbols) (hv : v < 32)
    (hc : Entered c (pushedCode v code ++ eip :: frame)) (hnone : ∀ c, e.callee l.exc_handler c = none) :
    ∃ m f, run e 0 (exc l v) ⟨c, [], []⟩ = .inside m ∧ m.calls = [f] ∧ f.target = l.exc_handler ∧
      Describes (exc_context f.mem (read32 f.mem (add32 f.esp 4))) c v (if pushesCode v then code else 0) eip := by
  have hroom := hc.room
  have hstack : (pushedCode v code ++ eip :: frame).map Item.word =
      if pads v then (eip :: frame).map Item.word else .word code :: (eip :: frame).map Item.word := by
    rw [pads_eq]
    unfold pushedCode
    cases pushesCode v <;> rfl
  have hpad : (if pads v then 0 else code) = if pushesCode v then code else 0 := by
    rw [pads_eq]
    cases pushesCode v <;> rfl
  have ht := hc.tracks
  rw [hstack] at ht
  obtain ⟨regs', segs', henter⟩ := exc_enter_steps v c.regs c.segs
      (.word (if pads v then 0 else code) :: (eip :: frame).map .word)
  have hsteps := ListCpu.steps_append (exc_pad v) (exc_enter v)
    ⟨c.regs, c.segs, if pads v then (eip :: frame).map Item.word else .word code :: (eip :: frame).map Item.word⟩
  rw [exc_pad_steps, Option.bind_some, henter] at hsteps
  have hlen : (if pads v then (eip :: frame).map Item.word else .word code :: (eip :: frame).map Item.word).length =
      (pushedCode v code ++ eip :: frame).length := by
    rw [← hstack, List.length_map]
  have hpushes : ((exc_pad v ++ exc_enter v).map pushes).sum ≤ 15 := by
    rw [List.map_append, List.sum_append]
    have h14 : ((exc_enter v).map pushes).sum = 14 := rfl
    unfold exc_pad
    cases pads v <;> simp only [h14] <;> decide
  obtain ⟨m, f, hrun, hcalls, htarget, hesp, hon⟩ := ht.inside hc.room hsteps (by rw [hlen]; omega) hnone
    (exc_leave ++ [.iret])
  rw [List.append_assoc] at hrun
  refine ⟨m, f, hrun, hcalls, htarget, ?_⟩
  have hcontext : read32 f.mem (add32 f.esp 4) =
      sub32 (bottomOf c (pushedCode v code ++ eip :: frame)) (4 * ((frame.map Item.word).length + 15)) := by
    rw [hesp]
    exact hon.1
  rw [hcontext, ← hpad]
  refine describes_of_stack hv ?_ hon.2
  rw [List.length_map]
  rw [List.length_append, List.length_cons] at hroom
  omega

/-- A handler entered for `x` finds what it needs. -/
theorem entered_of_raised {x : Context} {ws : List Nat} {c : Cpu} (hx : x.Proper) (h : Raised x ws c)
    (hlen : ws.length ≤ 4) : Entered c ws where
  regs := h.small
  segs := by
    rw [h.segs]
    exact hx.segs
  words := h.words
  room := by omega

/-- What is described of the processor in the handler is described of the interrupted one. -/
theorem describes_of_raised {x : Context} {ws : List Nat} {c : Cpu} (h : Raised x ws c) {y : ExcContext}
    {v code eip : Nat} (hy : Describes y c v code eip) : Describes y x.cpu v code eip where
  id := hy.id
  edi := hy.edi.trans (h.regs _ (by decide))
  esi := hy.esi.trans (h.regs _ (by decide))
  ebp := hy.ebp.trans (h.regs _ (by decide))
  ebx := hy.ebx.trans (h.regs _ (by decide))
  edx := hy.edx.trans (h.regs _ (by decide))
  ecx := hy.ecx.trans (h.regs _ (by decide))
  eax := hy.eax.trans (h.regs _ (by decide))
  gs := hy.gs.trans (congrFun h.segs _)
  fs := hy.fs.trans (congrFun h.segs _)
  es := hy.es.trans (congrFun h.segs _)
  ds := hy.ds.trans (congrFun h.segs _)
  error_code := hy.error_code
  eip := hy.eip

/-- Without an error code only the frame lies on the stack. -/
theorem entered_plain {x : Context} (hx : x.Proper) :
    Raised x x.frame (x.raise []) ∧ Entered (x.raise []) x.frame ∧ bottomOf (x.raise []) x.frame = x.cpu.regs .esp := by
  have hraised : Raised x x.frame (x.raise []) :=
    hx.raised (show ([] : List Nat).length ≤ 1 from Nat.zero_le 1) fun w hw => absurd hw List.not_mem_nil
  exact ⟨hraised, entered_of_raised hx hraised (Nat.le_succ 3), hraised.bottom⟩

/-- The interrupted program, with a result in `eax`. -/
def withEax (x : Context) (v : Nat) : Context := { x with cpu := x.cpu.set .eax v }

/-- The context is left as the processor found it, and the registers are those of `y`. -/
theorem resumes_of_left {x y : Context} {c c' : Cpu} {changed : List Reg} (hx : x.Proper) (h : Raised x x.frame c)
    (hl : Left changed c c' 0 x.frame) (hy : y.frame = x.frame) (hesp : y.cpu.regs .esp = x.cpu.regs .esp)
    (hsegs : y.cpu.segs = x.cpu.segs) (hcs : y.cs = x.cs) (hzf : y.cpu.zf = y.eflags.testBit 6)
    (hregs : ∀ r, r ≠ .esp → c'.regs r = y.cpu.regs r) : Resumes y (iret c') := by
  have hesp' : c'.regs .esp = c.regs .esp := hl.esp.trans (add32_eq (h.small .esp))
  refine resumes_iret (by rw [hcs]; exact hx.cs) hzf ?_ hregs (hl.segs.trans (h.segs.trans hsegs.symm)) ?_ ?_
  · rw [hesp', hesp]
    exact h.bottom
  · rw [hesp']
    exact h.small .esp
  · rw [hy]
    exact hl.frame

/-- The tables are installed in the memory of the interrupted program. -/
structure Running (l : Symbols) (a : Addresses) (gdt tss : Nat) (g : Gdt.Segmentation) (t : Setup) (x : Context) :
    Prop where
  placed : Placed true l a
  flat : ∃ sp, Gdt.Flat gdt tss sp g
  fits : tss + 104 < 2 ^ 32
  idtr : t.idtr = ⟨a.idt, 2047⟩
  table : ∀ v < IDT_ENTRIES, t.idt v = tableOf a v
  installed : Gdt.Installed x.cpu.mem gdt tss g
  lies : ∀ v < IDT_ENTRIES, Lies x.cpu.mem (add32 a.idt (8 * v)) (t.idt v).bytes
  proper : x.Proper

section
variable {l : Symbols} {a : Addresses} {gdt tss : Nat} {g : Gdt.Segmentation} {t : Setup} {x : Context} {e : Env}

/-- Every vector leads to its stub. -/
theorem Running.vectorTo (h : Running l a gdt tss g t x) {v : Nat} (hv : v < IDT_ENTRIES) (cpl : Nat) (soft : Bool) :
    vectorTo x.cpu.mem g.gdtr t.idtr cpl soft v = expected cpl soft v (target true l a v) := by
  obtain ⟨sp, hflat⟩ := h.flat
  rw [← h.placed.entered_short]
  exact vectorTo_entered hflat h.installed h.fits h.placed.syscall_handler h.idtr hv (h.table v hv) (h.lies v hv)
    cpl soft

theorem Running.exception (h : Running l a gdt tss g t x) {v code : Nat} (hv : v < 32) (hcode : code < 2 ^ 32)
    (hnone : ∀ c, e.callee l.exc_handler c = none) :
    X86.vectorTo x.cpu.mem g.gdtr t.idtr 0 false v = .gate ⟨exc_addr true l a v, 8, 0x0e, 0, true⟩ ∧
      ∃ m f, run e 0 (exc l v) ⟨x.raise (pushedCode v code), [], []⟩ = .inside m ∧ m.calls = [f] ∧
        f.target = l.exc_handler ∧ Describes (exc_context f.mem (read32 f.mem (add32 f.esp 4))) x.cpu v
          (if pushesCode v then code else 0) x.eip := by
  have hto := h.vectorTo (v := v) (by unfold IDT_ENTRIES; omega) 0 false
  unfold target at hto
  rw [if_neg (by omega), if_pos hv] at hto
  refine ⟨hto, ?_⟩
  -- the processor pushes a code for some vectors only; for the others the stub makes the room
  have hlen : (pushedCode v code).length ≤ 1 := by
    unfold pushedCode
    cases pushesCode v <;> simp
  have hword : ∀ w ∈ pushedCode v code, w < 2 ^ 32 := by
    unfold pushedCode
    intro w hw
    split at hw
    · rw [List.mem_singleton.1 hw]
      exact hcode
    · exact absurd hw List.not_mem_nil
  have hraised := h.proper.raised hlen hword
  have hentered := entered_of_raised h.proper hraised (by
    rw [List.length_append]
    exact Nat.add_le_add_right hlen 3)
  obtain ⟨m, f, hrun, hcalls, htarget, hdescribes⟩ := exc_inside (e := e) l hv hentered hnone
  exact ⟨m, f, hrun, hcalls, htarget, describes_of_raised hraised hdescribes⟩

theorem Running.request (h : Running l a gdt tss g t x) {n : Nat} (hn : n < 16)
    (hf : Cdecl e.callee (x.cpu.regs .esp)) (hret : ∀ t c, e.callee t c ≠ none) :
    X86.vectorTo x.cpu.mem g.gdtr t.idtr 0 false (32 + n) = .gate ⟨irq_addr true l a n, 8, 0x0e, 0, true⟩ ∧
      ∃ f c', run e 0 (irq l (32 + n)) ⟨x.raise [], [], []⟩ = .iret ⟨c', [], [f]⟩ ∧
        f.target = l.irq_handler_i686 ∧ read32 f.mem (add32 f.esp 4) = 32 + n ∧ Resumes x (iret c') := by
  have hto := h.vectorTo (v := 32 + n) (by unfold IDT_ENTRIES; omega) 0 false
  unfold target at hto
  rw [if_neg (by omega), if_neg (by omega), if_pos (by omega), Nat.add_sub_cancel_left] at hto
  refine ⟨hto, ?_⟩
  obtain ⟨hraised, hentered, hbottom⟩ := entered_plain h.proper
  obtain ⟨f, c', hrun, htarget, hirq, hleft⟩ := irq_run (e := e) l (32 + n) hentered (by rw [hbottom]; exact hf) hret
  refine ⟨f, c', hrun, htarget, hirq.trans (Nat.mod_eq_of_lt (by omega)), ?_⟩
  exact resumes_of_left h.proper hraised hleft rfl rfl rfl rfl h.proper.zf fun r hr =>
    (hleft.regs r hr List.not_mem_nil).trans (hraised.regs r hr)

theorem Running.call (h : Running l a gdt tss g t x) (hf : Cdecl e.callee (x.cpu.regs .esp))
    (hret : ∀ t c, e.callee t c ≠ none) (cpl : Nat) (hcpl : cpl ≤ 3) :
    X86.vectorTo x.cpu.mem g.gdtr t.idtr cpl true 0x80 = .gate ⟨a.syscall_handler, 8, 0x0e, 3, true⟩ ∧
      ∃ m, run e 0 (syscall_handler l) ⟨x.raise [], [], []⟩ = .iret m ∧
        Resumes (withEax x (m.cpu.regs .eax)) (iret m.cpu) := by
  have hto := h.vectorTo (v := 0x80) (by decide) cpl true
  have htarget : target true l a 0x80 = some (a.syscall_handler, 3) := rfl
  rw [htarget] at hto
  unfold expected at hto
  dsimp only at hto
  rw [if_neg (by omega)] at hto
  refine ⟨hto, ?_⟩
  obtain ⟨hraised, hentered, hbottom⟩ := entered_plain h.proper
  obtain ⟨m, hrun, hleft⟩ := syscall_run (e := e) l hentered (by rw [hbottom]; exact hf) hret
  -- `eax` is the one register the stub does not give back
  refine ⟨m, hrun, resumes_of_left h.proper hraised hleft rfl ?_ rfl rfl h.proper.zf fun r hr => ?_⟩
  · exact Cpu.set_ne _ _ (by decide)
  · by_cases heax : r = .eax
    · rw [heax]
      exact (Cpu.set_self ..).symm
    · refine (hleft.regs r hr fun hmem => heax (List.mem_singleton.1 hmem)).trans ?_
      exact (hraised.regs r hr).trans (Cpu.set_ne _ _ heax).symm

end

/-- In a kernel that `setup_gdt` and `setup_idt` prepared, with the stubs in place: an exception leads to the handler
with a description of the interrupted program; a request calls `irq_handler_i686` with its number, and afterwards the
program goes on with the registers it had; and so it does after a system call, with the result in `eax`. -/
theorem traps_delivered {l : Symbols} {a : Addresses} {gdt tss : Nat} {g₀ g : Gdt.Segmentation} {k t : Setup}
    {x : Context} (hp : Placed true l a) (htss : tss + 104 < 2 ^ 32)
    (hg : Gdt.setup_gdt gdt tss g₀ = .ok ((), g)) (ht : setup_idt a k = .ok ((), t))
    (hin : Gdt.Installed x.cpu.mem gdt tss g)
    (hlies : ∀ v < IDT_ENTRIES, Lies x.cpu.mem (add32 a.idt (8 * v)) (t.idt v).bytes) (hx : x.Proper) :
    (∀ e v code, v < 32 → code < 2 ^ 32 → (∀ c, e.callee l.exc_handler c = none) →
      X86.vectorTo x.cpu.mem g.gdtr t.idtr 0 false v = .gate ⟨exc_addr true l a v, 8, 0x0e, 0, true⟩ ∧
      ∃ m f, run e 0 (exc l v) ⟨x.raise (pushedCode v code), [], []⟩ = .inside m ∧ m.calls = [f] ∧
        f.target = l.exc_handler ∧ Describes (exc_context f.mem (read32 f.mem (add32 f.esp 4))) x.cpu v
          (if pushesCode v then code else 0) x.eip) ∧
    ∀ e, Cdecl e.callee (x.cpu.regs .esp) → (∀ t c, e.callee t c ≠ none) →
      (∀ n < 16, X86.vectorTo x.cpu.mem g.gdtr t.idtr 0 false (32 + n) = .gate ⟨irq_addr true l a n, 8, 0x0e, 0, true⟩ ∧
        ∃ f c', run e 0 (irq l (32 + n)) ⟨x.raise [], [], []⟩ = .iret ⟨c', [], [f]⟩ ∧
          f.target = l.irq_handler_i686 ∧ read32 f.mem (add32 f.esp 4) = 32 + n ∧ Resumes x (iret c')) ∧
      X86.vectorTo x.cpu.mem g.gdtr t.idtr 0 true 0x80 = .gate ⟨a.syscall_handler, 8, 0x0e, 3, true⟩ ∧
        ∃ m, run e 0 (syscall_handler l) ⟨x.raise [], [], []⟩ = .iret m ∧
          Resumes (withEax x (m.cpu.regs .eax)) (iret m.cpu) := by
  obtain ⟨g', hg', hflat⟩ := Gdt.setup_gdt_flat gdt tss g₀
  rw [hg] at hg'
  cases hg'
  -- what was in the table before plays no part, `setup_idt` writes every entry
  obtain ⟨t', ht', -, hidtr, -, htable⟩ := setup_idt_run hp.exc0_lt hp.irq0_lt k
  rw [ht] at ht'
  cases ht'
  have h : Running l a gdt tss g t x := ⟨hp, ⟨0, hflat⟩, htss, hidtr, htable, hin, hlies, hx⟩
  exact ⟨fun e v code hv hcode hnone => h.exception hv hcode hnone, fun e hf hret =>
    ⟨fun n hn => h.request hn hf hret, h.call hf hret 0 (Nat.zero_le 3)⟩⟩

/-- Memory with the two tables and the task state in it. -/
def tablesMem (idt : Nat → IdtEntryStruct) (gdt : Nat → Gdt.GdteStruct) (tss : Nat → Nat) : Nat → UInt8 := fun b =>
  if b < 0x200000 then 0
  else if b < 0x201000 then (idt ((b - 0x200000) / 8)).bytes.getD ((b - 0x200000) % 8) 0
  else if b < 0x202000 then (gdt ((b - 0x201000) / 8)).bytes.getD ((b - 0x201000) % 8) 0
  else byteOf (tss ((b - 0x202000) / 4)) ((b - 0x202000) % 4)

section
variable (idt : Nat → IdtEntryStruct) (gdt : Nat → Gdt.GdteStruct) (tss : Nat → Nat)

theorem tablesMem_idt {v : Nat} (hv : v < 256) :
    Lies (tablesMem idt gdt tss) (add32 0x200000 (8 * v)) (idt v).bytes := by
  refine lies_of_table (n := 256) (f := fun v => (idt v).bytes) (fun _ => rfl) (by decide) (fun i hi => ?_) hv
  unfold tablesMem
  rw [if_neg (by omega), if_pos (by omega), Nat.add_sub_cancel_left]

theorem tablesMem_gdt {i : Nat} (hi : i < 6) :
    Lies (tablesMem idt gdt tss) (add32 0x201000 (8 * i)) (gdt i).bytes := by
  refine lies_of_table (n := 6) (f := fun v => (gdt v).bytes) (fun _ => rfl) (by decide) (fun i hi => ?_) hi
  unfold tablesMem
  rw [if_neg (by omega), if_neg (by omega), if_pos (by omega), Nat.add_sub_cancel_left]

theorem tablesMem_tss (h : ∀ i < 25, tss i < 2 ^ 32) {i : Nat} (hi : i < 25) :
    read32 (tablesMem idt gdt tss) (add32 0x202000 (4 * i)) = tss i := by
  refine read32_of_table (n := 25) h (by decide) (fun i hi => ?_) hi
  unfold tablesMem
  rw [if_neg (by omega), if_neg (by omega), if_neg (by omega), Nat.add_sub_cancel_left]

end

/-- A program interrupted in the kernel. -/
def interrupted (mem : Nat → UInt8) : Context where
  cpu := ⟨fun r => if r = .esp then 0x7f000 else 7, fun _ => 0x10, false, mem⟩
  eip := 0x105000
  cs := 0x08
  eflags := 0x202

theorem interrupted_proper (mem : Nat → UInt8) : (interrupted mem).Proper where
  regs := by
    intro r
    show (if r = .esp then 0x7f000 else 7) < 2 ^ 32
    split <;> decide
  segs := by
    intro s
    show 0x10 < 2 ^ 16
    decide
  eip := show 0x105000 < 2 ^ 32 by decide
  cs := show 0x08 < 2 ^ 16 by decide
  eflags := show 0x202 < 2 ^ 32 by decide
  zf := show false = Nat.testBit 0x202 6 by decide

theorem traps_delivered_linked : ∃ g t x, Gdt.setup_gdt 0x201000 0x202000 blankSegments = .ok ((), g) ∧
    setup_idt linkedAt blankSetup = .ok ((), t) ∧
    (∀ e v code, v < 32 → code < 2 ^ 32 → (∀ c, e.callee linkedSymbols.exc_handler c = none) →
      X86.vectorTo x.cpu.mem g.gdtr t.idtr 0 false v = .gate ⟨exc_addr true linkedSymbols linkedAt v, 8, 0x0e, 0, true⟩ ∧
      ∃ m f, run e 0 (exc linkedSymbols v) ⟨x.raise (pushedCode v code), [], []⟩ = .inside m ∧ m.calls = [f] ∧
        f.target = linkedSymbols.exc_handler ∧ Describes (exc_context f.mem (read32 f.mem (add32 f.esp 4))) x.cpu v
          (if pushesCode v then code else 0) x.eip) ∧
    ∀ e, Cdecl e.callee (x.cpu.regs .esp) → (∀ t c, e.callee t c ≠ none) →
      (∀ n < 16, X86.vectorTo x.cpu.mem g.gdtr t.idtr 0 false (32 + n) =
          .gate ⟨irq_addr true linkedSymbols linkedAt n, 8, 0x0e, 0, true⟩ ∧
        ∃ f c', run e 0 (irq linkedSymbols (32 + n)) ⟨x.raise [], [], []⟩ = .iret ⟨c', [], [f]⟩ ∧
          f.target = linkedSymbols.irq_handler_i686 ∧ read32 f.mem (add32 f.esp 4) = 32 + n ∧ Resumes x (iret c')) ∧
      X86.vectorTo x.cpu.mem g.gdtr t.idtr 0 true 0x80 = .gate ⟨linkedAt.syscall_handler, 8, 0x0e, 3, true⟩ ∧
        ∃ m, run e 0 (syscall_handler linkedSymbols) ⟨x.raise [], [], []⟩ = .iret m ∧
          Resumes (withEax x (m.cpu.regs .eax)) (iret m.cpu) := by
  obtain ⟨t, ht, -⟩ := setup_idt_run linkedAt_placed.exc0_lt linkedAt_placed.irq0_lt blankSetup
  have hg : ∃ g, Gdt.setup_gdt 0x201000 0x202000 blankSegments = .ok ((), g) ∧ ∀ i < 25, g.tss i < 2 ^ 32 :=
    ⟨_, rfl, by decide +kernel⟩
  obtain ⟨g, hg, htss⟩ := hg
  refine ⟨g, t, interrupted (tablesMem t.idt g.gdt g.tss), hg, ht, ?_⟩
  exact traps_delivered linkedAt_placed (by decide) hg ht
    ⟨fun i hi => tablesMem_gdt _ _ _ hi, fun i hi => tablesMem_tss _ _ _ htss hi⟩ (fun v hv => tablesMem_idt _ _ _ hv)
    (interrupted_proper _)

end Ulmix.Idt

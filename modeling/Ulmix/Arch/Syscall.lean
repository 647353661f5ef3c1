import Ulmix.Arch.Entry
/-!
# System-call dispatch (`arch/i686/syscall.s`, `kernel/syscall.c`)

`syscall_handler` scales `eax` by 4 in 32 bits and loads from the table without
looking at `eax` first, so a number and all numbers that differ from it by a
multiple of 2^30 use one entry, and numbers behind the last entry load whatever
lies behind the table. `syscall_dispatch_closed` says for which numbers nothing
goes wrong.
-/
open Ulmix.Lib Ulmix.Lib.X86

namespace Ulmix.Entry

/-- The functions in the table. -/
inductive Sys where
  | sys_exit | sys_fork | sys_read | sys_write | sys_open | sys_close | sys_link | sys_unlink | sys_execve | sys_chdir
  | sys_stat | sys_lseek | sys_getpid | sys_fstat | sys_kill | sys_times | sys_brk | sys_uname | sys_gettimeofday
  | sys_getcwd
  deriving DecidableEq, Repr

/-- `nop`s in a row. -/
def nops (n : Nat) : List (Option Sys) := List.replicate n none

/-- `syscall_table`, with `none` for `nop`. -/
def syscall_table : List (Option Sys) := List.flatten
  [nops 1, [some .sys_exit, some .sys_fork, some .sys_read, some .sys_write, some .sys_open, some .sys_close],
    nops 2, [some .sys_link, some .sys_unlink, some .sys_execve, some .sys_chdir],
    nops 5, [some .sys_stat, some .sys_lseek, some .sys_getpid],
    nops 7, [some .sys_fstat], nops 8, [some .sys_kill], nops 5, [some .sys_times], nops 1, [some .sys_brk],
    nops 13, [some .sys_uname], nops 18, [some .sys_gettimeofday], nops 30, [some .sys_uname],
    nops 12, [some .sys_uname], nops 60, [some .sys_getcwd]]

theorem syscall_table_length : syscall_table.length = 184 := by decide +kernel

/-- The entry for a number, `none` where there is no function. -/
def entry (n : Nat) : Option Sys := (syscall_table[n]?).join

/-- The table lies in memory at its symbol, with the function addresses the linker chose. -/
structure Linked (l : Symbols) (addr : Sys → Nat) (mem : Nat → UInt8) : Prop where
  inside : l.syscall_table + 4 * 184 ≤ 2 ^ 32
  entries : ∀ n < 184, read32 mem (l.syscall_table + 4 * n) = (entry n).elim 0 addr
  nonzero : ∀ f, addr f ≠ 0

/-- The eleven words the context takes on the stack are apart from the table. -/
def StackApart (l : Symbols) (c : Cpu) : Prop :=
  ∀ b, l.syscall_table ≤ b → b < l.syscall_table + 4 * 184 → sub32 (c.regs .esp) b = 0 ∨ 4 * 11 < sub32 (c.regs .esp) b

/-- The first `n` stack arguments of a call. -/
def Call.args (f : Call) (n : Nat) : List Nat :=
  (List.range n).map fun j => read32 f.mem (add32 (add32 f.esp 4) (4 * j))

/-- A run from `c` stayed closed: all loads lie in the table, and the function the table has for `eax` is
called with the five argument registers, or nothing is called and the result is `-ENOSYS`. -/
structure Dispatched (l : Symbols) (addr : Sys → Nat) (c : Cpu) (o : Outcome) : Prop where
  loads : ∀ a ∈ o.machine.loads, l.syscall_table ≤ a ∧ a + 4 ≤ l.syscall_table + 4 * 184
  found : ∀ f, entry (c.regs .eax) = some f → ∃ call, o.machine.calls = [call] ∧ call.target = addr f ∧
    Call.args call 5 = [c.regs .ebx, c.regs .ecx, c.regs .edx, c.regs .esi, c.regs .edi]
  missing : entry (c.regs .eax) = none → o.machine.calls = [] ∧ ∃ m, o = .iret m ∧ m.cpu.regs .eax = ENOSYS_WORD

/-- The number, scaled in 32 bits, is in the table, and is its own number there or has no function. -/
def Closed (eax : Nat) : Prop := eax % 2 ^ 30 < 184 ∧ (eax < 184 ∨ entry (eax % 2 ^ 30) = none)

/-! ## One system call -/

/-- The call and what follows it load nothing and call nothing more. -/
theorem syscall_call_logs (e : Env) (m : Machine) :
    (run e 0 (.call_reg .edi :: (syscall_leave ++ [.iret])) m).machine.loads = m.loads ∧
      (run e 0 (.call_reg .edi :: (syscall_leave ++ [.iret])) m).machine.calls =
        (m.enter e (m.cpu.regs .edi)).calls := by
  cases hcallee : e.callee (m.cpu.regs .edi) (m.enter e (m.cpu.regs .edi)).cpu with
  | none =>
    rw [run_call_reg_none _ hcallee]
    exact ⟨rfl, rfl⟩
  | some c =>
    rw [run_call_reg_some _ hcallee]
    exact ⟨rfl, rfl⟩

/-- The five registers saved last are the arguments. -/
theorem syscall_args {call : Call} (bottom : Nat) {regs : Reg → Nat} (segs : Seg → Nat)
    (hesp : add32 call.esp 4 = sub32 bottom (4 * (syscallFrame regs segs []).length))
      (h : OnStack bottom call.mem (syscallFrame regs segs [])) :
    Call.args call 5 = [regs .ebx, regs .ecx, regs .edx, regs .esi, regs .edi] := by
  have hget : ∀ j v, (syscallFrame regs segs [])[j]? = some (.word v) →
      read32 call.mem (add32 (add32 call.esp 4) (4 * j)) = v := by
    intro j v hj
    rw [hesp]
    exact h.get (show 4 * 11 < 2 ^ 32 by decide) hj
  have hargs : Call.args call 5 = [0, 1, 2, 3, 4].map fun j => read32 call.mem (add32 (add32 call.esp 4) (4 * j)) := by
    unfold Call.args
    congr 1
  rw [hargs]
  simp only [List.map_cons, List.map_nil]
  rw [hget 0 _ rfl, hget 1 _ rfl, hget 2 _ rfl, hget 3 _ rfl, hget 4 _ rfl]

section
variable {e : Env} {l : Symbols} {addr : Sys → Nat} {c : Cpu}

/-- The outcome for the word `v` found in the table's place for `eax`. -/
structure Looked (l : Symbols) (c : Cpu) (v : Nat) (o : Outcome) : Prop where
  loads : o.machine.loads = [entryAddr l (c.regs .eax)]
  zero : v = 0 → o.machine.calls = [] ∧ ∃ m, o = .iret m ∧ m.cpu.regs .eax = ENOSYS_WORD
  nonzero : v ≠ 0 → ∃ call, o.machine.calls = [call] ∧ call.target = v ∧
    Call.args call 5 = [c.regs .ebx, c.regs .ecx, c.regs .edx, c.regs .esi, c.regs .edi]

theorem syscall_looked (hregs : ∀ r, c.regs r < 2 ^ 32) (hsegs : ∀ s, c.segs s < 2 ^ 16) (l : Symbols) :
    ∃ v, Looked l c v (run e 0 (syscall_handler l) ⟨c, [], []⟩) ∧
      (StackApart l c → l.syscall_table ≤ entryAddr l (c.regs .eax) →
        entryAddr l (c.regs .eax) + 4 ≤ l.syscall_table + 4 * 184 → l.syscall_table + 4 * 184 ≤ 2 ^ 32 →
        v = read32 c.mem (entryAddr l (c.regs .eax))) := by
  have h0 : Tracks 11 (c.regs .esp) c.mem c ⟨c.regs, c.segs, []⟩ := .start hregs hsegs (by decide)
  obtain ⟨c₁, hrun, h₁⟩ := syscall_enter_run e l h0 (by decide) (by decide)
  refine ⟨read32 c₁.mem (entryAddr l (c.regs .eax)), ?_, fun hs hlo hhi hin => ?_⟩
  · have h₂ := h₁.set (r := .edi) (by decide) (read32_lt c₁.mem (entryAddr l (c.regs .eax)))
    rw [hrun]
    let m₂ : Machine := ⟨c₁.set .edi (read32 c₁.mem (entryAddr l (c.regs .eax))), [entryAddr l (c.regs .eax)], []⟩
    have hedi : m₂.cpu.regs .edi = read32 c₁.mem (entryAddr l (c.regs .eax)) := Cpu.set_self ..
    by_cases hz : m₂.cpu.regs .edi = 0
    · obtain ⟨c', hrun', heax, -⟩ := syscall_missing e (m := m₂) h₂ (by decide) hz
      refine ⟨?_, fun _ => ⟨?_, _, hrun', ?_⟩, ?_⟩
      · exact congrArg (fun o => o.machine.loads) hrun'
      · exact congrArg (fun o => o.machine.calls) hrun'
      · exact heax
      · exact fun hv => absurd (hedi.symm.trans hz) hv
    · obtain ⟨c₃, regs₃, segs₃, hedi₃, hrun', h₃⟩ := syscall_found e (m := m₂) h₂ (by decide) hz
      let m₃ : Machine := { m₂ with cpu := c₃ }
      obtain ⟨hloads, hcalls⟩ := syscall_call_logs e m₃
      rw [← hrun'] at hloads hcalls
      rw [Machine.enter_calls] at hcalls
      refine ⟨hloads, fun hv => absurd (hedi.trans hv) hz, fun _ => ⟨_, hcalls, ?_, ?_⟩⟩
      · exact hedi₃.trans hedi
      · have hshort : (syscallFrame c.regs c.segs []).length < 12 := Nat.lt_succ_self 11
        have hdeep : Tracks 12 (c.regs .esp) c.mem m₃.cpu ⟨regs₃, segs₃, syscallFrame c.regs c.segs []⟩ :=
          h₃.deepen (Nat.le_succ 11)
        obtain ⟨hesp, hp⟩ := hdeep.enter (by decide) hshort e (m₃.cpu.regs .edi)
        have hon : OnStack (c.regs .esp) (m₃.enter e (m₃.cpu.regs .edi)).cpu.mem (syscallFrame c.regs c.segs []) :=
            hp.stack.2
        refine syscall_args (c.regs .esp) c.segs ?_ ?_
        · dsimp only at hesp ⊢
          exact hesp
        · dsimp only
          exact hon
  · have hkept : ∀ b, entryAddr l (c.regs .eax) ≤ b → b < entryAddr l (c.regs .eax) + 4 → c₁.mem b = c.mem b :=
      fun b hb hb' => h₁.kept b (by omega) (hs b (by omega) (by omega))
    exact read32_congr (by omega) hkept

/-- A 32-bit product by 4 keeps the number modulo 2^30. -/
theorem entryAddr_eq (l : Symbols) (n : Nat) :
    entryAddr l n = (l.syscall_table + 4 * (n % 2 ^ 30)) % 2 ^ 32 := by
  unfold entryAddr add32
  omega

/-- For a table linked in place and a stack apart from it: the dispatch is closed for exactly the numbers
whose lower 30 bits are a number of the table, and that number itself or one without a function. -/
theorem syscall_dispatch_closed (hregs : ∀ r, c.regs r < 2 ^ 32) (hsegs : ∀ s, c.segs s < 2 ^ 16)
    (hl : Linked l addr c.mem) (hs : StackApart l c) :
    Dispatched l addr c (run e 0 (syscall_handler l) ⟨c, [], []⟩) ↔ Closed (c.regs .eax) := by
  have hin := hl.inside
  obtain ⟨v, hlook, hv⟩ := syscall_looked (e := e) hregs hsegs l
  have haddr := entryAddr_eq l (c.regs .eax)
  have hbig : ¬ c.regs .eax < 184 → entry (c.regs .eax) = none := by
    intro h
    unfold entry
    rw [List.getElem?_eq_none (by rw [syscall_table_length]; omega)]
    rfl
  by_cases hk : c.regs .eax % 2 ^ 30 < 184
  · have hplace : entryAddr l (c.regs .eax) = l.syscall_table + 4 * (c.regs .eax % 2 ^ 30) := by
      rw [haddr, Nat.mod_eq_of_lt (by omega)]
    have hval : v = (entry (c.regs .eax % 2 ^ 30)).elim 0 addr := by
      rw [hv hs (by omega) (by omega) hin, hplace]
      exact hl.entries _ hk
    have hloads : ∀ a ∈ (run e 0 (syscall_handler l) ⟨c, [], []⟩).machine.loads,
        l.syscall_table ≤ a ∧ a + 4 ≤ l.syscall_table + 4 * 184 := by
      intro a ha
      rw [hlook.loads, List.mem_singleton] at ha
      omega
    constructor
    · intro h
      refine ⟨hk, or_iff_not_imp_left.2 fun hout => ?_⟩
      -- an alias that has a function would be called
      by_contra hsome
      obtain ⟨f, hf⟩ := Option.ne_none_iff_exists'.1 hsome
      have hne : v ≠ 0 := by
        rw [hval, hf]
        exact hl.nonzero f
      obtain ⟨call, hcalls, -⟩ := hlook.nonzero hne
      rw [(h.missing (hbig hout)).1] at hcalls
      cases hcalls
    · rintro ⟨-, halias⟩
      have hsame : entry (c.regs .eax % 2 ^ 30) = entry (c.regs .eax) := by
        rcases halias with hsmall | hnone
        · rw [Nat.mod_eq_of_lt (by omega)]
        · by_cases hsmall : c.regs .eax < 184
          · rw [Nat.mod_eq_of_lt (by omega)]
          · rw [hnone, hbig hsmall]
      rw [hsame] at hval
      refine ⟨hloads, fun f hf => ?_, fun hnone => ?_⟩
      · rw [hf] at hval
        have hne : v ≠ 0 := by
          rw [hval]
          exact hl.nonzero f
        obtain ⟨call, hcalls, htarget, hargs⟩ := hlook.nonzero hne
        exact ⟨call, hcalls, htarget.trans hval, hargs⟩
      · rw [hnone] at hval
        exact hlook.zero hval
  · constructor
    · intro h
      -- the load itself is outside the table
      have hload := h.loads (entryAddr l (c.regs .eax)) (by rw [hlook.loads]; exact List.mem_singleton_self _)
      omega
    · rintro ⟨hsmall, -⟩
      exact absurd hsmall hk

end

/-! ## Two numbers -/

/-- The table at 0x10000, with all functions at address 1; the rest of memory is zero. -/
def tableMem : Nat → UInt8 := fun b =>
  if 0x10000 ≤ b ∧ b < 0x10000 + 4 * 184 ∧ (b - 0x10000) % 4 = 0 ∧ (entry ((b - 0x10000) / 4)).isSome then 1 else 0

def tableAt : Symbols := ⟨16, 32, 0x10000⟩

def callerCpu (eax : Nat) : Cpu := ⟨fun | .eax => eax | .esp => 0x1000 | _ => 7, fun _ => 0x23, false, tableMem⟩

theorem tableMem_linked : Linked tableAt (fun _ => 1) tableMem where
  inside := by decide
  entries := by decide +kernel
  nonzero := fun _ => by decide

theorem callerCpu_apart (eax : Nat) : StackApart tableAt (callerCpu eax) := by
  intro b hb hb'
  have hlo : 0x10000 ≤ b := hb
  have hhi : b < 0x10000 + 4 * 184 := hb'
  have hfar : 4 * 11 < sub32 0x1000 b := by
    unfold sub32
    omega
  exact .inr hfar

theorem callerCpu_regs (eax : Nat) (h : eax < 2 ^ 32) (r : Reg) : (callerCpu eax).regs r < 2 ^ 32 := by
  have hesp : 0x1000 < 2 ^ 32 := by decide
  have hother : 7 < 2 ^ 32 := by decide
  cases r with
  | eax => exact h
  | esp => exact hesp
  | _ => exact hother

theorem callerCpu_segs (eax : Nat) (s : Seg) : (callerCpu eax).segs s < 2 ^ 16 :=
  (by decide : 0x23 < 2 ^ 16)

theorem syscall_dispatch_getpid :
    Dispatched tableAt (fun _ => 1) (callerCpu 20) (run returning 0 (syscall_handler tableAt) ⟨callerCpu 20, [], []⟩) :=
  (syscall_dispatch_closed (callerCpu_regs _ (by decide)) (callerCpu_segs _) tableMem_linked (callerCpu_apart _)).2
    ⟨by decide, .inl (by decide)⟩

/-- 2^30 + 1 is no number of the table, and `sys_exit` is called. -/
theorem syscall_dispatch_alias :
    ¬ Dispatched tableAt (fun _ => 1) (callerCpu 0x40000001)
      (run returning 0 (syscall_handler tableAt) ⟨callerCpu 0x40000001, [], []⟩) := by
  intro h
  obtain ⟨v, hlook, hv⟩ := syscall_looked (e := returning) (callerCpu_regs 0x40000001 (by decide))
      (callerCpu_segs _) tableAt
  have haddr : entryAddr tableAt ((callerCpu 0x40000001).regs .eax) = 0x10004 := by decide
  have hone : v = 1 := by
    rw [hv (callerCpu_apart _) (by rw [haddr]; decide) (by rw [haddr]; decide) (by decide), haddr]
    exact tableMem_linked.entries 1 (by decide)
  obtain ⟨call, hcalls, -⟩ := hlook.nonzero (by rw [hone]; decide)
  have hnone : entry ((callerCpu 0x40000001).regs .eax) = none := by decide +kernel
  rw [(h.missing hnone).1] at hcalls
  cases hcalls

end Ulmix.Entry

import Ulmix.Arch.Syscall
import Ulmix.Userspace.Stdlib
/-!
# System calls from the library's side (`userspace/stdlib/syscalls.c`)

`__syscall` puts the number and the arguments into registers and makes of the
kernel's answer a result and `errno`. Through `syscall_handler` it reaches
the kernel's function of the same name with the same arguments
(`wrapper_answered`). What these return today is an error, for all but two.
-/
open Ulmix.Lib Ulmix.Lib.X86 Ulmix.Entry

namespace Ulmix.Syscalls

/-! ## The kernel's functions -/

def ENOSYS : Int := 38

/-- What the functions of the table return; `sys_exit` returns nothing. -/
def sys_result : Sys → Option Int
  | .sys_exit => none
  | .sys_getpid => some 0
  | .sys_fork | .sys_read | .sys_write | .sys_open | .sys_close | .sys_link | .sys_unlink | .sys_execve | .sys_chdir
  | .sys_stat | .sys_lseek | .sys_fstat | .sys_kill | .sys_times | .sys_brk | .sys_uname | .sys_gettimeofday
  | .sys_getcwd => some (-ENOSYS)

/-- The functions return, with their result in `eax`. -/
def Returns (e : Env) (addr : Sys → Nat) : Prop :=
  ∀ f c, ∃ c', e.callee (addr f) c = some c' ∧ ∀ r, sys_result f = some r → c'.regs .eax = (r % 2 ^ 32).toNat

/-! ## The library's functions -/

/-- The calls of `syscalls.c`, with their arguments as words. -/
inductive Wrapper where
  | _exit (err : Nat)
  | fork
  | read (fd buf len : Nat)
  | write (fd buf len : Nat)
  | open (path flags : Nat)
  | close (fd : Nat)
  | waitpid (pid wstatus options : Nat)
  | chdir (path : Nat)
  | kdebug (request arg1 arg2 : Nat)
  | getpid
  | uname (buf : Nat)
  | getcwd (buf size : Nat)
  | execve (filename argv envp : Nat)
  deriving DecidableEq, Repr

/-- The number and the arguments a wrapper hands to `__syscall`. -/
def Wrapper.request : Wrapper → Nat × List Nat
  | ._exit err => (1, [err, 0, 0, 0])
  | .fork => (2, [0, 0, 0, 0])
  | .read fd buf len => (3, [fd, buf, len, 0])
  | .write fd buf len => (4, [fd, buf, len, 0])
  | .open path flags => (5, [path, flags, 0, 0])
  | .close fd => (6, [fd, 0, 0, 0])
  | .waitpid pid wstatus options => (7, [pid, wstatus, options, 0])
  | .chdir path => (12, [path, 0, 0, 0])
  | .kdebug request arg1 arg2 => (17, [request, arg1, arg2, 0])
  | .getpid => (20, [0, 0, 0, 0])
  | .uname buf => (109, [buf, 0, 0, 0])
  | .getcwd buf size => (183, [buf, size, 0, 0])
  | .execve filename argv envp => (11, [filename, argv, envp, 0])

/-- The registers at `int $0x80`. -/
structure Requested (w : Wrapper) (c : Cpu) : Prop where
  id : c.regs .eax = w.request.1
  args : [c.regs .ebx, c.regs .ecx, c.regs .edx, c.regs .esi] = w.request.2

/-- What `__syscall` returns when `eax` comes back, and `actual_errno` then. -/
def __syscall (eax : Nat) (actual_errno : Int) : Int × Int :=
  let ret := Stdlib.int32 eax
  if ret < 0 then (-1, Stdlib.int32 (-ret)) else (ret, actual_errno)

/-- What the wrapper returns, and `actual_errno`: `getcwd` makes a pointer of the result. -/
def Wrapper.returns (w : Wrapper) (eax : Nat) (actual_errno : Int) : Int × Int :=
  let r := __syscall eax actual_errno
  match w with
  | .getcwd buf _ => (if r.1 = 0 then buf else 0, r.2)
  | _ => r

/-- The kernel's function for a wrapper. -/
def Wrapper.sys : Wrapper → Option Sys
  | ._exit _ => some .sys_exit
  | .fork => some .sys_fork
  | .read .. => some .sys_read
  | .write .. => some .sys_write
  | .open .. => some .sys_open
  | .close _ => some .sys_close
  | .chdir _ => some .sys_chdir
  | .getpid => some .sys_getpid
  | .uname _ => some .sys_uname
  | .getcwd .. => some .sys_getcwd
  | .execve .. => some .sys_execve
  | .waitpid .. | .kdebug .. => none

/-! ## Through the kernel -/

/-- How a system call ends: the function was called with the arguments and its result is in `eax`, or there is none. -/
structure Answered (addr : Sys → Nat) (c : Cpu) (m : Machine) : Prop where
  found : ∀ f, entry (c.regs .eax) = some f → (∃ call, m.calls = [call] ∧ call.target = addr f ∧
    Call.args call 5 = [c.regs .ebx, c.regs .ecx, c.regs .edx, c.regs .esi, c.regs .edi]) ∧
    ∀ r, sys_result f = some r → m.cpu.regs .eax = (r % 2 ^ 32).toNat
  missing : entry (c.regs .eax) = none → m.calls = [] ∧ m.cpu.regs .eax = ENOSYS_WORD

section
variable {e : Env} {l : Symbols} {addr : Sys → Nat} {c : Cpu}

theorem syscall_answered (hregs : ∀ r, c.regs r < 2 ^ 32) (hsegs : ∀ s, c.segs s < 2 ^ 16)
    (hl : Linked l addr c.mem) (hs : StackApart l c) (hlt : c.regs .eax < 184) (hf : Cdecl e.callee (c.regs .esp))
    (hk : Returns e addr) :
    ∃ m, run e 0 (syscall_handler l) ⟨c, [], []⟩ = .iret m ∧ Answered addr c m := by
  have hin := hl.inside
  obtain ⟨v, hlook, hv⟩ := syscall_looked (e := e) hregs hsegs l
  have hplace : entryAddr l (c.regs .eax) = l.syscall_table + 4 * c.regs .eax := by
    rw [entryAddr_eq, Nat.mod_eq_of_lt (show c.regs .eax < 2 ^ 30 by omega), Nat.mod_eq_of_lt (by omega)]
  have hval : v = (entry (c.regs .eax)).elim 0 addr := by
    rw [hv hs (by omega) (by omega) hin, hplace]
    exact hl.entries _ hlt
  cases hentry : entry (c.regs .eax) with
  | none =>
    rw [hentry] at hval
    obtain ⟨hcalls, m, hrun, heax⟩ := hlook.zero hval
    rw [hrun] at hcalls
    exact ⟨m, hrun, fun f hsome => (Option.some_ne_none f (hsome.symm.trans hentry)).elim, fun _ => ⟨hcalls, heax⟩⟩
  | some f =>
    rw [hentry] at hval
    have hne : v ≠ 0 := by
      rw [hval]
      exact hl.nonzero f
    obtain ⟨call, hcalls, htarget, hargs⟩ := hlook.nonzero hne
    -- the eleven words `syscall_handler` saves, and the return address of the call
    have h0 : Tracks 12 (c.regs .esp) c.mem c ⟨c.regs, c.segs, []⟩ := .start hregs hsegs (by decide)
    obtain ⟨c₁, hrun₁, h₁⟩ := syscall_enter_run e l h0 (by decide) (by decide)
    have h₂ := h₁.set (r := .edi) (by decide) (read32_lt c₁.mem (entryAddr l (c.regs .eax)))
    let m₂ : Machine := ⟨c₁.set .edi (read32 c₁.mem (entryAddr l (c.regs .eax))), [entryAddr l (c.regs .eax)], []⟩
    by_cases hz : m₂.cpu.regs .edi = 0
    · -- without a function nothing would have been called
      obtain ⟨c', hrun', -, -⟩ := syscall_missing e (m := m₂) h₂ (by decide) hz
      rw [hrun₁, hrun'] at hcalls
      exact absurd hcalls (by simp [Outcome.machine, m₂])
    · obtain ⟨c₃, regs₃, segs₃, -, hrun', h₃⟩ := syscall_found e (m := m₂) h₂ (by decide) hz
      let m₃ : Machine := { m₂ with cpu := c₃ }
      have hedi : c₃.regs .edi = addr f := by
        have hmade := (syscall_call_logs e m₃).2
        rw [Machine.enter_calls] at hmade
        rw [hrun₁, hrun', hmade] at hcalls
        cases hcalls
        exact htarget.trans hval
      obtain ⟨c₄, hc₄, hresult⟩ := hk f (m₃.enter e (addr f)).cpu
      have hc₄' : e.callee (c₃.regs .edi) (m₃.enter e (c₃.regs .edi)).cpu = some c₄ := by
        rw [hedi]
        exact hc₄
      have hshort : (syscallFrame c.regs c.segs []).length < 12 := Nat.lt_succ_self 11
      -- the function behind the address keeps to the calling convention, and `eax` is its result
      obtain ⟨-, -, -, h₄⟩ := Tracks.call (m := m₃) h₃ (by decide) hshort hf hc₄'
      obtain ⟨c₅, hrun₅, h₅⟩ := h₄.run e [.iret] syscall_leave (m := { m₃.enter e (c₃.regs .edi) with cpu := c₄ })
        (by decide) (syscall_leave_steps c.regs c₄.regs c.segs segs₃ []) hshort.le
      have hcall : run e 0 (.call_reg .edi :: (syscall_leave ++ [.iret])) m₃ =
          run e 0 (syscall_leave ++ [.iret]) { m₃.enter e (c₃.regs .edi) with cpu := c₄ } :=
        run_call_reg_some _ hc₄'
      have hwhole := (hrun₁.trans hrun').trans (hcall.trans hrun₅)
      refine ⟨_, hwhole, fun g hg => ?_, fun hnone => (Option.some_ne_none f (hentry.symm.trans hnone)).elim⟩
      have hfg : f = g := Option.some.inj (hentry.symm.trans hg)
      subst hfg
      refine ⟨⟨call, ?_, htarget.trans hval, hargs⟩, fun r hr => ?_⟩
      · rw [hwhole] at hcalls
        exact hcalls
      · have heax : syscallPop c₄.regs c.regs .eax = c₄.regs .eax := rfl
        exact ((h₅.regs .eax (by decide)).trans heax).trans (hresult r hr)

/-- The table has the kernel's function of the wrapper's name, or none, under the wrapper's number. -/
theorem Wrapper.entry_eq (w : Wrapper) : entry w.request.1 = w.sys := by
  cases w <;> rfl

theorem Wrapper.id_lt (w : Wrapper) : w.request.1 < 184 := by
  cases w <;> simp [request]

theorem args_take (f : Call) : Call.args f 4 = (Call.args f 5).take 4 := by
  unfold Call.args
  rw [← List.map_take]
  rfl

theorem syscall_error (actual_errno : Int) : __syscall ENOSYS_WORD actual_errno = (-1, ENOSYS) := by
  have hret : Stdlib.int32 ENOSYS_WORD = -38 := by decide +kernel
  unfold __syscall
  rw [hret]
  rfl

/-- What a wrapper returns today, with `actual_errno`. -/
def Wrapper.today (w : Wrapper) (actual_errno : Int) : Int × Int :=
  match w with
  | .getpid => (0, actual_errno)
  | .getcwd .. => (0, ENOSYS)
  | _ => (-1, ENOSYS)

theorem Wrapper.returns_error {w : Wrapper} (hpid : w ≠ .getpid) (actual_errno : Int) :
    w.returns ENOSYS_WORD actual_errno = w.today actual_errno := by
  have hone : ¬ (-1 : Int) = 0 := by decide
  unfold returns
  rw [syscall_error]
  cases w with
  | getpid => exact absurd rfl hpid
  | getcwd buf size =>
    show ((if (-1 : Int) = 0 then (buf : Int) else 0), ENOSYS) = (0, ENOSYS)
    rw [if_neg hone]
  | _ => rfl

/-- A library call, from `int $0x80` to its result: it reaches the kernel's function of its name, if there is one, with
its arguments in their order, and comes back; except for `_exit` and `getpid` the result says `ENOSYS`. -/
theorem wrapper_answered {w : Wrapper} (hw : Requested w c) (hregs : ∀ r, c.regs r < 2 ^ 32)
    (hsegs : ∀ s, c.segs s < 2 ^ 16) (hl : Linked l addr c.mem) (hs : StackApart l c)
    (hf : Cdecl e.callee (c.regs .esp)) (hk : Returns e addr) (actual_errno : Int) :
    ∃ m, run e 0 (syscall_handler l) ⟨c, [], []⟩ = .iret m ∧
      (∀ f, w.sys = some f → ∃ call, m.calls = [call] ∧ call.target = addr f ∧ Call.args call 4 = w.request.2) ∧
      (w.sys = none → m.calls = []) ∧
      ((∀ err, w ≠ ._exit err) → w.returns (m.cpu.regs .eax) actual_errno = w.today actual_errno) := by
  have hlt : c.regs .eax < 184 := by
    rw [hw.id]
    exact w.id_lt
  obtain ⟨m, hrun, hans⟩ := syscall_answered hregs hsegs hl hs hlt hf hk
  have hentry : entry (c.regs .eax) = w.sys := by
    rw [hw.id]
    exact w.entry_eq
  refine ⟨m, hrun, fun f hsys => ?_, fun hsys => ?_, fun hexit => ?_⟩
  · obtain ⟨⟨call, hcalls, htarget, hargs⟩, -⟩ := hans.found f (hentry.trans hsys)
    refine ⟨call, hcalls, htarget, ?_⟩
    rw [args_take, hargs, ← hw.args]
    rfl
  · exact (hans.missing (hentry.trans hsys)).1
  · have herror : w ≠ .getpid → m.cpu.regs .eax = ENOSYS_WORD := by
      intro hpid
      cases hsys : w.sys with
      | none => exact (hans.missing (hentry.trans hsys)).2
      | some f =>
        refine ((hans.found f (hentry.trans hsys)).2 (-ENOSYS) ?_).trans (by decide)
        cases w with
        | _exit err => exact absurd rfl (hexit err)
        | getpid => exact absurd rfl hpid
        | waitpid _ _ _ | kdebug _ _ _ => cases hsys
        | _ => cases hsys; rfl
    by_cases hpid : w = .getpid
    · subst hpid
      rw [(hans.found .sys_getpid (hentry.trans rfl)).2 0 rfl]
      rfl
    · rw [herror hpid]
      exact w.returns_error hpid actual_errno

end

/-! ## A kernel with its functions -/

def kernelAddr (f : Sys) : Nat := if f = .sys_getpid then 0x1200 else 0x1100

/-- The table at 0x10000. -/
def kernelMem : Nat → UInt8 := fun b =>
  if b < 0x10000 then 0
  else byteOf ((entry ((b - 0x10000) / 4)).elim 0 kernelAddr) ((b - 0x10000) % 4)

def kernelEnv : Env where
  callee t c := some ((c.set .esp (add32 (c.regs .esp) 4)).set .eax (if t = 0x1200 then 0 else ENOSYS_WORD))
  zero_extends := true
  return_addr := 0

theorem kernelMem_linked : Linked tableAt kernelAddr kernelMem where
  inside := by decide
  entries := by decide +kernel
  nonzero := by
    intro f
    unfold kernelAddr
    split <;> decide

theorem kernelEnv_cdecl (bottom : Nat) : Cdecl kernelEnv.callee bottom where
  regs := by
    rintro t c c' h r hr
    cases h
    have hsaved : ∀ r ∈ [Reg.ebx, .esi, .edi, .ebp], r ≠ .eax ∧ r ≠ .esp := by decide
    exact (Cpu.set_ne _ _ (hsaved r hr).1).trans (Cpu.set_ne _ _ (hsaved r hr).2)
  esp := by
    rintro t c c' h
    cases h
    exact (Cpu.set_ne _ _ (by decide)).trans (Cpu.set_self ..)
  segs := by
    rintro t c c' h
    cases h
    rfl
  stack := by
    rintro t c c' h b _ _
    cases h
    rfl
  words := by
    rintro t c c' h hc r
    cases h
    by_cases hr : r = .eax
    · rw [hr, Cpu.set_self]
      split <;> decide
    · rw [Cpu.set_ne _ _ hr]
      by_cases hesp : r = .esp
      · rw [hesp, Cpu.set_self]
        exact add32_lt _ _
      · rw [Cpu.set_ne _ _ hesp]
        exact hc r

theorem kernelEnv_returns : Returns kernelEnv kernelAddr := by
  intro f c
  refine ⟨_, rfl, fun r hr => ?_⟩
  rw [Cpu.set_self]
  cases f with
  | sys_exit => cases hr
  | _ => cases hr; decide

/-- `read(3, 0x5000, 16)` at `int $0x80`. -/
def readingCpu : Cpu where
  regs := fun | .eax => 3 | .ebx => 3 | .ecx => 0x5000 | .edx => 16 | .esi => 0 | .esp => 0x1000 | _ => 7
  segs _ := 0x23
  zf := false
  mem := kernelMem

theorem readingCpu_apart : StackApart tableAt readingCpu := by
  intro b hb hb'
  have hlo : 0x10000 ≤ b := hb
  have hhi : b < 0x10000 + 4 * 184 := hb'
  have hfar : 4 * 11 < sub32 0x1000 b := by
    unfold sub32
    omega
  exact .inr hfar

theorem wrapper_answered_read : ∃ m, run kernelEnv 0 (syscall_handler tableAt) ⟨readingCpu, [], []⟩ = .iret m ∧
    (∀ f, some Sys.sys_read = some f → ∃ call, m.calls = [call] ∧ call.target = kernelAddr f ∧
      Call.args call 4 = [3, 0x5000, 16, 0]) ∧
    (some Sys.sys_read = none → m.calls = []) ∧
    ((∀ err, Wrapper.read 3 0x5000 16 ≠ ._exit err) →
      (Wrapper.read 3 0x5000 16).returns (m.cpu.regs .eax) 0 = (-1, 38)) :=
  wrapper_answered (w := .read 3 0x5000 16) ⟨rfl, rfl⟩ (by intro r; cases r <;> decide)
    (fun _ => show 0x23 < 2 ^ 16 by decide) kernelMem_linked readingCpu_apart (kernelEnv_cdecl _) kernelEnv_returns 0

end Ulmix.Syscalls

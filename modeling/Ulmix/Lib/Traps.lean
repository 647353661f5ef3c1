import Ulmix.Lib.Descriptors
/-!
# Interrupting a program and resuming it

At an unchanged privilege the processor pushes the flags, the code segment and the
instruction pointer on the stack in use, and for some exceptions an error code;
`iret` takes the three off again.
-/

namespace Ulmix.Lib.X86

/-- A program as it is interrupted. -/
structure Context where
  cpu : Cpu
  eip : Nat
  cs : Nat
  eflags : Nat

/-- The words on top of the stack, the first one last. -/
def Cpu.pushAll (c : Cpu) : List Nat → Cpu
  | [] => c
  | w :: ws => (c.pushAll ws).push w

/-- The words `iret` takes off. -/
def Context.frame (x : Context) : List Nat := [x.eip, x.cs, x.eflags]

/-- The processor at the start of a handler; `code` is the error code, if there is one. -/
def Context.raise (x : Context) (code : List Nat) : Cpu := x.cpu.pushAll (code ++ x.frame)

def iret (c : Cpu) : Context where
  cpu := { c.drop.drop.drop with zf := c.drop.drop.top.testBit 6 }
  eip := c.top
  cs := c.drop.top % 65536
  eflags := c.drop.drop.top

/-- All registers have their width, and the zero flag is the one in the flags. -/
structure Context.Proper (x : Context) : Prop where
  regs : ∀ r, x.cpu.regs r < 2 ^ 32
  segs : ∀ s, x.cpu.segs s < 2 ^ 16
  eip : x.eip < 2 ^ 32
  cs : x.cs < 2 ^ 16
  eflags : x.eflags < 2 ^ 32
  zf : x.cpu.zf = x.eflags.testBit 6

/-- `y` goes on where `x` was interrupted, with the same registers and flags. -/
structure Resumes (x y : Context) : Prop where
  eip : y.eip = x.eip
  cs : y.cs = x.cs
  eflags : y.eflags = x.eflags
  regs : y.cpu.regs = x.cpu.regs
  segs : y.cpu.segs = x.cpu.segs
  zf : y.cpu.zf = x.cpu.zf

theorem Tracks.pushAll {depth bottom : Nat} {mem : Nat → UInt8} {c : Cpu} {a : ListCpu}
    (h : Tracks depth bottom mem c a) (hb : 4 * depth < 2 ^ 32) :
    ∀ {ws : List Nat}, a.stack.length + ws.length ≤ depth → (∀ w ∈ ws, w < 2 ^ 32) →
      Tracks depth bottom mem (c.pushAll ws) { a with stack := ws.map .word ++ a.stack }
  | [], _, _ => h
  | w :: ws, hd, hw => by
    rw [List.length_cons] at hd
    have hws := h.pushAll hb (by omega) fun w hw' => hw w (List.mem_cons_of_mem _ hw')
    refine hws.push hb ?_ ?_
    · dsimp only
      rw [List.length_append, List.length_map]
      omega
    · exact Nat.mod_eq_of_lt (hw w List.mem_cons_self)

/-- What a handler finds: the words on the stack, and the registers of the interrupted program. -/
structure Raised (x : Context) (ws : List Nat) (c : Cpu) : Prop where
  words : ∀ j (h : j < ws.length), read32 c.mem (add32 (c.regs .esp) (4 * j)) = ws[j]
  bottom : add32 (c.regs .esp) (4 * ws.length) = x.cpu.regs .esp
  small : ∀ r, c.regs r < 2 ^ 32
  regs : ∀ r, r ≠ .esp → c.regs r = x.cpu.regs r
  segs : c.segs = x.cpu.segs

theorem Context.Proper.frame_lt {x : Context} (h : x.Proper) : ∀ w ∈ x.frame, w < 2 ^ 32 := by
  have hcs := h.cs
  intro w hw
  simp only [Context.frame, List.mem_cons, List.not_mem_nil, or_false] at hw
  rcases hw with rfl | rfl | rfl
  · exact h.eip
  · omega
  · exact h.eflags

theorem Context.Proper.raised {x : Context} (h : x.Proper) {code : List Nat} (hlen : code.length ≤ 1)
    (hcode : ∀ w ∈ code, w < 2 ^ 32) : Raised x (code ++ x.frame) (x.raise code) := by
  have hregs := h.regs .esp
  have hbottom : add32 (x.cpu.regs .esp) (4 * ([] : List Nat).length) = x.cpu.regs .esp := add32_eq hregs
  have hentry : Tracks 4 (add32 (x.cpu.regs .esp) (4 * ([] : List Nat).length)) x.cpu.mem x.cpu
      ⟨x.cpu.regs, x.cpu.segs, []⟩ :=
    .entry h.regs h.segs (by decide) (by decide) fun j (hj : j < 0) => absurd hj (Nat.not_lt_zero j)
  rw [hbottom] at hentry
  have hlength : (code ++ x.frame).length = code.length + 3 := by
    rw [List.length_append]
    rfl
  have hws : ∀ w ∈ code ++ x.frame, w < 2 ^ 32 := by
    intro w hw
    rcases List.mem_append.1 hw with hw | hw
    · exact hcode w hw
    · exact h.frame_lt w hw
  have ht := hentry.pushAll (by decide) (by dsimp only [List.length_nil]; omega) hws
  rw [List.append_nil] at ht
  have hesp : (x.raise code).regs .esp = sub32 (x.cpu.regs .esp) (4 * (code ++ x.frame).length) := by
    refine ht.esp.trans ?_
    rw [List.length_map]
  refine ⟨fun j hj => ?_, ?_, ht.words, ht.regs, ht.segs⟩
  · have hget := ht.stack.get (j := j) (x := .word (code ++ x.frame)[j]) (by rw [List.length_map]; omega)
      (by rw [List.getElem?_map, List.getElem?_eq_getElem hj]; rfl)
    rw [List.length_map] at hget
    rw [hesp]
    exact hget
  · rw [hesp]
    unfold add32 sub32
    omega

/-- Back from a handler that left everything as it was. -/
theorem resumes_iret {x : Context} (hcs : x.cs < 2 ^ 16) (hzf : x.cpu.zf = x.eflags.testBit 6) {c : Cpu}
    (hesp : add32 (c.regs .esp) 12 = x.cpu.regs .esp) (hregs : ∀ r, r ≠ .esp → c.regs r = x.cpu.regs r)
    (hsegs : c.segs = x.cpu.segs) (hsmall : c.regs .esp < 2 ^ 32)
    (hframe : ∀ j (hj : j < x.frame.length), read32 c.mem (add32 (c.regs .esp) (4 * j)) = x.frame[j]) :
    Resumes x (iret c) := by
  have hlen : x.frame.length = 3 := rfl
  have hzero : add32 (c.regs .esp) (4 * 0) = c.regs .esp := add32_eq hsmall
  have heip : read32 c.mem (c.regs .esp) = x.eip := by
    have h0 := hframe 0 (by rw [hlen]; decide)
    rw [hzero] at h0
    exact h0
  have hsecond : read32 c.mem (add32 (c.regs .esp) 4) = x.cs := hframe 1 (by rw [hlen]; decide)
  have htwice : add32 (add32 (c.regs .esp) 4) 4 = add32 (c.regs .esp) 8 := by
    unfold add32
    omega
  have hthrice : add32 (add32 (c.regs .esp) 8) 4 = add32 (c.regs .esp) 12 := by
    unfold add32
    omega
  have heflags : read32 c.mem (add32 (c.regs .esp) 8) = x.eflags := hframe 2 (by rw [hlen]; decide)
  have hdrop : c.drop.regs .esp = add32 (c.regs .esp) 4 := Cpu.set_self ..
  have hdrop' : c.drop.drop.regs .esp = add32 (c.regs .esp) 8 := by
    rw [← htwice, ← hdrop]
    exact Cpu.set_self ..
  have hdrop'' : c.drop.drop.drop.regs .esp = add32 (c.regs .esp) 12 := by
    rw [← hthrice, ← hdrop']
    exact Cpu.set_self ..
  have hflags : c.drop.drop.top = x.eflags := by
    refine Eq.trans ?_ heflags
    rw [← hdrop']
    rfl
  refine ⟨heip, ?_, hflags, ?_, hsegs, ?_⟩
  · have htop : c.drop.top = x.cs := by
      refine Eq.trans ?_ hsecond
      rw [← hdrop]
      rfl
    show c.drop.top % 65536 = x.cs
    rw [htop]
    exact Nat.mod_eq_of_lt hcs
  · funext r
    by_cases hr : r = .esp
    · subst hr
      exact hdrop''.trans hesp
    · refine Eq.trans ?_ (hregs r hr)
      exact (Cpu.set_ne _ _ hr).trans ((Cpu.set_ne _ _ hr).trans (Cpu.set_ne _ _ hr))
  · show c.drop.drop.top.testBit 6 = x.cpu.zf
    rw [hflags, hzf]

/-- Code that saves the context and calls a function that does not return: what the function found. -/
theorem Tracks.inside {depth bottom : Nat} {mem : Nat → UInt8} {c : Cpu} {a a₁ : ListCpu} {e : Env}
    {enter : List Instr} (h : Tracks depth bottom mem c a) (hb : 4 * depth < 2 ^ 32)
    (henter : ListCpu.steps enter a = some a₁) (hd : a.stack.length + (enter.map pushes).sum < depth) {t : Nat}
    (hnone : ∀ c, e.callee t c = none) (rest : List Instr) :
    ∃ m f, X86.run e 0 (enter ++ .call t :: rest) ⟨c, [], []⟩ = .inside m ∧ m.calls = [f] ∧ f.target = t ∧
      add32 f.esp 4 = sub32 bottom (4 * a₁.stack.length) ∧ OnStack bottom f.mem a₁.stack := by
  obtain ⟨c₁, hrun, h₁⟩ := h.run e (.call t :: rest) enter (m := ⟨c, [], []⟩) hb henter (by omega)
  have hlen := ListCpu.steps_length henter
  let m : Machine := ⟨c₁, [], []⟩
  obtain ⟨hesp, hp⟩ := Tracks.enter (m := m) h₁ hb (by omega) e t
  refine ⟨m.enter e t, ⟨t, (m.enter e t).cpu.regs .esp, (m.enter e t).cpu.mem⟩, ?_, rfl, ?_, ?_, ?_⟩
  · rw [hrun]
    show X86.run e 0 (.call t :: rest) m = _
    simp only [X86.run, hnone]
  · dsimp only
  · dsimp only
    exact hesp
  · dsimp only
    exact hp.stack.2

end Ulmix.Lib.X86

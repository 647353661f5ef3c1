import Ulmix.Lib.Exec
import Ulmix.Lib.I8259
/-!
# Interrupt requests (`arch/i686/idt.c`, `kernel/interrupt.c`)

The processor answers an interrupt only while it runs no handler: the gates are
interrupt gates. `irq_handler_i686` gives the number to `irq_handler` and then
ends the interrupt at the controllers, and lines may rise and fall between any two
of these steps. `System.Inv` holds of every state in between, and from it follows that
requests are neither lost nor served twice.
-/
open Ulmix.Lib Ulmix.Lib.I8259

namespace Ulmix.Interrupts

/-! ## The code -/

/-- `outb`, to a port of the controllers. -/
def outb (port : Nat) (v : UInt8) : Exec Pair Unit := modify (Pair.outb port v)

def pic_init : Exec Pair Unit := do
  outb 0x20 0x11
  outb 0xa0 0x11
  outb 0x21 0x20
  outb 0xa1 0x28
  outb 0x21 0x04
  outb 0xa1 0x02
  outb 0x21 0x01
  outb 0xa1 0x01
  outb 0x21 0x00
  outb 0xa1 0x00

/-- `irq_handlers`: addresses of functions, 0 for `NULL`. -/
abbrev Handlers := Nat → Nat

/-- `irq_handlers[irq]` -/
def load_handler (irq : Nat) : Exec Handlers Nat := do
  let irq_handlers ← get
  if irq < 256 then return irq_handlers irq
  else Exec.fault .outOfBounds

/-- `irq_handlers[irq] = handler`, where it was read before. -/
def store_handler (irq handler : Nat) : Exec Handlers Unit :=
  modify fun irq_handlers => Function.update irq_handlers irq handler

def register_irq (irq handler : Nat) : Exec Handlers Int := do
  let old ← load_handler irq
  if old = 0 then
    store_handler irq handler
    return 0
  else return -1

def unregister_irq (irq : Nat) : Exec Handlers Int := do
  let old ← load_handler irq
  if old ≠ 0 then
    store_handler irq 0
    return 0
  else return -1

/-- The function it calls, if any. -/
def irq_handler (irq : Nat) : Exec Handlers (Option Nat) := do
  let handler ← load_handler irq
  return if handler ≠ 0 then some handler else none

/-- A step of `irq_handler_i686`. -/
inductive Action where
  | irq_handler (irq : Nat)
  | outb (port : Nat) (v : UInt8)
  deriving DecidableEq, Repr

/-- `irq_handler_i686`, step by step: the devices do not stop meanwhile. -/
def irq_handler_i686 (irq : Nat) : List Action :=
  .irq_handler irq ::
    if 32 ≤ irq ∧ irq < 32 + 16 then
      (if 32 + 8 ≤ irq then [.outb 0xa0 0x20] else []) ++ [.outb 0x20 0x20]
    else []

/-- The number `pic_init` gives to a line. -/
def irq_of : Line → Nat
  | .master i => 32 + i
  | .slave i => 40 + i

/-! ## The system -/

/-- The controllers, the table, and what is left of the handler that runs, if one does. -/
structure System where
  pics : Pair
  irq_handlers : Handlers
  code : List Action
  /-- The numbers `irq_handler` was called with, latest first. -/
  served : List Nat
  /-- The functions it called, with the number. -/
  called : List (Nat × Nat)
  /-- How often each line rose while it was not pending. -/
  rises : Line → Nat
  /-- How often each line fell while it was pending. -/
  falls : Line → Nat
  /-- How often a line was answered that was not pending. -/
  spurious : Line → Nat

inductive Event where
  | raise (l : Line)
  | fall (l : Line)
  /-- The processor acknowledges an interrupt, while the lines `gone` of the slave fall. -/
  | interrupt (gone : Finset (Fin 8))
  /-- The next step of the handler. -/
  | proceed
  | register_irq (irq handler : Nat)
  | unregister_irq (irq : Nat)

/-- One more for a line with the property. -/
def bump (p : Line → Prop) [DecidablePred p] (f : Line → Nat) : Line → Nat := fun l => if p l then f l + 1 else f l

/-- A line of a device rises or falls, or the kernel makes a step. Interrupts are off while a handler runs. -/
inductive Step : System → Event → System → Prop
  | raise {s : System} {l : Line} : l.Wired → Step s (.raise l)
      { s with pics := s.pics.raise l, rises := bump (fun k => k = l ∧ ¬ s.pics.Pending k) s.rises }
  | fall {s : System} {l : Line} : Step s (.fall l)
      { s with pics := s.pics.fall l, falls := bump (fun k => k = l ∧ s.pics.Pending k) s.falls }
  | interrupt {s : System} {gone : Finset (Fin 8)} : s.code = [] → Step s (.interrupt gone)
      { s with
        pics := (s.pics.ack gone).2
        code := irq_handler_i686 (s.pics.ack gone).1
        falls := bump (fun k => s.pics.Pending k ∧ ¬ (s.pics.lose gone).Pending k) s.falls
        spurious := bump (fun k => irq_of k = (s.pics.ack gone).1 ∧ ¬ (s.pics.lose gone).Pending k) s.spurious }
  | irq_handler {s : System} {irq : Nat} {rest : List Action} {called : Option Nat} {hs : Handlers} :
      s.code = .irq_handler irq :: rest → irq_handler irq s.irq_handlers = .ok (called, hs) → Step s .proceed
      { s with
        code := rest
        irq_handlers := hs
        served := irq :: s.served
        called := called.elim s.called fun h => (irq, h) :: s.called }
  | outb {s : System} {port : Nat} {v : UInt8} {rest : List Action} {pics : Pair} :
      s.code = .outb port v :: rest → outb port v s.pics = .ok ((), pics) → Step s .proceed
      { s with code := rest, pics := pics }
  | register_irq {s : System} {irq handler : Nat} {r : Int} {hs : Handlers} :
      register_irq irq handler s.irq_handlers = .ok (r, hs) → Step s (.register_irq irq handler)
      { s with irq_handlers := hs }
  | unregister_irq {s : System} {irq : Nat} {r : Int} {hs : Handlers} :
      unregister_irq irq s.irq_handlers = .ok (r, hs) → Step s (.unregister_irq irq)
      { s with irq_handlers := hs }

/-- The step of an event, where it makes one. -/
def System.next (s : System) : Event → Option System
  | .raise l =>
    if l.Wired then
      some { s with pics := s.pics.raise l, rises := bump (fun k => k = l ∧ ¬ s.pics.Pending k) s.rises }
    else none
  | .fall l => some { s with pics := s.pics.fall l, falls := bump (fun k => k = l ∧ s.pics.Pending k) s.falls }
  | .interrupt gone =>
    if s.code = [] then
      some { s with
        pics := (s.pics.ack gone).2
        code := irq_handler_i686 (s.pics.ack gone).1
        falls := bump (fun k => s.pics.Pending k ∧ ¬ (s.pics.lose gone).Pending k) s.falls
        spurious := bump (fun k => irq_of k = (s.pics.ack gone).1 ∧ ¬ (s.pics.lose gone).Pending k) s.spurious }
    else none
  | .proceed =>
    match s.code with
    | [] => none
    | .irq_handler irq :: rest =>
      match irq_handler irq s.irq_handlers with
      | .ok (called, hs) =>
        some { s with
          code := rest
          irq_handlers := hs
          served := irq :: s.served
          called := called.elim s.called fun h => (irq, h) :: s.called }
      | .error _ => none
    | .outb port v :: rest =>
      match outb port v s.pics with
      | .ok ((), pics) => some { s with code := rest, pics := pics }
      | .error _ => none
  | .register_irq irq handler =>
    match register_irq irq handler s.irq_handlers with
    | .ok (_, hs) => some { s with irq_handlers := hs }
    | .error _ => none
  | .unregister_irq irq =>
    match unregister_irq irq s.irq_handlers with
    | .ok (_, hs) => some { s with irq_handlers := hs }
    | .error _ => none

theorem next_step {s t : System} {e : Event} (h : s.next e = some t) : Step s e t := by
  cases e with
  | raise l =>
    rw [System.next] at h
    split at h
    · next hl =>
      obtain rfl := Option.some.inj h
      exact .raise hl
    · cases h
  | fall l =>
    obtain rfl := Option.some.inj h
    exact .fall
  | interrupt gone =>
    rw [System.next] at h
    split at h
    · next hcode =>
      obtain rfl := Option.some.inj h
      exact .interrupt hcode
    · cases h
  | proceed =>
    rw [System.next] at h
    split at h
    · cases h
    · next hcode =>
      split at h
      · next hrun =>
        obtain rfl := Option.some.inj h
        exact .irq_handler hcode hrun
      · cases h
    · next hcode =>
      split at h
      · next hrun =>
        obtain rfl := Option.some.inj h
        exact .outb hcode hrun
      · cases h
  | register_irq irq handler =>
    rw [System.next] at h
    split at h
    · next hrun =>
      obtain rfl := Option.some.inj h
      exact .register_irq hrun
    · cases h
  | unregister_irq irq =>
    rw [System.next] at h
    split at h
    · next hrun =>
      obtain rfl := Option.some.inj h
      exact .unregister_irq hrun
    · cases h

/-- The controllers are set up; no handler is registered yet. -/
def booted (pics : Pair) : System := ⟨pics, fun _ => 0, [], [], [], fun _ => 0, fun _ => 0, fun _ => 0⟩

/-- Of a line: a request that is pending, and one being handed over to `irq_handler`. -/
def System.waiting (s : System) (l : Line) : Nat :=
  (if s.pics.Pending l then 1 else 0) + if s.code.head? = some (.irq_handler (irq_of l)) then 1 else 0

/-! ## Setting up the controllers -/

theorem irq_of_injective : Function.Injective irq_of := by
  unfold Function.Injective
  decide

theorem irq_of_lt (l : Line) : irq_of l < 256 := by
  revert l
  decide

/-- The vectors are the numbers of the stubs. -/
structure Numbered (p : Pair) : Prop where
  master : p.master.vector = 32
  slave : p.slave.vector = 40

theorem Numbered.vector_eq {p : Pair} (h : Numbered p) (l : Line) : p.vector l = irq_of l := by
  cases l with
  | master i => exact congrArg (· + i.val) h.master
  | slave i => exact congrArg (· + i.val) h.slave

/-- Whatever the controllers were in the middle of, `pic_init` sets them up, with nothing masked or requested. -/
theorem pic_init_run (p : Pair) : ∃ q, pic_init p = .ok ((), q) ∧ q.Ready ∧ Numbered q ∧ (∀ l, ¬ q.Pending l) ∧
    (p.Idle → q.Idle) := by
  have hlines : linesOf 0 = ∅ := by decide
  have hmaster : (4 : UInt8).toNat.testBit wire := by decide
  have hslave : (2 : UInt8).toNat % 8 = wire := by decide
  refine ⟨⟨⟨.mask, true, false, false, 32, 4, linesOf 0, ∅, p.master.service⟩,
    ⟨.mask, true, false, false, 40, 2, linesOf 0, ∅, p.slave.service⟩⟩, rfl, ?_, ⟨rfl, rfl⟩, ?_, ?_⟩
  · exact ⟨⟨rfl, hlines, rfl⟩, ⟨rfl, hlines, rfl⟩, ⟨hmaster, hslave⟩, Finset.notMem_empty _⟩
  · intro l hl
    cases l <;> exact Finset.notMem_empty _ hl
  · exact fun h => ⟨h.master, h.slave⟩

/-! ## The invariant -/

/-- What is in service, by what is left of the handler. -/
inductive Phase : List Action → Finset (Fin 8) → Finset (Fin 8) → Prop
  | idle : Phase [] ∅ ∅
  | master {i : Fin 8} {m : Finset (Fin 8)} : m ⊆ {i} → Phase (irq_handler_i686 (irq_of (.master i))) m ∅
  | slave {i : Fin 8} {m : Finset (Fin 8)} : m ⊆ {i} → Phase (irq_handler_i686 (irq_of (.slave i))) {wire} m
  | both {i : Fin 8} {m : Finset (Fin 8)} : m ⊆ {i} → Phase [.outb 0xa0 0x20, .outb 0x20 0x20] {wire} m
  | last {i : Fin 8} {m : Finset (Fin 8)} : m ⊆ {i} → Phase [.outb 0x20 0x20] m ∅

theorem irq_handler_i686_master (i : Fin 8) :
    irq_handler_i686 (irq_of (.master i)) = [.irq_handler (irq_of (.master i)), .outb 0x20 0x20] := by
  revert i
  decide

theorem irq_handler_i686_slave (i : Fin 8) :
    irq_handler_i686 (irq_of (.slave i)) = [.irq_handler (irq_of (.slave i)), .outb 0xa0 0x20, .outb 0x20 0x20] := by
  revert i
  decide

structure System.Inv (s : System) : Prop where
  ready : s.pics.Ready
  numbered : Numbered s.pics
  phase : Phase s.code s.pics.master.service s.pics.slave.service
  balance : ∀ l, s.rises l + s.spurious l = s.falls l + s.served.count (irq_of l) + s.waiting l
  spurious : ∀ l, s.spurious l ≠ 0 → l = .master 7 ∨ l = .slave 7

theorem bump_eq (p : Line → Prop) [DecidablePred p] (f : Line → Nat) (l : Line) :
    bump p f l = f l + if p l then 1 else 0 := by
  unfold bump
  split <;> rfl

theorem of_bump {p : Line → Prop} [DecidablePred p] {f : Line → Nat} {l : Line} (h : bump p f l ≠ 0) :
    f l ≠ 0 ∨ p l := by
  rw [bump_eq] at h
  by_cases hp : p l
  · exact .inr hp
  · rw [if_neg hp] at h
    exact .inl h

theorem Phase.of_nil {code : List Action} {m m' : Finset (Fin 8)} (h : Phase code m m') (hc : code = []) :
    m = ∅ ∧ m' = ∅ := by
  cases h with
  | idle => exact ⟨rfl, rfl⟩
  | master _ | slave _ | both _ | last _ => cases hc

section
variable {s : System}

theorem System.Inv.idle (h : s.Inv) (hc : s.code = []) : s.pics.Idle := by
  obtain ⟨hm, hs⟩ := h.phase.of_nil hc
  exact ⟨hm, hs⟩

/-- The invariant after a step that leaves the controllers' settings and the lines in service alone. -/
theorem System.Inv.lines (h : s.Inv) {t : System} (hready : t.pics.Ready) (hnum : Numbered t.pics)
    (hcode : t.code = s.code) (hm : t.pics.master.service = s.pics.master.service)
    (hs : t.pics.slave.service = s.pics.slave.service) (hspurious : t.spurious = s.spurious)
    (hbalance : ∀ l, t.rises l + s.spurious l = t.falls l + t.served.count (irq_of l) + t.waiting l) : t.Inv where
  ready := hready
  numbered := hnum
  phase := by
    rw [hcode, hm, hs]
    exact h.phase
  balance := by
    rw [hspurious]
    exact hbalance
  spurious := by
    rw [hspurious]
    exact h.spurious

theorem System.Inv.raise (h : s.Inv) {l : Line} (hl : l.Wired) :
    System.Inv { s with
      pics := s.pics.raise l
      rises := bump (fun k => k = l ∧ ¬ s.pics.Pending k) s.rises } := by
  apply h.lines (h.ready.raise hl)
  · cases l <;> exact ⟨h.numbered.master, h.numbered.slave⟩
  · rfl
  · cases l <;> rfl
  · cases l <;> rfl
  · rfl
  · intro k
    have hb := h.balance k
    simp only [System.waiting, bump_eq, Pair.raise_pending] at hb ⊢
    grind

theorem System.Inv.fall (h : s.Inv) (l : Line) :
    System.Inv { s with
      pics := s.pics.fall l
      falls := bump (fun k => k = l ∧ s.pics.Pending k) s.falls } := by
  apply h.lines (h.ready.fall l)
  · cases l <;> exact ⟨h.numbered.master, h.numbered.slave⟩
  · rfl
  · cases l <;> rfl
  · cases l <;> rfl
  · rfl
  · intro k
    have hb := h.balance k
    simp only [System.waiting, bump_eq, Pair.fall_pending] at hb ⊢
    grind

/-- Only the two lines 7 are answered in place of others. -/
theorem spurious_bump (h : s.Inv) {i : Line} (hi : i = .master 7 ∨ i = .slave 7) {p : Line → Prop} [DecidablePred p]
    (hp : ∀ k, p k → k = i) (l : Line) (hl : bump p s.spurious l ≠ 0) : l = .master 7 ∨ l = .slave 7 := by
  rcases of_bump hl with hl | hpl
  · exact h.spurious l hl
  · rw [hp l hpl]
    exact hi

theorem head_irq_handler_i686 (irq : Nat) : (irq_handler_i686 irq).head? = some (.irq_handler irq) := rfl

/-- The processor answers while no handler runs. -/
theorem System.Inv.interrupt (h : s.Inv) (hc : s.code = []) (gone : Finset (Fin 8)) :
    System.Inv { s with
      pics := (s.pics.ack gone).2
      code := irq_handler_i686 (s.pics.ack gone).1
      falls := bump (fun k => s.pics.Pending k ∧ ¬ (s.pics.lose gone).Pending k) s.falls
      spurious := bump (fun k => irq_of k = (s.pics.ack gone).1 ∧ ¬ (s.pics.lose gone).Pending k) s.spurious } := by
  have hidle := h.idle hc
  have hanswer := h.ready.ack hidle gone
  have hlost : ∀ k, (s.pics.lose gone).Pending k → s.pics.Pending k := fun k hk => ((Pair.lose_pending gone k).1 hk).1
  have hready := h.ready.lose gone
  have hnum : Numbered (s.pics.lose gone) := ⟨h.numbered.master, h.numbered.slave⟩
  generalize s.pics.ack gone = r at hanswer ⊢
  cases hanswer with
  | line l hl hfirst =>
    have hvec : s.pics.vector l = irq_of l := h.numbered.vector_eq l
    rw [hvec]
    refine ⟨hready.serve l, by cases l <;> exact ⟨hnum.master, hnum.slave⟩, ?_, ?_, ?_⟩
    · -- the line answered is the one in service, a line of the slave through the wire
      cases l with
      | master i =>
        show Phase _ (insert i s.pics.master.service) s.pics.slave.service
        rw [hidle.master, hidle.slave, insert_empty_eq]
        exact .master (Finset.Subset.refl _)
      | slave i =>
        show Phase _ (insert wire s.pics.master.service) (insert i s.pics.slave.service)
        rw [hidle.master, hidle.slave, insert_empty_eq, insert_empty_eq]
        exact .slave (Finset.Subset.refl _)
    · intro k
      have hb := h.balance k
      have hk := hlost k
      simp only [System.waiting, bump_eq, Pair.serve_pending, hc, List.head?_nil, head_irq_handler_i686,
        Option.some.injEq, Action.irq_handler.injEq, irq_of_injective.eq_iff] at hb ⊢
      grind
    · intro k hk
      dsimp only at hk
      rcases of_bump hk with hk | ⟨heq, hnot⟩
      · exact h.spurious k hk
      · exact absurd (irq_of_injective heq ▸ hl) hnot
  | nothing hnone =>
    have hvec : s.pics.vector (.master 7) = irq_of (.master 7) := h.numbered.vector_eq _
    rw [hvec]
    refine ⟨hready, hnum, ?_, ?_, spurious_bump h (.inl rfl) fun k hk => irq_of_injective hk.1⟩
    · show Phase _ s.pics.master.service s.pics.slave.service
      rw [hidle.master, hidle.slave]
      exact .master (Finset.empty_subset _)
    · intro k
      have hb := h.balance k
      have hk := hlost k
      have hno := hnone k
      simp only [System.waiting, bump_eq, hc, List.head?_nil, head_irq_handler_i686,
        Option.some.injEq, Action.irq_handler.injEq, irq_of_injective.eq_iff] at hb ⊢
      grind
  | slave hsome hgone =>
    have hvec : s.pics.vector (.slave 7) = irq_of (.slave 7) := h.numbered.vector_eq _
    rw [hvec]
    refine ⟨⟨hready.master, hready.slave, hready.cascaded, hready.free⟩, ⟨hnum.master, hnum.slave⟩, ?_, ?_,
      spurious_bump h (.inr rfl) fun k hk => irq_of_injective hk.1⟩
    · show Phase _ (insert wire s.pics.master.service) s.pics.slave.service
      rw [hidle.master, hidle.slave, insert_empty_eq]
      exact .slave (Finset.empty_subset _)
    · intro k
      have hb := h.balance k
      have hk := hlost k
      have hno := hgone 7
      have hsame : Pair.Pending { s.pics.lose gone with
          master := { s.pics.master with service := insert wire s.pics.master.service } } k ↔
          (s.pics.lose gone).Pending k := by
        cases k <;> exact Iff.rfl
      simp only [System.waiting, bump_eq, hc, List.head?_nil, head_irq_handler_i686, hsame,
        Option.some.injEq, Action.irq_handler.injEq, irq_of_injective.eq_iff] at hb ⊢
      grind

/-- What `irq_handler` is about to be called with, and what is left then. -/
theorem Phase.of_irq_handler {irq : Nat} {rest code : List Action} {m m' : Finset (Fin 8)} (h : Phase code m m')
    (hc : code = .irq_handler irq :: rest) :
    (∃ l, irq = irq_of l) ∧ Phase rest m m' ∧ ∀ k, rest.head? ≠ some (.irq_handler k) := by
  cases h with
  | idle | both _ | last _ => cases hc
  | @master i _ hm =>
    rw [irq_handler_i686_master] at hc
    cases hc
    exact ⟨⟨_, rfl⟩, .last hm, fun _ => by simp⟩
  | @slave i _ hm =>
    rw [irq_handler_i686_slave] at hc
    cases hc
    exact ⟨⟨_, rfl⟩, .both hm, fun _ => by simp⟩

theorem System.Inv.handled (h : s.Inv) {irq : Nat} {rest : List Action} (hc : s.code = .irq_handler irq :: rest)
    (hs : Handlers) (called : List (Nat × Nat)) :
    System.Inv { s with code := rest, irq_handlers := hs, served := irq :: s.served, called := called } := by
  obtain ⟨-, hphase, hrest⟩ := h.phase.of_irq_handler hc
  refine ⟨h.ready, h.numbered, hphase, ?_, h.spurious⟩
  intro k
  have hb := h.balance k
  simp only [System.waiting, hc, List.head?_cons, Option.some.injEq, Action.irq_handler.injEq, List.count_cons,
    beq_iff_eq, if_neg (hrest _)] at hb ⊢
  omega

/-- The end of the interrupt, first at the slave if it is one of the slave's. -/
theorem Phase.of_outb {p : Pair} {port : Nat} {v : UInt8} {rest code : List Action}
    (h : Phase code p.master.service p.slave.service) (hc : code = .outb port v :: rest) :
    Phase rest (p.outb port v).master.service (p.outb port v).slave.service ∧
      p.outb port v = { master := { p.master with service := (p.outb port v).master.service },
                        slave := { p.slave with service := (p.outb port v).slave.service } } ∧
      ∀ k, rest.head? ≠ some (.irq_handler k) := by
  generalize hm : p.master.service = m, hs : p.slave.service = n at h
  cases h with
  | idle => cases hc
  | master _ | slave _ => cases hc
  | both hsub =>
    cases hc
    have heoi : p.outb 0xa0 0x20 = { p with slave := { p.slave with service := ∅ } } :=
      congrArg (fun c => { p with slave := c }) (Chip.eoi_singleton (hs ▸ hsub))
    rw [heoi]
    refine ⟨?_, rfl, fun _ => by simp⟩
    show Phase _ p.master.service ∅
    rw [hm]
    exact .last (Finset.Subset.refl _)
  | last hsub =>
    cases hc
    have heoi : p.outb 0x20 0x20 = { p with master := { p.master with service := ∅ } } :=
      congrArg (fun c => { p with master := c }) (Chip.eoi_singleton (hm ▸ hsub))
    rw [heoi]
    refine ⟨?_, rfl, fun _ => by simp⟩
    show Phase _ ∅ p.slave.service
    rw [hs]
    exact .idle

theorem Phase.outb_pending {p : Pair} {port : Nat} {v : UInt8} {rest code : List Action}
    (h : Phase code p.master.service p.slave.service) (hc : code = .outb port v :: rest) (k : Line) :
    (p.outb port v).Pending k ↔ p.Pending k := by
  rw [(h.of_outb hc).2.1]
  cases k <;> exact Iff.rfl

theorem System.Inv.ended (h : s.Inv) {port : Nat} {v : UInt8} {rest : List Action}
    (hc : s.code = .outb port v :: rest) :
    System.Inv { s with code := rest, pics := s.pics.outb port v } := by
  obtain ⟨hphase, hpics, hrest⟩ := h.phase.of_outb hc
  refine ⟨?_, ?_, hphase, ?_, h.spurious⟩
  · dsimp only
    rw [hpics]
    exact ⟨h.ready.master, h.ready.slave, h.ready.cascaded, h.ready.free⟩
  · dsimp only
    rw [hpics]
    exact ⟨h.numbered.master, h.numbered.slave⟩
  · intro k
    have hb := h.balance k
    simp only [System.waiting, hc, List.head?_cons, Option.some.injEq, reduceCtorEq, if_false, h.phase.outb_pending hc,
      if_neg (hrest _)] at hb ⊢
    exact hb

theorem System.Inv.table (h : s.Inv) (hs : Handlers) : System.Inv { s with irq_handlers := hs } :=
  ⟨h.ready, h.numbered, h.phase, h.balance, h.spurious⟩

theorem System.Inv.step (h : s.Inv) {e : Event} {t : System} (hst : Step s e t) : t.Inv := by
  cases hst with
  | raise hl => exact h.raise hl
  | fall => exact h.fall _
  | interrupt hc => exact h.interrupt hc _
  | irq_handler hc _ => exact h.handled hc _ _
  | outb hc hrun =>
    cases hrun
    exact h.ended hc
  | register_irq _ => exact h.table _
  | unregister_irq _ => exact h.table _

theorem System.Inv.booted {p q : Pair} (hp : p.Idle) (hinit : pic_init p = .ok ((), q)) : (booted q).Inv := by
  obtain ⟨q', hrun, hready, hnum, hnone, hidle⟩ := pic_init_run p
  rw [hrun] at hinit
  cases hinit
  refine ⟨hready, hnum, ?_, ?_, fun l hl => absurd rfl hl⟩
  · show Phase [] q.master.service q.slave.service
    rw [(hidle hp).master, (hidle hp).slave]
    exact .idle
  · intro l
    have hwait : (Interrupts.booted q).waiting l = 0 := by
      show (if q.Pending l then 1 else 0) + (if (none : Option Action) = some _ then 1 else 0) = 0
      rw [if_neg (hnone l), if_neg (by rintro ⟨⟩)]
    rw [hwait]
    rfl

theorem System.Inv.run {s₀ : System} (h : s₀.Inv) (hrun : Run Step s₀ s) : s.Inv :=
  hrun.inv System.Inv h fun _ _ _ hi hs => hi.step hs

/-- The handlers `irq_handler` called, and the numbers it was called with, belong to lines. -/
structure System.Logged (s : System) : Prop where
  served : ∀ irq ∈ s.served, ∃ l, irq = irq_of l
  called : ∀ c ∈ s.called, c.1 ∈ s.served

theorem System.Logged.step (h : s.Logged) (hi : s.Inv) {e : Event} {t : System} (hst : Step s e t) : t.Logged := by
  cases hst with
  | raise _ | fall | interrupt _ | outb _ _ | register_irq _ | unregister_irq _ => exact ⟨h.served, h.called⟩
  | @irq_handler irq rest called hs hc hrun =>
    refine ⟨fun k hk => ?_, fun c hmem => ?_⟩
    · rcases List.mem_cons.1 hk with rfl | hk
      · exact (hi.phase.of_irq_handler hc).1
      · exact h.served k hk
    · cases called with
      | none => exact List.mem_cons_of_mem _ (h.called c hmem)
      | some f =>
        rcases List.mem_cons.1 hmem with rfl | hmem
        · exact List.mem_cons_self
        · exact List.mem_cons_of_mem _ (h.called c hmem)

end

/-- Controllers as a loader may leave them: the slave was being set up. -/
def loaderPair : Pair :=
  ⟨⟨.mask, true, false, false, 8, 4, linesOf 0x18, linesOf 0x02, ∅⟩,
    ⟨.icw3, false, false, true, 0x70, 2, linesOf 0, linesOf 0x01, ∅⟩⟩

def kernelPair : Pair :=
  ⟨⟨.mask, true, false, false, 32, 4, linesOf 0, ∅, ∅⟩, ⟨.mask, true, false, false, 40, 2, linesOf 0, ∅, ∅⟩⟩

theorem loaderPair_idle : loaderPair.Idle := ⟨rfl, rfl⟩

theorem kernelPair_init : pic_init loaderPair = .ok ((), kernelPair) := rfl

/-- A line rises. -/
def risen (l : Line) (s : System) : System :=
  { s with
    pics := s.pics.raise l
    rises := bump (fun k => k = l ∧ ¬ s.pics.Pending k) s.rises }

theorem risen_step {l : Line} (hl : l.Wired) (s : System) : Step s (.raise l) (risen l s) := .raise hl

/-- In every run after `pic_init`: each rise of a line is handed to `irq_handler` exactly once, under the line's
number, unless the line fell first or the request still waits; only the lines 7 are also answered for nothing; no
other number is handed over; and whenever no handler runs, nothing is left in service. -/
theorem interrupts_accounted {p q : Pair} {s : System} (hp : p.Idle) (hinit : pic_init p = .ok ((), q))
    (hrun : Run Step (booted q) s) :
    (∀ l, s.rises l + s.spurious l = s.falls l + s.served.count (irq_of l) + s.waiting l) ∧
      (∀ l, s.spurious l ≠ 0 → l = .master 7 ∨ l = .slave 7) ∧
      (∀ irq ∈ s.served, ∃ l, irq = irq_of l) ∧ (s.code = [] → s.pics.Idle) := by
  have h0 : (booted q).Inv := .booted hp hinit
  have hboth : s.Inv ∧ s.Logged := by
    refine hrun.inv (fun s => s.Inv ∧ s.Logged) ⟨h0, ?_⟩ fun s e t h hst => ⟨h.1.step hst, h.2.step h.1 hst⟩
    exact ⟨fun _ h => absurd h List.not_mem_nil, fun _ h => absurd h List.not_mem_nil⟩
  exact ⟨hboth.1.balance, hboth.1.spurious, hboth.2.served, hboth.1.idle⟩

/-- The slave's line 2 is served, and rises again meanwhile. -/
def servedEvents : List Event :=
  [.register_irq 42 0x104000, .raise (.slave wire), .interrupt ∅, .raise (.slave wire), .proceed, .proceed, .proceed]

def servedOnce : System := (servedEvents.foldlM System.next (booted kernelPair)).getD (booted kernelPair)

theorem servedOnce_run : Run Step (booted kernelPair) servedOnce := .getD (fun _ _ _ => next_step) _ .start

theorem interrupts_accounted_served :
    (servedOnce.served = [42] ∧ servedOnce.called = [(42, 0x104000)] ∧ servedOnce.waiting (.slave wire) = 1) ∧
    (∀ l, servedOnce.rises l + servedOnce.spurious l =
      servedOnce.falls l + servedOnce.served.count (irq_of l) + servedOnce.waiting l) ∧
    (∀ l, servedOnce.spurious l ≠ 0 → l = .master 7 ∨ l = .slave 7) ∧
    (∀ irq ∈ servedOnce.served, ∃ l, irq = irq_of l) ∧ (servedOnce.code = [] → servedOnce.pics.Idle) :=
  ⟨by decide +kernel, interrupts_accounted loaderPair_idle kernelPair_init servedOnce_run⟩

/-! ## A registered handler -/

/-- What a run without an unregistration of `irq` keeps, from a state where `f` is registered for it. -/
structure Keeps (s : System) (irq f : Nat) (t : System) : Prop where
  registered : t.irq_handlers irq = f
  calls : t.called.count (irq, f) + s.served.count irq = s.called.count (irq, f) + t.served.count irq

theorem load_handler_ok {irq r : Nat} {hs hs' : Handlers} (h : load_handler irq hs = .ok (r, hs')) :
    irq < 256 ∧ r = hs irq ∧ hs' = hs := by
  unfold load_handler at h
  obtain ⟨_, _, hget, h⟩ := Exec.bind_ok.1 h
  cases hget
  by_cases hlt : irq < 256
  · rw [if_pos hlt] at h
    cases h
    exact ⟨hlt, rfl, rfl⟩
  · rw [if_neg hlt] at h
    cases h

theorem load_handler_run {irq : Nat} (hlt : irq < 256) (hs : Handlers) : load_handler irq hs = .ok (hs irq, hs) := by
  unfold load_handler
  rw [Exec.bind_of_ok (Exec.get_apply hs), if_pos hlt]
  rfl

theorem irq_handler_run {irq : Nat} (hlt : irq < 256) (hs : Handlers) :
    irq_handler irq hs = .ok (if hs irq ≠ 0 then some (hs irq) else none, hs) := by
  unfold irq_handler
  rw [Exec.bind_of_ok (load_handler_run hlt hs)]
  rfl

theorem irq_handler_ok {irq : Nat} {called : Option Nat} {hs hs' : Handlers}
    (h : irq_handler irq hs = .ok (called, hs')) :
    called = (if hs irq ≠ 0 then some (hs irq) else none) ∧ hs' = hs := by
  unfold irq_handler at h
  obtain ⟨f, _, hload, h⟩ := Exec.bind_ok.1 h
  obtain ⟨-, rfl, rfl⟩ := load_handler_ok hload
  cases h
  exact ⟨rfl, rfl⟩

/-- A registration changes no entry that is taken. -/
theorem register_irq_keeps {irq handler : Nat} {r : Int} {hs hs' : Handlers}
    (h : register_irq irq handler hs = .ok (r, hs')) {k : Nat} (hk : hs k ≠ 0) : hs' k = hs k := by
  unfold register_irq at h
  obtain ⟨old, _, hload, h⟩ := Exec.bind_ok.1 h
  obtain ⟨-, rfl, rfl⟩ := load_handler_ok hload
  split at h
  · rename_i hz
    cases h
    refine Function.update_of_ne ?_ _ _
    rintro rfl
    exact hk hz
  · cases h
    rfl

theorem unregister_irq_keeps {irq : Nat} {r : Int} {hs hs' : Handlers}
    (h : unregister_irq irq hs = .ok (r, hs')) {k : Nat} (hk : k ≠ irq) : hs' k = hs k := by
  unfold unregister_irq at h
  obtain ⟨old, _, hload, h⟩ := Exec.bind_ok.1 h
  obtain ⟨-, rfl, rfl⟩ := load_handler_ok hload
  split at h
  · cases h
    exact Function.update_of_ne hk _ _
  · cases h
    rfl

theorem Keeps.step {s t u : System} {irq f : Nat} (hf : f ≠ 0) (h : Keeps s irq f t) {e : Event}
    (hne : e ≠ .unregister_irq irq) (hst : Step t e u) : Keeps s irq f u := by
  cases hst with
  | raise _ | fall | interrupt _ | outb _ _ => exact ⟨h.registered, h.calls⟩
  | register_irq hrun =>
    refine ⟨?_, h.calls⟩
    dsimp only
    rw [register_irq_keeps hrun (by rw [h.registered]; exact hf)]
    exact h.registered
  | unregister_irq hrun =>
    refine ⟨?_, h.calls⟩
    dsimp only
    rw [unregister_irq_keeps hrun fun heq => hne (heq ▸ rfl)]
    exact h.registered
  | @irq_handler k rest called hs hc hrun =>
    obtain ⟨rfl, rfl⟩ := irq_handler_ok hrun
    refine ⟨h.registered, ?_⟩
    have hcalls := h.calls
    dsimp only
    by_cases hk : k = irq
    · subst hk
      rw [if_pos (by rw [h.registered]; exact hf), h.registered, List.count_cons_self]
      show List.count _ ((k, f) :: t.called) + _ = _
      rw [List.count_cons_self]
      omega
    · rw [List.count_cons_of_ne hk]
      have hcount : ∀ o : Option Nat, List.count (irq, f) (o.elim t.called fun g => (k, g) :: t.called) =
          t.called.count (irq, f) := by
        rintro (_ | g)
        · rfl
        · exact List.count_cons_of_ne (fun heq => hk (congrArg Prod.fst heq)) ..
      rw [hcount]
      exact hcalls

/-- From a state where `f` is registered for a line, and as long as it is not unregistered, every interrupt of the
line is a call of `f`: since then `f` was called as often as the line rose or was answered for nothing, less the
requests that fell or wait. -/
theorem registered_called {p q : Pair} {s t : System} {l : Line} {f : Nat} (hp : p.Idle)
    (hinit : pic_init p = .ok ((), q)) (hrun : Run Step (booted q) s) (hf : f ≠ 0)
    (hreg : s.irq_handlers (irq_of l) = f)
    (hrun' : Run (fun s e t => Step s e t ∧ e ≠ .unregister_irq (irq_of l)) s t) :
    t.irq_handlers (irq_of l) = f ∧
      t.called.count (irq_of l, f) + (t.falls l + t.waiting l) + (s.rises l + s.spurious l) =
        s.called.count (irq_of l, f) + (t.rises l + t.spurious l) + (s.falls l + s.waiting l) := by
  have hs : s.Inv := (System.Inv.booted hp hinit).run hrun
  have ht : t.Inv := hs.run (hrun'.mono fun _ _ _ h => h.1)
  have hkeep : Keeps s (irq_of l) f t :=
    hrun'.inv (Keeps s (irq_of l) f) ⟨hreg, rfl⟩ fun _ _ _ h hst => h.step hf hst.2 hst.1
  have hbs := hs.balance l
  have hbt := ht.balance l
  have hcalls := hkeep.calls
  exact ⟨hkeep.registered, by omega⟩

/-- A handler for the slave's line 3. -/
def withHandler : System := { booted kernelPair with irq_handlers := Function.update (fun _ => 0) 43 0x104000 }

theorem withHandler_step : Step (booted kernelPair) (.register_irq 43 0x104000) withHandler := .register_irq rfl

theorem registered_called_risen : (risen (.slave 3) withHandler).irq_handlers 43 = 0x104000 ∧
    (risen (.slave 3) withHandler).called.count (43, 0x104000) +
        ((risen (.slave 3) withHandler).falls (.slave 3) + (risen (.slave 3) withHandler).waiting (.slave 3)) +
        (withHandler.rises (.slave 3) + withHandler.spurious (.slave 3)) =
      withHandler.called.count (43, 0x104000) +
        ((risen (.slave 3) withHandler).rises (.slave 3) + (risen (.slave 3) withHandler).spurious (.slave 3)) +
        (withHandler.falls (.slave 3) + withHandler.waiting (.slave 3)) :=
  registered_called (l := .slave 3) loaderPair_idle kernelPair_init (.call .start withHandler_step) (by decide) rfl
    (.call .start ⟨risen_step (by decide) _, by rintro ⟨⟩⟩)

/-! ## Serving what is pending -/

/-- The numbers `irq_handler` is called with if no line changes: the one being handed over, then the pending lines'
in the order of their rank. -/
def System.todo (s : System) : List Nat :=
  (match s.code with
    | .irq_handler irq :: _ => [irq]
    | _ => []) ++ (Line.order.filter s.pics.Pending).map irq_of

/-- How many steps that takes at most. -/
def System.work (s : System) : Nat := 4 * (Line.order.filter s.pics.Pending).length + s.code.length

/-- A step while no line changes: the processor follows its pin, the handler goes on. -/
inductive Quiet : System → Event → System → Prop
  | interrupt {s t : System} : s.pics.asserts → Step s (.interrupt ∅) t → Quiet s (.interrupt ∅) t
  | proceed {s t : System} : Step s .proceed t → Quiet s .proceed t

section
variable {s t : System}

theorem irq_handler_i686_length (l : Line) : (irq_handler_i686 (irq_of l)).length ≤ 3 := by
  revert l
  decide

/-- What a quiet step does to the numbers still to be handed over, and to the work left. -/
theorem System.Inv.quiet (h : s.Inv) {e : Event} (hq : Quiet s e t) :
    t.served.reverse ++ t.todo = s.served.reverse ++ s.todo ∧ t.work < s.work := by
  cases hq with
  | interrupt hpin hst =>
    cases hst with
    | interrupt hc =>
      have hidle := h.idle hc
      have hanswer := h.ready.ack hidle ∅
      obtain ⟨k, hk⟩ := (h.ready.asserts_iff hidle).1 hpin
      have hlost : s.pics.lose ∅ = s.pics := Pair.lose_empty _
      unfold System.todo System.work
      generalize s.pics.ack ∅ = r at hanswer ⊢
      cases hanswer with
      | line l hl hfirst =>
        rw [hlost] at hl hfirst
        have hfilter : Line.order.filter s.pics.Pending = l :: Line.order.filter (s.pics.serve l).Pending :=
          filter_first hl hfirst (Pair.serve_pending l) Line.order_sorted
            ((Line.mem_order l).2 (h.ready.pending_wired hl))
        have hvec : s.pics.vector l = irq_of l := h.numbered.vector_eq l
        have hlen := irq_handler_i686_length l
        simp only [hlost, hvec, hc, hfilter, List.map_cons, List.length_cons, List.nil_append, List.length_nil]
        refine ⟨rfl, ?_⟩
        omega
      | nothing hnone => exact absurd hk (hnone k)
      | slave hsome hgone =>
        obtain ⟨j, hj⟩ := hsome
        exact absurd (by rw [hlost]; exact hj) (hgone j)
  | proceed hst =>
    cases hst with
    | irq_handler hc _ =>
      obtain ⟨-, -, hrest⟩ := h.phase.of_irq_handler hc
      unfold System.todo System.work
      dsimp only
      rw [hc, List.reverse_cons, List.append_assoc]
      refine ⟨?_, by simp⟩
      split
      · exact absurd rfl (hrest _)
      · rfl
    | @outb port v rest pics hc hrun =>
      cases hrun
      obtain ⟨-, -, hrest⟩ := h.phase.of_outb hc
      have hfilter : Line.order.filter (s.pics.outb port v).Pending = Line.order.filter s.pics.Pending :=
        List.filter_congr fun k _ => decide_eq_decide.2 (h.phase.outb_pending hc k)
      unfold System.todo System.work
      dsimp only
      rw [hc, hfilter]
      refine ⟨?_, by simp⟩
      split
      · exact absurd rfl (hrest _)
      · rfl

/-- Where no quiet step is left no handler runs and nothing is pending. -/
theorem System.Inv.stuck (h : s.Inv) (hstuck : ∀ e t, ¬ Quiet s e t) : s.code = [] ∧ ¬ s.pics.asserts := by
  have hcode : s.code = [] := by
    cases hc : s.code with
    | nil => rfl
    | cons a rest =>
      cases a with
      | irq_handler irq =>
        obtain ⟨⟨l, rfl⟩, -, -⟩ := h.phase.of_irq_handler hc
        exact absurd (.proceed (.irq_handler hc (irq_handler_run (irq_of_lt l) s.irq_handlers))) (hstuck _ _)
      | outb port v => exact absurd (.proceed (.outb hc rfl)) (hstuck _ _)
  exact ⟨hcode, fun hpin => hstuck _ _ (.interrupt hpin (.interrupt hcode))⟩

end

/-- Left alone after any run, the kernel hands to `irq_handler` the lines that are pending, each once and in the order
of their rank, and then stops with nothing pending. -/
theorem pending_served {p q : Pair} {s t : System} (hp : p.Idle) (hinit : pic_init p = .ok ((), q))
    (hrun : Run Step (booted q) s) (hquiet : Run Quiet s t) :
    t.served.reverse ++ t.todo = s.served.reverse ++ s.todo ∧ (∀ e u, Quiet t e u → u.work < t.work) ∧
      ((∀ e u, ¬ Quiet t e u) → t.served.reverse = s.served.reverse ++ s.todo ∧ t.code = [] ∧ ¬ t.pics.asserts) := by
  have hs : s.Inv := (System.Inv.booted hp hinit).run hrun
  have hboth : t.Inv ∧ t.served.reverse ++ t.todo = s.served.reverse ++ s.todo := by
    refine hquiet.inv (fun t => t.Inv ∧ t.served.reverse ++ t.todo = s.served.reverse ++ s.todo) ⟨hs, rfl⟩ ?_
    rintro u e v ⟨hu, heq⟩ hq
    have hstep : Step u e v := by
      cases hq with
      | interrupt _ hst | proceed hst => exact hst
    exact ⟨hu.step hstep, (hu.quiet hq).1.trans heq⟩
  refine ⟨hboth.2, fun e u hq => (hboth.1.quiet hq).2, fun hstuck => ?_⟩
  obtain ⟨hc, hpin⟩ := hboth.1.stuck hstuck
  have hnone : ∀ l, ¬ t.pics.Pending l := fun l hl => hpin ((hboth.1.ready.asserts_iff (hboth.1.idle hc)).2 ⟨l, hl⟩)
  have htodo : t.todo = [] := by
    unfold System.todo
    rw [hc, List.filter_eq_nil_iff.2 fun l _ => by simpa using hnone l]
    rfl
  refine ⟨?_, hc, hpin⟩
  rw [← hboth.2, htodo, List.append_nil]

/-- The processor acknowledges. -/
def answered (s : System) : System :=
  { s with
    pics := (s.pics.ack ∅).2
    code := irq_handler_i686 (s.pics.ack ∅).1
    falls := bump (fun k => s.pics.Pending k ∧ ¬ (s.pics.lose ∅).Pending k) s.falls
    spurious := bump (fun k => irq_of k = (s.pics.ack ∅).1 ∧ ¬ (s.pics.lose ∅).Pending k) s.spurious }

theorem risen_asserts : (risen (.slave 3) (booted kernelPair)).pics.asserts := by decide

theorem pending_served_risen :
    (answered (risen (.slave 3) (booted kernelPair))).served.reverse ++
      (answered (risen (.slave 3) (booted kernelPair))).todo = [43] ∧
    (∀ e u, Quiet (answered (risen (.slave 3) (booted kernelPair))) e u →
      u.work < (answered (risen (.slave 3) (booted kernelPair))).work) ∧
    ((∀ e u, ¬ Quiet (answered (risen (.slave 3) (booted kernelPair))) e u) →
      (answered (risen (.slave 3) (booted kernelPair))).served.reverse = [43] ∧
        (answered (risen (.slave 3) (booted kernelPair))).code = [] ∧
        ¬ (answered (risen (.slave 3) (booted kernelPair))).pics.asserts) :=
  pending_served loaderPair_idle kernelPair_init (.call .start (risen_step (by decide) _))
    (.call .start (.interrupt risen_asserts (.interrupt rfl)))

end Ulmix.Interrupts

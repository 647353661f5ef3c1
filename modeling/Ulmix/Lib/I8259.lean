import Mathlib
/-!
# Two 8259 interrupt controllers in cascade

A controller latches the rising edges of eight lines, line 0 first in priority, and has a line in service from
its acknowledgement to the end-of-interrupt command; only lines before those in service ask for attention. The
slave asks through line `wire` of the master. Rotating priorities, polling and the special modes are left out.
-/

namespace Ulmix.Lib.I8259

/-- What a controller takes the next byte on its data port for. -/
inductive Expects where
  | icw2 | icw3 | icw4 | mask
  deriving DecidableEq, Repr

structure Chip where
  expects : Expects
  /-- ICW1 announced an ICW4. -/
  needs_icw4 : Bool
  /-- ICW1 said there is no second controller, so no ICW3. -/
  single : Bool
  auto_eoi : Bool
  /-- The vector of line 0. -/
  vector : Nat
  cascade : UInt8
  mask : Finset (Fin 8)
  requests : Finset (Fin 8)
  service : Finset (Fin 8)
  deriving DecidableEq

/-- The lines whose bits are set. -/
def linesOf (v : UInt8) : Finset (Fin 8) := Finset.univ.filter fun i => v.toNat.testBit i

namespace Chip

/-- The non-specific end of interrupt: of the lines in service the first leaves. -/
def eoi (c : Chip) : Chip :=
  if h : c.service.Nonempty then { c with service := c.service.erase (c.service.min' h) } else c

/-- A byte to the command port: ICW1, OCW3 or OCW2. -/
def command (v : UInt8) (c : Chip) : Chip :=
  if v.toNat.testBit 4 then
    { c with
      expects := .icw2
      needs_icw4 := v.toNat.testBit 0
      single := v.toNat.testBit 1
      auto_eoi := false
      mask := ∅
      requests := ∅ }
  else if v.toNat.testBit 3 then c
  else if v.toNat / 32 = 1 then c.eoi
  else if v.toNat / 32 = 3 then { c with service := c.service.filter fun i => i.val ≠ v.toNat % 8 }
  else c

/-- After ICW2 or ICW3. -/
def toIcw4 (c : Chip) : Expects := if c.needs_icw4 then .icw4 else .mask

/-- A byte to the data port: what it is depends on the commands before. -/
def data (v : UInt8) (c : Chip) : Chip :=
  match c.expects with
  | .icw2 => { c with vector := v.toNat / 8 * 8, expects := if c.single then c.toIcw4 else .icw3 }
  | .icw3 => { c with cascade := v, expects := c.toIcw4 }
  | .icw4 => { c with auto_eoi := v.toNat.testBit 1, expects := .mask }
  | .mask => { c with mask := linesOf v }

/-- The lines that ask for attention, of those raised. -/
def due (c : Chip) (raised : Finset (Fin 8)) : Finset (Fin 8) :=
  if c.expects = .mask then (raised \ c.mask).filter fun i => ∀ j ∈ c.service, i < j else ∅

/-- The line answered with. A request that is gone by then is answered as line 7, which is not put in service. -/
def ack (c : Chip) (raised : Finset (Fin 8)) : Fin 8 × Chip :=
  if h : (c.due raised).Nonempty then
    ((c.due raised).min' h,
      { c with
        requests := c.requests.erase ((c.due raised).min' h)
        service := if c.auto_eoi then c.service else insert ((c.due raised).min' h) c.service })
  else (7, c)

variable {c : Chip} {raised : Finset (Fin 8)}

/-- With nothing masked and nothing in service every line raised asks. -/
theorem due_idle (he : c.expects = .mask) (hm : c.mask = ∅) (hs : c.service = ∅) : c.due raised = raised := by
  unfold due
  rw [if_pos he, hm, hs, Finset.sdiff_empty]
  exact Finset.filter_true_of_mem fun i _ j hj => absurd hj (Finset.notMem_empty j)

theorem ack_none (h : c.due raised = ∅) : c.ack raised = (7, c) := by
  unfold ack
  rw [dif_neg]
  rw [h]
  exact Finset.not_nonempty_empty

/-- One that asks is answered and put in service, and no line before it was asking. -/
theorem ack_some (h : (c.due raised).Nonempty) (ha : c.auto_eoi = false) :
    ∃ i ∈ c.due raised, (∀ j ∈ c.due raised, i ≤ j) ∧
      c.ack raised = (i, { c with requests := c.requests.erase i, service := insert i c.service }) := by
  refine ⟨(c.due raised).min' h, Finset.min'_mem _ h, fun j hj => Finset.min'_le _ j hj, ?_⟩
  unfold ack
  rw [dif_pos h, ha]
  rfl

theorem eoi_empty (h : c.service = ∅) : c.eoi = c := by
  unfold eoi
  rw [dif_neg]
  rw [h]
  exact Finset.not_nonempty_empty

/-- With at most one line in service the end of interrupt leaves none. -/
theorem eoi_singleton {i : Fin 8} (h : c.service ⊆ {i}) : c.eoi = { c with service := ∅ } := by
  rcases Finset.subset_singleton_iff.1 h with h | h
  · rw [eoi_empty h, ← h]
  · unfold eoi
    simp [h]

/-- `0x20`: the non-specific end of interrupt. -/
@[simp] theorem command_eoi : c.command 0x20 = c.eoi := rfl

end Chip

/-- A request line of the pair. -/
inductive Line where
  | master (i : Fin 8)
  | slave (i : Fin 8)
  deriving DecidableEq, Repr, Fintype

/-- The line of the master that the slave's output is wired to. -/
def wire : Fin 8 := 2

structure Pair where
  master : Chip
  slave : Chip
  deriving DecidableEq

namespace Pair

/-- The master's line `wire` is high while a line of the slave asks. -/
def raised (p : Pair) : Finset (Fin 8) :=
  if (p.slave.due p.slave.requests).Nonempty then insert wire p.master.requests else p.master.requests

/-- The processor's interrupt pin. -/
def asserts (p : Pair) : Prop := (p.master.due p.raised).Nonempty

instance (p : Pair) : Decidable p.asserts := inferInstanceAs (Decidable (Finset.Nonempty _))

/-- Each controller knows its part: the master that the slave answers for line `wire`, the slave that it is it. -/
def Cascaded (p : Pair) : Prop := p.master.cascade.toNat.testBit wire ∧ p.slave.cascade.toNat % 8 = wire

instance (p : Pair) : Decidable p.Cascaded := inferInstanceAs (Decidable (_ ∧ _))

def outb (port : Nat) (v : UInt8) (p : Pair) : Pair :=
  if port = 0x20 then { p with master := p.master.command v }
  else if port = 0x21 then { p with master := p.master.data v }
  else if port = 0xa0 then { p with slave := p.slave.command v }
  else if port = 0xa1 then { p with slave := p.slave.data v }
  else p

/-- A line rises. -/
def raise (l : Line) (p : Pair) : Pair :=
  match l with
  | .master i => { p with master := { p.master with requests := insert i p.master.requests } }
  | .slave i => { p with slave := { p.slave with requests := insert i p.slave.requests } }

/-- A line falls before it was answered. -/
def fall (l : Line) (p : Pair) : Pair :=
  match l with
  | .master i => { p with master := { p.master with requests := p.master.requests.erase i } }
  | .slave i => { p with slave := { p.slave with requests := p.slave.requests.erase i } }

/-- The lines `gone` of the slave fall while the processor acknowledges. -/
def lose (gone : Finset (Fin 8)) (p : Pair) : Pair :=
  { p with slave := { p.slave with requests := p.slave.requests \ gone } }

/-- The processor acknowledges: the master answers, or lets the slave answer, from which the lines `gone` are then
gone. What comes back is the vector. -/
def ack (gone : Finset (Fin 8)) (p : Pair) : Nat × Pair :=
  let a := p.master.ack p.raised
  let slave := (p.lose gone).slave
  if a.1 = wire ∧ p.Cascaded then
    let b := slave.ack slave.requests
    (slave.vector + b.1, ⟨a.2, b.2⟩)
  else (p.master.vector + a.1, ⟨a.2, slave⟩)

/-- The line was raised, and not answered yet. -/
def Pending (p : Pair) : Line → Prop
  | .master i => i ∈ p.master.requests
  | .slave i => i ∈ p.slave.requests

instance (p : Pair) (l : Line) : Decidable (p.Pending l) := by
  cases l <;> exact inferInstanceAs (Decidable (_ ∈ _))

/-- The vector a line is answered with. -/
def vector (p : Pair) : Line → Nat
  | .master i => p.master.vector + i
  | .slave i => p.slave.vector + i

end Pair

/-- The order in which lines are answered: the slave's in place of the line it is wired to. -/
def Line.rank : Line → Nat
  | .master i => if i < wire then i else i + 8
  | .slave i => wire + i

/-- A line a device can be wired to. -/
def Line.Wired (l : Line) : Prop := l ≠ .master wire

instance (l : Line) : Decidable l.Wired := inferInstanceAs (Decidable (_ ≠ _))

/-- The lines of devices, in the order in which they are answered. -/
def Line.order : List Line :=
  [.master 0, .master 1] ++ (List.finRange 8).map .slave ++ [.master 3, .master 4, .master 5, .master 6, .master 7]

theorem Line.order_sorted : Line.order.Pairwise fun k l => k.rank < l.rank := by decide

theorem Line.mem_order : ∀ l : Line, l ∈ Line.order ↔ l.Wired := by decide

/-- Of a sorted list what satisfies `p` starts with the first that does, and the rest is what else satisfies it. -/
theorem filter_first {α : Type} {r : α → Nat} {p q : α → Prop} [DecidablePred p] [DecidablePred q] {a : α} (hp : p a)
    (hfirst : ∀ b, p b → r a ≤ r b) (hq : ∀ b, q b ↔ p b ∧ b ≠ a) : ∀ {xs : List α},
    xs.Pairwise (fun b c => r b < r c) → a ∈ xs → xs.filter p = a :: xs.filter q
  | [], _, h => absurd h List.not_mem_nil
  | x :: xs, hs, h => by
    obtain ⟨hx, hxs⟩ := List.pairwise_cons.1 hs
    by_cases hpx : p x
    · -- the first that satisfies `p` can only be `a`
      have hxa : x = a := by
        rcases List.mem_cons.1 h with rfl | hmem
        · rfl
        · exact absurd (hfirst x hpx) (not_le.2 (hx a hmem))
      subst hxa
      have hnq : ¬ q x := fun h => ((hq x).1 h).2 rfl
      rw [List.filter_cons_of_pos (by simpa using hpx), List.filter_cons_of_neg (by simpa using hnq)]
      congr 1
      refine List.filter_congr fun b hb =>
        decide_eq_decide.2 ⟨fun hpb => (hq b).2 ⟨hpb, ?_⟩, fun hqb => ((hq b).1 hqb).1⟩
      rintro rfl
      exact absurd (hx b hb) (lt_irrefl _)
    · have hnq : ¬ q x := fun h => hpx ((hq x).1 h).1
      have hmem : a ∈ xs := (List.mem_cons.1 h).resolve_left fun heq => hpx (heq ▸ hp)
      rw [List.filter_cons_of_neg (by simpa using hpx), List.filter_cons_of_neg (by simpa using hnq)]
      exact filter_first hp hfirst hq hxs hmem

/-! ## What a pair that is set up answers -/

namespace Pair

/-- Both controllers are set up, with nothing masked and no device on the master's line `wire`. -/
structure Ready (p : Pair) : Prop where
  master : p.master.expects = .mask ∧ p.master.mask = ∅ ∧ p.master.auto_eoi = false
  slave : p.slave.expects = .mask ∧ p.slave.mask = ∅ ∧ p.slave.auto_eoi = false
  cascaded : p.Cascaded
  free : wire ∉ p.master.requests

/-- Nothing is in service. -/
structure Idle (p : Pair) : Prop where
  master : p.master.service = ∅
  slave : p.slave.service = ∅

/-- `p` after the line `l` was answered. -/
def serve (l : Line) (p : Pair) : Pair :=
  match l with
  | .master i =>
    { p with master := { p.master with requests := p.master.requests.erase i, service := insert i p.master.service } }
  | .slave i =>
    { p with
      master := { p.master with service := insert wire p.master.service }
      slave := { p.slave with requests := p.slave.requests.erase i, service := insert i p.slave.service } }

variable {p : Pair}

theorem Ready.pending_wired (h : p.Ready) {l : Line} (hl : p.Pending l) : l.Wired := by
  rintro rfl
  exact h.free hl

theorem serve_pending (l k : Line) : (p.serve l).Pending k ↔ p.Pending k ∧ k ≠ l := by
  cases l <;> cases k <;> simp [serve, Pending, and_comm]

theorem fall_pending (l k : Line) : (p.fall l).Pending k ↔ p.Pending k ∧ k ≠ l := by
  cases l <;> cases k <;> simp [fall, Pending, and_comm]

theorem raise_pending (l k : Line) : (p.raise l).Pending k ↔ p.Pending k ∨ k = l := by
  cases l <;> cases k <;> simp [raise, Pending, or_comm]

theorem lose_pending (gone : Finset (Fin 8)) (k : Line) :
    (p.lose gone).Pending k ↔ p.Pending k ∧ ∀ j ∈ gone, k ≠ .slave j := by
  cases k with
  | master i => simp [lose, Pending]
  | slave i =>
    simp only [lose, Pending, Finset.mem_sdiff, ne_eq, Line.slave.injEq]
    exact and_congr_right fun _ => ⟨fun h j hj hij => h (hij ▸ hj), fun h hi => h i hi rfl⟩

theorem lose_empty (p : Pair) : p.lose ∅ = p := by
  unfold lose
  rw [Finset.sdiff_empty]

/-- While nothing is in service the slave asks for all it was raised. -/
theorem Ready.raised_eq (h : p.Ready) (hi : p.Idle) :
    p.raised = if p.slave.requests.Nonempty then insert wire p.master.requests else p.master.requests := by
  unfold raised
  rw [Chip.due_idle h.slave.1 h.slave.2.1 hi.slave]

theorem Ready.master_due (h : p.Ready) (hi : p.Idle) : p.master.due p.raised = p.raised :=
  Chip.due_idle h.master.1 h.master.2.1 hi.master

theorem Ready.lose (h : p.Ready) (gone : Finset (Fin 8)) : (p.lose gone).Ready :=
  ⟨h.master, h.slave, h.cascaded, h.free⟩

theorem Ready.raise (h : p.Ready) {l : Line} (hl : l.Wired) : (p.raise l).Ready := by
  cases l with
  | master i =>
    refine ⟨h.master, h.slave, h.cascaded, fun hw => ?_⟩
    rcases Finset.mem_insert.1 hw with heq | hw
    · exact hl (congrArg Line.master heq.symm)
    · exact h.free hw
  | slave i => exact ⟨h.master, h.slave, h.cascaded, h.free⟩

theorem Ready.fall (h : p.Ready) (l : Line) : (p.fall l).Ready := by
  cases l with
  | master i => exact ⟨h.master, h.slave, h.cascaded, fun hw => h.free (Finset.mem_of_mem_erase hw)⟩
  | slave i => exact ⟨h.master, h.slave, h.cascaded, h.free⟩

theorem Ready.serve (h : p.Ready) (l : Line) : (p.serve l).Ready := by
  cases l with
  | master i => exact ⟨h.master, h.slave, h.cascaded, fun hw => h.free (Finset.mem_of_mem_erase hw)⟩
  | slave i => exact ⟨h.master, h.slave, h.cascaded, h.free⟩

/-- The pin is high exactly while some line is pending. -/
theorem Ready.asserts_iff (h : p.Ready) (hi : p.Idle) : p.asserts ↔ ∃ l, p.Pending l := by
  unfold asserts
  rw [h.master_due hi, h.raised_eq hi]
  constructor
  · intro hne
    by_cases hs : p.slave.requests.Nonempty
    · obtain ⟨j, hj⟩ := hs
      exact ⟨.slave j, hj⟩
    · rw [if_neg hs] at hne
      obtain ⟨i, hi⟩ := hne
      exact ⟨.master i, hi⟩
  · rintro ⟨l, hl⟩
    cases l with
    | master i =>
      apply Finset.Nonempty.mono (s := p.master.requests)
      · split
        · exact Finset.subset_insert _ _
        · exact Finset.Subset.refl _
      · exact ⟨i, hl⟩
    | slave j =>
      rw [if_pos ⟨j, hl⟩]
      exact Finset.insert_nonempty _ _

/-- What an acknowledgement comes to. -/
inductive Answer (p : Pair) (gone : Finset (Fin 8)) : Nat × Pair → Prop
  /-- The line pending first is answered. -/
  | line (l : Line) : (p.lose gone).Pending l → (∀ k, (p.lose gone).Pending k → l.rank ≤ k.rank) →
    Answer p gone (p.vector l, (p.lose gone).serve l)
  /-- Nothing was pending: the master answers with its line 7. -/
  | nothing : (∀ k, ¬ p.Pending k) → Answer p gone (p.vector (.master 7), p.lose gone)
  /-- All that the slave had asked for is gone: it answers with its line 7, and the master has it in service. -/
  | slave : (∃ j, p.Pending (.slave j)) → (∀ j, ¬ (p.lose gone).Pending (.slave j)) →
    Answer p gone (p.vector (.slave 7),
      { p.lose gone with master := { p.master with service := insert wire p.master.service } })

/-- A line of the master that is not behind `wire` comes before all lines of the slave. -/
theorem rank_master_lt {i : Fin 8} (h : i < wire) (j : Fin 8) : (Line.master i).rank < (Line.slave j).rank := by
  simp only [Line.rank, if_pos h]
  have : i.val < wire.val := h
  omega

theorem rank_slave_lt {i : Fin 8} (h : wire < i) (j : Fin 8) : (Line.slave j).rank < (Line.master i).rank := by
  simp only [Line.rank, if_neg (not_lt_of_gt h)]
  have : wire.val < i.val := h
  have := j.isLt
  omega

theorem rank_master_mono {i k : Fin 8} (h : i ≤ k) : (Line.master i).rank ≤ (Line.master k).rank := by
  revert i k
  decide

theorem rank_slave_mono {i k : Fin 8} (h : i ≤ k) : (Line.slave i).rank ≤ (Line.slave k).rank :=
  Nat.add_le_add_left h _

theorem Ready.mem_raised (h : p.Ready) (hi : p.Idle) {i : Fin 8} :
    i ∈ p.raised ↔ i ∈ p.master.requests ∨ (i = wire ∧ p.slave.requests.Nonempty) := by
  rw [h.raised_eq hi]
  by_cases hs : p.slave.requests.Nonempty
  · rw [if_pos hs, Finset.mem_insert]
    tauto
  · rw [if_neg hs]
    tauto

/-- The slave's part of an acknowledgement the master leaves to it. -/
theorem Ready.ack_slave (h : p.Ready) (hi : p.Idle) (gone : Finset (Fin 8))
    (hmin : ∀ k ∈ p.raised, wire ≤ k) (hs : p.slave.requests.Nonempty) :
    Answer p gone ((p.lose gone).slave.vector + ((p.lose gone).slave.ack (p.lose gone).slave.requests).1,
      ⟨{ p.master with requests := p.master.requests.erase wire, service := insert wire p.master.service },
        ((p.lose gone).slave.ack (p.lose gone).slave.requests).2⟩) := by
  have hdue : (p.lose gone).slave.due (p.lose gone).slave.requests = (p.lose gone).slave.requests :=
    Chip.due_idle h.slave.1 h.slave.2.1 hi.slave
  have herase : p.master.requests.erase wire = p.master.requests := Finset.erase_eq_of_notMem h.free
  rw [herase]
  by_cases hne : (p.lose gone).slave.requests.Nonempty
  · obtain ⟨j, hj, hjmin, hack⟩ := Chip.ack_some (c := (p.lose gone).slave)
      (by rw [hdue]; exact hne) h.slave.2.2
    rw [hdue] at hj hjmin
    rw [hack]
    refine .line (.slave j) hj fun k hk => ?_
    cases k with
    | master i =>
      -- a master's line that is pending is behind the wire
      have hle : wire ≤ i := hmin i ((h.mem_raised hi).2 (.inl hk))
      have hne : wire ≠ i := fun heq => h.free (heq ▸ hk)
      exact (rank_slave_lt (lt_of_le_of_ne hle hne) j).le
    | slave i => exact rank_slave_mono (hjmin i hk)
  · rw [Chip.ack_none (by rw [hdue]; exact Finset.not_nonempty_iff_eq_empty.1 hne)]
    exact .slave hs fun j hj => hne ⟨j, hj⟩

/-- With nothing in service an acknowledgement is one of the three answers. -/
theorem Ready.ack (h : p.Ready) (hi : p.Idle) (gone : Finset (Fin 8)) : Answer p gone (p.ack gone) := by
  by_cases hd : (p.master.due p.raised).Nonempty
  · obtain ⟨i, hmem, hmin, hack⟩ := Chip.ack_some hd h.master.2.2
    rw [h.master_due hi] at hmem hmin
    unfold Pair.ack
    rw [hack]
    by_cases hw : i = wire
    · subst hw
      have hs : p.slave.requests.Nonempty := (((h.mem_raised hi).1 hmem).resolve_left h.free).2
      rw [if_pos ⟨rfl, h.cascaded⟩]
      exact h.ack_slave hi gone hmin hs
    · rw [if_neg fun hc => hw hc.1]
      have hreq : i ∈ p.master.requests := ((h.mem_raised hi).1 hmem).resolve_right fun hc => hw hc.1
      refine .line (.master i) hreq fun k hk => ?_
      cases k with
      | master k => exact rank_master_mono (hmin k ((h.mem_raised hi).2 (.inl hk)))
      | slave k =>
        have hle : i ≤ wire := hmin wire ((h.mem_raised hi).2 (.inr ⟨rfl, k, ((lose_pending gone _).1 hk).1⟩))
        exact (rank_master_lt (lt_of_le_of_ne hle hw) k).le
  · have hnone : ∀ k, ¬ p.Pending k := fun k hk => hd ((h.asserts_iff hi).2 ⟨k, hk⟩)
    unfold Pair.ack
    rw [Chip.ack_none (Finset.not_nonempty_iff_eq_empty.1 hd),
      if_neg fun hc => absurd (show (7 : Fin 8) = wire from hc.1) (by decide)]
    exact .nothing hnone

end Pair

end Ulmix.Lib.I8259

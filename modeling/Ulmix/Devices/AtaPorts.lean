import Ulmix.Devices.Ata
/-!
# Reading sectors through the ports (`drivers/ata.c`)

The registers of LBA48 hold two bytes each: what is written first is the high half
(`Channel.decode`). So nine writes make a request, whose count has 16 bits, and a count
of zero stands for 65536; the loop that drains the sectors goes by the count it was given.

What the status register shows is up to the drive: a stream of bytes for each sector,
read one poll after the other. The driver waits for one bit at a time and for nothing
else, so it returns only when every sector comes (`read_loop_ok`); where a drive
reports an error instead, it waits on. The fuel of a run bounds the polls of each
wait: a call that returns does so with all fuel from some amount on, and one that
hangs runs out of any.
-/
open Ulmix.Lib Ulmix.Sync

namespace Ulmix.AtaPorts

/-! ## The channel -/

def ATA_SCOUNT : Nat := 2
def ATA_LBALO : Nat := 3
def ATA_LBAMID : Nat := 4
def ATA_LBAHI : Nat := 5
def ATA_DR_HD : Nat := 6
def ATA_COMMND : Nat := 7

def CMD_READ_EXT : UInt8 := 0x24

/-- Bits of the status register. -/
def ERROR : UInt8 := 0x01
def DRQ : UInt8 := 0x08
def DF : UInt8 := 0x20
def RDY : UInt8 := 0x40
def BSY : UInt8 := 0x80

def BLOCK_SIZE : Nat := 512

/-- A register two bytes deep. -/
structure Queue where
  previous : UInt8
  last : UInt8

def Queue.push (q : Queue) (v : UInt8) : Queue := ⟨q.last, v⟩

/-- What a drive is asked for. -/
structure Request where
  count : Nat
  lba : Nat
  deriving DecidableEq, Repr

/-- The registers of a channel with its drive, the request the drive works on, how many of its
sectors were read and how often the status was polled since; and the caller's buffer and lock. -/
structure Channel where
  dr_hd : UInt8
  scount : Queue
  lbalo : Queue
  lbamid : Queue
  lbahi : Queue
  request : Option Request
  served : Nat
  polls : Nat
  buffer : Nat → UInt8
  controller_lock : Mutex

/-- A drive: the status at each poll before a command and while sector `i` of a request is
awaited, and the bytes of each sector. -/
structure Drive where
  before : Nat → UInt8
  answer : Nat → Nat → UInt8
  sector : Nat → Nat → UInt8

/-- The status at poll `n`. When all sectors were read there is no more data. -/
def Drive.status (drive : Drive) (ch : Channel) (n : Nat) : UInt8 :=
  match ch.request with
  | none => drive.before n
  | some r => if ch.served < r.count then drive.answer ch.served n else RDY

/-- The request in the registers. -/
def Channel.decode (ch : Channel) : Request where
  count :=
    let n := ch.scount.previous.toNat * 2 ^ 8 + ch.scount.last.toNat
    if n = 0 then 65536 else n
  lba := ch.lbahi.previous.toNat * 2 ^ 40 + ch.lbamid.previous.toNat * 2 ^ 32 + ch.lbalo.previous.toNat * 2 ^ 24 +
    ch.lbahi.last.toNat * 2 ^ 16 + ch.lbamid.last.toNat * 2 ^ 8 + ch.lbalo.last.toNat

/-- `outb`, with the register for the port. -/
def outb (reg : Nat) (v : UInt8) : Exec Channel Unit := modify fun ch =>
  if reg = ATA_DR_HD then { ch with dr_hd := v }
  else if reg = ATA_SCOUNT then { ch with scount := ch.scount.push v }
  else if reg = ATA_LBALO then { ch with lbalo := ch.lbalo.push v }
  else if reg = ATA_LBAMID then { ch with lbamid := ch.lbamid.push v }
  else if reg = ATA_LBAHI then { ch with lbahi := ch.lbahi.push v }
  else if reg = ATA_COMMND ∧ v = CMD_READ_EXT then { ch with request := some ch.decode, served := 0, polls := 0 }
  else ch

/-- `inb(dev->base_io + ATA_STATUS)` -/
def inb_status (drive : Drive) : Exec Channel UInt8 := do
  let ch ← get
  set { ch with polls := ch.polls + 1 }
  return drive.status ch ch.polls

/-- A sector from the data register to the buffer; without data on it the bus reads as ones. -/
def repinsw (drive : Drive) (pos : Nat) : Exec Channel Unit := modify fun ch =>
  let fill := fun (bytes : Nat → UInt8) k => if pos ≤ k ∧ k < pos + BLOCK_SIZE then bytes (k - pos) else ch.buffer k
  match ch.request with
  | none => { ch with buffer := fill fun _ => 0xff }
  | some r =>
    if ch.served < r.count then
      { ch with buffer := fill (drive.sector (r.lba + ch.served)), served := ch.served + 1, polls := 0 }
    else { ch with buffer := fill fun _ => 0xff }

def on_lock (x : Exec Mutex Unit) : Exec Channel Unit :=
  Exec.zoom Channel.controller_lock (fun m ch => { ch with controller_lock := m }) x

/-! ## The driver -/

/-- Poll the status until it is as wanted. -/
def poll_until (drive : Drive) (wanted : UInt8 → Bool) : Nat → Exec Channel Unit
  | 0 => Exec.fault .diverges
  | fuel + 1 => do
    if wanted (← inb_status drive) then pure () else poll_until drive wanted fuel

def wait_bsy (drive : Drive) : Nat → Exec Channel Unit := poll_until drive fun status => status &&& BSY = 0

def wait_drq (drive : Drive) : Nat → Exec Channel Unit := poll_until drive fun status => status &&& DRQ ≠ 0

/-- The writes of `ata_read` that make the request; `sizeof(size_t)` is four. -/
def write_request (dev : Disks.AtaDev) (count offset : Nat) : Exec Channel Unit := do
  outb ATA_DR_HD (if dev.type % 2 = 0 then 0x40 else 0x50)
  outb ATA_SCOUNT (UInt8.ofNat ((count >>> 8) &&& 0xff))
  outb ATA_LBALO (UInt8.ofNat ((offset >>> 24) &&& 0xff))
  outb ATA_LBAMID 0
  outb ATA_LBAHI 0
  outb ATA_SCOUNT (UInt8.ofNat (count &&& 0xff))
  outb ATA_LBALO (UInt8.ofNat (offset &&& 0xff))
  outb ATA_LBAMID (UInt8.ofNat ((offset >>> 8) &&& 0xff))
  outb ATA_LBAHI (UInt8.ofNat ((offset >>> 16) &&& 0xff))

/-- The loop of `ata_read` from sector `i` on, with `n` to go. -/
def read_loop (drive : Drive) (fuel : Nat) : Nat → Nat → Exec Channel Unit
  | 0, _ => pure ()
  | n + 1, i => do
    wait_bsy drive fuel
    wait_drq drive fuel
    repinsw drive (BLOCK_SIZE * i)
    read_loop drive fuel n (i + 1)

def ata_read (drive : Drive) (fuel : Nat) (dev : Disks.AtaDev) (count offset : Nat) : Exec Channel Int := do
  if count = 0 then return 0
  on_lock mutex_lock
  write_request dev count offset
  wait_bsy drive fuel
  outb ATA_COMMND CMD_READ_EXT
  read_loop drive fuel count 0
  on_lock mutex_unlock
  return Int.bmod count (2 ^ 32)

/-! ## The request -/

/-- What the registers hold then. -/
def requested (dev : Disks.AtaDev) (count offset : Nat) (ch : Channel) : Channel :=
  { ch with
    dr_hd := if dev.type % 2 = 0 then 0x40 else 0x50
    scount := ⟨UInt8.ofNat ((count >>> 8) &&& 0xff), UInt8.ofNat (count &&& 0xff)⟩
    lbalo := ⟨UInt8.ofNat ((offset >>> 24) &&& 0xff), UInt8.ofNat (offset &&& 0xff)⟩
    lbamid := ⟨0, UInt8.ofNat ((offset >>> 8) &&& 0xff)⟩
    lbahi := ⟨0, UInt8.ofNat ((offset >>> 16) &&& 0xff)⟩ }

theorem write_request_run (dev : Disks.AtaDev) (count offset : Nat) (ch : Channel) :
    write_request dev count offset ch = .ok ((), requested dev count offset ch) := rfl

theorem byte_toNat (n : Nat) : (UInt8.ofNat (n &&& 0xff)).toNat = n % 256 := by
  rw [show (0xff : Nat) = 2 ^ 8 - 1 by decide, Nat.and_two_pow_sub_one_eq_mod]
  simp

theorem word_bytes {n : Nat} (h : n < 2 ^ 32) :
    (0 : UInt8).toNat * 2 ^ 40 + (0 : UInt8).toNat * 2 ^ 32 + n / 2 ^ 24 % 256 * 2 ^ 24 + n / 2 ^ 16 % 256 * 2 ^ 16 +
      n / 2 ^ 8 % 256 * 2 ^ 8 + n % 256 = n := by
  simp only [UInt8.toNat_zero, Nat.zero_mul, Nat.zero_add]
  omega

/-- The count that comes out has 16 bits, and the address is the one put in. -/
theorem requested_decode (dev : Disks.AtaDev) {count offset : Nat} (hoffset : offset < 2 ^ 32) (ch : Channel) :
    (requested dev count offset ch).decode = ⟨if count % 65536 = 0 then 65536 else count % 65536, offset⟩ := by
  unfold Channel.decode requested
  dsimp only
  simp only [byte_toNat, Nat.shiftRight_eq_div_pow]
  have hcount : count / 2 ^ 8 % 256 * 2 ^ 8 + count % 256 = count % 65536 := by omega
  rw [hcount, word_bytes hoffset]

/-! ## Waiting -/

section
variable {drive : Drive} {wanted : UInt8 → Bool} {ch ch' : Channel}

theorem poll_until_succ (fuel : Nat) (ch : Channel) : poll_until drive wanted (fuel + 1) ch =
    if wanted (drive.status ch ch.polls) then .ok ((), { ch with polls := ch.polls + 1 })
    else poll_until drive wanted fuel { ch with polls := ch.polls + 1 } := by
  have hstatus : inb_status drive ch = .ok (drive.status ch ch.polls, { ch with polls := ch.polls + 1 }) := rfl
  rw [poll_until, Exec.bind_of_ok hstatus]
  split <;> rfl

/-- A wait ends at the first status wanted. -/
theorem poll_until_run : ∀ (n : Nat) {ch : Channel}, wanted (drive.status ch (ch.polls + n)) →
    (∀ m < n, ¬ wanted (drive.status ch (ch.polls + m))) → ∀ fuel > n,
    poll_until drive wanted fuel ch = .ok ((), { ch with polls := ch.polls + n + 1 }) := by
  intro n
  induction n with
  | zero =>
    intro ch hn _ fuel hfuel
    obtain ⟨fuel, rfl⟩ : ∃ k, fuel = k + 1 := ⟨fuel - 1, by omega⟩
    rw [Nat.add_zero] at hn ⊢
    rw [poll_until_succ, if_pos hn]
  | succ n ih =>
    intro ch hn hbefore fuel hfuel
    obtain ⟨fuel, rfl⟩ : ∃ k, fuel = k + 1 := ⟨fuel - 1, by omega⟩
    have hshift : ∀ m, ch.polls + 1 + m = ch.polls + (m + 1) := fun m => by omega
    have hnext := @ih { ch with polls := ch.polls + 1 } (by rw [hshift]; exact hn)
      (fun m hm => by rw [hshift]; exact hbefore (m + 1) (by omega)) fuel (by omega)
    have hfirst := hbefore 0 (by omega)
    rw [Nat.add_zero] at hfirst
    rw [poll_until_succ, if_neg hfirst, hnext, hshift n]

/-- What ends a wait is a status that was wanted. -/
theorem poll_until_ok (fuel : Nat) : ∀ {ch : Channel}, poll_until drive wanted fuel ch = .ok ((), ch') →
    ∃ n, wanted (drive.status ch (ch.polls + n)) ∧ ch' = { ch with polls := ch.polls + n + 1 } := by
  induction fuel with
  | zero =>
    intro ch h
    cases h
  | succ fuel ih =>
    intro ch h
    rw [poll_until_succ] at h
    split at h
    · rename_i hwanted
      cases h
      exact ⟨0, hwanted, rfl⟩
    · obtain ⟨n, hn, rfl⟩ := ih h
      have hshift : ch.polls + 1 + n = ch.polls + (n + 1) := by omega
      refine ⟨n + 1, hshift ▸ hn, ?_⟩
      rw [← hshift]

/-- A wait for a status that never comes does not end. -/
theorem poll_until_never (fuel : Nat) : ∀ {ch : Channel}, (∀ n ≥ ch.polls, ¬ wanted (drive.status ch n)) →
    poll_until drive wanted fuel ch = .error .diverges := by
  induction fuel with
  | zero => exact fun _ => rfl
  | succ fuel ih =>
    intro ch h
    rw [poll_until_succ, if_neg (h ch.polls le_rfl)]
    exact ih fun n hn => h n (by have : ch.polls + 1 ≤ n := hn; omega)

theorem poll_until_or (fuel : Nat) : ∀ {ch : Channel}, poll_until drive wanted fuel ch = .error .diverges ∨
    ∃ n, poll_until drive wanted fuel ch = .ok ((), { ch with polls := n }) := by
  induction fuel with
  | zero => exact .inl rfl
  | succ fuel ih =>
    intro ch
    rw [poll_until_succ]
    split
    · exact .inr ⟨_, rfl⟩
    · rcases @ih { ch with polls := ch.polls + 1 } with h | ⟨n, h⟩
      · exact .inl h
      · exact .inr ⟨n, h⟩

/-- A wait for something that comes up some time has enough fuel. -/
theorem poll_until_enough (h : ∃ n, wanted (drive.status ch (ch.polls + n))) :
    ∃ n, ∀ fuel > n, poll_until drive wanted fuel ch = .ok ((), { ch with polls := ch.polls + n + 1 }) := by
  classical
  exact ⟨Nat.find h, poll_until_run (Nat.find h) (Nat.find_spec h) fun m hm => Nat.find_min h hm⟩

end

/-! ## What a drive answers -/

/-- In the end the data is there. -/
def Served (answer : Nat → UInt8) : Prop := ∃ n, ∀ m ≥ n, answer m &&& BSY = 0 ∧ answer m &&& DRQ ≠ 0

/-- In the end there is an error, and no data. -/
def Failed (answer : Nat → UInt8) : Prop :=
  ∃ n, ∀ m ≥ n, answer m &&& BSY = 0 ∧ answer m &&& DRQ = 0 ∧ (answer m &&& ERROR ≠ 0 ∨ answer m &&& DF ≠ 0)

theorem Served.not_failed {answer : Nat → UInt8} (h : Served answer) : ¬ Failed answer := by
  rintro ⟨n, hn⟩
  obtain ⟨m, hm⟩ := h
  exact (hm (max m n) (le_max_left _ _)).2 (hn (max m n) (le_max_right _ _)).2.1

/-- The drive becomes ready for a command. -/
def Ready (drive : Drive) (ch : Channel) : Prop := ∃ n, drive.status ch (ch.polls + n) &&& BSY = 0

/-! ## Reading -/

section
variable {drive : Drive} {ch ch' : Channel} {r : Request}

/-- The channel when sector `i` was read. -/
def Channel.sector_read (drive : Drive) (r : Request) (i pos : Nat) (ch : Channel) : Channel :=
  { ch with
    buffer := fun k => if pos ≤ k ∧ k < pos + BLOCK_SIZE then drive.sector (r.lba + i) (k - pos) else ch.buffer k
    served := i + 1
    polls := 0 }

theorem repinsw_run (hr : ch.request = some r) (hlt : ch.served < r.count) (pos : Nat) :
    repinsw drive pos ch = .ok ((), ch.sector_read drive r ch.served pos) := by
  unfold repinsw
  rw [Exec.modify_apply]
  simp only [hr, if_pos hlt]
  unfold Channel.sector_read
  rw [hr]

/-- A sector that is served is waited for and read. -/
theorem sector_run (hr : ch.request = some r) (hlt : ch.served < r.count)
    (hserved : Served (drive.answer ch.served)) (pos : Nat) :
    ∃ n, ∀ fuel > n, (do wait_bsy drive fuel; wait_drq drive fuel; repinsw drive pos) ch =
      .ok ((), ch.sector_read drive r ch.served pos) := by
  obtain ⟨n, hn⟩ := hserved
  have hstatus : ∀ p, drive.status { ch with polls := p } = drive.answer ch.served := by
    intro p
    funext m
    simp [Drive.status, hr, hlt]
  have hch : drive.status ch = drive.answer ch.served := hstatus ch.polls
  obtain ⟨a, ha⟩ := @poll_until_enough drive (fun status => status &&& BSY = 0) ch
    ⟨n, by rw [hch]; simpa using (hn _ (by omega)).1⟩
  obtain ⟨b, hb⟩ := @poll_until_enough drive (fun status => status &&& DRQ ≠ 0) { ch with polls := ch.polls + a + 1 }
    ⟨n, by rw [hstatus]; simpa using (hn _ (by omega)).2⟩
  refine ⟨max a b, fun fuel hfuel => ?_⟩
  unfold wait_bsy wait_drq
  rw [Exec.bind_of_ok (ha fuel (by omega)), Exec.bind_of_ok (hb fuel (by omega))]
  exact @repinsw_run drive { ch with polls := ch.polls + a + 1 + b + 1 } r hr hlt pos

/-- The loop reads the sectors that are served, one behind the other. -/
theorem read_loop_run (n : Nat) : ∀ (i : Nat) {ch : Channel}, ch.request = some r → ch.served = i → i + n ≤ r.count →
    (∀ j, i ≤ j → j < i + n → Served (drive.answer j)) →
    ∃ m ch', (∀ fuel > m, read_loop drive fuel n i ch = .ok ((), ch')) ∧ ch'.controller_lock = ch.controller_lock ∧
      ch'.request = ch.request ∧ ch'.served = i + n ∧
      (∀ k < BLOCK_SIZE * i, ch'.buffer k = ch.buffer k) ∧
      ∀ j k, i ≤ j → j < i + n → k < BLOCK_SIZE → ch'.buffer (BLOCK_SIZE * j + k) = drive.sector (r.lba + j) k := by
  induction n with
  | zero => exact fun i ch _ hi _ _ => ⟨0, ch, fun _ _ => rfl, rfl, rfl, hi, fun _ _ => rfl, fun j k hj hj' => by omega⟩
  | succ n ih =>
    intro i ch hr hi hle hserved
    subst hi
    obtain ⟨a, ha⟩ := sector_run hr (by omega) (hserved _ le_rfl (by omega)) (BLOCK_SIZE * ch.served)
    obtain ⟨b, ch', hb, hlock, hreq, hcount, hfront, hsectors⟩ := @ih (ch.served + 1)
      (ch.sector_read drive r ch.served (BLOCK_SIZE * ch.served)) hr rfl (by omega)
      fun j hj hj' => hserved j (by omega) (by omega)
    refine ⟨max a b, ch', fun fuel hfuel => ?_, hlock, hreq, by omega, fun k hk => ?_, fun j k hj hj' hk => ?_⟩
    · have hstep : read_loop drive fuel (n + 1) ch.served = (do
          (do wait_bsy drive fuel; wait_drq drive fuel; repinsw drive (BLOCK_SIZE * ch.served))
          read_loop drive fuel n (ch.served + 1)) := by
        rw [read_loop]
        simp only [bind_assoc]
      rw [hstep, Exec.bind_of_ok (ha fuel (by omega))]
      exact hb fuel (by omega)
    · have hk' : k < BLOCK_SIZE * (ch.served + 1) := by
        rw [Nat.mul_succ]
        omega
      rw [hfront k hk']
      simp only [Channel.sector_read]
      rw [if_neg (by omega)]
    · rcases Nat.eq_or_lt_of_le hj with rfl | hlt
      · -- the sectors behind leave this one alone
        have hk' : BLOCK_SIZE * ch.served + k < BLOCK_SIZE * (ch.served + 1) := by
          rw [Nat.mul_succ]
          omega
        rw [hfront _ hk']
        simp only [Channel.sector_read]
        rw [if_pos (by omega), Nat.add_sub_cancel_left]
      · exact hsectors j k hlt (by omega) hk

/-- At a sector without data the loop stays, if not before. -/
theorem read_loop_stuck {i : Nat} (hi : i < r.count) (hnever : ∀ n, drive.answer i n &&& DRQ = 0) (fuel n : Nat) :
    ∀ (pos : Nat) {ch : Channel}, ch.request = some r → ch.served ≤ i → i < ch.served + n →
      read_loop drive fuel n pos ch = .error .diverges := by
  induction n with
  | zero =>
    intro pos ch _ hle hlt
    omega
  | succ n ih =>
    intro pos ch hr hle hlt
    rw [read_loop]
    rcases @poll_until_or drive (fun status => status &&& BSY = 0) fuel ch with h | ⟨a, h⟩
    · exact Exec.bind_of_error h
    refine (Exec.bind_of_ok h).trans ?_
    by_cases hat : ch.served = i
    · refine Exec.bind_of_error (poll_until_never fuel fun m _ => ?_)
      simp [Drive.status, hr, hat, hi, hnever]
    · rcases @poll_until_or drive (fun status => status &&& DRQ ≠ 0) fuel { ch with polls := a } with h' | ⟨b, h'⟩
      · exact Exec.bind_of_error h'
      refine (Exec.bind_of_ok h').trans ?_
      rw [Exec.bind_of_ok (@repinsw_run drive { ch with polls := b } r hr (by show ch.served < _; omega) _)]
      have hle' : ch.served + 1 ≤ i := by omega
      exact ih (pos + 1) hr hle' (by simp only [Channel.sector_read]; omega)

/-- The loop never gets past the last sector the drive was asked for. -/
theorem read_loop_ok (fuel n : Nat) : ∀ (i : Nat) {ch ch' : Channel}, ch.request = some r → ch.served ≤ r.count →
    read_loop drive fuel n i ch = .ok ((), ch') → ch.served + n ≤ r.count := by
  induction n with
  | zero => exact fun i ch ch' _ hle _ => hle
  | succ n ih =>
    intro i ch ch' hr hle hrun
    rw [read_loop] at hrun
    obtain ⟨_, ch₁, h₁, hrun⟩ := Exec.bind_ok.1 hrun
    obtain ⟨_, ch₂, h₂, hrun⟩ := Exec.bind_ok.1 hrun
    obtain ⟨_, ch₃, h₃, hrun⟩ := Exec.bind_ok.1 hrun
    obtain ⟨a, -, rfl⟩ := poll_until_ok fuel h₁
    obtain ⟨b, hb, rfl⟩ := poll_until_ok fuel h₂
    have hlt : ch.served < r.count := by
      by_contra hge
      -- no sector is left, so no data is announced
      simp [Drive.status, hr, hge] at hb
      exact hb (by decide)
    rw [@repinsw_run drive { ch with polls := ch.polls + a + 1 + b + 1 } r hr hlt] at h₃
    cases h₃
    have hrest : ch.served + 1 + n ≤ r.count :=
      @ih (i + 1) (Channel.sector_read drive r ch.served (BLOCK_SIZE * i)
        { ch with polls := ch.polls + a + 1 + b + 1 }) ch'
        hr hlt hrun
    omega

end

/-! ## The whole call -/

section
variable {drive : Drive} {dev : Disks.AtaDev} {count offset : Nat} {ch : Channel}

/-- The request a drive gets for `count` sectors from `offset` on. -/
def commanded (count offset : Nat) : Request := ⟨if count % 65536 = 0 then 65536 else count % 65536, offset⟩

/-- The channel once the command was given. -/
def Channel.started (dev : Disks.AtaDev) (count offset : Nat) (ch : Channel) : Channel :=
  { requested dev count offset ch with
    request := some (commanded count offset)
    served := 0
    polls := 0
    controller_lock := { ch.controller_lock with locked := 1 } }

theorem command_run (hoffset : offset < 2 ^ 32) (n : Nat) :
    outb ATA_COMMND CMD_READ_EXT { requested dev count offset
      { ch with controller_lock := { ch.controller_lock with locked := 1 } } with polls := n } =
      .ok ((), ch.started dev count offset) := by
  unfold Channel.started commanded
  rw [← requested_decode dev hoffset { ch with controller_lock := { ch.controller_lock with locked := 1 } }]
  rfl

/-- With the lock free and the drive ready, all that is left is the loop. -/
theorem ata_read_started (hcount : 1 ≤ count) (hoffset : offset < 2 ^ 32) (hfree : ch.controller_lock.locked = 0)
    (hready : Ready drive ch) : ∃ m, ∀ fuel > m, ata_read drive fuel dev count offset ch =
      (do
        read_loop drive fuel count 0
        on_lock mutex_unlock
        return Int.bmod count (2 ^ 32)) (ch.started dev count offset) := by
  let held : Channel := { ch with controller_lock := { ch.controller_lock with locked := 1 } }
  have hlock : on_lock mutex_lock ch = .ok ((), held) := by
    unfold on_lock
    exact Exec.zoom_of_ok (mutex_lock_free hfree)
  obtain ⟨n, hn⟩ := hready
  obtain ⟨m, hm⟩ := @poll_until_enough drive (fun status => status &&& BSY = 0) (requested dev count offset held)
    ⟨n, decide_eq_true hn⟩
  refine ⟨m, fun fuel hfuel => ?_⟩
  unfold ata_read
  rw [if_neg (by omega), Exec.bind_of_ok hlock, Exec.bind_of_ok (write_request_run dev count offset held)]
  unfold wait_bsy
  rw [Exec.bind_of_ok (hm fuel hfuel)]
  exact Exec.bind_of_ok (command_run hoffset _)

theorem on_unlock (ch : Channel) : ∃ m : Mutex, m.locked = 0 ∧
    on_lock mutex_unlock ch = .ok ((), { ch with controller_lock := m }) :=
  ⟨_, rfl, Exec.zoom_of_ok (mutex_unlock_eq _)⟩

/-- The drive serves the sectors that were asked for, so the call returns with all of them. -/
theorem ata_read_run (hcount : 1 ≤ count) (hfits : count ≤ 65536) (hoffset : offset < 2 ^ 32)
    (hfree : ch.controller_lock.locked = 0) (hready : Ready drive ch) (hserved : ∀ i < count, Served (drive.answer i)) :
    ∃ m ch', (∀ fuel > m, ata_read drive fuel dev count offset ch = .ok ((count : Int), ch')) ∧
      ch'.controller_lock.locked = 0 ∧ ch'.request = some ⟨count, offset⟩ ∧ ch'.served = count ∧
      ∀ i < count, ∀ k < BLOCK_SIZE, ch'.buffer (BLOCK_SIZE * i + k) = drive.sector (offset + i) k := by
  have hcommanded : commanded count offset = ⟨count, offset⟩ := by
    unfold commanded
    split <;> (congr 1; omega)
  obtain ⟨a, ha⟩ := @ata_read_started drive dev count offset ch hcount hoffset hfree hready
  obtain ⟨b, ch', hb, -, hreq, hcount', -, hsectors⟩ := @read_loop_run drive (commanded count offset) count 0
    (ch.started dev count offset) rfl rfl (by rw [hcommanded, Nat.zero_add]) fun j _ hj => hserved j (by omega)
  obtain ⟨l, hl, hunlock⟩ := on_unlock ch'
  refine ⟨max a b, { ch' with controller_lock := l }, fun fuel hfuel => ?_, hl, ?_, hcount'.trans (Nat.zero_add _),
    fun i hi k hk => ?_⟩
  · have hret : Int.bmod count (2 ^ 32) = count := Int.bmod_eq_of_le (by omega) (by omega)
    rw [ha fuel (by omega), Exec.bind_of_ok (hb fuel (by omega)), Exec.bind_of_ok hunlock, hret]
    rfl
  · rw [hreq, ← hcommanded]
    rfl
  · have hsector := hsectors i k (Nat.zero_le i) (by omega) hk
    rwa [hcommanded] at hsector

/-- What returns had no more sectors to read than the drive was asked for. -/
theorem ata_read_ok {fuel : Nat} {r : Int} {ch' : Channel} (hcount : 1 ≤ count) (hoffset : offset < 2 ^ 32)
    (hrun : ata_read drive fuel dev count offset ch = .ok (r, ch')) : count ≤ 65536 ∧ r = count := by
  unfold ata_read at hrun
  rw [if_neg (by omega)] at hrun
  obtain ⟨_, ch₁, -, hrun⟩ := Exec.bind_ok.1 hrun
  rw [Exec.bind_of_ok (write_request_run dev count offset ch₁)] at hrun
  obtain ⟨_, ch₂, h₂, hrun⟩ := Exec.bind_ok.1 hrun
  obtain ⟨n, -, rfl⟩ := poll_until_ok fuel h₂
  obtain ⟨_, ch₃, h₃, hrun⟩ := Exec.bind_ok.1 hrun
  obtain ⟨_, ch₄, h₄, hrun⟩ := Exec.bind_ok.1 hrun
  obtain ⟨_, ch₅, -, hrun⟩ := Exec.bind_ok.1 hrun
  have hreq : ch₃.request = some (commanded count offset) ∧ ch₃.served = 0 := by
    unfold commanded
    rw [← requested_decode dev hoffset ch₁]
    cases h₃
    exact ⟨rfl, rfl⟩
  have hle := read_loop_ok fuel count 0 hreq.1 (by omega) h₄
  have hfits : (commanded count offset).count ≤ 65536 := by
    unfold commanded
    dsimp only
    split <;> omega
  have hret : Int.bmod count (2 ^ 32) = count := Int.bmod_eq_of_le (by omega) (by omega)
  rw [hret] at hrun
  cases hrun
  exact ⟨by omega, rfl⟩

/-- A sector that was asked for and whose data never comes keeps the driver waiting, whatever the
status shows instead, and with the lock taken. -/
theorem ata_read_hangs {i : Nat} (hfree : ch.controller_lock.locked = 0) (hoffset : offset < 2 ^ 32) (hi : i < count)
    (hasked : i < (commanded count offset).count) (hnever : ∀ n, drive.answer i n &&& DRQ = 0) (fuel : Nat) :
    ata_read drive fuel dev count offset ch = .error .diverges := by
  let held : Channel := { ch with controller_lock := { ch.controller_lock with locked := 1 } }
  have hlock : on_lock mutex_lock ch = .ok ((), held) := by
    unfold on_lock
    exact Exec.zoom_of_ok (mutex_lock_free hfree)
  unfold ata_read
  rw [if_neg (by omega), Exec.bind_of_ok hlock, Exec.bind_of_ok (write_request_run dev count offset held)]
  rcases @poll_until_or drive (fun status => status &&& BSY = 0) fuel (requested dev count offset held) with h | ⟨n, h⟩
  · exact Exec.bind_of_error h
  refine (Exec.bind_of_ok h).trans ?_
  rw [Exec.bind_of_ok (command_run hoffset n)]
  refine Exec.bind_of_error (read_loop_stuck hasked hnever fuel count 0 rfl (Nat.zero_le i) ?_)
  show i < 0 + count
  omega

/-- Where the registry's view of a drive has the same bytes, it reads them like the ports. -/
theorem ata_read_refines {w : Disks.Drives} {drv : Nat} {s s' : Disks.Devices} {r : Int × Disks.Sector}
    {buffer : Nat → UInt8} (hcount : 1 ≤ count) (hbytes : ∀ lba k, k < BLOCK_SIZE →
      drive.sector lba k = w.bytes (Disks.selected (s.drives drv)) (BLOCK_SIZE * lba + k))
    (hbuffer : ∀ i < count, ∀ k < BLOCK_SIZE, buffer (BLOCK_SIZE * i + k) = drive.sector (offset + i) k)
    (hrun : Disks.ata_read w drv count offset s = .ok (r, s')) :
    r.1 = count ∧ ∀ k < BLOCK_SIZE * count, r.2 k = buffer k := by
  have hdrv : drv ≠ 0 := by
    rintro rfl
    unfold Disks.ata_read at hrun
    rw [if_neg (by omega), if_pos rfl] at hrun
    cases hrun
  unfold Disks.ata_read at hrun
  rw [if_neg (by omega), if_neg hdrv] at hrun
  dsimp only at hrun
  rw [Exec.bind_of_ok (Exec.get_apply _)] at hrun
  obtain ⟨_, s₁, -, hrun⟩ := Exec.bind_ok.1 hrun
  obtain ⟨_, s₂, -, hrun⟩ := Exec.bind_ok.1 hrun
  cases hrun
  refine ⟨rfl, fun k hk => ?_⟩
  have hsector := hbuffer (k / BLOCK_SIZE) (Nat.div_lt_of_lt_mul hk) (k % BLOCK_SIZE) (Nat.mod_lt _ (by decide))
  rw [Nat.div_add_mod, hbytes _ _ (Nat.mod_lt _ (by decide))] at hsector
  rw [hsector]
  have hpos : Disks.BLOCK_SIZE * offset + k = BLOCK_SIZE * (offset + k / BLOCK_SIZE) + k % BLOCK_SIZE := by
    rw [Nat.mul_add, Nat.add_assoc, Nat.div_add_mod]
    rfl
  rw [← hpos]

end

/-! ## Requests -/

/-- A drive at rest. -/
def idle : Channel := ⟨0, ⟨0, 0⟩, ⟨0, 0⟩, ⟨0, 0⟩, ⟨0, 0⟩, none, 0, 0, fun _ => 0, ⟨0, []⟩⟩

/-- The drive is asked for exactly what the caller wants, and a drive that serves it fills the
buffer with those sectors, exactly where the count fits the registers. -/
theorem ata_read_request_iff {count offset : Nat} (hcount : 1 ≤ count) (hoffset : offset < 2 ^ 32)
    (dev : Disks.AtaDev) :
    ((∀ ch, ∃ ch', write_request dev count offset ch = .ok ((), ch') ∧ ch'.decode = ⟨count, offset⟩) ∧
      ∀ drive ch, ch.controller_lock.locked = 0 → Ready drive ch → (∀ i, Served (drive.answer i)) →
        ∃ m ch', (∀ fuel > m, ata_read drive fuel dev count offset ch = .ok ((count : Int), ch')) ∧
          ch'.request = some ⟨count, offset⟩ ∧ ch'.served = count ∧
          ∀ i < count, ∀ k < BLOCK_SIZE, ch'.buffer (BLOCK_SIZE * i + k) = drive.sector (offset + i) k) ↔
      count ≤ 65536 := by
  constructor
  · rintro ⟨hdecode, -⟩
    obtain ⟨ch', hrun, hch'⟩ := hdecode idle
    rw [write_request_run] at hrun
    cases hrun
    rw [requested_decode dev hoffset idle] at hch'
    have hsame := congrArg Request.count hch'
    dsimp only at hsame
    split at hsame <;> omega
  · intro hfits
    refine ⟨fun ch => ⟨_, write_request_run dev count offset ch, ?_⟩, fun drive ch hfree hready hserved => ?_⟩
    · rw [requested_decode dev hoffset ch]
      congr 1
      split <;> omega
    · obtain ⟨m, ch', hrun, -, hreq, hcount', hsectors⟩ :=
        ata_read_run hcount hfits hoffset hfree hready fun i _ => hserved i
      exact ⟨m, ch', hrun, hreq, hcount', hsectors⟩

def anyDev : Disks.AtaDev := ⟨0, 0, 0x1f0, 0x3f6, 0⟩

/-- A drive that has every sector at hand, filled with its number. -/
def prompt : Drive := ⟨fun _ => RDY, fun _ _ => RDY ||| DRQ, fun lba _ => UInt8.ofNat lba⟩

theorem prompt_served (i : Nat) : Served (prompt.answer i) := 
  ⟨0, fun _ _ => ⟨(by decide : (RDY ||| DRQ) &&& BSY = 0), (by decide : (RDY ||| DRQ) &&& DRQ ≠ 0)⟩⟩

theorem idle_ready (drive : Drive) (h : drive.before 0 &&& BSY = 0) : Ready drive idle := ⟨0, h⟩

theorem ata_read_request_iff_largest : ∃ m ch',
    (∀ fuel > m, ata_read prompt fuel anyDev 65536 7 idle = .ok (65536, ch')) ∧
    ch'.buffer (BLOCK_SIZE * 65535) = UInt8.ofNat (7 + 65535) := by
  obtain ⟨m, ch', hrun, -, -, hsectors⟩ := ((@ata_read_request_iff 65536 7 (by decide) (by decide) anyDev).2 le_rfl).2
    prompt idle rfl (idle_ready _ (by decide)) prompt_served
  exact ⟨m, ch', hrun, hsectors 65535 (by decide) 0 (by decide)⟩

/-- One sector more than the registers can ask for, and the drive is asked for one. -/
theorem ata_read_count_wraps : ∃ ch', write_request anyDev 65537 0 idle = .ok ((), ch') ∧ ch'.decode = ⟨1, 0⟩ :=
  ⟨_, write_request_run _ _ _ _, requested_decode _ (by decide) _⟩

/-! ## Answers -/

/-- Whatever way each sector ends: the call returns with the lock released, the count only when
every sector was delivered and a negative number when one failed, exactly where the count fits
the registers and no sector fails. -/
theorem ata_read_returns_iff {drive : Drive} {dev : Disks.AtaDev} {count offset : Nat} {ch : Channel}
    (hcount : 1 ≤ count)
    (hoffset : offset < 2 ^ 32) (hfree : ch.controller_lock.locked = 0) (hready : Ready drive ch)
    (hends : ∀ i < (commanded count offset).count, Served (drive.answer i) ∨ Failed (drive.answer i)) :
    (∃ m r ch', (∀ fuel > m, ata_read drive fuel dev count offset ch = .ok (r, ch')) ∧ ch'.controller_lock.locked = 0 ∧
      (r = count → ∀ i < count, i < (commanded count offset).count ∧ Served (drive.answer i)) ∧
      ((∃ i < (commanded count offset).count, Failed (drive.answer i)) → r < 0)) ↔
      count ≤ 65536 ∧ ∀ i < (commanded count offset).count, ¬ Failed (drive.answer i) := by
  constructor
  · rintro ⟨m, r, ch', hrun, -, -, hneg⟩
    obtain ⟨hfits, hr⟩ := ata_read_ok hcount hoffset (hrun (m + 1) (by omega))
    refine ⟨hfits, fun i hi hfail => ?_⟩
    have := hneg ⟨i, hi, hfail⟩
    omega
  · rintro ⟨hfits, hnone⟩
    have hcommanded : (commanded count offset).count = count := by
      unfold commanded
      dsimp only
      split <;> omega
    have hserved : ∀ i < count, Served (drive.answer i) := fun i hi =>
      (hends i (by omega)).resolve_right (hnone i (by omega))
    obtain ⟨m, ch', hrun, hlock, -⟩ := @ata_read_run drive dev count offset ch hcount hfits hoffset hfree hready hserved
    refine ⟨m, count, ch', hrun, hlock, fun _ i hi => ⟨by omega, hserved i hi⟩, ?_⟩
    rintro ⟨i, hi, hfail⟩
    exact absurd hfail (hnone i hi)

theorem ata_read_returns_iff_prompt : ∃ m r ch', (∀ fuel > m, ata_read prompt fuel anyDev 3 0 idle = .ok (r, ch')) ∧
    ch'.controller_lock.locked = 0 := by
  obtain ⟨m, r, ch', hrun, hlock, -⟩ := (@ata_read_returns_iff prompt anyDev 3 0 idle (by decide) (by decide) rfl
    (idle_ready _ (by decide)) fun i _ => .inl (prompt_served i)).2 ⟨by decide, fun i _ => (prompt_served i).not_failed⟩
  exact ⟨m, r, ch', hrun, hlock⟩

/-- A drive that answers with an error. -/
def failing : Drive := ⟨fun _ => RDY, fun _ _ => RDY ||| ERROR, fun _ _ => 0⟩

/-- The error is never seen: however long it polls, the driver waits for data. -/
theorem ata_read_waits : Failed (failing.answer 0) ∧
    ∀ fuel, ata_read failing fuel anyDev 1 0 idle = .error .diverges := by
  refine ⟨⟨0, fun _ _ => ⟨(by decide : (RDY ||| ERROR) &&& BSY = 0), (by decide : (RDY ||| ERROR) &&& DRQ = 0),
    .inl (by decide : (RDY ||| ERROR) &&& ERROR ≠ 0)⟩⟩, fun fuel => ?_⟩
  exact ata_read_hangs (i := 0) rfl (by decide) (by decide) (by decide)
    (fun _ => (by decide : (RDY ||| ERROR) &&& DRQ = 0)) fuel

end Ulmix.AtaPorts

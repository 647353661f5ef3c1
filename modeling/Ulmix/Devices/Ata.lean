import Ulmix.Devices.Partitions
/-!
# The ATA driver (`drivers/ata.c`)

`ata_pci_probe` tries the four positions of a controller and registers one disk
for each drive that answers. Every disk gets the same major, `MAJOR_ATA0`, so the
first one found stays in front of the others in the registry (`Probed`) and all
lookups end at it.
-/
open Ulmix.Lib Ulmix.Sync

namespace Ulmix.Disks

/-! ## Model -/

/-- What hangs at the four positions of the controller: the drives that answer the
identify command, and the bytes on each. -/
structure Drives where
  answers : Nat → Bool
  bytes : Nat → Nat → UInt8

/-- The fields of `struct pcidev_struct` the driver reads, and its address. -/
structure PciDev where
  addr : Nat
  dev_class : Nat
  subclass : Nat

abbrev Kmalloc := Nat → Nat → Nat → Nat

def MAJOR_ATA0 : Nat := 4
def BLOCK_SIZE : Nat := 512
def ENOSYS : Int := 38
def EIO : Int := 5
def SUCCESS : Int := 0

/-- `sizeof` the structures the driver allocates. -/
def SIZEOF_ATA_DEV : Nat := 532
def SIZEOF_MUTEX : Nat := 8
def SIZEOF_GENDISK : Nat := 92

def kmalloc (h : Kmalloc) (size align : Nat) : Exec Devices Nat := do
  let s ← get
  set { s with kmallocs := s.kmallocs + 1 }
  pure (h s.kmallocs size align)

/-- Run an operation on the mutex at `p`. -/
def on_mutex (p : Nat) (x : Exec Mutex Unit) : Exec Devices Unit := do
  if p = 0 then Exec.fault .nullDeref
  else Exec.zoom (fun s => s.mutexes p) (fun m s => { s with mutexes := Function.update s.mutexes p m }) x

def get_ports (controller type : Nat) : Int × Nat × Nat :=
  if controller ≠ 0 then (-ENOSYS, 0, 0)
  else if type < 2 then (0, 0x1f0, 0x3f6)
  else (0, 0x170, 0x376)

/-- The position of the drive that `base_io` and the drive select bit address. -/
def selected (dev : AtaDev) : Nat := (if dev.base_io = 0x1f0 then 0 else 2) + dev.type % 2

def ata_identify (w : Drives) (dev : AtaDev) : Bool := w.answers (selected dev)

/-- `ata_read`, for a request that fits the drive's registers. -/
def ata_read (w : Drives) (drv_struct count offset : Nat) : Exec Devices (Int × Sector) := do
  if count = 0 then
    return (0, fun _ => 0)
  if drv_struct = 0 then
    Exec.fault .nullDeref
  let s ← get
  let dev := s.drives drv_struct
  on_mutex dev.controller_lock mutex_lock
  let buffer := fun k => w.bytes (selected dev) (BLOCK_SIZE * offset + k)
  on_mutex dev.controller_lock mutex_unlock
  return (count, buffer)

/-- The functions `fops.read` can name. -/
def bd_read (w : Drives) : Reader
  | .ata_fops => ata_read w

def store_drive (p : Nat) (dev : AtaDev) : Exec Devices Unit := do
  if p = 0 then Exec.fault .nullDeref
  else modify fun s => { s with drives := Function.update s.drives p dev }

def store_gendisk (p : Nat) (f : GenDisk → GenDisk) : Exec Devices Unit := do
  if p = 0 then Exec.fault .nullDeref
  else modify fun s => { s with gendisks := Function.update s.gendisks p (f (s.gendisks p)) }

/-- `if (mtx == NULL)`: the first drive found brings the controller's lock. -/
def controller_mutex (h : Kmalloc) (mtx : Nat) (ata_dev : AtaDev) : Exec Devices (Nat × AtaDev) := do
  if mtx = 0 then
    let mtx ← kmalloc h SIZEOF_MUTEX 1
    on_mutex mtx mutex_init
    return (mtx, { ata_dev with controller_lock := mtx })
  else
    return (mtx, ata_dev)

/-- The branch of the loop for a drive that answers. -/
def attach (h : Kmalloc) (w : Drives) (ata_dev : AtaDev) (mtx : Nat) : Exec Devices (AtaDev × Nat) := do
  let drv_struct ← kmalloc h SIZEOF_ATA_DEV 1
  let (mtx, ata_dev) ← controller_mutex h mtx ata_dev
  store_drive drv_struct ata_dev
  let bd ← kmalloc h SIZEOF_GENDISK 1
  store_gendisk bd fun d =>
    { d with capacity := 0, io_size := BLOCK_SIZE, major := MAJOR_ATA0, fops := .ata_fops, drv_struct := drv_struct }
  let r ← register_blkdev (bd_read w) bd
  if r < 0 then
    Exec.fault .panic
  return (ata_dev, mtx)

/-- The loop of `ata_pci_probe` over the positions that are left. -/
def probe_loop (h : Kmalloc) (w : Drives) : List Nat → AtaDev → Nat → Exec Devices Int
  | [], _, _ => return SUCCESS
  | i :: is, ata_dev, mtx => do
    let ata_dev := { ata_dev with type := i }
    let (r, base_io, ctrl_io) := get_ports 0 ata_dev.type
    if r < 0 then
      return - EIO
    let ata_dev := { ata_dev with base_io := base_io, ctrl_io := ctrl_io }
    if ata_identify w ata_dev then
      let (ata_dev, mtx) ← attach h w ata_dev mtx
      probe_loop h w is ata_dev mtx
    else
      probe_loop h w is ata_dev mtx

/-- `ata_dev` is the local variable, with what was on the stack. -/
def ata_pci_probe (h : Kmalloc) (w : Drives) (ata_dev : AtaDev) (dev : PciDev) : Exec Devices Int := do
  if dev.dev_class ≠ 1 ∧ dev.subclass ≠ 1 then
    return -ENOSYS
  probe_loop h w (List.range 4) { ata_dev with pci := dev.addr } 0

/-! ## One drive -/

/-- The blocks `kmalloc` returns from call `c` on and before call `n` exist and are different ones. -/
structure Fresh (h : Kmalloc) (c n : Nat) : Prop where
  pos : ∀ i size, c ≤ i → i < n → h i size 1 ≠ 0
  apart : ∀ i j size size', c ≤ i → i < j → j < n → h i size 1 ≠ h j size' 1

theorem Fresh.part {h : Kmalloc} {c n c' n' : Nat} (hf : Fresh h c n) (hc : c ≤ c') (hn : n' ≤ n) : Fresh h c' n' :=
  ⟨fun i size hi hi' => hf.pos i size (by omega) (by omega),
    fun i j size size' hi hij hj => hf.apart i j size size' (by omega) hij (by omega)⟩

/-- The disk at `bd` once the driver has filled and registered it. -/
def attached (w : Drives) (p bd drv : Nat) (d : GenDisk) : GenDisk :=
  let d := { d with capacity := 0, io_size := BLOCK_SIZE, major := MAJOR_ATA0, fops := .ata_fops, drv_struct := drv }
  if is_mbr (w.bytes p) then partscan_loop bd (w.bytes p) d else d

theorem attached_major (w : Drives) (p bd drv : Nat) (d : GenDisk) : (attached w p bd drv d).major = MAJOR_ATA0 := by
  unfold attached
  by_cases hm : is_mbr (w.bytes p)
  · rw [if_pos hm]
    exact (partscan_loop_scanned _ _ _).major
  · rw [if_neg hm]

theorem attached_drv_struct (w : Drives) (p bd drv : Nat) (d : GenDisk) : (attached w p bd drv d).drv_struct = drv := by
  unfold attached
  by_cases hm : is_mbr (w.bytes p)
  · rw [if_pos hm]
    exact (partscan_loop_scanned _ _ _).drv_struct
  · rw [if_neg hm]

/-- `get_ports` gives each position the ports and select bit that address it. -/
theorem selected_position {i : Nat} (hi : i < 4) (dev : AtaDev) :
    selected { dev with type := i, base_io := (get_ports 0 i).2.1, ctrl_io := (get_ports 0 i).2.2 } = i := by
  unfold selected get_ports
  by_cases h2 : i < 2
  · simp [h2]
  · simp [h2]
    omega

theorem on_mutex_run {p : Nat} {x : Exec Mutex Unit} {m : Mutex} {s : Devices} (hp : p ≠ 0)
    (hx : x (s.mutexes p) = .ok ((), m)) :
    on_mutex p x s = .ok ((), { s with mutexes := Function.update s.mutexes p m }) := by
  unfold on_mutex
  rw [if_neg hp]
  exact Exec.zoom_of_ok hx

theorem kmalloc_run (h : Kmalloc) (size align : Nat) (s : Devices) :
    kmalloc h size align s = .ok (h s.kmallocs size align, { s with kmallocs := s.kmallocs + 1 }) := rfl

/-- Reading takes the controller's lock and gives it back. -/
theorem ata_read_run (w : Drives) {drv : Nat} {s : Devices} (hdrv : drv ≠ 0)
    (hlock : (s.drives drv).controller_lock ≠ 0) (hfree : (s.mutexes (s.drives drv).controller_lock).locked = 0) :
    ∃ m, (m (s.drives drv).controller_lock).locked = 0 ∧
      ata_read w drv 1 0 s = .ok ((1, w.bytes (selected (s.drives drv))), { s with mutexes := m }) := by
  have hbuf : (fun k => w.bytes (selected (s.drives drv)) (BLOCK_SIZE * 0 + k)) =
      w.bytes (selected (s.drives drv)) := by
    funext k
    rw [Nat.mul_zero, Nat.zero_add]
  let lock := (s.drives drv).controller_lock
  let held := Function.update s.mutexes lock { s.mutexes lock with locked := 1 }
  refine ⟨Function.update held lock { locked := 0, waiting := (held lock).waiting.tail }, ?_, ?_⟩
  · rw [Function.update_self]
  · unfold ata_read
    rw [if_neg (by decide), if_neg hdrv]
    refine (Exec.bind_of_ok (Exec.get_apply _)).trans ?_
    refine (Exec.bind_of_ok (on_mutex_run hlock (mutex_lock_free hfree))).trans ?_
    refine (Exec.bind_of_ok (on_mutex_run hlock (mutex_unlock_eq _))).trans ?_
    rw [hbuf]
    rfl

theorem controller_mutex_run {h : Kmalloc} {mtx : Nat} {dev : AtaDev} {s : Devices}
    (hk : h s.kmallocs SIZEOF_MUTEX 1 ≠ 0)
    (hl : mtx ≠ 0 → dev.controller_lock = mtx ∧ (s.mutexes mtx).locked = 0) :
    ∃ mtx' m c, mtx' ≠ 0 ∧ (m mtx').locked = 0 ∧ c = s.kmallocs + (if mtx = 0 then 1 else 0) ∧
      controller_mutex h mtx dev s =
        .ok ((mtx', { dev with controller_lock := mtx' }), { s with mutexes := m, kmallocs := c }) := by
  unfold controller_mutex
  by_cases hm : mtx = 0
  · refine ⟨h s.kmallocs SIZEOF_MUTEX 1, Function.update s.mutexes (h s.kmallocs SIZEOF_MUTEX 1) ⟨0, []⟩,
      s.kmallocs + 1, hk, by rw [Function.update_self], by rw [if_pos hm], ?_⟩
    rw [if_pos hm]
    refine (Exec.bind_of_ok (kmalloc_run h _ 1 s)).trans ?_
    exact (Exec.bind_of_ok (on_mutex_run hk rfl)).trans rfl
  · obtain ⟨hd, hf⟩ := hl hm
    refine ⟨mtx, s.mutexes, s.kmallocs, hm, hf, by rw [if_neg hm, Nat.add_zero], ?_⟩
    rw [if_neg hm, ← hd]
    rfl

theorem store_drive_run {p : Nat} (hp : p ≠ 0) (dev : AtaDev) (s : Devices) :
    store_drive p dev s = .ok ((), { s with drives := Function.update s.drives p dev }) := by
  unfold store_drive
  rw [if_neg hp]
  rfl

theorem store_gendisk_run {p : Nat} (hp : p ≠ 0) (f : GenDisk → GenDisk) (s : Devices) :
    store_gendisk p f s = .ok ((), { s with gendisks := Function.update s.gendisks p (f (s.gendisks p)) }) := by
  unfold store_gendisk
  rw [if_neg hp]
  rfl

/-- Registering the disk at `bd`, whose drive is at position `p`. -/
theorem register_blkdev_ata (w : Drives) (bd : Nat) {p n : Nat} {s : Devices} (hn : Filled s n) (hlt : n < MAX_DEVICES)
    (hdrv : (s.gendisks bd).drv_struct ≠ 0) (hsel : selected (s.drives (s.gendisks bd).drv_struct) = p)
    (hlock : (s.drives (s.gendisks bd).drv_struct).controller_lock ≠ 0)
    (hfree : (s.mutexes (s.drives (s.gendisks bd).drv_struct).controller_lock).locked = 0) :
    ∃ m, (m (s.drives (s.gendisks bd).drv_struct).controller_lock).locked = 0 ∧
      register_blkdev (bd_read w) bd s = .ok (0, { s with
        bd_list := Function.update s.bd_list n bd
        gendisks := Function.update s.gendisks bd
          (if is_mbr (w.bytes p) then partscan_loop bd (w.bytes p) (s.gendisks bd) else s.gendisks bd)
        mutexes := m }) := by
  let t : Devices := { s with bd_list := Function.update s.bd_list n bd }
  obtain ⟨m, hm, hread⟩ := ata_read_run w (s := t) hdrv hlock hfree
  refine ⟨m, hm, ?_⟩
  have hscan : gendisk_partscan (bd_read w) bd t = .ok ((), { t with
      gendisks := Function.update s.gendisks bd
        (if is_mbr (w.bytes p) then partscan_loop bd (w.bytes p) (s.gendisks bd) else s.gendisks bd)
      mutexes := m }) := by
    unfold gendisk_partscan
    refine (Exec.bind_of_ok (Exec.get_apply _)).trans ?_
    refine (Exec.bind_of_ok hread).trans ?_
    dsimp only
    rw [if_neg (by decide), hsel]
    by_cases hmark : is_mbr (w.bytes p)
    · rw [hmark]
      rfl
    · rw [Bool.not_eq_true] at hmark
      rw [hmark]
      simp only [Bool.false_eq_true, ite_false, Function.update_eq_self]
      rfl
  unfold register_blkdev
  refine (Exec.bind_of_ok (Exec.get_apply _)).trans ?_
  rw [hn.find_free hlt]
  refine (Exec.bind_of_ok (Exec.set_apply _ _)).trans ?_
  exact (Exec.bind_of_ok hscan).trans rfl

/-- What attaching the drive at position `p` leaves, when `n` disks are registered. -/
structure Attached (w : Drives) (p bd drv n : Nat) (s s' : Devices) : Prop where
  bd_list : s'.bd_list = Function.update s.bd_list n bd
  gendisks : s'.gendisks = Function.update s.gendisks bd (attached w p bd drv (s.gendisks bd))
  drive : ∃ dev, dev.type = p ∧ s'.drives = Function.update s.drives drv dev

/-- The controller's lock exists once a drive was found, and is free. -/
def LockReady (s : Devices) (dev : AtaDev) (mtx : Nat) : Prop :=
  mtx ≠ 0 → dev.controller_lock = mtx ∧ (s.mutexes mtx).locked = 0

theorem attach_run {h : Kmalloc} {w : Drives} {dev : AtaDev} {mtx n c : Nat} {s : Devices}
    (hn : Filled s n) (hlt : n < MAX_DEVICES) (hl : LockReady s dev mtx) (hsel : selected dev = dev.type)
    (hc : c = s.kmallocs + (if mtx = 0 then 2 else 1)) (hf : Fresh h s.kmallocs (c + 1)) :
    ∃ s' mtx', attach h w dev mtx s = .ok (({ dev with controller_lock := mtx' }, mtx'), s') ∧
      mtx' ≠ 0 ∧ LockReady s' { dev with controller_lock := mtx' } mtx' ∧ s'.kmallocs = c + 1 ∧
      Attached w dev.type (h c SIZEOF_GENDISK 1) (h s.kmallocs SIZEOF_ATA_DEV 1) n s s' := by
  have hle : s.kmallocs + 1 ≤ c := by rw [hc]; split <;> omega
  have hdrv : h s.kmallocs SIZEOF_ATA_DEV 1 ≠ 0 := hf.pos _ _ le_rfl (by omega)
  have hbd : h c SIZEOF_GENDISK 1 ≠ 0 := hf.pos _ _ (by omega) (by omega)
  let s₁ : Devices := { s with kmallocs := s.kmallocs + 1 }
  obtain ⟨mtx', m, c', hmtx', hm, hc', hmutex⟩ := controller_mutex_run (s := s₁)
      (hf.pos (s.kmallocs + 1) _ (by omega) (by omega)) hl
  have hcc : c' = c := by rw [hc', hc]; dsimp only [s₁]; split <;> omega
  subst hcc
  let dev' : AtaDev := { dev with controller_lock := mtx' }
  let s₂ : Devices := { s with
    drives := Function.update s.drives (h s.kmallocs SIZEOF_ATA_DEV 1) dev'
    gendisks := Function.update s.gendisks (h c' SIZEOF_GENDISK 1) { s.gendisks (h c' SIZEOF_GENDISK 1) with
      capacity := 0, io_size := BLOCK_SIZE, major := MAJOR_ATA0, fops := .ata_fops,
      drv_struct := h s.kmallocs SIZEOF_ATA_DEV 1 }
    mutexes := m
    kmallocs := c' + 1 }
  have hd₂ : (s₂.gendisks (h c' SIZEOF_GENDISK 1)).drv_struct = h s.kmallocs SIZEOF_ATA_DEV 1 := by
    dsimp only [s₂]; rw [Function.update_self]
  have hv₂ : s₂.drives (h s.kmallocs SIZEOF_ATA_DEV 1) = dev' := by dsimp only [s₂]; rw [Function.update_self]
  obtain ⟨m', hm', hreg⟩ := register_blkdev_ata w (h c' SIZEOF_GENDISK 1) (p := selected dev) (s := s₂) hn hlt
    (by rw [hd₂]; exact hdrv) (by rw [hd₂, hv₂]; rfl) (by rw [hd₂, hv₂]; exact hmtx') (by rw [hd₂, hv₂]; exact hm)
  rw [hd₂, hv₂] at hm'
  have hdisk : Function.update s₂.gendisks (h c' SIZEOF_GENDISK 1)
      (if is_mbr (w.bytes (selected dev)) then
        partscan_loop (h c' SIZEOF_GENDISK 1) (w.bytes (selected dev)) (s₂.gendisks (h c' SIZEOF_GENDISK 1))
      else s₂.gendisks (h c' SIZEOF_GENDISK 1)) =
      Function.update s.gendisks (h c' SIZEOF_GENDISK 1)
        (attached w (selected dev) (h c' SIZEOF_GENDISK 1) (h s.kmallocs SIZEOF_ATA_DEV 1)
          (s.gendisks (h c' SIZEOF_GENDISK 1))) := by
    unfold attached
    dsimp only [s₂]
    rw [Function.update_self, Function.update_idem]
  rw [hdisk, hsel] at hreg
  have hrun : attach h w dev mtx s = .ok ((dev', mtx'), { s₂ with
      bd_list := Function.update s.bd_list n (h c' SIZEOF_GENDISK 1)
      gendisks := Function.update s.gendisks (h c' SIZEOF_GENDISK 1)
        (attached w dev.type (h c' SIZEOF_GENDISK 1) (h s.kmallocs SIZEOF_ATA_DEV 1)
          (s.gendisks (h c' SIZEOF_GENDISK 1)))
      mutexes := m' }) := by
    unfold attach
    refine (Exec.bind_of_ok (kmalloc_run h _ 1 s)).trans ?_
    refine (Exec.bind_of_ok hmutex).trans ?_
    refine (Exec.bind_of_ok (store_drive_run hdrv _ _)).trans ?_
    refine (Exec.bind_of_ok (kmalloc_run h _ 1 _)).trans ?_
    refine (Exec.bind_of_ok (store_gendisk_run hbd _ _)).trans ?_
    exact (Exec.bind_of_ok hreg).trans rfl
  exact ⟨_, mtx', hrun, hmtx', fun _ => ⟨rfl, hm'⟩, rfl, rfl, rfl, dev', rfl, rfl⟩

/-! ## All positions -/

/-- The `gendisk_struct` and the `ata_dev_struct` of the first drive found. -/
def firstDisk (h : Kmalloc) (c : Nat) : Nat := h (c + 2) SIZEOF_GENDISK 1
def firstDrive (h : Kmalloc) (c : Nat) : Nat := h c SIZEOF_ATA_DEV 1

/-- `n` disks are registered, all with the same major, the one at position `p` in front. -/
structure Probed (h : Kmalloc) (w : Drives) (s₀ : Devices) (p : Nat) (s : Devices) (n : Nat) : Prop where
  filled : Filled s n
  found : 0 < n
  front : s.bd_list 0 = firstDisk h s₀.kmallocs
  majors : ∀ i < n, (s.gendisks (s.bd_list i)).major = MAJOR_ATA0
  disk : s.gendisks (firstDisk h s₀.kmallocs) = attached w p (firstDisk h s₀.kmallocs) (firstDrive h s₀.kmallocs)
    (s₀.gendisks (firstDisk h s₀.kmallocs))
  drive : (s.drives (firstDrive h s₀.kmallocs)).type = p
  calls : s₀.kmallocs + 3 ≤ s.kmallocs

section Probe
variable {h : Kmalloc} {w : Drives} {s₀ s s' : Devices} {p n : Nat}

/-- The first drive found comes in front. -/
theorem Attached.first (ha : Attached w p (firstDisk h s₀.kmallocs) (firstDrive h s₀.kmallocs) 0 s₀ s')
    (h0 : Filled s₀ 0) (hbd : firstDisk h s₀.kmallocs ≠ 0) (hk : s'.kmallocs = s₀.kmallocs + 3) :
    Probed h w s₀ p s' 1 := by
  have hfront : s'.bd_list 0 = firstDisk h s₀.kmallocs := by rw [ha.bd_list, Function.update_self]
  have hdisk : s'.gendisks (firstDisk h s₀.kmallocs) = attached w p (firstDisk h s₀.kmallocs) (firstDrive h s₀.kmallocs)
      (s₀.gendisks (firstDisk h s₀.kmallocs)) := by rw [ha.gendisks, Function.update_self]
  refine ⟨h0.append (by decide) hbd ha.bd_list, by omega, hfront, fun i hi => ?_, hdisk, ?_, by omega⟩
  · obtain rfl : i = 0 := by omega
    rw [hfront, hdisk]
    exact attached_major ..
  · obtain ⟨dev, hdev, hd⟩ := ha.drive
    rw [hd, Function.update_self, hdev]

/-- A further drive goes behind it. -/
theorem Probed.attach (hp : Probed h w s₀ p s n) (hlt : n < MAX_DEVICES) {q c k : Nat}
    (hf : Fresh h s₀.kmallocs (c + 1)) (hk : s.kmallocs ≤ k) (hc : k ≤ c)
    (ha : Attached w q (h c SIZEOF_GENDISK 1) (h k SIZEOF_ATA_DEV 1) n s s') (hks : s'.kmallocs = c + 1) :
    Probed h w s₀ p s' (n + 1) := by
  have hcalls := hp.calls
  have hbd : h c SIZEOF_GENDISK 1 ≠ firstDisk h s₀.kmallocs := (hf.apart _ _ _ _ (by omega) (by omega) (by omega)).symm
  have hdrv : h k SIZEOF_ATA_DEV 1 ≠ firstDrive h s₀.kmallocs :=
      (hf.apart _ _ _ _ (by omega) (by omega) (by omega)).symm
  have hfound := hp.found
  refine ⟨hp.filled.append hlt (hf.pos _ _ (by omega) (by omega)) ha.bd_list, by omega, ?_, fun i hi => ?_, ?_, ?_,
    by omega⟩
  · rw [ha.bd_list, Function.update_of_ne (by omega), hp.front]
  · rw [ha.bd_list, ha.gendisks]
    by_cases hin : i = n
    · rw [hin, Function.update_self, Function.update_self]
      exact attached_major ..
    · rw [Function.update_of_ne hin]
      by_cases hb : s.bd_list i = h c SIZEOF_GENDISK 1
      · rw [hb, Function.update_self]
        exact attached_major ..
      · rw [Function.update_of_ne hb]
        exact hp.majors i (by omega)
  · rw [ha.gendisks, Function.update_of_ne hbd.symm, hp.disk]
  · obtain ⟨dev, -, hd⟩ := ha.drive
    rw [hd, Function.update_of_ne hdrv.symm, hp.drive]

/-- One turn of the loop: the position is addressed, and its drive attached if it answers. -/
theorem probe_loop_cons {i : Nat} (hi : i < 4) (is : List Nat) (dev : AtaDev) (mtx : Nat) :
    ∃ dev', dev'.type = i ∧ selected dev' = i ∧ dev'.controller_lock = dev.controller_lock ∧
      probe_loop h w (i :: is) dev mtx = if w.answers i then (do
          let (ata_dev, mtx) ← attach h w dev' mtx
          probe_loop h w is ata_dev mtx)
        else probe_loop h w is dev' mtx := by
  refine ⟨{ dev with type := i, base_io := (get_ports 0 i).2.1, ctrl_io := (get_ports 0 i).2.2 }, rfl,
    selected_position hi dev, rfl, ?_⟩
  have hports : ¬ (get_ports 0 i).1 < 0 := by
    unfold get_ports
    split
    · contradiction
    · split <;> decide
  have hident := selected_position hi dev
  rw [probe_loop]
  dsimp only at hident ⊢
  rw [if_neg hports]
  unfold ata_identify
  rw [hident]

theorem probe_loop_behind (is : List Nat) : ∀ (dev : AtaDev) (mtx : Nat) (s : Devices) (n : Nat), (∀ i ∈ is, i < 4) →
    Probed h w s₀ p s n → mtx ≠ 0 → LockReady s dev mtx → n + is.length ≤ MAX_DEVICES →
    Fresh h s₀.kmallocs (s.kmallocs + 2 * is.length) →
    ∃ s' n', probe_loop h w is dev mtx s = .ok (SUCCESS, s') ∧ Probed h w s₀ p s' n' := by
  induction is with
  | nil => exact fun dev mtx s n _ hp _ _ _ _ => ⟨s, n, rfl, hp⟩
  | cons i is ih =>
    intro dev mtx s n hi hp hm hl hn hf
    have hi4 := hi i List.mem_cons_self
    have his := fun j hj => hi j (List.mem_cons_of_mem _ hj)
    rw [List.length_cons] at hn hf
    obtain ⟨dev', htype, hsel, hlock, hrun⟩ := probe_loop_cons (h := h) (w := w) hi4 is dev mtx
    rw [hrun]
    by_cases ha : w.answers i
    · rw [if_pos ha]
      have hcalls := hp.calls
      have hl' : LockReady s dev' mtx := fun h0 => ⟨hlock.trans (hl h0).1, (hl h0).2⟩
      obtain ⟨s', mtx', hat, hm', hl'', hk, hatt⟩ := attach_run (c := s.kmallocs + 1) hp.filled (by omega) hl'
        (hsel.trans htype.symm) (by rw [if_neg hm]) (hf.part (by omega) (by omega))
      obtain ⟨s'', n', hrest, hp'⟩ := ih _ _ s' (n + 1) his
        (hp.attach (by omega) (hf.part (by omega) (by omega)) le_rfl (by omega) hatt hk) hm' hl'' (by omega)
        (hf.part (by omega) (by omega))
      exact ⟨s'', n', (Exec.bind_of_ok hat).trans hrest, hp'⟩
    · rw [if_neg ha]
      exact ih dev' mtx s n his hp hm (fun h0 => ⟨hlock.trans (hl h0).1, (hl h0).2⟩) (by omega)
        (hf.part (by omega) (by omega))

/-- The first drive to answer is the one in front when the loop is over. -/
theorem probe_loop_run (is : List Nat) : ∀ (dev : AtaDev), (∀ i ∈ is, i < 4) → Filled s₀ 0 → is.length ≤ 4 →
    Fresh h s₀.kmallocs (s₀.kmallocs + 2 * is.length + 1) →
    match is.find? w.answers with
    | none => probe_loop h w is dev 0 s₀ = .ok (SUCCESS, s₀)
    | some p => ∃ s' n, probe_loop h w is dev 0 s₀ = .ok (SUCCESS, s') ∧ Probed h w s₀ p s' n := by
  induction is with
  | nil => exact fun dev _ _ _ _ => rfl
  | cons i is ih =>
    intro dev hi h0 hlen hf
    have hi4 := hi i List.mem_cons_self
    have his := fun j hj => hi j (List.mem_cons_of_mem _ hj)
    rw [List.length_cons] at hlen hf
    obtain ⟨dev', htype, hsel, hlock, hrun⟩ := probe_loop_cons (h := h) (w := w) hi4 is dev 0
    rw [hrun, List.find?_cons]
    cases ha : w.answers i with
    | true =>
      dsimp only
      obtain ⟨s', mtx', hat, hm', hl', hk, hatt⟩ := attach_run (c := s₀.kmallocs + 2) h0 (by decide)
        (fun h => absurd rfl h) (hsel.trans htype.symm) (by rw [if_pos rfl]) (hf.part (by omega) (by omega))
      rw [htype] at hatt
      obtain ⟨s'', n', hrest, hp⟩ := probe_loop_behind is _ mtx' s' 1 his
        (hatt.first h0 (hf.pos _ _ (by omega) (by omega)) hk) hm' hl' (by unfold MAX_DEVICES; omega)
        (hf.part (by omega) (by omega))
      exact ⟨s'', n', (Exec.bind_of_ok hat).trans hrest, hp⟩
    | false => exact ih dev' his h0 (by omega) (hf.part (by omega) (by omega))

end Probe

/-! ## Which partitions can be reached -/

/-- Slot `i` of the drive at position `p` holds a partition. -/
structure HasPart (w : Drives) (p i : Nat) : Prop where
  position : p < 4
  answers : w.answers p
  marked : is_mbr (w.bytes p)
  slot : i < 4
  used : Used (w.bytes p) i

/-- `r` is the partition in slot `i` of the drive at position `p`. -/
structure IsPart (w : Drives) (s : Devices) (p i : Nat) (r : PartRef) : Prop where
  drive : (s.drives (s.gendisks r.bd).drv_struct).type = p
  index : r.index = i
  part : s.part r = slotPart r.bd (w.bytes p) i

/-- `get_hdstruct` returns that partition for these numbers. -/
def Returned (w : Drives) (s : Devices) (p i major minor : Nat) : Prop :=
  major < 2 ^ 32 ∧ minor < 2 ^ 32 ∧ ∃ r, get_hdstruct major minor s = .ok (some r, s) ∧ IsPart w s p i r

/-- Every partition of every drive is returned for some numbers, and different ones for different numbers. -/
def AllReachable (w : Drives) (s : Devices) : Prop :=
  (∀ p i, HasPart w p i → ∃ major minor, Returned w s p i major minor) ∧
    ∀ p i p' i' major minor major' minor', HasPart w p i → HasPart w p' i' → (p, i) ≠ (p', i') →
      Returned w s p i major minor → Returned w s p' i' major' minor' → (major, minor) ≠ (major', minor')

/-- Only the first drive that answers has partitions, and its count, which started from `c`,
covers the slots they lie in. -/
def OnlyFirst (w : Drives) (c : Nat) : Prop :=
  ∀ p i, HasPart w p i → (∀ q < p, ¬ w.answers q) ∧ i + 1 ≤ add32 c (usedSlots (w.bytes p))

/-- A pair of numbers leads to one partition only. -/
theorem returned_unique {w : Drives} {s : Devices} {p i p' i' major minor : Nat}
    (h : Returned w s p i major minor) (h' : Returned w s p' i' major minor) : (p, i) = (p', i') := by
  obtain ⟨-, -, r, hr, hp⟩ := h
  obtain ⟨-, -, r', hr', hp'⟩ := h'
  rw [hr] at hr'
  cases hr'
  rw [← hp.drive, ← hp'.drive, ← hp.index, ← hp'.index]

section Found
variable {h : Kmalloc} {w : Drives} {s₀ s : Devices} {p n : Nat}

theorem Probed.get_gendisk (hp : Probed h w s₀ p s n) (major : Nat) :
    get_gendisk major s = .ok (if major = MAJOR_ATA0 then firstDisk h s₀.kmallocs else 0, s) := by
  have hslot : slotOf s n major = if major = MAJOR_ATA0 then some 0 else none := by
    unfold slotOf
    by_cases hm : major = MAJOR_ATA0
    · rw [if_pos hm, List.find?_range_eq_some]
      refine ⟨?_, List.mem_range.2 hp.found, fun j hj => by omega⟩
      rw [hp.majors 0 hp.found, hm]
      simp
    · rw [if_neg hm, List.find?_range_eq_none]
      intro i hi
      rw [hp.majors i hi]
      simpa using Ne.symm hm
  rw [get_gendisk_run hp.filled, hslot]
  by_cases hm : major = MAJOR_ATA0
  · rw [if_pos hm, if_pos hm, Option.elim_some, hp.front]
  · rw [if_neg hm, if_neg hm, Option.elim_none]

/-- What is returned is a partition of the first drive. -/
theorem Probed.returned (hp : Probed h w s₀ p s n) {q i major minor : Nat} (hi : i < 4)
    (hr : Returned w s q i major minor) :
    q = p ∧ minor = i + 1 ∧ minor ≤ (s.gendisks (firstDisk h s₀.kmallocs)).part_count := by
  obtain ⟨-, hminor, r, hr, hpart⟩ := hr
  have hne : firstDisk h s₀.kmallocs ≠ 0 := by
    rw [← hp.front]
    exact (hp.filled.2 0).2 hp.found
  by_cases hm : major = MAJOR_ATA0
  · have hg := hp.get_gendisk major
    rw [if_pos hm] at hg
    rw [get_hdstruct_found _ hg hne] at hr
    by_cases hlt : (s.gendisks (firstDisk h s₀.kmallocs)).part_count < minor
    · rw [if_pos hlt] at hr
      cases hr
    · rw [if_neg hlt] at hr
      cases hr
      have hq := hpart.drive
      dsimp only at hq
      rw [hp.disk, attached_drv_struct, hp.drive] at hq
      have hidx : sub32 minor 1 = i := hpart.index
      unfold sub32 at hidx
      exact ⟨hq.symm, by omega, by omega⟩
  · have hg := hp.get_gendisk major
    rw [if_neg hm] at hg
    have hnone : get_hdstruct major minor s = .ok (none, s) := (Exec.bind_of_ok hg).trans rfl
    rw [hnone] at hr
    cases hr

/-- A partition of the first drive is returned when the count covers its slot. -/
theorem Probed.returns (hp : Probed h w s₀ p s n) {i : Nat} (hpart : HasPart w p i)
    (hc : (s₀.gendisks (firstDisk h s₀.kmallocs)).part_count < 2 ^ 32) :
    (s.gendisks (firstDisk h s₀.kmallocs)).part_count =
        add32 (s₀.gendisks (firstDisk h s₀.kmallocs)).part_count (usedSlots (w.bytes p)) ∧
      (i + 1 ≤ (s.gendisks (firstDisk h s₀.kmallocs)).part_count → Returned w s p i MAJOR_ATA0 (i + 1)) := by
  have hi := hpart.slot
  have hne : firstDisk h s₀.kmallocs ≠ 0 := by
    rw [← hp.front]
    exact (hp.filled.2 0).2 hp.found
  have hdisk := hp.disk
  unfold attached at hdisk
  rw [if_pos hpart.marked] at hdisk
  refine ⟨?_, fun hle => ⟨by decide, by omega, ⟨firstDisk h s₀.kmallocs, i⟩, ?_, ?_, rfl, ?_⟩⟩
  · rw [hdisk]
    exact partscan_loop_count _ _ hc
  · have hg := hp.get_gendisk MAJOR_ATA0
    rw [if_pos rfl] at hg
    rw [get_hdstruct_found _ hg hne, if_neg (by omega), sub32_eq (by omega) (by omega), Nat.add_sub_cancel]
  · dsimp only
    rw [hp.disk, attached_drv_struct, hp.drive]
  · unfold Devices.part
    dsimp only
    rw [hdisk]
    exact (partscan_loop_scanned _ _ _).parts i (List.mem_range.2 hi) hpart.used

end Found

/-- From an empty registry, on a device the driver accepts: the probe returns, and then all
partitions can be reached exactly when only the first drive that answers has any and the count
left in its `gendisk_struct` covers them. -/
theorem ata_partitions_reachable {h : Kmalloc} {w : Drives} {s : Devices} {ata_dev : AtaDev} {dev : PciDev}
    (hdev : dev.dev_class = 1 ∨ dev.subclass = 1) (h0 : ∀ i, s.bd_list i = 0)
    (hf : Fresh h s.kmallocs (s.kmallocs + 9))
    (hc : (s.gendisks (firstDisk h s.kmallocs)).part_count < 2 ^ 32) :
    ∃ s', ata_pci_probe h w ata_dev dev s = .ok (SUCCESS, s') ∧
      (AllReachable w s' ↔ OnlyFirst w (s.gendisks (firstDisk h s.kmallocs)).part_count) := by
  have hprobe : ata_pci_probe h w ata_dev dev s = probe_loop h w (List.range 4)
      { ata_dev with pci := dev.addr } 0 s := by
    unfold ata_pci_probe
    rw [if_neg (by tauto)]
  have hdistinct : ∀ s', ∀ p i p' i' major minor major' minor', HasPart w p i → HasPart w p' i' → (p, i) ≠ (p', i') →
      Returned w s' p i major minor → Returned w s' p' i' major' minor' → (major, minor) ≠ (major', minor') := by
    intro s' p i p' i' major minor major' minor' _ _ hne hr hr' heq
    cases heq
    exact hne (returned_unique hr hr')
  have hrun := probe_loop_run (w := w) (List.range 4) { ata_dev with pci := dev.addr } (fun i hi => List.mem_range.1 hi)
    (Filled.empty h0) (by decide) hf
  cases hfind : (List.range 4).find? w.answers with
  | none =>
    rw [hfind] at hrun
    have hno : ∀ p i, ¬ HasPart w p i := by
      intro p i hp
      have := List.find?_range_eq_none.1 hfind p hp.position
      rw [hp.answers] at this
      cases this
    exact ⟨s, hprobe.trans hrun, fun _ p i hp => absurd hp (hno p i),
      fun _ => ⟨fun p i hp => absurd hp (hno p i), hdistinct s⟩⟩
  | some p =>
    rw [hfind] at hrun
    obtain ⟨s', n, hrun, hp⟩ := hrun
    obtain ⟨hans, -, hbefore⟩ := List.find?_range_eq_some.1 hfind
    refine ⟨s', hprobe.trans hrun, ?_, ?_⟩
    · rintro ⟨hall, -⟩ q i hq
      obtain ⟨major, minor, hr⟩ := hall q i hq
      obtain ⟨rfl, hminor, hle⟩ := hp.returned hq.slot hr
      refine ⟨fun j hj => by simpa using hbefore j hj, ?_⟩
      rw [← (hp.returns hq hc).1]
      omega
    · intro honly
      refine ⟨fun q i hq => ?_, hdistinct s'⟩
      obtain ⟨hfirst, hle⟩ := honly q i hq
      -- the first drive that answers is the one found
      have hqp : q = p := by
        rcases Nat.lt_trichotomy q p with hlt | heq | hlt
        · have := hbefore q hlt
          rw [hq.answers] at this
          cases this
        · exact heq
        · exact absurd hans (hfirst p hlt)
      subst hqp
      obtain ⟨hcount, hret⟩ := hp.returns hq hc
      exact ⟨MAJOR_ATA0, i + 1, hret (by rw [hcount]; exact hle)⟩

/-! ## One drive and two -/

/-- Drives at the positions below `n`, each with one linux partition in its first slot. -/
def drivesBelow (n : Nat) : Drives := ⟨fun p => p < n, fun _ => onePartition 0⟩

def countUp : Kmalloc := fun i _ _ => i + 1

theorem countUp_fresh (c n : Nat) : Fresh countUp c n := by
  constructor
  · intro i _ _ _
    unfold countUp
    omega
  · intro i j _ _ _ _ _
    unfold countUp
    omega

theorem ata_partitions_reachable_one :
    ∃ s', ata_pci_probe countUp (drivesBelow 1) ⟨0, 0, 0, 0, 0⟩ ⟨0, 1, 1⟩ noDisks = .ok (SUCCESS, s') ∧
      AllReachable (drivesBelow 1) s' := by
  obtain ⟨s', hrun, hiff⟩ := @ata_partitions_reachable countUp (drivesBelow 1) noDisks ⟨0, 0, 0, 0, 0⟩ ⟨0, 1, 1⟩
      (.inl rfl)
    (fun _ => rfl) (countUp_fresh _ _) (by decide)
  refine ⟨s', hrun, hiff.2 ?_⟩
  intro p i hp
  have hp0 : p < 1 := of_decide_eq_true hp.answers
  have hi : ∀ k < 4, Used (onePartition 0) k → k + 1 ≤ add32 0 (usedSlots (onePartition 0)) := by decide
  exact ⟨fun q hq => by omega, hi i hp.slot hp.used⟩

/-- The partition of a second drive is returned for no major and minor. -/
theorem ata_second_drive_hidden :
    ∃ s', ata_pci_probe countUp (drivesBelow 2) ⟨0, 0, 0, 0, 0⟩ ⟨0, 1, 1⟩ noDisks = .ok (SUCCESS, s') ∧
      HasPart (drivesBelow 2) 1 0 ∧ ¬ AllReachable (drivesBelow 2) s' := by
  obtain ⟨s', n, hrun, hp⟩ := @probe_loop_run countUp (drivesBelow 2) noDisks (List.range 4)
    ⟨0, 0, 0, 0, 0⟩ (fun i hi => List.mem_range.1 hi) (Filled.empty fun _ => rfl) (by decide) (countUp_fresh _ _)
  have hpart : HasPart (drivesBelow 2) 1 0 := ⟨by decide, rfl, rfl, by decide, by decide⟩
  refine ⟨s', hrun, hpart, fun hall => ?_⟩
  obtain ⟨major, minor, hr⟩ := hall.1 1 0 hpart
  have hsame := (hp.returned hpart.slot hr).1
  exact absurd hsame (by decide)

end Ulmix.Disks

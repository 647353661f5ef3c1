import Ulmix.Lib.Exec
import Ulmix.Lib.Word
import Ulmix.Sched.Sync
/-!
# Block devices and their partitions (`kernel/devices.c`, `kernel/fs/partscan.c`)

A driver fills a `gendisk_struct` and registers it; `gendisk_partscan` then
reads the disk's first sector and stores one `hd_struct` for each used slot of
the partition table. `get_hdstruct` finds a partition by the disk's major
number and a minor.

The registry fills from the front (`Filled`), so a disk is found unless one
registered before it has the same major.
-/
open Ulmix.Lib Ulmix.Sync

namespace Ulmix.Disks

/-! ## Objects -/

/-- `struct hd_struct`. -/
structure HdStruct where
  sect_offset : Nat
  sect_count : Nat
  fs_type : Nat
  bd : Nat
  deriving DecidableEq, Repr

/-- The tables of functions a driver can put into `fops`. -/
inductive BdFops where
  | ata_fops
  deriving DecidableEq, Repr

/-- `struct gendisk_struct`. -/
structure GenDisk where
  major : Nat
  fops : BdFops
  io_size : Nat
  capacity : Nat
  part_count : Nat
  part_list : Nat → HdStruct
  drv_struct : Nat

/-- `struct ata_dev_struct`, less the identification words nothing reads. -/
structure AtaDev where
  pci : Nat
  type : Nat
  base_io : Nat
  ctrl_io : Nat
  controller_lock : Nat
  deriving DecidableEq, Repr

/-- What the device code keeps in memory: the registry, and the objects by their address. -/
structure Devices where
  bd_list : Nat → Nat
  gendisks : Nat → GenDisk
  drives : Nat → AtaDev
  mutexes : Nat → Mutex
  kmallocs : Nat

def MAX_DEVICES : Nat := 32

/-- The 512 bytes of one sector. -/
abbrev Sector := Nat → UInt8

/-- What `bd->fops.read` does: the value it returns and the sectors it leaves in the buffer. -/
abbrev Reader := (fops : BdFops) → (drv_struct blocks lba : Nat) → Exec Devices (Int × Sector)

/-! ## The partition table -/

/-- `struct mbr_entry_struct`. -/
structure MbrEntry where
  bootable : Nat
  is_lba48 : Nat
  fs_id : Nat
  start_sector : Nat
  sector_count : Nat
  id : Nat
  deriving DecidableEq, Repr

def is_mbr (sector : Sector) : Bool := sector 0x1fe == 0x55 && sector 0x1ff == 0xaa

/-- Slot `i` of the table, as the scanner decodes it. -/
def mbr_entry (mbr : Sector) (i : Nat) : MbrEntry :=
  let entry_offset := 0x1be + 16 * i
  { id := i
    bootable := if mbr entry_offset &&& 0x80 ≠ 0 then 1 else 0
    is_lba48 := if mbr entry_offset &&& 0x01 ≠ 0 then 1 else 0
    fs_id := (mbr (entry_offset + 4)).toNat
    start_sector := read32 mbr (entry_offset + 8)
    sector_count := read32 mbr (entry_offset + 12) }

/-- `bd_add_part` on the disk `d` at address `bd`. -/
def bd_add_part (bd : Nat) (d : GenDisk) (entry : MbrEntry) : GenDisk :=
  { d with
    part_count := add32 d.part_count 1
    part_list := Function.update d.part_list entry.id
      { sect_offset := entry.start_sector, sect_count := entry.sector_count, fs_type := entry.fs_id, bd := bd } }

/-- The body of the scanner's loop. -/
def partscan_slot (bd : Nat) (mbr : Sector) (d : GenDisk) (i : Nat) : GenDisk :=
  let entry := mbr_entry mbr i
  if entry.sector_count = 0 ∨ entry.start_sector = 0 then d else bd_add_part bd d entry

def partscan_loop (bd : Nat) (mbr : Sector) (d : GenDisk) : GenDisk := (List.range 4).foldl (partscan_slot bd mbr) d

def gendisk_partscan (read : Reader) (bd : Nat) : Exec Devices Unit := do
  let s ← get
  let (n, mbr) ← read (s.gendisks bd).fops (s.gendisks bd).drv_struct 1 0
  if n < 1 then
    return ()
  if !is_mbr mbr then
    return ()
  modify fun s => { s with gendisks := Function.update s.gendisks bd (partscan_loop bd mbr (s.gendisks bd)) }

/-! ## The registry -/

def register_blkdev (read : Reader) (bd : Nat) : Exec Devices Int := do
  let s ← get
  match (List.range MAX_DEVICES).find? fun i => s.bd_list i = 0 with
  | some i => do
    set { s with bd_list := Function.update s.bd_list i bd }
    gendisk_partscan read bd
    return 0
  | none => return -1

def get_gendisk (major : Nat) : Exec Devices Nat := do
  let s ← get
  match (List.range MAX_DEVICES).find? fun i => s.bd_list i ≠ 0 ∧ (s.gendisks (s.bd_list i)).major = major with
  | some i => return s.bd_list i
  | none => return 0

/-- The pointer `&bd->part_list[index]`. -/
structure PartRef where
  bd : Nat
  index : Nat
  deriving DecidableEq, Repr

def get_hdstruct (major minor : Nat) : Exec Devices (Option PartRef) := do
  let bd ← get_gendisk major
  if bd = 0 then
    return none
  let s ← get
  if (s.gendisks bd).part_count < minor then
    return none
  return some { bd := bd, index := sub32 minor 1 }

/-- The partition a pointer leads to. -/
def Devices.part (s : Devices) (p : PartRef) : HdStruct := (s.gendisks p.bd).part_list p.index

/-! ## The scanner -/

/-- Slot `i` describes a partition. -/
def Used (mbr : Sector) (i : Nat) : Prop := (mbr_entry mbr i).sector_count ≠ 0 ∧ (mbr_entry mbr i).start_sector ≠ 0

instance (mbr : Sector) (i : Nat) : Decidable (Used mbr i) := inferInstanceAs (Decidable (_ ∧ _))

/-- The number of slots that describe a partition. -/
def usedSlots (mbr : Sector) : Nat := ((List.range 4).filter fun i => Used mbr i).length

/-- The `hd_struct` slot `i` describes, on the disk at `bd`. -/
def slotPart (bd : Nat) (mbr : Sector) (i : Nat) : HdStruct where
  sect_offset := (mbr_entry mbr i).start_sector
  sect_count := (mbr_entry mbr i).sector_count
  fs_type := (mbr_entry mbr i).fs_id
  bd := bd

theorem partscan_slot_used {mbr : Sector} {i : Nat} (bd : Nat) (d : GenDisk) (h : Used mbr i) :
    partscan_slot bd mbr d i = { d with
      part_count := add32 d.part_count 1, part_list := Function.update d.part_list i (slotPart bd mbr i) } := by
  unfold partscan_slot
  rw [if_neg (not_or.2 h)]
  rfl

theorem partscan_slot_unused {mbr : Sector} {i : Nat} (bd : Nat) (d : GenDisk) (h : ¬ Used mbr i) :
    partscan_slot bd mbr d i = d := by
  unfold partscan_slot
  rw [if_pos]
  by_contra hn
  exact h (not_or.1 hn)

/-- What the scanner leaves of the disk `d` after the slots `is`. -/
structure Scanned (bd : Nat) (mbr : Sector) (d : GenDisk) (is : List Nat) (d' : GenDisk) : Prop where
  major : d'.major = d.major
  drv_struct : d'.drv_struct = d.drv_struct
  count : d'.part_count % 2 ^ 32 = (d.part_count + (is.filter fun i => Used mbr i).length) % 2 ^ 32
  count_lt : d.part_count < 2 ^ 32 → d'.part_count < 2 ^ 32
  parts : ∀ i ∈ is, Used mbr i → d'.part_list i = slotPart bd mbr i

/-- Each slot of the loop adds its own partition and leaves the earlier ones alone. -/
theorem foldl_scanned (bd : Nat) (mbr : Sector) (is : List Nat) :
    ∀ d, is.Nodup → Scanned bd mbr d is (is.foldl (partscan_slot bd mbr) d) ∧
      ∀ j, j ∉ is → (is.foldl (partscan_slot bd mbr) d).part_list j = d.part_list j := by
  induction is with
  | nil => exact fun d _ => ⟨⟨rfl, rfl, rfl, id, fun i hi => by cases hi⟩, fun _ _ => rfl⟩
  | cons i is ih =>
    intro d hnd
    obtain ⟨hi, hnd⟩ := List.nodup_cons.1 hnd
    obtain ⟨hs, hkeep⟩ := ih (partscan_slot bd mbr d i) hnd
    rw [List.foldl_cons]
    by_cases hu : Used mbr i
    · rw [partscan_slot_used bd d hu] at hs hkeep ⊢
      refine ⟨⟨hs.major, hs.drv_struct, ?_, fun hd => hs.count_lt (add32_lt _ _), ?_⟩, ?_⟩
      · rw [hs.count, List.filter_cons_of_pos (by simpa using hu), List.length_cons]
        dsimp only
        unfold add32
        omega
      · intro j hj huj
        rcases List.mem_cons.1 hj with rfl | hj
        · rw [hkeep j hi]
          exact Function.update_self ..
        · exact hs.parts j hj huj
      · intro j hj
        obtain ⟨hji, hj⟩ := not_or.1 (mt List.mem_cons.2 hj)
        rw [hkeep j hj]
        exact Function.update_of_ne hji ..
    · rw [partscan_slot_unused bd d hu] at hs hkeep ⊢
      refine ⟨⟨hs.major, hs.drv_struct, ?_, hs.count_lt, ?_⟩, fun j hj => hkeep j fun h =>
        hj (List.mem_cons_of_mem _ h)⟩
      · rw [hs.count, List.filter_cons_of_neg (by simpa using hu)]
      · intro j hj huj
        rcases List.mem_cons.1 hj with rfl | hj
        · exact absurd huj hu
        · exact hs.parts j hj huj

theorem partscan_loop_scanned (bd : Nat) (mbr : Sector) (d : GenDisk) :
    Scanned bd mbr d (List.range 4) (partscan_loop bd mbr d) :=
  (foldl_scanned bd mbr (List.range 4) d List.nodup_range).1

/-- The scanner counts the used slots on top of what the count held. -/
theorem partscan_loop_count (bd : Nat) (mbr : Sector) {d : GenDisk} (hd : d.part_count < 2 ^ 32) :
    (partscan_loop bd mbr d).part_count = add32 d.part_count (usedSlots mbr) := by
  have h := partscan_loop_scanned bd mbr d
  have hc := h.count
  rwa [Nat.mod_eq_of_lt (h.count_lt hd)] at hc

end Ulmix.Disks

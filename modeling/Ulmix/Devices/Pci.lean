import Ulmix.Lib.Exec
import Ulmix.Lib.Word
import Ulmix.Lib.Bits
/-!
# The PCI scan (`kernel/bus/pci.c`, `kernel/bus/pci_cfgspace.c`)

`setup_pci` asks every function of every slot for its vendor and records the
ones that answer. The three loops only differ from one loop over the list of
these functions (`functions`) in how they are nested (`setup_pci_eq`), so one
step lemma says what recording a device does and a run lemma follows the list.
The array has 128 slots and nothing looks at the index.
-/
open Ulmix.Lib

namespace Ulmix.Pci

def DEVICES : Nat := 128
def DRIVERS : Nat := 128
def PCI_VENDOR_ID : Nat := 0x00
def PCI_DEVICE_ID : Nat := 0x02
def PCI_REVISION : Nat := 0x08
def PCI_PROG_IF : Nat := 0x09
def PCI_SUBCLASS : Nat := 0x0a
def PCI_CLASS : Nat := 0x0b
def EAGAIN : Int := 11

/-! ## Objects -/

structure PcidevStruct where
  bus_no : Nat
  slot_no : Nat
  function_no : Nat
  device_id : Nat
  vendor_id : Nat
  revision : Nat
  prog_if : Nat
  subclass : Nat
  class' : Nat
  deriving DecidableEq, Repr

structure PciIdpair where
  vendor_id : Nat
  device_id : Nat
  deriving DecidableEq, Repr

/-- `struct pci_driver_struct`: the table `ids` points to. What a probe does is the driver's. -/
structure PciDriver where
  ids : List PciIdpair
  deriving Repr

/-- The two arrays, the objects by their address, and the probes called so far with driver and device. -/
structure Bus where
  devices : Nat → Nat
  drivers : Nat → Nat
  pcidevs : Nat → PcidevStruct
  driver_structs : Nat → PciDriver
  probes : List (Nat × Nat)
  kmallocs : Nat

/-! ## Configuration space -/

/-- The registers of every function, byte by byte: bus, slot, function and offset. -/
abbrev ConfigSpace := Nat → Nat → Nat → Nat → UInt8

/-- What the host bridge answers at `CONFIG_DATA` once `address` was written to `CONFIG_ADDRESS`. -/
def config_data (space : ConfigSpace) (address : Nat) : Nat :=
  if address.testBit 31 then
    let reg := space (address / 2 ^ 16 % 2 ^ 8) (address / 2 ^ 11 % 2 ^ 5) (address / 2 ^ 8 % 2 ^ 3)
    let offset := address / 4 % 2 ^ 6 * 4
    ofBytes (reg offset) (reg (offset + 1)) (reg (offset + 2)) (reg (offset + 3))
  else 2 ^ 32 - 1

def pci_cfg_read32 (space : ConfigSpace) (device : PcidevStruct) (offset : Nat) : Nat :=
  let address := device.bus_no <<< 16 ||| device.slot_no <<< 11 ||| device.function_no <<< 8 ||| offset &&& 0xfc ||| 1 <<< 31
  config_data space address

def pci_cfg_read16 (space : ConfigSpace) (device : PcidevStruct) (offset : Nat) : Nat :=
  pci_cfg_read32 space device offset >>> ((offset &&& 2) * 8) &&& 0xffff

def pci_cfg_read8 (space : ConfigSpace) (device : PcidevStruct) (offset : Nat) : Nat :=
  pci_cfg_read32 space device offset >>> ((offset &&& 3) * 8) &&& 0xff

def pci_is_present (space : ConfigSpace) (bus slot fnc : Nat) : Bool :=
  pci_cfg_read16 space ⟨bus % 2 ^ 8, slot % 2 ^ 8, fnc % 2 ^ 8, 0, 0, 0, 0, 0, 0⟩ 0x00 ≠ 0xffff

/-! ## Drivers -/

def pci_register_driver (drv : Nat) : Exec Bus Int := do
  let s ← get
  match (List.range DRIVERS).find? fun i => s.drivers i = 0 with
  | some i =>
    set { s with drivers := Function.update s.drivers i drv }
    return 0
  | none => return - EAGAIN

/-- The loop over the table of the driver `drv`, which ends at a vendor of zero. -/
def probe_ids (drv device : Nat) : List PciIdpair → Exec Bus Unit
  | [] => Exec.fault .outOfBounds
  | id :: ids => do
    if id.vendor_id = 0 then return ()
    let d := (← get).pcidevs device
    if id.vendor_id = d.vendor_id ∧ id.device_id = d.device_id then
      modify fun s => { s with probes := s.probes ++ [(drv, device)] }
    probe_ids drv device ids

/-- The body of the loop over the drivers. -/
def probe_driver (device i : Nat) : Exec Bus Unit := do
  let s ← get
  if s.drivers i ≠ 0 then probe_ids (s.drivers i) device (s.driver_structs (s.drivers i)).ids

/-! ## The scan -/

/-- The answers of `kmalloc`, call by call. -/
abbrev Kmalloc := Nat → Nat

def kmalloc (h : Kmalloc) : Exec Bus Nat := do
  let s ← get
  set { s with kmallocs := s.kmallocs + 1 }
  return h s.kmallocs

/-- The fields `add_pci_device` reads from the function's registers. -/
def identify (space : ConfigSpace) (d : PcidevStruct) : PcidevStruct :=
  { d with
    vendor_id := pci_cfg_read16 space d PCI_VENDOR_ID
    device_id := pci_cfg_read16 space d PCI_DEVICE_ID
    revision := pci_cfg_read8 space d PCI_REVISION
    prog_if := pci_cfg_read8 space d PCI_PROG_IF
    subclass := pci_cfg_read8 space d PCI_SUBCLASS
    class' := pci_cfg_read8 space d PCI_CLASS }

def add_pci_device (h : Kmalloc) (space : ConfigSpace) (id bus slot fnc : Nat) : Exec Bus Unit := do
  let device ← kmalloc h
  if DEVICES ≤ id then Exec.fault .outOfBounds
  else
    modify fun s => { s with devices := Function.update s.devices id device }
    if device = 0 then Exec.fault .nullDeref
    else
      modify fun s =>
        let d := { s.pcidevs device with bus_no := bus % 2 ^ 8, slot_no := slot % 2 ^ 8, function_no := fnc % 2 ^ 8 }
        { s with pcidevs := Function.update s.pcidevs device (identify space d) }
      (List.range DRIVERS).forM (probe_driver device)

/-- The body of the loop over the functions, with `pci_device_index`. -/
def scan_function (h : Kmalloc) (space : ConfigSpace) (bus slot index fnc : Nat) : Exec Bus Nat :=
  if pci_is_present space bus slot fnc then do
    add_pci_device h space index bus slot fnc
    return index + 1
  else return index

def scan_slot (h : Kmalloc) (space : ConfigSpace) (bus index slot : Nat) : Exec Bus Nat :=
  if pci_is_present space bus slot 0 then (List.range 8).foldlM (scan_function h space bus slot) index
  else return index

def scan_bus (h : Kmalloc) (space : ConfigSpace) (index bus : Nat) : Exec Bus Nat :=
  (List.range 32).foldlM (scan_slot h space bus) index

def setup_pci (h : Kmalloc) (space : ConfigSpace) : Exec Bus Unit := do
  let _ ← (List.range 256).foldlM (scan_bus h space) 0
  return ()

/-! ## What there is to find -/

/-- The two bytes at `offset`. -/
def word (reg : Nat → UInt8) (offset : Nat) : Nat := (reg offset).toNat + 256 * (reg (offset + 1)).toNat

/-- A function answers unless its vendor reads as ones. -/
def Present (space : ConfigSpace) (bus slot fnc : Nat) : Prop := word (space bus slot fnc) 0 ≠ 0xffff

instance (space : ConfigSpace) (bus slot fnc : Nat) : Decidable (Present space bus slot fnc) :=
  inferInstanceAs (Decidable (_ ≠ _))

/-- The functions of the slots that have a function 0, in order. -/
def functions (space : ConfigSpace) : List (Nat × Nat × Nat) :=
  (List.range 256).flatMap fun bus => (List.range 32).flatMap fun slot =>
    if Present space bus slot 0 then
      ((List.range 8).filter fun fnc => Present space bus slot fnc).map fun fnc => (bus, slot, fnc)
    else []

/-- The identification of a function: place, ids, revision and class. -/
def identification (space : ConfigSpace) (f : Nat × Nat × Nat) : PcidevStruct :=
  let reg := space f.1 f.2.1 f.2.2
  { bus_no := f.1
    slot_no := f.2.1
    function_no := f.2.2
    vendor_id := word reg 0
    device_id := word reg 2
    revision := (reg 8).toNat
    prog_if := (reg 9).toNat
    subclass := (reg 0xa).toNat
    class' := (reg 0xb).toNat }

/-! ## Reading registers -/

section
variable {space : ConfigSpace} {d : PcidevStruct} {offset : Nat}

/-- The address names bus, slot, function and register, each in its own bits. -/
theorem pci_cfg_read32_eq (hb : d.bus_no < 256) (hs : d.slot_no < 32) (hf : d.function_no < 8) (ho : offset < 256) :
    pci_cfg_read32 space d offset =
      let reg := space d.bus_no d.slot_no d.function_no
      let o := offset / 4 * 4
      ofBytes (reg o) (reg (o + 1)) (reg (o + 2)) (reg (o + 3)) := by
  have hreg : offset &&& 0xfc = offset / 4 * 4 := by
    have := and_ones offset 2 6
    rw [show (2 ^ 6 - 1) <<< 2 = 0xfc by decide] at this
    omega
  have haddr : d.bus_no <<< 16 ||| d.slot_no <<< 11 ||| d.function_no <<< 8 ||| offset &&& 0xfc ||| 1 <<< 31 =
      2 ^ 31 + d.bus_no * 2 ^ 16 + d.slot_no * 2 ^ 11 + d.function_no * 2 ^ 8 + offset / 4 * 4 := by
    have h16 : d.bus_no * 2 ^ 16 ||| d.slot_no * 2 ^ 11 = d.bus_no * 2 ^ 16 + d.slot_no * 2 ^ 11 :=
      or_eq_add (k := 16) (Dvd.intro_left _ rfl) (by omega)
    have h11 : d.bus_no * 2 ^ 16 + d.slot_no * 2 ^ 11 ||| d.function_no * 2 ^ 8 =
        d.bus_no * 2 ^ 16 + d.slot_no * 2 ^ 11 + d.function_no * 2 ^ 8 := or_eq_add (k := 11) (by omega) (by omega)
    have h8 : d.bus_no * 2 ^ 16 + d.slot_no * 2 ^ 11 + d.function_no * 2 ^ 8 ||| offset / 4 * 4 =
        d.bus_no * 2 ^ 16 + d.slot_no * 2 ^ 11 + d.function_no * 2 ^ 8 + offset / 4 * 4 :=
      or_eq_add (k := 8) (by omega) (by omega)
    rw [hreg, Nat.shiftLeft_eq, Nat.shiftLeft_eq, Nat.shiftLeft_eq, h16, h11, h8, Nat.or_comm,
      or_eq_add (k := 31) (by decide) (by omega)]
    omega
  unfold pci_cfg_read32
  rw [haddr]
  generalize ha : 2 ^ 31 + d.bus_no * 2 ^ 16 + d.slot_no * 2 ^ 11 + d.function_no * 2 ^ 8 + offset / 4 * 4 = a
  have hbit : a.testBit 31 = true := by
    rw [Nat.testBit_eq_decide_div_mod_eq]
    simp only [decide_eq_true_eq]
    omega
  unfold config_data
  rw [if_pos hbit]
  have h16 : a / 2 ^ 16 % 2 ^ 8 = d.bus_no := by omega
  have h11 : a / 2 ^ 11 % 2 ^ 5 = d.slot_no := by omega
  have h8 : a / 2 ^ 8 % 2 ^ 3 = d.function_no := by omega
  have h2 : a / 4 % 2 ^ 6 * 4 = offset / 4 * 4 := by omega
  rw [h16, h11, h8, h2]

theorem pci_cfg_read16_eq (hb : d.bus_no < 256) (hs : d.slot_no < 32) (hf : d.function_no < 8) (ho : offset < 256)
    (heven : offset % 2 = 0) :
    pci_cfg_read16 space d offset = word (space d.bus_no d.slot_no d.function_no) offset := by
  have h2 : offset &&& 2 = offset / 2 % 2 * 2 := and_ones offset 1 1
  unfold pci_cfg_read16
  rw [pci_cfg_read32_eq hb hs hf ho, h2, Nat.and_two_pow_sub_one_eq_mod _ 16, Nat.shiftRight_eq_div_pow]
  generalize space d.bus_no d.slot_no d.function_no = reg
  have hlt := fun i => (reg i).toNat_lt
  have h0 := hlt (offset / 4 * 4); have h1 := hlt (offset / 4 * 4 + 1)
  have h2' := hlt (offset / 4 * 4 + 2); have h3 := hlt (offset / 4 * 4 + 3)
  simp only [ofBytes, word]
  rcases (by omega : offset / 2 % 2 = 0 ∧ offset = offset / 4 * 4 ∨ offset / 2 % 2 = 1 ∧ offset = offset / 4 * 4 + 2)
    with ⟨hk, ho'⟩ | ⟨hk, ho'⟩
  · rw [hk]
    conv_rhs => rw [ho']
    simp only [Nat.add_assoc, Nat.reduceMul, Nat.reducePow]
    omega
  · rw [hk]
    conv_rhs => rw [ho']
    simp only [Nat.add_assoc, Nat.reduceAdd, Nat.reduceMul, Nat.reducePow]
    omega

theorem pci_cfg_read8_eq (hb : d.bus_no < 256) (hs : d.slot_no < 32) (hf : d.function_no < 8) (ho : offset < 256) :
    pci_cfg_read8 space d offset = (space d.bus_no d.slot_no d.function_no offset).toNat := by
  unfold pci_cfg_read8
  rw [pci_cfg_read32_eq hb hs hf ho, Nat.and_two_pow_sub_one_eq_mod offset 2, Nat.and_two_pow_sub_one_eq_mod _ 8,
    Nat.shiftRight_eq_div_pow]
  generalize space d.bus_no d.slot_no d.function_no = reg
  have hlt := fun i => (reg i).toNat_lt
  have h0 := hlt (offset / 4 * 4); have h1 := hlt (offset / 4 * 4 + 1)
  have h2 := hlt (offset / 4 * 4 + 2); have h3 := hlt (offset / 4 * 4 + 3)
  simp only [ofBytes]
  have ho' : offset = offset / 4 * 4 + offset % 4 := by omega
  conv_rhs => rw [ho']
  rcases (by omega : offset % 4 = 0 ∨ offset % 4 = 1 ∨ offset % 4 = 2 ∨ offset % 4 = 3) with hk | hk | hk | hk <;>
    · rw [hk]
      simp only [Nat.add_zero, Nat.reduceMul, Nat.reducePow]
      omega

end

section
variable {space : ConfigSpace} {bus slot fnc : Nat}

theorem pci_is_present_iff (hb : bus < 256) (hs : slot < 32) (hf : fnc < 8) :
    pci_is_present space bus slot fnc = true ↔ Present space bus slot fnc := by
  unfold pci_is_present
  rw [pci_cfg_read16_eq (by dsimp only; omega) (by dsimp only; omega) (by dsimp only; omega) (by decide) rfl]
  dsimp only
  rw [Nat.mod_eq_of_lt (by omega), Nat.mod_eq_of_lt (by omega), Nat.mod_eq_of_lt (by omega)]
  simp [Present]

theorem identify_eq (d : PcidevStruct) (hb : bus < 256) (hs : slot < 32) (hf : fnc < 8) :
    identify space { d with bus_no := bus % 2 ^ 8, slot_no := slot % 2 ^ 8, function_no := fnc % 2 ^ 8 } =
      identification space (bus, slot, fnc) := by
  rw [Nat.mod_eq_of_lt (by omega), Nat.mod_eq_of_lt (by omega), Nat.mod_eq_of_lt (by omega)]
  unfold identify
  rw [pci_cfg_read16_eq hb hs hf (by decide) rfl, pci_cfg_read16_eq hb hs hf (by decide) rfl,
    pci_cfg_read8_eq hb hs hf (by decide), pci_cfg_read8_eq hb hs hf (by decide),
    pci_cfg_read8_eq hb hs hf (by decide), pci_cfg_read8_eq hb hs hf (by decide)]
  rfl

theorem mem_functions {f : Nat × Nat × Nat} : f ∈ functions space ↔
    (f.1 < 256 ∧ f.2.1 < 32 ∧ f.2.2 < 8) ∧ Present space f.1 f.2.1 0 ∧ Present space f.1 f.2.1 f.2.2 := by
  obtain ⟨bus, slot, fnc⟩ := f
  simp only [functions, List.mem_flatMap, List.mem_range]
  constructor
  · rintro ⟨b, hb, sl, hsl, hmem⟩
    split at hmem
    · rename_i h0
      obtain ⟨f, hf, heq⟩ := List.mem_map.1 hmem
      cases heq
      simp only [List.mem_filter, List.mem_range, decide_eq_true_eq] at hf
      exact ⟨⟨hb, hsl, hf.1⟩, h0, hf.2⟩
    · cases hmem
  · rintro ⟨⟨hb, hsl, hf⟩, h0, hp⟩
    refine ⟨bus, hb, slot, hsl, ?_⟩
    rw [if_pos h0]
    exact List.mem_map.2 ⟨fnc, by simp [hf, hp], rfl⟩

/-- Bus, slot, function: the order of the scan. -/
def Before (f g : Nat × Nat × Nat) : Prop :=
  f.1 < g.1 ∨ f.1 = g.1 ∧ (f.2.1 < g.2.1 ∨ f.2.1 = g.2.1 ∧ f.2.2 < g.2.2)

theorem functions_ordered (space : ConfigSpace) : (functions space).Pairwise Before := by
  unfold functions
  refine List.pairwise_flatMap.2 ⟨fun bus _ => List.pairwise_flatMap.2 ⟨fun slot _ => ?_, ?_⟩, ?_⟩
  · split
    · refine List.pairwise_map.2 ((List.pairwise_lt_range.filter _).imp fun h => ?_)
      exact .inr ⟨rfl, .inr ⟨rfl, h⟩⟩
    · exact .nil
  · refine List.pairwise_lt_range.imp fun {s t} hst f hf g hg => ?_
    have hslot : ∀ {s : Nat} {f : Nat × Nat × Nat}, (f ∈ if Present space bus s 0 then
        ((List.range 8).filter fun fnc => Present space bus s fnc).map fun fnc => (bus, s, fnc) else []) →
          f.1 = bus ∧ f.2.1 = s := by
      intro s f hf
      split at hf
      · obtain ⟨k, -, rfl⟩ := List.mem_map.1 hf
        exact ⟨rfl, rfl⟩
      · cases hf
    refine .inr ⟨(hslot hf).1.trans (hslot hg).1.symm, .inl ?_⟩
    rw [(hslot hf).2, (hslot hg).2]
    exact hst
  · refine List.pairwise_lt_range.imp fun {a b} hab f hf g hg => .inl ?_
    have hbus : ∀ {a : Nat} {f : Nat × Nat × Nat}, (f ∈ (List.range 32).flatMap fun slot =>
        if Present space a slot 0 then
        ((List.range 8).filter fun fnc => Present space a slot fnc).map fun fnc => (a, slot, fnc) else []) →
          f.1 = a := by
      intro a f hf
      obtain ⟨slot, -, hf⟩ := List.mem_flatMap.1 hf
      split at hf
      · obtain ⟨k, -, rfl⟩ := List.mem_map.1 hf
        rfl
      · cases hf
    rw [hbus hf, hbus hg]
    exact hab

end

/-! ## Calling the drivers -/

/-- The table, up to its end. -/
def listed (ids : List PciIdpair) : List PciIdpair := ids.takeWhile fun id => id.vendor_id ≠ 0

/-- What can be relied on before the scan: nothing is recorded yet, no driver is registered
twice, and every table ends and lists no pair twice. -/
structure Ready (s : Bus) : Prop where
  empty : ∀ i, s.devices i = 0
  quiet : s.probes = []
  distinct : ∀ i j, i < DRIVERS → j < DRIVERS → s.drivers i ≠ 0 → s.drivers i = s.drivers j → i = j
  ends : ∀ i < DRIVERS, s.drivers i ≠ 0 → ∃ id ∈ (s.driver_structs (s.drivers i)).ids, id.vendor_id = 0
  once : ∀ i < DRIVERS, s.drivers i ≠ 0 → (listed (s.driver_structs (s.drivers i)).ids).Nodup

/-- The driver `drv` is registered and lists the device `d`. -/
def Lists (s : Bus) (drv : Nat) (d : PcidevStruct) : Prop :=
  drv ≠ 0 ∧ (∃ i < DRIVERS, s.drivers i = drv) ∧ ⟨d.vendor_id, d.device_id⟩ ∈ listed (s.driver_structs drv).ids

/-- Registering another driver keeps what the scan relies on. -/
theorem pci_register_driver_ready {s s' : Bus} {drv : Nat} {r : Int} (hs : Ready s)
    (hnew : ∀ i < DRIVERS, s.drivers i ≠ drv)
    (hend : ∃ id ∈ (s.driver_structs drv).ids, id.vendor_id = 0) (honce : (listed (s.driver_structs drv).ids).Nodup)
    (h : pci_register_driver drv s = .ok (r, s')) : Ready s' := by
  unfold pci_register_driver at h
  rw [Exec.bind_of_ok (Exec.get_apply s)] at h
  cases hfind : (List.range DRIVERS).find? fun i => s.drivers i = 0 with
  | none =>
    rw [hfind] at h
    cases h
    exact hs
  | some k =>
    rw [hfind] at h
    cases h
    refine ⟨hs.empty, hs.quiet, fun i j hi hj hne heq => ?_, fun i hi hne => ?_, fun i hi hne => ?_⟩
    · dsimp only at hne heq
      by_cases hik : i = k <;> by_cases hjk : j = k
      · rw [hik, hjk]
      · rw [hik, Function.update_self, Function.update_of_ne hjk] at heq
        exact absurd heq.symm (hnew j hj)
      · rw [hjk, Function.update_self, Function.update_of_ne hik] at heq
        exact absurd heq (hnew i hi)
      · rw [Function.update_of_ne hik] at hne heq
        rw [Function.update_of_ne hjk] at heq
        exact hs.distinct i j hi hj hne heq
    · dsimp only at hne ⊢
      by_cases hik : i = k
      · subst hik
        rwa [Function.update_self]
      · rw [Function.update_of_ne hik] at hne ⊢
        exact hs.ends i hi hne
    · dsimp only at hne ⊢
      by_cases hik : i = k
      · subst hik
        rwa [Function.update_self]
      · rw [Function.update_of_ne hik] at hne ⊢
        exact hs.once i hi hne

section
variable {s : Bus} {drv device : Nat}

/-- One call for each time the table lists the device. -/
theorem probe_ids_run (ids : List PciIdpair) : ∀ {s : Bus}, (∃ id ∈ ids, id.vendor_id = 0) →
    probe_ids drv device ids s = .ok ((), { s with
      probes := s.probes ++ List.replicate
        ((listed ids).count ⟨(s.pcidevs device).vendor_id, (s.pcidevs device).device_id⟩) (drv, device) }) := by
  induction ids with
  | nil =>
    rintro s ⟨id, hid, -⟩
    cases hid
  | cons id ids ih =>
    intro s hend
    rw [probe_ids]
    by_cases h0 : id.vendor_id = 0
    · rw [if_pos h0]
      simp [listed, h0]
    · rw [if_neg h0]
      have hend' : ∃ id ∈ ids, id.vendor_id = 0 := by
        obtain ⟨x, hx, hx0⟩ := hend
        rcases List.mem_cons.1 hx with rfl | hx
        · exact absurd hx0 h0
        · exact ⟨x, hx, hx0⟩
      have hlist : listed (id :: ids) = id :: listed ids := by simp [listed, h0]
      rw [hlist]
      rw [Exec.bind_of_ok (Exec.get_apply s)]
      by_cases hmatch : id.vendor_id = (s.pcidevs device).vendor_id ∧ id.device_id = (s.pcidevs device).device_id
      · have hid : id = ⟨(s.pcidevs device).vendor_id, (s.pcidevs device).device_id⟩ := by
          rw [← hmatch.1, ← hmatch.2]
        rw [if_pos hmatch, Exec.bind_of_ok (Exec.modify_apply _ s)]
        refine (ih hend').trans ?_
        rw [← hid, List.count_cons_self]
        simp [List.replicate_succ]
      · have hid : id ≠ ⟨(s.pcidevs device).vendor_id, (s.pcidevs device).device_id⟩ := by
          rintro rfl
          exact hmatch ⟨rfl, rfl⟩
        rw [if_neg hmatch]
        refine (ih hend').trans ?_
        rw [List.count_cons_of_ne hid]

/-- What the driver in slot `i` is called for when `device`, identified as `d`, was recorded. -/
def callsOf (s : Bus) (device : Nat) (d : PcidevStruct) (i : Nat) : List (Nat × Nat) :=
  if s.drivers i ≠ 0 then
    List.replicate ((listed (s.driver_structs (s.drivers i)).ids).count ⟨d.vendor_id, d.device_id⟩)
      (s.drivers i, device)
  else []

theorem probe_drivers_run {d : PcidevStruct} (is : List Nat) : ∀ {s : Bus}, s.pcidevs device = d →
    (∀ i ∈ is, s.drivers i ≠ 0 → ∃ id ∈ (s.driver_structs (s.drivers i)).ids, id.vendor_id = 0) →
    is.forM (probe_driver device) s = .ok ((), { s with probes := s.probes ++ is.flatMap (callsOf s device d) }) := by
  induction is with
  | nil =>
    intro s _ _
    simp
  | cons i is ih =>
    intro s hd hends
    have hone : probe_driver device i s = .ok ((), { s with probes := s.probes ++ callsOf s device d i }) := by
      unfold probe_driver callsOf
      rw [Exec.bind_of_ok (Exec.get_apply s)]
      by_cases h0 : s.drivers i ≠ 0
      · rw [if_pos h0, if_pos h0, probe_ids_run _ (hends i (by simp) h0), hd]
      · rw [if_neg h0, if_neg h0]
        simp
    have hcons : (i :: is).forM (probe_driver device) = probe_driver device i >>= fun _ =>
        is.forM (probe_driver device) := rfl
    rw [hcons, Exec.bind_of_ok hone]
    refine (ih (s := { s with probes := s.probes ++ callsOf s device d i }) hd fun j hj =>
      hends j (by simp [hj])).trans ?_
    rw [List.flatMap_cons, List.append_assoc]
    rfl

/-- The calls made for a device: each driver that lists it, once. -/
theorem callsOf_nodup (hs : Ready s) (d : PcidevStruct) :
    ((List.range DRIVERS).flatMap (callsOf s device d)).Nodup := by
  refine List.nodup_flatMap.2 ⟨fun i hi => ?_, ?_⟩
  · unfold callsOf
    split
    · rename_i h0
      exact List.nodup_replicate.2 (List.nodup_iff_count_le_one.1 (hs.once i (List.mem_range.1 hi) h0) _)
    · exact List.nodup_nil
  · refine List.pairwise_lt_range.imp_of_mem fun {i j} hi hj hij => ?_
    rintro x hxi hxj
    unfold callsOf at hxi hxj
    split at hxi
    · split at hxj
      · rename_i hi0 _
        have heq := (List.eq_of_mem_replicate hxi).symm.trans (List.eq_of_mem_replicate hxj)
        have := hs.distinct i j (List.mem_range.1 hi) (List.mem_range.1 hj) hi0 (congrArg Prod.fst heq)
        omega
      · cases hxj
    · cases hxi

theorem mem_callsOf {d : PcidevStruct} {p : Nat} :
    (drv, p) ∈ (List.range DRIVERS).flatMap (callsOf s device d) ↔ p = device ∧ Lists s drv d := by
  simp only [List.mem_flatMap, List.mem_range]
  constructor
  · rintro ⟨i, hi, hmem⟩
    unfold callsOf at hmem
    split at hmem
    · rename_i h0
      obtain ⟨hne, heq⟩ := List.mem_replicate.1 hmem
      cases heq
      exact ⟨rfl, h0, ⟨i, hi, rfl⟩, List.count_pos_iff.1 (Nat.pos_of_ne_zero hne)⟩
    · cases hmem
  · rintro ⟨rfl, h0, ⟨i, hi, rfl⟩, hlist⟩
    refine ⟨i, hi, ?_⟩
    unfold callsOf
    rw [if_pos h0]
    exact List.mem_replicate.2 ⟨(List.count_pos_iff.2 hlist).ne', rfl⟩

end

/-! ## Recording devices -/

/-- The answers the scan gets are blocks of their own. -/
structure Fresh (h : Kmalloc) (c : Nat) : Prop where
  nonnull : ∀ i < DEVICES, h (c + i) ≠ 0
  apart : ∀ i j, i < DEVICES → j < DEVICES → h (c + i) = h (c + j) → i = j

/-- A place a function can have. -/
def InRange (f : Nat × Nat × Nat) : Prop := f.1 < 256 ∧ f.2.1 < 32 ∧ f.2.2 < 8

/-- The state after the function `f` was recorded in slot `id`. -/
def Bus.recorded (h : Kmalloc) (space : ConfigSpace) (s : Bus) (id : Nat) (f : Nat × Nat × Nat) : Bus :=
  let device := h s.kmallocs
  { s with
    kmallocs := s.kmallocs + 1
    devices := Function.update s.devices id device
    pcidevs := Function.update s.pcidevs device (identification space f)
    probes := s.probes ++ (List.range DRIVERS).flatMap (callsOf s device (identification space f)) }

section
variable {h : Kmalloc} {space : ConfigSpace} {s s₀ : Bus} {id : Nat} {f : Nat × Nat × Nat}

theorem kmalloc_run (h : Kmalloc) (s : Bus) :
    kmalloc h s = .ok (h s.kmallocs, { s with kmallocs := s.kmallocs + 1 }) := rfl

theorem add_pci_device_run (hf : InRange f) (hid : id < DEVICES) (hd : h s.kmallocs ≠ 0)
    (hends : ∀ i < DRIVERS, s.drivers i ≠ 0 → ∃ id ∈ (s.driver_structs (s.drivers i)).ids, id.vendor_id = 0) :
    add_pci_device h space id f.1 f.2.1 f.2.2 s = .ok ((), s.recorded h space id f) := by
  unfold add_pci_device
  rw [Exec.bind_of_ok (kmalloc_run h s), if_neg (Nat.not_le.2 hid), Exec.bind_of_ok (Exec.modify_apply _ _), if_neg hd,
    Exec.bind_of_ok (Exec.modify_apply _ _)]
  dsimp only
  rw [identify_eq _ hf.1 hf.2.1 hf.2.2]
  refine probe_drivers_run (List.range DRIVERS) ?_ fun i hi => hends i (List.mem_range.1 hi)
  exact Function.update_self ..

/-- There is no slot 128. -/
theorem add_pci_device_outside (hid : DEVICES ≤ id) :
    add_pci_device h space id f.1 f.2.1 f.2.2 s = .error .outOfBounds := by
  unfold add_pci_device
  rw [Exec.bind_of_ok (kmalloc_run h s), if_pos hid]
  rfl

/-- What holds once the functions `done` were recorded. -/
structure Recorded (h : Kmalloc) (space : ConfigSpace) (s₀ : Bus) (done : List (Nat × Nat × Nat)) (s : Bus) : Prop where
  kmallocs : s.kmallocs = s₀.kmallocs + done.length
  drivers : s.drivers = s₀.drivers
  tables : s.driver_structs = s₀.driver_structs
  filled : ∀ i < done.length, s.devices i = h (s₀.kmallocs + i)
  rest : ∀ i, done.length ≤ i → s.devices i = 0
  devices : ∀ i (hi : i < done.length), s.pcidevs (h (s₀.kmallocs + i)) = identification space done[i]
  once : s.probes.Nodup
  probed : ∀ drv p, (drv, p) ∈ s.probes ↔
    ∃ i, ∃ hi : i < done.length, p = h (s₀.kmallocs + i) ∧ Lists s₀ drv (identification space done[i])

theorem Ready.recorded (hs : Ready s₀) (h : Kmalloc) (space : ConfigSpace) : Recorded h space s₀ [] s₀ where
  kmallocs := rfl
  drivers := rfl
  tables := rfl
  filled i hi := by simp at hi
  rest i _ := hs.empty i
  devices i hi := by simp at hi
  once := by simp [hs.quiet]
  probed drv p := by simp [hs.quiet]

theorem Recorded.step {done : List (Nat × Nat × Nat)} (hs : Ready s₀) (hh : Fresh h s₀.kmallocs)
    (hr : Recorded h space s₀ done s) (hlen : done.length < DEVICES) :
    Recorded h space s₀ (done ++ [f]) (s.recorded h space done.length f) := by
  have hcalls : callsOf s = callsOf s₀ := by
    funext device d i
    unfold callsOf
    rw [hr.drivers, hr.tables]
  have hnew : ∀ i < done.length, h (s₀.kmallocs + i) ≠ h (s₀.kmallocs + done.length) := by
    intro i hi heq
    have := hh.apart i done.length (by omega) hlen heq
    omega
  refine ⟨?_, hr.drivers, hr.tables, fun i hi => ?_, fun i hi => ?_, fun i hi => ?_, ?_, fun drv p => ?_⟩
  · simp only [Bus.recorded, hr.kmallocs, List.length_append, List.length_singleton]
    omega
  · simp only [Bus.recorded, hr.kmallocs]
    rw [List.length_append, List.length_singleton] at hi
    by_cases hlast : i = done.length
    · rw [hlast, Function.update_self]
    · rw [Function.update_of_ne hlast]
      exact hr.filled i (by omega)
  · simp only [Bus.recorded]
    rw [List.length_append, List.length_singleton] at hi
    rw [Function.update_of_ne (by omega)]
    exact hr.rest i (by omega)
  · simp only [Bus.recorded, hr.kmallocs]
    rw [List.length_append, List.length_singleton] at hi
    by_cases hlast : i = done.length
    · subst hlast
      rw [Function.update_self, List.getElem_concat_length]
      rfl
    · rw [Function.update_of_ne (hnew i (by omega)), List.getElem_append_left (by omega)]
      exact hr.devices i (by omega)
  · -- the calls for the new device are about no device that was there before
    simp only [Bus.recorded, hcalls, hr.kmallocs]
    refine List.nodup_append'.2 ⟨hr.once, callsOf_nodup hs _, ?_⟩
    rintro ⟨drv, p⟩ hold hcall
    obtain ⟨i, hi, rfl, -⟩ := (hr.probed drv p).1 hold
    exact hnew i hi (mem_callsOf.1 hcall).1
  · simp only [Bus.recorded, hcalls, hr.kmallocs, List.mem_append, hr.probed, mem_callsOf, List.length_append,
      List.length_singleton]
    constructor
    · rintro (⟨i, hi, rfl, hl⟩ | ⟨rfl, hl⟩)
      · exact ⟨i, by omega, rfl, by rwa [List.getElem_append_left hi]⟩
      · exact ⟨done.length, by omega, rfl, by rwa [List.getElem_concat_length rfl]⟩
    · rintro ⟨i, hi, rfl, hl⟩
      by_cases hlast : i = done.length
      · subst hlast
        rw [List.getElem_concat_length rfl] at hl
        exact .inr ⟨rfl, hl⟩
      · rw [List.getElem_append_left (by omega)] at hl
        exact .inl ⟨i, by omega, rfl, hl⟩

/-! ## The scan -/

/-- One loop over the functions `fs`. -/
def add_all (h : Kmalloc) (space : ConfigSpace) (index : Nat) (fs : List (Nat × Nat × Nat)) : Exec Bus Nat :=
  fs.foldlM (fun index f => do add_pci_device h space index f.1 f.2.1 f.2.2; return index + 1) index

/-- A loop whose rounds are loops is one loop. -/
theorem foldlM_add_all {α : Type} {g : α → List (Nat × Nat × Nat)} {step : Nat → α → Exec Bus Nat} (xs : List α)
    (hstep : ∀ x ∈ xs, ∀ index, step index x = add_all h space index (g x)) :
    ∀ index, xs.foldlM step index = add_all h space index (xs.flatMap g) := by
  induction xs with
  | nil =>
    intro index
    rfl
  | cons x xs ih =>
    intro index
    have hih : (fun index => xs.foldlM step index) = fun index => add_all h space index (xs.flatMap g) :=
      funext (ih fun y hy => hstep y (by simp [hy]))
    rw [List.foldlM_cons, hstep x (by simp), List.flatMap_cons]
    unfold add_all
    rw [List.foldlM_append]
    exact congrArg (_ >>= ·) hih

theorem flatMap_if {α β : Type} (p : α → Prop) [DecidablePred p] (g : α → β) (xs : List α) :
    (xs.flatMap fun x => if p x then [g x] else []) = (xs.filter fun x => p x).map g := by
  induction xs with
  | nil => rfl
  | cons x xs ih =>
    by_cases hp : p x
    · simp [hp, ih]
    · simp [hp, ih]

theorem setup_pci_eq (h : Kmalloc) (space : ConfigSpace) :
    setup_pci h space = add_all h space 0 (functions space) >>= fun _ => pure () := by
  unfold setup_pci
  rw [foldlM_add_all (List.range 256) ?_ 0]
  · rfl
  intro bus hb index
  refine foldlM_add_all (List.range 32) (fun slot hs index => ?_) index
  have hb := List.mem_range.1 hb
  have hs := List.mem_range.1 hs
  unfold scan_slot
  by_cases h0 : Present space bus slot 0
  · rw [if_pos ((pci_is_present_iff hb hs (by decide)).2 h0), if_pos h0]
    have hround : ∀ fnc ∈ List.range 8, ∀ index, scan_function h space bus slot index fnc =
        add_all h space index (if Present space bus slot fnc then [(bus, slot, fnc)] else []) := by
      intro fnc hf index
      have hpres : pci_is_present space bus slot fnc = true ↔ Present space bus slot fnc :=
        pci_is_present_iff hb hs (List.mem_range.1 hf)
      unfold scan_function
      by_cases hp : Present space bus slot fnc
      · rw [if_pos (hpres.2 hp), if_pos hp]
        simp [add_all]
      · rw [if_neg (mt hpres.1 hp), if_neg hp]
        rfl
    rw [foldlM_add_all _ hround index, flatMap_if]
  · rw [if_neg (mt (pci_is_present_iff hb hs (by decide)).1 h0), if_neg h0]
    rfl

theorem add_all_cons (index : Nat) (f : Nat × Nat × Nat) (fs : List (Nat × Nat × Nat)) :
    add_all h space index (f :: fs) =
      add_pci_device h space index f.1 f.2.1 f.2.2 >>= fun _ => add_all h space (index + 1) fs := by
  unfold add_all
  rw [List.foldlM_cons, bind_assoc]
  rfl

/-- As long as there are slots, everything is recorded. -/
theorem add_all_run (hs : Ready s₀) (hh : Fresh h s₀.kmallocs) (fs : List (Nat × Nat × Nat)) :
    ∀ {done : List (Nat × Nat × Nat)} {s : Bus}, Recorded h space s₀ done s → (∀ f ∈ fs, InRange f) →
      done.length + fs.length ≤ DEVICES →
      ∃ s', add_all h space done.length fs s = .ok (done.length + fs.length, s') ∧
        Recorded h space s₀ (done ++ fs) s' := by
  induction fs with
  | nil =>
    intro done s hr _ _
    exact ⟨s, rfl, by rwa [List.append_nil]⟩
  | cons f fs ih =>
    intro done s hr hrange hlen
    rw [List.length_cons] at hlen
    have hnonnull : h s.kmallocs ≠ 0 := by
      rw [hr.kmallocs]
      exact hh.nonnull _ (by omega)
    have hends : ∀ i < DRIVERS, s.drivers i ≠ 0 → ∃ id ∈ (s.driver_structs (s.drivers i)).ids, id.vendor_id = 0 := by
      rw [hr.drivers, hr.tables]
      exact hs.ends
    have hstep : add_pci_device h space done.length f.1 f.2.1 f.2.2 s = _ :=
      add_pci_device_run (hrange f (by simp)) (by omega) hnonnull hends
    obtain ⟨s', hrun, hr'⟩ := ih (hr.step (f := f) hs hh (by omega)) (fun g hg => hrange g (by simp [hg]))
      (by rw [List.length_append, List.length_singleton]; omega)
    rw [List.length_append, List.length_singleton] at hrun
    refine ⟨s', ?_, by rwa [List.append_assoc] at hr'⟩
    rw [add_all_cons, Exec.bind_of_ok hstep, hrun, List.length_cons]
    congr 2
    omega

/-- With more functions than slots the scan writes behind the array. -/
theorem add_all_outside (hs : Ready s₀) (hh : Fresh h s₀.kmallocs) (fs : List (Nat × Nat × Nat)) :
    ∀ {done : List (Nat × Nat × Nat)} {s : Bus}, Recorded h space s₀ done s → (∀ f ∈ fs, InRange f) →
      done.length ≤ DEVICES → DEVICES < done.length + fs.length →
      add_all h space done.length fs s = .error .outOfBounds := by
  induction fs with
  | nil =>
    intro done s _ _ hle hlt
    rw [List.length_nil] at hlt
    omega
  | cons f fs ih =>
    intro done s hr hrange hle hlt
    rw [List.length_cons] at hlt
    rw [add_all_cons]
    by_cases hfull : DEVICES ≤ done.length
    · exact Exec.bind_of_error (add_pci_device_outside hfull)
    · have hnonnull : h s.kmallocs ≠ 0 := by
        rw [hr.kmallocs]
        exact hh.nonnull _ (by omega)
      have hends : ∀ i < DRIVERS, s.drivers i ≠ 0 → ∃ id ∈ (s.driver_structs (s.drivers i)).ids, id.vendor_id = 0 := by
        rw [hr.drivers, hr.tables]
        exact hs.ends
      have hstep : add_pci_device h space done.length f.1 f.2.1 f.2.2 s = _ :=
        add_pci_device_run (hrange f (by simp)) (by omega) hnonnull hends
      have hih := ih (hr.step (f := f) hs hh (by omega)) (fun g hg => hrange g (by simp [hg]))
        (by rw [List.length_append, List.length_singleton]; omega)
        (by rw [List.length_append, List.length_singleton]; omega)
      rw [List.length_append, List.length_singleton] at hih
      rw [Exec.bind_of_ok hstep, hih]

/-- What the scan is to leave: the functions in order, each with its identification in a block
of its own, nothing behind them, and one call for each driver and device it lists. -/
structure Scanned (space : ConfigSpace) (s s' : Bus) : Prop where
  recorded : ∀ i (hi : i < (functions space).length),
    s'.devices i ≠ 0 ∧ s'.pcidevs (s'.devices i) = identification space (functions space)[i]
  once : ∀ i j, i < (functions space).length → j < (functions space).length → s'.devices i = s'.devices j → i = j
  rest : ∀ i, (functions space).length ≤ i → s'.devices i = 0
  probed : ∀ drv, ∀ i < (functions space).length, Lists s drv (s'.pcidevs (s'.devices i)) →
    s'.probes.count (drv, s'.devices i) = 1
  only : ∀ drv p, (drv, p) ∈ s'.probes →
    ∃ i < (functions space).length, p = s'.devices i ∧ Lists s drv (s'.pcidevs p)

theorem Recorded.scanned {s' : Bus} (hh : Fresh h s.kmallocs) (hr : Recorded h space s (functions space) s')
    (hlen : (functions space).length ≤ DEVICES) : Scanned space s s' where
  recorded i hi := by
    rw [hr.filled i hi]
    exact ⟨hh.nonnull i (by omega), hr.devices i hi⟩
  once i j hi hj heq := by
    rw [hr.filled i hi, hr.filled j hj] at heq
    exact hh.apart i j (by omega) (by omega) heq
  rest := hr.rest
  probed drv i hi hl := by
    rw [hr.filled i hi] at hl ⊢
    rw [hr.devices i hi] at hl
    exact List.count_eq_one_of_mem hr.once ((hr.probed _ _).2 ⟨i, hi, rfl, hl⟩)
  only drv p hp := by
    obtain ⟨i, hi, rfl, hl⟩ := (hr.probed drv p).1 hp
    refine ⟨i, hi, (hr.filled i hi).symm, ?_⟩
    rwa [hr.devices i hi]

/-- The scan does what it is for if and only if no more than 128 functions answer in the
slots it looks at. -/
theorem setup_pci_scan (hh : Fresh h s.kmallocs) (hs : Ready s) :
    (∃ s', setup_pci h space s = .ok ((), s') ∧ Scanned space s s') ↔ (functions space).length ≤ DEVICES := by
  have hrange : ∀ f ∈ functions space, InRange f := fun f hf => (mem_functions.1 hf).1
  rw [setup_pci_eq]
  constructor
  · rintro ⟨s', hrun, -⟩
    by_contra hlen
    have hout := add_all_outside hs hh (functions space) (hs.recorded h space) hrange (Nat.zero_le _) (by simp; omega)
    rw [List.length_nil] at hout
    rw [Exec.bind_of_error hout] at hrun
    cases hrun
  · intro hlen
    obtain ⟨s', hrun, hr⟩ := add_all_run hs hh (functions space) (hs.recorded h space) hrange (by simpa using hlen)
    rw [List.length_nil] at hrun
    rw [List.nil_append] at hr
    refine ⟨s', ?_, hr.scanned hh hlen⟩
    rw [Exec.bind_of_ok hrun]
    rfl

end

/-- Before the scan, without drivers. -/
def idleBus : Bus := ⟨fun _ => 0, fun _ => 0, fun _ => ⟨0, 0, 0, 0, 0, 0, 0, 0, 0⟩, fun _ => ⟨[]⟩, [], 0⟩

theorem idleBus_ready : Ready idleBus :=
  ⟨fun _ => rfl, rfl, fun _ _ _ _ hne => absurd rfl hne, fun _ _ hne => absurd rfl hne, fun _ _ hne => absurd rfl hne⟩

theorem nextBlock_fresh (c : Nat) : Fresh (fun i => 16 * i + 16) c :=
  ⟨fun i _ => by omega, fun i j _ _ heq => by omega⟩

/-- A driver for the second function of a card. -/
def cardBus : Bus :=
  { idleBus with
    drivers := fun i => if i = 0 then 0x40 else 0
    driver_structs := fun _ => ⟨[⟨0x1211, 0x1413⟩, ⟨0, 0⟩]⟩ }

/-- A card in slot 1 with the functions 0 and 1. -/
def card : ConfigSpace := fun bus slot fnc offset =>
  if bus = 0 ∧ slot = 1 ∧ fnc < 2 then UInt8.ofNat (0x10 * fnc + offset + 1) else 0xff

theorem functions_card : functions card = [(0, 1, 0), (0, 1, 1)] := by decide +kernel

theorem cardBus_ready : Ready cardBus where
  empty _ := rfl
  quiet := rfl
  distinct i j _ _ hne heq := by
    have hi : i = 0 := by
      by_contra hi
      exact hne (if_neg hi)
    have hj : j = 0 := by
      by_contra hj
      exact hne (heq.trans (if_neg hj))
    rw [hi, hj]
  ends _ _ _ := ⟨⟨0, 0⟩, List.mem_cons_of_mem _ (List.mem_singleton_self _), rfl⟩
  once _ _ _ := by
    have hids : (listed [⟨0x1211, 0x1413⟩, ⟨0, 0⟩]).Nodup := by decide +kernel
    exact hids

/-- The driver is probed once, with the second device. -/
theorem setup_pci_scan_card : ∃ s', setup_pci (fun i => 16 * i + 16) card cardBus = .ok ((), s') ∧
    Scanned card cardBus s' ∧ s'.probes.count (0x40, s'.devices 1) = 1 := by
  have hlen : (functions card).length = 2 := by rw [functions_card]; rfl
  obtain ⟨s', hrun, hscanned⟩ := (setup_pci_scan (nextBlock_fresh 0) cardBus_ready).2
    (by rw [hlen, DEVICES]; decide)
  refine ⟨s', hrun, hscanned, hscanned.probed 0x40 1 (by omega) ?_⟩
  rw [(hscanned.recorded 1 (by omega)).2]
  simp only [functions_card, List.getElem_cons_succ, List.getElem_cons_zero]
  exact ⟨by decide, ⟨0, by decide, rfl⟩, by decide +kernel⟩

/-- A bus where everything answers. -/
def crowded : ConfigSpace := fun _ _ _ _ => 0

theorem functions_crowded : (functions crowded).length = 65536 := by
  have hpres : ∀ bus slot fnc, Present crowded bus slot fnc := fun _ _ _ => by simp [Present, word, crowded]
  have hslot : ∀ bus slot, (if Present crowded bus slot 0 then
      ((List.range 8).filter fun fnc => Present crowded bus slot fnc).map fun fnc => (bus, slot, fnc)
      else []).length = 8 := by
    intro bus slot
    rw [if_pos (hpres bus slot 0)]
    simp [hpres]
  simp only [functions, List.length_flatMap, hslot, List.map_const', List.sum_replicate_nat, List.length_range]

theorem setup_pci_overflows : ¬ ∃ s', setup_pci (fun i => 16 * i + 16) crowded idleBus = .ok ((), s') ∧
    Scanned crowded idleBus s' := by
  rintro ⟨s', hrun, -⟩
  rw [setup_pci_eq] at hrun
  have hlen : DEVICES < ([] : List (Nat × Nat × Nat)).length + (functions crowded).length := by
    rw [functions_crowded, List.length_nil, DEVICES]
    omega
  have hout := add_all_outside idleBus_ready (nextBlock_fresh 0) (functions crowded) (idleBus_ready.recorded _ crowded)
    (fun f hf => (mem_functions.1 hf).1) (Nat.zero_le _) hlen
  rw [List.length_nil] at hout
  rw [Exec.bind_of_error hout] at hrun
  cases hrun

end Ulmix.Pci

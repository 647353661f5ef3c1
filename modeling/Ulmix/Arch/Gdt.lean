import Ulmix.Lib.Descriptors
import Ulmix.Lib.Exec
import Ulmix.Lib.Bits
/-!
# Segments (`arch/i686/gdt.c`, `arch/i686/memop.s`)

`setup_entry` scatters base and limit over the bytes of a descriptor; what the processor reads back from them is
what was given (`setup_entry_segment`). `setup_gdt` makes four segments of the whole address space and one for the
task state, whose `esp0` is what `update_tss` last stored.
-/
open Ulmix.Lib Ulmix.Lib.X86

namespace Ulmix.Gdt

/-! ## The code -/

def VALID : Nat := 0x80
def OFF_32 : Nat := 0x40
def SYS_NON : Nat := 0x10
def ACC_SUP : Nat := 0x00
def ACC_USR : Nat := 0x60
def GRAN_4K : Nat := 0x80
def CXR : Nat := 0x0a
def DRW : Nat := 0x02
def GDT_ENTRIES : Nat := 6

structure GdteStruct where
  limit : UInt16
  base_low : UInt16
  base_middle : UInt8
  access : UInt8
  flags : UInt8
  base_high : UInt8
  deriving DecidableEq, Repr

/-- The two bytes of a `uint16_t`. -/
def bytes16 (v : UInt16) : List UInt8 := [byteOf v.toNat 0, byteOf v.toNat 1]

/-- The struct is packed. -/
def GdteStruct.bytes (e : GdteStruct) : List UInt8 :=
  bytes16 e.limit ++ bytes16 e.base_low ++ [e.base_middle, e.access, e.flags, e.base_high]

/-! `struct tsse_struct` is 25 words and two halves of a word; these are the words that are set. -/

def TSS_ESP0 : Nat := 1
def TSS_SS0 : Nat := 2
def TSS_ES : Nat := 18
def TSS_CS : Nat := 19
def TSS_SS : Nat := 20
def TSS_DS : Nat := 21
def TSS_FS : Nat := 22
def TSS_GS : Nat := 23
def TSS_SIZE : Nat := 25 * 4 + 2 * 2

/-- `gdt`, `tss`, and the registers of the processor that say where they are. -/
structure Segmentation where
  gdt : Nat → GdteStruct
  tss : Nat → Nat
  gdtr : TableReg
  segs : Seg → Nat
  ss : Nat
  cs : Nat
  tr : Nat

/-- What `setup_entry` assigns. -/
def entryOf (base limit access flags : Nat) : GdteStruct where
  base_low := UInt16.ofNat (base &&& 0xffff)
  base_middle := UInt8.ofNat ((base >>> 16) &&& 0xff)
  base_high := UInt8.ofNat ((base >>> 24) &&& 0xff)
  limit := UInt16.ofNat (limit &&& 0xffff)
  flags := UInt8.ofNat ((limit >>> 16) &&& 0x0f) ||| UInt8.ofNat (flags &&& 0xf0)
  access := UInt8.ofNat access

def setup_entry (id base limit access flags : Nat) : Exec Segmentation Unit := do
  if GDT_ENTRIES ≤ id then Exec.fault .outOfBounds
  modify fun s => { s with gdt := Function.update s.gdt id (entryOf base limit access flags) }

def set_tss (field v : Nat) : Exec Segmentation Unit :=
  modify fun s => { s with tss := Function.update s.tss field (v % 2 ^ 32) }

/-- `lgdt`, the data segment registers, and a far jump for `cs`. -/
def gdt_write (gdt_descr : TableReg) : Exec Segmentation Unit :=
  modify fun s => { s with gdtr := gdt_descr, segs := fun _ => 0x10, ss := 0x10, cs := 0x08 }

/-- `ltr` -/
def tss_write : Exec Segmentation Unit := modify fun s => { s with tr := 0x2b }

/-- `gdt` and `tss` are the addresses of the two. -/
def setup_gdt (gdt tss : Nat) : Exec Segmentation Unit := do
  setup_entry 0 0 0 0 0
  setup_entry 1 0 0xFFFFF (VALID ||| ACC_SUP ||| SYS_NON ||| CXR) (GRAN_4K ||| OFF_32)
  setup_entry 2 0 0xFFFFF (VALID ||| ACC_SUP ||| SYS_NON ||| DRW) (GRAN_4K ||| OFF_32)
  setup_entry 3 0 0xFFFFF (VALID ||| ACC_USR ||| SYS_NON ||| CXR) (GRAN_4K ||| OFF_32)
  setup_entry 4 0 0xFFFFF (VALID ||| ACC_USR ||| SYS_NON ||| DRW) (GRAN_4K ||| OFF_32)
  setup_entry 5 tss TSS_SIZE 0xe9 0x00
  set_tss TSS_SS0 0x10
  set_tss TSS_ESP0 0x00
  set_tss TSS_CS 0x08
  set_tss TSS_GS 0x10
  set_tss TSS_FS 0x10
  set_tss TSS_ES 0x10
  set_tss TSS_DS 0x10
  set_tss TSS_SS 0x10
  gdt_write ⟨gdt, 8 * GDT_ENTRIES - 1⟩
  tss_write

def update_tss (sp : Nat) : Exec Segmentation Unit := set_tss TSS_ESP0 sp

/-! ## What the processor makes of it -/

/-- The table and the task state lie in memory at their addresses. -/
structure Installed (mem : Nat → UInt8) (gdt tss : Nat) (s : Segmentation) : Prop where
  gdt : ∀ i < GDT_ENTRIES, Lies mem (add32 gdt (8 * i)) (s.gdt i).bytes
  tss : ∀ i < 25, read32 mem (add32 tss (4 * i)) = s.tss i

theorem setup_entry_run {id : Nat} (hid : id < GDT_ENTRIES) (base limit access flags : Nat) (s : Segmentation) :
    setup_entry id base limit access flags s =
      .ok ((), { s with gdt := Function.update s.gdt id (entryOf base limit access flags) }) := by
  unfold setup_entry
  rw [if_neg (not_le.2 hid)]
  rfl

/-- The segment that base, limit, access byte and flags describe. -/
def segment (base limit access flags : Nat) : Segment where
  base := base
  limit := if flags.testBit 7 then limit * 4096 + 4095 else limit
  kind := access % 32
  dpl := access / 32 % 4
  present := access.testBit 7
  big := flags.testBit 6

/-- The byte of the limit's upper bits and the flags. -/
theorem flags_byte {limit flags : Nat} (hl : limit < 2 ^ 20) (hf : flags < 2 ^ 8) :
    (UInt8.ofNat ((limit >>> 16) &&& 0x0f) ||| UInt8.ofNat (flags &&& 0xf0)).toNat =
      limit / 65536 + flags / 16 * 16 := by
  have hlow : (limit >>> 16) &&& 0x0f = limit / 65536 := by
    rw [Nat.shiftRight_eq_div_pow, show (0x0f : Nat) = 2 ^ 4 - 1 from rfl, Nat.and_two_pow_sub_one_eq_mod]
    omega
  have hhigh : flags &&& 0xf0 = flags / 16 * 16 := by
    rw [show (0xf0 : Nat) = (2 ^ 4 - 1) <<< 4 from rfl, and_ones]
    omega
  have hdvd : 2 ^ 4 ∣ flags / 16 * 16 := Nat.dvd_mul_left 16 _
  rw [hlow, hhigh, UInt8.toNat_or, UInt8.toNat_ofNat', UInt8.toNat_ofNat', Nat.mod_eq_of_lt (by omega),
    Nat.mod_eq_of_lt (by omega), Nat.or_comm, or_eq_add hdvd (by omega), Nat.add_comm]

/-- The two words of a descriptor. -/
theorem entryOf_words {mem : Nat → UInt8} {a base limit access flags : Nat} (hb : base < 2 ^ 32) (hl : limit < 2 ^ 20)
    (ha : access < 2 ^ 8) (hf : flags < 2 ^ 8) (h : Lies mem a (entryOf base limit access flags).bytes) :
    read32 mem a = limit % 65536 + base % 65536 * 65536 ∧
      read32 mem (add32 a 4) = base / 65536 % 256 + access * 256 + (limit / 65536 + flags / 16 * 16) * 65536 +
        base / 16777216 * 16777216 := by
  obtain ⟨hlow, hhigh⟩ := read32_of_lies h
  have hmiddle : (base >>> 16) &&& 0xff = base / 65536 % 256 := by
    rw [Nat.shiftRight_eq_div_pow, show (0xff : Nat) = 2 ^ 8 - 1 from rfl, Nat.and_two_pow_sub_one_eq_mod]
  have htop : (base >>> 24) &&& 0xff = base / 16777216 := by
    rw [Nat.shiftRight_eq_div_pow, show (0xff : Nat) = 2 ^ 8 - 1 from rfl, Nat.and_two_pow_sub_one_eq_mod]
    omega
  have hhalf : ∀ x : Nat, (UInt16.ofNat (x &&& 0xffff)).toNat = x % 65536 := by
    intro x
    rw [show (0xffff : Nat) = 2 ^ 16 - 1 from rfl, Nat.and_two_pow_sub_one_eq_mod, UInt16.toNat_ofNat']
    omega
  have hflags := flags_byte hl hf
  rw [hlow, hhigh]
  simp only [ofBytes, entryOf, hflags, hmiddle, htop, hhalf, byteOf, UInt8.toNat_ofNat', pow_zero, pow_one, Nat.div_one]
  omega

/-- The two flags in the upper word. -/
theorem flags_bits {x l f y : Nat} (hx : x < 65536) (hl : l < 16) :
    (x + (l + f / 16 * 16) * 65536 + y * 16777216) / 8388608 % 2 = f / 128 % 2 ∧
      (x + (l + f / 16 * 16) * 65536 + y * 16777216) / 4194304 % 2 = f / 64 % 2 := by
  have hword : (x + (l + f / 16 * 16) * 65536 + y * 16777216) / 1048576 = f / 16 + y * 16 := by omega
  have hhigh : f / 128 = f / 16 / 8 := by rw [Nat.div_div_eq_div_mul]
  have hbig : f / 64 = f / 16 / 4 := by rw [Nat.div_div_eq_div_mul]
  generalize f / 16 = g at *
  omega

/-- What is read back is what was given. -/
theorem entryOf_segment {mem : Nat → UInt8} {a base limit access flags : Nat} (hb : base < 2 ^ 32) (hl : limit < 2 ^ 20)
    (ha : access < 2 ^ 8) (hf : flags < 2 ^ 8) (h : Lies mem a (entryOf base limit access flags).bytes) :
    segmentOf mem a = segment base limit access flags := by
  obtain ⟨hlow, hhigh⟩ := entryOf_words hb hl ha hf h
  obtain ⟨hgran, hbig⟩ := flags_bits (x := base / 65536 % 256 + access * 256) (l := limit / 65536) (f := flags)
    (y := base / 16777216) (by omega) (by omega)
  have hlimit : (limit % 65536 + base % 65536 * 65536) % 65536 + (base / 65536 % 256 + access * 256 +
      (limit / 65536 + flags / 16 * 16) * 65536 + base / 16777216 * 16777216) / 65536 % 16 * 65536 = limit := by omega
  unfold segmentOf segment
  rw [hlow, hhigh]
  simp only [Segment.mk.injEq, Nat.testBit_eq_decide_div_mod_eq, decide_eq_decide, hlimit, Nat.reducePow, hgran, hbig]
  refine ⟨?_, trivial, ?_, ?_, ?_, trivial⟩ <;> omega

/-- Whatever is set up before or after, an entry is read back as it was given, and the others stay as they were. -/
theorem setup_entry_segment {id base limit access flags : Nat} (hid : id < GDT_ENTRIES) (hb : base < 2 ^ 32)
    (hl : limit < 2 ^ 20) (ha : access < 2 ^ 8) (hf : flags < 2 ^ 8) (s : Segmentation) :
    ∃ t, setup_entry id base limit access flags s = .ok ((), t) ∧
      (∀ mem a, Lies mem a (t.gdt id).bytes → segmentOf mem a = segment base limit access flags) ∧
      ∀ k, k ≠ id → t.gdt k = s.gdt k := by
  refine ⟨_, setup_entry_run hid .., fun mem a h => ?_, fun k hk => Function.update_of_ne hk ..⟩
  dsimp only at h
  rw [Function.update_self] at h
  exact entryOf_segment hb hl ha hf h

/-- A page-granular segment for the highest byte addressable. -/
theorem setup_entry_segment_page : ∃ t, setup_entry 3 0xfffff000 0 0xfa 0xc0
      ⟨fun _ => ⟨0, 0, 0, 0, 0, 0⟩, fun _ => 0, ⟨0, 0⟩, fun _ => 0, 0, 0, 0⟩ = .ok ((), t) ∧
    (∀ mem a, Lies mem a (t.gdt 3).bytes → segmentOf mem a = ⟨0xfffff000, 0xfff, 0x1a, 3, true, true⟩) ∧
    ∀ k, k ≠ 3 → t.gdt k = ⟨0, 0, 0, 0, 0, 0⟩ :=
  setup_entry_segment (by decide) (by decide) (by decide) (by decide) (by decide) _

/-! ## After `setup_gdt` -/

theorem setup_gdt_run (gdt tss : Nat) (s : Segmentation) : ∃ t, setup_gdt gdt tss s = .ok ((), t) ∧
    t.gdtr = ⟨gdt, 47⟩ ∧ t.tr = 0x2b ∧ t.cs = 0x08 ∧ t.ss = 0x10 ∧ (∀ r, t.segs r = 0x10) ∧
    t.gdt 1 = entryOf 0 0xfffff 0x9a 0xc0 ∧ t.gdt 2 = entryOf 0 0xfffff 0x92 0xc0 ∧
    t.gdt 3 = entryOf 0 0xfffff 0xfa 0xc0 ∧ t.gdt 4 = entryOf 0 0xfffff 0xf2 0xc0 ∧
    t.gdt 5 = entryOf tss 104 0xe9 0 ∧ t.tss TSS_SS0 = 0x10 ∧ t.tss TSS_ESP0 = 0 :=
  ⟨_, rfl, rfl, rfl, rfl, rfl, fun _ => rfl, rfl, rfl, rfl, rfl, rfl, rfl, rfl⟩

/-- The segmentation the kernel runs with: the table of `setup_gdt`, and `sp` as last given to `update_tss`. -/
structure Flat (gdt tss sp : Nat) (t : Segmentation) : Prop where
  gdtr : t.gdtr = ⟨gdt, 47⟩
  tr : t.tr = 0x2b
  kcode : t.gdt 1 = entryOf 0 0xfffff 0x9a 0xc0
  kdata : t.gdt 2 = entryOf 0 0xfffff 0x92 0xc0
  ucode : t.gdt 3 = entryOf 0 0xfffff 0xfa 0xc0
  udata : t.gdt 4 = entryOf 0 0xfffff 0xf2 0xc0
  state : t.gdt 5 = entryOf tss 104 0xe9 0
  ss0 : t.tss TSS_SS0 = 0x10
  esp0 : t.tss TSS_ESP0 = sp

theorem setup_gdt_flat (gdt tss : Nat) (s : Segmentation) :
    ∃ t, setup_gdt gdt tss s = .ok ((), t) ∧ Flat gdt tss 0 t := by
  obtain ⟨t, hrun, hgdtr, htr, -, -, -, h1, h2, h3, h4, h5, hss, hesp⟩ := setup_gdt_run gdt tss s
  exact ⟨t, hrun, ⟨hgdtr, htr, h1, h2, h3, h4, h5, hss, hesp⟩⟩

theorem Flat.update_tss {gdt tss sp : Nat} {t : Segmentation} (h : Flat gdt tss sp t) {sp' : Nat} (hsp : sp' < 2 ^ 32) :
    ∃ t', update_tss sp' t = .ok ((), t') ∧ Flat gdt tss sp' t' := by
  refine ⟨_, rfl, ⟨h.gdtr, h.tr, h.kcode, h.kdata, h.ucode, h.udata, h.state, ?_, ?_⟩⟩
  · have hne : TSS_SS0 ≠ TSS_ESP0 := by decide
    dsimp only
    rw [Function.update_of_ne hne]
    exact h.ss0
  · dsimp only
    rw [Function.update_self]
    exact Nat.mod_eq_of_lt hsp

section
variable {gdt tss sp : Nat} {t : Segmentation} {mem : Nat → UInt8}

/-- The segment a selector of the table names. -/
theorem Flat.segment (h : Flat gdt tss sp t) (hin : Installed mem gdt tss t) {i r base limit access flags : Nat}
    (hi : i < GDT_ENTRIES) (hr : r < 8) (he : t.gdt i = entryOf base limit access flags) (hb : base < 2 ^ 32)
    (hl : limit < 2 ^ 20) (ha : access < 2 ^ 8) (hf : flags < 2 ^ 8) :
    t.gdtr.segment? mem (8 * i + r) = some (Gdt.segment base limit access flags) := by
  have hsel : (8 * i + r) / 8 = i := by omega
  have hlies := hin.gdt i hi
  rw [he] at hlies
  unfold GDT_ENTRIES at hi
  unfold TableReg.segment?
  rw [h.gdtr, hsel, if_pos (by dsimp only; omega), Nat.mul_comm i 8, entryOf_segment hb hl ha hf hlies]

/-- All code and data segments are the whole address space, at the privilege the selector asks for; the stack for
privilege 0 is the one `update_tss` was last given; and no other selector names anything. -/
theorem Flat.segments (h : Flat gdt tss sp t) (hin : Installed mem gdt tss t) (htss : tss + 104 < 2 ^ 32) :
    (∀ x ∈ [0x08, 0x10, 0x1b, 0x23], ∃ kind, t.gdtr.segment? mem x =
      some ⟨0, 2 ^ 32 - 1, kind, x % 4, true, true⟩ ∧ (kind / 8 = 3 ↔ x ∈ [0x08, 0x1b])) ∧
    kernelStack mem t.gdtr t.tr = some (0x10, sp) ∧ ∀ x, 48 ≤ x → t.gdtr.segment? mem x = none := by
  refine ⟨?_, ?_, ?_⟩
  · intro x hx
    simp only [List.mem_cons, List.not_mem_nil, or_false] at hx
    rcases hx with rfl | rfl | rfl | rfl
    · exact ⟨0x1a, h.segment (i := 1) (r := 0) hin (by decide) (by decide) h.kcode (by decide) (by decide)
        (by decide) (by decide), by decide⟩
    · exact ⟨0x12, h.segment (i := 2) (r := 0) hin (by decide) (by decide) h.kdata (by decide) (by decide)
        (by decide) (by decide), by decide⟩
    · exact ⟨0x1a, h.segment (i := 3) (r := 3) hin (by decide) (by decide) h.ucode (by decide) (by decide)
        (by decide) (by decide), by decide⟩
    · exact ⟨0x12, h.segment (i := 4) (r := 3) hin (by decide) (by decide) h.udata (by decide) (by decide)
        (by decide) (by decide), by decide⟩
  · have hstate : t.gdtr.segment? mem (8 * 5 + 3) = some (Gdt.segment tss 104 0xe9 0) :=
      h.segment hin (by decide) (by decide) h.state (by omega) (by decide) (by decide) (by decide)
    have hss : read32 mem (add32 tss 8) = 0x10 := (hin.tss 2 (by decide)).trans h.ss0
    have hesp : read32 mem (add32 tss 4) = sp := (hin.tss 1 (by decide)).trans h.esp0
    unfold kernelStack
    rw [h.tr, hstate]
    show some (read32 mem (add32 tss 8) % 65536, read32 mem (add32 tss 4)) = _
    rw [hss, hesp]
  · intro x hx
    unfold TableReg.segment?
    rw [h.gdtr, if_neg (by dsimp only; omega)]

end

end Ulmix.Gdt

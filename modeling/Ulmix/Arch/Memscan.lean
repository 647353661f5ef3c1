import Ulmix.Arch.Pfalloc
import Ulmix.Lib.Extents
/-!
# The memory map and the frame table (`arch/i686/memory.c`, `ksetup.c`)

`memscan` adds up the sizes of the regions in the boot loader's memory map, and
`setup_pfalloc` makes one count for each page of that sum. A frame is named by
its address, though, so the holes between regions are frames too: a frame has a
count only if what the regions hold behind it makes up for the holes before it.
-/
open Ulmix.Lib
open Ulmix.Paging (PAGESIZE)

namespace Ulmix.Frames

/-! ## Model -/

def GB4 : Nat := 0xffffffff

structure MmapeStruct where
  entry_size : Nat
  base_addr : Nat
  size : Nat
  type : Nat

/-- The fields of `struct mb_struct` that `memscan` reads. -/
structure MbStruct where
  mmap_length : Nat
  mmap : Nat

/-- The entries of the map, by address. -/
abbrev MmapMem := Nat → MmapeStruct

/-- An entry that passes 4 GiB is cut there, in place. -/
def memscan_clip (entry : Nat) : Exec MmapMem Unit := do
  let e := (← get) entry
  if e.base_addr ≤ GB4 ∧ e.size ≠ 0 then
    if (e.base_addr + e.size) % 2 ^ 64 ≥ GB4 then
      modify fun m => Function.update m entry { e with size := GB4 - e.base_addr }

/-- The loop of `memscan`. There are only `2 ^ 32` places for an entry, so a
scan that takes more steps never ends. -/
def memscan_loop (stop : Nat) : Nat → Nat → Nat → Exec MmapMem Nat
  | 0, _, _ => Exec.fault .diverges
  | fuel + 1, entry, physical_size => do
    if entry < stop then
      memscan_clip entry
      let e := (← get) entry
      memscan_loop stop fuel (add32 entry (add32 e.entry_size 4)) ((physical_size + e.size) % 2 ^ 32)
    else pure physical_size

def memscan (mb : MbStruct) : Exec MmapMem Nat :=
  memscan_loop (add32 mb.mmap mb.mmap_length) (2 ^ 32) mb.mmap 0

/-! ## What is scanned -/

namespace MmapeStruct

/-- The size `memscan` adds for an entry. -/
def counted (e : MmapeStruct) : Nat :=
  if (e.base_addr ≤ GB4 ∧ e.size ≠ 0) ∧ (e.base_addr + e.size) % 2 ^ 64 ≥ GB4 then GB4 - e.base_addr else e.size

/-- The bytes of memory an entry describes. -/
def Has (e : MmapeStruct) (a : Nat) : Prop := e.base_addr ≤ a ∧ a < e.base_addr + e.size

/-- The bytes of an entry that are counted. -/
def extent (e : MmapeStruct) : Extent := ⟨e.base_addr, e.counted⟩

theorem counted_le (e : MmapeStruct) : e.counted ≤ e.size := by
  unfold counted GB4
  split
  · omega
  · exact le_rfl

end MmapeStruct

/-- From `a` up to `stop`, the entries `es` follow each other in memory. -/
def Laid (m : MmapMem) (stop : Nat) : Nat → List MmapeStruct → Prop
  | a, [] => stop ≤ a
  | a, e :: es => a < stop ∧ m a = e ∧ a + (e.entry_size + 4) < 2 ^ 32 ∧ Laid m stop (a + (e.entry_size + 4)) es

/-- What lies before the entries does not matter to them. -/
theorem Laid.update {m : MmapMem} {stop b : Nat} (e : MmapeStruct) {a : Nat} {es : List MmapeStruct} (hb : b < a)
    (h : Laid m stop a es) : Laid (Function.update m b e) stop a es := by
  induction es generalizing a with
  | nil => exact h
  | cons e' es ih =>
    obtain ⟨ha, he, hlt, hes⟩ := h
    refine ⟨ha, ?_, hlt, ih (by omega) hes⟩
    rw [Function.update_of_ne (by omega)]
    exact he

theorem memscan_clip_run (m : MmapMem) (a : Nat) :
    memscan_clip a m = .ok ((), Function.update m a { m a with size := (m a).counted }) := by
  have hsame : (m a).counted = (m a).size →
      m = Function.update m a { m a with size := (m a).counted } := by
    intro h
    rw [h]
    exact (Function.update_eq_self a m).symm
  unfold memscan_clip
  rw [Exec.bind_of_ok (Exec.get_apply m)]
  by_cases h1 : (m a).base_addr ≤ GB4 ∧ (m a).size ≠ 0
  · rw [if_pos h1]
    by_cases h2 : ((m a).base_addr + (m a).size) % 2 ^ 64 ≥ GB4
    · have hcount : (m a).counted = GB4 - (m a).base_addr := if_pos ⟨h1, h2⟩
      rw [if_pos h2, hcount]
      rfl
    · rw [if_neg h2, ← hsame (if_neg fun h => h2 h.2)]
      rfl
  · rw [if_neg h1, ← hsame (if_neg fun h => h1 h.1)]
    rfl

/-- The scan adds up what it counts of each entry, in 32 bits. -/
theorem memscan_loop_spec {m : MmapMem} {stop : Nat} {es : List MmapeStruct} (fuel : Nat) {a : Nat} (acc : Nat)
    (h : Laid m stop a es) (hfuel : 2 ^ 32 ≤ a + fuel) (ha : a < 2 ^ 32) (hacc : acc < 2 ^ 32) :
    ∃ m', memscan_loop stop fuel a acc m = .ok ((acc + (es.map (·.counted)).sum) % 2 ^ 32, m') := by
  induction es generalizing fuel a acc m with
  | nil =>
    obtain ⟨fuel, rfl⟩ := Nat.exists_eq_add_of_lt (show 0 < fuel by omega)
    refine ⟨m, ?_⟩
    have hstop : ¬ a < stop := Nat.not_lt.2 h
    rw [Nat.zero_add, memscan_loop, if_neg hstop, List.map_nil, List.sum_nil, Nat.add_zero, Nat.mod_eq_of_lt hacc]
    rfl
  | cons e es ih =>
    obtain ⟨fuel, rfl⟩ := Nat.exists_eq_add_of_lt (show 0 < fuel by omega)
    obtain ⟨hstop, he, hlt, hes⟩ := h
    have hnext : add32 a (add32 e.entry_size 4) = a + (e.entry_size + 4) := by
      have h1 : add32 e.entry_size 4 = e.entry_size + 4 := add32_eq (by omega)
      rw [h1, add32_eq hlt]
    have hsum : ((acc + e.counted) % 2 ^ 32 + (es.map (·.counted)).sum) % 2 ^ 32
        = (acc + ((e :: es).map (·.counted)).sum) % 2 ^ 32 := by
      rw [List.map_cons, List.sum_cons]
      omega
    obtain ⟨m', hrun⟩ := ih fuel ((acc + e.counted) % 2 ^ 32)
        (hes.update (b := a) { e with size := e.counted } (by omega))
      (by omega) hlt (Nat.mod_lt _ (by decide))
    refine ⟨m', ?_⟩
    rw [Nat.zero_add, memscan_loop, if_pos hstop, Exec.bind_of_ok (memscan_clip_run m a),
      Exec.bind_of_ok (Exec.get_apply _), Function.update_self, he, ← hsum]
    show memscan_loop stop fuel (add32 a (add32 e.entry_size 4)) _ _ = _
    rw [hnext]
    exact hrun

/-- The bytes `memscan` counts, in full. -/
def total (es : List MmapeStruct) : Nat := (es.map (·.counted)).sum

theorem memscan_spec {m : MmapMem} {mb : MbStruct} {es : List MmapeStruct} (hmb : mb.mmap < 2 ^ 32)
    (h : Laid m (add32 mb.mmap mb.mmap_length) mb.mmap es) : ∃ m', memscan mb m = .ok (total es % 2 ^ 32, m') := by
  obtain ⟨m', hrun⟩ := memscan_loop_spec (2 ^ 32) 0 h (by omega) hmb (by omega)
  rw [Nat.zero_add] at hrun
  exact ⟨m', hrun⟩

/-! ## Counts for every frame -/

/-- `a` is memory that may be used. -/
def Available (es : List MmapeStruct) (a : Nat) : Prop := ∃ e ∈ es, e.type = 1 ∧ e.Has a

/-- No byte lies in two entries. -/
def Disjoint (es : List MmapeStruct) : Prop := es.Pairwise fun e f => ∀ a, ¬ (e.Has a ∧ f.Has a)

/-- The bytes below `x` that are counted in no entry. -/
def missing (es : List MmapeStruct) (x : Nat) : Nat := Extent.gap (es.map (·.extent)) x

/-- The bytes at `x` or above that are counted. -/
def beyond (es : List MmapeStruct) (x : Nat) : Nat := ((es.map (·.extent)).map (·.above x)).sum

/-- Sharing and releasing the frame at `a` stays inside the table. -/
def InTable (pf : Pfalloc) (a : Nat) : Prop :=
  a / PAGESIZE < pf.page_count ∧ (∃ r, alloc_page a pf = .ok r) ∧ ∃ r, release_page (a / PAGESIZE) pf = .ok r

theorem extents_apart {es : List MmapeStruct} (hd : Disjoint es) : (es.map (·.extent)).Pairwise Extent.Apart := by
  apply List.pairwise_map.2
  refine hd.imp fun {e f} h a ha => h a ⟨⟨ha.1.1, ?_⟩, ha.2.1, ?_⟩
  · exact ha.1.2.trans_le (Nat.add_le_add_left e.counted_le _)
  · exact ha.2.2.trans_le (Nat.add_le_add_left f.counted_le _)

/-- Counted bytes lie below `x`, where they leave `missing`, or beyond it. -/
theorem total_add_missing {es : List MmapeStruct} (hd : Disjoint es) (x : Nat) :
    total es + missing es x = x + beyond es x := by
  have h1 := Extent.below_add_gap (extents_apart hd) x
  have h2 := Extent.sum_below_add_above (es.map (·.extent)) x
  have h3 : ((es.map (·.extent)).map (·.len)).sum = total es := by
    rw [List.map_map]
    rfl
  unfold missing beyond
  omega

theorem inTable_iff {ram_size a : Nat} (b : Nat → UInt8) (ha : a % PAGESIZE = 0) :
    InTable (setup_pfalloc ram_size (some b)) a ↔ a + PAGESIZE ≤ ram_size := by
  have hlen : (setup_pfalloc ram_size (some b)).frames.length = ram_size / PAGESIZE := by
    simp [setup_pfalloc, Pfalloc.frames]
  have hiff : a / PAGESIZE < ram_size / PAGESIZE ↔ a + PAGESIZE ≤ ram_size := by
    unfold PAGESIZE at ha ⊢
    omega
  constructor
  · exact fun h => hiff.1 h.1
  · intro h
    have hi : a / PAGESIZE < (setup_pfalloc ram_size (some b)).frames.length := by
      rw [hlen]
      exact hiff.2 h
    refine ⟨hiff.2 h, ⟨_, alloc_page_run ha hi⟩, ?_⟩
    obtain ⟨s', hrel, -⟩ := release_page_count hi
    exact ⟨_, hrel⟩

/-- Every available page has a count in the frame table if and only if, for each
of them, the bytes missing below its end and 4 GiB for each time the sum of the
sizes wraps are no more than the bytes counted beyond it. -/
theorem frames_cover_memory {m : MmapMem} {mb : MbStruct} {es : List MmapeStruct} (hmb : mb.mmap < 2 ^ 32)
    (hl : Laid m (add32 mb.mmap mb.mmap_length) mb.mmap es) (hd : Disjoint es) (b : Nat → UInt8) :
    ∃ ram_size m', memscan mb m = .ok (ram_size, m') ∧
      ((∀ a, a % PAGESIZE = 0 → a < 2 ^ 32 → Available es a → InTable (setup_pfalloc ram_size (some b)) a) ↔
        ∀ a, a % PAGESIZE = 0 → a < 2 ^ 32 → Available es a →
          missing es (a + PAGESIZE) + 2 ^ 32 * (total es / 2 ^ 32) ≤ beyond es (a + PAGESIZE)) := by
  obtain ⟨m', hrun⟩ := memscan_spec hmb hl
  refine ⟨_, m', hrun, ?_⟩
  apply forall_congr'
  intro a
  apply forall_congr'
  intro ha
  apply forall_congr'
  intro hlt
  apply forall_congr'
  intro hav
  rw [inTable_iff b ha]
  have := total_add_missing hd (a + PAGESIZE)
  have := Nat.div_add_mod (total es) (2 ^ 32)
  omega

/-! ## What is counted past 4 GiB -/

namespace MmapeStruct

/-- The bytes of an entry below `x`. -/
def below (e : MmapeStruct) (x : Nat) : Nat := (Extent.mk e.base_addr e.size).below x

/-- What `memscan` adds for an entry beyond its bytes below 4 GiB: an entry that
starts later is not cut at all, and the end of one that takes the rest of the
address space is 0 in 64 bits. -/
def excess (e : MmapeStruct) : Nat :=
  if GB4 < e.base_addr then e.size else if e.base_addr + e.size = 2 ^ 64 then 2 ^ 64 - GB4 else 0

theorem counted_eq (e : MmapeStruct) (he : e.base_addr + e.size ≤ 2 ^ 64) : e.counted = e.below GB4 + e.excess := by
  unfold counted excess below Extent.below GB4
  dsimp only
  rcases he.lt_or_eq with hlt | heq
  · rw [Nat.mod_eq_of_lt hlt, if_neg hlt.ne]
    split <;> split <;> omega
  · rw [heq, Nat.mod_self, if_pos rfl]
    split <;> split <;> omega

end MmapeStruct

/-- Every byte below 4 GiB is in one entry at most, so there are too few of them to wrap. -/
theorem sum_below_le {es : List MmapeStruct} (hd : Disjoint es) (x : Nat) : (es.map (·.below x)).sum ≤ x := by
  have hap : (es.map fun e => Extent.mk e.base_addr e.size).Pairwise Extent.Apart := List.pairwise_map.2 hd
  have h := Extent.below_add_gap hap x
  rw [List.map_map] at h
  exact (Nat.le_add_right _ _).trans h.le

theorem total_eq {es : List MmapeStruct} (hes : ∀ e ∈ es, e.base_addr + e.size ≤ 2 ^ 64) :
    total es = (es.map (·.below GB4)).sum + (es.map (·.excess)).sum := by
  unfold total
  rw [← List.sum_map_add]
  exact congrArg List.sum (List.map_congr_left fun e he => e.counted_eq (hes e he))

/-- With none that ends at `2 ^ 64`, only the entries past 4 GiB are in excess. -/
theorem sum_excess {es : List MmapeStruct} (hes : ∀ e ∈ es, e.base_addr ≤ GB4 → e.base_addr + e.size ≠ 2 ^ 64) :
    (es.map (·.excess)).sum = ((es.filter fun e => GB4 < e.base_addr).map (·.size)).sum := by
  induction es with
  | nil => rfl
  | cons e es ih =>
    have htail := ih fun f hf => hes f (List.mem_cons_of_mem _ hf)
    rw [List.map_cons, List.sum_cons, htail]
    unfold MmapeStruct.excess
    by_cases he : GB4 < e.base_addr
    · rw [if_pos he, List.filter_cons_of_pos (by simpa using he), List.map_cons, List.sum_cons]
    · have hend := hes e List.mem_cons_self (Nat.le_of_not_lt he)
      rw [if_neg he, if_neg hend, List.filter_cons_of_neg (by simpa using he), Nat.zero_add]

/-- An entry that reaches from below 4 GiB up to `2 ^ 64` leaves no room for another in excess. -/
theorem excess_eq_zero {e f : MmapeStruct} (he : e.base_addr ≤ GB4) (hend : e.base_addr + e.size = 2 ^ 64)
    (hf : f.base_addr + f.size ≤ 2 ^ 64) (hd : ∀ a, ¬ (e.Has a ∧ f.Has a)) : f.excess = 0 := by
  have hbase := hd f.base_addr
  have hlast := hd (2 ^ 64 - 1)
  unfold MmapeStruct.Has at hbase hlast
  unfold MmapeStruct.excess
  unfold GB4 at he ⊢
  split
  · omega
  · split <;> omega

theorem sum_excess_whole {es : List MmapeStruct} (hd : Disjoint es) (hes : ∀ e ∈ es, e.base_addr + e.size ≤ 2 ^ 64)
    {e : MmapeStruct} (hmem : e ∈ es) (he : e.base_addr ≤ GB4) (hend : e.base_addr + e.size = 2 ^ 64) :
    (es.map (·.excess)).sum = 2 ^ 64 - GB4 := by
  obtain ⟨l, r, rfl⟩ := List.append_of_mem hmem
  obtain ⟨-, hr, hl⟩ := List.pairwise_append.1 hd
  have hother : ∀ f ∈ l ++ r, f.excess = 0 := by
    intro f hf
    rcases List.mem_append.1 hf with hf | hf
    · refine excess_eq_zero he hend (hes f (List.mem_append_left _ hf)) fun a ha => ?_
      exact hl f hf e List.mem_cons_self a ha.symm
    · refine excess_eq_zero he hend (hes f ?_) fun a ha => ?_
      · exact List.mem_append_right _ (List.mem_cons_of_mem _ hf)
      · exact (List.pairwise_cons.1 hr).1 f hf a ha
  have hzero : ∀ t : List MmapeStruct, (∀ f ∈ t, f.excess = 0) → (t.map (·.excess)).sum = 0 := by
    intro t ht
    apply List.sum_eq_zero
    intro n hn
    obtain ⟨f, hf, rfl⟩ := List.mem_map.1 hn
    exact ht f hf
  have hself : e.excess = 2 ^ 64 - GB4 := by
    unfold MmapeStruct.excess
    rw [if_neg (Nat.not_lt.2 he), if_pos hend]
  rw [List.map_append, List.sum_append, List.map_cons, List.sum_cons, hself,
    hzero l fun f hf => hother f (List.mem_append_left _ hf),
    hzero r fun f hf => hother f (List.mem_append_right _ hf), Nat.zero_add, Nat.add_zero]

/-- The excess of a map is lost to the 32 bits of the sum only where it is a multiple of 4 GiB. -/
theorem excess_dvd_iff {es : List MmapeStruct} (hd : Disjoint es) (hes : ∀ e ∈ es, e.base_addr + e.size ≤ 2 ^ 64) :
    2 ^ 32 ∣ (es.map (·.excess)).sum ↔
      (∀ e ∈ es, e.base_addr ≤ GB4 → e.base_addr + e.size ≠ 2 ^ 64) ∧
        2 ^ 32 ∣ ((es.filter fun e => GB4 < e.base_addr).map (·.size)).sum := by
  by_cases hend : ∀ e ∈ es, e.base_addr ≤ GB4 → e.base_addr + e.size ≠ 2 ^ 64
  · rw [sum_excess hend]
    exact (and_iff_right hend).symm
  · refine iff_of_false ?_ fun h => hend h.1
    simp only [not_forall, not_not] at hend
    obtain ⟨e, hmem, he, heq⟩ := hend
    rw [sum_excess_whole hd hes hmem he heq]
    unfold GB4
    omega

/-- `memscan` returns the number of bytes below 4 GiB if and only if no entry
that starts there ends at `2 ^ 64`, and the sizes of the entries that start
later add up to a multiple of 4 GiB. -/
theorem memscan_counts {m : MmapMem} {mb : MbStruct} {es : List MmapeStruct} (hmb : mb.mmap < 2 ^ 32)
    (hl : Laid m (add32 mb.mmap mb.mmap_length) mb.mmap es) (hd : Disjoint es)
    (hes : ∀ e ∈ es, e.base_addr + e.size ≤ 2 ^ 64) :
    (∃ m', memscan mb m = .ok ((es.map (·.below GB4)).sum, m')) ↔
      (∀ e ∈ es, e.base_addr ≤ GB4 → e.base_addr + e.size ≠ 2 ^ 64) ∧
        2 ^ 32 ∣ ((es.filter fun e => GB4 < e.base_addr).map (·.size)).sum := by
  obtain ⟨m₁, hrun⟩ := memscan_spec hmb hl
  have hlt : (es.map (·.below GB4)).sum < 2 ^ 32 := (sum_below_le hd GB4).trans_lt (by decide)
  have htotal := total_eq hes
  rw [← excess_dvd_iff hd hes, Nat.dvd_iff_mod_eq_zero]
  constructor
  · rintro ⟨m', h⟩
    rw [hrun] at h
    have hval := congrArg Prod.fst (Except.ok.inj h)
    dsimp only at hval
    omega
  · intro h
    refine ⟨m₁, hrun.trans ?_⟩
    have hval : total es % 2 ^ 32 = (es.map (·.below GB4)).sum := by omega
    rw [hval]

/-! ## Two machines -/

/-- Entries of 20 bytes, one behind the other from address 0 on. -/
def mapOf (es : List MmapeStruct) : MmapMem := fun a => es.getD (a / 24) ⟨0, 0, 0, 0⟩

/-- All of the first 128 MiB. -/
def solidMap : List MmapeStruct := [⟨20, 0, 0x8000000, 1⟩]

theorem frames_cover_solid : ∃ ram_size m', memscan ⟨24, 0⟩ (mapOf solidMap) = .ok (ram_size, m') ∧
    ∀ a, a % PAGESIZE = 0 → a < 2 ^ 32 → Available solidMap a →
      InTable (setup_pfalloc ram_size (some fun _ => 0)) a := by
  obtain ⟨ram_size, m', hrun, hiff⟩ := @frames_cover_memory (mapOf solidMap) ⟨24, 0⟩ solidMap (by decide)
    ⟨by decide, rfl, by decide, Nat.le_refl 24⟩ (List.pairwise_singleton _ _) fun _ => 0
  refine ⟨ram_size, m', hrun, hiff.2 fun a ha _ hav => ?_⟩
  obtain ⟨e, he, -, hea⟩ := hav
  cases List.mem_singleton.1 he
  have hea' : a < 0 + 0x8000000 := hea.2
  have hmiss : missing solidMap (a + PAGESIZE) = 0 := by
    apply Extent.gap_eq_zero
    intro x hx
    refine ⟨⟨0, 0x8000000⟩, List.mem_singleton_self _, Nat.zero_le _, ?_⟩
    unfold PAGESIZE at ha hx
    show x < 0 + 0x8000000
    omega
  rw [hmiss]
  exact Nat.zero_le _

/-- The usual map of a PC with 128 MiB: nothing is listed from 0x9f000 up to 1 MiB. -/
def holedMap : List MmapeStruct := [⟨20, 0, 0x9f000, 1⟩, ⟨20, 0x100000, 0x7f00000, 1⟩]

/-- The last page is available, but the table ends before it. -/
theorem frames_miss_memory : ∃ ram_size m', memscan ⟨48, 0⟩ (mapOf holedMap) = .ok (ram_size, m') ∧
    Available holedMap 0x7fff000 ∧ ¬ InTable (setup_pfalloc ram_size (some fun _ => 0)) 0x7fff000 := by
  have hl : Laid (mapOf holedMap) 48 0 holedMap :=
    ⟨by decide, rfl, by decide, by decide, rfl, by decide, Nat.le_refl 48⟩
  obtain ⟨m', hrun⟩ := @memscan_spec _ ⟨48, 0⟩ _ (by decide) hl
  refine ⟨_, m', hrun, ⟨⟨20, 0x100000, 0x7f00000, 1⟩, List.mem_cons_of_mem _ List.mem_cons_self, rfl, by decide,
    by decide⟩, ?_⟩
  rw [inTable_iff _ (by decide)]
  decide

/-- 128 MiB with a hole, and a device that takes the rest up to 5 GiB. -/
def cutMap : List MmapeStruct := [⟨20, 0, 0x9f000, 1⟩, ⟨20, 0x8000000, 0x138000000, 2⟩]

theorem memscan_counts_cut :
    ∃ m', memscan ⟨48, 0⟩ (mapOf cutMap) = .ok ((cutMap.map (·.below GB4)).sum, m') := by
  have hl : Laid (mapOf cutMap) 48 0 cutMap := ⟨by decide, rfl, by decide, by decide, rfl, by decide, Nat.le_refl 48⟩
  have hd : Disjoint cutMap := by
    refine List.pairwise_pair.2 fun a ha => ?_
    have h1 : a < 0 + 0x9f000 := ha.1.2
    have h2 : 0x8000000 ≤ a := ha.2.1
    omega
  have hmb : (⟨48, 0⟩ : MbStruct).mmap < 2 ^ 32 := by decide
  exact (memscan_counts hmb hl hd (by decide)).2 (by decide)

/-- A page of memory at 4 GiB. -/
def highMap : List MmapeStruct := [⟨20, 0x100000000, 0x1000, 1⟩]

/-- The page is counted, though none of it lies below 4 GiB. -/
theorem memscan_counts_high :
    Laid (mapOf highMap) 24 0 highMap ∧ Disjoint highMap ∧ (∀ e ∈ highMap, e.base_addr + e.size ≤ 2 ^ 64) ∧
      (∃ m', memscan ⟨24, 0⟩ (mapOf highMap) = .ok (0x1000, m')) ∧ (highMap.map (·.below GB4)).sum = 0 := by
  have hl : Laid (mapOf highMap) 24 0 highMap := ⟨by decide, rfl, by decide, Nat.le_refl 24⟩
  obtain ⟨m', hrun⟩ := @memscan_spec _ ⟨24, 0⟩ _ (by decide) hl
  exact ⟨hl, List.pairwise_singleton _ _, by decide, ⟨m', hrun⟩, by decide⟩

end Ulmix.Frames

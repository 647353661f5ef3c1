import Ulmix.Devices.Registry
/-!
# Which partition a minor number leads to

The registry fills from the front, so registering a disk leaves every lookup
as it was except the one for the disk's own major, and that one only when no
earlier disk has it (`get_gendisk_register`). On the disk found, the scanner
stores a partition under its slot number but counts used slots only, on top of
whatever the count held before; `get_hdstruct` compares the minor with that
count and then takes the slot. `get_hdstruct_partitions` says when the two
agree.
-/
open Ulmix.Lib

namespace Ulmix.Disks

/-! ## The registry fills from the front -/

/-- The registry holds `n` disks, in its first slots. -/
def Filled (s : Devices) (n : Nat) : Prop := n ≤ MAX_DEVICES ∧ ∀ i, s.bd_list i ≠ 0 ↔ i < n

/-- Reading a disk leaves the registry and the disks alone. -/
def Quiet (read : Reader) : Prop :=
  ∀ fops drv blocks lba s r s', read fops drv blocks lba s = .ok (r, s') →
    s'.bd_list = s.bd_list ∧ s'.gendisks = s.gendisks

/-- What happens to the registry: a disk is registered, or drivers work on memory of their own. -/
inductive Step (read : Reader) (s : Devices) : Int → Devices → Prop
  | register {bd : Nat} {r : Int} {s' : Devices} : bd ≠ 0 → register_blkdev read bd s = .ok (r, s') → Step read s r s'
  | other {s' : Devices} : s'.bd_list = s.bd_list → Step read s 0 s'

namespace Filled

variable {s s' : Devices} {n : Nat}

theorem empty (h : ∀ i, s.bd_list i = 0) : Filled s 0 := ⟨by decide, fun i => by simp [h i]⟩

theorem congr (h : Filled s n) (hl : s'.bd_list = s.bd_list) : Filled s' n := ⟨h.1, fun i => by rw [hl]; exact h.2 i⟩

/-- The first free slot is the one behind the last disk. -/
theorem find_free (h : Filled s n) (hn : n < MAX_DEVICES) :
    (List.range MAX_DEVICES).find? (fun i => s.bd_list i = 0) = some n := by
  rw [List.find?_range_eq_some]
  refine ⟨?_, List.mem_range.2 hn, ?_⟩
  · have := h.2 n
    simpa using this
  · intro j hj
    have := (h.2 j).2 hj
    simpa using this

theorem find_full (h : Filled s n) (hn : n = MAX_DEVICES) :
    (List.range MAX_DEVICES).find? (fun i => s.bd_list i = 0) = none := by
  rw [List.find?_range_eq_none]
  intro i hi
  have := (h.2 i).2 (by omega)
  simpa using this

theorem append (h : Filled s n) (hn : n < MAX_DEVICES) {bd : Nat} (hbd : bd ≠ 0)
    (hl : s'.bd_list = Function.update s.bd_list n bd) : Filled s' (n + 1) := by
  refine ⟨hn, fun i => ?_⟩
  rw [hl]
  by_cases hi : i = n
  · subst hi
    rw [Function.update_self]
    exact ⟨fun _ => by omega, fun _ => hbd⟩
  · rw [Function.update_of_ne hi, h.2 i]
    omega

end Filled

/-- The slot among the first `n` whose disk has this major. -/
def slotOf (s : Devices) (n major : Nat) : Option Nat :=
  (List.range n).find? fun i => (s.gendisks (s.bd_list i)).major = major

theorem get_gendisk_run {s : Devices} {n : Nat} (h : Filled s n) (major : Nat) :
    get_gendisk major s = .ok ((slotOf s n major).elim 0 s.bd_list, s) := by
  have hfind : (List.range MAX_DEVICES).find? (fun i => s.bd_list i ≠ 0 ∧ (s.gendisks (s.bd_list i)).major = major)
      = slotOf s n major := by
    unfold slotOf
    rw [← List.take_append_drop n (List.range MAX_DEVICES), List.take_range, Nat.min_eq_left h.1, List.find?_append]
    have hrest : ((List.range MAX_DEVICES).drop n).find?
        (fun i => s.bd_list i ≠ 0 ∧ (s.gendisks (s.bd_list i)).major = major) = none := by
      rw [List.find?_eq_none]
      intro i hi hm
      obtain ⟨k, hk, rfl⟩ := List.mem_iff_getElem.1 hi
      have := (h.2 _).1 (of_decide_eq_true hm).1
      simp at this
    rw [hrest, Option.or_none]
    refine List.find?_congr fun i hi => ?_
    have := (h.2 i).2 (List.mem_range.1 hi)
    simp [this]
  unfold get_gendisk
  simp only [Exec.bind_apply, Exec.get_apply, hfind]
  cases slotOf s n major <;> rfl

/-! ## Registering a disk -/

theorem gendisk_partscan_quiet {read : Reader} (hq : Quiet read) {bd : Nat} {s s' : Devices}
    (h : gendisk_partscan read bd s = .ok ((), s')) : s'.bd_list = s.bd_list := by
  obtain ⟨_, _, hg, h⟩ := Exec.bind_ok.1 h
  cases hg
  obtain ⟨⟨n, mbr⟩, s₁, hr, h⟩ := Exec.bind_ok.1 h
  rw [← (hq _ _ _ _ _ _ _ hr).1]
  dsimp only at h
  split at h
  · cases h; rfl
  · split at h
    · cases h; rfl
    · cases h; rfl

theorem register_blkdev_ok {read : Reader} {bd n : Nat} {s s' : Devices} {r : Int} (h : Filled s n)
    (hr : register_blkdev read bd s = .ok (r, s')) :
    (n = MAX_DEVICES ∧ r = -1 ∧ s' = s) ∨
      (n < MAX_DEVICES ∧ r = 0 ∧ gendisk_partscan read bd { s with bd_list := Function.update s.bd_list n bd } =
        .ok ((), s')) := by
  obtain ⟨_, _, hg, hr⟩ := Exec.bind_ok.1 hr
  cases hg
  rcases Nat.lt_or_eq_of_le h.1 with hn | hn
  · rw [h.find_free hn] at hr
    obtain ⟨_, _, hs, hr⟩ := Exec.bind_ok.1 hr
    cases hs
    obtain ⟨_, _, hp, hr⟩ := Exec.bind_ok.1 hr
    cases hr
    exact .inr ⟨hn, rfl, hp⟩
  · rw [h.find_full hn] at hr
    cases hr
    exact .inl ⟨hn, rfl, rfl⟩

/-- From an empty registry on, disks only ever follow one another. -/
theorem Step.filled {read : Reader} (hq : Quiet read) {s₀ s : Devices} (h0 : ∀ i, s₀.bd_list i = 0)
    (hr : Run (Step read) s₀ s) : ∃ n, Filled s n := by
  refine hr.inv (fun s => ∃ n, Filled s n) ⟨0, .empty h0⟩ ?_
  rintro s i s' ⟨n, hn⟩ ht
  cases ht with
  | register hbd ht =>
    rcases register_blkdev_ok hn ht with ⟨-, -, rfl⟩ | ⟨hlt, -, hp⟩
    · exact ⟨n, hn⟩
    · exact ⟨n + 1, hn.append hlt hbd (gendisk_partscan_quiet hq hp)⟩
  | other hl => exact ⟨n, hn.congr hl⟩

/-- The first sector of the disk at `bd` reads as `mbr`, whatever the registry holds. -/
def FirstSector (read : Reader) (s : Devices) (bd : Nat) (mbr : Sector) : Prop :=
  ∀ l, ∃ n s', 1 ≤ n ∧
    read (s.gendisks bd).fops (s.gendisks bd).drv_struct 1 0 { s with bd_list := l } = .ok ((n, mbr), s')

theorem gendisk_partscan_run {read : Reader} (hq : Quiet read) {s : Devices} {bd : Nat} {mbr : Sector}
    (hf : FirstSector read s bd mbr) (hm : is_mbr mbr) (l : Nat → Nat) :
    ∃ s', gendisk_partscan read bd { s with bd_list := l } = .ok ((), s') ∧ s'.bd_list = l ∧
      s'.gendisks = Function.update s.gendisks bd (partscan_loop bd mbr (s.gendisks bd)) := by
  obtain ⟨n, s₁, hn, hr⟩ := hf l
  obtain ⟨hl, hg⟩ := hq _ _ _ _ _ _ _ hr
  refine ⟨{ s₁ with gendisks := Function.update s₁.gendisks bd (partscan_loop bd mbr (s₁.gendisks bd)) }, ?_, hl, ?_⟩
  · unfold gendisk_partscan
    refine (Exec.bind_of_ok (Exec.get_apply _)).trans ?_
    refine (Exec.bind_of_ok hr).trans ?_
    dsimp only
    rw [if_neg (by omega), hm]
    rfl
  · dsimp only at hg ⊢
    rw [hg]

/-- A disk that is registered is found under its major, unless an earlier one has the same. -/
theorem get_gendisk_register {s s' : Devices} {n bd : Nat} {mbr : Sector} (h : Filled s n) (hn : n < MAX_DEVICES)
    (hbd : bd ≠ 0) (hl : s'.bd_list = Function.update s.bd_list n bd)
    (hg : s'.gendisks = Function.update s.gendisks bd (partscan_loop bd mbr (s.gendisks bd))) (major : Nat) :
    get_gendisk major s' = .ok ((slotOf s n major).elim (if (s.gendisks bd).major = major then bd else 0) s.bd_list,
      s') := by
  have hmajor : ∀ p, (s'.gendisks p).major = (s.gendisks p).major := by
    intro p
    rw [hg]
    by_cases hp : p = bd
    · subst hp
      rw [Function.update_self]
      exact (partscan_loop_scanned p mbr _).major
    · rw [Function.update_of_ne hp]
  have hfront : (List.range n).find? (fun i => (s'.gendisks (s'.bd_list i)).major = major) = slotOf s n major := by
    refine List.find?_congr fun i hi => ?_
    have hi := (List.mem_range.1 hi).ne
    rw [hl, Function.update_of_ne hi, hmajor]
  rw [get_gendisk_run (h.append hn hbd hl)]
  congr 2
  unfold slotOf at hfront ⊢
  rw [List.range_succ, List.find?_append, hfront]
  cases hs : (List.range n).find? fun i => (s.gendisks (s.bd_list i)).major = major with
  | some i =>
    have hi := List.mem_range.1 (List.mem_of_find?_eq_some hs)
    simp [hl, Function.update_of_ne hi.ne]
  | none =>
    have hlast : s'.bd_list n = bd := by rw [hl, Function.update_self]
    simp only [List.find?_cons, List.find?_nil, hlast, hmajor]
    by_cases hm : (s.gendisks bd).major = major
    · simp [hm, hlast]
    · simp [hm]

/-! ## Looking a partition up -/

/-- `minor` names a used slot of the table. -/
def InTable (mbr : Sector) (minor : Nat) : Prop := 1 ≤ minor ∧ minor ≤ 4 ∧ Used mbr (minor - 1)

instance (mbr : Sector) (minor : Nat) : Decidable (InTable mbr minor) := inferInstanceAs (Decidable (_ ∧ _ ∧ _))

/-- `get_hdstruct` answers `minor` with the partition of the disk at `bd` that the
table describes there, or with NULL if it describes none. -/
def Answers (s : Devices) (bd : Nat) (mbr : Sector) (minor : Nat) : Prop :=
  if InTable mbr minor then
    ∃ p, get_hdstruct (s.gendisks bd).major minor s = .ok (some p, s) ∧ p.bd = bd ∧
      s.part p = slotPart bd mbr (minor - 1)
  else get_hdstruct (s.gendisks bd).major minor s = .ok (none, s)

/-- The disk found, `d`, is the one at `bd` and its count covers exactly the used slots
at `minor`; or it is another one, with fewer than `minor` partitions, and the slot is not used. -/
def Agrees (s : Devices) (d bd : Nat) (mbr : Sector) (minor : Nat) : Prop :=
  ((d = 0 ∨ d = bd) ∧ minor ≠ 0 ∧ (minor ≤ add32 (s.gendisks bd).part_count (usedSlots mbr) ↔ InTable mbr minor)) ∨
    (d ≠ 0 ∧ d ≠ bd ∧ ¬ InTable mbr minor ∧ (s.gendisks d).part_count < minor)

theorem get_hdstruct_found {s : Devices} {major d : Nat} (minor : Nat) (h : get_gendisk major s = .ok (d, s))
    (hd : d ≠ 0) :
    get_hdstruct major minor s =
      .ok (if (s.gendisks d).part_count < minor then none else some ⟨d, sub32 minor 1⟩, s) := by
  unfold get_hdstruct
  refine (Exec.bind_of_ok h).trans ?_
  rw [if_neg hd]
  refine (Exec.bind_of_ok (Exec.get_apply _)).trans ?_
  split <;> rfl

/-- On the disk itself, the answer is right when the count covers `minor` exactly if the slot is used. -/
theorem answers_own {s s' : Devices} {bd minor : Nat} {mbr : Sector} (hbd : bd ≠ 0) (hminor : minor < 2 ^ 32)
    (hc : (s.gendisks bd).part_count < 2 ^ 32)
    (hs' : s'.gendisks bd = partscan_loop bd mbr (s.gendisks bd))
    (hf : get_gendisk (s'.gendisks bd).major s' = .ok (bd, s')) :
    Answers s' bd mbr minor ↔
      minor ≠ 0 ∧ (minor ≤ add32 (s.gendisks bd).part_count (usedSlots mbr) ↔ InTable mbr minor) := by
  have hcount : (s'.gendisks bd).part_count = add32 (s.gendisks bd).part_count (usedSlots mbr) := by
    rw [hs', partscan_loop_count bd mbr hc]
  have hlook := get_hdstruct_found minor hf hbd
  rw [hcount] at hlook
  unfold Answers
  rw [hlook]
  by_cases hin : InTable mbr minor
  · rw [if_pos hin]
    have hpos := hin.1
    have hslot : minor - 1 < 4 := by have := hin.2.1; omega
    constructor
    · rintro ⟨p, hp, -, -⟩
      refine ⟨by omega, fun _ => hin, fun _ => ?_⟩
      by_contra hlt
      rw [if_pos (by omega)] at hp
      cases hp
    · rintro ⟨-, hle⟩
      refine ⟨⟨bd, sub32 minor 1⟩, by rw [if_neg (Nat.not_lt.2 (hle.2 hin))], rfl, ?_⟩
      have hi : sub32 minor 1 = minor - 1 := sub32_eq hminor hpos
      unfold Devices.part
      rw [hs', hi]
      exact (partscan_loop_scanned bd mbr _).parts _ (List.mem_range.2 hslot) hin.2.2
  · rw [if_neg hin]
    constructor
    · intro h
      have hlt : add32 (s.gendisks bd).part_count (usedSlots mbr) < minor := by
        by_contra hlt
        rw [if_neg hlt] at h
        cases h
      exact ⟨by omega, fun hle => absurd hle (by omega), fun h' => absurd h' hin⟩
    · rintro ⟨h0, hle⟩
      rw [if_pos]
      by_contra hlt
      exact hin (hle.1 (by omega))

/-- From an empty registry, after any run of registrations: when a disk is registered whose
first sector is `mbr`, every minor is answered as the table says exactly when `Agrees` does. -/
theorem get_hdstruct_partitions {read : Reader} {s₀ s s' : Devices} {bd d minor : Nat} {mbr : Sector}
    (hq : Quiet read) (h0 : ∀ i, s₀.bd_list i = 0) (hr : Run (Step read) s₀ s)
    (hbd : bd ≠ 0) (hc : (s.gendisks bd).part_count < 2 ^ 32) (hminor : minor < 2 ^ 32)
    (hf : FirstSector read s bd mbr) (hm : is_mbr mbr)
    (hd : get_gendisk (s.gendisks bd).major s = .ok (d, s))
    (hreg : register_blkdev read bd s = .ok (0, s')) :
    Answers s' bd mbr minor ↔ Agrees s d bd mbr minor := by
  obtain ⟨n, hn⟩ := Step.filled hq h0 hr
  obtain ⟨-, hbad, -⟩ | ⟨hlt, -, hp⟩ := register_blkdev_ok hn hreg
  · cases hbad
  obtain ⟨t, ht, hl, hg⟩ := gendisk_partscan_run hq hf hm (Function.update s.bd_list n bd)
  rw [ht] at hp
  cases hp
  have hfind := get_gendisk_register hn hlt hbd hl hg (s.gendisks bd).major
  have hbdg : s'.gendisks bd = partscan_loop bd mbr (s.gendisks bd) := by rw [hg, Function.update_self]
  have hmaj : (s'.gendisks bd).major = (s.gendisks bd).major := by
    rw [hbdg]
    exact (partscan_loop_scanned bd mbr _).major
  rw [get_gendisk_run hn] at hd
  -- the disk found afterwards is the earlier one with this major, if there is one
  have hfound : get_gendisk (s.gendisks bd).major s' = .ok (if d = 0 then bd else d, s') := by
    rw [hfind]
    cases hs : slotOf s n (s.gendisks bd).major with
    | none =>
      rw [hs] at hd
      cases hd
      simp
    | some i =>
      rw [hs] at hd
      cases hd
      have hi := List.mem_range.1 (List.mem_of_find?_eq_some hs)
      simp [(hn.2 i).2 hi]
  unfold Agrees
  by_cases hown : d = 0 ∨ d = bd
  · have hdisk : (if d = 0 then bd else d) = bd := by
      rcases hown with h | h
      · rw [if_pos h]
      · rw [h, if_neg hbd]
    rw [hdisk, ← hmaj] at hfound
    rw [answers_own hbd hminor hc hbdg hfound]
    constructor
    · rintro ⟨hz, hle⟩
      exact .inl ⟨hown, hz, hle⟩
    · rintro (⟨-, hz, hle⟩ | ⟨h1, h2, -⟩)
      · exact ⟨hz, hle⟩
      · rcases hown with h | h
        · exact absurd h h1
        · exact absurd h h2
  · obtain ⟨hd0, hdb⟩ := not_or.1 hown
    rw [if_neg hd0] at hfound
    have hlook := get_hdstruct_found minor hfound hd0
    have hkeep : (s'.gendisks d).part_count = (s.gendisks d).part_count := by rw [hg, Function.update_of_ne hdb]
    rw [hkeep] at hlook
    unfold Answers
    rw [hmaj, hlook]
    constructor
    · intro h
      by_cases hin : InTable mbr minor
      · rw [if_pos hin] at h
        obtain ⟨p, hp, hpb, -⟩ := h
        split at hp
        · cases hp
        · cases hp
          exact absurd hpb hdb
      · rw [if_neg hin] at h
        refine .inr ⟨hd0, hdb, hin, ?_⟩
        by_contra hlt
        rw [if_neg hlt] at h
        cases h
    · rintro (⟨h1, -⟩ | ⟨-, -, hin, hlt⟩)
      · exact absurd h1 hown
      · rw [if_neg hin, if_pos hlt]

/-! ## Two disks -/

/-- A sector with the mark and one linux partition, of 8 sectors from sector 1 on, in slot `i`. -/
def onePartition (i : Nat) : Sector := fun k =>
  if k = 0x1fe then 0x55 else if k = 0x1ff then 0xaa
  else if k = 0x1be + 16 * i + 4 then 0x83
  else if k = 0x1be + 16 * i + 8 then 1
  else if k = 0x1be + 16 * i + 12 then 8
  else 0

/-- A disk whose every sector is `mbr`. -/
def constReader (mbr : Sector) : Reader := fun _ _ _ _ => pure (1, mbr)

/-- No disk registered; the memory of a disk not scanned yet, with a count of 0. -/
def noDisks : Devices :=
  ⟨fun _ => 0, fun _ => ⟨4, .ata_fops, 512, 0, 0, fun _ => ⟨0, 0, 0, 0⟩, 0⟩, fun _ => ⟨0, 0, 0, 0, 0⟩,
    fun _ => ⟨0, []⟩, 0⟩

theorem constReader_quiet (mbr : Sector) : Quiet (constReader mbr) := by
  intro _ _ _ _ s r s' h
  cases h
  exact ⟨rfl, rfl⟩

theorem get_hdstruct_partitions_first :
    ∃ s', register_blkdev (constReader (onePartition 0)) 1 noDisks = .ok (0, s') ∧ Answers s' 1 (onePartition 0) 1 := by
  refine ⟨_, rfl, ?_⟩
  refine (get_hdstruct_partitions (s := noDisks) (d := 0) (constReader_quiet _) (fun _ => rfl) .start (by decide)
    (by decide) (by decide) (fun l => ⟨1, _, by decide, rfl⟩) (by decide) rfl rfl).2 ?_
  exact .inl ⟨.inl rfl, by decide, by decide⟩

/-- A partition in the second slot only is counted once and cannot be reached. -/
theorem get_hdstruct_partitions_second :
    ∃ s', register_blkdev (constReader (onePartition 1)) 1 noDisks = .ok (0, s') ∧ ¬ Answers s' 1 (onePartition 1) 2 ∧
      InTable (onePartition 1) 2 ∧ get_hdstruct 4 2 s' = .ok (none, s') := by
  refine ⟨_, rfl, ?_, by decide, rfl⟩
  intro h
  unfold Answers at h
  rw [if_pos (by decide)] at h
  obtain ⟨p, hp, -⟩ := h
  cases hp

end Ulmix.Disks

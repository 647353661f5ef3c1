import Ulmix.Memory.Merging
/-!
# The entry `kmalloc` takes (`kernel/memory/kmalloc.c`)

`kmalloc` compares the size of an entry with `size + start_offset` in 32 bits.
Where that sum wraps, an entry is taken that is too small, and then none is
large enough (`no_suits_of_wrapped`): the caller should have got null. Without
such an entry the first one large enough is taken, and only at the end of the
address space something else can go wrong: an empty block behind the last byte
has address zero, and so has the header of what is left behind a block there;
and on a heap that starts in the first 24 bytes of memory and reaches to the
last ones, that header can wrap onto the one of the block (`ClearOfHeader`).
-/
open Ulmix.Lib Ulmix.Sync

namespace Ulmix.Heap

/-! ## The next multiple -/

/-- How far the next multiple of `align` is from `a`. -/
def distance (a align : Nat) : Nat := (align - a % align) % align

theorem dvd_add_distance {a align : Nat} (ha : 0 < align) : align ∣ a + distance a align := by
  have hlt := Nat.mod_lt a ha
  have hdiv := Nat.div_add_mod a align
  unfold distance
  by_cases h0 : a % align = 0
  · rw [h0, Nat.sub_zero, Nat.mod_self]
    exact Nat.dvd_of_mod_eq_zero h0
  · rw [Nat.mod_eq_of_lt (by omega)]
    exact ⟨a / align + 1, by rw [Nat.mul_add]; omega⟩

theorem add_distance_le {a align m : Nat} (ha : 0 < align) (h : a ≤ m) (hm : align ∣ m) : a + distance a align ≤ m := by
  obtain ⟨q, rfl⟩ := hm
  have hlt := Nat.mod_lt a ha
  have hdiv := Nat.div_add_mod a align
  unfold distance
  by_cases h0 : a % align = 0
  · rw [h0, Nat.sub_zero, Nat.mod_self]
    exact h
  · have hq : a / align < q := by
      apply Nat.lt_of_mul_lt_mul_left (a := align)
      omega
    have hnext : align * (a / align + 1) ≤ align * q := Nat.mul_le_mul_left align hq
    rw [Nat.mod_eq_of_lt (by omega)]
    rw [Nat.mul_add] at hnext
    omega

/-- The padding `kmalloc` computes is the distance. -/
theorem Entry.padding_eq_distance {e : Entry} {align : Nat} (hs : e.start < 2 ^ 32) (ha : 1 ≤ align)
    (ha' : align < 2 ^ 32) : e.padding align = distance e.start align := by
  have hlt := Nat.mod_lt e.start ha
  rw [e.padding_eq hs ha ha']
  unfold distance
  by_cases h0 : e.start % align = 0
  · rw [if_pos h0, h0, Nat.sub_zero, Nat.mod_self]
  · rw [if_neg h0]
    exact (Nat.mod_eq_of_lt (by omega)).symm

/-! ## Large enough -/

/-- The entry is available and large enough for padding and block. -/
def Entry.suits (size align : Nat) (e : Entry) : Bool :=
  e.available && decide (distance e.start align + size ≤ e.size)

section
variable {r : Ram} {lo hi size align : Nat} {es xs ys : List Entry} {e : Entry}

/-- An entry accepted for a sum that wrapped: nothing is large enough. -/
theorem no_suits_of_wrapped (hw : WellFormed r lo hi es) (hhi : hi ≤ 2 ^ 32) (ha : 0 < align)
    (hwrap : 2 ^ 32 ≤ distance e.start align + size) : ∀ x ∈ es, x.suits size align = false := by
  intro x hx
  by_contra hsuits
  simp only [Entry.suits, Bool.not_eq_false, Bool.and_eq_true, decide_eq_true_eq] at hsuits
  have hoff : distance e.start align < align := Nat.mod_lt _ ha
  have hstart := hw.start x hx
  have hstop := hw.stop_le hx
  -- padding and block of `x` reach from a positive multiple of `align` up to its end
  have hle : align ≤ x.start + distance x.start align := Nat.le_of_dvd (by omega) (dvd_add_distance ha)
  omega

theorem fits_iff_suits (hs : e.start < 2 ^ 32) (hz : e.size < 2 ^ 32) (ha : 1 ≤ align) (ha' : align < 2 ^ 32)
    (hwrap : e.available → ¬ (2 ^ 32 ≤ distance e.start align + size ∧ distance e.start align + size ≤ 2 ^ 32 + e.size))
    (hsize : size < 2 ^ 32) : e.fits size align = e.suits size align := by
  have hoff : distance e.start align < align := Nat.mod_lt _ ha
  unfold Entry.fits Entry.suits
  rw [e.padding_eq_distance hs ha ha']
  cases hav : e.available with
  | false => rfl
  | true =>
    have hnot := hwrap hav
    rw [Bool.true_and, Bool.true_and, decide_eq_decide]
    unfold add32
    omega

end

/-! ## Memory that was stored to -/

/-- What returns has taken no store back. -/
def Grows {α : Type} (x : Exec Ram α) : Prop := ∀ r a r', x r = .ok (a, r') → r.stores.length ≤ r'.stores.length

namespace Grows

variable {α β : Type}

theorem pure (a : α) : Grows (Pure.pure a : Exec Ram α) := by
  rintro r b r' ⟨⟩
  exact le_rfl

theorem bind {x : Exec Ram α} {f : α → Exec Ram β} (hx : Grows x) (hf : ∀ a, Grows (f a)) : Grows (x >>= f) := by
  intro r b r' h
  obtain ⟨a, r₁, h₁, h₂⟩ := Exec.bind_ok.1 h
  exact (hx _ _ _ h₁).trans (hf _ _ _ _ h₂)

theorem ite {p : Prop} [Decidable p] {x y : Exec Ram α} (hx : Grows x) (hy : Grows y) : Grows (if p then x else y) := by
  by_cases hp : p
  · rwa [if_pos hp]
  · rwa [if_neg hp]

theorem load (p : Nat) (f : Field) : Grows (load p f) := by
  intro r a r' h
  by_cases hp : p = 0
  · rw [hp] at h
    cases h
  · rw [load_eq hp] at h
    cases h
    exact le_rfl

end Grows

/-- A store that returns is one more. -/
theorem store_stores {p v : Nat} {f : Field} {r r' : Ram} (h : store p f v r = .ok ((), r')) :
    r'.stores.length = r.stores.length + 1 := by
  by_cases hp : p = 0
  · rw [hp] at h
    cases h
  · rw [store_eq hp] at h
    cases h
    rfl

namespace Grows

theorem store (p : Nat) (f : Field) (v : Nat) : Grows (store p f v) := by
  intro r _ r' h
  rw [store_stores h]
  exact Nat.le_succ _

theorem link_new_entry (addr prev : Nat) : Grows (link_new_entry addr prev) := by
  unfold Heap.link_new_entry
  refine (store _ _ _).bind fun _ => (load _ _).bind fun _ => (store _ _ _).bind fun _ => (load _ _).bind fun _ => ?_
  refine ite ?_ ((store _ _ _).bind fun _ => pure _)
  exact (load _ _).bind fun _ => (store _ _ _).bind fun _ => (store _ _ _).bind fun _ => pure _

theorem alloc_front (entry start_offset : Nat) : Grows (alloc_front entry start_offset) := by
  unfold Heap.alloc_front
  refine ite ?_ (pure _)
  exact (load _ _).bind fun _ => (link_new_entry _ _).bind fun _ => (load _ _).bind fun _ =>
    (store _ _ _).bind fun _ => pure _

theorem alloc_tail (new_entry prev_size start_offset size : Nat) :
    Grows (alloc_tail new_entry prev_size start_offset size) := by
  unfold Heap.alloc_tail
  refine ite ?_ (store _ _ _)
  refine (load _ _).bind fun _ => (link_new_entry _ _).bind fun _ => (store _ _ _).bind fun _ => ?_
  exact (store _ _ _).bind fun _ => (store _ _ _).bind fun _ => (store _ _ _).bind fun _ => store _ _ _

end Grows

/-- Taking an entry stores something, wherever the sums come out, and yields a 32-bit address. -/
theorem alloc_entry_stores {entry off size description p : Nat} {r r' : Ram}
    (h : alloc_entry entry off size description r = .ok (p, r')) :
    r.stores.length < r'.stores.length ∧ p < 2 ^ 32 := by
  unfold alloc_entry at h
  obtain ⟨prev_size, r₁, h₁, h⟩ := Exec.bind_ok.1 h
  obtain ⟨n, r₂, h₂, h⟩ := Exec.bind_ok.1 h
  obtain ⟨_, r₃, h₃, h⟩ := Exec.bind_ok.1 h
  obtain ⟨_, r₄, h₄, h⟩ := Exec.bind_ok.1 h
  obtain ⟨start, r₅, h₅, h⟩ := Exec.bind_ok.1 h
  obtain ⟨_, r₆, h₆, h⟩ := Exec.bind_ok.1 h
  obtain ⟨_, r₇, h₇, h₈⟩ := Exec.bind_ok.1 h
  have g₁ := Grows.load _ _ _ _ _ h₁
  have g₂ := Grows.alloc_front _ _ _ _ _ h₂
  have g₃ := store_stores h₃
  have g₄ := store_stores h₄
  have g₅ := Grows.load _ _ _ _ _ h₅
  have g₆ := store_stores h₆
  have g₇ := Grows.alloc_tail _ _ _ _ _ _ _ h₇
  have g₈ := Grows.load _ _ _ _ _ h₈
  refine ⟨by omega, ?_⟩
  by_cases hn : n = 0
  · rw [hn] at h₈
    cases h₈
  · rw [load_eq hn] at h₈
    cases h₈
    exact field_lt _ _ _

/-! ## What is left behind a block -/

section
variable {r : Ram} {n p v size prev_size : Nat}

/-- A store to a header farther on leaves the one at `n` alone, even when it wraps to bytes in front of it. -/
theorem field_setField_far (hnp : n + 24 ≤ p) (hp : p < 2 ^ 32) (hwrap : p + 24 ≤ 2 ^ 32 + n) (f g : Field) :
    field (setField r p f v) n g = field r n g := by
  have hf := off_lt f
  have hg := off_lt g
  unfold field setField Ram.word Ram.put
  rw [add32_eq (show n + g.off < 2 ^ 32 by omega)]
  refine read32_congr (by omega) fun b h1 h2 => ?_
  refine if_neg ?_
  unfold sub32 add32
  omega

theorem field_setField_self (hn : n ≠ 0) (hn' : n + 24 ≤ 2 ^ 32) (hv : v < 2 ^ 32) {f g : Field} (hg : g ≠ f) :
    field (setField r n f v) n g = field r n g := by
  have hN : Nodes [n] := ⟨by simp [hn]; omega, List.pairwise_singleton _ _⟩
  rw [hN.field_setField (by simp) (by simp) hv, if_neg fun h => hg h.2]

/-- Linking in a header farther on, wherever it lies over others. -/
theorem link_new_entry_far (hn0 : n ≠ 0) (hnp : n + 24 ≤ p) (hp : p < 2 ^ 32) (hwrap : p + 24 ≤ 2 ^ 32 + n)
    (hnext : field r n .next = 0 ∨ n + 24 ≤ field r n .next ∧ field r n .next + 24 ≤ 2 ^ 32) :
    ∃ r', link_new_entry p n r = .ok (p, r') ∧ ∀ g, g ≠ .next → field r' n g = field r n g := by
  have hp0 : p ≠ 0 := by omega
  have hz := field_lt r n .next
  set z := field r n .next with hzdef
  set r₁ := setField r p .previous n
  have h₁ : ∀ g, field r₁ n g = field r n g := fun g => field_setField_far hnp hp hwrap _ _
  set r₂ := setField r₁ p .next z
  have h₂ : ∀ g, field r₂ n g = field r n g := fun g => (field_setField_far hnp hp hwrap _ _).trans (h₁ g)
  have hhead : link_new_entry p n r = (do
      if z ≠ 0 then
        store (← load n .next) .previous p
      store n .next p
      pure p) r₂ := by
    unfold link_new_entry
    rw [Exec.bind_of_ok (store_eq hp0 _ _ _), Exec.bind_of_ok (load_eq hn0 _ _), h₁,
      Exec.bind_of_ok (store_eq hp0 _ _ _), Exec.bind_of_ok (load_eq hn0 _ _), h₂]
  rw [hhead]
  rcases hnext with hz0 | ⟨hz0, hz24⟩
  · refine ⟨setField r₂ n .next p, ?_, fun g hg => ?_⟩
    · rw [if_neg (not_not_intro hz0)]
      exact Exec.bind_of_ok (store_eq hn0 _ _ _)
    · rw [field_setField_self hn0 (by omega) hp hg, h₂]
  · refine ⟨setField (setField r₂ z .previous p) n .next p, ?_, fun g hg => ?_⟩
    · rw [if_pos (show z ≠ 0 by omega)]
      refine (Exec.bind_of_ok (load_eq hn0 _ _)).trans ?_
      rw [h₂, ← hzdef]
      refine (Exec.bind_of_ok (store_eq (show z ≠ 0 by omega) _ _ _)).trans ?_
      exact Exec.bind_of_ok (store_eq hn0 _ _ _)
    · rw [field_setField_self hn0 (by omega) hp hg, field_setField_far hz0 hz (by omega), h₂]

/-- The second `if` of `alloc_entry` returns, and the block stays where it is, also when the header
behind it lies over the next one. -/
theorem alloc_tail_run (off : Nat) (hn0 : n ≠ 0) (hstart : n + 24 ≤ field r n .start)
    (hroom : 96 < sub32 prev_size size →
      field r n .start + size < 2 ^ 32 ∧ field r n .start + size + 24 ≤ 2 ^ 32 + n)
    (hnext : field r n .next = 0 ∨ n + 24 ≤ field r n .next ∧ field r n .next + 24 ≤ 2 ^ 32)
    (hsize : size < 2 ^ 32) (hprev : prev_size < 2 ^ 32) :
    ∃ r', alloc_tail n prev_size off size r = .ok ((), r') ∧ field r' n .start = field r n .start ∧
      field r' n .available = field r n .available := by
  have hlt := field_lt r n .start
  unfold alloc_tail
  by_cases hs : 96 < sub32 prev_size size
  · obtain ⟨hp, hwrap⟩ := hroom hs
    set p := field r n .start + size with hpdef
    obtain ⟨r₁, h₁, hf₁⟩ := link_new_entry_far hn0 (show n + 24 ≤ p by omega) hp hwrap hnext
    have hp0 : p ≠ 0 := by omega
    have hfar : ∀ {r : Ram} (v : Nat) (f g : Field), field (setField r p f v) n g = field r n g :=
      fun v f g => field_setField_far (by omega) hp hwrap f g
    have hsum : add32 (field r n .start) size = p := add32_eq hp
    rw [if_pos (show sub32 prev_size size > 4 * headerSize from hs), Exec.bind_of_ok (load_eq hn0 _ _), hsum,
      Exec.bind_of_ok h₁, Exec.bind_of_ok (store_eq hp0 _ _ _), Exec.bind_of_ok (store_eq hp0 _ _ _),
      Exec.bind_of_ok (store_eq hp0 _ _ _), Exec.bind_of_ok (store_eq hp0 _ _ _), store_eq hn0]
    refine ⟨_, rfl, ?_, ?_⟩
    · rw [field_setField_self hn0 (by omega) hsize (by decide), hfar, hfar, hfar, hfar, hf₁ _ (by decide)]
    · rw [field_setField_self hn0 (by omega) hsize (by decide), hfar, hfar, hfar, hfar, hf₁ _ (by decide)]
  · rw [if_neg (show ¬ sub32 prev_size size > 4 * headerSize from hs), store_eq hn0]
    refine ⟨_, rfl, ?_, ?_⟩
    · exact field_setField_self hn0 (by omega) hprev (by decide)
    · exact field_setField_self hn0 (by omega) hprev (by decide)

end

/-! ## An entry that is large enough -/

section
variable {r : Ram} {lo hi off size description : Nat} {xs ys : List Entry} {e : Entry}

/-- The header of the block lies between the one of the entry and the block. -/
theorem newAddr_bounds (hw : WellFormed r lo hi (xs ++ e :: ys)) (hhi : hi ≤ 2 ^ 32) (hfit : off + size ≤ e.size) :
    e.addr ≤ e.newAddr off ∧ e.newAddr off + 24 ≤ e.start + off ∧
      (96 ≤ off → e.addr + 24 ≤ e.newAddr off ∧ e.newAddr off + 24 = e.start + off) := by
  have hstart := hw.start e (by simp)
  have hstop := hw.stop_le (e := e) (by simp)
  unfold Entry.newAddr
  by_cases hoff : 96 ≤ off
  · rw [if_pos hoff]
    unfold sub32 add32
    omega
  · rw [if_neg hoff]
    omega

theorem alloc_nodes (hw : WellFormed r lo hi (xs ++ e :: ys)) (hhi : hi ≤ 2 ^ 32) (hfit : off + size ≤ e.size) :
    Nodes ((xs ++ e.front off).map Entry.addr ++ e.newAddr off :: ys.map Entry.addr) := by
  obtain ⟨-, -, hnew⟩ := newAddr_bounds hw hhi hfit
  have hN := hw.represents.nodes
  have hstop := hw.stop_le (e := e) (by simp)
  by_cases hoff : 96 ≤ off
  · obtain ⟨hlow, hhigh⟩ := hnew hoff
    have hlist : (xs ++ e.front off).map Entry.addr ++ e.newAddr off :: ys.map Entry.addr =
        xs.map Entry.addr ++ e.addr :: e.newAddr off :: ys.map Entry.addr := by simp [Entry.front, hoff]
    rw [List.map_append, List.map_cons] at hN
    obtain ⟨hpx, hpe, hpxe⟩ := List.pairwise_append.1 hN.apart
    obtain ⟨hey, hpy⟩ := List.pairwise_cons.1 hpe
    rw [hlist]
    refine ⟨fun a ha => ?_, List.pairwise_append.2 ⟨hpx, ?_, fun a ha b hb => ?_⟩⟩
    · rcases List.mem_append.1 ha with ha | ha
      · exact hN.hdr a (by simp [ha])
      · rcases List.mem_cons.1 ha with rfl | ha
        · exact hN.hdr _ (by simp)
        · rcases List.mem_cons.1 ha with rfl | ha
          · omega
          · exact hN.hdr a (by simp [ha])
    · refine List.pairwise_cons.2 ⟨fun b hb => ?_, List.pairwise_cons.2 ⟨fun b hb => ?_, hpy⟩⟩
      · rcases List.mem_cons.1 hb with rfl | hb
        · exact .inl hlow
        · exact hey b hb
      · obtain ⟨c, hc, rfl⟩ := List.mem_map.1 hb
        have := hw.stop_le_addr hc
        exact .inl (by omega)
    · obtain ⟨x, hx, rfl⟩ := List.mem_map.1 ha
      have hxe : x.addr + 24 ≤ e.addr := by
        obtain ⟨ws, zs, rfl⟩ := List.append_of_mem hx
        have hw' : WellFormed r lo hi (ws ++ x :: (zs ++ e :: ys)) := by simpa using hw
        have h1 := hw'.stop_le_addr (c := e) (by simp)
        have h2 := hw'.start x (by simp)
        omega
      rcases List.mem_cons.1 hb with rfl | hb
      · exact .inl hxe
      · rcases List.mem_cons.1 hb with rfl | hb
        · exact .inl (by omega)
        · exact hpxe _ ha b (List.mem_cons_of_mem _ hb)
  · have hlist : (xs ++ e.front off).map Entry.addr ++ e.newAddr off :: ys.map Entry.addr =
        (xs ++ e :: ys).map Entry.addr := by simp [Entry.front, Entry.newAddr, hoff]
    rw [hlist]
    exact hN

/-- `alloc_entry` on an entry that is large enough, up to the second `if`. -/
theorem alloc_entry_fit (hw : WellFormed r lo hi (xs ++ e :: ys)) (hhi : hi ≤ 2 ^ 32) (hd : description < 2 ^ 32)
    (hfit : off + size ≤ e.size) :
    ∃ r' n, e.addr ≤ n ∧ n + 24 ≤ e.start + off ∧ (96 ≤ off → n + 24 = e.start + off) ∧
      field r' n .start = add32 e.start off ∧ field r' n .available = 0 ∧
      (field r' n .next = 0 ∨ n + 24 ≤ field r' n .next ∧ field r' n .next + 24 ≤ 2 ^ 32) ∧
      alloc_entry e.addr off size description r = (do alloc_tail n e.size off size; load n .start) r' := by
  obtain ⟨hlow, hhigh, hnew⟩ := newAddr_bounds hw hhi hfit
  obtain ⟨r', n, hn, hns, hav, hr, -, -, hrun⟩ :=
    alloc_entry_head hw.represents hd (alloc_nodes hw hhi hfit) (fun _ h => h) size
  have hmem : n ∈ xs ++ e.front off ++ n :: ys := by simp
  refine ⟨r', n.addr, hn ▸ hlow, hn ▸ hhigh, fun hoff => hn ▸ (hnew hoff).2, (hr.start_eq hmem).trans hns, ?_, ?_,
    hrun⟩
  · by_contra hne
    rw [(hr.available_iff hmem).1 hne] at hav
    cases hav
  · rw [hr.next_eq]
    cases ys with
    | nil => exact .inl rfl
    | cons c ys =>
      have hc := hw.stop_le_addr (c := c) (by simp)
      have hc' := hw.represents.addr_le (e := c) (by simp)
      refine .inr ⟨?_, hc'⟩
      show n.addr + 24 ≤ c.addr
      omega

end

/-! ## The first entry large enough -/

/-- The block at `p` was taken from `e`: a header in `e` says that it starts there and is in use. -/
def TakenFrom (r : Ram) (e : Entry) (p size : Nat) : Prop :=
  e.start ≤ p ∧ p + size ≤ e.start + e.size ∧
    ∃ n, e.addr ≤ n ∧ n + 24 ≤ p ∧ field r n .available = 0 ∧ field r n .start = p

/-- On every heap with the entries `es`, `kmalloc` returns null and stores nothing if none of them is
large enough, and otherwise takes the first one that is, at the first multiple of `align` in it. -/
def Serves (lo hi : Nat) (es : List Entry) (size align : Nat) : Prop :=
  ∀ k description, k.Unlocked → k.heap_start = lo → WellFormed k.ram lo hi es → description < 2 ^ 32 →
    (es.find? (Entry.suits size align) = none → ∃ k', kmalloc size align description k = .ok (0, k') ∧ k'.ram = k.ram) ∧
    ∀ e, es.find? (Entry.suits size align) = some e →
      ∃ p k', kmalloc size align description k = .ok (p, k') ∧ p ≠ 0 ∧ TakenFrom k'.ram e p size ∧ align ∣ p ∧
        ∀ m, e.start ≤ m → align ∣ m → p ≤ m

/-- No available entry is accepted for a sum that wrapped. -/
def NoWrap (es : List Entry) (size align : Nat) : Prop :=
  ∀ e ∈ es, e.available → ¬ (2 ^ 32 ≤ distance e.start align + size ∧ distance e.start align + size ≤ 2 ^ 32 + e.size)

/-- The block does not end with the address space, or it is not empty and has nothing left behind it. -/
def NotAtEnd (e : Entry) (size align : Nat) : Prop :=
  ¬ (e.start + distance e.start align + size = 2 ^ 32 ∧ (size = 0 ∨ 96 < distance e.start align))

/-- The header of what is left behind the block does not wrap past the end of the address space onto the one of the
block. -/
def ClearOfHeader (e : Entry) (size align : Nat) : Prop :=
  distance e.start align < 96 → 96 < e.size - size → e.start + distance e.start align + size + 24 ≤ 2 ^ 32 + e.addr

section
variable {r : Ram} {lo hi size align description : Nat} {es xs ys : List Entry} {e : Entry}

/-- On a heap that starts behind the first 24 bytes nothing can. -/
theorem clearOfHeader_of_le (hw : WellFormed r lo hi es) (hhi : hi ≤ 2 ^ 32) (hlo : 24 ≤ lo) (he : e ∈ es)
    (hfit : distance e.start align + size ≤ e.size) : ClearOfHeader e size align := by
  have hstop := hw.stop_le he
  have hlo' := hw.lo_le he
  intro _ _
  omega

theorem firstFit_eq (hw : WellFormed r lo hi es) (hsize : size < 2 ^ 32) (ha : 1 ≤ align) (ha' : align < 2 ^ 32)
    (hwrap : NoWrap es size align) : firstFit es size align = es.find? (Entry.suits size align) :=
  List.find?_congr fun e he =>
    fits_iff_suits (hw.represents.start_lt he) (hw.represents.size_lt he) ha ha' (hwrap e he) hsize

theorem kmalloc_some {k : Kheap} (description : Nat) (hk : k.Unlocked) (hs : k.heap_start = lo)
    (hw : WellFormed k.ram lo hi es) (hfit : firstFit es size align = some e) :
    kmalloc size align description k =
      match alloc_entry e.addr (e.padding align) size description k.ram with
      | .ok (p, r) => .ok (p, k.settle r)
      | .error f => .error f := by
  have hloop := kmalloc_loop_spec hw.represents size align description
  simp only [hfit] at hloop
  rw [kmalloc_eq hk, hs]
  cases halloc : alloc_entry e.addr (e.padding align) size description k.ram with
  | ok p => simp only [hloop, halloc]
  | error f => simp only [hloop, halloc]

/-- The block is where it should be. -/
theorem alloc_entry_taken (hw : WellFormed r lo hi (xs ++ e :: ys)) (hhi : hi ≤ 2 ^ 32) (hsize : size < 2 ^ 32)
    (hd : description < 2 ^ 32) (hfit : distance e.start align + size ≤ e.size) (hend : NotAtEnd e size align)
    (hclear : ClearOfHeader e size align) :
    ∃ r', alloc_entry e.addr (distance e.start align) size description r = .ok (e.start + distance e.start align, r') ∧
      TakenFrom r' e (e.start + distance e.start align) size := by
  have hstop := hw.stop_le (e := e) (by simp)
  have hst := hw.start e (by simp)
  have he0 := hw.represents.addr_ne (e := e) (by simp)
  have hez := hw.represents.size_lt (e := e) (by simp)
  unfold NotAtEnd at hend
  unfold ClearOfHeader at hclear
  generalize distance e.start align = off at hfit hend hclear ⊢
  obtain ⟨r₁, n, hlow, hhigh, hnew, hstart, hav, hnext, hrun⟩ := alloc_entry_fit hw hhi hd hfit
  have hsum : add32 e.start off = e.start + off := add32_eq (by omega)
  have hsub : sub32 e.size size = e.size - size := sub32_eq hez (by omega)
  rw [hsum] at hstart
  obtain ⟨r₂, htail, hstart', hav'⟩ := alloc_tail_run off (show n ≠ 0 by omega) (by omega) (fun hs => by omega) hnext
    hsize hez
  refine ⟨r₂, ?_, by omega, by omega, n, hlow, hhigh, hav'.trans hav, hstart'.trans hstart⟩
  rw [hrun, Exec.bind_of_ok htail, load_eq (by omega), hstart', hstart]

/-- At the end of the address space it is not. -/
theorem alloc_entry_at_end (hw : WellFormed r lo hi (xs ++ e :: ys)) (hhi : hi ≤ 2 ^ 32) (hd : description < 2 ^ 32)
    (hfit : distance e.start align + size ≤ e.size) (hend : ¬ NotAtEnd e size align) {r' : Ram} :
    alloc_entry e.addr (distance e.start align) size description r ≠ .ok (e.start + distance e.start align, r') := by
  intro hok
  have hlt := (alloc_entry_stores hok).2
  have he0 := hw.represents.addr_ne (e := e) (by simp)
  have hez := hw.represents.size_lt (e := e) (by simp)
  unfold NotAtEnd at hend
  generalize distance e.start align = off at hfit hend hok hlt
  obtain ⟨hsum, hcase⟩ := not_not.1 hend
  have hoff : 96 < off := by omega
  have hstop := hw.stop_le (e := e) (by simp)
  -- the header of what is left would lie at address zero
  obtain ⟨r₁, n, hlow, hhigh, -, hstart, -, -, hrun⟩ := alloc_entry_fit hw hhi hd hfit
  have hsub : sub32 e.size size = e.size - size := sub32_eq hez (by omega)
  have hzero : add32 (field r₁ n .start) size = 0 := by
    rw [hstart]
    unfold add32
    omega
  have htail : alloc_tail n e.size off size r₁ = .error .nullDeref := by
    unfold alloc_tail
    rw [if_pos (show sub32 e.size size > 4 * headerSize by unfold headerSize; omega),
      Exec.bind_of_ok (load_eq (by omega) _ _), hzero]
    rfl
  rw [hrun, Exec.bind_of_error htail] at hok
  cases hok

/-- Where `kmalloc` serves a request as it should, no available entry passes the test with a sum that wrapped. -/
theorem Serves.noWrap {k₀ : Kheap} (hw : WellFormed k₀.ram lo hi es) (hhi : hi ≤ 2 ^ 32) (ha : 1 ≤ align)
    (ha' : align < 2 ^ 32) (hserves : Serves lo hi es size align) : NoWrap es size align := by
  rintro e he hav ⟨hover, hle⟩
  have hnone : es.find? (Entry.suits size align) = none := by
    apply List.find?_eq_none.2
    intro x hx
    rw [no_suits_of_wrapped hw hhi ha hover x hx]
    exact Bool.false_ne_true
  obtain ⟨k', hrun, hram⟩ := (hserves ⟨k₀.ram, ⟨0, []⟩, lo⟩ 0 rfl rfl hw (by decide)).1 hnone
  have hfits : e.fits size align = true := by
    unfold Entry.fits
    rw [e.padding_eq_distance (hw.represents.start_lt he) ha ha', hav, Bool.true_and, decide_eq_true_eq]
    have hoff : distance e.start align < align := Nat.mod_lt _ ha
    unfold add32
    omega
  obtain ⟨e₁, hfit⟩ : ∃ e₁, firstFit es size align = some e₁ :=
    Option.isSome_iff_exists.1 (List.find?_isSome.2 ⟨e, he, hfits⟩)
  have heq := kmalloc_some (k := ⟨k₀.ram, ⟨0, []⟩, lo⟩) 0 rfl rfl hw hfit
  rw [hrun] at heq
  cases halloc : alloc_entry e₁.addr (e₁.padding align) size 0 k₀.ram with
  | error f =>
    simp only [halloc] at heq
    cases heq
  | ok pr =>
    obtain ⟨p, r⟩ := pr
    simp only [halloc] at heq
    cases heq
    -- an entry was taken, so something was stored
    have hgrow := (alloc_entry_stores halloc).1
    have hsame : r = k₀.ram := hram
    rw [hsame] at hgrow
    exact Nat.lt_irrefl _ hgrow

/-- And the block does not end with the address space where that goes wrong. -/
theorem Serves.notAtEnd {k₀ : Kheap} (hw : WellFormed k₀.ram lo hi es) (hhi : hi ≤ 2 ^ 32) (hsize : size < 2 ^ 32)
    (ha : 1 ≤ align) (ha' : align < 2 ^ 32) (hserves : Serves lo hi es size align)
    (hfind : es.find? (Entry.suits size align) = some e) : NotAtEnd e size align := by
  by_contra hend
  have hwrap := hserves.noWrap hw hhi ha ha'
  obtain ⟨p, k', hrun, -, htaken, hdvd, hmin⟩ := (hserves ⟨k₀.ram, ⟨0, []⟩, lo⟩ 0 rfl rfl hw (by decide)).2 e hfind
  obtain ⟨hsuits, xs, ys, rfl, -⟩ := List.find?_eq_some_iff_append.1 hfind
  simp only [Entry.suits, Bool.and_eq_true, decide_eq_true_eq] at hsuits
  have hp : p = e.start + distance e.start align :=
    Nat.le_antisymm (hmin _ (Nat.le_add_right _ _) (dvd_add_distance ha)) (add_distance_le ha htaken.1 hdvd)
  rw [kmalloc_some (k := ⟨k₀.ram, ⟨0, []⟩, lo⟩) 0 rfl rfl hw ((firstFit_eq hw hsize ha ha' hwrap).trans hfind),
    e.padding_eq_distance (hw.represents.start_lt (by simp)) ha ha'] at hrun
  cases halloc : alloc_entry e.addr (distance e.start align) size 0 k₀.ram with
  | error f =>
    simp only [halloc] at hrun
    cases hrun
  | ok pr =>
    obtain ⟨q, r⟩ := pr
    simp only [halloc] at hrun
    cases hrun
    rw [hp] at halloc
    exact alloc_entry_at_end hw hhi (by decide) hsuits.2 hend halloc

/-- Where all three conditions hold, the request is served. -/
theorem serves_of_noWrap (hhi : hi ≤ 2 ^ 32) (hsize : size < 2 ^ 32) (ha : 1 ≤ align) (ha' : align < 2 ^ 32)
    (hwrap : NoWrap es size align)
    (hend : ∀ e, es.find? (Entry.suits size align) = some e → NotAtEnd e size align ∧ ClearOfHeader e size align) :
    Serves lo hi es size align := by
  intro k description hk hs hwk hd
  have hfirst := firstFit_eq hwk hsize ha ha' hwrap
  refine ⟨fun hnone => ⟨k.settle k.ram, ?_, rfl⟩, fun e hfind => ?_⟩
  · rw [kmalloc_eq hk, hs, kmalloc_loop_spec hwk.represents, hfirst, hnone]
  · have hsome := kmalloc_some description hk hs hwk (hfirst.trans hfind)
    obtain ⟨hend', hclear⟩ := hend e hfind
    obtain ⟨hsuits, xs, ys, rfl, -⟩ := List.find?_eq_some_iff_append.1 hfind
    simp only [Entry.suits, Bool.and_eq_true, decide_eq_true_eq] at hsuits
    obtain ⟨r, hrun, htaken⟩ := alloc_entry_taken hwk hhi hsize hd hsuits.2 hend' hclear
    rw [e.padding_eq_distance (hwk.represents.start_lt (by simp)) ha ha', hrun] at hsome
    have hst := hwk.start e (by simp)
    exact ⟨_, _, hsome, by omega, htaken, dvd_add_distance ha, fun m hm hdvd => add_distance_le ha hm hdvd⟩

end

/-- `kmalloc` serves a request as it should if no available entry passes the
test with a sum that wrapped, the block does not end with the address space
where it is empty or something would be left behind it, and the header of what
is left does not wrap onto the block's; and only if the first two hold, which
are all there is on a heap that starts behind the first 24 bytes. -/
theorem kmalloc_serves_iff {lo hi size align : Nat} {es : List Entry} {k₀ : Kheap} (hw : WellFormed k₀.ram lo hi es)
    (hhi : hi ≤ 2 ^ 32) (hsize : size < 2 ^ 32) (ha : 1 ≤ align) (ha' : align < 2 ^ 32) :
    (NoWrap es size align →
      (∀ e, es.find? (Entry.suits size align) = some e → NotAtEnd e size align ∧ ClearOfHeader e size align) →
      Serves lo hi es size align) ∧
    (Serves lo hi es size align →
      NoWrap es size align ∧ ∀ e, es.find? (Entry.suits size align) = some e → NotAtEnd e size align) ∧
    (24 ≤ lo → (Serves lo hi es size align ↔
      NoWrap es size align ∧ ∀ e, es.find? (Entry.suits size align) = some e → NotAtEnd e size align)) := by
  have honly : Serves lo hi es size align →
      NoWrap es size align ∧ ∀ e, es.find? (Entry.suits size align) = some e → NotAtEnd e size align := fun hserves =>
    ⟨hserves.noWrap hw hhi ha ha', fun e hfind => hserves.notAtEnd hw hhi hsize ha ha' hfind⟩
  refine ⟨serves_of_noWrap hhi hsize ha ha', honly, fun hlo => ⟨honly, ?_⟩⟩
  rintro ⟨hwrap, hend⟩
  refine serves_of_noWrap hhi hsize ha ha' hwrap fun e hfind => ⟨hend e hfind, ?_⟩
  obtain ⟨hsuits, xs, ys, rfl, -⟩ := List.find?_eq_some_iff_append.1 hfind
  simp only [Entry.suits, Bool.and_eq_true, decide_eq_true_eq] at hsuits
  exact clearOfHeader_of_le hw hhi hlo (by simp) hsuits.2

/-- Both gaps are too small; the block comes to lie in what is behind them. -/
theorem kmalloc_serves_gaps : Serves 0x1000 0x2000 gapEntries 200 64 := by
  refine (kmalloc_serves_iff gapHeap_wellFormed (by decide) (by decide) (by decide) (by decide)).1 ?_ ?_
  · unfold NoWrap
    decide
  · intro e he
    have hlast : e = ⟨0x126c, 0x1284, 3452, true⟩ := (Option.some.inj he).symm
    subst hlast
    unfold NotAtEnd ClearOfHeader
    decide

/-- A heap of 4 KiB, asked for all but 4072 bytes of the address space: the sum is zero, and the
caller gets the address where the heap ends. -/
theorem kmalloc_takes_too_much : ∃ k₀ k₁ : Kheap, WellFormed k₀.ram 0x1000 0x2000 [⟨0x1000, 0x1018, 4072, true⟩] ∧
    k₀.Unlocked ∧ k₀.heap_start = 0x1000 ∧ [⟨0x1000, 0x1018, 4072, true⟩].find?
      (Entry.suits (2 ^ 32 - 4072) 4096) = none ∧
    kmalloc (2 ^ 32 - 4072) 4096 0 k₀ = .ok (0x2000, k₁) := by
  have hrun : ((do setup_heap 0x1000 0x1000; kmalloc (2 ^ 32 - 4072) 4096 0) blank).map Prod.fst = .ok 0x2000 := by
    decide +kernel
  obtain ⟨k₁, h⟩ := Exec.exists_of_map hrun
  obtain ⟨_, k₀, h₀, h₁⟩ := Exec.bind_ok.1 h
  obtain ⟨-, hstart, hk, -⟩ := setup_heap_spec (by decide) (by decide) h₀
  exact ⟨k₀, k₁, new_heap_wellFormed (by decide) (by decide) (by decide) h₀, hk, hstart, by decide, h₁⟩

end Ulmix.Heap

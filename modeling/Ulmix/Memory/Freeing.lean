import Ulmix.Memory.Entries
/-!
# Giving an entry back

`kfree` makes an entry available and joins it with its available neighbours
(`freeEntry`). It follows the links of the neighbours without looking: on the
first entry, on the last one, and in front of a last one that is available, it
ends at a null link (`kfree_entry_null`).
-/
open Ulmix.Lib Ulmix.Sync

namespace Ulmix.Heap

/-! ## Giving an entry back -/

/-- `a` joined with the entry `b` behind it. -/
def Entry.join (a b : Entry) : Entry where
  addr := a.addr
  start := add32 a.addr 24
  size := sub32 (add32 b.start b.size) (add32 a.addr 24)
  available := a.available

@[simp] theorem Entry.join_addr (a b : Entry) : (a.join b).addr = a.addr := rfl

/-- `e`, given back, and `ys` behind it: an available entry there is joined to it. -/
def joinNext (e : Entry) : List Entry → List Entry
  | [] => [e]
  | c :: ys => if c.available then e.join c :: ys else e :: c :: ys

/-- What `kfree` makes of the entry `e` between `a` and the entries `ys`. -/
def freeEntry (a e : Entry) (ys : List Entry) : List Entry :=
  let e := { e with available := true }
  if a.available then joinNext (a.join e) ys else a :: joinNext e ys

/-- `kfree` takes a block of the list for invalid when the size recorded for it is zero. -/
theorem Represents.invalid_iff {r : Ram} {lo : Nat} {es : List Entry} {e : Entry} (h : Represents r lo es) (he : e ∈ es)
    (hav : e.available = false) (hst : e.start ≠ 0) : invalid r e.addr ↔ e.size = 0 := by
  have h1 : field r e.addr .available = 0 := by
    by_contra hne
    rw [(h.available_iff he).1 hne] at hav
    cases hav
  simp [invalid, h1, h.size_eq he, h.start_eq he, hst]

section Free
variable {r : Ram} {lo : Nat} {xs ys : List Entry} {a b c e : Entry} {as : List Nat} {dbg : Bool}

theorem ASSERT_true {x : Exec Ram Bool} (h : dbg → x r = .ok (true, r)) : ASSERT dbg x r = .ok ((), r) := by
  cases dbg with
  | false => rfl
  | true =>
    show (x >>= fun b => if b then pure () else Exec.fault .panic) r = _
    rw [Exec.bind_of_ok (h rfl)]
    rfl

theorem assert_available {first second : Nat} (hf : first ≠ 0) (hs : second ≠ 0)
    (ha : field r first .available ≠ 0) (hb : field r second .available ≠ 0) :
    ASSERT dbg (do
      pure (decide ((← load first .available) ≠ 0 ∧ (← load second .available) ≠ 0))) r = .ok ((), r) :=
  ASSERT_true fun _ => by
    rw [Exec.bind_of_ok (load_eq hf _ _), Exec.bind_of_ok (load_eq hs _ _)]
    simp [ha, hb]

theorem assert_previous {first second : Nat} (hs : second ≠ 0) (hp : field r second .previous = first) :
    ASSERT dbg (do pure (decide ((← load second .previous) = first))) r = .ok ((), r) :=
  ASSERT_true fun _ => by
    rw [Exec.bind_of_ok (load_eq hs _ _)]
    simp [hp]

/-- The memory after `merge_entries`, field by field. -/
theorem merge_entries_run {first second : Nat} (hN : Nodes as) (hf : first ∈ as) (hs : second ∈ as)
    (hz : field r second .next ∈ as) (hne : second ≠ first) (hlt : dbg → first < second)
    (ha : field r first .available ≠ 0) (hb : field r second .available ≠ 0)
    (hp : field r second .previous = first) :
    ∃ r', merge_entries dbg first second r = .ok (first, r') ∧ Ram.Writes (InHdr as) r r' ∧
      ∀ p ∈ as, ∀ f, field r' p f =
        if p = first ∧ f = .size then sub32 (add32 (field r second .start) (field r second .size)) (add32 first 24)
        else if p = field r second .next ∧ f = .previous then first
        else if p = first ∧ f = .start then add32 first 24
        else if p = first ∧ f = .next then field r second .next
        else field r p f := by
  have hf0 := (hN.hdr _ hf).1
  have hf24 := (hN.hdr _ hf).2
  have hs0 := (hN.hdr _ hs).1
  have hz0 := (hN.hdr _ hz).1
  have hz24 := (hN.hdr _ hz).2
  set z := field r second .next with hzdef
  set v := sub32 (add32 (field r second .start) (field r second .size)) (add32 first 24) with hv
  have h1 : ∀ p ∈ as, ∀ f, field (setField r first .next z) p f = if p = first ∧ f = .next then z else field r p f :=
    fun p hp f => hN.field_setField hf hp (field_lt _ _ _) _ _
  set r1 := setField r first .next z
  have h2 : ∀ p ∈ as, ∀ f, field (setField r1 first .start (add32 first 24)) p f =
      if p = first ∧ f = .start then add32 first 24 else field r1 p f :=
    fun p hp f => hN.field_setField hf hp (add32_lt _ _) _ _
  set r2 := setField r1 first .start (add32 first 24)
  have h3 : ∀ p ∈ as, ∀ f, field (setField r2 z .previous first) p f =
      if p = z ∧ f = .previous then first else field r2 p f :=
    fun p hp f => hN.field_setField hz hp (by omega) _ _
  set r3 := setField r2 z .previous first
  have h4 : ∀ p ∈ as, ∀ f, field (setField r3 first .size v) p f =
      if p = first ∧ f = .size then v else field r3 p f :=
    fun p hp f => hN.field_setField hf hp (sub32_lt _ _) _ _
  have hlt' : ASSERT dbg (pure (decide (first < second))) r = .ok ((), r) := ASSERT_true fun hd => by simp [hlt hd]
  have hz2 : field r2 second .next = z := by simp [h2 second hs, h1 second hs, hne, hzdef]
  have hst3 : field r3 second .start = field r second .start := by simp [h3 second hs, h2 second hs, h1 second hs, hne]
  have hsz3 : field r3 second .size = field r second .size := by simp [h3 second hs, h2 second hs, h1 second hs]
  have hfs3 : field r3 first .start = add32 first 24 := by simp [h3 first hf, h2 first hf]
  refine ⟨setField r3 first .size v, ?_, ?_, fun p hp f => ?_⟩
  · unfold merge_entries
    rw [Exec.bind_of_ok hlt', Exec.bind_of_ok (assert_available hf0 hs0 ha hb),
      Exec.bind_of_ok (assert_previous hs0 hp), Exec.bind_of_ok (load_eq hs0 _ _),
      Exec.bind_of_ok (store_eq hf0 _ _ _), headerSize, Exec.bind_of_ok (store_eq hf0 _ _ _),
      Exec.bind_of_ok (load_eq hs0 _ _), hz2, Exec.bind_of_ok (store_eq hz0 _ _ _),
      Exec.bind_of_ok (load_eq hs0 _ _), hst3, Exec.bind_of_ok (load_eq hs0 _ _), hsz3,
      Exec.bind_of_ok (load_eq hf0 _ _), hfs3, Exec.bind_of_ok (store_eq hf0 _ _ _)]
    rfl
  · exact writes_setField hf hf24 _ _ (writes_setField hz hz24 _ _ (writes_setField hf hf24 _ _
      (writes_setField hf hf24 _ _ (.refl _ _))))
  · rw [h4 p hp, h3 p hp, h2 p hp, h1 p hp]

/-- `merge_entries` joins two neighbours, when something follows them. -/
theorem merge_entries_spec (h : Represents r lo (xs ++ a :: b :: c :: ys)) (ha : a.available) (hb : b.available)
    (hlt : dbg → a.addr < b.addr) :
    ∃ r', merge_entries dbg a.addr b.addr r = .ok (a.addr, r') ∧ Represents r' lo (xs ++ a.join b :: c :: ys) ∧
      Ram.Writes (InHdr ((xs ++ a :: b :: c :: ys).map Entry.addr)) r r' := by
  have ham : a ∈ xs ++ a :: b :: c :: ys := by simp
  have hbm : b ∈ xs ++ a :: b :: c :: ys := by simp
  have hb' : Represents r lo ((xs ++ [a]) ++ b :: c :: ys) := by simpa using h
  have hnext : field r b.addr .next = c.addr := by simpa using hb'.next_eq
  have hprev : field r b.addr .previous = a.addr := by simpa using hb'.previous_eq
  have hnd := h.nodes.nodup
  simp only [List.map_append, List.map_cons] at hnd
  have hba : b.addr ≠ a.addr := by grind
  obtain ⟨r', hr, hw, hf⟩ := merge_entries_run h.nodes (List.mem_map_of_mem ham) (List.mem_map_of_mem hbm)
    (by rw [hnext]; simp) hba hlt ((h.available_iff ham).2 ha) ((h.available_iff hbm).2 hb) hprev
  rw [hnext, h.start_eq hbm, h.size_eq hbm] at hf
  have hsub : (xs.map Entry.addr ++ a.addr :: c.addr :: ys.map Entry.addr).Sublist
      ((xs ++ a :: b :: c :: ys).map Entry.addr) := by simp
  refine ⟨r', hr, ⟨by simpa using h.nodes.sub hsub, ?_, fun x hx => ?_⟩, hw⟩
  · obtain ⟨l, hd⟩ := h.linked
    simp only [List.map_append, List.map_cons, Entry.join_addr] at hd ⊢
    refine Dll.unlink_next (b := b.addr) (by simpa using hnd) hd (fun x hx => ?_) (fun x hx => ?_)
    · have hx' := hsub.subset hx
      simp [nextOf, hf x hx', hnext]
    · have hx' := hsub.subset hx
      simp [previousOf, hf x hx', eq_comm]
  · have hother : ∀ y ∈ xs ++ c :: ys, entryAt r' y.addr = y := fun y hy => by
      have hy' : y ∈ xs ++ a :: b :: c :: ys := by simp at hy ⊢; tauto
      have hya : y.addr ≠ a.addr := by
        have := List.mem_map_of_mem (f := Entry.addr) hy
        simp only [List.map_append, List.map_cons] at this
        grind
      refine (entryAt_congr fun f hl => ?_).trans (h.holds y hy')
      rw [hf _ (List.mem_map_of_mem hy')]
      cases f <;> simp_all [Field.isLink]
    rcases List.mem_append.1 hx with hx | hx
    · exact hother x (by simp [hx])
    · rcases List.mem_cons.1 hx with rfl | hx
      · have haf := hf a.addr (List.mem_map_of_mem ham)
        have hav := h.available_iff ham
        simp_all [entryAt, Entry.join]
      · exact hother x (by simp at hx ⊢; tauto)

theorem merge_previous_available (h : Represents r lo (xs ++ a :: b :: ys)) (ha : a.available) :
    merge_previous dbg b.addr r = merge_entries dbg a.addr b.addr r := by
  have h' : Represents r lo ((xs ++ [a]) ++ b :: ys) := by simpa using h
  have hprev : field r b.addr .previous = a.addr := by simpa using h'.previous_eq
  unfold merge_previous
  rw [Exec.bind_of_ok (h.load_field (by simp) _), hprev, Exec.bind_of_ok (h.load_field (by simp) _),
    if_pos ((h.available_iff (by simp)).2 ha), Exec.bind_of_ok (h.load_field (by simp) _), hprev]

theorem merge_previous_keep (h : Represents r lo (xs ++ a :: b :: ys)) (ha : ¬ a.available) :
    merge_previous dbg b.addr r = .ok (b.addr, r) := by
  have h' : Represents r lo ((xs ++ [a]) ++ b :: ys) := by simpa using h
  have hprev : field r b.addr .previous = a.addr := by simpa using h'.previous_eq
  unfold merge_previous
  rw [Exec.bind_of_ok (h.load_field (by simp) _), hprev, Exec.bind_of_ok (h.load_field (by simp) _),
    if_neg (fun hav => ha ((h.available_iff (by simp)).1 hav))]
  rfl

theorem merge_previous_spec (h : Represents r lo (xs ++ a :: b :: c :: ys)) (hb : b.available)
    (hlt : dbg → a.addr < b.addr) :
    ∃ r', merge_previous dbg b.addr r = .ok (if a.available then a.addr else b.addr, r') ∧
      Represents r' lo (xs ++ if a.available then a.join b :: c :: ys else a :: b :: c :: ys) ∧
      Ram.Writes (InHdr ((xs ++ a :: b :: c :: ys).map Entry.addr)) r r' := by
  by_cases ha : a.available
  · rw [merge_previous_available h ha, if_pos ha, if_pos ha]
    exact merge_entries_spec h ha hb hlt
  · rw [merge_previous_keep h ha, if_neg ha, if_neg ha]
    exact ⟨r, rfl, h, .refl _ _⟩

theorem merge_next_spec (h : Represents r lo (xs ++ b :: c :: ys)) (hb : b.available) (hys : c.available → ys ≠ [])
    (hlt : dbg → b.addr < c.addr) :
    ∃ r', merge_next dbg b.addr r = .ok ((), r') ∧ Represents r' lo (xs ++ joinNext b (c :: ys)) ∧
      Ram.Writes (InHdr ((xs ++ b :: c :: ys).map Entry.addr)) r r' := by
  have hbm : b ∈ xs ++ b :: c :: ys := by simp
  have hcm : c ∈ xs ++ b :: c :: ys := by simp
  have hnext : field r b.addr .next = c.addr := by simpa using h.next_eq
  unfold merge_next
  rw [Exec.bind_of_ok (h.load_field hbm _), hnext, Exec.bind_of_ok (h.load_field hcm _)]
  by_cases hc : c.available
  · obtain ⟨d, zs, rfl⟩ := List.exists_cons_of_ne_nil (hys hc)
    obtain ⟨r', hr, hrep, hw⟩ := merge_entries_spec h hb hc hlt
    refine ⟨r', ?_, by simpa [joinNext, hc] using hrep, hw⟩
    rw [if_pos ((h.available_iff hcm).2 hc), Exec.bind_of_ok (h.load_field hbm _), hnext, Exec.bind_of_ok hr]
    rfl
  · refine ⟨r, ?_, by simpa [joinNext, hc] using h, .refl _ _⟩
    rw [if_neg (fun h' => hc ((h.available_iff hcm).1 h'))]
    rfl

/-- The first two stores of `kfree_entry`. -/
theorem kfree_entry_mark (h : Represents r lo (xs ++ e :: ys)) (dbg : Bool) :
    ∃ r', kfree_entry dbg e.addr r = (merge_previous dbg e.addr >>= merge_next dbg) r' ∧
      Represents r' lo (xs ++ { e with available := true } :: ys) ∧
      Ram.Writes (InHdr ((xs ++ e :: ys).map Entry.addr)) r r' := by
  have hm : e.addr ∈ (xs ++ e :: ys).map Entry.addr := by simp
  obtain ⟨r1, h1, hr1, hw1, -⟩ := h.store_field (f := .available) rfl (v := 1) (by decide) hm
  obtain ⟨r2, h2, hr2, hw2, -⟩ := hr1.store_field (f := .description) rfl (v := 0) (by decide) hm
  rw [Entry.set_addr] at h2
  refine ⟨r2, ?_, by simpa [Entry.set] using hr2, hw1.trans hw2⟩
  unfold kfree_entry
  rw [Exec.bind_of_ok h1, Exec.bind_of_ok h2]

/-- The order a debug build asserts of the headers it joins: `a` in front of `e`, and what becomes of the two in
front of `c`. -/
def InOrder (a : Option Entry) (e : Entry) (c : Option Entry) : Prop :=
  ∀ x ∈ a, x.addr < e.addr ∧ ∀ y ∈ c, (if x.available then x.addr else e.addr) < y.addr

theorem InOrder.of_lt (h : a.addr < e.addr ∧ e.addr < c.addr) : InOrder (some a) e (some c) := by
  rintro x ⟨⟩
  refine ⟨h.1, ?_⟩
  rintro y ⟨⟩
  split
  · exact h.1.trans h.2
  · exact h.2

theorem InOrder.of_pairwise (h : (xs ++ e :: ys).Pairwise fun a b => a.addr < b.addr) :
    InOrder xs.getLast? e ys.head? := by
  intro x hx
  have hxe : x.addr < e.addr := (List.pairwise_append.1 h).2.2 x (List.mem_of_mem_getLast? hx) e (by simp)
  refine ⟨hxe, fun y hy => ?_⟩
  have hey : e.addr < y.addr := List.rel_of_pairwise_cons (List.pairwise_append.1 h).2.1 (List.mem_of_mem_head? hy)
  split
  · exact hxe.trans hey
  · exact hey

/-- `kfree` makes the entry available and joins it with its available neighbours, when it is
neither the first one nor followed by nothing but one available entry. -/
theorem kfree_entry_spec (h : Represents r lo (xs ++ a :: e :: c :: ys)) (hys : c.available → ys ≠ [])
    (hlt : dbg → InOrder (some a) e (some c)) :
    ∃ r', kfree_entry dbg e.addr r = .ok ((), r') ∧ Represents r' lo (xs ++ freeEntry a e (c :: ys)) ∧
      Ram.Writes (InHdr ((xs ++ a :: e :: c :: ys).map Entry.addr)) r r' := by
  have h' : Represents r lo ((xs ++ [a]) ++ e :: c :: ys) := by simpa using h
  obtain ⟨r2, h2, hr2, hw2⟩ := kfree_entry_mark h' dbg
  rw [List.append_assoc, List.singleton_append] at hr2 hw2
  obtain ⟨r3, h3, hr3, hw3⟩ := merge_previous_spec hr2 rfl (fun hd => (hlt hd a rfl).1)
  rw [h2, Exec.bind_of_ok h3]
  have hjoined := fun hd => (hlt hd a rfl).2 c rfl
  have hw : Ram.Writes (InHdr ((xs ++ a :: e :: c :: ys).map Entry.addr)) r r3 := hw2.trans (by simpa using hw3)
  by_cases ha : a.available
  · rw [if_pos ha] at hr3 ⊢
    rw [if_pos ha] at hjoined
    obtain ⟨r4, h4, hr4, hw4⟩ := merge_next_spec hr3 ha hys hjoined
    refine ⟨r4, h4, by simpa [freeEntry, ha] using hr4, hw.trans (hw4.mono fun b hb => hb.sub ?_)⟩
    simp
  · rw [if_neg ha] at hr3 ⊢
    rw [if_neg ha] at hjoined
    have hr3' : Represents r3 lo ((xs ++ [a]) ++ { e with available := true } :: c :: ys) := by simpa using hr3
    obtain ⟨r4, h4, hr4, hw4⟩ := merge_next_spec hr3' rfl hys hjoined
    exact ⟨r4, h4, by simpa [freeEntry, ha] using hr4, hw.trans (by simpa using hw4)⟩

/-! ## Where `kfree` follows a null link -/

/-- `merge_entries` writes through `second->next`. -/
theorem merge_entries_null (h : Represents r lo (xs ++ [a, b])) (ha : a.available) (hb : b.available)
    (hlt : dbg → a.addr < b.addr) : merge_entries dbg a.addr b.addr r = .error .nullDeref := by
  have ham : a ∈ xs ++ [a, b] := by simp
  have hbm : b ∈ xs ++ [a, b] := by simp
  have ha0 := h.addr_ne ham
  have hb0 := h.addr_ne hbm
  have h' : Represents r lo ((xs ++ [a]) ++ [b]) := by simpa using h
  have hnext : field r b.addr .next = 0 := by simpa using h'.next_eq
  have hprev : field r b.addr .previous = a.addr := by simpa using h'.previous_eq
  have hlt' : ASSERT dbg (pure (decide (a.addr < b.addr))) r = .ok ((), r) := ASSERT_true fun hd => by simp [hlt hd]
  have hba : b.addr ≠ a.addr := by
    have := h.nodes.nodup
    simp only [List.map_append, List.map_cons] at this
    grind
  have hnext2 : field (setField (setField r a.addr .next 0) a.addr .start (add32 a.addr 24)) b.addr .next = 0 := by
    rw [h.nodes.field_setField (List.mem_map_of_mem ham) (List.mem_map_of_mem hbm) (add32_lt _ _),
      if_neg (by simp [hba]),
      h.nodes.field_setField (List.mem_map_of_mem ham) (List.mem_map_of_mem hbm) (by decide),
      if_neg (by simp [hba]), hnext]
  unfold merge_entries
  rw [Exec.bind_of_ok hlt',
    Exec.bind_of_ok (assert_available ha0 hb0 ((h.available_iff ham).2 ha) ((h.available_iff hbm).2 hb)),
    Exec.bind_of_ok (assert_previous hb0 hprev), Exec.bind_of_ok (load_eq hb0 _ _), hnext,
    Exec.bind_of_ok (store_eq ha0 _ _ _), headerSize, Exec.bind_of_ok (store_eq ha0 _ _ _),
    Exec.bind_of_ok (load_eq hb0 _ _), hnext2]
  rfl

theorem merge_next_null (h : Represents r lo (xs ++ b :: ys)) (hb : b.available)
    (hys : ys = [] ∨ ∃ c, ys = [c] ∧ c.available ∧ (dbg → b.addr < c.addr)) :
    merge_next dbg b.addr r = .error .nullDeref := by
  have hbm : b ∈ xs ++ b :: ys := by simp
  have hnext := h.next_eq
  unfold merge_next
  rw [Exec.bind_of_ok (h.load_field hbm _), hnext]
  rcases hys with rfl | ⟨c, rfl, hc, hlt⟩
  · exact Exec.bind_of_error rfl
  · have hcm : c ∈ xs ++ [b, c] := by simp
    show (load c.addr .available >>= _) r = _
    rw [Exec.bind_of_ok (h.load_field hcm _), if_pos ((h.available_iff hcm).2 hc), Exec.bind_of_ok (h.load_field hbm _),
      hnext]
    exact Exec.bind_of_error (merge_entries_null h hb hc hlt)

/-- An entry `kfree` can handle: it has neighbours, and an available one behind it is not the last. -/
def Inner (xs ys : List Entry) : Prop := xs ≠ [] ∧ ∃ c zs, ys = c :: zs ∧ (c.available → zs ≠ [])

/-- On every other entry `kfree` follows a null link. -/
theorem kfree_entry_null (h : Represents r lo (xs ++ e :: ys)) (hn : ¬ Inner xs ys)
    (hlt : dbg → InOrder xs.getLast? e ys.head?) : kfree_entry dbg e.addr r = .error .nullDeref := by
  obtain ⟨r2, h2, hr2, -⟩ := kfree_entry_mark h dbg
  rw [h2]
  have hem : { e with available := true } ∈ xs ++ { e with available := true } :: ys := by simp
  rcases List.eq_nil_or_concat xs with rfl | ⟨ws, a, rfl⟩
  · have hprev : field r2 e.addr .previous = 0 := hr2.previous_eq
    refine Exec.bind_of_error ?_
    unfold merge_previous
    rw [Exec.bind_of_ok (hr2.load_field hem _), hprev]
    exact Exec.bind_of_error rfl
  · rw [List.concat_eq_append] at hr2 hlt hn hem
    rw [List.append_assoc, List.singleton_append] at hr2 hem
    rw [List.getLast?_concat] at hlt
    have hae : dbg → a.addr < e.addr := fun hd => (hlt hd a rfl).1
    by_cases ha : a.available
    · cases ys with
      | nil => exact Exec.bind_of_error ((merge_previous_available hr2 ha).trans (merge_entries_null hr2 ha rfl hae))
      | cons c zs =>
        obtain ⟨hc, rfl⟩ : c.available ∧ zs = [] := by
          simpa [Inner] using hn
        obtain ⟨r3, h3, hr3, -⟩ := merge_previous_spec hr2 rfl hae
        rw [if_pos ha] at h3 hr3
        rw [Exec.bind_of_ok h3]
        have hac : dbg → a.addr < c.addr := fun hd => by
          have hjoined := (hlt hd a rfl).2 c rfl
          rwa [if_pos ha] at hjoined
        exact merge_next_null (b := a.join _) hr3 ha (.inr ⟨c, rfl, hc, hac⟩)
    · rw [Exec.bind_of_ok (merge_previous_keep hr2 ha)]
      have hr2' : Represents r2 lo ((ws ++ [a]) ++ { e with available := true } :: ys) := by simpa using hr2
      refine merge_next_null hr2' rfl ?_
      cases ys with
      | nil => exact .inl rfl
      | cons c zs =>
        obtain ⟨hc, rfl⟩ : c.available ∧ zs = [] := by
          simpa [Inner] using hn
        have hec : dbg → e.addr < c.addr := fun hd => by
          have hjoined := (hlt hd a rfl).2 c rfl
          rwa [if_neg ha] at hjoined
        exact .inr ⟨c, rfl, hc, hec⟩

/-- A debug build stops where the available entry in front does not lie in front. -/
theorem kfree_entry_panic (h : Represents r lo (xs ++ a :: e :: ys)) (ha : a.available) (hlt : ¬ a.addr < e.addr) :
    kfree_entry true e.addr r = .error .panic := by
  have h' : Represents r lo ((xs ++ [a]) ++ e :: ys) := by simpa using h
  obtain ⟨r2, h2, hr2, -⟩ := kfree_entry_mark h' true
  rw [List.append_assoc, List.singleton_append] at hr2
  have hassert : ASSERT true (pure (decide (a.addr < e.addr))) r2 = .error .panic := by
    rw [decide_eq_false hlt]
    rfl
  rw [h2]
  exact Exec.bind_of_error ((merge_previous_available hr2 ha).trans (Exec.bind_of_error hassert))

end Free

end Ulmix.Heap

import Ulmix.Memory.RoundTrip
/-!
# A freed block and its neighbours (`kernel/memory/kfree.c`)

Each side of a freed block may have an available entry to join it with, so
`kfree` merges not at all, once or twice. In every case one entry takes the
place of the block and what it was joined with (`Merged`); the list stays well
formed, and no two available entries come to lie side by side. A header that
was merged away still says that it is available, and that is what a second
`kfree` of the same pointer finds.
-/
open Ulmix.Lib Ulmix.Sync

namespace Ulmix.Heap

/-! ## One entry in the place of several -/

/-- `m` is one available entry from the first of `front`, `e` and `behind` up to the
end of the last; all of `front` and `behind` were available, and no neighbour is. -/
structure Merged (before front : List Entry) (e : Entry) (behind after : List Entry) (m : Entry) : Prop where
  addr : (front ++ [e]).head?.map (·.addr) = some m.addr
  start : m.start = m.addr + 24
  stop : ((e :: behind).getLast?.map fun x => x.start + x.size) = some (m.start + m.size)
  available : m.available
  taken : ∀ x ∈ front ++ behind, x.available
  left : ∀ x ∈ before.getLast?, ¬ x.available
  right : ∀ x ∈ after.head?, ¬ x.available

section
variable {r r' : Ram} {lo hi : Nat} {xs ys before front behind after : List Entry} {a e c m : Entry}

theorem Tidy.left (h : Tidy (xs ++ e :: ys)) (he : e.available) : ∀ x ∈ xs.getLast?, ¬ x.available := by
  intro x hx
  obtain ⟨ws, rfl⟩ := List.getLast?_eq_some_iff.1 hx
  rw [List.append_assoc] at h
  exact h.before he

theorem Tidy.right (h : Tidy (xs ++ e :: ys)) (he : e.available) : ∀ x ∈ ys.head?, ¬ x.available := by
  intro x hx
  obtain ⟨zs, rfl⟩ := List.head?_eq_some_iff.1 hx
  exact h.after he

/-- An entry reaches up to the header behind it. -/
theorem WellFormed.stop_eq (h : WellFormed r lo hi (xs ++ e :: c :: ys)) : e.start + e.size = c.addr := by
  obtain ⟨b, -, hb, hrest⟩ := Tiles.at_cell.1 h.tiles
  exact hb.trans hrest.1.symm

theorem WellFormed.merged (h : WellFormed r lo hi (before ++ front ++ e :: (behind ++ after)))
    (hr : Represents r' lo (before ++ m :: after)) (hm : Merged before front e behind after m) :
    WellFormed r' lo hi (before ++ m :: after) := by
  have hlist : before ++ front ++ e :: (behind ++ after) = before ++ ((front ++ e :: behind) ++ after) := by simp
  rw [hlist] at h
  obtain ⟨f, more, hfront⟩ : ∃ f more, front ++ e :: behind = f :: more ∧ f.addr = m.addr := by
    have haddr := hm.addr
    cases front with
    | nil => exact ⟨e, behind, rfl, Option.some.inj haddr⟩
    | cons f front => exact ⟨f, front ++ e :: behind, rfl, Option.some.inj haddr⟩
  obtain ⟨init, l, hback⟩ : ∃ init l, front ++ e :: behind = init ++ [l] ∧ l.start + l.size = m.start + m.size := by
    have hstop := hm.stop
    rcases behind.eq_nil_or_concat with rfl | ⟨bs, l, rfl⟩
    · exact ⟨front, e, rfl, Option.some.inj hstop⟩
    · rw [List.concat_eq_append, ← List.cons_append, List.getLast?_concat] at hstop
      refine ⟨front ++ e :: bs, l, by simp, Option.some.inj hstop⟩
  have hsub : (before ++ f :: after).Sublist (before ++ ((front ++ e :: behind) ++ after)) := by
    rw [hfront.1]
    simp
  refine ⟨hr, ?_, ?_, ?_⟩
  · have hinc := List.pairwise_map.2 h.increasing
    have hinc' := hinc.sublist (hsub.map Entry.addr)
    rw [List.map_append, List.map_cons, hfront.2, ← List.map_cons (f := Entry.addr), ← List.map_append] at hinc'
    exact List.pairwise_map.1 hinc'
  · intro x hx
    rcases List.mem_append.1 hx with hx | hx
    · exact h.start x (List.mem_append_left _ hx)
    · rcases List.mem_cons.1 hx with rfl | hx
      · exact hm.start.ge
      · exact h.start x (List.mem_append_right _ (List.mem_append_right _ hx))
  · obtain ⟨b₁, h₁, h₂⟩ := Tiles.append.1 h.tiles
    obtain ⟨b₂, hmid, h₃⟩ := Tiles.append.1 h₂
    have hb₁ : m.addr = b₁ := by
      rw [hfront.1] at hmid
      exact hfront.2.symm.trans hmid.1
    have hb₂ : m.start + m.size = b₂ := by
      rw [hback.1] at hmid
      exact hback.2.symm.trans hmid.last_eq
    exact Tiles.append.2 ⟨b₁, h₁, hb₁, b₂, hb₂, h₃⟩

theorem Tidy.merged (h : Tidy (before ++ front ++ e :: (behind ++ after))) (hm : Merged before front e behind after m) :
    Tidy (before ++ m :: after) := by
  obtain ⟨hbefore, hrest, -⟩ := List.isChain_append.1 (List.append_assoc before front _ ▸ h.apart)
  have hafter : after.IsChain fun a b => ¬ (a.available ∧ b.available) := by
    have hlist : front ++ e :: (behind ++ after) = (front ++ e :: behind) ++ after := by simp
    rw [hlist] at hrest
    exact (List.isChain_append.1 hrest).2.1
  refine ⟨fun x hx hav => ?_, List.isChain_append.2 ⟨hbefore, ?_, fun x hx y _ hxy => hm.left x hx hxy.1⟩⟩
  · rcases List.mem_append.1 hx with hx | hx
    · exact h.behind x (by simp [hx]) hav
    · rcases List.mem_cons.1 hx with rfl | hx
      · exact hm.start
      · exact h.behind x (by simp [hx]) hav
  · cases after with
    | nil => exact .singleton m
    | cons y after => exact List.isChain_cons_cons.2 ⟨fun hmy => hm.right y rfl hmy.2, hafter⟩

/-! ## The four cases -/

/-- Two neighbours joined: from the header of the first to the end of the second. -/
theorem Entry.join_space (ha : a.addr + 24 < 2 ^ 32) (hab : a.addr + 24 ≤ c.start) (hc : c.start + c.size < 2 ^ 32) :
    (a.join c).start = a.addr + 24 ∧ (a.join c).start + (a.join c).size = c.start + c.size := by
  have h1 : add32 a.addr 24 = a.addr + 24 := add32_eq ha
  have h2 : add32 c.start c.size = c.start + c.size := add32_eq hc
  have h3 : sub32 (c.start + c.size) (a.addr + 24) = c.start + c.size - (a.addr + 24) := sub32_eq hc (by omega)
  unfold Entry.join
  dsimp only
  rw [h1, h2, h3]
  omega

/-- What `kfree` makes of a block between two entries. -/
theorem freeEntry_merged {ws zs : List Entry} (hw : WellFormed r lo hi (ws ++ a :: e :: c :: zs))
    (ht : Tidy (ws ++ a :: e :: c :: zs)) (hlast : c.available → zs ≠ []) (hst : e.start = e.addr + 24) :
    ∃ before front behind after m, ws ++ [a] = before ++ front ∧ c :: zs = behind ++ after ∧
      ws ++ freeEntry a e (c :: zs) = before ++ m :: after ∧ Merged before front e behind after m := by
  have hae := hw.stop_eq
  have hw' : WellFormed r lo hi ((ws ++ [a]) ++ e :: c :: zs) := by simpa using hw
  have hec := hw'.stop_eq
  have hclt := hw.represents.addr_le (e := c) (by simp)
  have hast := hw.start a (by simp)
  have hcst := hw.start c (by simp)
  have ht' : Tidy ((ws ++ [a, e]) ++ c :: zs) := by simpa using ht
  have hright := ht'.right
  -- an available entry behind the block is not the last one, so it ends below 4 GiB
  have hcend : c.available → c.start + c.size < 2 ^ 32 := by
    intro hc
    obtain ⟨d, zs', rfl⟩ := List.exists_cons_of_ne_nil (hlast hc)
    have hw'' : WellFormed r lo hi ((ws ++ [a, e]) ++ c :: d :: zs') := by simpa using hw
    have hd := hw''.represents.addr_le (e := d) (by simp)
    rw [hw''.stop_eq]
    omega
  have hjoin := Entry.join_space (a := a) (c := { e with available := true }) (by omega)
      (show a.addr + 24 ≤ e.start by omega)
    (show e.start + e.size < 2 ^ 32 by omega)
  by_cases ha : a.available <;> by_cases hc : c.available
  · obtain ⟨h1, h2⟩ := hjoin
    have h3 := Entry.join_space (a := a.join { e with available := true }) (c := c)
      (show a.addr + 24 < 2 ^ 32 by omega) (show a.addr + 24 ≤ c.start by omega) (hcend hc)
    refine ⟨ws, [a], [c], zs, Entry.join (a.join { e with available := true }) c, rfl, rfl,
      by simp [freeEntry, joinNext, ha, hc],
      rfl, h3.1, congrArg some h3.2.symm, ha, by simp [ha, hc], ht.left ha, hright hc⟩
  · refine ⟨ws, [a], [], c :: zs, a.join { e with available := true }, rfl, rfl, by simp [freeEntry, joinNext, ha, hc],
      rfl, hjoin.1, congrArg some hjoin.2.symm, ha, by simp [ha], ht.left ha, ?_⟩
    rintro x ⟨⟩
    exact hc
  · have h3 := Entry.join_space (a := { e with available := true }) (c := c) (show e.addr + 24 < 2 ^ 32 by omega)
      (show e.addr + 24 ≤ c.start by omega) (hcend hc)
    refine ⟨ws ++ [a], [], [c], zs, Entry.join { e with available := true } c, by simp, rfl,
      by simp [freeEntry, joinNext, ha, hc], rfl, h3.1, congrArg some h3.2.symm, rfl, by simp [hc], ?_, hright hc⟩
    intro x hx
    rw [List.getLast?_concat] at hx
    cases hx
    exact ha
  · refine ⟨ws ++ [a], [], [], c :: zs, { e with available := true }, by simp, rfl,
      by simp [freeEntry, joinNext, ha, hc], rfl, hst, rfl, rfl, by simp, ?_, ?_⟩
    · intro x hx
      rw [List.getLast?_concat] at hx
      cases hx
      exact ha
    · rintro x ⟨⟩
      exact hc

/-! ## The header left behind -/

variable {dbg : Bool} {as : List Nat}

/-- Merging writes no `available`, in no header of the list, merged away or not. -/
theorem merge_entries_available (hN : Nodes as) (h : Represents r lo (xs ++ a :: e :: c :: ys))
    (hsub : ∀ x ∈ xs ++ a :: e :: c :: ys, x.addr ∈ as) (ha : a.available) (he : e.available)
    (hlt : dbg → a.addr < e.addr) {u : Nat} (hrun : merge_entries dbg a.addr e.addr r = .ok (u, r')) :
    ∀ p ∈ as, field r' p .available = field r p .available := by
  have ham : a ∈ xs ++ a :: e :: c :: ys := by simp
  have hem : e ∈ xs ++ a :: e :: c :: ys := by simp
  have he' : Represents r lo ((xs ++ [a]) ++ e :: c :: ys) := by simpa using h
  have hnext : field r e.addr .next = c.addr := by simpa using he'.next_eq
  have hprev : field r e.addr .previous = a.addr := by simpa using he'.previous_eq
  have hne : e.addr ≠ a.addr := by
    have hnd := h.nodes.nodup
    simp only [List.map_append, List.map_cons] at hnd
    grind
  obtain ⟨r₁, hrun₁, -, hf⟩ := merge_entries_run hN (hsub a ham) (hsub e hem)
      (by rw [hnext]; exact hsub c (by simp)) hne
    hlt ((h.available_iff ham).2 ha) ((h.available_iff hem).2 he) hprev
  rw [hrun] at hrun₁
  cases hrun₁
  intro p hp
  simp [hf p hp]

/-- The header of the block says afterwards that it is available, whatever it was joined with. -/
theorem kfree_entry_available (h : Represents r lo (xs ++ a :: e :: c :: ys)) (hys : c.available → ys ≠ [])
    (hlt : dbg → a.addr < e.addr ∧ e.addr < c.addr) (hrun : kfree_entry dbg e.addr r = .ok ((), r')) :
    field r' e.addr .available ≠ 0 := by
  have h' : Represents r lo ((xs ++ [a]) ++ e :: c :: ys) := by simpa using h
  obtain ⟨r₂, h₂, hr₂, -⟩ := kfree_entry_mark h' dbg
  rw [List.append_assoc, List.singleton_append] at hr₂
  rw [h₂] at hrun
  obtain ⟨n, r₃, hprevious, hnext⟩ := Exec.bind_ok.1 hrun
  set e' : Entry := { e with available := true } with he'
  have hN := hr₂.nodes
  have hsub : ∀ x ∈ xs ++ a :: e' :: c :: ys, x.addr ∈ (xs ++ a :: e' :: c :: ys).map Entry.addr :=
    fun x hx => List.mem_map_of_mem hx
  have hmem : e.addr ∈ (xs ++ a :: e' :: c :: ys).map Entry.addr := hsub e' (by simp)
  have hmark : field r₂ e.addr .available ≠ 0 := (hr₂.available_iff (e := e') (by simp)).2 rfl
  -- the first merge, if there is one
  have hthird : field r₃ e.addr .available ≠ 0 ∧ ∃ ws b, n = b.addr ∧ b.available ∧
      Represents r₃ lo (ws ++ b :: c :: ys) ∧ (dbg → b.addr < c.addr) ∧
      ∀ x ∈ ws ++ b :: c :: ys, x.addr ∈ (xs ++ a :: e' :: c :: ys).map Entry.addr := by
    obtain ⟨r₄, hrun₄, hr₄, -⟩ := merge_previous_spec hr₂ rfl fun hd => (hlt hd).1
    rw [hprevious] at hrun₄
    cases hrun₄
    by_cases ha : a.available
    · rw [merge_previous_available hr₂ ha] at hprevious
      rw [if_pos ha] at hr₄
      have hkeep := merge_entries_available hN hr₂ hsub ha rfl (fun hd => (hlt hd).1) hprevious _ hmem
      refine ⟨hkeep ▸ hmark, xs, a.join e', if_pos ha, ha, hr₄, fun hd => (hlt hd).1.trans (hlt hd).2, ?_⟩
      intro x hx
      rcases List.mem_append.1 hx with hx | hx
      · exact hsub x (by simp [hx])
      · rcases List.mem_cons.1 hx with rfl | hx
        · exact hsub a (by simp)
        · exact hsub x (List.mem_append_right _ (List.mem_cons_of_mem _ (List.mem_cons_of_mem _ hx)))
    · rw [merge_previous_keep hr₂ ha] at hprevious
      injection hprevious with hpair
      injection hpair with hn hr
      subst hr
      refine ⟨hmark, xs ++ [a], e', if_neg ha, rfl, by simpa using hr₂, fun hd => (hlt hd).2, ?_⟩
      intro x hx
      exact hsub x (by simpa using hx)
  obtain ⟨hthird, ws, b, rfl, hb, hr₃, hlt₃, hsub₃⟩ := hthird
  unfold merge_next at hnext
  have hnb : field r₃ b.addr .next = c.addr := by simpa using hr₃.next_eq
  have hbm : b ∈ ws ++ b :: c :: ys := by simp
  have hcm : c ∈ ws ++ b :: c :: ys := by simp
  rw [Exec.bind_of_ok (hr₃.load_field hbm _), hnb, Exec.bind_of_ok (hr₃.load_field hcm _)] at hnext
  by_cases hc : c.available
  · obtain ⟨d, zs, rfl⟩ := List.exists_cons_of_ne_nil (hys hc)
    rw [if_pos ((hr₃.available_iff hcm).2 hc), Exec.bind_of_ok (hr₃.load_field hbm _), hnb] at hnext
    obtain ⟨u, r₅, hmerge, hend⟩ := Exec.bind_ok.1 hnext
    cases hend
    rw [merge_entries_available hN hr₃ hsub₃ hb hc hlt₃ hmerge _ hmem]
    exact hthird
  · rw [if_neg fun h => hc ((hr₃.available_iff hcm).1 h)] at hnext
    cases hnext
    exact hthird

end

/-- A call of `kfree` that returns joins the block with its available neighbours
into one entry, and leaves a well-formed list without available neighbours; the
same call once more stores nothing. -/
theorem kfree_merges {dbg : Bool} {lo hi : Nat} {xs ys : List Entry} {e : Entry} {k k' : Kheap} (hk : k.Unlocked)
    (hs : k.heap_start = lo) (hw : WellFormed k.ram lo hi (xs ++ e :: ys)) (ht : Tidy (xs ++ e :: ys))
    (hav : e.available = false) (hz : e.size ≠ 0) (hst : e.start = e.addr + 24)
    (hrun : kfree dbg e.start k = .ok ((), k')) :
    ∃ before front behind after m, xs = before ++ front ∧ ys = behind ++ after ∧ Merged before front e behind after m ∧
      WellFormed k'.ram lo hi (before ++ m :: after) ∧ Tidy (before ++ m :: after) ∧ k'.entries = before ++ m :: after ∧
      ∃ k'', kfree dbg e.start k' = .ok ((), k'') ∧ k''.ram = k'.ram ∧ k''.heap_start = k'.heap_start := by
  have hem : e ∈ xs ++ e :: ys := by simp
  have he0 := hw.represents.addr_ne hem
  have hlt := hw.represents.start_lt hem
  have hne : ¬ invalid k.ram e.addr := fun h => hz ((hw.represents.invalid_iff hem hav (by omega)).1 h)
  have haddr : e.start - 24 = e.addr := by omega
  rw [kfree_eq hk dbg (show 24 < e.start by omega) hlt, haddr, if_neg hne] at hrun
  -- a call that returns met no null link
  have hin : Inner xs ys := by
    by_contra hin
    rw [kfree_entry_null hw.represents hin fun _ => .of_pairwise hw.increasing] at hrun
    cases hrun
  obtain ⟨hxs, c, zs, rfl, hlast⟩ := hin
  obtain ⟨ws, a, rfl⟩ := (xs.eq_nil_or_concat).resolve_left hxs
  rw [List.concat_eq_append] at hw ht ⊢
  have hw' : WellFormed k.ram lo hi (ws ++ a :: e :: c :: zs) := by simpa using hw
  have ht' : Tidy (ws ++ a :: e :: c :: zs) := by simpa using ht
  have hord : dbg → a.addr < e.addr ∧ e.addr < c.addr := fun _ =>
    ⟨List.rel_of_pairwise_cons (List.pairwise_append.1 hw'.increasing).2.1 (by simp),
      List.rel_of_pairwise_cons (List.pairwise_cons.1 (List.pairwise_append.1 hw'.increasing).2.1).2 (by simp)⟩
  obtain ⟨r, hfree, hr, -⟩ := kfree_entry_spec hw'.represents hlast fun hd => .of_lt (hord hd)
  have hstale := kfree_entry_available hw'.represents hlast hord hfree
  rw [hfree] at hrun
  cases hrun
  obtain ⟨before, front, behind, after, m, hfront, hbehind, hlist, hm⟩ := freeEntry_merged hw' ht' hlast hst
  rw [hlist] at hr
  rw [hfront, hbehind] at hw ht
  refine ⟨before, front, behind, after, m, hfront, hbehind, hm, hw.merged hr hm, ht.merged hm,
    hr.entries_eq (k := k.settle r) hs, (k.settle r).settle r, ?_, rfl, rfl⟩
  have hinv : invalid r e.addr := by simp [invalid, hstale]
  have hagain := kfree_eq (k := k.settle r) rfl dbg (show 24 < e.start by omega) hlt
  rw [hagain, haddr]
  exact if_pos hinv

/-! ## Between two gaps -/

/-- The block in the middle is joined with both gaps. -/
theorem kfree_merges_gaps : ∃ k', kfree true 0x1110 gapHeap = .ok ((), k') ∧
    k'.entries = [⟨0x1000, 0x1018, 100, false⟩, ⟨0x107c, 0x1094, 348, true⟩, ⟨0x11f0, 0x1208, 100, false⟩,
      ⟨0x126c, 0x1284, 3452, true⟩] ∧
    WellFormed k'.ram 0x1000 0x2000 k'.entries ∧ Tidy k'.entries := by
  have hrun : ((do kfree true 0x1110; let k ← get; pure k.entries) gapHeap).map Prod.fst =
      .ok [⟨0x1000, 0x1018, 100, false⟩, ⟨0x107c, 0x1094, 348, true⟩, ⟨0x11f0, 0x1208, 100, false⟩,
        ⟨0x126c, 0x1284, 3452, true⟩] := by decide +kernel
  obtain ⟨k'', h⟩ := Exec.exists_of_map hrun
  obtain ⟨_, k', hfree, h⟩ := Exec.bind_ok.1 h
  obtain ⟨k, k₁, hget, h⟩ := Exec.bind_ok.1 h
  cases hget
  injection h with hpair
  injection hpair with hentries
  have hk : gapHeap.heap_mtx.locked = 0 := by decide +kernel
  have hs : gapHeap.heap_start = 0x1000 := by decide +kernel
  have hw : WellFormed gapHeap.ram 0x1000 0x2000 (gapEntries.take 2 ++ ⟨0x10f8, 0x1110, 100, false⟩ ::
      gapEntries.drop 3) :=
    gapHeap_wellFormed
  obtain ⟨before, front, behind, after, m, -, -, -, hw', ht', hlist, -⟩ :=
    kfree_merges hk hs hw gapEntries_tidy rfl (by decide) rfl hfree
  exact ⟨k', hfree, hentries, hlist ▸ hw', hlist ▸ ht'⟩

end Ulmix.Heap

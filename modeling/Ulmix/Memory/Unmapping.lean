import Ulmix.Memory.Regions
/-!
# Deleting and moving a region (`kernel/memory/mmap.c`)

Both functions first take the region out of the list by writing to the regions
on either side of it. There is no test for the end of the list and none for the
head pointer, so only a region with one before it and one behind can be taken
out (`unlink_region_run`); the first and the last end at a null pointer.
`mm_mod_region` looks for conflicts when its region is already out, and does not
put it back.
-/
open Ulmix.Lib

namespace Ulmix.Regions

/-! ## Model -/

def SUCCESS : Int := 0
def ECONFLICT : Int := 135

/-- What `kfree` of a block comes to in the heap as it is. It writes to headers
of heap entries only, and no `mmr_struct` lies over one. -/
abbrev Kfree := Nat → Except Fault Unit

def kfree (f : Kfree) (ptr : Nat) : Exec Vma Unit := fun s => (f ptr).map fun u => (u, s)

/-- `ASSERT(0)` -/
def assert_false (debug : Bool) : Exec Vma Unit := if debug then Exec.fault .panic else pure ()

/-- The two statements both functions begin with. -/
def unlink_region (region : Nat) : Exec Vma Unit := do
  let next_region := (← load_mmr region).next_region
  store_mmr (← load_mmr region).prev_region fun r => { r with next_region := next_region }
  let prev_region := (← load_mmr region).prev_region
  store_mmr (← load_mmr region).next_region fun r => { r with prev_region := prev_region }

def mm_del_region (debug : Bool) (f : Kfree) (_mmap region : Nat) : Exec Vma Unit := do
  unlink_region region
  assert_false debug
  kfree f region

def mm_mod_region (debug : Bool) (mmap region new_start new_end new_flags : Nat) : Exec Vma Int := do
  unlink_region region
  if ← mm_conflicts (← load_user_regions mmap) new_start new_end then pure (-ECONFLICT)
  else
    store_mmr region fun r => { r with start := new_start }
    store_mmr region fun r => { r with end_addr := new_end }
    store_mmr region fun r => { r with size := sub32 new_end new_start }
    store_mmr region fun r => { r with next_region := 0 }
    store_mmr region fun r => { r with prev_region := 0 }
    store_mmr region fun r => { r with flags := new_flags }
    let existing ← load_user_regions mmap
    store_user_regions mmap region
    if existing ≠ 0 then
      store_mmr existing fun r => { r with prev_region := region }
      store_mmr region fun r => { r with next_region := existing }
    assert_false debug
    pure SUCCESS

/-! ## Taking a region out -/

/-- The state with the nodes `q` and `n` linked to each other. -/
def Vma.unlinked (s : Vma) (q n : Nat) : Vma where
  mmr := Function.update (Function.update s.mmr q { s.mmr q with next_region := n }) n
    { s.mmr n with prev_region := q }
  user_regions := s.user_regions
  kmallocs := s.kmallocs

section Unlink
variable {h : Kmalloc} {c mm n : Nat} {s : Vma} {pre post : List Region} {p q r : Region}

theorem unlink_region_ok {a q n : Nat} (ha : a ≠ 0) (hq : (s.mmr a).prev_region = q) (hn : (s.mmr a).next_region = n)
    (hq0 : q ≠ 0) (hn0 : n ≠ 0) (haq : a ≠ q) (hqn : q ≠ n) : unlink_region a s = .ok ((), s.unlinked q n) := by
  unfold unlink_region
  rw [Exec.bind_of_ok (load_mmr_run ha s), Exec.bind_of_ok (load_mmr_run ha s), hq, hn]
  refine (Exec.bind_of_ok (store_mmr_run hq0 _ s)).trans ?_
  refine (Exec.bind_of_ok (load_mmr_run ha _)).trans ?_
  refine (Exec.bind_of_ok (load_mmr_run ha _)).trans ?_
  dsimp only
  rw [Function.update_of_ne haq, hq, hn, store_mmr_run hn0]
  unfold Vma.unlinked
  dsimp only
  rw [Function.update_of_ne (Ne.symm hqn)]

/-- A region without one before it ends at a null pointer. -/
theorem unlink_region_first {a : Nat} (ha : a ≠ 0) (hq : (s.mmr a).prev_region = 0) :
    unlink_region a s = .error .nullDeref := by
  unfold unlink_region
  rw [Exec.bind_of_ok (load_mmr_run ha s), Exec.bind_of_ok (load_mmr_run ha s), hq]
  rfl

/-- So does a region with none behind it, once the one before it is the last. -/
theorem unlink_region_last {a q : Nat} (ha : a ≠ 0) (hq : (s.mmr a).prev_region = q) (hn : (s.mmr a).next_region = 0)
    (hq0 : q ≠ 0) (haq : a ≠ q) : unlink_region a s = .error .nullDeref := by
  unfold unlink_region
  rw [Exec.bind_of_ok (load_mmr_run ha s), Exec.bind_of_ok (load_mmr_run ha s), hq, hn]
  refine (Exec.bind_of_ok (store_mmr_run hq0 _ s)).trans ?_
  refine (Exec.bind_of_ok (load_mmr_run ha _)).trans ?_
  refine (Exec.bind_of_ok (load_mmr_run ha _)).trans ?_
  dsimp only
  rw [Function.update_of_ne haq, hn]
  rfl

theorem Holds.distinct_at (hs : Holds h c s mm (pre ++ p :: r :: q :: post)) :
    r.addr ≠ p.addr ∧ p.addr ≠ q.addr ∧ r.addr ≠ q.addr := by
  have hd := hs.distinct
  simp only [List.map_append, List.map_cons] at hd
  obtain ⟨-, hd, -⟩ := List.nodup_append.1 hd
  simp only [List.nodup_cons, List.mem_cons, not_or] at hd
  exact ⟨fun h => hd.1.1 h.symm, hd.1.2.1, hd.2.1.1⟩

/-- A region between two others can be taken out. -/
theorem Holds.unlink_region_run (hs : Holds h c s mm (pre ++ p :: r :: q :: post)) (hf : Fresh h c s.kmallocs) :
    unlink_region r.addr s = .ok ((), s.unlinked p.addr q.addr) := by
  obtain ⟨l, hd⟩ := hs.listed
  rw [List.map_append, List.map_cons, List.map_cons, List.map_cons] at hd
  have hprev := Dll.prev_eq hd
  have hnext : (s.mmr r.addr).next_region = q.addr := by
    have hd' := hd
    rw [← List.singleton_append (x := p.addr), ← List.append_assoc] at hd'
    exact Dll.next_eq hd'
  obtain ⟨hrp, hpq, -⟩ := hs.distinct_at
  have hne : ∀ r' ∈ pre ++ p :: r :: q :: post, r'.addr ≠ 0 := fun r' hr' => hs.addr_ne hf le_rfl hr'
  exact unlink_region_ok (hne r (by simp)) hprev hnext (hne p (by simp)) (hne q (by simp)) hrp hpq

/-- Any other cannot. -/
theorem Holds.unlink_region_null (hs : Holds h c s mm (pre ++ r :: post)) (hf : Fresh h c s.kmallocs)
    (hend : pre = [] ∨ post = []) : unlink_region r.addr s = .error .nullDeref := by
  obtain ⟨l, hd⟩ := hs.listed
  rw [List.map_append, List.map_cons] at hd
  have hne : ∀ r' ∈ pre ++ r :: post, r'.addr ≠ 0 := fun r' hr' => hs.addr_ne hf le_rfl hr'
  have hr0 := hne r (by simp)
  rcases pre.eq_nil_or_concat with rfl | ⟨init, p, rfl⟩
  · exact unlink_region_first hr0 (Dll.prev_first hd)
  · rcases hend with h | rfl
    · simp at h
    · rw [List.concat_eq_append, List.map_append, List.append_assoc] at hd
      have hnext : (s.mmr r.addr).next_region = 0 := by
        rw [← List.append_assoc] at hd
        exact Dll.next_last hd
      have hdist := hs.distinct
      simp only [List.concat_eq_append, List.map_append, List.map_cons, List.map_nil] at hdist
      have hrp : r.addr ≠ p.addr := by
        rw [List.append_assoc] at hdist
        obtain ⟨-, hdist, -⟩ := List.nodup_append.1 hdist
        simp only [List.singleton_append, List.nodup_cons, List.mem_singleton] at hdist
        exact fun h => hdist.1 h.symm
      exact unlink_region_last hr0 (Dll.prev_eq hd) hnext (hne p (by simp)) hrp

theorem unlinked_mmr {a q n : Nat} (s : Vma) (hqn : q ≠ n) :
    (s.unlinked q n).mmr a = { s.mmr a with
      next_region := if a = q then n else (s.mmr a).next_region
      prev_region := if a = n then q else (s.mmr a).prev_region } := by
  unfold Vma.unlinked
  dsimp only
  by_cases hn : a = n
  · subst hn
    rw [Function.update_self, if_pos rfl, if_neg (Ne.symm hqn)]
  · rw [Function.update_of_ne hn, if_neg hn]
    by_cases hq : a = q
    · subst hq
      rw [Function.update_self, if_pos rfl]
    · rw [Function.update_of_ne hq, if_neg hq]

/-- The others are then the regions of the address space. -/
theorem Holds.unlinked (hs : Holds h c s mm (pre ++ p :: r :: q :: post)) :
    Holds h c (s.unlinked p.addr q.addr) mm (pre ++ p :: q :: post) := by
  obtain ⟨hrp, hpq, hrq⟩ := hs.distinct_at
  have hsub : (pre ++ p :: q :: post).Sublist (pre ++ p :: r :: q :: post) :=
    (List.Sublist.refl pre).append ((List.sublist_cons_self r _).cons_cons p)
  refine ⟨?_, ?_, fun r' hr' => hs.proper r' (hsub.subset hr'), hs.disjoint.sublist hsub,
    hs.distinct.sublist (hsub.map _), fun r' hr' => hs.made r' (hsub.subset hr')⟩
  · obtain ⟨l, hd⟩ := hs.listed
    have hdist := hs.distinct
    rw [List.map_append, List.map_cons, List.map_cons] at hd hdist
    rw [List.map_append, List.map_cons]
    have hnext : (s.mmr r.addr).next_region = q.addr := by
      have hd' := hd
      rw [← List.singleton_append (x := p.addr), ← List.append_assoc] at hd'
      exact Dll.next_eq hd'
    refine hd.unlink_next hdist (fun a _ => ?_) fun a _ => ?_
    · rw [unlinked_mmr s hpq, hnext]
    · rw [unlinked_mmr s hpq, List.map_cons, List.head?_cons]
      simp only [Option.some.injEq, eq_comm]
  · intro r' hr'
    have hst := hs.stored r' (hsub.subset hr')
    rw [unlinked_mmr s hpq]
    exact ⟨hst.start, hst.stop, hst.size, hst.flags⟩

end Unlink

/-! ## The two calls -/

/-- What is left of the list when `r` is taken out of it. -/
theorem split_around {pre post : List Region} (hpre : pre ≠ []) (hpost : post ≠ []) :
    ∃ init p q rest, pre = init ++ [p] ∧ post = q :: rest := by
  obtain ⟨q, rest, rfl⟩ := List.exists_cons_of_ne_nil hpost
  exact ⟨pre.dropLast, pre.getLast hpre, q, rest, (List.dropLast_append_getLast hpre).symm, rfl⟩

section Calls
variable {h : Kmalloc} {c mm : Nat} {s : Vma} {pre post : List Region} {r : Region}

/-- No other region has an address of `r`. -/
theorem Holds.notMem (hs : Holds h c s mm (pre ++ r :: post)) {a : Nat} (ha : r.Has a) :
    ∀ r' ∈ pre ++ post, ¬ r'.Has a := by
  intro r' hr' ha'
  have hsub : r' ∈ pre ++ r :: post := by
    rcases List.mem_append.1 hr' with h | h
    · exact List.mem_append_left _ h
    · exact List.mem_append_right _ (List.mem_cons_of_mem _ h)
  obtain rfl := hs.unique (by simp) hsub ha ha'
  have hd := hs.distinct
  rw [List.map_append, List.map_cons, List.nodup_middle, List.nodup_cons, ← List.map_append] at hd
  exact hd.1 (List.mem_map_of_mem hr')

/-- The list without `r`, which is between two others. -/
theorem Holds.removed (hs : Holds h c s mm (pre ++ r :: post)) (hf : Fresh h c s.kmallocs) (hpre : pre ≠ [])
    (hpost : post ≠ []) :
    ∃ t, unlink_region r.addr s = .ok ((), t) ∧ Holds h c t mm (pre ++ post) ∧ t.kmallocs = s.kmallocs ∧
      ∃ p ∈ pre, (t.mmr p.addr).next_region ≠ (s.mmr p.addr).next_region := by
  obtain ⟨init, p, q, rest, rfl, rfl⟩ := split_around hpre hpost
  rw [List.append_assoc, List.singleton_append] at hs ⊢
  obtain ⟨hrp, hpq, hrq⟩ := hs.distinct_at
  refine ⟨_, hs.unlink_region_run hf, hs.unlinked, rfl, p, by simp, ?_⟩
  obtain ⟨l, hd⟩ := hs.listed
  rw [List.map_append, List.map_cons, List.map_cons] at hd
  rw [unlinked_mmr s hpq, Dll.next_eq hd]
  dsimp only
  rw [if_pos rfl]
  exact Ne.symm hrq

/-- `mm_del_region` leaves the other regions, in their order, and `r` is found no more. -/
def Deletes (h : Kmalloc) (c : Nat) (f : Kfree) (s : Vma) (mm : Nat) (pre : List Region) (r : Region)
    (post : List Region) : Prop :=
  ∃ t, mm_del_region false f mm r.addr s = .ok ((), t) ∧ Holds h c t mm (pre ++ post) ∧
    ∀ a, r.Has a → mm_find_region mm a t = .ok (0, t)

theorem Holds.deletes_iff (hs : Holds h c s mm (pre ++ r :: post)) (hf : Fresh h c s.kmallocs) (hmm : mm ≠ 0)
    (f : Kfree) : Deletes h c f s mm pre r post ↔ pre ≠ [] ∧ post ≠ [] ∧ f r.addr = .ok () := by
  unfold Deletes mm_del_region
  by_cases hend : pre = [] ∨ post = []
  · have hnull := hs.unlink_region_null hf hend
    constructor
    · rintro ⟨t, hrun, -⟩
      rw [Exec.bind_of_error hnull] at hrun
      cases hrun
    · rintro ⟨hpre, hpost, -⟩
      exact absurd hend (by simp [hpre, hpost])
  · obtain ⟨hpre, hpost⟩ := not_or.1 hend
    obtain ⟨t, hrun, ht, hk, -⟩ := hs.removed hf hpre hpost
    have hf' : Fresh h c t.kmallocs := hk ▸ hf
    have hcall : (do unlink_region r.addr; assert_false false; kfree f r.addr : Exec Vma Unit) s
        = (f r.addr).map fun u => (u, t) := Exec.bind_of_ok hrun
    rw [hcall]
    constructor
    · rintro ⟨t', hok, -⟩
      refine ⟨hpre, hpost, ?_⟩
      cases hfr : f r.addr with
      | ok u => rfl
      | error e =>
        rw [hfr] at hok
        cases hok
    · rintro ⟨-, -, hfr⟩
      refine ⟨t, by rw [hfr]; rfl, ht, fun a ha => ?_⟩
      rcases ht.mm_find_region_run hf' le_rfl hmm a with ⟨r', hr', ha', -⟩ | ⟨-, hfind⟩
      · exact absurd ha' (hs.notMem ha r' hr')
      · exact hfind

/-- Nothing that `mm_find_region` or a walk over the list sees has changed. -/
structure Untouched (s t : Vma) (mm : Nat) (rs : List Region) : Prop where
  head : t.user_regions mm = s.user_regions mm
  regions : ∀ r ∈ rs, t.mmr r.addr = s.mmr r.addr
  found : ∀ a b, mm_find_region mm a s = .ok (b, s) → mm_find_region mm a t = .ok (b, t)

/-- `mm_mod_region` returns, with `-ECONFLICT` exactly if another region is met,
and then everything is as before. -/
def Refuses (s : Vma) (mm : Nat) (pre : List Region) (r : Region) (post : List Region)
    (new_start new_end new_flags : Nat) : Prop :=
  ∃ code t, mm_mod_region false mm r.addr new_start new_end new_flags s = .ok (code, t) ∧
    (code = -ECONFLICT ↔ ∃ r' ∈ pre ++ post, r'.Meets new_start new_end) ∧
    (code = -ECONFLICT → Untouched s t mm (pre ++ r :: post))

/-- Without a conflict the region is put in front again. -/
theorem mm_mod_region_free {a : Nat} {t : Vma} {new_start new_end : Nat} (new_flags : Nat) (ha : a ≠ 0) (hmm : mm ≠ 0)
    (hrun : unlink_region a s = .ok ((), t))
    (hfree : mm_conflicts (t.user_regions mm) new_start new_end t = .ok (false, t)) :
    ∃ t', mm_mod_region false mm a new_start new_end new_flags s = .ok (SUCCESS, t') := by
  unfold mm_mod_region
  rw [Exec.bind_of_ok hrun, Exec.bind_of_ok (load_user_regions_run hmm t), Exec.bind_of_ok hfree,
    if_neg Bool.false_ne_true]
  simp only [Exec.bind_of_ok (store_mmr_run ha _ _), Exec.bind_of_ok (load_user_regions_run hmm _),
    Exec.bind_of_ok (store_user_regions_run hmm _ _)]
  by_cases he : t.user_regions mm = 0
  · rw [if_neg (not_not_intro he)]
    exact ⟨_, rfl⟩
  · simp only [if_pos he, Exec.bind_of_ok (store_mmr_run he _ _), Exec.bind_of_ok (store_mmr_run ha _ _)]
    exact ⟨_, rfl⟩

/-- With one, the region is left out of the list. -/
theorem mm_mod_region_conflict {a : Nat} {t : Vma} {new_start new_end : Nat} (new_flags : Nat) (hmm : mm ≠ 0)
    (hrun : unlink_region a s = .ok ((), t))
    (hconf : mm_conflicts (t.user_regions mm) new_start new_end t = .ok (true, t)) :
    mm_mod_region false mm a new_start new_end new_flags s = .ok (-ECONFLICT, t) := by
  unfold mm_mod_region
  rw [Exec.bind_of_ok hrun, Exec.bind_of_ok (load_user_regions_run hmm t), Exec.bind_of_ok hconf]
  rfl

theorem Holds.refuses_iff (hs : Holds h c s mm (pre ++ r :: post)) (hf : Fresh h c s.kmallocs) (hmm : mm ≠ 0)
    {new_start new_end : Nat} (new_flags : Nat) (hlt : new_start < new_end) :
    Refuses s mm pre r post new_start new_end new_flags ↔
      pre ≠ [] ∧ post ≠ [] ∧ ¬ ∃ r' ∈ pre ++ post, r'.Meets new_start new_end := by
  have ha : r.addr ≠ 0 := hs.addr_ne hf le_rfl (by simp)
  unfold Refuses
  by_cases hend : pre = [] ∨ post = []
  · have hnull := hs.unlink_region_null hf hend
    constructor
    · rintro ⟨code, t, hrun, -⟩
      unfold mm_mod_region at hrun
      rw [Exec.bind_of_error hnull] at hrun
      cases hrun
    · rintro ⟨hpre, hpost, -⟩
      exact absurd hend (by simp [hpre, hpost])
  · obtain ⟨hpre, hpost⟩ := not_or.1 hend
    obtain ⟨t, hrun, ht, hk, p, hp, hchanged⟩ := hs.removed hf hpre hpost
    obtain ⟨b, hconf, hb⟩ := ht.mm_conflicts_run (hk ▸ hf) le_rfl hlt
    by_cases hmeet : ∃ r' ∈ pre ++ post, r'.Meets new_start new_end
    · -- refused, but `r` is out of the list
      rw [hb.2 hmeet] at hconf
      have hcall := mm_mod_region_conflict new_flags hmm hrun hconf
      refine iff_of_false ?_ fun h => h.2.2 hmeet
      rintro ⟨code, t', hok, -, hsame⟩
      rw [hcall] at hok
      cases hok
      apply hchanged
      rw [(hsame rfl).regions p (List.mem_append_left _ hp)]
    · have hfalse : b = false := by
        cases b with
        | false => rfl
        | true => exact absurd (hb.1 rfl) hmeet
      rw [hfalse] at hconf
      obtain ⟨t', hok⟩ := mm_mod_region_free new_flags ha hmm hrun hconf
      have hcode : SUCCESS ≠ -ECONFLICT := by decide
      exact iff_of_true ⟨_, t', hok, iff_of_false hcode hmeet, fun h => absurd h hcode⟩ ⟨hpre, hpost, hmeet⟩

end Calls

/-- In a release build `mm_del_region` takes a region out of a list made by
`mm_mk_region` if and only if there is a region before it and one behind it, and
`kfree` takes its block back. -/
theorem mm_del_region_iff {h : Kmalloc} {mm : Nat} {s₀ s : Vma} (hmm : mm ≠ 0) (h0 : s₀.user_regions mm = 0)
    (hr : Run (Step h s₀.kmallocs mm) s₀ s) (f : Kfree) :
    ∃ rs, Holds h s₀.kmallocs s mm rs ∧ ∀ pre r post, rs = pre ++ r :: post →
      (Deletes h s₀.kmallocs f s mm pre r post ↔ pre ≠ [] ∧ post ≠ [] ∧ f r.addr = .ok ()) := by
  obtain ⟨rs, hs, hf, -⟩ := holds_of_run hmm h0 hr
  refine ⟨rs, hs, ?_⟩
  rintro pre r post rfl
  exact hs.deletes_iff hf hmm f

/-! ## Three regions -/

/-- The one in the middle can be deleted. -/
theorem mm_del_region_middle : ∃ s p q r, Run (Step rowHeap 0 4) emptyVma s ∧
    Deletes rowHeap 0 (fun _ => .ok ()) s 4 [⟨p, 0x5000, 0x6000, 1⟩]
      ⟨q, 0x3000, 0x4000, 1⟩ [⟨r, 0x1000, 0x2000, 1⟩] := by
  obtain ⟨s, p, q, r, hr, hk, hs⟩ := three_regions
  obtain ⟨rs, hs', hdel⟩ := mm_del_region_iff (by decide) (show emptyVma.user_regions 4 = 0 from rfl) hr fun _ => .ok ()
  obtain rfl := hs'.list_eq hs (rowHeap_fresh _ (by omega)).1
  exact ⟨s, p, q, r, hr, (hdel [_] _ [_] rfl).2 ⟨by simp, by simp, rfl⟩⟩

/-- The only one cannot. -/
theorem mm_del_region_only : ∃ s p, Run (Step rowHeap 0 4) emptyVma s ∧
    Holds rowHeap 0 s 4 [⟨p, 0x1000, 0x2000, 1⟩] ∧
    mm_del_region false (fun _ => .ok ()) 4 p s = .error .nullDeref := by
  obtain ⟨s, p, hr, hs, hk⟩ := mk_region_more .start (Holds.start rowHeap (s := emptyVma) rfl) (by decide)
    0x1000 0x2000 (by decide) (by decide) (by simp)
  have hk : s.kmallocs = 1 := hk
  have hs' : Holds rowHeap 0 s 4 ([] ++ ⟨p, 0x1000, 0x2000, 1⟩ :: []) := hs
  exact ⟨s, p, hr, hs, Exec.bind_of_error (hs'.unlink_region_null (rowHeap_fresh _ (by omega)).1 (.inl rfl))⟩

/-- `mm_mod_region` follows no null link, refuses exactly the intervals that
meet another region and leaves everything as it was when it does, if and only if
there is a region before it and one behind it, and there is nothing to refuse. -/
theorem mm_mod_region_iff {h : Kmalloc} {mm : Nat} {s₀ s : Vma} (hmm : mm ≠ 0) (h0 : s₀.user_regions mm = 0)
    (hr : Run (Step h s₀.kmallocs mm) s₀ s) :
    ∃ rs, Holds h s₀.kmallocs s mm rs ∧ ∀ pre r post, rs = pre ++ r :: post →
      ∀ new_start new_end new_flags, new_start < new_end →
        (Refuses s mm pre r post new_start new_end new_flags ↔
          pre ≠ [] ∧ post ≠ [] ∧ ¬ ∃ r' ∈ pre ++ post, r'.Meets new_start new_end) := by
  obtain ⟨rs, hs, hf, -⟩ := holds_of_run hmm h0 hr
  refine ⟨rs, hs, ?_⟩
  rintro pre r post rfl new_start new_end new_flags hlt
  exact hs.refuses_iff hf hmm new_flags hlt

/-- The one in the middle can be moved behind the last. -/
theorem mm_mod_region_middle : ∃ s p q r, Run (Step rowHeap 0 4) emptyVma s ∧
    Refuses s 4 [⟨p, 0x5000, 0x6000, 1⟩] ⟨q, 0x3000, 0x4000, 1⟩ [⟨r, 0x1000, 0x2000, 1⟩] 0x7000 0x8000 1 := by
  obtain ⟨s, p, q, r, hr, hk, hs⟩ := three_regions
  obtain ⟨rs, hs', hmod⟩ := mm_mod_region_iff (by decide) (show emptyVma.user_regions 4 = 0 from rfl) hr
  obtain rfl := hs'.list_eq hs (rowHeap_fresh _ (by omega)).1
  refine ⟨s, p, q, r, hr, (hmod [_] _ [_] rfl 0x7000 0x8000 1 (by decide)).2 ⟨by simp, by simp, ?_⟩⟩
  rintro ⟨r', hr', a, ⟨-, ha⟩, ha', -⟩
  have hstop : r'.stop ≤ 0x6000 := by
    rcases List.mem_cons.1 hr' with rfl | hr'
    · exact Nat.le_refl 0x6000
    · rw [List.mem_singleton.1 hr']
      exact Nat.le_of_ble_eq_true rfl
  omega

/-- Moved onto the last it is refused, and found no more at its old place; the
first ends at a null pointer. -/
theorem mm_mod_region_loses : ∃ s t p q r, Run (Step rowHeap 0 4) emptyVma s ∧ q ≠ 0 ∧
    mm_find_region 4 0x3000 s = .ok (q, s) ∧
    mm_mod_region false 4 q 0x1000 0x2000 1 s = .ok (-ECONFLICT, t) ∧ mm_find_region 4 0x3000 t = .ok (0, t) ∧
    Holds rowHeap 0 s 4 [⟨p, 0x5000, 0x6000, 1⟩, ⟨q, 0x3000, 0x4000, 1⟩, ⟨r, 0x1000, 0x2000, 1⟩] ∧
    mm_mod_region false 4 p 0x7000 0x8000 1 s = .error .nullDeref := by
  obtain ⟨s, p, q, r, hr, hk, hs⟩ := three_regions
  have hf : Fresh rowHeap 0 s.kmallocs := (rowHeap_fresh _ (by omega)).1
  have hs' : Holds rowHeap 0 s 4 ([⟨p, 0x5000, 0x6000, 1⟩] ++ ⟨q, 0x3000, 0x4000, 1⟩ :: [⟨r, 0x1000, 0x2000, 1⟩]) := hs
  obtain ⟨t, hrun, ht, hkt, -⟩ := hs'.removed hf (by simp) (by simp)
  have hft : Fresh rowHeap 0 t.kmallocs := hkt ▸ hf
  have hin : (⟨q, 0x3000, 0x4000, 1⟩ : Region).Has 0x3000 := ⟨Nat.le_refl 0x3000, by show 0x3000 < 0x4000; decide⟩
  have hq : q ≠ 0 := hs.addr_ne hf le_rfl (r := ⟨q, 0x3000, 0x4000, 1⟩) (by simp)
  refine ⟨s, t, p, q, r, hr, hq, ?_, ?_, ?_, hs, ?_⟩
  · rcases hs.mm_find_region_run hf le_rfl (by decide) 0x3000 with ⟨r', -, -, huniq, hfind⟩ | ⟨hnone, -⟩
    · rw [← huniq ⟨q, 0x3000, 0x4000, 1⟩ (by simp) hin] at hfind
      exact hfind
    · exact absurd hin (hnone _ (by simp))
  · obtain ⟨b, hconf, hb⟩ := ht.mm_conflicts_run hft le_rfl (show 0x1000 < 0x2000 by decide)
    have hin' : (⟨r, 0x1000, 0x2000, 1⟩ : Region).Has 0x1000 := ⟨Nat.le_refl 0x1000, by show 0x1000 < 0x2000; decide⟩
    rw [hb.2 ⟨_, List.mem_append_right _ List.mem_cons_self, 0x1000, hin', le_rfl, by decide⟩] at hconf
    exact mm_mod_region_conflict 1 (by decide) hrun hconf
  · rcases ht.mm_find_region_run hft le_rfl (by decide) 0x3000 with ⟨r', hr', ha', -⟩ | ⟨-, hfind⟩
    · exact absurd ha' (hs'.notMem hin r' hr')
    · exact hfind
  · have hs'' : Holds rowHeap 0 s 4 ([] ++ ⟨p, 0x5000, 0x6000, 1⟩ ::
        [⟨q, 0x3000, 0x4000, 1⟩, ⟨r, 0x1000, 0x2000, 1⟩]) := hs
    exact Exec.bind_of_error (hs''.unlink_region_null hf (.inl rfl))

end Ulmix.Regions

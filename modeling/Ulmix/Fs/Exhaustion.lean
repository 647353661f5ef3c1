import Ulmix.Fs.Volumes
import Ulmix.Memory.Regions
import Ulmix.Arch.Tables
/-!
# When the heap has nothing to give

No caller looks at what `kmalloc` returned. In the driver every call that gets
null is followed by an access through it, or by a `kfree` of it that keeps the
lock of the heap, before an error can be returned: a function that returns an
error was refused nothing (`ext2_mount_refused`). The same holds, call by call,
for regions and page tables, so running out of memory is reported only where it
does not happen (`out_of_memory`).
-/
open Ulmix.Lib Ulmix.Lib.Prog

namespace Ulmix.Fs

/-- `kmalloc` has refused `c` calls so far. -/
def RefusedIs (c : Nat) (s : Vfs) : Prop := s.refused = c

/-- A fault is no report. -/
def anyFault : Fault → Vfs → Prop := fun _ _ => True

theorem faulted {P : Vfs → Prop} : ∀ e s, P s → anyFault e s := fun _ _ _ => trivial

section
variable {env : Env} {c : Nat}

theorem kmalloc_refused {size : Nat} {kind : Kind} :
    Sat (RefusedIs c) (kmalloc env size kind) (fun p s => p ≠ 0 → RefusedIs c s) anyFault := by
  refine kmalloc_sat (fun s hs hp => ?_) (fun _ _ _ => trivial)
  unfold Vfs.allocated
  rw [if_neg hp]
  exact hs

/-- An allocation that failed leaves a null payload. -/
theorem alloc_inode_refused {e : Nat} :
    Sat (RefusedIs c) (alloc_inode env e) (fun _ s => (s.direntries e).payload ≠ 0 → RefusedIs c s) anyFault := by
  refine .bind (load_direntry_sat faulted) fun d => ?_
  refine .ite (fun _ => ?_) fun _ => .pure fun s h _ => h.2.2
  refine .bind (kmalloc_refused.pre fun _ h => h.2.2) fun p => ?_
  refine store_direntry_sat (fun s h _ => ?_) faulted
  dsimp only
  rw [Function.update_self]
  exact h

theorem direntry_get_inode_refused {e : Nat} :
    Sat (RefusedIs c) (direntry_get_inode env e) (fun p s => p ≠ 0 → RefusedIs c s) anyFault := by
  refine .bind alloc_inode_refused fun _ => ?_
  refine .bind (load_direntry_sat faulted) fun d => ?_
  refine .pre (P := fun s => d.payload ≠ 0 → RefusedIs c s) ?_ fun s h => h.2.1 ▸ h.2.2
  refine .bind (load_dir_sat faulted) fun dir => ?_
  refine .bind ((fetch_inode_keeps (P := fun s => d.payload ≠ 0 → RefusedIs c s) (fun _ h _ => h) fun _ _ h => h).mono
    (fun _ h => h.2.2) (fun _ _ h => h) faulted) fun error => ?_
  refine .ite (fun _ => ?_) fun _ => .pure fun _ h => h
  refine .bind (Q := fun _ _ => True) (kfree_sat (fun _ _ _ _ => trivial) (fun _ _ _ _ _ => trivial) faulted)
    fun _ => ?_
  refine .bind (Q := fun _ _ => True) (store_direntry_sat (fun _ _ _ => trivial) faulted) fun _ => ?_
  exact .pure fun _ _ h => absurd rfl h

theorem get_direntry_refused {e : Nat} :
    Sat (RefusedIs c) (get_direntry env e) (fun r s => 0 ≤ r → RefusedIs c s) anyFault := by
  refine .bind (assert_keeps (.pure fun _ h => h) faulted) fun _ => ?_
  refine .bind (assert_keeps ?_ faulted) fun _ => ?_
  · refine .bind (load_direntry_sat faulted) fun d => .bind (load_dir_sat faulted) fun dir => .pure fun s h => ?_
    exact h.2.2.2.2
  refine .bind direntry_get_inode_refused fun inode => ?_
  refine .ite (fun _ => .pure fun _ _ h => absurd h (by decide)) fun hi => ?_
  refine .bind (load_inode_sat faulted) fun i => ?_
  refine .bind (Q := fun _ => RefusedIs c) (store_direntry_sat (fun s h _ => h.2 hi) faulted) fun _ => ?_
  exact .pure fun _ h _ => h

theorem set_directory_refused {dir e file_type : Nat} :
    Sat (RefusedIs c) (set_directory env dir e file_type) (fun _ => RefusedIs c) anyFault := by
  refine .ite (fun _ => ?_) fun _ => .pure fun _ h => h
  refine .bind ((load_direntry_sat faulted).post fun _ _ h => h.2.2) fun _ => ?_
  refine .bind ((load_dir_sat faulted).post fun _ _ h => h.2.2) fun d => ?_
  refine .ite (fun _ => ?_) fun _ => ?_
  · refine .bind ((load_direntry_sat faulted).post fun _ _ h => h.2.2) fun _ => ?_
    exact store_direntry_sat (fun s h _ => h) faulted
  · refine .bind ((load_dir_sat faulted).post fun _ _ h => h.2.2) fun parent => ?_
    refine .ite (fun _ => ?_) fun _ => ?_
    · refine .bind ((load_direntry_sat faulted).post fun _ _ h => h.2.2) fun _ => ?_
      exact store_direntry_sat (fun s h _ => h) faulted
    · refine .bind kmalloc_refused fun q => ?_
      refine .bind (Q := fun _ s => q ≠ 0 → RefusedIs c s) (store_direntry_sat (fun s h _ => h) faulted) fun _ => ?_
      exact store_dir_sat (fun s h hq => h hq) faulted

theorem load_record_refused {dir i : Nat} {buf : List UInt8} :
    Sat (RefusedIs c) (load_record env dir buf i) (fun _ => RefusedIs c) anyFault := by
  refine .bind kmalloc_refused fun e => ?_
  refine .bind ((slice_sat faulted).post fun _ _ h => h.2) fun header => ?_
  refine .bind ((slice_sat faulted).post fun _ _ h => h.2) fun name => ?_
  -- the name is stored through the new pointer
  refine .bind (store_direntry_sat (Q := fun _ => RefusedIs c) (fun s h he => h he) faulted) fun _ => ?_
  refine .bind set_directory_refused fun _ => ?_
  refine .bind (Q := fun _ => RefusedIs c) ?_ fun _ => .pure fun _ h => h
  refine .mono (assert_sat (Q := fun b s => b = true → RefusedIs c s) (fun _ => ?_) fun _ => faulted)
    (fun _ h => h) ?_ faulted
  · exact .bind get_direntry_refused fun r => .pure fun s h hb => h (of_decide_eq_true hb)
  · intro _ s h
    split at h
    · exact h rfl
    · exact h

/-- The loop gets its memory or stops. -/
theorem ext2_get_direntries_loop_refused {dir fsinfo inode : Nat} : ∀ (fuel i : Nat) (new : Bool) (block : Nat)
    (buf : List UInt8) (last : NextPtr),
    Sat (RefusedIs c) (ext2_get_direntries_loop env dir fsinfo inode fuel i new block buf last)
      (fun _ => RefusedIs c) anyFault := by
  intro fuel
  induction fuel with
  | zero =>
    intro i new block buf last
    exact .fault (faulted _)
  | succ fuel ih =>
    intro i new block buf last
    have hstore : ∀ p, Sat (RefusedIs c) (last.store p) (fun _ => RefusedIs c) anyFault := by
      intro p
      refine NextPtr.store_sat (fun s h => ?_) faulted
      cases last <;> exact h
    refine .bind ((load_fsinfo_sat faulted).post fun _ _ h => h.2.2) fun f => ?_
    refine .ite (fun _ => ?_) fun _ => .bind (hstore 0) fun _ => .pure fun _ h => h
    refine .bind (Q := fun _ => RefusedIs c) ?_ fun next => ?_
    · refine .ite (fun _ => ?_) fun _ => .pure fun _ h => h
      refine .bind ((load_inode_sat faulted).post fun _ _ h => h.2) fun bytes => ?_
      refine .bind (hdd_read_sat (Q := fun _ => RefusedIs c) (fun s h => h) faulted) fun r => ?_
      exact .ite (fun _ => .pure fun _ h => h) fun _ => .pure fun _ h => h
    · cases next with
      | error error => exact .pure fun _ h => h
      | ok buf =>
        refine .bind load_record_refused fun ei => ?_
        exact .bind (hstore _) fun _ => ih _ _ _ _ _

/-- Without an inode nothing is loaded, and no error returned. -/
theorem ext2_get_direntries_loop_null {P : Vfs → Prop} {dir fsinfo : Nat} {buf : List UInt8} {last : NextPtr} : ∀ fuel,
    Sat P (ext2_get_direntries_loop env dir fsinfo 0 fuel 0 true 0 buf last) (fun r _ => 0 ≤ r) anyFault := by
  intro fuel
  cases fuel with
  | zero => exact .fault (faulted _)
  | succ fuel =>
    refine .bind (load_fsinfo_sat faulted) fun f => ?_
    refine .ite (fun _ => ?_) fun _ => ?_
    · refine .bind (Q := fun _ _ => False) ?_ fun next => fun s hs => hs.elim
      refine .bind (load_inode_sat faulted) fun bytes => ?_
      exact fun s hs => absurd rfl hs.1.1
    · refine .bind (NextPtr.store_sat (Q := fun _ _ => True) (fun s _ => trivial) faulted) fun _ => ?_
      exact .pure fun _ _ => by decide

/-- An error of `ext2_get_direntries` is none of the heap. -/
theorem ext2_get_direntries_refused {dir : Nat} :
    Sat (RefusedIs c) (ext2_get_direntries env dir) (fun r s => r < 0 → RefusedIs c s) anyFault := by
  refine .bind (assert_keeps (.pure fun _ h => h) faulted) fun _ => ?_
  refine .bind ((load_dir_sat faulted).post fun _ _ h => h.2.2) fun d => ?_
  refine .bind (assert_keeps (.pure fun _ h => h) faulted) fun _ => ?_
  refine .bind ((load_mntp_sat faulted).post fun _ _ h => h.2.2) fun m => ?_
  refine .ite (fun _ => .pure fun _ h _ => h) fun _ => ?_
  refine .bind direntry_get_inode_refused fun inode => ?_
  refine .bind ((load_fsinfo_sat faulted).post fun _ _ h => h.2.2) fun f => ?_
  refine .bind (local_array_sat.post fun _ _ h => h.2) fun buf => ?_
  by_cases hi : inode = 0
  · subst hi
    exact (ext2_get_direntries_loop_null _).mono (fun _ h => h) (fun r s h hr => absurd hr (by omega)) faulted
  · exact (ext2_get_direntries_loop_refused _ _ _ _ _ _).mono (fun _ h => h hi) (fun _ _ h _ => h) faulted

theorem kfree_refused {p : Nat} {kind : Kind} :
    Sat (RefusedIs c) (kfree p kind) (fun _ => RefusedIs c) anyFault :=
  kfree_sat (fun _ h _ _ => h) (fun _ h _ _ _ => h) faulted

theorem ext2_probe_refused {part : Nat} :
    Sat (RefusedIs c) (ext2_probe env part) (fun _ => RefusedIs c) anyFault := by
  refine .bind (local_array_sat.post fun _ _ h => h.2) fun sb => ?_
  refine .bind (hdd_read_sat (Q := fun _ => RefusedIs c) (fun _ h => h) faulted) fun r => ?_
  refine .ite (fun _ => .pure fun _ h => h) fun _ => ?_
  exact .ite (fun _ => .pure fun _ h => h) fun _ => .pure fun _ h => h

/-- Giving back a table that was never got keeps the lock, and giving back the next block waits for it. -/
theorem unmount_refused {p fsinfo mnt_info : Nat} {error : Int} :
    Sat (fun s => p ≠ 0 → RefusedIs c s)
      (do kfree p .gdt; kfree fsinfo .ext2fs; kfree mnt_info .mntp; pure error : Prog Vfs Int)
      (fun r s => r < 0 → RefusedIs c s) anyFault := by
  refine .bind (Q := fun _ s => (p ≠ 0 → RefusedIs c s) ∧ (p = 0 → s.heap_locked = true)) ?_ fun _ => ?_
  · exact kfree_sat (fun _ h _ _ => ⟨h, fun _ => rfl⟩) (fun _ h _ hp _ => ⟨h, fun h0 => by omega⟩) faulted
  have hne : ∀ s : Vfs, s.heap_locked = false → ((p ≠ 0 → RefusedIs c s) ∧ (p = 0 → s.heap_locked = true)) →
      RefusedIs c s := by
    intro s hl h
    refine h.1 fun hp => ?_
    rw [h.2 hp] at hl
    cases hl
  refine .bind (kfree_sat (Q := fun _ => RefusedIs c) (fun s h hl _ => hne s hl h) (fun s h hl _ _ => hne s hl h)
    faulted) fun _ => ?_
  exact .bind kfree_refused fun _ => .pure fun _ h _ => h

/-- An error of `ext2_mount` is none of the heap either. -/
theorem ext2_mount_refused {part mnt_point : Nat} :
    Sat (RefusedIs c) (ext2_mount env part mnt_point) (fun r s => r < 0 → RefusedIs c s) anyFault := by
  refine .bind ext2_probe_refused fun error => ?_
  refine .ite (fun _ => .pure fun _ h _ => h) fun _ => ?_
  refine .bind kmalloc_refused fun fsinfo => ?_
  refine .bind (store_fsinfo_sat (Q := fun _ => RefusedIs c) (fun s h hp => h hp) faulted) fun _ => ?_
  refine .bind kmalloc_refused fun mnt_info => ?_
  refine .bind (store_mntp_sat (Q := fun _ => RefusedIs c) (fun s h hp => h hp) faulted) fun _ => ?_
  refine .bind ((load_fsinfo_sat faulted).post fun _ _ h => h.2.2) fun f => ?_
  refine .bind (hdd_read_sat (Q := fun _ => RefusedIs c) (fun _ h => h) faulted) fun r => ?_
  refine .bind (store_fsinfo_sat (Q := fun _ => RefusedIs c) (fun _ h _ => h) faulted) fun _ => ?_
  refine .ite (fun _ => ?_) fun _ => ?_
  · exact .bind kfree_refused fun _ => .bind kfree_refused fun _ => .pure fun _ h _ => h
  refine .bind ((load_fsinfo_sat faulted).post fun _ _ h => h.2.2) fun f => ?_
  refine .bind ((div32_sat faulted).post fun _ _ h => h.2) fun groups => ?_
  refine .bind (store_fsinfo_sat (Q := fun _ => RefusedIs c) (fun _ h _ => h) faulted) fun _ => ?_
  -- a null table may survive up to here
  refine .bind (.bind kmalloc_refused fun p => .bind (.modify (Q := fun _ s => p ≠ 0 → RefusedIs c s) fun _ h => h)
    fun _ => .pure fun _ h => h) fun p => ?_
  refine .bind (store_fsinfo_sat (Q := fun _ s => p ≠ 0 → RefusedIs c s) (fun _ h _ => h) faulted) fun _ => ?_
  refine .bind ((load_fsinfo_sat faulted).post fun _ _ h => h.2.2) fun f => ?_
  refine .bind (hdd_read_sat (Q := fun _ s => p ≠ 0 → RefusedIs c s) (fun _ h => h) faulted) fun r => ?_
  refine .bind (store_gdt_sat (Q := fun _ s => p ≠ 0 → RefusedIs c s) (fun _ h => h) (fun _ h _ => h) faulted)
    fun _ => ?_
  refine .ite (fun _ => unmount_refused) fun _ => ?_
  refine .bind ((load_dir_sat faulted).post fun _ _ h => h.2.2) fun d => ?_
  refine .bind (store_dir_sat (Q := fun _ s => p ≠ 0 → RefusedIs c s) (fun _ h _ => h) faulted) fun _ => ?_
  refine .bind (store_direntry_sat (Q := fun _ s => p ≠ 0 → RefusedIs c s) (fun _ h _ => h) faulted) fun _ => ?_
  refine .bind (Q := fun r s => r < 0 → p ≠ 0 → RefusedIs c s) ?_ fun error => ?_
  · by_cases hp : p = 0
    · exact fun s _ => ⟨fun r t _ _ h0 => absurd hp h0, fun _ _ _ => trivial⟩
    · exact ext2_get_direntries_refused.mono (fun _ h => h hp) (fun _ _ h hr _ => h hr) faulted
  refine .ite (fun he => ?_) fun _ => .pure fun _ _ h => absurd h (by decide)
  refine .bind (store_dir_sat (Q := fun _ s => p ≠ 0 → RefusedIs c s) (fun _ h _ => h he) faulted) fun _ => ?_
  exact unmount_refused

end

/-! ## Regions and page tables -/

/-- `mm_mk_region` asks for memory, there being no conflict, and gets none. -/
def RegionRefused (h : Regions.Kmalloc) (mmap start stop : Nat) (s : Regions.Vma) : Prop :=
  mmap ≠ 0 ∧ Regions.mm_conflicts (s.user_regions mmap) start stop s = .ok (false, s) ∧ h s.kmallocs 24 1 = 0

/-- One of the four calls of `mk_mmap` gets none. -/
def MmapRefused (h : Paging.Kmalloc) (s : Paging.Vm) : Prop :=
  h s.kmallocs 8 1 = 0 ∨ h (s.kmallocs + 1) 2068 1 = 0 ∨
    h (s.kmallocs + 2) Paging.PAGEDIR_SIZE Paging.PAGESIZE = 0 ∨ h (s.kmallocs + 3) Paging.PTR_TABLE_SIZE 0x20 = 0

/-- `get_pt_entry` needs a page table and gets none. -/
def TableRefused (h : Paging.Kmalloc) (mmap pd_offset : Nat) (s : Paging.Vm) : Prop :=
  Paging.load_page_table mmap pd_offset s = .ok (0, s) ∧ h s.kmallocs Paging.PAGEDIR_SIZE Paging.PAGESIZE = 0

theorem mm_mk_region_refused {h : Regions.Kmalloc} {mmap start stop : Nat} (flags : Nat) {s : Regions.Vma}
    (hr : RegionRefused h mmap start stop s) :
    Regions.mm_mk_region h mmap start stop flags s = .error .nullDeref := by
  obtain ⟨hm, hc, hn⟩ := hr
  have hload : Regions.load_user_regions mmap s = .ok (s.user_regions mmap, s) := Regions.load_user_regions_run hm s
  have hk : Regions.kmalloc h 24 1 s = .ok (0, { s with kmallocs := s.kmallocs + 1 }) := by
    rw [← hn]
    rfl
  unfold Regions.mm_mk_region
  rw [Exec.bind_of_ok hload, Exec.bind_of_ok hc, if_neg Bool.false_ne_true, Exec.bind_of_ok hk]
  rfl

theorem get_pt_entry_refused {h : Paging.Kmalloc} {mmap pd_offset : Nat} (pt_offset : Nat) {s : Paging.Vm}
    (hr : TableRefused h mmap pd_offset s) : Paging.get_pt_entry h mmap pd_offset pt_offset s = .error .nullDeref := by
  obtain ⟨hload, hn⟩ := hr
  have hk : Paging.kmalloc h Paging.PAGEDIR_SIZE Paging.PAGESIZE s =
      .ok (0, { s with kmallocs := s.kmallocs + 1 }) := by
    rw [← hn]
    rfl
  unfold Paging.get_pt_entry
  rw [Exec.bind_of_ok hload, if_pos rfl, Exec.bind_of_ok hk]
  rfl

theorem mk_mmap_refused {h : Paging.Kmalloc} {s : Paging.Vm} (hr : MmapRefused h s) :
    Paging.mk_mmap h s = .error .nullDeref := by
  unfold Paging.mk_mmap
  rw [Exec.bind_of_ok (Paging.kmalloc_run h _ _ s), Exec.bind_of_ok (Paging.kmalloc_run h _ _ _)]
  by_cases hmm : h s.kmallocs 8 1 = 0
  · rw [hmm]
    rfl
  rw [Exec.bind_of_ok (Paging.store_mm_run hmm _ _), Exec.bind_of_ok (Paging.kmalloc_run h _ _ _),
    Exec.bind_of_ok (Paging.load_tables_run hmm _)]
  by_cases htab : h (s.kmallocs + 1) 2068 1 = 0
  · simp only [Paging.Vm.setMm, Function.update_self, htab]
    rfl
  simp only [Paging.Vm.setMm, Function.update_self]
  rw [Exec.bind_of_ok (Paging.store_tables_run htab _ _), Exec.bind_of_ok (Paging.load_tables_run hmm _)]
  simp only [Paging.Vm.setTables, Function.update_self]
  rw [Exec.bind_of_ok (Paging.deref_tables_run htab _)]
  simp only [Function.update_self]
  by_cases hdir : h (s.kmallocs + 2) Paging.PAGEDIR_SIZE Paging.PAGESIZE = 0
  · simp only [Nat.add_assoc, Nat.reduceAdd, hdir]
    rfl
  · rw [Exec.bind_of_ok (Paging.bzero_run hdir _ _), Exec.bind_of_ok (Paging.kmalloc_run h _ _ _),
      Exec.bind_of_ok (Paging.load_tables_run hmm _)]
    simp only [Function.update_self]
    rw [Exec.bind_of_ok (Paging.store_tables_run htab _ _), Exec.bind_of_ok (Paging.load_tables_run hmm _)]
    simp only [Paging.Vm.setTables, Function.update_self]
    rw [Exec.bind_of_ok (Paging.deref_tables_run htab _)]
    -- only the last call is left
    have hptr : h (s.kmallocs + 1 + 1 + 1) Paging.PTR_TABLE_SIZE 0x20 = 0 := by
      rcases hr with hr | hr | hr | hr
      · exact absurd hr hmm
      · exact absurd hr htab
      · exact absurd hr hdir
      · exact hr
    simp only [Function.update_self, hptr]
    rfl

/-! ## Nobody reports it -/

/-- `kmalloc` refuses a call that `x` makes. -/
def Refused (x : Prog Vfs Int) (s : Vfs) : Prop := (x s).2.refused ≠ s.refused

/-- `x` returns an error, and the entries of `dir` are what they were. -/
def Reports (dir : Nat) (x : Prog Vfs Int) (s : Vfs) : Prop :=
  ∃ r < 0, (x s).1 = .ok r ∧ ((x s).2.dirs dir).entries = (s.dirs dir).entries

theorem reports_iff {x : Prog Vfs Int} {dir : Nat} {s : Vfs}
    (h : ∀ c, Sat (RefusedIs c) x (fun r t => r < 0 → RefusedIs c t) anyFault) :
    (Refused x s → Reports dir x s) ↔ ¬ Refused x s := by
  refine ⟨fun hrep hr => ?_, fun hn hr => absurd hr hn⟩
  obtain ⟨r, hneg, hok, -⟩ := hrep hr
  exact hr ((h s.refused s rfl).1 r _ (Prod.ext hok rfl) hneg)

/-- What has to happen when a call of `kmalloc` returns null (the caller is told, nothing
is followed, the regions and the entries stay) happens for none of the five functions:
it holds of a run exactly if no call of the run is refused. -/
theorem out_of_memory (h : Regions.Kmalloc) (h' : Paging.Kmalloc) (env : Env) (regions : Regions.Vma)
    (tables : Paging.Vm) (s : Vfs) (mmap start stop flags pd_offset pt_offset part mnt_point dir : Nat) :
    ((RegionRefused h mmap start stop regions →
      ∃ t, Regions.mm_mk_region h mmap start stop flags regions = .ok (0, t) ∧ t.user_regions = regions.user_regions) ↔
      ¬ RegionRefused h mmap start stop regions) ∧
    ((MmapRefused h' tables → ∃ t, Paging.mk_mmap h' tables = .ok (0, t) ∧
      ∀ mm, (t.mms mm).user_regions = (tables.mms mm).user_regions) ↔ ¬ MmapRefused h' tables) ∧
    ((TableRefused h' mmap pd_offset tables → ∃ t, Paging.get_pt_entry h' mmap pd_offset pt_offset tables = .ok (0, t) ∧
      ∀ mm, (t.mms mm).user_regions = (tables.mms mm).user_regions) ↔ ¬ TableRefused h' mmap pd_offset tables) ∧
    ((Refused (ext2_mount env part mnt_point) s → Reports mnt_point (ext2_mount env part mnt_point) s) ↔
      ¬ Refused (ext2_mount env part mnt_point) s) ∧
    ((Refused (ext2_get_direntries env dir) s → Reports dir (ext2_get_direntries env dir) s) ↔
      ¬ Refused (ext2_get_direntries env dir) s) := by
  refine ⟨⟨fun hrep hr => ?_, fun hn hr => absurd hr hn⟩, ⟨fun hrep hr => ?_, fun hn hr => absurd hr hn⟩,
    ⟨fun hrep hr => ?_, fun hn hr => absurd hr hn⟩, ?_, ?_⟩
  · obtain ⟨t, hok, -⟩ := hrep hr
    cases (mm_mk_region_refused flags hr).symm.trans hok
  · obtain ⟨t, hok, -⟩ := hrep hr
    cases (mk_mmap_refused hr).symm.trans hok
  · obtain ⟨t, hok, -⟩ := hrep hr
    cases (get_pt_entry_refused pt_offset hr).symm.trans hok
  · exact reports_iff fun c => ext2_mount_refused
  · exact reports_iff fun c => ext2_get_direntries_refused

/-- A first region for an address space, with nothing left in the heap. -/
theorem mm_mk_region_follows_null : ¬ ∀ (h : Regions.Kmalloc) (mmap start stop flags : Nat) (s : Regions.Vma),
    RegionRefused h mmap start stop s →
      ∃ s', Regions.mm_mk_region h mmap start stop flags s = .ok (0, s') ∧ s'.user_regions = s.user_regions := by
  intro hall
  have hr : RegionRefused (fun _ _ _ => 0) 1 0x1000 0x2000 Regions.emptyVma := ⟨by decide, rfl, rfl⟩
  obtain ⟨s', hok, -⟩ := hall (fun _ _ _ => 0) 1 0x1000 0x2000 0 Regions.emptyVma hr
  cases (mm_mk_region_refused 0 hr).symm.trans hok

end Ulmix.Fs

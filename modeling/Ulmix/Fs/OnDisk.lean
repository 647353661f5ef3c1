import Ulmix.Fs.Paths
import Ulmix.Fs.Entries
import Ulmix.Fs.Inodes
/-!
# What is on a disk, and what a list says of it

An `Image` is a partition as its bytes: where the superblock, the inodes and the
blocks are follows from the format alone. A directory block is a sequence of
records (`Walk`); the entries made of them have their names and numbers
(`contents_iff`).
-/
open Ulmix.Lib Ulmix.Lib.Prog

namespace Ulmix.Fs

/-! ## Images -/

/-- The disk from the byte `start` on. -/
structure Image where
  disk : Nat → UInt8
  start : Nat

namespace Image
variable (v : Image)

def superblock : List UInt8 :=
  diskBytes v.disk (v.start + SB_SECT_OFFSET * IO_BLOCK_SIZE) (SB_SECT_SIZE * IO_BLOCK_SIZE)

def blockSize : Nat := block_size_of v.superblock

/-- The descriptor of the group `g`; the table is in the block behind the superblock. -/
def descriptor (g : Nat) : List UInt8 :=
  diskBytes v.disk (v.start + (if v.blockSize = 0x400 then 2 else 1) * v.blockSize + 32 * g) 32

/-- Inode `n`, counted from 1. -/
def inode (n : Nat) : List UInt8 :=
  let group := (n - 1) / inodes_per_group v.superblock
  diskBytes v.disk
    (v.start + bg_inode_table (v.descriptor group) * v.blockSize +
      (n - 1) % inodes_per_group v.superblock * inode_size v.superblock)
    (inode_size v.superblock)

def block (k : Nat) : List UInt8 := diskBytes v.disk (v.start + k * v.blockSize) v.blockSize

/-- The block of the root directory. -/
def root : List UInt8 := v.block (i_block (v.inode 2) 0)

end Image

/-- The device `bd` returns an error or how many sectors it has read, and those are the ones of `disk`. -/
def Env.Honest (env : Env) (bd : Nat) (disk : Nat → UInt8) : Prop :=
  ∀ i sectors lba, (env.read i bd sectors lba).ret ≤ sectors ∧
    (0 ≤ (env.read i bd sectors lba).ret → (env.read i bd sectors lba).stored =
      diskBytes disk (lba * IO_BLOCK_SIZE) ((env.read i bd sectors lba).ret.toNat * IO_BLOCK_SIZE))

/-! ## Lists of files -/

/-- The name and the number of a file. -/
abbrev File := List UInt8 × Nat

/-- What the record at `i` says. -/
def fileAt (blk : List UInt8) (i : Nat) : File := (cstr (nameAt blk i), (recordAt blk i).inode)

/-- What the entry `e` says. -/
def Vfs.file (s : Vfs) (e : Nat) : File := (cstr (s.direntries e).name, (s.direntries e).inode_no)

/-- The records of the block say `c`. -/
def Contents (blk : List UInt8) (c : List File) : Prop := ∃ is, Walk blk 0 is ∧ c = is.map (fileAt blk)

/-- The records in use do: those with a number. -/
def UsedContents (blk : List UInt8) (c : List File) : Prop :=
  ∃ is, Walk blk 0 is ∧ c = (is.map (fileAt blk)).filter fun f => f.2 ≠ 0

/-- The entries of the directory `d` say `c`. -/
def ListedAs (s : Vfs) (d : Nat) (c : List File) : Prop :=
  ∃ l, Sll (fun e => (s.direntries e).next) (s.dirs d).entries l ∧ c = l.map s.file

/-- What lies behind the terminating zero does not matter. -/
theorem cstr_append_zero (name rest : List UInt8) : cstr (name ++ 0 :: rest) = cstr name := by
  unfold cstr
  induction name with
  | nil => simp
  | cons c name ih =>
    simp only [List.cons_append, List.takeWhile_cons]
    split
    · rw [ih]
    · rfl

theorem cstr_overwrite (old name : List UInt8) : cstr (overwrite old (name ++ [0])) = cstr name := by
  unfold overwrite
  rw [List.append_assoc]
  exact cstr_append_zero name _

theorem Made.file {env : Env} {s t : Vfs} {dir e i : Nat} {blk : List UInt8} (h : Made env s dir blk t e i) :
    t.file e = fileAt blk i := by
  obtain ⟨old, hname⟩ := h.name
  unfold Vfs.file fileAt
  rw [hname, h.inode_no, cstr_overwrite]

/-- The entries made of the records of a block say what these say. -/
theorem listedAs_iff {env : Env} {s t : Vfs} {dir : Nat} {blk : List UInt8} {l is : List Nat} {c : List File}
    (hw : Walk blk 0 is) (hb : Built env s dir blk l is t)
    (hl : Sll (fun e => (t.direntries e).next) (t.dirs dir).entries l) : ListedAs t dir c ↔ Contents blk c := by
  have hsame : l.map t.file = is.map (fileAt blk) := by
    have hfiles := hb.made.imp fun e i hm => hm.file
    have := List.forall₂_map_right_iff.2 (List.forall₂_map_left_iff.2 hfiles)
    rwa [List.forall₂_eq_eq_eq] at this
  constructor
  · rintro ⟨l', hl', rfl⟩
    rw [hl'.unique hl, hsame]
    exact ⟨is, hw, rfl⟩
  · rintro ⟨is', hw', rfl⟩
    rw [hw'.unique hw, ← hsame]
    exact ⟨l, hl, rfl⟩

end Ulmix.Fs

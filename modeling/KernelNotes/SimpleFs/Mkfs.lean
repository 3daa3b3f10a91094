import KernelNotes.Lib.Bits
import KernelNotes.SimpleFs.Basic

/-!
# The layout mkfs computes and the places it writes to

`mkfs_common.c` plans the regions of an image in 32-bit arithmetic and writes them one
after the other. `simplefs_fill_super` and `simplefs_iget` find the same regions again from
the numbers in the superblock. The plan does not wrap for any accepted image, but two of the
five write offsets are 32-bit products of a block number and the block size.
-/

namespace SimpleFs.Mkfs

open Bits

def blockSize32 : UInt32 := UInt32.ofNat blockSize

def inodesPerBlock32 : UInt32 := UInt32.ofNat inodesPerBlock

/-- The bits of one bitmap block. -/
def bitsPerBlock32 : UInt32 := blockSize32 * 8

/-- `SIMPLEFS_JOURNAL_BLOCKS`. -/
def journalBlocks32 : UInt32 := 1024

@[simp] theorem blockSize32_toNat : blockSize32.toNat = 4096 := rfl

@[simp] theorem inodesPerBlock32_toNat : inodesPerBlock32.toNat = 39 := rfl

@[simp] theorem bitsPerBlock32_toNat : bitsPerBlock32.toNat = 32768 := rfl

@[simp] theorem journalBlocks32_toNat : journalBlocks32.toNat = 1024 := rfl

/-- `struct mkfs_layout`. -/
structure Layout where
  nrBlocks : UInt32
  nrInodes : UInt32
  nrIstoreBlocks : UInt32
  nrIfreeBlocks : UInt32
  nrBfreeBlocks : UInt32
  nrJournalBlocks : UInt32
  nrDataBlocks : UInt32
  firstDataBlock : UInt32
  journalStartBlock : UInt32
  deriving DecidableEq, Repr

/-- `idiv_ceil`. -/
def idivCeil (a b : UInt32) : UInt32 := a / b + (if a % b ≠ 0 then 1 else 0)

/-- The part of `mkfs_calculate_layout` after the inode count is rounded. -/
def layoutOf (nrBlocks nrInodes : UInt32) : Layout :=
  let nrIstoreBlocks := idivCeil nrInodes inodesPerBlock32
  let nrIfreeBlocks := idivCeil nrInodes bitsPerBlock32
  let nrBfreeBlocks := idivCeil nrBlocks bitsPerBlock32
  let fixedBlocks := 1 + nrIstoreBlocks + nrIfreeBlocks + nrBfreeBlocks
  let nrJournalBlocks := if nrBlocks > fixedBlocks + journalBlocks32 then journalBlocks32 else 0
  { nrBlocks, nrInodes, nrIstoreBlocks, nrIfreeBlocks, nrBfreeBlocks, nrJournalBlocks
    journalStartBlock := nrBlocks - nrJournalBlocks
    nrDataBlocks := nrBlocks - 1 - nrIstoreBlocks - nrIfreeBlocks - nrBfreeBlocks - nrJournalBlocks
    firstDataBlock := 1 + nrIstoreBlocks + nrIfreeBlocks + nrBfreeBlocks }

/-- `mkfs_calculate_layout`. The image size is a `size_t`. -/
def calculateLayout (imageSize : UInt64) (bytesPerInode : UInt32) : Except Errno Layout :=
  if imageSize ≤ 100 * blockSize32.toUInt64 then .error .e2big
  else if bytesPerInode < blockSize32 ∨ bytesPerInode % blockSize32 ≠ 0 ∨
      imageSize / blockSize32.toUInt64 > 0xffffffff then .error .einval
  else
    let nrBlocks := (imageSize / blockSize32.toUInt64).toUInt32
    let wanted := (imageSize / bytesPerInode.toUInt64).toUInt32
    let nrInodes := if wanted < 2 then 2 else wanted
    let mod := nrInodes % inodesPerBlock32
    if mod = 0 then .ok (layoutOf nrBlocks nrInodes)
    else if nrInodes > 0xffffffff - (inodesPerBlock32 - mod) then .error .efbig
    else .ok (layoutOf nrBlocks (nrInodes + (inodesPerBlock32 - mod)))

/-- `mkfs_validate_layout`. The last product is a `size_t`. -/
def validateLayout (l : Layout) : Bool :=
  let usedBlocks := 1 + l.nrIstoreBlocks + l.nrIfreeBlocks + l.nrBfreeBlocks
  decide (l.nrBlocks ≠ 0) && decide (l.nrInodes ≠ 0) && decide (l.nrDataBlocks ≠ 0) &&
    decide (usedBlocks < l.nrBlocks) &&
    decide (l.nrInodes.toUInt64 ≤ l.nrIstoreBlocks.toUInt64 * inodesPerBlock32.toUInt64)

/-- `mkfs_create_fs` goes on to write with this layout. -/
def Accepted (imageSize : UInt64) (bytesPerInode : UInt32) (l : Layout) : Prop :=
  calculateLayout imageSize bytesPerInode = .ok l ∧ validateLayout l = true

/-- The inode count that was asked for, at least two. -/
def wantedInodes (imageSize : UInt64) (bytesPerInode : UInt32) : Nat :=
  max 2 (imageSize.toNat / bytesPerInode.toNat)

/-! ## The plan in natural numbers -/

/-- The numbers of a layout for `blocks` blocks and `inodes` wanted inodes, free of wrap. -/
structure Planned (blocks inodes : Nat) (l : Layout) : Prop where
  nrBlocks : l.nrBlocks.toNat = blocks
  nrInodes : l.nrInodes.toNat = 39 * ((inodes + 38) / 39)
  nrIstoreBlocks : l.nrIstoreBlocks.toNat = (inodes + 38) / 39
  nrIfreeBlocks : l.nrIfreeBlocks.toNat = (l.nrInodes.toNat + 32767) / 32768
  nrBfreeBlocks : l.nrBfreeBlocks.toNat = (blocks + 32767) / 32768
  firstDataBlock : l.firstDataBlock.toNat =
    1 + l.nrIstoreBlocks.toNat + l.nrIfreeBlocks.toNat + l.nrBfreeBlocks.toNat
  nrJournalBlocks : l.nrJournalBlocks.toNat =
    if l.firstDataBlock.toNat + 1024 < blocks then 1024 else 0
  journalStartBlock : l.journalStartBlock.toNat = blocks - l.nrJournalBlocks.toNat
  nrDataBlocks : l.nrDataBlocks = l.nrBlocks - 1 - l.nrIstoreBlocks - l.nrIfreeBlocks -
    l.nrBfreeBlocks - l.nrJournalBlocks

theorem idivCeil_toNat (a b : UInt32) (large : 2 ≤ b.toNat) :
    (idivCeil a b).toNat = (a.toNat + (b.toNat - 1)) / b.toNat := by
  have bound := a.toNat_lt
  have half : a.toNat / b.toNat ≤ a.toNat / 2 := Nat.div_le_div_left large (by omega)
  have whole := Nat.div_add_mod a.toNat b.toNat
  have rest := Nat.mod_lt a.toNat (show 0 < b.toNat by omega)
  rw [idivCeil]
  split
  · rename_i uneven
    have positive : a.toNat % b.toNat ≠ 0 := by
      intro even
      exact uneven (UInt32.toNat_inj.1 (by simpa using even))
    rw [UInt32.toNat_add, UInt32.toNat_div, UInt32.toNat_one,
      Nat.mod_eq_of_lt (by omega)]
    symm
    apply Nat.div_eq_of_lt_le
    · rw [Nat.add_mul, Nat.mul_comm]
      omega
    · rw [Nat.add_mul, Nat.add_mul, Nat.mul_comm]
      omega
  · rename_i even
    have zero : a.toNat % b.toNat = 0 := by
      simpa [← UInt32.toNat_inj] using even
    rw [UInt32.add_zero, UInt32.toNat_div]
    symm
    apply Nat.div_eq_of_lt_le
    · rw [Nat.mul_comm]
      omega
    · rw [Nat.add_mul, Nat.mul_comm]
      omega

theorem layoutOf_planned {blocks inodes : Nat} {nrBlocks nrInodes : UInt32}
    (sameBlocks : nrBlocks.toNat = blocks)
    (rounded : nrInodes.toNat = 39 * ((inodes + 38) / 39)) :
    Planned blocks inodes (layoutOf nrBlocks nrInodes) := by
  have blockBound := nrBlocks.toNat_lt
  have inodeBound := nrInodes.toNat_lt
  have istore : (idivCeil nrInodes inodesPerBlock32).toNat = (inodes + 38) / 39 := by
    rw [idivCeil_toNat _ _ (by simp), inodesPerBlock32_toNat, rounded]
    omega
  have ifree : (idivCeil nrInodes bitsPerBlock32).toNat = (nrInodes.toNat + 32767) / 32768 :=
    idivCeil_toNat _ _ (by simp)
  have bfree : (idivCeil nrBlocks bitsPerBlock32).toNat = (blocks + 32767) / 32768 := by
    rw [← sameBlocks]
    exact idivCeil_toNat _ _ (by simp)
  have fixed : (1 + idivCeil nrInodes inodesPerBlock32 + idivCeil nrInodes bitsPerBlock32 +
      idivCeil nrBlocks bitsPerBlock32).toNat =
      1 + (inodes + 38) / 39 + (nrInodes.toNat + 32767) / 32768 + (blocks + 32767) / 32768 := by
    simp only [UInt32.toNat_add, UInt32.toNat_one, istore, ifree, bfree]
    omega
  have larger : (nrBlocks > 1 + idivCeil nrInodes inodesPerBlock32 +
      idivCeil nrInodes bitsPerBlock32 + idivCeil nrBlocks bitsPerBlock32 + journalBlocks32) ↔
      1 + (inodes + 38) / 39 + (nrInodes.toNat + 32767) / 32768 + (blocks + 32767) / 32768 +
        1024 < blocks := by
    rw [gt_iff_lt, UInt32.lt_iff_toNat_lt, UInt32.toNat_add, fixed, journalBlocks32_toNat,
      sameBlocks]
    omega
  have journal : (layoutOf nrBlocks nrInodes).nrJournalBlocks.toNat =
      if (layoutOf nrBlocks nrInodes).firstDataBlock.toNat + 1024 < blocks then 1024 else 0 := by
    simp only [layoutOf, larger, fixed]
    split
    · rfl
    · rfl
  refine ⟨sameBlocks, rounded, istore, ifree, bfree, ?_, journal, ?_, rfl⟩
  · exact fixed.trans (by rw [← istore, ← ifree, ← bfree]; rfl)
  · show (nrBlocks - (layoutOf nrBlocks nrInodes).nrJournalBlocks).toNat = _
    have fits : (layoutOf nrBlocks nrInodes).nrJournalBlocks.toNat ≤ nrBlocks.toNat := by
      rw [journal]
      split
      · omega
      · omega
    rw [UInt32.toNat_sub_of_le _ _ (UInt32.le_iff_toNat_le.2 fits), sameBlocks]

variable {imageSize : UInt64} {bytesPerInode : UInt32} {l : Layout}

theorem calculateLayout_planned (calculated : calculateLayout imageSize bytesPerInode = .ok l) :
    Planned (imageSize.toNat / 4096) (wantedInodes imageSize bytesPerInode) l := by
  rw [calculateLayout] at calculated
  split at calculated
  · cases calculated
  split at calculated
  · cases calculated
  rename_i fits
  simp only [not_or, UInt32.not_lt, gt_iff_lt, UInt64.not_lt] at fits
  obtain ⟨dense, _, few⟩ := fits
  rw [UInt32.le_iff_toNat_le, blockSize32_toNat] at dense
  have fewNat : imageSize.toNat / 4096 < 2 ^ 32 := by
    rw [UInt64.le_iff_toNat_le] at few
    simpa [Nat.lt_succ_iff] using few
  have blocks : (imageSize / blockSize32.toUInt64).toUInt32.toNat = imageSize.toNat / 4096 := by
    simp
    omega
  have asked : (imageSize / bytesPerInode.toUInt64).toUInt32.toNat =
      imageSize.toNat / bytesPerInode.toNat := by
    have smaller := Nat.div_le_div_left (a := imageSize.toNat) dense (by omega)
    simp
    omega
  have wanted : (if (imageSize / bytesPerInode.toUInt64).toUInt32 < 2 then 2
      else (imageSize / bytesPerInode.toUInt64).toUInt32 : UInt32).toNat =
      wantedInodes imageSize bytesPerInode := by
    rw [wantedInodes]
    split
    · rename_i less
      rw [UInt32.lt_iff_toNat_lt, asked] at less
      have : (2 : UInt32).toNat = 2 := rfl
      omega
    · rename_i more
      rw [UInt32.lt_iff_toNat_lt, asked] at more
      have : (2 : UInt32).toNat = 2 := rfl
      omega
  dsimp only at calculated
  generalize (if (imageSize / bytesPerInode.toUInt64).toUInt32 < 2 then 2
      else (imageSize / bytesPerInode.toUInt64).toUInt32 : UInt32) = nrInodes at calculated wanted
  have rest : (nrInodes % inodesPerBlock32).toNat = nrInodes.toNat % 39 := by simp
  split at calculated
  · rename_i even
    obtain rfl := Except.ok.inj calculated
    apply layoutOf_planned blocks
    rw [← UInt32.toNat_inj, rest, UInt32.toNat_zero] at even
    omega
  split at calculated
  · cases calculated
  · rename_i uneven fitsToo
    obtain rfl := Except.ok.inj calculated
    apply layoutOf_planned blocks
    rw [← UInt32.toNat_inj, rest, UInt32.toNat_zero] at uneven
    have missing : (inodesPerBlock32 - nrInodes % inodesPerBlock32).toNat =
        39 - nrInodes.toNat % 39 := by
      rw [UInt32.toNat_sub_of_le _ _ (by rw [UInt32.le_iff_toNat_le, rest]; simp; omega), rest,
        inodesPerBlock32_toNat]
    have room : nrInodes.toNat + (39 - nrInodes.toNat % 39) < 2 ^ 32 := by
      rw [gt_iff_lt, UInt32.not_lt, UInt32.le_iff_toNat_le, UInt32.toNat_sub_of_le _ _
        (by rw [UInt32.le_iff_toNat_le, missing]; simp; omega), missing] at fitsToo
      have : (0xffffffff : UInt32).toNat = 2 ^ 32 - 1 := rfl
      omega
    rw [UInt32.toNat_add, missing, Nat.mod_eq_of_lt room]
    omega

/-- What validation adds: the metadata leaves room, and the data area is what remains. -/
theorem Accepted.room (accepted : Accepted imageSize bytesPerInode l) :
    l.firstDataBlock.toNat < l.nrBlocks.toNat ∧
      l.firstDataBlock.toNat + l.nrDataBlocks.toNat = l.journalStartBlock.toNat ∧
      0 < l.nrDataBlocks.toNat := by
  have plan := calculateLayout_planned accepted.1
  have valid := accepted.2
  simp only [validateLayout, Bool.and_eq_true, decide_eq_true_eq] at valid
  have used := valid.1.2
  have first := plan.firstDataBlock
  have bounds : l.nrIstoreBlocks.toNat + l.nrIfreeBlocks.toNat + l.nrBfreeBlocks.toNat + 1 <
      2 ^ 32 := by
    have := l.firstDataBlock.toNat_lt
    omega
  rw [UInt32.lt_iff_toNat_lt, UInt32.toNat_add, UInt32.toNat_add, UInt32.toNat_add,
    UInt32.toNat_one] at used
  have room : l.firstDataBlock.toNat < l.nrBlocks.toNat := by omega
  have journal := plan.nrJournalBlocks
  rw [← plan.nrBlocks] at journal
  have start := plan.journalStartBlock
  rw [← plan.nrBlocks] at start
  have total := l.nrBlocks.toNat_lt
  have data : l.nrDataBlocks.toNat =
      l.nrBlocks.toNat - l.firstDataBlock.toNat - l.nrJournalBlocks.toNat := by
    rw [plan.nrDataBlocks]
    simp only [UInt32.toNat_sub, UInt32.toNat_one]
    split at journal
    · omega
    · omega
  split at journal
  · omega
  · omega

/-! ## Where mkfs writes and where the kernel reads -/

/-- The parts of an image that mkfs writes. -/
inductive Region where
  | superblock | inodeStore | rootIndex | ifreeBitmap | bfreeBitmap | journal
  deriving DecidableEq, Repr

/-- The offset each of the writers seeks to. The product is computed in 32 bits before it
becomes an `off_t` where the writer has no cast. -/
def writeOffset (l : Layout) : Region → Nat
  | .superblock => 0
  | .inodeStore => blockSize
  | .rootIndex => l.firstDataBlock.toNat * blockSize
  | .ifreeBitmap => (blockSize32 * (1 + l.nrIstoreBlocks)).toNat
  | .bfreeBitmap => (blockSize32 * (1 + l.nrIstoreBlocks + l.nrIfreeBlocks)).toNat
  | .journal => l.journalStartBlock.toNat * blockSize

/-- The number of whole blocks each of the writers writes from there on. -/
def writtenBlocks (l : Layout) : Region → Nat
  | .superblock => 1
  | .inodeStore => l.nrIstoreBlocks.toNat
  | .rootIndex => 1
  | .ifreeBitmap => l.nrIfreeBlocks.toNat
  | .bfreeBitmap => l.nrBfreeBlocks.toNat
  | .journal => l.nrJournalBlocks.toNat

/-- The byte is written when the region is. -/
def Written (l : Layout) (r : Region) (byte : Nat) : Prop :=
  Within (writeOffset l r) (blockSize * writtenBlocks l r) byte

instance (l : Layout) (r : Region) (byte : Nat) : Decidable (Written l r byte) :=
  inferInstanceAs (Decidable (Within _ _ _))

/-- `SIMPLEFS_DISK_MAGIC`. -/
def diskMagic : UInt32 := 0xDEADCE02

/-- The numbers of `struct simplefs_sb_info` that are on disk. -/
structure Superblock where
  magic : UInt32
  nrBlocks : UInt32
  nrInodes : UInt32
  nrIstoreBlocks : UInt32
  nrIfreeBlocks : UInt32
  nrBfreeBlocks : UInt32
  nrFreeInodes : UInt32
  nrFreeBlocks : UInt32
  sJournalPresent : UInt32
  sJournalStart : UInt32
  deriving DecidableEq, Repr

/-- `mkfs_init_superblock`. -/
def initSuperblock (l : Layout) : Superblock where
  magic := diskMagic
  nrBlocks := l.nrBlocks
  nrInodes := l.nrInodes
  nrIstoreBlocks := l.nrIstoreBlocks
  nrIfreeBlocks := l.nrIfreeBlocks
  nrBfreeBlocks := l.nrBfreeBlocks
  nrFreeInodes := l.nrInodes - 2
  nrFreeBlocks := l.nrDataBlocks - 1
  sJournalPresent := if l.nrJournalBlocks > 0 then 1 else 0
  sJournalStart := l.journalStartBlock

/-- `ei_block` as `mkfs_init_root_inode` sets it. -/
def rootEiBlock (l : Layout) : UInt32 := l.firstDataBlock

/-- An `int` that is passed on as an `unsigned long`. -/
def widenInt (idx : UInt32) : UInt64 := idx.toInt32.toInt64.toUInt64

/-- The block of the inode table in which `simplefs_iget` looks for `ino`. -/
def inodeBlock (ino : Nat) : Nat := ino / inodesPerBlock + 1

/-- The first block the kernel reads of each region: `simplefs_fill_super` for the superblock,
the bitmaps and the journal, `simplefs_iget` for the inode table and the root directory. -/
def readBlock (sb : Superblock) (eiBlock : UInt32) : Region → Nat
  | .superblock => 0
  | .inodeStore => inodeBlock 0
  | .rootIndex => eiBlock.toNat
  | .ifreeBitmap => (widenInt (sb.nrIstoreBlocks + 0 + 1)).toNat
  | .bfreeBitmap => (widenInt (sb.nrIstoreBlocks + sb.nrIfreeBlocks + 0 + 1)).toNat
  | .journal => sb.sJournalStart.toNat

theorem widenInt_toNat {idx : UInt32} (small : idx.toNat < 2 ^ 31) :
    (widenInt idx).toNat = idx.toNat := by
  have signed : (widenInt idx).toNat = (idx.toBitVec.signExtend 64).toNat := rfl
  have positive : idx.toBitVec.msb = false := by
    rw [BitVec.msb_eq_decide]
    simpa using small
  rw [signed, BitVec.signExtend_eq_setWidth_of_msb_false positive, BitVec.toNat_setWidth]
  exact Nat.mod_eq_of_lt (show idx.toNat < 2 ^ 64 by omega)

theorem Accepted.readBlock_eq (accepted : Accepted imageSize bytesPerInode l) :
    readBlock (initSuperblock l) (rootEiBlock l) .ifreeBitmap = 1 + l.nrIstoreBlocks.toNat ∧
      readBlock (initSuperblock l) (rootEiBlock l) .bfreeBitmap =
        1 + l.nrIstoreBlocks.toNat + l.nrIfreeBlocks.toNat := by
  have plan := calculateLayout_planned accepted.1
  have inodes := l.nrInodes.toNat_lt
  have first := plan.nrInodes
  have istore := plan.nrIstoreBlocks
  have ifree := plan.nrIfreeBlocks
  have sum : (l.nrIstoreBlocks + 0 + 1).toNat = 1 + l.nrIstoreBlocks.toNat := by
    simp only [UInt32.toNat_add, UInt32.toNat_zero, UInt32.toNat_one]
    omega
  have sum' : (l.nrIstoreBlocks + l.nrIfreeBlocks + 0 + 1).toNat =
      1 + l.nrIstoreBlocks.toNat + l.nrIfreeBlocks.toNat := by
    simp only [UInt32.toNat_add, UInt32.toNat_zero, UInt32.toNat_one]
    omega
  constructor
  · exact (widenInt_toNat (sum.trans_lt (by omega))).trans sum
  · exact (widenInt_toNat (sum'.trans_lt (by omega))).trans sum'

/-- A 32-bit product with the block size is the byte offset exactly below four gibibytes. -/
theorem offset32_eq_iff {block : UInt32} :
    (blockSize32 * block).toNat = blockSize * block.toNat ↔ block.toNat < 2 ^ 20 := by
  have size : blockSize = 4096 := rfl
  rw [UInt32.toNat_mul, blockSize32_toNat, size]
  omega

theorem Accepted.sums (accepted : Accepted imageSize bytesPerInode l) :
    (1 + l.nrIstoreBlocks).toNat = 1 + l.nrIstoreBlocks.toNat ∧
      (1 + l.nrIstoreBlocks + l.nrIfreeBlocks).toNat =
        1 + l.nrIstoreBlocks.toNat + l.nrIfreeBlocks.toNat := by
  have first := (calculateLayout_planned accepted.1).firstDataBlock
  have bound := l.firstDataBlock.toNat_lt
  simp only [UInt32.toNat_add, UInt32.toNat_one]
  omega

/-- With an inode table and an inode bitmap that end below four gibibytes the offsets are exact,
and so the regions follow each other. -/
theorem Accepted.offsets (accepted : Accepted imageSize bytesPerInode l)
    (small : 1 + l.nrIstoreBlocks.toNat + l.nrIfreeBlocks.toNat < 2 ^ 20) :
    writeOffset l .ifreeBitmap = blockSize * (1 + l.nrIstoreBlocks.toNat) ∧
      writeOffset l .bfreeBitmap =
        blockSize * (1 + l.nrIstoreBlocks.toNat + l.nrIfreeBlocks.toNat) := by
  obtain ⟨sum, sum'⟩ := accepted.sums
  have low : (1 + l.nrIstoreBlocks).toNat < 2 ^ 20 := by omega
  have high : (1 + l.nrIstoreBlocks + l.nrIfreeBlocks).toNat < 2 ^ 20 := by omega
  rw [writeOffset, writeOffset, offset32_eq_iff.2 low, offset32_eq_iff.2 high, sum, sum']
  exact ⟨rfl, rfl⟩

/-- Mkfs writes every region where the kernel looks for it, and no byte twice, exactly when at
most 40845753 inodes were asked for. With one more the inode table and its bitmap reach the
four gibibytes at which the bitmap offsets wrap. -/
theorem written_where_read_iff {imageSize : UInt64} {bytesPerInode : UInt32} {l : Layout}
    (accepted : Accepted imageSize bytesPerInode l) :
    ((∀ r, writeOffset l r = blockSize * readBlock (initSuperblock l) (rootEiBlock l) r) ∧
      ∀ r r', r ≠ r' → ∀ byte, Written l r byte → ¬ Written l r' byte) ↔
      imageSize.toNat / bytesPerInode.toNat ≤ 40845753 := by
  have plan := calculateLayout_planned accepted.1
  have istore := plan.nrIstoreBlocks
  have ifree := plan.nrIfreeBlocks
  rw [plan.nrInodes, wantedInodes] at ifree
  rw [wantedInodes] at istore
  obtain ⟨readIfree, readBfree⟩ := accepted.readBlock_eq
  have size : blockSize = 4096 := rfl
  constructor
  · rintro ⟨right, -⟩
    have exact := right .bfreeBitmap
    rw [readBfree, ← accepted.sums.2] at exact
    have small := offset32_eq_iff.1 exact
    rw [accepted.sums.2] at small
    omega
  · intro few
    have small : 1 + l.nrIstoreBlocks.toNat + l.nrIfreeBlocks.toNat < 2 ^ 20 := by omega
    obtain ⟨atIfree, atBfree⟩ := accepted.offsets small
    obtain ⟨room, data, some⟩ := accepted.room
    have first := plan.firstDataBlock
    refine ⟨fun r => ?_, fun r r' other byte written written' => other ?_⟩
    · cases r with
      | superblock => rfl
      | inodeStore => rfl
      | rootIndex => exact Nat.mul_comm _ _
      | ifreeBitmap => rw [atIfree, readIfree]
      | bfreeBitmap => rw [atBfree, readBfree]
      | journal => exact Nat.mul_comm _ _
    · rw [Written, Within] at written written'
      cases r <;> cases r' <;>
        simp only [atIfree, atBfree, reduceCtorEq] at written written' ⊢ <;>
        simp only [writeOffset, writtenBlocks, size] at written written' <;> omega

/-- A quarter tebibyte with an inode for every block. -/
def quarterTebibyte : Layout := layoutOf 67108864 67108899

/-- There the inode bitmap is written four gibibytes below the place the kernel reads it from,
into the middle of the inode table. -/
theorem inode_table_overwritten_quarterTebibyte :
    Accepted (2 ^ 38) 4096 quarterTebibyte ∧
      writeOffset quarterTebibyte .ifreeBitmap = 2753191936 ∧
      blockSize * readBlock (initSuperblock quarterTebibyte) (rootEiBlock quarterTebibyte)
        .ifreeBitmap = 7048159232 ∧
      Written quarterTebibyte .ifreeBitmap 2753191936 ∧
      Written quarterTebibyte .inodeStore 2753191936 := by
  refine ⟨⟨?_, ?_⟩, ?_, ?_, ?_, ?_⟩ <;> decide

/-- The layout of a 25 MiB image with an inode for every four blocks. -/
def smallImage : Layout := layoutOf 6400 1638

theorem written_where_read_smallImage :
    Accepted 26214400 16384 smallImage ∧
    ((∀ r, writeOffset smallImage r =
        blockSize * readBlock (initSuperblock smallImage) (rootEiBlock smallImage) r) ∧
      ∀ r r', r ≠ r' → ∀ byte, Written smallImage r byte → ¬ Written smallImage r' byte) := by
  have accepted : Accepted 26214400 16384 smallImage := ⟨by decide, by decide⟩
  exact ⟨accepted, (written_where_read_iff accepted).2 (by decide)⟩

end SimpleFs.Mkfs

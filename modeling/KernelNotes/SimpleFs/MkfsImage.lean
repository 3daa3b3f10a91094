import KernelNotes.SimpleFs.FreeSpace
import KernelNotes.SimpleFs.Mkfs

/-!
# The bitmaps mkfs builds and the counts mount computes from them

The bitmap blocks are built byte by byte in `mkfs_write_ifree_bitmap` and
`mkfs_write_bfree_bitmap`. `simplefs_fill_super` copies them into memory, clears the journal
range and counts the set bits. The result is the allocation state of the mounted file
system, and for a fresh image its accounts are exact.
-/

namespace SimpleFs.Mkfs

open Bits

/-- The bytes of a block. -/
abbrev Block := Nat → UInt8

/-- Bit `nr` of a byte array, least significant bit first: `test_bit` on a little-endian
machine. -/
def bitOf (bytes : Nat → UInt8) (nr : Nat) : Bool := (bytes (nr / 8)).toBitVec.getLsbD (nr % 8)

/-- `block[bit / 8] &= (char)~(1U << (bit % 8))`. -/
def clearBit (block : Block) (bit : Nat) : Block :=
  Function.update block (bit / 8)
    (block (bit / 8) &&& ~~~((1 : UInt8) <<< UInt8.ofNat (bit % 8)))

/-- `mkfs_calc_ifree_value`. -/
def calcIfreeValue (blockIdx : Nat) : UInt64 :=
  if blockIdx = 0 then 0xfffffffffffffffc else 0xffffffffffffffff

/-- Byte `k` of a word stored least significant byte first. -/
def wordByte (word : UInt64) (k : Nat) : UInt8 := (word >>> UInt64.ofNat (8 * k)).toUInt8

/-- Block `i` as `mkfs_write_ifree_bitmap` fills it, word by word. -/
def ifreeBlock (i : Nat) : Block := fun k =>
  wordByte (if i = 0 ∧ k / 8 = 0 then calcIfreeValue 0 else 0xffffffffffffffff) (k % 8)

/-- `nr_used` of `mkfs_write_bfree_bitmap`. -/
def nrUsed (l : Layout) : UInt32 :=
  1 + l.nrIstoreBlocks + l.nrIfreeBlocks + l.nrBfreeBlocks + 1

/-- The test for a block that is taken from the start. -/
def Marked (l : Layout) (blockNo : UInt32) : Prop :=
  blockNo < nrUsed l ∨ (l.nrJournalBlocks ≠ 0 ∧ l.journalStartBlock ≤ blockNo)

instance (l : Layout) (blockNo : UInt32) : Decidable (Marked l blockNo) :=
  inferInstanceAs (Decidable (_ ∨ _))

/-- The inner loop of `mkfs_write_bfree_bitmap`, which breaks at the end of the device. -/
def markUsed (l : Layout) (blockStart : UInt32) : (fuel bit : Nat) → Block → Block
  | 0, _, block => block
  | fuel + 1, bit, block =>
    let blockNo := blockStart + UInt32.ofNat bit
    if l.nrBlocks ≤ blockNo then block
    else markUsed l blockStart fuel (bit + 1)
      (if Marked l blockNo then clearBit block bit else block)

/-- Block `i` as `mkfs_write_bfree_bitmap` fills it. -/
def bfreeBlock (l : Layout) (i : Nat) : Block :=
  markUsed l (UInt32.ofNat i * blockSize32 * 8) (8 * blockSize) 0 fun _ => 0xff

/-- A bitmap in memory, copied from `count` blocks. -/
def loadBitmap (blocks : Nat → Block) (count : UInt32) : BitMap := fun nr =>
  decide (nr < 8 * blockSize * count.toNat) &&
    bitOf (fun j => blocks (j / blockSize) (j % blockSize)) nr

/-- The bitmap blocks of an image. -/
structure Bitmaps where
  ifree : Nat → Block
  bfree : Nat → Block

def builtBitmaps (l : Layout) : Bitmaps where
  ifree := ifreeBlock
  bfree := bfreeBlock l

/-- The mount options `simplefs_fill_super` applies. -/
structure MountOptions where
  readOnly : Bool := false
  norecovery : Bool := false
  discard : Bool := false

/-- What can go wrong below `simplefs_fill_super`, in the order of the calls. -/
structure MountFaults where
  readSuper : Bool := false
  allocInfo : Bool := false
  allocIfree : Bool := false
  readIfree : Bool := false
  allocBfree : Bool := false
  allocPending : Bool := false
  readBfree : Bool := false
  loadJournal : Fault := none
  reload : Fault := none
  rootInode : Fault := none

/-- The journal range lies strictly between the metadata and the end of the device. -/
def journalRangeOk (sb : Superblock) : Bool :=
  let metaEnd := 1 + sb.nrIstoreBlocks + sb.nrIfreeBlocks + sb.nrBfreeBlocks
  sb.sJournalPresent == 0 ||
    !(decide (sb.sJournalStart ≤ metaEnd) || decide (sb.nrBlocks ≤ sb.sJournalStart))

/-- `bfree_bitmap` once the journal range is taken out. -/
def mountedBfree (sb : Superblock) (blocks : Nat → Block) : BitMap :=
  let loaded := loadBitmap blocks sb.nrBfreeBlocks
  if sb.sJournalPresent ≠ 0 then
    clearRange loaded sb.sJournalStart.toNat (sb.nrBlocks - sb.sJournalStart).toNat
  else loaded

/-- The allocation state after mount: the counters are recomputed from the maps. -/
def mountedSpace (options : MountOptions) (sb : Superblock) (disk : Bitmaps) : Space where
  nrBlocks := sb.nrBlocks.toNat
  nrInodes := sb.nrInodes.toNat
  nrIstoreBlocks := sb.nrIstoreBlocks.toNat
  nrIfreeBlocks := sb.nrIfreeBlocks.toNat
  nrBfreeBlocks := sb.nrBfreeBlocks.toNat
  bfreeBitmap := mountedBfree sb disk.bfree
  ifreeBitmap := loadBitmap disk.ifree sb.nrIfreeBlocks
  discardPending := fun _ => false
  nrFreeBlocks := UInt32.ofNat (weight (mountedBfree sb disk.bfree) sb.nrBlocks.toNat)
  nrFreeInodes :=
    UInt32.ofNat (weight (loadBitmap disk.ifree sb.nrIfreeBlocks) sb.nrInodes.toNat)
  sDiscard := options.discard
  sShutdown := false

/-- `simplefs_fill_super`. `disk` are the bitmaps as they are once the journal is loaded; the
copies made before that are overwritten. -/
def fillSuper (faults : MountFaults) (options : MountOptions) (sb : Superblock) (disk : Bitmaps) :
    Except Errno Space := do
  if faults.readSuper then throw .eio
  if sb.magic ≠ diskMagic then throw .einval
  if faults.allocInfo then throw .enomem
  if faults.allocIfree then throw .enomem
  if faults.readIfree then throw .eio
  if faults.allocBfree then throw .enomem
  if faults.allocPending then throw .enomem
  if faults.readBfree then throw .eio
  if !journalRangeOk sb then throw .efscorrupted
  if options.norecovery && !options.readOnly then throw .einval
  if let some e := faults.loadJournal then throw e
  if let some e := faults.reload then throw e
  if let some e := faults.rootInode then throw e
  return mountedSpace options sb disk

/-! ## Bits of the bitmap blocks -/

theorem getLsbD_one_shiftLeft {i j : Nat} (small : i < 8) (small' : j < 8) :
    ((1 : UInt8) <<< UInt8.ofNat i).toBitVec.getLsbD j = decide (i = j) := by
  have all : ∀ i < 8, ∀ j < 8,
      ((1 : UInt8) <<< UInt8.ofNat i).toBitVec.getLsbD j = decide (i = j) := by decide
  exact all i small j small'

theorem bitOf_clearBit (block : Block) (bit nr : Nat) :
    bitOf (clearBit block bit) nr = (decide (nr ≠ bit) && bitOf block nr) := by
  rw [bitOf, bitOf, clearBit]
  have low : nr % 8 < 8 := Nat.mod_lt _ (by omega)
  by_cases same : nr / 8 = bit / 8
  · rw [same, Function.update_self, UInt8.toBitVec_and, UInt8.toBitVec_not, BitVec.getLsbD_and,
      BitVec.getLsbD_not, getLsbD_one_shiftLeft (Nat.mod_lt _ (by omega)) low, Bool.and_comm]
    congr 1
    simp only [low, decide_true, Bool.true_and, ← decide_not, decide_eq_decide]
    omega
  · have other : nr ≠ bit := fun eq => same (by rw [eq])
    rw [Function.update_of_ne same]
    simp [other]

/-- The loop clears the marked bits from `bit` on, up to its fuel and the end of the device. -/
theorem bitOf_markUsed (l : Layout) (blockStart : UInt32) (fuel bit : Nat) (block : Block)
    (nr : Nat) (bound : blockStart.toNat + bit + fuel ≤ 2 ^ 32) :
    bitOf (markUsed l blockStart fuel bit block) nr =
      (bitOf block nr && !decide (Within bit fuel nr ∧
        blockStart.toNat + nr < l.nrBlocks.toNat ∧ Marked l (blockStart + UInt32.ofNat nr))) := by
  induction fuel generalizing bit block with
  | zero =>
    have none : ¬ Within bit 0 nr := fun within => by
      have := within.1
      have := within.2
      omega
    simp [markUsed, none]
  | succ fuel ih =>
    have here : (blockStart + UInt32.ofNat bit).toNat = blockStart.toNat + bit := by
      rw [UInt32.toNat_add, UInt32.toNat_ofNat_of_lt' (show bit < 2 ^ 32 by omega)]
      omega
    simp only [markUsed, UInt32.le_iff_toNat_le, here]
    split
    · rename_i past
      have outside : ¬ (Within bit (fuel + 1) nr ∧
          blockStart.toNat + nr < l.nrBlocks.toNat ∧
          Marked l (blockStart + UInt32.ofNat nr)) := by
        rintro ⟨within, before, _⟩
        have := within.1
        omega
      simp [outside]
    · rename_i inside
      rw [ih (bit + 1) _ (by omega)]
      by_cases same : nr = bit
      · subst same
        have not : ¬ Within (nr + 1) fuel nr := fun within => by have := within.1; omega
        have yes : Within nr (fuel + 1) nr := ⟨le_rfl, by omega⟩
        have before : blockStart.toNat + nr < l.nrBlocks.toNat := by omega
        by_cases marked : Marked l (blockStart + UInt32.ofNat nr)
        · simp [not, yes, before, marked, bitOf_clearBit]
        · simp [not, marked]
      · have shift : Within (bit + 1) fuel nr ↔ Within bit (fuel + 1) nr := by
          simp only [Within]
          omega
        simp only [shift]
        congr 1
        split
        · rw [bitOf_clearBit]
          simp [same]
        · rfl

theorem bitOf_ifreeBlock (nr : Nat) :
    bitOf (fun j => ifreeBlock (j / blockSize) (j % blockSize)) nr = decide (2 ≤ nr) := by
  have size : blockSize = 4096 := rfl
  have first : ∀ nr < 64,
      (wordByte (calcIfreeValue 0) (nr / 8)).toBitVec.getLsbD (nr % 8) = decide (2 ≤ nr) := by
    decide
  have rest : ∀ k < 8, ∀ m < 8, (wordByte 0xffffffffffffffff k).toBitVec.getLsbD m = true := by
    decide
  simp only [bitOf, ifreeBlock, size]
  split
  · rename_i word
    have low : nr < 64 := by omega
    rw [show nr / 8 % 4096 % 8 = nr / 8 by omega]
    exact first nr low
  · rename_i word
    rw [rest _ (Nat.mod_lt _ (by omega)) _ (Nat.mod_lt _ (by omega))]
    symm
    rw [decide_eq_true_eq]
    omega

theorem bitOf_bfreeBlock (l : Layout) {nr : Nat} (inside : nr < l.nrBlocks.toNat) :
    bitOf (fun j => bfreeBlock l (j / blockSize) (j % blockSize)) nr =
      !decide (Marked l (UInt32.ofNat nr)) := by
  have size : blockSize = 4096 := rfl
  have bound := l.nrBlocks.toNat_lt
  have start : (UInt32.ofNat (nr / 32768) * blockSize32 * 8).toNat = 32768 * (nr / 32768) := by
    rw [UInt32.toNat_mul, UInt32.toNat_mul,
      UInt32.toNat_ofNat_of_lt' (show nr / 32768 < 2 ^ 32 by omega), blockSize32_toNat,
      show (8 : UInt32).toNat = 8 from rfl]
    omega
  have place : bitOf (fun j => bfreeBlock l (j / blockSize) (j % blockSize)) nr =
      bitOf (bfreeBlock l (nr / 32768)) (nr % 32768) := by
    simp only [bitOf, size]
    rw [show nr / 8 / 4096 = nr / 32768 by omega, show nr / 8 % 4096 = nr % 32768 / 8 by omega,
      show nr % 32768 % 8 = nr % 8 by omega]
  have back : UInt32.ofNat (nr / 32768) * blockSize32 * 8 + UInt32.ofNat (nr % 32768) =
      UInt32.ofNat nr := by
    rw [← UInt32.toNat_inj, UInt32.toNat_add, start,
      UInt32.toNat_ofNat_of_lt' (show nr % 32768 < 2 ^ 32 by omega),
      UInt32.toNat_ofNat_of_lt' (show nr < 2 ^ 32 by omega)]
    omega
  have full : ∀ m < 8, (0xff : UInt8).toBitVec.getLsbD m = true := by decide
  rw [place, bfreeBlock, bitOf_markUsed _ _ _ _ _ _ (by rw [start, size]; omega), back, start]
  have within : Within 0 (8 * blockSize) (nr % 32768) := ⟨by omega, by rw [size]; omega⟩
  have before : 32768 * (nr / 32768) + nr % 32768 < l.nrBlocks.toNat := by omega
  simp only [bitOf, full _ (Nat.mod_lt _ (by omega)), within, before, true_and, Bool.true_and]

/-! ## Mounting a fresh image -/

/-- The areas of an image. -/
inductive Area where
  | superblock | inodeTable | ifreeBitmap | bfreeBitmap | data | journal
  deriving DecidableEq, Repr

/-- First block and length of an area. -/
def areaRange (l : Layout) : Area → Nat × Nat
  | .superblock => (0, 1)
  | .inodeTable => (1, l.nrIstoreBlocks.toNat)
  | .ifreeBitmap => (1 + l.nrIstoreBlocks.toNat, l.nrIfreeBlocks.toNat)
  | .bfreeBitmap =>
    (1 + l.nrIstoreBlocks.toNat + l.nrIfreeBlocks.toNat, l.nrBfreeBlocks.toNat)
  | .data => (l.firstDataBlock.toNat, l.nrDataBlocks.toNat)
  | .journal => (l.journalStartBlock.toNat, l.nrJournalBlocks.toNat)

def InArea (l : Layout) (area : Area) (b : Nat) : Prop :=
  Within (areaRange l area).1 (areaRange l area).2 b

section Fresh

variable {imageSize : UInt64} {bytesPerInode : UInt32} {l : Layout}

theorem Accepted.partition (accepted : Accepted imageSize bytesPerInode l) (b : Nat) :
    (b < l.nrBlocks.toNat → ∃ area, InArea l area b) ∧
      ∀ area, InArea l area b → b < l.nrBlocks.toNat ∧ ∀ area', InArea l area' b → area' = area := by
  have plan := calculateLayout_planned accepted.1
  obtain ⟨room, data, _⟩ := accepted.room
  have first := plan.firstDataBlock
  have journal : l.journalStartBlock.toNat + l.nrJournalBlocks.toNat = l.nrBlocks.toNat := by
    have start := plan.journalStartBlock
    have size := plan.nrJournalBlocks
    rw [← plan.nrBlocks] at start size
    split at size
    · omega
    · omega
  constructor
  · intro inside
    by_cases sb : b < 1
    · exact ⟨.superblock, by simp only [InArea, areaRange, Within]; omega⟩
    by_cases istore : b < 1 + l.nrIstoreBlocks.toNat
    · exact ⟨.inodeTable, by simp only [InArea, areaRange, Within]; omega⟩
    by_cases ifree : b < 1 + l.nrIstoreBlocks.toNat + l.nrIfreeBlocks.toNat
    · exact ⟨.ifreeBitmap, by simp only [InArea, areaRange, Within]; omega⟩
    by_cases bfree : b < l.firstDataBlock.toNat
    · exact ⟨.bfreeBitmap, by simp only [InArea, areaRange, Within]; omega⟩
    by_cases tail : b < l.journalStartBlock.toNat
    · exact ⟨.data, by simp only [InArea, areaRange, Within]; omega⟩
    · exact ⟨.journal, by simp only [InArea, areaRange, Within]; omega⟩
  · intro area here
    constructor
    · cases area <;> simp only [InArea, areaRange, Within] at here <;> omega
    · intro area' here'
      cases area <;> cases area' <;>
        simp only [InArea, areaRange, Within, reduceCtorEq] at here here' ⊢ <;> omega

/-- Blocks below `nr_used` are the fixed area and the root extent block. -/
theorem Accepted.nrUsed_eq (accepted : Accepted imageSize bytesPerInode l) :
    (nrUsed l).toNat = l.firstDataBlock.toNat + 1 := by
  have first := (calculateLayout_planned accepted.1).firstDataBlock
  have room := accepted.room.1
  have bound := l.nrBlocks.toNat_lt
  simp only [nrUsed, UInt32.toNat_add, UInt32.toNat_one]
  omega

theorem Accepted.marked_iff (accepted : Accepted imageSize bytesPerInode l) {b : Nat}
    (inside : b < l.nrBlocks.toNat) :
    Marked l (UInt32.ofNat b) ↔
      b < l.firstDataBlock.toNat ∨ b = l.firstDataBlock.toNat ∨ l.journalStartBlock.toNat ≤ b := by
  have plan := calculateLayout_planned accepted.1
  have start := plan.journalStartBlock
  have bound := l.nrBlocks.toNat_lt
  have same : (UInt32.ofNat b).toNat = b := UInt32.toNat_ofNat_of_lt' (show b < 2 ^ 32 by omega)
  rw [Marked, UInt32.lt_iff_toNat_lt, UInt32.le_iff_toNat_le, same, accepted.nrUsed_eq]
  rw [← plan.nrBlocks] at start
  have present : l.nrJournalBlocks ≠ 0 ↔ l.nrJournalBlocks.toNat ≠ 0 := by
    rw [Ne, ← UInt32.toNat_inj, UInt32.toNat_zero]
  rw [present]
  omega

theorem Accepted.builtIfree (accepted : Accepted imageSize bytesPerInode l) {ino : Nat}
    (inside : ino < l.nrInodes.toNat) :
    loadBitmap ifreeBlock l.nrIfreeBlocks ino = decide (2 ≤ ino) := by
  have ifree := (calculateLayout_planned accepted.1).nrIfreeBlocks
  have size : blockSize = 4096 := rfl
  have covered : ino < 8 * blockSize * l.nrIfreeBlocks.toNat := by
    rw [size]
    omega
  rw [loadBitmap, bitOf_ifreeBlock]
  simp [covered]

theorem Accepted.builtBfree (accepted : Accepted imageSize bytesPerInode l) {b : Nat}
    (inside : b < l.nrBlocks.toNat) :
    loadBitmap (bfreeBlock l) l.nrBfreeBlocks b = !decide (Marked l (UInt32.ofNat b)) := by
  have plan := calculateLayout_planned accepted.1
  have bfree := plan.nrBfreeBlocks
  rw [← plan.nrBlocks] at bfree
  have size : blockSize = 4096 := rfl
  have covered : b < 8 * blockSize * l.nrBfreeBlocks.toNat := by
    rw [size]
    omega
  rw [loadBitmap, bitOf_bfreeBlock l inside]
  simp [covered]

theorem Accepted.journalRangeOk (accepted : Accepted imageSize bytesPerInode l) :
    journalRangeOk (initSuperblock l) = true := by
  have plan := calculateLayout_planned accepted.1
  obtain ⟨room, data, some⟩ := accepted.room
  have first := plan.firstDataBlock
  have bound := l.nrBlocks.toNat_lt
  have metaEnd : (1 + l.nrIstoreBlocks + l.nrIfreeBlocks + l.nrBfreeBlocks).toNat =
      l.firstDataBlock.toNat := by
    simp only [UInt32.toNat_add, UInt32.toNat_one]
    omega
  have start := plan.journalStartBlock
  rw [← plan.nrBlocks] at start
  simp only [Mkfs.journalRangeOk, initSuperblock]
  by_cases present : l.nrJournalBlocks > 0
  · have positive : 0 < l.nrJournalBlocks.toNat := UInt32.lt_iff_toNat_lt.1 present
    have above : ¬ l.journalStartBlock ≤
        1 + l.nrIstoreBlocks + l.nrIfreeBlocks + l.nrBfreeBlocks := by
      rw [UInt32.le_iff_toNat_le, metaEnd]
      omega
    have below : ¬ l.nrBlocks ≤ l.journalStartBlock := by
      rw [UInt32.le_iff_toNat_le]
      omega
    simp [above, below]
  · simp [present]

theorem Accepted.mountedBfree_iff (accepted : Accepted imageSize bytesPerInode l) {b : Nat}
    (inside : b < l.nrBlocks.toNat) :
    mountedBfree (initSuperblock l) (bfreeBlock l) b = true ↔
      Within (l.firstDataBlock.toNat + 1) (l.nrDataBlocks.toNat - 1) b := by
  obtain ⟨room, data, some⟩ := accepted.room
  have loaded : loadBitmap (bfreeBlock l) l.nrBfreeBlocks b = true ↔
      Within (l.firstDataBlock.toNat + 1) (l.nrDataBlocks.toNat - 1) b := by
    rw [accepted.builtBfree inside, Bool.not_eq_true', decide_eq_false_iff_not,
      accepted.marked_iff inside, Within]
    omega
  simp only [mountedBfree]
  split
  · rw [clearRange_eq_true]
    refine ⟨fun both => loaded.1 both.2, fun within => ⟨fun tail => ?_, loaded.2 within⟩⟩
    have low : l.journalStartBlock.toNat ≤ b := tail.1
    have high := within.2
    omega
  · exact loaded

theorem Accepted.counts (accepted : Accepted imageSize bytesPerInode l)
    (options : MountOptions) :
    (mountedSpace options (initSuperblock l) (builtBitmaps l)).nrFreeBlocks =
        (initSuperblock l).nrFreeBlocks ∧
      (mountedSpace options (initSuperblock l) (builtBitmaps l)).nrFreeInodes =
        (initSuperblock l).nrFreeInodes := by
  have plan := calculateLayout_planned accepted.1
  obtain ⟨room, data, some⟩ := accepted.room
  have start := plan.journalStartBlock
  have inodes := plan.nrInodes
  rw [wantedInodes] at inodes
  rw [← plan.nrBlocks] at start
  have blockBound := l.nrBlocks.toNat_lt
  have inodeBound := l.nrInodes.toNat_lt
  have blocks : weight (mountedBfree (initSuperblock l) (bfreeBlock l)) l.nrBlocks.toNat =
      l.nrDataBlocks.toNat - 1 :=
    weight_of_range (by omega) fun b inside => accepted.mountedBfree_iff inside
  have free : weight (loadBitmap ifreeBlock l.nrIfreeBlocks) l.nrInodes.toNat =
      l.nrInodes.toNat - 2 := by
    refine @weight_of_range 2 _ _ _ (by omega) fun ino inside => ?_
    rw [accepted.builtIfree inside, decide_eq_true_eq, Within]
    omega
  constructor
  · show UInt32.ofNat (weight (mountedBfree (initSuperblock l) (bfreeBlock l)) l.nrBlocks.toNat) =
      l.nrDataBlocks - 1
    rw [blocks, ← UInt32.toNat_inj,
      UInt32.toNat_ofNat_of_lt' (show _ < 2 ^ 32 by omega),
      UInt32.toNat_sub_of_le _ _ (by rw [UInt32.le_iff_toNat_le]; exact some)]
    rfl
  · show UInt32.ofNat (weight (loadBitmap ifreeBlock l.nrIfreeBlocks) l.nrInodes.toNat) =
      l.nrInodes - 2
    rw [free, ← UInt32.toNat_inj,
      UInt32.toNat_ofNat_of_lt' (show _ < 2 ^ 32 by omega),
      UInt32.toNat_sub_of_le _ _ (by
        rw [UInt32.le_iff_toNat_le]
        show 2 ≤ l.nrInodes.toNat
        omega)]
    rfl

/-- Without faults, and unless recovery is refused on a writable mount, a fresh image mounts. -/
theorem Accepted.mounts (accepted : Accepted imageSize bytesPerInode l) (options : MountOptions)
    (allowed : (options.norecovery && !options.readOnly) = false) (disk : Bitmaps) :
    fillSuper {} options (initSuperblock l) disk =
      .ok (mountedSpace options (initSuperblock l) disk) := by
  simp only [fillSuper, accepted.journalRangeOk, allowed]
  rfl

theorem Accepted.mounted_exact (accepted : Accepted imageSize bytesPerInode l)
    (options : MountOptions) :
    (mountedSpace options (initSuperblock l) (builtBitmaps l)).Exact where
  blocks := UInt32.toNat_ofNat_of_lt' (Space.weight_lt l.nrBlocks.toNat_lt)
  inodes := UInt32.toNat_ofNat_of_lt' (Space.weight_lt l.nrInodes.toNat_lt)
  pending := fun _ waiting => by cases waiting
  superblock := by
    have inside : 0 < l.nrBlocks.toNat := by
      have := accepted.room.1
      omega
    have free := (accepted.mountedBfree_iff inside).not.2 fun within => by
      have := within.1
      omega
    exact Bool.eq_false_iff.2 free
  rootInode := by
    have inside : 0 < l.nrInodes.toNat := by
      rw [(calculateLayout_planned accepted.1).nrInodes, wantedInodes]
      omega
    exact accepted.builtIfree inside
  blockNumbers := l.nrBlocks.toNat_lt
  inodeNumbers := l.nrInodes.toNat_lt

/-- Mkfs and mount agree. The areas partition the device, the inode table holds the inodes,
exactly the first two inodes and the fixed area, the root extent block and the journal are
marked used, and mount accepts the image with the counts that are in its superblock. -/
theorem mkfs_mount_agree (accepted : Accepted imageSize bytesPerInode l) :
    (∀ b, b < l.nrBlocks.toNat ↔ ∃ area, InArea l area b) ∧
    (∀ b area area', InArea l area b → InArea l area' b → area' = area) ∧
    l.nrInodes.toNat ≤ inodesPerBlock * l.nrIstoreBlocks.toNat ∧
    (∀ ino, ino < l.nrInodes.toNat →
      (loadBitmap ifreeBlock l.nrIfreeBlocks ino = false ↔ ino = 0 ∨ ino = 1)) ∧
    (∀ b, b < l.nrBlocks.toNat →
      (loadBitmap (bfreeBlock l) l.nrBfreeBlocks b = false ↔
        b < l.firstDataBlock.toNat ∨ b = l.firstDataBlock.toNat ∨
          l.journalStartBlock.toNat ≤ b)) ∧
    ∀ options : MountOptions, (options.norecovery && !options.readOnly) = false →
      ∃ space, fillSuper {} options (initSuperblock l) (builtBitmaps l) = .ok space ∧
        space.nrFreeBlocks = (initSuperblock l).nrFreeBlocks ∧
        space.nrFreeInodes = (initSuperblock l).nrFreeInodes := by
  have plan := calculateLayout_planned accepted.1
  refine ⟨fun b => ⟨(accepted.partition b).1, fun ⟨area, here⟩ =>
      ((accepted.partition b).2 area here).1⟩,
    fun b area area' here here' => ((accepted.partition b).2 area here).2 area' here',
    ?_, ?_, ?_, fun options allowed => ⟨_, accepted.mounts options allowed _,
      accepted.counts options⟩⟩
  · rw [plan.nrInodes, plan.nrIstoreBlocks]
    exact le_rfl
  · intro ino inside
    rw [accepted.builtIfree inside, decide_eq_false_iff_not]
    omega
  · intro b inside
    rw [accepted.builtBfree inside, Bool.not_eq_false', decide_eq_true_eq,
      accepted.marked_iff inside]

theorem mkfs_mount_agree_smallImage :
    Accepted 26214400 16384 smallImage ∧
      ∃ space, fillSuper {} {} (initSuperblock smallImage) (builtBitmaps smallImage) = .ok space ∧
        space.nrFreeBlocks = 5330 ∧ space.nrFreeInodes = 1636 := by
  have accepted : Accepted 26214400 16384 smallImage := ⟨by decide, by decide⟩
  obtain ⟨space, mounts, blocks, inodes⟩ := (mkfs_mount_agree accepted).2.2.2.2.2 {} rfl
  exact ⟨accepted, space, mounts, blocks.trans (by decide), inodes.trans (by decide)⟩

end Fresh

/-! ## The allocator on a fresh image -/

section Fixed

open Space Space.Ledger

/-- The blocks that belong to no file: the metadata, the root extent block and the journal. -/
def fixedBlocks (l : Layout) : List Nat :=
  (List.range l.nrBlocks.toNat).filter fun b =>
    decide (b ≤ l.firstDataBlock.toNat) || decide (l.journalStartBlock.toNat ≤ b)

/-- The call does not return one of the blocks. -/
def Spares (fixed : List Nat) : Call → Prop
  | .putBlocks _ _ _ _ bno len => ∀ b ∈ fixed, ¬ Within bno len b
  | _ => True

variable {fixed : List Nat}

/-- An allocation that is spared can be added to the ledger without effect on a call. -/
theorem step_spares {call : Call} (spares : Spares fixed call) (ledger : Ledger) :
    step { ledger with blocks := ledger.blocks ++ [fixed] } call =
      { step ledger call with blocks := (step ledger call).blocks ++ [fixed] } := by
  cases call with
  | getFreeBlocks prepare faults len =>
    simp only [step]
    split <;> rfl
  | takeExactBlocks busy faults bno len =>
    simp only [step]
    split <;> rfl
  | putBlocks journaled faults granularity budget bno len =>
    have whole : without bno len fixed = fixed :=
      List.filter_eq_self.2 fun b listed => by simpa using spares b listed
    simp only [step]
    split
    · rw [List.map_append, List.map_singleton, whole]
    · rfl
  | getFreeInode faults => rfl
  | putInode faults ino => rfl

theorem run_spares {calls : List Call} (spares : ∀ call ∈ calls, Spares fixed call)
    (ledger : Ledger) :
    Runs.run step { ledger with blocks := ledger.blocks ++ [fixed] } calls =
      { Runs.run step ledger calls with
        blocks := (Runs.run step ledger calls).blocks ++ [fixed] } := by
  induction calls generalizing ledger with
  | nil => rfl
  | cons call rest ih =>
    obtain ⟨now, later⟩ := List.forall_mem_cons.1 spares
    rw [Runs.run_cons, step_spares now, ih later, Runs.run_cons]

end Fixed

end SimpleFs.Mkfs

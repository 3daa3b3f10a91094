import KernelNotes.Lib.Outcome
import KernelNotes.SimpleFs.ExtentTree

/-!
# Regular files

The block mapping of `simplefs_file.c`: every function loads the extent tree of the inode into a
buffer, changes the buffer, and syncs it. None of the callers holds a journal handle, so the sync
opens its own. Allocations come before the sync and releases after it.
-/

namespace SimpleFs

open Outcome Bits

def maxFileBlocks : Nat := maxBlocksPerExtent * maxFileExtents

/-- The blocks that `size` bytes take. -/
def blocksOf (size : Nat) : Nat := (size + (blockSize - 1)) / blockSize

/-- What the functions here use of the inode, with the store it lives in. The two fields of the
record of speculative blocks are 32-bit words. -/
structure File where
  eiBlock : Nat
  iSize : Nat
  iBlocks : UInt64
  preallocBlock : Nat
  preallocLen : Nat
  store : Store

abbrev FileOp := Op File Errno

/-- `struct simplefs_block_range`. -/
structure BlockRange where
  start : Nat
  len : Nat
  deriving DecidableEq, Repr

/-- What the journal answers to one allocation: the blocks it holds on to, and its handle. -/
structure TakeFaults where
  busy : BitMap := fun _ => false
  handle : Space.HandleFaults := {}

namespace File

def space (file : File) : Space := file.store.space

def disk (file : File) : MetaDisk := file.store.disk

def setSpace (space : Space) (file : File) : File := { file with store := { file.store with space } }

/-- `inode->i_blocks += simplefs_blocks_to_sectors(n)`. -/
def addBlocks (n : Nat) : FileOp Unit :=
  Op.update fun file => { file with iBlocks := file.iBlocks + blocksToSectors n }

/-- `inode->i_blocks -= simplefs_blocks_to_sectors(n)`. -/
def subBlocks (n : Nat) : FileOp Unit :=
  Op.update fun file => { file with iBlocks := file.iBlocks - blocksToSectors n }

/-- `simplefs_file_load_extents` of the inode. -/
def load (faults : LoadFaults) : FileOp Buffer := fun file =>
  (loadExtents faults file.disk file.eiBlock, file)

/-- `simplefs_file_sync_extents` of the inode, under a handle of its own. -/
def sync (faults : SyncFaults) (buf : Buffer) : FileOp Buffer := fun file =>
  let out := syncExtents { faults with own := true } file.eiBlock buf file.iBlocks file.store
  let file' := { file with iBlocks := out.iBlocks, store := out.store }
  match out.ret with
  | some e => (.error e, file')
  | none => (.ok out.buf, file')

/-- `put_blocks`, whose result nobody looks at. -/
def put (faults : Space.HandleFaults) (range : BlockRange) : FileOp Unit :=
  Op.update fun file => file.setSpace (Space.putBlocks faults range.start range.len file.space).2

/-- The loop over the freed ranges. -/
def putRanges (faults : Nat → Space.HandleFaults) : List BlockRange → Nat → Space → Space
  | [], _, space => space
  | range :: rest, i, space =>
    putRanges faults rest (i + 1) (Space.putBlocks (faults i) range.start range.len space).2

/-! ## Allocating -/

/-- The `get_free_blocks` loop, with half the length after each failure: the first block or zero,
and the last length tried. -/
def freeRun (tries : Nat → TakeFaults) (len i : Nat) (space : Space) : Nat × Nat × Space :=
  match Space.getFreeBlocks (tries i).busy (tries i).handle len space with
  | (0, space) => if 1 < len then freeRun tries (len / 2) (i + 1) space else (0, len, space)
  | (bno + 1, space) => (bno + 1, len, space)
termination_by len

/-- The `simplefs_take_exact_blocks` loop: the length taken, or zero. -/
def growRun (tries : Nat → TakeFaults) (start len i : Nat) (space : Space) : Nat × Space :=
  if len = 0 then (0, space)
  else match Space.takeExactBlocks (tries i).busy (tries i).handle start len space with
    | (true, space) => (len, space)
    | (false, space) => growRun tries start (len / 2) (i + 1) space
termination_by len

/-- An allocation for the inode; zero blocks are `ENOSPC`. -/
def takeFree (tries : Nat → TakeFaults) (len : Nat) : FileOp BlockRange := fun file =>
  match freeRun tries len 0 file.space with
  | (0, _, space) => (.error .enospc, file.setSpace space)
  | (bno + 1, len, space) => (.ok ⟨bno + 1, len⟩, file.setSpace space)

/-- An allocation behind a given block; zero is no error. -/
def takeBehind (tries : Nat → TakeFaults) (start len : Nat) : FileOp Nat := fun file =>
  let (n, space) := growRun tries start len 0 file.space
  (.ok n, file.setSpace space)

/-! ## Changing the state of an extent -/

/-- `simplefs_convert_unwritten_extent` and `simplefs_mark_unwritten_extent` differ in the state
they give to the blocks: an extent in the other state is cut into a head, the blocks, and a tail. -/
def restatePieces (unwritten : Bool) (iblock mapLen : Nat) (orig : Extent) : List Extent :=
  if orig.unwritten = unwritten then [orig]
  else
    let head := iblock - orig.eeBlock
    let mid := min mapLen (orig.extLen - head)
    let tail := orig.extLen - head - mid
    (if head = 0 then [] else [.init orig.eeBlock head orig.eeStart (!unwritten)]) ++
      [⟨iblock, mid, (orig.eeStart + head) % wordSize, unwritten⟩] ++
      (if tail = 0 then []
        else [.init (iblock + mid) tail ((orig.eeStart + head + mid) % wordSize) (!unwritten)])

/-- `simplefs_convert_unwritten_extent`. -/
def convertPieces : Nat → Nat → Extent → List Extent := restatePieces false

/-- `simplefs_mark_unwritten_extent`. -/
def markPieces : Nat → Nat → Extent → List Extent := restatePieces true

/-- The extent at an index is replaced by its pieces. Growing the buffer for a head or a tail can
fail. -/
def cutAt (nomem : Bool) (pieces : Extent → List Extent) (idx : Nat) (extents : List Extent) :
    Except Errno (List Extent) :=
  match extents[idx]? with
  | none => .error .euclean
  | some e =>
    if nomem && decide (1 < (pieces e).length) then .error .enomem
    else .ok (extents.take idx ++ pieces e ++ extents.drop (idx + 1))

/-! ## Mapping a block -/

structure GetFaults where
  load : LoadFaults := {}
  grow : Nat → TakeFaults := fun _ => {}
  free : Nat → TakeFaults := fun _ => {}
  zeroout : Fault := none
  insert : Bool := false
  put : Space.HandleFaults := {}
  sync : SyncFaults := {}

/-- The arguments of `simplefs_get_block` that choose between its paths. -/
structure GetMode where
  create : Bool := true
  exactAlloc : Bool := false
  createUnwritten : Bool := false
  convertUnwritten : Bool := false
  deriving DecidableEq, Repr

/-- What `simplefs_get_block` returns: the number of blocks mapped, the first of them on the device,
and the flags. -/
structure Mapping where
  blocks : Nat
  bno : Nat
  isNew : Bool
  unwritten : Bool
  deriving DecidableEq, Repr

/-- The answer for a block that is not mapped. -/
def Mapping.hole : Mapping := ⟨0, 0, false, false⟩

/-- The answer for a block in an extent. -/
def Mapping.inside (iblock : Nat) (e : Extent) : Mapping :=
  ⟨e.extLen - (iblock - e.eeBlock), (e.eeStart + (iblock - e.eeBlock)) % wordSize, false, e.unwritten⟩

/-- The length of the hole that is filled, at most `maxblocks` and up to the next extent. -/
def holeLen (extents : List Extent) (insertIdx iblock maxblocks : Nat) : Nat :=
  let len := min (maxblocks % wordSize) maxBlocksPerExtent
  match extents[insertIdx]? with
  | some next => if next.eeBlock < iblock + len then next.eeBlock - iblock else len
  | none => len

/-- The extent before the hole, if it can grow into it. -/
def growable (unwritten : Bool) (extents : List Extent) (insertIdx iblock : Nat) :
    Option (Nat × Extent) :=
  match insertIdx with
  | 0 => none
  | k + 1 => match extents[k]? with
    | some prev =>
      if !prev.isEmpty && prev.unwritten == unwritten && prev.extEnd == iblock &&
          decide (prev.extLen < maxBlocksPerExtent) then some (k, prev) else none
    | none => none

/-- The path that grows the extent before the hole by `n` blocks that have been taken. -/
def growExtent (faults : GetFaults) (mode : GetMode) (buf : Buffer) (k : Nat) (prev : Extent)
    (start n : Nat) : FileOp Mapping := do
  Op.onError (Op.check (if mode.exactAlloc then faults.zeroout else none))
    fun _ => put faults.put ⟨start, n⟩
  addBlocks n
  let _ ← sync faults.sync
    { buf with extents := buf.extents.set k (prev.setLen (prev.extLen + n)) }
  return ⟨n, start, true, mode.createUnwritten⟩

/-- The path that puts a new extent into the hole. Its `blkdev_issue_zeroout` is not looked at. -/
def newExtent (faults : GetFaults) (mode : GetMode) (buf : Buffer) (iblock len insertIdx : Nat) :
    FileOp Mapping := do
  let range ← takeFree faults.free len
  Op.onError (Op.refuse faults.insert .enomem) fun _ => put faults.put range
  addBlocks range.len
  let _ ← Op.onError (sync faults.sync { buf with
      extents := buf.extents.insertIdx insertIdx
        (.init iblock range.len range.start mode.createUnwritten) })
    fun _ => put faults.put range
  return ⟨range.len, range.start, true, mode.createUnwritten⟩

/-- `simplefs_get_block` for a block that is not mapped. -/
def fillHole (faults : GetFaults) (mode : GetMode) (buf : Buffer) (iblock maxblocks insertIdx : Nat) :
    FileOp Mapping := do
  let len := holeLen buf.extents insertIdx iblock maxblocks
  match growable mode.createUnwritten buf.extents insertIdx iblock with
  | none => newExtent faults mode buf iblock len insertIdx
  | some (k, prev) => do
    let start := (prev.eeStart + prev.extLen) % wordSize
    let n ← takeBehind faults.grow start (min len (maxBlocksPerExtent - prev.extLen))
    if n = 0 then newExtent faults mode buf iblock len insertIdx
    else growExtent faults mode buf k prev start n

/-- `simplefs_get_block` for a block in the extent at `idx`. -/
def useExtent (faults : GetFaults) (mode : GetMode) (buf : Buffer) (iblock maxblocks idx : Nat)
    (e : Extent) : FileOp Mapping :=
  if mode.create && mode.convertUnwritten && e.unwritten then do
    let extents ← Op.lift
      (cutAt faults.insert (convertPieces iblock (maxblocks % wordSize)) idx buf.extents)
    let buf ← sync faults.sync { buf with extents }
    let (found, at_) := findExtent iblock buf.extents
    match buf.extents[if found then at_ else idx]? with
    | none => Op.fail .euclean
    | some e => return Mapping.inside iblock e
  else return Mapping.inside iblock e

/-- `simplefs_get_block`. -/
def getBlock (faults : GetFaults) (mode : GetMode) (iblock maxblocks : Nat) : FileOp Mapping := do
  Op.refuse (decide (maxFileBlocks ≤ iblock)) .efbig
  let buf ← load faults.load
  let (found, idx) := findExtent iblock buf.extents
  if found then
    match buf.extents[idx]? with
    | none => Op.fail .euclean
    | some e => useExtent faults mode buf iblock maxblocks idx e
  else if mode.create then fillHole faults mode buf iblock maxblocks idx
  else return Mapping.hole

/-! ## Reporting -/

inductive IomapType where
  | hole | mapped | unwritten
  deriving DecidableEq, Repr

/-- The part of `struct iomap` that a report fills in, in bytes. A hole has no address. -/
structure ReportMap where
  offset : Nat
  length : Nat
  addr : Option Nat
  type : IomapType
  deriving DecidableEq, Repr

/-- The part of an extent that is reported for `iblock`, and whether as unwritten. The record of
speculative blocks cuts a written extent into up to three parts. -/
def reportPart (file : File) (iblock : Nat) (e : Extent) : Nat × Nat × Bool :=
  let preStart := file.preallocBlock
  let preEnd := (preStart + file.preallocLen) % wordSize
  if !e.unwritten && decide (file.preallocLen ≠ 0) && decide (preStart < e.extEnd) &&
      decide (e.eeBlock < preEnd) then
    if iblock < preStart then (e.eeBlock, min e.extEnd preStart, false)
    else if iblock < preEnd then (max e.eeBlock preStart, min e.extEnd preEnd, true)
    else (max e.eeBlock preEnd, e.extEnd, false)
  else (e.eeBlock, e.extEnd, e.unwritten)

/-- The end of the hole at `iblock`. -/
def holeEnd (file : File) (extents : List Extent) (insertIdx iblock : Nat) : Nat :=
  let eof := blocksOf file.iSize % wordSize
  let stop := match extents[insertIdx]? with
    | some next => min eof next.eeBlock
    | none => eof
  if stop ≤ iblock then (iblock + 1) % wordSize else stop

/-- `simplefs_report_iomap_begin`. -/
def reportIomapBegin (faults : LoadFaults) (offset : Nat) : FileOp ReportMap := do
  let iblock := offset / blockSize % wordSize
  let buf ← load faults
  let file ← Op.read
  let (found, idx) := findExtent iblock buf.extents
  if found then
    match buf.extents[idx]? with
    | none => Op.fail .euclean
    | some e =>
      let (mapStart, mapEnd, unwritten) := reportPart file iblock e
      return {
        offset := mapStart * blockSize
        length := (mapEnd - mapStart) * blockSize
        addr := some ((e.eeStart + (mapStart - e.eeBlock)) % wordSize * blockSize)
        type := if unwritten then .unwritten else .mapped }
  else return {
    offset := iblock * blockSize
    length := (holeEnd file buf.extents idx iblock - iblock) * blockSize
    addr := none
    type := .hole }

end File

end SimpleFs

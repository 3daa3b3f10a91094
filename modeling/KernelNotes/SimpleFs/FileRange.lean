import KernelNotes.SimpleFs.File

/-!
# Operations on ranges of a file

The functions that go over the whole extent list: converting and zeroing ranges, truncating,
punching, collapsing and inserting, and the record of speculative blocks that they cut and shift.
Byte counts are natural numbers; block numbers are 32-bit words.
-/

namespace SimpleFs

namespace File

open Outcome Bits

/-! ## Converting and zeroing -/

/-- The scan of `simplefs_convert_unwritten_range` at index `i` after `n` conversions. A conversion
sets the index to zero, and the loop header then counts it up. -/
def convertLoop (nomem : Nat → Bool) (startBlock endBlock : Nat) :
    Nat → Nat → Nat → List Extent → Option (Except Errno (List Extent))
  | 0, _, _, _ => none
  | fuel + 1, i, n, extents =>
    match extents[i]? with
    | none => some (.ok extents)
    | some e =>
      if !e.unwritten || decide (e.extEnd ≤ startBlock) || decide (endBlock ≤ e.eeBlock) then
        convertLoop nomem startBlock endBlock fuel (i + 1) n extents
      else
        let mapStart := max e.eeBlock startBlock
        let mapLen := min e.extEnd endBlock - mapStart
        match cutAt (nomem n) (convertPieces mapStart mapLen) i extents with
        | .error err => some (.error err)
        | .ok extents => convertLoop nomem startBlock endBlock fuel 1 (n + 1) extents

structure ConvertFaults where
  load : LoadFaults := {}
  nomem : Nat → Bool := fun _ => false
  sync : SyncFaults := {}

/-- `simplefs_convert_unwritten_range`; without a result the scan has not ended within `fuel`
rounds. -/
def convertUnwrittenRange (faults : ConvertFaults) (fuel offset len : Nat) (file : File) :
    Option (Except Errno Unit × File) :=
  let startBlock := offset / blockSize % wordSize
  let endBlock := blocksOf (offset + len) % wordSize
  if len = 0 ∨ endBlock ≤ startBlock then some (.ok (), file)
  else match load faults.load file with
    | (.error e, file) => some (.error e, file)
    | (.ok buf, file) =>
      (convertLoop faults.nomem startBlock endBlock fuel 0 0 buf.extents).map fun scanned =>
        (do
          let extents ← Op.lift scanned
          let _ ← sync faults.sync { buf with extents }
          pure () : FileOp Unit) file

structure MarkFaults where
  load : LoadFaults := {}
  insert : Bool := false
  sync : SyncFaults := {}

/-- `simplefs_mark_unwritten_range`. -/
def markUnwrittenRange (faults : MarkFaults) (startBlock nrBlocks : Nat) : FileOp Unit :=
  Op.given (nrBlocks ≠ 0) do
    let buf ← load faults.load
    let (found, idx) := findExtent startBlock buf.extents
    Op.refuse (!found) .euclean
    let extents ← Op.lift (cutAt faults.insert (markPieces startBlock nrBlocks) idx buf.extents)
    let _ ← sync faults.sync { buf with extents }
    pure ()

/-- The faults of `simplefs_zero_range_full_blocks`; those of its loop are numbered by the rounds
that are left. -/
structure ZeroFaults where
  kvmalloc : Bool := false
  load : LoadFaults := {}
  mark : Nat → Bool := fun _ => false
  free : Nat → Nat → TakeFaults := fun _ _ => {}
  insert : Nat → Bool := fun _ => false
  put : Nat → Space.HandleFaults := fun _ => {}
  sync : SyncFaults := {}
  undo : Nat → Space.HandleFaults := fun _ => {}

/-- The length that is asked for at a hole. -/
def zeroLen (extents : List Extent) (insertIdx block last : Nat) : Nat :=
  min (match extents[insertIdx]? with
    | some next => if next.eeBlock < last then next.eeBlock - block else last - block
    | none => last - block) maxBlocksPerExtent

/-- A written extent from `block` on is marked unwritten, up to `convEnd`. -/
def zeroExtent (nomem : Bool) (extents : List Extent) (idx block convEnd : Nat) (e : Extent) :
    Except Errno (List Extent) :=
  if e.unwritten then .ok extents
  else cutAt nomem (markPieces block (convEnd - block)) idx extents

/-- The loop of `simplefs_zero_range_full_blocks` at `block`: the extents, and the ranges that have
been allocated, the last one first. Every round moves on, so there are no more rounds than
blocks. -/
def zeroLoop (faults : ZeroFaults) (last : Nat) :
    Nat → Nat → List Extent → List BlockRange → FileOp (List Extent × List BlockRange)
  | 0, _, extents, alloced => pure (extents, alloced)
  | rounds + 1, block, extents, alloced =>
    if last ≤ block then pure (extents, alloced)
    else if (findExtent block extents).1 then
      match extents[(findExtent block extents).2]? with
      | none => Op.fail .euclean
      | some e => do
        let extents ← Op.lift (zeroExtent (faults.mark rounds) extents
          (findExtent block extents).2 block (min e.extEnd last) e)
        zeroLoop faults last rounds (min e.extEnd last) extents alloced
    else do
      let idx := (findExtent block extents).2
      let range ← takeFree (faults.free rounds) (zeroLen extents idx block last)
      Op.onError (Op.refuse (faults.insert rounds) .enomem) fun _ => put (faults.put rounds) range
      addBlocks range.len
      zeroLoop faults last rounds (block + range.len)
        (extents.insertIdx idx (.init block range.len range.start true)) (range :: alloced)

/-- The loop that gives the ranges back. -/
def undoRanges (faults : Nat → Space.HandleFaults) : List BlockRange → Nat → FileOp Unit
  | [], _ => pure ()
  | range :: rest, i => do
    put (faults i) range
    subBlocks range.len
    undoRanges faults rest (i + 1)

/-- `simplefs_zero_range_full_blocks`. -/
def zeroRangeFullBlocks (faults : ZeroFaults) (first last : Nat) : FileOp Unit := do
  Op.refuse faults.kvmalloc .enomem
  let buf ← load faults.load
  let (extents, alloced) ← zeroLoop faults last (last - first) first buf.extents []
  let _ ← Op.onError (sync faults.sync { buf with extents })
    fun _ => undoRanges faults.undo alloced 0
  pure ()

/-! ## The record of speculative blocks -/

/-- The end of the record. -/
def preEnd (file : File) : Nat := (file.preallocBlock + file.preallocLen) % wordSize

def clearPrealloc (file : File) : File := { file with preallocBlock := 0, preallocLen := 0 }

/-- `simplefs_prealloc_written`: the blocks of the bytes from `offset` on leave the record. -/
def preallocWritten (offset len : Nat) (file : File) : File :=
  let writeStart := (offset / blockSize) % wordSize
  let writeEnd := blocksOf (offset + len) % wordSize
  if file.preallocLen = 0 then file
  else if writeEnd ≤ file.preallocBlock ∨ file.preEnd ≤ writeStart then file
  else if writeStart ≤ file.preallocBlock then
    if file.preEnd ≤ writeEnd then file.clearPrealloc
    else { file with preallocLen := file.preEnd - writeEnd, preallocBlock := writeEnd }
  else if file.preEnd ≤ writeEnd then { file with preallocLen := writeStart - file.preallocBlock }
  -- a write in the middle splits the range, and only its tail is kept
  else { file with preallocLen := file.preEnd - writeEnd, preallocBlock := writeEnd }

/-- `simplefs_prealloc_collapse`. -/
def preallocCollapse (startBlock n : Nat) (file : File) : File :=
  let cutEnd := (startBlock + n) % wordSize
  if file.preallocLen = 0 ∨ file.preEnd ≤ startBlock then file
  else if cutEnd ≤ file.preallocBlock then { file with preallocBlock := file.preallocBlock - n }
  else if file.preallocBlock < startBlock ∧ cutEnd < file.preEnd then file.clearPrealloc
  else if file.preallocBlock < startBlock then
    { file with preallocLen := startBlock - file.preallocBlock }
  else if cutEnd < file.preEnd then
    { file with preallocBlock := startBlock, preallocLen := file.preEnd - cutEnd }
  else file.clearPrealloc

/-- `simplefs_prealloc_insert`. -/
def preallocInsert (startBlock n : Nat) (file : File) : File :=
  if file.preallocLen = 0 ∨ file.preEnd ≤ startBlock then file
  else if startBlock ≤ file.preallocBlock then
    { file with preallocBlock := (file.preallocBlock + n) % wordSize }
  else { file with preallocLen := startBlock - file.preallocBlock }

/-- `iomap_zero_range` with the write operations: it allocates nothing, and each piece it has gone
through is reported to `simplefs_write_iomap_end`. -/
def zeroPieces (pieces : List (Nat × Nat)) (file : File) : File :=
  pieces.foldl (fun file piece => if piece.2 = 0 then file else preallocWritten piece.1 piece.2 file) file

/-! ## Unmapping -/

/-- `blocks_freed`, a 32-bit sum. -/
def rangeBlocks (ranges : List BlockRange) : Nat := (ranges.map BlockRange.len).sum % wordSize

/-- The sync of a list from which blocks have been taken out, and the release of these blocks. -/
def releaseRanges (faults : SyncFaults) (puts : Nat → Space.HandleFaults) (buf : Buffer)
    (freed : List BlockRange) : FileOp Unit := do
  let _ ← sync faults buf
  Op.update fun file => file.setSpace (putRanges puts freed 0 file.space)
  subBlocks (rangeBlocks freed)

/-- What a truncate leaves of an extent. -/
def truncatePieces (newBlocks : Nat) (e : Extent) : List Extent :=
  if newBlocks ≤ e.eeBlock then [e.clear]
  else if newBlocks < e.extEnd then [e.setLen (newBlocks - e.eeBlock)]
  else [e]

/-- What a truncate frees of an extent. -/
def truncateFreed (newBlocks : Nat) (e : Extent) : List BlockRange :=
  if newBlocks ≤ e.eeBlock then [⟨e.eeStart, e.extLen⟩]
  else if newBlocks < e.extEnd then
    [⟨(e.eeStart + (newBlocks - e.eeBlock)) % wordSize, e.extLen - (newBlocks - e.eeBlock)⟩]
  else []

/-- The part of `simplefs_truncate` that cuts the record: whether its tail is cut, and the inode. -/
def trimPrealloc (size : Nat) (file : File) : Bool × File :=
  let newEnd := blocksOf size % wordSize
  if file.preallocLen = 0 then (false, file)
  else (decide (newEnd < file.preEnd),
    if newEnd ≤ file.preallocBlock then file.clearPrealloc
    else if newEnd < file.preEnd then { file with preallocLen := newEnd - file.preallocBlock }
    else file)

structure TruncateFaults where
  zero : Fault := none
  pieces : List (Nat × Nat) := []
  writeback : Fault := none
  load : LoadFaults := {}
  kvmalloc : Bool := false
  sync : SyncFaults := {}
  put : Nat → Space.HandleFaults := fun _ => {}

/-- The loop over the extents, and the sync when it has freed something. -/
def dropTail (faults : TruncateFaults) (newBlocks : Nat) : FileOp Unit := do
  let buf ← load faults.load
  Op.refuse (!buf.extents.isEmpty && faults.kvmalloc) .enomem
  Op.given (0 < rangeBlocks (buf.extents.flatMap (truncateFreed newBlocks)))
    (releaseRanges faults.sync faults.put
      { buf with extents := buf.extents.flatMap (truncatePieces newBlocks) }
      (buf.extents.flatMap (truncateFreed newBlocks)))

/-- The test of `simplefs_truncate` that skips the extents: the file gets shorter within its last
block. -/
def skipsExtents (size : Nat) (file : File) : Bool :=
  decide (size ≠ file.iSize) && decide (blocksOf size % wordSize = blocksOf file.iSize % wordSize) &&
    !(trimPrealloc size file).1

/-- `simplefs_truncate`. -/
def truncate (faults : TruncateFaults) (size : Nat) : FileOp Unit := do
  let file ← Op.read
  if file.iSize < size then do
    Op.update fun file => zeroPieces faults.pieces { file with iSize := size }
    Op.onError (Op.check faults.zero) fun _ =>
      (Op.update fun file' => { file' with iSize := file.iSize } : FileOp Unit)
  else do
    Op.update fun file => (trimPrealloc size file).2
    Op.check faults.writeback
    Op.update fun file => zeroPieces faults.pieces file
    Op.check faults.zero
    Op.update fun file => { file with iSize := size }
    Op.given (skipsExtents size file = false) (dropTail faults (blocksOf size % wordSize))

/-- What a punched hole leaves of an extent, case by case as in the loop. -/
def punchPieces (firstFull lastExcl : Nat) (e : Extent) : List Extent :=
  if e.extEnd ≤ firstFull ∨ lastExcl ≤ e.eeBlock then [e]
  else if firstFull ≤ e.eeBlock ∧ e.extEnd ≤ lastExcl then [e.clear]
  else if e.eeBlock < firstFull ∧ lastExcl < e.extEnd then
    [e.setLen (firstFull - e.eeBlock),
      .init lastExcl (e.extEnd - lastExcl)
        ((e.eeStart + (firstFull - e.eeBlock) + (lastExcl - firstFull)) % wordSize) e.unwritten]
  else if e.eeBlock < firstFull then [e.setLen (firstFull - e.eeBlock)]
  else
    [({ e with
        eeBlock := lastExcl
        eeStart := (e.eeStart + (lastExcl - e.eeBlock)) % wordSize } : Extent).setLen
      (e.extLen - (lastExcl - e.eeBlock))]

/-- What a punched hole frees of an extent. -/
def punchFreed (firstFull lastExcl : Nat) (e : Extent) : List BlockRange :=
  if e.extEnd ≤ firstFull ∨ lastExcl ≤ e.eeBlock then []
  else if firstFull ≤ e.eeBlock ∧ e.extEnd ≤ lastExcl then [⟨e.eeStart, e.extLen⟩]
  else if e.eeBlock < firstFull ∧ lastExcl < e.extEnd then
    [⟨(e.eeStart + (firstFull - e.eeBlock)) % wordSize, lastExcl - firstFull⟩]
  else if e.eeBlock < firstFull then
    [⟨(e.eeStart + (firstFull - e.eeBlock)) % wordSize, e.extLen - (firstFull - e.eeBlock)⟩]
  else [⟨e.eeStart, lastExcl - e.eeBlock⟩]

structure PunchFaults where
  modified : Fault := none
  writeback : Fault := none
  zero : Fault := none
  pieces : List (Nat × Nat) := []
  load : LoadFaults := {}
  kvmalloc : Bool := false
  insert : Bool := false
  sync : SyncFaults := {}
  put : Nat → Space.HandleFaults := fun _ => {}

/-- The part of `simplefs_fallocate_punch_hole` under the extent lock. Only a hole inside an extent
makes the list longer. -/
def punchBlocks (faults : PunchFaults) (firstFull lastExcl : Nat) : FileOp Unit := do
  let buf ← load faults.load
  Op.refuse (!buf.extents.isEmpty && faults.kvmalloc) .enomem
  Op.refuse (faults.insert &&
    buf.extents.any fun e => decide (1 < (punchPieces firstFull lastExcl e).length)) .enomem
  Op.given (0 < rangeBlocks (buf.extents.flatMap (punchFreed firstFull lastExcl)))
    (releaseRanges faults.sync faults.put
      { buf with extents := buf.extents.flatMap (punchPieces firstFull lastExcl) }
      (buf.extents.flatMap (punchFreed firstFull lastExcl)))

/-- `simplefs_fallocate_punch_hole`; `file_modified` is asked on behalf of a user only. -/
def punchHole (faults : PunchFaults) (userVisible : Bool) (offset len : Nat) : FileOp Unit := do
  let file ← Op.read
  Op.given (offset < file.iSize) do
    let stop := min (offset + len) file.iSize
    Op.check (if userVisible then faults.modified else none)
    Op.check faults.writeback
    Op.update fun file => zeroPieces faults.pieces file
    Op.check faults.zero
    let firstFull := blocksOf offset % wordSize
    let lastExcl := stop / blockSize % wordSize
    Op.given (firstFull < lastExcl) (punchBlocks faults firstFull lastExcl)

structure DiscardFaults where
  punch : PunchFaults := {}
  truncate : TruncateFaults := {}

/-- `simplefs_discard_prealloc`. -/
def discardPrealloc (faults : DiscardFaults) : FileOp Unit := do
  let file ← Op.read
  Op.given (file.preallocLen ≠ 0) do
    let start := file.preallocBlock * blockSize
    let stop := file.preEnd * blockSize
    Op.update clearPrealloc
    Op.given (start < file.iSize)
      (punchHole faults.punch false start (min stop file.iSize - start))
    truncate faults.truncate file.iSize

/-! ## Shifting -/

/-- `simplefs_append_extent_slice`: what it appends. -/
def slice (src : Extent) (logicalStart logicalLen physicalStart : Nat) : List Extent :=
  if logicalLen = 0 then [] else [.init logicalStart logicalLen physicalStart src.unwritten]

/-- What a collapse makes of an extent. -/
def collapsePieces (startBlock endBlock : Nat) (e : Extent) : List Extent :=
  let n := endBlock - startBlock
  if e.extEnd ≤ startBlock then [e]
  else if endBlock ≤ e.eeBlock then slice e (e.eeBlock - n) e.extLen e.eeStart
  else
    (if e.eeBlock < startBlock then slice e e.eeBlock (startBlock - e.eeBlock) e.eeStart else []) ++
      if endBlock < e.extEnd then
        slice e (endBlock - n) (e.extEnd - endBlock) ((e.eeStart + (endBlock - e.eeBlock)) % wordSize)
      else []

/-- What a collapse frees of an extent. -/
def collapseFreed (startBlock endBlock : Nat) (e : Extent) : List BlockRange :=
  if e.extEnd ≤ startBlock ∨ endBlock ≤ e.eeBlock then []
  else
    let overlapStart := max e.eeBlock startBlock
    let overlapEnd := min e.extEnd endBlock
    if overlapStart < overlapEnd then
      [⟨(e.eeStart + (overlapStart - e.eeBlock)) % wordSize, overlapEnd - overlapStart⟩]
    else []

/-- What an insertion makes of an extent. -/
def insertPieces (startBlock n : Nat) (e : Extent) : List Extent :=
  if e.extEnd ≤ startBlock then [e]
  else if startBlock ≤ e.eeBlock then slice e ((e.eeBlock + n) % wordSize) e.extLen e.eeStart
  else
    slice e e.eeBlock (startBlock - e.eeBlock) e.eeStart ++
      slice e ((startBlock + n) % wordSize) (e.extEnd - startBlock)
        ((e.eeStart + (startBlock - e.eeBlock)) % wordSize)

structure ShiftFaults where
  newsize : Fault := none
  writeback : Fault := none
  load : LoadFaults := {}
  kvmalloc : Bool := false
  append : Bool := false
  sync : SyncFaults := {}
  put : Nat → Space.HandleFaults := fun _ => {}

/-- The new list: the full extents are rebuilt one by one, and the whole is normalised. -/
def rebuild (pieces : Extent → List Extent) (extents : List Extent) : List Extent :=
  (extents.filter fun e => !e.isEmpty).flatMap pieces

/-- `simplefs_fallocate_collapse`. -/
def collapseRange (faults : ShiftFaults) (offset len : Nat) : FileOp Unit := do
  let file ← Op.read
  Op.refuse (decide (offset % blockSize ≠ 0) || decide (len % blockSize ≠ 0)) .einval
  Op.refuse (decide (file.iSize < offset + len)) .einval
  Op.check faults.writeback
  let startBlock := offset / blockSize % wordSize
  let endBlock := (offset + len) / blockSize % wordSize
  let buf ← load faults.load
  Op.refuse (!buf.extents.isEmpty && faults.kvmalloc) .enomem
  let extents := rebuild (collapsePieces startBlock endBlock) buf.extents
  let freed := (buf.extents.filter fun e => !e.isEmpty).flatMap (collapseFreed startBlock endBlock)
  Op.refuse (faults.append && !extents.isEmpty) .enomem
  let _ ← sync faults.sync { buf with extents := normalizeExtents extents }
  Op.update fun file => file.setSpace (putRanges faults.put freed 0 file.space)
  Op.update fun file => { preallocCollapse startBlock (endBlock - startBlock) file with
    iSize := file.iSize - len }
  subBlocks (rangeBlocks freed)

/-- `simplefs_fallocate_insert`. -/
def insertRange (faults : ShiftFaults) (offset len : Nat) : FileOp Unit := do
  let file ← Op.read
  Op.refuse (decide (offset % blockSize ≠ 0) || decide (len % blockSize ≠ 0)) .einval
  Op.refuse (decide (file.iSize < offset)) .einval
  Op.check faults.newsize
  Op.refuse (decide (maxFilesize < file.iSize + len)) .efbig
  Op.check faults.writeback
  let n := len / blockSize % wordSize
  let startBlock := offset / blockSize % wordSize
  let buf ← load faults.load
  let extents := rebuild (insertPieces startBlock n) buf.extents
  Op.refuse (faults.append && !extents.isEmpty) .enomem
  let _ ← sync faults.sync { buf with extents := normalizeExtents extents }
  Op.update fun file => { preallocInsert startBlock n file with iSize := file.iSize + len }

end File

end SimpleFs

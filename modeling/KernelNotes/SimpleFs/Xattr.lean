import KernelNotes.Lib.Bytes
import KernelNotes.Lib.Outcome
import KernelNotes.Lib.Run
import KernelNotes.SimpleFs.ExtentTree

/-!
# The extended-attribute block

`simplefs_xattr.c`: an inode has at most one block of attributes. A header counts the entries,
which follow it and grow up, and the values they point to grow down from the end of the
block. Every change rebuilds the block in a second buffer. `get`, `set`, `listxattr` and the
validation each walk the bytes with a loop of their own.
-/

namespace SimpleFs.Xattr

open Bytes Outcome

def magic : Nat := 0x53584154

/-- `sizeof(struct simplefs_xattr_header)`. -/
def headerSize : Nat := 8

/-- `sizeof(struct simplefs_xattr_entry)` without the name. -/
def entryHeaderSize : Nat := 8

/-- `SIMPLEFS_XATTR_ENTRY_SIZE`: rounded up to four bytes. -/
def entrySize (nameLen : Nat) : Nat := (entryHeaderSize + nameLen + 3) / 4 * 4

def hMagic (block : Bytes.Buffer) : Nat := load 4 block 0

def hCount (block : Bytes.Buffer) : Nat := load 4 block 4

def eNameLen (block : Bytes.Buffer) (entry : Nat) : Nat := load 1 block entry

def eValueOffs (block : Bytes.Buffer) (entry : Nat) : Nat := load 2 block (entry + 2)

def eValueSize (block : Bytes.Buffer) (entry : Nat) : Nat := load 4 block (entry + 4)

def eName (block : Bytes.Buffer) (entry nameLen : Nat) : List UInt8 :=
  slice block (entry + entryHeaderSize) nameLen

def nextEntry (block : Bytes.Buffer) (entry : Nat) : Nat := entry + entrySize (eNameLen block entry)

/-- The loop of `simplefs_xattr_validate`: the end of the entries and the start of the values. -/
def validateFrom (block : Bytes.Buffer) : (count entriesEnd valuesStart : Nat) → Except Errno (Nat × Nat)
  | 0, entriesEnd, valuesStart => .ok (entriesEnd, valuesStart)
  | count + 1, entriesEnd, valuesStart =>
    if blockSize - entryHeaderSize < entriesEnd then .error .euclean
    else if blockSize - entriesEnd < entrySize (eNameLen block entriesEnd) then .error .euclean
    else if blockSize < eValueOffs block entriesEnd ∨
        blockSize - eValueOffs block entriesEnd < eValueSize block entriesEnd then
      .error .euclean
    else validateFrom block count (nextEntry block entriesEnd)
      (min valuesStart (eValueOffs block entriesEnd))

/-- `simplefs_xattr_validate`. -/
def validate (block : Bytes.Buffer) : Except Errno Unit :=
  if hMagic block ≠ magic then .error .euclean
  else if (blockSize - headerSize) / entryHeaderSize < hCount block then .error .euclean
  else match validateFrom block (hCount block) headerSize blockSize with
    | .error e => .error e
    | .ok (entriesEnd, valuesStart) =>
      if valuesStart < entriesEnd then .error .euclean else .ok ()

/-- The attribute at the entry has this name. -/
def matchesName (block : Bytes.Buffer) (name : List UInt8) (entry : Nat) : Bool :=
  eNameLen block entry == name.length && eName block entry name.length == name

/-- The size of the value at the entry, and the bytes copied to the caller's buffer of the given
size, if there is one. -/
def readValue (block : Bytes.Buffer) (entry : Nat) : (buffer : Option Nat) →
    Except Errno (Nat × List UInt8)
  | none => .ok (eValueSize block entry, [])
  | some size =>
    if size < eValueSize block entry then .error .erange
    else .ok (eValueSize block entry,
      slice block (eValueOffs block entry) (eValueSize block entry))

/-- The loop of `simplefs_xattr_get`. -/
def getFrom (block : Bytes.Buffer) (name : List UInt8) (buffer : Option Nat) :
    (count entry : Nat) → Except Errno (Nat × List UInt8)
  | 0, _ => .error .enodata
  | count + 1, entry =>
    if matchesName block name entry then readValue block entry buffer
    else getFrom block name buffer count (nextEntry block entry)

/-- The loop of `simplefs_listxattr` into a buffer of the given size: what was written so far is
extended by the name and a zero byte. Without a buffer only the length counts. -/
def listFrom (block : Bytes.Buffer) (buffer : Option Nat) :
    (count entry : Nat) → List UInt8 → Except Errno (List UInt8)
  | 0, _, done => .ok done
  | count + 1, entry, done =>
    if buffer.any (· < done.length + (eNameLen block entry + 1)) then .error .erange
    else listFrom block buffer count (nextEntry block entry)
      (done ++ eName block entry (eNameLen block entry) ++ [0])

/-- The search loop of `simplefs_xattr_set`: the index of the last entry with the name. -/
def findFrom (block : Bytes.Buffer) (name : List UInt8) :
    (count i entry : Nat) → Option Nat → Option Nat
  | 0, _, _, found => found
  | count + 1, i, entry, found =>
    findFrom block name count (i + 1) (nextEntry block entry)
      (if matchesName block name entry then some i else found)

/-- The block under construction in `tmp`. -/
structure Build where
  tmp : Bytes.Buffer
  entriesEnd : Nat
  valuesStart : Nat

/-- The stores that append one entry and its value. The fields of the entry truncate what they
are given to their width. -/
def writeEntry (tmp : Bytes.Buffer) (entry offs : Nat) (name value : List UInt8) : Bytes.Buffer :=
  let tmp := store 1 tmp entry name.length
  let tmp := store 1 tmp (entry + 1) 0
  let tmp := store 4 tmp (entry + 4) value.length
  let tmp := store 2 tmp (entry + 2) offs
  let tmp := copy tmp (entry + entryHeaderSize) name
  let tmp := copy tmp offs value
  store 4 tmp 4 (hCount tmp + 1)

/-- Append an attribute, unless the entries would meet the values. -/
def addEntry (name value : List UInt8) (b : Build) : Except Errno Build :=
  if b.valuesStart < value.length ∨
      b.valuesStart - value.length < b.entriesEnd + entrySize name.length then .error .enospc
  else .ok {
    tmp := writeEntry b.tmp b.entriesEnd (b.valuesStart - value.length) name value
    entriesEnd := b.entriesEnd + entrySize name.length
    valuesStart := b.valuesStart - value.length }

/-- The copy loop of `simplefs_xattr_set`, which leaves out the entry to be replaced. -/
def copyFrom (block : Bytes.Buffer) (found : Option Nat) :
    (count j src : Nat) → Build → Except Errno Build
  | 0, _, _, b => .ok b
  | count + 1, j, src, b =>
    if found = some j then copyFrom block found count (j + 1) (nextEntry block src) b
    else do
      let b ← addEntry (eName block src (eNameLen block src))
        (slice block (eValueOffs block src) (eValueSize block src)) b
      copyFrom block found count (j + 1) (nextEntry block src) b

/-- A block with a header and nothing else. -/
def emptyBlock : Bytes.Buffer := store 4 (store 4 (fun _ => 0) 0 magic) 4 0

/-- The rebuilt block: everything but the entry found, then the new attribute if there is one. -/
def rebuild (block : Bytes.Buffer) (found : Option Nat) (name : List UInt8)
    (value : Option (List UInt8)) : Except Errno Bytes.Buffer := do
  let b ← copyFrom block found (hCount block) 0 headerSize ⟨emptyBlock, headerSize, blockSize⟩
  match value with
  | none => return b.tmp
  | some value => return (← addEntry name value b).tmp

/-! ## The three entry points -/

/-- The allocator, the metadata blocks in memory, `i_xattr_block` and `i_blocks` of the inode, and
what the journal was last given for each block. -/
structure State where
  space : Space
  blocks : Nat → Bytes.Buffer
  iXattrBlock : Nat
  iBlocks : UInt64 := 0
  journaled : Nat → Bytes.Buffer := fun _ _ => 0

/-- The answers of the lower layers during one `simplefs_xattr_set`. -/
structure SetFaults where
  start : Fault := none
  busy : Bits.BitMap := fun _ => false
  take : Space.HandleFaults := {}
  getFolio : Fault := none
  giveBack : Space.HandleFaults := {}
  kzalloc : Bool := false
  dirty : Fault := none
  stop : Fault := none

/-- The arguments of `simplefs_xattr_set`: the bytes of the name before its terminating zero, the
value unless it is to be removed, and the two flags. -/
structure SetArgs where
  name : List UInt8
  value : Option (List UInt8)
  create : Bool := false
  replace : Bool := false

/-- Allocate and initialise the block of an inode that has none. -/
def newBlock (faults : SetFaults) : Op State Errno Unit := fun s =>
  match Space.getFreeBlocks faults.busy faults.take 1 s.space with
  | (0, space) => (.error .enospc, { s with space := space })
  | (bno + 1, space) =>
    match faults.getFolio with
    | some e =>
      (.error e, { s with space := (Space.putBlocks faults.giveBack (bno + 1) 1 space).2 })
    | none => (.ok (), { s with
        space := space
        blocks := Function.update s.blocks (bno + 1) emptyBlock
        iXattrBlock := bno + 1
        iBlocks := s.iBlocks + blocksToSectors 1 })

/-- The block to work on: a new one, or the inode's own if it is well formed. -/
def openBlock (faults : SetFaults) : Op State Errno Unit := do
  let s ← Op.read
  if s.iXattrBlock = 0 then newBlock faults
  else do
    Op.check faults.getFolio
    match validate (s.blocks s.iXattrBlock) with
    | .error _ => Op.fail .euclean
    | .ok () => pure ()

/-- Up to and including the flag checks: the index of the entry found. -/
def lookupForSet (faults : SetFaults) (args : SetArgs) : Op State Errno (Option Nat) := do
  openBlock faults
  let s ← Op.read
  let block := s.blocks s.iXattrBlock
  let found := findFrom block args.name (hCount block) 0 headerSize none
  Op.refuse (found.isSome && args.create) .eexist
  Op.refuse (found.isNone && args.replace) .enodata
  pure found

/-- Rebuild the block and hand it to the journal. -/
def writeBack (faults : SetFaults) (args : SetArgs) (found : Option Nat) : Op State Errno Unit := do
  Op.refuse faults.kzalloc .enomem
  let s ← Op.read
  let tmp ← Op.lift (rebuild (s.blocks s.iXattrBlock) found args.name args.value)
  Op.update fun s => { s with blocks := Function.update s.blocks s.iXattrBlock tmp }
  Op.check faults.dirty
  Op.update fun s => { s with journaled := Function.update s.journaled s.iXattrBlock tmp }

/-- What runs under the handle: its end is reported when nothing went wrong before. -/
def underHandle (stop : Fault) (body : Op State Errno Unit) : Op State Errno Unit := do
  body
  Op.check stop

/-- `simplefs_xattr_set`. -/
def set (faults : SetFaults) (args : SetArgs) : Op State Errno Unit := do
  Op.refuse (decide (255 < args.name.length)) .erange
  let s ← Op.read
  if s.iXattrBlock = 0 ∧ args.value = none then Op.refuse args.replace .enodata
  else do
    Op.check faults.start
    underHandle faults.stop (do
      let found ← lookupForSet faults args
      writeBack faults args found)

/-- `simplefs_xattr_get`. -/
def get (getFolio : Fault) (name : List UInt8) (buffer : Option Nat) (s : State) :
    Except Errno (Nat × List UInt8) := do
  if s.iXattrBlock = 0 then throw .enodata
  if 255 < name.length then throw .erange
  if let some e := getFolio then throw e
  let block := s.blocks s.iXattrBlock
  validate block
  getFrom block name buffer (hCount block) headerSize

/-- `simplefs_listxattr`. -/
def listxattr (getFolio : Fault) (buffer : Option Nat) (s : State) : Except Errno (List UInt8) := do
  if s.iXattrBlock = 0 then return []
  if let some e := getFolio then throw e
  let block := s.blocks s.iXattrBlock
  validate block
  listFrom block buffer (hCount block) headerSize []

end SimpleFs.Xattr

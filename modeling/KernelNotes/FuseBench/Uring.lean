import KernelNotes.Lib.Bytes
import KernelNotes.Lib.Heap
import KernelNotes.Lib.Run

/-!
# Requests of fuse-bench served over io_uring

`dispatch_uring_request` copies one request out of its ring entry into a heap
buffer, hands it to the handler of its opcode and frees the buffer. A handler
answers through `reply_error` or `reply_payload`; in io_uring mode both write the
answer back into the ring entry, in the legacy mode to the fuse device.

The structures that travel are those of `linux/fuse.h`; a pointer into a request
is a byte buffer together with the length that is passed beside it. Log output is
left out. What the host answers during one request is the record `Calls`.
-/

namespace FuseBench

open Bytes Heaps

inductive Opcode
  | lookup | forget | getattr | setattr | open | opendir | read | write | readdir | statfs
  | release | releasedir | flush | fsync | fsyncdir | access | init | destroy
  | other (code : UInt32)
  deriving DecidableEq, Repr

inductive Errno
  | einval | enoent | enotdir | eisdir | enomem | eopnotsupp | enosys
  | host (code : Nat)
  deriving DecidableEq, Repr

def Errno.code : Errno → Int
  | .einval => 22
  | .enoent => 2
  | .enotdir => 20
  | .eisdir => 21
  | .enomem => 12
  | .eopnotsupp => 95
  | .enosys => 38
  | .host code => code

structure InHeader where
  opcode : Opcode
  unique : UInt64
  nodeid : UInt64

structure OutHeader where
  len : UInt32
  error : Int
  unique : UInt64
  deriving DecidableEq, Repr

/-- A ring entry. The header area holds the request and, once answered, also the reply. -/
structure UringEntry where
  hdr : InHeader
  opIn : Buffer
  payload : Buffer
  payloadSz : UInt32
  out : Option OutHeader

inductive ReplyMode
  | legacy | uring
  deriving DecidableEq, Repr

structure State where
  heap : Heap
  directIo : Bool
  writebackCache : Bool
  backingSize : UInt64
  ownerUid : UInt32
  ownerGid : UInt32
  stop : Bool
  replyMode : ReplyMode
  replyEntry : Option UringEntry
  uringNegotiated : Bool
  /-- What `full_write` was given for the fuse device. -/
  sent : List (OutHeader × List UInt8)

/-- What the host answers to the calls made for one request. An allocation that does not succeed
returns a null pointer. -/
structure Calls where
  requestMalloc : Bool
  handlerMalloc : Bool
  replyMalloc : Bool
  ftruncate : (size : UInt64) → Except Errno Unit
  pread : (size : UInt32) → (offset : UInt64) → Except Errno (List UInt8)
  pwrite : (data : List UInt8) → (offset : UInt64) → Except Errno Nat
  fullWrite : Bool
  time : UInt64

def fuseRootId : UInt64 := 1
def fileNode : UInt64 := 2
def fileHandle : UInt64 := 1
def maxWrite : Nat := 1024 * 1024
def readBuf : Nat := maxWrite + 65536
def uringPayload : Nat := readBuf

def capAsyncRead : UInt64 := (1 : UInt64) <<< 0
def capBigWrites : UInt64 := (1 : UInt64) <<< 5
def capAsyncDio : UInt64 := (1 : UInt64) <<< 15
def capWritebackCache : UInt64 := (1 : UInt64) <<< 16
def capOverIoUring : UInt64 := (1 : UInt64) <<< 41

/-! ## Layouts of `linux/fuse.h` -/

/-- The protocol version of the header the daemon is built with. -/
def kernelMinorVersion : UInt32 := 45

def inHeaderSize : Nat := 40
def outHeaderSize : Nat := 16
def initInSize : Nat := 64
def setattrInSize : Nat := 88
def readInSize : Nat := 40
def writeInSize : Nat := 40

def u32At (m : Buffer) (off : Nat) : UInt32 := (load 4 m off).toUInt32
def u64At (m : Buffer) (off : Nat) : UInt64 := (load 8 m off).toUInt64

def u16 (x : Nat) : List UInt8 := toLe 2 x
def u32 (x : UInt32) : List UInt8 := toLe 4 x.toNat
def u64 (x : UInt64) : List UInt8 := toLe 8 x.toNat

/-- Both `fuse_read_in` and `fuse_write_in` begin with the handle, the offset and the size. -/
def ioOffset (m : Buffer) : UInt64 := u64At m 8
def ioSize (m : Buffer) : UInt32 := u32At m 16

def writeData (m : Buffer) : List UInt8 := slice m writeInSize (ioSize m).toNat

def setattrValid (m : Buffer) : UInt32 := u32At m 0
def setattrSize (m : Buffer) : UInt64 := u64At m 16
def fattrSize : UInt32 := (1 : UInt32) <<< 3

def kernelCaps (m : Buffer) : UInt64 :=
  (u32At m 12).toUInt64 ||| ((u32At m 16).toUInt64 <<< 32)

structure Attr where
  ino : UInt64
  size : UInt64
  blocks : UInt64
  time : UInt64
  mode : UInt32
  nlink : UInt32
  uid : UInt32
  gid : UInt32
  blksize : UInt32

def Attr.bytes (a : Attr) : List UInt8 :=
  u64 a.ino ++ u64 a.size ++ u64 a.blocks ++ u64 a.time ++ u64 a.time ++ u64 a.time ++
    List.replicate 12 0 ++ u32 a.mode ++ u32 a.nlink ++ u32 a.uid ++ u32 a.gid ++ u32 0 ++
    u32 a.blksize ++ u32 0

def fillAttr (c : Calls) (st : State) (nodeid : UInt64) : Attr :=
  if nodeid = fuseRootId then
    { ino := nodeid, size := 0, blocks := 0, time := c.time, mode := 0o040755, nlink := 2,
      uid := st.ownerUid, gid := st.ownerGid, blksize := 4096 }
  else
    { ino := nodeid, size := st.backingSize, blocks := (st.backingSize + 511) / 512,
      time := c.time, mode := 0o100644, nlink := 1, uid := st.ownerUid, gid := st.ownerGid,
      blksize := 4096 }

/-! ## Replies -/

def State.put (st : State) (out : OutHeader) (payload : List UInt8) : State :=
  { st with replyEntry := st.replyEntry.map fun ent =>
      { ent with out := some out, payload := copy ent.payload 0 payload,
                 payloadSz := payload.length.toUInt32 } }

def replyUring (st : State) (out : OutHeader) (payload : List UInt8) : Int × State :=
  if st.replyEntry.isNone ∨ payload.length > uringPayload then (-1, st)
  else (0, st.put out payload)

def fullWrite (c : Calls) (st : State) (out : OutHeader) (payload : List UInt8) : Int × State :=
  (if c.fullWrite then 0 else -1, { st with sent := st.sent ++ [(out, payload)] })

def replyPayload (c : Calls) (st : State) (unique : UInt64) (payload : List UInt8) : Int × State :=
  let out : OutHeader := ⟨(outHeaderSize + payload.length).toUInt32, 0, unique⟩
  let buf := st.heap.next
  let st := { st with heap := if c.replyMalloc then st.heap.malloc else st.heap }
  match st.replyMode with
  | .uring => replyUring st out payload
  | .legacy =>
    if c.replyMalloc then
      let (ret, st) := fullWrite c st out payload
      (ret, { st with heap := st.heap.free buf })
    else (-1, st)

def replyEmpty (c : Calls) (st : State) (unique : UInt64) : Int × State :=
  replyPayload c st unique []

def replyError (c : Calls) (st : State) (unique : UInt64) (err : Errno) : Int × State :=
  let out : OutHeader := ⟨outHeaderSize.toUInt32, -err.code, unique⟩
  match st.replyMode with
  | .uring => if st.replyEntry.isNone then (-1, st) else (0, st.put out [])
  | .legacy => fullWrite c st out []

/-! ## Handlers -/

section Handlers

variable (c : Calls) (st : State) (hdr : InHeader) (payload : Buffer) (payloadLen : Nat)

def initOut (writebackCache : Bool) (caps : UInt64) (payload : Buffer) : List UInt8 :=
  let supported := capAsyncRead ||| capBigWrites ||| capAsyncDio ||| capOverIoUring
  let supported := if writebackCache then supported ||| capWritebackCache else supported
  let enabled := caps &&& supported
  let minor := u32At payload 4
  u32 7 ++ u32 (if minor < kernelMinorVersion then minor else kernelMinorVersion) ++ u32 (u32At payload 8) ++
    u32 enabled.toUInt32 ++ u16 64 ++ u16 48 ++ u32 maxWrite.toUInt32 ++ u32 1 ++
    u16 (maxWrite / 4096) ++ u16 0 ++ u32 (enabled >>> 32).toUInt32 ++ List.replicate 28 0

def handleInit : Int × State :=
  if payloadLen < initInSize then replyError c st hdr.unique .einval
  else if kernelCaps payload &&& capOverIoUring = 0 then
    replyError c { st with stop := true } hdr.unique .eopnotsupp
  else
    replyPayload c { st with uringNegotiated := true } hdr.unique
      (initOut st.writebackCache (kernelCaps payload) payload)

def fileName : List UInt8 := [102, 105, 108, 101, 0]

def handleLookup : Int × State :=
  if hdr.nodeid ≠ fuseRootId then replyError c st hdr.unique .enoent
  else if payloadLen ≠ fileName.length ∨ slice payload 0 fileName.length ≠ fileName then
    replyError c st hdr.unique .enoent
  else
    replyPayload c st hdr.unique
      (u64 fileNode ++ u64 1 ++ u64 1 ++ u64 1 ++ u32 0 ++ u32 0 ++
        (fillAttr c st fileNode).bytes)

def handleGetattr : Int × State :=
  if hdr.nodeid ≠ fuseRootId ∧ hdr.nodeid ≠ fileNode then replyError c st hdr.unique .enoent
  else
    replyPayload c st hdr.unique
      (u64 1 ++ u32 0 ++ u32 0 ++ (fillAttr c st hdr.nodeid).bytes)

def handleSetattr : Int × State :=
  if hdr.nodeid ≠ fileNode then replyError c st hdr.unique .einval
  else if payloadLen < setattrInSize then replyError c st hdr.unique .einval
  else if setattrValid payload &&& fattrSize ≠ 0 then
    match c.ftruncate (setattrSize payload) with
    | .error err => replyError c st hdr.unique err
    | .ok _ => handleGetattr c { st with backingSize := setattrSize payload } hdr
  else handleGetattr c st hdr

def handleOpen : Int × State :=
  if hdr.nodeid ≠ fileNode ∧ hdr.nodeid ≠ fuseRootId then replyError c st hdr.unique .enoent
  else
    -- FOPEN_DIRECT_IO | FOPEN_PARALLEL_DIRECT_WRITES, or FOPEN_KEEP_CACHE
    let openFlags : UInt32 := if st.directIo then (1 : UInt32) ||| (1 : UInt32) <<< 6 else (1 : UInt32) <<< 1
    replyPayload c st hdr.unique (u64 fileHandle ++ u32 openFlags ++ u32 0xFFFFFFFF)

structure DirEntry where
  name : List UInt8
  ino : UInt64
  off : UInt64
  type : UInt32

def direntAlign (n : Nat) : Nat := (n + 7) / 8 * 8
def fuseNameOffset : Nat := 24

/-- No bytes are added where the entry does not fit into `size`. -/
def addDirent (size : Nat) (e : DirEntry) : List UInt8 :=
  let entsize := direntAlign (fuseNameOffset + e.name.length)
  if entsize > size then []
  else
    u64 e.ino ++ u64 e.off ++ u32 e.name.length.toUInt32 ++ u32 e.type ++ e.name ++
      List.replicate (entsize - (fuseNameOffset + e.name.length)) 0

def dirEntries : List DirEntry :=
  [⟨[46], fuseRootId, 1, 4⟩, ⟨[46, 46], fuseRootId, 2, 4⟩, ⟨fileName.dropLast, fileNode, 3, 8⟩]

def readdirLoop (offset : UInt64) (size : Nat) : List DirEntry → List UInt8 → List UInt8
  | [], used => used
  | e :: rest, used =>
    if offset ≥ e.off then readdirLoop offset size rest used
    else
      let added := addDirent (size - used.length) e
      if added = [] then used else readdirLoop offset size rest (used ++ added)

def handleReaddir : Int × State :=
  if hdr.nodeid ≠ fuseRootId then replyError c st hdr.unique .enotdir
  else if payloadLen < readInSize then replyError c st hdr.unique .einval
  else if c.handlerMalloc = false then replyError c st hdr.unique .enomem
  else
    let out := st.heap.next
    let st := { st with heap := st.heap.malloc }
    let bytes := readdirLoop (ioOffset payload) (ioSize payload).toNat dirEntries []
    let (ret, st) := replyPayload c st hdr.unique bytes
    (ret, { st with heap := st.heap.free out })

def handleRead : Int × State :=
  if hdr.nodeid ≠ fileNode then replyError c st hdr.unique .eisdir
  else if payloadLen < readInSize then replyError c st hdr.unique .einval
  else if c.handlerMalloc = false then replyError c st hdr.unique .enomem
  else
    let out := st.heap.next
    let st := { st with heap := st.heap.malloc }
    match c.pread (ioSize payload) (ioOffset payload) with
    | .error err => replyError c { st with heap := st.heap.free out } hdr.unique err
    | .ok bytes =>
      let (ret, st) := replyPayload c st hdr.unique bytes
      (ret, { st with heap := st.heap.free out })

def handleWrite : Int × State :=
  if hdr.nodeid ≠ fileNode then replyError c st hdr.unique .eisdir
  else if payloadLen < writeInSize then replyError c st hdr.unique .einval
  else if payloadLen - writeInSize < (ioSize payload).toNat then replyError c st hdr.unique .einval
  else
    match c.pwrite (writeData payload) (ioOffset payload) with
    | .error err => replyError c st hdr.unique err
    | .ok n =>
      let reached := ioOffset payload + n.toUInt64
      let st := if reached > st.backingSize then { st with backingSize := reached } else st
      replyPayload c st hdr.unique (u32 n.toUInt32 ++ u32 0)

def handleStatfs : Int × State :=
  replyPayload c st hdr.unique
    (u64 ((st.backingSize + 4095) / 4096) ++ u64 0 ++ u64 0 ++ u64 2 ++ u64 0 ++ u32 4096 ++
      u32 255 ++ u32 4096 ++ u32 0 ++ List.replicate 24 0)

/-- The switch of `dispatch_request`, past its check of the length. -/
def handle : Int × State :=
  match hdr.opcode with
  | .lookup => handleLookup c st hdr payload payloadLen
  | .forget => (0, st)
  | .getattr => handleGetattr c st hdr
  | .setattr => handleSetattr c st hdr payload payloadLen
  | .open | .opendir => handleOpen c st hdr
  | .read => handleRead c st hdr payload payloadLen
  | .write => handleWrite c st hdr payload payloadLen
  | .readdir => handleReaddir c st hdr payload payloadLen
  | .statfs => handleStatfs c st hdr
  | .release | .releasedir | .flush | .fsync | .fsyncdir | .access => replyEmpty c st hdr.unique
  | .init => handleInit c st hdr payload payloadLen
  | .destroy => replyEmpty c { st with stop := true } hdr.unique
  | .other _ => replyError c st hdr.unique .enosys

end Handlers

/-- `len` counts the header; `payload` is what follows it. -/
def dispatchRequest (c : Calls) (st : State) (hdr : InHeader) (payload : Buffer) (len : Nat) :
    Int × State :=
  if len < inHeaderSize then (-1, st)
  else handle c st hdr payload (len - inHeaderSize)

def uringOpHeaderSize : Opcode → Nat
  | .getattr => 16
  | .setattr => setattrInSize
  | .open | .opendir => 8
  | .read | .readdir => readInSize
  | .write => writeInSize
  | .release | .releasedir => 24
  | .flush => 24
  | .fsync | .fsyncdir => 16
  | .access => 8
  | .lookup | .forget | .statfs | .init | .destroy | .other _ => 0

/-- The bytes behind the header in the copied request. -/
def UringEntry.request (ent : UringEntry) : Buffer :=
  let opSize := uringOpHeaderSize ent.hdr.opcode
  fun i => if i < opSize then ent.opIn i else ent.payload (i - opSize)

/-- The return value, the ring entry with the answer, and the state. -/
def dispatchUringRequest (c : Calls) (st : State) (ent : UringEntry) :
    Int × UringEntry × State :=
  let opSize := uringOpHeaderSize ent.hdr.opcode
  let payloadSize := ent.payloadSz.toNat
  let len := inHeaderSize + opSize + payloadSize
  if payloadSize > uringPayload ∨ len < inHeaderSize then (-1, ent, st)
  else if c.requestMalloc = false then (-1, ent, st)
  else
    let buf := st.heap.next
    let st := { st with heap := st.heap.malloc, replyMode := .uring, replyEntry := some ent }
    let (ret, st) := dispatchRequest c st ent.hdr ent.request len
    (ret, st.replyEntry.getD ent,
      { st with replyEntry := none, replyMode := .legacy, heap := st.heap.free buf })

/-! ## What a request leaves on the heap -/

/-- The reply buffer of the io_uring mode is allocated and not freed. -/
def replyLeak (c : Calls) (st : State) : Nat :=
  if st.replyMode = .uring ∧ c.replyMalloc = true then 1 else 0

theorem replyUring_heap (st : State) (out : OutHeader) (payload : List UInt8) :
    (replyUring st out payload).2.heap = st.heap := by
  rw [replyUring]
  split <;> rfl

theorem replyPayload_uring (c : Calls) {st : State} (mode : st.replyMode = .uring)
    (unique : UInt64) (payload : List UInt8) :
    (replyPayload c st unique payload).2.heap =
      if c.replyMalloc then st.heap.malloc else st.heap := by
  rw [replyPayload]
  dsimp only
  rw [mode]
  exact replyUring_heap _ _ _

theorem replyPayload_legacy (c : Calls) {st : State} (mode : st.replyMode = .legacy)
    (unique : UInt64) (payload : List UInt8) :
    (replyPayload c st unique payload).2.heap =
      if c.replyMalloc then st.heap.malloc.free st.heap.next else st.heap := by
  rw [replyPayload]
  dsimp only
  rw [mode]
  cases c.replyMalloc <;> rfl

theorem replyPayload_grown (c : Calls) (st : State) (unique : UInt64) (payload : List UInt8) :
    Grown (replyLeak c st) st.heap (replyPayload c st unique payload).2.heap := by
  rw [replyLeak]
  cases mode : st.replyMode with
  | uring =>
    rw [replyPayload_uring c mode]
    cases c.replyMalloc
    · exact Grown.refl _
    · exact Grown.malloc _
  | legacy =>
    rw [replyPayload_legacy c mode]
    cases c.replyMalloc
    · exact Grown.refl _
    · exact (Grown.refl st.heap.malloc).bracket

theorem replyError_grown (c : Calls) (st : State) (unique : UInt64) (err : Errno) :
    Grown 0 st.heap (replyError c st unique err).2.heap := by
  have same : (replyError c st unique err).2.heap = st.heap := by
    rw [replyError]
    cases st.replyMode
    · rfl
    · dsimp only
      split <;> rfl
  rw [same]
  exact Grown.refl _

section Handlers

variable (c : Calls) (st : State) (hdr : InHeader) (payload : Buffer) (payloadLen : Nat)

/-- The requests that their handler answers with `reply_payload`, by what they carry and what the
host answers. -/
def Answered : Prop :=
  match hdr.opcode with
  | .lookup =>
    hdr.nodeid = fuseRootId ∧ payloadLen = fileName.length ∧
      slice payload 0 fileName.length = fileName
  | .getattr | .open | .opendir => hdr.nodeid = fuseRootId ∨ hdr.nodeid = fileNode
  | .setattr =>
    hdr.nodeid = fileNode ∧ setattrInSize ≤ payloadLen ∧
      (setattrValid payload &&& fattrSize ≠ 0 → (c.ftruncate (setattrSize payload)).isOk)
  | .read =>
    hdr.nodeid = fileNode ∧ readInSize ≤ payloadLen ∧ c.handlerMalloc = true ∧
      (c.pread (ioSize payload) (ioOffset payload)).isOk
  | .write =>
    hdr.nodeid = fileNode ∧ writeInSize ≤ payloadLen ∧
      (ioSize payload).toNat ≤ payloadLen - writeInSize ∧
      (c.pwrite (writeData payload) (ioOffset payload)).isOk
  | .readdir => hdr.nodeid = fuseRootId ∧ readInSize ≤ payloadLen ∧ c.handlerMalloc = true
  | .init => initInSize ≤ payloadLen ∧ kernelCaps payload &&& capOverIoUring ≠ 0
  | .statfs | .release | .releasedir | .flush | .fsync | .fsyncdir | .access | .destroy => True
  | .forget | .other _ => False

instance : Decidable (Answered c hdr payload payloadLen) := by
  rw [Answered]
  split <;> infer_instance

/-- A reply buffer is left behind where the request is answered with `reply_payload`. -/
def GrownBy (answered : Prop) (st st' : State) : Prop :=
  ∃ n, Grown n st.heap st'.heap ∧ (answered → n = replyLeak c st) ∧ (¬ answered → n = 0)

variable {c st}

variable {st₀ : State}

theorem GrownBy.answer {answered : Prop} (heap : st₀.heap = st.heap)
    (mode : st₀.replyMode = st.replyMode) (unique : UInt64) (bytes : List UInt8) (yes : answered) :
    GrownBy c answered st (replyPayload c st₀ unique bytes).2 := by
  have grown := replyPayload_grown c st₀ unique bytes
  rw [heap, replyLeak, mode] at grown
  exact ⟨_, grown, fun _ => rfl, fun no => absurd yes no⟩

theorem GrownBy.refuse {answered : Prop} (heap : st₀.heap = st.heap) (unique : UInt64) (err : Errno)
    (no : ¬ answered) : GrownBy c answered st (replyError c st₀ unique err).2 := by
  have grown := replyError_grown c st₀ unique err
  rw [heap] at grown
  exact ⟨0, grown, fun yes => absurd yes no, fun _ => rfl⟩

theorem GrownBy.congr {A B : Prop} {st' : State} (same : A ↔ B) (grown : GrownBy c A st st') :
    GrownBy c B st st' := by
  obtain ⟨n, grown, yes, no⟩ := grown
  exact ⟨n, grown, fun b => yes (same.mpr b), fun b => no (b ∘ same.mp)⟩

theorem GrownBy.around {A : Prop} {st' : State}
    (body : GrownBy c A { st with heap := st.heap.malloc } st') :
    GrownBy c A st { st' with heap := st'.heap.free st.heap.next } := by
  obtain ⟨n, grown, yes, no⟩ := body
  exact ⟨n, grown.bracket, yes, no⟩

theorem handleInit_grown :
    GrownBy c (initInSize ≤ payloadLen ∧ kernelCaps payload &&& capOverIoUring ≠ 0) st
      (handleInit c st hdr payload payloadLen).2 := by
  rw [handleInit]
  split
  · next short => exact .refuse rfl _ _ fun yes => Nat.not_le.mpr short yes.1
  · next long =>
      split
      · next without =>
          refine GrownBy.refuse ?_ _ _ fun yes => yes.2 without
          rfl
      · next offered =>
          refine GrownBy.answer ?_ ?_ _ _ ⟨Nat.not_lt.mp long, offered⟩
          · rfl
          · rfl

theorem handleLookup_grown :
    GrownBy c (hdr.nodeid = fuseRootId ∧ payloadLen = fileName.length ∧
        slice payload 0 fileName.length = fileName) st
      (handleLookup c st hdr payload payloadLen).2 := by
  rw [handleLookup]
  split
  · next node => exact .refuse rfl _ _ fun yes => node yes.1
  · next node =>
      split
      · next other => exact .refuse rfl _ _ fun yes => other.elim (· yes.2.1) (· yes.2.2)
      · next file =>
          rw [not_or, not_not, not_not] at file
          exact .answer rfl rfl _ _ ⟨not_not.mp node, file⟩

theorem handleGetattr_grown (heap : st₀.heap = st.heap) (mode : st₀.replyMode = st.replyMode) :
    GrownBy c (hdr.nodeid = fuseRootId ∨ hdr.nodeid = fileNode) st (handleGetattr c st₀ hdr).2 := by
  rw [handleGetattr]
  split
  · next node => exact .refuse heap _ _ fun yes => yes.elim node.1 node.2
  · next node => exact .answer heap mode _ _ (by rwa [not_and_or, not_not, not_not] at node)

theorem handleOpen_grown :
    GrownBy c (hdr.nodeid = fuseRootId ∨ hdr.nodeid = fileNode) st (handleOpen c st hdr).2 := by
  rw [handleOpen]
  split
  · next node => exact .refuse rfl _ _ fun yes => yes.elim node.2 node.1
  · next node => exact .answer rfl rfl _ _ (by rwa [not_and_or, not_not, not_not, or_comm] at node)

theorem handleSetattr_grown :
    GrownBy c (hdr.nodeid = fileNode ∧ setattrInSize ≤ payloadLen ∧
        (setattrValid payload &&& fattrSize ≠ 0 → (c.ftruncate (setattrSize payload)).isOk)) st
      (handleSetattr c st hdr payload payloadLen).2 := by
  rw [handleSetattr]
  split
  · next node => exact .refuse rfl _ _ fun yes => node yes.1
  next node =>
  split
  · next short => exact .refuse rfl _ _ fun yes => Nat.not_le.mpr short yes.2.1
  next long =>
  -- the attributes are then those of the file, which has a node
  have known : hdr.nodeid = fuseRootId ∨ hdr.nodeid = fileNode := .inr (not_not.mp node)
  split
  · next resize =>
      cases result : c.ftruncate (setattrSize payload) with
      | error err =>
        exact .refuse rfl _ _ fun yes => nomatch yes.2.2 resize
      | ok done =>
        refine .congr (iff_of_true known ?_) (handleGetattr_grown hdr rfl rfl)
        exact ⟨not_not.mp node, Nat.not_lt.mp long, fun _ => rfl⟩
  · next still =>
      refine .congr (iff_of_true known ?_) (handleGetattr_grown hdr rfl rfl)
      exact ⟨not_not.mp node, Nat.not_lt.mp long, fun resize => absurd resize still⟩

theorem handleReaddir_grown :
    GrownBy c (hdr.nodeid = fuseRootId ∧ readInSize ≤ payloadLen ∧ c.handlerMalloc = true) st
      (handleReaddir c st hdr payload payloadLen).2 := by
  rw [handleReaddir]
  split
  · next node => exact .refuse rfl _ _ fun yes => node yes.1
  next node =>
  split
  · next short => exact .refuse rfl _ _ fun yes => Nat.not_le.mpr short yes.2.1
  next long =>
  split
  · next none_ => exact .refuse rfl _ _ fun yes => Bool.false_ne_true (none_.symm.trans yes.2.2)
  next held =>
  exact .around (.answer rfl rfl _ _ ⟨not_not.mp node, Nat.not_lt.mp long, Bool.of_not_eq_false held⟩)

theorem handleRead_grown :
    GrownBy c (hdr.nodeid = fileNode ∧ readInSize ≤ payloadLen ∧ c.handlerMalloc = true ∧
        (c.pread (ioSize payload) (ioOffset payload)).isOk) st
      (handleRead c st hdr payload payloadLen).2 := by
  rw [handleRead]
  split
  · next node => exact .refuse rfl _ _ fun yes => node yes.1
  next node =>
  split
  · next short => exact .refuse rfl _ _ fun yes => Nat.not_le.mpr short yes.2.1
  next long =>
  split
  · next none_ => exact .refuse rfl _ _ fun yes => Bool.false_ne_true (none_.symm.trans yes.2.2.1)
  next held =>
  cases result : c.pread (ioSize payload) (ioOffset payload) with
  | error err =>
    refine ⟨0, ?_, fun yes => (nomatch yes.2.2.2), fun _ => rfl⟩
    have freed : Grown 0 st.heap (st.heap.malloc.free st.heap.next) := (Grown.refl _).bracket
    exact freed.trans (replyError_grown c { st with heap := st.heap.malloc.free st.heap.next }
      hdr.unique err)
  | ok bytes =>
    exact .around (.answer rfl rfl _ _
      ⟨not_not.mp node, Nat.not_lt.mp long, Bool.of_not_eq_false held, rfl⟩)

theorem handleWrite_grown :
    GrownBy c (hdr.nodeid = fileNode ∧ writeInSize ≤ payloadLen ∧
        (ioSize payload).toNat ≤ payloadLen - writeInSize ∧
        (c.pwrite (writeData payload) (ioOffset payload)).isOk) st
      (handleWrite c st hdr payload payloadLen).2 := by
  rw [handleWrite]
  split
  · next node => exact .refuse rfl _ _ fun yes => node yes.1
  next node =>
  split
  · next short => exact .refuse rfl _ _ fun yes => Nat.not_le.mpr short yes.2.1
  next long =>
  split
  · next short => exact .refuse rfl _ _ fun yes => Nat.not_le.mpr short yes.2.2.1
  next holds =>
  cases result : c.pwrite (writeData payload) (ioOffset payload) with
  | error err => exact .refuse rfl _ _ fun yes => nomatch yes.2.2.2
  | ok n =>
    dsimp only
    refine .answer ?_ ?_ _ _ ⟨not_not.mp node, Nat.not_lt.mp long, Nat.not_lt.mp holds, rfl⟩
    · split <;> rfl
    · split <;> rfl

theorem handle_grown :
    GrownBy c (Answered c hdr payload payloadLen) st (handle c st hdr payload payloadLen).2 := by
  rw [handle, Answered]
  cases hdr.opcode with
  | lookup => exact handleLookup_grown hdr payload payloadLen
  | getattr => exact handleGetattr_grown hdr rfl rfl
  | setattr => exact handleSetattr_grown hdr payload payloadLen
  | «open» | opendir => exact handleOpen_grown hdr
  | read => exact handleRead_grown hdr payload payloadLen
  | write => exact handleWrite_grown hdr payload payloadLen
  | readdir => exact handleReaddir_grown hdr payload payloadLen
  | init => exact handleInit_grown hdr payload payloadLen
  | statfs | release | releasedir | flush | fsync | fsyncdir | access =>
    exact .answer rfl rfl _ _ trivial
  | destroy =>
    refine GrownBy.answer ?_ ?_ _ _ trivial
    · rfl
    · rfl
  | forget => exact ⟨0, Grown.refl _, False.elim, fun _ => rfl⟩
  | other code => exact .refuse rfl _ _ id

theorem dispatchRequest_grown :
    GrownBy c (Answered c hdr payload payloadLen) st
      (dispatchRequest c st hdr payload (inHeaderSize + payloadLen)).2 := by
  rw [dispatchRequest, if_neg (Nat.not_lt.mpr (Nat.le_add_right _ _)), Nat.add_sub_cancel_left]
  exact handle_grown hdr payload payloadLen

end Handlers

/-! ## Runs of requests -/

/-- One request delivered through the ring, with what the host answers while it is served. -/
structure Request where
  calls : Calls
  entry : UringEntry

def serve (st : State) (r : Request) : State := (dispatchUringRequest r.calls st r.entry).2.2

/-- The request is copied, answered with `reply_payload`, and the reply buffer is allocated. -/
def Request.Leaks (r : Request) : Prop :=
  r.entry.payloadSz.toNat ≤ uringPayload ∧ r.calls.requestMalloc = true ∧
    Answered r.calls r.entry.hdr r.entry.request
      (uringOpHeaderSize r.entry.hdr.opcode + r.entry.payloadSz.toNat) ∧
    r.calls.replyMalloc = true

instance (r : Request) : Decidable r.Leaks := by
  rw [Request.Leaks]
  infer_instance

theorem serve_grown (st : State) (r : Request) :
    Grown (if r.Leaks then 1 else 0) st.heap (serve st r).heap := by
  rw [serve, dispatchUringRequest]
  dsimp only
  by_cases big : r.entry.payloadSz.toNat > uringPayload
  · have kept : ¬ r.Leaks := fun leaks => Nat.not_le.mpr big leaks.1
    rw [if_neg kept, if_pos (.inl big)]
    exact Grown.refl _
  have fits : ¬ (r.entry.payloadSz.toNat > uringPayload ∨
      inHeaderSize + uringOpHeaderSize r.entry.hdr.opcode + r.entry.payloadSz.toNat <
        inHeaderSize) := by omega
  rw [if_neg fits, Nat.add_assoc]
  by_cases none_ : r.calls.requestMalloc = false
  · have kept : ¬ r.Leaks := fun leaks => Bool.false_ne_true (none_.symm.trans leaks.2.1)
    rw [if_neg kept, if_pos none_]
    exact Grown.refl _
  rw [if_neg none_]
  obtain ⟨n, grown, answered, refused⟩ := @dispatchRequest_grown r.calls
    { st with heap := st.heap.malloc, replyMode := .uring, replyEntry := some r.entry }
    r.entry.hdr r.entry.request (uringOpHeaderSize r.entry.hdr.opcode + r.entry.payloadSz.toNat)
  have count : n = if r.Leaks then 1 else 0 := by
    by_cases leaks : r.Leaks
    · rw [if_pos leaks, answered leaks.2.2.1]
      exact if_pos ⟨rfl, leaks.2.2.2⟩
    · rw [if_neg leaks]
      by_cases answer : Answered r.calls r.entry.hdr r.entry.request
          (uringOpHeaderSize r.entry.hdr.opcode + r.entry.payloadSz.toNat)
      · rw [answered answer]
        refine if_neg fun alloc => leaks ?_
        exact ⟨Nat.not_lt.mp big, Bool.of_not_eq_false none_, answer, alloc.2⟩
      · exact refused answer
  rw [← count]
  exact grown.bracket

theorem serve_live_iff (st : State) (r : Request) :
    (serve st r).heap.live = st.heap.live ↔ ¬ r.Leaks := by
  rw [(serve_grown st r).same_iff]
  by_cases leaks : r.Leaks
  · rw [if_pos leaks]
    exact iff_of_false Nat.one_ne_zero (not_not_intro leaks)
  · rw [if_neg leaks]
    exact iff_of_true rfl leaks

theorem run_grown (st : State) (rs : List Request) :
    Grown (rs.countP (fun r => r.Leaks)) st.heap (Runs.run serve st rs).heap := by
  induction rs generalizing st with
  | nil => exact Grown.refl _
  | cons r rest ih =>
    have both := (serve_grown st r).trans (ih (serve st r))
    rw [Nat.add_comm] at both
    simpa [List.countP_cons] using both

/-- A run keeps the live blocks at every request exactly when no request of it is answered with
`reply_payload`, and otherwise holds one block more for each one that is. -/
theorem requests_kept_iff (st : State) (rs : List Request) :
    (Runs.Along serve (fun st r => (serve st r).heap.live = st.heap.live) st rs ↔
      ∀ r ∈ rs, ¬ r.Leaks) ∧
    (Runs.run serve st rs).heap.live.card =
      st.heap.live.card + rs.countP (fun r => r.Leaks) := by
  constructor
  · rw [Runs.along_congr serve_live_iff, Runs.along_actions]
  · exact (run_grown st rs).card

def freshState : State where
  heap := Heap.empty
  directIo := false
  writebackCache := false
  backingSize := 0
  ownerUid := 0
  ownerGid := 0
  stop := false
  replyMode := .legacy
  replyEntry := none
  uringNegotiated := true
  sent := []

/-- Every call of the host succeeds. -/
def statfsRequest : Request where
  calls :=
    { requestMalloc := true, handlerMalloc := true, replyMalloc := true,
      ftruncate := fun _ => .ok (), pread := fun _ _ => .ok [], pwrite := fun _ _ => .ok 0,
      fullWrite := true, time := 0 }
  entry :=
    { hdr := ⟨.statfs, 1, fuseRootId⟩, opIn := fun _ => 0, payload := fun _ => 0, payloadSz := 0,
      out := none }

theorem statfs_leaks :
    ((dispatchUringRequest statfsRequest.calls freshState statfsRequest.entry).1 = 0) ∧
      (serve freshState statfsRequest).heap.live ≠ freshState.heap.live := by
  decide

end FuseBench

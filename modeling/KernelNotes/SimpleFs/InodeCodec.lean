import KernelNotes.Lib.Run
import KernelNotes.Lib.Words
import KernelNotes.SimpleFs.Basic

/-!
# Writing an inode to the inode table and reading it back

`writeInode` is `simplefs_write_inode` and `iget` is the cache-miss path of
`simplefs_iget`. The two functions agree on the layout but not on the range:
`i_size` is a 64-bit value stored in 32 bits, a device number is stored in the
old 16-bit form, and the reader leaves `ei_block` of a special file as it finds
it in the freshly allocated inode. `iget_writeInode_iff` says that nothing else
is lost. Byte order is that of a little-endian host, where `cpu_to_le32` is the
identity.
-/

namespace SimpleFs.InodeCodec

open Words

/-- `struct timespec64`; nanoseconds stay below one second. -/
structure Timespec where
  tvSec : Int64
  tvNsec : UInt32
  deriving DecidableEq, Repr

/-- The persistent part of `struct inode` together with `struct simplefs_inode_info`. -/
structure Inode where
  iIno : Nat
  iMode : UInt16
  iUid : UInt32
  iGid : UInt32
  iSize : UInt64
  iRdev : UInt32
  iBlocks : UInt64
  iNlink : UInt32
  iGeneration : UInt32
  vfsFlags : UInt32
  iCtime : Timespec
  iAtime : Timespec
  iMtime : Timespec
  iCrtime : Timespec
  eiBlock : UInt32
  iXattrBlock : UInt32
  iFlags : UInt32
  preallocBlock : UInt32
  preallocLen : UInt32
  iData : Vector UInt8 32
  deriving DecidableEq, Repr

/-- `struct simplefs_inode`, the on-disk record. -/
structure DiskInode where
  iMode : UInt32
  iUid : UInt32
  iGid : UInt32
  iSize : UInt32
  iCtime : UInt32
  iAtime : UInt32
  iMtime : UInt32
  iCtimeNsec : UInt32
  iAtimeNsec : UInt32
  iMtimeNsec : UInt32
  iBlocks : UInt32
  iNlink : UInt32
  eiBlock : UInt32
  iXattrBlock : UInt32
  iGeneration : UInt32
  iFlags : UInt32
  iCrtime : UInt32
  iCrtimeNsec : UInt32
  iData : Vector UInt8 32
  deriving DecidableEq, Repr

/-- The inode store, by block number and position inside the block. -/
abbrev InodeTable := Nat → Nat → DiskInode

structure SbInfo where
  nrInodes : UInt32
  sShutdown : Bool
  deriving DecidableEq, Repr

/-! ## File types and device numbers -/

/-- The type field of a mode has the given value. -/
def hasType (type mode : UInt16) : Bool := mode &&& 0o170000 == type

def sIsdir (mode : UInt16) : Bool := hasType 0o040000 mode
def sIsreg (mode : UInt16) : Bool := hasType 0o100000 mode
def sIslnk (mode : UInt16) : Bool := hasType 0o120000 mode
def sIschr (mode : UInt16) : Bool := hasType 0o020000 mode
def sIsblk (mode : UInt16) : Bool := hasType 0o060000 mode
def sIsfifo (mode : UInt16) : Bool := hasType 0o010000 mode
def sIssock (mode : UInt16) : Bool := hasType 0o140000 mode

/-- Character and block devices keep their number in `i_data`. -/
def isDevice (mode : UInt16) : Bool := sIschr mode || sIsblk mode

/-- Devices, fifos and sockets: the last branch of `simplefs_iget`. -/
def isSpecial (mode : UInt16) : Bool :=
  !sIsdir mode && !sIsreg mode && !sIslnk mode && mode != 0

/-- The file types `simplefs_new_inode` accepts. -/
def supportedType (mode : UInt16) : Bool :=
  sIsdir mode || sIsreg mode || sIslnk mode || sIschr mode || sIsblk mode || sIsfifo mode ||
    sIssock mode

/-- `dev_t` holds twelve bits of major and twenty bits of minor number. -/
def major (dev : UInt32) : UInt32 := dev >>> 20
def minor (dev : UInt32) : UInt32 := dev &&& 0xfffff
def mkdev (ma mi : UInt32) : UInt32 := (ma <<< 20) ||| mi

def oldEncodeDev (dev : UInt32) : UInt16 := ((major dev <<< 8) ||| minor dev).toUInt16

def oldDecodeDev (val : UInt16) : UInt32 :=
  mkdev ((val >>> 8) &&& 255).toUInt32 (val &&& 255).toUInt32

/-- `simplefs_set_inode_flags`: mirror the five `FS_*_FL` bits the VFS checks. -/
def setInodeFlags (vfsFlags flags : UInt32) : UInt32 :=
  let sSync : UInt32 := 1
  let sNoatime : UInt32 := 2
  let sAppend : UInt32 := 4
  let sImmutable : UInt32 := 8
  let sDirsync : UInt32 := 64
  let mirror (flag bit acc : UInt32) : UInt32 := if flags &&& flag != 0 then acc ||| bit else acc
  let cleared := vfsFlags &&& ~~~(sImmutable ||| sAppend ||| sSync ||| sDirsync ||| sNoatime)
  mirror 0x80 sNoatime <| mirror 0x10000 sDirsync <| mirror 0x8 sSync <|
    mirror 0x20 sAppend <| mirror 0x10 sImmutable cleared

/-! ## The encoder and the decoder -/

def inodeBlock (ino : Nat) : Nat := ino / inodesPerBlock + 1

def inodeShift (ino : Nat) : Nat := ino % inodesPerBlock

def sectorsToBlocks (sectors : UInt64) : UInt64 := sectors / 8

def blocksToSectors (blocks : UInt64) : UInt64 := blocks * 8

/-- `(uint32_t)(int32_t)sec`. -/
def encodeSec (sec : Int64) : UInt32 := sec.toInt32.toUInt32

/-- `(time64_t)(int32_t)word`. -/
def decodeSec (word : UInt32) : Int64 := word.toInt32.toInt64

/-- The record `simplefs_write_inode` leaves in the slot that held `old`. -/
def encode (inode : Inode) (old : DiskInode) : DiskInode where
  iMode := inode.iMode.toUInt32
  iUid := inode.iUid
  iGid := inode.iGid
  iSize := inode.iSize.toUInt32
  iCtime := encodeSec inode.iCtime.tvSec
  iCtimeNsec := inode.iCtime.tvNsec
  iAtime := encodeSec inode.iAtime.tvSec
  iAtimeNsec := inode.iAtime.tvNsec
  iMtime := encodeSec inode.iMtime.tvSec
  iMtimeNsec := inode.iMtime.tvNsec
  iBlocks := (sectorsToBlocks inode.iBlocks).toUInt32
  iNlink := inode.iNlink
  eiBlock := inode.eiBlock
  iXattrBlock := inode.iXattrBlock
  iGeneration := inode.iGeneration
  iFlags := inode.iFlags
  iCrtime := encodeSec inode.iCrtime.tvSec
  iCrtimeNsec := inode.iCrtime.tvNsec
  iData :=
    if isDevice inode.iMode then storeLe32 old.iData (oldEncodeDev inode.iRdev).toUInt32
    else inode.iData

/-- `ci->i_data` after the read: copied for directories and symlinks, with the
terminator of a short symlink, and otherwise what the allocation left there. -/
def decodeData (mode : UInt16) (size : UInt64) (left disk : Vector UInt8 32) : Vector UInt8 32 :=
  if sIsdir mode then disk
  else if sIsreg mode then left
  else if sIslnk mode then
    if fits : size.toNat < 32 then disk.set size.toNat 0 else disk
  else left

/-- The inode `simplefs_iget` fills in. `slab` is the object the allocator
returned: `simplefs_alloc_inode` clears no on-disk field of it. -/
def decode (ino : Nat) (disk : DiskInode) (slab : Inode) : Inode :=
  let mode := disk.iMode.toUInt16
  { iIno := ino
    iMode := mode
    iUid := disk.iUid
    iGid := disk.iGid
    iSize := disk.iSize.toUInt64
    iRdev :=
      if isSpecial mode && isDevice mode then oldDecodeDev (loadLe32 disk.iData).toUInt16
      else 0
    iBlocks := blocksToSectors disk.iBlocks.toUInt64
    iNlink := disk.iNlink
    iGeneration := disk.iGeneration
    vfsFlags := setInodeFlags 0 disk.iFlags
    iCtime := ⟨decodeSec disk.iCtime, disk.iCtimeNsec⟩
    iAtime := ⟨decodeSec disk.iAtime, disk.iAtimeNsec⟩
    iMtime := ⟨decodeSec disk.iMtime, disk.iMtimeNsec⟩
    iCrtime := ⟨decodeSec disk.iCrtime, disk.iCrtimeNsec⟩
    eiBlock := if sIsdir mode || sIsreg mode || sIslnk mode then disk.eiBlock else slab.eiBlock
    iXattrBlock := disk.iXattrBlock
    iFlags := disk.iFlags
    preallocBlock := 0
    preallocLen := 0
    iData := decodeData mode disk.iSize.toUInt64 slab.iData disk.iData }

/-- What the layers under `simplefs_write_inode` answer, call by call. -/
structure WriteFaults where
  startSb : Fault := none
  getFolio : Fault := none
  dirtyFolio : Fault := none
  stop : Fault := none

/-- `simplefs_write_inode`: the error, if any, and the inode table afterwards. A
failing `dirty_folio` comes after the record was changed in the page cache. -/
def writeInode (sbi : SbInfo) (faults : WriteFaults) (inode : Inode) (table : InodeTable) :
    Fault × InodeTable :=
  if sbi.sShutdown then (some .eio, table)
  else if sbi.nrInodes.toNat ≤ inode.iIno then (none, table)
  else match faults.startSb, faults.getFolio with
    | some err, _ => (some err, table)
    | none, some err => (some err, table)
    | none, none =>
      let slot := encode inode (table (inodeBlock inode.iIno) (inodeShift inode.iIno))
      (faults.dirtyFolio.or faults.stop,
        Function.update table (inodeBlock inode.iIno)
          (Function.update (table (inodeBlock inode.iIno)) (inodeShift inode.iIno) slot))

/-- What the layers under `simplefs_iget` answer, call by call. -/
structure ReadFaults where
  igetLocked : Bool := false
  getFolio : Fault := none

/-- `simplefs_iget` of an inode that is in the inode cache (`cached`) or not. -/
def iget (sbi : SbInfo) (faults : ReadFaults) (cached : Option Inode) (slab : Inode)
    (table : InodeTable) (ino : Nat) : Except Errno Inode :=
  if sbi.nrInodes.toNat ≤ ino then .error .einval
  else if faults.igetLocked then .error .enomem
  else match cached, faults.getFolio with
    | some inode, _ => .ok inode
    | none, some err => .error err
    | none, none => .ok (decode ino (table (inodeBlock ino) (inodeShift ino)) slab)

/-! ## What a round trip keeps -/

/-- The inode states the file system admits. -/
structure Admitted (inode : Inode) : Prop where
  type : supportedType inode.iMode = true
  size : inode.iSize.toNat ≤ maxFilesize
  blocks : ∃ count : UInt32, inode.iBlocks = blocksToSectors count.toUInt64
  rdev : isDevice inode.iMode = false → inode.iRdev = 0
  flags : inode.vfsFlags = setInodeFlags 0 inode.iFlags
  times : ∀ time ∈ [inode.iCtime, inode.iAtime, inode.iMtime, inode.iCrtime],
    -2 ^ 31 ≤ time.tvSec.toInt ∧ time.tvSec.toInt < 2 ^ 31

/-- Two inodes agree on everything the on-disk record is meant to hold. -/
structure SameState (a b : Inode) : Prop where
  ino : a.iIno = b.iIno
  mode : a.iMode = b.iMode
  owner : a.iUid = b.iUid ∧ a.iGid = b.iGid
  size : a.iSize = b.iSize
  rdev : a.iRdev = b.iRdev
  blocks : a.iBlocks = b.iBlocks
  nlink : a.iNlink = b.iNlink
  generation : a.iGeneration = b.iGeneration
  pointers : a.eiBlock = b.eiBlock ∧ a.iXattrBlock = b.iXattrBlock
  flags : a.iFlags = b.iFlags ∧ a.vfsFlags = b.vfsFlags
  times : a.iCtime = b.iCtime ∧ a.iAtime = b.iAtime ∧ a.iMtime = b.iMtime ∧
    a.iCrtime = b.iCrtime

/-- The values the record can hold: a 32-bit size, an old-style device number, and
for a special file a block pointer equal to the one the allocator left behind. -/
structure Representable (inode slab : Inode) : Prop where
  size : inode.iSize.toNat < 2 ^ 32
  device : isDevice inode.iMode = true →
    (major inode.iRdev).toNat < 256 ∧ (minor inode.iRdev).toNat < 256
  pointer : isSpecial inode.iMode = true → slab.eiBlock = inode.eiBlock

/-- Write the inode, evict it, and read it into a fresh object: both calls
succeed and the object is the inode that was written. -/
def RoundTrips (sbi : SbInfo) (table : InodeTable) (inode slab : Inode) : Prop :=
  ∃ table' back, writeInode sbi {} inode table = (none, table') ∧
    iget sbi {} none slab table' inode.iIno = .ok back ∧ SameState back inode

theorem toNat_major (dev : UInt32) : (major dev).toNat = dev.toNat / 2 ^ 20 := by
  simp [major, Nat.shiftRight_eq_div_pow]

theorem toNat_minor (dev : UInt32) : (minor dev).toNat = dev.toNat % 2 ^ 20 := by
  simpa [minor] using Nat.and_two_pow_sub_one_eq_mod dev.toNat 20

theorem toNat_oldDecodeDev (val : UInt16) :
    (oldDecodeDev val).toNat = val.toNat / 256 * 2 ^ 20 + val.toNat % 256 := by
  have bound := val.toNat_lt
  have low : val.toNat &&& 255 = val.toNat % 256 := Nat.and_two_pow_sub_one_eq_mod val.toNat 8
  have high : val.toNat / 256 &&& 255 = val.toNat / 256 % 256 :=
    Nat.and_two_pow_sub_one_eq_mod (val.toNat / 256) 8
  have shifted : (((val >>> 8) &&& 255).toUInt32 <<< 20).toNat = (val.toNat / 256) <<< 20 := by
    simp [Nat.shiftRight_eq_div_pow, high, Nat.shiftLeft_eq]
    omega
  have joined := Nat.shiftLeft_add_eq_or_of_lt
    (show val.toNat % 256 < 2 ^ 20 by omega) (val.toNat / 256)
  simp only [oldDecodeDev, mkdev, UInt32.toNat_or, shifted, UInt16.toNat_toUInt32,
    UInt16.toNat_and, UInt16.reduceToNat, low]
  rw [← joined, Nat.shiftLeft_eq]

theorem toNat_oldEncodeDev (dev : UInt32) (small : (minor dev).toNat < 256) :
    (oldEncodeDev dev).toNat = ((major dev).toNat * 256 + (minor dev).toNat) % 2 ^ 16 := by
  have bound := dev.toNat_lt
  have top := toNat_major dev
  have shifted : (major dev <<< 8).toNat = (major dev).toNat <<< 8 := by
    simp [Nat.shiftLeft_eq]
    omega
  have joined := Nat.shiftLeft_add_eq_or_of_lt (show (minor dev).toNat < 2 ^ 8 from small)
    (major dev).toNat
  simp only [oldEncodeDev, UInt32.toNat_toUInt16, UInt32.toNat_or, shifted]
  rw [← joined, Nat.shiftLeft_eq]

theorem oldDecodeDev_oldEncodeDev_iff (dev : UInt32) :
    oldDecodeDev (oldEncodeDev dev) = dev ↔
      (major dev).toNat < 256 ∧ (minor dev).toNat < 256 := by
  rw [← UInt32.toNat_inj, toNat_oldDecodeDev]
  have ma := toNat_major dev
  have mi := toNat_minor dev
  have bound := (oldEncodeDev dev).toNat_lt
  constructor
  · intro same
    omega
  · rintro ⟨maSmall, miSmall⟩
    have code := toNat_oldEncodeDev dev miSmall
    omega

theorem isSpecial_of_isDevice (mode : UInt16) (device : isDevice mode = true) :
    isSpecial mode = true := by
  simp only [isDevice, sIschr, sIsblk, hasType, Bool.or_eq_true, beq_iff_eq] at device
  have nonzero : mode ≠ 0 := by
    rintro rfl
    revert device
    decide
  simp only [isSpecial, sIsdir, sIsreg, sIslnk, hasType]
  rcases device with type | type <;> simp [type, nonzero]

theorem special_of_supported (mode : UInt16) (supported : supportedType mode = true)
    (dir : sIsdir mode = false) (reg : sIsreg mode = false) (lnk : sIslnk mode = false) :
    isSpecial mode = true := by
  have nonzero : mode ≠ 0 := by
    rintro rfl
    revert supported
    decide
  simp [isSpecial, dir, reg, lnk, nonzero]

theorem decodeSec_encodeSec (sec : Int64)
    (range : -2 ^ 31 ≤ sec.toInt ∧ sec.toInt < 2 ^ 31) : decodeSec (encodeSec sec) = sec :=
  signExtend_truncate sec range.1 range.2

theorem blocks_roundTrip (count : UInt32) :
    blocksToSectors
        (sectorsToBlocks (blocksToSectors count.toUInt64)).toUInt32.toUInt64 =
      blocksToSectors count.toUInt64 := by
  have bound := count.toNat_lt
  have sectors : (blocksToSectors count.toUInt64).toNat = count.toNat * 8 := by
    simp only [blocksToSectors, UInt64.toNat_mul, UInt32.toNat_toUInt64, UInt64.reduceToNat]
    omega
  have blocks : (sectorsToBlocks (blocksToSectors count.toUInt64)).toUInt32 = count := by
    apply UInt32.toNat_inj.1
    simp only [sectorsToBlocks, UInt64.toNat_toUInt32, UInt64.toNat_div, sectors,
      UInt64.reduceToNat]
    omega
  rw [blocks]

/-- The record and the reader agree on an admitted inode exactly when it is representable. -/
theorem decode_encode_iff (inode slab : Inode) (old : DiskInode) (admitted : Admitted inode) :
    SameState (decode inode.iIno (encode inode old) slab) inode ↔ Representable inode slab := by
  obtain ⟨count, blocks⟩ := admitted.blocks
  have mode : (encode inode old).iMode.toUInt16 = inode.iMode := by simp [encode]
  constructor
  · intro same
    refine ⟨(widen_narrow_iff _).1 same.size, fun device => ?_, fun special => ?_⟩
    · have special := isSpecial_of_isDevice _ device
      have rdev := same.rdev
      simp only [decode, special, device, Bool.and_self, if_true, encode,
        loadLe32_storeLe32, UInt16.toUInt16_toUInt32] at rdev
      exact (oldDecodeDev_oldEncodeDev_iff _).1 rdev
    · have pointer := same.pointers.1
      simp only [isSpecial, Bool.and_eq_true, Bool.not_eq_true'] at special
      simpa [decode, mode, special] using pointer
  · intro fits
    have clock (time : Timespec)
        (listed : time ∈ [inode.iCtime, inode.iAtime, inode.iMtime, inode.iCrtime]) :
        (⟨decodeSec (encodeSec time.tvSec), time.tvNsec⟩ : Timespec) = time := by
      rw [decodeSec_encodeSec _ (admitted.times time listed)]
    refine
      { ino := rfl, mode := mode, owner := ⟨rfl, rfl⟩,
        size := (widen_narrow_iff _).2 fits.size, rdev := ?_, blocks := ?_, nlink := rfl,
        generation := rfl, pointers := ⟨?_, rfl⟩, flags := ⟨rfl, admitted.flags.symm⟩,
        times := ⟨clock _ (by simp), clock _ (by simp), clock _ (by simp), clock _ (by simp)⟩ }
    · by_cases device : isDevice inode.iMode = true
      · simp only [decode, isSpecial_of_isDevice _ device, device, Bool.and_self, if_true, encode,
           loadLe32_storeLe32, UInt16.toUInt16_toUInt32]
        exact (oldDecodeDev_oldEncodeDev_iff _).2 (fits.device device)
      · rw [Bool.not_eq_true] at device
        simp [decode, mode, device, admitted.rdev device]
    · simp only [decode, encode, blocks]
      exact blocks_roundTrip count
    · simp only [decode, mode]
      split
      · rfl
      · rename_i other
        simp only [Bool.or_eq_true, not_or, Bool.not_eq_true] at other
        exact fits.pointer
          (special_of_supported _ admitted.type other.1.1 other.1.2 other.2)

theorem writeInode_noFault (sbi : SbInfo) (inode : Inode) (table : InodeTable)
    (up : sbi.sShutdown = false) (inRange : inode.iIno < sbi.nrInodes.toNat) :
    ∃ table', writeInode sbi {} inode table = (none, table') ∧
      table' (inodeBlock inode.iIno) (inodeShift inode.iIno) =
        encode inode (table (inodeBlock inode.iIno) (inodeShift inode.iIno)) := by
  simp [writeInode, up, Nat.not_le.2 inRange]

theorem roundTrips_iff_sameState (sbi : SbInfo) (table : InodeTable) (inode slab : Inode)
    (up : sbi.sShutdown = false) (inRange : inode.iIno < sbi.nrInodes.toNat) :
    RoundTrips sbi table inode slab ↔
      SameState (decode inode.iIno
        (encode inode (table (inodeBlock inode.iIno) (inodeShift inode.iIno))) slab) inode := by
  obtain ⟨table', wrote, slot⟩ := writeInode_noFault sbi inode table up inRange
  have read : iget sbi {} none slab table' inode.iIno =
      .ok (decode inode.iIno
        (encode inode (table (inodeBlock inode.iIno) (inodeShift inode.iIno))) slab) := by
    simp [iget, Nat.not_le.2 inRange, slot]
  constructor
  · rintro ⟨other, back, wrote', read', same⟩
    rw [wrote] at wrote'
    obtain rfl := (Prod.mk.inj wrote').2
    rw [read] at read'
    obtain rfl := Except.ok.inj read'
    exact same
  · intro same
    exact ⟨table', _, wrote, read, same⟩

theorem decode_encode_symlink (inode slab : Inode) (old : DiskInode)
    (link : sIslnk inode.iMode = true) (short : inode.iSize.toNat < 32) :
    ∀ i (inside : i < inode.iSize.toNat),
      (decode inode.iIno (encode inode old) slab).iData[i] = inode.iData[i] := by
  intro i inside
  have kind : inode.iMode &&& 0o170000 = 0o120000 := by simpa [sIslnk, hasType] using link
  have size : inode.iSize.toUInt32.toUInt64 = inode.iSize :=
    (widen_narrow_iff _).2 (by omega)
  simp only [decode, encode, UInt16.toUInt16_toUInt32, size, decodeData, sIsdir, sIsreg, sIslnk,
    isDevice, sIschr, sIsblk, hasType, kind]
  simp [short, Nat.ne_of_gt inside]

/-- An inode of the given mode as `simplefs_new_inode` leaves it, at time zero. -/
def freshInode (ino : Nat) (mode : UInt16) : Inode where
  iIno := ino
  iMode := mode
  iUid := 0
  iGid := 0
  iSize := 0
  iRdev := 0
  iBlocks := 0
  iNlink := 1
  iGeneration := 1
  vfsFlags := 0
  iCtime := ⟨0, 0⟩
  iAtime := ⟨0, 0⟩
  iMtime := ⟨0, 0⟩
  iCrtime := ⟨0, 0⟩
  eiBlock := 0
  iXattrBlock := 0
  iFlags := 0
  preallocBlock := 0
  preallocLen := 0
  iData := Vector.replicate 32 0

/-- A table slot that was never written. -/
def zeroRecord : DiskInode :=
  ⟨0, 0, 0, 0, 0, 0, 0, 0, 0, 0, 0, 0, 0, 0, 0, 0, 0, 0, Vector.replicate 32 0⟩

/-- A character device with major 4 and minor 64. -/
def serialPort : Inode := { freshInode 2 0o020600 with iRdev := mkdev 4 64 }

/-- A sparse regular file of 4 GiB, well below the limit the superblock announces. -/
def largeFile : Inode := { freshInode 2 0o100644 with iSize := 2 ^ 32 }

/-- The inode table after one write-back, whatever faults it meets. -/
def writeBack (sbi : SbInfo) (table : InodeTable) (call : WriteFaults × Inode) : InodeTable :=
  (writeInode sbi call.1 call.2 table).2

theorem writeBack_other (sbi : SbInfo) (table : InodeTable) {call : WriteFaults × Inode} {ino : Nat}
    (other : call.2.iIno ≠ ino) :
    writeBack sbi table call (inodeBlock ino) (inodeShift ino) =
      table (inodeBlock ino) (inodeShift ino) := by
  rw [writeBack, writeInode]
  split
  · rfl
  split
  · rfl
  split
  · rfl
  · rfl
  dsimp only
  by_cases block : inodeBlock ino = inodeBlock call.2.iIno
  · have shift : inodeShift ino ≠ inodeShift call.2.iIno := fun shift =>
      other (Nat.ext_div_mod (Nat.succ.inj block) shift).symm
    rw [block, Function.update_self, Function.update_of_ne shift]
  · rw [Function.update_of_ne block]

theorem writeBacks_other (sbi : SbInfo) (table : InodeTable) {writes : List (WriteFaults × Inode)}
    {ino : Nat} (others : ∀ call ∈ writes, call.2.iIno ≠ ino) :
    Runs.run (writeBack sbi) table writes (inodeBlock ino) (inodeShift ino) =
      table (inodeBlock ino) (inodeShift ino) := by
  induction writes generalizing table with
  | nil => rfl
  | cons call rest ih =>
    obtain ⟨other, later⟩ := List.forall_mem_cons.mp others
    rw [Runs.run_cons, ih _ later, writeBack_other sbi table other]

def shortLink : Inode := { freshInode 3 0o120777 with iSize := 2, iData := Vector.replicate 32 46 }

end SimpleFs.InodeCodec

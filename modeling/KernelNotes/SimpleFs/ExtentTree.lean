import KernelNotes.SimpleFs.Bitmap
import KernelNotes.SimpleFs.Extent

/-!
# The extent tree on disk

`simplefs_extent.c`: a root block holds up to 340 extents itself, or up to 255
index entries that each name a leaf of up to 340 extents. `loadExtents` reads a
tree into a buffer and `syncExtents` writes a buffer back. Sync keeps the leaf
blocks of the old tree in place, takes new ones when there are too few, leaves a
leaf alone that already holds what it should, and returns those it has too many.
-/

namespace SimpleFs

open Bits Lists

/-- `struct simplefs_extent_index`. -/
structure ExtentIndex where
  eiBlock : Nat
  leafBlock : Nat
  nrExtents : Nat
  lastBlock : Nat
  deriving DecidableEq, Repr

/-- A metadata block by what it was written as: zeros, an extent root, an index root, a root
of a depth the code does not know, a leaf, a block of directory slots, something else.
`entries` is the header's count, which bounds how much of the payload is used. -/
inductive MetaBlock where
  | zero
  | root (entries : Nat) (extents : List Extent)
  | indexRoot (entries : Nat) (indexes : List ExtentIndex)
  | deepRoot (depth : Nat)
  | leaf (entries : Nat) (extents : List Extent)
  | dir (files : List FileSlot)
  | other
  deriving DecidableEq, Repr

abbrev MetaDisk := Nat → MetaBlock

/-- `struct simplefs_extent_buffer`. -/
structure Buffer where
  extents : List Extent
  leafBlocks : List Nat
  deriving DecidableEq, Repr

/-! ## Loading -/

/-- Which reads and allocations of a load fail. -/
structure LoadFaults where
  readRoot : Fault := none
  kvmalloc : Bool := false
  readLeaf : Nat → Fault := fun _ => none
  growLeaf : Nat → Bool := fun _ => false

/-- `simplefs_file_load_leaf`. A leaf of zeros comes from a failed device. -/
def loadLeaf (grow : Bool) : MetaBlock → Except Errno (List Extent)
  | .leaf entries extents =>
    if fileExtentsPerLeaf < entries then .error .einval
    else if grow then .error .enomem
    else .ok (extents.take entries)
  | .zero => .error .eio
  | _ => .error .einval

/-- The leaf loop of `simplefs_file_load_extents`, at index `i`. -/
def loadLeaves (faults : LoadFaults) (disk : MetaDisk) : Nat → List Nat → Except Errno (List Extent)
  | _, [] => .ok []
  | i, bno :: rest =>
    match faults.readLeaf i with
    | some e => .error e
    | none =>
      match loadLeaf (faults.growLeaf i) (disk bno) with
      | .error e => .error e
      | .ok extents =>
        match loadLeaves faults disk (i + 1) rest with
        | .error e => .error e
        | .ok more => .ok (extents ++ more)

/-- `simplefs_file_load_extents`. -/
def loadExtents (faults : LoadFaults) (disk : MetaDisk) (rootBlock : Nat) : Except Errno Buffer :=
  match faults.readRoot with
  | some e => .error e
  | none =>
    match disk rootBlock with
    | .root entries extents =>
      if fileExtentsPerLeaf < entries then .error .euclean
      else if decide (0 < entries) && faults.kvmalloc then .error .enomem
      else .ok { extents := extents.take entries, leafBlocks := [] }
    | .indexRoot entries indexes =>
      if fileIndexSlots < entries then .error .einval
      else if decide (0 < entries) && faults.kvmalloc then .error .enomem
      else
        let leafBlocks := (indexes.take entries).map ExtentIndex.leafBlock
        match loadLeaves faults disk 0 leafBlocks with
        | .error e => .error e
        | .ok extents => .ok { extents, leafBlocks }
    | .zero => .error .eio
    | _ => .error .einval

variable {extents : List Extent} {disk : MetaDisk} {leaves : List Nat} {space : Space}

theorem loadLeaf_fault_free {grow : Bool} {block : MetaBlock}
    (loaded : loadLeaf grow block = .ok extents) : loadLeaf false block = .ok extents := by
  cases block with
  | leaf entries _ =>
    rw [loadLeaf] at loaded ⊢
    split at loaded
    · exact absurd loaded (by simp)
    · rename_i few
      rw [if_neg few]
      split at loaded
      · exact absurd loaded (by simp)
      · exact loaded
  | _ => exact absurd loaded (by simp [loadLeaf])

theorem loadLeaves_fault_free {faults : LoadFaults} {i : Nat}
    (loaded : loadLeaves faults disk i leaves = .ok extents) :
    loadLeaves {} disk i leaves = .ok extents := by
  induction leaves generalizing i extents with
  | nil => exact loaded
  | cons bno rest ih =>
    rw [loadLeaves] at loaded ⊢
    split at loaded
    · exact absurd loaded (by simp)
    split at loaded
    · exact absurd loaded (by simp)
    rename_i here
    split at loaded
    · exact absurd loaded (by simp)
    rename_i later
    rw [loadLeaf_fault_free here, ih later]
    exact loaded

theorem loadExtents_fault_free {faults : LoadFaults} {rootBlock : Nat} {buf : Buffer}
    (loaded : loadExtents faults disk rootBlock = .ok buf) :
    loadExtents {} disk rootBlock = .ok buf := by
  rw [loadExtents] at loaded ⊢
  split at loaded
  · exact absurd loaded (by simp)
  split at loaded
  · split at loaded
    · exact absurd loaded (by simp)
    rename_i few
    split at loaded
    · exact absurd loaded (by simp)
    rw [if_neg few, if_neg (by simp)]
    exact loaded
  · split at loaded
    · exact absurd loaded (by simp)
    rename_i few
    split at loaded
    · exact absurd loaded (by simp)
    dsimp only at loaded
    split at loaded
    · exact absurd loaded (by simp)
    rename_i leaves
    rw [if_neg few, if_neg (by simp)]
    dsimp only
    rw [loadLeaves_fault_free leaves]
    exact loaded
  · exact absurd loaded (by simp)
  · exact absurd loaded (by simp)

/-! ## Syncing -/

/-- What sync reads and writes besides the inode: the metadata blocks and the bitmaps. -/
structure Store where
  disk : MetaDisk
  space : Space

/-- The faults of one `simplefs_file_sync_extents`, by call site. Leaves are numbered by
their position. `own` says that the call opened the journal handle itself. -/
structure SyncFaults where
  own : Bool := false
  kvcalloc : Bool := false
  start : Fault := none
  busy : Nat → BitMap := fun _ _ => false
  takeLeaf : Nat → Bool := fun _ => false
  getRoot : Fault := none
  readLeaf : Nat → Fault := fun _ => none
  zeroLeaf : Nat → Fault := fun _ => none
  mapLeaf : Nat → Fault := fun _ => none
  dirtyLeaf : Nat → Fault := fun _ => none
  flushLeaves : Fault := none
  dirtyRoot : Fault := none
  flushRoot : Fault := none
  forgetLeaf : Nat → Fault := fun _ => none
  putLeaf : Nat → Bool := fun _ => false
  stop : Bool := false

/-- The leaves that `nrExtents` extents need. -/
def leafCount (nrExtents : Nat) : Nat :=
  if nrExtents ≤ fileExtentsPerLeaf then 0
  else (nrExtents + (fileExtentsPerLeaf - 1)) / fileExtentsPerLeaf

/-- The leaf allocation loop: whether all were found, the blocks taken, and the space. -/
def takeLeaves (faults : SyncFaults) : Nat → Nat → Space → Bool × List Nat × Space
  | 0, _, space => (true, [], space)
  | missing + 1, i, space =>
    match Space.getFreeBlocks (faults.busy i) { persist := faults.takeLeaf i } 1 space with
    | (0, space) => (false, [], space)
    | (bno + 1, space) =>
      let more := takeLeaves faults missing (i + 1) space
      (more.1, (bno + 1) :: more.2.1, more.2.2)

/-- The ownership test: no extent covers the root or a leaf. -/
def ownershipOverlap (extents : List Extent) (treeBlocks : List Nat) : Bool :=
  extents.any fun e => treeBlocks.any fun b =>
    decide (e.eeStart ≤ b) && decide (b < (e.eeStart + e.extLen) % wordSize)

/-- The read-only comparison that spares an unchanged leaf. -/
def sameLeaf (block : MetaBlock) (extents : List Extent) : Bool :=
  match block with
  | .leaf entries old => entries == extents.length && old.take entries == extents
  | _ => false

/-- The leaf loop at position `i`: the error, `metadata_changed`, and the disk. -/
def writeLeaves (faults : SyncFaults) (oldCount : Nat) (extents : List Extent) :
    List Nat → Nat → Bool → MetaDisk → Fault × Bool × MetaDisk
  | [], _, changed, disk => (none, changed, disk)
  | bno :: rest, i, changed, disk =>
    let part := chunk fileExtentsPerLeaf extents i
    match if i < oldCount then faults.readLeaf i else none with
    | some e => (some e, changed, disk)
    | none =>
      if decide (i < oldCount) && sameLeaf (disk bno) part then
        writeLeaves faults oldCount extents rest (i + 1) changed disk
      else match faults.zeroLeaf i, faults.mapLeaf i, faults.dirtyLeaf i with
        | some e, _, _ => (some e, true, disk)
        | none, some e, _ => (some e, true, Function.update disk bno .zero)
        | none, none, some e => (some e, true, Function.update disk bno (.leaf part.length part))
        | none, none, none =>
          writeLeaves faults oldCount extents rest (i + 1) true
            (Function.update disk bno (.leaf part.length part))

/-- The index entry of the leaf at position `i`. -/
def leafIndex (extents : List Extent) (bno i : Nat) : ExtentIndex :=
  let part := chunk fileExtentsPerLeaf extents i
  { eiBlock := (part.head?.map Extent.eeBlock).getD 0
    leafBlock := bno
    nrExtents := part.length
    lastBlock := (part.getLast?.map Extent.extEnd).getD 0 }

/-- The new root block: an index of the leaves, or the extents themselves. -/
def rootBlockOf (extents : List Extent) (leaves : List Nat) : MetaBlock :=
  if leaves.isEmpty then .root extents.length extents
  else .indexRoot leaves.length (leaves.mapIdx fun i bno => leafIndex extents bno i)

/-- Leaves first, then the root that names them. -/
def writeTree (faults : SyncFaults) (rootBlock oldCount : Nat) (extents : List Extent)
    (leaves : List Nat) (disk : MetaDisk) : Fault × Bool × MetaDisk :=
  match writeLeaves faults oldCount extents leaves 0 false disk with
  | (some e, changed, disk) => (some e, changed, disk)
  | (none, changed, disk) =>
    match faults.flushLeaves with
    | some e => (some e, changed, disk)
    | none => (faults.dirtyRoot.or faults.flushRoot, true,
        Function.update disk rootBlock (rootBlockOf extents leaves))

/-- `simplefs_retire_metadata_blocks` under a running handle: the blocks are forgotten by the
journal, then returned. -/
def retireBlocks (forget : Fault) (persist : Bool) (bno len : Nat) (space : Space) : Fault × Space :=
  match forget with
  | some e => (some e, space)
  | none => (none, (Space.putBlocks { persist } bno len space).2)

/-- The loop over the leaves the new tree no longer needs. -/
def dropLeaves (faults : SyncFaults) : List Nat → Nat → Space → Fault × Space
  | [], _, space => (none, space)
  | bno :: rest, i, space =>
    match retireBlocks (faults.forgetLeaf i) (faults.putLeaf i) bno 1 space with
    | (some e, space) => (some e, space)
    | (none, space) => dropLeaves faults rest (i + 1) space

/-- The error path before anything was written: the new leaves go back, errors ignored. -/
def undoLeaves (faults : SyncFaults) : List Nat → Nat → Space → Space
  | [], _, space => space
  | bno :: rest, i, space =>
    undoLeaves faults rest (i + 1)
      (retireBlocks (faults.forgetLeaf i) (faults.putLeaf i) bno 1 space).2

/-- What a sync leaves behind: its result, the buffer, the inode's sector count, the
store. -/
structure SyncOut where
  ret : Fault
  buf : Buffer
  iBlocks : UInt64
  store : Store

/-- `simplefs_blocks_to_sectors`. -/
def blocksToSectors (blocks : Nat) : UInt64 := UInt64.ofNat blocks * 8

/-- `inode->i_blocks` after the leaf count changed. -/
def chargeLeaves (iBlocks : UInt64) (oldCount newCount : Nat) : UInt64 :=
  if oldCount ≤ newCount then iBlocks + blocksToSectors (newCount - oldCount)
  else iBlocks - blocksToSectors (oldCount - newCount)

/-- `simplefs_journal_stop` at the end: a handle of its own reports an aborted journal. -/
def stopSync (faults : SyncFaults) (out : SyncOut) : SyncOut :=
  if faults.own && (out.store.space.sShutdown || faults.stop) then
    { out with
      ret := out.ret.or (some .eio)
      store := { out.store with space := Space.failIf true out.store.space } }
  else out

/-- The leaves a buffer needs beyond those of the old tree. -/
def reserveLeaves (faults : SyncFaults) (buf : Buffer) (space : Space) : Bool × List Nat × Space :=
  takeLeaves faults (leafCount buf.extents.length - buf.leafBlocks.length) buf.leafBlocks.length space

/-- The leaf list of the new tree. -/
def newLeaves (faults : SyncFaults) (buf : Buffer) (space : Space) : List Nat :=
  buf.leafBlocks.take (leafCount buf.extents.length) ++ (reserveLeaves faults buf space).2.1

/-- The errors before the first write. -/
def earlyError (faults : SyncFaults) (rootBlock : Nat) (buf : Buffer) (space : Space) : Fault :=
  if !(reserveLeaves faults buf space).1 then some .enospc
  else if ownershipOverlap buf.extents (rootBlock :: newLeaves faults buf space) then some .euclean
  else faults.getRoot

/-- The part under the handle, from the allocation of leaves on. An error after the first
write shuts the file system down, an error before it returns the new leaves. -/
def syncTree (faults : SyncFaults) (rootBlock : Nat) (buf : Buffer) (iBlocks : UInt64)
    (st : Store) : SyncOut :=
  let oldCount := buf.leafBlocks.length
  let newCount := leafCount buf.extents.length
  let fresh := (reserveLeaves faults buf st.space).2.1
  let space := (reserveLeaves faults buf st.space).2.2
  let leaves := newLeaves faults buf st.space
  match earlyError faults rootBlock buf st.space with
  | some e => ⟨some e, buf, iBlocks, { st with space := undoLeaves faults fresh oldCount space }⟩
  | none =>
    match writeTree faults rootBlock oldCount buf.extents leaves st.disk with
    | (some e, true, disk) => ⟨some e, buf, iBlocks, ⟨disk, Space.failIf true space⟩⟩
    | (some e, false, disk) =>
      ⟨some e, buf, iBlocks, ⟨disk, undoLeaves faults fresh oldCount space⟩⟩
    | (none, _, disk) =>
      match dropLeaves faults (buf.leafBlocks.drop newCount) newCount space with
      | (some e, space) => ⟨some e, buf, iBlocks, ⟨disk, Space.failIf true space⟩⟩
      | (none, space) =>
        ⟨none, { buf with leafBlocks := leaves }, chargeLeaves iBlocks oldCount newCount,
          ⟨disk, space⟩⟩

/-- `simplefs_file_sync_extents`. -/
def syncExtents (faults : SyncFaults) (rootBlock : Nat) (buf : Buffer) (iBlocks : UInt64)
    (st : Store) : SyncOut :=
  let buf := { buf with extents := normalizeExtents buf.extents }
  if maxFileExtents < buf.extents.length then ⟨some .efbig, buf, iBlocks, st⟩
  else if decide (0 < leafCount buf.extents.length) && faults.kvcalloc then
    ⟨some .enomem, buf, iBlocks, st⟩
  else match if st.space.sShutdown then some .eio else faults.start with
    | some e => ⟨some e, buf, iBlocks, st⟩
    | none => stopSync faults (syncTree faults rootBlock buf iBlocks st)

/-! ## The allocation and the release of leaves -/

/-- What the allocation loop does: it only takes free blocks, each once, and when it finds
all it wants it touches no other. -/
structure LeavesTaken (before : Space) (missing : Nat) (taken : Bool × List Nat × Space) : Prop where
  shrinks : Space.Shrinks before taken.2.2
  wasFree : ∀ b ∈ taken.2.1, before.bfreeBitmap b = true
  inUse : ∀ b ∈ taken.2.1, taken.2.2.bfreeBitmap b = false
  inside : ∀ b ∈ taken.2.1, 0 < b ∧ b < before.nrBlocks
  distinct : taken.2.1.Nodup
  complete : taken.1 = true → taken.2.1.length = missing
  others : taken.1 = true → ∀ b, b ∉ taken.2.1 → taken.2.2.bfreeBitmap b = before.bfreeBitmap b

theorem takeLeaves_sound (faults : SyncFaults) (missing i : Nat) (space : Space) :
    LeavesTaken space missing (takeLeaves faults missing i space) := by
  induction missing generalizing i space with
  | zero => exact ⟨.refl space, by simp [takeLeaves], by simp [takeLeaves], by simp [takeLeaves],
      by simp [takeLeaves], by simp [takeLeaves], by simp [takeLeaves]⟩
  | succ missing ih =>
    obtain ⟨shrinks, taken⟩ :=
      Space.getFreeBlocks_sound (faults.busy i) { persist := faults.takeLeaf i } 1 space
    rw [takeLeaves]
    cases probe : Space.getFreeBlocks (faults.busy i) { persist := faults.takeLeaf i } 1 space with
    | mk bno space' =>
      rw [probe] at shrinks taken
      cases bno with
      | zero => exact ⟨shrinks, by simp, by simp, by simp, by simp, by simp, by simp⟩
      | succ bno =>
        have range := taken (Nat.succ_pos bno)
        have more := ih (i + 1) space'
        have gone : space'.bfreeBitmap (bno + 1) = false := by
          have cleared := congrFun range.cleared (bno + 1)
          rw [cleared, ← Bool.not_eq_true, clearRange_eq_true]
          exact fun kept => kept.1 (within_one.2 rfl)
        have kept : ∀ b, b ≠ bno + 1 → space'.bfreeBitmap b = space.bfreeBitmap b := by
          intro b other
          rw [range.cleared]
          exact clearRange_of_outside _ (fun within => other (within_one.1 within))
        have stays : ∀ b, space'.bfreeBitmap b = false →
            (takeLeaves faults missing (i + 1) space').2.2.bfreeBitmap b = false := by
          intro b used
          by_contra free
          rw [Bool.not_eq_false] at free
          rw [more.shrinks.free b free] at used
          exact Bool.noConfusion used
        dsimp only
        refine ⟨shrinks.trans more.shrinks, ?_, ?_, ?_, ?_, ?_, ?_⟩
        · intro b mem
          rcases List.mem_cons.1 mem with rfl | mem
          · exact range.free _ (within_one.2 rfl)
          · exact shrinks.free b (more.wasFree b mem)
        · intro b mem
          rcases List.mem_cons.1 mem with rfl | mem
          · exact stays _ gone
          · exact more.inUse b mem
        · intro b mem
          rcases List.mem_cons.1 mem with rfl | mem
          · exact ⟨Nat.succ_pos bno, range.inside⟩
          · exact shrinks.geometry.nrBlocks ▸ more.inside b mem
        · refine List.nodup_cons.2 ⟨fun mem => ?_, more.distinct⟩
          have free := more.wasFree _ mem
          rw [gone] at free
          exact Bool.noConfusion free
        · intro found
          rw [List.length_cons, more.complete found]
        · intro found b absent
          rw [List.mem_cons, not_or] at absent
          rw [more.others found b absent.2, kept b absent.1]

/-- A valid block in use can be returned while the file system is up. -/
def Returnable (space : Space) (bno : Nat) : Prop :=
  0 < bno ∧ bno < space.nrBlocks ∧ bno ≠ space.rootDirBlock ∧ space.bfreeBitmap bno = false

instance (space : Space) (bno : Nat) : Decidable (Returnable space bno) :=
  inferInstanceAs (Decidable (_ ∧ _ ∧ _ ∧ _))

theorem retireBlocks_free (forget : Fault) (persist : Bool) (bno len : Nat) (space : Space) (b : Nat) :
    (¬ Within bno len b →
        (retireBlocks forget persist bno len space).2.bfreeBitmap b = space.bfreeBitmap b) ∧
      (space.bfreeBitmap b = true →
        (retireBlocks forget persist bno len space).2.bfreeBitmap b = true) := by
  cases forget with
  | some e => exact ⟨fun _ => rfl, fun free => free⟩
  | none =>
    obtain ⟨_, _, refused, freed⟩ := Space.putBlocks_sound { persist } bno len space
    rw [retireBlocks]
    cases put : (Space.putBlocks { persist } bno len space).1 with
    | false =>
      rw [refused put]
      exact ⟨fun _ => rfl, fun free => free⟩
    | true =>
      rw [(freed put).1]
      constructor
      · exact fun outside => setRange_of_outside _ outside
      · exact fun free => (setRange_eq_true _ _ _ _).2 (Or.inr free)

theorem retireBlocks_geometry (forget : Fault) (persist : Bool) (bno len : Nat) (space : Space) :
    Space.SameGeometry space (retireBlocks forget persist bno len space).2 ∧
      ((retireBlocks forget persist bno len space).2.sShutdown = false → space.sShutdown = false) := by
  cases forget with
  | some e => exact ⟨⟨rfl, rfl, rfl, rfl⟩, fun up => up⟩
  | none =>
    obtain ⟨geometry, up, _⟩ := Space.putBlocks_sound { persist } bno len space
    exact ⟨geometry, up⟩

/-- What the release loop does. -/
structure LeavesDropped (before : Space) (leaves : List Nat) (after : Space) : Prop where
  geometry : Space.SameGeometry before after
  up : after.sShutdown = false → before.sShutdown = false
  others : ∀ b, b ∉ leaves → after.bfreeBitmap b = before.bfreeBitmap b
  kept : ∀ b, before.bfreeBitmap b = true → after.bfreeBitmap b = true

theorem dropLeaves_sound (faults : SyncFaults) (leaves : List Nat) (i : Nat) (space : Space) :
    LeavesDropped space leaves (dropLeaves faults leaves i space).2 := by
  induction leaves generalizing i space with
  | nil => exact ⟨⟨rfl, rfl, rfl, rfl⟩, fun up => up, fun _ _ => rfl, fun _ free => free⟩
  | cons bno rest ih =>
    have one := retireBlocks_free (faults.forgetLeaf i) (faults.putLeaf i) bno 1 space
    obtain ⟨geometry, up⟩ := retireBlocks_geometry (faults.forgetLeaf i) (faults.putLeaf i) bno 1 space
    rw [dropLeaves]
    cases step : retireBlocks (faults.forgetLeaf i) (faults.putLeaf i) bno 1 space with
    | mk ret space' =>
      rw [step] at one geometry up
      cases ret with
      | some e =>
        refine ⟨geometry, up, fun b absent => (one b).1 ?_, fun b => (one b).2⟩
        exact fun within => absent (within_one.1 within ▸ List.mem_cons_self)
      | none =>
        have more := ih (i + 1) space'
        refine ⟨geometry.trans more.geometry, fun later => up (more.up later), ?_,
          fun b free => more.kept b ((one b).2 free)⟩
        intro b absent
        rw [List.mem_cons, not_or] at absent
        exact (more.others b absent.2).trans
          ((one b).1 fun within => absent.1 (within_one.1 within))

/-! ## Writing a tree and reading it back -/

theorem fileExtentsPerLeaf_eq : fileExtentsPerLeaf = 340 := rfl

theorem fileIndexSlots_eq : fileIndexSlots = 255 := rfl

theorem maxFileExtents_eq : maxFileExtents = 86700 := rfl

theorem leafCount_eq_zero_iff (nrExtents : Nat) :
    leafCount nrExtents = 0 ↔ nrExtents ≤ fileExtentsPerLeaf := by
  rw [leafCount, fileExtentsPerLeaf_eq]
  split <;> omega

theorem le_leafCount_mul {nrExtents : Nat} (many : 0 < leafCount nrExtents) :
    nrExtents ≤ leafCount nrExtents * fileExtentsPerLeaf := by
  rw [leafCount, fileExtentsPerLeaf_eq] at many ⊢
  split at many
  · exact absurd many (Nat.lt_irrefl 0)
  · rename_i beyond
    rw [if_neg beyond]
    omega

theorem leafCount_le {nrExtents : Nat} (few : nrExtents ≤ maxFileExtents) :
    leafCount nrExtents ≤ fileIndexSlots := by
  rw [maxFileExtents_eq] at few
  rw [leafCount, fileExtentsPerLeaf_eq, fileIndexSlots_eq]
  split <;> omega

theorem leafCount_mono {n m : Nat} (le : n ≤ m) : leafCount n ≤ leafCount m := by
  rw [leafCount, leafCount, fileExtentsPerLeaf_eq]
  split
  · exact Nat.zero_le _
  · rw [if_neg (by omega)]
    omega

theorem loadLeaves_length {faults : LoadFaults} :
    ∀ {i : Nat} {extents : List Extent}, loadLeaves faults disk i leaves = .ok extents →
      extents.length ≤ fileExtentsPerLeaf * leaves.length := by
  induction leaves with
  | nil =>
    intro i extents loaded
    cases loaded
    exact Nat.zero_le _
  | cons bno rest ih =>
    intro i extents loaded
    rw [loadLeaves] at loaded
    split at loaded
    · cases loaded
    split at loaded
    · cases loaded
    rename_i first leaf
    split at loaded
    · cases loaded
    rename_i more later
    cases loaded
    have short : first.length ≤ fileExtentsPerLeaf := by
      cases block : disk bno with
      | leaf entries old =>
        rw [block, loadLeaf] at leaf
        split at leaf
        · cases leaf
        rename_i few
        split at leaf
        · cases leaf
        cases leaf
        rw [List.length_take]
        omega
      | _ =>
        rw [block] at leaf
        cases leaf
    have rest_ := ih later
    rw [List.length_append, List.length_cons, Nat.mul_succ]
    omega

/-- A tree that was loaded has the leaves its extents need, and no more extents than a tree can
have. -/
theorem loadExtents_bounds {faults : LoadFaults} {rootBlock : Nat} {buf : Buffer}
    (loaded : loadExtents faults disk rootBlock = .ok buf) :
    leafCount buf.extents.length ≤ buf.leafBlocks.length ∧ buf.extents.length ≤ maxFileExtents := by
  rw [loadExtents] at loaded
  split at loaded
  · cases loaded
  split at loaded
  · split at loaded
    · cases loaded
    rename_i few
    split at loaded
    · cases loaded
    cases loaded
    have short : ∀ (extents : List Extent) entries, ¬ fileExtentsPerLeaf < entries →
        (extents.take entries).length ≤ fileExtentsPerLeaf := by
      intro extents entries few
      rw [List.length_take]
      omega
    constructor
    · rw [leafCount, if_pos (short _ _ few)]
      exact Nat.zero_le _
    · exact Nat.le_trans (short _ _ few) (by decide)
  · split at loaded
    · cases loaded
    rename_i few
    split at loaded
    · cases loaded
    dsimp only at loaded
    split at loaded
    · cases loaded
    rename_i leaves
    cases loaded
    have most := loadLeaves_length leaves
    constructor
    · rw [fileExtentsPerLeaf_eq] at most
      rw [leafCount, fileExtentsPerLeaf_eq]
      split
      · exact Nat.zero_le _
      · dsimp only
        omega
    · refine Nat.le_trans most (Nat.mul_le_mul_left _ ?_)
      rw [List.length_map, List.length_take]
      omega
  · cases loaded
  · cases loaded

theorem loadLeaves_congr (faults : LoadFaults) {disk' : MetaDisk} (leaves : List Nat) (i : Nat)
    (same : ∀ b ∈ leaves, disk b = disk' b) :
    loadLeaves faults disk i leaves = loadLeaves faults disk' i leaves := by
  induction leaves generalizing i with
  | nil => rfl
  | cons bno rest ih =>
    rw [loadLeaves, loadLeaves, same bno List.mem_cons_self,
      ih (i + 1) (fun b mem => same b (List.mem_cons_of_mem _ mem))]

theorem loadLeaf_leaf (extents : List Extent) (i : Nat) :
    loadLeaf false (.leaf (chunk fileExtentsPerLeaf extents i).length
      (chunk fileExtentsPerLeaf extents i)) = .ok (chunk fileExtentsPerLeaf extents i) := by
  have short := chunk_length_le fileExtentsPerLeaf extents i
  rw [loadLeaf, if_neg (Nat.not_lt.2 short), List.take_length]
  rfl

theorem loadLeaf_of_sameLeaf {block : MetaBlock} {i : Nat}
    (same : sameLeaf block (chunk fileExtentsPerLeaf extents i) = true) :
    loadLeaf false block = .ok (chunk fileExtentsPerLeaf extents i) := by
  cases block with
  | leaf entries old =>
    simp only [sameLeaf, Bool.and_eq_true, beq_iff_eq] at same
    have short := chunk_length_le fileExtentsPerLeaf extents i
    rw [loadLeaf, same.1, if_neg (Nat.not_lt.2 short), ← same.1, same.2]
    rfl
  | _ => exact absurd same (by simp [sameLeaf])

/-- The leaf loop, run to its end, leaves each chunk in its leaf and other blocks alone. -/
theorem writeLeaves_sound (faults : SyncFaults) (oldCount : Nat) (extents : List Extent)
    (leaves : List Nat) (i : Nat) (changed : Bool) (disk : MetaDisk) (distinct : leaves.Nodup)
    (success : (writeLeaves faults oldCount extents leaves i changed disk).1 = none) :
    (∀ b, b ∉ leaves → (writeLeaves faults oldCount extents leaves i changed disk).2.2 b = disk b) ∧
      ∀ k, loadLeaves {} (writeLeaves faults oldCount extents leaves i changed disk).2.2 k leaves =
        .ok ((List.range' i leaves.length).flatMap (chunk fileExtentsPerLeaf extents)) := by
  induction leaves generalizing i changed disk with
  | nil => exact ⟨fun _ _ => rfl, fun _ => rfl⟩
  | cons bno rest ih =>
    obtain ⟨fresh, distinct⟩ := List.nodup_cons.1 distinct
    -- both ways to get past this leaf leave a disk on which it reads as its chunk
    have next : ∀ (changed' : Bool) (disk' : MetaDisk),
        (∀ b, b ≠ bno → disk' b = disk b) →
        loadLeaf false (disk' bno) = .ok (chunk fileExtentsPerLeaf extents i) →
        (writeLeaves faults oldCount extents rest (i + 1) changed' disk').1 = none →
        (∀ b, b ∉ bno :: rest →
          (writeLeaves faults oldCount extents rest (i + 1) changed' disk').2.2 b = disk b) ∧
        ∀ k, loadLeaves {} (writeLeaves faults oldCount extents rest (i + 1) changed' disk').2.2 k
          (bno :: rest) =
          .ok ((List.range' i (bno :: rest).length).flatMap (chunk fileExtentsPerLeaf extents)) := by
      intro changed' disk' others here done
      obtain ⟨frame, reads⟩ := ih (i + 1) changed' disk' distinct done
      constructor
      · intro b absent
        rw [List.mem_cons, not_or] at absent
        exact (frame b absent.2).trans (others b absent.1)
      · intro k
        rw [loadLeaves, frame bno fresh, here, reads (k + 1), List.length_cons, List.range'_succ,
          List.flatMap_cons]
    rw [writeLeaves] at success ⊢
    split at success
    · exact absurd success (by simp)
    · split at success
      · rename_i same
        rw [if_pos same]
        rw [Bool.and_eq_true] at same
        exact next changed disk (fun _ _ => rfl) (loadLeaf_of_sameLeaf same.2) success
      · rename_i differ
        rw [if_neg differ]
        split at success
        · exact absurd success (by simp)
        · exact absurd success (by simp)
        · exact absurd success (by simp)
        · refine next true _ (fun b other => Function.update_of_ne other _ _) ?_ success
          rw [Function.update_self]
          exact loadLeaf_leaf extents i

theorem mapIdx_leafBlock (extents : List Extent) (leaves : List Nat) :
    (leaves.mapIdx fun i bno => leafIndex extents bno i).map ExtentIndex.leafBlock = leaves := by
  apply List.ext_getElem
  · simp
  · intro i _ _
    simp [leafIndex]

theorem loadExtents_rootBlockOf {rootBlock : Nat} (few : extents.length ≤ maxFileExtents)
    (count : leaves.length = leafCount extents.length)
    (root : disk rootBlock = rootBlockOf extents leaves)
    (reads : loadLeaves {} disk 0 leaves = .ok ((List.range' 0 leaves.length).flatMap (chunk fileExtentsPerLeaf extents))) :
    loadExtents {} disk rootBlock = .ok { extents, leafBlocks := leaves } := by
  rw [loadExtents]
  dsimp only
  rw [root, rootBlockOf]
  cases leaves with
  | nil =>
    have short : extents.length ≤ fileExtentsPerLeaf := (leafCount_eq_zero_iff _).1 count.symm
    simp [Nat.not_lt.2 short]
  | cons bno rest =>
    have many : 0 < leafCount extents.length := count ▸ Nat.succ_pos rest.length
    have bound : ¬ fileIndexSlots < (bno :: rest).length := by
      rw [count]
      exact Nat.not_lt.2 (leafCount_le few)
    have indexes : ((bno :: rest).mapIdx fun i b => leafIndex extents b i).take (bno :: rest).length =
        (bno :: rest).mapIdx fun i b => leafIndex extents b i :=
      List.take_of_length_le (by simp)
    have whole : (List.range' 0 (bno :: rest).length).flatMap (chunk fileExtentsPerLeaf extents) =
        extents := by
      rw [← List.range_eq_range', count]
      exact flatMap_chunk_of_le _ _ _ (le_leafCount_mul many)
    simp only [List.isEmpty_cons, Bool.false_eq_true, if_false, if_neg bound, Bool.and_false,
      indexes, mapIdx_leafBlock, reads, whole]

theorem writeTree_sound {faults : SyncFaults} {rootBlock oldCount : Nat}
    (few : extents.length ≤ maxFileExtents) (count : leaves.length = leafCount extents.length)
    (distinct : (rootBlock :: leaves).Nodup)
    (success : (writeTree faults rootBlock oldCount extents leaves disk).1 = none) :
    loadExtents {} (writeTree faults rootBlock oldCount extents leaves disk).2.2 rootBlock =
        .ok { extents, leafBlocks := leaves } ∧
      ∀ b, b ∉ rootBlock :: leaves →
        (writeTree faults rootBlock oldCount extents leaves disk).2.2 b = disk b := by
  obtain ⟨apart, distinct⟩ := List.nodup_cons.1 distinct
  have leaves_ := writeLeaves_sound faults oldCount extents leaves 0 false disk distinct
  rw [writeTree] at success ⊢
  cases written : writeLeaves faults oldCount extents leaves 0 false disk with
  | mk ret rest =>
    obtain ⟨changed, disk'⟩ := rest
    rw [written] at leaves_ success
    cases ret with
    | some e => exact absurd success (by simp)
    | none =>
      obtain ⟨frame, reads⟩ := leaves_ rfl
      dsimp only at frame reads success ⊢
      cases flush : faults.flushLeaves with
      | some e => rw [flush] at success; exact absurd success (by simp)
      | none =>
        dsimp only
        constructor
        · refine loadExtents_rootBlockOf few count (Function.update_self ..) ?_
          rw [← reads 0]
          apply loadLeaves_congr
          intro b mem
          have other : b ≠ rootBlock := fun same => apart (same ▸ mem)
          exact Function.update_of_ne other _ _
        · intro b absent
          rw [List.mem_cons, not_or] at absent
          rw [Function.update_of_ne absent.1, frame b absent.2]

/-! ## A successful sync -/

/-- The steps of a sync that returned no error, from a normalised buffer. -/
structure Synced (faults : SyncFaults) (rootBlock : Nat) (buf : Buffer) (iBlocks : UInt64)
    (st : Store) (out : SyncOut) : Prop where
  found : (reserveLeaves faults buf st.space).1 = true
  extents : out.buf.extents = buf.extents
  leaves : out.buf.leafBlocks = newLeaves faults buf st.space
  written : (writeTree faults rootBlock buf.leafBlocks.length buf.extents
    (newLeaves faults buf st.space) st.disk).1 = none
  disk : out.store.disk = (writeTree faults rootBlock buf.leafBlocks.length buf.extents
    (newLeaves faults buf st.space) st.disk).2.2
  dropped : dropLeaves faults (buf.leafBlocks.drop (leafCount buf.extents.length))
    (leafCount buf.extents.length) (reserveLeaves faults buf st.space).2.2 = (none, out.store.space)
  sectors : out.iBlocks = chargeLeaves iBlocks buf.leafBlocks.length (leafCount buf.extents.length)

theorem syncTree_ok {faults : SyncFaults} {rootBlock : Nat} {buf : Buffer} {iBlocks : UInt64}
    {st : Store} (success : (syncTree faults rootBlock buf iBlocks st).ret = none) :
    Synced faults rootBlock buf iBlocks st (syncTree faults rootBlock buf iBlocks st) := by
  rw [syncTree] at success ⊢
  split at success
  · exact absurd success (by simp)
  · rename_i early
    have found : (reserveLeaves faults buf st.space).1 = true := by
      by_contra missing
      rw [Bool.not_eq_true] at missing
      simp [earlyError, missing] at early
    split at success
    · exact absurd success (by simp)
    · exact absurd success (by simp)
    · rename_i written
      split at success
      · exact absurd success (by simp)
      · rename_i dropped
        exact ⟨found, rfl, rfl, by rw [written], by rw [written], dropped, rfl⟩

theorem stopSync_ok {faults : SyncFaults} {out : SyncOut} (success : (stopSync faults out).ret = none) :
    stopSync faults out = out ∧ out.ret = none := by
  rw [stopSync] at success ⊢
  split at success
  · exact absurd success (by cases out.ret <;> simp)
  · rename_i quiet
    exact ⟨if_neg quiet, success⟩

theorem syncExtents_ok {faults : SyncFaults} {rootBlock : Nat} {buf : Buffer} {iBlocks : UInt64}
    {st : Store} (success : (syncExtents faults rootBlock buf iBlocks st).ret = none) :
    (normalizeExtents buf.extents).length ≤ maxFileExtents ∧
      Synced faults rootBlock { buf with extents := normalizeExtents buf.extents } iBlocks st
        (syncExtents faults rootBlock buf iBlocks st) := by
  rw [syncExtents] at success ⊢
  dsimp only at success ⊢
  split at success
  · exact absurd success (by simp)
  · rename_i few
    rw [if_neg few]
    split at success
    · exact absurd success (by simp)
    · rename_i memory
      rw [if_neg memory]
      split at success
      · exact absurd success (by simp)
      · obtain ⟨same, success⟩ := stopSync_ok success
        rw [same]
        exact ⟨Nat.not_lt.1 few, syncTree_ok success⟩

/-! ## What any sync leaves alone -/

theorem undoLeaves_sound (faults : SyncFaults) (leaves : List Nat) (i : Nat) (space : Space) :
    LeavesDropped space leaves (undoLeaves faults leaves i space) := by
  induction leaves generalizing i space with
  | nil => exact ⟨⟨rfl, rfl, rfl, rfl⟩, fun up => up, fun _ _ => rfl, fun _ free => free⟩
  | cons bno rest ih =>
    have one := retireBlocks_free (faults.forgetLeaf i) (faults.putLeaf i) bno 1 space
    obtain ⟨geometry, up⟩ :=
      retireBlocks_geometry (faults.forgetLeaf i) (faults.putLeaf i) bno 1 space
    have more := ih (i + 1) (retireBlocks (faults.forgetLeaf i) (faults.putLeaf i) bno 1 space).2
    rw [undoLeaves]
    refine ⟨geometry.trans more.geometry, fun later => up (more.up later), ?_,
      fun b free => more.kept b ((one b).2 free)⟩
    intro b absent
    rw [List.mem_cons, not_or] at absent
    exact (more.others b absent.2).trans ((one b).1 fun within => absent.1 (within_one.1 within))

/-- The tree a buffer was loaded from: its blocks are distinct and in use, and its leaves
are blocks the allocator takes back. -/
structure OnDisk (st : Store) (rootBlock : Nat) (old : Buffer) : Prop where
  loaded : loadExtents {} st.disk rootBlock = .ok old
  distinct : (rootBlock :: old.leafBlocks).Nodup
  rootUsed : st.space.bfreeBitmap rootBlock = false
  leaves : ∀ b ∈ old.leafBlocks, Returnable st.space b

theorem newLeaves_length {faults : SyncFaults} {buf : Buffer}
    (found : (reserveLeaves faults buf space).1 = true) :
    (newLeaves faults buf space).length = leafCount buf.extents.length := by
  have taken := takeLeaves_sound faults (leafCount buf.extents.length - buf.leafBlocks.length)
    buf.leafBlocks.length space
  have complete : (reserveLeaves faults buf space).2.1.length = _ := taken.complete found
  rw [newLeaves, List.length_append, List.length_take, complete]
  omega

theorem newLeaves_distinct (faults : SyncFaults) {rootBlock : Nat} {buf : Buffer}
    (distinct : (rootBlock :: buf.leafBlocks).Nodup)
    (used : ∀ b ∈ rootBlock :: buf.leafBlocks, space.bfreeBitmap b = false) :
    (rootBlock :: newLeaves faults buf space).Nodup := by
  have taken := takeLeaves_sound faults (leafCount buf.extents.length - buf.leafBlocks.length)
    buf.leafBlocks.length space
  rw [newLeaves, ← List.cons_append, List.nodup_append']
  refine ⟨distinct.sublist ((List.take_sublist _ _).cons_cons _), taken.distinct, ?_⟩
  intro b old fresh
  have mem : b ∈ rootBlock :: buf.leafBlocks :=
    ((List.take_sublist (leafCount buf.extents.length) buf.leafBlocks).cons_cons rootBlock).subset old
  have free := taken.wasFree b fresh
  rw [used b mem] at free
  exact Bool.noConfusion free

theorem chargeLeaves_balance (iBlocks : UInt64) (oldCount newCount : Nat) :
    chargeLeaves iBlocks oldCount newCount + blocksToSectors oldCount =
      iBlocks + blocksToSectors newCount := by
  rw [chargeLeaves]
  split
  · rename_i grows
    obtain ⟨more, rfl⟩ := Nat.exists_eq_add_of_le grows
    rw [Nat.add_sub_cancel_left]
    simp only [blocksToSectors, UInt64.ofNat_add]
    grind
  · rename_i shrinks
    obtain ⟨more, rfl⟩ := Nat.exists_eq_add_of_le (Nat.le_of_not_le shrinks)
    rw [Nat.add_sub_cancel_left]
    simp only [blocksToSectors, UInt64.ofNat_add]
    grind

/-- The blocks that a sync returned to the allocator. -/
def Returned (st : Store) (out : SyncOut) (b : Nat) : Prop :=
  st.space.bfreeBitmap b = false ∧ out.store.space.bfreeBitmap b = true

/-- The leaves of the old tree that the new one does not use. -/
def Dropped (old : Buffer) (out : SyncOut) (b : Nat) : Prop :=
  b ∈ old.leafBlocks ∧ b ∉ out.buf.leafBlocks

instance (st : Store) (out : SyncOut) (b : Nat) : Decidable (Returned st out b) :=
  inferInstanceAs (Decidable (_ ∧ _))

instance (old : Buffer) (out : SyncOut) (b : Nat) : Decidable (Dropped old out b) :=
  inferInstanceAs (Decidable (_ ∧ _))

section Success

variable {faults : SyncFaults} {rootBlock : Nat} {buf : Buffer} {iBlocks : UInt64} {st : Store}
  {out : SyncOut} (synced : Synced faults rootBlock buf iBlocks st out)
  (distinct : (rootBlock :: buf.leafBlocks).Nodup)
  (rootUsed : st.space.bfreeBitmap rootBlock = false)
  (valid : ∀ b ∈ buf.leafBlocks, Returnable st.space b)

include synced distinct rootUsed valid

theorem Synced.load (few : buf.extents.length ≤ maxFileExtents) :
    loadExtents {} out.store.disk rootBlock = .ok out.buf := by
  have used : ∀ b ∈ rootBlock :: buf.leafBlocks, st.space.bfreeBitmap b = false := by
    intro b mem
    rcases List.mem_cons.1 mem with rfl | mem
    · exact rootUsed
    · exact (valid b mem).2.2.2
  have read := (writeTree_sound few (newLeaves_length synced.found)
    (newLeaves_distinct faults distinct used) synced.written).1
  rw [synced.disk, read, ← synced.leaves, ← synced.extents]

omit rootUsed in
theorem Synced.dropped_iff (b : Nat) :
    Dropped buf out b ↔ b ∈ buf.leafBlocks.drop (leafCount buf.extents.length) := by
  have taken := takeLeaves_sound faults (leafCount buf.extents.length - buf.leafBlocks.length)
    buf.leafBlocks.length st.space
  have parts := List.take_append_drop (leafCount buf.extents.length) buf.leafBlocks
  have split := (List.nodup_cons.1 distinct).2
  rw [← parts, List.nodup_append'] at split
  rw [Dropped, synced.leaves, newLeaves, List.mem_append, not_or]
  constructor
  · rintro ⟨mem, notTake, _⟩
    rw [← parts, List.mem_append] at mem
    exact mem.resolve_left notTake
  · intro mem
    have old : b ∈ buf.leafBlocks := List.mem_of_mem_drop mem
    refine ⟨old, fun take => split.2.2 take mem, fun fresh => ?_⟩
    have free := taken.wasFree b fresh
    rw [(valid b old).2.2.2] at free
    exact Bool.noConfusion free

omit rootUsed in
theorem Synced.returnable (rootDir : st.space.bfreeBitmap st.space.rootDirBlock = false) :
    ∀ b ∈ out.buf.leafBlocks, Returnable out.store.space b := by
  have taken : LeavesTaken st.space _ (reserveLeaves faults buf st.space) := takeLeaves_sound ..
  have loop := dropLeaves_sound faults (buf.leafBlocks.drop (leafCount buf.extents.length))
    (leafCount buf.extents.length) (reserveLeaves faults buf st.space).2.2
  rw [synced.dropped] at loop
  have geometry := taken.shrinks.geometry.trans loop.geometry
  intro b mem
  have kept : b ∉ buf.leafBlocks.drop (leafCount buf.extents.length) := by
    intro drop
    exact ((synced.dropped_iff distinct valid b).2 drop).2 mem
  rw [synced.leaves, newLeaves, List.mem_append] at mem
  rcases mem with old | fresh
  · have before := valid b (List.mem_of_mem_take old)
    refine ⟨before.1, geometry.nrBlocks ▸ before.2.1, geometry.rootDirBlock ▸ before.2.2.1, ?_⟩
    by_contra free
    rw [Bool.not_eq_false, loop.others b kept] at free
    have again := taken.shrinks.free b free
    rw [before.2.2.2] at again
    exact Bool.noConfusion again
  · refine ⟨(taken.inside b fresh).1, geometry.nrBlocks ▸ (taken.inside b fresh).2, ?_, ?_⟩
    · rw [geometry.rootDirBlock]
      rintro rfl
      rw [taken.wasFree _ fresh] at rootDir
      exact absurd rootDir (by simp)
    · exact (loop.others b kept).trans (taken.inUse b fresh)

end Success

end SimpleFs

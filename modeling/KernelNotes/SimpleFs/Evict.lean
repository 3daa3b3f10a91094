import KernelNotes.SimpleFs.Ledger

/-!
# Eviction of an unlinked inode

`simplefs_evict_inode` gives back what an inode without links owned, in one transaction.
Data blocks go straight to the bitmap, metadata blocks are revoked first, and a revoke takes
one of the credits the handle was opened with. The result of a retirement is not looked at.
-/

namespace SimpleFs.Evict

open Bits

inductive Kind where
  | reg
  | dir
  | lnk
  | other
  deriving DecidableEq, Repr

/-- What the eviction reads of the inode. -/
structure Inode where
  iIno : Nat
  iNlink : Nat := 0
  isBad : Bool := false
  kind : Kind := .reg
  eiBlock : Nat
  iXattrBlock : Nat := 0

/-- The answers of the lower layers, for metadata and data by block. -/
structure EvictFaults where
  start : Fault := none
  load : LoadFaults := {}
  revoke : Nat → Fault := fun _ => none
  put : Nat → Space.HandleFaults := fun _ => {}
  putInode : Space.HandleFaults := {}
  stop : Bool := false

/-- The transaction: the allocator, `h_revoke_credits`, and a record of the blocks released. -/
structure Retirement where
  space : Space
  hRevokeCredits : Nat
  released : List Nat := []

namespace Retirement

/-- `put_blocks`. -/
def putBlocks (faults : EvictFaults) (bno len : Nat) (r : Retirement) : Retirement :=
  let put := Space.putBlocks (faults.put bno) bno len r.space
  { r with
    space := put.2
    released := if put.1 then r.released ++ List.range' bno len else r.released }

/-- `simplefs_journal_forget_current`. -/
def journalForgetCurrent (faults : EvictFaults) (bno : Nat) (r : Retirement) : Fault × Retirement :=
  if r.hRevokeCredits = 0 then (some .enospc, r)
  else match faults.revoke bno with
    | some e => (some e, r)
    | none => (none, { r with hRevokeCredits := r.hRevokeCredits - 1 })

def forgetBlocks (faults : EvictFaults) : List Nat → Retirement → Fault × Retirement
  | [], r => (none, r)
  | bno :: rest, r =>
    match r.journalForgetCurrent faults bno with
    | (some e, r) => (some e, r)
    | (none, r) => forgetBlocks faults rest r

/-- `simplefs_retire_metadata_blocks` under the handle of the eviction. -/
def retireMetadataBlocks (faults : EvictFaults) (len : Nat) (r : Retirement) (bno : Nat) : Retirement :=
  match forgetBlocks faults (List.range' bno len) r with
  | (some _, r) => r
  | (none, r) => r.putBlocks faults bno len

/-- The loop over the extents. -/
def releaseExtent (faults : EvictFaults) (kind : Kind) (r : Retirement) (e : Extent) : Retirement :=
  if kind = .dir then r.retireMetadataBlocks faults e.extLen e.eeStart
  else r.putBlocks faults e.eeStart e.extLen

/-- The tree of a regular file or of a directory. A tree that cannot be loaded shuts the file
system down. -/
def releaseTree (faults : EvictFaults) (inode : Inode) (disk : MetaDisk) (r : Retirement) :
    Except Retirement Retirement :=
  if (inode.kind = .reg ∨ inode.kind = .dir) ∧ inode.eiBlock ≠ 0 then
    match loadExtents faults.load disk inode.eiBlock with
    | .error _ => .error { r with space := Space.failIf true r.space }
    | .ok buf =>
      let r := buf.extents.foldl (releaseExtent faults inode.kind) r
      let r := buf.leafBlocks.foldl (retireMetadataBlocks faults 1) r
      .ok (r.retireMetadataBlocks faults 1 inode.eiBlock)
  else .ok r

/-- Behind the tree: the target of a long symlink, the attributes, the inode number. -/
def releaseRest (faults : EvictFaults) (inode : Inode) (r : Retirement) : Retirement :=
  let r := if inode.kind = .lnk ∧ inode.eiBlock ≠ 0 then r.retireMetadataBlocks faults 1 inode.eiBlock
    else r
  let r := if inode.iXattrBlock ≠ 0 then r.retireMetadataBlocks faults 1 inode.iXattrBlock else r
  let space := if inode.iIno ≠ 0 then Space.putInode faults.putInode inode.iIno r.space else r.space
  { r with space := Space.failIf faults.stop space }

end Retirement

/-- `simplefs_journal_start_internal` asks for this many credits. -/
def journalCredits (blocks : Nat) : Nat := max blocks 64

/-- `simplefs_evict_inode`. -/
def evictInode (faults : EvictFaults) (inode : Inode) (st : Store) : Retirement :=
  if inode.iNlink ≠ 0 ∨ inode.isBad ∨ st.space.sShutdown then ⟨st.space, 0, []⟩
  else match faults.start with
    | some _ => ⟨st.space, 0, []⟩
    | none =>
      match Retirement.releaseTree faults inode st.disk ⟨st.space, journalCredits 64, []⟩ with
      | .error r => r
      | .ok r => r.releaseRest faults inode

/-- The metadata blocks of the inode, in the order in which they are retired. -/
def metaBlocks (inode : Inode) (buf : Buffer) : List Nat :=
  buf.leafBlocks ++ [inode.eiBlock] ++ if inode.iXattrBlock ≠ 0 then [inode.iXattrBlock] else []

def dataBlocks (buf : Buffer) : List Nat := buf.extents.flatMap fun e => List.range' e.eeStart e.extLen

/-- An unlinked regular file: its tree, and its blocks and its number, which are all in use. -/
structure Unlinked (inode : Inode) (st : Store) (buf : Buffer) : Prop where
  reg : inode.kind = .reg
  nlink : inode.iNlink = 0
  good : inode.isBad = false
  root : inode.eiBlock ≠ 0
  loaded : loadExtents {} st.disk inode.eiBlock = .ok buf
  full : ∀ e ∈ buf.extents, 0 < e.extLen
  distinct : (dataBlocks buf ++ metaBlocks inode buf).Nodup
  returnable : ∀ b ∈ dataBlocks buf ++ metaBlocks inode buf, Returnable st.space b
  number : 0 < inode.iIno ∧ inode.iIno < st.space.nrInodes
  numberUsed : st.space.ifreeBitmap inode.iIno = false

/-- Everything the inode owned is free, and every block was released once. -/
structure AllReturned (inode : Inode) (buf : Buffer) (r : Retirement) : Prop where
  free : ∀ b ∈ dataBlocks buf ++ metaBlocks inode buf, r.space.bfreeBitmap b = true
  once : ∀ b ∈ dataBlocks buf ++ metaBlocks inode buf, r.released.count b = 1
  number : r.space.ifreeBitmap inode.iIno = true

/-! ## Releases one after the other -/

/-- The transaction so far: nothing failed, and these are the blocks it released. -/
structure Going (start : Space) (credits : Nat) (released : List Nat) (r : Retirement) : Prop where
  up : r.space.sShutdown = false
  space : Withheld r.space released start
  credits : r.hRevokeCredits = credits
  released : r.released = released

variable {start : Space} {credits bno len : Nat} {released blocks : List Nat} {r : Retirement}

theorem Going.putBlocks (going : Going start credits released r) (positive : 0 < len)
    (valid : ∀ b ∈ List.range' bno len, Returnable start b)
    (fresh : ∀ b ∈ List.range' bno len, b ∉ released) :
    Going start credits (released ++ List.range' bno len) (r.putBlocks {} bno len) := by
  have ready : ∀ b ∈ List.range' bno len, Returnable r.space b := fun b mem =>
    going.space.returnable_base (valid b mem) (fresh b mem)
  obtain ⟨run, one⟩ := @Withheld.putBlocks_eq r.space {} bno len positive ready going.up rfl
  have run : (Space.putBlocks {} bno len r.space).2 = Space.failIf false (r.space.give bno len) := run
  rw [Space.failIf_false] at run
  have taken : (Space.putBlocks {} bno len r.space).1 = true := by
    by_contra refused
    rw [Bool.not_eq_true] at refused
    have same := (Space.putBlocks_sound {} bno len r.space).2.2.1 refused
    have mem : bno ∈ List.range' bno len := by
      rw [List.mem_range'_1]
      omega
    have free := one.wasFree bno mem
    rw [← run, same, (ready bno mem).2.2.2] at free
    cases free
  constructor
  · show (Space.putBlocks {} bno len r.space).2.sShutdown = false
    rw [run]
    exact going.up
  · show Withheld (Space.putBlocks {} bno len r.space).2 _ start
    rw [run]
    exact one.trans going.space
  · exact going.credits
  · show (if (Space.putBlocks {} bno len r.space).1 then _ else _) = _
    rw [if_pos taken, going.released]

/-- A block is retired as long as there is a credit for its revoke. -/
theorem Going.retire (going : Going start credits released r) (valid : Returnable start bno)
    (fresh : bno ∉ released) :
    Going start (credits - 1) (released ++ [bno].take credits) (r.retireMetadataBlocks {} 1 bno) := by
  rw [Retirement.retireMetadataBlocks, List.range'_one, Retirement.forgetBlocks,
    Retirement.journalForgetCurrent, going.credits]
  cases credits with
  | zero =>
    rw [if_pos rfl, List.take_zero, List.append_nil]
    exact going
  | succ credits =>
    have less : Going start credits released { r with hRevokeCredits := credits } :=
      ⟨going.up, going.space, rfl, going.released⟩
    rw [if_neg (Nat.succ_ne_zero credits), List.take_succ_cons, List.take_nil]
    refine less.putBlocks Nat.one_pos ?_ ?_
    · rintro b mem
      rwa [List.mem_singleton.mp mem]
    · rintro b mem
      rwa [List.mem_singleton.mp mem]

theorem Going.retireAll (going : Going start credits released r)
    (valid : ∀ b ∈ blocks, Returnable start b) (distinct : (released ++ blocks).Nodup) :
    Going start (credits - blocks.length) (released ++ blocks.take credits)
      (blocks.foldl (Retirement.retireMetadataBlocks {} 1) r) := by
  induction blocks generalizing r credits released with
  | nil =>
    rw [List.take_nil, List.append_nil]
    exact going
  | cons bno rest ih =>
    obtain ⟨first, later⟩ := List.forall_mem_cons.mp valid
    have fresh : bno ∉ released := fun mem =>
      (List.nodup_append.mp distinct).2.2 bno mem bno List.mem_cons_self rfl
    have one := going.retire first fresh
    have apart : (released ++ [bno].take credits ++ rest).Nodup := by
      refine distinct.sublist ?_
      rw [List.append_assoc]
      exact List.Sublist.append_left ((List.take_sublist _ _).append_right rest) released
    have all := ih one later apart
    rw [List.foldl_cons, List.length_cons, Nat.add_comm, Nat.sub_add_eq]
    cases credits with
    | zero => simpa using all
    | succ credits => simpa using all

theorem Going.putAll (going : Going start credits released r) {extents : List Extent}
    (full : ∀ e ∈ extents, 0 < e.extLen)
    (valid : ∀ b ∈ extents.flatMap fun e => List.range' e.eeStart e.extLen, Returnable start b)
    (distinct : (released ++ extents.flatMap fun e => List.range' e.eeStart e.extLen).Nodup) :
    Going start credits (released ++ extents.flatMap fun e => List.range' e.eeStart e.extLen)
      (extents.foldl (Retirement.releaseExtent {} .reg) r) := by
  induction extents generalizing r released with
  | nil =>
    rw [List.flatMap_nil, List.append_nil]
    exact going
  | cons e rest ih =>
    obtain ⟨first, later⟩ := List.forall_mem_cons.mp full
    rw [List.flatMap_cons] at valid distinct ⊢
    have fresh : ∀ b ∈ List.range' e.eeStart e.extLen, b ∉ released := fun b mem old =>
      (List.nodup_append.mp distinct).2.2 b old b (List.mem_append_left _ mem) rfl
    have one := going.putBlocks first (fun b mem => valid b (List.mem_append_left _ mem)) fresh
    rw [← List.append_assoc] at distinct ⊢
    exact ih one later (fun b mem => valid b (List.mem_append_right _ mem)) distinct

/-! ## The whole eviction -/

variable {inode : Inode} {st : Store} {buf : Buffer}

/-- The eviction as two loops, over the extents and over the metadata blocks, and `put_inode`. -/
theorem Unlinked.evictInode_eq (file : Unlinked inode st buf) (up : st.space.sShutdown = false) :
    evictInode {} inode st =
      let r := buf.extents.foldl (Retirement.releaseExtent {} .reg) ⟨st.space, 64, []⟩
      let r := (metaBlocks inode buf).foldl (Retirement.retireMetadataBlocks {} 1) r
      { r with space := Space.putInode {} inode.iIno r.space } := by
  have live : ¬ (inode.iNlink ≠ 0 ∨ inode.isBad = true ∨ st.space.sShutdown = true) := by
    simp [file.nlink, file.good, up]
  have numbered : inode.iIno ≠ 0 := Nat.ne_of_gt file.number.1
  rw [evictInode, if_neg live, Retirement.releaseTree, if_pos ⟨.inl file.reg, file.root⟩, file.loaded]
  have plain : ¬ (inode.kind = .lnk ∧ inode.eiBlock ≠ 0) := by simp [file.reg]
  dsimp only [Retirement.releaseRest]
  rw [if_neg plain, if_pos numbered, Space.failIf_false, file.reg, metaBlocks, List.foldl_append,
    List.foldl_append]
  by_cases none_ : inode.iXattrBlock = 0
  · rw [if_neg (not_not.mpr none_), if_neg (not_not.mpr none_)]
    rfl
  · rw [if_pos none_, if_pos none_]
    rfl

theorem putInode_frees {space : Space} {ino : Nat} (up : space.sShutdown = false)
    (number : 0 < ino ∧ ino < space.nrInodes) (used : space.ifreeBitmap ino = false) :
    (Space.putInode {} ino space).bfreeBitmap = space.bfreeBitmap ∧
      (Space.putInode {} ino space).ifreeBitmap ino = true := by
  have start : ¬ (space.sShutdown || ({} : Space.HandleFaults).start) = true := by simp [up]
  have fine : ¬ (ino == 0 || decide (space.nrInodes ≤ ino) || space.ifreeBitmap ino) = true := by
    simp [used]
    omega
  rw [Space.putInode, if_neg start, if_neg fine]
  exact ⟨rfl, (setRange_eq_true _ _ _ _).mpr (.inl ⟨Nat.le_refl _, Nat.lt_succ_self _⟩)⟩

/-- The last block of a list is not among the first ones. -/
theorem getLast_not_mem_take {l : List Nat} {n : Nat} (distinct : l.Nodup) (long : n < l.length)
    (some_ : l ≠ []) : l.getLast some_ ∉ l.take n := by
  intro mem
  rw [← List.take_append_drop n l] at distinct
  have tail : l.drop n ≠ [] := by
    rw [Ne, List.drop_eq_nil_iff]
    omega
  have last : l.getLast some_ ∈ l.drop n := by
    rw [← List.getLast_drop tail]
    exact List.getLast_mem tail
  exact (List.nodup_append.mp distinct).2.2 _ mem _ last rfl

theorem Unlinked.returned_iff (file : Unlinked inode st buf) (up : st.space.sShutdown = false) :
    AllReturned inode buf (evictInode {} inode st) ↔ (metaBlocks inode buf).length ≤ 64 := by
  obtain ⟨dataOnce, metaOnce, apart⟩ := List.nodup_append.mp file.distinct
  have begun : Going st.space 64 [] ⟨st.space, 64, []⟩ := ⟨up, .refl _, rfl, rfl⟩
  have put := begun.putAll file.full (fun b mem => file.returnable b (List.mem_append_left _ mem))
    dataOnce
  have done := put.retireAll (fun b mem => file.returnable b (List.mem_append_right _ mem))
    file.distinct
  rw [file.evictInode_eq up]
  dsimp only
  generalize (metaBlocks inode buf).foldl (Retirement.retireMetadataBlocks {} 1)
    (buf.extents.foldl (Retirement.releaseExtent {} .reg) ⟨st.space, 64, []⟩) = r at done
  have geometry := done.space.geometry
  obtain ⟨blocks, number⟩ := putInode_frees done.up (geometry.nrInodes ▸ file.number)
    (geometry.ifreeBitmap ▸ file.numberUsed)
  constructor
  · intro returned
    by_contra long
    have some_ : metaBlocks inode buf ≠ [] := by
      intro none_
      rw [none_] at long
      exact long (Nat.zero_le 64)
    have last := List.getLast_mem some_
    have once := returned.once _ (List.mem_append_right _ last)
    rw [done.released, List.count_eq_zero_of_not_mem] at once
    · cases once
    · rw [List.mem_append, not_or]
      exact ⟨fun mem => apart _ mem _ last rfl, getLast_not_mem_take metaOnce (by omega) some_⟩
  · intro few
    rw [List.take_of_length_le few] at done
    refine ⟨fun b mem => ?_, fun b mem => ?_, number⟩
    · rw [blocks]
      exact done.space.wasFree b mem
    · rw [done.released]
      exact List.count_eq_one_of_mem file.distinct mem

/-! ## Files with many leaves -/

/-- Extents of one block each behind a tree of `n` leaves, each followed by a hole. -/
def singles (n : Nat) : List Extent :=
  (List.range (340 * n)).map fun k => .init (2 * k) 1 (6 + n + k) false

/-- A full device with one file on it, whose tree has `n` full leaves. -/
def fragmented (n : Nat) : Store where
  disk := (writeTree {} 5 0 (singles n) (List.range' 6 n) fun _ => .zero).2.2
  space :=
    { nrBlocks := 6 + 341 * n
      nrInodes := 39
      nrIstoreBlocks := 1
      nrIfreeBlocks := 1
      nrBfreeBlocks := 1
      bfreeBitmap := fun _ => false
      ifreeBitmap := fun _ => false
      discardPending := fun _ => false
      nrFreeBlocks := 0
      nrFreeInodes := 0
      sDiscard := false
      sShutdown := false }

theorem dataBlocks_singles (n : Nat) (leaves : List Nat) :
    dataBlocks ⟨singles n, leaves⟩ = List.range' (6 + n) (340 * n) := by
  rw [dataBlocks, singles, List.flatMap_map, List.range'_eq_map_range, List.map_eq_flatMap]
  rfl

theorem writeLeaves_quiet (extents : List Extent) (leaves : List Nat) (i : Nat) (changed : Bool)
    (disk : MetaDisk) : (writeLeaves {} 0 extents leaves i changed disk).1 = none := by
  induction leaves generalizing i changed disk with
  | nil => rfl
  | cons bno rest ih => exact ih ..

theorem mem_metaBlocks_singles {n b : Nat} :
    b ∈ metaBlocks { iIno := 7, eiBlock := 5 } ⟨singles n, List.range' 6 n⟩ ↔ 5 ≤ b ∧ b < 6 + n := by
  show b ∈ List.range' 6 n ++ [5] ++ [] ↔ _
  rw [List.append_nil, List.mem_append, List.mem_singleton, List.mem_range'_1]
  omega

theorem fragmented_unlinked {n : Nat} (some_ : 2 ≤ n) (few : n ≤ 255) :
    Unlinked { iIno := 7, eiBlock := 5 } (fragmented n) ⟨singles n, List.range' 6 n⟩ where
  reg := rfl
  nlink := rfl
  good := rfl
  root := by decide
  loaded := by
    have length : (singles n).length = 340 * n := by rw [singles, List.length_map, List.length_range]
    refine (writeTree_sound ?_ ?_ ?_ ?_).1
    · rw [length, maxFileExtents_eq]
      omega
    · rw [List.length_range', length, leafCount, fileExtentsPerLeaf_eq]
      split <;> omega
    · exact (List.nodup_range' : (List.range' 5 (n + 1)).Nodup)
    · have run := writeLeaves_quiet (singles n) (List.range' 6 n) 0 false fun _ => .zero
      rw [writeTree]
      generalize writeLeaves {} 0 (singles n) (List.range' 6 n) 0 false (fun _ => .zero) = out at run
      obtain ⟨ret, changed, disk⟩ := out
      obtain rfl : ret = none := run
      rfl
  full e mem := by
    obtain ⟨k, -, rfl⟩ := List.mem_map.mp mem
    exact Nat.one_pos
  distinct := by
    rw [dataBlocks_singles]
    refine List.nodup_append.mpr ⟨List.nodup_range', ?_, ?_⟩
    · show (List.range' 6 n ++ [5] ++ []).Nodup
      rw [List.append_nil, ← List.concat_eq_append, List.nodup_concat]
      exact ⟨fun mem => absurd (List.mem_range'_1.mp mem).1 (by decide), List.nodup_range'⟩
    · intro a mem b mem' same
      rw [List.mem_range'_1] at mem
      rw [mem_metaBlocks_singles] at mem'
      omega
  returnable b mem := by
    rw [dataBlocks_singles, List.mem_append, List.mem_range'_1, mem_metaBlocks_singles] at mem
    refine ⟨by omega, ?_, ?_, rfl⟩
    · show b < 6 + 341 * n
      omega
    · show b ≠ 4
      omega
  number := by
    show 0 < 7 ∧ 7 < 39
    decide
  numberUsed := rfl

end SimpleFs.Evict

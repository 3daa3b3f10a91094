import KernelNotes.SimpleFs.NormalForm
import KernelNotes.SimpleFs.ZeroRange

/-!
# Mapping a block, when it fails

A sync without faults is refused for two reasons only, too many extents and too few free blocks for
leaves. `simplefs_get_block` does not undo everything when that happens: the sectors of a new extent
stay charged to the inode. With no faults at all, this is the only way it can leave a trace.
-/

namespace SimpleFs

open Outcome Bits Cells

/-! ## A sync without faults -/

/-- Nothing fails, and the journal holds on to the same blocks at every try. -/
structure SyncFaults.Calm (faults : SyncFaults) (busy : BitMap) : Prop extends faults.Mild where
  kvcalloc : faults.kvcalloc = false
  start : faults.start = none
  getRoot : faults.getRoot = none
  held : ∀ i, faults.busy i = busy

theorem SyncFaults.Calm.owned {faults : SyncFaults} {busy : BitMap} (calm : faults.Calm busy) :
    ({ faults with own := true } : SyncFaults).Calm busy :=
  ⟨calm.toMild.owned, calm.kvcalloc, calm.start, calm.getRoot, calm.held⟩

section

variable {faults : SyncFaults} {busy : BitMap} (calm : faults.Calm busy)

include calm

theorem takeLeaves_calm (missing : Nat) : ∀ i (s : Space), s.bfreeBitmap 0 = false → s.sShutdown = false →
    ((takeLeaves faults missing i s).1 = true ↔ missing ≤ s.usable busy) := by
  induction missing with
  | zero => exact fun i s _ _ => iff_of_true rfl (Nat.zero_le _)
  | succ missing ih =>
    intro i s reserved up
    rw [takeLeaves, calm.held i, calm.takeLeaf i]
    rcases File.getFreeBlocks_steady busy Nat.one_pos reserved up with ⟨run, cannot⟩ | ⟨first, run, lowest⟩
    · rw [run, Space.usable_eq_zero reserved cannot]
      exact iff_of_false (by simp) (by omega)
    · have took : Withheld s (List.range' (first + 1) 1 ++ []) (s.take (first + 1) 1) :=
        (Withheld.refl s).take ⟨fun b within => (lowest.1.2.2 b within).1, lowest.1.2.1, Nat.one_pos, rfl⟩
      have sum := @Withheld.usable _ _ _ took busy (by simpa using lowest.1.idle)
      rw [run]
      dsimp only
      rw [ih (i + 1) (s.take (first + 1) 1) ?_ up]
      · simp only [List.length_append, List.length_range', List.length_nil] at sum
        omega
      · by_contra free
        rw [Bool.not_eq_false] at free
        rw [((took.free 0).mp free).1] at reserved
        cases reserved

theorem syncTree_calm {rootBlock : Nat} {buf : Buffer} {iBlocks : UInt64} {st : Store}
    (found : (reserveLeaves faults buf st.space).1 = true)
    (apart : ownershipOverlap buf.extents (rootBlock :: newLeaves faults buf st.space) = false) :
    (syncTree faults rootBlock buf iBlocks st).ret = none := by
  have early : earlyError faults rootBlock buf st.space = none := by
    rw [earlyError, found, apart, calm.getRoot]
    rfl
  have written := writeTree_none calm.toMild rootBlock buf.leafBlocks.length buf.extents
    (newLeaves faults buf st.space) st.disk
  obtain ⟨dropped, -⟩ := dropLeaves_up calm.toMild (buf.leafBlocks.drop (leafCount buf.extents.length))
    (leafCount buf.extents.length) (reserveLeaves faults buf st.space).2.2
  rw [syncTree, early]
  dsimp only
  split
  · rename_i run
    rw [run] at written
    cases written
  · rename_i run
    rw [run] at written
    cases written
  · split
    · rename_i run
      rw [run] at dropped
      cases dropped
    · rfl

theorem syncExtents_calm {rootBlock : Nat} {buf : Buffer} {iBlocks : UInt64} {st : Store}
    (up : st.space.sShutdown = false) (few : (normalizeExtents buf.extents).length ≤ maxFileExtents)
    (found : (reserveLeaves faults { buf with extents := normalizeExtents buf.extents } st.space).1 = true)
    (apart : ownershipOverlap (normalizeExtents buf.extents) (rootBlock ::
      newLeaves faults { buf with extents := normalizeExtents buf.extents } st.space) = false) :
    (syncExtents faults rootBlock buf iBlocks st).ret = none := by
  have tree := @syncTree_calm faults busy calm rootBlock { buf with extents := normalizeExtents buf.extents }
    iBlocks st found apart
  have stays := syncTree_up calm.toMild rootBlock { buf with extents := normalizeExtents buf.extents } iBlocks st
  rw [syncExtents]
  dsimp only
  rw [if_neg (Nat.not_lt.mpr few), calm.kvcalloc, Bool.and_false, if_neg Bool.false_ne_true, up,
    if_neg Bool.false_ne_true, calm.start]
  dsimp only
  rw [stopSync, stays, up, calm.stop, Bool.or_false, Bool.and_false, if_neg Bool.false_ne_true]
  exact tree

namespace File

omit calm in
theorem Owned.no_overlap {file : File} {buf : Buffer} (owned : Owned file buf) {new : List Extent}
    (sound : Sound new) (data : (dataBlocks new).Perm (dataBlocks buf.extents)) {fresh : List Nat} (n : Nat)
    (unused : ∀ b ∈ fresh, file.space.bfreeBitmap b = true) (once : fresh.Nodup) :
    ownershipOverlap new (file.eiBlock :: (buf.leafBlocks.take n ++ fresh)) = false := by
  have distinct := owned.distinct_of_leaves n data unused once
  rw [ownershipOverlap, List.any_eq_false]
  intro e listed overlap
  obtain ⟨b, mem, covers⟩ := List.any_eq_true.mp overlap
  have fit := sound.fit e listed
  rw [Nat.mod_eq_of_lt fit.physical, Bool.and_eq_true, decide_eq_true_eq, decide_eq_true_eq] at covers
  have datum : b ∈ dataBlocks new := by
    rw [dataBlocks, mem_targets]
    refine ⟨e.eeBlock + (b - e.eeStart), e.unwritten, List.mem_flatMap.mpr ⟨e, listed, ?_⟩⟩
    rw [fit.cells, mem_run]
    dsimp only
    refine ⟨by omega, by omega, ?_⟩
    congr 1
    omega
  rw [← List.cons_append] at distinct
  exact (List.nodup_append.mp distinct).2.2 b mem b datum rfl

/-- Without faults a sync is refused for too many extents or too few blocks for leaves. -/
theorem Owned.sync_calm {file : File} {buf : Buffer} (owned : Owned file buf) (loose : Loose buf.extents)
    (up : file.space.sShutdown = false) :
    (syncExtents { faults with own := true } file.eiBlock buf file.iBlocks file.store).ret = none ↔
      (normalizeExtents buf.extents).length ≤ maxFileExtents ∧
        leafCount (normalizeExtents buf.extents).length - buf.leafBlocks.length ≤ file.space.usable busy := by
  have calm := calm.owned
  have found := takeLeaves_calm calm
    (leafCount (normalizeExtents buf.extents).length - buf.leafBlocks.length) buf.leafBlocks.length file.space
    owned.reserved.zero up
  constructor
  · intro success
    obtain ⟨few, synced⟩ := syncExtents_ok success
    exact ⟨few, found.mp synced.found⟩
  · rintro ⟨few, enough⟩
    obtain ⟨sound, cells⟩ := loose.normalize
    have taken := takeLeaves_sound { faults with own := true }
      (leafCount (normalizeExtents buf.extents).length - buf.leafBlocks.length) buf.leafBlocks.length file.space
    have apart := owned.no_overlap sound (cells.map _) (leafCount (normalizeExtents buf.extents).length)
      taken.wasFree taken.distinct
    exact syncExtents_calm calm up few (found.mpr enough) apart

end File

end

/-! ## The paths of `simplefs_get_block` -/

namespace File

structure GetFaults.Calm (faults : GetFaults) (busy : BitMap) : Prop where
  load : faults.load = {}
  grow : Steady busy faults.grow
  free : Steady busy faults.free
  zeroout : faults.zeroout = none
  insert : faults.insert = false
  put : faults.put = {}
  sync : faults.sync.Calm busy

/-- The tree that gets a new extent of `t` blocks has too many extents or, with the blocks that are
left, not all of its leaves. -/
def TreeShort (busy : BitMap) (file : File) (buf : Buffer) (new : List Extent) (t : Nat) : Prop :=
  ¬ ((normalizeExtents new).length ≤ maxFileExtents ∧
    t + (leafCount (normalizeExtents new).length - buf.leafBlocks.length) ≤ file.space.usable busy)

theorem treeShort_of_normal {busy : BitMap} {file : File} {buf : Buffer} {new : List Extent} {t : Nat}
    (normal : normalizeExtents new = new)
    (few : file.space.usable busy < t + (leafCount new.length - buf.leafBlocks.length)) :
    TreeShort busy file buf new t := by
  intro enough
  rw [normal] at enough
  exact absurd enough.2 (Nat.not_le.mpr few)

/-- The run that is found for a new extent leaves too little for the tree. -/
def Shortage (busy : BitMap) (file : File) (buf : Buffer) (unwritten : Bool) (iblock idx len : Nat) : Prop :=
  ∃ t p, 0 < t ∧ FirstTry busy file.space len t ∧ Lowest busy file.space t p ∧
    TreeShort busy file buf (buf.extents.insertIdx idx (.init iblock t p unwritten)) t

/-- A block is asked for in a hole, no extent can grow into it, and the blocks run short. -/
def Strands (busy : BitMap) (file : File) (buf : Buffer) (unwritten : Bool) (iblock maxblocks : Nat) : Prop :=
  iblock < maxFileBlocks ∧ ∃ idx, findExtent iblock buf.extents = (false, idx) ∧
    (∀ e ∈ buf.extents, e.eeBlock + e.extLen = iblock → e.unwritten = unwritten →
      e.extLen < maxBlocksPerExtent → ¬ RunAt busy file.space 1 (e.eeStart + e.extLen)) ∧
    Shortage busy file buf unwritten iblock idx (holeLen buf.extents idx iblock maxblocks)

/-- What a failure leaves behind: something just when the blocks ran short. -/
def Settled (file : File) (short : Prop) (file' : File) : Prop :=
  (¬ short ∧ (file'.space.sShutdown = false → Unchanged file file')) ∨
    (short ∧ file'.space.sShutdown = false ∧ ¬ Unchanged file file')

theorem atomic_iff_of_ends {α : Type} {file : File} {short : Prop} {run : Except Errno α × File}
    (ends : Ends (fun _ _ => ¬ short) (fun _ => Settled file short) run) : Atomic file run ↔ ¬ short := by
  obtain ⟨result, file'⟩ := run
  cases result with
  | ok a => exact iff_of_true nofun ends
  | error e =>
    rcases ends with ⟨enough, same⟩ | ⟨short, up, differs⟩
    · refine iff_of_true (fun e' file'' ran up => ?_) enough
      cases ran
      exact same up
    · exact iff_of_false (fun atomic => differs (atomic e file' rfl up)) (not_not_intro short)

theorem Settled.of_unchanged {file file' : File} {short : Prop} (enough : ¬ short)
    (same : file'.space.sShutdown = false → Unchanged file file') : Settled file short file' :=
  .inl ⟨enough, same⟩

variable {n iblock : Nat} {l r : List Extent} {e : Extent}

theorem add_blocksToSectors_ne (some_ : 0 < n) (small : n ≤ maxBlocksPerExtent) (sectors : UInt64) :
    sectors + blocksToSectors n ≠ sectors := by
  intro same
  have size : maxBlocksPerExtent = 8192 := rfl
  have zero : blocksToSectors n = 0 := by
    rw [← UInt64.add_right_inj sectors, same, UInt64.add_zero]
  have value := congrArg UInt64.toNat zero
  rw [blocksToSectors, UInt64.toNat_mul, UInt64.toNat_ofNat'] at value
  simp only [UInt64.toNat_ofNat] at value
  omega

section

variable {faults : GetFaults} {busy : BitMap} {file : File} {buf : Buffer} (intact : Intact file buf)
  (calm : faults.Calm busy) (up : file.space.sShutdown = false)

include intact calm up

omit up in
theorem sync_added_calm {file' : File} {p n : Nat} {new : List Extent}
    (took : Withheld file.space (List.range' p n) file'.space) (idle : ∀ b ∈ List.range' p n, busy b = false)
    (root : file'.eiBlock = file.eiBlock) (up' : file'.space.sShutdown = false) (sound : Sound new)
    (data : (dataBlocks new).Perm (List.range' p n ++ dataBlocks buf.extents)) :
    Ends (fun _ _ => ¬ TreeShort busy file buf new n)
      (fun _ file'' => TreeShort busy file buf new n ∧ file''.space.sShutdown = false ∧
        file''.iBlocks = file'.iBlocks)
      (sync faults.sync { buf with extents := new } file') := by
  have owned := intact.toOwned.add took root data
  have exact_ := owned.sync_calm calm.sync sound.loose up'
  have ends := owned.sync_ends sound.loose faults.sync
  have sum := took.usable idle
  rw [List.length_range'] at sum
  have short : TreeShort busy file buf new n ↔
      (syncExtents { faults.sync with own := true } file'.eiBlock { buf with extents := new } file'.iBlocks
        file'.store).ret ≠ none := by
    rw [Ne, exact_, TreeShort]
    dsimp only
    rw [← sum, Nat.add_comm (file'.space.usable busy), Nat.add_le_add_iff_left]
  rw [short]
  revert ends
  rw [sync]
  cases ret : (syncExtents { faults.sync with own := true } file'.eiBlock { buf with extents := new } file'.iBlocks
      file'.store).ret with
  | none => exact fun _ => not_not_intro rfl
  | some e =>
    intro unwritten
    obtain ⟨same, stays⟩ := unwritten.mild calm.sync.toMild
    exact ⟨by simp, stays.trans up', same.2.1⟩

omit intact calm up in
theorem takeFree_unchanged (reserved : file.space.Reserved) (tries : Nat → TakeFaults) (len : Nat) :
    Ends (fun _ _ => True) (fun _ mid => mid.space.sShutdown = false → Unchanged file mid)
      (takeFree tries len file) := by
  rw [takeFree]
  split
  · rename_i run_
    intro up
    have spec := Withheld.freeRun reserved tries len 0 file.space (.refl _)
    rw [run_] at spec
    rcases spec up with ⟨-, kept⟩ | ⟨never, -⟩
    · exact ⟨rfl, rfl, kept.same⟩
    · exact absurd rfl never
  · exact trivial

omit intact calm up in
theorem FirstTry.usable_pos {len t : Nat} {s : Space} (first : FirstTry busy s len t) (some_ : 0 < t) :
    0 < len ∧ 0 < s.usable busy := by
  obtain ⟨k, rfl, ⟨q, run⟩, -⟩ := first
  exact ⟨Nat.pos_of_div_pos some_, RunAt.usable_pos run some_⟩

omit intact calm up in
theorem takeBehind_calm (reserved : file.space.Reserved) {tries : Nat → TakeFaults} (steady : Steady busy tries)
    (up : file.space.sShutdown = false) (start m : Nat) :
    Ends (fun n mid => (n = 0 ∧ file = mid ∧ (0 < m → ¬ RunAt busy file.space 1 start)) ∨
        (n ≠ 0 ∧ n ≤ m ∧ mid.eiBlock = file.eiBlock ∧ mid.space.sShutdown = false ∧
          RunAt busy file.space n start ∧ Withheld file.space (List.range' start n) mid.space))
      (fun _ _ => False) (takeBehind tries start m file) := by
  rw [takeBehind]
  by_cases none_ : m = 0
  · have zero : growRun tries start m 0 file.space = (0, file.space) := by
      rw [growRun, if_pos none_]
    rw [zero]
    exact .inl ⟨rfl, rfl, by omega⟩
  rcases growRun_steady steady up m (Nat.pos_of_ne_zero none_) 0 with ⟨some_, run⟩ | ⟨stuck, zero⟩
  · have found := growRun_found tries start m 0 file.space some_
    rcases Withheld.growRun reserved tries start m 0 file.space (.refl _) found with
      ⟨never, -⟩ | ⟨-, less, took⟩
    · exact absurd never some_
    · rw [List.append_nil] at took
      exact .inr ⟨some_, less, rfl, found, run, took⟩
  · rw [zero]
    exact .inl ⟨rfl, rfl, fun _ => stuck⟩

theorem newExtent_calm {len : Nat} (gap : Gap iblock buf.extents l r)
    (small : len ≤ maxBlocksPerExtent) (below : iblock + len < wordSize)
    (room : ∀ e ∈ r, iblock + len ≤ e.eeBlock) (mode : GetMode) :
    Ends (fun _ _ => ¬ Shortage busy file buf mode.createUnwritten iblock l.length len)
      (fun _ => Settled file (Shortage busy file buf mode.createUnwritten iblock l.length len))
      (newExtent faults mode buf iblock len l.length file) := by
  rw [newExtent]
  have both := (takeFree_ends intact.reserved faults.free len fun _ => Withheld.refl file.space).and
    (takeFree_unchanged intact.reserved faults.free len)
  refine Ends.bind _ (both.mono (fun _ _ => And.left) fun _ mid failed => ?_) ?_
  · refine Settled.of_unchanged ?_ failed.2
    rintro ⟨t, p, some_, first, -⟩
    obtain ⟨positive, usable⟩ := first.usable_pos some_
    obtain ⟨rfl, empty⟩ := failed.1 calm.free positive up
    omega
  rintro range _ ⟨space, rfl, some_, short, took, chosen, up'⟩
  obtain ⟨first, lowest⟩ := chosen busy calm.free
  rw [List.append_nil] at took
  have exact_ : Shortage busy file buf mode.createUnwritten iblock l.length len ↔
      TreeShort busy file buf (buf.extents.insertIdx l.length
        (.init iblock range.len range.start mode.createUnwritten)) range.len := by
    constructor
    · rintro ⟨t, p, -, first', lowest', treeShort⟩
      obtain rfl := first.unique first'
      obtain rfl := lowest.unique lowest'
      exact treeShort
    · exact fun treeShort => ⟨_, _, some_, first, lowest, treeShort⟩
  rw [exact_]
  refine Ends.bind (fun _ mid => file.setSpace space = mid) ?_ ?_
  · refine Ends.onError (fun _ _ => faults.insert = true) (Ends.refuse (fun _ => rfl) id) fun _ _ failed => ?_
    rw [calm.insert] at failed
    cases failed
  rintro _ _ rfl
  refine Ends.bind (fun _ mid => { file.setSpace space with
    iBlocks := file.iBlocks + blocksToSectors range.len } = mid) (Ends.update rfl) ?_
  rintro _ _ rfl
  obtain ⟨start, inside⟩ := took.append_nil.run_bounds intact.reserved some_
  have device := intact.device
  obtain ⟨sound, cells⟩ := gap.added intact.sound some_ (Nat.le_trans short small) start (by omega) (by omega)
    (fun e mem => by have := room e mem; omega) mode.createUnwritten
  have data := cells.map fun c : Nat × Nat × Bool => c.2.1
  rw [List.map_append] at data
  have data := data.trans ((List.Perm.of_eq (targets_run iblock range.start mode.createUnwritten
    range.len)).append_right _)
  refine Ends.bind (fun _ _ => ¬ TreeShort _ _ _ _ _) ?_ fun _ _ => id
  refine Ends.onError _ (sync_added_calm intact calm took lowest.1.idle rfl up' sound data) ?_
  rintro _ mid ⟨treeShort, stays, sectors⟩
  refine .inr ⟨treeShort, ?_, fun same => ?_⟩
  · show (Space.putBlocks faults.put range.start range.len mid.space).2.sShutdown = false
    rw [calm.put]
    exact (Space.putBlocks_up rfl rfl _ _ _).trans stays
  · exact add_blocksToSectors_ne some_ (Nat.le_trans short small) file.iBlocks (sectors.symm.trans same.2.1)

omit up in
theorem growExtent_calm {file' : File} {prev : Extent}
    (gap : Gap iblock buf.extents (l ++ [prev]) r) (ends : prev.eeBlock + prev.extLen = iblock)
    (root : file'.eiBlock = file.eiBlock) (up' : file'.space.sShutdown = false)
    (took : Withheld file.space (List.range' (prev.eeStart + prev.extLen) n) file'.space)
    (idle : ∀ b ∈ List.range' (prev.eeStart + prev.extLen) n, busy b = false) (some_ : 0 < n)
    (small : prev.extLen + n ≤ maxBlocksPerExtent) (below : iblock + n < wordSize)
    (room : ∀ e ∈ r, iblock + n ≤ e.eeBlock) (mode : GetMode) :
    Ends (fun _ _ => True) (fun _ _ => False)
      (growExtent faults mode buf l.length prev (prev.eeStart + prev.extLen) n file') := by
  obtain ⟨sound, cells⟩ := grow_added intact gap ends took some_ small below room
  have data := cells.map fun c : Nat × Nat × Bool => c.2.1
  rw [List.map_append] at data
  have data := data.trans ((List.Perm.of_eq (targets_run iblock (prev.eeStart + prev.extLen) prev.unwritten
    n)).append_right _)
  have enough : ¬ TreeShort busy file buf
      (buf.extents.set l.length (prev.setLen (prev.extLen + n))) n := by
    have sum := took.usable idle
    rw [List.length_range'] at sum
    have few := length_normalizeExtents_le (buf.extents.set l.length (prev.setLen (prev.extLen + n)))
    rw [List.length_set] at few
    obtain ⟨leaves, most⟩ := loadExtents_bounds intact.loaded
    have fewer := leafCount_mono few
    refine not_not_intro ⟨Nat.le_trans few most, ?_⟩
    omega
  rw [growExtent]
  refine Ends.bind (fun _ mid => file' = mid) ?_ ?_
  · refine Ends.onError (fun _ _ => False) (Ends.check (fun _ => rfl) fun e failed => ?_) fun _ _ => id
    rw [calm.zeroout, ite_self] at failed
    cases failed
  rintro _ _ rfl
  refine Ends.bind (fun _ mid => { file' with iBlocks := file'.iBlocks + blocksToSectors n } = mid)
    (Ends.update rfl) ?_
  rintro _ _ rfl
  refine Ends.bind (fun _ _ => True) ?_ fun _ _ _ => trivial
  exact (@sync_added_calm faults busy file buf intact calm
    { file' with iBlocks := file'.iBlocks + blocksToSectors n } _ _ _ took idle root up' sound data).mono
    (fun _ _ _ => trivial) fun _ _ short => enough short.1

omit intact calm up in
theorem gap_last {extents : List Extent} (sound : Sound extents) (gap : Gap iblock extents l r)
    (mem : e ∈ extents) (ends : e.eeBlock + e.extLen = iblock) : ∃ l', l = l' ++ [e] := by
  have full := (sound.fit e mem).full
  rw [gap.split] at mem
  rcases List.mem_append.mp mem with early | late
  · rcases List.eq_nil_or_concat' l with rfl | ⟨l', f, rfl⟩
    · cases early
    rcases List.mem_append.mp early with inner | last
    · have fullF := (sound.fit f (by rw [gap.split]; simp)).full
      have before := gap.before f (by simp)
      rw [gap.split] at sound
      have order := sound.of_append.1.of_append.2.2 e inner f (by simp)
      rw [Extent.Before] at order
      omega
    · rw [List.mem_singleton.mp last]
      exact ⟨l', rfl⟩
  · have := gap.behind e late
    omega

omit intact calm up in
/-- The extent that ends at the gap can grow, unless it is full or in the other state. -/
theorem growable_eq {extents : List Extent} (sound : Sound extents) (gap : Gap iblock extents l r)
    {u : Bool} (mem : e ∈ extents) (ends : e.eeBlock + e.extLen = iblock) (state : e.unwritten = u)
    (short : e.extLen < maxBlocksPerExtent) :
    growable u extents l.length iblock = some (l.length - 1, e) := by
  obtain ⟨l', rfl⟩ := gap_last sound gap mem ends
  have fit := sound.fit e mem
  have here : extents[l'.length]? = some e := by
    rw [gap.split, List.append_assoc, List.getElem?_append_right (Nat.le_refl _), Nat.sub_self]
    rfl
  rw [List.length_append, List.length_singleton, growable, here]
  dsimp only
  rw [if_pos]
  · rfl
  · simp only [fit.not_isEmpty, fit.extEnd, ends, state, short, Bool.not_false, beq_self_eq_true, Bool.and_self,
      decide_true]

theorem fillHole_calm {maxblocks : Nat} (gap : Gap iblock buf.extents l r)
    (missing : findExtent iblock buf.extents = (false, l.length)) (limit : iblock < maxFileBlocks)
    (mode : GetMode) :
    Ends (fun _ _ => ¬ Strands busy file buf mode.createUnwritten iblock maxblocks)
      (fun _ => Settled file (Strands busy file buf mode.createUnwritten iblock maxblocks))
      (fillHole faults mode buf iblock maxblocks l.length file) := by
  obtain ⟨small, -, room⟩ := holeLen_spec gap intact.sound maxblocks
  have below : iblock + holeLen buf.extents l.length iblock maxblocks < wordSize := by
    have most : maxFileBlocks = 710246400 := rfl
    have size : maxBlocksPerExtent = 8192 := rfl
    have word : wordSize = 4294967296 := rfl
    omega
  -- without a way to grow, the call strands something just when the blocks run short
  have fresh : (0 < holeLen buf.extents l.length iblock maxblocks → ∀ e ∈ buf.extents,
      e.eeBlock + e.extLen = iblock → e.unwritten = mode.createUnwritten →
      e.extLen < maxBlocksPerExtent → ¬ RunAt busy file.space 1 (e.eeStart + e.extLen)) →
      Ends (fun _ _ => ¬ Strands busy file buf mode.createUnwritten iblock maxblocks)
        (fun _ => Settled file (Strands busy file buf mode.createUnwritten iblock maxblocks))
        (newExtent faults mode buf iblock (holeLen buf.extents l.length iblock maxblocks) l.length file) := by
    intro stuck
    have same : Strands busy file buf mode.createUnwritten iblock maxblocks ↔
        Shortage busy file buf mode.createUnwritten iblock l.length
          (holeLen buf.extents l.length iblock maxblocks) := by
      constructor
      · rintro ⟨-, idx, found, -, short⟩
        rw [missing] at found
        cases found
        exact short
      · intro short
        obtain ⟨t, p, some_, first, -⟩ := id short
        exact ⟨limit, _, missing, stuck (first.usable_pos some_).1, short⟩
    rw [same]
    exact newExtent_calm intact calm up gap small below room mode
  rw [fillHole]
  cases grows : growable mode.createUnwritten buf.extents l.length iblock with
  | none =>
    refine fresh fun _ e mem ends state short => ?_
    rw [growable_eq intact.sound gap mem ends state short] at grows
    cases grows
  | some found =>
    obtain ⟨k, prev⟩ := found
    obtain ⟨l', rfl, rfl, state, ends, short⟩ := growable_spec intact.sound gap grows
    have listed : prev ∈ buf.extents := by
      rw [gap.split]
      simp
    have fit := intact.sound.fit prev listed
    have only : ∀ e ∈ buf.extents, e.eeBlock + e.extLen = iblock → e.unwritten = mode.createUnwritten →
        e.extLen < maxBlocksPerExtent → e = prev := by
      intro e mem ends' state' short'
      rw [growable_eq intact.sound gap mem ends' state' short'] at grows
      exact congrArg Prod.snd (Option.some.inj grows)
    dsimp only
    rw [Nat.mod_eq_of_lt fit.physical]
    generalize request : min (holeLen buf.extents (l' ++ [prev]).length iblock maxblocks)
      (maxBlocksPerExtent - prev.extLen) = m
    refine Ends.bind (fun n mid => (n = 0 ∧ file = mid ∧ (0 < m → ¬ RunAt busy file.space 1
        (prev.eeStart + prev.extLen))) ∨ (n ≠ 0 ∧ n ≤ m ∧ mid.eiBlock = file.eiBlock ∧
        mid.space.sShutdown = false ∧ RunAt busy file.space n (prev.eeStart + prev.extLen) ∧
        Withheld file.space (List.range' (prev.eeStart + prev.extLen) n) mid.space)) ?_ ?_
    · exact (takeBehind_calm intact.reserved calm.grow up _ m).mono (fun _ _ => id) fun _ _ => False.elim
    · rintro n mid (⟨rfl, rfl, stuck⟩ | ⟨some_, less, root, up', run, took⟩)
      · rw [if_pos rfl]
        refine fresh fun positive e mem ends' state' short' => ?_
        rw [only e mem ends' state' short']
        exact stuck (by omega)
      · rw [if_neg some_]
        refine (growExtent_calm intact calm gap ends root up' took run.idle (Nat.pos_of_ne_zero some_)
          (by omega) (by omega) (fun e mem => by have := room e mem; omega) mode).mono (fun _ _ _ => ?_)
          fun _ _ => False.elim
        rintro ⟨-, idx, -, stuck, -⟩
        exact stuck prev listed ends state short (run.one (Nat.pos_of_ne_zero some_))

/-- Without faults, `simplefs_get_block` leaves something behind just when the blocks run short. -/
theorem getBlock_calm {mode : GetMode} (create : mode.create = true) (iblock maxblocks : Nat) :
    Ends (fun _ _ => ¬ Strands busy file buf mode.createUnwritten iblock maxblocks)
      (fun _ => Settled file (Strands busy file buf mode.createUnwritten iblock maxblocks))
      (getBlock faults mode iblock maxblocks file) := by
  rw [getBlock]
  refine Ends.bind (fun _ file' => file = file' ∧ iblock < maxFileBlocks) ?_ ?_
  · refine Ends.refuse (fun limit => ⟨rfl, by simpa using limit⟩) fun above => ?_
    refine Settled.of_unchanged (fun strands => ?_) fun _ => .refl file
    exact absurd strands.1 (Nat.not_lt.mpr (of_decide_eq_true above))
  rintro _ _ ⟨rfl, limit⟩
  refine Ends.bind (fun buf' file' => buf = buf' ∧ file = file') ?_ ?_
  · exact ((load_eq intact faults.load).and (load_fault intact faults.load)).mono (fun _ _ both => both.1)
      fun _ _ both => absurd calm.load both.2
  rintro _ _ ⟨rfl, rfl⟩
  rcases findExtent_cases intact.sound iblock with ⟨l, e, r, at_, found⟩ | ⟨l, r, gap, missing⟩
  · have never : ¬ Strands busy file buf mode.createUnwritten iblock maxblocks := by
      rintro ⟨-, idx, missing, -⟩
      rw [found] at missing
      cases missing
    rw [found]
    dsimp only
    rw [if_pos rfl, at_.getElem?]
    exact (useExtent_ends intact at_ faults mode).mono (fun _ _ _ => never)
      fun _ _ same => .of_unchanged never fun _ => same calm.sync.toMild
  · rw [missing]
    dsimp only
    rw [if_neg Bool.false_ne_true, create, if_pos rfl]
    exact fillHole_calm intact calm up gap missing limit mode

theorem getBlock_stranded {mode : GetMode} (create : mode.create = true) {maxblocks : Nat}
    (strands : Strands busy file buf mode.createUnwritten iblock maxblocks) :
    ∃ e file', getBlock faults mode iblock maxblocks file = (.error e, file') ∧
      file'.space.sShutdown = false ∧ ¬ Unchanged file file' := by
  have ends := getBlock_calm intact calm up create iblock maxblocks
  generalize getBlock faults mode iblock maxblocks file = run at ends ⊢
  obtain ⟨result, file'⟩ := run
  cases result with
  | ok _ => exact absurd strands ends
  | error e =>
    rcases ends with ⟨enough, -⟩ | ⟨-, up, differs⟩
    · exact absurd strands enough
    · exact ⟨e, file', rfl, up, differs⟩

end

theorem getBlock_mapped {faults : GetFaults} {file : File} {buf : Buffer} (intact : Intact file buf)
    (mapped : mapOf buf.extents iblock ≠ none) (mild : faults.sync.Mild) (mode : GetMode)
    (maxblocks : Nat) :
    Ends (fun _ _ => True) (fun _ => Unchanged file) (getBlock faults mode iblock maxblocks file) := by
  rw [getBlock]
  refine Ends.refuse_bind (fun _ => .refl file) fun _ => ?_
  refine Ends.bind (fun buf' file' => buf = buf' ∧ file = file') ?_ ?_
  · exact (load_eq intact faults.load).mono (fun _ _ => id) fun _ _ same => same ▸ .refl file
  rintro _ _ ⟨rfl, rfl⟩
  rcases findExtent_cases intact.sound iblock with ⟨l, e, r, at_, found⟩ | ⟨l, r, gap, -⟩
  · rw [found]
    dsimp only
    rw [if_pos rfl, at_.getElem?]
    exact (useExtent_ends intact at_ faults mode).mono (fun _ _ _ => trivial) fun _ _ same => same mild
  · exact absurd (gap.mapOf intact.sound) mapped

/-! ## A file that fills its root -/

/-- Extents of one block each, with a hole behind each. -/
def scattered (n : Nat) : List Extent := (List.range n).map fun k => .init (2 * k) 1 (6 + k) false

/-- A file whose root block is full of extents, on a device with two free blocks. -/
def crowded : File :=
  { small 4096 (scattered 340) with
    store :=
      { disk := (small 4096 (scattered 340)).disk
        space :=
          { (small 4096 (scattered 340)).space with
            nrBlocks := 348
            bfreeBitmap := fun b => decide (346 ≤ b) && decide (b < 348)
            nrFreeBlocks := 2 } } }

theorem crowded_free {b : Nat} : crowded.space.bfreeBitmap b = true ↔ 346 ≤ b ∧ b < 348 := by
  show (decide (346 ≤ b) && decide (b < 348)) = true ↔ _
  rw [Bool.and_eq_true, decide_eq_true_iff, decide_eq_true_iff]

theorem scattered_mem (mem : e ∈ scattered n) : ∃ k < n, e = .init (2 * k) 1 (6 + k) false := by
  obtain ⟨k, small, rfl⟩ := List.mem_map.mp mem
  exact ⟨k, List.mem_range.mp small, rfl⟩

theorem scattered_sound : Sound (scattered 340) where
  fit e mem := by
    obtain ⟨k, small, rfl⟩ := scattered_mem mem
    have length : (Extent.init (2 * k) 1 (6 + k) false).extLen = 1 := rfl
    have word : wordSize = 4294967296 := rfl
    refine ⟨⟨Nat.one_pos, Nat.add_pos_left (by decide) k, ?_⟩, ?_⟩
    · rw [length]
      show 2 * k + 1 < wordSize
      omega
    · rw [length]
      show 6 + k + 1 < wordSize
      omega
  ordered := by
    rw [scattered, List.pairwise_map]
    refine List.pairwise_lt_range.imp fun {i j} less => ?_
    show 2 * i + 1 ≤ 2 * j
    omega

theorem dataBlocks_scattered : dataBlocks (scattered 340) = List.range' 6 340 := by
  decide +kernel

theorem crowded_intact : Intact crowded ⟨scattered 340, []⟩ where
  distinct := by
    show (5 :: dataBlocks (scattered 340)).Nodup
    rw [dataBlocks_scattered]
    exact (List.nodup_range' : (List.range' 5 341).Nodup)
  returnable b mem := by
    have mem : b ∈ 5 :: dataBlocks (scattered 340) := mem
    rw [dataBlocks_scattered, List.mem_cons, List.mem_range'_1] at mem
    refine ⟨by omega, ?_, ?_, ?_⟩
    · show b < 348
      omega
    · show b ≠ 4
      omega
    · rw [← Bool.not_eq_true, crowded_free]
      omega
  reserved := ⟨rfl, rfl⟩
  device := by
    show 348 < wordSize
    decide
  loaded := by decide +kernel
  sound := scattered_sound

theorem calm_get : ({} : GetFaults).Calm fun _ => false where
  load := rfl
  grow _ := rfl
  free _ := rfl
  zeroout := rfl
  insert := rfl
  put := rfl
  sync := ⟨calm_default.sync, rfl, rfl, rfl, fun _ => rfl⟩

theorem crowded_runAt {p : Nat} : RunAt (fun _ => false) crowded.space 1 p ↔ 346 ≤ p ∧ p < 348 := by
  constructor
  · intro run
    exact crowded_free.mp (run.2.2 p ⟨Nat.le_refl p, Nat.lt_succ_self p⟩).1
  · intro bounds
    refine ⟨by omega, by show p + 1 ≤ 348; omega, fun b within => ⟨crowded_free.mpr ?_, rfl⟩⟩
    obtain rfl : b = p := by
      have := within.1
      have := within.2
      omega
    exact bounds

theorem crammed_normal : normalizeExtents ((scattered 340).insertIdx 1 (.init 1 1 346 false)) =
    (scattered 340).insertIdx 1 (.init 1 1 346 false) := by
  have starts : (((scattered 340).insertIdx 1 (.init 1 1 346 false)).map Extent.eeBlock).IsChain (· < ·) := by
    decide +kernel
  exact normalizeExtents_of_chain (by decide +kernel) (List.pairwise_map.mp starts.pairwise) (by decide +kernel)

theorem crowded_strands : Strands (fun _ => false) crowded ⟨scattered 340, []⟩ false 1 1 := by
  refine ⟨by decide, 1, by decide +kernel, fun e mem ends _ _ run => ?_, 1, 346, Nat.one_pos, ?_, ?_, ?_⟩
  · obtain ⟨k, small, rfl⟩ := scattered_mem mem
    have ends : 2 * k + 1 = 1 := ends
    have run := (crowded_runAt.mp run).1
    have run : 346 ≤ 6 + k + 1 := run
    omega
  · exact FirstTry.here ⟨346, crowded_runAt.mpr (by decide)⟩
  · exact ⟨crowded_runAt.mpr (by decide), fun q run => (crowded_runAt.mp run).1⟩
  · exact treeShort_of_normal crammed_normal (by decide +kernel)

end File

end SimpleFs

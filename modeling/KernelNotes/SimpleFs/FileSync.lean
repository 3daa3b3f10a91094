import KernelNotes.SimpleFs.File
import KernelNotes.SimpleFs.Mapping
import KernelNotes.SimpleFs.SyncMild

/-!
# A file and its blocks

`Intact file buf` says that `buf` is the tree of the file: it is what a load gives, it is sound, and
its root, its leaves and its data are distinct blocks in use. A buffer on its way to the disk is
`Owned` and loose. A sync that succeeds turns the second into the first; one that is refused while
the file system stays up has written nothing.
-/

namespace SimpleFs

open Outcome Bits Cells

/-- The blocks of the device that the extents map. -/
def dataBlocks (extents : List Extent) : List Nat := targets (cellsOf extents)

def BlockRange.blocks (range : BlockRange) : List Nat := List.range' range.start range.len

namespace File

/-- The blocks of a file: the root, the leaves, the data. -/
def blocks (file : File) (buf : Buffer) : List Nat :=
  file.eiBlock :: (buf.leafBlocks ++ dataBlocks buf.extents)

structure Owned (file : File) (buf : Buffer) : Prop where
  distinct : (file.blocks buf).Nodup
  returnable : ∀ b ∈ file.blocks buf, Returnable file.space b
  reserved : file.space.Reserved
  device : file.space.nrBlocks < wordSize

structure Intact (file : File) (buf : Buffer) : Prop extends Owned file buf where
  loaded : loadExtents {} file.disk file.eiBlock = .ok buf
  sound : Sound buf.extents

theorem load_eq {file : File} {buf : Buffer} (intact : Intact file buf) (faults : LoadFaults) :
    Ends (fun buf' file' => buf = buf' ∧ file = file') (fun _ file' => file = file')
      (load faults file) := by
  rw [load]
  cases result : loadExtents faults file.disk file.eiBlock with
  | error e => exact rfl
  | ok buf' =>
    have same := loadExtents_fault_free result
    rw [intact.loaded] at same
    cases same
    exact ⟨rfl, rfl⟩

theorem load_fault {file : File} {buf : Buffer} (intact : Intact file buf) (faults : LoadFaults) :
    Ends (fun _ _ => True) (fun _ _ => faults ≠ {}) (load faults file) := by
  rw [load]
  cases result : loadExtents faults file.disk file.eiBlock with
  | ok _ => exact trivial
  | error e =>
    rintro rfl
    rw [intact.loaded] at result
    cases result

/-- The file is intact and has this map. -/
def Maps (file : File) (map : Nat → Option (Nat × Bool)) : Prop :=
  ∃ buf, Intact file buf ∧ ∀ b, mapOf buf.extents b = map b

/-- The tree, its store and `i_blocks` are the same. -/
structure SameTree (file file' : File) : Prop where
  eiBlock : file'.eiBlock = file.eiBlock
  iBlocks : file'.iBlocks = file.iBlocks
  store : file'.store = file.store

theorem SameTree.refl (file : File) : SameTree file file := ⟨rfl, rfl, rfl⟩

theorem SameTree.trans {file file' file'' : File} (first : SameTree file file')
    (second : SameTree file' file'') : SameTree file file'' :=
  ⟨second.eiBlock.trans first.eiBlock, second.iBlocks.trans first.iBlocks, second.store.trans first.store⟩

theorem SameTree.intact {file file' : File} (same : SameTree file file') {buf : Buffer}
    (intact : Intact file buf) : Intact file' buf := by
  obtain ⟨root, -, store⟩ := same
  obtain ⟨⟨distinct, returnable, reserved, device⟩, loaded, sound⟩ := intact
  rw [File.blocks, ← root] at distinct returnable
  rw [space, ← store] at returnable reserved device
  rw [disk, ← store, ← root] at loaded
  exact ⟨⟨distinct, returnable, reserved, device⟩, loaded, sound⟩

/-! ## Sync -/

/-- What a sync of `buf` that succeeded did. -/
structure Written (file : File) (buf : Buffer) (buf' : Buffer) (file' : File) : Prop where
  intact : Intact file' buf'
  extents : buf'.extents = normalizeExtents buf.extents
  only : file' = { file with iBlocks := file'.iBlocks, store := file'.store }
  up : file'.space.sShutdown = false
  sectors : file'.iBlocks + blocksToSectors buf.leafBlocks.length =
    file.iBlocks + blocksToSectors buf'.leafBlocks.length
  leaves : ∃ fresh, buf'.leafBlocks =
      buf.leafBlocks.take (leafCount (normalizeExtents buf.extents).length) ++ fresh ∧
    Traded file.space fresh (buf.leafBlocks.drop (leafCount (normalizeExtents buf.extents).length))
      file'.space
  leafNumber : buf'.leafBlocks.length = leafCount buf'.extents.length

section

variable {file : File} {buf : Buffer} (owned : Owned file buf)

include owned

theorem Owned.leaf_returnable {b : Nat} (mem : b ∈ buf.leafBlocks) : Returnable file.space b :=
  owned.returnable b (List.mem_cons_of_mem _ (List.mem_append_left _ mem))

theorem Owned.data_returnable {b : Nat} (mem : b ∈ dataBlocks buf.extents) : Returnable file.space b :=
  owned.returnable b (List.mem_cons_of_mem _ (List.mem_append_right _ mem))

theorem Owned.root_returnable : Returnable file.space file.eiBlock :=
  owned.returnable _ List.mem_cons_self

theorem Owned.tree_distinct : (file.eiBlock :: buf.leafBlocks).Nodup :=
  owned.distinct.sublist ((List.sublist_append_left _ _).cons_cons _)

/-- The blocks of the tree that a sync leaves are distinct from each other and from the data. -/
theorem Owned.distinct_of_leaves {fresh extents : List Nat} (n : Nat)
    (same : extents.Perm (dataBlocks buf.extents)) (unused : ∀ b ∈ fresh, file.space.bfreeBitmap b = true)
    (once : fresh.Nodup) : (file.eiBlock :: (buf.leafBlocks.take n ++ fresh ++ extents)).Nodup := by
  have old : (file.eiBlock :: (buf.leafBlocks.take n ++ dataBlocks buf.extents)).Nodup :=
    owned.distinct.sublist (((List.take_sublist n _).append_right _).cons_cons _)
  have mixed : (fresh ++ (file.eiBlock :: (buf.leafBlocks.take n ++ dataBlocks buf.extents))).Nodup := by
    refine List.nodup_append.mpr ⟨once, old, fun b new b' listed equal => ?_⟩
    have free := unused b new
    have mem : b' ∈ file.blocks buf :=
      (((List.take_sublist n _).append_right _).cons_cons _).subset listed
    rw [equal, (owned.returnable b' mem).2.2.2] at free
    cases free
  refine (List.Perm.nodup_iff ?_).mp mixed
  refine List.perm_middle.trans (List.Perm.cons _ ?_)
  rw [← List.append_assoc]
  exact List.Perm.append List.perm_append_comm same.symm

theorem Owned.sync_written (loose : Loose buf.extents) {faults : SyncFaults}
    (success : (syncExtents { faults with own := true } file.eiBlock buf file.iBlocks file.store).ret = none) :
    let out := syncExtents { faults with own := true } file.eiBlock buf file.iBlocks file.store
    Written file buf out.buf { file with iBlocks := out.iBlocks, store := out.store } := by
  intro out
  obtain ⟨few, synced⟩ := syncExtents_ok success
  obtain ⟨sound, cells⟩ := loose.normalize
  have up : out.store.space.sShutdown = false := syncExtents_own_up success
  have distinct := owned.tree_distinct
  have leafValid : ∀ b ∈ buf.leafBlocks, Returnable file.space b := fun b mem => owned.leaf_returnable mem
  have traded := synced.traded owned.reserved (List.nodup_cons.mp distinct).2 leafValid up
  have taken := takeLeaves_sound { faults with own := true }
    (leafCount (normalizeExtents buf.extents).length - buf.leafBlocks.length) buf.leafBlocks.length
    file.space
  have data : (dataBlocks out.buf.extents).Perm (dataBlocks buf.extents) := by
    rw [synced.extents]
    exact cells.map _
  have leaves : out.buf.leafBlocks = _ := synced.leaves
  have valid := synced.returnable distinct leafValid owned.reserved.root
  have absent : ∀ b ∈ file.eiBlock :: dataBlocks buf.extents,
      b ∉ buf.leafBlocks.drop (leafCount (normalizeExtents buf.extents).length) := by
    intro b mem dropped
    have whole := owned.distinct
    have leaf := List.mem_of_mem_drop dropped
    rcases List.mem_cons.mp mem with rfl | mem
    · exact (List.nodup_cons.mp whole).1 (List.mem_append_left _ leaf)
    · exact (List.nodup_append.mp (List.nodup_cons.mp whole).2).2.2 b leaf b mem rfl
  refine ⟨⟨⟨?_, ?_, ?_, ?_⟩, ?_, ?_⟩, synced.extents, rfl, up, ?_,
    ⟨_, leaves, traded⟩, ?_⟩
  · show (file.eiBlock :: (out.buf.leafBlocks ++ _)).Nodup
    rw [leaves]
    exact owned.distinct_of_leaves _ data taken.wasFree taken.distinct
  · intro b mem
    rcases List.mem_cons.mp mem with rfl | mem
    · exact traded.returnable owned.root_returnable (absent _ List.mem_cons_self)
    rcases List.mem_append.mp mem with leaf | datum
    · exact valid b leaf
    · have old := data.mem_iff.mp datum
      exact traded.returnable (owned.data_returnable old) (absent b (List.mem_cons_of_mem _ old))
  · refine traded.reserved owned.reserved fun b mem => ?_
    have valid := leafValid b (List.mem_of_mem_drop mem)
    exact ⟨valid.1, valid.2.2.1⟩
  · show out.store.space.nrBlocks < _
    rw [traded.geometry.nrBlocks]
    exact owned.device
  · exact synced.load distinct owned.root_returnable.2.2.2 leafValid few
  · rw [synced.extents]
    exact sound
  · show out.iBlocks + _ = _
    rw [synced.sectors, synced.leaves, newLeaves_length synced.found]
    exact chargeLeaves_balance file.iBlocks _ _
  · rw [synced.leaves, newLeaves_length synced.found, synced.extents]

end

/-- The tree on the disk, the allocator and `i_blocks` are the same. -/
def Unchanged (file file' : File) : Prop :=
  file'.disk = file.disk ∧ file'.iBlocks = file.iBlocks ∧ Space.SameFree file.space file'.space

theorem Unchanged.refl (file : File) : Unchanged file file := ⟨rfl, rfl, rfl, rfl⟩

theorem Unchanged.trans {file file' file'' : File} (first : Unchanged file file')
    (second : Unchanged file' file'') : Unchanged file file'' :=
  ⟨second.1.trans first.1, second.2.1.trans first.2.1, second.2.2.1.trans first.2.2.1,
    second.2.2.2.trans first.2.2.2⟩

/-- What a sync of `buf` that failed did: if the file system is still up, nothing was written, and
of the new leaves only those are lost that the journal would not forget. -/
structure Unwritten (faults : SyncFaults) (file : File) (buf : Buffer) (file' : File) : Prop where
  quiet : file'.space.sShutdown = false → file'.disk = file.disk ∧ file'.iBlocks = file.iBlocks ∧
    ∀ base held, base.Reserved → Withheld base held file.space →
      Withheld base (strandedBySync { faults with own := true } buf file.store ++ held) file'.space
  mild : faults.Mild → Unchanged file file' ∧ file'.space.sShutdown = file.space.sShutdown

theorem sync_unwritten {faults : SyncFaults} {file : File} {buf : Buffer} {e : Errno}
    (reserved : file.space.Reserved)
    (failed : (syncExtents { faults with own := true } file.eiBlock buf file.iBlocks file.store).ret = some e) :
    let out := syncExtents { faults with own := true } file.eiBlock buf file.iBlocks file.store
    Unwritten faults file buf { file with iBlocks := out.iBlocks, store := out.store } := by
  intro out
  refine ⟨fun up => ?_, fun mild => ?_⟩
  · obtain ⟨disk, sectors, -⟩ := Withheld.syncExtents reserved (Withheld.refl file.space) failed up
    refine ⟨disk, sectors, fun base held reserved h => ?_⟩
    exact (Withheld.syncExtents reserved h failed up).2.2
  · exact ⟨syncExtents_refused mild.owned reserved failed, syncExtents_up mild.owned _ _ _ _⟩

theorem Owned.sync_ends {file : File} {buf : Buffer} (owned : Owned file buf) (loose : Loose buf.extents)
    (faults : SyncFaults) :
    Ends (Written file buf) (fun _ => Unwritten faults file buf) (sync faults buf file) := by
  rw [sync]
  cases ret : (syncExtents { faults with own := true } file.eiBlock buf file.iBlocks file.store).ret with
  | none => exact owned.sync_written loose ret
  | some e => exact sync_unwritten owned.reserved ret

/-! ## Releasing ranges -/

/-- The blocks that come back when the ranges are put: none of a range whose handle cannot be
started, and nothing after a failure that shuts the file system down. -/
def returnedBlocks (faults : Nat → Space.HandleFaults) : List BlockRange → Nat → List Nat
  | [], _ => []
  | range :: rest, i =>
    if (faults i).start then returnedBlocks faults rest (i + 1)
    else range.blocks ++
      if (faults i).persist || (faults i).stop then [] else returnedBlocks faults rest (i + 1)

/-- From call `i` on, `n` handles can be started, and all but the last one also do their work. -/
def GoThrough (faults : Nat → Space.HandleFaults) (i n : Nat) : Prop :=
  ∀ k < n, (faults (i + k)).start = false ∧
    (k + 1 < n → (faults (i + k)).persist = false ∧ (faults (i + k)).stop = false)

theorem returnedBlocks_subset (faults : Nat → Space.HandleFaults) (ranges : List BlockRange) (i : Nat) :
    returnedBlocks faults ranges i ⊆ ranges.flatMap BlockRange.blocks := by
  induction ranges generalizing i with
  | nil => exact List.Subset.refl _
  | cons range rest ih =>
    rw [returnedBlocks, List.flatMap_cons]
    split
    · exact List.subset_append_of_subset_right _ (ih (i + 1))
    · refine List.append_subset.mpr ⟨List.subset_append_left _ _, ?_⟩
      split
      · exact List.nil_subset _
      · exact List.subset_append_of_subset_right _ (ih (i + 1))

theorem goThrough_cons {faults : Nat → Space.HandleFaults} {i n : Nat} :
    GoThrough faults i (n + 1) ↔ ((faults i).start = false ∧
      (0 < n → (faults i).persist = false ∧ (faults i).stop = false)) ∧ GoThrough faults (i + 1) n := by
  constructor
  · intro through
    refine ⟨?_, fun k small => ?_⟩
    · have first := through 0 (Nat.succ_pos n)
      rw [Nat.add_zero] at first
      exact ⟨first.1, fun more => first.2 (by omega)⟩
    · have next := through (k + 1) (by omega)
      rw [← Nat.add_assoc, Nat.add_right_comm] at next
      exact ⟨next.1, fun more => next.2 (by omega)⟩
  · rintro ⟨first, later⟩ k small
    cases k with
    | zero => exact ⟨first.1, fun more => first.2 (by omega)⟩
    | succ k =>
      have next := later k (by omega)
      rw [Nat.add_right_comm, Nat.add_assoc] at next
      exact ⟨next.1, fun more => next.2 (by omega)⟩

theorem returnedBlocks_all_iff (faults : Nat → Space.HandleFaults) (ranges : List BlockRange) (i : Nat)
    (full : ∀ range ∈ ranges, 0 < range.len) (distinct : (ranges.flatMap BlockRange.blocks).Nodup) :
    (∀ b ∈ ranges.flatMap BlockRange.blocks, b ∈ returnedBlocks faults ranges i) ↔
      GoThrough faults i ranges.length := by
  induction ranges generalizing i with
  | nil => simp [GoThrough]
  | cons range rest ih =>
    obtain ⟨first, later⟩ := List.forall_mem_cons.mp full
    rw [List.flatMap_cons] at distinct
    obtain ⟨-, once, apart⟩ := List.nodup_append.mp distinct
    have own : range.start ∈ range.blocks := List.mem_range'_1.mpr ⟨Nat.le_refl _, by omega⟩
    have foreign : range.start ∉ returnedBlocks faults rest (i + 1) := fun mem =>
      apart _ own _ (returnedBlocks_subset faults rest (i + 1) mem) rfl
    rw [List.length_cons, goThrough_cons, ← ih (i + 1) later once, List.flatMap_cons, returnedBlocks]
    cases started : (faults i).start with
    | true =>
      rw [if_pos rfl]
      constructor
      · exact fun all => absurd (all _ (List.mem_append_left _ own)) foreign
      · exact fun both => absurd both.1.1 (by simp)
    | false =>
      rw [if_neg Bool.false_ne_true]
      constructor
      · intro all
        have rest_ : ∀ b ∈ rest.flatMap BlockRange.blocks, b ∈ (if ((faults i).persist || (faults i).stop) = true
            then [] else returnedBlocks faults rest (i + 1)) := by
          intro b mem
          rcases List.mem_append.mp (all b (List.mem_append_right _ mem)) with mine | back
          · exact absurd rfl (apart b mine b mem)
          · exact back
        cases broken : (faults i).persist || (faults i).stop with
        | false =>
          rw [broken, if_neg Bool.false_ne_true] at rest_
          rw [Bool.or_eq_false_iff] at broken
          exact ⟨⟨rfl, fun _ => broken⟩, rest_⟩
        | true =>
          rw [broken, if_pos rfl] at rest_
          refine ⟨⟨rfl, fun more => ?_⟩, fun b mem => absurd (rest_ b mem) (by simp)⟩
          obtain ⟨next, listed⟩ := List.exists_mem_of_length_pos more
          have some_ := later next listed
          exact absurd (rest_ next.start (List.mem_flatMap.mpr ⟨next, listed,
            List.mem_range'_1.mpr ⟨Nat.le_refl _, by omega⟩⟩)) (by simp)
      · rintro ⟨⟨-, calm⟩, back⟩ b mem
        rcases List.mem_append.mp mem with mine | late
        · exact List.mem_append_left _ mine
        · refine List.mem_append_right _ ?_
          obtain ⟨next, listed, -⟩ := List.mem_flatMap.mp late
          have calm := calm (List.length_pos_of_mem listed)
          rw [if_neg (by simp [calm.1, calm.2])]
          exact back b late

theorem putRanges_down (faults : Nat → Space.HandleFaults) (ranges : List BlockRange) (i : Nat)
    {s : Space} (down : s.sShutdown = true) : putRanges faults ranges i s = s := by
  induction ranges generalizing i with
  | nil => rfl
  | cons range rest ih =>
    have same : (Space.putBlocks (faults i) range.start range.len s).2 = s := by
      rw [Space.putBlocks, if_pos (by rw [down, Bool.true_or])]
    rw [putRanges, same, ih]

theorem putRanges_held (faults : Nat → Space.HandleFaults) (ranges : List BlockRange) (i : Nat)
    {s : Space} (full : ∀ range ∈ ranges, 0 < range.len)
    (distinct : (ranges.flatMap BlockRange.blocks).Nodup)
    (valid : ∀ b ∈ ranges.flatMap BlockRange.blocks, Returnable s b) (up : s.sShutdown = false) :
    Withheld (putRanges faults ranges i s) (returnedBlocks faults ranges i) s := by
  induction ranges generalizing i s with
  | nil => exact Withheld.refl s
  | cons range rest ih =>
    obtain ⟨first, later⟩ := List.forall_mem_cons.mp full
    rw [List.flatMap_cons] at distinct valid
    obtain ⟨-, once, apart⟩ := List.nodup_append.mp distinct
    rw [putRanges, returnedBlocks]
    cases started : (faults i).start with
    | true =>
      have same : (Space.putBlocks (faults i) range.start range.len s).2 = s := by
        rw [Space.putBlocks, if_pos (by rw [started, Bool.or_true])]
      rw [same, if_pos rfl]
      exact ih (i + 1) later once (fun b mem => valid b (List.mem_append_right _ mem)) up
    | false =>
      rw [if_neg Bool.false_ne_true]
      obtain ⟨run, one⟩ := @Withheld.putBlocks_eq s (faults i) range.start range.len first
        (fun b mem => valid b (List.mem_append_left _ mem)) up started
      rw [run]
      cases broken : (faults i).persist || (faults i).stop with
      | true =>
        rw [putRanges_down faults rest (i + 1) (by simp [Space.failIf]), if_pos rfl,
          List.append_nil]
        exact one.failIf_base true
      | false =>
        rw [Space.failIf_false, if_neg Bool.false_ne_true]
        have more := ih (i + 1) later once (fun b mem => one.returnable_base
          (valid b (List.mem_append_right _ mem)) fun mine => apart b mine b mem rfl) up
        exact more.trans one

/-! ## A file on a small device -/

/-- A device of 64 blocks with one file on it, whose root is block 5 and holds its extents. -/
def small (iSize : Nat) (extents : List Extent) : File where
  eiBlock := 5
  iSize := iSize
  iBlocks := 8 + blocksToSectors (dataBlocks extents).length
  preallocBlock := 0
  preallocLen := 0
  store :=
    { disk := fun b => if b = 5 then .root extents.length extents else .zero
      space :=
        { nrBlocks := 64
          nrInodes := 39
          nrIstoreBlocks := 1
          nrIfreeBlocks := 1
          nrBfreeBlocks := 1
          bfreeBitmap := fun b => decide (6 ≤ b) && decide (b < 64) && !(dataBlocks extents).contains b
          ifreeBitmap := fun _ => false
          discardPending := fun _ => false
          nrFreeBlocks := 58 - UInt32.ofNat (dataBlocks extents).length
          nrFreeInodes := 0
          sDiscard := false
          sShutdown := false } }

theorem small_intact (iSize : Nat) {extents : List Extent} (sound : Sound extents)
    (few : extents.length ≤ fileExtentsPerLeaf) (once : (dataBlocks extents).Nodup)
    (inside : ∀ b ∈ dataBlocks extents, 6 ≤ b ∧ b < 64) :
    Intact (small iSize extents) ⟨extents, []⟩ where
  distinct := List.nodup_cons.mpr ⟨fun mem => absurd (inside 5 mem).1 (by decide), once⟩
  returnable b mem := by
    rcases List.mem_cons.mp mem with rfl | mem
    · show Returnable (small iSize extents).space 5
      exact ⟨by decide, Nat.lt_of_sub_pos (Nat.succ_pos 58), Nat.ne_of_beq_eq_false rfl, rfl⟩
    · have mem : b ∈ dataBlocks extents := mem
      have bounds := inside b mem
      refine ⟨by omega, bounds.2, ?_, ?_⟩
      · show b ≠ 4
        omega
      · show (_ && !(dataBlocks extents).contains b) = false
        rw [List.contains_iff_mem.mpr mem, Bool.not_true, Bool.and_false]
  reserved := ⟨rfl, rfl⟩
  device := by
    show 64 < wordSize
    decide
  loaded := by
    show (if fileExtentsPerLeaf < extents.length then _ else _) = _
    rw [if_neg (by omega), if_neg (by simp), List.take_length]
  sound := sound

end File

end SimpleFs

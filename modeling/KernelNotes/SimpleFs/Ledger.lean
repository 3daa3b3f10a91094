import KernelNotes.SimpleFs.ExtentTree

/-!
# Blocks held since

A call that takes blocks and fails has to give all of them back. `Withheld base held s` says what the
allocator looks like in between: it is in the state `base`, less the blocks of the list. The
allocations put blocks on the list, the releases take them off, and with an empty list the map of
free blocks and its counter are those of `base`. Read from `s` to `base` it describes a release, and
`Traded` puts an allocation and a release together.
-/

namespace SimpleFs

open Bits

variable {b first len rootBlock : Nat} {faults : SyncFaults} {buf : Buffer} {iBlocks : UInt64}
  {st : Store}

/-- The map of free blocks and its counter are the same. -/
def Space.SameFree (s s' : Space) : Prop :=
  s'.bfreeBitmap = s.bfreeBitmap ∧ s'.nrFreeBlocks = s.nrFreeBlocks

structure Withheld (base : Space) (held : List Nat) (s : Space) : Prop where
  geometry : Space.SameGeometry base s
  distinct : held.Nodup
  inside : ∀ b ∈ held, b < base.nrBlocks
  wasFree : ∀ b ∈ held, base.bfreeBitmap b = true
  free : ∀ b, s.bfreeBitmap b = true ↔ base.bfreeBitmap b = true ∧ b ∉ held
  count : s.nrFreeBlocks + UInt32.ofNat held.length = base.nrFreeBlocks

namespace Withheld

variable {base s s' : Space} {held : List Nat}

theorem refl (s : Space) : Withheld s [] s where
  geometry := ⟨rfl, rfl, rfl, rfl⟩
  distinct := List.nodup_nil
  inside := nofun
  wasFree := nofun
  free b := by simp
  count := by simp

theorem failIf (h : Withheld base held s) (fault : Bool) : Withheld base held (Space.failIf fault s) :=
  ⟨⟨h.geometry.nrBlocks, h.geometry.nrInodes, h.geometry.rootDirBlock, h.geometry.ifreeBitmap⟩,
    h.distinct, h.inside, h.wasFree, h.free, h.count⟩

theorem perm {held' : List Nat} (h : Withheld base held s) (same : held.Perm held') :
    Withheld base held' s where
  geometry := h.geometry
  distinct := same.nodup_iff.mp h.distinct
  inside b mem := h.inside b (same.mem_iff.mpr mem)
  wasFree b mem := h.wasFree b (same.mem_iff.mpr mem)
  free b := by rw [h.free, same.mem_iff]
  count := by rw [← same.length_eq, h.count]

theorem append_nil (h : Withheld base held s) : Withheld base (held ++ []) s :=
  h.perm (by rw [List.append_nil])

theorem same (h : Withheld base [] s) : base.SameFree s := by
  refine ⟨funext fun b => ?_, by simpa using h.count⟩
  have free := h.free b
  simp only [List.not_mem_nil, not_false_eq_true, and_true] at free
  exact Bool.eq_iff_iff.mpr free

theorem differs (h : Withheld base held s) (some_ : held ≠ []) : ¬ base.SameFree s := by
  rintro ⟨same, -⟩
  obtain ⟨b, mem⟩ := List.exists_mem_of_ne_nil held some_
  have free := h.wasFree b mem
  rw [← same] at free
  exact ((h.free b).mp free).2 mem

theorem same_iff (h : Withheld base held s) : base.SameFree s ↔ held = [] := by
  constructor
  · intro same
    by_contra some_
    exact h.differs some_ same
  · rintro rfl
    exact h.same

theorem failIf_base (h : Withheld base held s) (fault : Bool) : Withheld (Space.failIf fault base) held s :=
  ⟨⟨h.geometry.nrBlocks, h.geometry.nrInodes, h.geometry.rootDirBlock, h.geometry.ifreeBitmap⟩,
    h.distinct, h.inside, h.wasFree, h.free, h.count⟩

theorem used (h : Withheld base held s) (mem : b ∈ held) : s.bfreeBitmap b = false := by
  by_contra free
  rw [Bool.not_eq_false] at free
  exact ((h.free b).mp free).2 mem

theorem trans {held' : List Nat} {s'' : Space} (h : Withheld base held s) (h' : Withheld s held' s'') :
    Withheld base (held' ++ held) s'' where
  geometry := h.geometry.trans h'.geometry
  distinct := by
    refine List.nodup_append.mpr ⟨h'.distinct, h.distinct, fun b late b' early same => ?_⟩
    have free := h'.wasFree b late
    rw [same, h.used early] at free
    cases free
  inside b mem := by
    rcases List.mem_append.mp mem with late | early
    · exact h.geometry.nrBlocks ▸ h'.inside b late
    · exact h.inside b early
  wasFree b mem := by
    rcases List.mem_append.mp mem with late | early
    · exact ((h.free b).mp (h'.wasFree b late)).1
    · exact h.wasFree b early
  free b := by
    rw [h'.free, h.free, List.mem_append]
    tauto
  count := by
    rw [List.length_append, UInt32.ofNat_add, ← h.count, ← h'.count]
    grind

theorem mem_block : b ∈ List.range' first len ↔ Within first len b := by
  rw [List.mem_range'_1, Within]

theorem take (h : Withheld base held s)
    (cut : Space.Cut s.nrBlocks first len s.bfreeBitmap (s.take first len).bfreeBitmap) :
    Withheld base (List.range' first len ++ held) (s.take first len) where
  geometry := h.geometry.trans (Space.take_shrinks first len s).geometry
  distinct := by
    refine List.nodup_append.mpr ⟨List.nodup_range', h.distinct, fun b mem b' mem' same => ?_⟩
    have free := cut.free b (mem_block.mp mem)
    exact ((h.free b).mp free).2 (same ▸ mem')
  inside b mem := by
    rcases List.mem_append.mp mem with new | old
    · have within := mem_block.mp new
      have := cut.inside
      rw [h.geometry.nrBlocks] at this
      exact Nat.lt_of_lt_of_le within.2 this
    · exact h.inside b old
  wasFree b mem := by
    rcases List.mem_append.mp mem with new | old
    · exact ((h.free b).mp (cut.free b (mem_block.mp new))).1
    · exact h.wasFree b old
  free b := by
    rw [cut.cleared, clearRange_eq_true, h.free, List.mem_append, mem_block]
    tauto
  count := by
    have charged : (s.take first len).nrFreeBlocks = s.nrFreeBlocks - UInt32.ofNat len := rfl
    rw [← h.count, List.length_append, List.length_range', UInt32.ofNat_add, charged]
    grind

theorem give (h : Withheld base (List.range' first len ++ held) s) :
    Withheld base held (s.give first len) where
  geometry := ⟨h.geometry.nrBlocks, h.geometry.nrInodes, h.geometry.rootDirBlock, h.geometry.ifreeBitmap⟩
  distinct := (List.nodup_append.mp h.distinct).2.1
  inside b mem := h.inside b (List.mem_append_right _ mem)
  wasFree b mem := h.wasFree b (List.mem_append_right _ mem)
  free b := by
    have apart := (List.nodup_append.mp h.distinct).2.2
    have freed : (s.give first len).bfreeBitmap = setRange s.bfreeBitmap first len := rfl
    rw [freed, setRange_eq_true, h.free, List.mem_append, mem_block]
    constructor
    · rintro (within | ⟨free, out⟩)
      · refine ⟨h.wasFree b (List.mem_append_left _ (mem_block.mpr within)), fun mem => ?_⟩
        exact apart b (mem_block.mpr within) b mem rfl
      · exact ⟨free, fun mem => out (.inr mem)⟩
    · rintro ⟨free, out⟩
      by_cases within : Within first len b
      · exact .inl within
      · exact .inr ⟨free, fun mem => mem.elim within out⟩
  count := by
    have charged : (s.give first len).nrFreeBlocks = s.nrFreeBlocks + UInt32.ofNat len := rfl
    rw [← h.count, List.length_append, List.length_range', UInt32.ofNat_add, charged]
    grind

theorem of_give (fits : first + len ≤ s.nrBlocks)
    (used : ∀ b, Within first len b → s.bfreeBitmap b = false) :
    Withheld (s.give first len) (List.range' first len) s where
  geometry := ⟨rfl, rfl, rfl, rfl⟩
  distinct := List.nodup_range'
  inside b mem := Nat.lt_of_lt_of_le (mem_block.mp mem).2 fits
  wasFree b mem := (setRange_eq_true _ _ _ _).mpr (.inl (mem_block.mp mem))
  free b := by
    have freed : (s.give first len).bfreeBitmap = setRange s.bfreeBitmap first len := rfl
    rw [freed, setRange_eq_true, mem_block]
    constructor
    · intro free
      refine ⟨.inr free, fun within => ?_⟩
      rw [used b within] at free
      cases free
    · rintro ⟨within | free, outside⟩
      · exact absurd within outside
      · exact free
  count := by
    have charged : (s.give first len).nrFreeBlocks = s.nrFreeBlocks + UInt32.ofNat len := rfl
    rw [List.length_range', charged]

/-- A block that could be returned still can be after other blocks were taken or released. -/
theorem returnable (h : Withheld base held s) (valid : Returnable base b) : Returnable s b := by
  refine ⟨valid.1, h.geometry.nrBlocks ▸ valid.2.1, h.geometry.rootDirBlock ▸ valid.2.2.1, ?_⟩
  by_contra free
  rw [Bool.not_eq_false] at free
  have before := ((h.free b).mp free).1
  rw [valid.2.2.2] at before
  cases before

theorem returnable_base (h : Withheld base held s) (valid : Returnable s b) (absent : b ∉ held) :
    Returnable base b := by
  refine ⟨valid.1, h.geometry.nrBlocks.symm ▸ valid.2.1, h.geometry.rootDirBlock.symm ▸ valid.2.2.1, ?_⟩
  by_contra free
  rw [Bool.not_eq_false] at free
  have after := (h.free b).mpr ⟨free, absent⟩
  rw [valid.2.2.2] at after
  cases after

/-- `put_blocks` of a range that can be returned, once its handle is started. -/
theorem putBlocks_eq {faults : Space.HandleFaults} {first len : Nat} (positive : 0 < len)
    (valid : ∀ b ∈ List.range' first len, Returnable s b) (up : s.sShutdown = false)
    (started : faults.start = false) :
    (Space.putBlocks faults first len s).2 =
        Space.failIf (faults.persist || faults.stop) (s.give first len) ∧
      Withheld (s.give first len) (List.range' first len) s := by
  have ends : first ∈ List.range' first len ∧ first + len - 1 ∈ List.range' first len := by
    rw [List.mem_range'_1, List.mem_range'_1]
    omega
  have low := valid _ ends.1
  have high := valid _ ends.2
  have fits : first + len ≤ s.nrBlocks := by
    have := high.2.1
    omega
  have used : ∀ b, Within first len b → s.bfreeBitmap b = false :=
    fun b within => (valid b (mem_block.mpr within)).2.2.2
  rw [Space.putBlocks_eq_give up started ⟨low.1, positive⟩ fits
    (fun within => (valid _ (mem_block.mpr within)).2.2.1 rfl) used]
  exact ⟨rfl, of_give fits used⟩

/-- `put_blocks` of a range that can be returned: it is released unless the handle cannot be
started. -/
theorem of_putBlocks {faults : Space.HandleFaults} {first len : Nat} (positive : 0 < len)
    (valid : ∀ b ∈ List.range' first len, Returnable s b) (up : s.sShutdown = false)
    (started : faults.start = false) :
    Withheld (Space.putBlocks faults first len s).2 (List.range' first len) s := by
  obtain ⟨run, held⟩ := putBlocks_eq positive valid up started
  rw [run]
  exact held.failIf_base _

/-! ## The allocator -/

section

variable (reserved : base.Reserved)

include reserved

theorem zero_used (h : Withheld base held s) : s.bfreeBitmap 0 = false := by
  by_contra free
  rw [Bool.not_eq_false] at free
  have := ((h.free 0).mp free).1
  rw [reserved.zero] at this
  cases this

/-- `get_free_blocks` while the file system stays up. -/
theorem getFreeBlocks (h : Withheld base held s) {busy : BitMap} {faults : Space.HandleFaults} {len : Nat}
    (up : (Space.getFreeBlocks busy faults len s).2.sShutdown = false) :
    ((Space.getFreeBlocks busy faults len s).1 = 0 ∧
      Withheld base held (Space.getFreeBlocks busy faults len s).2) ∨
    (Space.getFreeBlocks busy faults len s).1 ≠ 0 ∧ 0 < len ∧
      Withheld base (List.range' (Space.getFreeBlocks busy faults len s).1 len ++ held)
        (Space.getFreeBlocks busy faults len s).2 := by
  rcases Space.getFreeBlocksWith_cases (Space.prepareNewBlocks busy len) faults len s with
    ⟨fault, freemap, run, kept | ⟨-, zero⟩⟩ | ⟨first, fault, run, cut, -⟩
  · rw [kept] at run
    left
    rw [Space.getFreeBlocks, run]
    exact ⟨rfl, h.failIf fault⟩
  · rw [h.zero_used reserved] at zero
    cases zero
  · rw [Space.getFreeBlocks, run] at up ⊢
    obtain rfl : fault = false := (Space.failIf_up up).2
    right
    refine ⟨Nat.succ_ne_zero first, cut.positive, ?_⟩
    exact (h.take cut).failIf false

/-- `simplefs_take_exact_blocks` while the file system stays up. -/
theorem takeExactBlocks (h : Withheld base held s) {busy : BitMap} {faults : Space.HandleFaults}
    {bno len : Nat} (up : (Space.takeExactBlocks busy faults bno len s).2.sShutdown = false) :
    ((Space.takeExactBlocks busy faults bno len s).1 = false ∧
      Withheld base held (Space.takeExactBlocks busy faults bno len s).2) ∨
    (Space.takeExactBlocks busy faults bno len s).1 = true ∧ 0 < len ∧
      Withheld base (List.range' bno len ++ held) (Space.takeExactBlocks busy faults bno len s).2 := by
  rcases Space.takeExactBlocks_cases busy faults bno len s with ⟨fault, run⟩ | ⟨fault, run, -, taken⟩
  · left
    rw [run]
    exact ⟨rfl, h.failIf fault⟩
  · rw [run] at up ⊢
    obtain rfl : fault = false := (Space.failIf_up up).2
    right
    exact ⟨rfl, taken.positive, (h.take taken.toCut).failIf false⟩

/-- `put_blocks` of what is held: it comes back unless the handle cannot be started. -/
theorem putBlocks {first len : Nat} (h : Withheld base (List.range' first len ++ held) s)
    (positive : 0 < len) {faults : Space.HandleFaults} (up : s.sShutdown = false) :
    if faults.start then (Space.putBlocks faults first len s).2 = s
    else Withheld base held (Space.putBlocks faults first len s).2 := by
  split
  · rename_i failed
    rw [Space.putBlocks, if_pos (by rw [failed, Bool.or_true])]
  rename_i started
  rw [Bool.not_eq_true] at started
  have mine : ∀ b, Within first len b → b ∈ List.range' first len ++ held :=
    fun b within => List.mem_append_left _ (mem_block.mpr within)
  have last := h.inside (first + len - 1) (mine _ ⟨by omega, by omega⟩)
  have nonzero : 0 < first := by
    refine Nat.pos_of_ne_zero fun zero => ?_
    have free := h.wasFree 0 (mine 0 ⟨by omega, by omega⟩)
    rw [reserved.zero] at free
    cases free
  have apart : ¬ Within first len s.rootDirBlock := by
    intro within
    have free := h.wasFree _ (mine _ within)
    rw [h.geometry.rootDirBlock, reserved.root] at free
    cases free
  have used : ∀ b, Within first len b → s.bfreeBitmap b = false := by
    intro b within
    by_contra free
    rw [Bool.not_eq_false] at free
    exact ((h.free b).mp free).2 (mine b within)
  have fits : first + len ≤ s.nrBlocks := by
    rw [h.geometry.nrBlocks]
    omega
  rw [Space.putBlocks_eq_give up started ⟨nonzero, positive⟩ fits apart used]
  exact h.give.failIf _

/-! ## A sync that fails -/

theorem takeLeaves (h : Withheld base held s) {faults : SyncFaults} {missing i : Nat}
    (up : (SimpleFs.takeLeaves faults missing i s).2.2.sShutdown = false) :
    Withheld base ((SimpleFs.takeLeaves faults missing i s).2.1 ++ held)
      (SimpleFs.takeLeaves faults missing i s).2.2 := by
  induction missing generalizing i held s with
  | zero => exact h
  | succ missing ih =>
    rw [SimpleFs.takeLeaves] at up ⊢
    have one := @Withheld.getFreeBlocks base s held reserved h (faults.busy i)
      { persist := faults.takeLeaf i } 1
    cases probe : Space.getFreeBlocks (faults.busy i) { persist := faults.takeLeaf i } 1 s with
    | mk bno s' =>
      rw [probe] at up one
      cases bno with
      | zero =>
        rcases one up with ⟨-, kept⟩ | ⟨never, -⟩
        · exact kept
        · exact absurd rfl never
      | succ bno =>
        dsimp only at up ⊢
        have before := (takeLeaves_sound faults missing (i + 1) s').shrinks.up up
        rcases one before with ⟨never, -⟩ | ⟨-, -, more⟩
        · cases never
        · refine (ih more up).perm ?_
          exact List.perm_middle

end

end Withheld

/-- The new leaves that the error path of a sync does not give back: the journal would not forget
them. -/
def strandedLeaves (faults : SyncFaults) : List Nat → Nat → List Nat
  | [], _ => []
  | bno :: rest, i =>
    if (faults.forgetLeaf i).isSome then bno :: strandedLeaves faults rest (i + 1)
    else strandedLeaves faults rest (i + 1)

/-- The leaves that a sync of the buffer takes and loses when it fails. -/
def strandedBySync (faults : SyncFaults) (buf : Buffer) (st : Store) : List Nat :=
  let buf := { buf with extents := normalizeExtents buf.extents }
  if maxFileExtents < buf.extents.length then []
  else if decide (0 < leafCount buf.extents.length) && faults.kvcalloc then []
  else if st.space.sShutdown || faults.start.isSome then []
  else strandedLeaves faults (reserveLeaves faults buf st.space).2.1 buf.leafBlocks.length

theorem Withheld.undoLeaves {base s : Space} {held leaves : List Nat} (reserved : base.Reserved)
    {faults : SyncFaults} {i : Nat} (h : Withheld base (leaves ++ held) s)
    (up : (SimpleFs.undoLeaves faults leaves i s).sShutdown = false) :
    Withheld base (strandedLeaves faults leaves i ++ held) (SimpleFs.undoLeaves faults leaves i s) := by
  induction leaves generalizing i held s with
  | nil => exact h
  | cons bno rest ih =>
    rw [SimpleFs.undoLeaves] at up ⊢
    rw [strandedLeaves]
    have before := (undoLeaves_sound faults rest (i + 1) _).up up
    cases forget : faults.forgetLeaf i with
    | some e =>
      rw [forget] at up before
      -- the leaf stays with what was held before
      have later : Withheld base (rest ++ bno :: held) s := h.perm List.perm_middle.symm
      refine (ih later up).perm ?_
      rw [Option.isSome_some, if_pos rfl]
      exact List.perm_middle
    | none =>
      rw [forget] at up before
      rw [Option.isSome_none, if_neg Bool.false_ne_true]
      have upBefore : s.sShutdown = false :=
        (retireBlocks_geometry none (faults.putLeaf i) bno 1 s).2 before
      have given := @Withheld.putBlocks base s (rest ++ held) reserved bno 1 h Nat.zero_lt_one
        { persist := faults.putLeaf i } upBefore
      rw [if_neg Bool.false_ne_true] at given
      exact ih given up

theorem writeLeaves_changed (faults : SyncFaults) (oldCount : Nat) (extents : List Extent)
    (leaves : List Nat) (i : Nat) (disk : MetaDisk) :
    (writeLeaves faults oldCount extents leaves i true disk).2.1 = true := by
  induction leaves generalizing i disk with
  | nil => rfl
  | cons bno rest ih =>
    rw [writeLeaves]
    split
    · rfl
    split
    · exact ih (i + 1) disk
    split
    · rfl
    · rfl
    · rfl
    · exact ih (i + 1) _

theorem writeLeaves_unchanged (faults : SyncFaults) (oldCount : Nat) (extents : List Extent)
    (leaves : List Nat) (i : Nat) (changed : Bool) (disk : MetaDisk)
    (same : (writeLeaves faults oldCount extents leaves i changed disk).2.1 = false) :
    (writeLeaves faults oldCount extents leaves i changed disk).2.2 = disk := by
  induction leaves generalizing i changed disk with
  | nil => rfl
  | cons bno rest ih =>
    rw [writeLeaves] at same ⊢
    split at same
    · rfl
    split at same
    · rename_i unchanged
      rw [if_pos unchanged]
      exact ih (i + 1) changed disk same
    split at same
    · cases same
    · cases same
    · cases same
    · rw [writeLeaves_changed] at same
      cases same

theorem writeTree_unchanged {faults : SyncFaults} {rootBlock oldCount : Nat} {extents : List Extent}
    {leaves : List Nat} {disk : MetaDisk}
    (same : (writeTree faults rootBlock oldCount extents leaves disk).2.1 = false) :
    (writeTree faults rootBlock oldCount extents leaves disk).2.2 = disk := by
  have kept := writeLeaves_unchanged faults oldCount extents leaves 0 false disk
  rw [writeTree] at same ⊢
  split at same
  · rename_i written
    rw [written] at kept
    exact kept same
  · rename_i written
    rw [written] at kept
    split at same
    · exact kept same
    · cases same

/-- The part under the handle fails and the file system stays up: nothing is written, and the new
leaves are given back. -/
theorem Withheld.syncTree {base : Space} {held : List Nat} (reserved : base.Reserved) {e : Errno}
    (h : Withheld base held st.space)
    (failed : (SimpleFs.syncTree faults rootBlock buf iBlocks st).ret = some e)
    (up : (SimpleFs.syncTree faults rootBlock buf iBlocks st).store.space.sShutdown = false) :
    (SimpleFs.syncTree faults rootBlock buf iBlocks st).store.disk = st.disk ∧
      (SimpleFs.syncTree faults rootBlock buf iBlocks st).iBlocks = iBlocks ∧
      Withheld base
        (strandedLeaves faults (reserveLeaves faults buf st.space).2.1 buf.leafBlocks.length ++ held)
        (SimpleFs.syncTree faults rootBlock buf iBlocks st).store.space := by
  have undone : (SimpleFs.undoLeaves faults (reserveLeaves faults buf st.space).2.1
      buf.leafBlocks.length (reserveLeaves faults buf st.space).2.2).sShutdown = false →
      Withheld base
        (strandedLeaves faults (reserveLeaves faults buf st.space).2.1 buf.leafBlocks.length ++ held)
        (SimpleFs.undoLeaves faults (reserveLeaves faults buf st.space).2.1 buf.leafBlocks.length
          (reserveLeaves faults buf st.space).2.2) := by
    intro up
    have before := (undoLeaves_sound faults _ _ _).up up
    exact Withheld.undoLeaves reserved (Withheld.takeLeaves reserved h before) up
  revert failed up
  rw [SimpleFs.syncTree]
  split
  · exact fun _ up => ⟨rfl, rfl, undone up⟩
  split
  · intro _ up
    cases (Space.failIf_up up).2
  · rename_i e' disk written
    intro _ up
    have kept := @writeTree_unchanged faults rootBlock buf.leafBlocks.length buf.extents
      (newLeaves faults buf st.space) st.disk
    rw [written] at kept
    exact ⟨kept rfl, rfl, undone up⟩
  split
  · intro _ up
    cases (Space.failIf_up up).2
  · simp

/-- `simplefs_file_sync_extents` fails and the file system stays up. -/
theorem Withheld.syncExtents {base : Space} {held : List Nat} (reserved : base.Reserved) {e : Errno}
    (h : Withheld base held st.space)
    (failed : (SimpleFs.syncExtents faults rootBlock buf iBlocks st).ret = some e)
    (up : (SimpleFs.syncExtents faults rootBlock buf iBlocks st).store.space.sShutdown = false) :
    (SimpleFs.syncExtents faults rootBlock buf iBlocks st).store.disk = st.disk ∧
      (SimpleFs.syncExtents faults rootBlock buf iBlocks st).iBlocks = iBlocks ∧
      Withheld base (strandedBySync faults buf st ++ held)
        (SimpleFs.syncExtents faults rootBlock buf iBlocks st).store.space := by
  rw [SimpleFs.syncExtents] at failed up ⊢
  rw [strandedBySync]
  dsimp only at failed up ⊢
  by_cases many : maxFileExtents < (normalizeExtents buf.extents).length
  · rw [if_pos many, if_pos many]
    exact ⟨rfl, rfl, h⟩
  rw [if_neg many] at failed up ⊢
  rw [if_neg many]
  by_cases memory : (decide (0 < leafCount (normalizeExtents buf.extents).length) && faults.kvcalloc) = true
  · rw [if_pos memory, if_pos memory]
    exact ⟨rfl, rfl, h⟩
  rw [if_neg memory] at failed up ⊢
  rw [if_neg memory]
  cases start : (if st.space.sShutdown = true then some Errno.eio else faults.start) with
  | some e' =>
    rw [start] at failed up
    have never : (st.space.sShutdown || faults.start.isSome) = true := by
      split at start
      · rename_i down
        rw [down, Bool.true_or]
      · rw [start, Option.isSome_some, Bool.or_true]
    rw [if_pos never]
    exact ⟨rfl, rfl, h⟩
  | none =>
    rw [start] at failed up
    have begun : ¬ (st.space.sShutdown || faults.start.isSome) = true := by
      split at start
      · cases start
      · rename_i running
        simp [running, start]
    rw [if_neg begun]
    dsimp only at failed up ⊢
    generalize out : SimpleFs.syncTree faults rootBlock
      { buf with extents := normalizeExtents buf.extents } iBlocks st = tree at failed up ⊢
    have quiet : ¬ (faults.own && (tree.store.space.sShutdown || faults.stop)) = true := by
      intro loud
      rw [stopSync, if_pos loud] at up
      cases (Space.failIf_up up).2
    rw [stopSync, if_neg quiet] at failed up ⊢
    subst out
    exact Withheld.syncTree reserved h failed up

/-! ## A sync that succeeds -/

/-- The blocks in `taken` were allocated, and those in `given` were released after that. -/
def Traded (base : Space) (taken given : List Nat) (s : Space) : Prop :=
  ∃ mid, Withheld base taken mid ∧ Withheld s given mid

namespace Traded

variable {base s s' : Space} {taken given : List Nat}

theorem of_held (h : Withheld base taken s) : Traded base taken [] s := ⟨s, h, .refl s⟩

theorem free (t : Traded base taken given s) (b : Nat) :
    s.bfreeBitmap b = true ↔ (base.bfreeBitmap b = true ∧ b ∉ taken) ∨ b ∈ given := by
  obtain ⟨mid, took, gave⟩ := t
  rw [← took.free, gave.free]
  by_cases mem : b ∈ given
  · simp [mem, gave.wasFree b mem]
  · simp [mem]

theorem count (t : Traded base taken given s) :
    s.nrFreeBlocks + UInt32.ofNat taken.length = base.nrFreeBlocks + UInt32.ofNat given.length := by
  obtain ⟨mid, took, gave⟩ := t
  rw [← took.count, ← gave.count]
  grind

theorem geometry (t : Traded base taken given s) : Space.SameGeometry base s := by
  obtain ⟨mid, took, gave⟩ := t
  have back := gave.geometry
  exact took.geometry.trans ⟨back.nrBlocks.symm, back.nrInodes.symm, back.rootDirBlock.symm,
    back.ifreeBitmap.symm⟩

theorem give {more : List Nat} (t : Traded base taken given s) (h : Withheld s' more s) :
    Traded base taken (given ++ more) s' := by
  obtain ⟨mid, took, gave⟩ := t
  exact ⟨mid, took, h.trans gave⟩

theorem returnable (t : Traded base taken given s) (valid : Returnable base b)
    (absent : b ∉ given) : Returnable s b := by
  obtain ⟨mid, took, gave⟩ := t
  exact gave.returnable_base (took.returnable valid) absent

theorem reserved (t : Traded base taken given s) (reserved : base.Reserved)
    (valid : ∀ b ∈ given, 0 < b ∧ b ≠ base.rootDirBlock) : s.Reserved := by
  constructor
  · by_contra free
    rw [Bool.not_eq_false, t.free] at free
    rcases free with ⟨free, -⟩ | mem
    · rw [reserved.zero] at free
      cases free
    · exact Nat.lt_irrefl 0 (valid 0 mem).1
  · rw [t.geometry.rootDirBlock]
    by_contra free
    rw [Bool.not_eq_false, t.free] at free
    rcases free with ⟨free, -⟩ | mem
    · rw [reserved.root] at free
      cases free
    · exact (valid _ mem).2 rfl

end Traded

theorem Withheld.dropLeaves {faults : SyncFaults} {leaves : List Nat} {i : Nat} {s s' : Space}
    (distinct : leaves.Nodup) (valid : ∀ b ∈ leaves, Returnable s b)
    (run : SimpleFs.dropLeaves faults leaves i s = (none, s')) (up : s'.sShutdown = false) :
    Withheld s' leaves s := by
  induction leaves generalizing i s with
  | nil =>
    cases run
    exact Withheld.refl _
  | cons bno rest ih =>
    obtain ⟨fresh, distinct⟩ := List.nodup_cons.mp distinct
    obtain ⟨first, later⟩ := List.forall_mem_cons.mp valid
    rw [SimpleFs.dropLeaves] at run
    cases forget : faults.forgetLeaf i with
    | some e =>
      rw [forget] at run
      cases run
    | none =>
      rw [forget] at run
      have after := (dropLeaves_sound faults rest (i + 1)
        (Space.putBlocks { persist := faults.putLeaf i } bno 1 s).2).up
      have step : SimpleFs.dropLeaves faults rest (i + 1)
        (Space.putBlocks { persist := faults.putLeaf i } bno 1 s).2 = (none, s') := run
      rw [step] at after
      have before : s.sShutdown = false :=
        (Space.putBlocks_sound { persist := faults.putLeaf i } bno 1 s).2.1 (after up)
      have one := @Withheld.of_putBlocks s { persist := faults.putLeaf i } bno 1 Nat.zero_lt_one
        (fun b mem => by
          obtain rfl : b = bno := by simpa using mem
          exact first) before rfl
      have rest' := ih distinct (fun b mem => ?_) step
      · exact (rest'.trans one).perm (by simp)
      · refine one.returnable_base (later b mem) ?_
        intro same
        obtain rfl : b = bno := by simpa using same
        exact fresh mem

/-- A sync that succeeds and leaves the file system up has taken its new leaves and released those
it dropped. -/
theorem Synced.traded {out : SyncOut} (synced : Synced faults rootBlock buf iBlocks st out)
    (reserved : st.space.Reserved) (distinct : buf.leafBlocks.Nodup)
    (valid : ∀ b ∈ buf.leafBlocks, Returnable st.space b) (up : out.store.space.sShutdown = false) :
    Traded st.space (reserveLeaves faults buf st.space).2.1
      (buf.leafBlocks.drop (leafCount buf.extents.length)) out.store.space := by
  have loop := dropLeaves_sound faults (buf.leafBlocks.drop (leafCount buf.extents.length))
    (leafCount buf.extents.length) (reserveLeaves faults buf st.space).2.2
  rw [synced.dropped] at loop
  have took := Withheld.takeLeaves reserved (Withheld.refl st.space) (loop.up up)
  rw [List.append_nil] at took
  refine ⟨_, took, Withheld.dropLeaves (distinct.sublist (List.drop_sublist _ _)) ?_ synced.dropped up⟩
  exact fun b mem => took.returnable (valid b (List.mem_of_mem_drop mem))

theorem syncExtents_own_up
    (success : (syncExtents { faults with own := true } rootBlock buf iBlocks st).ret = none) :
    (syncExtents { faults with own := true } rootBlock buf iBlocks st).store.space.sShutdown = false := by
  rw [syncExtents] at success ⊢
  dsimp only at success ⊢
  split at success
  · cases success
  rename_i few
  rw [if_neg few]
  split at success
  · cases success
  rename_i memory
  rw [if_neg memory]
  split at success
  · cases success
  generalize syncTree { faults with own := true } rootBlock
    { buf with extents := normalizeExtents buf.extents } iBlocks st = out at success ⊢
  rw [stopSync] at success ⊢
  by_cases loud : (out.store.space.sShutdown || faults.stop) = true
  · rw [if_pos (by simpa using loud)] at success
    cases ret : out.ret with
    | none =>
      rw [ret] at success
      cases success
    | some e =>
      rw [ret] at success
      cases success
  · rw [if_neg (by simpa using loud)]
    rw [Bool.or_eq_true, not_or, Bool.not_eq_true] at loud
    exact loud.1

section Success

variable {out : SyncOut} (synced : Synced faults rootBlock buf iBlocks st out)
  (distinct : (rootBlock :: buf.leafBlocks).Nodup)
  (valid : ∀ b ∈ buf.leafBlocks, Returnable st.space b)

include synced distinct valid

theorem Synced.returned_dropped (b : Nat) (returned : Returned st out b) : Dropped buf out b := by
  have taken := takeLeaves_sound faults (leafCount buf.extents.length - buf.leafBlocks.length)
    buf.leafBlocks.length st.space
  have loop := dropLeaves_sound faults (buf.leafBlocks.drop (leafCount buf.extents.length))
    (leafCount buf.extents.length) (reserveLeaves faults buf st.space).2.2
  rw [synced.dropped] at loop
  rw [synced.dropped_iff distinct valid]
  by_contra absent
  have before := taken.shrinks.free b ((loop.others b absent) ▸ returned.2)
  rw [returned.1] at before
  exact Bool.noConfusion before

theorem Synced.dropped_returned (up : out.store.space.sShutdown = false) (b : Nat)
    (dropped : Dropped buf out b) : Returned st out b := by
  have taken := takeLeaves_sound faults (leafCount buf.extents.length - buf.leafBlocks.length)
    buf.leafBlocks.length st.space
  refine ⟨(valid b dropped.1).2.2.2, ?_⟩
  rw [synced.dropped_iff distinct valid] at dropped
  have returnable : ∀ c ∈ buf.leafBlocks.drop (leafCount buf.extents.length),
      Returnable (reserveLeaves faults buf st.space).2.2 c := by
    intro c mem
    obtain ⟨positive, inside, notRootDir, used⟩ := valid c (List.mem_of_mem_drop mem)
    refine ⟨positive, taken.shrinks.geometry.nrBlocks ▸ inside,
      taken.shrinks.geometry.rootDirBlock ▸ notRootDir, ?_⟩
    by_contra free
    rw [Bool.not_eq_false] at free
    have before := taken.shrinks.free c free
    rw [used] at before
    exact Bool.noConfusion before
  have tail := (List.nodup_cons.1 distinct).2.sublist (List.drop_sublist (leafCount buf.extents.length) _)
  exact (Withheld.dropLeaves tail returnable synced.dropped up).wasFree b dropped

end Success

/-- A sync that succeeds is read back as the normalised extents and the leaves it kept or
took. The map and the sector count follow, and the blocks it returned are leaves it dropped:
all of them, unless the file system was shut down on the way. -/
theorem loadExtents_syncExtents (faults : SyncFaults) (rootBlock : Nat) (old : Buffer)
    (extents : List Extent) (iBlocks : UInt64) (st : Store) (tree : OnDisk st rootBlock old)
    (lengths : ∀ e ∈ extents, 1 ≤ e.eeLen ∧ e.eeLen ≤ maxBlocksPerExtent ∧ e.eeStart ≠ 0)
    (disjoint : LogicallyDisjoint extents)
    (success : (syncExtents faults rootBlock { old with extents } iBlocks st).ret = none) :
    let out := syncExtents faults rootBlock { old with extents } iBlocks st
    loadExtents {} out.store.disk rootBlock = .ok out.buf ∧
      out.buf.extents = normalizeExtents extents ∧
      (∀ iblock, mapOf out.buf.extents iblock = mapOf extents iblock) ∧
      out.iBlocks + blocksToSectors old.leafBlocks.length =
        iBlocks + blocksToSectors out.buf.leafBlocks.length ∧
      (∀ b, Returned st out b → Dropped old out b) ∧
      (out.store.space.sShutdown = false → ∀ b, Dropped old out b → Returned st out b) := by
  intro out
  obtain ⟨few, synced⟩ := syncExtents_ok success
  have tidy : ∀ e ∈ extents, e.Tidy := fun e mem zero => absurd zero (lengths e mem).2.2
  refine ⟨synced.load tree.distinct tree.rootUsed tree.leaves few, synced.extents, ?_, ?_,
    synced.returned_dropped tree.distinct tree.leaves,
    synced.dropped_returned tree.distinct tree.leaves⟩
  · intro iblock
    rw [synced.extents]
    exact mapOf_normalizeExtents extents tidy disjoint iblock
  · rw [synced.leaves, newLeaves_length synced.found, synced.sectors]
    exact chargeLeaves_balance iBlocks _ _

/-- A file with its root in block 7 and its leaves in blocks 5 and 6. -/
def twoLeafStore : Store where
  disk := fun b =>
    if b = 7 then .indexRoot 2 [⟨0, 5, 1, 2⟩, ⟨2, 6, 1, 3⟩]
    else if b = 5 then .leaf 1 [⟨0, 2, 20, false⟩]
    else if b = 6 then .leaf 1 [⟨2, 1, 22, false⟩]
    else .other
  space := {
    nrBlocks := 32, nrInodes := 32, nrIstoreBlocks := 1, nrIfreeBlocks := 1, nrBfreeBlocks := 1
    bfreeBitmap := fun b => decide (24 ≤ b), ifreeBitmap := fun _ => false
    discardPending := fun _ => false, nrFreeBlocks := 8, nrFreeInodes := 0
    sDiscard := false, sShutdown := false }

def twoLeafBuffer : Buffer where
  extents := [⟨0, 2, 20, false⟩, ⟨2, 1, 22, false⟩]
  leafBlocks := [5, 6]

theorem twoLeafStore_onDisk : OnDisk twoLeafStore 7 twoLeafBuffer :=
  ⟨by rfl, by decide, by decide, by decide⟩

/-- The two extents join into one that fits the root, and both leaves go back. -/
theorem loadExtents_syncExtents_twoLeaves :
    let out := syncExtents {} 7 twoLeafBuffer 40 twoLeafStore
    loadExtents {} out.store.disk 7 = .ok ⟨[⟨0, 3, 20, false⟩], []⟩ ∧ out.iBlocks = 24 ∧
      Returned twoLeafStore out 5 ∧ Returned twoLeafStore out 6 := by
  have round := loadExtents_syncExtents {} 7 twoLeafBuffer twoLeafBuffer.extents 40 twoLeafStore
    twoLeafStore_onDisk (by decide) (by decide) (by decide)
  exact ⟨round.1, by decide, round.2.2.2.2.2 (by decide) 5 (by decide),
    round.2.2.2.2.2 (by decide) 6 (by decide)⟩

/-- Called under an outer handle, a sync succeeds although persisting the bitmap after the
first returned leaf failed: the file system is shut down and the second leaf is lost. -/
theorem dropped_not_returned_twoLeaves :
    let out := syncExtents { putLeaf := fun i => i == 0 } 7 twoLeafBuffer 40 twoLeafStore
    OnDisk twoLeafStore 7 twoLeafBuffer ∧ LogicallyDisjoint twoLeafBuffer.extents ∧
      out.ret = none ∧ Dropped twoLeafBuffer out 6 ∧ ¬ Returned twoLeafStore out 6 :=
  ⟨twoLeafStore_onDisk, by decide, by decide, by decide, by decide⟩

end SimpleFs

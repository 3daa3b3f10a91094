import KernelNotes.SimpleFs.Ledger

/-!
# Syncs that leave the file system running

A sync can be refused for want of memory or of space before it writes anything. As long as nothing
else goes wrong, in the bitmap, in the journal or with a block that is being written, such a refusal
leaves no trace.
-/

namespace SimpleFs

/-- Nothing fails but what can be refused before the first write. -/
structure SyncFaults.Mild (faults : SyncFaults) : Prop where
  takeLeaf : ∀ i, faults.takeLeaf i = false
  readLeaf : ∀ i, faults.readLeaf i = none
  zeroLeaf : ∀ i, faults.zeroLeaf i = none
  mapLeaf : ∀ i, faults.mapLeaf i = none
  dirtyLeaf : ∀ i, faults.dirtyLeaf i = none
  flushLeaves : faults.flushLeaves = none
  dirtyRoot : faults.dirtyRoot = none
  flushRoot : faults.flushRoot = none
  forgetLeaf : ∀ i, faults.forgetLeaf i = none
  putLeaf : ∀ i, faults.putLeaf i = false
  stop : faults.stop = false

theorem SyncFaults.Mild.owned {faults : SyncFaults} (mild : faults.Mild) :
    ({ faults with own := true } : SyncFaults).Mild :=
  ⟨mild.takeLeaf, mild.readLeaf, mild.zeroLeaf, mild.mapLeaf, mild.dirtyLeaf, mild.flushLeaves,
    mild.dirtyRoot, mild.flushRoot, mild.forgetLeaf, mild.putLeaf, mild.stop⟩

namespace Space

theorem getFreeBlocks_up (busy : Bits.BitMap) {faults : HandleFaults} (persist : faults.persist = false)
    (stop : faults.stop = false) (len : Nat) (s : Space) :
    (getFreeBlocks busy faults len s).2.sShutdown = s.sShutdown := by
  rw [getFreeBlocks, getFreeBlocksWith]
  split
  · rfl
  split
  · rw [stop]
    exact Bool.or_false _
  · rw [persist, stop]
    exact Bool.or_false _

theorem putBlocks_up {faults : HandleFaults} (persist : faults.persist = false)
    (stop : faults.stop = false) (bno len : Nat) (s : Space) :
    (putBlocks faults bno len s).2.sShutdown = s.sShutdown := by
  rw [putBlocks]
  split
  · rfl
  split
  · rw [stop]
    exact Bool.or_false _
  · rw [persist, stop]
    exact Bool.or_false _

end Space

section

variable {faults : SyncFaults} (mild : faults.Mild)

include mild

theorem takeLeaves_up (missing i : Nat) (s : Space) :
    (takeLeaves faults missing i s).2.2.sShutdown = s.sShutdown := by
  induction missing generalizing i s with
  | zero => rfl
  | succ missing ih =>
    have one := @Space.getFreeBlocks_up (faults.busy i) { persist := faults.takeLeaf i }
      (mild.takeLeaf i) rfl 1 s
    rw [takeLeaves]
    split
    · rename_i run
      rw [run] at one
      exact one
    · rename_i run
      rw [run] at one
      exact (ih (i + 1) _).trans one

theorem retireBlocks_up (i bno : Nat) (s : Space) :
    (retireBlocks (faults.forgetLeaf i) (faults.putLeaf i) bno 1 s).1 = none ∧
      (retireBlocks (faults.forgetLeaf i) (faults.putLeaf i) bno 1 s).2.sShutdown = s.sShutdown := by
  rw [mild.forgetLeaf i]
  exact ⟨rfl, Space.putBlocks_up (mild.putLeaf i) rfl bno 1 s⟩

theorem undoLeaves_up (leaves : List Nat) (i : Nat) (s : Space) :
    (undoLeaves faults leaves i s).sShutdown = s.sShutdown := by
  induction leaves generalizing i s with
  | nil => rfl
  | cons bno rest ih =>
    rw [undoLeaves, ih]
    exact (retireBlocks_up mild i bno s).2

theorem dropLeaves_up (leaves : List Nat) (i : Nat) (s : Space) :
    (dropLeaves faults leaves i s).1 = none ∧ (dropLeaves faults leaves i s).2.sShutdown = s.sShutdown := by
  induction leaves generalizing i s with
  | nil => exact ⟨rfl, rfl⟩
  | cons bno rest ih =>
    obtain ⟨none_, up⟩ := retireBlocks_up mild i bno s
    rw [dropLeaves]
    split
    · rename_i run
      rw [run] at none_
      cases none_
    · rename_i run
      rw [run] at up
      exact ⟨(ih (i + 1) _).1, (ih (i + 1) _).2.trans up⟩

theorem writeLeaves_none (oldCount : Nat) (extents : List Extent) (leaves : List Nat) (i : Nat)
    (changed : Bool) (disk : MetaDisk) :
    (writeLeaves faults oldCount extents leaves i changed disk).1 = none := by
  induction leaves generalizing i changed disk with
  | nil => rfl
  | cons bno rest ih =>
    rw [writeLeaves, mild.readLeaf i, ite_self]
    dsimp only
    rw [mild.zeroLeaf i, mild.mapLeaf i, mild.dirtyLeaf i]
    split
    · exact ih _ _ _
    · exact ih _ _ _

theorem writeTree_none (rootBlock oldCount : Nat) (extents : List Extent) (leaves : List Nat)
    (disk : MetaDisk) : (writeTree faults rootBlock oldCount extents leaves disk).1 = none := by
  have loop := writeLeaves_none mild oldCount extents leaves 0 false disk
  rw [writeTree]
  split
  · rename_i run
    rw [run] at loop
    cases loop
  · rw [mild.flushLeaves, mild.dirtyRoot, mild.flushRoot]
    rfl

theorem syncTree_up (rootBlock : Nat) (buf : Buffer) (iBlocks : UInt64) (st : Store) :
    (syncTree faults rootBlock buf iBlocks st).store.space.sShutdown = st.space.sShutdown := by
  have taken : (reserveLeaves faults buf st.space).2.2.sShutdown = st.space.sShutdown :=
    takeLeaves_up mild _ _ _
  have written := writeTree_none mild rootBlock buf.leafBlocks.length buf.extents
    (newLeaves faults buf st.space) st.disk
  rw [syncTree]
  split
  · exact (undoLeaves_up mild _ _ _).trans taken
  split
  · rename_i run
    rw [run] at written
    cases written
  · rename_i run
    rw [run] at written
    cases written
  · obtain ⟨none_, up⟩ := dropLeaves_up mild (buf.leafBlocks.drop (leafCount buf.extents.length))
      (leafCount buf.extents.length) (reserveLeaves faults buf st.space).2.2
    split
    · rename_i run
      rw [run] at none_
      cases none_
    · rename_i run
      rw [run] at up
      exact up.trans taken

theorem syncExtents_up (rootBlock : Nat) (buf : Buffer) (iBlocks : UInt64) (st : Store) :
    (syncExtents faults rootBlock buf iBlocks st).store.space.sShutdown = st.space.sShutdown := by
  rw [syncExtents]
  dsimp only
  split
  · rfl
  split
  · rfl
  split
  · rfl
  · rename_i started
    have up : st.space.sShutdown = false := by
      cases down : st.space.sShutdown with
      | false => rfl
      | true =>
        rw [down] at started
        cases started
    have tree := syncTree_up mild rootBlock { buf with extents := normalizeExtents buf.extents } iBlocks st
    rw [up] at tree
    rw [stopSync, tree, mild.stop, Bool.or_false, Bool.and_false, if_neg Bool.false_ne_true, tree, up]

theorem strandedLeaves_nil (leaves : List Nat) (i : Nat) : strandedLeaves faults leaves i = [] := by
  induction leaves generalizing i with
  | nil => rfl
  | cons bno rest ih =>
    rw [strandedLeaves, mild.forgetLeaf i]
    exact ih (i + 1)

theorem strandedBySync_nil (buf : Buffer) (st : Store) : strandedBySync faults buf st = [] := by
  rw [strandedBySync]
  dsimp only
  rw [strandedLeaves_nil mild, ite_self, ite_self, ite_self]

end

theorem syncExtents_down {faults : SyncFaults} {rootBlock : Nat} {buf : Buffer} {iBlocks : UInt64} {st : Store}
    (down : st.space.sShutdown = true) :
    (syncExtents faults rootBlock buf iBlocks st).store = st ∧
      (syncExtents faults rootBlock buf iBlocks st).iBlocks = iBlocks := by
  rw [syncExtents]
  dsimp only
  rw [down]
  split
  · exact ⟨rfl, rfl⟩
  split
  · exact ⟨rfl, rfl⟩
  · exact ⟨rfl, rfl⟩

theorem syncExtents_refused {faults : SyncFaults} (mild : faults.Mild) {rootBlock : Nat} {buf : Buffer}
    {iBlocks : UInt64} {st : Store} (reserved : st.space.Reserved) {e : Errno}
    (failed : (syncExtents faults rootBlock buf iBlocks st).ret = some e) :
    (syncExtents faults rootBlock buf iBlocks st).store.disk = st.disk ∧
      (syncExtents faults rootBlock buf iBlocks st).iBlocks = iBlocks ∧
      Space.SameFree st.space (syncExtents faults rootBlock buf iBlocks st).store.space := by
  cases down : st.space.sShutdown with
  | true =>
    obtain ⟨store, sectors⟩ := @syncExtents_down faults rootBlock buf iBlocks st down
    rw [store, sectors]
    exact ⟨rfl, rfl, rfl, rfl⟩
  | false =>
    have up := (syncExtents_up mild rootBlock buf iBlocks st).trans down
    obtain ⟨disk, sectors, held⟩ := Withheld.syncExtents reserved (Withheld.refl st.space) failed up
    rw [strandedBySync_nil mild, List.append_nil] at held
    exact ⟨disk, sectors, held.same⟩

end SimpleFs

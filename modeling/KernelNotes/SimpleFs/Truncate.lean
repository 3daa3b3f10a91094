import KernelNotes.SimpleFs.PunchHole

/-!
# Truncating a file, and discarding its speculative blocks

A truncate that does not make the file longer drops all blocks from the new end on. When the last
block stays the same it does not look at the extents at all, which is wrong if blocks were reserved
beyond the end of the file. Discarding the record of speculative blocks ends with a truncate to the
size the file has; there the blocks beyond the end do go, also those that are not in the record.
-/

namespace SimpleFs

open Outcome Cells

namespace File

/-- The file lost the blocks from the new end on, and nothing else; no leaf was added. -/
def Truncated (file : File) (buf : Buffer) (size : Nat) (file' : File) : Prop :=
  ∃ buf', Intact file' buf' ∧ buf'.leafBlocks ⊆ buf.leafBlocks ∧
    Remapped file buf (fun b => if b < blocksOf size then mapOf buf.extents b else none)
      (fun p => ∃ b u, blocksOf size ≤ b ∧ mapOf buf.extents b = some (p, u)) file' buf'

/-- The extents that reach beyond the new end. -/
def beyond (size : Nat) (extents : List Extent) : List Extent :=
  extents.filter fun e => decide (blocksOf size < e.extEnd)

theorem trimPrealloc_sameTree (size : Nat) (file : File) : SameTree file (trimPrealloc size file).2 := by
  rw [trimPrealloc]
  repeat' split
  all_goals exact ⟨rfl, rfl, rfl⟩

section

variable {file : File} {buf : Buffer}

theorem dropTail_ends (intact : Intact file buf) (faults : TruncateFaults) (newBlocks : Nat) :
    Ends (fun _ => Shortened faults.put file buf (buf.extents.flatMap (truncatePieces newBlocks))
        (buf.extents.flatMap (truncateFreed newBlocks)))
      (fun _ _ => True) (dropTail faults newBlocks file) := by
  have cut := cutBy_cut intact.sound fun e mem => truncate_cutBy newBlocks (intact.sound.fit e mem)
  rw [dropTail]
  refine Ends.bind (fun buf' file' => buf = buf' ∧ file = file') ?_ ?_
  · exact (load_eq intact faults.load).mono (fun _ _ => id) fun _ _ _ => trivial
  rintro _ _ ⟨rfl, rfl⟩
  refine Ends.bind (fun _ file' => file = file') ?_ ?_
  · exact Ends.refuse (fun _ => rfl) fun _ => trivial
  rintro _ _ rfl
  exact (releaseRanges_ends intact cut faults.sync faults.put).mono (fun _ _ => id) fun _ _ _ => trivial

theorem truncate_mapOf (sound : Sound buf.extents) (newBlocks b : Nat) :
    mapOf (buf.extents.flatMap (truncatePieces newBlocks)) b =
      if b < newBlocks then mapOf buf.extents b else none := by
  rw [cutBy_mapOf sound fun e mem => truncate_cutBy newBlocks (sound.fit e mem)]
  simp only [decide_eq_true_eq]

theorem Shortened.truncated_iff (intact : Intact file buf) {file' : File} {size : Nat}
    {puts : Nat → Space.HandleFaults}
    (short : Shortened puts file buf (buf.extents.flatMap (truncatePieces (blocksOf size)))
      (buf.extents.flatMap (truncateFreed (blocksOf size))) file') :
    (Maps file' fun b => if b < blocksOf size then mapOf buf.extents b else none) ∧
      file'.iSize = file.iSize ∧
      (Truncated file buf size file' ↔ GoThrough puts 0 (beyond size buf.extents).length) := by
  have each : ∀ e ∈ buf.extents, _ := fun e mem => truncate_cutBy (blocksOf size) (intact.sound.fit e mem)
  have cut := cutBy_cut intact.sound each
  have maps := short.maps intact cut (cutBy_unchanged intact.sound each)
  have exact_ := short.remapped_iff intact cut (cutBy_unchanged intact.sound each)
  rw [funext (truncate_mapOf intact.sound (blocksOf size))] at maps exact_
  rw [length_truncateFreed _ intact.sound] at exact_
  refine ⟨maps.1, maps.2, ?_⟩
  rw [Truncated, beyond, ← exact_]
  refine exists_congr fun buf' => and_congr_right fun intact' => ?_
  have fewer := short.leaves_subset intact (Nat.le_of_eq (length_truncatePieces _ _)) intact'
  rw [and_iff_right fewer]
  refine Remapped.congr (fun b => rfl) fun p => ?_
  rw [cutBy_freed_iff intact.sound each]
  refine exists_congr fun b => exists_congr fun u => and_congr_left fun _ => ?_
  rw [decide_eq_false_iff_not, Nat.not_lt]

theorem beyond_eq_nil_iff (sound : Sound buf.extents) (size : Nat) :
    beyond size buf.extents = [] ↔ ∀ b, blocksOf size ≤ b → mapOf buf.extents b = none := by
  rw [beyond, List.filter_eq_nil_iff]
  constructor
  · intro short b past
    rw [mapOf_eq_none_iff sound.disjoint]
    intro v mem
    obtain ⟨e, listed, cell⟩ := List.mem_flatMap.mp mem
    have fit := sound.fit e listed
    have low := short e listed
    rw [fit.cells, mem_run] at cell
    rw [decide_eq_true_iff, fit.extEnd] at low
    omega
  · intro none_ e listed past
    have fit := sound.fit e listed
    have full := fit.full
    rw [decide_eq_true_iff, fit.extEnd] at past
    have last : (e.eeBlock + (e.extLen - 1), e.eeStart + (e.extLen - 1), e.unwritten) ∈ cellsOf buf.extents := by
      refine List.mem_flatMap.mpr ⟨e, listed, ?_⟩
      rw [fit.cells, mem_run]
      exact ⟨Nat.le_add_right _ _, by omega, by rw [Nat.add_sub_cancel_left]⟩
    rw [← mapOf_eq_some_iff sound.disjoint, none_ _ (by omega)] at last
    cases last

/-- A truncate that skips the extents has done its work if there is none beyond the end. -/
theorem truncated_skipped_iff (intact : Intact file buf) {file' : File} (same : SameTree file file')
    (size : Nat) : Truncated file buf size file' ↔ beyond size buf.extents = [] := by
  rw [beyond_eq_nil_iff intact.sound]
  constructor
  · rintro ⟨buf', intact', -, remapped⟩ b past
    have equal := (same.intact intact).loaded
    rw [intact'.loaded] at equal
    cases equal
    rw [remapped.maps b, if_neg (Nat.not_lt.mpr past)]
  · intro none_
    refine ⟨buf, same.intact intact, List.Subset.refl _, ?_⟩
    have stays := (Remapped.of_sameTree same).mp (same.intact intact).same_remapped
    refine (Remapped.congr (fun b => ?_) fun p => ?_).mp stays
    · by_cases low : b < blocksOf size
      · rw [if_pos low]
      · rw [if_neg low, none_ b (Nat.not_lt.mp low)]
    · constructor
      · exact False.elim
      · rintro ⟨b, u, past, mapped⟩
        rw [none_ b past] at mapped
        cases mapped

theorem truncate_ends (intact : Intact file buf) (sized : file.iSize ≤ maxFilesize)
    (faults : TruncateFaults) {size : Nat} (shorter : size ≤ file.iSize) :
    Ends (fun _ file' => file'.iSize = size ∧
        (skipsExtents size file = false →
          Maps file' fun b => if b < blocksOf size then mapOf buf.extents b else none) ∧
        (Truncated file buf size file' ↔
          (skipsExtents size file = true → beyond size buf.extents = []) ∧
            GoThrough faults.put 0 (beyond size buf.extents).length))
      (fun _ _ => True) (truncate faults size file) := by
  rw [truncate]
  refine Ends.read_bind ?_
  rw [if_neg (Nat.not_lt.mpr shorter)]
  refine Ends.bind (fun _ => SameTree file) (trimPrealloc_sameTree size file) fun _ mid same => ?_
  refine Ends.bind (fun _ => SameTree file) ?_ fun _ mid same => ?_
  · exact Ends.check (fun _ => same) fun _ _ => trivial
  refine Ends.bind (fun _ => SameTree file) (same.trans (zeroPieces_sameTree _ _).1) fun _ mid same => ?_
  refine Ends.bind (fun _ => SameTree file) ?_ fun _ mid same => ?_
  · exact Ends.check (fun _ => same) fun _ _ => trivial
  refine Ends.bind (fun _ file' => SameTree file file' ∧ file'.iSize = size)
    ⟨⟨same.eiBlock, same.iBlocks, same.store⟩, rfl⟩ ?_
  rintro _ mid ⟨same, ends⟩
  rw [Nat.mod_eq_of_lt (blocksOf_lt (Nat.le_trans shorter sized))]
  refine Ends.given (fun taken => ?_) fun skipped => ?_
  · refine (dropTail_ends (same.intact intact) faults _).mono (fun _ file' short => ?_) fun _ _ => id
    obtain ⟨maps, size', iff⟩ := short.truncated_iff (same.intact intact)
    refine ⟨size'.trans ends, fun _ => maps, ?_⟩
    rw [taken, ← iff]
    have simpler : ((false = true → beyond size buf.extents = []) ∧ Truncated mid buf size file') ↔
        Truncated mid buf size file' := and_iff_right nofun
    rw [simpler]
    exact exists_congr fun buf' => and_congr_right fun _ => and_congr_right fun _ =>
      (Remapped.of_sameTree same).symm
  · rw [Bool.not_eq_false] at skipped
    refine ⟨ends, fun taken => absurd (skipped.symm.trans taken) (by decide), ?_⟩
    rw [truncated_skipped_iff intact same]
    constructor
    · intro nothing
      rw [nothing]
      exact ⟨fun _ => rfl, nofun⟩
    · exact fun both => both.1 skipped

end

/-- A block of data, and two blocks reserved beyond the end of the file. -/
def keptSize : List Extent := [.init 0 1 10 false, .init 4 2 20 true]

theorem keptSize_intact : Intact (small 4096 keptSize) ⟨keptSize, []⟩ :=
  small_intact 4096 (by decide) (by decide) (by decide) (by decide)

/-- The block is in the record of speculative blocks. -/
def Tracked (file : File) (b : Nat) : Prop :=
  file.preallocBlock ≤ b ∧ b < file.preallocBlock + file.preallocLen

section

variable {file : File} {buf : Buffer}

/-- The hole that a discard punches lies inside the record, also where the end of the record is not
a block number any more. -/
theorem tracked_of_inside (b : Nat) (inside : Inside (file.preallocBlock * blockSize)
    (min (file.preallocBlock * blockSize +
      (min (file.preEnd * blockSize) file.iSize - file.preallocBlock * blockSize)) file.iSize) b) :
    Tracked file b := by
  have small : file.preEnd ≤ file.preallocBlock + file.preallocLen := Nat.mod_le _ _
  obtain ⟨low, high⟩ := inside
  have size : blockSize = 4096 := rfl
  rw [size] at low high
  constructor
  · omega
  · omega

theorem discardPrealloc_ends (intact : Intact file buf) (sized : file.iSize ≤ maxFilesize)
    (some_ : file.preallocLen ≠ 0) (faults : DiscardFaults) :
    Ends (fun _ file' => file'.iSize = file.iSize ∧ ∃ left : Nat → Option (Nat × Bool),
        (∀ b, ¬ Tracked file b → left b = mapOf buf.extents b) ∧
        Maps file' fun b => if b < blocksOf file.iSize then left b else none)
      (fun _ _ => True) (discardPrealloc faults file) := by
  rw [discardPrealloc]
  refine Ends.read_bind ?_
  refine Ends.given (fun _ => ?_) fun none_ => absurd some_ none_
  refine Ends.bind (fun _ file' => SameTree file file' ∧ file'.iSize = file.iSize)
    ⟨⟨rfl, rfl, rfl⟩, rfl⟩ ?_
  rintro _ mid ⟨same, size⟩
  refine Ends.bind (fun _ file' => file'.iSize = file.iSize ∧ ∃ left : Nat → Option (Nat × Bool),
    (∀ b, ¬ Tracked file b → left b = mapOf buf.extents b) ∧ Maps file' left) ?_ ?_
  · refine Ends.given (fun _ => ?_) fun _ => ⟨size, mapOf buf.extents, fun _ _ => rfl, ?_⟩
    · refine (punchHole_ends (same.intact intact) (by rw [size]; exact sized) faults.punch false _ _).mono
        (fun _ file' => ?_) fun _ _ _ => trivial
      rintro ⟨maps, size', -⟩
      refine ⟨size'.trans size, _, fun b free => ?_, maps⟩
      rw [size, if_neg fun inside => free (tracked_of_inside b inside)]
    · exact ⟨buf, same.intact intact, fun _ => rfl⟩
  · rintro _ mid ⟨size, left, frame, buf', intact', maps⟩
    refine (truncate_ends intact' (by rw [size]; exact sized) faults.truncate (Nat.le_of_eq size.symm)).mono
      (fun _ file' => ?_) fun _ _ => id
    rintro ⟨size', cut, -⟩
    refine ⟨size', left, frame, ?_⟩
    rw [← funext maps]
    exact cut (by simp [skipsExtents, size])

end

/-- The block behind the data is in the record, two more were reserved on request. -/
def reservedTail : List Extent := [.init 0 2 10 false, .init 4 2 20 true]

def trackedTail : File := { small 4096 reservedTail with preallocBlock := 1, preallocLen := 1 }

theorem trackedTail_intact : Intact trackedTail ⟨reservedTail, []⟩ :=
  @SameTree.intact (small 4096 reservedTail) trackedTail ⟨rfl, rfl, rfl⟩ _
    (small_intact 4096 (by decide) (by decide) (by decide) (by decide))

end File

end SimpleFs

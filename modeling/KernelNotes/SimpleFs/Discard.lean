import KernelNotes.SimpleFs.Bitmap

/-!
# The two discard paths

`issuePendingDiscards` walks `discard_pending` after a commit, and `trimFs` walks
`bfree_bitmap` for the `FITRIM` ioctl. Both return the ranges they hand to
`sb_issue_discard`, the failing one included. `budget` is the number of calls
the device answers before it reports an error.
-/

namespace SimpleFs.Space

open Bits

/-- A range of blocks, first block and length. -/
abbrev Extent := Nat × Nat

/-- The block lies in one of the ranges. -/
def Covers (ranges : List Extent) (b : Nat) : Prop :=
  ∃ range ∈ ranges, Within range.1 range.2 b

/-- `round_up`, which masks with `y - 1` whether or not `y` is a power of two. -/
def roundUp (x y : Nat) : Nat := if x = 0 then 0 else ((x - 1) ||| (y - 1)) + 1

/-- `round_down`: `x & ~(y - 1)`. -/
def roundDown (x y : Nat) : Nat := x - (x &&& (y - 1))

theorem le_roundUp (x y : Nat) : x ≤ roundUp x y := by
  rw [roundUp]
  split
  · omega
  · have := Nat.left_le_or (n := x - 1) (m := y - 1)
    omega

theorem roundDown_le (x y : Nat) : roundDown x y ≤ x := Nat.sub_le _ _

/-- `gran_blocks`: the device granularity in blocks, rounded up, at least one. -/
def granBlocks (granularity : Nat) : Nat := (max granularity blockSize + blockSize - 1) / blockSize

/-- The device refuses the next discard. -/
def refuses (budget : Option Nat) : Bool := budget == some 0

/-- What one walk did: the ranges sent to the device, whether the last one failed,
and `discard_pending` afterwards. -/
structure Issued where
  ranges : List Extent
  failed : Bool
  pending : BitMap

/-- The loop of `simplefs_issue_pending_discards`. -/
def pendingWalk (free : BitMap) (size gran : Nat) : Nat → Nat → BitMap → Option Nat → Issued
  | 0, _, pending, _ => ⟨[], false, pending⟩
  | fuel + 1, start, pending, budget =>
    let block := findNext pending true size start
    if size ≤ block then ⟨[], false, pending⟩
    else if !free block then
      pendingWalk free size gran fuel (block + 1) (clearRange pending block 1) budget
    else
      let stop := findNext (fun i => pending i && free i) false size (block + 1)
      let first := roundUp block gran
      let last := roundDown stop gran
      if last ≤ first then pendingWalk free size gran fuel stop pending budget
      else if refuses budget then ⟨[(first, last - first)], true, pending⟩
      else
        let rest := pendingWalk free size gran fuel stop
          (clearRange pending first (last - first)) (budget.map Nat.pred)
        { rest with ranges := (first, last - first) :: rest.ranges }

/-- `simplefs_issue_pending_discards`. -/
def issuePendingDiscards (granularity : Nat) (budget : Option Nat) (s : Space) :
    List Extent × Space :=
  if !s.sDiscard then ([], s)
  else
    let issued := pendingWalk s.bfreeBitmap s.nrBlocks (granBlocks granularity)
      (s.nrBlocks + 1) 0 s.discardPending budget
    (issued.ranges, { s with discardPending := issued.pending })

theorem pendingWalk_covers (free : BitMap) (size gran fuel start : Nat) (pending : BitMap)
    (budget : Option Nat) (b : Nat)
    (covered : Covers (pendingWalk free size gran fuel start pending budget).ranges b) :
    pending b = true ∧ free b = true := by
  induction fuel generalizing start pending budget with
  | zero =>
    obtain ⟨range, mem, _⟩ := covered
    simp [pendingWalk] at mem
  | succ fuel ih =>
    rw [pendingWalk] at covered
    dsimp only at covered
    generalize at_ : findNext pending true size start = block at covered
    split at covered
    · obtain ⟨range, mem, _⟩ := covered
      simp at mem
    rename_i inside
    split at covered
    · obtain ⟨old, set⟩ := ih _ _ _ covered
      exact ⟨clearRange_shrinks _ _ _ _ old, set⟩
    rename_i isFree
    have here : pending block = true := by
      rw [← at_]
      exact findNext_eq pending true (by omega)
    have both (i : Nat) (low : block ≤ i)
        (high : i < findNext (fun i => pending i && free i) false size (block + 1)) :
        pending i = true ∧ free i = true := by
      by_cases same : i = block
      · subst same
        exact ⟨here, by simpa using isFree⟩
      · have passed := ne_of_lt_findNext _ false (show block + 1 ≤ i by omega) high
        simpa using passed
    have rounded (i : Nat)
        (within : Within (roundUp block gran)
          (roundDown (findNext (fun i => pending i && free i) false size (block + 1)) gran -
            roundUp block gran) i) : pending i = true ∧ free i = true := by
      have low := le_roundUp block gran
      have high := roundDown_le
        (findNext (fun i => pending i && free i) false size (block + 1)) gran
      exact both i (by have := within.1; omega) (by have := within.1; have := within.2; omega)
    split at covered
    · exact ih _ _ _ covered
    split at covered
    · obtain ⟨range, mem, within⟩ := covered
      obtain rfl := List.mem_singleton.1 mem
      exact rounded b within
    · obtain ⟨range, mem, within⟩ := covered
      rcases List.mem_cons.1 mem with rfl | later
      · exact rounded b within
      · obtain ⟨old, set⟩ := ih _ _ _ ⟨range, later, within⟩
        exact ⟨clearRange_shrinks _ _ _ _ old, set⟩

theorem pendingWalk_pending (free : BitMap) (size gran fuel start : Nat) (pending : BitMap)
    (budget : Option Nat) (b : Nat)
    (left : (pendingWalk free size gran fuel start pending budget).pending b = true) :
    pending b = true := by
  induction fuel generalizing start pending budget with
  | zero => exact left
  | succ fuel ih =>
    rw [pendingWalk] at left
    dsimp only at left
    split at left
    · exact left
    split at left
    · exact clearRange_shrinks _ _ _ _ (ih _ _ _ left)
    split at left
    · exact ih _ _ _ left
    split at left
    · exact left
    · exact clearRange_shrinks _ _ _ _ (ih _ _ _ left)

theorem pendingWalk_fuel (free : BitMap) (size gran fuel start : Nat) (pending : BitMap)
    (budget : Option Nat) (inside : start ≤ size) (enough : size < start + fuel) :
    pendingWalk free size gran (fuel + 1) start pending budget =
      pendingWalk free size gran fuel start pending budget := by
  induction fuel generalizing start pending budget with
  | zero => omega
  | succ fuel ih =>
    rw [pendingWalk]
    conv_rhs => rw [pendingWalk]
    have low := le_findNext pending true inside
    dsimp only
    generalize findNext pending true size start = block at low ⊢
    by_cases past : size ≤ block
    · simp only [if_pos past]
    · have next := le_findNext (fun i => pending i && free i) false
        (show block + 1 ≤ size by omega)
      have last := findNext_le (fun i => pending i && free i) false size (block + 1)
      simp only [if_neg past, ih _ _ _ (show block + 1 ≤ size by omega)
        (show size < block + 1 + fuel by omega), ih _ _ _ last
        (show size < _ + fuel by omega)]

/-! ## FITRIM -/

/-- `struct fstrim_range`, in bytes. -/
structure FstrimRange where
  start : Nat
  len : Nat
  minlen : Nat

/-- The loop of `simplefs_trim_fs` over `[b, stop)`. -/
def trimWalk (free : BitMap) (stop minlen : Nat) : Nat → Nat → Option Nat → List Extent × Bool
  | 0, _, _ => ([], false)
  | fuel + 1, start, budget =>
    let b := findNext free true stop start
    if stop ≤ b then ([], false)
    else
      let runEnd := findNext free false stop (b + 1)
      if runEnd - b < minlen then trimWalk free stop minlen fuel runEnd budget
      else if refuses budget then ([(b, runEnd - b)], true)
      else
        let rest := trimWalk free stop minlen fuel runEnd (budget.map Nat.pred)
        ((b, runEnd - b) :: rest.1, rest.2)

/-- The blocks a `FITRIM` call is about, after clamping to the device. -/
def trimWindow (range : FstrimRange) (s : Space) : Extent :=
  let first := range.start / blockSize
  (first, min (first + range.len / blockSize) s.nrBlocks - first)

/-- `simplefs_trim_fs`: the error, the ranges sent to the device, and the number of bytes
it reports back in `range->len`. -/
def trimFs (noRecovery : Bool) (range : FstrimRange) (budget : Option Nat) (s : Space) :
    Fault × List Extent × Nat :=
  if noRecovery then (some .erofs, [], range.len)
  else if range.len < blockSize then (some .einval, [], range.len)
  else
    let startBlock := range.start / blockSize
    let endBlock := startBlock + range.len / blockSize
    let minlen := range.minlen / blockSize
    if s.nrBlocks ≤ startBlock then (some .einval, [], range.len)
    else
      let endBlock := if s.nrBlocks < endBlock then s.nrBlocks else endBlock
      let minlen := if minlen = 0 then 1 else minlen
      let walk := trimWalk s.bfreeBitmap endBlock minlen (s.nrBlocks + 1) startBlock budget
      let trimmed := if walk.2 then walk.1.dropLast else walk.1
      (if walk.2 then some .eio else none, walk.1, (trimmed.map Prod.snd).sum * blockSize)

theorem trimWalk_covers (free : BitMap) (stop minlen fuel start : Nat) (budget : Option Nat)
    (b : Nat) (covered : Covers (trimWalk free stop minlen fuel start budget).1 b) :
    free b = true ∧ start ≤ b ∧ b < stop := by
  induction fuel generalizing start budget with
  | zero =>
    obtain ⟨range, mem, _⟩ := covered
    simp [trimWalk] at mem
  | succ fuel ih =>
    rw [trimWalk] at covered
    dsimp only at covered
    generalize at_ : findNext free true stop start = first at covered
    split at covered
    · obtain ⟨range, mem, _⟩ := covered
      simp at mem
    rename_i inside
    have low : start ≤ first := by
      rw [← at_]
      by_cases early : start ≤ stop
      · exact le_findNext free true early
      · rw [findNext, if_pos (by omega)] at at_
        omega
    have here : free first = true := by
      rw [← at_]
      exact findNext_eq free true (by omega)
    have next := le_findNext free false (show first + 1 ≤ stop by omega)
    have last := findNext_le free false stop (first + 1)
    have run (i : Nat)
        (within : Within first (findNext free false stop (first + 1) - first) i) :
        free i = true ∧ start ≤ i ∧ i < stop := by
      have bounds := within
      rw [Within] at bounds
      refine ⟨?_, by omega, by omega⟩
      by_cases same : i = first
      · exact same ▸ here
      · have passed := ne_of_lt_findNext free false (show first + 1 ≤ i by omega)
          (show i < findNext free false stop (first + 1) by omega)
        simpa using passed
    have later (left : Option Nat)
        (covered : Covers (trimWalk free stop minlen fuel
          (findNext free false stop (first + 1)) left).1 b) :
        free b = true ∧ start ≤ b ∧ b < stop := by
      obtain ⟨set, from_, to_⟩ := ih _ _ covered
      exact ⟨set, by omega, to_⟩
    split at covered
    · exact later _ covered
    split at covered
    · obtain ⟨range, mem, within⟩ := covered
      obtain rfl := List.mem_singleton.1 mem
      exact run b within
    · obtain ⟨range, mem, within⟩ := covered
      rcases List.mem_cons.1 mem with rfl | other
      · exact run b within
      · exact later _ ⟨range, other, within⟩

theorem trimWalk_fuel (free : BitMap) (stop minlen fuel start : Nat) (budget : Option Nat)
    (inside : start ≤ stop) (enough : stop < start + fuel) :
    trimWalk free stop minlen (fuel + 1) start budget =
      trimWalk free stop minlen fuel start budget := by
  induction fuel generalizing start budget with
  | zero => omega
  | succ fuel ih =>
    rw [trimWalk]
    conv_rhs => rw [trimWalk]
    have low := le_findNext free true inside
    dsimp only
    generalize findNext free true stop start = b at low ⊢
    by_cases past : stop ≤ b
    · simp only [if_pos past]
    · have next := le_findNext free false (show b + 1 ≤ stop by omega)
      have last := findNext_le free false stop (b + 1)
      simp only [if_neg past, ih _ _ last (show stop < _ + fuel by omega)]

theorem trimFs_covers (noRecovery : Bool) (range : FstrimRange) (budget : Option Nat) (s : Space)
    (b : Nat) (covered : Covers (trimFs noRecovery range budget s).2.1 b) :
    s.bfreeBitmap b = true ∧ Within (trimWindow range s).1 (trimWindow range s).2 b := by
  rw [trimFs] at covered
  split at covered
  · obtain ⟨_, mem, _⟩ := covered
    simp at mem
  split at covered
  · obtain ⟨_, mem, _⟩ := covered
    simp at mem
  dsimp only at covered
  split at covered
  · obtain ⟨_, mem, _⟩ := covered
    simp at mem
  · obtain ⟨set, low, high⟩ := trimWalk_covers _ _ _ _ _ _ _ covered
    refine ⟨set, low, ?_⟩
    simp only [trimWindow]
    split at high <;> omega

end SimpleFs.Space

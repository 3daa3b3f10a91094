import KernelNotes.Lib.Rearrange

/-!
# The two quicksorts of the algorithm notes

A vector is its elements by index. Every read and write goes through a window,
the range the outermost call was given, and fails outside of it; running out of
fuel fails as well. Indexes stay between one before and one after the range, so
for a vector shorter than `2 ^ 31` they are values of `int`, and the comparison
of an `int` with the `size_t` end of the whole vector is the one of integers.
-/

namespace Wheels.QSort

open Rearrange

abbrev Nums := Int → Int

section Code

variable (lo hi : Int)

def read (nums : Nums) (k : Int) : Option Int :=
  if lo ≤ k ∧ k ≤ hi then some (nums k) else none

def swap (nums : Nums) (i j : Int) : Option Nums :=
  if (lo ≤ i ∧ i ≤ hi) ∧ (lo ≤ j ∧ j ≤ hi) then some (nums ∘ Equiv.swap i j) else none

/-- `while (i <= j && nums[i] <= m) i++;` -/
def scanUp (nums : Nums) (m j : Int) : Nat → Int → Option Int
  | 0, _ => none
  | fuel + 1, i =>
    if i ≤ j then do
      let x ← read lo hi nums i
      if x ≤ m then scanUp nums m j fuel (i + 1) else some i
    else some i

/-- `while (i <= j && nums[j] > m) j--;` -/
def scanDown (nums : Nums) (m i : Int) : Nat → Int → Option Int
  | 0, _ => none
  | fuel + 1, j =>
    if i ≤ j then do
      let x ← read lo hi nums j
      if m < x then scanDown nums m i fuel (j - 1) else some j
    else some j

def parttionLoop (m : Int) : Nat → Nums → Int → Int → Option (Nums × Int)
  | 0, _, _, _ => none
  | fuel + 1, nums, i, j => do
    let i ← scanUp lo hi nums m j (fuel + 1) i
    let j ← scanDown lo hi nums m i (fuel + 1) j
    if j ≤ i then some (nums, i)
    else do
      let nums ← swap lo hi nums i j
      parttionLoop m fuel nums i j

def parttion (fuel : Nat) (nums : Nums) (first last : Int) : Option (Nums × Int) := do
  let m ← read lo hi nums last
  let (nums, i) ← parttionLoop lo hi m fuel nums first (last - 1)
  let nums ← swap lo hi nums i last
  some (nums, i)

def qsort : Nat → Nums → Int → Int → Option Nums
  | 0, _, _, _ => none
  | fuel + 1, nums, first, last =>
    if last ≤ first then some nums
    else do
      let (nums, p) ← parttion lo hi fuel nums first last
      let nums ← qsort fuel nums first (p - 1)
      qsort fuel nums (p + 1) last

/-- `do { ++i; } while (nums[i] < pivot);` -/
def seekUp (nums : Nums) (pivot : Int) : Nat → Int → Option Int
  | 0, _ => none
  | fuel + 1, i => do
    let x ← read lo hi nums (i + 1)
    if x < pivot then seekUp nums pivot fuel (i + 1) else some (i + 1)

/-- `do { --j; } while (nums[j] > pivot);` -/
def seekDown (nums : Nums) (pivot : Int) : Nat → Int → Option Int
  | 0, _ => none
  | fuel + 1, j => do
    let x ← read lo hi nums (j - 1)
    if pivot < x then seekDown nums pivot fuel (j - 1) else some (j - 1)

def hoareLoop (pivot : Int) : Nat → Nums → Int → Int → Option (Nums × Int)
  | 0, _, _, _ => none
  | fuel + 1, nums, i, j => do
    let i ← seekUp lo hi nums pivot (fuel + 1) i
    let j ← seekDown lo hi nums pivot (fuel + 1) j
    if j ≤ i then some (nums, j)
    else do
      let nums ← swap lo hi nums i j
      hoareLoop pivot fuel nums i j

def hoarePartition (fuel : Nat) (nums : Nums) (first last : Int) : Option (Nums × Int) := do
  let pivot ← read lo hi nums (first + (last - first) / 2)
  hoareLoop lo hi pivot fuel nums (first - 1) (last + 1)

def qsortHoare : Nat → Nums → Int → Int → Option Nums
  | 0, _, _, _ => none
  | fuel + 1, nums, first, last =>
    if last ≤ first then some nums
    else do
      let (nums, p) ← hoarePartition lo hi fuel nums first last
      let nums ← qsortHoare fuel nums first p
      qsortHoare fuel nums (p + 1) last

end Code

variable {lo hi first last : Int} {nums nums' : Nums}

theorem read_eq {k : Int} (low : lo ≤ k) (high : k ≤ hi) : read lo hi nums k = some (nums k) :=
  if_pos ⟨low, high⟩

variable {i j : Int} {fuel : Nat}

theorem swap_eq (inI : lo ≤ i ∧ i ≤ hi) (inJ : lo ≤ j ∧ j ≤ hi) :
    swap lo hi nums i j = some (nums ∘ Equiv.swap i j) :=
  if_pos ⟨inI, inJ⟩

@[simp] theorem swapped_left (i j : Int) : (nums ∘ Equiv.swap i j) i = nums j :=
  congrArg nums (Equiv.swap_apply_left i j)

@[simp] theorem swapped_right (i j : Int) : (nums ∘ Equiv.swap i j) j = nums i :=
  congrArg nums (Equiv.swap_apply_right i j)

theorem swapped_other {k : Int} (left : k ≠ i) (right : k ≠ j) :
    (nums ∘ Equiv.swap i j) k = nums k :=
  congrArg nums (Equiv.swap_apply_of_ne_of_ne left right)

/-! ## The guarded scans -/

theorem scanUp_spec (nums : Nums) (m : Int) (high : j ≤ hi) (low : lo ≤ i) (order : i ≤ j + 1)
    (enough : (j + 1 - i).toNat < fuel) :
    ∃ i', scanUp lo hi nums m j fuel i = some i' ∧ i ≤ i' ∧ i' ≤ j + 1 ∧
      (∀ k, i ≤ k → k < i' → nums k ≤ m) ∧ (i' ≤ j → m < nums i') := by
  induction fuel generalizing i with
  | zero => omega
  | succ fuel ih =>
    rw [scanUp]
    by_cases more : i ≤ j
    · rw [if_pos more, read_eq low (by omega), Option.bind_eq_bind, Option.bind_some]
      by_cases small : nums i ≤ m
      · rw [if_pos small]
        obtain ⟨i', run, up, bound, passed, stop⟩ :=
          @ih (i + 1) (by omega) (by omega) (by omega)
        refine ⟨i', run, by omega, bound, fun k ge lt => ?_, stop⟩
        by_cases here : k = i
        · exact here ▸ small
        · exact passed k (by omega) lt
      · rw [if_neg small]
        exact ⟨i, rfl, le_rfl, order, fun k ge lt => by omega, fun _ => not_le.mp small⟩
    · rw [if_neg more]
      exact ⟨i, rfl, le_rfl, order, fun k ge lt => by omega, fun _ => by omega⟩

theorem scanDown_spec (nums : Nums) (m : Int) (low : lo ≤ i) (high : j ≤ hi) (order : i ≤ j + 1)
    (enough : (j + 1 - i).toNat < fuel) :
    ∃ j', scanDown lo hi nums m i fuel j = some j' ∧ j' ≤ j ∧ i ≤ j' + 1 ∧
      (∀ k, j' < k → k ≤ j → m < nums k) ∧ (i ≤ j' → nums j' ≤ m) := by
  induction fuel generalizing j with
  | zero => omega
  | succ fuel ih =>
    rw [scanDown]
    by_cases more : i ≤ j
    · rw [if_pos more, read_eq (by omega) high, Option.bind_eq_bind, Option.bind_some]
      by_cases large : m < nums j
      · rw [if_pos large]
        obtain ⟨j', run, down, bound, passed, stop⟩ :=
          @ih (j - 1) (by omega) (by omega) (by omega)
        refine ⟨j', run, by omega, bound, fun k ge lt => ?_, stop⟩
        by_cases here : k = j
        · exact here ▸ large
        · exact passed k ge (by omega)
      · rw [if_neg large]
        exact ⟨j, rfl, le_rfl, order, fun k ge lt => by omega, fun _ => not_lt.mp large⟩
    · rw [if_neg more]
      exact ⟨j, rfl, le_rfl, order, fun k ge lt => by omega, fun _ => by omega⟩

/-- The state of the loop of `parttion`: what is left of `i` and right of `j` is placed. -/
structure Placing (lo hi first last m : Int) (nums : Nums) (i j : Int) : Prop where
  low : lo ≤ first
  high : last ≤ hi
  left : first ≤ i
  right : j < last
  order : i ≤ j + 1
  small : ∀ k, first ≤ k → k < i → nums k ≤ m
  large : ∀ k, j < k → k < last → m < nums k

theorem parttionLoop_spec {m : Int} {fuel : Nat} {i j : Int}
    (placing : Placing lo hi first last m nums i j) (enough : (j + 1 - i).toNat < fuel)
    (moves : nums i ≤ m ∨ (j + 1 - i).toNat + 1 < fuel) :
    ∃ nums' p, parttionLoop lo hi m fuel nums i j = some (nums', p) ∧
      Rearranged first (last - 1) nums nums' ∧ first ≤ p ∧ p ≤ last ∧
      (∀ k, first ≤ k → k < p → nums' k ≤ m) ∧ (∀ k, p ≤ k → k < last → m < nums' k) := by
  -- A swap leaves `i` and `j` where they are, so the first of the two measures may stay; the
  -- element now at `i` is small, and the next scan moves on.
  induction fuel generalizing nums i j with
  | zero => omega
  | succ fuel ih =>
    obtain ⟨low, high, left, right, order, small, large⟩ := placing
    obtain ⟨i', up, more, bound, passed, stop⟩ :=
      scanUp_spec nums m (show j ≤ hi by omega) (show lo ≤ i by omega) order enough
    obtain ⟨j', down, less, bound', passed', stop'⟩ :=
      scanDown_spec nums m (show lo ≤ i' by omega) (show j ≤ hi by omega) bound
        (show (j + 1 - i').toNat < fuel + 1 by omega)
    have smaller : ∀ k, first ≤ k → k < i' → nums k ≤ m := fun k ge lt => by
      by_cases before : k < i
      · exact small k ge before
      · exact passed k (by omega) lt
    have larger : ∀ k, j' < k → k < last → m < nums k := fun k ge lt => by
      by_cases behind : j < k
      · exact large k behind lt
      · exact passed' k ge (by omega)
    rw [parttionLoop, up, Option.bind_eq_bind, Option.bind_some, down,
      Option.bind_eq_bind, Option.bind_some]
    by_cases crossed : j' ≤ i'
    · rw [if_pos crossed]
      -- The scans cannot stop at one index, whose element would be small and large.
      have apart : j' < i' := by
        by_contra together
        have := stop (by omega)
        have := stop' (by omega)
        have same : i' = j' := by omega
        subst same
        omega
      exact ⟨nums, i', rfl, .refl nums, by omega, by omega, smaller,
        fun k ge lt => larger k (by omega) lt⟩
    · rw [if_neg crossed, swap_eq (by omega) (by omega), Option.bind_some]
      have stopI := stop (by omega)
      have stopJ := stop' (by omega)
      have moved : i' ≠ i ∨ m < nums i := by
        by_cases still : i' = i
        · exact .inr (still ▸ stopI)
        · exact .inl still
      obtain ⟨nums', p, run, rearranged, post⟩ :=
        @ih (nums ∘ Equiv.swap i' j') i' j'
          ⟨low, high, by omega, by omega, by omega,
            fun k ge lt => by
              rw [swapped_other (by omega) (by omega)]; exact smaller k ge lt,
            fun k ge lt => by
              rw [swapped_other (by omega) (by omega)]; exact larger k ge lt⟩
          (by omega) (.inl (by rw [swapped_left]; exact stopJ))
      exact ⟨nums', p, run, .trans (.swap (by omega) (by omega) nums) rearranged, post⟩

theorem parttion_spec {fuel : Nat} (low : lo ≤ first) (high : last ≤ hi) (order : first < last)
    (enough : (last - first).toNat + 1 < fuel) :
    ∃ nums' p, parttion lo hi fuel nums first last = some (nums', p) ∧
      Rearranged first last nums nums' ∧ first ≤ p ∧ p ≤ last ∧
      (∀ k, first ≤ k → k ≤ p - 1 → nums' k ≤ nums' p) ∧
      (∀ k, p + 1 ≤ k → k ≤ last → nums' p ≤ nums' k) := by
  obtain ⟨between, p, run, rearranged, left, right, small, large⟩ :=
    @parttionLoop_spec lo hi first last nums (nums last) fuel first (last - 1)
      ⟨low, high, le_rfl, by omega, by omega, fun k _ _ => by omega, fun k _ _ => by omega⟩
      (by omega) (.inr (by omega))
  have pivot : between last = nums last := rearranged.outside (by omega)
  refine ⟨between ∘ Equiv.swap p last, p, ?_,
    (rearranged.widen le_rfl (by omega)).trans (.swap (by omega) (by omega) between), left, right,
    fun k ge lt => ?_, fun k ge lt => ?_⟩
  · rw [parttion, read_eq (by omega) high, Option.bind_eq_bind, Option.bind_some, run,
      Option.bind_eq_bind, Option.bind_some]
    dsimp only
    rw [swap_eq (by omega) (by omega), Option.bind_eq_bind, Option.bind_some]
  · rw [swapped_left, pivot, swapped_other (by omega) (by omega)]
    exact small k ge (by omega)
  · rw [swapped_left, pivot]
    by_cases at_ : k = last
    · rw [at_, swapped_right]
      exact (large p le_rfl (by omega)).le
    · rw [swapped_other (by omega) at_]
      exact (large k (by omega) (by omega)).le

/-! ## The unguarded scans -/

theorem seekUp_spec (nums : Nums) {pivot s : Int} (high : s ≤ hi) (sentinel : pivot ≤ nums s)
    (low : lo ≤ i + 1) (ahead : i < s) (enough : (s - i).toNat ≤ fuel) :
    ∃ i', seekUp lo hi nums pivot fuel i = some i' ∧ i < i' ∧ i' ≤ s ∧
      (∀ k, i < k → k < i' → nums k ≤ pivot) ∧ pivot ≤ nums i' := by
  induction fuel generalizing i with
  | zero => omega
  | succ fuel ih =>
    rw [seekUp, read_eq low (by omega), Option.bind_eq_bind, Option.bind_some]
    by_cases small : nums (i + 1) < pivot
    · rw [if_pos small]
      have further : i + 1 ≠ s := fun same => by subst same; omega
      obtain ⟨i', run, up, bound, passed, stop⟩ :=
        @ih (i + 1) (by omega) (by omega) (by omega)
      refine ⟨i', run, by omega, bound, fun k ge lt => ?_, stop⟩
      by_cases here : k = i + 1
      · exact here ▸ small.le
      · exact passed k (by omega) lt
    · rw [if_neg small]
      exact ⟨i + 1, rfl, by omega, by omega, fun k ge lt => by omega, not_lt.mp small⟩

theorem seekDown_spec (nums : Nums) {pivot s : Int} (low : lo ≤ s) (sentinel : nums s ≤ pivot)
    (high : j - 1 ≤ hi) (ahead : s < j) (enough : (j - s).toNat ≤ fuel) :
    ∃ j', seekDown lo hi nums pivot fuel j = some j' ∧ j' < j ∧ s ≤ j' ∧
      (∀ k, j' < k → k < j → pivot ≤ nums k) ∧ nums j' ≤ pivot := by
  induction fuel generalizing j with
  | zero => omega
  | succ fuel ih =>
    rw [seekDown, read_eq (by omega) high, Option.bind_eq_bind, Option.bind_some]
    by_cases large : pivot < nums (j - 1)
    · rw [if_pos large]
      have further : j - 1 ≠ s := fun same => by subst same; omega
      obtain ⟨j', run, down, bound, passed, stop⟩ :=
        @ih (j - 1) (by omega) (by omega) (by omega)
      refine ⟨j', run, by omega, bound, fun k ge lt => ?_, stop⟩
      by_cases here : k = j - 1
      · exact here ▸ large.le
      · exact passed k ge (by omega)
    · rw [if_neg large]
      exact ⟨j - 1, rfl, by omega, by omega, fun k ge lt => by omega, not_lt.mp large⟩

/-- The state of the loop of `hoare_partition`. Each scan has a sentinel ahead; before the first
swap both sentinels are the pivot itself, which lies before the end of the range. -/
structure Closing (lo hi first last pivot : Int) (nums : Nums) (i j : Int) : Prop where
  low : lo ≤ first
  high : last ≤ hi
  left : first ≤ i + 1
  right : j ≤ last + 1
  small : ∀ k, first ≤ k → k ≤ i → nums k ≤ pivot
  large : ∀ k, j ≤ k → k ≤ last → pivot ≤ nums k
  stops : ∃ s, i < s ∧ s ≤ j ∧ s ≤ last ∧ pivot ≤ nums s ∧ (j ≤ last ∨ s < last)
  stops' : ∃ s, i ≤ s ∧ s < j ∧ first ≤ s ∧ nums s ≤ pivot

theorem hoareLoop_spec {pivot : Int} {fuel : Nat} {i j : Int}
    (closing : Closing lo hi first last pivot nums i j) (enough : (j - i).toNat ≤ fuel) :
    ∃ nums' p, hoareLoop lo hi pivot fuel nums i j = some (nums', p) ∧
      Rearranged first last nums nums' ∧ first ≤ p ∧ p < last ∧
      (∀ k, first ≤ k → k ≤ p → nums' k ≤ pivot) ∧
      (∀ k, p + 1 ≤ k → k ≤ last → pivot ≤ nums' k) := by
  induction fuel generalizing nums i j with
  | zero =>
    obtain ⟨s, _, _, _⟩ := closing.stops
    omega
  | succ fuel ih =>
    obtain ⟨low, high, left, right, small, large, ⟨s, ahead, atMost, inside, sentinel, early⟩,
      ⟨s', atLeast, ahead', inside', sentinel'⟩⟩ := closing
    obtain ⟨i', up, more, bound, passed, stop⟩ :=
      seekUp_spec nums (show s ≤ hi by omega) sentinel (show lo ≤ i + 1 by omega) ahead
        (show (s - i).toNat ≤ fuel + 1 by omega)
    obtain ⟨j', down, less, bound', passed', stop'⟩ :=
      seekDown_spec nums (show lo ≤ s' by omega) sentinel' (show j - 1 ≤ hi by omega) ahead'
        (show (j - s').toNat ≤ fuel + 1 by omega)
    have smaller : ∀ k, first ≤ k → k < i' → nums k ≤ pivot := fun k ge lt => by
      by_cases before : k ≤ i
      · exact small k ge before
      · exact passed k (by omega) lt
    have larger : ∀ k, j' < k → k ≤ last → pivot ≤ nums k := fun k ge lt => by
      by_cases behind : j ≤ k
      · exact large k behind lt
      · exact passed' k ge (by omega)
    rw [hoareLoop, up, Option.bind_eq_bind, Option.bind_some, down,
      Option.bind_eq_bind, Option.bind_some]
    by_cases crossed : j' ≤ i'
    · rw [if_pos crossed]
      refine ⟨nums, j', rfl, .refl nums, by omega, by omega, fun k ge lt => ?_,
        fun k ge lt => larger k (by omega) lt⟩
      by_cases here : k = j'
      · exact here ▸ stop'
      · exact smaller k ge (by omega)
    · rw [if_neg crossed, swap_eq (by omega) (by omega), Option.bind_some]
      obtain ⟨nums', p, run, rearranged, post⟩ :=
        @ih (nums ∘ Equiv.swap i' j') i' j'
          ⟨low, high, by omega, by omega,
            fun k ge lt => by
              by_cases here : k = i'
              · rw [here, swapped_left]; exact stop'
              · rw [swapped_other here (by omega)]; exact smaller k ge (by omega),
            fun k ge lt => by
              by_cases here : k = j'
              · rw [here, swapped_right]; exact stop
              · rw [swapped_other (by omega) here]; exact larger k (by omega) lt,
            ⟨j', by omega, le_rfl, by omega, by rw [swapped_right]; exact stop, .inl (by omega)⟩,
            ⟨i', le_rfl, by omega, by omega, by rw [swapped_left]; exact stop'⟩⟩
          (by omega)
      exact ⟨nums', p, run, .trans (.swap (by omega) (by omega) nums) rearranged, post⟩

theorem hoarePartition_spec {fuel : Nat} (low : lo ≤ first) (high : last ≤ hi)
    (order : first < last) (enough : (last - first).toNat + 2 ≤ fuel) :
    ∃ nums' p pivot, hoarePartition lo hi fuel nums first last = some (nums', p) ∧
      Rearranged first last nums nums' ∧ first ≤ p ∧ p < last ∧
      (∀ k, first ≤ k → k ≤ p → nums' k ≤ pivot) ∧
      (∀ k, p + 1 ≤ k → k ≤ last → pivot ≤ nums' k) := by
  have middle : first ≤ first + (last - first) / 2 ∧ first + (last - first) / 2 < last := by omega
  obtain ⟨nums', p, run, post⟩ :=
    @hoareLoop_spec lo hi first last nums (nums (first + (last - first) / 2)) fuel (first - 1)
      (last + 1)
      ⟨low, high, by omega, le_rfl, fun k _ _ => by omega, fun k _ _ => by omega,
        ⟨first + (last - first) / 2, by omega, by omega, by omega, le_rfl, .inr middle.2⟩,
        ⟨first + (last - first) / 2, by omega, by omega, middle.1, le_rfl⟩⟩ (by omega)
  refine ⟨nums', p, _, ?_, post⟩
  rw [hoarePartition, read_eq (by omega) (by omega), Option.bind_eq_bind, Option.bind_some]
  exact run

/-! ## The recursions -/

theorem qsort_spec {fuel : Nat} (low : lo ≤ first ∨ last ≤ first) (high : last ≤ hi ∨ last ≤ first)
    (enough : (last - first).toNat + 3 ≤ fuel) :
    ∃ nums', qsort lo hi fuel nums first last = some nums' ∧
      Rearranged first last nums nums' ∧ SortedOn first last nums' := by
  induction fuel generalizing nums first last with
  | zero => omega
  | succ fuel ih =>
    rw [qsort]
    by_cases done : last ≤ first
    · rw [if_pos done]
      refine ⟨nums, rfl, .refl nums, fun i j _ _ _ => ?_⟩
      have same : i = j := by omega
      rw [same]
    · obtain ⟨parted, p, run, rearranged, left, right, small, large⟩ :=
        @parttion_spec lo hi first last nums fuel (by omega) (by omega) (by omega) (by omega)
      obtain ⟨half, runL, rearrangedL, sortedL⟩ :=
        @ih first (p - 1) parted (by omega) (by omega) (by omega)
      obtain ⟨whole, runR, rearrangedR, sortedR⟩ :=
        @ih (p + 1) last half (by omega) (by omega) (by omega)
      refine ⟨whole, ?_, rearranged.sorted_halves rearrangedL rearrangedR sortedL sortedR
        (by omega) (by omega) (by omega) small large fun k gt lt => ?_⟩
      · rw [if_neg done, run, Option.bind_eq_bind, Option.bind_some]
        dsimp only
        rw [runL, Option.bind_eq_bind, Option.bind_some, runR]
      · have same : k = p := by omega
        rw [same]

theorem qsortHoare_spec {fuel : Nat} (low : lo ≤ first ∨ last ≤ first)
    (high : last ≤ hi ∨ last ≤ first) (enough : (last - first).toNat + 3 ≤ fuel) :
    ∃ nums', qsortHoare lo hi fuel nums first last = some nums' ∧
      Rearranged first last nums nums' ∧ SortedOn first last nums' := by
  induction fuel generalizing nums first last with
  | zero => omega
  | succ fuel ih =>
    rw [qsortHoare]
    by_cases done : last ≤ first
    · rw [if_pos done]
      refine ⟨nums, rfl, .refl nums, fun i j _ _ _ => ?_⟩
      have same : i = j := by omega
      rw [same]
    · obtain ⟨parted, p, pivot, run, rearranged, left, right, small, large⟩ :=
        @hoarePartition_spec lo hi first last nums fuel (by omega) (by omega) (by omega) (by omega)
      obtain ⟨half, runL, rearrangedL, sortedL⟩ :=
        @ih first p parted (by omega) (by omega) (by omega)
      obtain ⟨whole, runR, rearrangedR, sortedR⟩ :=
        @ih (p + 1) last half (by omega) (by omega) (by omega)
      refine ⟨whole, ?_, rearranged.sorted_halves rearrangedL rearrangedR sortedL sortedR
        (by omega) (by omega) (by omega) small large fun k gt lt => by omega⟩
      rw [if_neg done, run, Option.bind_eq_bind, Option.bind_some]
      dsimp only
      rw [runL, Option.bind_eq_bind, Option.bind_some, runR]

/-- With the range itself as the window both sorts return, with the same vector: the range is
sorted and holds what it held, and nothing else has changed. -/
theorem qsorts_sort (nums : Nums) (first last : Int) :
    ∃ sorted : Nums,
      (∃ n, ∀ fuel, n ≤ fuel → qsort first last fuel nums first last = some sorted ∧
        qsortHoare first last fuel nums first last = some sorted) ∧
      (∀ k, k < first ∨ last < k → sorted k = nums k) ∧
      (slice first last sorted).Perm (slice first last nums) ∧
      (slice first last sorted).Pairwise (· ≤ ·) := by
  have runs : ∀ fuel, (last - first).toNat + 3 ≤ fuel → _ := fun fuel enough =>
    @qsort_spec first last first last nums fuel (.inl le_rfl) (.inl le_rfl) enough
  have runs' : ∀ fuel, (last - first).toNat + 3 ≤ fuel → _ := fun fuel enough =>
    @qsortHoare_spec first last first last nums fuel (.inl le_rfl) (.inl le_rfl) enough
  obtain ⟨sorted, -, rearranged, inOrder⟩ := runs _ le_rfl
  refine ⟨sorted, ⟨(last - first).toNat + 3, fun fuel enough => ?_⟩,
    fun k out => rearranged.outside out, rearranged.slice_perm, inOrder.slice_sorted⟩
  obtain ⟨one, run, rearranged', inOrder'⟩ := runs fuel enough
  obtain ⟨two, run', rearranged'', inOrder''⟩ := runs' fuel enough
  rw [run, run', rearranged'.sorted_unique rearranged inOrder' inOrder,
    rearranged''.sorted_unique rearranged inOrder'' inOrder]
  exact ⟨rfl, rfl⟩

end Wheels.QSort

import Mathlib

/-!
# Bit maps over the natural numbers

A bit map is a function `Nat → Bool`, read below a size the caller keeps. The
operations are the ones a kernel bitmap offers: set or clear a range, and find
the next bit with a given value. `firstRun` is a first-fit search for a run of
set bits, written as the single pass that remembers the previous set bit.
-/

namespace Bits

/-- The map of one bit per natural number. -/
abbrev BitMap := Nat → Bool

/-- `i` lies in the `len` numbers from `first` on. -/
def Within (first len i : Nat) : Prop := first ≤ i ∧ i < first + len

instance (first len i : Nat) : Decidable (Within first len i) :=
  inferInstanceAs (Decidable (_ ∧ _))

def assignRange (value : Bool) (bits : BitMap) (first len : Nat) : BitMap :=
  fun i => if Within first len i then value else bits i

def setRange (bits : BitMap) (first len : Nat) : BitMap := assignRange true bits first len

def clearRange (bits : BitMap) (first len : Nat) : BitMap := assignRange false bits first len

variable {first i len size start bit prev count : Nat} {bits : BitMap}

theorem within_one : Within first 1 i ↔ i = first := by
  rw [Within]
  omega

theorem setRange_eq_true (bits : BitMap) (first len i : Nat) :
    setRange bits first len i = true ↔ Within first len i ∨ bits i = true := by
  by_cases inside : Within first len i <;> simp [setRange, assignRange, inside]

theorem clearRange_eq_true (bits : BitMap) (first len i : Nat) :
    clearRange bits first len i = true ↔ ¬ Within first len i ∧ bits i = true := by
  by_cases inside : Within first len i <;> simp [clearRange, assignRange, inside]

theorem setRange_of_outside (bits : BitMap) (outside : ¬ Within first len i) :
    setRange bits first len i = bits i := by
  simp [setRange, assignRange, outside]

theorem clearRange_of_outside (bits : BitMap) (outside : ¬ Within first len i) :
    clearRange bits first len i = bits i := by
  simp [clearRange, assignRange, outside]

/-- Setting again what was cleared from a set range gives the map back. -/
theorem setRange_clearRange (bits : BitMap) (first len : Nat)
    (full : ∀ i, Within first len i → bits i = true) :
    setRange (clearRange bits first len) first len = bits := by
  funext i
  by_cases inside : Within first len i
  · simp [setRange, assignRange, inside, full i inside]
  · rw [setRange_of_outside _ inside, clearRange_of_outside _ inside]

/-- Every bit of the range is set. -/
def allSet (bits : BitMap) (first len : Nat) : Bool :=
  (List.range len).all fun i => bits (first + i)

/-- Some bit of the range is set. -/
def anySet (bits : BitMap) (first len : Nat) : Bool :=
  (List.range len).any fun i => bits (first + i)

theorem allSet_iff (bits : BitMap) (first len : Nat) :
    allSet bits first len = true ↔ ∀ i, Within first len i → bits i = true := by
  rw [allSet, List.all_eq_true]
  constructor
  · intro all i inside
    have found := all (i - first) (List.mem_range.2 (by have := inside.1; have := inside.2; omega))
    rwa [Nat.add_sub_cancel' inside.1] at found
  · intro all i listed
    exact all (first + i) ⟨by omega, by have := List.mem_range.1 listed; omega⟩

theorem anySet_eq_false_iff (bits : BitMap) (first len : Nat) :
    anySet bits first len = false ↔ ∀ i, Within first len i → bits i = false := by
  rw [anySet, List.any_eq_false]
  constructor
  · intro none i inside
    have found := none (i - first)
      (List.mem_range.2 (by have := inside.1; have := inside.2; omega))
    rw [Nat.add_sub_cancel' inside.1] at found
    simpa using found
  · intro none i listed
    simp [none (first + i) ⟨by omega, by have := List.mem_range.1 listed; omega⟩]

/-! ## Searching -/

/-- Walk up from `i` for at most `fuel` bits and stop at the first that has the value. -/
def seek (bits : BitMap) (value : Bool) : Nat → Nat → Nat
  | 0, i => i
  | fuel + 1, i => if bits i = value then i else seek bits value fuel (i + 1)

/-- The first bit with the value in `[start, size)`, or `size` when there is none. -/
def findNext (bits : BitMap) (value : Bool) (size start : Nat) : Nat :=
  if size ≤ start then size else seek bits value (size - start) start

theorem seek_spec (bits : BitMap) (value : Bool) (fuel i : Nat) :
    i ≤ seek bits value fuel i ∧ seek bits value fuel i ≤ i + fuel ∧
      (∀ j, i ≤ j → j < seek bits value fuel i → bits j ≠ value) ∧
      (seek bits value fuel i < i + fuel → bits (seek bits value fuel i) = value) := by
  induction fuel generalizing i with
  | zero =>
    refine ⟨le_rfl, le_rfl, fun j low high => ?_, fun less => ?_⟩
    · have : j < i := high
      omega
    · exact absurd less (by simp [seek])
  | succ fuel ih =>
    by_cases here : bits i = value
    · have stop : seek bits value (fuel + 1) i = i := by simp [seek, here]
      rw [stop]
      exact ⟨le_rfl, by omega, fun j low high => by omega, fun _ => here⟩
    · have next : seek bits value (fuel + 1) i = seek bits value fuel (i + 1) := by
        simp [seek, here]
      obtain ⟨low, high, before, found⟩ := ih (i + 1)
      rw [next]
      refine ⟨by omega, by omega, fun j first last => ?_, fun less => found (by omega)⟩
      by_cases same : j = i
      · exact same ▸ here
      · exact before j (by omega) last

theorem findNext_le (bits : BitMap) (value : Bool) (size start : Nat) :
    findNext bits value size start ≤ size := by
  rw [findNext]
  split
  · exact le_rfl
  · have := (seek_spec bits value (size - start) start).2.1
    omega

theorem le_findNext (bits : BitMap) (value : Bool) (inside : start ≤ size) :
    start ≤ findNext bits value size start := by
  rw [findNext]
  split
  · exact inside
  · exact (seek_spec bits value (size - start) start).1

/-- The bits passed over do not have the value. -/
theorem ne_of_lt_findNext (bits : BitMap) (value : Bool) {j : Nat} (low : start ≤ j)
    (high : j < findNext bits value size start) : bits j ≠ value := by
  have bound := findNext_le bits value size start
  have open_ : ¬ size ≤ start := by omega
  rw [findNext, if_neg open_] at high
  exact (seek_spec bits value (size - start) start).2.2.1 j low high

theorem findNext_eq (bits : BitMap) (value : Bool) (found : findNext bits value size start < size) :
    bits (findNext bits value size start) = value := by
  rw [findNext] at found ⊢
  split at found
  · omega
  · rename_i open_
    rw [if_neg open_]
    exact (seek_spec bits value (size - start) start).2.2.2 (by omega)

/-- One pass over `[bit, bit + fuel)`. `prev` is the last set bit seen and `count` the
length of the run that ends there. -/
def runFrom (bits : BitMap) (len : Nat) : (fuel bit prev count : Nat) → Option Nat
  | 0, _, _, _ => none
  | fuel + 1, bit, prev, count =>
    if bits bit then
      let count := (if prev + 1 = bit then count else 0) + 1
      if count = len then some (bit + 1 - len)
      else runFrom bits len fuel (bit + 1) bit count
    else runFrom bits len fuel (bit + 1) prev count

/-- First fit: the start of the first run of `len` set bits in `[start, size)`. -/
def firstRun (bits : BitMap) (size len start : Nat) : Option Nat :=
  runFrom bits len (size - start) start 0 0

/-- What the pass knows: the `count` bits that end at `prev` are set and start late enough. -/
def Run (bits : BitMap) (start bit prev count : Nat) : Prop :=
  count = 0 ∨ (start + count ≤ prev + 1 ∧ prev < bit ∧
    ∀ i, prev + 1 - count ≤ i → i ≤ prev → bits i = true)

theorem Run.extend (run : Run bits start bit prev count) (late : start ≤ bit)
    (here : bits bit = true) :
    Run bits start (bit + 1) bit ((if prev + 1 = bit then count else 0) + 1) := by
  right
  have single : ∀ i, bit + 1 - 1 ≤ i → i ≤ bit → bits i = true := by
    intro i low high
    obtain rfl : i = bit := by omega
    exact here
  by_cases joined : prev + 1 = bit
  · rw [if_pos joined]
    rcases run with rfl | ⟨fits, _, set⟩
    · exact ⟨by omega, by omega, single⟩
    · refine ⟨by omega, by omega, fun i low high => ?_⟩
      by_cases last : i = bit
      · exact last ▸ here
      · exact set i (by omega) (by omega)
  · rw [if_neg joined]
    exact ⟨by omega, by omega, single⟩

theorem runFrom_sound (bits : BitMap) (len start : Nat) {fuel : Nat}
    (run : Run bits start bit prev count) (late : start ≤ bit)
    (found : runFrom bits len fuel bit prev count = some first) :
    start ≤ first ∧ first + len ≤ bit + fuel ∧ 0 < len ∧
      ∀ i, Within first len i → bits i = true := by
  induction fuel generalizing bit prev count with
  | zero => simp [runFrom] at found
  | succ fuel ih =>
    by_cases here : bits bit = true
    · have longer := run.extend late here
      simp only [runFrom, here, if_true] at found
      have positive : 0 < (if prev + 1 = bit then count else 0) + 1 := Nat.succ_pos _
      generalize (if prev + 1 = bit then count else 0) + 1 = count' at longer found positive
      by_cases full : count' = len
      · rw [if_pos full, Option.some.injEq] at found
        subst full found
        rcases longer with none | ⟨fits, _, set⟩
        · omega
        · refine ⟨by omega, by omega, by omega, fun i inside => ?_⟩
          exact set i (by have := inside.1; omega) (by have := inside.2; omega)
      · rw [if_neg full] at found
        obtain ⟨low, high, rest⟩ := ih longer (by omega) found
        exact ⟨low, by omega, rest⟩
    · simp only [runFrom, here, Bool.false_eq_true, if_false] at found
      have kept : Run bits start (bit + 1) prev count := by
        rcases run with none | ⟨fits, before, set⟩
        · exact Or.inl none
        · exact Or.inr ⟨fits, by omega, set⟩
      obtain ⟨low, high, rest⟩ := ih kept (by omega) found
      exact ⟨low, by omega, rest⟩

/-- First fit returns a run of set bits inside the searched window. -/
theorem firstRun_sound (bits : BitMap) (found : firstRun bits size len start = some first) :
    start ≤ first ∧ first + len ≤ size ∧ 0 < len ∧ ∀ i, Within first len i → bits i = true := by
  have spec := runFrom_sound bits len start (Or.inl rfl) le_rfl found
  have nonempty : start < size := by
    by_contra closed
    have none : size - start = 0 := by omega
    rw [firstRun, none] at found
    simp [runFrom] at found
  obtain ⟨low, high, rest⟩ := spec
  exact ⟨low, by omega, rest⟩

/-- A pass misses no run: `count` is at least as long as any run of set bits that ends where the
pass stands. -/
theorem runFrom_complete (bits : BitMap) {fuel : Nat} (low : count < len)
    (longest : ∀ first, start ≤ first → first < bit → (∀ i, first ≤ i → i < bit → bits i = true) → prev + 1 = bit ∧ bit - first ≤ count)
    (missed : ∀ found, runFrom bits len fuel bit prev count = some found → first < found)
    (late : start ≤ first) (inside : first + len ≤ bit + fuel) (ahead : bit < first + len) :
    ∃ i, Within first len i ∧ bits i = false := by
  induction fuel generalizing bit prev count with
  | zero => omega
  | succ fuel ih =>
    by_cases here : bits bit = true
    · simp only [runFrom, here, if_true] at missed
      have extended : ∀ first, start ≤ first → first < bit + 1 →
          (∀ i, first ≤ i → i < bit + 1 → bits i = true) →
          bit + 1 - first ≤ (if prev + 1 = bit then count else 0) + 1 := by
        intro first' late' before set
        by_cases last : first' = bit
        · omega
        · obtain ⟨joined, short⟩ := longest first' late' (by omega) fun i lo hi => set i lo (by omega)
          rw [if_pos joined]
          omega
      have bound : (if prev + 1 = bit then count else 0) + 1 ≤ len := by
        split <;> omega
      generalize (if prev + 1 = bit then count else 0) + 1 = count' at missed extended bound
      by_cases full : count' = len
      · rw [if_pos full] at missed
        have := missed _ rfl
        omega
      rw [if_neg full] at missed
      by_cases last : bit + 1 < first + len
      · exact ih (by omega) (fun first' late' before set => ⟨rfl, extended first' late' before set⟩)
          missed (by omega) last
      · -- The pass stands at the last bit of the run, which would be complete.
        by_contra all
        have set : ∀ i, first ≤ i → i < bit + 1 → bits i = true := by
          intro i lo hi
          by_contra unset
          exact all ⟨i, ⟨lo, by omega⟩, by simpa using unset⟩
        have := extended first late (by omega) set
        omega
    · simp only [runFrom, here, Bool.false_eq_true, if_false] at missed
      by_cases covers : first ≤ bit
      · exact ⟨bit, ⟨covers, ahead⟩, by simpa using here⟩
      · refine ih low ?_ missed (by omega) (by omega)
        intro first' late' before set
        exact absurd (set bit (by omega) (by omega)) here

/-- First fit: no run of this length starts earlier, and nothing is returned only if there is
none. -/
theorem firstRun_complete (bits : BitMap) (positive : 0 < len)
    (missed : ∀ found, firstRun bits size len start = some found → first < found)
    (late : start ≤ first) (inside : first + len ≤ size) :
    ∃ i, Within first len i ∧ bits i = false := by
  refine runFrom_complete bits positive ?_ missed late (by omega) (by omega)
  intro first' late' before
  omega

/-! ## Counting -/

/-- The number of set bits below `size`. -/
def weight (bits : BitMap) (size : Nat) : Nat := (List.range size).countP bits

theorem weight_eq_card (bits : BitMap) (size : Nat) :
    weight bits size = ((Finset.range size).filter fun i => bits i = true).card := by
  rw [weight, List.countP_eq_length_filter]
  simp [Finset.card, Finset.filter, Finset.range, Multiset.range]

theorem weight_le (bits : BitMap) (size : Nat) : weight bits size ≤ size := by
  rw [weight]
  exact (List.countP_le_length).trans_eq (List.length_range)

/-- Setting a range of clear bits counts its length. -/
theorem weight_setRange (bits : BitMap) (inside : first + len ≤ size)
    (clear : ∀ i, Within first len i → bits i = false) :
    weight (setRange bits first len) size = weight bits size + len := by
  have split : (Finset.range size).filter (fun i => setRange bits first len i = true) =
      (Finset.range size).filter (fun i => bits i = true) ∪ Finset.Ico first (first + len) := by
    ext i
    simp only [Finset.mem_filter, Finset.mem_range, Finset.mem_union, Finset.mem_Ico,
      setRange_eq_true, Within]
    constructor
    · rintro ⟨low, within | set⟩
      · exact Or.inr within
      · exact Or.inl ⟨low, set⟩
    · rintro (⟨low, set⟩ | within)
      · exact ⟨low, Or.inr set⟩
      · exact ⟨by omega, Or.inl within⟩
  have apart : Disjoint ((Finset.range size).filter fun i => bits i = true)
      (Finset.Ico first (first + len)) := by
    rw [Finset.disjoint_left]
    intro i set within
    have unset := clear i (Finset.mem_Ico.1 within)
    rw [(Finset.mem_filter.1 set).2] at unset
    cases unset
  rw [weight_eq_card, weight_eq_card, split, Finset.card_union_of_disjoint apart, Nat.card_Ico]
  omega

/-- Clearing a range of set bits gives its length back. -/
theorem weight_clearRange (bits : BitMap) (inside : first + len ≤ size)
    (full : ∀ i, Within first len i → bits i = true) :
    weight (clearRange bits first len) size + len = weight bits size := by
  rw [← weight_setRange (clearRange bits first len) inside, setRange_clearRange bits first len full]
  intro i within
  simp [clearRange, assignRange, within]

theorem weight_congr {bits' : BitMap} (same : ∀ i, i < size → bits i = bits' i) :
    weight bits size = weight bits' size :=
  List.countP_congr fun i below => by rw [same i (List.mem_range.1 below)]

/-- A map whose set bits are one range. -/
theorem weight_of_range (inside : first + len ≤ size)
    (only : ∀ i, i < size → (bits i = true ↔ Within first len i)) : weight bits size = len := by
  have same : weight bits size = weight (setRange (fun _ => false) first len) size := by
    refine weight_congr fun i below => ?_
    rw [Bool.eq_iff_iff, only i below, setRange_eq_true]
    simp
  rw [same, weight_setRange _ inside fun _ _ => rfl]
  simp [weight]

end Bits

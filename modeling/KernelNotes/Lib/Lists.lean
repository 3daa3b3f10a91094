import Mathlib

/-!
# Arrays as lists

Exchange sort as two nested index loops run it, cutting an array into chunks of a
fixed size, and association lists whose keys do not repeat.
-/

namespace Lists

variable {α κ β : Type*}

section ExchangeSort

variable [LinearOrder κ] (key : α → κ)

/-- The inner loop: the element in hand is swapped with every smaller one it meets. -/
def sweep : α → List α → α × List α
  | x, [] => (x, [])
  | x, y :: ys =>
    if key y < key x then ((sweep y ys).1, x :: (sweep y ys).2)
    else ((sweep x ys).1, y :: (sweep x ys).2)

/-- The outer loop, one round per position. -/
def exchangeRounds : Nat → List α → List α
  | 0, xs => xs
  | _ + 1, [] => []
  | rounds + 1, x :: xs => (sweep key x xs).1 :: exchangeRounds rounds (sweep key x xs).2

def exchangeSort (xs : List α) : List α := exchangeRounds key xs.length xs

theorem sweep_perm (x : α) (xs : List α) :
    ((sweep key x xs).1 :: (sweep key x xs).2).Perm (x :: xs) := by
  induction xs generalizing x with
  | nil => exact .refl _
  | cons y ys ih =>
    rw [sweep]
    split
    · exact (List.Perm.swap _ _ _).trans ((ih y).cons x)
    · exact (List.Perm.swap _ _ _).trans (((ih x).cons y).trans (.swap _ _ _))

theorem sweep_length (x : α) (xs : List α) : (sweep key x xs).2.length = xs.length := by
  have total := (sweep_perm key x xs).length_eq
  simpa using total

theorem sweep_le_self (x : α) (xs : List α) : key (sweep key x xs).1 ≤ key x := by
  induction xs generalizing x with
  | nil => exact le_rfl
  | cons y ys ih =>
    rw [sweep]
    split
    · rename_i smaller
      exact (ih y).trans smaller.le
    · exact ih x

theorem sweep_le (x : α) (xs : List α) : ∀ z ∈ (sweep key x xs).2, key (sweep key x xs).1 ≤ key z := by
  induction xs generalizing x with
  | nil => simp [sweep]
  | cons y ys ih =>
    intro z mem
    rw [sweep] at mem ⊢
    split at mem <;> rename_i order
    · rw [if_pos order]
      rcases List.mem_cons.1 mem with rfl | mem
      · exact (sweep_le_self key y ys).trans order.le
      · exact ih y z mem
    · rw [if_neg order]
      rcases List.mem_cons.1 mem with rfl | mem
      · exact (sweep_le_self key x ys).trans (not_lt.1 order)
      · exact ih x z mem

theorem exchangeRounds_perm (rounds : Nat) (xs : List α) :
    (exchangeRounds key rounds xs).Perm xs := by
  induction rounds generalizing xs with
  | zero => exact .refl _
  | succ rounds ih =>
    cases xs with
    | nil => exact .refl _
    | cons x xs => exact ((ih _).cons _).trans (sweep_perm key x xs)

theorem exchangeSort_perm (xs : List α) : (exchangeSort key xs).Perm xs :=
  exchangeRounds_perm key xs.length xs

theorem exchangeRounds_sorted (rounds : Nat) (xs : List α) (enough : xs.length ≤ rounds) :
    (exchangeRounds key rounds xs).Pairwise (fun x y => key x ≤ key y) := by
  induction rounds generalizing xs with
  | zero =>
    obtain rfl := List.eq_nil_of_length_eq_zero (Nat.le_zero.1 enough)
    exact .nil
  | succ rounds ih =>
    cases xs with
    | nil => exact .nil
    | cons x xs =>
      rw [exchangeRounds, List.pairwise_cons]
      constructor
      · intro z mem
        exact sweep_le key x xs z ((exchangeRounds_perm key rounds _).mem_iff.1 mem)
      · apply ih
        rw [sweep_length]
        simpa using enough

theorem exchangeSort_sorted (xs : List α) :
    (exchangeSort key xs).Pairwise (fun x y => key x ≤ key y) :=
  exchangeRounds_sorted key xs.length xs (Nat.le_refl _)

theorem sweep_of_le (x : α) (xs : List α) (least : ∀ y ∈ xs, key x ≤ key y) :
    sweep key x xs = (x, xs) := by
  induction xs with
  | nil => rfl
  | cons y ys ih =>
    rw [sweep, if_neg (not_lt.2 (least y List.mem_cons_self)),
      ih fun z mem => least z (List.mem_cons_of_mem _ mem)]

theorem exchangeRounds_of_sorted (rounds : Nat) (xs : List α)
    (sorted : xs.Pairwise fun x y => key x ≤ key y) : exchangeRounds key rounds xs = xs := by
  induction rounds generalizing xs with
  | zero => rfl
  | succ rounds ih =>
    cases xs with
    | nil => rfl
    | cons x xs =>
      obtain ⟨least, sorted⟩ := List.pairwise_cons.1 sorted
      rw [exchangeRounds, sweep_of_le key x xs least, ih xs sorted]

/-- A sorted array is left as it is. -/
theorem exchangeSort_of_sorted (xs : List α) (sorted : xs.Pairwise fun x y => key x ≤ key y) :
    exchangeSort key xs = xs :=
  exchangeRounds_of_sorted key xs.length xs sorted

variable {k : κ}

/-- A sweep does not change the order of the elements with the least key: one that is swapped
away is larger than another. -/
theorem sweep_filter_least (x : α) (xs : List α) (least : ∀ y ∈ x :: xs, k ≤ key y) :
    ((sweep key x xs).1 :: (sweep key x xs).2).filter (fun y => key y = k) =
      (x :: xs).filter fun y => key y = k := by
  induction xs generalizing x with
  | nil => rfl
  | cons y ys ih =>
    obtain ⟨leastX, leastYs⟩ := List.forall_mem_cons.mp least
    obtain ⟨leastY, leastRest⟩ := List.forall_mem_cons.mp leastYs
    rw [sweep]
    by_cases smaller : key y < key x
    · have larger : ¬ key x = k := (lt_of_le_of_lt leastY smaller).ne'
      have rest := ih y leastYs
      rw [if_pos smaller]
      simp only [List.filter_cons, larger, decide_false, Bool.false_eq_true, if_false] at rest ⊢
      exact rest
    · rw [if_neg smaller]
      by_cases same : key x = k
      · rw [sweep_of_le key x ys fun z mem => same ▸ leastRest z mem]
      · have larger : ¬ key y = k :=
          (lt_of_lt_of_le (lt_of_le_of_ne leastX (Ne.symm same)) (not_lt.mp smaller)).ne'
        have rest := ih x (List.forall_mem_cons.mpr ⟨leastX, leastRest⟩)
        simp only [List.filter_cons, larger, decide_false, Bool.false_eq_true, if_false] at rest ⊢
        exact rest

theorem exchangeRounds_filter_least (rounds : Nat) (xs : List α) (least : ∀ y ∈ xs, k ≤ key y) :
    (exchangeRounds key rounds xs).filter (fun y => key y = k) = xs.filter fun y => key y = k := by
  induction rounds generalizing xs with
  | zero => rfl
  | succ rounds ih =>
    cases xs with
    | nil => rfl
    | cons x xs =>
      have inside := fun y mem => least y ((sweep_perm key x xs).mem_iff.mp mem)
      rw [exchangeRounds, ← sweep_filter_least key x xs least, List.filter_cons, List.filter_cons,
        ih _ fun y mem => inside y (List.mem_cons_of_mem _ mem)]

/-- A sorted list starts with the elements of the least key. -/
theorem eq_least_append {xs : List α} (sorted : xs.Pairwise fun x y => key x ≤ key y)
    (least : ∀ y ∈ xs, k ≤ key y) :
    xs = xs.filter (fun y => key y = k) ++ xs.filter fun y => ¬ key y = k := by
  induction xs with
  | nil => rfl
  | cons x xs ih =>
    obtain ⟨above, sorted⟩ := List.pairwise_cons.mp sorted
    obtain ⟨leastX, leastXs⟩ := List.forall_mem_cons.mp least
    by_cases same : key x = k
    · rw [List.filter_cons_of_pos (by simpa using same), List.filter_cons_of_neg (by simpa using same),
        List.cons_append, ← ih sorted leastXs]
    · have larger : ∀ y ∈ x :: xs, ¬ key y = k := by
        refine List.forall_mem_cons.mpr ⟨same, fun y mem equal => same ?_⟩
        exact le_antisymm (equal ▸ above y mem) leastX
      rw [List.filter_eq_nil_iff.mpr fun y mem => by simpa using larger y mem,
        List.filter_eq_self.mpr fun y mem => by simpa using larger y mem, List.nil_append]

/-- The elements with the least key come first, in the order they had. -/
theorem exchangeSort_eq_append {xs : List α} (least : ∀ y ∈ xs, k ≤ key y) :
    exchangeSort key xs = xs.filter (fun y => key y = k) ++
      (exchangeSort key xs).filter fun y => ¬ key y = k := by
  have inside := fun y mem => least y ((exchangeSort_perm key xs).mem_iff.mp mem)
  rw [← exchangeRounds_filter_least key xs.length xs least]
  exact eq_least_append key (exchangeSort_sorted key xs) inside

end ExchangeSort

section Chunks

/-- The `i`-th run of `n` elements. -/
def chunk (n : Nat) (xs : List α) (i : Nat) : List α := (xs.drop (i * n)).take n

theorem chunk_length_le (n : Nat) (xs : List α) (i : Nat) : (chunk n xs i).length ≤ n := by
  rw [chunk, List.length_take]
  exact Nat.min_le_left _ _

theorem flatMap_chunk (n : Nat) (xs : List α) (count : Nat) :
    (List.range count).flatMap (chunk n xs) = xs.take (count * n) := by
  induction count with
  | zero => simp
  | succ count ih =>
    rw [List.range_succ, List.flatMap_append, ih, Nat.succ_mul, List.take_add]
    simp [chunk]

theorem flatMap_chunk_of_le (n : Nat) (xs : List α) (count : Nat) (enough : xs.length ≤ count * n) :
    (List.range count).flatMap (chunk n xs) = xs := by
  rw [flatMap_chunk, List.take_of_length_le enough]

end Chunks

section Assoc

variable [DecidableEq κ]

/-- With keys that do not repeat, looking up is membership. -/
theorem lookup_eq_some_iff (pairs : List (κ × β)) (distinct : (pairs.map Prod.fst).Nodup)
    (k : κ) (v : β) : pairs.lookup k = some v ↔ (k, v) ∈ pairs := by
  induction pairs with
  | nil => simp
  | cons head tail ih =>
    obtain ⟨k', v'⟩ := head
    rw [List.map_cons, List.nodup_cons] at distinct
    obtain ⟨fresh, distinct⟩ := distinct
    by_cases same : k = k'
    · subst same
      have absent : (k, v) ∉ tail := fun mem => fresh (List.mem_map.2 ⟨_, mem, rfl⟩)
      simp [absent, eq_comm]
    · have differ : (k == k') = false := by simpa using same
      simp [List.lookup_cons, differ, same, ih distinct]

/-- The order of an association list with distinct keys does not matter. -/
theorem lookup_perm {pairs pairs' : List (κ × β)} (perm : pairs.Perm pairs')
    (distinct : (pairs'.map Prod.fst).Nodup) (k : κ) : pairs.lookup k = pairs'.lookup k := by
  have distinct' : (pairs.map Prod.fst).Nodup := (perm.map Prod.fst).nodup_iff.2 distinct
  apply Option.ext
  intro v
  rw [lookup_eq_some_iff pairs distinct', lookup_eq_some_iff pairs' distinct, perm.mem_iff]

end Assoc

/-- A function that gives one element or none is counted by the test. -/
theorem length_flatMap_eq_filter {α β : Type} {f : α → List β} {p : α → Bool} {l : List α}
    (each : ∀ a ∈ l, (f a).length = if p a then 1 else 0) :
    (l.flatMap f).length = (l.filter p).length := by
  induction l with
  | nil => rfl
  | cons a rest ih =>
    obtain ⟨first, later⟩ := List.forall_mem_cons.mp each
    rw [List.flatMap_cons, List.length_append, first, ih later]
    cases holds : p a with
    | true => rw [List.filter_cons_of_pos holds, List.length_cons, if_pos rfl, Nat.add_comm]
    | false => rw [List.filter_cons_of_neg (by simp [holds]), if_neg Bool.false_ne_true, Nat.zero_add]

end Lists

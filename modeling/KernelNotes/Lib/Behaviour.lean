import Mathlib

/-!
# Properties of time along an infinite run

A property of a run is a predicate on its points in time. `Settles P` says that
`P` holds from some time on. A property that every later step keeps settles as
soon as it is reached once.
-/

namespace Behaviours

def Settles (P : Nat → Prop) : Prop := ∃ n, ∀ m, n ≤ m → P m

variable {P Q : Nat → Prop} {n k : Nat}

theorem kept_from (start : P n) (kept : ∀ m, n ≤ m → P m → P (m + 1)) : ∀ m, n ≤ m → P m := by
  intro m late
  induction m, late using Nat.le_induction with
  | base => exact start
  | succ m late ih => exact kept m late ih

theorem settles_of_kept (kept : ∀ m, k ≤ m → P m → P (m + 1)) (reached : ∃ m, k ≤ m ∧ P m) :
    Settles P := by
  obtain ⟨n, late, now⟩ := reached
  exact ⟨n, kept_from now fun m later => kept m (Nat.le_trans late later)⟩

/-- A property kept unless a second one is reached holds forever or the second one is reached. -/
theorem kept_unless (start : P n) (kept : ∀ m, n ≤ m → P m → P (m + 1) ∨ Q (m + 1)) :
    (∀ m, n ≤ m → P m) ∨ ∃ m, n ≤ m ∧ Q m := by
  by_cases reached : ∃ m, n ≤ m ∧ Q m
  · exact .inr reached
  · refine .inl (kept_from start fun m late now => ?_)
    rcases kept m late now with next | goal
    · exact next
    · exact absurd ⟨m + 1, Nat.le_succ_of_le late, goal⟩ reached

/-- What is reached after a time is reached there for a first time. -/
theorem exists_first (reached : ∃ m, n ≤ m ∧ P m) :
    ∃ m, n ≤ m ∧ P m ∧ ∀ j, n ≤ j → j < m → ¬ P j := by
  classical
  refine ⟨Nat.find reached, (Nat.find_spec reached).1, (Nat.find_spec reached).2, ?_⟩
  exact fun j late before now => Nat.find_min reached before ⟨late, now⟩

theorem Settles.and (first : Settles P) (second : Settles Q) : Settles fun m => P m ∧ Q m := by
  obtain ⟨n, first⟩ := first
  obtain ⟨k, second⟩ := second
  refine ⟨max n k, fun m late => ⟨first m ?_, second m ?_⟩⟩
  · exact Nat.le_trans (Nat.le_max_left _ _) late
  · exact Nat.le_trans (Nat.le_max_right _ _) late

theorem Settles.mono (settles : Settles P) (step : ∀ m, P m → Q m) : Settles Q := by
  obtain ⟨n, holds⟩ := settles
  exact ⟨n, fun m late => step m (holds m late)⟩

end Behaviours

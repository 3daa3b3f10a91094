import KernelNotes.Lib.Lists

/-!
# Block maps as lists of cells

A cell says where one point goes: a key, a target and a tag. A block map is a list of cells whose
keys do not repeat, and a run is a stretch of cells with consecutive keys and consecutive targets.
An edit of a map is a function that drops or changes each cell by itself; on a run it is worked
out stretch by stretch.
-/

namespace Cells

variable {β : Type}

/-- The cells of `n` consecutive keys from `b` on, with targets from `p` on. -/
def run (b p : Nat) (u : β) (n : Nat) : List (Nat × Nat × β) :=
  (List.range n).map fun k => (b + k, p + k, u)

@[simp] theorem run_zero (b p : Nat) (u : β) : run b p u 0 = [] := rfl

variable {b p n : Nat} {u : β} {cells : List (Nat × Nat × β)}

theorem mem_run {c : Nat × Nat × β} :
    c ∈ run b p u n ↔ b ≤ c.1 ∧ c.1 < b + n ∧ c.2 = (p + (c.1 - b), u) := by
  rw [run, List.mem_map]
  constructor
  · rintro ⟨k, small, rfl⟩
    have := List.mem_range.mp small
    dsimp only
    exact ⟨by omega, by omega, by rw [Nat.add_sub_cancel_left]⟩
  · obtain ⟨key, rest⟩ := c
    dsimp only
    rintro ⟨low, high, rfl⟩
    exact ⟨key - b, List.mem_range.mpr (by omega), by rw [Nat.add_sub_cancel' low]⟩

theorem run_add (b p : Nat) (u : β) (n m : Nat) :
    run b p u (n + m) = run b p u n ++ run (b + n) (p + n) u m := by
  rw [run, List.range_add, List.map_append, List.map_map]
  congr 1
  apply List.map_congr_left
  intro k _
  simp only [Function.comp_apply]
  rw [Nat.add_assoc, Nat.add_assoc]

/-- The targets of a list of cells. -/
def targets (cells : List (Nat × Nat × β)) : List Nat := cells.map fun c => c.2.1

@[simp] theorem targets_run (b p : Nat) (u : β) (n : Nat) :
    targets (run b p u n) = List.range' p n := by
  rw [targets, run, List.map_map, List.range'_eq_map_range]
  rfl

theorem targets_flatMap {α : Type} (l : List α) (f : α → List (Nat × Nat × β)) :
    targets (l.flatMap f) = l.flatMap fun a => targets (f a) := by
  rw [targets, List.map_flatMap]
  rfl

theorem mem_targets : p ∈ targets cells ↔ ∃ b u, (b, p, u) ∈ cells := by
  rw [targets, List.mem_map]
  constructor
  · rintro ⟨⟨b, q, u⟩, mem, rfl⟩
    exact ⟨b, u, mem⟩
  · rintro ⟨b, u, mem⟩
    exact ⟨_, mem, rfl⟩

/-! ## Edits -/

variable {g : Nat × Nat × β → Option (Nat × Nat × β)}

/-- A stretch that is dropped. -/
theorem filterMap_run_none (gone : ∀ k < n, g (b + k, p + k, u) = none) :
    (run b p u n).filterMap g = [] := by
  rw [List.filterMap_eq_nil_iff, run]
  intro c mem
  obtain ⟨k, small, rfl⟩ := List.mem_map.mp mem
  exact gone k (List.mem_range.mp small)

/-- A stretch that is moved as a whole. -/
theorem filterMap_run_some {d q : Nat} {w : β}
    (moved : ∀ k < n, g (b + k, p + k, u) = some (d + k, q + k, w)) :
    (run b p u n).filterMap g = run d q w n := by
  rw [run, run, List.filterMap_map, ← List.filterMap_eq_map]
  apply List.filterMap_congr
  intro k mem
  exact moved k (List.mem_range.mp mem)

theorem filter_run_eq_self {keep : Nat × Nat × β → Bool}
    (kept : ∀ k < n, keep (b + k, p + k, u) = true) : (run b p u n).filter keep = run b p u n := by
  rw [List.filter_eq_self, run]
  intro c mem
  obtain ⟨k, small, rfl⟩ := List.mem_map.mp mem
  exact kept k (List.mem_range.mp small)

theorem filter_run_eq_nil {keep : Nat × Nat × β → Bool}
    (gone : ∀ k < n, keep (b + k, p + k, u) = false) : (run b p u n).filter keep = [] := by
  rw [List.filter_eq_nil_iff, run]
  intro c mem
  obtain ⟨k, small, rfl⟩ := List.mem_map.mp mem
  exact Bool.not_eq_true _ ▸ gone k (List.mem_range.mp small)

/-- An edit that takes different keys to different keys keeps the keys distinct. -/
theorem distinct_filterMap {src : Nat → Nat} (distinct : (cells.map Prod.fst).Nodup)
    (source : ∀ c d, g c = some d → c.1 = src d.1) : ((cells.filterMap g).map Prod.fst).Nodup := by
  induction cells with
  | nil => exact List.nodup_nil
  | cons c rest ih =>
    obtain ⟨fresh, distinct⟩ := List.nodup_cons.mp distinct
    cases image : g c with
    | none =>
      rw [List.filterMap_cons_none image]
      exact ih distinct
    | some d =>
      rw [List.filterMap_cons_some image, List.map_cons]
      refine List.nodup_cons.mpr ⟨fun again => fresh ?_, ih distinct⟩
      obtain ⟨d', mem, same⟩ := List.mem_map.mp again
      obtain ⟨c', listed, image'⟩ := List.mem_filterMap.mp mem
      have key : c.1 = c'.1 := by rw [source c d image, source c' d' image', same]
      exact List.mem_map.mpr ⟨c', listed, key.symm⟩

/-- What an edited map says of a key: it asks the old map at the key's source. -/
theorem lookup_filterMap {src : Nat → Nat} (distinct : (cells.map Prod.fst).Nodup)
    (source : ∀ c d, g c = some d → c.1 = src d.1) (b : Nat) :
    (cells.filterMap g).lookup b = (cells.lookup (src b)).bind fun v =>
      (g (src b, v)).bind fun d => if d.1 = b then some d.2 else none := by
  apply Option.ext
  intro v
  rw [Lists.lookup_eq_some_iff _ (distinct_filterMap distinct source), List.mem_filterMap,
    Option.bind_eq_some_iff]
  constructor
  · rintro ⟨⟨key, w⟩, mem, image⟩
    obtain rfl : key = src b := source _ _ image
    refine ⟨w, (Lists.lookup_eq_some_iff _ distinct _ _).mpr mem, ?_⟩
    rw [image, Option.bind_some, if_pos rfl]
  · rintro ⟨w, found, image⟩
    rw [Option.bind_eq_some_iff] at image
    obtain ⟨d, image, same⟩ := image
    refine ⟨_, (Lists.lookup_eq_some_iff _ distinct _ _).mp found, ?_⟩
    rw [image]
    by_cases key : d.1 = b
    · rw [if_pos key] at same
      cases same
      rw [← key]
    · rw [if_neg key] at same
      cases same

/-- The targets that an edit drops and those that it keeps are all there were. -/
theorem targets_filterMap (cells : List (Nat × Nat × β))
    (keeps : ∀ c d, g c = some d → d.2.1 = c.2.1) :
    (targets (cells.filter fun c => (g c).isNone) ++ targets (cells.filterMap g)).Perm
      (targets cells) := by
  induction cells with
  | nil => exact .refl _
  | cons c rest ih =>
    cases image : g c with
    | none =>
      rw [List.filterMap_cons_none image, List.filter_cons_of_pos (by simp [image])]
      exact ih.cons _
    | some d =>
      rw [List.filterMap_cons_some image, List.filter_cons_of_neg (by simp [image])]
      have same : d.2.1 = c.2.1 := keeps c d image
      show (_ ++ d.2.1 :: _).Perm (c.2.1 :: _)
      rw [same]
      exact List.perm_middle.trans (ih.cons _)

end Cells

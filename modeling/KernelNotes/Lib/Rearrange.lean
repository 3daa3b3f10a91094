import Mathlib

/-!
# Rearranging a range of an indexed family

`Rearranged lo hi v w` says that `w` has the elements of `v` in another order and
agrees with `v` outside the closed range from `lo` to `hi`. A sorted
rearrangement of a range is the only one.
-/

namespace Rearrange

universe u

variable {α : Type u} {lo hi lo' hi' : Int} {v w x : Int → α}

def Rearranged (lo hi : Int) (v w : Int → α) : Prop :=
  ∃ σ : Equiv.Perm Int, (∀ k, k < lo ∨ hi < k → σ k = k) ∧ w = v ∘ σ

namespace Rearranged

theorem refl (v : Int → α) : Rearranged lo hi v v := ⟨Equiv.refl _, fun _ _ => rfl, rfl⟩

theorem trans (first : Rearranged lo hi v w) (second : Rearranged lo hi w x) :
    Rearranged lo hi v x := by
  obtain ⟨σ, fixes, rfl⟩ := first
  obtain ⟨τ, fixes', rfl⟩ := second
  refine ⟨τ.trans σ, fun k out => ?_, rfl⟩
  rw [Equiv.trans_apply, fixes' k out, fixes k out]

theorem widen (first : Rearranged lo hi v w) (low : lo' ≤ lo) (high : hi ≤ hi') :
    Rearranged lo' hi' v w := by
  obtain ⟨σ, fixes, rfl⟩ := first
  exact ⟨σ, fun k out => fixes k (by omega), rfl⟩

theorem swap {i j : Int} (inI : lo ≤ i ∧ i ≤ hi) (inJ : lo ≤ j ∧ j ≤ hi) (v : Int → α) :
    Rearranged lo hi v (v ∘ Equiv.swap i j) :=
  ⟨Equiv.swap i j, fun k out => Equiv.swap_apply_of_ne_of_ne (by omega) (by omega), rfl⟩

theorem outside (rearranged : Rearranged lo hi v w) {k : Int} (out : k < lo ∨ hi < k) :
    w k = v k := by
  obtain ⟨σ, fixes, rfl⟩ := rearranged
  exact congrArg v (fixes k out)

theorem inside_of_fixes {σ : Equiv.Perm Int} (fixes : ∀ k, k < lo ∨ hi < k → σ k = k) {k : Int}
    (inside : lo ≤ k ∧ k ≤ hi) : lo ≤ σ k ∧ σ k ≤ hi := by
  by_contra out
  have fixed := σ.injective (fixes (σ k) (by omega))
  omega

/-- What holds of every element of the range before holds of every one after. -/
theorem forall_range {P : α → Prop} (rearranged : Rearranged lo hi v w)
    (before : ∀ k, lo ≤ k → k ≤ hi → P (v k)) : ∀ k, lo ≤ k → k ≤ hi → P (w k) := by
  obtain ⟨σ, fixes, rfl⟩ := rearranged
  intro k low high
  obtain ⟨low', high'⟩ := inside_of_fixes fixes ⟨low, high⟩
  exact before (σ k) low' high'

end Rearranged

/-- The elements of the range, in order. -/
def slice (lo hi : Int) (v : Int → α) : List α :=
  (List.range (hi + 1 - lo).toNat).map fun k : Nat => v (lo + k)

theorem slice_coe : (slice lo hi v : Multiset α) = (Finset.Icc lo hi).val.map v := by
  have index : (((List.range (hi + 1 - lo).toNat).map fun k : Nat => lo + (k : Int) : List Int) :
      Multiset Int) = (Finset.Icc lo hi).val := by
    refine Multiset.Nodup.ext ?_ (Finset.Icc lo hi).nodup |>.mpr fun k => ?_
    · refine Multiset.coe_nodup.mpr (List.nodup_range.map fun a b same => ?_)
      omega
    · rw [Multiset.mem_coe, List.mem_map, Finset.mem_val, Finset.mem_Icc]
      constructor
      · rintro ⟨n, inside, rfl⟩
        have := List.mem_range.mp inside
        omega
      · intro inside
        exact ⟨(k - lo).toNat, List.mem_range.mpr (by omega), by omega⟩
  rw [← index, Multiset.map_coe, List.map_map]
  rfl

theorem Rearranged.slice_perm (rearranged : Rearranged lo hi v w) :
    (slice lo hi w).Perm (slice lo hi v) := by
  obtain ⟨σ, fixes, rfl⟩ := rearranged
  rw [← Multiset.coe_eq_coe, slice_coe, slice_coe, ← Multiset.map_map]
  congr 1
  have image : (Finset.Icc lo hi).map σ.toEmbedding = Finset.Icc lo hi := by
    refine Finset.eq_of_subset_of_card_le (fun k mem => ?_) (Finset.card_map _).ge
    obtain ⟨j, inside, rfl⟩ := Finset.mem_map.mp mem
    exact Finset.mem_Icc.mpr (inside_of_fixes fixes (Finset.mem_Icc.mp inside))
  exact congrArg Finset.val image

section Order

variable [LinearOrder α]

def SortedOn (lo hi : Int) (v : Int → α) : Prop :=
  ∀ i j, lo ≤ i → i ≤ j → j ≤ hi → v i ≤ v j

theorem SortedOn.slice_sorted (sorted : SortedOn lo hi v) :
    (slice lo hi v).Pairwise (· ≤ ·) := by
  rw [slice, List.pairwise_map]
  refine List.Pairwise.imp_of_mem (fun {a b} _ inB less => ?_) List.pairwise_lt_range
  have := List.mem_range.mp inB
  exact sorted _ _ (by omega) (by omega) (by omega)

/-- Two sorted ranges, the first below the second, with a middle element or none. -/
theorem SortedOn.glue {p q : Int} {m : α} (left : SortedOn lo p v) (right : SortedOn q hi v)
    (below : ∀ k, lo ≤ k → k ≤ p → v k ≤ m) (above : ∀ k, q ≤ k → k ≤ hi → m ≤ v k)
    (middle : ∀ k, p < k → k < q → v k = m) : SortedOn lo hi v := by
  intro i j low order high
  by_cases first : j ≤ p
  · exact left i j low order first
  by_cases last : q ≤ i
  · exact right i j last order high
  have small : v i ≤ m := by
    by_cases inside : i ≤ p
    · exact below i low inside
    · exact (middle i (by omega) (by omega)).le
  have large : m ≤ v j := by
    by_cases inside : q ≤ j
    · exact above j inside high
    · exact (middle j (by omega) (by omega)).ge
  exact small.trans large

/-- A range whose elements lie on the right sides of `m` is sorted by sorting its two sides. -/
theorem Rearranged.sorted_halves {p q : Int} {m : α} {y : Int → α} (parted : Rearranged lo hi v w)
    (left : Rearranged lo p w x) (right : Rearranged q hi x y) (sorted : SortedOn lo p x)
    (sorted' : SortedOn q hi y) (apart : p < q) (low : lo ≤ q) (high : p ≤ hi)
    (below : ∀ k, lo ≤ k → k ≤ p → w k ≤ m) (above : ∀ k, q ≤ k → k ≤ hi → m ≤ w k)
    (middle : ∀ k, p < k → k < q → w k = m) : Rearranged lo hi v y ∧ SortedOn lo hi y := by
  have kept : ∀ k, k < q → y k = x k := fun k lt => right.outside (.inl lt)
  constructor
  · exact (parted.trans (left.widen le_rfl high)).trans (right.widen low le_rfl)
  · refine .glue (p := p) (q := q) (m := m) (fun i j ge le lt => ?_) sorted' (fun k ge le => ?_)
      (right.forall_range fun k ge le => ?_) fun k gt lt => ?_
    · rw [kept i (by omega), kept j (by omega)]
      exact sorted i j ge le lt
    · rw [kept k (by omega)]
      exact left.forall_range (P := (· ≤ m)) below k ge le
    · rw [left.outside (by omega)]
      exact above k ge le
    · rw [kept k lt, left.outside (by omega)]
      exact middle k gt lt

/-- A range has one sorted rearrangement. -/
theorem Rearranged.sorted_unique (first : Rearranged lo hi v w) (second : Rearranged lo hi v x)
    (sorted : SortedOn lo hi w) (sorted' : SortedOn lo hi x) : w = x := by
  have lists : slice lo hi w = slice lo hi x :=
    (first.slice_perm.trans second.slice_perm.symm).eq_of_pairwise
      (fun _ _ _ _ => le_antisymm) sorted.slice_sorted sorted'.slice_sorted
  funext k
  by_cases inside : lo ≤ k ∧ k ≤ hi
  · obtain ⟨n, rfl⟩ : ∃ n : Nat, k = lo + n := ⟨(k - lo).toNat, by omega⟩
    have entry := congrArg (fun l => l[n]?) lists
    have index : n < (hi + 1 - lo).toNat := by omega
    simpa [slice, List.getElem?_range index] using entry
  · rw [first.outside (by omega), second.outside (by omega)]

end Order

end Rearrange

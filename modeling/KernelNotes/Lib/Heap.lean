import Mathlib

/-!
# A heap as the set of its live blocks

Blocks carry numbers that are never given out twice, so a block allocated later
differs from every block that is live now. `Grown n` compares the heaps before
and after a piece of code: what was live is still live, and exactly `n` blocks
more are. Pieces add up, and a block allocated before a piece and freed after it
does not count.
-/

namespace Heaps

structure Heap where
  live : Finset Nat
  next : Nat
  bound : ∀ b ∈ live, b < next

namespace Heap

def empty : Heap := ⟨∅, 0, fun _ mem => absurd mem (Finset.notMem_empty _)⟩

/-- Allocation hands out the block `h.next`. -/
def malloc (h : Heap) : Heap where
  live := insert h.next h.live
  next := h.next + 1
  bound := by
    intro b mem
    rcases Finset.mem_insert.mp mem with rfl | old
    · exact Nat.lt_succ_self _
    · exact Nat.lt_succ_of_lt (h.bound b old)

def free (h : Heap) (b : Nat) : Heap where
  live := h.live.erase b
  next := h.next
  bound := fun c mem => h.bound c (Finset.mem_of_mem_erase mem)

theorem next_notMem (h : Heap) : h.next ∉ h.live := fun mem => Nat.lt_irrefl _ (h.bound _ mem)

end Heap

/-- Nothing live is lost and exactly `n` blocks are added. -/
def Grown (n : Nat) (h h' : Heap) : Prop :=
  ∃ new : Finset Nat, Disjoint h.live new ∧ h'.live = h.live ∪ new ∧ new.card = n

namespace Grown

variable {h h' h'' : Heap} {m n : Nat}

theorem refl (h : Heap) : Grown 0 h h :=
  ⟨∅, Finset.disjoint_empty_right _, (Finset.union_empty _).symm, Finset.card_empty⟩

theorem malloc (h : Heap) : Grown 1 h h.malloc := by
  refine ⟨{h.next}, Finset.disjoint_singleton_right.mpr h.next_notMem, ?_,
    Finset.card_singleton _⟩
  rw [Finset.union_comm]
  rfl

theorem trans (first : Grown m h h') (second : Grown n h' h'') : Grown (m + n) h h'' := by
  obtain ⟨new, apart, live, count⟩ := first
  obtain ⟨new', apart', live', count'⟩ := second
  rw [live, Finset.disjoint_union_left] at apart'
  refine ⟨new ∪ new', Finset.disjoint_union_right.mpr ⟨apart, apart'.1⟩, ?_, ?_⟩
  · rw [live', live, Finset.union_assoc]
  · rw [Finset.card_union_of_disjoint apart'.2, count, count']

/-- A block allocated before a piece of code and freed after it leaves what the piece added. -/
theorem bracket (body : Grown n h.malloc h') : Grown n h (h'.free h.next) := by
  obtain ⟨new, apart, live, count⟩ := body
  have split := Finset.disjoint_insert_left.mp apart
  refine ⟨new, split.2, ?_, count⟩
  calc
    h'.live.erase h.next = (insert h.next h.live ∪ new).erase h.next := by rw [live]; rfl
    _ = (insert h.next (h.live ∪ new)).erase h.next := by rw [Finset.insert_union]
    _ = h.live ∪ new := Finset.erase_insert
        fun mem => (Finset.mem_union.mp mem).elim h.next_notMem split.1

theorem card (grown : Grown n h h') : h'.live.card = h.live.card + n := by
  obtain ⟨new, apart, live, count⟩ := grown
  rw [live, Finset.card_union_of_disjoint apart, count]

/-- The live blocks are the same exactly when nothing was added. -/
theorem same_iff (grown : Grown n h h') : h'.live = h.live ↔ n = 0 := by
  have total := grown.card
  obtain ⟨new, apart, live, count⟩ := grown
  constructor
  · intro same
    rw [same] at total
    omega
  · rintro rfl
    rw [live, Finset.card_eq_zero.mp count, Finset.union_empty]

end Grown

end Heaps

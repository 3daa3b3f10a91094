import Mathlib

/-!
# A numbered cursor in a list that changes

A cursor is a number: so many elements of the list lie to the left of it. Reading a page moves it to
the right. Removing or inserting an element does not move it, so that the element next to the cursor
may come to lie on the other side. The three lemmas on `left` account for that.
-/

namespace Cursor

variable {α : Type}

/-- The list with an element put at a position, or at the end. -/
def insertAt (p : Nat) (y : α) (l : List α) : List α := l.take p ++ y :: l.drop p

variable {x y : α} {l : List α}

theorem mem_insertAt {p : Nat} : x ∈ insertAt p y l ↔ x = y ∨ x ∈ l := by
  rw [insertAt, List.mem_append, List.mem_cons, or_left_comm, ← List.mem_append,
    List.take_append_drop]

theorem nodup_insertAt {p : Nat} (nodup : l.Nodup) (absent : y ∉ l) : (insertAt p y l).Nodup := by
  rw [insertAt, List.nodup_middle, List.take_append_drop]
  exact List.nodup_cons.mpr ⟨absent, nodup⟩

theorem map_insertAt {β : Type} (f : α → β) (p : Nat) (y : α) (l : List α) :
    (insertAt p y l).map f = insertAt p (f y) (l.map f) := by
  rw [insertAt, insertAt, List.map_append, List.map_cons, List.map_take, List.map_drop]

variable [BEq α] [LawfulBEq α]

theorem idxOf_append_other {a b : List α} (absent : x ∉ a) :
    (a ++ b).idxOf x = a.length + b.idxOf x := by
  rw [List.idxOf_append, if_neg absent, Nat.add_comm]

theorem idxOf_append_mem {a b : List α} (mem : x ∈ a) : (a ++ b).idxOf x = a.idxOf x := by
  rw [List.idxOf_append, if_pos mem]

theorem filter_ne_self (absent : y ∉ l) : l.filter (· != y) = l := by
  refine List.filter_eq_self.mpr fun z inside => bne_iff_ne.mpr ?_
  rintro rfl
  exact absent inside

/-- Removing an element moves those behind it. -/
theorem idxOf_filter_ne (nodup : l.Nodup) (mem : x ∈ l) (other : x ≠ y) :
    (l.filter (· != y)).idxOf x = if l.idxOf y < l.idxOf x then l.idxOf x - 1 else l.idxOf x := by
  by_cases listed : y ∈ l
  · obtain ⟨a, b, rfl⟩ := List.append_of_mem listed
    obtain ⟨-, tail, apart⟩ := List.nodup_append.mp nodup
    have first : y ∉ a := fun inside => apart y inside y List.mem_cons_self rfl
    have second : y ∉ b := (List.nodup_cons.mp tail).1
    have rest : (a ++ y :: b).filter (· != y) = a ++ b := by
      rw [List.filter_append, List.filter_cons_of_neg (by simp), filter_ne_self first,
        filter_ne_self second]
    rw [rest, idxOf_append_other first, List.idxOf_cons_self, Nat.add_zero]
    by_cases inside : x ∈ a
    · have low := List.idxOf_lt_length_of_mem inside
      rw [idxOf_append_mem inside, idxOf_append_mem inside, if_neg (by omega)]
    · rw [idxOf_append_other inside, idxOf_append_other inside, List.idxOf_cons_ne b other.symm,
        if_pos (by omega)]
      omega
  · have low := List.idxOf_lt_length_of_mem mem
    rw [filter_ne_self listed, List.idxOf_eq_length listed, if_neg (by omega)]

/-- The elements before a position. -/
theorem mem_take_iff (mem : x ∈ l) (k : Nat) : x ∈ l.take k ↔ l.idxOf x < k := by
  have halves : l.idxOf x = (l.take k ++ l.drop k).idxOf x := by rw [List.take_append_drop]
  constructor
  · intro low
    have index := List.idxOf_lt_length_of_mem low
    have short := List.length_take_le k l
    rw [idxOf_append_mem low] at halves
    omega
  · intro low
    by_contra high
    have index := List.idxOf_lt_length_of_mem mem
    rw [idxOf_append_other high, List.length_take] at halves
    have whole : l.take k = l := List.take_of_length_le (by omega)
    exact high (whole.symm ▸ mem)

/-- Inserting an element moves those behind it. -/
theorem idxOf_insertAt (mem : x ∈ l) (other : x ≠ y) (p : Nat) :
    (insertAt p y l).idxOf x = if p ≤ l.idxOf x then l.idxOf x + 1 else l.idxOf x := by
  have halves : l.idxOf x = (l.take p ++ l.drop p).idxOf x := by rw [List.take_append_drop]
  have index := List.idxOf_lt_length_of_mem mem
  rw [insertAt]
  by_cases low : x ∈ l.take p
  · have before := (mem_take_iff mem p).mp low
    rw [idxOf_append_mem low] at halves ⊢
    rw [if_neg (by omega), halves]
  · have behind := mt (mem_take_iff mem p).mpr low
    rw [idxOf_append_other low, List.length_take_of_le (by omega)] at halves ⊢
    rw [List.idxOf_cons_ne _ other.symm, if_pos (by omega), halves]
    rfl

/-- Whether the element lies to the left of the cursor, as a number. -/
def left (c : Nat) (l : List α) (x : α) : Nat := if l.idxOf x < c then 1 else 0

/-- A page has the element once if the cursor passes it. -/
theorem count_page (nodup : l.Nodup) (mem : x ∈ l) (c n : Nat) :
    ((l.drop c).take n).count x + left c l x = left (c + n) l x := by
  have early (k : Nat) : left k l x = (l.take k).count x := by
    rw [left, (List.Nodup.sublist (List.take_sublist k l) nodup).count]
    exact if_congr (mem_take_iff mem k).symm rfl rfl
  rw [early, early, List.take_add, List.count_append, Nat.add_comm]

/-- Removing an element to the left of the cursor pulls the next one over. -/
theorem left_filter_ne (nodup : l.Nodup) (mem : x ∈ l) (other : x ≠ y) (c : Nat) :
    left c (l.filter (· != y)) x =
      left c l x + if l.idxOf y < c ∧ l.idxOf x = c then 1 else 0 := by
  have apart : l.idxOf y ≠ l.idxOf x := fun same => other ((List.idxOf_inj mem).mp same.symm)
  rw [left, left, idxOf_filter_ne nodup mem other]
  split_ifs <;> omega

/-- Inserting an element to the left of the cursor pushes the last one back. -/
theorem left_insertAt (mem : x ∈ l) (other : x ≠ y) (p c : Nat) :
    left c (insertAt p y l) x + (if p < c ∧ l.idxOf x + 1 = c then 1 else 0) = left c l x := by
  rw [left, left, idxOf_insertAt mem other]
  split_ifs <;> omega

end Cursor

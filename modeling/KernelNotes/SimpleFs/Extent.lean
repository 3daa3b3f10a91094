import KernelNotes.Lib.Lists
import KernelNotes.SimpleFs.Basic

/-!
# Extents and their normal form

`struct simplefs_extent` and `simplefs_file_normalize_extents`. Block numbers are
32-bit words, so what an extent maps is written with explicit reduction; the high
bit of `ee_len`, which marks an unwritten extent, is a field of its own here.
-/

namespace SimpleFs

open Lists

/-- The number of values of a 32-bit word. -/
def wordSize : Nat := 2 ^ 32

/-- `struct simplefs_extent`: `eeLen` is the word under `SIMPLEFS_EXTENT_LEN_MASK`,
`unwritten` the bit above it. -/
structure Extent where
  eeBlock : Nat
  eeLen : Nat
  eeStart : Nat
  unwritten : Bool
  deriving DecidableEq, Repr

namespace Extent

/-- `simplefs_ext_len`. -/
def extLen (e : Extent) : Nat := min e.eeLen maxBlocksPerExtent

/-- `simplefs_ext_set_len`. -/
def setLen (e : Extent) (len : Nat) : Extent := { e with eeLen := len % 2 ^ 31 }

/-- `simplefs_ext_init`. -/
def init (eeBlock eeLen eeStart : Nat) (unwritten : Bool) : Extent :=
  { eeBlock, eeLen := eeLen % 2 ^ 31, eeStart, unwritten }

/-- `simplefs_ext_end`. -/
def extEnd (e : Extent) : Nat := (e.eeBlock + e.extLen) % wordSize

/-- `simplefs_extent_is_empty`. -/
def isEmpty (e : Extent) : Bool := e.eeStart == 0 || e.extLen == 0

/-- `simplefs_extent_clear`. -/
def clear (_ : Extent) : Extent := { eeBlock := 0, eeLen := 0, eeStart := 0, unwritten := false }

/-- The blocks an extent maps: logical number, physical number and state. -/
def cells (e : Extent) : List (Nat × Nat × Bool) :=
  (List.range e.extLen).map fun k =>
    ((e.eeBlock + k) % wordSize, (e.eeStart + k) % wordSize, e.unwritten)

theorem extLen_le (e : Extent) : e.extLen ≤ maxBlocksPerExtent := Nat.min_le_right _ _

theorem extLen_setLen (e : Extent) {len : Nat} (small : len ≤ maxBlocksPerExtent) :
    (e.setLen len).extLen = len := by
  have bound : len < 2 ^ 31 := Nat.lt_of_le_of_lt small (by decide)
  rw [extLen, setLen, Nat.mod_eq_of_lt bound, Nat.min_eq_left small]

theorem cells_eq_nil {e : Extent} (none_ : e.extLen = 0) : e.cells = [] := by
  rw [cells, none_, List.range_zero, List.map_nil]

end Extent

/-- The partial map of an extent array: logical block to physical block and state. -/
def mapOf (extents : List Extent) (iblock : Nat) : Option (Nat × Bool) :=
  (extents.flatMap Extent.cells).lookup iblock

/-- No logical block lies in two extents. -/
def LogicallyDisjoint (extents : List Extent) : Prop :=
  ((extents.flatMap Extent.cells).map Prod.fst).Nodup

instance (extents : List Extent) : Decidable (LogicallyDisjoint extents) :=
  inferInstanceAs (Decidable (List.Nodup _))

/-- The test of the merge loop. -/
def joins (cur next : Extent) : Bool :=
  cur.unwritten == next.unwritten && cur.extEnd == next.eeBlock &&
    (cur.eeStart + cur.extLen) % wordSize == next.eeStart &&
    decide (cur.extLen + next.extLen ≤ maxBlocksPerExtent)

/-- The merge loop of `simplefs_file_normalize_extents` with the extent at index `i` in
hand. -/
def coalesce : Extent → List Extent → List Extent
  | cur, [] => if cur.isEmpty then [] else [cur]
  | cur, next :: rest =>
    if cur.isEmpty then coalesce next rest
    else if joins cur next then coalesce (cur.setLen (cur.extLen + next.extLen)) rest
    else cur :: coalesce next rest

/-- `simplefs_file_normalize_extents`. -/
def normalizeExtents (extents : List Extent) : List Extent :=
  match exchangeSort Extent.eeBlock extents with
  | [] => []
  | cur :: rest => coalesce cur rest

/-- `simplefs_file_find_extent`: whether an extent holds the block, and its index or the index at
which one would be inserted. -/
def findExtent (iblock : Nat) : List Extent → Bool × Nat
  | [] => (false, 0)
  | e :: rest =>
    if iblock < e.eeBlock then (false, 0)
    else if iblock < e.extEnd then (true, 0)
    else ((findExtent iblock rest).1, (findExtent iblock rest).2 + 1)

/-- An extent without a start has no length either, as `simplefs_extent_clear` leaves it. -/
def Extent.Tidy (e : Extent) : Prop := e.eeStart = 0 → e.extLen = 0

theorem Extent.Tidy.cells_of_isEmpty {e : Extent} (tidy : e.Tidy) (empty : e.isEmpty = true) :
    e.cells = [] := by
  simp only [Extent.isEmpty, Bool.or_eq_true, beq_iff_eq] at empty
  exact cells_eq_nil (empty.elim tidy id)

theorem Extent.not_isEmpty {e : Extent} (full : ¬ e.isEmpty = true) :
    e.eeStart ≠ 0 ∧ 0 < e.extLen := by
  simp only [Extent.isEmpty, Bool.or_eq_true, beq_iff_eq, not_or] at full
  exact ⟨full.1, Nat.pos_of_ne_zero full.2⟩

theorem cells_join {cur next : Extent} (join : joins cur next = true) :
    (cur.setLen (cur.extLen + next.extLen)).cells = cur.cells ++ next.cells := by
  simp only [joins, Bool.and_eq_true, beq_iff_eq, decide_eq_true_eq] at join
  obtain ⟨⟨⟨state, logical⟩, physical⟩, small⟩ := join
  rw [Extent.cells, Extent.extLen_setLen cur small, List.range_add, List.map_append,
    List.map_map]
  congr 1
  apply List.map_congr_left
  intro k _
  rw [Extent.extEnd] at logical
  simp only [Function.comp_apply, Extent.setLen]
  rw [← logical, ← physical, ← state, Nat.mod_add_mod, Nat.mod_add_mod, Nat.add_assoc,
    Nat.add_assoc]

theorem cells_coalesce (cur : Extent) (rest : List Extent)
    (tidy : ∀ e ∈ cur :: rest, e.Tidy) :
    (coalesce cur rest).flatMap Extent.cells = (cur :: rest).flatMap Extent.cells := by
  induction rest generalizing cur with
  | nil =>
    rw [coalesce]
    split
    · rename_i empty
      simp [(tidy cur (by simp)).cells_of_isEmpty empty]
    · rfl
  | cons next rest ih =>
    have tail : ∀ e ∈ next :: rest, e.Tidy := fun e mem => tidy e (List.mem_cons_of_mem _ mem)
    rw [coalesce]
    split
    · rename_i empty
      rw [ih next tail]
      simp [(tidy cur (by simp)).cells_of_isEmpty empty]
    · rename_i full
      split
      · rename_i join
        rw [ih, List.flatMap_cons, cells_join join, List.append_assoc]
        · rfl
        · intro e mem
          rcases List.mem_cons.1 mem with rfl | mem
          · exact fun zero => absurd zero (Extent.not_isEmpty full).1
          · exact tail e (List.mem_cons_of_mem _ mem)
      · rw [List.flatMap_cons, ih next tail, ← List.flatMap_cons]

theorem cells_normalizeExtents (extents : List Extent) (tidy : ∀ e ∈ extents, e.Tidy) :
    ((normalizeExtents extents).flatMap Extent.cells).Perm (extents.flatMap Extent.cells) := by
  have perm := exchangeSort_perm Extent.eeBlock extents
  rw [normalizeExtents]
  cases sorted : exchangeSort Extent.eeBlock extents with
  | nil =>
    rw [sorted] at perm
    obtain rfl := perm.nil_eq
    exact .refl _
  | cons cur rest =>
    rw [sorted] at perm
    have tidy' : ∀ e ∈ cur :: rest, e.Tidy := fun e mem => tidy e (perm.mem_iff.1 mem)
    have same := cells_coalesce cur rest tidy'
    exact same ▸ perm.flatMap_right Extent.cells

theorem mapOf_normalizeExtents (extents : List Extent) (tidy : ∀ e ∈ extents, e.Tidy)
    (disjoint : LogicallyDisjoint extents) (iblock : Nat) :
    mapOf (normalizeExtents extents) iblock = mapOf extents iblock :=
  lookup_perm (cells_normalizeExtents extents tidy) disjoint iblock

end SimpleFs

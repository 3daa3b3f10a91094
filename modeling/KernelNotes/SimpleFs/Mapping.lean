import KernelNotes.Lib.Cells
import KernelNotes.SimpleFs.Extent

/-!
# What an extent list maps

The cells of an extent list are the blocks it maps, each with its place on the device and its
state. A sound list is sorted and its extents are full and apart. A loose list is what the code
makes of one on the way: pieces in any order, some of them empty. The normal form makes a loose
list sound again and keeps its cells, so an operation is described by the cells it drops, moves or
adds.
-/

namespace SimpleFs

open Lists Cells

def cellsOf (extents : List Extent) : List (Nat × Nat × Bool) := extents.flatMap Extent.cells

theorem cellsOf_append (l l' : List Extent) : cellsOf (l ++ l') = cellsOf l ++ cellsOf l' :=
  List.flatMap_append

theorem cellsOf_cons (e : Extent) (l : List Extent) : cellsOf (e :: l) = e.cells ++ cellsOf l :=
  List.flatMap_cons

theorem cellsOf_singleton (e : Extent) : cellsOf [e] = e.cells := List.append_nil _

/-- A full extent on the device whose end is a block number. -/
structure Extent.Placed (e : Extent) : Prop where
  full : 0 < e.extLen
  placed : 0 < e.eeStart
  logical : e.eeBlock + e.extLen < wordSize

/-- The end on the device is a block number too. -/
structure Extent.Fit (e : Extent) : Prop extends e.Placed where
  physical : e.eeStart + e.extLen < wordSize

variable {e cur next : Extent} {extents : List Extent} {P : Extent → Prop}

theorem Extent.Placed.extEnd (placed : e.Placed) : e.extEnd = e.eeBlock + e.extLen :=
  Nat.mod_eq_of_lt placed.logical

theorem Extent.Placed.not_isEmpty (placed : e.Placed) : e.isEmpty = false := by
  rw [Extent.isEmpty, Bool.or_eq_false_iff, beq_eq_false_iff_ne, beq_eq_false_iff_ne]
  exact ⟨Nat.pos_iff_ne_zero.mp placed.placed, Nat.pos_iff_ne_zero.mp placed.full⟩

theorem Extent.isEmpty_of_extLen (empty : e.extLen = 0) : e.isEmpty = true := by
  simp [Extent.isEmpty, empty]

theorem Extent.keys_cells (logical : e.eeBlock + e.extLen ≤ wordSize) :
    e.cells.map Prod.fst = List.range' e.eeBlock e.extLen := by
  rw [Extent.cells, List.map_map, List.range'_eq_map_range]
  apply List.map_congr_left
  intro k mem
  have := List.mem_range.mp mem
  exact Nat.mod_eq_of_lt (by omega)

theorem Extent.cells_eq_run (logical : e.eeBlock + e.extLen ≤ wordSize)
    (physical : e.eeStart + e.extLen ≤ wordSize) :
    e.cells = run e.eeBlock e.eeStart e.unwritten e.extLen := by
  rw [Extent.cells, run]
  apply List.map_congr_left
  intro k mem
  have := List.mem_range.mp mem
  rw [Nat.mod_eq_of_lt (by omega), Nat.mod_eq_of_lt (by omega)]

theorem Extent.Fit.cells (fit : e.Fit) : e.cells = run e.eeBlock e.eeStart e.unwritten e.extLen :=
  Extent.cells_eq_run (Nat.le_of_lt fit.logical) (Nat.le_of_lt fit.physical)

/-- The second extent starts behind the first one. -/
def Extent.Before (e f : Extent) : Prop := e.eeBlock + e.extLen ≤ f.eeBlock

structure Sound (extents : List Extent) : Prop where
  fit : ∀ e ∈ extents, e.Fit
  ordered : extents.Pairwise Extent.Before

instance (e : Extent) : Decidable e.Fit :=
  decidable_of_iff ((0 < e.extLen ∧ 0 < e.eeStart ∧ e.eeBlock + e.extLen < wordSize) ∧
      e.eeStart + e.extLen < wordSize)
    ⟨fun h => ⟨⟨h.1.1, h.1.2.1, h.1.2.2⟩, h.2⟩, fun h => ⟨⟨h.full, h.placed, h.logical⟩, h.physical⟩⟩

instance (e f : Extent) : Decidable (e.Before f) := inferInstanceAs (Decidable (_ ≤ _))

instance (extents : List Extent) : Decidable (Sound extents) :=
  decidable_of_iff ((∀ e ∈ extents, e.Fit) ∧ extents.Pairwise Extent.Before)
    ⟨fun h => ⟨h.1, h.2⟩, fun h => ⟨h.fit, h.ordered⟩⟩

structure Loose (extents : List Extent) : Prop where
  each : ∀ e ∈ extents, e.extLen = 0 ∨ e.Fit
  disjoint : LogicallyDisjoint extents

theorem mapOf_eq_some_iff (disjoint : LogicallyDisjoint extents) {b : Nat} {v : Nat × Bool} :
    mapOf extents b = some v ↔ (b, v) ∈ cellsOf extents :=
  lookup_eq_some_iff _ disjoint b v

theorem mapOf_eq_none_iff (disjoint : LogicallyDisjoint extents) {b : Nat} :
    mapOf extents b = none ↔ ∀ v, (b, v) ∉ cellsOf extents := by
  rw [Option.eq_none_iff_forall_ne_some]
  exact forall_congr' fun v => not_congr (mapOf_eq_some_iff disjoint)

theorem keys_cellsOf (logical : ∀ e ∈ extents, e.eeBlock + e.extLen ≤ wordSize) :
    (cellsOf extents).map Prod.fst = extents.flatMap fun e => List.range' e.eeBlock e.extLen := by
  rw [cellsOf, List.map_flatMap]
  exact List.flatMap_congr fun e mem => Extent.keys_cells (logical e mem)

theorem Sound.disjoint (sound : Sound extents) : LogicallyDisjoint extents := by
  rw [LogicallyDisjoint, ← cellsOf,
    keys_cellsOf fun e mem => Nat.le_of_lt (sound.fit e mem).logical, List.nodup_flatMap]
  refine ⟨fun e _ => List.nodup_range', sound.ordered.imp fun {e f} before => ?_⟩
  intro b first second
  have low := List.mem_range'_1.mp first
  have high := List.mem_range'_1.mp second
  simp only [Extent.Before] at before
  omega

/-- Full extents in the order of their first blocks follow one another if they are disjoint. -/
theorem before_of_sorted (placed : ∀ e ∈ extents, e.Placed)
    (sorted : extents.Pairwise fun e f => e.eeBlock ≤ f.eeBlock)
    (disjoint : LogicallyDisjoint extents) : extents.Pairwise Extent.Before := by
  rw [LogicallyDisjoint, ← cellsOf,
    keys_cellsOf fun e mem => Nat.le_of_lt (placed e mem).logical, List.nodup_flatMap] at disjoint
  refine (sorted.and disjoint.2).imp_of_mem ?_
  intro e f _ listed both
  have full := (placed f listed).full
  by_contra crossing
  simp only [Extent.Before, Nat.not_le] at crossing
  exact both.2 (List.mem_range'_1.mpr ⟨both.1, crossing⟩) (List.mem_range'_1.mpr ⟨Nat.le_refl _, by omega⟩)

theorem Sound.loose (sound : Sound extents) : Loose extents :=
  ⟨fun e mem => .inr (sound.fit e mem), sound.disjoint⟩

theorem Sound.nil : Sound [] := ⟨nofun, List.Pairwise.nil⟩

/-! ## The normal form -/

theorem joins_iff (placed : cur.Placed) : joins cur next = true ↔
    cur.unwritten = next.unwritten ∧ cur.eeBlock + cur.extLen = next.eeBlock ∧
      (cur.eeStart + cur.extLen) % wordSize = next.eeStart ∧
      cur.extLen + next.extLen ≤ maxBlocksPerExtent := by
  simp only [joins, Bool.and_eq_true, beq_iff_eq, decide_eq_true_eq, placed.extEnd, and_assoc]

/-- A property of full extents that merging keeps holds of every extent the loop leaves. -/
theorem coalesce_all (full : ∀ e, P e → e.isEmpty = false)
    (merge : ∀ cur next, P cur → (next.extLen = 0 ∨ P next) → joins cur next = true → P (cur.setLen (cur.extLen + next.extLen)))
    (rest : List Extent) :
    ∀ cur, (∀ e ∈ cur :: rest, e.extLen = 0 ∨ P e) → ∀ e ∈ coalesce cur rest, P e := by
  induction rest with
  | nil =>
    intro cur each e mem
    rw [coalesce] at mem
    rcases each cur List.mem_cons_self with empty | holds
    · rw [if_pos (Extent.isEmpty_of_extLen empty)] at mem
      cases mem
    · rw [if_neg (by simp [full cur holds])] at mem
      rw [List.mem_singleton.mp mem]
      exact holds
  | cons next rest ih =>
    intro cur each e mem
    obtain ⟨here, later⟩ := List.forall_mem_cons.mp each
    rw [coalesce] at mem
    rcases here with empty | holds
    · rw [if_pos (Extent.isEmpty_of_extLen empty)] at mem
      exact ih next later e mem
    rw [if_neg (by simp [full cur holds])] at mem
    by_cases join : joins cur next = true
    · rw [if_pos join] at mem
      obtain ⟨second, later⟩ := List.forall_mem_cons.mp later
      exact ih _ (List.forall_mem_cons.mpr ⟨.inr (merge cur next holds second join), later⟩) e mem
    · rw [if_neg join] at mem
      rcases List.mem_cons.mp mem with rfl | mem
      · exact holds
      · exact ih next later e mem

/-- The loop keeps the order, and what it leaves starts no earlier than the extent in hand. -/
theorem coalesce_sorted (rest : List Extent) : ∀ cur : Extent,
    (cur :: rest).Pairwise (fun e f => e.eeBlock ≤ f.eeBlock) →
    (coalesce cur rest).Pairwise (fun e f => e.eeBlock ≤ f.eeBlock) ∧
      ∀ e ∈ coalesce cur rest, cur.eeBlock ≤ e.eeBlock := by
  induction rest with
  | nil =>
    intro cur sorted
    rw [coalesce]
    split
    · exact ⟨List.Pairwise.nil, by simp⟩
    · refine ⟨List.pairwise_singleton _ _, fun e mem => ?_⟩
      rw [List.mem_singleton.mp mem]
  | cons next rest ih =>
    intro cur sorted
    obtain ⟨least, later⟩ := List.pairwise_cons.mp sorted
    obtain ⟨ordered, above⟩ := ih next later
    have bound : ∀ e ∈ coalesce next rest, cur.eeBlock ≤ e.eeBlock :=
      fun e mem => Nat.le_trans (least next List.mem_cons_self) (above e mem)
    rw [coalesce]
    split
    · exact ⟨ordered, bound⟩
    split
    · refine ih (cur.setLen (cur.extLen + next.extLen)) (List.pairwise_cons.mpr ⟨?_, ?_⟩)
      · exact fun e mem => least e (List.mem_cons_of_mem _ mem)
      · exact (List.pairwise_cons.mp later).2
    · refine ⟨List.pairwise_cons.mpr ⟨bound, ordered⟩, fun e mem => ?_⟩
      rcases List.mem_cons.mp mem with rfl | mem
      · exact Nat.le_refl _
      · exact bound e mem

theorem Extent.Placed.merge (placed : cur.Placed) (second : next.extLen = 0 ∨ next.Placed)
    (join : joins cur next = true) : (cur.setLen (cur.extLen + next.extLen)).Placed := by
  obtain ⟨-, logical, -, small⟩ := (joins_iff placed).mp join
  have length := Extent.extLen_setLen cur small
  have full := placed.full
  refine ⟨by omega, placed.placed, ?_⟩
  rw [length]
  show cur.eeBlock + _ < _
  rcases second with empty | second
  · have := placed.logical
    omega
  · have := second.logical
    omega

theorem Extent.Fit.merge (fit : cur.Fit) (second : next.extLen = 0 ∨ next.Fit)
    (join : joins cur next = true) : (cur.setLen (cur.extLen + next.extLen)).Fit := by
  obtain ⟨-, -, physical, small⟩ := (joins_iff fit.toPlaced).mp join
  refine ⟨fit.toPlaced.merge (second.imp_right Extent.Fit.toPlaced) join, ?_⟩
  rw [Extent.extLen_setLen cur small]
  show cur.eeStart + _ < _
  rw [Nat.mod_eq_of_lt fit.physical] at physical
  rcases second with empty | second
  · have := fit.physical
    omega
  · have := second.physical
    omega

theorem tidy_of_each (placed : ∀ e, P e → e.Placed) (each : ∀ e ∈ extents, e.extLen = 0 ∨ P e) :
    ∀ e ∈ extents, e.Tidy := by
  intro e mem zero
  rcases each e mem with empty | holds
  · exact empty
  · have := (placed e holds).placed
    omega

/-- The normal form of empty and full extents: the full ones in order, with the same cells. -/
theorem normalizeExtents_spec (placed : ∀ e, P e → e.Placed)
    (merge : ∀ cur next, P cur → (next.extLen = 0 ∨ P next) → joins cur next = true → P (cur.setLen (cur.extLen + next.extLen)))
    (each : ∀ e ∈ extents, e.extLen = 0 ∨ P e) (disjoint : LogicallyDisjoint extents) :
    (∀ e ∈ normalizeExtents extents, P e) ∧ (normalizeExtents extents).Pairwise Extent.Before ∧
      (cellsOf (normalizeExtents extents)).Perm (cellsOf extents) := by
  have cells := cells_normalizeExtents extents (tidy_of_each placed each)
  have disjoint' : LogicallyDisjoint (normalizeExtents extents) :=
    (cells.map Prod.fst).nodup_iff.mpr disjoint
  have perm := exchangeSort_perm Extent.eeBlock extents
  have sorted := exchangeSort_sorted Extent.eeBlock extents
  have parts : (∀ e ∈ normalizeExtents extents, P e) ∧
      (normalizeExtents extents).Pairwise fun e f => e.eeBlock ≤ f.eeBlock := by
    rw [normalizeExtents]
    cases list : exchangeSort Extent.eeBlock extents with
    | nil => exact ⟨by simp, List.Pairwise.nil⟩
    | cons cur rest =>
      rw [list] at perm sorted
      refine ⟨?_, (coalesce_sorted rest cur sorted).1⟩
      exact coalesce_all (fun e holds => (placed e holds).not_isEmpty) merge rest cur
        fun e mem => each e (perm.mem_iff.mp mem)
  exact ⟨parts.1, before_of_sorted (fun e mem => placed e (parts.1 e mem)) parts.2 disjoint', cells⟩

theorem length_coalesce_le (rest : List Extent) :
    ∀ cur : Extent, (coalesce cur rest).length ≤ rest.length + 1 := by
  induction rest with
  | nil =>
    intro cur
    rw [coalesce]
    split
    · exact Nat.zero_le _
    · exact Nat.le_refl _
  | cons next rest ih =>
    intro cur
    rw [coalesce]
    split
    · exact Nat.le_succ_of_le (ih next)
    split
    · exact Nat.le_succ_of_le (ih _)
    · exact Nat.succ_le_succ (ih next)

theorem length_normalizeExtents_le (extents : List Extent) :
    (normalizeExtents extents).length ≤ extents.length := by
  have same := (exchangeSort_perm Extent.eeBlock extents).length_eq
  rw [normalizeExtents]
  cases list : exchangeSort Extent.eeBlock extents with
  | nil => exact Nat.zero_le _
  | cons cur rest =>
    rw [list] at same
    rw [← same]
    exact length_coalesce_le rest cur

theorem Loose.normalize (loose : Loose extents) :
    Sound (normalizeExtents extents) ∧ (cellsOf (normalizeExtents extents)).Perm (cellsOf extents) := by
  obtain ⟨fit, ordered, cells⟩ := normalizeExtents_spec (fun _ => Extent.Fit.toPlaced)
    (fun _ _ fit => fit.merge) loose.each loose.disjoint
  exact ⟨⟨fit, ordered⟩, cells⟩

theorem Loose.mapOf_normalize (loose : Loose extents) (b : Nat) :
    mapOf (normalizeExtents extents) b = mapOf extents b :=
  mapOf_normalizeExtents extents (tidy_of_each (fun _ => Extent.Fit.toPlaced) loose.each) loose.disjoint b

/-! ## Edits of a list -/

theorem Sound.edit (sound : Sound extents) {f : Extent → List Extent}
    {g : Nat × Nat × Bool → Option (Nat × Nat × Bool)} {src : Nat → Nat}
    (source : ∀ c d, g c = some d → c.1 = src d.1)
    (pieces : ∀ e ∈ extents, (∀ p ∈ f e, p.extLen = 0 ∨ p.Fit) ∧ cellsOf (f e) = e.cells.filterMap g) :
    Loose (extents.flatMap f) ∧ cellsOf (extents.flatMap f) = (cellsOf extents).filterMap g := by
  have cells : cellsOf (extents.flatMap f) = (cellsOf extents).filterMap g := by
    rw [cellsOf, cellsOf, List.flatMap_assoc, List.filterMap_flatMap]
    exact List.flatMap_congr fun e mem => (pieces e mem).2
  refine ⟨⟨fun p mem => ?_, ?_⟩, cells⟩
  · obtain ⟨e, listed, from_⟩ := List.mem_flatMap.mp mem
    exact (pieces e listed).1 p from_
  · rw [LogicallyDisjoint, ← cellsOf, cells]
    exact distinct_filterMap sound.disjoint source

theorem mapOf_edit {edited : List Extent} (disjoint : LogicallyDisjoint extents)
    {g : Nat × Nat × Bool → Option (Nat × Nat × Bool)} {src : Nat → Nat}
    (source : ∀ c d, g c = some d → c.1 = src d.1)
    (cells : cellsOf edited = (cellsOf extents).filterMap g) (b : Nat) :
    mapOf edited b = (mapOf extents (src b)).bind fun v =>
      (g (src b, v)).bind fun d => if d.1 = b then some d.2 else none := by
  rw [mapOf, ← cellsOf, cells]
  exact lookup_filterMap disjoint source b

theorem Extent.extLen_init {eeBlock len eeStart : Nat} {unwritten : Bool}
    (small : len ≤ maxBlocksPerExtent) : (Extent.init eeBlock len eeStart unwritten).extLen = len := by
  have bound : len < 2 ^ 31 := Nat.lt_of_le_of_lt small (by decide)
  rw [Extent.extLen, Extent.init, Nat.mod_eq_of_lt bound, Nat.min_eq_left small]

end SimpleFs

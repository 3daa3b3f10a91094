import KernelNotes.SimpleFs.Mapping

/-!
# When the normal form is canonical

`simplefs_file_normalize_extents` sorts the buffer and then merges in one pass. A cleared entry has
logical block zero, so after the sort all of them stand at the front, where the pass removes them.
Only the extent of logical block zero itself can have a cleared entry behind it: the pass then looks
at that entry instead of the next extent, goes on, and never compares the two again.
-/

namespace SimpleFs

open Lists Cells

/-- Full extents that share no block, and cleared entries, in any order. -/
structure Scattered (extents : List Extent) : Prop where
  each : ∀ e ∈ extents, e = e.clear ∨ e.Placed
  disjoint : LogicallyDisjoint extents

/-- A list in normal form that maps what the buffer maps. -/
structure Canonical (buffer extents : List Extent) : Prop where
  full : ∀ e ∈ extents, e.isEmpty = false
  sorted : extents.Pairwise fun e f => e.eeBlock < f.eeBlock
  maps : ∀ b, mapOf extents b = mapOf buffer b
  merged : extents.IsChain fun e f => joins e f = false
  stable : normalizeExtents extents = extents

/-- A cleared entry stands behind the extent of block zero, and this extent joins the first one of
the others. -/
def HidesJoin (buffer : List Extent) : Prop :=
  ∃ before e behind, buffer = before ++ e :: behind ∧ e.eeBlock = 0 ∧ e.isEmpty = false ∧
    (∃ f ∈ behind, f.isEmpty = true) ∧
    ∃ next, (normalizeExtents (before ++ behind)).head? = some next ∧ joins e next = true

/-! ## The pass over the sorted buffer -/

/-- The merge loop from the first extent on. -/
def mergeLoop : List Extent → List Extent
  | [] => []
  | cur :: rest => coalesce cur rest

theorem normalizeExtents_eq_mergeLoop (extents : List Extent) :
    normalizeExtents extents = mergeLoop (exchangeSort Extent.eeBlock extents) := by
  rw [normalizeExtents]
  cases exchangeSort Extent.eeBlock extents with
  | nil => rfl
  | cons cur rest => rfl

variable {e : Extent} {entries extents : List Extent}

theorem clear_isEmpty (cleared : e = e.clear) : e.isEmpty = true := by
  rw [cleared]
  rfl

theorem mergeLoop_cleared (cleared : e = e.clear) (rest : List Extent) :
    mergeLoop (e :: rest) = mergeLoop rest := by
  cases rest with
  | nil => exact if_pos (clear_isEmpty cleared)
  | cons next rest => exact if_pos (clear_isEmpty cleared)

theorem mergeLoop_cleared_append (cleared : ∀ e ∈ entries, e = e.clear) (rest : List Extent) :
    mergeLoop (entries ++ rest) = mergeLoop rest := by
  induction entries with
  | nil => rfl
  | cons e entries ih =>
    obtain ⟨first, later⟩ := List.forall_mem_cons.mp cleared
    rw [List.cons_append, mergeLoop_cleared first, ih later]

theorem joins_clear {f : Extent} (placed : e.Placed) (cleared : f = f.clear) :
    joins e f = false := by
  rw [← Bool.not_eq_true, joins_iff placed, cleared]
  rintro ⟨-, logical, -, -⟩
  have full := placed.full
  have : e.eeBlock + e.extLen = 0 := logical
  omega

theorem mergeLoop_behind (placed : e.Placed) (cleared : ∀ f ∈ entries, f = f.clear)
    (some_ : entries ≠ []) (rest : List Extent) :
    mergeLoop (e :: (entries ++ rest)) = e :: mergeLoop rest := by
  cases entries with
  | nil => exact absurd rfl some_
  | cons f entries =>
    have next : mergeLoop (f :: entries ++ rest) = mergeLoop rest := mergeLoop_cleared_append cleared rest
    have apart := joins_clear placed (cleared f List.mem_cons_self)
    rw [← next, mergeLoop, List.cons_append, coalesce, if_neg (by simp [placed.not_isEmpty]),
      if_neg (by simp [apart]), mergeLoop]

theorem joins_of_longer {f g : Extent} (placed : e.Placed) (block : f.eeBlock = g.eeBlock)
    (start : f.eeStart = g.eeStart) (state : f.unwritten = g.unwritten)
    (shorter : g.extLen ≤ f.extLen) (join : joins e f = true) : joins e g = true := by
  obtain ⟨same, logical, physical, small⟩ := (joins_iff placed).mp join
  exact (joins_iff placed).mpr ⟨by rw [same, state], by rw [logical, block], by rw [physical, start], by omega⟩

/-- Over full extents the pass leaves no two neighbours that join. The first extent keeps its
place and can only have grown. -/
theorem coalesce_chain (rest : List Extent) : ∀ cur : Extent, (∀ e ∈ cur :: rest, e.Placed) →
    (coalesce cur rest).IsChain (fun e f => joins e f = false) ∧
      ∃ first later, coalesce cur rest = first :: later ∧ first.eeBlock = cur.eeBlock ∧
        first.eeStart = cur.eeStart ∧ first.unwritten = cur.unwritten ∧ cur.extLen ≤ first.extLen := by
  induction rest with
  | nil =>
    intro cur placed
    rw [coalesce, if_neg (by simp [(placed cur List.mem_cons_self).not_isEmpty])]
    exact ⟨List.isChain_singleton _, cur, [], rfl, rfl, rfl, rfl, Nat.le_refl _⟩
  | cons next rest ih =>
    intro cur placed
    obtain ⟨here, later⟩ := List.forall_mem_cons.mp placed
    rw [coalesce, if_neg (by simp [here.not_isEmpty])]
    by_cases join : joins cur next = true
    · rw [if_pos join]
      have grown := here.merge (.inr (later next List.mem_cons_self)) join
      have length := Extent.extLen_setLen cur ((joins_iff here).mp join).2.2.2
      obtain ⟨chain, first, tail, eq, block, start, state, longer⟩ := ih _
        (List.forall_mem_cons.mpr ⟨grown, (List.forall_mem_cons.mp later).2⟩)
      exact ⟨chain, first, tail, eq, block, start, state, by omega⟩
    · rw [if_neg join]
      obtain ⟨chain, first, tail, eq, block, start, state, longer⟩ := ih next later
      refine ⟨?_, cur, _, rfl, rfl, rfl, rfl, Nat.le_refl _⟩
      rw [eq] at chain ⊢
      refine List.isChain_cons_cons.mpr ⟨?_, chain⟩
      rw [← Bool.not_eq_true]
      exact fun again => join (joins_of_longer here block start state longer again)

theorem coalesce_of_chain (rest : List Extent) : ∀ cur : Extent, (∀ e ∈ cur :: rest, e.isEmpty = false) →
    (cur :: rest).IsChain (fun e f => joins e f = false) → coalesce cur rest = cur :: rest := by
  induction rest with
  | nil =>
    intro cur full _
    rw [coalesce, if_neg (by simp [full cur List.mem_cons_self])]
  | cons next rest ih =>
    intro cur full chain
    obtain ⟨apart, later⟩ := List.isChain_cons_cons.mp chain
    obtain ⟨here, full⟩ := List.forall_mem_cons.mp full
    rw [coalesce, if_neg (by simp [here]), if_neg (by simp [apart]), ih next full later]

theorem normalizeExtents_of_chain (full : ∀ e ∈ extents, e.isEmpty = false)
    (sorted : extents.Pairwise fun e f => e.eeBlock < f.eeBlock)
    (chain : extents.IsChain fun e f => joins e f = false) :
    normalizeExtents extents = extents := by
  rw [normalizeExtents_eq_mergeLoop, exchangeSort_of_sorted _ _ (sorted.imp Nat.le_of_lt)]
  cases extents with
  | nil => rfl
  | cons cur rest => exact coalesce_of_chain rest cur full chain

/-! ## The sorted buffer -/

theorem LogicallyDisjoint.sublist {part : List Extent} (disjoint : LogicallyDisjoint extents)
    (sub : part.Sublist extents) : LogicallyDisjoint part := by
  rw [LogicallyDisjoint, List.map_flatMap, List.nodup_flatMap] at disjoint ⊢
  exact ⟨fun e mem => disjoint.1 e (sub.subset mem), disjoint.2.sublist sub⟩

theorem LogicallyDisjoint.perm {extents' : List Extent} (disjoint : LogicallyDisjoint extents)
    (same : extents.Perm extents') : LogicallyDisjoint extents' :=
  ((same.flatMap_right Extent.cells).map Prod.fst).nodup_iff.mp disjoint

theorem strict_of_sorted (placed : ∀ e ∈ extents, e.Placed)
    (before : extents.Pairwise Extent.Before) :
    extents.Pairwise fun e f => e.eeBlock < f.eeBlock := by
  refine before.imp_of_mem fun {e f} mem _ before => ?_
  have full := (placed e mem).full
  simp only [Extent.Before] at before
  omega

section

variable {buffer : List Extent} (scattered : Scattered buffer)

include scattered

theorem Scattered.each_empty_or_placed : ∀ e ∈ buffer, e.extLen = 0 ∨ e.Placed := by
  intro e mem
  rcases scattered.each e mem with cleared | placed
  · rw [cleared]
    exact .inl rfl
  · exact .inr placed

theorem Scattered.placed_of_ne_zero (mem : e ∈ buffer) (block : e.eeBlock ≠ 0) : e.Placed := by
  rcases scattered.each e mem with cleared | placed
  · rw [cleared] at block
    exact absurd rfl block
  · exact placed

theorem Scattered.cleared_of_isEmpty (mem : e ∈ buffer) (empty : e.isEmpty = true) :
    e = e.clear := by
  rcases scattered.each e mem with cleared | placed
  · exact cleared
  · rw [placed.not_isEmpty] at empty
    cases empty

theorem Scattered.above (same : entries.Perm buffer)
    (sorted : entries.Pairwise fun e f => e.eeBlock ≤ f.eeBlock) :
    (∀ e ∈ entries.filter (fun e => ¬ e.eeBlock = 0), e.Placed) ∧
      (entries.filter fun e => ¬ e.eeBlock = 0).Pairwise fun e f => e.eeBlock < f.eeBlock := by
  have placed : ∀ e ∈ entries.filter (fun e => ¬ e.eeBlock = 0), e.Placed := by
    intro e mem
    rw [List.mem_filter, decide_eq_true_eq] at mem
    exact scattered.placed_of_ne_zero (same.mem_iff.mp mem.1) mem.2
  have disjoint := (scattered.disjoint.perm same.symm).sublist
    (List.filter_sublist (p := fun e => ¬ e.eeBlock = 0))
  exact ⟨placed, strict_of_sorted placed
    (before_of_sorted placed (sorted.sublist List.filter_sublist) disjoint)⟩

theorem Scattered.exchangeSort_eq : exchangeSort Extent.eeBlock buffer =
    buffer.filter (fun e => e.eeBlock = 0) ++
      exchangeSort Extent.eeBlock (buffer.filter fun e => ¬ e.eeBlock = 0) := by
  have perm := exchangeSort_perm Extent.eeBlock buffer
  have aboveSorted := (scattered.above perm (exchangeSort_sorted _ _)).2
  have perm' := exchangeSort_perm Extent.eeBlock (buffer.filter fun e => ¬ e.eeBlock = 0)
  have placed : ∀ e ∈ exchangeSort Extent.eeBlock (buffer.filter fun e => ¬ e.eeBlock = 0), e.Placed := by
    intro e mem
    have listed := perm'.mem_iff.mp mem
    rw [List.mem_filter, decide_eq_true_eq] at listed
    exact scattered.placed_of_ne_zero listed.1 listed.2
  have sortedAbove := strict_of_sorted placed (before_of_sorted placed (exchangeSort_sorted _ _)
    ((scattered.disjoint.sublist List.filter_sublist).perm perm'.symm))
  have same := List.Perm.eq_of_pairwise (fun e f _ _ less more => absurd less (Nat.lt_asymm more))
    aboveSorted sortedAbove ((perm.filter _).trans perm'.symm)
  rw [← same]
  exact exchangeSort_eq_append Extent.eeBlock fun e _ => Nat.zero_le _

theorem Scattered.cleared_of_split {before behind : List Extent}
    (split : buffer = before ++ e :: behind) (placed : e.Placed) (first : e.eeBlock = 0) :
    ∀ f ∈ before ++ behind, f.eeBlock = 0 → f = f.clear := by
  intro f mem zero
  have perm : buffer.Perm (e :: (before ++ behind)) := split ▸ List.perm_middle
  rcases scattered.each f (perm.mem_iff.mpr (List.mem_cons_of_mem _ mem)) with cleared | placed'
  · exact cleared
  · have disjoint := scattered.disjoint.perm perm
    rw [LogicallyDisjoint, List.map_flatMap, List.nodup_flatMap] at disjoint
    have apart := (List.pairwise_cons.mp disjoint.2).1 f mem
    have inE : 0 ∈ e.cells.map Prod.fst := by
      rw [Extent.keys_cells (Nat.le_of_lt placed.logical), List.mem_range'_1]
      have := placed.full
      omega
    have inF : 0 ∈ f.cells.map Prod.fst := by
      rw [Extent.keys_cells (Nat.le_of_lt placed'.logical), List.mem_range'_1]
      have := placed'.full
      omega
    exact absurd inF (apart inE)

theorem Scattered.normalize_of_split {before behind : List Extent}
    (split : buffer = before ++ e :: behind) (placed : e.Placed) (first : e.eeBlock = 0) :
    ∃ above, (∀ f ∈ above, f.Placed) ∧ normalizeExtents (before ++ behind) = mergeLoop above ∧
      normalizeExtents buffer = if behind.any Extent.isEmpty then e :: mergeLoop above
        else mergeLoop (e :: above) := by
  have cleared := scattered.cleared_of_split split placed first
  have others : Scattered (before ++ behind) := by
    refine ⟨fun f mem => scattered.each f ?_, scattered.disjoint.sublist ?_⟩
    · rw [split]
      rcases List.mem_append.mp mem with early | late
      · exact List.mem_append_left _ early
      · exact List.mem_append_right _ (List.mem_cons_of_mem _ late)
    · rw [split]
      exact (List.sublist_cons_self e behind).append_left before
  have zeros : ∀ part : List Extent, (∀ f ∈ part, f ∈ before ++ behind) →
      ∀ f ∈ part.filter (fun f => f.eeBlock = 0), f = f.clear := by
    intro part inside f mem
    rw [List.mem_filter, decide_eq_true_eq] at mem
    exact cleared f (inside f mem.1) mem.2
  have early := zeros before fun f => List.mem_append_left _
  have late := zeros behind fun f => List.mem_append_right _
  refine ⟨exchangeSort Extent.eeBlock ((before ++ behind).filter fun f => ¬ f.eeBlock = 0), ?_, ?_, ?_⟩
  · intro f mem
    have listed := (exchangeSort_perm _ _).mem_iff.mp mem
    rw [List.mem_filter, decide_eq_true_eq] at listed
    exact others.placed_of_ne_zero listed.1 listed.2
  · rw [normalizeExtents_eq_mergeLoop, others.exchangeSort_eq,
      mergeLoop_cleared_append (zeros _ fun f mem => mem)]
  · have same : buffer.filter (fun f => ¬ f.eeBlock = 0) =
        (before ++ behind).filter fun f => ¬ f.eeBlock = 0 := by
      rw [split, List.filter_append, List.filter_cons_of_neg (by simpa using first), List.filter_append]
    rw [normalizeExtents_eq_mergeLoop, scattered.exchangeSort_eq, same]
    rw [split, List.filter_append, List.filter_cons_of_pos (by simpa using first), List.append_assoc,
      mergeLoop_cleared_append early, List.cons_append]
    by_cases hides : behind.any Extent.isEmpty = true
    · rw [if_pos hides]
      obtain ⟨f, mem, empty⟩ := List.any_eq_true.mp hides
      have cleared : f = f.clear := scattered.cleared_of_isEmpty (by
        rw [split]
        exact List.mem_append_right _ (List.mem_cons_of_mem _ mem)) empty
      refine mergeLoop_behind placed late ?_ _
      intro none_
      have listed : f ∈ behind.filter (fun f => f.eeBlock = 0) := by
        rw [List.mem_filter, decide_eq_true_eq]
        refine ⟨mem, ?_⟩
        rw [cleared]
        rfl
      rw [none_] at listed
      cases listed
    · rw [if_neg hides]
      have none_ : behind.filter (fun f => f.eeBlock = 0) = [] := by
        rw [List.filter_eq_nil_iff]
        intro f mem zero
        rw [decide_eq_true_eq] at zero
        have empty := clear_isEmpty (cleared f (List.mem_append_right _ mem) zero)
        exact hides (List.any_eq_true.mpr ⟨f, mem, empty⟩)
      rw [none_, List.nil_append]

/-- What holds of every normal form: full extents in strict order that map the same blocks. -/
theorem Scattered.normalize : (∀ e ∈ normalizeExtents buffer, e.Placed) ∧
    ((normalizeExtents buffer).Pairwise fun e f => e.eeBlock < f.eeBlock) ∧
    ∀ b, mapOf (normalizeExtents buffer) b = mapOf buffer b := by
  have each := scattered.each_empty_or_placed
  obtain ⟨placed, before, -⟩ := normalizeExtents_spec (fun _ placed => placed)
    (fun _ _ placed => placed.merge) each scattered.disjoint
  refine ⟨placed, strict_of_sorted placed before, fun b => ?_⟩
  exact mapOf_normalizeExtents buffer (tidy_of_each (fun _ placed => placed) each) scattered.disjoint b

theorem Scattered.canonical_of_chain
    (chain : (normalizeExtents buffer).IsChain fun e f => joins e f = false) :
    Canonical buffer (normalizeExtents buffer) := by
  obtain ⟨placed, sorted, maps⟩ := scattered.normalize
  have full : ∀ e ∈ normalizeExtents buffer, e.isEmpty = false := fun e mem => (placed e mem).not_isEmpty
  exact ⟨full, sorted, maps, chain, normalizeExtents_of_chain full sorted chain⟩

end

theorem mergeLoop_chain (placed : ∀ e ∈ extents, e.Placed) :
    (mergeLoop extents).IsChain fun e f => joins e f = false := by
  cases extents with
  | nil => exact List.isChain_nil
  | cons cur rest => exact (coalesce_chain rest cur placed).1

/-- Two extents that join, out of order, around a cleared entry. -/
def turnedBuffer : List Extent := [⟨6, 2, 22, false⟩, ⟨0, 0, 0, false⟩, ⟨4, 2, 20, false⟩]

theorem turnedBuffer_scattered : Scattered turnedBuffer where
  each := by
    intro e mem
    simp only [turnedBuffer, List.mem_cons, List.not_mem_nil, or_false] at mem
    rcases mem with rfl | rfl | rfl
    · exact .inr ⟨by decide, by decide, by decide⟩
    · exact .inl rfl
    · exact .inr ⟨by decide, by decide, by decide⟩
  disjoint := by decide

/-- What a punched hole from block 8100 to block 30000 makes of three extents of a file: the second
one is cut short and the third one is cleared. -/
def punchedBuffer : List Extent :=
  [⟨0, 8000, 100, false⟩, ⟨8000, 100, 8100, false⟩, ⟨0, 0, 0, false⟩]

theorem punchedBuffer_scattered : Scattered punchedBuffer where
  each := by
    intro e mem
    simp only [punchedBuffer, List.mem_cons, List.not_mem_nil, or_false] at mem
    rcases mem with rfl | rfl | rfl
    · exact .inr ⟨by decide, by decide, by decide⟩
    · exact .inr ⟨by decide, by decide, by decide⟩
    · exact .inl rfl
  disjoint := by
    have sound : Sound [⟨0, 8000, 100, false⟩, ⟨8000, 100, 8100, false⟩] := by
      refine ⟨fun e mem => ?_, ?_⟩
      · simp only [List.mem_cons, List.not_mem_nil, or_false] at mem
        rcases mem with rfl | rfl
        · exact ⟨⟨by decide, by decide, by decide⟩, by decide⟩
        · exact ⟨⟨by decide, by decide, by decide⟩, by decide⟩
      · exact List.pairwise_pair.mpr (Nat.le_refl 8000)
    exact sound.disjoint

end SimpleFs

import KernelNotes.SimpleFs.FileRelease

/-!
# Edits of the extents, one by one

An operation that takes blocks out of the list handles one extent after the other: it replaces the
extent by pieces and notes the ranges that are freed. Within one extent the blocks that are dropped
are a stretch, so there is a part before the stretch, the stretch, and a part behind it, any of
which can be empty. Truncating and punching leave the two other parts where they are.
-/

namespace SimpleFs

open Cells

/-- A part of an extent, from its block `k` on, at another place in the file. -/
theorem Extent.Fit.moved {e p : Extent} (fit : e.Fit) {k n : Nat} (inside : k + n ≤ e.extLen)
    (full : 0 < n) (length : p.extLen = n) (start : p.eeStart = (e.eeStart + k) % wordSize)
    (logical : p.eeBlock + n < wordSize) :
    p.Fit ∧ p.cells = run p.eeBlock (e.eeStart + k) p.unwritten n := by
  have physical := fit.physical
  have placed := fit.placed
  rw [Nat.mod_eq_of_lt (by omega)] at start
  have fits : p.Fit := ⟨⟨by omega, by omega, by omega⟩, by omega⟩
  exact ⟨fits, by rw [fits.cells, length, start]⟩

theorem Extent.Fit.piece {e p : Extent} (fit : e.Fit) {k n : Nat} (inside : k + n ≤ e.extLen)
    (full : 0 < n) (length : p.extLen = n) (block : p.eeBlock = e.eeBlock + k)
    (start : p.eeStart = (e.eeStart + k) % wordSize) :
    p.Fit ∧ p.cells = run (e.eeBlock + k) (e.eeStart + k) p.unwritten n := by
  have logical := fit.logical
  rw [← block]
  exact fit.moved inside full length start (by omega)

/-- The first `n` blocks of an extent. -/
theorem Extent.Fit.keep {e : Extent} (fit : e.Fit) {n : Nat} (full : 0 < n) (inside : n ≤ e.extLen) :
    (e.setLen n).Fit ∧ (e.setLen n).cells = run e.eeBlock e.eeStart e.unwritten n := by
  have physical := fit.physical
  have length := Extent.extLen_setLen e (Nat.le_trans inside (Extent.extLen_le e))
  have start : e.eeStart = (e.eeStart + 0) % wordSize := by
    rw [Nat.add_zero, Nat.mod_eq_of_lt (by omega)]
  exact fit.piece (k := 0) (by omega) full length rfl start

namespace File

/-- The pieces of an extent are its cells after an edit, and the ranges hold the blocks of those that
the edit drops. -/
structure EditBy (g : Nat × Nat × Bool → Option (Nat × Nat × Bool)) (pieces : Extent → List Extent)
    (freed : Extent → List BlockRange) (e : Extent) : Prop where
  each : ∀ p ∈ pieces e, p.extLen = 0 ∨ p.Fit
  cells : cellsOf (pieces e) = e.cells.filterMap g
  full : ∀ range ∈ freed e, 0 < range.len
  gone : (freed e).flatMap BlockRange.blocks = targets (e.cells.filter fun c => (g c).isNone)

section

variable {g : Nat × Nat × Bool → Option (Nat × Nat × Bool)} {src : Nat → Nat}
  {pieces : Extent → List Extent} {freed : Extent → List BlockRange} {extents : List Extent}

theorem editBy_gone (each : ∀ e ∈ extents, EditBy g pieces freed e) :
    (extents.flatMap freed).flatMap BlockRange.blocks =
      targets ((cellsOf extents).filter fun c => (g c).isNone) := by
  rw [List.flatMap_assoc, cellsOf, List.filter_flatMap, targets_flatMap]
  exact List.flatMap_congr fun e mem => (each e mem).gone

variable (sound : Sound extents) (source : ∀ c d, g c = some d → c.1 = src d.1)
  (each : ∀ e ∈ extents, EditBy g pieces freed e)

include sound each

theorem editBy_freed_iff (p : Nat) : p ∈ (extents.flatMap freed).flatMap BlockRange.blocks ↔
    ∃ b u, g (b, p, u) = none ∧ mapOf extents b = some (p, u) := by
  rw [editBy_gone each, mem_targets]
  refine exists_congr fun b => exists_congr fun u => ?_
  rw [List.mem_filter, mapOf_eq_some_iff sound.disjoint, and_comm, Option.isNone_iff_eq_none]

include source

theorem editBy_cells : Loose (extents.flatMap pieces) ∧
    cellsOf (extents.flatMap pieces) = (cellsOf extents).filterMap g :=
  sound.edit source fun e mem => ⟨(each e mem).each, (each e mem).cells⟩

theorem editBy_cut (keeps : ∀ c d, g c = some d → d.2.1 = c.2.1) :
    Cut extents (extents.flatMap pieces) (extents.flatMap freed) where
  loose := (editBy_cells sound source each).1
  full range mem := by
    obtain ⟨e, listed, from_⟩ := List.mem_flatMap.mp mem
    exact (each e listed).full range from_
  blocks := by
    rw [editBy_gone each, dataBlocks, dataBlocks, (editBy_cells sound source each).2]
    exact targets_filterMap (cellsOf extents) keeps

theorem editBy_mapOf (b : Nat) :
    mapOf (extents.flatMap pieces) b = (mapOf extents (src b)).bind fun v =>
      (g (src b, v)).bind fun d => if d.1 = b then some d.2 else none :=
  mapOf_edit sound.disjoint source (editBy_cells sound source each).2 b

end

/-! ## Cuts -/

/-- The edit that keeps the blocks that pass a test. -/
def keepIf (keep : Nat → Bool) (c : Nat × Nat × Bool) : Option (Nat × Nat × Bool) :=
  if keep c.1 then some c else none

theorem keepIf_eq_some {keep : Nat → Bool} {c d : Nat × Nat × Bool} (kept : keepIf keep c = some d) :
    c = d := by
  rw [keepIf] at kept
  split at kept
  · cases kept
    rfl
  · cases kept

theorem keepIf_source (keep : Nat → Bool) (c d : Nat × Nat × Bool) (kept : keepIf keep c = some d) :
    c.1 = id d.1 :=
  congrArg Prod.fst (keepIf_eq_some kept)

section

variable {keep : Nat → Bool} {pieces : Extent → List Extent} {freed : Extent → List BlockRange}
  {extents : List Extent} (sound : Sound extents)
  (each : ∀ e ∈ extents, EditBy (keepIf keep) pieces freed e)

include sound each

theorem cutBy_cut : Cut extents (extents.flatMap pieces) (extents.flatMap freed) :=
  editBy_cut sound (keepIf_source keep) each fun _ _ kept => by rw [keepIf_eq_some kept]

theorem cutBy_mapOf (b : Nat) :
    mapOf (extents.flatMap pieces) b = if keep b then mapOf extents b else none := by
  rw [editBy_mapOf sound (keepIf_source keep) each, id]
  cases mapped : mapOf extents b with
  | none => rw [Option.bind_none, ite_self]
  | some v =>
    rw [Option.bind_some, keepIf]
    split
    · rw [Option.bind_some, if_pos rfl]
    · rfl

theorem cutBy_freed_iff (p : Nat) : p ∈ (extents.flatMap freed).flatMap BlockRange.blocks ↔
    ∃ b u, keep b = false ∧ mapOf extents b = some (p, u) := by
  rw [editBy_freed_iff sound each]
  refine exists_congr fun b => exists_congr fun u => and_congr_left fun _ => ?_
  rw [keepIf]
  simp

theorem cutBy_unchanged (nothing : extents.flatMap freed = []) (b : Nat) :
    mapOf (extents.flatMap pieces) b = mapOf extents b := by
  rw [cutBy_mapOf sound each]
  split
  · rfl
  · rename_i fails
    rw [Bool.not_eq_true] at fails
    cases mapped : mapOf extents b with
    | none => rfl
    | some v =>
      have gone := (cutBy_freed_iff sound each v.1).mpr ⟨b, v.2, fails, mapped⟩
      rw [nothing] at gone
      cases gone

end

/-! ## One extent -/

/-- The cells of an extent around a stretch of `m` blocks that are dropped, when the blocks before
it stay and those behind it go to `d`. -/
theorem edit_stretch {e : Extent} (fit : e.Fit) {g : Nat × Nat × Bool → Option (Nat × Nat × Bool)}
    {a m t : Nat} (d : Nat) (sum : a + m + t = e.extLen)
    (low : ∀ k < a, ∀ v, g (e.eeBlock + k, v) = some (e.eeBlock + k, v))
    (mid : ∀ k < m, ∀ v, g (e.eeBlock + a + k, v) = none)
    (high : ∀ k < t, ∀ v, g (e.eeBlock + (a + m) + k, v) = some (d + k, v)) :
    e.cells.filterMap g = run e.eeBlock e.eeStart e.unwritten a ++
        run d (e.eeStart + (a + m)) e.unwritten t ∧
      targets (e.cells.filter fun c => (g c).isNone) = List.range' (e.eeStart + a) m := by
  have cells : e.cells = run e.eeBlock e.eeStart e.unwritten a ++
      run (e.eeBlock + a) (e.eeStart + a) e.unwritten m ++
      run (e.eeBlock + (a + m)) (e.eeStart + (a + m)) e.unwritten t := by
    rw [fit.cells, ← sum, run_add, run_add]
  rw [cells, List.filterMap_append, List.filterMap_append, List.filter_append, List.filter_append]
  constructor
  · rw [filterMap_run_some fun k small => low k small _, filterMap_run_none fun k small => mid k small _,
      filterMap_run_some fun k small => high k small _, List.append_nil]
  · rw [filter_run_eq_nil fun k small => by rw [low k small]; rfl,
      filter_run_eq_self fun k small => by rw [mid k small]; rfl,
      filter_run_eq_nil fun k small => by rw [high k small]; rfl,
      List.nil_append, List.append_nil, targets_run]

theorem keep_stretch {e : Extent} (fit : e.Fit) {keep : Nat → Bool} {a m t : Nat}
    (sum : a + m + t = e.extLen) (low : ∀ k < a, keep (e.eeBlock + k) = true)
    (mid : ∀ k < m, keep (e.eeBlock + a + k) = false)
    (high : ∀ k < t, keep (e.eeBlock + (a + m) + k) = true) :
    e.cells.filterMap (keepIf keep) = run e.eeBlock e.eeStart e.unwritten a ++
        run (e.eeBlock + (a + m)) (e.eeStart + (a + m)) e.unwritten t ∧
      targets (e.cells.filter fun c => (keepIf keep c).isNone) = List.range' (e.eeStart + a) m :=
  edit_stretch fit _ sum (fun k small _ => if_pos (low k small))
    (fun k small _ => if_neg (by simp [mid k small])) fun k small _ => if_pos (high k small)

/-- What `simplefs_append_extent_slice` appends of an extent. -/
theorem slice_spec {e : Extent} (fit : e.Fit) {k len d : Nat} (inside : k + len ≤ e.extLen)
    (logical : d + len < wordSize) :
    (∀ p ∈ slice e d len ((e.eeStart + k) % wordSize), p.extLen = 0 ∨ p.Fit) ∧
      cellsOf (slice e d len ((e.eeStart + k) % wordSize)) = run d (e.eeStart + k) e.unwritten len := by
  have small := Extent.extLen_le e
  rw [slice]
  by_cases empty : len = 0
  · rw [if_pos empty, empty]
    exact ⟨nofun, rfl⟩
  · rw [if_neg empty]
    obtain ⟨fits, cells⟩ := @Extent.Fit.moved e (.init d len ((e.eeStart + k) % wordSize) e.unwritten) fit
      k len inside (Nat.pos_of_ne_zero empty) (Extent.extLen_init (by omega)) rfl logical
    exact ⟨List.forall_mem_singleton.mpr (.inr fits), (cellsOf_singleton _).trans cells⟩

theorem slice_whole_spec {e : Extent} (fit : e.Fit) {len d : Nat} (inside : len ≤ e.extLen)
    (logical : d + len < wordSize) :
    (∀ p ∈ slice e d len e.eeStart, p.extLen = 0 ∨ p.Fit) ∧
      cellsOf (slice e d len e.eeStart) = run d e.eeStart e.unwritten len := by
  have physical := fit.physical
  have spec := @slice_spec e fit 0 len d (by omega) logical
  rw [Nat.add_zero, Nat.mod_eq_of_lt (by omega)] at spec
  exact spec

theorem blocks_singleton (range : BlockRange) :
    [range].flatMap BlockRange.blocks = List.range' range.start range.len := List.append_nil _

theorem truncate_cutBy (newBlocks : Nat) {e : Extent} (fit : e.Fit) :
    EditBy (keepIf fun b => decide (b < newBlocks)) (truncatePieces newBlocks) (truncateFreed newBlocks) e := by
  have full := fit.full
  by_cases past : newBlocks ≤ e.eeBlock
  · obtain ⟨kept, gone⟩ := @keep_stretch e fit (fun b => decide (b < newBlocks)) 0 e.extLen 0
      (by omega) nofun (fun k _ => by simp; omega) nofun
    constructor
    · simp only [truncatePieces, if_pos past, List.forall_mem_singleton]
      exact .inl rfl
    · rw [truncatePieces, if_pos past, kept]
      rfl
    · simpa only [truncateFreed, if_pos past, List.forall_mem_singleton] using full
    · rw [truncateFreed, if_pos past, gone, blocks_singleton]
      rfl
  by_cases cut : newBlocks < e.extEnd
  · have inside := cut
    rw [fit.extEnd] at inside
    have physical := fit.physical
    obtain ⟨piece, cells⟩ := @Extent.Fit.keep e fit (newBlocks - e.eeBlock) (by omega) (by omega)
    obtain ⟨kept, gone⟩ := @keep_stretch e fit (fun b => decide (b < newBlocks)) (newBlocks - e.eeBlock)
      (e.extLen - (newBlocks - e.eeBlock)) 0 (by omega) (fun k _ => by simp; omega)
      (fun k _ => by simp; omega) nofun
    constructor
    · simp only [truncatePieces, if_neg past, if_pos cut, List.forall_mem_singleton]
      exact .inr piece
    · rw [truncatePieces, if_neg past, if_pos cut, kept, cellsOf_singleton, cells, run_zero, List.append_nil]
    · simp only [truncateFreed, if_neg past, if_pos cut, List.forall_mem_singleton]
      omega
    · rw [truncateFreed, if_neg past, if_pos cut, gone, blocks_singleton, Nat.mod_eq_of_lt (by omega)]
  · have inside := cut
    rw [fit.extEnd] at inside
    obtain ⟨kept, gone⟩ := @keep_stretch e fit (fun b => decide (b < newBlocks)) e.extLen 0 0
      (by omega) (fun k _ => by simp; omega) nofun nofun
    constructor
    · simp only [truncatePieces, if_neg past, if_neg cut, List.forall_mem_singleton]
      exact .inr fit
    · rw [truncatePieces, if_neg past, if_neg cut, kept, cellsOf_singleton, fit.cells, run_zero,
        List.append_nil]
    · simp only [truncateFreed, if_neg past, if_neg cut]
      exact nofun
    · rw [truncateFreed, if_neg past, if_neg cut, gone]
      rfl

theorem length_truncateFreed (newBlocks : Nat) {extents : List Extent} (sound : Sound extents) :
    (extents.flatMap (truncateFreed newBlocks)).length =
      (extents.filter fun e => decide (newBlocks < e.extEnd)).length := by
  refine Lists.length_flatMap_eq_filter fun e mem => ?_
  have fit := sound.fit e mem
  have full := fit.full
  rw [truncateFreed, fit.extEnd]
  by_cases past : newBlocks ≤ e.eeBlock
  · rw [if_pos past, if_pos (by simp; omega)]
    rfl
  · rw [if_neg past]
    by_cases cut : newBlocks < e.eeBlock + e.extLen
    · rw [if_pos cut, if_pos (by simpa using cut)]
      rfl
    · rw [if_neg cut, if_neg (by simpa using cut)]
      rfl

theorem length_truncatePieces (newBlocks : Nat) (extents : List Extent) :
    (extents.flatMap (truncatePieces newBlocks)).length = extents.length := by
  rw [Lists.length_flatMap_eq_filter (p := fun _ => true), List.filter_true]
  intro e _
  rw [truncatePieces, if_pos rfl]
  split
  · rfl
  · split
    · rfl
    · rfl

theorem punch_cutBy {firstFull lastExcl : Nat} (some_ : firstFull < lastExcl) {e : Extent} (fit : e.Fit) :
    EditBy (keepIf fun b => !(decide (firstFull ≤ b) && decide (b < lastExcl))) (punchPieces firstFull lastExcl)
      (punchFreed firstFull lastExcl) e := by
  have full := fit.full
  have physical := fit.physical
  have small := Extent.extLen_le e
  have keep := fun a m t =>
    @keep_stretch e fit (fun b => !(decide (firstFull ≤ b) && decide (b < lastExcl))) a m t
  by_cases outside : e.eeBlock + e.extLen ≤ firstFull ∨ lastExcl ≤ e.eeBlock
  · obtain ⟨kept, gone⟩ := keep e.extLen 0 0 (by omega) (fun k _ => by simp; omega) nofun nofun
    rw [← fit.extEnd] at outside
    constructor
    · simp only [punchPieces, if_pos outside, List.forall_mem_singleton]
      exact .inr fit
    · rw [punchPieces, if_pos outside, kept, cellsOf_singleton, fit.cells, run_zero, List.append_nil]
    · simp only [punchFreed, if_pos outside]
      exact nofun
    · rw [punchFreed, if_pos outside, gone]
      rfl
  by_cases inside : firstFull ≤ e.eeBlock ∧ e.eeBlock + e.extLen ≤ lastExcl
  · obtain ⟨kept, gone⟩ := keep 0 e.extLen 0 (by omega) nofun (fun k _ => by simp; omega) nofun
    rw [← fit.extEnd] at outside inside
    constructor
    · simp only [punchPieces, if_neg outside, if_pos inside, List.forall_mem_singleton]
      exact .inl rfl
    · rw [punchPieces, if_neg outside, if_pos inside, kept]
      rfl
    · simpa only [punchFreed, if_neg outside, if_pos inside, List.forall_mem_singleton] using full
    · rw [punchFreed, if_neg outside, if_pos inside, gone, blocks_singleton]
      rfl
  by_cases split_ : e.eeBlock < firstFull ∧ lastExcl < e.eeBlock + e.extLen
  · obtain ⟨kept, gone⟩ := keep (firstFull - e.eeBlock) (lastExcl - firstFull)
      (e.eeBlock + e.extLen - lastExcl) (by omega) (fun k _ => by simp; omega)
      (fun k _ => by simp; omega) (fun k _ => by simp; omega)
    obtain ⟨front, frontCells⟩ := @Extent.Fit.keep e fit (firstFull - e.eeBlock) (by omega) (by omega)
    have behind := @Extent.Fit.piece e (.init lastExcl (e.eeBlock + e.extLen - lastExcl)
      ((e.eeStart + (firstFull - e.eeBlock) + (lastExcl - firstFull)) % wordSize) e.unwritten) fit
      (firstFull - e.eeBlock + (lastExcl - firstFull)) (e.eeBlock + e.extLen - lastExcl) (by omega)
      (by omega) (Extent.extLen_init (by omega)) (by show lastExcl = _; omega)
      (by rw [← Nat.add_assoc]; rfl)
    rw [← fit.extEnd] at outside inside split_ behind kept
    constructor
    · simp only [punchPieces, if_neg outside, if_neg inside, if_pos split_]
      exact List.forall_mem_cons.mpr ⟨.inr front, List.forall_mem_singleton.mpr (.inr behind.1)⟩
    · rw [punchPieces, if_neg outside, if_neg inside, if_pos split_, kept, cellsOf, List.flatMap_cons,
        frontCells, ← cellsOf, cellsOf_singleton, behind.2]
      rfl
    · simp only [punchFreed, if_neg outside, if_neg inside, if_pos split_, List.forall_mem_singleton]
      omega
    · rw [punchFreed, if_neg outside, if_neg inside, if_pos split_, gone, blocks_singleton,
        Nat.mod_eq_of_lt (by rw [fit.extEnd] at split_; omega)]
  by_cases head : e.eeBlock < firstFull
  · obtain ⟨kept, gone⟩ := keep (firstFull - e.eeBlock) (e.extLen - (firstFull - e.eeBlock)) 0
      (by omega) (fun k _ => by simp; omega) (fun k _ => by simp; omega) nofun
    obtain ⟨front, frontCells⟩ := @Extent.Fit.keep e fit (firstFull - e.eeBlock) (by omega) (by omega)
    have long : firstFull - e.eeBlock < e.extLen := by omega
    rw [← fit.extEnd] at outside inside split_
    constructor
    · simp only [punchPieces, if_neg outside, if_neg inside, if_neg split_, if_pos head,
        List.forall_mem_singleton]
      exact .inr front
    · rw [punchPieces, if_neg outside, if_neg inside, if_neg split_, if_pos head, kept,
        cellsOf_singleton, frontCells, run_zero, List.append_nil]
    · simp only [punchFreed, if_neg outside, if_neg inside, if_neg split_, if_pos head,
        List.forall_mem_singleton]
      omega
    · rw [punchFreed, if_neg outside, if_neg inside, if_neg split_, if_pos head, gone,
        blocks_singleton, Nat.mod_eq_of_lt (by omega)]
  · obtain ⟨kept, gone⟩ := keep 0 (lastExcl - e.eeBlock) (e.extLen - (lastExcl - e.eeBlock))
      (by omega) nofun (fun k _ => by simp; omega) (fun k _ => by simp; omega)
    have behind := @Extent.Fit.piece e (({ e with
        eeBlock := lastExcl
        eeStart := (e.eeStart + (lastExcl - e.eeBlock)) % wordSize } : Extent).setLen
      (e.extLen - (lastExcl - e.eeBlock))) fit (lastExcl - e.eeBlock)
      (e.extLen - (lastExcl - e.eeBlock)) (by omega) (by omega)
      (Extent.extLen_setLen _ (by omega)) (by show lastExcl = _; omega) rfl
    have long : lastExcl - e.eeBlock < e.extLen := by omega
    have some' : 0 < lastExcl - e.eeBlock := by omega
    rw [← fit.extEnd] at outside inside split_
    constructor
    · simp only [punchPieces, if_neg outside, if_neg inside, if_neg split_, if_neg head,
        List.forall_mem_singleton]
      exact .inr behind.1
    · rw [punchPieces, if_neg outside, if_neg inside, if_neg split_, if_neg head, kept,
        cellsOf_singleton, behind.2, Nat.zero_add]
      rfl
    · simpa only [punchFreed, if_neg outside, if_neg inside, if_neg split_, if_neg head,
        List.forall_mem_singleton] using some'
    · rw [punchFreed, if_neg outside, if_neg inside, if_neg split_, if_neg head, gone,
        blocks_singleton]
      rfl

end File

end SimpleFs

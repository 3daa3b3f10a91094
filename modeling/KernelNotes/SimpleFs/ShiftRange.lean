import KernelNotes.SimpleFs.PunchHole

/-!
# Inserting and collapsing a range

Both rebuild the whole list. An insertion moves the blocks from the range on behind it, a collapse
frees the blocks of the range and moves those behind it to its start. Each is described by its
effect on the map, and that the second undoes the first is read off the two effects.
-/

namespace SimpleFs

open Outcome Cells

namespace File

/-- The edit of an insertion of `n` blocks at `s`. -/
def openAt (s n : Nat) (c : Nat × Nat × Bool) : Option (Nat × Nat × Bool) :=
  some (if c.1 < s then c.1 else c.1 + n, c.2)

/-- The edit of a collapse of `n` blocks at `s`. -/
def closeAt (s n : Nat) (c : Nat × Nat × Bool) : Option (Nat × Nat × Bool) :=
  if c.1 < s then some c else if c.1 < s + n then none else some (c.1 - n, c.2)

/-- Where a block of the longer file was before the insertion. -/
def openSource (s n b : Nat) : Nat := if b < s then b else b - n

/-- Where a block of the shorter file was before the collapse. -/
def closeSource (s n b : Nat) : Nat := if b < s then b else b + n

theorem openAt_source (s n : Nat) (c d : Nat × Nat × Bool) (moved : openAt s n c = some d) :
    c.1 = openSource s n d.1 := by
  cases moved
  rw [openSource]
  dsimp only
  by_cases low : c.1 < s
  · rw [if_pos low, if_pos low]
  · rw [if_neg low, if_neg (by omega), Nat.add_sub_cancel]

theorem closeAt_source (s n : Nat) (c d : Nat × Nat × Bool) (moved : closeAt s n c = some d) :
    c.1 = closeSource s n d.1 := by
  rw [closeAt] at moved
  rw [closeSource]
  by_cases low : c.1 < s
  · rw [if_pos low] at moved
    cases moved
    rw [if_pos low]
  · rw [if_neg low] at moved
    by_cases mid : c.1 < s + n
    · rw [if_pos mid] at moved
      cases moved
    · rw [if_neg mid] at moved
      cases moved
      dsimp only
      rw [if_neg (by omega), Nat.sub_add_cancel (by omega)]

theorem openAt_keeps (s n : Nat) (c d : Nat × Nat × Bool) (moved : openAt s n c = some d) :
    d.2.1 = c.2.1 := by
  cases moved
  rfl

theorem closeAt_keeps (s n : Nat) (c d : Nat × Nat × Bool) (moved : closeAt s n c = some d) :
    d.2.1 = c.2.1 := by
  rw [closeAt] at moved
  split at moved
  · cases moved
    rfl
  · split at moved
    · cases moved
    · cases moved
      rfl

theorem closeAt_eq_none (s n b : Nat) (v : Nat × Bool) :
    closeAt s n (b, v) = none ↔ s ≤ b ∧ b < s + n := by
  rw [closeAt]
  dsimp only
  split
  · constructor
    · exact nofun
    · omega
  · split
    · exact ⟨fun _ => by omega, fun _ => rfl⟩
    · constructor
      · exact nofun
      · omega

/-! ## One extent -/

variable {s n t : Nat} {extents : List Extent}

theorem insert_editBy {e : Extent} (fit : e.Fit)
    (fits : s < e.extEnd → e.eeBlock + e.extLen + n < wordSize) :
    EditBy (openAt s n) (insertPieces s n) (fun _ => []) e := by
  have full := fit.full
  have logical := fit.logical
  have stays : ∀ b v, b < s → openAt s n (b, v) = some (b, v) := fun b v low => by
    rw [openAt, if_pos low]
  have moves : ∀ b v, s ≤ b → openAt s n (b, v) = some (b + n, v) := fun b v past => by
    rw [openAt, if_neg (Nat.not_lt.mpr past)]
  have nothing : ∀ l : List (Nat × Nat × Bool), l.filter (fun c => (openAt s n c).isNone) = [] := fun l => by
    rw [List.filter_eq_nil_iff]
    exact fun c _ => Bool.false_ne_true
  have edit := fun a t d => @edit_stretch e fit (openAt s n) a 0 t d
  suffices (∀ p ∈ insertPieces s n e, p.extLen = 0 ∨ p.Fit) ∧
      cellsOf (insertPieces s n e) = e.cells.filterMap (openAt s n) from
    ⟨this.1, this.2, nofun, by rw [nothing]; rfl⟩
  rw [insertPieces]
  rw [fit.extEnd] at fits ⊢
  by_cases before : e.eeBlock + e.extLen ≤ s
  · obtain ⟨cells, -⟩ := edit e.extLen 0 0 (by omega) (fun k _ v => stays _ v (by omega)) nofun nofun
    rw [if_pos before, cells, cellsOf_singleton, fit.cells, run_zero, List.append_nil]
    exact ⟨List.forall_mem_singleton.mpr (.inr fit), rfl⟩
  rw [if_neg before]
  have room := fits (by omega)
  by_cases behind : s ≤ e.eeBlock
  · obtain ⟨cells, -⟩ := edit 0 e.extLen (e.eeBlock + n) (by omega) nofun nofun
      (fun k _ v => by rw [moves _ v (by omega)]; congr 2; omega)
    rw [if_pos behind, Nat.mod_eq_of_lt (by omega), cells, run_zero, List.nil_append]
    exact slice_whole_spec fit (Nat.le_refl _) (by omega)
  · obtain ⟨cells, -⟩ := edit (s - e.eeBlock) (e.eeBlock + e.extLen - s) (s + n) (by omega)
      (fun k _ v => stays _ v (by omega)) nofun
      (fun k _ v => by rw [moves _ v (by omega)]; congr 2; omega)
    obtain ⟨front, frontCells⟩ := @slice_whole_spec e fit (s - e.eeBlock) e.eeBlock (by omega) (by omega)
    obtain ⟨back, backCells⟩ := @slice_spec e fit (s - e.eeBlock) (e.eeBlock + e.extLen - s) (s + n)
      (by omega) (by omega)
    rw [if_neg behind, Nat.mod_eq_of_lt (by omega : s + n < wordSize), cells, cellsOf_append, frontCells,
      backCells]
    exact ⟨fun p mem => (List.mem_append.mp mem).elim (front p) (back p), rfl⟩

theorem collapse_editBy (order : s ≤ t) {e : Extent} (fit : e.Fit) :
    EditBy (closeAt s (t - s)) (collapsePieces s t) (collapseFreed s t) e := by
  have full := fit.full
  have logical := fit.logical
  have physical := fit.physical
  have stays : ∀ b v, b < s → closeAt s (t - s) (b, v) = some (b, v) := fun b v low => by
    rw [closeAt, if_pos low]
  have drops : ∀ b v, s ≤ b → b < t → closeAt s (t - s) (b, v) = none := fun b v past low => by
    rw [closeAt, if_neg (Nat.not_lt.mpr past), if_pos (by dsimp only; omega)]
  have moves : ∀ b v, t ≤ b → closeAt s (t - s) (b, v) = some (b - (t - s), v) := fun b v past => by
    rw [closeAt, if_neg (by dsimp only; omega), if_neg (by dsimp only; omega)]
  have edit := fun a m r d => @edit_stretch e fit (closeAt s (t - s)) a m r d
  by_cases before : e.eeBlock + e.extLen ≤ s
  · obtain ⟨cells, gone⟩ := edit e.extLen 0 0 0 (by omega) (fun k _ v => stays _ v (by omega)) (by simp) (by simp)
    rw [← fit.extEnd] at before
    constructor
    · rw [collapsePieces, if_pos before]
      exact List.forall_mem_singleton.mpr (.inr fit)
    · rw [collapsePieces, if_pos before, cells, cellsOf_singleton, fit.cells, run_zero, List.append_nil]
    · rw [collapseFreed, if_pos (.inl before)]
      simp
    · rw [collapseFreed, if_pos (.inl before), gone]
      rfl
  by_cases behind : t ≤ e.eeBlock
  · obtain ⟨cells, gone⟩ := edit 0 0 e.extLen (e.eeBlock - (t - s)) (by omega) (by simp) (by simp)
      (fun k _ v => by rw [moves _ v (by omega)]; congr 2; omega)
    rw [← fit.extEnd] at before
    obtain ⟨piece, pieceCells⟩ := @slice_whole_spec e fit e.extLen (e.eeBlock - (t - s)) (Nat.le_refl _)
      (by omega)
    constructor
    · rw [collapsePieces, if_neg before, if_pos behind]
      exact piece
    · rw [collapsePieces, if_neg before, if_pos behind, cells, pieceCells]
      rfl
    · rw [collapseFreed, if_pos (.inr behind)]
      simp
    · rw [collapseFreed, if_pos (.inr behind), gone]
      rfl
  · obtain ⟨cells, gone⟩ := edit (s - e.eeBlock) (min (e.eeBlock + e.extLen) t - max e.eeBlock s)
      (e.eeBlock + e.extLen - t) s (by omega) (fun k _ v => stays _ v (by omega))
      (fun k _ v => drops _ v (by omega) (by omega))
      (fun k _ v => by rw [moves _ v (by omega)]; congr 2; omega)
    obtain ⟨front, frontCells⟩ := @slice_whole_spec e fit (s - e.eeBlock) e.eeBlock (by omega) (by omega)
    have back : (∀ p ∈ slice e s (e.eeBlock + e.extLen - t) ((e.eeStart + (t - e.eeBlock)) % wordSize),
        p.extLen = 0 ∨ p.Fit) ∧
        cellsOf (slice e s (e.eeBlock + e.extLen - t) ((e.eeStart + (t - e.eeBlock)) % wordSize)) =
          run s (e.eeStart + (s - e.eeBlock + (min (e.eeBlock + e.extLen) t - max e.eeBlock s)))
            e.unwritten (e.eeBlock + e.extLen - t) := by
      by_cases tail : t < e.eeBlock + e.extLen
      · have place : s - e.eeBlock + (min (e.eeBlock + e.extLen) t - max e.eeBlock s) = t - e.eeBlock := by
          omega
        rw [place]
        exact slice_spec fit (by omega) (by omega)
      · rw [Nat.sub_eq_zero_of_le (Nat.not_lt.mp tail), slice, if_pos rfl]
        exact ⟨by simp, rfl⟩
    have pieces : collapsePieces s t e = slice e e.eeBlock (s - e.eeBlock) e.eeStart ++
        slice e s (e.eeBlock + e.extLen - t) ((e.eeStart + (t - e.eeBlock)) % wordSize) := by
      rw [collapsePieces, fit.extEnd, if_neg before, if_neg behind, Nat.sub_sub_self order]
      congr 1
      · split
        · rfl
        · rw [slice, if_pos (by omega)]
      · split
        · rfl
        · rw [slice, if_pos (by omega)]
    have outside : ¬ (e.extEnd ≤ s ∨ t ≤ e.eeBlock) := by
      rw [fit.extEnd]
      omega
    constructor
    · rw [pieces]
      exact fun p mem => (List.mem_append.mp mem).elim (front p) (back.1 p)
    · rw [pieces, cells, cellsOf_append, frontCells, back.2]
    · rw [collapseFreed, if_neg outside, fit.extEnd]
      dsimp only
      split
      · exact List.forall_mem_singleton.mpr (by dsimp only; omega)
      · simp
    · rw [collapseFreed, if_neg outside, fit.extEnd, gone]
      dsimp only
      split
      · rw [blocks_singleton, Nat.mod_eq_of_lt (by omega)]
        dsimp only
        congr 2
        omega
      · rename_i empty
        rw [Nat.sub_eq_zero_of_le (Nat.not_lt.mp empty)]
        rfl

theorem length_collapseFreed (sound : Sound extents) :
    (extents.flatMap (collapseFreed s t)).length = (overlapping s t extents).length := by
  refine Lists.length_flatMap_eq_filter fun e mem => ?_
  have fit := sound.fit e mem
  rw [collapseFreed, fit.extEnd]
  dsimp only
  by_cases overlap : max e.eeBlock s < min (e.eeBlock + e.extLen) t
  · rw [if_neg (by omega), if_pos overlap, if_pos (by simpa using overlap)]
    rfl
  · rw [decide_eq_false overlap, if_neg overlap, ite_self]
    rfl

theorem rebuild_eq (pieces : Extent → List Extent) (sound : Sound extents) :
    rebuild pieces extents = extents.flatMap pieces := by
  rw [rebuild, List.filter_eq_self.mpr]
  intro e mem
  rw [(sound.fit e mem).toPlaced.not_isEmpty]
  rfl

theorem freed_eq (freed : Extent → List BlockRange) (sound : Sound extents) :
    (extents.filter fun e => !e.isEmpty).flatMap freed = extents.flatMap freed := by
  rw [List.filter_eq_self.mpr]
  intro e mem
  rw [(sound.fit e mem).toPlaced.not_isEmpty]
  rfl

theorem Cut.normalize {left : List Extent} {freed : List BlockRange}
    (cut : Cut extents left freed) : Cut extents (normalizeExtents left) freed where
  loose := cut.loose.normalize.1.loose
  full := cut.full
  blocks := ((cut.loose.normalize.2.map fun c => c.2.1).append_left _).trans cut.blocks

theorem released_nil (puts : Nat → Space.HandleFaults) (file : File) : released puts [] file = file := by
  show { file with iBlocks := file.iBlocks - blocksToSectors 0 } = file
  have none_ : blocksToSectors 0 = 0 := rfl
  rw [none_, UInt64.sub_zero]

theorem preallocInsert_sameTree (s n : Nat) (file : File) : SameTree file (preallocInsert s n file) := by
  rw [preallocInsert]
  repeat' split
  all_goals exact ⟨rfl, rfl, rfl⟩

theorem preallocCollapse_sameTree (s n : Nat) (file : File) : SameTree file (preallocCollapse s n file) := by
  rw [preallocCollapse]
  repeat' split
  all_goals exact ⟨rfl, rfl, rfl⟩

/-! ## The operations -/

/-- The map with `n` unmapped blocks put in at `s`. -/
def opened (map : Nat → Option (Nat × Bool)) (s n b : Nat) : Option (Nat × Bool) :=
  if b < s then map b else if b < s + n then none else map (b - n)

/-- The map without the `n` blocks at `s`. -/
def closed (map : Nat → Option (Nat × Bool)) (s n b : Nat) : Option (Nat × Bool) :=
  if b < s then map b else map (b + n)

theorem closed_opened (map : Nat → Option (Nat × Bool)) (s n b : Nat) :
    closed (opened map s n) s n b = map b := by
  rw [closed, opened, opened]
  by_cases low : b < s
  · rw [if_pos low, if_pos low]
  · rw [if_neg low, if_neg (by omega), if_neg (by omega), Nat.add_sub_cancel]

def Inserted (file : File) (buf : Buffer) (s n : Nat) (file' : File) : Prop :=
  ∃ buf', Intact file' buf' ∧
    Remapped file buf (opened (mapOf buf.extents) s n) (fun _ => False) file' buf' ∧
    file'.iSize = file.iSize + n * blockSize

def Collapsed (file : File) (buf : Buffer) (s n : Nat) (file' : File) : Prop :=
  ∃ buf', Intact file' buf' ∧
    Remapped file buf (closed (mapOf buf.extents) s n)
      (fun p => ∃ b u, (s ≤ b ∧ b < s + n) ∧ mapOf buf.extents b = some (p, u)) file' buf' ∧
    file'.iSize + n * blockSize = file.iSize

/-- The insertion moves no extent beyond the last block number. -/
def RoomFor (s n : Nat) (extents : List Extent) : Prop :=
  ∀ e ∈ extents, s < e.extEnd → e.eeBlock + e.extLen + n < wordSize

instance (s n : Nat) (extents : List Extent) : Decidable (RoomFor s n extents) :=
  inferInstanceAs (Decidable (∀ e ∈ extents, _ → _))

section

variable {file : File} {buf : Buffer}

theorem insert_mapOf (sound : Sound buf.extents) (room : RoomFor s n buf.extents) (b : Nat) :
    mapOf (buf.extents.flatMap (insertPieces s n)) b = opened (mapOf buf.extents) s n b := by
  rw [editBy_mapOf sound (openAt_source s n) fun e mem => insert_editBy (sound.fit e mem) (room e mem),
    opened, openSource]
  by_cases low : b < s
  · rw [if_pos low, if_pos low]
    cases mapped : mapOf buf.extents b with
    | none => rfl
    | some v =>
      rw [Option.bind_some, openAt, Option.bind_some]
      dsimp only
      rw [if_pos low, if_pos rfl]
  · rw [if_neg low, if_neg low]
    by_cases hole : b < s + n
    · rw [if_pos hole]
      cases mapped : mapOf buf.extents (b - n) with
      | none => rfl
      | some v =>
        rw [Option.bind_some, openAt, Option.bind_some]
        dsimp only
        split
        · exact if_neg (by omega)
        · exact if_neg (by omega)
    · rw [if_neg hole]
      cases mapped : mapOf buf.extents (b - n) with
      | none => rfl
      | some v =>
        rw [Option.bind_some, openAt, Option.bind_some]
        dsimp only
        have past : ¬ b - n < s := by omega
        rw [if_neg past, if_pos (by omega)]

theorem collapse_mapOf (sound : Sound buf.extents) (order : s ≤ t) (b : Nat) :
    mapOf (buf.extents.flatMap (collapsePieces s t)) b = closed (mapOf buf.extents) s (t - s) b := by
  rw [editBy_mapOf sound (closeAt_source s (t - s)) fun e mem => collapse_editBy order (sound.fit e mem),
    closed, closeSource]
  by_cases low : b < s
  · rw [if_pos low, if_pos low]
    cases mapped : mapOf buf.extents b with
    | none => rfl
    | some v => rw [Option.bind_some, closeAt, if_pos low, Option.bind_some, if_pos rfl]
  · rw [if_neg low, if_neg low]
    cases mapped : mapOf buf.extents (b + (t - s)) with
    | none => rfl
    | some v =>
      rw [Option.bind_some, closeAt, if_neg (by dsimp only; omega), if_neg (by dsimp only; omega),
        Option.bind_some, if_pos (by dsimp only; omega)]

theorem Cut.sync_ends {left : List Extent} {freed : List BlockRange} (intact : Intact file buf)
    (cut : Cut buf.extents left freed) (faults : SyncFaults) :
    Ends (Written file { buf with extents := normalizeExtents left }) (fun _ _ => True)
      (sync faults { buf with extents := normalizeExtents left } file) :=
  ((intact.toOwned.of_cut cut.normalize).sync_ends cut.normalize.loose faults).mono (fun _ _ => id)
    fun _ _ _ => trivial

theorem insertRange_ends (intact : Intact file buf) (sized : file.iSize ≤ maxFilesize)
    (faults : ShiftFaults) (offset len : Nat)
    (room : RoomFor (offset / blockSize) (len / blockSize) buf.extents) :
    Ends (fun _ file' => Inserted file buf (offset / blockSize) (len / blockSize) file' ∧
        file'.iSize ≤ maxFilesize) (fun _ _ => True) (insertRange faults offset len file) := by
  rw [insertRange]
  refine Ends.read_bind ?_
  refine Ends.bind (fun _ file' => file = file' ∧ offset % blockSize = 0 ∧ len % blockSize = 0) ?_ ?_
  · exact Ends.refuse (fun aligned => ⟨rfl, by simpa using aligned⟩) fun _ => trivial
  rintro _ _ ⟨rfl, aligned⟩
  refine Ends.bind (fun _ file' => file = file' ∧ offset ≤ file.iSize) ?_ ?_
  · exact Ends.refuse (fun inside => ⟨rfl, by simpa using inside⟩) fun _ => trivial
  rintro _ _ ⟨rfl, inside⟩
  refine Ends.check_bind (fun _ _ => trivial) fun _ => ?_
  refine Ends.bind (fun _ file' => file = file' ∧ file.iSize + len ≤ maxFilesize) ?_ ?_
  · exact Ends.refuse (fun fits => ⟨rfl, by simpa using fits⟩) fun _ => trivial
  rintro _ _ ⟨rfl, fits⟩
  refine Ends.check_bind (fun _ _ => trivial) fun _ => ?_
  rw [Nat.mod_eq_of_lt (div_blockSize_lt (Nat.le_trans (Nat.le_add_left len file.iSize) fits)),
    Nat.mod_eq_of_lt (div_blockSize_lt (Nat.le_trans inside sized))]
  refine Ends.bind (fun buf' file' => buf = buf' ∧ file = file') ?_ ?_
  · exact (load_eq intact faults.load).mono (fun _ _ => id) fun _ _ _ => trivial
  rintro _ _ ⟨rfl, rfl⟩
  dsimp only
  rw [rebuild_eq _ intact.sound]
  refine Ends.refuse_bind (fun _ => trivial) fun _ => ?_
  have cut := editBy_cut intact.sound (openAt_source _ _)
    (fun e mem => insert_editBy (intact.sound.fit e mem) (room e mem)) (openAt_keeps _ _)
  rw [List.flatMap_eq_nil_iff.mpr fun _ _ => rfl] at cut
  refine Ends.bind _ (cut.sync_ends intact faults.sync) fun buf' mid written => ?_
  have same : SameTree mid { preallocInsert (offset / blockSize) (len / blockSize) mid with
      iSize := mid.iSize + len } :=
    (preallocInsert_sameTree _ _ mid).trans ⟨rfl, rfl, rfl⟩
  have remapped := (written.remapped_iff intact cut.normalize faults.put).mpr nofun
  rw [released_nil] at remapped
  have size : mid.iSize = file.iSize := (congrArg File.iSize written.only :)
  refine ⟨⟨buf', same.intact written.intact, (Remapped.to_sameTree same).mpr ?_, ?_⟩, ?_⟩
  · refine (Remapped.congr (fun b => ?_) fun p => ⟨nofun, False.elim⟩).mp remapped
    exact (cut.loose.mapOf_normalize b).trans (insert_mapOf intact.sound room b)
  · show mid.iSize + len = _
    rw [size, Nat.div_mul_cancel (Nat.dvd_of_mod_eq_zero aligned.2)]
  · show mid.iSize + len ≤ _
    rw [size]
    exact fits

/-- Where an extent would be moved beyond the last block number, no file has the map. -/
theorem not_inserted (intact : Intact file buf) (wraps : ¬ RoomFor s n buf.extents) (file' : File) :
    ¬ Inserted file buf s n file' := by
  rintro ⟨buf', intact', remapped, -⟩
  apply wraps
  intro e listed past
  have fit := intact.sound.fit e listed
  have full := fit.full
  rw [fit.extEnd] at past
  by_contra long
  have last : mapOf buf.extents (e.eeBlock + e.extLen - 1) = some (e.eeStart + (e.extLen - 1), e.unwritten) := by
    rw [mapOf_eq_some_iff intact.sound.disjoint]
    refine List.mem_flatMap.mpr ⟨e, listed, ?_⟩
    rw [fit.cells, mem_run]
    exact ⟨by dsimp only; omega, by dsimp only; omega, by dsimp only; congr 2; omega⟩
  have moved := remapped.maps (e.eeBlock + e.extLen - 1 + n)
  rw [opened, if_neg (by omega), if_neg (by omega), Nat.add_sub_cancel, last,
    mapOf_eq_some_iff intact'.sound.disjoint] at moved
  obtain ⟨f, listed', cell⟩ := List.mem_flatMap.mp moved
  have fit' := intact'.sound.fit f listed'
  have logical := fit'.logical
  rw [fit'.cells, mem_run] at cell
  dsimp only at cell
  omega

theorem collapseRange_ends (intact : Intact file buf) (sized : file.iSize ≤ maxFilesize)
    (faults : ShiftFaults) (offset len : Nat) :
    Ends (fun _ file' => Collapsed file buf (offset / blockSize) (len / blockSize) file' ↔
        GoThrough faults.put 0
          (overlapping (offset / blockSize) (offset / blockSize + len / blockSize) buf.extents).length)
      (fun _ _ => True) (collapseRange faults offset len file) := by
  rw [collapseRange]
  refine Ends.read_bind ?_
  refine Ends.bind (fun _ file' => file = file' ∧ offset % blockSize = 0 ∧ len % blockSize = 0) ?_ ?_
  · exact Ends.refuse (fun aligned => ⟨rfl, by simpa using aligned⟩) fun _ => trivial
  rintro _ _ ⟨rfl, aligned⟩
  refine Ends.bind (fun _ file' => file = file' ∧ offset + len ≤ file.iSize) ?_ ?_
  · exact Ends.refuse (fun inside => ⟨rfl, by simpa using inside⟩) fun _ => trivial
  rintro _ _ ⟨rfl, inside⟩
  refine Ends.check_bind (fun _ _ => trivial) fun _ => ?_
  rw [Nat.mod_eq_of_lt (div_blockSize_lt (Nat.le_trans (Nat.le_trans (Nat.le_add_right _ _) inside) sized)),
    Nat.mod_eq_of_lt (div_blockSize_lt (Nat.le_trans inside sized))]
  have blocks : (offset + len) / blockSize = offset / blockSize + len / blockSize := by
    have size : blockSize = 4096 := rfl
    rw [size] at aligned ⊢
    omega
  have order : offset / blockSize ≤ (offset + len) / blockSize := by
    rw [blocks]
    exact Nat.le_add_right _ _
  refine Ends.bind (fun buf' file' => buf = buf' ∧ file = file') ?_ ?_
  · exact (load_eq intact faults.load).mono (fun _ _ => id) fun _ _ _ => trivial
  rintro _ _ ⟨rfl, rfl⟩
  refine Ends.refuse_bind (fun _ => trivial) fun _ => ?_
  dsimp only
  rw [rebuild_eq _ intact.sound, freed_eq _ intact.sound]
  refine Ends.refuse_bind (fun _ => trivial) fun _ => ?_
  have each : ∀ e ∈ buf.extents, _ := fun e mem => collapse_editBy order (intact.sound.fit e mem)
  have cut := editBy_cut intact.sound (closeAt_source _ _) each (closeAt_keeps _ _)
  have frees := editBy_freed_iff intact.sound each
  rw [← blocks, ← length_collapseFreed intact.sound]
  generalize buf.extents.flatMap (collapseFreed (offset / blockSize) ((offset + len) / blockSize)) = freed
    at cut frees ⊢
  refine Ends.bind _ (cut.sync_ends intact faults.sync) fun buf' mid written => ?_
  refine Ends.bind (fun _ file' => mid.setSpace (putRanges faults.put freed 0 mid.space) = file') rfl ?_
  rintro _ _ rfl
  refine Ends.bind (fun _ file' => SameTree (mid.setSpace (putRanges faults.put freed 0 mid.space)) file' ∧
    file'.iSize = mid.iSize - len) ⟨(preallocCollapse_sameTree _ _ _).trans ⟨rfl, rfl, rfl⟩, rfl⟩ ?_
  rintro _ last ⟨same, size⟩
  show Collapsed file buf _ _ { last with iBlocks := last.iBlocks - blocksToSectors (rangeBlocks freed) } ↔ _
  have same : SameTree (released faults.put freed mid)
      { last with iBlocks := last.iBlocks - blocksToSectors (rangeBlocks freed) } :=
    ⟨same.eiBlock, congrArg (· - blocksToSectors (rangeBlocks freed)) same.iBlocks, same.store⟩
  have intact' := same.intact (written.released_intact intact cut.normalize faults.put)
  have final : last.iSize + len / blockSize * blockSize = file.iSize := by
    have kept : mid.iSize = file.iSize := (congrArg File.iSize written.only :)
    rw [size, kept, Nat.div_mul_cancel (Nat.dvd_of_mod_eq_zero aligned.2)]
    omega
  rw [← written.remapped_iff intact cut.normalize faults.put, ← Remapped.to_sameTree same]
  have words : Remapped file buf (mapOf (normalizeExtents (buf.extents.flatMap
        (collapsePieces (offset / blockSize) ((offset + len) / blockSize)))))
        (· ∈ freed.flatMap BlockRange.blocks)
        { last with iBlocks := last.iBlocks - blocksToSectors (rangeBlocks freed) } buf' ↔
      Remapped file buf (closed (mapOf buf.extents) (offset / blockSize) (len / blockSize))
        (fun p => ∃ b u, (offset / blockSize ≤ b ∧ b < offset / blockSize + len / blockSize) ∧
          mapOf buf.extents b = some (p, u))
        { last with iBlocks := last.iBlocks - blocksToSectors (rangeBlocks freed) } buf' := by
    have width : (offset + len) / blockSize - offset / blockSize = len / blockSize := by omega
    refine Remapped.congr (fun b => ?_) fun p => ?_
    · rw [cut.loose.mapOf_normalize, collapse_mapOf intact.sound order, width]
    · rw [frees]
      refine exists_congr fun b => exists_congr fun u => and_congr_left fun _ => ?_
      rw [closeAt_eq_none, width]
  rw [words]
  constructor
  · rintro ⟨buf'', intact'', remapped, -⟩
    have equal := intact'.loaded
    rw [intact''.loaded] at equal
    cases equal
    exact remapped
  · exact fun remapped => ⟨buf', intact', remapped, final⟩

theorem overlapping_eq_nil (sound : Sound buf.extents) {first last : Nat}
    (none_ : ∀ b, first ≤ b → b < last → mapOf buf.extents b = none) :
    overlapping first last buf.extents = [] := by
  rw [overlapping, List.filter_eq_nil_iff]
  intro e listed overlap
  have fit := sound.fit e listed
  rw [decide_eq_true_iff, fit.extEnd] at overlap
  have common : (max e.eeBlock first, e.eeStart + (max e.eeBlock first - e.eeBlock), e.unwritten) ∈
      cellsOf buf.extents := by
    refine List.mem_flatMap.mpr ⟨e, listed, ?_⟩
    rw [fit.cells, mem_run]
    exact ⟨by dsimp only; omega, by dsimp only; omega, rfl⟩
  rw [← mapOf_eq_some_iff sound.disjoint, none_ _ (by omega) (by omega)] at common
  cases common

/-- The file maps what it mapped, in the same blocks. -/
def Restored (file : File) (buf : Buffer) (file' : File) : Prop :=
  ∃ buf', Intact file' buf' ∧ Remapped file buf (mapOf buf.extents) (fun _ => False) file' buf' ∧
    (∀ p, p ∈ dataBlocks buf'.extents ↔ p ∈ dataBlocks buf.extents) ∧ file'.iSize = file.iSize

theorem mem_dataBlocks_iff (sound : Sound buf.extents) (p : Nat) :
    p ∈ dataBlocks buf.extents ↔ ∃ b u, mapOf buf.extents b = some (p, u) := by
  rw [dataBlocks, mem_targets]
  exact exists_congr fun b => exists_congr fun u => (mapOf_eq_some_iff sound.disjoint).symm

theorem restored_of_collapse (intact : Intact file buf) {file' file'' : File} {buf' : Buffer}
    (intact' : Intact file' buf')
    (opens : Remapped file buf (opened (mapOf buf.extents) s n) (fun _ => False) file' buf')
    (size : file'.iSize = file.iSize + n * blockSize)
    (collapsed : Collapsed file' buf' s n file'') : Restored file buf file'' := by
  obtain ⟨buf'', intact'', closes, size'⟩ := collapsed
  have both : Remapped file buf (mapOf buf.extents) (fun _ => False) file'' buf'' := by
    refine (Remapped.congr (fun b => ?_) fun p => ⟨?_, False.elim⟩).mp (opens.trans closes)
    · rw [funext opens.maps, closed_opened]
    · rintro ⟨b, u, bounds, mapped⟩
      rw [opens.maps, opened, if_neg (by omega), if_pos bounds.2] at mapped
      cases mapped
  refine ⟨buf'', intact'', both, fun p => ?_, by omega⟩
  rw [mem_dataBlocks_iff intact''.sound, mem_dataBlocks_iff intact.sound]
  exact exists_congr fun b => exists_congr fun u => by rw [both.maps]

end

/-- Two blocks of data, and one reserved far beyond the end of the file. -/
def farReserved : List Extent := [.init 0 2 10 false, .init 4294967200 1 20 true]

theorem twoBlocks_intact : Intact (small 8192 [.init 0 2 10 false]) ⟨[.init 0 2 10 false], []⟩ :=
  small_intact 8192 (by decide) (by decide) (by decide) (by decide)

theorem farReserved_intact : Intact (small 8192 farReserved) ⟨farReserved, []⟩ :=
  small_intact 8192 (by decide) (by decide) (by decide) (by decide)

end File

end SimpleFs

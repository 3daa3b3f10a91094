import KernelNotes.SimpleFs.FileRange
import KernelNotes.SimpleFs.FileSync

/-!
# Unmapping blocks and giving them back

Truncating, punching and collapsing take blocks out of the extent list, sync the list and then put
the freed ranges, one call each. `Remapped` is the effect such an operation is to have: the new map,
and exactly the blocks that left it back in the allocator. The operation has it just when every put
goes through, because nobody looks at the result of a put.
-/

namespace SimpleFs

open Outcome Bits Cells

namespace File

/-- The list `left` keeps some of the blocks, and the ranges hold the others. -/
structure Cut (extents left : List Extent) (freed : List BlockRange) : Prop where
  loose : Loose left
  full : ∀ range ∈ freed, 0 < range.len
  blocks : (freed.flatMap BlockRange.blocks ++ dataBlocks left).Perm (dataBlocks extents)

/-- The file maps `map`, and the allocator, its counter and `i_blocks` have followed: free is what
was free, less new leaves, and `freed` and the leaves that were dropped. -/
structure Remapped (file : File) (buf : Buffer) (map : Nat → Option (Nat × Bool)) (freed : Nat → Prop)
    (file' : File) (buf' : Buffer) : Prop where
  loaded : loadExtents {} file'.disk file'.eiBlock = .ok buf'
  maps : ∀ b, mapOf buf'.extents b = map b
  leaves : ∀ p ∈ buf'.leafBlocks, p ∈ buf.leafBlocks ∨ file.space.bfreeBitmap p = true
  free : ∀ p, file'.space.bfreeBitmap p = true ↔
    (file.space.bfreeBitmap p = true ∧ p ∉ buf'.leafBlocks) ∨ freed p ∨
      (p ∈ buf.leafBlocks ∧ p ∉ buf'.leafBlocks)
  count : file'.space.nrFreeBlocks +
      UInt32.ofNat (buf'.leafBlocks.length + (dataBlocks buf'.extents).length) =
    file.space.nrFreeBlocks + UInt32.ofNat (buf.leafBlocks.length + (dataBlocks buf.extents).length)
  sectors : file'.iBlocks + blocksToSectors (buf.leafBlocks.length + (dataBlocks buf.extents).length) =
    file.iBlocks + blocksToSectors (buf'.leafBlocks.length + (dataBlocks buf'.extents).length)

theorem Remapped.congr {file file' : File} {buf buf' : Buffer} {map map' : Nat → Option (Nat × Bool)}
    {freed freed' : Nat → Prop} (maps : ∀ b, map b = map' b) (frees : ∀ p, freed p ↔ freed' p) :
    Remapped file buf map freed file' buf' ↔ Remapped file buf map' freed' file' buf' := by
  rw [funext maps, funext fun p => propext (frees p)]

theorem Intact.same_remapped {file : File} {buf : Buffer} (intact : Intact file buf) :
    Remapped file buf (mapOf buf.extents) (fun _ => False) file buf := by
  refine ⟨intact.loaded, fun _ => rfl, fun _ => .inl, fun p => ?_, rfl, rfl⟩
  constructor
  · intro free
    refine .inl ⟨free, fun leaf => ?_⟩
    have used := (intact.leaf_returnable leaf).2.2.2
    rw [free] at used
    cases used
  · rintro (⟨free, -⟩ | never | ⟨leaf, gone⟩)
    · exact free
    · exact never.elim
    · exact absurd leaf gone

section

variable {file file' file'' : File} {buf buf' : Buffer} {map : Nat → Option (Nat × Bool)}
  {freed : Nat → Prop}

theorem Remapped.of_sameTree (same : SameTree file file') :
    Remapped file' buf map freed file'' buf' ↔ Remapped file buf map freed file'' buf' := by
  have allocator : file'.space = file.space := congrArg Store.space same.store
  constructor
  · rintro ⟨loaded, maps, leaves, free, count, balance⟩
    rw [allocator] at leaves free count
    rw [same.iBlocks] at balance
    exact ⟨loaded, maps, leaves, free, count, balance⟩
  · rintro ⟨loaded, maps, leaves, free, count, balance⟩
    rw [← allocator] at leaves free count
    rw [← same.iBlocks] at balance
    exact ⟨loaded, maps, leaves, free, count, balance⟩

theorem Remapped.to_sameTree (same : SameTree file' file'') :
    Remapped file buf map freed file'' buf' ↔ Remapped file buf map freed file' buf' := by
  have allocator : file''.space = file'.space := congrArg Store.space same.store
  have medium : file''.disk = file'.disk := congrArg Store.disk same.store
  constructor
  · rintro ⟨loaded, maps, leaves, free, count, balance⟩
    rw [medium, same.eiBlock] at loaded
    rw [allocator] at free count
    rw [same.iBlocks] at balance
    exact ⟨loaded, maps, leaves, free, count, balance⟩
  · rintro ⟨loaded, maps, leaves, free, count, balance⟩
    rw [← medium, ← same.eiBlock] at loaded
    rw [← allocator] at free count
    rw [← same.iBlocks] at balance
    exact ⟨loaded, maps, leaves, free, count, balance⟩

theorem Remapped.trans {buf'' : Buffer} {map' : Nat → Option (Nat × Bool)}
    (first : Remapped file buf map (fun _ => False) file' buf')
    (second : Remapped file' buf' map' freed file'' buf'') :
    Remapped file buf map' freed file'' buf'' where
  loaded := second.loaded
  maps := second.maps
  leaves p mem := by
    rcases second.leaves p mem with leaf | free
    · exact first.leaves p leaf
    · rcases (first.free p).mp free with ⟨free, -⟩ | never | ⟨leaf, -⟩
      · exact .inr free
      · exact never.elim
      · exact .inl leaf
  free p := by
    have fresh := first.leaves p
    rw [second.free, first.free]
    by_cases mem : p ∈ buf''.leafBlocks
    · simp [mem]
    · by_cases mem' : p ∈ buf'.leafBlocks
      · have known := fresh mem'
        simp [mem, mem']
        tauto
      · simp [mem, mem']
        tauto
  count := second.count.trans first.count
  sectors := by
    have one := first.sectors
    have two := second.sectors
    grind

end

/-- The file after the release of the ranges. -/
def released (puts : Nat → Space.HandleFaults) (freed : List BlockRange) (file : File) : File :=
  { file.setSpace (putRanges puts freed 0 file.space) with
    iBlocks := file.iBlocks - blocksToSectors (rangeBlocks freed) }

section

variable {file : File} {buf : Buffer} {left : List Extent} {freed : List BlockRange}

theorem Cut.perm (cut : Cut buf.extents left freed) :
    (freed.flatMap BlockRange.blocks ++ file.blocks { buf with extents := left }).Perm
      (file.blocks buf) := by
  refine List.perm_middle.trans (List.Perm.cons _ ?_)
  show (freed.flatMap BlockRange.blocks ++ (buf.leafBlocks ++ dataBlocks left)).Perm _
  rw [← List.append_assoc]
  refine (List.perm_append_comm.append_right _).trans ?_
  rw [List.append_assoc]
  exact cut.blocks.append_left _

variable (owned : Owned file buf) (cut : Cut buf.extents left freed)

include owned cut

theorem Owned.of_cut : Owned file { buf with extents := left } where
  distinct := (List.nodup_append.mp (cut.perm.nodup_iff.mpr owned.distinct)).2.1
  returnable b mem := owned.returnable b (cut.perm.mem_iff.mp (List.mem_append_right _ mem))
  reserved := owned.reserved
  device := owned.device

theorem Owned.freed_distinct : (freed.flatMap BlockRange.blocks).Nodup :=
  (List.nodup_append.mp (cut.perm.nodup_iff.mpr owned.distinct)).1

theorem Owned.freed_mem {b : Nat} (mem : b ∈ freed.flatMap BlockRange.blocks) :
    b ∈ dataBlocks buf.extents ∧ b ∉ file.blocks { buf with extents := left } := by
  constructor
  · exact cut.blocks.mem_iff.mp (List.mem_append_left _ mem)
  · intro kept
    exact (List.nodup_append.mp (cut.perm.nodup_iff.mpr owned.distinct)).2.2 b mem b kept rfl

omit cut in
theorem Owned.length_lt {l : List Nat} (distinct : l.Nodup) (inside : ∀ b ∈ l, Returnable file.space b) :
    l.length < wordSize := by
  have subset : l ⊆ List.range file.space.nrBlocks :=
    fun b mem => List.mem_range.mpr (inside b mem).2.1
  have short := (List.subperm_of_subset distinct subset).length_le
  rw [List.length_range] at short
  exact Nat.lt_of_le_of_lt short owned.device

theorem Owned.rangeBlocks_eq : rangeBlocks freed = (freed.flatMap BlockRange.blocks).length := by
  have total : (freed.flatMap BlockRange.blocks).length = (freed.map BlockRange.len).sum := by
    rw [List.length_flatMap]
    congr 1
    exact List.map_congr_left fun range _ => List.length_range'
  have short := owned.length_lt (owned.freed_distinct cut) fun b mem =>
    owned.data_returnable (owned.freed_mem cut mem).1
  rw [total] at short ⊢
  exact Nat.mod_eq_of_lt short

end

theorem count_balance {after before kept fresh dropped freed data : UInt32}
    (traded : after + fresh = before + (dropped + freed)) :
    after + (kept + fresh + data) = before + (kept + dropped + (data + freed)) := by
  grind

theorem sector_balance {after before leaves leaves' data freed : UInt64}
    (synced : after + leaves * 8 = before + leaves' * 8) :
    after - freed * 8 + (leaves + (data + freed)) * 8 = before + (leaves' + data) * 8 := by
  grind

section

variable {file mid : File} {buf buf' : Buffer} {left : List Extent} {freed : List BlockRange}
  (intact : Intact file buf) (cut : Cut buf.extents left freed)
  (written : Written file { buf with extents := left } buf' mid)

include intact cut written

theorem Written.freed_returnable {b : Nat} (mem : b ∈ freed.flatMap BlockRange.blocks) :
    Returnable mid.space b := by
  obtain ⟨fresh, -, traded⟩ := written.leaves
  obtain ⟨old, gone⟩ := intact.toOwned.freed_mem cut mem
  refine traded.returnable (intact.data_returnable old) fun dropped => gone ?_
  exact List.mem_cons_of_mem _ (List.mem_append_left _ (List.mem_of_mem_drop dropped))

theorem Written.put_held (puts : Nat → Space.HandleFaults) :
    Withheld (released puts freed mid).space (returnedBlocks puts freed 0) mid.space :=
  putRanges_held puts freed 0 cut.full (intact.toOwned.freed_distinct cut)
    (fun _ mem => written.freed_returnable intact cut mem) written.up

theorem Written.released_intact (puts : Nat → Space.HandleFaults) : Intact (released puts freed mid) buf' := by
  have held := written.put_held intact cut puts
  have back : Traded mid.space [] (returnedBlocks puts freed 0) (released puts freed mid).space :=
    ⟨mid.space, .refl _, held⟩
  have valid : ∀ b ∈ returnedBlocks puts freed 0, Returnable mid.space b := fun b mem =>
    written.freed_returnable intact cut (returnedBlocks_subset puts freed 0 mem)
  have apart : ∀ b ∈ returnedBlocks puts freed 0, b ∉ mid.blocks buf' := by
    intro b mem listed
    have isFree := held.wasFree b mem
    obtain ⟨old, gone⟩ := intact.toOwned.freed_mem cut (returnedBlocks_subset puts freed 0 mem)
    obtain ⟨fresh, leaves, ⟨between, took, -⟩⟩ := written.leaves
    have root : mid.eiBlock = file.eiBlock := (congrArg File.eiBlock written.only :)
    rcases List.mem_cons.mp listed with same | listed
    · rw [root] at same
      exact gone (same ▸ List.mem_cons_self)
    rcases List.mem_append.mp listed with leaf | datum
    · rw [leaves] at leaf
      rcases List.mem_append.mp leaf with kept | new
      · exact gone (List.mem_cons_of_mem _ (List.mem_append_left _ (List.mem_of_mem_take kept)))
      · have used := (intact.data_returnable old).2.2.2
        rw [took.wasFree b new] at used
        cases used
    · rw [written.extents] at datum
      have kept := (cut.loose.normalize.2.map fun c => c.2.1).mem_iff.mp datum
      exact gone (List.mem_cons_of_mem _ (List.mem_append_right _ kept))
  refine ⟨⟨written.intact.distinct, fun b mem => ?_, ?_, ?_⟩, written.intact.loaded, written.intact.sound⟩
  · exact back.returnable (written.intact.returnable b mem) fun again => apart b again mem
  · exact back.reserved written.intact.reserved fun b mem => ⟨(valid b mem).1, (valid b mem).2.2.1⟩
  · rw [back.geometry.nrBlocks]
    exact written.intact.device

theorem Written.released_free (puts : Nat → Space.HandleFaults) (p : Nat) :
    (released puts freed mid).space.bfreeBitmap p = true ↔
      (file.space.bfreeBitmap p = true ∧ p ∉ buf'.leafBlocks) ∨
        p ∈ returnedBlocks puts freed 0 ∨ (p ∈ buf.leafBlocks ∧ p ∉ buf'.leafBlocks) := by
  obtain ⟨fresh, leaves, traded⟩ := written.leaves
  have free := (traded.give (written.put_held intact cut puts)).free p
  have wasFree : ∀ b ∈ fresh, file.space.bfreeBitmap b = true := by
    obtain ⟨between, took, -⟩ := traded
    exact took.wasFree
  have distinct : buf.leafBlocks.Nodup := (List.nodup_cons.mp intact.toOwned.tree_distinct).2
  have parts := List.take_append_drop (leafCount (normalizeExtents left).length) buf.leafBlocks
  have once := distinct
  rw [← parts] at once
  rw [free, List.mem_append]
  have stays : file.space.bfreeBitmap p = true → (p ∉ fresh ↔ p ∉ buf'.leafBlocks) := by
    intro isFree
    rw [leaves, List.mem_append, not_or]
    refine ⟨fun absent => ⟨fun old => ?_, absent⟩, And.right⟩
    have used := (intact.toOwned.leaf_returnable (List.mem_of_mem_take old)).2.2.2
    rw [isFree] at used
    cases used
  have dropped : p ∈ buf.leafBlocks.drop (leafCount (normalizeExtents left).length) ↔
      p ∈ buf.leafBlocks ∧ p ∉ buf'.leafBlocks := by
    rw [leaves, List.mem_append, not_or]
    constructor
    · intro mem
      have listed := List.mem_of_mem_drop mem
      refine ⟨listed, fun kept => (List.nodup_append.mp once).2.2 p kept p mem rfl, fun new => ?_⟩
      have used := (intact.toOwned.leaf_returnable listed).2.2.2
      rw [wasFree p new] at used
      cases used
    · rintro ⟨listed, gone, -⟩
      rw [← parts, List.mem_append] at listed
      exact listed.resolve_left gone
  rw [and_congr_right stays, dropped, or_comm (a := p ∈ buf.leafBlocks ∧ _)]

theorem Written.remapped_iff (puts : Nat → Space.HandleFaults) :
    Remapped file buf (mapOf left) (· ∈ freed.flatMap BlockRange.blocks) (released puts freed mid) buf' ↔
      GoThrough puts 0 freed.length := by
  have distinct := intact.toOwned.freed_distinct cut
  have all := returnedBlocks_all_iff puts freed 0 cut.full distinct
  have free := written.released_free intact cut puts
  constructor
  · intro remapped
    refine all.mp fun p mem => ?_
    have back := (free p).mp ((remapped.free p).mpr (.inr (.inl mem)))
    obtain ⟨datum, gone⟩ := intact.toOwned.freed_mem cut mem
    rcases back with ⟨isFree, -⟩ | returned | ⟨leaf, -⟩
    · have used := (intact.toOwned.data_returnable datum).2.2.2
      rw [isFree] at used
      cases used
    · exact returned
    · exact absurd (List.mem_cons_of_mem _ (List.mem_append_left _ leaf)) gone
  · intro through
    have same : ∀ p, p ∈ returnedBlocks puts freed 0 ↔ p ∈ freed.flatMap BlockRange.blocks :=
      fun p => ⟨fun mem => returnedBlocks_subset puts freed 0 mem, fun mem => all.mpr through p mem⟩
    have held := written.put_held intact cut puts
    have length : (returnedBlocks puts freed 0).length = (freed.flatMap BlockRange.blocks).length :=
      ((List.perm_ext_iff_of_nodup held.distinct distinct).mpr same).length_eq
    obtain ⟨fresh, leaves, traded⟩ := written.leaves
    have data : (dataBlocks buf'.extents).length + (freed.flatMap BlockRange.blocks).length =
        (dataBlocks buf.extents).length := by
      have parts := cut.blocks.length_eq
      rw [List.length_append] at parts
      have kept := (cut.loose.normalize.2.map fun c => c.2.1).length_eq
      have kept' : (dataBlocks buf'.extents).length = (dataBlocks left).length := by
        rw [written.extents]
        exact kept
      omega
    have leafLength : (buf.leafBlocks.take (leafCount (normalizeExtents left).length)).length +
        (buf.leafBlocks.drop (leafCount (normalizeExtents left).length)).length =
          buf.leafBlocks.length := by
      rw [← List.length_append, List.take_append_drop]
    refine ⟨written.intact.loaded, fun b => ?_, fun p mem => ?_, fun p => ?_, ?_, ?_⟩
    · rw [written.extents]
      exact cut.loose.mapOf_normalize b
    · rw [leaves] at mem
      obtain ⟨between, took, -⟩ := traded
      exact (List.mem_append.mp mem).imp List.mem_of_mem_take (took.wasFree p)
    · rw [free, same]
    · have count := (traded.give held).count
      rw [List.length_append, length] at count
      rw [← data, ← leafLength, leaves, List.length_append]
      simp only [UInt32.ofNat_add] at count ⊢
      exact count_balance count
    · have sectors := written.sectors
      have freedBlocks := intact.toOwned.rangeBlocks_eq cut
      show mid.iBlocks - blocksToSectors (rangeBlocks freed) + _ = _
      rw [freedBlocks, ← data]
      simp only [blocksToSectors, UInt64.ofNat_add] at sectors ⊢
      exact sector_balance sectors

end

/-- What is left of a release: nothing was freed, or the shorter list was written and the ranges
were put. -/
def Shortened (puts : Nat → Space.HandleFaults) (file : File) (buf : Buffer) (left : List Extent)
    (freed : List BlockRange) (file' : File) : Prop :=
  (freed = [] ∧ file = file') ∨
    ∃ buf' mid, Written file { buf with extents := left } buf' mid ∧ file' = released puts freed mid

section

variable {file file' : File} {buf : Buffer} {left : List Extent} {freed : List BlockRange}
  (intact : Intact file buf) (cut : Cut buf.extents left freed)

include intact cut

theorem Cut.freed_nil (none_ : ¬ 0 < rangeBlocks freed) : freed = [] := by
  rw [intact.toOwned.rangeBlocks_eq cut, Nat.pos_iff_ne_zero, not_not, List.length_eq_zero_iff] at none_
  rw [List.eq_nil_iff_forall_not_mem]
  intro range mem
  have inside : range.start ∈ freed.flatMap BlockRange.blocks :=
    List.mem_flatMap.mpr ⟨range, mem, List.mem_range'_1.mpr ⟨Nat.le_refl _, by have := cut.full range mem; omega⟩⟩
  rw [none_] at inside
  cases inside

theorem releaseRanges_ends (faults : SyncFaults) (puts : Nat → Space.HandleFaults) :
    Ends (fun _ => Shortened puts file buf left freed)
      (fun _ => Unwritten faults file { buf with extents := left })
      (Op.given (0 < rangeBlocks freed)
        (releaseRanges faults puts { buf with extents := left } freed) file) := by
  refine Ends.given (fun _ => ?_) fun none_ => .inl ⟨cut.freed_nil intact none_, rfl⟩
  refine Ends.bind (Written file { buf with extents := left }) ?_ fun buf' mid written => ?_
  · exact (intact.toOwned.of_cut cut).sync_ends cut.loose faults
  · exact .inr ⟨buf', mid, written, rfl⟩

variable {puts : Nat → Space.HandleFaults}

theorem Shortened.remapped_iff (unchanged : freed = [] → ∀ b, mapOf left b = mapOf buf.extents b)
    (short : Shortened puts file buf left freed file') :
    (∃ buf', Intact file' buf' ∧
      Remapped file buf (mapOf left) (· ∈ freed.flatMap BlockRange.blocks) file' buf') ↔
      GoThrough puts 0 freed.length := by
  rcases short with ⟨rfl, rfl⟩ | ⟨buf', mid, written, rfl⟩
  · refine ⟨fun _ => nofun, fun _ => ⟨buf, intact, ?_⟩⟩
    rw [funext (unchanged rfl)]
    refine (Remapped.congr (fun _ => rfl) fun p => ?_).mp intact.same_remapped
    exact ⟨False.elim, nofun⟩
  · rw [← written.remapped_iff intact cut puts]
    constructor
    · rintro ⟨buf'', -, remapped⟩
      have same := remapped.loaded
      rw [(written.released_intact intact cut puts).loaded] at same
      cases same
      exact remapped
    · exact fun remapped => ⟨buf', written.released_intact intact cut puts, remapped⟩

theorem Shortened.maps (unchanged : freed = [] → ∀ b, mapOf left b = mapOf buf.extents b)
    (short : Shortened puts file buf left freed file') :
    Maps file' (mapOf left) ∧ file'.iSize = file.iSize := by
  rcases short with ⟨rfl, rfl⟩ | ⟨buf', mid, written, rfl⟩
  · exact ⟨⟨buf, intact, fun b => (unchanged rfl b).symm⟩, rfl⟩
  · refine ⟨⟨buf', written.released_intact intact cut puts, fun b => ?_⟩, ?_⟩
    · rw [written.extents]
      exact cut.loose.mapOf_normalize b
    · show mid.iSize = _
      exact (congrArg File.iSize written.only :)

omit cut in
theorem Shortened.leaves_subset (fewer : left.length ≤ buf.extents.length)
    (short : Shortened puts file buf left freed file') {buf' : Buffer}
    (intact' : Intact file' buf') : buf'.leafBlocks ⊆ buf.leafBlocks := by
  rcases short with ⟨-, rfl⟩ | ⟨buf'', mid, written, rfl⟩
  · have same := intact'.loaded
    rw [intact.loaded] at same
    cases same
    exact List.Subset.refl _
  · have same : loadExtents {} mid.disk mid.eiBlock = .ok buf' := intact'.loaded
    rw [written.intact.loaded] at same
    cases same
    obtain ⟨fresh, leaves, -⟩ := written.leaves
    have number := written.leafNumber
    have enough := Nat.le_trans (leafCount_mono (Nat.le_trans (length_normalizeExtents_le left) fewer))
      (loadExtents_bounds intact.loaded).1
    rw [written.extents, leaves, List.length_append, List.length_take, Nat.min_eq_left enough] at number
    have none_ : fresh = [] := List.eq_nil_of_length_eq_zero (Nat.add_eq_left.mp number)
    rw [leaves, none_, List.append_nil]
    exact List.take_subset _ _

end

end File

end SimpleFs

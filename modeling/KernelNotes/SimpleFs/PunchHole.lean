import KernelNotes.SimpleFs.FileCut

/-!
# Punching a hole

The blocks that lie fully inside the range lose their place, all others keep it, and the places go
back to the allocator. A refusal for want of memory or space leaves everything as it was.
-/

namespace SimpleFs

open Outcome Cells

namespace File

theorem preallocWritten_sameTree (pos len : Nat) (file : File) :
    SameTree file (preallocWritten pos len file) ∧ (preallocWritten pos len file).iSize = file.iSize := by
  rw [preallocWritten]
  repeat' split
  all_goals exact ⟨⟨rfl, rfl, rfl⟩, rfl⟩

theorem zeroPieces_sameTree (pieces : List (Nat × Nat)) (file : File) :
    SameTree file (zeroPieces pieces file) ∧ (zeroPieces pieces file).iSize = file.iSize := by
  induction pieces generalizing file with
  | nil => exact ⟨.refl file, rfl⟩
  | cons piece rest ih =>
    have one : SameTree file (if piece.2 = 0 then file else preallocWritten piece.1 piece.2 file) ∧
        (if piece.2 = 0 then file else preallocWritten piece.1 piece.2 file).iSize = file.iSize := by
      split
      · exact ⟨.refl file, rfl⟩
      · exact preallocWritten_sameTree _ _ file
    exact ⟨one.1.trans (ih _).1, (ih _).2.trans one.2⟩

variable {file' : File} {offset stop : Nat}

theorem Unchanged.of_sameTree {file file'' : File} (same : SameTree file file')
    (unchanged : Unchanged file' file'') : Unchanged file file'' := by
  have medium : file'.disk = file.disk := congrArg Store.disk same.store
  have allocator : file'.space = file.space := congrArg Store.space same.store
  obtain ⟨disk_, sectors, free⟩ := unchanged
  rw [medium] at disk_
  rw [same.iBlocks] at sectors
  rw [allocator] at free
  exact ⟨disk_, sectors, free⟩

theorem SameTree.unchanged {file : File} (same : SameTree file file') : Unchanged file file' := by
  refine ⟨congrArg Store.disk same.store, same.iBlocks, ?_⟩
  rw [space, space, same.store]
  exact ⟨rfl, rfl⟩

/-! ## The blocks of the hole -/

/-- The block lies fully inside the bytes from `offset` to `stop`. -/
def Inside (offset stop b : Nat) : Prop := offset ≤ b * blockSize ∧ (b + 1) * blockSize ≤ stop

theorem inside_iff (offset stop b : Nat) :
    Inside offset stop b ↔ blocksOf offset ≤ b ∧ b < stop / blockSize := by
  have size : blockSize = 4096 := rfl
  rw [Inside, blocksOf, size]
  omega

instance (offset stop b : Nat) : Decidable (Inside offset stop b) :=
  inferInstanceAs (Decidable (_ ∧ _))

theorem blocksOf_lt {n : Nat} (sized : n ≤ maxFilesize) : blocksOf n < wordSize := by
  have most : maxFilesize = 8192 * 4096 * 86700 := rfl
  have size : blockSize = 4096 := rfl
  have word : wordSize = 4294967296 := rfl
  rw [blocksOf, size, word]
  omega

theorem div_blockSize_lt {n : Nat} (sized : n ≤ maxFilesize) : n / blockSize < wordSize := by
  have most : maxFilesize = 8192 * 4096 * 86700 := rfl
  have size : blockSize = 4096 := rfl
  have word : wordSize = 4294967296 := rfl
  rw [size, word]
  omega

/-- The extents with a block from `first` on and before `last`. -/
def overlapping (first last : Nat) (extents : List Extent) : List Extent :=
  extents.filter fun e => decide (max e.eeBlock first < min e.extEnd last)

/-- The extents with a block in the hole. -/
def punched (offset stop : Nat) (extents : List Extent) : List Extent :=
  overlapping (blocksOf offset) (stop / blockSize) extents

theorem length_punchFreed {firstFull lastExcl : Nat} (some_ : firstFull < lastExcl)
    {extents : List Extent} (sound : Sound extents) :
    (extents.flatMap (punchFreed firstFull lastExcl)).length =
      (overlapping firstFull lastExcl extents).length := by
  refine Lists.length_flatMap_eq_filter fun e mem => ?_
  have fit := sound.fit e mem
  have full := fit.full
  rw [punchFreed, fit.extEnd]
  by_cases outside : e.eeBlock + e.extLen ≤ firstFull ∨ lastExcl ≤ e.eeBlock
  · rw [if_pos outside, if_neg (by rw [decide_eq_true_iff]; omega)]
    rfl
  · have touched : decide (max e.eeBlock firstFull < min (e.eeBlock + e.extLen) lastExcl) = true := by
      rw [decide_eq_true_iff]
      omega
    rw [if_neg outside, touched]
    split
    · rfl
    · split
      · rfl
      · split
        · rfl
        · rfl

/-! ## The operation -/

/-- The file lost the blocks inside the range, and nothing else. -/
def Punched (file : File) (buf : Buffer) (offset stop : Nat) (file' : File) : Prop :=
  ∃ buf', Intact file' buf' ∧
    Remapped file buf (fun b => if Inside offset stop b then none else mapOf buf.extents b)
      (fun p => ∃ b u, Inside offset stop b ∧ mapOf buf.extents b = some (p, u)) file' buf'

section

variable {file : File} {buf : Buffer}

theorem punchBlocks_ends (intact : Intact file buf) (faults : PunchFaults) {firstFull lastExcl : Nat}
    (some_ : firstFull < lastExcl) :
    Ends (fun _ => Shortened faults.put file buf (buf.extents.flatMap (punchPieces firstFull lastExcl))
        (buf.extents.flatMap (punchFreed firstFull lastExcl)))
      (fun _ file' => faults.sync.Mild → Unchanged file file')
      (punchBlocks faults firstFull lastExcl file) := by
  have same : Unchanged file file := (SameTree.refl file).unchanged
  have cut := cutBy_cut intact.sound fun e mem => punch_cutBy some_ (intact.sound.fit e mem)
  rw [punchBlocks]
  refine Ends.bind (fun buf' file' => buf = buf' ∧ file = file') ?_ ?_
  · exact (load_eq intact faults.load).mono (fun _ _ => id) fun _ _ equal _ => equal ▸ same
  rintro _ _ ⟨rfl, rfl⟩
  refine Ends.bind (fun _ file' => file = file') ?_ ?_
  · exact Ends.refuse (fun _ => rfl) fun _ _ => same
  rintro _ _ rfl
  refine Ends.bind (fun _ file' => file = file') ?_ ?_
  · exact Ends.refuse (fun _ => rfl) fun _ _ => same
  rintro _ _ rfl
  exact (releaseRanges_ends intact cut faults.sync faults.put).mono (fun _ _ => id)
    fun _ _ unwritten mild => (unwritten.mild mild).1

theorem punched_none (intact : Intact file buf) (same : SameTree file file')
    (none_ : ¬ blocksOf offset < stop / blockSize) :
    Punched file buf offset stop file' ∧
      ∀ puts, GoThrough puts 0 (punched offset stop buf.extents).length := by
  have outside : ∀ b, ¬ Inside offset stop b := by
    intro b inside
    have bounds := (inside_iff offset stop b).mp inside
    omega
  have nothing : punched offset stop buf.extents = [] := by
    rw [punched, overlapping, List.filter_eq_nil_iff]
    intro e _
    simp
    omega
  rw [nothing]
  refine ⟨⟨buf, same.intact intact, ?_⟩, fun _ => nofun⟩
  have stays := (Remapped.of_sameTree same).mp (same.intact intact).same_remapped
  refine (Remapped.congr (fun b => ?_) fun p => ?_).mp stays
  · rw [if_neg (outside b)]
  · constructor
    · exact False.elim
    · rintro ⟨b, u, inside, -⟩
      exact outside b inside

theorem Punched.maps (punched : Punched file buf offset stop file') :
    Maps file' fun b => if Inside offset stop b then none else mapOf buf.extents b := by
  obtain ⟨buf', intact', remapped⟩ := punched
  exact ⟨buf', intact', remapped.maps⟩

theorem punch_mapOf (sound : Sound buf.extents) (some_ : blocksOf offset < stop / blockSize)
    (b : Nat) :
    mapOf (buf.extents.flatMap (punchPieces (blocksOf offset) (stop / blockSize))) b =
      if Inside offset stop b then none else mapOf buf.extents b := by
  rw [cutBy_mapOf sound fun e mem => punch_cutBy some_ (sound.fit e mem)]
  by_cases inside : Inside offset stop b
  · have bounds := (inside_iff offset stop b).mp inside
    rw [if_pos inside, if_neg (by simp [bounds.1, bounds.2])]
  · rw [if_neg inside, if_pos]
    rw [inside_iff] at inside
    simp
    omega

theorem Shortened.punched_iff (intact : Intact file buf) {puts : Nat → Space.HandleFaults}
    (some_ : blocksOf offset < stop / blockSize)
    (short : Shortened puts file buf (buf.extents.flatMap (punchPieces (blocksOf offset) (stop / blockSize))) (buf.extents.flatMap (punchFreed (blocksOf offset) (stop / blockSize))) file') :
    (Maps file' fun b => if Inside offset stop b then none else mapOf buf.extents b) ∧
      file'.iSize = file.iSize ∧
      (Punched file buf offset stop file' ↔
        GoThrough puts 0 (punched offset stop buf.extents).length) := by
  have each : ∀ e ∈ buf.extents, _ := fun e mem => punch_cutBy some_ (intact.sound.fit e mem)
  have cut := cutBy_cut intact.sound each
  have maps := short.maps intact cut (cutBy_unchanged intact.sound each)
  have exact_ := short.remapped_iff intact cut (cutBy_unchanged intact.sound each)
  rw [funext (punch_mapOf intact.sound some_)] at maps exact_
  rw [length_punchFreed some_ intact.sound] at exact_
  refine ⟨maps.1, maps.2, ?_⟩
  rw [Punched, punched, ← exact_]
  refine exists_congr fun buf' => and_congr_right fun _ => Remapped.congr (fun b => rfl) fun p => ?_
  rw [cutBy_freed_iff intact.sound each]
  refine exists_congr fun b => exists_congr fun u => and_congr_left fun _ => ?_
  rw [inside_iff, Bool.not_eq_false', Bool.and_eq_true, decide_eq_true_iff, decide_eq_true_iff]

theorem punchHole_ends (intact : Intact file buf) (sized : file.iSize ≤ maxFilesize)
    (faults : PunchFaults) (userVisible : Bool) (offset len : Nat) :
    Ends (fun _ file' =>
        (Maps file' fun b =>
          if Inside offset (min (offset + len) file.iSize) b then none else mapOf buf.extents b) ∧
        file'.iSize = file.iSize ∧
        (Punched file buf offset (min (offset + len) file.iSize) file' ↔
          GoThrough faults.put 0 (punched offset (min (offset + len) file.iSize) buf.extents).length))
      (fun _ file' => faults.sync.Mild → Unchanged file file')
      (punchHole faults userVisible offset len file) := by
  have same := SameTree.refl file
  rw [punchHole]
  refine Ends.read_bind ?_
  refine Ends.given (fun inside => ?_) fun outside => ?_
  swap
  · have none_ : ¬ blocksOf offset < min (offset + len) file.iSize / blockSize := by
      have size : blockSize = 4096 := rfl
      rw [blocksOf, size]
      omega
    obtain ⟨hole, through⟩ := punched_none intact same none_
    exact ⟨hole.maps, rfl, iff_of_true hole (through _)⟩
  refine Ends.bind (fun _ file' => file = file') ?_ ?_
  · exact Ends.check (fun _ => rfl) fun _ _ _ => same.unchanged
  rintro _ _ rfl
  refine Ends.bind (fun _ file' => file = file') ?_ ?_
  · exact Ends.check (fun _ => rfl) fun _ _ _ => same.unchanged
  rintro _ _ rfl
  refine Ends.bind (fun _ file' => SameTree file file' ∧ file'.iSize = file.iSize)
    (zeroPieces_sameTree faults.pieces file) ?_
  rintro _ mid ⟨same, size⟩
  refine Ends.bind (fun _ file' => mid = file') ?_ ?_
  · exact Ends.check (fun _ => rfl) fun _ _ _ => same.unchanged
  rintro _ _ rfl
  have first := Nat.mod_eq_of_lt (blocksOf_lt (Nat.le_of_lt (Nat.lt_of_lt_of_le inside sized)))
  have last := Nat.mod_eq_of_lt (div_blockSize_lt (Nat.le_trans (Nat.min_le_right (offset + len) _) sized))
  rw [first, last]
  refine Ends.given (fun some_ => ?_) fun none_ => ?_
  · refine (punchBlocks_ends (same.intact intact) faults some_).mono (fun _ file' short => ?_)
      fun _ _ failed mild => (failed mild).of_sameTree same
    obtain ⟨maps, size', iff⟩ := short.punched_iff (same.intact intact) some_
    refine ⟨maps, size'.trans size, ?_⟩
    rw [← iff]
    exact exists_congr fun buf' => and_congr_right fun _ => (Remapped.of_sameTree same).symm
  · obtain ⟨hole, through⟩ := punched_none intact same none_
    exact ⟨hole.maps, size, iff_of_true hole (through _)⟩

end

def threeBlocks : List Extent := [.init 0 3 10 false]

theorem threeBlocks_intact : Intact (small 12288 threeBlocks) ⟨threeBlocks, []⟩ :=
  small_intact 12288 (by decide) (by decide) (by decide) (by decide)

end File

end SimpleFs

import KernelNotes.SimpleFs.ConvertRange

/-!
# Zeroing whole blocks

`simplefs_zero_range_full_blocks` goes over the range once: it marks the extents it meets unwritten
and fills the holes with new unwritten extents, in memory, and then syncs the tree. What it has
allocated by then is given back when the sync fails, but not when the loop itself fails.
-/

namespace SimpleFs

open Outcome Bits Cells

namespace File

variable {l r new : List Extent} {a : Nat}

theorem zeroLen_spec {block last : Nat} {extents : List Extent} (sound : Sound extents)
    (gap : Gap block extents l r) (more : block < last) :
    0 < zeroLen extents l.length block last ∧ zeroLen extents l.length block last ≤ maxBlocksPerExtent ∧
      block + zeroLen extents l.length block last ≤ last ∧
      ∀ e ∈ r, block + zeroLen extents l.length block last ≤ e.eeBlock := by
  have size : maxBlocksPerExtent = 8192 := rfl
  rw [zeroLen, gap.getElem?]
  cases rest : r with
  | nil =>
    dsimp only [List.head?_nil]
    exact ⟨by omega, by omega, by omega, nofun⟩
  | cons next later =>
    have behind := gap.behind next (by rw [rest]; exact List.mem_cons_self)
    rw [gap.split, rest] at sound
    have order := sound.of_append.2.1.first_le
    dsimp only [List.head?_cons]
    split
    · refine ⟨by omega, by omega, by omega, fun e mem => ?_⟩
      have := order e mem
      omega
    · refine ⟨by omega, by omega, by omega, fun e mem => ?_⟩
      have := order e mem
      omega

theorem zeroExtent_cases {block last : Nat} {extents : List Extent} {e : Extent}
    (sound : Sound extents) (at_ : At block extents l e r) (more : block < last) (nomem : Bool) :
    (zeroExtent nomem extents l.length block (min e.extEnd last) e = .error .enomem ∧ nomem = true) ∨
      ∃ new, zeroExtent nomem extents l.length block (min e.extEnd last) e = .ok new ∧ Sound new ∧
        cellsOf new = (cellsOf extents).map (restate true block (min e.extEnd last)) := by
  have fit : e.Fit := sound.fit e (by rw [at_.split]; simp)
  have high := at_.high
  rw [zeroExtent]
  by_cases unwritten : e.unwritten = true
  · rw [if_pos unwritten]
    refine .inr ⟨extents, rfl, sound, (map_restate_eq_self fun c mem low below => ?_).symm⟩
    have here : At c.1 extents l e r := ⟨at_.split, Nat.le_trans at_.low low, by rw [fit.extEnd] at below; omega⟩
    have same := here.mapOf sound
    rw [(mapOf_eq_some_iff sound.disjoint).mpr mem] at same
    rw [Option.some.inj same]
    exact unwritten
  · rw [if_neg unwritten, cutAt_eq at_]
    obtain ⟨-, cells, sound'⟩ := @restate_spec extents l r e block (min e.extEnd last - block) sound at_ true
    have stop : restateEnd block (min e.extEnd last - block) e = min e.extEnd last := by
      rw [restateEnd, fit.extEnd]
      omega
    rw [stop] at cells
    split
    · rename_i short
      rw [Bool.and_eq_true] at short
      exact .inl ⟨rfl, short.1⟩
    · refine .inr ⟨_, rfl, sound' ?_, cells⟩
      rw [fit.extEnd]
      omega

/-- The blocks of a range that nothing maps. -/
def holes (extents : List Extent) (first last : Nat) : Nat :=
  (List.range' first (last - first)).countP fun b => (mapOf extents b).isNone

theorem holes_add {extents : List Extent} {a b c : Nat} (low : a ≤ b) (high : b ≤ c) :
    holes extents a b + holes extents b c = holes extents a c := by
  have split : List.range' a (c - a) = List.range' a (b - a) ++ List.range' b (c - b) := by
    have sum : c - a = b - a + (c - b) := by omega
    have stop : a + (b - a) = b := by omega
    rw [sum, ← List.range'_append_1, stop]
  rw [holes, holes, holes, split, List.countP_append]

theorem holes_eq_zero {extents : List Extent} {b : Nat}
    (mapped : ∀ x, a ≤ x → x < b → (mapOf extents x).isSome = true) : holes extents a b = 0 := by
  rw [holes, List.countP_eq_zero]
  intro x mem none_
  obtain ⟨low, high⟩ := List.mem_range'_1.mp mem
  have some_ := mapped x low (by omega)
  rw [Option.isNone_iff_eq_none.mp none_] at some_
  cases some_

theorem holes_eq_length {extents : List Extent} {n : Nat}
    (unmapped : ∀ x, a ≤ x → x < a + n → mapOf extents x = none) : holes extents a (a + n) = n := by
  rw [holes, Nat.add_sub_cancel_left, List.countP_eq_length.mpr, List.length_range']
  intro x mem
  obtain ⟨low, high⟩ := List.mem_range'_1.mp mem
  rw [unmapped x low high]
  rfl

theorem holes_pos {extents : List Extent} {b x : Nat} (low : a ≤ x) (high : x < b)
    (unmapped : mapOf extents x = none) : 0 < holes extents a b := by
  rw [holes, List.countP_pos_iff]
  refine ⟨x, List.mem_range'_1.mpr ⟨low, by omega⟩, ?_⟩
  rw [unmapped]
  rfl

/-! ## The loop -/

/-- Nothing fails in the loop but the search for free blocks, and the sync is mild. -/
structure ZeroFaults.Calm (faults : ZeroFaults) (busy : BitMap) : Prop where
  kvmalloc : faults.kvmalloc = false
  load : faults.load = {}
  mark : ∀ i, faults.mark i = false
  free : ∀ i, Steady busy (faults.free i)
  insert : ∀ i, faults.insert i = false
  sync : faults.sync.Mild
  undo : ∀ i, faults.undo i = {}

def rangesLen (ranges : List BlockRange) : Nat := (ranges.flatMap BlockRange.blocks).length

theorem rangesLen_cons (range : BlockRange) (ranges : List BlockRange) :
    rangesLen (range :: ranges) = range.len + rangesLen ranges := by
  rw [rangesLen, List.flatMap_cons, List.length_append, BlockRange.blocks, List.length_range']
  rfl

/-- The second list maps the range with unwritten blocks, at their old places where there were
any, and is the first one outside. -/
structure Zeroed (first last : Nat) (extents new : List Extent) : Prop where
  inside : ∀ b, first ≤ b → b < last → ∃ p, mapOf new b = some (p, true) ∧
    ∀ v, mapOf extents b = some v → v.1 = p
  outside : ∀ b, ¬ (first ≤ b ∧ b < last) → mapOf new b = mapOf extents b

/-- The loop at `block`: the ranges that have been allocated are part of the list and of nothing
else. -/
structure Zeroing (faults : ZeroFaults) (busy : BitMap) (first last : Nat) (file : File) (buf : Buffer)
    (block : Nat) (extents : List Extent) (alloced : List BlockRange) (file' : File) : Prop where
  root : file'.eiBlock = file.eiBlock
  disk : file'.disk = file.disk
  sectors : file'.iBlocks = file.iBlocks + blocksToSectors (rangesLen alloced)
  took : Withheld file.space (alloced.flatMap BlockRange.blocks) file'.space
  idle : faults.Calm busy → ∀ b ∈ alloced.flatMap BlockRange.blocks, busy b = false
  up : file.space.sShutdown = false → file'.space.sShutdown = false
  full : ∀ range ∈ alloced, 0 < range.len
  data : (dataBlocks extents).Perm (alloced.flatMap BlockRange.blocks ++ dataBlocks buf.extents)
  sound : Sound extents
  low : first ≤ block
  high : block ≤ max first last
  zeroed : Zeroed first block buf.extents extents
  filled : rangesLen alloced = holes buf.extents first block

section

variable {faults : ZeroFaults} {busy : BitMap} {first last : Nat} {file file' : File} {buf : Buffer}
  {block : Nat} {extents : List Extent} {alloced : List BlockRange}

theorem Zeroing.start (intact : Intact file buf) :
    Zeroing faults busy first last file buf first buf.extents [] file where
  root := rfl
  disk := rfl
  sectors := by simp [blocksToSectors, rangesLen]
  took := .refl _
  idle _ := nofun
  up := id
  full := nofun
  data := List.Perm.refl _
  sound := intact.sound
  low := Nat.le_refl _
  high := Nat.le_max_left _ _
  zeroed := ⟨fun b low high => absurd high (Nat.not_lt.mpr low), fun _ _ => rfl⟩
  filled := by
    rw [holes, Nat.sub_self]
    rfl

variable (zeroing : Zeroing faults busy first last file buf block extents alloced file') (more : block < last)

include zeroing more

theorem Zeroing.extent {e : Extent} (at_ : At block extents l e r) (sound : Sound new)
    (cells : cellsOf new = (cellsOf extents).map (restate true block (min e.extEnd last))) :
    Zeroing faults busy first last file buf (min e.extEnd last) new alloced file' := by
  have fit : e.Fit := zeroing.sound.fit e (by rw [at_.split]; simp)
  have low := zeroing.low
  have here := at_.low
  have high := at_.high
  rw [fit.extEnd] at cells ⊢
  have maps := mapOf_restate zeroing.sound.disjoint cells
  have mapped : ∀ x, block ≤ x → x < min (e.eeBlock + e.extLen) last →
      mapOf buf.extents x = some (e.eeStart + (x - e.eeBlock), e.unwritten) := by
    intro x from_ until_
    rw [← zeroing.zeroed.outside x (by omega)]
    exact At.mapOf zeroing.sound ⟨at_.split, by omega, by omega⟩
  refine ⟨zeroing.root, zeroing.disk, zeroing.sectors, zeroing.took, zeroing.idle, zeroing.up, zeroing.full,
    ?_, sound, by omega, by omega, ⟨fun x from_ until_ => ?_, fun x outside => ?_⟩, ?_⟩
  · refine List.Perm.trans ?_ zeroing.data
    rw [dataBlocks, dataBlocks, cells, targets, targets, List.map_map]
    exact List.Perm.refl _
  · rw [maps x]
    by_cases early : x < block
    · obtain ⟨p, old, same⟩ := zeroing.zeroed.inside x from_ early
      refine ⟨p, ?_, same⟩
      rw [old, Option.map_some, if_neg (by omega)]
    · have old := mapped x (by omega) until_
      refine ⟨e.eeStart + (x - e.eeBlock), ?_, fun v same => ?_⟩
      · rw [zeroing.zeroed.outside x (by omega), old, Option.map_some, if_pos ⟨by omega, until_⟩]
      · rw [old] at same
        cases same
        rfl
  · rw [maps x, zeroing.zeroed.outside x (by omega)]
    simp only [if_neg (show ¬ (block ≤ x ∧ x < min (e.eeBlock + e.extLen) last) by omega)]
    exact Option.map_id'
  · rw [zeroing.filled, ← holes_add low (show block ≤ min (e.eeBlock + e.extLen) last by omega),
      holes_eq_zero (a := block), Nat.add_zero]
    intro x from_ until_
    rw [mapped x from_ until_]
    rfl

theorem Zeroing.hole (intact : Intact file buf) (words : last < wordSize)
    (gap : Gap block extents l r) {range : BlockRange} (some_ : 0 < range.len)
    (short : range.len ≤ zeroLen extents l.length block last) {file'' : File}
    (root : file''.eiBlock = file'.eiBlock) (disk : file''.disk = file'.disk)
    (sectors : file''.iBlocks = file'.iBlocks + blocksToSectors range.len)
    (took : Withheld file.space (range.blocks ++ alloced.flatMap BlockRange.blocks) file''.space)
    (idle : faults.Calm busy → ∀ b ∈ range.blocks, busy b = false)
    (up : file''.space.sShutdown = false) :
    Zeroing faults busy first last file buf (block + range.len)
      (extents.insertIdx l.length (.init block range.len range.start true)) (range :: alloced) file'' := by
  obtain ⟨-, small, inside, room⟩ := zeroLen_spec zeroing.sound gap more
  have low := zeroing.low
  have device := intact.device
  obtain ⟨start, fits⟩ := took.run_bounds intact.reserved some_
  have room : ∀ e ∈ r, block + range.len ≤ e.eeBlock := by
    intro e mem
    have := room e mem
    omega
  obtain ⟨sound, cells⟩ := gap.added zeroing.sound some_ (by omega) start (by omega) (by omega) room true
  have maps := mapOf_add zeroing.sound sound cells
  have unmapped : ∀ x, block ≤ x → x < block + range.len → mapOf buf.extents x = none := by
    intro x from_ until_
    rw [← zeroing.zeroed.outside x (by omega)]
    exact gap.unmapped zeroing.sound room from_ until_
  refine ⟨root.trans zeroing.root, disk.trans zeroing.disk, ?_, took, fun calm => ?_, fun _ => up, ?_, ?_, sound,
    by omega, by omega, ⟨fun x from_ until_ => ?_, fun x outside => ?_⟩, ?_⟩
  · rw [sectors, zeroing.sectors, rangesLen_cons, Nat.add_comm range.len]
    simp only [blocksToSectors, UInt64.ofNat_add]
    grind
  · rw [List.flatMap_cons]
    exact List.forall_mem_append.mpr ⟨idle calm, zeroing.idle calm⟩
  · exact List.forall_mem_cons.mpr ⟨some_, zeroing.full⟩
  · rw [List.flatMap_cons, List.append_assoc]
    refine (cells.map _).trans ?_
    rw [List.map_append]
    exact (List.Perm.of_eq (targets_run block range.start true range.len)).append zeroing.data
  · rw [maps x]
    by_cases early : x < block
    · rw [if_neg (by omega)]
      exact zeroing.zeroed.inside x from_ early
    · rw [if_pos ⟨by omega, until_⟩]
      refine ⟨_, rfl, fun v mapped => ?_⟩
      rw [unmapped x (by omega) until_] at mapped
      cases mapped
  · rw [maps x, if_neg (by omega)]
    exact zeroing.zeroed.outside x (by omega)
  · rw [rangesLen_cons, zeroing.filled, ← holes_add low (Nat.le_add_right block range.len),
      holes_eq_length unmapped]
    omega

end

theorem Zeroing.unchanged {faults : ZeroFaults} {busy : BitMap} {first last : Nat} {file file' : File}
    {buf : Buffer} {block : Nat} {extents : List Extent} {alloced : List BlockRange}
    (zeroing : Zeroing faults busy first last file buf block extents alloced file')
    (none_ : rangesLen alloced = 0) : Unchanged file file' := by
  refine ⟨zeroing.disk, ?_, ?_⟩
  · rw [zeroing.sectors, none_]
    exact UInt64.add_zero _
  · exact zeroing.took.same_iff.mpr (List.eq_nil_of_length_eq_zero none_)

/-- The loop fails, apart from faults, only when nothing is usable, at a block that is not mapped. -/
def OutOfSpace (faults : ZeroFaults) (busy : BitMap) (first last : Nat) (file : File) (buf : Buffer)
    (file' : File) : Prop :=
  ∃ block extents alloced, Zeroing faults busy first last file buf block extents alloced file' ∧
    block < last ∧ mapOf buf.extents block = none ∧ file'.space.usable busy = 0

theorem zeroLoop_ends {faults : ZeroFaults} {busy : BitMap} {first last : Nat} {file : File} {buf : Buffer}
    (intact : Intact file buf) (words : last < wordSize) (rounds : Nat) :
    ∀ block extents alloced file', Zeroing faults busy first last file buf block extents alloced file' →
    last ≤ block + rounds →
    Ends (fun out file'' => Zeroing faults busy first last file buf (max first last) out.1 out.2 file'')
      (fun _ file'' => (faults.Calm busy → file.space.sShutdown = false →
        OutOfSpace faults busy first last file buf file'') ∧
        (holes buf.extents first last = 0 → Unchanged file file''))
      (zeroLoop faults last rounds block extents alloced file') := by
  induction rounds with
  | zero =>
    intro block extents alloced file' zeroing enough
    have := zeroing.low
    have := zeroing.high
    obtain rfl : block = max first last := by omega
    exact zeroing
  | succ rounds ih =>
    intro block extents alloced file' zeroing enough
    have low := zeroing.low
    have high := zeroing.high
    rw [zeroLoop]
    by_cases ended : last ≤ block
    · rw [if_pos ended]
      obtain rfl : block = max first last := by omega
      exact zeroing
    rw [if_neg ended]
    have more : block < last := Nat.not_le.mp ended
    rcases findExtent_cases zeroing.sound block with ⟨l, e, r, at_, found⟩ | ⟨l, r, gap, missing⟩
    · rw [found]
      dsimp only
      rw [if_pos rfl, at_.getElem?]
      have fit : e.Fit := zeroing.sound.fit e (by rw [at_.split]; simp)
      rcases zeroExtent_cases zeroing.sound at_ more (faults.mark rounds) with
        ⟨failed, nomem⟩ | ⟨new, done, sound, cells⟩
      · dsimp only
        rw [failed]
        refine ⟨fun calm => ?_, fun none_ => zeroing.unchanged ?_⟩
        · rw [calm.mark] at nomem
          cases nomem
        · rw [zeroing.filled]
          have := @holes_add buf.extents first block last low (Nat.le_of_lt more)
          omega
      · dsimp only
        rw [done]
        refine ih _ _ _ _ (zeroing.extent more at_ sound cells) ?_
        have := at_.high
        rw [fit.extEnd]
        omega
    · rw [missing]
      dsimp only
      rw [if_neg Bool.false_ne_true]
      obtain ⟨some_, -, -, -⟩ := zeroLen_spec zeroing.sound gap more
      have unmapped : mapOf buf.extents block = none := by
        rw [← zeroing.zeroed.outside block (by omega)]
        exact gap.mapOf zeroing.sound
      have hole := holes_pos low more unmapped
      refine Ends.bind _ ((takeFree_ends intact.reserved (faults.free rounds)
        (zeroLen extents l.length block last) fun _ => zeroing.took).mono (fun _ _ => id)
        fun _ mid failed => ⟨fun calm up => ?_, fun none_ => by omega⟩) ?_
      · obtain ⟨rfl, empty⟩ := failed (calm.free rounds) some_ (zeroing.up up)
        exact ⟨block, extents, alloced, zeroing, more, unmapped, empty⟩
      rintro range _ ⟨space, rfl, positive, short, took, chosen, up⟩
      refine Ends.bind (fun _ mid => file'.setSpace space = mid) ?_ ?_
      · refine Ends.onError (fun _ _ => faults.insert rounds = true)
          (Ends.refuse (fun _ => rfl) id) fun _ _ failed => ⟨fun calm => ?_, fun none_ => by omega⟩
        rw [calm.insert] at failed
        cases failed
      rintro _ _ rfl
      refine Ends.bind (fun _ mid => { file'.setSpace space with
        iBlocks := file'.iBlocks + blocksToSectors range.len } = mid) (Ends.update rfl) ?_
      rintro _ _ rfl
      refine ih _ _ _ _ (zeroing.hole more intact words gap positive short rfl rfl rfl took
        (fun calm => (chosen busy (calm.free rounds)).2.1.idle) up) (by omega)

/-! ## The sync and the way back -/

theorem undoRanges_calm {puts : Nat → Space.HandleFaults} (calm : ∀ i, puts i = {}) {base : Space}
    (reserved : base.Reserved) (ranges : List BlockRange) : ∀ i file, (∀ range ∈ ranges, 0 < range.len) →
    Withheld base (ranges.flatMap BlockRange.blocks) file.space → file.space.sShutdown = false →
    (undoRanges puts ranges i file).2.disk = file.disk ∧
      (undoRanges puts ranges i file).2.iBlocks + blocksToSectors (rangesLen ranges) = file.iBlocks ∧
      Withheld base [] (undoRanges puts ranges i file).2.space := by
  induction ranges with
  | nil =>
    intro i file _ took _
    refine ⟨rfl, ?_, took⟩
    show file.iBlocks + _ = _
    simp [blocksToSectors, rangesLen]
  | cons range rest ih =>
    intro i file full took up
    obtain ⟨some_, later⟩ := List.forall_mem_cons.mp full
    rw [List.flatMap_cons] at took
    have back := @Withheld.putBlocks _ _ _ reserved _ _ took some_ {} up
    rw [if_neg Bool.false_ne_true] at back
    obtain ⟨disk, sectors, same⟩ := ih (i + 1) ({ file.setSpace (Space.putBlocks (puts i) range.start range.len
      file.space).2 with iBlocks := file.iBlocks - blocksToSectors range.len }) later
      (by rw [calm i]; exact back) (by rw [calm i]; exact (Space.putBlocks_up rfl rfl _ _ _).trans up)
    refine ⟨disk, ?_, same⟩
    rw [rangesLen_cons, Nat.add_comm]
    simp only [blocksToSectors, UInt64.ofNat_add] at sectors ⊢
    rw [UInt64.add_mul, ← UInt64.add_assoc]
    refine (congrArg (· + _) sectors).trans ?_
    exact UInt64.sub_add_cancel _ _

theorem Zeroing.nil_of_rangesLen {faults : ZeroFaults} {busy : BitMap} {first last : Nat} {file file' : File}
    {buf : Buffer} {block : Nat} {extents : List Extent} {alloced : List BlockRange}
    (zeroing : Zeroing faults busy first last file buf block extents alloced file')
    (none_ : rangesLen alloced = 0) : alloced = [] := by
  cases alloced with
  | nil => rfl
  | cons range rest =>
    have some_ := zeroing.full range List.mem_cons_self
    rw [rangesLen_cons] at none_
    omega

theorem Zeroed.congr {first last : Nat} {extents new' : List Extent}
    (zeroed : Zeroed first last extents new) (same : ∀ b, mapOf new' b = mapOf new b) :
    Zeroed first last extents new' := by
  refine ⟨fun b low high => ?_, fun b outside => ?_⟩
  · rw [same]
    exact zeroed.inside b low high
  · rw [same]
    exact zeroed.outside b outside

theorem Zeroed.of_max {first last : Nat} {extents : List Extent}
    (zeroed : Zeroed first (max first last) extents new) : Zeroed first last extents new :=
  ⟨fun b low high => zeroed.inside b low (by omega), fun b outside => zeroed.outside b (by omega)⟩

theorem holes_max (extents : List Extent) (first last : Nat) :
    holes extents first (max first last) = holes extents first last := by
  have same : max first last - first = last - first := by omega
  rw [holes, holes, same]

section

variable {faults : ZeroFaults} {busy : BitMap} {first last : Nat} {file : File} {buf : Buffer}

theorem Zeroing.enough {extents : List Extent} {alloced : List BlockRange} {file' : File}
    (zeroing : Zeroing faults busy first last file buf (max first last) extents alloced file')
    (calm : faults.Calm busy) : holes buf.extents first last ≤ file.space.usable busy := by
  have sum := zeroing.took.usable (zeroing.idle calm)
  have filled := zeroing.filled
  rw [holes_max, rangesLen] at filled
  omega

theorem zeroRangeFullBlocks_ends (intact : Intact file buf) (words : last < wordSize) :
    Ends (fun _ file' => (∃ buf', Intact file' buf' ∧ Zeroed first last buf.extents buf'.extents) ∧
        (faults.Calm busy → holes buf.extents first last ≤ file.space.usable busy))
      (fun _ file' => (faults.Calm busy → file.space.sShutdown = false →
          (Unchanged file file' ∧ holes buf.extents first last ≤ file.space.usable busy) ∨
            OutOfSpace faults busy first last file buf file') ∧
        (holes buf.extents first last = 0 → faults.sync.Mild → Unchanged file file'))
      (zeroRangeFullBlocks faults first last file) := by
  rw [zeroRangeFullBlocks]
  refine Ends.bind (fun _ file' => file = file') ?_ ?_
  · refine Ends.refuse (fun _ => rfl) fun failed => ⟨fun calm => ?_, fun _ _ => .refl file⟩
    rw [calm.kvmalloc] at failed
    cases failed
  rintro _ _ rfl
  refine Ends.bind (fun buf' file' => buf = buf' ∧ file = file') ?_ ?_
  · exact ((load_eq intact faults.load).and (load_fault intact faults.load)).mono (fun _ _ both => both.1)
      fun _ file' both => ⟨fun calm => absurd calm.load both.2, fun _ _ => both.1 ▸ .refl file⟩
  rintro _ _ ⟨rfl, rfl⟩
  refine Ends.bind _ ((zeroLoop_ends intact words _ first buf.extents [] file (.start intact)
    (by omega)).mono (fun _ _ => id) fun _ _ failed =>
      ⟨fun calm up => .inr (failed.1 calm up), fun none_ _ => failed.2 none_⟩) ?_
  rintro ⟨extents, alloced⟩ mid zeroing
  have owned := intact.toOwned.add zeroing.took zeroing.root zeroing.data
  refine Ends.bind (Written mid { buf with extents }) ?_ ?_
  · refine Ends.onError _ (owned.sync_ends zeroing.sound.loose faults.sync)
      fun _ last_ unwritten => ⟨fun calm up => ?_, fun none_ mild => ?_⟩
    rotate_left
    · have filled := zeroing.filled
      rw [holes_max, none_] at filled
      obtain rfl : alloced = [] := zeroing.nil_of_rangesLen filled
      exact (zeroing.unchanged filled).trans (unwritten.mild mild).1
    obtain ⟨-, same⟩ := unwritten.mild calm.sync
    have stillUp := same.trans (zeroing.up up)
    obtain ⟨disk, sectors, held⟩ := unwritten.quiet stillUp
    have held := held _ _ intact.reserved zeroing.took
    rw [strandedBySync_nil calm.sync.owned, List.nil_append] at held
    obtain ⟨disk', sectors', back⟩ := undoRanges_calm calm.undo intact.reserved alloced 0 last_ zeroing.full held
      stillUp
    refine .inl ⟨⟨disk'.trans (disk.trans zeroing.disk), ?_, back.same⟩, zeroing.enough calm⟩
    rw [sectors, zeroing.sectors] at sectors'
    exact (UInt64.add_left_inj _).mp sectors'
  · intro buf' last_ written
    refine ⟨⟨buf', written.intact, zeroing.zeroed.of_max.congr fun b => ?_⟩, zeroing.enough⟩
    rw [written.extents]
    exact zeroing.sound.loose.mapOf_normalize b

/-- An error leaves no trace as long as the file system is up. -/
def Atomic {α : Type} (file : File) (run : Except Errno α × File) : Prop :=
  ∀ e file', run = (.error e, file') → file'.space.sShutdown = false → Unchanged file file'

end

/-- A file that leaves two blocks of the device free. -/
def nearlyFull : File := small (56 * 4096) [.init 0 56 6 false]

theorem nearlyFull_intact : Intact nearlyFull ⟨[.init 0 56 6 false], []⟩ :=
  small_intact _ (by decide) (by decide) (by decide +kernel) (by decide +kernel)

theorem calm_default : ({} : ZeroFaults).Calm fun _ => false where
  kvmalloc := rfl
  load := rfl
  mark _ := rfl
  free _ _ := rfl
  insert _ := rfl
  sync := ⟨fun _ => rfl, fun _ => rfl, fun _ => rfl, fun _ => rfl, fun _ => rfl, rfl, rfl, rfl, fun _ => rfl,
    fun _ => rfl, rfl⟩
  undo _ := rfl

/-- Conversion makes the blocks its range touches written, zeroing makes its range unwritten, and
neither moves a block. -/
theorem stateChanges_exact {file : File} {buf : Buffer} (intact : Intact file buf) {offset len : Nat}
    (below : blocksOf (offset + len) < wordSize) {first last : Nat} (words : last < wordSize)
    (converts : ConvertFaults) (zeroes : ZeroFaults) :
    (∃ enough out, (∀ fuel, enough ≤ fuel → convertUnwrittenRange converts fuel offset len file = some out) ∧
        (out.1 = .ok () → ∃ buf', Intact out.2 buf' ∧ Converted offset len buf.extents buf'.extents)) ∧
      ∀ file', zeroRangeFullBlocks zeroes first last file = (.ok (), file') →
        ∃ buf', Intact file' buf' ∧ Zeroed first last buf.extents buf'.extents := by
  constructor
  · obtain ⟨enough, ⟨result, file'⟩, ran, ends⟩ := convertUnwrittenRange_ends intact converts below
    refine ⟨enough, (result, file'), ran, fun ok => ?_⟩
    dsimp only at ok
    rw [ok] at ends
    exact ends
  · intro file' ran
    have ends := @zeroRangeFullBlocks_ends zeroes (fun _ => false) first last file buf intact words
    rw [ran] at ends
    exact ends.1

/-- A file of two unwritten blocks. -/
def twoUnwritten : File := small 8192 [.init 0 2 10 true]

theorem twoUnwritten_intact : Intact twoUnwritten ⟨[.init 0 2 10 true], []⟩ :=
  small_intact _ (by decide) (by decide) (by decide) (by decide)

/-- The end of a range beyond 32-bit block numbers is cut off: both blocks are touched, and one
stays unwritten. -/
theorem convertUnwrittenRange_wraps :
    Intact twoUnwritten ⟨[.init 0 2 10 true], []⟩ ∧ Touched 0 (2 ^ 44 + 1) 1 ∧
      (convertUnwrittenRange {} 10 0 (2 ^ 44 + 1) twoUnwritten).map
          (fun out => (out.1, loadExtents {} out.2.disk out.2.eiBlock)) =
        some (.ok (), .ok ⟨[.init 0 1 10 false, .init 1 1 11 true], []⟩) := by
  refine ⟨twoUnwritten_intact, ⟨4096, ?_⟩, ?_⟩
  · decide
  · decide +kernel

/-- The first of two blocks is converted, and the second one and a new one are zeroed. -/
theorem stateChanges_twoBlocks :
    (convertUnwrittenRange {} 10 0 100 twoUnwritten).map Prod.fst = some (.ok ()) ∧
      (zeroRangeFullBlocks {} 1 3 twoUnwritten).1 = .ok () ∧
    (∃ enough out, (∀ fuel, enough ≤ fuel → convertUnwrittenRange {} fuel 0 100 twoUnwritten = some out) ∧
        (out.1 = .ok () → ∃ buf', Intact out.2 buf' ∧ Converted 0 100 [.init 0 2 10 true] buf'.extents)) ∧
      ∀ file', zeroRangeFullBlocks {} 1 3 twoUnwritten = (.ok (), file') →
        ∃ buf', Intact file' buf' ∧ Zeroed 1 3 [.init 0 2 10 true] buf'.extents := by
  refine ⟨by decide +kernel, by decide +kernel, ?_⟩
  exact stateChanges_exact twoUnwritten_intact (by decide) (by decide) {} {}

end File

end SimpleFs

import KernelNotes.SimpleFs.FileAlloc

/-!
# Mapping a block

`simplefs_get_block` reports the extent of a block, after converting it if asked to, or fills the
hole the block lies in: by making the extent before it longer, or with a new extent. What it reports
is what the file then maps, and blocks it calls new were neither mapped nor in use before.
-/

namespace SimpleFs

open Outcome Bits Cells

namespace File

variable {file' : File} {new : List Extent} {n : Nat} {prev e : Extent}

theorem Owned.add {file : File} {buf : Buffer} (owned : Owned file buf) {held : List Nat}
    (took : Withheld file.space held file'.space) (root : file'.eiBlock = file.eiBlock)
    (data : (dataBlocks new).Perm (held ++ dataBlocks buf.extents)) :
    Owned file' { buf with extents := new } := by
  have same : (file'.blocks { buf with extents := new }).Perm (held ++ file.blocks buf) := by
    rw [File.blocks, root]
    refine List.Perm.trans (List.Perm.cons _ ?_) List.perm_middle.symm
    refine (data.append_left _).trans ?_
    rw [← List.append_assoc, ← List.append_assoc]
    exact List.perm_append_comm.append_right _
  have traded := Traded.of_held took
  refine ⟨same.nodup_iff.mpr ?_, fun b mem => ?_, traded.reserved owned.reserved (by simp), ?_⟩
  · refine List.nodup_append.mpr ⟨took.distinct, owned.distinct, fun b new b' old equal => ?_⟩
    have free := took.wasFree b new
    rw [equal, (owned.returnable b' old).2.2.2] at free
    cases free
  · rcases List.mem_append.mp (same.mem_iff.mp mem) with new | old
    · have free := took.wasFree b new
      refine ⟨Nat.pos_of_ne_zero fun zero => ?_, ?_, fun dir => ?_, took.used new⟩
      · rw [zero, owned.reserved.zero] at free
        cases free
      · rw [took.geometry.nrBlocks]
        exact took.inside b new
      · rw [dir, took.geometry.rootDirBlock, owned.reserved.root] at free
        cases free
    · exact took.returnable (owned.returnable b old)
  · rw [took.geometry.nrBlocks]
    exact owned.device

/-- The file maps `n` more blocks from `iblock` on. -/
def Extended (buf : Buffer) (iblock p n : Nat) (u : Bool) (file' : File) : Prop :=
  ∃ buf', Intact file' buf' ∧ ∀ x, mapOf buf'.extents x =
    if iblock ≤ x ∧ x < iblock + n then some (p + (x - iblock), u) else mapOf buf.extents x

section

variable {file : File} {buf : Buffer} (intact : Intact file buf)

include intact

theorem sync_extended {iblock p : Nat} {u : Bool}
    (took : Withheld file.space (List.range' p n) file'.space) (root : file'.eiBlock = file.eiBlock)
    (sound : Sound new) (cells : (cellsOf new).Perm (run iblock p u n ++ cellsOf buf.extents))
    (faults : SyncFaults) :
    Ends (fun _ => Extended buf iblock p n u) (fun _ _ => True)
      (sync faults { buf with extents := new } file') := by
  have data : (dataBlocks new).Perm (List.range' p n ++ dataBlocks buf.extents) := by
    have targets_ := cells.map fun c : Nat × Nat × Bool => c.2.1
    rw [List.map_append] at targets_
    have first : (run iblock p u n).map (fun c => c.2.1) = List.range' p n := targets_run iblock p u n
    rw [first] at targets_
    exact targets_
  refine ((intact.toOwned.add took root data).sync_ends sound.loose faults).mono
    (fun buf' mid written => ⟨buf', written.intact, fun x => ?_⟩) fun _ _ _ => trivial
  rw [written.extents, sound.loose.mapOf_normalize, mapOf_add intact.sound sound cells]

end

/-! ## The hole -/

section

variable {iblock : Nat} {extents l r : List Extent} (gap : Gap iblock extents l r)

include gap

theorem holeLen_spec (sound : Sound extents) (maxblocks : Nat) :
    holeLen extents l.length iblock maxblocks ≤ maxBlocksPerExtent ∧
      holeLen extents l.length iblock maxblocks ≤ maxblocks ∧
      ∀ e ∈ r, iblock + holeLen extents l.length iblock maxblocks ≤ e.eeBlock := by
  have word := Nat.mod_le maxblocks wordSize
  rw [holeLen, gap.getElem?]
  cases rest : r with
  | nil => exact ⟨Nat.min_le_right _ _, Nat.le_trans (Nat.min_le_left _ _) word, nofun⟩
  | cons next later =>
    have behind := gap.behind next (by rw [rest]; exact List.mem_cons_self)
    rw [gap.split, rest] at sound
    have order := sound.of_append.2.1.first_le
    dsimp only [List.head?_cons]
    split
    · rename_i close
      refine ⟨by omega, by omega, fun e mem => ?_⟩
      have := order e mem
      omega
    · rename_i far
      refine ⟨Nat.min_le_right _ _, Nat.le_trans (Nat.min_le_left _ _) word, fun e mem => ?_⟩
      have := order e mem
      omega

end

section

variable {file : File} {buf : Buffer} (intact : Intact file buf)

include intact

/-- What `newExtent` does when it succeeds. The search behind the extent before may have gone
before it. -/
theorem newExtent_ends {iblock len : Nat} {l r : List Extent} (gap : Gap iblock buf.extents l r)
    (root : file'.eiBlock = file.eiBlock)
    (quiet : file'.space.sShutdown = false → Withheld file.space [] file'.space)
    (small : len ≤ maxBlocksPerExtent) (below : iblock + len < wordSize)
    (room : ∀ e ∈ r, iblock + len ≤ e.eeBlock) (faults : GetFaults) (mode : GetMode) :
    Ends (fun m file'' => m.isNew = true ∧ m.unwritten = mode.createUnwritten ∧ 0 < m.blocks ∧
        m.blocks ≤ len ∧ (∀ k < m.blocks, file.space.bfreeBitmap (m.bno + k) = true) ∧
        Extended buf iblock m.bno m.blocks mode.createUnwritten file'')
      (fun _ _ => True) (newExtent faults mode buf iblock len l.length file') := by
  rw [newExtent]
  refine Ends.bind _ ((takeFree_ends intact.reserved faults.free len quiet).mono (fun _ _ => id)
    fun _ _ _ => trivial) ?_
  rintro range _ ⟨space, rfl, some_, short, took, -, -⟩
  rw [List.append_nil] at took
  refine Ends.bind (fun _ mid => file'.setSpace space = mid) ?_ ?_
  · exact Ends.onError (fun _ _ => True) (Ends.refuse (fun _ => rfl) fun _ => trivial) fun _ _ _ => trivial
  rintro _ _ rfl
  refine Ends.bind (fun _ mid => mid.eiBlock = file'.eiBlock ∧ mid.space = space) ⟨rfl, rfl⟩ ?_
  rintro _ last ⟨root', same⟩
  obtain ⟨start, inside⟩ := took.append_nil.run_bounds intact.reserved some_
  have device := intact.device
  obtain ⟨sound, cells⟩ := gap.added intact.sound some_ (Nat.le_trans short small) start (by omega) (by omega)
    (fun e mem => by have := room e mem; omega) mode.createUnwritten
  rw [← same] at took
  refine Ends.bind (fun _ => Extended buf iblock range.start range.len mode.createUnwritten) ?_ ?_
  · refine Ends.onError (fun _ _ => True) ?_ fun _ _ _ => trivial
    exact sync_extended intact took (root'.trans root) sound cells faults.sync
  · intro _ last extended
    refine ⟨rfl, rfl, some_, short, fun k less => ?_, extended⟩
    exact took.wasFree _ (List.mem_range'_1.mpr ⟨Nat.le_add_right _ _, by dsimp only at less ⊢; omega⟩)

omit intact in
theorem growable_spec {iblock : Nat} {extents l r : List Extent} (sound : Sound extents)
    (gap : Gap iblock extents l r) {u : Bool} {k : Nat}
    (grows : growable u extents l.length iblock = some (k, prev)) :
    ∃ l', l = l' ++ [prev] ∧ k = l'.length ∧ prev.unwritten = u ∧ prev.eeBlock + prev.extLen = iblock ∧
      prev.extLen < maxBlocksPerExtent := by
  rcases List.eq_nil_or_concat' l with rfl | ⟨l', e, rfl⟩
  · cases grows
  have here : extents[l'.length]? = some e := by
    rw [gap.split, List.append_assoc, List.getElem?_append_right (Nat.le_refl _), Nat.sub_self]
    rfl
  have fit : e.Fit := sound.fit e (by rw [gap.split]; simp)
  rw [List.length_append, List.length_singleton, growable, here] at grows
  dsimp only at grows
  split at grows
  · rename_i fits
    cases grows
    simp only [Bool.and_eq_true, beq_iff_eq, decide_eq_true_eq, fit.extEnd] at fits
    exact ⟨l', rfl, rfl, fits.1.1.2, fits.1.2, fits.2⟩
  · cases grows

theorem grow_added {iblock : Nat} {l r : List Extent} {s : Space}
    (gap : Gap iblock buf.extents (l ++ [prev]) r) (ends : prev.eeBlock + prev.extLen = iblock)
    (took : Withheld file.space (List.range' (prev.eeStart + prev.extLen) n) s) (some_ : 0 < n)
    (small : prev.extLen + n ≤ maxBlocksPerExtent) (below : iblock + n < wordSize)
    (room : ∀ e ∈ r, iblock + n ≤ e.eeBlock) :
    Sound (buf.extents.set l.length (prev.setLen (prev.extLen + n))) ∧
      (cellsOf (buf.extents.set l.length (prev.setLen (prev.extLen + n)))).Perm
        (run iblock (prev.eeStart + prev.extLen) prev.unwritten n ++ cellsOf buf.extents) := by
  have split_ : buf.extents = l ++ prev :: r := by
    rw [gap.split, List.append_assoc]
    rfl
  have fit : prev.Fit := intact.sound.fit prev (by rw [split_]; simp)
  have placed := fit.placed
  have device := intact.device
  obtain ⟨-, inside⟩ := took.append_nil.run_bounds intact.reserved some_
  have length : (prev.setLen (prev.extLen + n)).extLen = prev.extLen + n := Extent.extLen_setLen prev small
  have block : (prev.setLen (prev.extLen + n)).eeBlock = prev.eeBlock := rfl
  have grown : (prev.setLen (prev.extLen + n)).Fit := by
    refine ⟨⟨by omega, placed, ?_⟩, ?_⟩
    · rw [length, block]
      omega
    · rw [length]
      show prev.eeStart + _ < _
      omega
  have cells : (prev.setLen (prev.extLen + n)).cells =
      prev.cells ++ run iblock (prev.eeStart + prev.extLen) prev.unwritten n := by
    rw [grown.cells, fit.cells, length, ← ends]
    exact run_add _ _ _ _ _
  have sound := intact.sound
  rw [split_] at sound ⊢
  rw [List.set_append_right _ _ (Nat.le_refl _), Nat.sub_self, List.set_cons_zero]
  constructor
  · refine sound.replace (Sound.singleton grown) ?_ ?_
    · exact List.forall_mem_singleton.mpr (Nat.le_refl _)
    · refine List.forall_mem_singleton.mpr fun e mem => ?_
      rw [Extent.Before, length, block]
      have := room e mem
      omega
  · rw [cellsOf_append, cellsOf_append, cellsOf_cons, cellsOf_cons, cells]
    simp only [← List.append_assoc]
    refine List.Perm.append_right _ (List.perm_append_comm.trans ?_)
    rw [List.append_assoc]

theorem growExtent_ends {iblock : Nat} {l r : List Extent}
    (gap : Gap iblock buf.extents (l ++ [prev]) r) (ends : prev.eeBlock + prev.extLen = iblock)
    (root : file'.eiBlock = file.eiBlock)
    (took : Withheld file.space (List.range' (prev.eeStart + prev.extLen) n) file'.space)
    (some_ : 0 < n) (small : prev.extLen + n ≤ maxBlocksPerExtent) (below : iblock + n < wordSize)
    (room : ∀ e ∈ r, iblock + n ≤ e.eeBlock) (faults : GetFaults) (mode : GetMode)
    (state : prev.unwritten = mode.createUnwritten) :
    Ends (fun m file'' => m.isNew = true ∧ m.unwritten = mode.createUnwritten ∧ 0 < m.blocks ∧
        m.blocks = n ∧ (∀ k < m.blocks, file.space.bfreeBitmap (m.bno + k) = true) ∧
        Extended buf iblock m.bno m.blocks mode.createUnwritten file'')
      (fun _ _ => True)
      (growExtent faults mode buf l.length prev (prev.eeStart + prev.extLen) n file') := by
  obtain ⟨sound, cells⟩ := grow_added intact gap ends took some_ small below room
  rw [state] at cells
  rw [growExtent]
  refine Ends.bind (fun _ mid => file' = mid) ?_ ?_
  · exact Ends.onError (fun _ _ => True) (Ends.check (fun _ => rfl) fun _ _ => trivial) fun _ _ _ => trivial
  rintro _ _ rfl
  refine Ends.bind (fun _ mid => mid.eiBlock = file'.eiBlock ∧ mid.space = file'.space) ⟨rfl, rfl⟩ ?_
  rintro _ mid ⟨root', same⟩
  rw [← same] at took
  refine Ends.bind (fun _ => Extended buf iblock (prev.eeStart + prev.extLen) n mode.createUnwritten)
    (sync_extended intact took (root'.trans root) sound cells faults.sync) ?_
  intro _ last extended
  refine ⟨rfl, rfl, some_, rfl, fun k less => ?_, extended⟩
  exact took.wasFree _ (List.mem_range'_1.mpr ⟨Nat.le_add_right _ _, by dsimp only at less ⊢; omega⟩)

/-- `simplefs_get_block` for a block in a hole. -/
theorem fillHole_ends {iblock maxblocks : Nat} {l r : List Extent} (gap : Gap iblock buf.extents l r)
    (limit : iblock < maxFileBlocks) (faults : GetFaults) (mode : GetMode) :
    Ends (fun m file' => m.isNew = true ∧ m.unwritten = mode.createUnwritten ∧ 0 < m.blocks ∧
        (∀ e ∈ r, iblock + m.blocks ≤ e.eeBlock) ∧
        (∀ k < m.blocks, file.space.bfreeBitmap (m.bno + k) = true) ∧
        Extended buf iblock m.bno m.blocks mode.createUnwritten file')
      (fun _ _ => True) (fillHole faults mode buf iblock maxblocks l.length file) := by
  obtain ⟨small, -, room⟩ := holeLen_spec gap intact.sound maxblocks
  rw [fillHole]
  generalize holeLen buf.extents l.length iblock maxblocks = len at small room ⊢
  have below : iblock + len < wordSize := by
    have most : maxFileBlocks = 710246400 := rfl
    have size : maxBlocksPerExtent = 8192 := rfl
    have word : wordSize = 4294967296 := rfl
    omega
  have weaken : ∀ m : Mapping, m.blocks ≤ len → ∀ e ∈ r, iblock + m.blocks ≤ e.eeBlock := by
    intro m short e mem
    have := room e mem
    omega
  have fresh : ∀ file' : File, file'.eiBlock = file.eiBlock →
      (file'.space.sShutdown = false → Withheld file.space [] file'.space) →
      Ends (fun m file' => m.isNew = true ∧ m.unwritten = mode.createUnwritten ∧ 0 < m.blocks ∧
        (∀ e ∈ r, iblock + m.blocks ≤ e.eeBlock) ∧
        (∀ k < m.blocks, file.space.bfreeBitmap (m.bno + k) = true) ∧
        Extended buf iblock m.bno m.blocks mode.createUnwritten file')
      (fun _ _ => True) (newExtent faults mode buf iblock len l.length file') := by
    intro file' root quiet
    refine (newExtent_ends intact gap root quiet small below room faults mode).mono (fun m _ => ?_)
      fun _ _ => id
    rintro ⟨new, state, some_, short, free, extended⟩
    exact ⟨new, state, some_, weaken m short, free, extended⟩
  cases grows : growable mode.createUnwritten buf.extents l.length iblock with
  | none => exact fresh file rfl fun _ => .refl _
  | some found =>
    obtain ⟨k, prev⟩ := found
    obtain ⟨l', rfl, rfl, state, ends, short⟩ := growable_spec intact.sound gap grows
    have fit : prev.Fit := intact.sound.fit prev (by rw [gap.split]; simp)
    dsimp only
    rw [Nat.mod_eq_of_lt fit.physical]
    have search := Withheld.growRun intact.reserved faults.grow (prev.eeStart + prev.extLen)
      (min len (maxBlocksPerExtent - prev.extLen)) 0 file.space (.refl _)
    have found := growRun_found faults.grow (prev.eeStart + prev.extLen)
      (min len (maxBlocksPerExtent - prev.extLen)) 0 file.space
    refine Ends.bind (fun n mid => mid.eiBlock = file.eiBlock ∧
      (n = 0 → mid.space.sShutdown = false → Withheld file.space [] mid.space) ∧
      (n ≠ 0 → n ≤ min len (maxBlocksPerExtent - prev.extLen) ∧
        Withheld file.space (List.range' (prev.eeStart + prev.extLen) n) mid.space)) ?_ ?_
    · rw [takeBehind]
      generalize growRun faults.grow (prev.eeStart + prev.extLen)
        (min len (maxBlocksPerExtent - prev.extLen)) 0 file.space = out at search found
      obtain ⟨n, space⟩ := out
      dsimp only at search found
      refine ⟨rfl, fun none_ up => ?_, fun some_ => ?_⟩
      · rcases search up with ⟨-, kept⟩ | ⟨positive, -⟩
        · exact kept
        · omega
      · rcases search (found some_) with ⟨none_, -⟩ | ⟨-, short, took⟩
        · exact absurd none_ some_
        · rw [List.append_nil] at took
          exact ⟨short, took⟩
    · rintro n mid ⟨root, quiet, grown⟩
      by_cases none_ : n = 0
      · rw [if_pos none_]
        exact fresh mid root (quiet none_)
      · rw [if_neg none_]
        obtain ⟨less, took⟩ := grown none_
        refine (growExtent_ends intact gap ends root took (Nat.pos_of_ne_zero none_) (by omega) (by omega)
          (fun e mem => by have := room e mem; omega) faults mode state).mono (fun m _ => ?_) fun _ _ => id
        rintro ⟨new, state, some_, equal, free, extended⟩
        exact ⟨new, state, some_, weaken m (by omega), free, extended⟩

end

/-! ## The extent -/

theorem Mapping.inside_spec {iblock : Nat} {extents l r : List Extent} (sound : Sound extents)
    (at_ : At iblock extents l e r) : 0 < (Mapping.inside iblock e).blocks ∧
    ∀ k < (Mapping.inside iblock e).blocks, mapOf extents (iblock + k) =
      some ((Mapping.inside iblock e).bno + k, (Mapping.inside iblock e).unwritten) := by
  have fit : e.Fit := sound.fit e (by rw [at_.split]; simp)
  have physical := fit.physical
  have low := at_.low
  have high := at_.high
  constructor
  · show 0 < e.extLen - (iblock - e.eeBlock)
    omega
  · intro k less
    have less : k < e.extLen - (iblock - e.eeBlock) := less
    have here : At (iblock + k) extents l e r := ⟨at_.split, by omega, by omega⟩
    rw [here.mapOf sound, Mapping.inside, Nat.mod_eq_of_lt (by omega)]
    dsimp only
    congr 2
    omega

/-- The file after a report of a block in an extent: some blocks of the extent may be written now. -/
structure Used (buf : Buffer) (mode : GetMode) (iblock : Nat) (e : Extent) (m : Mapping) (file' : File)
    (buf' : Buffer) : Prop where
  intact : Intact file' buf'
  old : m.isNew = false
  some_ : 0 < m.blocks
  mapped : ∀ k < m.blocks, mapOf buf'.extents (iblock + k) = some (m.bno + k, m.unwritten)
  states : (∀ x, mapOf buf'.extents x = mapOf buf.extents x) ∨
    (mode.create = true ∧ mode.convertUnwritten = true ∧ e.unwritten = true ∧
      ∃ stop ≤ e.eeBlock + e.extLen, ∀ x, mapOf buf'.extents x =
        (mapOf buf.extents x).map fun v => (v.1, if iblock ≤ x ∧ x < stop then false else v.2))

section

variable {file : File} {buf : Buffer} (intact : Intact file buf)

include intact

theorem sync_restated (loose : Loose new) {w : Bool} {lo hi : Nat}
    (cells : cellsOf new = (cellsOf buf.extents).map (restate w lo hi)) (faults : SyncFaults) :
    Ends (fun buf' file' => Intact file' buf' ∧ ∀ x, mapOf buf'.extents x =
        (mapOf buf.extents x).map fun v => (v.1, if lo ≤ x ∧ x < hi then w else v.2))
      (fun _ file' => faults.Mild → Unchanged file file') (sync faults { buf with extents := new } file) := by
  have data : (dataBlocks new).Perm ([] ++ dataBlocks buf.extents) := by
    rw [dataBlocks, cells, targets, List.map_map]
    exact List.Perm.refl _
  have owned := intact.toOwned.add (Withheld.refl file.space) rfl data
  refine (owned.sync_ends loose faults).mono (fun buf' mid written => ⟨written.intact, fun x => ?_⟩)
    fun _ _ unwritten mild => (unwritten.mild mild).1
  rw [written.extents]
  exact (loose.mapOf_normalize x).trans (mapOf_restate intact.sound.disjoint cells x)

theorem useExtent_ends {iblock maxblocks : Nat} {l r : List Extent}
    (at_ : At iblock buf.extents l e r) (faults : GetFaults) (mode : GetMode) :
    Ends (fun m file' => (∃ buf', Used buf mode iblock e m file' buf') ∧
        (mode.create = false → file' = file))
      (fun _ file' => faults.sync.Mild → Unchanged file file') (useExtent faults mode buf iblock maxblocks l.length e file) := by
  rw [useExtent]
  by_cases convert : (mode.create && mode.convertUnwritten && e.unwritten) = true
  · rw [if_pos convert]
    rw [Bool.and_eq_true, Bool.and_eq_true] at convert
    obtain ⟨⟨create, converts⟩, unwritten⟩ := convert
    obtain ⟨loose, cells, -⟩ := @restate_spec buf.extents l r e iblock (maxblocks % wordSize) intact.sound at_
      false
    have stop : restateEnd iblock (maxblocks % wordSize) e ≤ e.eeBlock + e.extLen := by
      have := at_.high
      rw [restateEnd]
      omega
    rw [cutAt_eq at_]
    refine Ends.bind (fun extents file' =>
      l ++ (convertPieces iblock (maxblocks % wordSize) e ++ r) = extents ∧ file = file') ?_ ?_
    · refine Ends.lift (fun extents ok => ?_) fun _ _ _ => .refl file
      split at ok
      · cases ok
      · cases ok
        exact ⟨rfl, rfl⟩
    rintro _ _ ⟨rfl, rfl⟩
    refine Ends.bind _ (sync_restated intact loose cells faults.sync) ?_
    rintro buf' mid ⟨intact', maps⟩
    rcases findExtent_cases intact'.sound iblock with ⟨l', e', r', at', found⟩ | ⟨l', r', gap, -⟩
    · rw [found]
      dsimp only
      rw [if_pos rfl, at'.getElem?]
      obtain ⟨some_, mapped⟩ := Mapping.inside_spec intact'.sound at'
      refine ⟨⟨buf', intact', rfl, some_, mapped, .inr ⟨create, converts, unwritten, _, stop, maps⟩⟩, ?_⟩
      intro never
      rw [create] at never
      cases never
    · have here := maps iblock
      rw [gap.mapOf intact'.sound, at_.mapOf intact.sound] at here
      cases here
  · rw [if_neg convert]
    obtain ⟨some_, mapped⟩ := Mapping.inside_spec intact.sound at_
    exact ⟨⟨buf, intact, rfl, some_, mapped, .inl fun _ => rfl⟩, fun _ => rfl⟩

end

/-- What `simplefs_get_block` reports, and what it may change. -/
structure Reported (file : File) (buf : Buffer) (mode : GetMode) (iblock : Nat) (m : Mapping) (file' : File)
    (buf' : Buffer) : Prop where
  intact : Intact file' buf'
  mapped : ∀ k < m.blocks, mapOf buf'.extents (iblock + k) = some (m.bno + k, m.unwritten)
  kept : (∀ b v, mapOf buf.extents b = some v → mapOf buf'.extents b = some v) ∨
    (mode.create = true ∧ mode.convertUnwritten = true ∧ ∃ e ∈ buf.extents, e.unwritten = true ∧
      ∀ b p u, mapOf buf.extents b = some (p, u) → mapOf buf'.extents b = some (p, u) ∨
        (e.eeBlock ≤ b ∧ b < e.eeBlock + e.extLen ∧ mapOf buf'.extents b = some (p, false)))
  only : ∀ b, mapOf buf.extents b = none → mapOf buf'.extents b = none ∨
    (m.isNew = true ∧ iblock ≤ b ∧ b < iblock + m.blocks)
  fresh : m.isNew = true → ∀ k < m.blocks,
    mapOf buf.extents (iblock + k) = none ∧ file.space.bfreeBitmap (m.bno + k) = true
  lookup : mode.create = false → file' = file ∧ (m.blocks = 0 ↔ mapOf buf.extents iblock = none)

section

variable {file : File} {buf : Buffer} (intact : Intact file buf)

include intact

theorem Used.reported {iblock : Nat} {l r : List Extent} {mode : GetMode} {m : Mapping}
    {buf' : Buffer} (at_ : At iblock buf.extents l e r) (used : Used buf mode iblock e m file' buf')
    (lookup : mode.create = false → file' = file) :
    Reported file buf mode iblock m file' buf' where
  intact := used.intact
  mapped := used.mapped
  kept := by
    rcases used.states with same | ⟨create, converts, unwritten, stop, bound, maps⟩
    · exact .inl fun b v mapped => (same b).trans mapped
    · refine .inr ⟨create, converts, e, by rw [at_.split]; simp, unwritten, fun b p u mapped => ?_⟩
      have after := maps b
      rw [mapped, Option.map_some] at after
      dsimp only at after
      split at after
      · rename_i inside
        have := at_.low
        exact .inr ⟨by omega, by omega, after⟩
      · exact .inl after
  only b unmapped := by
    left
    rcases used.states with same | ⟨-, -, -, stop, -, maps⟩
    · exact (same b).trans unmapped
    · rw [maps b, unmapped]
      rfl
  fresh new := by
    rw [used.old] at new
    cases new
  lookup plain := by
    refine ⟨lookup plain, ?_⟩
    rw [at_.mapOf intact.sound]
    exact iff_of_false (Nat.pos_iff_ne_zero.mp used.some_) nofun

theorem Extended.reported {iblock : Nat} {l r : List Extent} (gap : Gap iblock buf.extents l r)
    {mode : GetMode} (create : mode.create = true) {m : Mapping} (new : m.isNew = true)
    (state : m.unwritten = mode.createUnwritten) (room : ∀ e ∈ r, iblock + m.blocks ≤ e.eeBlock)
    (free : ∀ k < m.blocks, file.space.bfreeBitmap (m.bno + k) = true)
    (extended : Extended buf iblock m.bno m.blocks mode.createUnwritten file') :
    ∃ buf', Reported file buf mode iblock m file' buf' := by
  obtain ⟨buf', intact', maps⟩ := extended
  refine ⟨buf', intact', fun k less => ?_, .inl fun b v mapped => ?_, fun b unmapped => ?_,
    fun _ k less => ⟨?_, free k less⟩, fun plain => ?_⟩
  · rw [maps, if_pos ⟨by omega, by omega⟩, Nat.add_sub_cancel_left, state]
  · rw [maps, if_neg, mapped]
    rintro ⟨low, high⟩
    rw [gap.unmapped intact.sound room low high] at mapped
    cases mapped
  · rw [maps]
    by_cases inside : iblock ≤ b ∧ b < iblock + m.blocks
    · exact .inr ⟨new, inside⟩
    · rw [if_neg inside]
      exact .inl unmapped
  · exact gap.unmapped intact.sound room (Nat.le_add_right _ _) (by omega)
  · rw [create] at plain
    cases plain

/-- `simplefs_get_block` maps what it reports and leaves all other blocks where they were. -/
theorem getBlock_reports {faults : GetFaults} {mode : GetMode} {iblock maxblocks : Nat} {m : Mapping}
    {file' : File} (ran : getBlock faults mode iblock maxblocks file = (.ok m, file')) :
    ∃ buf', Reported file buf mode iblock m file' buf' := by
  have ends : Ends (fun m file' => ∃ buf', Reported file buf mode iblock m file' buf')
      (fun _ _ => True) (getBlock faults mode iblock maxblocks file) := by
    rw [getBlock]
    refine Ends.bind (fun _ file' => file = file' ∧ iblock < maxFileBlocks) ?_ ?_
    · exact Ends.refuse (fun limit => ⟨rfl, by simpa using limit⟩) fun _ => trivial
    rintro _ _ ⟨rfl, limit⟩
    refine Ends.bind (fun buf' file' => buf = buf' ∧ file = file') ?_ ?_
    · exact (load_eq intact faults.load).mono (fun _ _ => id) fun _ _ _ => trivial
    rintro _ _ ⟨rfl, rfl⟩
    rcases findExtent_cases intact.sound iblock with ⟨l, e, r, at_, found⟩ | ⟨l, r, gap, missing⟩
    · rw [found]
      dsimp only
      rw [if_pos rfl, at_.getElem?]
      refine (useExtent_ends intact at_ faults mode).mono (fun m file' => ?_) fun _ _ _ => trivial
      rintro ⟨⟨buf', used⟩, lookup⟩
      exact ⟨buf', used.reported intact at_ lookup⟩
    · rw [missing]
      dsimp only
      rw [if_neg Bool.false_ne_true]
      cases create : mode.create with
      | true =>
        rw [if_pos rfl]
        refine (fillHole_ends intact gap limit faults mode).mono (fun m file' => ?_) fun _ _ => id
        rintro ⟨new, state, -, room, free, extended⟩
        exact extended.reported intact gap create new state room free
      | false =>
        rw [if_neg Bool.false_ne_true]
        refine ⟨buf, intact, nofun, .inl fun _ _ => id, fun _ => .inl, nofun, fun _ => ⟨rfl, ?_⟩⟩
        exact iff_of_true rfl (gap.mapOf intact.sound)
  rw [ran] at ends
  exact ends

end

theorem oneBlock_intact : Intact (small 4096 [.init 0 1 10 false]) ⟨[.init 0 1 10 false], []⟩ :=
  small_intact 4096 (by decide) (by decide) (by decide) (by decide)

/-- Four blocks are mapped behind the only one of a file. -/
theorem getBlock_reports_fourBlocks :
    (getBlock {} {} 1 4 (small 4096 [.init 0 1 10 false])).1 = .ok ⟨4, 11, true, false⟩ ∧
      ∃ buf', Reported (small 4096 [.init 0 1 10 false]) ⟨[.init 0 1 10 false], []⟩ {} 1 ⟨4, 11, true, false⟩
        (getBlock {} {} 1 4 (small 4096 [.init 0 1 10 false])).2 buf' := by
  have ran : (getBlock {} {} 1 4 (small 4096 [.init 0 1 10 false])).1 = .ok ⟨4, 11, true, false⟩ := by
    decide +kernel
  exact ⟨ran, getBlock_reports oneBlock_intact (eq_of_ok ran)⟩

end File

end SimpleFs

import KernelNotes.SimpleFs.FileCut

/-!
# Looking a block up, and changing the list in one place

`simplefs_file_find_extent` splits a sound list: at the extent that holds the block, or at the gap
the block lies in. The functions that map blocks or change their state then replace the one extent
by pieces, make it longer, or put a new one into the gap.
-/

namespace SimpleFs

open Cells

/-- The block lies in the extent between the two parts of the list. -/
structure At (b : Nat) (extents l : List Extent) (e : Extent) (r : List Extent) : Prop where
  split : extents = l ++ e :: r
  low : e.eeBlock ≤ b
  high : b < e.eeBlock + e.extLen

/-- The block lies between the two parts of the list. -/
structure Gap (b : Nat) (extents l r : List Extent) : Prop where
  split : extents = l ++ r
  before : ∀ e ∈ l, e.eeBlock + e.extLen ≤ b
  behind : ∀ e ∈ r, b < e.eeBlock

theorem Sound.tail {e : Extent} {extents : List Extent} (sound : Sound (e :: extents)) : Sound extents :=
  ⟨(List.forall_mem_cons.mp sound.fit).2, (List.pairwise_cons.mp sound.ordered).2⟩

theorem Sound.first_le {e : Extent} {extents : List Extent} (sound : Sound (e :: extents)) :
    ∀ f ∈ e :: extents, e.eeBlock ≤ f.eeBlock := by
  intro f mem
  rcases List.mem_cons.mp mem with rfl | mem
  · exact Nat.le_refl _
  · have before := (List.pairwise_cons.mp sound.ordered).1 f mem
    rw [Extent.Before] at before
    omega

theorem Sound.unique {extents : List Extent} (sound : Sound extents) {e f : Extent} (mem : e ∈ extents)
    (mem' : f ∈ extents) {b : Nat} (low : e.eeBlock ≤ b) (high : b < e.eeBlock + e.extLen)
    (low' : f.eeBlock ≤ b) (high' : b < f.eeBlock + f.extLen) : e = f := by
  induction extents with
  | nil => cases mem
  | cons first rest ih =>
    have before := (List.pairwise_cons.mp sound.ordered).1
    rcases List.mem_cons.mp mem with rfl | late
    · rcases List.mem_cons.mp mem' with rfl | late'
      · rfl
      · have := before f late'
        rw [Extent.Before] at this
        omega
    · rcases List.mem_cons.mp mem' with rfl | late'
      · have := before e late
        rw [Extent.Before] at this
        omega
      · exact ih sound.tail late late'

theorem findExtent_cases {extents : List Extent} (sound : Sound extents) (b : Nat) :
    (∃ l e r, At b extents l e r ∧ findExtent b extents = (true, l.length)) ∨
      ∃ l r, Gap b extents l r ∧ findExtent b extents = (false, l.length) := by
  induction extents with
  | nil => exact .inr ⟨[], [], ⟨rfl, nofun, nofun⟩, rfl⟩
  | cons e rest ih =>
    have fit := sound.fit e List.mem_cons_self
    rw [findExtent, fit.extEnd]
    by_cases low : b < e.eeBlock
    · rw [if_pos low]
      refine .inr ⟨[], e :: rest, ⟨rfl, nofun, fun f mem => ?_⟩, rfl⟩
      exact Nat.lt_of_lt_of_le low (sound.first_le f mem)
    rw [if_neg low]
    by_cases high : b < e.eeBlock + e.extLen
    · rw [if_pos high]
      exact .inl ⟨[], e, rest, ⟨rfl, Nat.not_lt.mp low, high⟩, rfl⟩
    rw [if_neg high]
    rcases ih sound.tail with ⟨l, f, r, at_, found⟩ | ⟨l, r, gap, missing⟩
    · refine .inl ⟨e :: l, f, r, ⟨?_, at_.low, at_.high⟩, ?_⟩
      · rw [at_.split]
        rfl
      · rw [found]
        rfl
    · refine .inr ⟨e :: l, r, ⟨?_, ?_, gap.behind⟩, ?_⟩
      · rw [gap.split]
        rfl
      · exact List.forall_mem_cons.mpr ⟨Nat.not_lt.mp high, gap.before⟩
      · rw [missing]
        rfl

section

variable {b : Nat} {extents l r : List Extent} {e : Extent}

theorem At.mapOf (sound : Sound extents) (at_ : At b extents l e r) :
    mapOf extents b = some (e.eeStart + (b - e.eeBlock), e.unwritten) := by
  have fit : e.Fit := sound.fit e (by rw [at_.split]; simp)
  rw [mapOf_eq_some_iff sound.disjoint, at_.split, cellsOf_append, cellsOf_cons, fit.cells]
  refine List.mem_append_right _ (List.mem_append_left _ (mem_run.mpr ⟨at_.low, at_.high, rfl⟩))

theorem At.mem (at_ : At b extents l e r) : e ∈ extents := by
  rw [at_.split]
  exact List.mem_append_right _ List.mem_cons_self

theorem At.getElem? (at_ : At b extents l e r) : extents[l.length]? = some e := by
  rw [at_.split, List.getElem?_append_right (Nat.le_refl _), Nat.sub_self]
  rfl

theorem Gap.getElem? (gap : Gap b extents l r) : extents[l.length]? = r.head? := by
  rw [gap.split, List.getElem?_append_right (Nat.le_refl _), Nat.sub_self, List.head?_eq_getElem?]

theorem Gap.insertIdx (gap : Gap b extents l r) (p : Extent) :
    extents.insertIdx l.length p = l ++ p :: r := by
  rw [gap.split]
  clear gap
  induction l with
  | nil => rfl
  | cons e rest ih => exact congrArg (e :: ·) ih

theorem Gap.unmapped (sound : Sound extents) (gap : Gap b extents l r) {n : Nat}
    (room : ∀ e ∈ r, b + n ≤ e.eeBlock) {x : Nat} (low : b ≤ x) (high : x < b + n) :
    SimpleFs.mapOf extents x = none := by
  rw [mapOf_eq_none_iff sound.disjoint]
  intro v mem
  obtain ⟨e, listed, cell⟩ := List.mem_flatMap.mp mem
  rw [(sound.fit e listed).cells, mem_run] at cell
  rw [gap.split] at listed
  rcases List.mem_append.mp listed with early | late
  · have := gap.before e early
    dsimp only at cell
    omega
  · have := room e late
    dsimp only at cell
    omega

theorem Gap.mapOf (sound : Sound extents) (gap : Gap b extents l r) : SimpleFs.mapOf extents b = none :=
  gap.unmapped sound (n := 1) (fun e mem => gap.behind e mem) (Nat.le_refl b) (Nat.lt_succ_self b)

end

/-! ## Putting sound lists together -/

theorem Sound.append {l r : List Extent} (left : Sound l) (right : Sound r)
    (apart : ∀ e ∈ l, ∀ f ∈ r, e.Before f) : Sound (l ++ r) :=
  ⟨fun e mem => (List.mem_append.mp mem).elim (left.fit e) (right.fit e),
    List.pairwise_append.mpr ⟨left.ordered, right.ordered, apart⟩⟩

theorem Sound.singleton {e : Extent} (fit : e.Fit) : Sound [e] :=
  ⟨List.forall_mem_singleton.mpr fit, List.pairwise_singleton _ _⟩

theorem Sound.of_append {l r : List Extent} (sound : Sound (l ++ r)) :
    Sound l ∧ Sound r ∧ ∀ e ∈ l, ∀ f ∈ r, e.Before f := by
  obtain ⟨left, right, apart⟩ := List.pairwise_append.mp sound.ordered
  exact ⟨⟨fun e mem => sound.fit e (List.mem_append_left _ mem), left⟩,
    ⟨fun e mem => sound.fit e (List.mem_append_right _ mem), right⟩, apart⟩

theorem Sound.replace {l r pieces : List Extent} {e : Extent} (sound : Sound (l ++ e :: r))
    (inner : Sound pieces) (low : ∀ p ∈ pieces, e.eeBlock ≤ p.eeBlock)
    (high : ∀ p ∈ pieces, ∀ f ∈ r, p.Before f) : Sound (l ++ (pieces ++ r)) := by
  obtain ⟨left, right, apart⟩ := sound.of_append
  refine left.append (inner.append right.tail high) fun f early g mem => ?_
  rcases List.mem_append.mp mem with piece | late
  · have before := apart f early e List.mem_cons_self
    have := low g piece
    rw [Extent.Before] at before ⊢
    omega
  · exact apart f early g (List.mem_cons_of_mem _ late)

theorem Sound.insert {b : Nat} {extents l r : List Extent} {p : Extent} (sound : Sound extents)
    (gap : Gap b extents l r) (fit : p.Fit) (block : p.eeBlock = b)
    (room : ∀ e ∈ r, b + p.extLen ≤ e.eeBlock) : Sound (l ++ p :: r) := by
  rw [gap.split] at sound
  obtain ⟨left, right, apart⟩ := sound.of_append
  refine left.append ((Sound.singleton fit).append right fun e mem f late => ?_) fun e early f mem => ?_
  · rw [List.mem_singleton.mp mem, Extent.Before, block]
    exact room f late
  · rcases List.mem_cons.mp mem with rfl | late
    · rw [Extent.Before, block]
      exact gap.before e early
    · exact apart e early f late

theorem Gap.added {b p n : Nat} {extents l r : List Extent} (sound : Sound extents)
    (gap : Gap b extents l r) (some_ : 0 < n) (small : n ≤ maxBlocksPerExtent) (placed : 0 < p)
    (below : b + n < wordSize) (physical : p + n < wordSize) (room : ∀ e ∈ r, b + n ≤ e.eeBlock) (u : Bool) :
    Sound (extents.insertIdx l.length (.init b n p u)) ∧
      (cellsOf (extents.insertIdx l.length (.init b n p u))).Perm (run b p u n ++ cellsOf extents) := by
  have length : (Extent.init b n p u).extLen = n := Extent.extLen_init small
  have fit : (Extent.init b n p u).Fit := by
    refine ⟨⟨by omega, placed, ?_⟩, ?_⟩
    · rw [length]
      exact below
    · rw [length]
      exact physical
  have cells : (Extent.init b n p u).cells = run b p u n := by
    rw [fit.cells, length]
    rfl
  rw [gap.insertIdx]
  constructor
  · refine sound.insert gap fit rfl ?_
    rw [length]
    exact room
  · rw [gap.split, cellsOf_append, cellsOf_append, cellsOf_cons, cells, ← List.append_assoc,
      ← List.append_assoc]
    exact List.perm_append_comm.append_right _

theorem mapOf_add {extents new : List Extent} (sound : Sound extents) (sound' : Sound new)
    {b p n : Nat} {u : Bool} (cells : (cellsOf new).Perm (run b p u n ++ cellsOf extents)) (x : Nat) :
    mapOf new x = if b ≤ x ∧ x < b + n then some (p + (x - b), u) else mapOf extents x := by
  apply Option.ext
  intro v
  have unique : b ≤ x ∧ x < b + n → mapOf extents x = none := by
    intro inside
    rw [mapOf_eq_none_iff sound.disjoint]
    intro w old
    have once : ((run b p u n ++ cellsOf extents).map Prod.fst).Nodup :=
      (cells.map Prod.fst).nodup_iff.mp sound'.disjoint
    rw [List.map_append] at once
    have new : (x, p + (x - b), u) ∈ run b p u n := mem_run.mpr ⟨inside.1, inside.2, rfl⟩
    exact (List.nodup_append.mp once).2.2 x (List.mem_map_of_mem new) x (List.mem_map_of_mem old) rfl
  rw [mapOf_eq_some_iff sound'.disjoint, cells.mem_iff, List.mem_append, mem_run,
    ← mapOf_eq_some_iff sound.disjoint]
  dsimp only
  by_cases inside : b ≤ x ∧ x < b + n
  · rw [if_pos inside, unique inside]
    constructor
    · rintro (⟨-, -, rfl⟩ | never)
      · rfl
      · cases never
    · intro same
      cases same
      exact .inl ⟨inside.1, inside.2, rfl⟩
  · rw [if_neg inside]
    exact or_iff_right fun new => inside ⟨new.1, new.2.1⟩

/-! ## Changing the state of blocks -/

/-- The blocks from `lo` on and before `hi` get the state `w`. -/
def restate (w : Bool) (lo hi : Nat) (c : Nat × Nat × Bool) : Nat × Nat × Bool :=
  (c.1, c.2.1, if lo ≤ c.1 ∧ c.1 < hi then w else c.2.2)

theorem map_restate_run_of_in {w u : Bool} {lo hi b p n : Nat} (low : lo ≤ b) (high : b + n ≤ hi) :
    (run b p u n).map (restate w lo hi) = run b p w n := by
  rw [run, run, List.map_map]
  apply List.map_congr_left
  intro k mem
  have small := List.mem_range.mp mem
  simp only [Function.comp_apply, restate]
  rw [if_pos (by omega)]

theorem map_restate_eq_self {w : Bool} {lo hi : Nat} {cells : List (Nat × Nat × Bool)}
    (outside : ∀ c ∈ cells, lo ≤ c.1 → c.1 < hi → c.2.2 = w) : cells.map (restate w lo hi) = cells := by
  rw [List.map_congr_left, List.map_id]
  intro c mem
  rw [restate, id]
  split
  · rename_i inside
    rw [← outside c mem inside.1 inside.2]
  · rfl

theorem mapOf_restate {extents new : List Extent} (disjoint : LogicallyDisjoint extents) {w : Bool}
    {lo hi : Nat} (cells : cellsOf new = (cellsOf extents).map (restate w lo hi)) (x : Nat) :
    mapOf new x = (mapOf extents x).map fun v => (v.1, if lo ≤ x ∧ x < hi then w else v.2) := by
  have edited : cellsOf new = (cellsOf extents).filterMap fun c => some (restate w lo hi c) := by
    rw [cells, List.filterMap_eq_map']
  have source : ∀ c d : Nat × Nat × Bool, some (restate w lo hi c) = some d → c.1 = id d.1 := by
    intro c d same
    cases same
    rfl
  rw [mapOf_edit disjoint source edited, id]
  cases mapOf extents x with
  | none => rfl
  | some v =>
    rw [Option.bind_some, Option.bind_some, Option.map_some]
    exact if_pos rfl

namespace File

theorem slice_sound {e : Extent} (fit : e.Fit) {k len d : Nat} (inside : k + len ≤ e.extLen)
    (logical : d + len < wordSize) :
    Sound (slice e d len ((e.eeStart + k) % wordSize)) ∧
      ∀ p ∈ slice e d len ((e.eeStart + k) % wordSize), p.eeBlock = d ∧ p.extLen = len := by
  have small := Extent.extLen_le e
  obtain ⟨each, -⟩ := slice_spec fit inside logical
  rw [slice] at each ⊢
  by_cases empty : len = 0
  · rw [if_pos empty]
    exact ⟨Sound.nil, by simp⟩
  · rw [if_neg empty] at each ⊢
    have length : (Extent.init d len ((e.eeStart + k) % wordSize) e.unwritten).extLen = len :=
      Extent.extLen_init (by omega)
    have fits := (List.forall_mem_singleton.mp each).resolve_left (by omega)
    exact ⟨Sound.singleton fits, List.forall_mem_singleton.mpr ⟨rfl, length⟩⟩

section

variable {w : Bool} {lo mapLen : Nat} {e : Extent} (fit : e.Fit) (low : e.eeBlock ≤ lo)
  (high : lo < e.eeBlock + e.extLen)

/-- The end of the blocks whose state is changed. -/
def restateEnd (lo mapLen : Nat) (e : Extent) : Nat := lo + min mapLen (e.eeBlock + e.extLen - lo)

/-- The part between head and tail, which can be empty. -/
def restateMid (w : Bool) (lo mapLen : Nat) (e : Extent) : Extent :=
  ⟨lo, restateEnd lo mapLen e - lo, (e.eeStart + (lo - e.eeBlock)) % wordSize, w⟩

include fit low high

theorem restateMid_spec : (restateMid w lo mapLen e).extLen = restateEnd lo mapLen e - lo ∧
    ((restateMid w lo mapLen e).extLen = 0 ∨ (restateMid w lo mapLen e).Fit) ∧
    (restateMid w lo mapLen e).cells =
      run lo (e.eeStart + (lo - e.eeBlock)) w (restateEnd lo mapLen e - lo) := by
  have small := Extent.extLen_le e
  have logical := fit.logical
  have short : restateEnd lo mapLen e - lo ≤ e.eeBlock + e.extLen - lo := by
    rw [restateEnd]
    omega
  have length : (restateMid w lo mapLen e).extLen = restateEnd lo mapLen e - lo :=
    Nat.min_eq_left (show restateEnd lo mapLen e - lo ≤ maxBlocksPerExtent by omega)
  refine ⟨length, ?_⟩
  by_cases empty : restateEnd lo mapLen e - lo = 0
  · rw [Extent.cells_eq_nil (length.trans empty), empty]
    exact ⟨.inl (length.trans empty), rfl⟩
  · obtain ⟨fits, cells⟩ := @Extent.Fit.moved e (restateMid w lo mapLen e) fit (lo - e.eeBlock) _
      (by omega) (Nat.pos_of_ne_zero empty) length rfl (by show lo + _ < _; omega)
    exact ⟨.inr fits, cells⟩

theorem restatePieces_eq (other : e.unwritten = !w) :
    restatePieces w lo mapLen e = slice e e.eeBlock (lo - e.eeBlock) e.eeStart ++
      (restateMid w lo mapLen e :: slice e (restateEnd lo mapLen e)
        (e.eeBlock + e.extLen - restateEnd lo mapLen e)
        ((e.eeStart + (restateEnd lo mapLen e - e.eeBlock)) % wordSize)) := by
  have differs : e.unwritten ≠ w := by
    rw [other]
    exact Bool.not_ne_self w
  have mid : min mapLen (e.extLen - (lo - e.eeBlock)) = restateEnd lo mapLen e - lo := by
    rw [restateEnd]
    omega
  have stop : lo ≤ restateEnd lo mapLen e ∧ restateEnd lo mapLen e ≤ e.eeBlock + e.extLen := by
    rw [restateEnd]
    omega
  have tail : e.extLen - (lo - e.eeBlock) - (restateEnd lo mapLen e - lo) =
      e.eeBlock + e.extLen - restateEnd lo mapLen e := by omega
  have place : lo + (restateEnd lo mapLen e - lo) = restateEnd lo mapLen e := by omega
  have start : e.eeStart + (lo - e.eeBlock) + (restateEnd lo mapLen e - lo) =
      e.eeStart + (restateEnd lo mapLen e - e.eeBlock) := by omega
  rw [restatePieces, if_neg differs]
  dsimp only
  rw [mid, tail, place, start, ← other, slice, slice, List.append_assoc]
  rfl

theorem restatePieces_cells :
    (∀ p ∈ restatePieces w lo mapLen e, p.extLen = 0 ∨ p.Fit) ∧
      cellsOf (restatePieces w lo mapLen e) = e.cells.map (restate w lo (restateEnd lo mapLen e)) := by
  have logical := fit.logical
  by_cases done : e.unwritten = w
  · rw [restatePieces, if_pos done, cellsOf_singleton, map_restate_eq_self]
    · exact ⟨List.forall_mem_singleton.mpr (.inr fit), rfl⟩
    · intro c mem _ _
      rw [fit.cells, mem_run] at mem
      rw [mem.2.2, done]
  have other : e.unwritten = !w := Bool.eq_not_of_ne done
  have stop : lo ≤ restateEnd lo mapLen e ∧ restateEnd lo mapLen e ≤ e.eeBlock + e.extLen := by
    rw [restateEnd]
    omega
  obtain ⟨-, mid, midCells⟩ := @restateMid_spec w lo mapLen e fit low high
  obtain ⟨head, headCells⟩ := @slice_whole_spec e fit (lo - e.eeBlock) e.eeBlock (by omega) (by omega)
  obtain ⟨tail, tailCells⟩ := @slice_spec e fit (restateEnd lo mapLen e - e.eeBlock)
    (e.eeBlock + e.extLen - restateEnd lo mapLen e) (restateEnd lo mapLen e) (by omega) (by omega)
  rw [restatePieces_eq fit low high other]
  constructor
  · intro p mem
    rcases List.mem_append.mp mem with mem | mem
    · exact head p mem
    rcases List.mem_cons.mp mem with rfl | mem
    · exact mid
    · exact tail p mem
  · have cells : e.cells = run e.eeBlock e.eeStart e.unwritten (lo - e.eeBlock) ++
        (run lo (e.eeStart + (lo - e.eeBlock)) e.unwritten (restateEnd lo mapLen e - lo) ++
        run (restateEnd lo mapLen e) (e.eeStart + (restateEnd lo mapLen e - e.eeBlock)) e.unwritten
          (e.eeBlock + e.extLen - restateEnd lo mapLen e)) := by
      have sum : e.extLen = lo - e.eeBlock + (restateEnd lo mapLen e - lo +
          (e.eeBlock + e.extLen - restateEnd lo mapLen e)) := by omega
      rw [fit.cells]
      nth_rewrite 1 [sum]
      rw [run_add, run_add]
      have first : e.eeBlock + (lo - e.eeBlock) = lo := by omega
      have second : lo + (restateEnd lo mapLen e - lo) = restateEnd lo mapLen e := by omega
      have third : e.eeStart + (lo - e.eeBlock) + (restateEnd lo mapLen e - lo) =
          e.eeStart + (restateEnd lo mapLen e - e.eeBlock) := by omega
      rw [first, second, third]
    rw [cells, List.map_append, List.map_append, map_restate_run_of_in (Nat.le_refl lo) (by omega),
      map_restate_eq_self, map_restate_eq_self, cellsOf_append, cellsOf_cons, headCells, midCells,
      tailCells]
    · intro c mem past
      rw [mem_run] at mem
      omega
    · intro c mem past
      rw [mem_run] at mem
      omega

theorem restatePieces_sound (some_ : 0 < mapLen) : Sound (restatePieces w lo mapLen e) ∧
    ∀ p ∈ restatePieces w lo mapLen e,
      e.eeBlock ≤ p.eeBlock ∧ p.eeBlock + p.extLen ≤ e.eeBlock + e.extLen := by
  have logical := fit.logical
  by_cases done : e.unwritten = w
  · rw [restatePieces, if_pos done]
    exact ⟨Sound.singleton fit, List.forall_mem_singleton.mpr ⟨Nat.le_refl _, Nat.le_refl _⟩⟩
  have other : e.unwritten = !w := Bool.eq_not_of_ne done
  have physical := fit.physical
  have stop : lo < restateEnd lo mapLen e ∧ restateEnd lo mapLen e ≤ e.eeBlock + e.extLen := by
    rw [restateEnd]
    omega
  obtain ⟨length, mid, -⟩ := @restateMid_spec w lo mapLen e fit low high
  have midFit := mid.resolve_left (by omega)
  have block : (restateMid w lo mapLen e).eeBlock = lo := rfl
  obtain ⟨head, headAt⟩ := @slice_sound e fit 0 (lo - e.eeBlock) e.eeBlock (by omega) (by omega)
  rw [Nat.add_zero, Nat.mod_eq_of_lt (by omega)] at head headAt
  obtain ⟨tail, tailAt⟩ := @slice_sound e fit (restateEnd lo mapLen e - e.eeBlock)
    (e.eeBlock + e.extLen - restateEnd lo mapLen e) (restateEnd lo mapLen e) (by omega) (by omega)
  rw [restatePieces_eq fit low high other]
  constructor
  · refine head.append ((Sound.singleton midFit).append tail fun p mem q late => ?_) fun p early q mem => ?_
    · rw [List.mem_singleton.mp mem, Extent.Before, length, block, (tailAt q late).1]
      omega
    · obtain ⟨start, len⟩ := headAt p early
      rw [Extent.Before, start, len]
      rcases List.mem_cons.mp mem with rfl | late
      · rw [block]
        omega
      · rw [(tailAt q late).1]
        omega
  · intro p mem
    rcases List.mem_append.mp mem with mem | mem
    · obtain ⟨start, len⟩ := headAt p mem
      omega
    rcases List.mem_cons.mp mem with rfl | mem
    · omega
    · obtain ⟨start, len⟩ := tailAt p mem
      omega

end

section

variable {b : Nat} {extents l r : List Extent} {e : Extent}

theorem cutAt_eq (at_ : At b extents l e r) (nomem : Bool) (pieces : Extent → List Extent) :
    cutAt nomem pieces l.length extents =
      if nomem && decide (1 < (pieces e).length) then .error .enomem
      else .ok (l ++ (pieces e ++ r)) := by
  rw [cutAt, at_.getElem?, at_.split]
  dsimp only
  rw [List.take_left, List.drop_append, List.drop_eq_nil_of_le (Nat.le_succ _), List.nil_append,
    Nat.add_sub_cancel_left, List.append_assoc]
  rfl

theorem restate_spec {lo mapLen : Nat} (sound : Sound extents) (at_ : At lo extents l e r) (w : Bool) :
    Loose (l ++ (restatePieces w lo mapLen e ++ r)) ∧
      cellsOf (l ++ (restatePieces w lo mapLen e ++ r)) =
        (cellsOf extents).map (restate w lo (restateEnd lo mapLen e)) ∧
      (0 < mapLen → Sound (l ++ (restatePieces w lo mapLen e ++ r))) := by
  have whole := sound
  rw [at_.split] at whole
  obtain ⟨left, right, apart⟩ := whole.of_append
  have fit := right.fit e List.mem_cons_self
  have later := (List.pairwise_cons.mp right.ordered).1
  have stop : restateEnd lo mapLen e ≤ e.eeBlock + e.extLen := by
    have := at_.high
    rw [restateEnd]
    omega
  obtain ⟨each, cells⟩ := @restatePieces_cells w lo mapLen e fit at_.low at_.high
  have same : cellsOf (l ++ (restatePieces w lo mapLen e ++ r)) =
      (cellsOf extents).map (restate w lo (restateEnd lo mapLen e)) := by
    rw [at_.split, cellsOf_append, cellsOf_append, cellsOf_append, cellsOf_cons, cells, List.map_append,
      List.map_append]
    congr 1
    · refine (map_restate_eq_self fun c mem past => ?_).symm
      obtain ⟨f, listed, cell⟩ := List.mem_flatMap.mp mem
      have before := apart f listed e List.mem_cons_self
      rw [Extent.Before] at before
      rw [(left.fit f listed).cells, mem_run] at cell
      have := at_.low
      omega
    · congr 1
      refine (map_restate_eq_self fun c mem _ inside => ?_).symm
      obtain ⟨f, listed, cell⟩ := List.mem_flatMap.mp mem
      have behind := later f listed
      rw [Extent.Before] at behind
      rw [(right.tail.fit f listed).cells, mem_run] at cell
      omega
  refine ⟨⟨fun p mem => ?_, ?_⟩, same, fun some_ => ?_⟩
  · rcases List.mem_append.mp mem with mem | mem
    · exact .inr (left.fit p mem)
    rcases List.mem_append.mp mem with mem | mem
    · exact each p mem
    · exact .inr (right.tail.fit p mem)
  · have keys : (cellsOf (l ++ (restatePieces w lo mapLen e ++ r))).map Prod.fst =
        (cellsOf extents).map Prod.fst := by
      rw [same, List.map_map]
      rfl
    rw [LogicallyDisjoint, ← cellsOf, keys]
    exact sound.disjoint
  · obtain ⟨inner, within⟩ := restatePieces_sound fit at_.low at_.high some_
    refine whole.replace inner (fun p mem => (within p mem).1) fun p mem f listed => ?_
    have := (within p mem).2
    have behind := later f listed
    rw [Extent.Before] at behind ⊢
    omega

end

end File

end SimpleFs

import KernelNotes.SimpleFs.GetBlock

/-!
# Converting a range

`simplefs_convert_unwritten_range` scans the list for an unwritten extent that meets the range,
cuts it, and starts again. Every cut lowers the number of unwritten blocks in the range, so the scan
ends, and it ends with no such block left.
-/

namespace SimpleFs

open Outcome Bits Cells

namespace File

/-- The scan goes past this extent. -/
def Done (startBlock endBlock : Nat) (e : Extent) : Prop :=
  e.unwritten = false ∨ e.eeBlock + e.extLen ≤ startBlock ∨ endBlock ≤ e.eeBlock

theorem done_iff {startBlock endBlock : Nat} {e : Extent} (fit : e.Fit) :
    (!e.unwritten || decide (e.extEnd ≤ startBlock) || decide (endBlock ≤ e.eeBlock)) = true ↔
      Done startBlock endBlock e := by
  rw [fit.extEnd]
  simp only [Bool.or_eq_true, Bool.not_eq_true', decide_eq_true_eq, Done, or_assoc]

/-- The cells a conversion still has to change. -/
def pending (startBlock endBlock : Nat) (c : Nat × Nat × Bool) : Bool :=
  c.2.2 && decide (startBlock ≤ c.1) && decide (c.1 < endBlock)

section

variable {s t : Nat}

theorem restate_restate_of_le {w : Bool} {lo hi : Nat} (low : s ≤ lo) (high : hi ≤ t)
    (cells : List (Nat × Nat × Bool)) :
    (cells.map (restate w lo hi)).map (restate w s t) = cells.map (restate w s t) := by
  rw [List.map_map]
  apply List.map_congr_left
  rintro ⟨b, p, u⟩ _
  show (b, p, if s ≤ b ∧ b < t then w else if lo ≤ b ∧ b < hi then w else u) =
    (b, p, if s ≤ b ∧ b < t then w else u)
  by_cases inside : s ≤ b ∧ b < t
  · rw [if_pos inside, if_pos inside]
  · rw [if_neg inside, if_neg inside, if_neg (by omega)]

theorem map_restate_of_done {extents : List Extent} (sound : Sound extents)
    (done : ∀ e ∈ extents, Done s t e) : (cellsOf extents).map (restate false s t) = cellsOf extents := by
  refine map_restate_eq_self fun c mem low high => ?_
  obtain ⟨e, listed, cell⟩ := List.mem_flatMap.mp mem
  rw [(sound.fit e listed).cells, mem_run] at cell
  rcases done e listed with written | before | behind
  · rw [cell.2.2, written]
  · omega
  · omega

theorem countP_pending_lt {lo hi : Nat} {cells : List (Nat × Nat × Bool)} {c : Nat × Nat × Bool}
    (mem : c ∈ cells) (todo : pending s t c = true) (low : lo ≤ c.1) (high : c.1 < hi) :
    (cells.map (restate false lo hi)).countP (pending s t) < cells.countP (pending s t) := by
  have never : ∀ d, pending s t (restate false lo hi d) = true → pending s t d = true := by
    intro d
    simp only [pending, restate]
    split
    · simp
    · exact id
  have here : pending s t (restate false lo hi c) = false := by
    simp only [pending, restate]
    rw [if_pos ⟨low, high⟩]
    rfl
  obtain ⟨l, r, rfl⟩ := List.append_of_mem mem
  have left := List.countP_mono_left (l := l) fun d _ => never d
  have right := List.countP_mono_left (l := r) fun d _ => never d
  simp only [List.map_append, List.map_cons, List.countP_append, List.countP_cons, List.countP_map, here,
    todo, Bool.false_eq_true, if_false, if_true]
  simp only [Function.comp_def]
  omega

theorem convertPieces_head {e : Extent} (fit : e.Fit) (unwritten : e.unwritten = true)
    (before : s < e.eeBlock + e.extLen) {mapLen : Nat} :
    ∃ p rest, convertPieces (max e.eeBlock s) mapLen e = p :: rest ∧ Done s t p := by
  have low : e.eeBlock ≤ max e.eeBlock s := Nat.le_max_left _ _
  have full := fit.full
  have high : max e.eeBlock s < e.eeBlock + e.extLen := by omega
  have other : e.unwritten = !false := unwritten
  rw [convertPieces, restatePieces_eq fit low high other, slice]
  by_cases inside : e.eeBlock < s
  · rw [if_neg (by omega)]
    refine ⟨_, _, rfl, .inr (.inl ?_)⟩
    have small := Extent.extLen_le e
    rw [Extent.extLen_init (by omega)]
    show e.eeBlock + _ ≤ s
    omega
  · rw [if_pos (by omega)]
    exact ⟨_, _, rfl, .inl rfl⟩

section

variable {extents l r : List Extent} {e : Extent} (range : s < t) (sound : Sound extents)
  (split : extents = l ++ e :: r) (todo : ¬ Done s t e)

include range sound split todo

theorem at_of_not_done : At (max e.eeBlock s) extents l e r ∧
    0 < min e.extEnd t - max e.eeBlock s ∧
    restateEnd (max e.eeBlock s) (min e.extEnd t - max e.eeBlock s) e = min (e.eeBlock + e.extLen) t := by
  have fit : e.Fit := sound.fit e (by rw [split]; simp)
  have full := fit.full
  rw [Done, not_or, not_or] at todo
  obtain ⟨-, before, behind⟩ := todo
  rw [restateEnd, fit.extEnd]
  refine ⟨⟨split, Nat.le_max_left _ _, ?_⟩, ?_, ?_⟩ <;> omega

theorem convert_step (done : ∀ f ∈ l, Done s t f) :
    let new := l ++ (convertPieces (max e.eeBlock s) (min e.extEnd t - max e.eeBlock s) e ++ r)
    Sound new ∧ (cellsOf new).map (restate false s t) = (cellsOf extents).map (restate false s t) ∧
      (cellsOf new).countP (pending s t) < (cellsOf extents).countP (pending s t) ∧
      ∀ f ∈ new.take 1, Done s t f := by
  intro new
  obtain ⟨at_, some_, stop⟩ := at_of_not_done range sound split todo
  have fit : e.Fit := sound.fit e (by rw [split]; simp)
  rw [Done, not_or, not_or, Bool.not_eq_false] at todo
  obtain ⟨unwritten, before, behind⟩ := todo
  obtain ⟨-, cells, sound'⟩ := @restate_spec extents l r e _ (min e.extEnd t - max e.eeBlock s) sound at_ false
  rw [stop] at cells
  have cells : cellsOf new = _ := cells
  refine ⟨sound' some_, ?_, ?_, ?_⟩
  · rw [cells]
    exact restate_restate_of_le (Nat.le_max_right _ _) (Nat.min_le_right _ _) _
  · rw [cells]
    have cell : (max e.eeBlock s, e.eeStart + (max e.eeBlock s - e.eeBlock), e.unwritten) ∈ cellsOf extents := by
      rw [← mapOf_eq_some_iff sound.disjoint]
      exact at_.mapOf sound
    refine countP_pending_lt cell ?_ (Nat.le_refl _) ?_
    · simp only [pending, unwritten, Bool.true_and, Bool.and_eq_true, decide_eq_true_eq]
      omega
    · have full := fit.full
      dsimp only
      omega
  · obtain ⟨p, rest, pieces, first⟩ := @convertPieces_head s t e fit unwritten (Nat.not_le.mp before)
      (min e.extEnd t - max e.eeBlock s)
    cases l with
    | nil =>
      have new_ : new = p :: (rest ++ r) := by
        show [] ++ (_ ++ r) = _
        rw [pieces]
        rfl
      rw [new_]
      exact List.forall_mem_singleton.mpr first
    | cons f l =>
      exact List.forall_mem_singleton.mpr (done f List.mem_cons_self)

end

section

variable {nomem : Nat → Bool} {fuel i n : Nat} {extents : List Extent} {e : Extent}
  (here : extents[i]? = some e) (fit : e.Fit)

include here fit

theorem convertLoop_skip (skip : Done s t e) :
    convertLoop nomem s t (fuel + 1) i n extents = convertLoop nomem s t fuel (i + 1) n extents := by
  rw [convertLoop, here]
  exact if_pos ((done_iff fit).mpr skip)

theorem convertLoop_cut (todo : ¬ Done s t e) : convertLoop nomem s t (fuel + 1) i n extents =
    match cutAt (nomem n) (convertPieces (max e.eeBlock s) (min e.extEnd t - max e.eeBlock s)) i extents with
    | .error err => some (.error err)
    | .ok extents => convertLoop nomem s t fuel 1 (n + 1) extents := by
  rw [convertLoop, here]
  exact if_neg (mt (done_iff fit).mp todo)

end

/-- The scan ends. If no memory is refused, all blocks of the range are written then. -/
theorem convertLoop_ends (range : s < t) (nomem : Nat → Bool) (m : Nat) : ∀ extents, Sound extents →
    (cellsOf extents).countP (pending s t) = m → ∀ k i n, extents.length - i = k →
    (∀ e ∈ extents.take i, Done s t e) → ∃ enough out,
      (∀ fuel, enough ≤ fuel → convertLoop nomem s t fuel i n extents = some out) ∧
      ∀ new, out = .ok new → Sound new ∧ cellsOf new = (cellsOf extents).map (restate false s t) := by
  -- a cut lowers the number of pending blocks, and in between the index goes up
  induction m using Nat.strongRecOn with
  | ind m fewer =>
  intro extents sound count k
  induction k with
  | zero =>
    intro i n rest done
    have past : extents.length ≤ i := by omega
    rw [List.take_of_length_le past] at done
    refine ⟨1, .ok extents, fun fuel some_ => ?_, fun new same => ?_⟩
    · obtain ⟨fuel, rfl⟩ := Nat.exists_eq_add_of_le' some_
      rw [convertLoop, List.getElem?_eq_none past]
    · cases same
      exact ⟨sound, (map_restate_of_done sound done).symm⟩
  | succ k next =>
    intro i n rest done
    have inside : i < extents.length := by omega
    have here : extents[i]? = some extents[i] := List.getElem?_eq_getElem inside
    have split : extents = extents.take i ++ extents[i] :: extents.drop (i + 1) := by
      rw [List.cons_getElem_drop_succ, List.take_append_drop]
    have index : (extents.take i).length = i := by
      rw [List.length_take]
      omega
    have fit := sound.fit _ (List.getElem_mem inside)
    by_cases skip : Done s t extents[i]
    · have done' : ∀ e ∈ extents.take (i + 1), Done s t e := by
        rw [List.take_add_one, here]
        intro e mem
        rcases List.mem_append.mp mem with old | new
        · exact done e old
        · rw [List.mem_singleton.mp new]
          exact skip
      obtain ⟨enough, out, ends, result⟩ := next (i + 1) n (by omega) done'
      refine ⟨enough + 1, out, fun fuel some_ => ?_, result⟩
      obtain ⟨fuel, rfl⟩ := Nat.exists_eq_add_of_le' some_
      rw [← Nat.add_assoc, convertLoop_skip here fit skip]
      exact ends _ (Nat.le_add_left _ _)
    · obtain ⟨sound', cells, less, first⟩ := convert_step range sound split skip done
      obtain ⟨at_, -, -⟩ := at_of_not_done range sound split skip
      have cut := cutAt_eq at_ (nomem n)
        (convertPieces (max extents[i].eeBlock s) (min extents[i].extEnd t - max extents[i].eeBlock s))
      rw [index] at cut
      have one := fun fuel => @convertLoop_cut s t nomem fuel i n extents _ here fit skip
      split at cut
      · refine ⟨1, .error .enomem, fun fuel some_ => ?_, nofun⟩
        obtain ⟨fuel, rfl⟩ := Nat.exists_eq_add_of_le' some_
        rw [one, cut]
      · rw [count] at less
        obtain ⟨enough, out, ends, result⟩ := fewer _ less _ sound' rfl _ 1 (n + 1) rfl first
        refine ⟨enough + 1, out, fun fuel some_ => ?_, fun new same => ?_⟩
        · obtain ⟨fuel, rfl⟩ := Nat.exists_eq_add_of_le' some_
          rw [← Nat.add_assoc, one, cut]
          exact ends _ (Nat.le_add_left _ _)
        · rw [← cells]
          exact result new same

end

/-- A byte of the range lies in the block. -/
def Touched (offset len b : Nat) : Prop := ∃ x, offset ≤ x ∧ x < offset + len ∧ x / blockSize = b

variable {offset len : Nat}

theorem touched_iff (some_ : 0 < len) (b : Nat) :
    Touched offset len b ↔ offset / blockSize ≤ b ∧ b < blocksOf (offset + len) := by
  have size : blockSize = 4096 := rfl
  rw [Touched, blocksOf, size]
  constructor
  · rintro ⟨x, low, high, rfl⟩
    omega
  · rintro ⟨low, high⟩
    exact ⟨max offset (b * 4096), by omega, by omega, by omega⟩

/-- The second list maps the blocks of the first one; those the range touches are written, and the
others have their old state. -/
structure Converted (offset len : Nat) (extents new : List Extent) : Prop where
  places : ∀ b, (mapOf new b).map Prod.fst = (mapOf extents b).map Prod.fst
  written : ∀ b p u, mapOf new b = some (p, u) → Touched offset len b → u = false
  others : ∀ b, ¬ Touched offset len b → mapOf new b = mapOf extents b

theorem Converted.of_map {extents new : List Extent} (some_ : 0 < len)
    (maps : ∀ b, mapOf new b = (mapOf extents b).map fun v => (v.1, if offset / blockSize ≤ b ∧ b < blocksOf (offset + len) then false else v.2)) :
    Converted offset len extents new where
  places b := by
    rw [maps, Option.map_map]
    rfl
  written b p u mapped touched := by
    rw [maps] at mapped
    simp only [if_pos ((touched_iff some_ b).mp touched)] at mapped
    obtain ⟨v, -, same⟩ := Option.map_eq_some_iff.mp mapped
    cases same
    rfl
  others b outside := by
    rw [maps]
    simp only [if_neg (mt (touched_iff some_ b).mpr outside)]
    exact Option.map_id'

theorem Converted.refl (extents : List Extent) : Converted offset 0 extents extents where
  places _ := rfl
  written _ _ _ _ := by
    rintro ⟨x, low, high, -⟩
    omega
  others _ _ := rfl

/-- What `simplefs_convert_unwritten_range` does, for a range that ends within 32-bit block
numbers. -/
theorem convertUnwrittenRange_ends {file : File} {buf : Buffer} (intact : Intact file buf)
    (faults : ConvertFaults) (below : blocksOf (offset + len) < wordSize) :
    ∃ enough out, (∀ fuel, enough ≤ fuel → convertUnwrittenRange faults fuel offset len file = some out) ∧
      Ends (fun _ file' => ∃ buf', Intact file' buf' ∧ Converted offset len buf.extents buf'.extents)
        (fun _ _ => True) out := by
  have order : offset / blockSize ≤ blocksOf (offset + len) := by
    rw [blocksOf]
    exact Nat.div_le_div_right (by omega)
  simp only [convertUnwrittenRange]
  rw [Nat.mod_eq_of_lt below, Nat.mod_eq_of_lt (Nat.lt_of_le_of_lt order below)]
  by_cases empty : len = 0 ∨ blocksOf (offset + len) ≤ offset / blockSize
  · refine ⟨0, (.ok (), file), fun _ _ => if_pos empty, buf, intact, ?_⟩
    have none_ : len = 0 := by
      rcases empty with none_ | no
      · exact none_
      · have size : blockSize = 4096 := rfl
        rw [blocksOf, size] at no
        omega
    rw [none_]
    exact .refl _
  simp only [if_neg empty]
  rw [not_or] at empty
  have loaded := load_eq intact faults.load
  generalize load faults.load file = loading at loaded
  obtain ⟨result, file'⟩ := loading
  cases result with
  | error e => exact ⟨0, (.error e, file'), fun _ _ => rfl, trivial⟩
  | ok buf' =>
    obtain ⟨rfl, rfl⟩ := loaded
    obtain ⟨enough, scanned, ends, result⟩ := convertLoop_ends (Nat.not_le.mp empty.2) faults.nomem _
      buf.extents intact.sound rfl _ 0 0 rfl nofun
    refine ⟨enough, (do
        let extents ← Op.lift scanned
        let _ ← sync faults.sync { buf with extents }
        pure () : FileOp Unit) file, fun fuel some_ => ?_, ?_⟩
    · dsimp only
      rw [ends fuel some_]
      rfl
    · refine Ends.bind (fun extents file' => scanned = .ok extents ∧ file = file') ?_ ?_
      · exact Ends.lift (fun extents ok => ⟨ok, rfl⟩) fun _ _ => trivial
      rintro extents _ ⟨ok, rfl⟩
      obtain ⟨sound, cells⟩ := result extents ok
      refine Ends.bind _ ((sync_restated intact sound.loose cells faults.sync).mono (fun _ _ => id)
        fun _ _ _ => trivial) ?_
      rintro buf' file' ⟨intact', maps⟩
      exact ⟨buf', intact', .of_map (Nat.pos_of_ne_zero empty.1) maps⟩

end File

end SimpleFs

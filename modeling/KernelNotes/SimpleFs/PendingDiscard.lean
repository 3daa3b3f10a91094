import KernelNotes.SimpleFs.Discard

/-!
# What a pass of pending discards leaves behind

The scan of `simplefs_issue_pending_discards` finds the maximal runs of blocks that are free and
pending, rounds both ends inwards and discards what is left. `PendingWalk` lists the rounds of the
scan without fuel. The two roundings mask with `gran_blocks - 1`, which aligns to the granularity
only if that is a power of two.
-/

namespace SimpleFs.Space

open Bits

/-! ## Rounding -/

theorem or_two_pow_sub_one (x k : Nat) : x ||| (2 ^ k - 1) = 2 ^ k * (x / 2 ^ k) + (2 ^ k - 1) := by
  have mask : 2 ^ k - 1 < 2 ^ k := Nat.sub_lt (Nat.two_pow_pos k) Nat.one_pos
  refine Nat.eq_of_testBit_eq fun i => ?_
  rw [Nat.testBit_or, Nat.testBit_two_pow_sub_one, Nat.testBit_two_pow_mul_add _ mask]
  by_cases low : i < k
  · rw [if_pos low, Nat.testBit_two_pow_sub_one, decide_eq_true low, Bool.or_true]
  · rw [if_neg low, decide_eq_false low, Bool.or_false, Nat.testBit_div_two_pow]
    congr 1
    omega

theorem roundDown_two_pow (x k : Nat) : roundDown x (2 ^ k) = x / 2 ^ k * 2 ^ k := by
  have split := Nat.div_add_mod' x (2 ^ k)
  rw [roundDown, Nat.and_two_pow_sub_one_eq_mod]
  omega

theorem roundUp_two_pow_le (x k b : Nat) : roundUp x (2 ^ k) ≤ b ↔ x ≤ b / 2 ^ k * 2 ^ k := by
  have positive := Nat.two_pow_pos k
  cases x with
  | zero => simp [roundUp]
  | succ x =>
    rw [roundUp, if_neg (Nat.succ_ne_zero x), Nat.add_sub_cancel, or_two_pow_sub_one, Nat.mul_comm]
    have up : x / 2 ^ k * 2 ^ k + (2 ^ k - 1) + 1 = (x / 2 ^ k + 1) * 2 ^ k := by
      rw [Nat.succ_mul]
      omega
    rw [up, ← Nat.le_div_iff_mul_le positive, Nat.succ_le_iff, Nat.div_lt_iff_lt_mul positive, Nat.succ_le_iff]

theorem lt_roundDown_two_pow (x k b : Nat) : b < roundDown x (2 ^ k) ↔ (b / 2 ^ k + 1) * 2 ^ k ≤ x := by
  have positive := Nat.two_pow_pos k
  rw [roundDown_two_pow, ← Nat.div_lt_iff_lt_mul positive, Nat.le_div_iff_mul_le positive |>.symm, Nat.succ_le_iff]

/-! ## Runs of set bits -/

/-- A run that cannot be made longer inside the map. -/
structure MaximalRun (bits : BitMap) (size first stop : Nat) : Prop where
  nonempty : first < stop
  inside : stop ≤ size
  set : ∀ i, first ≤ i → i < stop → bits i = true
  before : first = 0 ∨ bits (first - 1) = false
  after : stop = size ∨ bits stop = false

namespace MaximalRun

variable {bits : BitMap} {size first stop first' stop' b : Nat}

theorem first_le (run : MaximalRun bits size first stop) (run' : MaximalRun bits size first' stop')
    (low : first ≤ b) (high : b < stop') : first ≤ first' := by
  by_contra less
  rcases run.before with zero | clear
  · omega
  · rw [run'.set (first - 1) (by omega) (by omega)] at clear
    cases clear

theorem stop_le (run : MaximalRun bits size first stop) (run' : MaximalRun bits size first' stop')
    (low : first ≤ b) (high : b < stop') : stop ≤ stop' := by
  by_contra less
  rcases run'.after with last | clear
  · exact less (last ▸ run.inside)
  · rw [run.set stop' (by omega) (by omega)] at clear
    cases clear

theorem unique (run : MaximalRun bits size first stop) (run' : MaximalRun bits size first' stop')
    (here : first ≤ b ∧ b < stop) (here' : first' ≤ b ∧ b < stop') : first' = first ∧ stop' = stop := by
  constructor
  · exact Nat.le_antisymm (run'.first_le run here'.1 here.2) (run.first_le run' here.1 here'.2)
  · exact Nat.le_antisymm (run'.stop_le run here'.1 here.2) (run.stop_le run' here.1 here'.2)

end MaximalRun

/-! ## The rounds of the scan -/

/-- The scan from `start` on: it ends when nothing is pending, takes an allocated block off the map,
or comes to a run of blocks that are free and pending. Of such a run it discards the rounded part, if
there is one, unless the device refuses. -/
inductive PendingWalk (free : BitMap) (size gran : Nat) : Nat → BitMap → Option Nat → Issued → Prop
  | done {start pending budget} (none_ : ∀ b, start ≤ b → b < size → pending b = false) :
      PendingWalk free size gran start pending budget ⟨[], false, pending⟩
  | allocated {start pending budget issued} (block : Nat) (low : start ≤ block) (inside : block < size)
      (none_ : ∀ b, start ≤ b → b < block → pending b = false) (used : free block = false)
      (rest : PendingWalk free size gran (block + 1) (clearRange pending block 1) budget issued) :
      PendingWalk free size gran start pending budget issued
  | short {start pending budget issued} (first stop : Nat) (low : start ≤ first) (nonempty : first < stop)
      (inside : stop ≤ size) (none_ : ∀ b, start ≤ b → b < first → pending b = false)
      (set : ∀ b, first ≤ b → b < stop → (pending b && free b) = true)
      (last : stop = size ∨ (pending stop && free stop) = false)
      (small : roundDown stop gran ≤ roundUp first gran)
      (rest : PendingWalk free size gran stop pending budget issued) :
      PendingWalk free size gran start pending budget issued
  | refused {start pending} (first stop : Nat) (low : start ≤ first) (nonempty : first < stop)
      (inside : stop ≤ size) (large : roundUp first gran < roundDown stop gran) :
      PendingWalk free size gran start pending (some 0)
        ⟨[(roundUp first gran, roundDown stop gran - roundUp first gran)], true, pending⟩
  | sent {start pending budget issued} (first stop : Nat) (low : start ≤ first) (nonempty : first < stop)
      (inside : stop ≤ size) (none_ : ∀ b, start ≤ b → b < first → pending b = false)
      (set : ∀ b, first ≤ b → b < stop → (pending b && free b) = true)
      (last : stop = size ∨ (pending stop && free stop) = false)
      (large : roundUp first gran < roundDown stop gran) (answers : budget ≠ some 0)
      (rest : PendingWalk free size gran stop
        (clearRange pending (roundUp first gran) (roundDown stop gran - roundUp first gran))
        (budget.map Nat.pred) issued) :
      PendingWalk free size gran start pending budget
        { issued with ranges := (roundUp first gran, roundDown stop gran - roundUp first gran) :: issued.ranges }

/-- Each round starts further on, so with a round per block the scan comes to its end. -/
theorem pendingWalk_rounds (free : BitMap) (size gran fuel start : Nat) (pending : BitMap) (budget : Option Nat)
    (inside : start ≤ size) (enough : size < start + fuel) :
    PendingWalk free size gran start pending budget (pendingWalk free size gran fuel start pending budget) := by
  induction fuel generalizing start pending budget with
  | zero => omega
  | succ fuel ih =>
    rw [pendingWalk]
    dsimp only
    have low := le_findNext pending true inside
    have none_ : ∀ b, start ≤ b → b < findNext pending true size start → pending b = false :=
      fun b from_ to_ => by simpa using ne_of_lt_findNext pending true from_ to_
    generalize at_ : findNext pending true size start = block at low none_ ⊢
    by_cases past : size ≤ block
    · rw [if_pos past]
      exact .done fun b from_ to_ => none_ b from_ (by omega)
    rw [if_neg past]
    have here : pending block = true := by
      rw [← at_]
      exact findNext_eq pending true (by omega)
    by_cases used : free block = false
    · rw [if_pos (by simp [used])]
      exact .allocated block low (by omega) none_ used (ih _ _ _ (by omega) (by omega))
    rw [if_neg (by simpa using used)]
    have next := le_findNext (fun i => pending i && free i) false (show block + 1 ≤ size by omega)
    have end_ := findNext_le (fun i => pending i && free i) false size (block + 1)
    have set : ∀ b, block ≤ b → b < findNext (fun i => pending i && free i) false size (block + 1) →
        (pending b && free b) = true := by
      intro b from_ to_
      by_cases same : b = block
      · subst same
        rw [here, Bool.true_and]
        simpa using used
      · simpa using ne_of_lt_findNext (fun i => pending i && free i) false (show block + 1 ≤ b by omega) to_
    have last : findNext (fun i => pending i && free i) false size (block + 1) = size ∨
        (fun i => pending i && free i) (findNext (fun i => pending i && free i) false size (block + 1)) = false := by
      by_cases full : findNext (fun i => pending i && free i) false size (block + 1) = size
      · exact .inl full
      · exact .inr (findNext_eq (fun i => pending i && free i) false (by omega))
    generalize findNext (fun i => pending i && free i) false size (block + 1) = stop at next end_ set last ⊢
    by_cases small : roundDown stop gran ≤ roundUp block gran
    · rw [if_pos small]
      exact .short block stop low next end_ none_ set last small (ih _ _ _ end_ (by omega))
    rw [if_neg small]
    by_cases no : refuses budget = true
    · rw [if_pos no]
      obtain rfl : budget = some 0 := by simpa [refuses] using no
      exact .refused block stop low next end_ (Nat.not_le.mp small)
    · rw [if_neg no]
      exact .sent block stop low next end_ none_ set last (Nat.not_le.mp small)
        (by simpa [refuses] using no) (ih _ _ _ end_ (by omega))

/-- The ranges the device has answered for. -/
def answered (budget : Option Nat) (ranges : List Extent) : List Extent :=
  match budget with
  | none => ranges
  | some n => ranges.take n

theorem answered_cons {budget : Option Nat} (answers : budget ≠ some 0) (range : Extent) (ranges : List Extent) :
    answered budget (range :: ranges) = range :: answered (budget.map Nat.pred) ranges := by
  match budget with
  | none => rfl
  | some 0 => exact absurd rfl answers
  | some (n + 1) => rfl

namespace PendingWalk

variable {free pending : BitMap} {size gran start : Nat} {budget : Option Nat} {issued : Issued}

theorem ordered (walk : PendingWalk free size gran start pending budget issued) :
    (∀ range ∈ issued.ranges, start ≤ range.1 ∧ range.1 + range.2 ≤ size) ∧
      issued.ranges.Pairwise fun range later => range.1 + range.2 ≤ later.1 := by
  induction walk with
  | done none_ => exact ⟨nofun, .nil⟩
  | allocated block low inside none_ used rest ih =>
    refine ⟨fun range mem => ?_, ih.2⟩
    have bounds := ih.1 range mem
    omega
  | short first stop low nonempty inside none_ set last small rest ih =>
    refine ⟨fun range mem => ?_, ih.2⟩
    have bounds := ih.1 range mem
    omega
  | refused first stop low nonempty inside large =>
    refine ⟨fun range mem => ?_, List.pairwise_singleton _ _⟩
    obtain rfl := List.mem_singleton.mp mem
    have up := le_roundUp first gran
    have down := roundDown_le stop gran
    dsimp only
    omega
  | sent first stop low nonempty inside none_ set last large answers rest ih =>
    have up := le_roundUp first gran
    have down := roundDown_le stop gran
    constructor
    · intro range mem
      rcases List.mem_cons.mp mem with rfl | later
      · dsimp only
        omega
      · have bounds := ih.1 range later
        omega
    · refine List.pairwise_cons.mpr ⟨fun later mem => ?_, ih.2⟩
      have bounds := ih.1 later mem
      dsimp only
      omega

theorem cleared (walk : PendingWalk free size gran start pending budget issued) {b : Nat}
    (set : pending b = true) (clear : issued.pending b = false) :
    Covers (answered budget issued.ranges) b ∨ free b = false := by
  induction walk with
  | done none_ => exact absurd (set.symm.trans clear) (by simp)
  | @allocated start pending budget issued block low inside none_ used rest ih =>
    by_cases here : b = block
    · exact .inr (here ▸ used)
    · refine ih ?_ clear
      rw [clearRange_of_outside pending (mt within_one.mp here)]
      exact set
  | short first stop low nonempty inside none_ run last small rest ih => exact ih set clear
  | refused first stop low nonempty inside large => exact absurd (set.symm.trans clear) (by simp)
  | @sent start pending budget issued first stop low nonempty inside none_ run last large answers rest ih =>
    rw [answered_cons answers]
    by_cases here : Within (roundUp first gran) (roundDown stop gran - roundUp first gran) b
    · exact .inl ⟨_, List.mem_cons_self, here⟩
    · rcases ih (by rw [clearRange_of_outside pending here]; exact set) clear with ⟨range, mem, within⟩ | used
      · exact .inl ⟨range, List.mem_cons_of_mem _ mem, within⟩
      · exact .inr used

theorem behind (walk : PendingWalk free size gran start pending budget issued) {b : Nat} (low : b < start) :
    issued.pending b = pending b := by
  induction walk with
  | done none_ => rfl
  | @allocated start pending budget issued block from_ inside none_ used rest ih =>
    rw [ih (by omega), clearRange_of_outside pending fun here => by rw [within_one] at here; omega]
  | short first stop from_ nonempty inside none_ run last small rest ih => exact ih (by omega)
  | refused first stop from_ nonempty inside large => rfl
  | @sent start pending budget issued first stop from_ nonempty inside none_ run last large answers rest ih =>
    have up := le_roundUp first gran
    show issued.pending b = _
    rw [ih (by omega), clearRange_of_outside pending fun here => by rw [Within] at here; omega]

/-- No run of the map goes on across the position. -/
def Boundary (bits : BitMap) (size start : Nat) : Prop :=
  start = 0 ∨ bits (start - 1) = false ∨ size ≤ start ∨ bits start = false

/-- The block is not in the rounded part of its run. -/
def Edge (bits : BitMap) (size gran b : Nat) : Prop :=
  ∀ first stop, MaximalRun bits size first stop → first ≤ b → b < stop →
    ¬ (roundUp first gran ≤ b ∧ b < roundDown stop gran)

theorem edge_iff {bits : BitMap} {first stop b : Nat} (run : MaximalRun bits size first stop) (low : first ≤ b)
    (high : b < stop) : Edge bits size gran b ↔ ¬ (roundUp first gran ≤ b ∧ b < roundDown stop gran) := by
  constructor
  · exact fun edge => edge first stop run low high
  · intro outside first' stop' run' low' high'
    obtain ⟨rfl, rfl⟩ := run.unique run' ⟨low, high⟩ ⟨low', high'⟩
    exact outside

variable {original : BitMap}

/-- What the scan comes to behind a boundary is a whole run, and its end is a boundary. -/
theorem maximalRun {first stop : Nat} (boundary : Boundary (fun b => original b && free b) size start)
    (same : ∀ b, start ≤ b → pending b = original b) (low : start ≤ first) (nonempty : first < stop)
    (inside : stop ≤ size) (none_ : ∀ b, start ≤ b → b < first → pending b = false)
    (set : ∀ b, first ≤ b → b < stop → (pending b && free b) = true)
    (last : stop = size ∨ (pending stop && free stop) = false) :
    MaximalRun (fun b => original b && free b) size first stop ∧
      Boundary (fun b => original b && free b) size stop := by
  have set : ∀ b, first ≤ b → b < stop → (original b && free b) = true := by
    intro b from_ to_
    rw [← same b (by omega)]
    exact set b from_ to_
  have last : stop = size ∨ (original stop && free stop) = false := by
    rw [← same stop (by omega)]
    exact last
  refine ⟨⟨nonempty, inside, set, ?_, last⟩, .inr (.inr (last.imp (fun whole => Nat.le_of_eq whole.symm) id))⟩
  by_cases here : start = first
  · subst here
    rcases boundary with zero | clear | past | clear
    · exact .inl zero
    · exact .inr clear
    · omega
    · exact absurd (clear.symm.trans (set start (Nat.le_refl _) nonempty)) (by simp)
  · refine .inr ?_
    rw [← same (first - 1) (by omega), none_ (first - 1) (by omega) (by omega), Bool.false_and]

/-- How a round at a run hands over to the next: the rounded part is gone, the edges stay. -/
theorem settles_run {issued : Issued} {first stop : Nat}
    (run : MaximalRun (fun b => original b && free b) size first stop)
    (none_ : ∀ b, start ≤ b → b < first → pending b = false) (same : ∀ b, start ≤ b → pending b = original b)
    (before : ∀ b < stop, issued.pending b =
      clearRange pending (roundUp first gran) (roundDown stop gran - roundUp first gran) b)
    (rest : ∀ b, stop ≤ b → b < size → (issued.pending b = true ↔
      (original b && free b) = true ∧ Edge (fun b => original b && free b) size gran b))
    {b : Nat} (from_ : start ≤ b) (inside : b < size) : issued.pending b = true ↔
      (original b && free b) = true ∧ Edge (fun b => original b && free b) size gran b := by
  by_cases later : stop ≤ b
  · exact rest b later inside
  rw [before b (by omega), clearRange_eq_true]
  by_cases early : b < first
  · have clear := none_ b from_ early
    rw [clear, ← same b from_, clear]
    simp
  · have set := run.set b (by omega) (by omega)
    rw [edge_iff run (by omega) (by omega), set, same b from_, (Bool.and_eq_true_iff.mp set).1, Within]
    constructor
    · rintro ⟨out, -⟩
      exact ⟨rfl, by omega⟩
    · rintro ⟨-, out⟩
      exact ⟨by omega, rfl⟩

/-- After a scan without errors the edges of the runs are still pending, and nothing else. -/
theorem settles (walk : PendingWalk free size gran start pending budget issued)
    (same : ∀ b, start ≤ b → pending b = original b)
    (boundary : Boundary (fun b => original b && free b) size start)
    (accepted : answered budget issued.ranges = issued.ranges) {b : Nat} (from_ : start ≤ b) (inside : b < size) :
    issued.pending b = true ↔
      (original b && free b) = true ∧ Edge (fun b => original b && free b) size gran b := by
  induction walk generalizing b with
  | done none_ =>
    have clear := none_ b from_ inside
    dsimp only
    rw [clear, ← same b from_, clear]
    simp
  | @allocated start pending budget issued block low within none_ used rest ih =>
    have next : ∀ b, block + 1 ≤ b → clearRange pending block 1 b = original b := by
      intro b above
      rw [clearRange_of_outside pending fun here => by rw [within_one] at here; omega]
      exact same b (by omega)
    have edge : Boundary (fun b => original b && free b) size (block + 1) := by
      refine .inr (.inl ?_)
      show (original block && free block) = false
      rw [used, Bool.and_false]
    by_cases above : block + 1 ≤ b
    · exact ih next edge accepted above inside
    · rw [rest.behind (by omega), clearRange_eq_true, within_one]
      by_cases here : b = block
      · subst here
        rw [used, Bool.and_false]
        simp
      · have clear := none_ b from_ (by omega)
        rw [clear, ← same b from_, clear]
        simp
  | @short start pending budget issued first stop low nonempty within none_ set last small rest ih =>
    obtain ⟨run, edge⟩ := maximalRun boundary same low nonempty within none_ set last
    refine settles_run run none_ same (fun b before => ?_)
      (fun b later => ih (fun b above => same b (by omega)) edge accepted later) from_ inside
    rw [rest.behind before, clearRange_of_outside pending fun here => by rw [Within] at here; omega]
  | refused first stop low nonempty within large => exact absurd accepted (by simp [answered])
  | @sent start pending budget issued first stop low nonempty within none_ set last large answers rest ih =>
    obtain ⟨run, edge⟩ := maximalRun boundary same low nonempty within none_ set last
    rw [answered_cons answers] at accepted
    have down := roundDown_le stop gran
    refine settles_run run none_ same (fun b before => rest.behind before)
      (fun b later => ih (fun b above => ?_) edge (List.cons.inj accepted).2 later) from_ inside
    rw [clearRange_of_outside pending fun here => by rw [Within] at here; omega]
    exact same b (by omega)

end PendingWalk

/-- The loop again, with no result when the fuel runs out. -/
def pendingLoop (free : BitMap) (size gran : Nat) : Nat → Nat → BitMap → Option Nat → Option Issued
  | 0, _, _, _ => none
  | fuel + 1, start, pending, budget =>
    let block := findNext pending true size start
    if size ≤ block then some ⟨[], false, pending⟩
    else if !free block then
      pendingLoop free size gran fuel (block + 1) (clearRange pending block 1) budget
    else
      let stop := findNext (fun i => pending i && free i) false size (block + 1)
      let first := roundUp block gran
      let last := roundDown stop gran
      if last ≤ first then pendingLoop free size gran fuel stop pending budget
      else if refuses budget then some ⟨[(first, last - first)], true, pending⟩
      else
        (pendingLoop free size gran fuel stop (clearRange pending first (last - first))
          (budget.map Nat.pred)).map fun rest => { rest with ranges := (first, last - first) :: rest.ranges }

theorem pendingLoop_ends (free : BitMap) (size gran fuel start : Nat) (pending : BitMap) (budget : Option Nat)
    (inside : start ≤ size) (enough : size < start + fuel) :
    pendingLoop free size gran fuel start pending budget =
      some (pendingWalk free size gran fuel start pending budget) := by
  induction fuel generalizing start pending budget with
  | zero => omega
  | succ fuel ih =>
    rw [pendingLoop, pendingWalk]
    have low := le_findNext pending true inside
    dsimp only
    generalize findNext pending true size start = block at low ⊢
    by_cases past : size ≤ block
    · rw [if_pos past, if_pos past]
    have next := le_findNext (fun i => pending i && free i) false (show block + 1 ≤ size by omega)
    have last := findNext_le (fun i => pending i && free i) false size (block + 1)
    rw [if_neg past, if_neg past, ih _ _ _ (show block + 1 ≤ size by omega) (by omega),
      ih _ _ _ last (by omega), ih _ _ _ last (by omega)]
    rw [Option.map_some, apply_ite some, apply_ite some, apply_ite some]

/-- The block lies in an aligned unit of `gran` blocks inside its run. -/
def Interior (bits : BitMap) (size gran b : Nat) : Prop :=
  ∃ first stop, MaximalRun bits size first stop ∧
    ∃ unit, first ≤ unit * gran ∧ (unit + 1) * gran ≤ stop ∧ unit * gran ≤ b ∧ b < (unit + 1) * gran

theorem edge_iff_not_interior (bits : BitMap) (size k b : Nat) :
    PendingWalk.Edge bits size (2 ^ k) b ↔ ¬ Interior bits size (2 ^ k) b := by
  have positive := Nat.two_pow_pos k
  constructor
  · rintro edge ⟨first, stop, run, unit, low, high, from_, to_⟩
    refine edge first stop run (by omega) (by omega) ?_
    have here : b / 2 ^ k = unit := Nat.div_eq_of_lt_le from_ to_
    rw [roundUp_two_pow_le, lt_roundDown_two_pow, here]
    exact ⟨low, high⟩
  · intro outside first stop run low high rounded
    rw [roundUp_two_pow_le, lt_roundDown_two_pow] at rounded
    exact outside ⟨first, stop, run, b / 2 ^ k, rounded.1, rounded.2, Nat.div_mul_le_self b _,
      Nat.lt_mul_of_div_lt (Nat.lt_succ_self _) positive⟩

theorem granBlocks_pos (granularity : Nat) : 0 < granBlocks granularity := by
  rw [granBlocks]
  have large := Nat.le_max_right granularity blockSize
  have positive : 0 < blockSize := by decide
  exact Nat.div_pos (by omega) positive

theorem issuePendingDiscards_left {granularity : Nat} {budget : Option Nat} {s : Space} (on : s.sDiscard = true)
    (accepted : answered budget (issuePendingDiscards granularity budget s).1 =
      (issuePendingDiscards granularity budget s).1) {b : Nat} (inside : b < s.nrBlocks) :
    (issuePendingDiscards granularity budget s).2.discardPending b = true ↔
      (s.discardPending b && s.bfreeBitmap b) = true ∧
        PendingWalk.Edge (fun b => s.discardPending b && s.bfreeBitmap b) s.nrBlocks (granBlocks granularity) b := by
  have walk := pendingWalk_rounds s.bfreeBitmap s.nrBlocks (granBlocks granularity) (s.nrBlocks + 1) 0
    s.discardPending budget (Nat.zero_le _) (by omega)
  rw [issuePendingDiscards, if_neg (by simp [on])] at accepted ⊢
  exact walk.settles (fun _ _ => rfl) (.inl rfl) accepted (Nat.zero_le b) inside

/-- A device of which every block is free and pending. -/
def idleSpace (nrBlocks : Nat) : Space where
  nrBlocks
  nrInodes := 16
  nrIstoreBlocks := 1
  nrIfreeBlocks := 1
  nrBfreeBlocks := 1
  bfreeBitmap := fun _ => true
  ifreeBitmap := fun _ => true
  discardPending := fun _ => true
  nrFreeBlocks := UInt32.ofNat nrBlocks
  nrFreeInodes := 15
  sDiscard := true
  sShutdown := false

theorem isPowerOfTwo_of_unit {granularity : Nat}
    (gone : (issuePendingDiscards granularity none (idleSpace (granBlocks granularity))).2.discardPending
      (granBlocks granularity - 1) ≠ true) : (granBlocks granularity).isPowerOfTwo := by
  have positive := granBlocks_pos granularity
  have inside : granBlocks granularity - 1 < (idleSpace (granBlocks granularity)).nrBlocks :=
    Nat.sub_lt positive Nat.one_pos
  rw [Ne, @issuePendingDiscards_left granularity none _ rfl rfl _ inside] at gone
  have run : MaximalRun (fun _ => true && true) (granBlocks granularity) 0 (granBlocks granularity) :=
    ⟨positive, Nat.le_refl _, fun _ _ _ => rfl, .inl rfl, .inl rfl⟩
  by_contra other
  rw [← Nat.and_sub_one_eq_zero_iff_isPowerOfTwo (Nat.ne_of_gt positive)] at other
  refine gone ⟨rfl, (PendingWalk.edge_iff run (Nat.zero_le _) (by omega)).mpr ?_⟩
  rintro ⟨-, high⟩
  rw [roundDown] at high
  omega

/-- Blocks 6 to 8 are a unit of a device whose clusters have three blocks. -/
def clusterSpace : Space :=
  { idleSpace 16 with
    bfreeBitmap := fun b => decide (6 ≤ b) && decide (b < 9)
    discardPending := fun b => decide (6 ≤ b) && decide (b < 9) }

end SimpleFs.Space

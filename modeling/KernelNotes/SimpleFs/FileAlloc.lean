import KernelNotes.SimpleFs.FileEdit

/-!
# Allocating blocks for a file

An allocation is tried with the length that is wanted and then with half of it, until a run of free
blocks is found. A run that is found was free, is held by nobody else and is marked in use; a search
that ends without one has changed nothing as long as the file system is up.
-/

namespace SimpleFs

open Outcome Bits Cells

namespace Space

/-- A result of `get_free_blocks` means that nothing went wrong. -/
theorem getFreeBlocks_found {busy : BitMap} {faults : HandleFaults} {len : Nat} {s : Space}
    (found : (getFreeBlocks busy faults len s).1 ≠ 0) :
    (getFreeBlocks busy faults len s).2.sShutdown = false := by
  revert found
  rw [getFreeBlocks, getFreeBlocksWith]
  by_cases down : (s.sShutdown || faults.start) = true
  · rw [if_pos down]
    exact fun never => absurd rfl never
  rw [if_neg down]
  rw [Bool.or_eq_true, not_or, Bool.not_eq_true] at down
  split
  · exact fun never => absurd rfl never
  · intro found
    cases broken : faults.persist || faults.stop with
    | true =>
      rw [broken, if_pos rfl] at found
      exact absurd rfl found
    | false =>
      show (s.sShutdown || false) = false
      rw [down.1]
      rfl

theorem takeExactBlocks_found {busy : BitMap} {faults : HandleFaults} {bno len : Nat} {s : Space}
    (found : (takeExactBlocks busy faults bno len s).1 = true) :
    (takeExactBlocks busy faults bno len s).2.sShutdown = false := by
  revert found
  rw [takeExactBlocks]
  by_cases down : (s.badRange bno len || s.sShutdown || faults.start) = true
  · rw [if_pos down]
    simp
  rw [if_neg down]
  rw [Bool.or_eq_true, not_or, Bool.or_eq_true, not_or, Bool.not_eq_true, Bool.not_eq_true] at down
  split
  · simp
  · intro found
    cases broken : faults.persist || faults.stop with
    | true =>
      rw [broken] at found
      cases found
    | false =>
      show (s.sShutdown || false) = false
      rw [down.1.2]
      rfl

end Space

namespace File

theorem freeRun_shrinks (tries : Nat → TakeFaults) (len : Nat) :
    ∀ i s, Space.Shrinks s (freeRun tries len i s).2.2 := by
  induction len using Nat.strongRecOn with
  | ind len ih =>
    intro i s
    have one := (Space.getFreeBlocks_sound (tries i).busy (tries i).handle len s).1
    rw [freeRun]
    split
    · rename_i run
      rw [run] at one
      split
      · rename_i more
        exact one.trans (ih (len / 2) (by omega) (i + 1) _)
      · exact one
    · rename_i run
      rw [run] at one
      exact one

theorem freeRun_found (tries : Nat → TakeFaults) (len : Nat) :
    ∀ i s, (freeRun tries len i s).1 ≠ 0 → (freeRun tries len i s).2.2.sShutdown = false := by
  induction len using Nat.strongRecOn with
  | ind len ih =>
    intro i s
    have one := @Space.getFreeBlocks_found (tries i).busy (tries i).handle len s
    rw [freeRun]
    split
    · split
      · rename_i more
        exact ih (len / 2) (by omega) (i + 1) _
      · exact fun never => absurd rfl never
    · rename_i run
      rw [run] at one
      exact one

theorem growRun_shrinks (tries : Nat → TakeFaults) (start len : Nat) :
    ∀ i s, Space.Shrinks s (growRun tries start len i s).2 := by
  induction len using Nat.strongRecOn with
  | ind len ih =>
    intro i s
    have one := (Space.takeExactBlocks_sound (tries i).busy (tries i).handle start len s).1
    rw [growRun]
    split
    · exact Space.Shrinks.refl s
    · rename_i some_
      split
      · rename_i run
        rw [run] at one
        exact one
      · rename_i run
        rw [run] at one
        exact one.trans (ih (len / 2) (by omega) (i + 1) _)

theorem growRun_found (tries : Nat → TakeFaults) (start len : Nat) :
    ∀ i s, (growRun tries start len i s).1 ≠ 0 → (growRun tries start len i s).2.sShutdown = false := by
  induction len using Nat.strongRecOn with
  | ind len ih =>
    intro i s
    have one := @Space.takeExactBlocks_found (tries i).busy (tries i).handle start len s
    rw [growRun]
    split
    · exact fun never => absurd rfl never
    · rename_i some_
      split
      · rename_i run
        rw [run] at one
        exact fun _ => one rfl
      · exact ih (len / 2) (by omega) (i + 1) _

end File

namespace Withheld

variable {base : Space} {held : List Nat} (reserved : base.Reserved)

include reserved

theorem freeRun (tries : Nat → TakeFaults) (len : Nat) : ∀ i s, Withheld base held s →
    (File.freeRun tries len i s).2.2.sShutdown = false →
    ((File.freeRun tries len i s).1 = 0 ∧ Withheld base held (File.freeRun tries len i s).2.2) ∨
    ((File.freeRun tries len i s).1 ≠ 0 ∧ 0 < (File.freeRun tries len i s).2.1 ∧
      (File.freeRun tries len i s).2.1 ≤ len ∧
      Withheld base (List.range' (File.freeRun tries len i s).1 (File.freeRun tries len i s).2.1 ++ held)
        (File.freeRun tries len i s).2.2) := by
  induction len using Nat.strongRecOn with
  | ind len ih =>
    intro i s h
    have one := @Withheld.getFreeBlocks base s held reserved h (tries i).busy (tries i).handle len
    rw [File.freeRun]
    split
    · rename_i s' run
      rw [run] at one
      split
      · rename_i more
        intro up
        have before := (File.freeRun_shrinks tries (len / 2) (i + 1) s').up up
        rcases one before with ⟨-, kept⟩ | ⟨never, -⟩
        · rcases ih (len / 2) (by omega) (i + 1) s' kept up with none_ | ⟨found, some_, short, more⟩
          · exact .inl none_
          · exact .inr ⟨found, some_, by omega, more⟩
        · exact absurd rfl never
      · intro up
        rcases one up with ⟨-, kept⟩ | ⟨never, -⟩
        · exact .inl ⟨rfl, kept⟩
        · exact absurd rfl never
    · rename_i bno s' run
      rw [run] at one
      intro up
      rcases one up with ⟨never, -⟩ | ⟨found, some_, more⟩
      · cases never
      · exact .inr ⟨found, some_, Nat.le_refl _, more⟩

theorem growRun (tries : Nat → TakeFaults) (start len : Nat) : ∀ i s, Withheld base held s →
    (File.growRun tries start len i s).2.sShutdown = false →
    ((File.growRun tries start len i s).1 = 0 ∧ Withheld base held (File.growRun tries start len i s).2) ∨
    (0 < (File.growRun tries start len i s).1 ∧ (File.growRun tries start len i s).1 ≤ len ∧
      Withheld base (List.range' start (File.growRun tries start len i s).1 ++ held)
        (File.growRun tries start len i s).2) := by
  induction len using Nat.strongRecOn with
  | ind len ih =>
    intro i s h
    have one := @Withheld.takeExactBlocks base s held reserved h (tries i).busy (tries i).handle start len
    rw [File.growRun]
    split
    · exact fun _ => .inl ⟨rfl, h⟩
    rename_i some_
    split
    · rename_i s' run
      rw [run] at one
      intro up
      rcases one up with ⟨never, -⟩ | ⟨-, positive, more⟩
      · cases never
      · exact .inr ⟨positive, Nat.le_refl _, more⟩
    · rename_i s' run
      rw [run] at one
      intro up
      have before := (File.growRun_shrinks tries start (len / 2) (i + 1) s').up up
      rcases one before with ⟨-, kept⟩ | ⟨never, -⟩
      · rcases ih (len / 2) (by omega) (i + 1) s' kept up with none_ | ⟨found, short, more⟩
        · exact .inl none_
        · exact .inr ⟨found, by omega, more⟩
      · cases never

variable {s : Space} {busy : BitMap} {len first : Nat}

theorem run_bounds {p n : Nat} {rest : List Nat} (took : Withheld base (List.range' p n ++ rest) s)
    (some_ : 0 < n) : 0 < p ∧ p + n ≤ base.nrBlocks := by
  have mine : ∀ b, p ≤ b → b < p + n → b ∈ List.range' p n ++ rest :=
    fun b low high => List.mem_append_left _ (List.mem_range'_1.mpr ⟨low, high⟩)
  constructor
  · refine Nat.pos_of_ne_zero fun zero => ?_
    have free := took.wasFree 0 (mine 0 (by omega) (by omega))
    rw [reserved.zero] at free
    cases free
  · have last := took.inside (p + n - 1) (mine _ (by omega) (by omega))
    omega

end Withheld

/-! ## Searches without faults -/

/-- The number of blocks that can be handed out while the journal holds on to some. -/
def Space.usable (busy : BitMap) (s : Space) : Nat :=
  weight (fun b => s.bfreeBitmap b && !busy b) s.nrBlocks

theorem Withheld.usable {base s : Space} {held : List Nat} (h : Withheld base held s) {busy : BitMap}
    (idle : ∀ b ∈ held, busy b = false) : s.usable busy + held.length = base.usable busy := by
  have split : ((List.range base.nrBlocks).filter fun b => base.bfreeBitmap b && !busy b).Perm
      (((List.range base.nrBlocks).filter fun b => s.bfreeBitmap b && !busy b) ++ held) := by
    rw [List.perm_ext_iff_of_nodup (List.nodup_range.filter _)]
    · intro b
      simp only [List.mem_append, List.mem_filter, List.mem_range, Bool.and_eq_true, Bool.not_eq_true', h.free]
      constructor
      · rintro ⟨inside, free, calm⟩
        by_cases mem : b ∈ held
        · exact .inr mem
        · exact .inl ⟨inside, ⟨free, mem⟩, calm⟩
      · rintro (⟨inside, ⟨free, -⟩, calm⟩ | mem)
        · exact ⟨inside, free, calm⟩
        · exact ⟨h.inside b mem, h.wasFree b mem, idle b mem⟩
    · refine List.nodup_append.mpr ⟨List.nodup_range.filter _, h.distinct, fun b left b' mem same => ?_⟩
      rw [List.mem_filter, Bool.and_eq_true] at left
      exact ((h.free b).mp left.2.1).2 (same ▸ mem)
  have sizes := split.length_eq
  rw [List.length_append, ← List.countP_eq_length_filter, ← List.countP_eq_length_filter] at sizes
  rw [Space.usable, Space.usable, weight, weight, h.geometry.nrBlocks]
  exact sizes.symm

theorem Space.usable_eq_zero (reserved : s.bfreeBitmap 0 = false) (cannot : ¬ CanTake busy 1 s) :
    s.usable busy = 0 := by
  rw [usable, weight, List.countP_eq_zero]
  intro b mem free
  rw [Bool.and_eq_true, Bool.not_eq_true'] at free
  have positive : 0 < b := by
    refine Nat.pos_of_ne_zero fun zero => ?_
    rw [zero, reserved] at free
    cases free.1
  refine cannot ⟨b, positive, List.mem_range.mp mem, fun b' within => ?_⟩
  obtain rfl : b' = b := by
    have := within.1
    have := within.2
    omega
  exact free

namespace File

/-- The journal holds on to the same blocks at every try, and nothing fails. -/
def Steady (busy : BitMap) (tries : Nat → TakeFaults) : Prop := ∀ i, tries i = { busy := busy }

/-- A run that can be handed out starts here. -/
def RunAt (busy : BitMap) (s : Space) (len first : Nat) : Prop :=
  0 < first ∧ first + len ≤ s.nrBlocks ∧ ∀ b, Within first len b → s.bfreeBitmap b = true ∧ busy b = false

theorem RunAt.idle (run : RunAt busy s len first) : ∀ b ∈ List.range' first len, busy b = false :=
  fun b mem => (run.2.2 b (Withheld.mem_block.mp mem)).2

/-- The lowest run of this length. -/
def Lowest (busy : BitMap) (s : Space) (len first : Nat) : Prop :=
  RunAt busy s len first ∧ ∀ q, RunAt busy s len q → first ≤ q

/-- The first length of the search that can be handed out. -/
def FirstTry (busy : BitMap) (s : Space) (len t : Nat) : Prop :=
  ∃ k, len / 2 ^ k = t ∧ Space.CanTake busy t s ∧ ∀ j < k, ¬ Space.CanTake busy (len / 2 ^ j) s

theorem Lowest.unique {p q : Nat} (first : Lowest busy s len p) (second : Lowest busy s len q) :
    p = q :=
  Nat.le_antisymm (first.2 q second.1) (second.2 p first.1)

theorem FirstTry.unique {t u : Nat} (first : FirstTry busy s len t)
    (second : FirstTry busy s len u) : t = u := by
  obtain ⟨k, rfl, can, none_⟩ := first
  obtain ⟨k', rfl, can', none'⟩ := second
  rcases Nat.lt_trichotomy k k' with early | rfl | late
  · exact absurd can (none' k early)
  · rfl
  · exact absurd can' (none_ k' late)

theorem FirstTry.here (can : Space.CanTake busy len s) : FirstTry busy s len len :=
  ⟨0, by rw [Nat.pow_zero, Nat.div_one], can, nofun⟩

theorem FirstTry.halved {t : Nat} (cannot : ¬ Space.CanTake busy len s)
    (rest : FirstTry busy s (len / 2) t) : FirstTry busy s len t := by
  obtain ⟨k, value, can, none_⟩ := rest
  have step : ∀ j, len / 2 / 2 ^ j = len / 2 ^ (j + 1) := by
    intro j
    rw [Nat.div_div_eq_div_mul, Nat.pow_succ, Nat.mul_comm]
  refine ⟨k + 1, by rw [← step, value], can, fun j less => ?_⟩
  cases j with
  | zero =>
    rw [Nat.pow_zero, Nat.div_one]
    exact cannot
  | succ j =>
    rw [← step]
    exact none_ j (by omega)

theorem getFreeBlocks_steady (busy : BitMap) (some_ : 0 < len) (reserved : s.bfreeBitmap 0 = false)
    (up : s.sShutdown = false) :
    (Space.getFreeBlocks busy {} len s = (0, s) ∧ ¬ Space.CanTake busy len s) ∨
      ∃ first, Space.getFreeBlocks busy {} len s = (first + 1, s.take (first + 1) len) ∧
        Lowest busy s len (first + 1) := by
  by_cases can : Space.CanTake busy len s
  · obtain ⟨first, run, taken⟩ := @Space.getFreeBlocks_of_canTake busy {} len s some_ reserved up rfl can
    have run : Space.getFreeBlocks busy {} len s = (first + 1, s.take (first + 1) len) :=
      run.trans (congrArg (Prod.mk (first + 1)) (Space.failIf_false _))
    refine .inr ⟨first, run, ⟨Nat.succ_pos first, taken.inside, fun b within => ?_⟩, fun q other => ?_⟩
    · exact ⟨taken.free b within, taken.calm b within⟩
    · exact Space.getFreeBlocks_lowest some_ reserved run other.2.1 other.2.2
  · obtain ⟨fault, run⟩ := Space.getFreeBlocks_of_not_canTake {} reserved can
    have same := @Space.getFreeBlocks_up busy {} rfl rfl len s
    rw [run, up] at same
    obtain rfl := (Space.failIf_up same).2
    rw [Space.failIf_false] at run
    exact .inl ⟨run, can⟩

theorem freeRun_steady {tries : Nat → TakeFaults} (steady : Steady busy tries)
    (reserved : s.bfreeBitmap 0 = false) (up : s.sShutdown = false) (len : Nat) : 0 < len → ∀ i,
    (freeRun tries len i s = (0, 1, s) ∧ s.usable busy = 0) ∨
      ((freeRun tries len i s).1 ≠ 0 ∧ FirstTry busy s len (freeRun tries len i s).2.1 ∧
        Lowest busy s (freeRun tries len i s).2.1 (freeRun tries len i s).1) := by
  induction len using Nat.strongRecOn with
  | ind len ih =>
    intro some_ i
    rw [freeRun, steady i]
    rcases getFreeBlocks_steady busy some_ reserved up with ⟨run, cannot⟩ | ⟨first, run, lowest⟩
    · rw [run]
      dsimp only
      by_cases more : 1 < len
      · rw [if_pos more]
        rcases ih (len / 2) (by omega) (by omega) (i + 1) with nothing | ⟨found, first, lowest⟩
        · exact .inl nothing
        · exact .inr ⟨found, first.halved cannot, lowest⟩
      · obtain rfl : len = 1 := by omega
        rw [if_neg more]
        exact .inl ⟨rfl, Space.usable_eq_zero reserved cannot⟩
    · rw [run]
      exact .inr ⟨Nat.succ_ne_zero first, .here ⟨_, lowest.1⟩, lowest⟩

theorem RunAt.one (run : RunAt busy s len first) (some_ : 0 < len) : RunAt busy s 1 first := by
  refine ⟨run.1, by have := run.2.1; omega, fun b within => run.2.2 b ⟨within.1, ?_⟩⟩
  have := within.2
  omega

theorem RunAt.usable_pos (run : RunAt busy s len first) (some_ : 0 < len) : 0 < s.usable busy := by
  obtain ⟨-, inside, free⟩ := run
  obtain ⟨set, idle⟩ := free first ⟨Nat.le_refl _, by omega⟩
  rw [Space.usable, weight, List.countP_pos_iff]
  refine ⟨first, List.mem_range.mpr (by omega), ?_⟩
  rw [set, idle]
  rfl

/-- `simplefs_take_exact_blocks` without faults. -/
theorem takeExactBlocks_steady (busy : BitMap) {first len : Nat} {s : Space} (some_ : 0 < len)
    (up : s.sShutdown = false) :
    (RunAt busy s len first ∧ Space.takeExactBlocks busy {} first len s = (true, s.take first len)) ∨
      (¬ RunAt busy s len first ∧ Space.takeExactBlocks busy {} first len s = (false, s)) := by
  rw [Space.takeExactBlocks]
  by_cases refused : (s.badRange first len || s.sShutdown || ({} : Space.HandleFaults).start) = true
  · rw [if_pos refused]
    refine .inr ⟨fun run => ?_, rfl⟩
    have := run.1
    have := run.2.1
    simp only [Space.badRange, up, Bool.or_eq_true, beq_iff_eq, decide_eq_true_eq, Bool.false_eq_true,
      or_false] at refused
    omega
  rw [if_neg refused]
  simp only [Space.badRange, up, Bool.or_eq_true, beq_iff_eq, decide_eq_true_eq, Bool.false_eq_true,
    or_false, not_or] at refused
  by_cases unfit : (!allSet s.bfreeBitmap first len || anySet busy first len) = true
  · rw [if_pos unfit]
    refine .inr ⟨fun run => ?_, congrArg (Prod.mk false) (Space.failIf_false s)⟩
    rw [(allSet_iff _ _ _).mpr fun b within => (run.2.2 b within).1,
      (anySet_eq_false_iff _ _ _).mpr fun b within => (run.2.2 b within).2] at unfit
    cases unfit
  · rw [if_neg unfit]
    simp only [Bool.or_eq_true, not_or, Bool.not_eq_true, Bool.not_eq_false', allSet_iff,
      anySet_eq_false_iff] at unfit
    refine .inl ⟨⟨by omega, by omega, fun b within => ⟨unfit.1 b within, unfit.2 b within⟩⟩, ?_⟩
    exact congrArg (Prod.mk true) (Space.failIf_false _)

theorem growRun_steady {tries : Nat → TakeFaults} (steady : Steady busy tries) {start : Nat}
    (up : s.sShutdown = false) (len : Nat) : 0 < len → ∀ i,
    ((growRun tries start len i s).1 ≠ 0 ∧ RunAt busy s (growRun tries start len i s).1 start) ∨
      (¬ RunAt busy s 1 start ∧ growRun tries start len i s = (0, s)) := by
  induction len using Nat.strongRecOn with
  | ind len ih =>
    intro some_ i
    rw [growRun, steady i, if_neg (Nat.pos_iff_ne_zero.mp some_)]
    rcases @takeExactBlocks_steady busy start len s some_ up with ⟨run, took⟩ | ⟨none_, took⟩
    · rw [took]
      exact .inl ⟨Nat.pos_iff_ne_zero.mp some_, run⟩
    · rw [took]
      dsimp only
      by_cases more : 1 < len
      · exact ih (len / 2) (by omega) (by omega) (i + 1)
      · obtain rfl : len = 1 := by omega
        refine .inr ⟨none_, ?_⟩
        rw [growRun, if_pos rfl]

/-- What an allocation for the inode does. Without faults it fails only when nothing is usable. -/
theorem takeFree_ends {base : Space} {held : List Nat} {file : File} (reserved : base.Reserved)
    (tries : Nat → TakeFaults) (len : Nat)
    (took : file.space.sShutdown = false → Withheld base held file.space) :
    Ends (fun range mid => ∃ space, file.setSpace space = mid ∧ 0 < range.len ∧ range.len ≤ len ∧
        Withheld base (range.blocks ++ held) space ∧
        (∀ busy, Steady busy tries → FirstTry busy file.space len range.len ∧
          Lowest busy file.space range.len range.start) ∧ space.sShutdown = false)
      (fun _ mid => ∀ {busy}, Steady busy tries → 0 < len → file.space.sShutdown = false →
        file = mid ∧ mid.space.usable busy = 0)
      (takeFree tries len file) := by
  have found := freeRun_found tries len 0 file.space
  have shrinks := freeRun_shrinks tries len 0 file.space
  rw [takeFree]
  split
  · rename_i run_
    intro busy steady some_ up
    rcases freeRun_steady steady ((took up).zero_used reserved) up len some_ 0 with
      ⟨same, empty⟩ | ⟨never, -⟩
    · rw [run_] at same
      cases same
      exact ⟨rfl, empty⟩
    · rw [run_] at never
      exact absurd rfl never
  · rename_i bno n space run_
    rw [run_] at found shrinks
    have up := found (Nat.succ_ne_zero bno)
    have wasUp := shrinks.up up
    have spec := Withheld.freeRun reserved tries len 0 file.space (took wasUp)
    rw [run_] at spec
    rcases spec up with ⟨never, -⟩ | ⟨-, some_, short, more⟩
    · cases never
    · refine ⟨space, rfl, some_, short, more, fun busy steady => ?_, up⟩
      rcases freeRun_steady steady ((took wasUp).zero_used reserved) wasUp len
        (Nat.lt_of_lt_of_le some_ short) 0 with ⟨never, -⟩ | ⟨-, chosen⟩
      · rw [run_] at never
        cases never
      · rw [run_] at chosen
        exact chosen

end File

end SimpleFs

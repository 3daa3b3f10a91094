import KernelNotes.Lib.Run

/-!
# The policy of the balloon daemon

`policy.rs` and the validation of a policy in `config.rs`. From the capacity of a VM, the memory
its balloon leaves it (`actual`) and the memory its guest has available, `decide` derives the next
target of the balloon: more memory when too little is available, less when there has been more
than enough for some samples.

Sizes are `u64`. The additions and subtractions saturate; the multiplications do not, so they are
partial here, and a result says that nothing overflowed.
-/

namespace Collei.Balloon

def u64Max : Nat := 2 ^ 64 - 1

def u128Max : Nat := 2 ^ 128 - 1

def mib : Nat := 1024 * 1024

/-- `saturating_add` of `u64`. -/
def satAdd (a b : Nat) : Nat := min (a + b) u64Max

/-- A multiplication in an unsigned type with this largest value. -/
def mul (largest a b : Nat) : Option Nat := if a * b ≤ largest then some (a * b) else none

structure PolicyConfig where
  enabled : Bool := true
  reserveMib : Nat := 2048
  reservePercent : Nat := 20
  minLogicalMib : Nat := 2048
  minLogicalPercent : Nat := 25
  hysteresisMib : Nat := 512
  reclaimStepMib : Nat := 512
  confirmSamples : Nat := 3
  deriving DecidableEq, Repr

/-- `PolicyConfig::validate`. -/
def PolicyConfig.validate (policy : PolicyConfig) (location : String) : Except String Unit :=
  if policy.reservePercent > 100 ∨ policy.minLogicalPercent > 100 then
    .error (location ++ ": percentages must be between 0 and 100")
  else if policy.reserveMib = 0 ∨ policy.minLogicalMib = 0 ∨ policy.hysteresisMib = 0 ∨
      policy.reclaimStepMib = 0 ∨ policy.confirmSamples = 0 then
    .error (location ++ ": memory values and confirm_samples must be non-zero")
  else if [policy.reserveMib, policy.minLogicalMib, policy.hysteresisMib,
      policy.reclaimStepMib].any (· > u64Max / mib) then
    .error (location ++ ": memory value is too large")
  else .ok ()

inductive ActionKind where
  | reclaim
  | return
  deriving DecidableEq, Repr

structure Decision where
  action : ActionKind
  target : Nat
  reserve : Nat
  minLogical : Nat
  deriving DecidableEq, Repr

/-- `percentage`, with the product in `u128`. -/
def percentage (capacity percent : Nat) : Option Nat :=
  (mul u128Max capacity percent).map fun product =>
    if product / 100 ≤ u64Max then product / 100 else u64Max

/-- The reserve, the least logical size and the hysteresis. -/
structure Thresholds where
  reserve : Nat
  minLogical : Nat
  hysteresis : Nat
  deriving DecidableEq, Repr

def thresholds (policy : PolicyConfig) (capacity : Nat) : Option Thresholds := do
  let reserve := max (← mul u64Max policy.reserveMib mib) (← percentage capacity policy.reservePercent)
  let minLogical := min
    (max (← mul u64Max policy.minLogicalMib mib) (← percentage capacity policy.minLogicalPercent))
    capacity
  return ⟨min reserve capacity, minLogical, ← mul u64Max policy.hysteresisMib mib⟩

/-- `decide`. The outer option tells whether all multiplications fit. -/
def decide (policy : PolicyConfig) (capacity actual available confirmedHighSamples : Nat) :
    Option (Option Decision) :=
  (thresholds policy capacity).bind fun ⟨reserve, minLogical, hysteresis⟩ =>
    if actual < minLogical then some (some ⟨.return, minLogical, reserve, minLogical⟩)
    else if available < reserve then
      let shortage := satAdd reserve hysteresis - available
      let target := min (satAdd actual shortage) capacity
      some (if target > actual then some ⟨.return, target, reserve, minLogical⟩ else none)
    else if available > satAdd reserve hysteresis ∧
        confirmedHighSamples ≥ policy.confirmSamples then
      (mul u64Max policy.reclaimStepMib mib).map fun reclaimStep =>
        let excess := available - reserve
        let step := min reclaimStep excess
        let target := max (actual - step) minLogical
        if target < actual then some ⟨.reclaim, target, reserve, minLogical⟩ else none
    else some none

/-! ## Nothing overflows -/

/-- What `validate` has checked. -/
structure Valid (policy : PolicyConfig) : Prop where
  reservePercent : policy.reservePercent ≤ 100
  minLogicalPercent : policy.minLogicalPercent ≤ 100
  reserveMib : policy.reserveMib ≤ u64Max / mib
  minLogicalMib : policy.minLogicalMib ≤ u64Max / mib
  hysteresisMib : policy.hysteresisMib ≤ u64Max / mib
  reclaimStepMib : policy.reclaimStepMib ≤ u64Max / mib
  reclaimStep_pos : 0 < policy.reclaimStepMib

theorem valid_of_validate {policy : PolicyConfig} {location : String}
    (ok : policy.validate location = .ok ()) : Valid policy := by
  rw [PolicyConfig.validate] at ok
  split at ok
  · cases ok
  rename_i percents
  split at ok
  · cases ok
  rename_i positive
  split at ok
  · cases ok
  rename_i sizes
  simp only [List.any_cons, List.any_nil, Bool.or_false, Bool.or_eq_true, decide_eq_true_eq, not_or,
    Nat.not_lt] at sizes percents positive
  obtain ⟨reserve, minLogical, hysteresis, step⟩ := sizes
  exact ⟨percents.1, percents.2, reserve, minLogical, hysteresis, step,
    Nat.pos_of_ne_zero positive.2.2.2.1⟩

theorem mul_mib {size : Nat} (small : size ≤ u64Max / mib) : mul u64Max size mib = some (size * mib) := by
  have fits : size * mib ≤ u64Max := (Nat.le_div_iff_mul_le (by decide)).mp small
  rw [mul, if_pos fits]

theorem percentage_eq {capacity percent : Nat} (sized : capacity ≤ u64Max) (legal : percent ≤ 100) :
    percentage capacity percent = some (capacity * percent / 100) := by
  have product : capacity * percent ≤ u64Max * 100 := Nat.mul_le_mul sized legal
  have wide : capacity * percent ≤ u128Max := Nat.le_trans product (by decide)
  have fits : capacity * percent / 100 ≤ u64Max := by omega
  rw [percentage, mul, if_pos wide, Option.map_some, if_pos fits]

theorem thresholds_eq {policy : PolicyConfig} {capacity : Nat} (valid : Valid policy)
    (sized : capacity ≤ u64Max) :
    ∃ t, thresholds policy capacity = some t ∧ t.reserve ≤ capacity ∧ t.minLogical ≤ capacity := by
  rw [thresholds, mul_mib valid.reserveMib, mul_mib valid.minLogicalMib,
    mul_mib valid.hysteresisMib, percentage_eq sized valid.reservePercent,
    percentage_eq sized valid.minLogicalPercent]
  exact ⟨_, rfl, Nat.min_le_right _ _, Nat.min_le_right _ _⟩

/-- `decide` after the thresholds, for a reclaim step in bytes and samples that are confirmed or
not. -/
def choose (t : Thresholds) (reclaimStep : Nat) (confirmed : Prop) [Decidable confirmed]
    (capacity actual available : Nat) : Option Decision :=
  if actual < t.minLogical then some ⟨.return, t.minLogical, t.reserve, t.minLogical⟩
  else if available < t.reserve then
    let target := min (satAdd actual (satAdd t.reserve t.hysteresis - available)) capacity
    if target > actual then some ⟨.return, target, t.reserve, t.minLogical⟩ else none
  else if available > satAdd t.reserve t.hysteresis ∧ confirmed then
    let target := max (actual - min reclaimStep (available - t.reserve)) t.minLogical
    if target < actual then some ⟨.reclaim, target, t.reserve, t.minLogical⟩ else none
  else none

theorem decide_eq {policy : PolicyConfig} {capacity : Nat} (valid : Valid policy) {t : Thresholds}
    (found : thresholds policy capacity = some t) (actual available samples : Nat) :
    decide policy capacity actual available samples =
      some (choose t (policy.reclaimStepMib * mib) (samples ≥ policy.confirmSamples) capacity actual
        available) := by
  rw [decide, found, Option.bind_some, choose, mul_mib valid.reclaimStepMib]
  -- The step stays a variable: a product with a literal must not be computed.
  generalize policy.reclaimStepMib * mib = step
  obtain ⟨reserve, minLogical, hysteresis⟩ := t
  dsimp only
  by_cases small : actual < minLogical
  · rw [if_pos small, if_pos small]
  by_cases short : available < reserve
  · rw [if_neg small, if_neg small, if_pos short, if_pos short]
  by_cases high : available > satAdd reserve hysteresis ∧ samples ≥ policy.confirmSamples
  · rw [if_neg small, if_neg small, if_neg short, if_neg short, if_pos high, if_pos high,
      Option.map_some]
  · rw [if_neg small, if_neg small, if_neg short, if_neg short, if_neg high, if_neg high]

/-- The thresholds are capped by the capacity, and what is decided is decided from them. -/
theorem thresholds_le {policy : PolicyConfig} {capacity : Nat} {t : Thresholds}
    (found : thresholds policy capacity = some t) : t.reserve ≤ capacity ∧ t.minLogical ≤ capacity := by
  rw [thresholds] at found
  simp only [Option.bind_eq_bind, Option.bind_eq_some_iff, Option.pure_def, Option.some.injEq] at found
  obtain ⟨_, -, _, -, _, -, _, -, _, -, rfl⟩ := found
  exact ⟨Nat.min_le_right _ _, Nat.min_le_right _ _⟩

theorem decide_chosen {policy : PolicyConfig} {capacity actual available samples : Nat} {d : Decision}
    (decided : decide policy capacity actual available samples = some (some d)) :
    ∃ t reclaimStep, thresholds policy capacity = some t ∧
      choose t reclaimStep (samples ≥ policy.confirmSamples) capacity actual available = some d := by
  rw [decide, Option.bind_eq_some_iff] at decided
  obtain ⟨⟨reserve, minLogical, hysteresis⟩, found, decided⟩ := decided
  dsimp only at decided
  by_cases small : actual < minLogical
  · rw [if_pos small] at decided
    refine ⟨_, 0, found, ?_⟩
    rw [choose, if_pos small]
    exact Option.some.inj decided
  by_cases short : available < reserve
  · rw [if_neg small, if_pos short] at decided
    refine ⟨_, 0, found, ?_⟩
    rw [choose, if_neg small, if_pos short]
    exact Option.some.inj decided
  by_cases high : available > satAdd reserve hysteresis ∧ samples ≥ policy.confirmSamples
  · rw [if_neg small, if_neg short, if_pos high, Option.map_eq_some_iff] at decided
    obtain ⟨reclaimStep, -, decided⟩ := decided
    refine ⟨_, reclaimStep, found, ?_⟩
    rw [choose, if_neg small, if_neg short, if_pos high]
    exact decided
  · rw [if_neg small, if_neg short, if_neg high] at decided
    cases decided

/-! ## What one decision does -/

section Decisions

variable {t : Thresholds} {reclaimStep capacity actual available : Nat} {confirmed : Prop}
  [Decidable confirmed] {d : Decision}

/-- A decision gives back up to the least size or to the upper mark, or it reclaims from above the
upper mark. -/
theorem choose_cases (chosen : choose t reclaimStep confirmed capacity actual available = some d) :
    (d.action = .return ∧ actual < t.minLogical ∧ d.target = t.minLogical) ∨
    (d.action = .return ∧ t.minLogical ≤ actual ∧ available < t.reserve ∧ actual < d.target ∧
      d.target = min (satAdd actual (satAdd t.reserve t.hysteresis - available)) capacity) ∨
    (d.action = .reclaim ∧ t.minLogical ≤ actual ∧ t.reserve ≤ available ∧
      satAdd t.reserve t.hysteresis < available ∧ d.target < actual ∧
      d.target = max (actual - min reclaimStep (available - t.reserve)) t.minLogical) := by
  rw [choose] at chosen
  split at chosen
  · rename_i small
    cases chosen
    exact .inl ⟨rfl, small, rfl⟩
  rename_i large
  split at chosen
  · rename_i short
    dsimp only at chosen
    split at chosen
    · rename_i above
      cases chosen
      exact .inr (.inl ⟨rfl, Nat.not_lt.mp large, short, above, rfl⟩)
    · cases chosen
  rename_i enough
  split at chosen
  · rename_i high
    dsimp only at chosen
    split at chosen
    · rename_i below
      cases chosen
      exact .inr (.inr ⟨rfl, Nat.not_lt.mp large, Nat.not_lt.mp enough, high.1, below, rfl⟩)
    · cases chosen
  · cases chosen

theorem choose_confirmed (reclaims : d.action = .reclaim)
    (chosen : choose t reclaimStep confirmed capacity actual available = some d) : confirmed := by
  rw [choose] at chosen
  split at chosen
  · cases chosen
    cases reclaims
  split at chosen
  · dsimp only at chosen
    split at chosen
    · cases chosen
      cases reclaims
    · cases chosen
  split at chosen
  · rename_i high
    exact high.2
  · cases chosen

theorem choose_return (floor : t.minLogical ≤ capacity) (returns : d.action = .return)
    (chosen : choose t reclaimStep confirmed capacity actual available = some d) :
    actual < d.target ∧ d.target ≤ capacity := by
  rcases choose_cases chosen with ⟨-, small, eq⟩ | ⟨-, -, -, above, eq⟩ | ⟨other, -⟩
  · rw [eq]
    exact ⟨small, floor⟩
  · exact ⟨above, eq ▸ Nat.min_le_right _ _⟩
  · rw [returns] at other
    cases other

theorem choose_reclaim (reclaims : d.action = .reclaim)
    (chosen : choose t reclaimStep confirmed capacity actual available = some d) :
    t.minLogical ≤ d.target ∧ d.target < actual ∧ actual - d.target ≤ reclaimStep ∧
      actual - d.target ≤ available - t.reserve ∧ t.reserve ≤ available := by
  rcases choose_cases chosen with ⟨other, -⟩ | ⟨other, -⟩ | ⟨-, -, enough, -, below, eq⟩
  · rw [reclaims] at other
    cases other
  · rw [reclaims] at other
    cases other
  · omega

end Decisions

/-! ## The closed loop

A guest that uses a constant amount of memory has `actual - usage` available, and every command is
carried out in full. -/

section Loop

variable (t : Thresholds) (reclaimStep : Nat) (confirmed : Prop) [Decidable confirmed]
  (capacity usage : Nat)

def chosen (actual : Nat) : Option Decision :=
  choose t reclaimStep confirmed capacity actual (actual - usage)

def next (actual : Nat) : Nat := ((chosen t reclaimStep confirmed capacity usage actual).map Decision.target).getD actual

/-- The guest has what it uses, within the capacity. -/
def Running (actual : Nat) : Prop := usage ≤ actual ∧ actual ≤ capacity

/-- Nothing has to be given back. -/
def Calm (actual : Nat) : Prop := t.minLogical ≤ actual ∧ t.reserve ≤ actual - usage

/-- Nothing can be taken. -/
def Sated (actual : Nat) : Prop :=
  actual ≤ t.minLogical ∨ actual - usage ≤ satAdd t.reserve t.hysteresis

variable {t reclaimStep confirmed capacity usage} {actual : Nat}

theorem next_of_none (rests : chosen t reclaimStep confirmed capacity usage actual = none) :
    next t reclaimStep confirmed capacity usage actual = actual := by
  rw [next, rests]
  rfl

theorem next_of_some {d : Decision}
    (decided : chosen t reclaimStep confirmed capacity usage actual = some d) :
    next t reclaimStep confirmed capacity usage actual = d.target := by
  rw [next, decided]
  rfl

theorem calm_of_reclaim {d : Decision} (running : Running capacity usage actual)
    (decided : chosen t reclaimStep confirmed capacity usage actual = some d)
    (reclaims : d.action = .reclaim) : Calm t usage d.target := by
  obtain ⟨floor, -, -, kept, enough⟩ := choose_reclaim reclaims decided
  refine ⟨floor, ?_⟩
  rw [Running] at running
  omega

theorem sated_of_return {d : Decision} (running : Running capacity usage actual)
    (sized : capacity ≤ u64Max)
    (decided : chosen t reclaimStep confirmed capacity usage actual = some d)
    (returns : d.action = .return) : Sated t usage d.target := by
  rw [Running] at running
  rcases choose_cases decided with ⟨-, -, eq⟩ | ⟨-, -, short, -, eq⟩ | ⟨other, -⟩
  · exact .inl (Nat.le_of_eq eq)
  · right
    rw [eq]
    simp only [satAdd, u64Max] at *
    omega
  · rw [returns] at other
    cases other

theorem Calm.not_return {d : Decision} (calm : Calm t usage actual)
    (decided : chosen t reclaimStep confirmed capacity usage actual = some d) :
    d.action = .reclaim := by
  rw [Calm] at calm
  rcases choose_cases decided with ⟨-, small, -⟩ | ⟨-, -, short, -⟩ | ⟨reclaims, -⟩
  · omega
  · omega
  · exact reclaims

theorem Sated.not_reclaim {d : Decision} (sated : Sated t usage actual)
    (decided : chosen t reclaimStep confirmed capacity usage actual = some d) :
    d.action = .return := by
  rw [Sated] at sated
  rcases choose_cases decided with ⟨returns, -⟩ | ⟨returns, -⟩ | ⟨-, large, -, high, below, eq⟩
  · exact returns
  · exact returns
  · omega

theorem Running.next (running : Running capacity usage actual) (floor : t.minLogical ≤ capacity) :
    Running capacity usage (next t reclaimStep confirmed capacity usage actual) := by
  cases decided : chosen t reclaimStep confirmed capacity usage actual with
  | none => rwa [next_of_none decided]
  | some d =>
    rw [next_of_some decided]
    cases action : d.action with
    | «return» =>
      have := choose_return floor action decided
      rw [Running] at running ⊢
      omega
    | reclaim =>
      have := choose_reclaim action decided
      rw [Running] at running ⊢
      omega

theorem Calm.next (running : Running capacity usage actual) (calm : Calm t usage actual) :
    Calm t usage (next t reclaimStep confirmed capacity usage actual) := by
  cases decided : chosen t reclaimStep confirmed capacity usage actual with
  | none => rwa [next_of_none decided]
  | some d =>
    rw [next_of_some decided]
    exact calm_of_reclaim running decided (calm.not_return decided)

theorem Sated.next (running : Running capacity usage actual) (sized : capacity ≤ u64Max)
    (sated : Sated t usage actual) :
    Sated t usage (next t reclaimStep confirmed capacity usage actual) := by
  cases decided : chosen t reclaimStep confirmed capacity usage actual with
  | none => rwa [next_of_none decided]
  | some d =>
    rw [next_of_some decided]
    exact sated_of_return running sized decided (sated.not_reclaim decided)

/-- What falls with every command: the phase while memory is given back, and after that the
memory itself. -/
def distance (t : Thresholds) (capacity usage actual : Nat) : Nat :=
  if actual < t.minLogical then capacity + 2
  else if actual - usage < t.reserve ∧ actual < capacity then capacity + 1
  else actual

theorem distance_of_not_short (large : t.minLogical ≤ actual)
    (fine : capacity ≤ actual ∨ t.reserve ≤ actual - usage) :
    distance t capacity usage actual = actual := by
  rw [distance, if_neg (Nat.not_lt.mpr large), if_neg]
  omega

theorem distance_of_short (large : t.minLogical ≤ actual) (short : actual - usage < t.reserve)
    (below : actual < capacity) : distance t capacity usage actual = capacity + 1 := by
  rw [distance, if_neg (Nat.not_lt.mpr large), if_pos ⟨short, below⟩]

theorem distance_le (large : t.minLogical ≤ actual) (fits : actual ≤ capacity) :
    distance t capacity usage actual ≤ capacity + 1 := by
  rw [distance, if_neg (Nat.not_lt.mpr large)]
  split <;> omega

theorem distance_falls (running : Running capacity usage actual) (floor : t.minLogical ≤ capacity)
    (reserved : t.reserve ≤ capacity) (sized : capacity ≤ u64Max)
    (moves : chosen t reclaimStep confirmed capacity usage actual ≠ none) :
    distance t capacity usage (next t reclaimStep confirmed capacity usage actual) <
      distance t capacity usage actual := by
  obtain ⟨d, decided⟩ := Option.ne_none_iff_exists'.mp moves
  rw [next_of_some decided]
  rw [Running] at running
  rcases choose_cases decided with ⟨-, small, eq⟩ | ⟨-, large, short, above, eq⟩ |
    ⟨reclaims, large, enough, -⟩
  · rw [eq]
    refine Nat.lt_of_le_of_lt (distance_le (Nat.le_refl _) floor) ?_
    rw [distance, if_pos small]
    omega
  · have reached : capacity ≤ d.target ∨ t.reserve ≤ d.target - usage := by
      simp only [satAdd, u64Max] at eq sized
      omega
    have fits : d.target ≤ capacity := eq ▸ Nat.min_le_right _ _
    rw [distance_of_not_short (by omega) reached, distance_of_short large short (by omega)]
    omega
  · have calm := calm_of_reclaim running decided reclaims
    rw [distance_of_not_short calm.1 (.inr calm.2), distance_of_not_short large (.inr enough)]
    exact (choose_reclaim reclaims decided).2.1

theorem settles (running : Running capacity usage actual) (floor : t.minLogical ≤ capacity)
    (reserved : t.reserve ≤ capacity) (sized : capacity ≤ u64Max) :
    ∃ n, chosen t reclaimStep confirmed capacity usage
      ((next t reclaimStep confirmed capacity usage)^[n] actual) = none :=
  Runs.reaches_of_measure (distance t capacity usage) (fun _ runs => runs.next floor)
    (fun _ runs moves => distance_falls runs floor reserved sized moves) running

theorem one_direction (running : Running capacity usage actual) (floor : t.minLogical ≤ capacity)
    (sized : capacity ≤ u64Max) {i j : Nat} (later : i < j) {d d' : Decision}
    (first : chosen t reclaimStep confirmed capacity usage
      ((next t reclaimStep confirmed capacity usage)^[i] actual) = some d)
    (second : chosen t reclaimStep confirmed capacity usage
      ((next t reclaimStep confirmed capacity usage)^[j] actual) = some d') :
    d'.action = d.action := by
  have kept : ∀ a, Running capacity usage a →
      Running capacity usage (next t reclaimStep confirmed capacity usage a) :=
    fun _ runs => runs.next floor
  have then_ : (next t reclaimStep confirmed capacity usage)^[i + 1] actual = d.target := by
    rw [Function.iterate_succ_apply', next_of_some first]
  have runs := Runs.invariant_iterate kept running i
  cases action : d.action with
  | reclaim =>
    refine Calm.not_return ?_ second
    exact Runs.iterate_of_le kept (fun _ => Calm.next) running later
      (then_ ▸ calm_of_reclaim runs first action)
  | «return» =>
    refine Sated.not_reclaim ?_ second
    have stays : ∀ a, Running capacity usage a → Sated t usage a →
        Sated t usage (next t reclaimStep confirmed capacity usage a) :=
      fun _ runs sated => sated.next runs sized
    exact Runs.iterate_of_le kept stays running later
      (then_ ▸ sated_of_return runs sized first action)

end Loop

/-- The next command for a guest with constant usage. -/
def loopDecision (policy : PolicyConfig) (capacity usage samples actual : Nat) : Option Decision :=
  (decide policy capacity actual (actual - usage) samples).getD none

/-- Its memory after that command. -/
def loopStep (policy : PolicyConfig) (capacity usage samples actual : Nat) : Nat :=
  ((loopDecision policy capacity usage samples actual).map Decision.target).getD actual

section Policy

variable {policy : PolicyConfig} {capacity : Nat} {t : Thresholds}

theorem loopDecision_eq (valid : Valid policy) (found : thresholds policy capacity = some t)
    (usage samples actual : Nat) :
    loopDecision policy capacity usage samples actual =
      chosen t (policy.reclaimStepMib * mib) (samples ≥ policy.confirmSamples) capacity usage
        actual := by
  rw [loopDecision, decide_eq valid found, Option.getD_some, chosen]

theorem loopStep_eq (valid : Valid policy) (found : thresholds policy capacity = some t)
    (usage samples : Nat) :
    loopStep policy capacity usage samples =
      next t (policy.reclaimStepMib * mib) (samples ≥ policy.confirmSamples) capacity usage := by
  funext actual
  rw [loopStep, loopDecision_eq valid found, next]

end Policy

/-- A validated policy is stable. Its decisions do not overflow and keep to the bounds; for a guest
with constant usage they come to rest, and they never change direction. -/
theorem decide_stable {policy : PolicyConfig} {location : String}
    (ok : policy.validate location = .ok ()) {capacity actual : Nat} (sized : capacity ≤ u64Max)
    (fits : actual ≤ capacity) (available samples : Nat) :
    ∃ t decision, thresholds policy capacity = some t ∧
      decide policy capacity actual available samples = some decision ∧
      (∀ d ∈ decision, d.action = .return → actual < d.target ∧ d.target ≤ capacity) ∧
      (∀ d ∈ decision, d.action = .reclaim →
        t.minLogical ≤ d.target ∧ d.target < actual ∧
        actual - d.target ≤ policy.reclaimStepMib * mib ∧
        t.reserve ≤ available - (actual - d.target)) ∧
      ∀ usage ≤ actual,
        (∃ n, decide policy capacity ((loopStep policy capacity usage samples)^[n] actual)
          ((loopStep policy capacity usage samples)^[n] actual - usage) samples = some none) ∧
        ∀ i j, i < j →
          ∀ d ∈ loopDecision policy capacity usage samples
            ((loopStep policy capacity usage samples)^[i] actual),
          ∀ d' ∈ loopDecision policy capacity usage samples
            ((loopStep policy capacity usage samples)^[j] actual),
          d.action = d'.action := by
  have valid := valid_of_validate ok
  obtain ⟨t, found, reserved, floor⟩ := thresholds_eq valid sized
  refine ⟨t, _, found, decide_eq valid found actual available samples, ?_, ?_, ?_⟩
  · intro d mem returns
    exact choose_return floor returns mem
  · intro d mem reclaims
    obtain ⟨least, below, step, kept, enough⟩ := choose_reclaim reclaims mem
    exact ⟨least, below, step, by omega⟩
  · intro usage used
    have running : Running capacity usage actual := ⟨used, fits⟩
    rw [loopStep_eq valid found]
    constructor
    · have rest : ∃ n, chosen t (policy.reclaimStepMib * mib) (samples ≥ policy.confirmSamples)
          capacity usage ((next t (policy.reclaimStepMib * mib) (samples ≥ policy.confirmSamples)
            capacity usage)^[n] actual) = none := settles running floor reserved sized
      refine rest.imp ?_
      intro n rests
      rw [decide_eq valid found]
      exact congrArg some rests
    · intro i j later d first d' second
      rw [loopDecision_eq valid found] at first second
      exact (one_direction running floor sized later first second).symm

/-- The default policy on a VM of 8 GiB with 7 GiB available. -/
theorem decide_stable_default :
    (∃ t decision, thresholds {} (8192 * mib) = some t ∧
      decide {} (8192 * mib) (8192 * mib) (7168 * mib) 3 = some decision ∧
      (∀ d ∈ decision, d.action = .return → 8192 * mib < d.target ∧ d.target ≤ 8192 * mib) ∧
      (∀ d ∈ decision, d.action = .reclaim →
        t.minLogical ≤ d.target ∧ d.target < 8192 * mib ∧
        8192 * mib - d.target ≤ 512 * mib ∧
        t.reserve ≤ 7168 * mib - (8192 * mib - d.target))) ∧
      decide {} (8192 * mib) (8192 * mib) (7168 * mib) 3 =
        some (some ⟨.reclaim, 7680 * mib, 2048 * mib, 2048 * mib⟩) := by
  refine ⟨?_, by decide +kernel⟩
  obtain ⟨t, decision, found, decided, returns, reclaims, -⟩ :=
    @decide_stable {} "defaults" (by decide +kernel) (8192 * mib) (8192 * mib) (by decide +kernel) (Nat.le_refl _)
      (7168 * mib) 3
  exact ⟨t, decision, found, decided, returns, reclaims⟩

end Collei.Balloon

import Mathlib

/-!
# Finite runs of a transition function

A deterministic system is a function from a state and an action to the next
state. Choices the system does not control (a fault, a scheduler, a crash) are
part of the action, so one list of actions determines one run.

`Along` states a property of every step of a run. The two rules at the end turn
a step lemma into a run lemma: an invariant kept by every admissible step holds
at the end of an admissible run, and whatever the invariant and admissibility
give at one step then holds at every step.
-/

namespace Runs

universe u v

variable {State : Type u} {Action : Type v}

/-- The state reached after a finite list of actions. -/
def run (step : State → Action → State) (start : State) (acts : List Action) : State :=
  acts.foldl step start

/-- The property holds of each action together with the state it is taken in. -/
def Along (step : State → Action → State) (P : State → Action → Prop) :
    State → List Action → Prop
  | _, [] => True
  | s, act :: rest => P s act ∧ Along step P (step s act) rest

instance Along.decidable (step : State → Action → State) (P : State → Action → Prop)
    [∀ s act, Decidable (P s act)] :
    (start : State) → (acts : List Action) → Decidable (Along step P start acts)
  | _, [] => isTrue trivial
  | s, act :: rest =>
    match Along.decidable step P (step s act) rest with
    | isTrue later => decidable_of_iff (P s act) ⟨fun now => ⟨now, later⟩, And.left⟩
    | isFalse never => isFalse fun both => never both.2

variable {step : State → Action → State}

@[simp] theorem run_nil (start : State) : run step start [] = start := rfl

@[simp] theorem run_cons (start : State) (act : Action) (rest : List Action) :
    run step start (act :: rest) = run step (step start act) rest := rfl

theorem run_append (start : State) (first second : List Action) :
    run step start (first ++ second) = run step (run step start first) second := by
  simp [run]

theorem along_true (start : State) (acts : List Action) :
    Along step (fun _ _ => True) start acts := by
  induction acts generalizing start with
  | nil => trivial
  | cons act rest ih => exact ⟨trivial, ih _⟩

variable {P : State → Action → Prop} {start : State} {acts : List Action}

/-- What holds along a run holds at each of its actions. -/
theorem Along.getElem (along : Along step P start acts) {n : Nat} (inside : n < acts.length) :
    P (run step start (acts.take n)) acts[n] := by
  induction acts generalizing start n with
  | nil => exact absurd inside (Nat.not_lt_zero n)
  | cons act rest ih =>
    cases n with
    | zero => exact along.1
    | succ n => exact ih along.2 (Nat.lt_of_succ_lt_succ inside)

/-- A property of every action of a run in the state it is taken in holds along the run. -/
theorem along_of_splits
    (each : ∀ first act rest, acts = first ++ act :: rest → P (run step start first) act) :
    Along step P start acts := by
  induction acts generalizing start with
  | nil => trivial
  | cons act rest ih =>
    refine ⟨each [] act rest rfl, ih fun first act' rest' split => ?_⟩
    exact each (act :: first) act' rest' (congrArg (act :: ·) split)

/-- Properties that agree at every step agree along every run. -/
theorem along_congr {Q : State → Action → Prop} (same : ∀ s act, P s act ↔ Q s act) (start : State)
    (acts : List Action) : Along step P start acts ↔ Along step Q start acts := by
  induction acts generalizing start with
  | nil => exact Iff.rfl
  | cons act rest ih => exact and_congr (same start act) (ih _)

/-- A property of the actions alone holds along a run when every action has it. -/
theorem along_actions {P : Action → Prop} (start : State) (acts : List Action) :
    Along step (fun _ act => P act) start acts ↔ ∀ act ∈ acts, P act := by
  induction acts generalizing start with
  | nil => exact iff_of_true trivial fun _ mem => absurd mem List.not_mem_nil
  | cons act rest ih =>
    rw [List.forall_mem_cons]
    exact and_congr Iff.rfl (ih _)

/-- An invariant kept by each admissible step holds after an admissible run. -/
theorem invariant_run {Inv : State → Prop} {Ok : State → Action → Prop}
    (kept : ∀ s act, Inv s → Ok s act → Inv (step s act))
    {start : State} {acts : List Action} (holds : Inv start)
    (legal : Along step Ok start acts) : Inv (run step start acts) := by
  induction acts generalizing start with
  | nil => exact holds
  | cons act rest ih => exact ih (kept start act holds legal.1) legal.2

/-- What the invariant and admissibility give at one step holds along an admissible run. -/
theorem along_of_invariant {Inv : State → Prop} {Ok : State → Action → Prop}
    (kept : ∀ s act, Inv s → Ok s act → Inv (step s act))
    (gives : ∀ s act, Inv s → Ok s act → P s act) (holds : Inv start)
    (legal : Along step Ok start acts) : Along step P start acts := by
  induction acts generalizing start with
  | nil => trivial
  | cons act rest ih =>
    exact ⟨gives start act holds legal.1, ih (kept start act holds legal.1) legal.2⟩

/-- When the condition is what keeps the invariant at one step, the runs that keep it throughout
are those that meet the condition throughout. -/
theorem along_kept_iff {Inv : State → Prop} {Ok : State → Action → Prop}
    (exact_step : ∀ s act, Inv s → (Inv (step s act) ↔ Ok s act)) (holds : Inv start)
    (acts : List Action) :
    Along step (fun s act => Inv (step s act)) start acts ↔ Along step Ok start acts := by
  induction acts generalizing start with
  | nil => exact Iff.rfl
  | cons act rest ih =>
    constructor
    · rintro ⟨now, later⟩
      exact ⟨(exact_step start act holds).mp now, (ih now).mp later⟩
    · rintro ⟨now, later⟩
      have next := (exact_step start act holds).mpr now
      exact ⟨next, (ih next).mpr later⟩

/-! ## Accounts -/

/-- The sum of what each step of a run contributes. -/
def tally (step : State → Action → State) (amount : State → Action → Nat) : State → List Action → Nat
  | _, [] => 0
  | s, act :: rest => amount s act + tally step amount (step s act) rest

/-- Books that balance at every step balance over a run. -/
theorem balance_run {Inv : State → Prop} {Ok : State → Action → Prop} {level : State → Int}
    {gain loss : State → Action → Nat} (kept : ∀ s act, Inv s → Ok s act → Inv (step s act))
    (balanced : ∀ s act, Inv s → Ok s act → level s + gain s act = level (step s act) + loss s act)
    {start : State} {acts : List Action} (holds : Inv start) (legal : Along step Ok start acts) :
    level start + tally step gain start acts =
      level (run step start acts) + tally step loss start acts := by
  induction acts generalizing start with
  | nil => rfl
  | cons act rest ih =>
    have now := balanced start act holds legal.1
    have later := ih (kept start act holds legal.1) legal.2
    rw [tally, tally, run_cons]
    omega

/-! ## Runs without actions -/

section Iterate

variable {f : State → State} {Inv : State → Prop}

theorem invariant_iterate (kept : ∀ s, Inv s → Inv (f s)) (holds : Inv start) (n : Nat) :
    Inv (f^[n] start) := by
  induction n generalizing start with
  | zero => exact holds
  | succ n ih => exact ih (kept start holds)

/-- What holds after some iterations and is kept holds after all later ones. -/
theorem iterate_of_le {Later : State → Prop} (kept : ∀ s, Inv s → Inv (f s))
    (stays : ∀ s, Inv s → Later s → Later (f s)) (holds : Inv start) {i j : Nat} (le : i ≤ j)
    (reached : Later (f^[i] start)) : Later (f^[j] start) := by
  obtain ⟨n, rfl⟩ := Nat.exists_eq_add_of_le le
  clear le
  induction n with
  | zero => exact reached
  | succ n ih =>
    rw [← Nat.add_assoc, Function.iterate_succ_apply']
    exact stays _ (invariant_iterate kept holds _) ih

/-- A measure that falls until the goal is reached. -/
theorem reaches_of_measure {Goal : State → Prop} (measure : State → Nat)
    (kept : ∀ s, Inv s → Inv (f s)) (falls : ∀ s, Inv s → ¬ Goal s → measure (f s) < measure s)
    (holds : Inv start) : ∃ n, Goal (f^[n] start) := by
  induction h : measure start using Nat.strongRecOn generalizing start with
  | _ m ih =>
    by_cases reached : Goal start
    · exact ⟨0, reached⟩
    · obtain ⟨n, found⟩ := ih _ (h ▸ falls start holds reached) (kept start holds) rfl
      exact ⟨n + 1, found⟩

end Iterate

end Runs

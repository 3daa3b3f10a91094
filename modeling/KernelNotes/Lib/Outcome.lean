import Mathlib

/-!
# Operations that keep their state when they fail

A kernel function that returns an error code does not undo what it did. An `Op` is
such a function: it reads and writes a state and ends with a value or an error,
in the state it reached either way. `Ends` says how a run ended, and its lemmas
are the rules by which a postcondition moves through a sequence of calls.
-/

namespace Outcome

variable {σ ε δ α β τ : Type}

/-- A run from a state to a result and a state. -/
def Op (σ ε α : Type) : Type := σ → Except ε α × σ

namespace Op

instance : Monad (Op σ ε) where
  pure a := fun s => (.ok a, s)
  bind x f := fun s =>
    match x s with
    | (.ok a, s') => f a s'
    | (.error e, s') => (.error e, s')

theorem bind_ok {x : Op σ ε α} {f : α → Op σ ε β} {s s' : σ} {a : α} (ran : x s = (.ok a, s')) :
    (x >>= f) s = f a s' := by
  show (match x s with
    | (.ok a, s') => f a s'
    | (.error e, s') => (.error e, s')) = _
  rw [ran]

theorem bind_error {x : Op σ ε α} {f : α → Op σ ε β} {s s' : σ} {e : ε} (ran : x s = (.error e, s')) :
    (x >>= f) s = (.error e, s') := by
  show (match x s with
    | (.ok a, s') => f a s'
    | (.error e, s') => (.error e, s')) = _
  rw [ran]

def fail (e : ε) : Op σ ε α := fun s => (.error e, s)

def read : Op σ ε σ := fun s => (.ok s, s)

def update (f : σ → σ) : Op σ ε Unit := fun s => (.ok (), f s)

/-- Goes on unless the lower layer reported an error. -/
def check (fault : Option ε) : Op σ ε Unit :=
  match fault with
  | none => pure ()
  | some e => fail e

/-- Fails with `e` when the test is positive. -/
def refuse (test : Bool) (e : ε) : Op σ ε Unit := if test then fail e else pure ()

/-- A step that is taken under a condition. -/
def given (condition : Prop) [Decidable condition] (x : Op σ ε Unit) : Op σ ε Unit :=
  if condition then x else pure ()

/-- A result that does not depend on the state. -/
def lift (result : Except ε α) : Op σ ε α := fun s => (result, s)

/-- Clean up after an error, which is then reported. What the clean-up returns is lost. -/
def onError (x : Op σ ε α) (handler : ε → Op σ ε β) : Op σ ε α := fun s =>
  match x s with
  | (.ok a, s') => (.ok a, s')
  | (.error e, s') => (.error e, (handler e s').2)

/-- A call whose error is caught: tells whether there was one. -/
def attempt (x : Op σ ε Unit) : Op σ ε Bool := fun s =>
  match x s with
  | (.ok (), s') => (.ok false, s')
  | (.error _, s') => (.ok true, s')

/-- A call whose errors are reported in other terms. -/
def mapError (f : ε → δ) (x : Op σ ε α) : Op σ δ α := fun s =>
  match x s with
  | (.ok a, s') => (.ok a, s')
  | (.error e, s') => (.error (f e), s')

/-- A call whose value may be missing. -/
def optional (x : Op σ ε α) : Op σ δ (Option α) := fun s =>
  match x s with
  | (.ok a, s') => (.ok (some a), s')
  | (.error _, s') => (.ok none, s')

/-- One call for each element of a list, up to the first error. -/
def each (xs : List τ) (body : τ → Op σ ε Unit) : Op σ ε Unit :=
  match xs with
  | [] => pure ()
  | x :: rest => do
    body x
    each rest body

end Op

/-- Calls that succeed and change nothing. -/
theorem Op.each_same {xs : List τ} {body : τ → Op σ ε Unit} {s : σ}
    (same : ∀ x ∈ xs, body x s = (.ok (), s)) : Op.each xs body s = (.ok (), s) := by
  induction xs with
  | nil => rfl
  | cons x rest ih =>
    rw [Op.each, Op.bind_ok (same x List.mem_cons_self)]
    exact ih fun y mem => same y (List.mem_cons_of_mem x mem)

/-- The run ended with a value and a state that meet `post`, or with an error and a state
that meet `failed`. -/
def Ends (post : α → σ → Prop) (failed : ε → σ → Prop) : Except ε α × σ → Prop
  | (.ok a, s) => post a s
  | (.error e, s) => failed e s

/-- A run that is known to succeed, with the state it reached. -/
theorem eq_of_ok {run : Except ε α × σ} {a : α} (ok : run.1 = .ok a) : run = (.ok a, run.2) := by
  rw [← ok]

namespace Ends

variable {post post' : α → σ → Prop} {failed failed' : ε → σ → Prop} {s : σ}

theorem mono {run : Except ε α × σ} (ends : Ends post failed run)
    (good : ∀ a s', post a s' → post' a s') (bad : ∀ e s', failed e s' → failed' e s') :
    Ends post' failed' run := by
  obtain ⟨result, s'⟩ := run
  cases result with
  | ok a => exact good a s' ends
  | error e => exact bad e s' ends

/-- Every run ends. -/
theorem trivial (run : Except ε α × σ) : Ends (fun _ _ => True) (fun _ _ => True) run := by
  obtain ⟨result, s'⟩ := run
  cases result with
  | ok a => exact True.intro
  | error e => exact True.intro

/-- Two facts about one run. -/
theorem and {run : Except ε α × σ} (ends : Ends post failed run) (ends' : Ends post' failed' run) :
    Ends (fun a s' => post a s' ∧ post' a s') (fun e s' => failed e s' ∧ failed' e s') run := by
  obtain ⟨result, s'⟩ := run
  cases result with
  | ok a => exact ⟨ends, ends'⟩
  | error e => exact ⟨ends, ends'⟩

theorem pure {a : α} (holds : post a s) : Ends post failed ((Pure.pure a : Op σ ε α) s) := holds

theorem fail {e : ε} (holds : failed e s) : Ends post failed ((Op.fail e : Op σ ε α) s) := holds

theorem update {f : σ → σ} {post : Unit → σ → Prop} (holds : post () (f s)) :
    Ends post failed ((Op.update f : Op σ ε Unit) s) := holds

/-- The rule for a sequence: `middle` is what holds in between. -/
theorem bind (middle : α → σ → Prop) {x : Op σ ε α} {f : α → Op σ ε β} {goal : β → σ → Prop}
    (first : Ends middle failed (x s))
    (rest : ∀ a s', middle a s' → Ends goal failed (f a s')) : Ends goal failed ((x >>= f) s) := by
  show Ends goal failed (match x s with
    | (.ok a, s') => f a s'
    | (.error e, s') => (.error e, s'))
  revert first
  obtain ⟨result, s'⟩ := x s
  intro first
  cases result with
  | ok a => exact rest a s' first
  | error e => exact first

theorem check {fault : Option ε} {post : Unit → σ → Prop} (good : fault = none → post () s)
    (bad : ∀ e, fault = some e → failed e s) : Ends post failed (Op.check fault s) := by
  cases fault with
  | none => exact good rfl
  | some e => exact bad e rfl

theorem refuse {test : Bool} {e : ε} {post : Unit → σ → Prop} (good : test = false → post () s)
    (bad : test = true → failed e s) : Ends post failed (Op.refuse test e s) := by
  cases test with
  | false => exact good rfl
  | true => exact bad rfl

theorem given {condition : Prop} [Decidable condition] {x : Op σ ε Unit} {post : Unit → σ → Prop}
    (taken : condition → Ends post failed (x s)) (skipped : ¬ condition → post () s) :
    Ends post failed (Op.given condition x s) := by
  rw [Op.given]
  split
  · rename_i holds
    exact taken holds
  · rename_i fails
    exact skipped fails

theorem lift {result : Except ε α} (good : ∀ a, result = .ok a → post a s)
    (bad : ∀ e, result = .error e → failed e s) : Ends post failed (Op.lift result s) := by
  cases result with
  | ok a => exact good a rfl
  | error e => exact bad e rfl

section Sequence

variable {f : Unit → Op σ ε β} {goal : β → σ → Prop}

theorem read_bind {f : σ → Op σ ε β} (rest : Ends goal failed (f s s)) :
    Ends goal failed ((Op.read >>= f) s) := rest

theorem check_bind {fault : Option ε} (bad : ∀ e, fault = some e → failed e s)
    (rest : fault = none → Ends goal failed (f () s)) :
    Ends goal failed ((Op.check fault >>= f) s) :=
  bind (fun _ s' => fault = none ∧ s = s') (check (fun ok => ⟨ok, rfl⟩) bad)
    fun _ _ ⟨ok, same⟩ => same ▸ rest ok

theorem refuse_bind {test : Bool} {e : ε} (bad : test = true → failed e s)
    (rest : test = false → Ends goal failed (f () s)) :
    Ends goal failed ((Op.refuse test e >>= f) s) :=
  bind (fun _ s' => test = false ∧ s = s') (refuse (fun ok => ⟨ok, rfl⟩) bad)
    fun _ _ ⟨ok, same⟩ => same ▸ rest ok

end Sequence

/-- The rule for a clean-up: `middle` is what the error leaves behind. -/
theorem onError (middle : ε → σ → Prop) {x : Op σ ε α} {handler : ε → Op σ ε β}
    (first : Ends post middle (x s))
    (clean : ∀ e s', middle e s' → failed e (handler e s').2) :
    Ends post failed (Op.onError x handler s) := by
  show Ends post failed (match x s with
    | (.ok a, s') => (.ok a, s')
    | (.error e, s') => (.error e, (handler e s').2))
  revert first
  obtain ⟨result, s'⟩ := x s
  intro first
  cases result with
  | ok a => exact first
  | error e => exact clean e s' first

/-- The rule for a caught error. -/
theorem attempt {x : Op σ ε Unit} {post : Bool → σ → Prop}
    (ends : Ends (fun _ => post false) (fun _ => post true) (x s)) : Ends post failed (Op.attempt x s) := by
  rw [Op.attempt]
  revert ends
  obtain ⟨result, s'⟩ := x s
  intro ends
  cases result with
  | ok a => exact ends
  | error e => exact ends

/-- The rule for errors in other terms. -/
theorem mapError {f : ε → δ} {x : Op σ ε α} {failed : δ → σ → Prop}
    (ends : Ends post (fun e => failed (f e)) (x s)) : Ends post failed (Op.mapError f x s) := by
  rw [Op.mapError]
  revert ends
  obtain ⟨result, s'⟩ := x s
  intro ends
  cases result with
  | ok a => exact ends
  | error e => exact ends

/-- The rule for a value that may be missing. -/
theorem optional {x : Op σ ε α} {post : Option α → σ → Prop} {failed : δ → σ → Prop}
    (ends : Ends (fun a => post (some a)) (fun _ => post none) (x s)) :
    Ends post failed ((Op.optional x : Op σ δ (Option α)) s) := by
  rw [Op.optional]
  revert ends
  obtain ⟨result, s'⟩ := x s
  intro ends
  cases result with
  | ok a => exact ends
  | error e => exact ends

/-- A run that is known to succeed meets any condition on failures. -/
theorem of_ok {run : Except ε α × σ} {a : α} (ends : Ends post failed run)
    (ok : run.1 = .ok a) : Ends post failed' run := by
  obtain ⟨result, s'⟩ := run
  dsimp only at ok
  subst ok
  exact ends

/-- When success and failure meet one condition, the state does, whatever the result. -/
theorem state {inv : σ → Prop} {run : Except ε α × σ}
    (ends : Ends (fun _ => inv) (fun _ => inv) run) : inv run.2 := by
  obtain ⟨result, s'⟩ := run
  cases result with
  | ok a => exact ends
  | error e => exact ends

theorem of_state {inv : σ → Prop} {run : Except ε α × σ} (holds : inv run.2) :
    Ends (fun _ => inv) (fun _ => inv) run := by
  obtain ⟨result, s'⟩ := run
  cases result with
  | ok a => exact holds
  | error e => exact holds

end Ends

/-- The invariant is kept, however the operation ends. -/
def Keeps (inv : σ → Prop) (x : Op σ ε α) : Prop :=
  ∀ s, inv s → Ends (fun _ => inv) (fun _ => inv) (x s)

namespace Keeps

variable {inv : σ → Prop} {x : Op σ ε α} {f : α → Op σ ε β}

theorem state (keeps : Keeps inv x) {s : σ} (holds : inv s) : inv (x s).2 := (keeps s holds).state

theorem pure (a : α) : Keeps inv (Pure.pure a : Op σ ε α) := fun _ holds => holds

theorem fail (e : ε) : Keeps inv (Op.fail e : Op σ ε α) := fun _ holds => holds

theorem read : Keeps inv (Op.read : Op σ ε σ) := fun _ holds => holds

theorem lift (result : Except ε α) : Keeps inv (Op.lift result : Op σ ε α) :=
  fun _ holds => Ends.lift (fun _ _ => holds) fun _ _ => holds

theorem update {g : σ → σ} (same : ∀ s, inv s → inv (g s)) : Keeps inv (Op.update g : Op σ ε Unit) :=
  fun s holds => same s holds

theorem refuse (test : Bool) (e : ε) : Keeps inv (Op.refuse test e : Op σ ε Unit) :=
  fun _ holds => Ends.refuse (fun _ => holds) fun _ => holds

theorem check (fault : Option ε) : Keeps inv (Op.check fault : Op σ ε Unit) :=
  fun _ holds => Ends.check (fun _ => holds) fun _ _ => holds

theorem bind (first : Keeps inv x) (rest : ∀ a, Keeps inv (f a)) : Keeps inv (x >>= f) :=
  fun s holds => Ends.bind _ (first s holds) fun a s' holds' => rest a s' holds'

theorem given {condition : Prop} [Decidable condition] {y : Op σ ε Unit} (taken : Keeps inv y) :
    Keeps inv (Op.given condition y) :=
  fun s holds => Ends.given (fun _ => taken s holds) fun _ => holds

theorem onError {handler : ε → Op σ ε β} (first : Keeps inv x) (clean : ∀ e, Keeps inv (handler e)) :
    Keeps inv (Op.onError x handler) :=
  fun s holds => Ends.onError (fun _ => inv) (first s holds) fun e _ holds' => (clean e).state holds'

theorem attempt {y : Op σ ε Unit} (keeps : Keeps inv y) : Keeps inv (Op.attempt y) :=
  fun s holds => Ends.attempt (keeps s holds)

theorem mapError (f : ε → δ) (keeps : Keeps inv x) : Keeps inv (Op.mapError f x) :=
  fun s holds => Ends.mapError (keeps s holds)

theorem optional (keeps : Keeps inv x) : Keeps inv (Op.optional x : Op σ δ (Option α)) :=
  fun s holds => Ends.optional (keeps s holds)

theorem each {body : τ → Op σ ε Unit} (xs : List τ) (keeps : ∀ x ∈ xs, Keeps inv (body x)) :
    Keeps inv (Op.each xs body) := by
  induction xs with
  | nil => exact Keeps.pure ()
  | cons x rest ih =>
    rw [Op.each]
    exact Keeps.bind (keeps x List.mem_cons_self) fun _ => ih fun y mem => keeps y (List.mem_cons_of_mem x mem)

theorem ite {condition : Prop} [Decidable condition] {y : Op σ ε α} (yes : Keeps inv x)
    (no : Keeps inv y) : Keeps inv (if condition then x else y) := by
  split
  · exact yes
  · exact no

end Keeps

end Outcome

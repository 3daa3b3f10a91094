import KernelNotes.BongoCat.Steady
import KernelNotes.Lib.Run

/-!
# The loop sleeps on stale frames

Whether the loop ever sleeps on a stale frame is decided by the turns that miss
an end. An execution that does, and one that does not, follow a finite script of
steps and then sleep for good, while time goes on.
-/

namespace BongoCat

open Behaviours

/-! ## Executions that follow a script -/

section Script

variable (start : World) (acts : List Act)

/-- The loop at the end of the script. -/
def final : World := Runs.run step start acts

def scriptAct (n : Nat) : Act := acts.getD n (.rest ((final start acts).clock + n))

def scriptWorld : Nat → World
  | 0 => start
  | n + 1 => step (scriptWorld n) (scriptAct start acts n)

variable {start acts}

variable {n : Nat}

theorem scriptWorld_take (short : n ≤ acts.length) :
    scriptWorld start acts n = Runs.run step start (acts.take n) := by
  induction n with
  | zero => rfl
  | succ n ih =>
    have act : scriptAct start acts n = acts[n] := List.getD_eq_getElem acts _ short
    rw [scriptWorld, ih (Nat.le_of_succ_le short), act, List.take_add_one,
      List.getElem?_eq_getElem short, Runs.run_append]
    rfl

theorem scriptAct_rest (late : acts.length ≤ n) :
    scriptAct start acts n = .rest ((final start acts).clock + n) :=
  List.getD_eq_default _ _ late

theorem scriptWorld_final : scriptWorld start acts acts.length = final start acts := by
  rw [scriptWorld_take (Nat.le_refl _), List.take_length]
  rfl

theorem scriptWorld_rest (k : Nat) :
    scriptWorld start acts (acts.length + k + 1) =
      { final start acts with clock := (final start acts).clock + (acts.length + k) } := by
  induction k with
  | zero =>
    rw [Nat.add_zero, scriptWorld, scriptAct_rest (Nat.le_refl _), scriptWorld_final]
    rfl
  | succ k ih =>
    rw [scriptWorld, scriptAct_rest (Nat.le_add_right _ _), ← Nat.add_assoc, ih]
    rfl

theorem scriptWorld_app (late : acts.length ≤ n) :
    (scriptWorld start acts n).app = (final start acts).app ∧
      (scriptWorld start acts n).phase = (final start acts).phase ∧
      (scriptWorld start acts n).clock ≤ (final start acts).clock + n := by
  obtain ⟨k, rfl⟩ := Nat.exists_eq_add_of_le late
  cases k with
  | zero =>
    rw [Nat.add_zero, scriptWorld_final]
    exact ⟨rfl, rfl, Nat.le_add_right _ _⟩
  | succ k =>
    rw [← Nat.add_assoc, scriptWorld_rest]
    exact ⟨rfl, rfl, Nat.add_le_add_left (Nat.le_succ _) _⟩

theorem script_legal (legal : Runs.Along step Legal start acts)
    (asleep : (final start acts).phase = .asleep none) (n : Nat) :
    Legal (scriptWorld start acts n) (scriptAct start acts n) := by
  by_cases inside : n < acts.length
  · have act : scriptAct start acts n = acts[n] := List.getD_eq_getElem acts _ inside
    rw [act, scriptWorld_take (Nat.le_of_lt inside)]
    exact legal.getElem inside
  · have late := Nat.le_of_not_lt inside
    obtain ⟨-, phase, clock⟩ := @scriptWorld_app start acts n late
    rw [scriptAct_rest late]
    exact ⟨.inl (phase.trans asleep), clock⟩

end Script

def Execution.ofScript (devices : Nat) (opening : Nat → Opening) (now : Nat) (acts : List Act)
    (legal : Runs.Along step Legal (World.start devices opening now) acts)
    (asleep : (final (World.start devices opening now) acts).phase = .asleep none) : Execution where
  world := scriptWorld (World.start devices opening now) acts
  act := scriptAct (World.start devices opening now) acts
  start := ⟨devices, opening, now, rfl⟩
  legal := script_legal legal asleep
  next := fun _ => rfl

/-! ## Scripts that are fair -/

def delivers (ev : Event) : Act → Bool
  | .wake batch _ => decide (ev ∈ batch)
  | .turn _ _ | .rest _ | .fail => false

/-- Whatever the compositor owes during the script it delivers later in it. -/
structure AnsweredScript (start : World) (acts : List Act) : Prop where
  running : ∀ n, n ≤ acts.length → (Runs.run step start (acts.take n)).phase ≠ .ended
  configure : acts.any (delivers .configure) = true
  frame : ∀ n, n ≤ acts.length → (Runs.run step start (acts.take n)).app.framePending = true →
    (acts.drop n).any (delivers .frame) = true
  release : ∀ n, n ≤ acts.length → ∀ i,
    (Runs.run step start (acts.take n)).app.frames.all (fun f =>
      f.free i || (acts.drop n).any (delivers (.release f.serial i))) = true

section Fair

variable {devices : Nat} {opening : Nat → Opening} {now : Nat} {acts : List Act}
  (legal : Runs.Along step Legal (World.start devices opening now) acts)
  (asleep : (final (World.start devices opening now) acts).phase = .asleep none)

theorem ofScript_delivers {ev : Event} (later : (acts.drop n).any (delivers ev) = true) :
    ∃ m, n ≤ m ∧ (Execution.ofScript devices opening now acts legal asleep).Delivers m ev := by
  obtain ⟨act, mem, delivered⟩ := List.any_eq_true.mp later
  obtain ⟨j, inside, rfl⟩ := List.getElem_of_mem mem
  rw [List.length_drop] at inside
  rw [List.getElem_drop] at delivered
  have same : scriptAct (World.start devices opening now) acts (n + j) = acts[n + j] :=
    List.getD_eq_getElem acts _ _
  refine ⟨n + j, Nat.le_add_right n j, ?_⟩
  cases wakes : acts[n + j] with
  | wake batch at_ =>
    rw [wakes] at delivered same
    exact ⟨batch, at_, same, of_decide_eq_true delivered⟩
  | turn | rest | fail =>
    rw [wakes] at delivered
    exact absurd delivered Bool.false_ne_true

theorem exists_take (n : Nat) :
    ∃ k, k ≤ acts.length ∧ acts.drop n = acts.drop k ∧
      (scriptWorld (World.start devices opening now) acts n).app =
        (Runs.run step (World.start devices opening now) (acts.take k)).app ∧
      (scriptWorld (World.start devices opening now) acts n).phase =
        (Runs.run step (World.start devices opening now) (acts.take k)).phase := by
  by_cases inside : n ≤ acts.length
  · refine ⟨n, inside, rfl, ?_, ?_⟩
    · rw [scriptWorld_take inside]
    · rw [scriptWorld_take inside]
  · have late := Nat.le_of_not_le inside
    obtain ⟨app, phase, -⟩ := @scriptWorld_app (World.start devices opening now) acts n late
    refine ⟨acts.length, Nat.le_refl _, ?_, ?_, ?_⟩
    · rw [List.drop_eq_nil_of_le late, List.drop_length]
    · rw [app, List.take_length, final]
    · rw [phase, List.take_length, final]

theorem ofScript_fair (answered : AnsweredScript (World.start devices opening now) acts) :
    (Execution.ofScript devices opening now acts legal asleep).Fair where
  running := by
    intro n
    obtain ⟨k, short, -, -, phase⟩ := @exists_take devices opening now acts n
    exact fun ended => answered.running k short (phase.symm.trans ended)
  time := by
    intro t
    refine ⟨acts.length + t + 1, ?_⟩
    have clock := congrArg World.clock (@scriptWorld_rest (World.start devices opening now) acts t)
    exact Nat.le_trans (Nat.le_trans (Nat.le_add_left t acts.length) (Nat.le_add_left _ _)) clock.ge
  configure := by
    obtain ⟨m, -, delivered⟩ := @ofScript_delivers devices opening now acts legal asleep 0 .configure
      answered.configure
    exact ⟨m, delivered⟩
  frame := by
    intro n pending
    obtain ⟨k, short, rest, app, -⟩ := @exists_take devices opening now acts n
    have owed : (Runs.run step (World.start devices opening now) (acts.take k)).app.framePending =
        true := (congrArg App.framePending app).symm.trans pending
    refine ofScript_delivers legal asleep ?_
    rw [rest]
    exact answered.frame k short owed
  release := by
    intro n f i frames taken
    obtain ⟨k, short, rest, app, -⟩ := @exists_take devices opening now acts n
    have owed := answered.release k short i
    have same : (Runs.run step (World.start devices opening now) (acts.take k)).app.frames = some f :=
      (congrArg App.frames app).symm.trans frames
    rw [same, Option.all_some, taken, Bool.false_or, ← rest] at owed
    obtain ⟨m, later, delivered⟩ := ofScript_delivers legal asleep owed
    exact ⟨m, later, .inl delivered⟩

theorem ofScript_quiet {k : Nat} (quiet : ∀ act ∈ acts.drop k, ∀ w, Quiet w act) :
    (Execution.ofScript devices opening now acts legal asleep).QuietFrom k := by
  intro n late
  by_cases inside : n < acts.length
  · have same : scriptAct (World.start devices opening now) acts n = acts[n] :=
      List.getD_eq_getElem acts _ inside
    have mem : acts[n] ∈ acts.drop k := by
      rw [List.mem_drop_iff_getElem]
      exact ⟨n - k, by omega, by congr 1; omega⟩
    show Quiet _ (scriptAct (World.start devices opening now) acts n)
    rw [same]
    exact quiet _ mem _
  · show Quiet _ (scriptAct (World.start devices opening now) acts n)
    rw [scriptAct_rest (Nat.le_of_not_lt inside)]
    trivial

end Fair

/-- The loop never sleeps on a stale frame exactly when no turn of it misses the end of a hold or of
a frame interval between its two clock readings; a fair loop whose turns miss none shows in the end,
once no more input comes, the steady state, where a paw is down only for a key that is held. -/
theorem sleeps_fresh_iff (e : Execution) :
    ((∀ n, Fresh (e.world n)) ↔ ∀ n, ¬ MissedAt (e.world n) (e.act n)) ∧
    ((∀ n, ¬ MissedAt (e.world n) (e.act n)) → e.Fair → ∀ k, e.QuietFrom k →
      Settles fun n => (e.world n).app.shown = some (e.world n).app.pose.steady) := by
  constructor
  · exact e.fresh_iff
  · intro kept fair k quiet
    exact Execution.shown_settles fair (e.fresh_iff.mpr kept) quiet

def noDevice : Nat → Opening := fun _ => .refused

def turnAt (first second : Nat) : Act := .turn noDevice ⟨first, first, second⟩

def callback (now : Nat) : Act := .wake [.frame, .release 0 0] now

/-- One key is tapped; the next turns see its frame, the end of its hold and the frame after it. -/
def tapScript : List Act :=
  [.wake [.configure] 0, turnAt 0 0, callback 1, turnAt 1 1,
    .wake [.key 0 30 1 100000000, .key 0 30 0 100000000] 100000000, turnAt 100000000 100000000,
    callback 110000000, turnAt 110000000 110000000, .wake [] 180000000,
    turnAt 180000000 180000000, callback 190000000, turnAt 190000000 190000000]

/-- The same tap; here a turn reads the clock before and after the end of the hold. -/
def lateScript : List Act :=
  [.wake [.configure] 0, turnAt 0 0, callback 1, turnAt 1 1,
    .wake [.key 0 30 1 100000000, .key 0 30 0 100000000] 100000000, turnAt 100000000 100000000,
    callback 179999999, turnAt 179999999 180000000]

theorem tapScript_legal : Runs.Along step Legal (World.start 1 noDevice 0) tapScript := by
  decide +kernel

theorem lateScript_legal : Runs.Along step Legal (World.start 1 noDevice 0) lateScript := by
  decide +kernel

def tapRun : Execution := .ofScript 1 noDevice 0 tapScript tapScript_legal (by decide +kernel)

def lateRun : Execution := .ofScript 1 noDevice 0 lateScript lateScript_legal (by decide +kernel)

theorem tapRun_fair : tapRun.Fair :=
  ofScript_fair _ _
    ⟨by decide +kernel, by decide +kernel, by decide +kernel, by decide +kernel⟩

theorem lateRun_fair : lateRun.Fair :=
  ofScript_fair _ _
    ⟨by decide +kernel, by decide +kernel, by decide +kernel, by decide +kernel⟩

theorem callback_quiet (now : Nat) (w : World) : Quiet w (callback now) := by
  simp [callback, Quiet, Event.Compositor]

theorem turnAt_quiet (first second : Nat) (w : World) : Quiet w (turnAt first second) :=
  fun _ _ => rfl

theorem tapRun_quiet : tapRun.QuietFrom 5 := by
  refine ofScript_quiet _ _ ?_
  simp only [tapScript, List.drop_succ_cons, List.drop_zero, List.forall_mem_cons]
  exact ⟨turnAt_quiet _ _, callback_quiet _, turnAt_quiet _ _,
    fun _ => List.forall_mem_nil _, turnAt_quiet _ _, callback_quiet _, turnAt_quiet _ _,
    List.forall_mem_nil _⟩

theorem lateRun_quiet : lateRun.QuietFrom 5 := by
  refine ofScript_quiet _ _ ?_
  simp only [lateScript, List.drop_succ_cons, List.drop_zero, List.forall_mem_cons]
  exact ⟨turnAt_quiet _ _, callback_quiet _, turnAt_quiet _ _, List.forall_mem_nil _⟩

theorem ofScript_missed {devices : Nat} {opening : Nat → Opening} {now : Nat} {acts : List Act}
    (legal : Runs.Along step Legal (World.start devices opening now) acts)
    (asleep : (final (World.start devices opening now) acts).phase = .asleep none)
    (kept : Runs.Along step (fun w act => ¬ MissedAt w act) (World.start devices opening now) acts)
    (n : Nat) : ¬ MissedAt ((Execution.ofScript devices opening now acts legal asleep).world n)
      ((Execution.ofScript devices opening now acts legal asleep).act n) := by
  show ¬ MissedAt (scriptWorld _ acts n) (scriptAct _ acts n)
  by_cases inside : n < acts.length
  · have same : scriptAct (World.start devices opening now) acts n = acts[n] :=
      List.getD_eq_getElem acts _ inside
    rw [same, scriptWorld_take (Nat.le_of_lt inside)]
    exact kept.getElem inside
  · rw [scriptAct_rest (Nat.le_of_not_lt inside)]
    exact id

/-- After the tap the paw comes up again. -/
theorem tapRun_settles :
    Settles fun n => (tapRun.world n).app.shown = some (tapRun.world n).app.pose.steady :=
  (sleeps_fresh_iff tapRun).2 (ofScript_missed _ _ (by decide +kernel)) tapRun_fair 5 tapRun_quiet

/-- After the same tap the loop sleeps for good on the frame with the paw down, with every buffer
released and every frame answered. -/
theorem lateRun_stale :
    lateRun.Fair ∧ lateRun.QuietFrom 5 ∧
      (lateRun.world 8).app.framePending = false ∧
      (lateRun.world 8).app.frames.all (fun f => f.free 0 && f.free 1 && f.free 2) = true ∧
      ¬ Fresh (lateRun.world 8) ∧
      ¬ Settles fun n => (lateRun.world n).app.shown = some (lateRun.world n).app.pose.steady := by
  refine ⟨lateRun_fair, lateRun_quiet, by decide +kernel, by decide +kernel, ?_, ?_⟩
  · intro fresh
    have asleep : (lateRun.world 8).phase = .asleep none := by decide +kernel
    have ready : (lateRun.world 8).app.ready = true := by decide +kernel
    have stale : (lateRun.world 8).app.shown ≠
        some ((lateRun.world 8).app.pose.visual (lateRun.world 8).clock) := by decide +kernel
    exact stale (fresh asleep ready _ (Nat.le_refl _))
  · rintro ⟨n, settled⟩
    have late : lateScript.length ≤ max n 8 := Nat.le_max_right n 8
    have shown := settled (max n 8) (Nat.le_max_left n 8)
    have last : (lateRun.world (max n 8)).app = (final (World.start 1 noDevice 0) lateScript).app :=
      (scriptWorld_app late).1
    dsimp only at shown
    rw [last] at shown
    exact absurd shown (by decide +kernel)

end BongoCat

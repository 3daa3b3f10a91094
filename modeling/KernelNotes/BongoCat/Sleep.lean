import KernelNotes.BongoCat.App
import KernelNotes.Lib.Behaviour

/-!
# Sleeping on a stale frame

The loop may sleep without a timeout only while what is shown is what the pose
asks for. It does not always: `dirty` is computed from the first clock reading
of a turn and the timeout from the second, so a hold that runs out between the
two, or a frame interval that ends between the two, is seen by neither.
`Missed` says when this happens, and turns that miss nothing never put the loop
to sleep on a stale frame. Along a run without such turns the last frame is in
the end the steady one.
-/

namespace BongoCat

/-- Asleep without a timeout and with no compositor answer outstanding, the loop shows the visual of
the pose, now and for as long as it sleeps. -/
def Fresh (w : World) : Prop :=
  w.phase = .asleep none → w.app.ready = true →
    ∀ t, w.clock ≤ t → w.app.shown = some (w.app.pose.visual t)

/-- A hold ends after the first clock reading, of a side nothing else keeps down. -/
def HoldMissed (a : App) (c : Clocks) : Prop :=
  ∃ side, a.pose.held side = 0 ∧ a.pose.unseen side = false ∧
    ∃ u, a.pose.holdUntil side = some u ∧ c.first < u

/-- The next frame was not due at the first clock reading, and is at the second. -/
def FrameMissed (a : App) (c : Clocks) : Prop :=
  c.first < a.nextFrame ∧ a.nextFrame ≤ c.second ∧ a.shown ≠ some (a.pose.visual c.second)

/-- The turn finds no later hold to wake up for and misses one of the two ends. -/
def Missed (a : App) (c : Clocks) : Prop :=
  a.ready = true ∧ a.pose.Expired c.second ∧
    ((a.dirty c.first = false ∧ HoldMissed a c) ∨ (a.dirty c.first = true ∧ FrameMissed a c))

instance (p : Pose) (now : Nat) : Decidable (p.Expired now) :=
  decidable_of_iff _ Pose.deadline_eq_none_iff

instance (a : App) (c : Clocks) : Decidable (HoldMissed a c) :=
  decidable_of_iff
    (∃ side, a.pose.held side = 0 ∧ a.pose.unseen side = false ∧
      (a.pose.holdUntil side).any (fun u => decide (c.first < u)) = true)
    (by simp only [HoldMissed, Option.any_eq_true, decide_eq_true_iff])

instance (a : App) (c : Clocks) : Decidable (FrameMissed a c) := inferInstanceAs (Decidable (_ ∧ _))

instance (a : App) (c : Clocks) : Decidable (Missed a c) := inferInstanceAs (Decidable (_ ∧ _))

variable {a : App} {c : Clocks} {now : Nat}

theorem visual_eq_iff (expired : a.pose.Expired c.second) :
    a.pose.visual c.first = a.pose.visual c.second ↔ ¬ HoldMissed a c := by
  have keys : a.pose.visual c.first = a.pose.visual c.second ↔
      ∀ side, a.pose.current c.first side = a.pose.current c.second side := by
    rw [Pose.visual, Pose.visual, Visual.mk.injEq, and_iff_left rfl, funext_iff]
  rw [keys, Pose.current_of_expired expired]
  constructor
  · rintro same ⟨side, up, seen, u, at_, later⟩
    have down : a.pose.current c.first side = true :=
      Pose.current_apply side |>.mpr (.inr (.inr ⟨u, at_, later⟩))
    rw [same side] at down
    dsimp only at down
    rw [up, seen] at down
    exact Bool.false_ne_true down
  · intro kept side
    rw [Bool.eq_iff_iff, Pose.current_apply, Bool.or_eq_true, decide_eq_true_iff]
    constructor
    · rintro (held | unseen | ⟨u, at_, later⟩)
      · exact .inl held
      · exact .inr unseen
      · by_contra neither
        rw [not_or, Nat.not_lt, Nat.le_zero, Bool.not_eq_true] at neither
        exact kept ⟨side, neither.1, neither.2, u, at_, later⟩
    · rintro (held | unseen)
      · exact .inl held
      · exact .inr (.inl unseen)

theorem fresh_asleep_iff :
    Fresh ⟨a, now, .asleep (a.pose.deadline now)⟩ ↔
      (a.ready = true → a.pose.Expired now → a.shown = some (a.pose.visual now)) := by
  rw [Fresh]
  constructor
  · intro fresh ready expired
    have none_ := Pose.deadline_eq_none_iff.mpr expired
    exact fresh (congrArg Phase.asleep none_) ready now (Nat.le_refl _)
  · intro shows asleep ready t later
    have expired := Pose.deadline_eq_none_iff.mp (Phase.asleep.inj asleep)
    rw [shows ready expired, Pose.visual_of_expired expired later]

theorem wakeUp_of_due {dirty ready : Bool} (due : dirty = true → a.nextFrame ≤ now) :
    wakeUp a dirty ready now = a.pose.deadline now := by
  rw [wakeUp, if_neg]
  intro all
  simp only [Bool.and_eq_true, decide_eq_true_iff] at all
  exact Nat.not_lt.mpr (due all.1.1.1) all.1.2

theorem wakeUp_of_early (early : now < a.nextFrame) (ready : a.ready = true) :
    ∃ d, wakeUp a true true now = some d := by
  rw [wakeUp, (App.ready_iff.mp ready).2.1, decide_eq_true early]
  exact ⟨_, rfl⟩

theorem clean_fresh_iff (ready : a.ready = true) (clean : a.dirty c.first = false) :
    Fresh ⟨a, c.second, .asleep (wakeUp a false true c.second)⟩ ↔ ¬ Missed a c := by
  have shown : a.shown = some (a.pose.visual c.first) := by
    by_contra stale
    exact Bool.false_ne_true (clean.symm.trans (App.dirty_iff.mpr (.inr stale)))
  have due : false = true → a.nextFrame ≤ c.second := fun yes => absurd yes Bool.false_ne_true
  rw [wakeUp_of_due due, fresh_asleep_iff, Missed, shown]
  constructor
  · rintro fresh ⟨-, expired, ⟨-, missed⟩ | ⟨dirty, -⟩⟩
    · have same := Option.some_inj.mp (fresh ready expired)
      exact (visual_eq_iff expired).mp same missed
    · exact Bool.false_ne_true (clean.symm.trans dirty)
  · intro kept _ expired
    have none_ : ¬ HoldMissed a c := fun missed => kept ⟨ready, expired, .inl ⟨clean, missed⟩⟩
    rw [(visual_eq_iff expired).mpr none_]

theorem dirty_fresh_iff (ready : a.ready = true) (dirty : a.dirty c.first = true)
    (early : c.first < a.nextFrame) :
    Fresh ⟨a, c.second, .asleep (wakeUp a true true c.second)⟩ ↔ ¬ Missed a c := by
  by_cases still : c.second < a.nextFrame
  · obtain ⟨d, wakes⟩ := wakeUp_of_early still ready
    rw [wakes]
    refine iff_of_true (fun asleep => ?_) ?_
    · exact nomatch Phase.asleep.inj asleep
    · rintro ⟨-, -, ⟨clean, -⟩ | ⟨-, -, due, -⟩⟩
      · exact Bool.false_ne_true (clean.symm.trans dirty)
      · exact Nat.not_lt.mpr due still
  · have due := Nat.not_lt.mp still
    rw [wakeUp_of_due fun _ => due, fresh_asleep_iff, Missed]
    constructor
    · rintro fresh ⟨-, expired, ⟨clean, -⟩ | ⟨-, -, -, stale⟩⟩
      · exact Bool.false_ne_true (clean.symm.trans dirty)
      · exact stale (fresh ready expired)
    · intro kept _ expired
      by_contra stale
      exact kept ⟨ready, expired, .inr ⟨dirty, early, due, stale⟩⟩

theorem turn_fresh_iff {a' : App} {deadline : Option Nat}
    (turned : a.turn c = some (a', deadline)) :
    Fresh ⟨a', c.second, .asleep deadline⟩ ↔ ¬ Missed a c := by
  obtain ⟨b, result, drew | ⟨rfl, early⟩⟩ := turn_cases a c
  · obtain ⟨dirty, ready, due, presented⟩ := drew
    obtain ⟨b', presented', -, pending, -⟩ := App.present_eq ready (a.pose.visual c.first) c.present
    rw [presented, Option.some_inj] at presented'
    rw [turned, Option.some_inj, Prod.mk.injEq] at result
    subst presented'
    obtain ⟨rfl, rfl⟩ := result
    refine iff_of_true (fun _ idle => ?_) ?_
    · rw [(App.ready_iff.mp idle).2.1] at pending
      exact absurd pending Bool.false_ne_true
    · rintro ⟨-, -, ⟨clean, -⟩ | ⟨-, early, -⟩⟩
      · exact Bool.false_ne_true (clean.symm.trans dirty)
      · exact Nat.not_lt.mpr due early
  · rw [turned, Option.some_inj, Prod.mk.injEq] at result
    obtain ⟨rfl, rfl⟩ := result
    cases ready : a'.ready with
    | false =>
      refine iff_of_true (fun _ idle => ?_) (fun missed => ?_)
      · exact absurd (ready.symm.trans idle) Bool.false_ne_true
      · exact absurd (ready.symm.trans missed.1) Bool.false_ne_true
    | true =>
      cases dirty : a'.dirty c.first with
      | false => exact clean_fresh_iff ready dirty
      | true => exact dirty_fresh_iff ready dirty (early dirty ready)

/-- The step taken from this world misses an end. -/
def MissedAt (w : World) : Act → Prop
  | .turn opening c => Missed (w.scanned opening) c
  | .wake _ _ | .rest _ | .fail => False

instance (w : World) (act : Act) : Decidable (MissedAt w act) :=
  match act with
  | .turn opening c => inferInstanceAs (Decidable (Missed (w.scanned opening) c))
  | .wake _ _ | .rest _ | .fail => isFalse id

theorem step_fresh_iff {w : World} {act : Act} (fresh : Fresh w) (legal : Legal w act) :
    Fresh (step w act) ↔ ¬ MissedAt w act := by
  cases act with
  | turn opening c =>
    obtain ⟨a', turned, -⟩ := turn_cases (w.scanned opening) c
    have result : step w (.turn opening c) =
        ⟨a', c.second, .asleep (wakeUp a' ((w.scanned opening).dirty c.first)
          (w.scanned opening).ready c.second)⟩ := by
      rw [step, turned]
    rw [result]
    exact turn_fresh_iff turned
  | wake batch now =>
    refine iff_of_true (fun asleep => ?_) id
    rw [step] at asleep
    dsimp only at asleep
    split at asleep <;> cases asleep
  | rest now =>
    refine iff_of_true (fun asleep ready t later => ?_) id
    exact fresh asleep ready t (Nat.le_trans legal.2 later)
  | fail => exact iff_of_true (fun asleep => by cases asleep) id

/-- No sleep of an execution is on a stale frame exactly when none of its turns misses an end. -/
theorem Execution.fresh_iff (e : Execution) :
    (∀ n, Fresh (e.world n)) ↔ ∀ n, ¬ MissedAt (e.world n) (e.act n) := by
  constructor
  · intro fresh n
    have later := fresh (n + 1)
    rw [e.next] at later
    exact (step_fresh_iff (fresh n) (e.legal n)).mp later
  · intro kept n
    induction n with
    | zero =>
      obtain ⟨devices, opening, now, start⟩ := e.start
      rw [start]
      exact fun asleep => nomatch Phase.asleep.inj asleep
    | succ n ih =>
      rw [e.next]
      exact (step_fresh_iff ih (e.legal n)).mpr (kept n)

end BongoCat

import KernelNotes.BongoCat.Quiet
import KernelNotes.Lib.Behaviour

/-!
# The last frame is the steady one

After the last input event the pose changes only where a frame is drawn. Along a
fair execution whose turns miss no end, every press not seen yet gets its frame,
every hold then runs out, and the frame without it is drawn: the loop ends up
showing the steady state of the pose.

An execution is fair when the loop does not return, time passes every bound, the
window is configured, and every frame callback and every buffer release arrives.
-/

namespace BongoCat

open Behaviours

namespace Execution

def Delivers (e : Execution) (n : Nat) (ev : Event) : Prop :=
  ∃ batch now, e.act n = .wake batch now ∧ ev ∈ batch

/-- Buffers that are replaced are destroyed, and their release is not waited for. -/
structure Fair (e : Execution) : Prop where
  running : ∀ n, (e.world n).phase ≠ .ended
  time : ∀ t, ∃ n, t ≤ (e.world n).clock
  configure : ∃ n, e.Delivers n .configure
  frame : ∀ n, (e.world n).app.framePending = true → ∃ m, n ≤ m ∧ e.Delivers m .frame
  release : ∀ n f i, (e.world n).app.frames = some f → f.free i = false →
    ∃ m, n ≤ m ∧ (e.Delivers m (.release f.serial i) ∨
      ∃ f', (e.world m).app.frames = some f' ∧ f'.serial ≠ f.serial)

def QuietFrom (e : Execution) (k : Nat) : Prop := ∀ n, k ≤ n → Quiet (e.world n) (e.act n)

end Execution

/-! ## What an event achieves -/

variable {batch : List Event} {f : Frames} {m : Nat}

theorem batch_frame (a : App) (mem : Event.frame ∈ batch) :
    (batch.foldl App.handle a).framePending = false := by
  obtain ⟨before, after, rfl⟩ := List.append_of_mem mem
  rw [List.foldl_append, List.foldl_cons]
  exact (batch_kept _ after).pending rfl

theorem batch_configure (a : App) (mem : Event.configure ∈ batch) :
    (batch.foldl App.handle a).configured = true := by
  obtain ⟨before, after, rfl⟩ := List.append_of_mem mem
  rw [List.foldl_append, List.foldl_cons]
  exact (batch_kept _ after).configured rfl

theorem batch_release {a : App} {i : Fin 3} (frames : a.frames = some f)
    (mem : Event.release f.serial i ∈ batch) :
    ∃ f', (batch.foldl App.handle a).frames = some f' ∧ f'.free i = true := by
  obtain ⟨before, after, rfl⟩ := List.append_of_mem mem
  rw [List.foldl_append, List.foldl_cons]
  obtain ⟨f₁, frames₁, serial₁, -⟩ := (batch_kept a before).frames f frames
  have released : ((before.foldl App.handle a).handle (.release f.serial i)).frames =
      some (f₁.release f.serial i) := by
    rw [App.handle, frames₁]
    rfl
  obtain ⟨f', frames', -, free⟩ := (batch_kept _ after).frames _ released
  refine ⟨f', frames', free i ?_⟩
  rw [Frames.release, if_pos serial₁]
  exact Function.update_self _ _ _

namespace Execution

variable {e : Execution}

theorem clock_succ (e : Execution) (n : Nat) : (e.world n).clock ≤ (e.world (n + 1)).clock := by
  have legal := e.legal n
  rw [e.next]
  cases act : e.act n with
  | turn opening c =>
    rw [act] at legal
    obtain ⟨a', turned, -⟩ := turn_cases ((e.world n).scanned opening) c
    rw [step, turned]
    exact legal.2.1.trans (legal.2.2.1.trans legal.2.2.2)
  | wake batch now =>
    rw [act] at legal
    obtain ⟨deadline, -, later, -⟩ := legal
    exact later
  | rest now =>
    rw [act] at legal
    exact legal.2
  | fail => exact Nat.le_refl _

theorem clock_mono (e : Execution) {n : Nat} (late : n ≤ m) :
    (e.world n).clock ≤ (e.world m).clock :=
  kept_from (P := fun m => (e.world n).clock ≤ (e.world m).clock) (Nat.le_refl _)
    (fun m _ before => before.trans (e.clock_succ m)) m late

theorem configured_succ (e : Execution) (n : Nat) (configured : (e.world n).app.configured = true) :
    (e.world (n + 1)).app.configured = true := by
  rw [e.next]
  cases e.act n with
  | turn opening c =>
    have scanned := (scanned_kept (e.world n) opening).configured configured
    obtain ⟨a', turned, drew | ⟨rfl, -⟩⟩ := turn_cases ((e.world n).scanned opening) c
    · obtain ⟨b, presented, -, -, -, -, -, same⟩ := App.present_eq drew.2.1
        (((e.world n).scanned opening).pose.visual c.first) c.present
      rw [drew.2.2.2, Option.some_inj] at presented
      subst presented
      rw [step, turned]
      exact same.trans scanned
    · rw [step, turned]
      exact scanned
  | wake batch now => exact (batch_kept _ batch).configured configured
  | rest | fail => exact configured

theorem configured_mono (e : Execution) {n : Nat} (late : n ≤ m)
    (configured : (e.world n).app.configured = true) : (e.world m).app.configured = true :=
  kept_from (P := fun m => (e.world m).app.configured = true) configured
    (fun m _ before => e.configured_succ m before) m late

theorem succ_of_wake {n : Nat} {now : Nat} (act : e.act n = .wake batch now) :
    (e.world (n + 1)).app = batch.foldl App.handle (e.world n).app := by
  rw [e.next, act]
  rfl

/-- At the top the loop takes a turn, and an event or a timeout brings it from a sleep to the top. -/
theorem phase_succ (fair : e.Fair) (n : Nat) :
    ((e.world n).phase = .top ∧ ∃ opening c, e.act n = .turn opening c) ∨
      ((∃ batch now, e.act n = .wake batch now) ∧ (e.world (n + 1)).phase = .top) ∨
      ∃ now, e.act n = .rest now := by
  have legal := e.legal n
  have running := fair.running (n + 1)
  rw [e.next] at running ⊢
  cases act : e.act n with
  | turn opening c =>
    rw [act] at legal
    exact .inl ⟨legal.1, opening, c, rfl⟩
  | wake batch now =>
    refine .inr (.inl ⟨⟨batch, now, rfl⟩, ?_⟩)
    rw [act, step] at running
    dsimp only at running
    rw [step]
    dsimp only
    split
    · next exit =>
        rw [if_pos exit] at running
        exact absurd rfl running
    · rfl
  | rest now => exact .inr (.inr ⟨now, rfl⟩)
  | fail =>
    rw [act] at running
    exact absurd rfl running

/-! ## A stale frame is drawn anew -/

section Progress

variable {k n : Nat}

def DrawsAt (e : Execution) (n : Nat) : Prop := Draws (e.world n) (e.world (n + 1))

theorem quiet_succ (quiet : e.QuietFrom k) (late : k ≤ n) :
    e.DrawsAt n ∨ (Kept (e.world n).app (e.world (n + 1)).app ∧
      (e.world (n + 1)).app.pose = (e.world n).app.pose) := by
  rw [DrawsAt, e.next]
  exact quiet_cases (e.legal n) (quiet n late)

theorem undrawn (quiet : e.QuietFrom k) (late : k ≤ n) (later : n ≤ m)
    (none_ : ∀ j, n ≤ j → j < m → ¬ e.DrawsAt j) :
    Kept (e.world n).app (e.world m).app ∧ (e.world m).app.pose = (e.world n).app.pose := by
  induction m, later using Nat.le_induction with
  | base => exact ⟨Kept.refl _, rfl⟩
  | succ m later ih =>
    obtain ⟨kept, pose⟩ := ih fun j from_ before => none_ j from_ (Nat.lt_succ_of_lt before)
    rcases quiet_succ quiet (late.trans later) with draws | ⟨kept', pose'⟩
    · exact absurd draws (none_ m later (Nat.lt_succ_self m))
    · exact ⟨kept.trans kept', pose'.trans pose⟩

/-- From a time on nothing is drawn although what is shown is stale. -/
structure Stuck (e : Execution) (n : Nat) : Prop where
  kept : ∀ m m', n ≤ m → m ≤ m' → Kept (e.world m).app (e.world m').app
  undrawn : ∀ m, n ≤ m → ¬ e.DrawsAt m
  stale : ∀ m, n ≤ m → ∀ t, (e.world m).clock ≤ t →
    (e.world m).app.shown ≠ some ((e.world m).app.pose.visual t)

theorem exists_wake_of_pending (fair : e.Fair) (pending : (e.world n).app.framePending = true) :
    ∃ m, n ≤ m ∧ ∃ batch now, e.act m = .wake batch now := by
  obtain ⟨m, later, batch, now, act, -⟩ := fair.frame n pending
  exact ⟨m, later, batch, now, act⟩

theorem exists_wake_of_unconfigured (fair : e.Fair)
    (unconfigured : (e.world n).app.configured = false) :
    ∃ m, n ≤ m ∧ ∃ batch now, e.act m = .wake batch now := by
  obtain ⟨m, batch, now, act, mem⟩ := fair.configure
  refine ⟨m, Nat.le_of_not_lt fun before => ?_, batch, now, act⟩
  have configured : (e.world (m + 1)).app.configured = true := by
    rw [succ_of_wake act]
    exact batch_configure _ mem
  rw [e.configured_mono before configured] at unconfigured
  exact Bool.false_ne_true unconfigured.symm

theorem exists_wake_of_unavailable (fair : e.Fair) (frames : (e.world n).app.frames = some f)
    (unavailable : f.available = false)
    (same : ∀ m, n ≤ m → ∃ f', (e.world m).app.frames = some f' ∧ f'.serial = f.serial) :
    ∃ m, n ≤ m ∧ ∃ batch now, e.act m = .wake batch now ∧
      ∃ f', (e.world (m + 1)).app.frames = some f' ∧ f'.available = true := by
  have taken : f.free 0 = false := by
    rw [Frames.available, Bool.or_eq_false_iff, Bool.or_eq_false_iff] at unavailable
    exact unavailable.1.1
  obtain ⟨m, later, ⟨batch, now, act, mem⟩ | ⟨f', frames', other⟩⟩ := fair.release n f 0 frames taken
  · obtain ⟨f₁, frames₁, serial₁⟩ := same m later
    rw [← serial₁] at mem
    obtain ⟨f', frames', free⟩ := batch_release frames₁ mem
    refine ⟨m, later, batch, now, act, f', ?_, ?_⟩
    · rw [succ_of_wake act, frames']
    · rw [Frames.available, free, Bool.true_or, Bool.true_or]
  · obtain ⟨f₁, frames₁, serial₁⟩ := same m later
    rw [frames', Option.some_inj] at frames₁
    subst frames₁
    exact absurd serial₁ other

namespace Stuck

theorem same_frames (stuck : e.Stuck n) (later : n ≤ m) (frames : (e.world m).app.frames = some f) :
    ∀ m', m ≤ m' → ∃ f', (e.world m').app.frames = some f' ∧ f'.serial = f.serial := by
  intro m' after
  obtain ⟨f', frames', serial, -⟩ := (stuck.kept m m' later after).frames f frames
  exact ⟨f', frames', serial⟩

theorem exists_wake (stuck : e.Stuck n) (fair : e.Fair) (later : n ≤ m)
    (waits : (e.world m).app.ready ≠ true) :
    ∃ m', m ≤ m' ∧ ∃ batch now, e.act m' = .wake batch now := by
  cases configured : (e.world m).app.configured with
  | false => exact exists_wake_of_unconfigured fair configured
  | true =>
  cases pending : (e.world m).app.framePending with
  | true => exact exists_wake_of_pending fair pending
  | false =>
  rcases (e.sane m).drawn with rebuild | ⟨f, frames⟩
  · exact absurd (App.ready_iff.mpr ⟨configured, pending, .inl rebuild⟩) waits
  cases available : f.available with
  | true => exact absurd (App.ready_iff.mpr ⟨configured, pending, .inr ⟨f, frames, available⟩⟩) waits
  | false =>
    obtain ⟨m', after, batch, now, act, -⟩ :=
      exists_wake_of_unavailable fair frames available (stuck.same_frames later frames)
    exact ⟨m', after, batch, now, act⟩

theorem exists_top (stuck : e.Stuck n) (fair : e.Fair) (fresh : ∀ n, Fresh (e.world n))
    (later : n ≤ m) : ∃ m', m ≤ m' ∧ (e.world m').phase = .top := by
  by_contra never
  have rests : ∀ m', m ≤ m' → ∃ now, e.act m' = .rest now := by
    intro m' after
    rcases phase_succ fair m' with ⟨top, -⟩ | ⟨-, top⟩ | rests
    · exact absurd ⟨m', after, top⟩ never
    · exact absurd ⟨m' + 1, Nat.le_succ_of_le after, top⟩ never
    · exact rests
  obtain ⟨now, act⟩ := rests m (Nat.le_refl m)
  have legal := e.legal m
  rw [act] at legal
  have asleep := legal.1.resolve_right (fair.running m)
  by_cases ready : (e.world m).app.ready = true
  · exact stuck.stale m later _ (Nat.le_refl _) (fresh m asleep ready _ (Nat.le_refl _))
  · obtain ⟨m', after, batch, now, wakes⟩ := stuck.exists_wake fair later ready
    obtain ⟨now', act'⟩ := rests m' after
    rw [act'] at wakes
    exact nomatch wakes

theorem exists_drawable (stuck : e.Stuck n) (fair : e.Fair) (later : n ≤ m) :
    ∃ m', m ≤ m' ∧ ((e.world m').app.rebuild = true ∨
      ∃ f, (e.world m').app.frames = some f ∧ f.available = true) := by
  rcases (e.sane m).drawn with rebuild | ⟨f, frames⟩
  · exact ⟨m, Nat.le_refl m, .inl rebuild⟩
  cases available : f.available with
  | true => exact ⟨m, Nat.le_refl m, .inr ⟨f, frames, available⟩⟩
  | false =>
    obtain ⟨m', after, -, -, -, free⟩ :=
      exists_wake_of_unavailable fair frames available (stuck.same_frames later frames)
    exact ⟨m' + 1, Nat.le_succ_of_le after, .inr free⟩

theorem exists_unpending (fair : e.Fair) (m : Nat) :
    ∃ m', m ≤ m' ∧ (e.world m').app.framePending = false := by
  cases pending : (e.world m).app.framePending with
  | false => exact ⟨m, Nat.le_refl m, pending⟩
  | true =>
    obtain ⟨m', after, batch, now, act, mem⟩ := fair.frame m pending
    refine ⟨m' + 1, Nat.le_succ_of_le after, ?_⟩
    rw [succ_of_wake act]
    exact batch_frame _ mem

theorem exists_ready (stuck : e.Stuck n) (fair : e.Fair) :
    ∃ m, n ≤ m ∧ (e.world m).app.ready = true := by
  obtain ⟨c, batch, now, act, mem⟩ := fair.configure
  have configured : (e.world (c + 1)).app.configured = true := by
    rw [succ_of_wake act]
    exact batch_configure _ mem
  obtain ⟨m, later, pending⟩ := exists_unpending fair (max n (c + 1))
  have from_ : n ≤ m := (Nat.le_max_left _ _).trans later
  obtain ⟨m', after, drawable⟩ := stuck.exists_drawable fair from_
  have kept := stuck.kept m m' from_ after
  have after_configure : c + 1 ≤ m' := (Nat.le_max_right _ _).trans (later.trans after)
  refine ⟨m', from_.trans after, App.ready_iff.mpr ⟨?_, kept.pending pending, drawable⟩⟩
  exact e.configured_mono after_configure configured

end Stuck

theorem not_stuck (fair : e.Fair) (fresh : ∀ n, Fresh (e.world n)) (quiet : e.QuietFrom k)
    (late : k ≤ n) : ¬ e.Stuck n := by
  intro stuck
  obtain ⟨r, from_, ready⟩ := stuck.exists_ready fair
  obtain ⟨d, due⟩ := fair.time (e.world n).app.nextFrame
  obtain ⟨m, later, top⟩ := stuck.exists_top fair fresh (from_.trans (Nat.le_max_left r d))
  have after : n ≤ m := from_.trans ((Nat.le_max_left r d).trans later)
  have ready : (e.world m).app.ready = true :=
    (stuck.kept r m from_ ((Nat.le_max_left r d).trans later)).ready ready
  have legal := e.legal m
  rcases phase_succ fair m with ⟨-, opening, c, act⟩ | ⟨⟨batch, now, act⟩, -⟩ | ⟨now, act⟩
  · have quiet := quiet m (late.trans after)
    rw [act] at legal quiet
    refine stuck.undrawn m after ?_
    rw [DrawsAt, e.next, act]
    refine turn_draws legal quiet ready ?_ (stuck.stale m after c.first legal.2.1)
    rw [(stuck.kept n m (Nat.le_refl n) after).nextFrame]
    exact due.trans ((e.clock_mono ((Nat.le_max_right r d).trans later)).trans legal.2.1)
  · rw [act] at legal
    obtain ⟨deadline, asleep, -⟩ := legal
    exact nomatch top.symm.trans asleep
  · rw [act] at legal
    exact legal.1.elim (fun asleep => nomatch top.symm.trans asleep)
      fun ended => nomatch top.symm.trans ended

theorem exists_draw (fair : e.Fair) (fresh : ∀ n, Fresh (e.world n)) (quiet : e.QuietFrom k)
    (late : k ≤ n) (stale : ∀ t, (e.world n).clock ≤ t →
      (e.world n).app.shown ≠ some ((e.world n).app.pose.visual t)) :
    ∃ m, n ≤ m ∧ e.DrawsAt m ∧ (e.world m).app.pose = (e.world n).app.pose := by
  have draws : ∃ m, n ≤ m ∧ e.DrawsAt m := by
    by_contra never
    have none_ : ∀ m, n ≤ m → ¬ e.DrawsAt m := fun m later now => never ⟨m, later, now⟩
    refine not_stuck fair fresh quiet late ⟨?_, none_, ?_⟩
    · intro m m' later after
      exact (undrawn quiet (late.trans later) after fun j from_ _ => none_ j (later.trans from_)).1
    · intro m later t past
      obtain ⟨kept, pose⟩ := undrawn quiet late later fun j from_ _ => none_ j from_
      rw [kept.shown, pose]
      exact stale t ((e.clock_mono later).trans past)
  obtain ⟨m, later, now, first⟩ := exists_first draws
  exact ⟨m, later, now, (undrawn quiet late later first).2⟩

end Progress

/-! ## Presses are seen, holds run out, the steady frame is drawn -/

section Settling

variable {k n : Nat}

theorem presented_steady (p : Pose) (frame : Paws) (now : Nat) :
    (p.presented frame now).steady = p.steady := rfl

theorem steady_succ (quiet : e.QuietFrom k) (late : k ≤ n) :
    (e.world (n + 1)).app.pose.steady = (e.world n).app.pose.steady := by
  rcases quiet_succ quiet late with ⟨first, now, -, -, -, pose⟩ | ⟨-, pose⟩
  · rw [pose, presented_steady]
  · rw [pose]

theorem held_from (quiet : e.QuietFrom k) (late : k ≤ n) (side : Side) :
    (e.world n).app.pose.held side = (e.world k).app.pose.held side := by
  refine kept_from (P := fun n => (e.world n).app.pose.held side = (e.world k).app.pose.held side)
    rfl (fun m later same => ?_) n late
  rcases quiet_succ quiet later with ⟨first, now, -, -, -, pose⟩ | ⟨-, pose⟩
  · rw [pose]
    exact same
  · rw [pose, same]

theorem stale_of_unseen {side : Side} (unseen : (e.world n).app.pose.unseen side = true) (t : Nat) :
    (e.world n).app.shown ≠ some ((e.world n).app.pose.visual t) := by
  intro shown
  have up := (e.sane n).unseen side unseen
  rw [(e.sane n).shown, shown] at up
  have down : (e.world n).app.pose.current t side = true :=
    (Pose.current_apply side).mpr (.inr (.inl unseen))
  exact Bool.false_ne_true (up.symm.trans down)

theorem unseen_settles (fair : e.Fair) (fresh : ∀ n, Fresh (e.world n)) (quiet : e.QuietFrom k)
    (side : Side) : Settles fun n => (e.world n).app.pose.unseen side = false := by
  refine settles_of_kept (k := k) (fun m late seen => ?_) ?_
  · rcases quiet_succ quiet late with ⟨first, now, -, -, -, pose⟩ | ⟨-, pose⟩
    · rw [pose, Pose.presented]
      dsimp only
      split
      · rfl
      · exact seen
    · rw [pose, seen]
  · cases unseen : (e.world k).app.pose.unseen side with
    | false => exact ⟨k, Nat.le_refl k, unseen⟩
    | true =>
      obtain ⟨m, later, ⟨first, now, -, -, -, drawn⟩, pose⟩ := exists_draw fair fresh quiet
        (Nat.le_refl k) fun t _ => stale_of_unseen unseen t
      refine ⟨m + 1, Nat.le_succ_of_le later, ?_⟩
      have down : (e.world m).app.pose.current first side = true := by
        rw [pose]
        exact (Pose.current_apply side).mpr (.inr (.inl unseen))
      rw [drawn, Pose.presented]
      exact if_pos down

/-- The hold of the side is not later than now. -/
def Out (e : Execution) (side : Side) (n : Nat) : Prop :=
  ∀ u, (e.world n).app.pose.holdUntil side = some u → u ≤ (e.world n).clock

/-- A step leaves the pose, or shows the paw down, or shows it up once its hold has run out. A hold
begins anew only where the paw was shown up. -/
theorem side_succ (quiet : e.QuietFrom k) (late : k ≤ n) (side : Side) :
    (e.world (n + 1)).app.pose = (e.world n).app.pose ∨
      ((e.world (n + 1)).app.pose.shown side = true ∧
        (∃ t, (e.world n).clock ≤ t ∧ (e.world n).app.pose.current t side = true) ∧
        ((e.world n).app.pose.shown side = true →
          (e.world (n + 1)).app.pose.holdUntil side = (e.world n).app.pose.holdUntil side)) ∨
      ((e.world (n + 1)).app.pose.shown side = false ∧
        (e.world (n + 1)).app.pose.holdUntil side = (e.world n).app.pose.holdUntil side ∧
        e.Out side (n + 1)) := by
  rcases quiet_succ quiet late with ⟨first, now, from_, until_, -, pose⟩ | ⟨-, pose⟩
  · have hold : (e.world (n + 1)).app.pose.holdUntil side =
        if (e.world n).app.pose.current first side && !(e.world n).app.pose.shown side then
          some (now + BongoCat.hold)
        else (e.world n).app.pose.holdUntil side := by
      rw [pose]
      rfl
    have shown : (e.world (n + 1)).app.pose.shown side = (e.world n).app.pose.current first side := by
      rw [pose]
      rfl
    cases frame : (e.world n).app.pose.current first side with
    | true =>
      rw [frame] at shown hold
      refine .inr (.inl ⟨shown, ⟨first, from_, frame⟩, fun down => ?_⟩)
      rw [hold, down]
      rfl
    | false =>
      rw [frame, Bool.false_and, if_neg Bool.false_ne_true] at hold
      rw [frame] at shown
      refine .inr (.inr ⟨shown, hold, fun u at_ => Nat.le_of_not_lt fun later => ?_⟩)
      rw [hold] at at_
      have down := (Pose.current_apply side).mpr
        (.inr (.inr ⟨u, at_, Nat.lt_of_le_of_lt until_ later⟩))
      exact Bool.false_ne_true (frame.symm.trans down)
  · exact .inl pose

theorem out_of_time (fair : e.Fair) (side : Side)
    (same : ∀ m, n ≤ m → (e.world m).app.pose.holdUntil side =
      (e.world n).app.pose.holdUntil side) : ∃ m, n ≤ m ∧ e.Out side m := by
  cases until_ : (e.world n).app.pose.holdUntil side with
  | none => exact ⟨n, Nat.le_refl n, fun u at_ => nomatch until_.symm.trans at_⟩
  | some u =>
    obtain ⟨d, past⟩ := fair.time u
    refine ⟨max n d, Nat.le_max_left _ _, fun u' at_ => ?_⟩
    rw [same _ (Nat.le_max_left _ _), until_, Option.some_inj] at at_
    subst at_
    exact past.trans (e.clock_mono (Nat.le_max_right _ _))

theorem out_of_shown (fair : e.Fair) (quiet : e.QuietFrom k) (late : k ≤ n) {side : Side}
    (shown : (e.world n).app.pose.shown side = true) : ∃ m, n ≤ m ∧ e.Out side m := by
  let P := fun m => (e.world m).app.pose.shown side = true ∧
    (e.world m).app.pose.holdUntil side = (e.world n).app.pose.holdUntil side
  have kept : ∀ m, n ≤ m → P m → P (m + 1) ∨ e.Out side (m + 1) := by
    intro m later ⟨down, same⟩
    rcases side_succ quiet (late.trans later) side with pose | ⟨shown', -, hold⟩ | ⟨-, -, out⟩
    · refine .inl ⟨?_, ?_⟩
      · rw [pose, down]
      · rw [pose, same]
    · exact .inl ⟨shown', (hold down).trans same⟩
    · exact .inr out
  rcases kept_unless ⟨shown, rfl⟩ kept with forever | reached
  · exact out_of_time fair side fun m later => (forever m later).2
  · exact reached

theorem exists_out (fair : e.Fair) (quiet : e.QuietFrom k) (late : k ≤ n) (side : Side) :
    ∃ m, n ≤ m ∧ e.Out side m := by
  cases shown : (e.world n).app.pose.shown side with
  | true => exact out_of_shown fair quiet late shown
  | false =>
    let P := fun m => (e.world m).app.pose.shown side = false ∧
      (e.world m).app.pose.holdUntil side = (e.world n).app.pose.holdUntil side
    let Q := fun m => (e.world m).app.pose.shown side = true
    have kept : ∀ m, n ≤ m → P m → P (m + 1) ∨ Q (m + 1) := by
      intro m later ⟨up, same⟩
      rcases side_succ quiet (late.trans later) side with pose | ⟨shown', -⟩ | ⟨shown', hold, -⟩
      · refine .inl ⟨?_, ?_⟩
        · rw [pose, up]
        · rw [pose, same]
      · exact .inr shown'
      · exact .inl ⟨shown', hold.trans same⟩
    rcases kept_unless ⟨shown, rfl⟩ kept with forever | ⟨m, later, down⟩
    · exact out_of_time fair side fun m later => (forever m later).2
    · obtain ⟨m', after, out⟩ := out_of_shown fair quiet (late.trans later) down
      exact ⟨m', later.trans after, out⟩

theorem out_settles (fair : e.Fair) (fresh : ∀ n, Fresh (e.world n)) (quiet : e.QuietFrom k)
    (side : Side) (up : (e.world k).app.pose.held side = 0) : Settles (e.Out side) := by
  obtain ⟨s, seen⟩ := unseen_settles fair fresh quiet side
  refine settles_of_kept (k := max k s) (fun m later out => ?_) ?_
  · have late : k ≤ m := (Nat.le_max_left k s).trans later
    rcases side_succ quiet late side with pose | ⟨-, ⟨t, past, down⟩, -⟩ | ⟨-, -, out'⟩
    · intro u at_
      rw [pose] at at_
      exact (out u at_).trans (e.clock_succ m)
    · rcases (Pose.current_apply side).mp down with held | unseen | ⟨u, at_, later'⟩
      · rw [held_from quiet late, up] at held
        exact absurd held (Nat.lt_irrefl 0)
      · rw [seen m ((Nat.le_max_right k s).trans later)] at unseen
        exact absurd unseen Bool.false_ne_true
      · exact absurd ((out u at_).trans past) (Nat.not_le.mpr later')
    · exact out'
  · exact exists_out fair quiet (Nat.le_max_left k s) side

theorem side_settles (fair : e.Fair) (fresh : ∀ n, Fresh (e.world n)) (quiet : e.QuietFrom k)
    (side : Side) :
    Settles fun n => (e.world n).app.pose.unseen side = false ∧
      (k ≤ n → (e.world n).app.pose.held side = 0 → e.Out side n) := by
  refine (unseen_settles fair fresh quiet side).and ?_
  by_cases up : (e.world k).app.pose.held side = 0
  · exact (out_settles fair fresh quiet side up).mono fun m out _ _ => out
  · exact ⟨0, fun m _ late none_ => absurd ((held_from quiet late side).symm.trans none_) up⟩

theorem visual_settles (fair : e.Fair) (fresh : ∀ n, Fresh (e.world n)) (quiet : e.QuietFrom k) :
    Settles fun n => k ≤ n → ∀ t, (e.world n).clock ≤ t →
      (e.world n).app.pose.visual t = (e.world n).app.pose.steady := by
  have both := (side_settles fair fresh quiet .keyboard).and (side_settles fair fresh quiet .mouse)
  refine both.mono fun n ⟨keyboard, mouse⟩ late t past => ?_
  have seen : ∀ side, (e.world n).app.pose.unseen side = false := by
    intro side
    cases side
    · exact keyboard.1
    · exact mouse.1
  have expired : (e.world n).app.pose.Expired (e.world n).clock := by
    intro side up
    cases side
    · exact keyboard.2 late up
    · exact mouse.2 late up
  exact Pose.visual_eq_steady (expired.mono past) seen

theorem shown_settles (fair : e.Fair) (fresh : ∀ n, Fresh (e.world n)) (quiet : e.QuietFrom k) :
    Settles fun n => (e.world n).app.shown = some (e.world n).app.pose.steady := by
  obtain ⟨s, steady⟩ := visual_settles fair fresh quiet
  have late : k ≤ max k s := Nat.le_max_left k s
  refine settles_of_kept (k := max k s) (fun m later shown => ?_) ?_
  · rw [steady_succ quiet (late.trans later)]
    rcases quiet_succ quiet (late.trans later) with ⟨first, now, past, -, drawn, -⟩ | ⟨kept, -⟩
    · rw [drawn, steady m ((Nat.le_max_right k s).trans later) (late.trans later) first past]
    · rw [kept.shown, shown]
  · by_cases shown : (e.world (max k s)).app.shown = some (e.world (max k s)).app.pose.steady
    · exact ⟨_, Nat.le_refl _, shown⟩
    · obtain ⟨m, later, ⟨first, now, past, -, drawn, -⟩, -⟩ :=
        exists_draw fair fresh quiet late fun t past => by
          rw [steady _ (Nat.le_max_right k s) late t past]
          exact shown
      refine ⟨m + 1, Nat.le_succ_of_le later, ?_⟩
      rw [steady_succ quiet (late.trans later), drawn,
        steady m ((Nat.le_max_right k s).trans later) (late.trans later) first past]

end Settling

end Execution

end BongoCat

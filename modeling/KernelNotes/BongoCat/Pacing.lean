import KernelNotes.BongoCat.Loop

/-!
# The pace of the frames

`App::run` presents a frame only once the callback of the frame before has been
answered and the frame interval after it is over. Over any stretch of a run the
number of frames is therefore bounded by the callbacks delivered in it and by its
length in time, whatever the input devices send.
-/

namespace BongoCat

/-- The frame callbacks an action delivers. -/
def Act.answers : Act → Nat
  | .wake batch _ => batch.count .frame
  | .turn _ _ | .rest _ | .fail => 0

theorem batch_answers (a : App) (batch : List Event) :
    (batch.foldl App.handle a).commits = a.commits ∧
      a.framePending.toNat ≤
        (batch.foldl App.handle a).framePending.toNat + batch.count .frame := by
  induction batch generalizing a with
  | nil => exact ⟨rfl, Nat.le_refl _⟩
  | cons ev rest ih =>
    obtain ⟨commits, pending⟩ := ih (a.handle ev)
    have one : (a.handle ev).commits = a.commits ∧
        a.framePending.toNat ≤ (a.handle ev).framePending.toNat + [ev].count .frame := by
      cases ev with
      | scaleFactorChanged factor =>
        rw [App.handle]
        split <;> exact ⟨rfl, Nat.le_refl _⟩
      | frame => exact ⟨rfl, Bool.toNat_le _⟩
      | key | relative | lost | notify | configure | release | close =>
        exact ⟨rfl, Nat.le_add_right _ _⟩
    rw [List.count_cons, List.foldl_cons]
    rw [List.count_singleton] at one
    omega

theorem scanned_answers (w : World) (opening : Nat → Opening) :
    (w.scanned opening).commits = w.app.commits ∧
      (w.scanned opening).framePending = w.app.framePending := by
  have loop : ∀ (indices : List Nat) (a : App),
      (indices.foldl (App.connectOne opening) a).commits = a.commits ∧
        (indices.foldl (App.connectOne opening) a).framePending = a.framePending := by
    intro indices
    induction indices with
    | nil => exact fun a => ⟨rfl, rfl⟩
    | cons index rest ih =>
      intro a
      obtain ⟨commits, pending⟩ := ih (a.connectOne opening index)
      rw [List.foldl_cons, commits, pending, App.connectOne]
      split
      · exact ⟨rfl, rfl⟩
      · split <;> exact ⟨rfl, rfl⟩
  rw [World.scanned]
  split
  · exact loop _ _
  · exact ⟨rfl, rfl⟩

theorem present_commits {a a' : App} {desired : Visual} {now : Nat}
    (presented : a.present desired now = some a') :
    a'.commits = a.commits + 1 ∧ a'.framePending.toNat = 1 ∧
      a'.nextFrame = now + frameInterval := by
  rw [App.present] at presented
  split at presented
  · cases presented
  · split at presented
    · cases presented
    · cases presented
      exact ⟨rfl, rfl, rfl⟩

/-- From `w` to `w'` the loop kept its pace, with `answered` callbacks in between. -/
structure Paced (answered : Nat) (w w' : World) : Prop where
  soon : w'.app.nextFrame ≤ w'.clock + frameInterval
  later : w.clock ≤ w'.clock
  due : w'.app.commits = w.app.commits ∨
    w.clock + w'.app.commits * frameInterval ≤ w'.app.nextFrame + w.app.commits * frameInterval
  asked : w'.app.commits + w.app.framePending.toNat ≤
    w.app.commits + w'.app.framePending.toNat + answered

theorem Paced.step {n : Nat} {w w' : World} {act : Act} (paced : Paced n w w')
    (legal : Legal w' act) : Paced (n + act.answers) w (step w' act) := by
  obtain ⟨soon, later, due, asked⟩ := paced
  cases act with
  | turn opening c =>
    obtain ⟨-, first, present, second⟩ := legal
    obtain ⟨commits, pending⟩ := scanned_answers w' opening
    rw [← pending] at asked
    have next := (scanned_kept w' opening).nextFrame
    obtain ⟨a', turned, ⟨-, ready, at_, presented⟩ | ⟨rfl, -⟩⟩ := turn_cases (w'.scanned opening) c
    · -- The callback was answered and the interval over, so one more frame keeps the pace.
      obtain ⟨commits', pending', next'⟩ := present_commits presented
      rw [(App.ready_iff.mp ready).2.1, Bool.toNat_false] at asked
      rw [BongoCat.step, turned]
      constructor <;> dsimp only [Act.answers, frameInterval] at * <;> omega
    · rw [BongoCat.step, turned]
      constructor <;> dsimp only [Act.answers, frameInterval] at * <;> omega
  | wake batch now =>
    obtain ⟨-, -, woken, -⟩ := legal
    obtain ⟨commits, pending⟩ := batch_answers w'.app batch
    have next := (batch_kept w'.app batch).nextFrame
    constructor <;> dsimp only [BongoCat.step, Act.answers, frameInterval] at * <;> omega
  | rest now =>
    obtain ⟨-, rested⟩ := legal
    constructor <;> dsimp only [BongoCat.step, Act.answers, frameInterval] at * <;> omega
  | fail => exact ⟨soon, later, due, asked⟩

theorem Paced.run {n : Nat} {w w' : World} {acts : List Act} (paced : Paced n w w')
    (legal : Runs.Along BongoCat.step Legal w' acts) :
    Paced (n + (acts.map Act.answers).sum) w (Runs.run BongoCat.step w' acts) := by
  induction acts generalizing n w' with
  | nil => exact paced
  | cons act rest ih =>
    rw [List.map_cons, List.sum_cons, ← Nat.add_assoc]
    exact ih (paced.step legal.1) legal.2

/-- A stretch of a run that presents `n + 1` frames is at least `n` frame intervals long, and the
compositor answers at least `n` frame callbacks in it. -/
theorem frames_paced (devices : Nat) (opening : Nat → Opening) (now : Nat)
    (before during : List Act) (w w' : World)
    (reached : Runs.run step (World.start devices opening now) before = w)
    (stretch : Runs.run step w during = w')
    (legal : Runs.Along step Legal (World.start devices opening now) before)
    (goesOn : Runs.Along step Legal w during)
    (n : Nat) (presented : w'.app.commits = w.app.commits + n + 1) :
    w.clock + n * frameInterval ≤ w'.clock ∧ n ≤ (during.map Act.answers).sum := by
  have fresh : (World.start devices opening now).app.nextFrame = now :=
    (connect_kept opening _).nextFrame
  have first : Paced 0 (World.start devices opening now) (World.start devices opening now) :=
    ⟨fresh.le.trans (Nat.le_add_right _ _), Nat.le_refl _, .inl rfl, Nat.le_refl _⟩
  have soon := (first.run legal).soon
  rw [reached] at soon
  have paced : Paced 0 w w := ⟨soon, Nat.le_refl _, .inl rfl, Nat.le_refl _⟩
  obtain ⟨soon', -, due, asked⟩ := paced.run goesOn
  rw [stretch] at soon' due asked
  have answered := Bool.toNat_le w'.app.framePending
  dsimp only [frameInterval] at *
  constructor <;> omega

theorem frames_paced_tap :
    (World.start 1 noDevice 0).clock + 2 * frameInterval ≤
        (Runs.run step (World.start 1 noDevice 0) tapScript).clock ∧
      2 ≤ (tapScript.map Act.answers).sum :=
  frames_paced 1 noDevice 0 [] tapScript _ _ rfl rfl trivial tapScript_legal 2 (by decide +kernel)

end BongoCat

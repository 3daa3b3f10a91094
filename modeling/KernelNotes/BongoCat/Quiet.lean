import KernelNotes.BongoCat.Sleep

/-!
# What a step leaves of the loop's state

Events and rescans of the devices leave what is shown and when the next frame is
due, and what the compositor has answered stays answered (`Kept`); only `present`
changes the rest. `Sane` is the invariant of the loop. A step that brings no
input changes the pose only where it draws a frame.
-/

namespace BongoCat

/-! ## The presses no frame has shown -/

namespace Pose

/-- A press counts as unseen only while its paw is shown up. -/
def Unshown (p : Pose) : Prop := ∀ side, p.unseen side = true → p.shown side = false

/-- An input event leaves what is shown. -/
def Follows (p p' : Pose) : Prop := p'.shown = p.shown ∧ (p.Unshown → p'.Unshown)

variable {p p' p'' : Pose}

theorem Follows.refl (p : Pose) : p.Follows p := ⟨rfl, id⟩

theorem Follows.trans (first : p.Follows p') (second : p'.Follows p'') : p.Follows p'' :=
  ⟨second.1.trans first.1, second.2 ∘ first.2⟩

theorem unshown_update {pressed : Side} {value : Bool} (unshown : p.Unshown)
    (new : value = true → p.shown pressed = false) (side : Side)
    (unseen : Function.update p.unseen pressed value side = true) : p.shown side = false := by
  by_cases same : side = pressed
  · subst same
    rw [Function.update_self] at unseen
    exact new unseen
  · rw [Function.update_of_ne same] at unseen
    exact unshown side unseen

theorem key_follows (p : Pose) (device code : Nat) (value : Int) (now : Nat) :
    p.Follows (p.key device code value now) := by
  rw [key]
  split
  · exact Follows.refl p
  next pressed _ =>
  dsimp only
  split
  · refine ⟨rfl, fun unshown side unseen => unshown_update unshown (fun new => ?_) side unseen⟩
    rw [Bool.or_eq_true, Bool.not_eq_true'] at new
    exact new.elim (unshown pressed) id
  · split
    · exact ⟨rfl, id⟩
    · exact Follows.refl p

theorem keys_follow (p : Pose) (device now : Nat) (codes : List Nat) :
    p.Follows (codes.foldl (fun p code => p.key device code 1 now) p) := by
  induction codes generalizing p with
  | nil => exact Follows.refl p
  | cons code rest ih => exact (key_follows p device code 1 now).trans (ih _)

theorem relative_follows (p : Pose) (axis : Nat) (delta : Int) :
    p.Follows (p.relative axis delta) := by
  rcases axis with _ | _ | axis <;> exact ⟨rfl, id⟩

theorem releaseKey_follows (p : Pose) (released : Side) : p.Follows (p.releaseKey released) := by
  rw [releaseKey]
  split
  · refine ⟨rfl, fun unshown side unseen => unshown_update unshown (fun new => ?_) side unseen⟩
    exact absurd new Bool.false_ne_true
  · exact ⟨rfl, id⟩

theorem disconnectLoop_follows (keys : Finset Nat) (codes : List Nat) (p : Pose) :
    p.Follows (disconnectLoop keys codes p) := by
  induction codes generalizing p with
  | nil => exact Follows.refl p
  | cons code rest ih =>
    rw [disconnectLoop]
    split
    · split
      · exact (releaseKey_follows p _).trans (ih _)
      · exact ih p
    · exact ih p

theorem disconnect_follows (p : Pose) (device : Nat) : p.Follows (p.disconnect device) :=
  disconnectLoop_follows _ _ _

theorem presented_unshown (p : Pose) (frame : Paws) (now : Nat) :
    (p.presented frame now).Unshown := by
  intro side unseen
  cases down : frame side with
  | true =>
    rw [Pose.presented] at unseen
    dsimp only at unseen
    rw [if_pos down] at unseen
    exact absurd unseen Bool.false_ne_true
  | false => exact down

end Pose

/-! ## What events leave -/

/-- Everything but the pose, as events leave it: what the compositor has answered stays answered. -/
structure Kept (a a' : App) : Prop where
  shown : a'.shown = a.shown
  nextFrame : a'.nextFrame = a.nextFrame
  configured : a.configured = true → a'.configured = true
  pending : a.framePending = false → a'.framePending = false
  rebuild : a.rebuild = true → a'.rebuild = true
  frames : ∀ f, a.frames = some f →
    ∃ f', a'.frames = some f' ∧ f'.serial = f.serial ∧ ∀ i, f.free i = true → f'.free i = true

namespace Kept

variable {a a' a'' : App}

theorem refl (a : App) : Kept a a where
  shown := rfl
  nextFrame := rfl
  configured := id
  pending := id
  rebuild := id
  frames := fun f some_ => ⟨f, some_, rfl, fun _ free => free⟩

theorem trans (first : Kept a a') (second : Kept a' a'') : Kept a a'' where
  shown := second.shown.trans first.shown
  nextFrame := second.nextFrame.trans first.nextFrame
  configured := second.configured ∘ first.configured
  pending := second.pending ∘ first.pending
  rebuild := second.rebuild ∘ first.rebuild
  frames := by
    intro f frames
    obtain ⟨f', frames', serial', free'⟩ := first.frames f frames
    obtain ⟨f'', frames'', serial'', free''⟩ := second.frames f' frames'
    exact ⟨f'', frames'', serial''.trans serial', fun i free => free'' i (free' i free)⟩

theorem drawable (kept : Kept a a')
    (drawable : a.rebuild = true ∨ ∃ f, a.frames = some f ∧ f.available = true) :
    a'.rebuild = true ∨ ∃ f, a'.frames = some f ∧ f.available = true := by
  rcases drawable with rebuild | ⟨f, frames, available⟩
  · exact .inl (kept.rebuild rebuild)
  · obtain ⟨f', frames', -, free⟩ := kept.frames f frames
    refine .inr ⟨f', frames', ?_⟩
    rw [Frames.available, Bool.or_eq_true, Bool.or_eq_true] at available ⊢
    exact available.imp (Or.imp (free 0) (free 1)) (free 2)

theorem ready (kept : Kept a a') (ready : a.ready = true) : a'.ready = true := by
  obtain ⟨configured, pending, drawable⟩ := App.ready_iff.mp ready
  exact App.ready_iff.mpr
    ⟨kept.configured configured, kept.pending pending, kept.drawable drawable⟩

end Kept

theorem release_frees (f : Frames) (serial : Nat) (index i : Fin 3) (free : f.free i = true) :
    (f.release serial index).free i = true := by
  rw [Frames.release]
  split
  · by_cases same : i = index
    · subst same
      exact Function.update_self _ _ _
    · exact (Function.update_of_ne same _ _).trans free
  · exact free

theorem release_serial (f : Frames) (serial : Nat) (index : Fin 3) :
    (f.release serial index).serial = f.serial := by
  rw [Frames.release]
  split <;> rfl

theorem handle_kept (a : App) (ev : Event) : Kept a (a.handle ev) := by
  cases ev with
  | scaleFactorChanged factor =>
    rw [App.handle]
    split
    · exact { Kept.refl a with rebuild := fun _ => rfl }
    · exact Kept.refl a
  | release serial index =>
    refine { Kept.refl a with frames := fun f frames => ?_ }
    refine ⟨f.release serial index, ?_, release_serial f serial index,
      fun i => release_frees f serial index i⟩
    exact congrArg (Option.map _) frames
  | configure => exact { Kept.refl a with configured := fun _ => rfl }
  | frame => exact { Kept.refl a with pending := fun _ => rfl }
  | key | relative | lost | notify | close => exact { Kept.refl a with }

theorem batch_kept (a : App) (batch : List Event) : Kept a (batch.foldl App.handle a) := by
  induction batch generalizing a with
  | nil => exact Kept.refl a
  | cons ev rest ih => exact (handle_kept a ev).trans (ih _)

theorem connectOne_kept (opening : Nat → Opening) (a : App) (index : Nat) :
    Kept a (a.connectOne opening index) := by
  rw [App.connectOne]
  split
  · exact Kept.refl a
  · split
    · exact Kept.refl a
    · exact { Kept.refl a with }

theorem connect_kept (opening : Nat → Opening) (a : App) : Kept a (a.connect opening) := by
  have loop : ∀ (indices : List Nat) (b : App),
      Kept b (indices.foldl (App.connectOne opening) b) := by
    intro indices
    induction indices with
    | nil => exact Kept.refl
    | cons index rest ih => exact fun b => (connectOne_kept opening b index).trans (ih _)
  have first : Kept a { a with rescan := false } := { Kept.refl a with }
  exact first.trans (loop _ _)

theorem scanned_kept (w : World) (opening : Nat → Opening) : Kept w.app (w.scanned opening) := by
  rw [World.scanned]
  split
  · exact connect_kept opening w.app
  · exact Kept.refl _

/-- The invariant of the loop: a window whose buffers are not to be rebuilt has buffers, and the
pose knows what is shown. -/
structure Sane (a : App) : Prop where
  drawn : a.rebuild = true ∨ ∃ f, a.frames = some f
  shown : a.pose.shown = a.shown.elim (fun _ => false) Visual.keys
  unseen : a.pose.Unshown

theorem Sane.kept {a a' : App} (sane : Sane a) (kept : Kept a a')
    (follows : a.pose.Follows a'.pose) : Sane a' where
  drawn := sane.drawn.imp kept.rebuild fun ⟨f, frames⟩ =>
    (kept.frames f frames).imp fun _ facts => facts.1
  shown := by rw [follows.1, kept.shown, sane.shown]
  unseen := follows.2 sane.unseen

theorem handle_follows (a : App) (ev : Event) : a.pose.Follows (a.handle ev).pose := by
  cases ev with
  | key device code value now => exact Pose.key_follows _ _ _ _ _
  | relative axis delta => exact Pose.relative_follows _ _ _
  | lost device => exact Pose.disconnect_follows _ _
  | scaleFactorChanged factor =>
    rw [App.handle]
    split <;> exact Pose.Follows.refl _
  | notify | configure | frame | release | close => exact Pose.Follows.refl _

theorem batch_follows (a : App) (batch : List Event) :
    a.pose.Follows (batch.foldl App.handle a).pose := by
  induction batch generalizing a with
  | nil => exact Pose.Follows.refl _
  | cons ev rest ih => exact (handle_follows a ev).trans (ih _)

theorem connectOne_follows (opening : Nat → Opening) (a : App) (index : Nat) :
    a.pose.Follows (a.connectOne opening index).pose := by
  rw [App.connectOne]
  split
  · exact Pose.Follows.refl _
  · split
    · exact Pose.Follows.refl _
    · exact Pose.keys_follow _ _ _ _

theorem connect_follows (opening : Nat → Opening) (a : App) :
    a.pose.Follows (a.connect opening).pose := by
  have loop : ∀ (indices : List Nat) (b : App),
      b.pose.Follows (indices.foldl (App.connectOne opening) b).pose := by
    intro indices
    induction indices with
    | nil => exact fun b => Pose.Follows.refl _
    | cons index rest ih => exact fun b => (connectOne_follows opening b index).trans (ih _)
  exact loop (List.range a.connected.length) { a with rescan := false }

variable {w : World} {opening : Nat → Opening} {c : Clocks}

theorem Sane.scanned (sane : Sane w.app) (opening : Nat → Opening) : Sane (w.scanned opening) := by
  refine sane.kept (scanned_kept w opening) ?_
  rw [World.scanned]
  split
  · exact connect_follows opening w.app
  · exact Pose.Follows.refl _

/-- A frame was drawn from the pose as it stands at `first`. -/
def Draws (w w' : World) : Prop :=
  ∃ first now, w.clock ≤ first ∧ first ≤ w'.clock ∧
    w'.app.shown = some (w.app.pose.visual first) ∧
    w'.app.pose = w.app.pose.presented (w.app.pose.current first) now

theorem Sane.drawn_of_present {a a' : App} {desired : Visual} {now : Nat} (ready : a.ready = true)
    (presented : a.present desired now = some a') : Sane a' := by
  obtain ⟨b, presented', frames, -, shown, pose, -⟩ := App.present_eq ready desired now
  rw [presented, Option.some_inj] at presented'
  subst presented'
  constructor
  · exact .inr (Option.isSome_iff_exists.mp frames)
  · rw [pose, shown]
    rfl
  · rw [pose]
    exact Pose.presented_unshown _ _ _

theorem Sane.step (sane : Sane w.app) (act : Act) : Sane (step w act).app := by
  cases act with
  | turn opening c =>
    obtain ⟨a', turned, drew | ⟨rfl, -⟩⟩ := turn_cases (w.scanned opening) c
    · rw [BongoCat.step, turned]
      exact Sane.drawn_of_present drew.2.1 drew.2.2.2
    · rw [BongoCat.step, turned]
      exact sane.scanned opening
  | wake batch now => exact sane.kept (batch_kept w.app batch) (batch_follows w.app batch)
  | rest | fail => exact sane

theorem Sane.new (devices : Nat) (opening : Nat → Opening) (now : Nat) :
    Sane (App.new devices opening now) := by
  rw [App.new]
  refine Sane.kept ?_ (connect_kept opening _) (connect_follows opening _)
  constructor
  · exact .inl rfl
  · rfl
  · exact fun _ unseen => absurd unseen Bool.false_ne_true

theorem Execution.sane (e : Execution) (n : Nat) : Sane (e.world n).app := by
  induction n with
  | zero =>
    obtain ⟨devices, opening, now, start⟩ := e.start
    rw [start]
    exact Sane.new devices opening now
  | succ n ih =>
    rw [e.next]
    exact ih.step (e.act n)

/-! ## Steps without input -/

def Event.Compositor : Event → Prop
  | .configure | .scaleFactorChanged _ | .frame | .release _ _ | .close => True
  | .key _ _ _ _ | .relative _ _ | .lost _ | .notify => False

/-- No input arrives with the step: no input event, and no device is opened. -/
def Quiet (w : World) : Act → Prop
  | .turn opening _ => w.app.rescan = true → ∀ index, opening index = .refused
  | .wake batch _ => ∀ ev ∈ batch, ev.Compositor
  | .rest _ | .fail => True

theorem handle_pose (a : App) {ev : Event} (compositor : ev.Compositor) :
    (a.handle ev).pose = a.pose := by
  cases ev with
  | scaleFactorChanged factor =>
    rw [App.handle]
    split <;> rfl
  | configure | frame | release | close => rfl
  | key | relative | lost | notify => exact compositor.elim

theorem batch_pose (a : App) {batch : List Event} (compositor : ∀ ev ∈ batch, ev.Compositor) :
    (batch.foldl App.handle a).pose = a.pose := by
  induction batch generalizing a with
  | nil => rfl
  | cons ev rest ih =>
    obtain ⟨now, later⟩ := List.forall_mem_cons.mp compositor
    exact (ih _ later).trans (handle_pose a now)

theorem connect_pose (a : App) (refused : ∀ index, opening index = .refused) :
    (a.connect opening).pose = a.pose := by
  have one : ∀ (b : App) (index : Nat), b.connectOne opening index = b := by
    intro b index
    rw [App.connectOne, refused index]
    exact ite_self b
  have loop : ∀ (indices : List Nat) (b : App), indices.foldl (App.connectOne opening) b = b := by
    intro indices
    induction indices with
    | nil => exact fun b => rfl
    | cons index rest ih => exact fun b => by rw [List.foldl_cons, one b index, ih b]
  rw [App.connect, loop]

theorem scanned_pose (quiet : Quiet w (.turn opening c)) :
    (w.scanned opening).pose = w.app.pose := by
  rw [World.scanned]
  split
  · next rescan => exact connect_pose w.app (quiet rescan)
  · rfl

theorem draws_of_present {a' : App} (legal : Legal w (.turn opening c))
    (quiet : Quiet w (.turn opening c)) (ready : (w.scanned opening).ready = true)
    (presented : (w.scanned opening).present ((w.scanned opening).pose.visual c.first) c.present = some a')
    (deadline : Option Nat) : Draws w ⟨a', c.second, .asleep deadline⟩ := by
  obtain ⟨b, presented', -, -, shown, pose, -⟩ := App.present_eq ready
    ((w.scanned opening).pose.visual c.first) c.present
  rw [presented, Option.some_inj] at presented'
  subst presented'
  rw [scanned_pose quiet] at shown pose
  exact ⟨c.first, c.present, legal.2.1, Nat.le_trans legal.2.2.1 legal.2.2.2, shown, pose⟩

theorem quiet_cases {act : Act} (legal : Legal w act) (quiet : Quiet w act) :
    Draws w (step w act) ∨ (Kept w.app (step w act).app ∧ (step w act).app.pose = w.app.pose) := by
  cases act with
  | turn opening c =>
    obtain ⟨a', turned, drew | ⟨rfl, -⟩⟩ := turn_cases (w.scanned opening) c
    · rw [step, turned]
      exact .inl (draws_of_present legal quiet drew.2.1 drew.2.2.2 _)
    · rw [step, turned]
      exact .inr ⟨scanned_kept w opening, scanned_pose quiet⟩
  | wake batch now => exact .inr ⟨batch_kept w.app batch, batch_pose w.app quiet⟩
  | rest | fail => exact .inr ⟨Kept.refl _, rfl⟩

theorem turn_draws (legal : Legal w (.turn opening c)) (quiet : Quiet w (.turn opening c))
    (ready : w.app.ready = true) (due : w.app.nextFrame ≤ c.first)
    (stale : w.app.shown ≠ some (w.app.pose.visual c.first)) :
    Draws w (step w (.turn opening c)) := by
  have kept := scanned_kept w opening
  have dirty : (w.scanned opening).dirty c.first = true := by
    rw [App.dirty_iff, kept.shown, scanned_pose quiet]
    exact .inr stale
  obtain ⟨a', turned, drew | ⟨-, early⟩⟩ := turn_cases (w.scanned opening) c
  · rw [step, turned]
    exact draws_of_present legal quiet drew.2.1 drew.2.2.2 _
  · have early := early dirty (kept.ready ready)
    rw [kept.nextFrame] at early
    exact absurd early (Nat.not_lt.mpr due)

end BongoCat

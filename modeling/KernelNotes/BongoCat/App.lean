import KernelNotes.BongoCat.Pose

/-!
# The event loop of BongoCat

`App::run` alternates between one turn of the loop body and a call of `dispatch`
that sleeps until an event arrives or the timeout runs out. A turn reads the
clock at its start, once more inside `present` when it draws, and once more
before it computes the timeout. What `dispatch` delivers is a batch of events,
of the input devices and of the compositor, handled in order.

Sizes, pixels and log output are left out. A fallible call of the loop that
returns an error ends it (`Act.fail`).
-/

namespace BongoCat

def frameInterval : Nat := 16666667

instance three_ne_zero : NeZero 3 := ⟨by decide⟩

/-- The buffers of one `Frames::new`; `serial` tells them from those of another. -/
structure Frames where
  serial : Nat
  free : Fin 3 → Bool

namespace Frames

def available (f : Frames) : Bool := f.free 0 || f.free 1 || f.free 2

/-- The release of a buffer of earlier frames finds no position. -/
def release (f : Frames) (serial : Nat) (index : Fin 3) : Frames :=
  if f.serial = serial then { f with free := Function.update f.free index true } else f

/-- Without a free buffer the source panics. -/
def draw (f : Frames) : Option Frames :=
  if f.free 0 then some { f with free := Function.update f.free 0 false }
  else if f.free 1 then some { f with free := Function.update f.free 1 false }
  else if f.free 2 then some { f with free := Function.update f.free 2 false }
  else none

end Frames

structure App where
  connected : List Bool
  rescan : Bool
  pose : Pose
  frames : Option Frames
  /-- The serial of the next `Frames::new`. -/
  serial : Nat
  scale : Int
  configured : Bool
  rebuild : Bool
  framePending : Bool
  shown : Option Visual
  nextFrame : Nat
  exit : Bool
  commits : Nat

/-- What opening one device file comes to: the keys that are down in it, read at `now`. -/
inductive Opening
  | refused
  | opened (now : Nat) (keys : List Nat)

inductive Event
  | key (device code : Nat) (value : Int) (now : Nat)
  | relative (axis : Nat) (delta : Int)
  /-- A device whose events can no longer be read. -/
  | lost (device : Nat)
  /-- A change in the directories of the device files. -/
  | notify
  | configure
  | scaleFactorChanged (factor : Int)
  | frame
  | release (serial : Nat) (index : Fin 3)
  /-- A signal or a request to close the window. -/
  | close
  deriving DecidableEq

namespace App

def connectOne (opening : Nat → Opening) (a : App) (index : Nat) : App :=
  if a.connected.getD index false then a
  else
    match opening index with
    | .refused => a
    | .opened now keys =>
      { a with
        pose := keys.foldl (fun p code => p.key index code 1 now) a.pose
        connected := a.connected.set index true }

def connect (a : App) (opening : Nat → Opening) : App :=
  (List.range a.connected.length).foldl (connectOne opening) { a with rescan := false }

def new (devices : Nat) (opening : Nat → Opening) (now : Nat) : App :=
  connect
    { connected := List.replicate devices false, rescan := true, pose := Pose.new devices,
      frames := none, serial := 0, scale := 1, configured := false, rebuild := true,
      framePending := false, shown := none, nextFrame := now, exit := false, commits := 0 }
    opening

def handle (a : App) : Event → App
  | .key device code value now => { a with pose := a.pose.key device code value now }
  | .relative axis delta => { a with pose := a.pose.relative axis delta }
  | .lost device =>
    { a with
      connected := a.connected.set device false
      pose := a.pose.disconnect device
      rescan := true }
  | .notify => { a with rescan := true }
  | .configure => { a with configured := true }
  | .scaleFactorChanged factor =>
    if a.scale ≠ factor then { a with scale := max 1 (min 4 factor), rebuild := true } else a
  | .frame => { a with framePending := false }
  | .release serial index => { a with frames := a.frames.map fun f => f.release serial index }
  | .close => { a with exit := true }

def rebuilt (a : App) : App :=
  if a.rebuild then
    { a with frames := some ⟨a.serial, fun _ => true⟩, serial := a.serial + 1, rebuild := false }
  else a

/-- A missing buffer is a panic. -/
def present (a : App) (desired : Visual) (now : Nat) : Option App :=
  match a.rebuilt.frames with
  | none => none
  | some frames =>
    match frames.draw with
    | none => none
    | some frames =>
      some { a.rebuilt with
        frames := some frames
        framePending := true
        shown := some desired
        pose := a.pose.presented desired.keys now
        nextFrame := now + frameInterval
        commits := a.commits + 1 }

def dirty (a : App) (now : Nat) : Bool := a.rebuild || a.shown ≠ some (a.pose.visual now)

def ready (a : App) : Bool :=
  a.configured && !a.framePending && (a.rebuild || a.frames.any Frames.available)

end App

/-- The clock readings of one turn. -/
structure Clocks where
  first : Nat
  present : Nat
  second : Nat

/-- The wake-up time computed from the state after drawing; `dirty` and `ready` are from before. -/
def wakeUp (a : App) (dirty ready : Bool) (now : Nat) : Option Nat :=
  let deadline := a.pose.deadline now
  if dirty && ready && decide (now < a.nextFrame) && !a.framePending then
    some (deadline.elim a.nextFrame fun d => min d a.nextFrame)
  else deadline

/-- The loop body up to `dispatch`: the state and the time to wake up at. -/
def App.turn (a : App) (c : Clocks) : Option (App × Option Nat) :=
  let dirty := a.dirty c.first
  let ready := a.ready
  let drawn :=
    if dirty && ready && decide (c.first ≥ a.nextFrame) then
      a.present (a.pose.visual c.first) c.present
    else some a
  drawn.map fun a => (a, wakeUp a dirty ready c.second)

inductive Phase
  | top
  | asleep (deadline : Option Nat)
  | ended
  deriving DecidableEq

structure World where
  app : App
  clock : Nat
  phase : Phase

inductive Act
  | turn (opening : Nat → Opening) (clocks : Clocks)
  | wake (batch : List Event) (now : Nat)
  | rest (now : Nat)
  | fail

/-- What a turn works on, devices rescanned. -/
def World.scanned (w : World) (opening : Nat → Opening) : App :=
  if w.app.rescan then w.app.connect opening else w.app

def step (w : World) : Act → World
  | .turn opening c =>
    match (w.scanned opening).turn c with
    | some (a, deadline) => ⟨a, c.second, .asleep deadline⟩
    | none => { w with phase := .ended }
  | .wake batch now =>
    let a := batch.foldl App.handle w.app
    ⟨a, now, if a.exit then .ended else .top⟩
  | .rest now => { w with clock := now }
  | .fail => { w with phase := .ended }

/-- `dispatch` returns without an event only once its timeout has run out, and goes on sleeping only
while it has none. The clock readings of the loop do not decrease; those taken for key events are
any. -/
def Legal (w : World) : Act → Prop
  | .turn _ c =>
    w.phase = .top ∧ w.clock ≤ c.first ∧ c.first ≤ c.present ∧ c.present ≤ c.second
  | .wake batch now =>
    ∃ deadline, w.phase = .asleep deadline ∧ w.clock ≤ now ∧
      (batch = [] → ∃ d, deadline = some d ∧ d ≤ now)
  | .rest now => (w.phase = .asleep none ∨ w.phase = .ended) ∧ w.clock ≤ now
  | .fail => True

instance (w : World) (act : Act) : Decidable (Legal w act) :=
  match act with
  | .turn _ c => inferInstanceAs (Decidable (w.phase = .top ∧ _))
  | .wake batch now =>
    match phase : w.phase with
    | .asleep deadline =>
      decidable_of_iff
        (w.clock ≤ now ∧ (batch.isEmpty = true → deadline.any (fun d => decide (d ≤ now)) = true))
        (by simp [Legal, phase, Option.any_eq_true])
    | .top | .ended => isFalse (by simp [Legal, phase])
  | .rest now => inferInstanceAs (Decidable ((w.phase = .asleep none ∨ w.phase = .ended) ∧ _))
  | .fail => isTrue trivial

/-- The window is set up and `dispatch` is called with a zero timeout. -/
def World.start (devices : Nat) (opening : Nat → Opening) (now : Nat) : World :=
  ⟨App.new devices opening now, now, .asleep (some now)⟩

structure Execution where
  world : Nat → World
  act : Nat → Act
  start : ∃ devices opening now, world 0 = World.start devices opening now
  legal : ∀ n, Legal (world n) (act n)
  next : ∀ n, world (n + 1) = step (world n) (act n)

namespace App

variable {a : App}

theorem ready_iff :
    a.ready = true ↔
      a.configured = true ∧ a.framePending = false ∧
        (a.rebuild = true ∨ ∃ f, a.frames = some f ∧ f.available = true) := by
  rw [ready, Bool.and_eq_true, Bool.and_eq_true, Bool.not_eq_true', Bool.or_eq_true,
    Option.any_eq_true, and_assoc]

theorem dirty_iff {now : Nat} :
    a.dirty now = true ↔ a.rebuild = true ∨ a.shown ≠ some (a.pose.visual now) := by
  rw [dirty, Bool.or_eq_true, decide_eq_true_iff]

theorem draw_of_available {f : Frames} (free : f.available = true) :
    ∃ f', f.draw = some f' ∧ f'.serial = f.serial := by
  rw [Frames.available, Bool.or_eq_true, Bool.or_eq_true] at free
  rw [Frames.draw]
  split
  · exact ⟨_, rfl, rfl⟩
  split
  · exact ⟨_, rfl, rfl⟩
  split
  · exact ⟨_, rfl, rfl⟩
  · rcases free with (first | second) | third <;> contradiction

theorem exists_rebuilt_frames (drawable : a.ready = true) :
    ∃ f, a.rebuilt.frames = some f ∧ f.available = true := by
  rw [rebuilt]
  split
  · exact ⟨_, rfl, rfl⟩
  · next kept => exact (ready_iff.mp drawable).2.2.resolve_left kept

/-- What drawing a frame leaves, where the loop draws one: there is a buffer to draw into. -/
theorem present_eq (drawable : a.ready = true) (desired : Visual) (now : Nat) :
    ∃ a', a.present desired now = some a' ∧ a'.frames.isSome = true ∧ a'.framePending = true ∧
      a'.shown = some desired ∧ a'.pose = a.pose.presented desired.keys now ∧
      a'.nextFrame = now + frameInterval ∧ a'.configured = a.configured := by
  obtain ⟨f, frames, free⟩ := exists_rebuilt_frames drawable
  obtain ⟨f', drawn, -⟩ := draw_of_available free
  rw [present, frames]
  dsimp only
  rw [drawn]
  refine ⟨_, rfl, rfl, rfl, rfl, rfl, rfl, ?_⟩
  rw [rebuilt]
  split <;> rfl

end App

theorem turn_cases (a : App) (c : Clocks) :
    ∃ a', a.turn c = some (a', wakeUp a' (a.dirty c.first) a.ready c.second) ∧
      ((a.dirty c.first = true ∧ a.ready = true ∧ a.nextFrame ≤ c.first ∧
          a.present (a.pose.visual c.first) c.present = some a') ∨
        (a' = a ∧ (a.dirty c.first = true → a.ready = true → c.first < a.nextFrame))) := by
  rw [App.turn]
  by_cases draws : a.dirty c.first = true ∧ a.ready = true ∧ a.nextFrame ≤ c.first
  · obtain ⟨dirty, ready, due⟩ := draws
    obtain ⟨a', presented, -⟩ := App.present_eq ready (a.pose.visual c.first) c.present
    refine ⟨a', ?_, .inl ⟨dirty, ready, due, presented⟩⟩
    rw [dirty, ready, Bool.true_and, Bool.true_and, if_pos (decide_eq_true due), presented]
    rfl
  · refine ⟨a, ?_, .inr ⟨rfl, fun dirty ready => ?_⟩⟩
    · rw [if_neg]
      · rfl
      · intro all
        rw [Bool.and_eq_true, Bool.and_eq_true, decide_eq_true_iff] at all
        exact draws ⟨all.1.1, all.1.2, all.2⟩
    · exact Nat.not_le.mp fun due => draws ⟨dirty, ready, due⟩

end BongoCat

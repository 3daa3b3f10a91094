import Mathlib

/-!
# The pose of the cat

Which paws are down and where the mouse paw points, from the keys and buttons
held, the hold time of the last press and the presses no frame has shown yet.
The two bits of the source's `u8` are a function of the side here. Instants are
nanoseconds.
-/

namespace BongoCat

/-- Bit 0 is the keyboard paw, bit 1 the mouse paw. -/
inductive Side
  | keyboard | mouse
  deriving DecidableEq, Repr

inductive Axis
  | x | y
  deriving DecidableEq, Repr

instance : Fintype Side := ⟨{.keyboard, .mouse}, by intro s; cases s <;> decide⟩

instance : Fintype Axis := ⟨{.x, .y}, by intro a; cases a <;> decide⟩

abbrev Paws := Side → Bool

@[ext] structure Visual where
  keys : Paws
  mouse : Axis → Int

instance : DecidableEq Visual := fun _ _ => decidable_of_iff _ Visual.ext_iff.symm

def hold : Nat := 80 * 1000000

def side (code : Nat) : Option Side :=
  if 1 ≤ code ∧ code ≤ 255 then some .keyboard
  else if 272 ≤ code ∧ code ≤ 274 then some .mouse
  else none

structure Pose where
  /-- The keys that are down, for each device. -/
  devices : List (Finset Nat)
  held : Side → Nat
  holdUntil : Side → Option Nat
  shown : Paws
  unseen : Paws
  motion : Axis → Int

namespace Pose

def new (devices : Nat) : Pose where
  devices := List.replicate devices ∅
  held := fun _ => 0
  holdUntil := fun _ => none
  shown := fun _ => false
  unseen := fun _ => false
  motion := fun _ => 0

def limit : Axis → Int
  | .x => 320
  | .y => 192

def saturatingAdd (a b : Int) : Int := max (-2 ^ 31) (min (2 ^ 31 - 1) (a + b))

def clamp (low high v : Int) : Int := max low (min high v)

def move (p : Pose) (axis : Axis) (delta : Int) : Pose :=
  let moved := clamp (-limit axis) (limit axis) (saturatingAdd (p.motion axis) delta)
  { p with motion := Function.update p.motion axis moved }

/-- Wheels and other axes are ignored. -/
def relative (p : Pose) (axis : Nat) (delta : Int) : Pose :=
  match axis with
  | 0 => p.move .x delta
  | 1 => p.move .y delta
  | _ + 2 => p

def current (p : Pose) (now : Nat) : Paws := fun side =>
  decide (p.held side > 0) || p.unseen side || (p.holdUntil side).any fun t => decide (t > now)

def visual (p : Pose) (now : Nat) : Visual where
  keys := p.current now
  mouse := fun axis => (p.motion axis).tdiv 8

/-- Autorepeat and duplicate edges change nothing. -/
def key (p : Pose) (device code : Nat) (value : Int) (now : Nat) : Pose :=
  match side code with
  | none => p
  | some side =>
    let keys := p.devices.getD device ∅
    if value = 1 ∧ code ∉ keys then
      { p with
        devices := p.devices.set device (insert code keys)
        held := Function.update p.held side (p.held side + 1)
        holdUntil := Function.update p.holdUntil side (some (now + hold))
        unseen := Function.update p.unseen side (p.unseen side || !p.shown side) }
    else if value = 0 ∧ code ∈ keys then
      { p with
        devices := p.devices.set device (keys.erase code)
        held := Function.update p.held side (p.held side - 1) }
    else p

def releaseKey (p : Pose) (side : Side) : Pose :=
  let held := p.held side - 1
  if held = 0 then
    { p with
      held := Function.update p.held side held
      holdUntil := Function.update p.holdUntil side none
      unseen := Function.update p.unseen side false }
  else { p with held := Function.update p.held side held }

def disconnectLoop (keys : Finset Nat) : List Nat → Pose → Pose
  | [], p => p
  | code :: rest, p =>
    if code ∈ keys then
      -- a key that is down has a side
      match side code with
      | some side => disconnectLoop keys rest (p.releaseKey side)
      | none => disconnectLoop keys rest p
    else disconnectLoop keys rest p

def disconnect (p : Pose) (device : Nat) : Pose :=
  let keys := p.devices.getD device ∅
  disconnectLoop keys (List.range' 1 274) { p with devices := p.devices.set device ∅ }

def presented (p : Pose) (frame : Paws) (now : Nat) : Pose :=
  { p with
    holdUntil := fun side =>
      if frame side && !p.shown side then some (now + hold) else p.holdUntil side
    unseen := fun side => if frame side then false else p.unseen side
    shown := frame }

def sides : List Side := [.keyboard, .mouse]

def deadline (p : Pose) (now : Nat) : Option Nat :=
  (((sides.filter fun s => p.held s = 0).filterMap p.holdUntil).filter fun t => t > now).min?

/-- What is shown once every press has been seen and every hold has run out. -/
def steady (p : Pose) : Visual where
  keys := fun side => decide (p.held side > 0)
  mouse := fun axis => (p.motion axis).tdiv 8

variable {p : Pose} {now t : Nat}

/-- No side that is up is still held down for its hold time. -/
def Expired (p : Pose) (now : Nat) : Prop :=
  ∀ side, p.held side = 0 → ∀ t, p.holdUntil side = some t → t ≤ now

theorem mem_sides (s : Side) : s ∈ sides := by
  cases s <;> decide

theorem deadline_eq_none_iff : p.deadline now = none ↔ p.Expired now := by
  rw [deadline, List.min?_eq_none_iff, List.filter_eq_nil_iff]
  constructor
  · intro none_ side up t at_
    have listed : t ∈ (sides.filter fun s => p.held s = 0).filterMap p.holdUntil :=
      List.mem_filterMap.mpr ⟨side, List.mem_filter.mpr ⟨mem_sides side, decide_eq_true up⟩, at_⟩
    have past := none_ t listed
    exact Nat.not_lt.mp fun later => past (decide_eq_true later)
  · intro expired t listed
    obtain ⟨side, listed, at_⟩ := List.mem_filterMap.mp listed
    have up := of_decide_eq_true (List.mem_filter.mp listed).2
    have past := expired side up t at_
    exact fun later => Nat.not_lt.mpr past (of_decide_eq_true later)

theorem Expired.mono (expired : p.Expired now) (later : now ≤ t) : p.Expired t :=
  fun side up u at_ => Nat.le_trans (expired side up u at_) later

theorem current_apply (side : Side) :
    p.current now side = true ↔
      0 < p.held side ∨ p.unseen side = true ∨ ∃ u, p.holdUntil side = some u ∧ now < u := by
  rw [current, Bool.or_eq_true, Bool.or_eq_true, decide_eq_true_iff, Option.any_eq_true, or_assoc]
  simp only [decide_eq_true_iff, gt_iff_lt]

theorem current_of_expired (expired : p.Expired now) :
    p.current now = fun side => decide (0 < p.held side) || p.unseen side := by
  funext side
  rw [Bool.eq_iff_iff, current_apply, Bool.or_eq_true, decide_eq_true_iff]
  constructor
  · rintro (down | unseen | ⟨u, at_, later⟩)
    · exact .inl down
    · exact .inr unseen
    · by_cases up : p.held side = 0
      · exact absurd (expired side up u at_) (Nat.not_le.mpr later)
      · exact .inl (Nat.pos_of_ne_zero up)
  · rintro (down | unseen)
    · exact .inl down
    · exact .inr (.inl unseen)

theorem visual_of_expired (expired : p.Expired now) (later : now ≤ t) :
    p.visual t = p.visual now := by
  rw [visual, visual, current_of_expired expired, current_of_expired (expired.mono later)]

theorem visual_eq_steady (expired : p.Expired now) (seen : ∀ side, p.unseen side = false) :
    p.visual now = p.steady := by
  rw [visual, steady, current_of_expired expired]
  congr 1
  funext side
  rw [seen side, Bool.or_false]

end Pose

end BongoCat

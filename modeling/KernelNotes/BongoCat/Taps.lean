import KernelNotes.BongoCat.Pose
import KernelNotes.Lib.Run

/-!
# Taps on several devices

A side has one counter of held keys, one hold time and one unseen flag for all
devices, while keys are down on one device each. The counter is the number of keys
down, and a press that no frame has shown stays, unless a device disconnects that
holds every key of the side that is down: this also drops a press made and released
on another device.
-/

namespace BongoCat

open Runs

inductive PoseEvent (n : Nat)
  | key (device : Fin n) (code : Nat) (value : Int) (now : Nat)
  | disconnect (device : Fin n)
  | presented (frame : Paws) (now : Nat)

namespace PoseEvent

variable {n : Nat}

def time : PoseEvent n → Option Nat
  | key _ _ _ now => some now
  | disconnect _ => none
  | presented _ now => some now

/-- The times of the events do not decrease. -/
def Ordered (events : List (PoseEvent n)) : Prop :=
  (events.filterMap time).Pairwise (· ≤ ·)

instance (events : List (PoseEvent n)) : Decidable (Ordered events) :=
  inferInstanceAs (Decidable (List.Pairwise _ _))

end PoseEvent

namespace Pose

def step {n : Nat} (p : Pose) : PoseEvent n → Pose
  | .key device code value now => p.key device code value now
  | .disconnect device => p.disconnect device
  | .presented frame now => p.presented frame now

/-- The keys of the side among those that are down on one device. -/
def count (s : Side) (keys : Finset Nat) : Nat := (keys.filter fun code => side code = some s).card

def keysOf (p : Pose) (device : Nat) (s : Side) : Nat := count s (p.devices.getD device ∅)

/-- The keys of the side that are down, over all devices. -/
def down (p : Pose) (s : Side) : Nat := (p.devices.map (count s)).sum

variable {p : Pose}

variable {keys : Finset Nat} {code t now : Nat}

theorem count_insert {s : Side} (fresh : code ∉ keys) :
    count s (insert code keys) = count s keys + if side code = some s then 1 else 0 := by
  rw [count, count, Finset.filter_insert]
  split
  · exact Finset.card_insert_of_notMem fun mem => fresh (Finset.mem_filter.mp mem).1
  · rfl

theorem count_erase {s : Side} (pressed : code ∈ keys) :
    count s (keys.erase code) + (if side code = some s then 1 else 0) = count s keys := by
  have whole := count_insert (s := s) (Finset.notMem_erase code keys)
  rw [Finset.insert_erase pressed] at whole
  exact whole.symm

theorem sum_map_set {α : Type*} (f : α → Nat) (d x : α) {l : List α} {i : Nat}
    (inside : i < l.length) :
    ((l.set i x).map f).sum + f (l.getD i d) = (l.map f).sum + f x := by
  induction l generalizing i with
  | nil => exact absurd inside (Nat.not_lt_zero i)
  | cons y rest ih =>
    cases i with
    | zero =>
      rw [List.set_cons_zero, List.getD_cons_zero, List.map_cons, List.map_cons, List.sum_cons,
        List.sum_cons]
      omega
    | succ i =>
      have later := ih (Nat.lt_of_succ_lt_succ inside)
      rw [List.set_cons_succ, List.getD_cons_succ, List.map_cons, List.map_cons, List.sum_cons,
        List.sum_cons]
      omega

theorem keysOf_le_down (p : Pose) (device : Nat) (s : Side) : p.keysOf device s ≤ p.down s := by
  by_cases inside : device < p.devices.length
  · have whole := sum_map_set (count s) ∅ ∅ inside
    have empty : count s ∅ = 0 := rfl
    rw [keysOf, down]
    omega
  · rw [keysOf, List.getD_eq_getElem?_getD, List.getElem?_eq_none (Nat.not_lt.mp inside)]
    exact Nat.zero_le _

/-! ## What a disconnect does -/

/-- The device holds every key of the side that is down, and at least one. -/
def Strips (p : Pose) (device : Nat) (s : Side) : Prop :=
  0 < p.keysOf device s ∧ p.held s ≤ p.keysOf device s

/-- What the release of `k` keys of the side leaves of it. -/
structure Released (s : Side) (k : Nat) (p p' : Pose) : Prop where
  devices : p'.devices = p.devices
  held : p'.held s = p.held s - k
  dropped : 0 < k → p.held s ≤ k → p'.unseen s = false ∧ p'.holdUntil s = none
  kept : k = 0 ∨ k < p.held s → p'.unseen s = p.unseen s ∧ p'.holdUntil s = p.holdUntil s

namespace Released

variable {s : Side} {a b : Nat} {p' p'' : Pose}

theorem refl (s : Side) (p : Pose) : Released s 0 p p :=
  ⟨rfl, rfl, fun pos => absurd pos (Nat.lt_irrefl 0), fun _ => ⟨rfl, rfl⟩⟩

theorem trans (first : Released s a p p') (second : Released s b p' p'') :
    Released s (a + b) p p'' where
  devices := second.devices.trans first.devices
  held := by rw [second.held, first.held, Nat.sub_sub]
  dropped := by
    intro pos all
    by_cases none_ : b = 0
    · obtain ⟨unseen, until_⟩ := second.kept (.inl none_)
      rw [unseen, until_]
      exact first.dropped (by omega) (by omega)
    · exact second.dropped (by omega) (by rw [first.held]; omega)
  kept := by
    intro some_
    obtain ⟨unseen, until_⟩ := first.kept (by omega)
    rw [← unseen, ← until_]
    exact second.kept (by rw [first.held]; omega)

end Released

theorem releaseKey_released (p : Pose) (r s : Side) :
    Released s (if r = s then 1 else 0) p (p.releaseKey r) := by
  by_cases same : r = s
  · subst same
    rw [if_pos rfl, releaseKey]
    by_cases last : p.held r - 1 = 0
    · rw [if_pos last]
      exact ⟨rfl, Function.update_self .., fun _ _ => ⟨Function.update_self .., Function.update_self ..⟩,
        fun some_ => by omega⟩
    · rw [if_neg last]
      exact ⟨rfl, Function.update_self .., fun _ _ => by omega, fun _ => ⟨rfl, rfl⟩⟩
  · have other : s ≠ r := fun h => same h.symm
    rw [if_neg same, releaseKey]
    split
    · exact ⟨rfl, Function.update_of_ne other .., fun pos => absurd pos (Nat.lt_irrefl 0),
        fun _ => ⟨Function.update_of_ne other .., Function.update_of_ne other ..⟩⟩
    · exact ⟨rfl, Function.update_of_ne other .., fun pos => absurd pos (Nat.lt_irrefl 0),
        fun _ => ⟨rfl, rfl⟩⟩

theorem disconnectLoop_released (keys : Finset Nat) (s : Side) (codes : List Nat) (p : Pose) :
    Released s (codes.countP fun code => code ∈ keys ∧ side code = some s) p
      (disconnectLoop keys codes p) := by
  induction codes generalizing p with
  | nil => exact .refl s p
  | cons code rest ih =>
    rw [disconnectLoop, List.countP_cons, Nat.add_comm]
    by_cases pressed : code ∈ keys
    · rw [if_pos pressed]
      cases here : side code with
      | none =>
        rw [if_neg (by simp)]
        exact (Released.refl s p).trans (ih p)
      | some r =>
        have first := releaseKey_released p r s
        have same : (if decide (code ∈ keys ∧ side code = some s) = true then 1 else 0) =
            if r = s then 1 else 0 := by simp [pressed, here]
        rw [here] at same
        rw [same]
        exact first.trans (ih _)
    · rw [if_neg pressed, if_neg (by simp [pressed])]
      exact (Released.refl s p).trans (ih p)

theorem countP_codes (keys : Finset Nat) (s : Side) :
    (List.range' 1 274).countP (fun code => code ∈ keys ∧ side code = some s) = count s keys := by
  have nodup := (List.nodup_range' (s := 1) (n := 274)).filter
    fun code => decide (code ∈ keys ∧ side code = some s)
  rw [List.countP_eq_length_filter, ← List.toFinset_card_of_nodup nodup, count]
  congr 1
  ext code
  rw [List.mem_toFinset, List.mem_filter, Finset.mem_filter, decide_eq_true_iff, List.mem_range'_1]
  refine and_iff_right_of_imp fun found => ?_
  have some_ := found.2
  rw [side] at some_
  split at some_
  · omega
  · split at some_
    · omega
    · exact absurd some_ (nomatch ·)

theorem disconnect_released (p : Pose) (device : Nat) (s : Side) :
    Released s (p.keysOf device s) { p with devices := p.devices.set device ∅ }
      (p.disconnect device) := by
  rw [keysOf, ← countP_codes]
  exact disconnectLoop_released _ s _ _

/-! ## One step -/

/-- The counters are the numbers of keys down. -/
structure Balanced (n : Nat) (p : Pose) : Prop where
  devices : p.devices.length = n
  held : ∀ s, p.held s = p.down s

variable {n : Nat}

theorem Balanced.set_keys {p' : Pose} (balanced : Balanced n p) (device : Fin n)
    (devices : p'.devices = p.devices.set device keys)
    (held : ∀ s, p'.held s + p.keysOf device s = p.held s + count s keys) : Balanced n p' := by
  refine ⟨by rw [devices, List.length_set, balanced.devices], fun s => ?_⟩
  have inside : device < p.devices.length := balanced.devices ▸ device.2
  have whole := sum_map_set (count s) ∅ keys inside
  have before := balanced.held s
  have change := held s
  rw [down] at before ⊢
  rw [devices]
  rw [keysOf] at change
  omega

theorem Balanced.keysOf_le (balanced : Balanced n p) (device : Nat) (s : Side) :
    p.keysOf device s ≤ p.held s := by
  rw [balanced.held s]
  exact keysOf_le_down p device s

theorem key_balanced (balanced : Balanced n p) (device : Fin n) (code : Nat) (value : Int)
    (now : Nat) : Balanced n (p.key device code value now) := by
  rw [key]
  split
  · exact balanced
  next pressed found =>
  have same (s : Side) : some pressed = some s ↔ s = pressed :=
    ⟨fun h => (Option.some.inj h).symm, fun h => congrArg some h.symm⟩
  dsimp only
  split
  next press =>
    refine balanced.set_keys device rfl fun s => ?_
    rw [count_insert press.2, found, keysOf]
    simp only [same, Function.update_apply]
    split
    next h => rw [h]; omega
    · omega
  · split
    next release =>
      refine balanced.set_keys device rfl fun s => ?_
      have erased := count_erase (s := s) release.2
      have least := balanced.keysOf_le device s
      rw [found] at erased
      rw [keysOf] at least ⊢
      dsimp only
      rw [Function.update_apply]
      simp only [same] at erased
      split at erased
      next h => rw [if_pos h, ← h]; omega
      next h => rw [if_neg h]; omega
    · exact balanced

theorem step_balanced (balanced : Balanced n p) (event : PoseEvent n) :
    Balanced n (p.step event) := by
  cases event with
  | key device code value now => exact key_balanced balanced device code value now
  | presented frame now => exact ⟨balanced.devices, balanced.held⟩
  | disconnect device =>
    refine balanced.set_keys device (disconnect_released p device .mouse).devices fun s => ?_
    have least := balanced.keysOf_le device s
    rw [step, (disconnect_released p device s).held]
    exact Nat.sub_add_cancel least

theorem key_keeps (p : Pose) (device code : Nat) (value : Int) (now : Nat) (s : Side) :
    (p.unseen s = true → (p.key device code value now).unseen s = true) ∧
    ((p.key device code value now).holdUntil s = p.holdUntil s ∨
      (p.key device code value now).holdUntil s = some (now + hold)) := by
  rw [key]
  split
  · exact ⟨id, .inl rfl⟩
  next pressed _ =>
  dsimp only
  split
  · dsimp only
    by_cases same : s = pressed
    · subst same
      rw [Function.update_self, Function.update_self]
      exact ⟨fun unseen => by rw [unseen, Bool.true_or], .inr rfl⟩
    · rw [Function.update_of_ne same, Function.update_of_ne same]
      exact ⟨id, .inl rfl⟩
  · split
    · exact ⟨id, .inl rfl⟩
    · exact ⟨id, .inl rfl⟩

/-- The event shows no frame with the side and does not disconnect the device. -/
def Awaits (s : Side) (device : Fin n) : PoseEvent n → Prop
  | .key .. => True
  | .disconnect other => other ≠ device
  | .presented frame _ => frame s = false

theorem step_unseen {s : Side} {device : Fin n} {event : PoseEvent n} (unseen : p.unseen s = true)
    (awaits : Awaits s device event)
    (whole : ∀ other, event = .disconnect other → other ≠ device → ¬ p.Strips other s) :
    (p.step event).unseen s = true := by
  cases event with
  | key device code value now => exact (key_keeps p device code value now s).1 unseen
  | presented frame now => exact (if_neg (ne_true_of_eq_false awaits)).trans unseen
  | disconnect other =>
    have spared := whole other rfl awaits
    rw [Strips] at spared
    have kept := ((disconnect_released p other s).kept (by dsimp only; omega)).1
    exact kept.trans unseen

theorem step_holds {s : Side} {event : PoseEvent n}
    (holds : ∃ u, p.holdUntil s = some u ∧ t + hold ≤ u) (later : ∀ u, event.time = some u → t ≤ u)
    (idle : ∀ other, event = .disconnect other → p.keysOf other s = 0) :
    ∃ u, (p.step event).holdUntil s = some u ∧ t + hold ≤ u := by
  cases event with
  | key device code value now =>
    have bound := later now rfl
    rcases (key_keeps p device code value now s).2 with same | set_
    · exact holds.imp fun u facts => ⟨same.trans facts.1, facts.2⟩
    · exact ⟨now + hold, set_, by omega⟩
  | presented frame now =>
    have bound := later now rfl
    rw [step, presented]
    dsimp only
    split
    · exact ⟨now + hold, rfl, by omega⟩
    · exact holds
  | disconnect other =>
    have kept := ((disconnect_released p other s).kept (.inl (idle other rfl))).2
    exact holds.imp fun u facts => ⟨kept.trans facts.1, facts.2⟩

theorem current_of_strips {device : Nat} {s : Side} (strips : p.Strips device s) (t : Nat) :
    (p.disconnect device).current t s = false := by
  have released := disconnect_released p device s
  obtain ⟨unseen, until_⟩ := released.dropped strips.1 strips.2
  rw [Bool.eq_false_iff]
  intro shown
  rcases (current_apply s).mp shown with held | seen | ⟨u, at_, -⟩
  · rw [released.held] at held
    have := strips.2
    dsimp only at held
    omega
  · rw [unseen] at seen
    exact Bool.false_ne_true seen
  · rw [until_] at at_
    exact nomatch at_

theorem current_before_deadline (le : now ≤ t) (before : ∀ d, p.deadline now = some d → t < d) :
    p.current t = p.current now := by
  funext s
  rw [Bool.eq_iff_iff, current_apply, current_apply]
  by_cases held : 0 < p.held s
  · exact iff_of_true (.inl held) (.inl held)
  refine or_congr_right (or_congr_right (exists_congr fun u => and_congr_right fun at_ => ?_))
  refine ⟨fun lt => Nat.lt_of_le_of_lt le lt, fun lt => ?_⟩
  have listed : u ∈ ((sides.filter fun s => p.held s = 0).filterMap p.holdUntil).filter
      fun t => t > now := by
    refine List.mem_filter.mpr ⟨List.mem_filterMap.mpr ⟨s, List.mem_filter.mpr
      ⟨mem_sides s, decide_eq_true (by omega)⟩, at_⟩, decide_eq_true lt⟩
  obtain ⟨d, least⟩ := Option.isSome_iff_exists.mp (List.isSome_min?_of_mem listed)
  exact Nat.lt_of_lt_of_le (before d least) ((List.min?_eq_some_iff.mp least).2 u listed)

/-! ## Runs -/

def reached (events : List (PoseEvent n)) : Pose := run step (new n) events

theorem reached_balanced (events : List (PoseEvent n)) : Balanced n (reached events) := by
  have start : Balanced n (new n) := by
    refine ⟨List.length_replicate, fun s => ?_⟩
    rw [down, new, List.map_replicate, List.sum_replicate]
    exact (Nat.mul_zero n).symm
  have kept : ∀ (p : Pose) (event : PoseEvent n), Balanced n p → True → Balanced n (p.step event) :=
    fun p event balanced _ => step_balanced balanced event
  exact invariant_run kept start (along_true _ events)

theorem reached_append (events more : List (PoseEvent n)) :
    reached (events ++ more) = run step (reached events) more :=
  run_append ..

/-- The key is up, and the paw of its side is shown up. -/
def Pressed (p : Pose) (device code : Nat) (s : Side) : Prop :=
  side code = some s ∧ code ∉ p.devices.getD device ∅ ∧ p.shown s = false

theorem Pressed.unseen {device : Nat} {s : Side} (pressed : p.Pressed device code s) (now : Nat) :
    (p.key device code 1 now).unseen s = true := by
  rw [key, pressed.1]
  dsimp only
  rw [if_pos ⟨rfl, pressed.2.1⟩]
  dsimp only
  rw [Function.update_self, pressed.2.2]
  exact Bool.or_true _

/-- No tap is lost and no key sticks, at any point of the run. -/
structure Faithful (events : List (PoseEvent n)) : Prop where
  counted : ∀ before rest, events = before ++ rest → ∀ s,
    (reached before).held s = (reached before).down s ∧
    ∀ device, (reached before).keysOf device s ≤ (reached before).held s
  tap : ∀ before (device : Fin n) code now mid rest s,
    events = before ++ .key device code 1 now :: (mid ++ rest) →
    (reached before).Pressed device code s → (∀ event ∈ mid, Awaits s device event) →
    ∀ t, (reached (before ++ .key device code 1 now :: mid)).current t s = true
  holds : ∀ before frame t mid rest s, events = before ++ .presented frame t :: (mid ++ rest) →
    frame s = true → (reached before).shown s = false →
    (∀ first (other : Fin n) later, mid = first ++ .disconnect other :: later →
      (reached (before ++ .presented frame t :: first)).keysOf other s = 0) →
    ∀ now, now < t + hold → (reached (before ++ .presented frame t :: mid)).current now s = true
  constant : ∀ before rest, events = before ++ rest → ∀ now t, now ≤ t →
    (∀ d, (reached before).deadline now = some d → t < d) →
    (reached before).current t = (reached before).current now

/-- While a press is awaited, no other device disconnects that holds every key of the side. -/
def Unstripped (events : List (PoseEvent n)) : Prop :=
  ∀ before (device : Fin n) code now mid (other : Fin n) rest s,
    events = before ++ .key device code 1 now :: (mid ++ .disconnect other :: rest) →
    (reached before).Pressed device code s → (∀ event ∈ mid, Awaits s device event) →
    other ≠ device → ¬ (reached (before ++ .key device code 1 now :: mid)).Strips other s

theorem tap_kept {before mid rest events : List (PoseEvent n)} {device : Fin n} {s : Side}
    (unstripped : Unstripped events)
    (split : events = before ++ .key device code 1 now :: (mid ++ rest))
    (pressed : (reached before).Pressed device code s)
    (awaits : ∀ event ∈ mid, Awaits s device event) (t : Nat) :
    (reached (before ++ .key device code 1 now :: mid)).current t s = true := by
  rw [reached_append, run_cons]
  refine (current_apply s).mpr (.inr (.inl ?_))
  have kept : ∀ (p : Pose) (event : PoseEvent n), p.unseen s = true →
      (Awaits s device event ∧
        ∀ other, event = .disconnect other → other ≠ device → ¬ p.Strips other s) →
      (p.step event).unseen s = true := fun p event unseen ok => step_unseen unseen ok.1 ok.2
  refine invariant_run kept (pressed.unseen now)
    (along_of_splits fun first event later cut => ⟨awaits event ?_, ?_⟩)
  · rw [cut]
    exact List.mem_append_right _ List.mem_cons_self
  · rintro other rfl ne
    have spared := unstripped before device code now first other (later ++ rest) s
      (by rw [split, cut, List.append_assoc, List.cons_append]) pressed
      (fun event mem => awaits event (cut ▸ List.mem_append_left _ mem)) ne
    rwa [reached_append, run_cons] at spared

theorem hold_kept {before mid rest events : List (PoseEvent n)} {frame : Paws} {s : Side}
    (ordered : PoseEvent.Ordered events)
    (split : events = before ++ .presented frame t :: (mid ++ rest)) (shows : frame s = true)
    (hidden : (reached before).shown s = false)
    (idle : ∀ first (other : Fin n) later, mid = first ++ .disconnect other :: later → (reached (before ++ .presented frame t :: first)).keysOf other s = 0)
    (early : now < t + hold) :
    (reached (before ++ .presented frame t :: mid)).current now s = true := by
  rw [reached_append, run_cons]
  have start : ((reached before).presented frame t).holdUntil s = some (t + hold) :=
    if_pos (by rw [shows, hidden]; rfl)
  have later : ∀ event ∈ mid, ∀ u, event.time = some u → t ≤ u := by
    rw [PoseEvent.Ordered, List.pairwise_filterMap, split] at ordered
    intro event mem u at_
    exact (List.pairwise_cons.mp (List.pairwise_append.mp ordered).2.1).1 event
      (List.mem_append_left _ mem) t rfl u at_
  have kept : ∀ (p : Pose) (event : PoseEvent n), (∃ u, p.holdUntil s = some u ∧ t + hold ≤ u) →
      ((∀ u, event.time = some u → t ≤ u) ∧
        ∀ other, event = .disconnect other → p.keysOf other s = 0) →
      ∃ u, (p.step event).holdUntil s = some u ∧ t + hold ≤ u :=
    fun p event holds ok => step_holds holds ok.1 ok.2
  have along : Along step (fun p event => (∀ u, event.time = some u → t ≤ u) ∧
      ∀ other, event = .disconnect other → p.keysOf other s = 0)
      ((reached before).presented frame t) mid := by
    refine along_of_splits fun first event rest' cut => ⟨later event ?_, ?_⟩
    · rw [cut]
      exact List.mem_append_right _ List.mem_cons_self
    · rintro other rfl
      have none_ := idle first other rest' cut
      rwa [reached_append, run_cons] at none_
  obtain ⟨u, at_, le⟩ := invariant_run kept ⟨t + hold, start, le_rfl⟩ along
  exact (current_apply s).mpr (.inr (.inr ⟨u, at_, by omega⟩))

/-- The runs in which no tap is lost are those in which no other device takes the last keys of
the side away while a press is still to be shown. -/
theorem faithful_iff_unstripped (events : List (PoseEvent n))
    (ordered : PoseEvent.Ordered events) : Faithful events ↔ Unstripped events := by
  constructor
  · intro faithful before device code now mid other rest s split pressed awaits ne strips
    have kept := faithful.tap before device code now (mid ++ [.disconnect other]) rest s
      (by rw [split, List.append_assoc]; rfl) pressed (fun event mem => ?_) 0
    · rw [← List.cons_append, ← List.append_assoc, reached_append] at kept
      exact Bool.false_ne_true ((current_of_strips strips 0).symm.trans kept)
    · rcases List.mem_append.mp mem with mem | mem
      · exact awaits event mem
      · rw [List.mem_singleton.mp mem]
        exact ne
  · intro unstripped
    exact {
      counted := fun before rest _ s => ⟨(reached_balanced before).held s,
        fun device => (reached_balanced before).keysOf_le device s⟩
      tap := fun before device code now mid rest s split pressed awaits t =>
        tap_kept unstripped split pressed awaits t
      holds := fun before frame t mid rest s split shows hidden idle now early =>
        hold_kept ordered split shows hidden idle early
      constant := fun before rest _ now t le early => current_before_deadline le early }

/-- A tap on the first device, then a key of the second, which goes away holding it. -/
def secondLeaves : List (PoseEvent 2) :=
  [.key 0 30 1 0, .key 0 30 0 0, .key 1 30 1 0, .disconnect 1]

/-- The tap is gone before any frame has shown it, though its device is still there. -/
theorem secondLeaves_not_faithful :
    ¬ Faithful secondLeaves ∧ PoseEvent.Ordered secondLeaves := by
  constructor
  · intro faithful
    have kept := faithful.tap [] 0 30 0 [.key 0 30 0 0, .key 1 30 1 0, .disconnect 1] [] .keyboard
      rfl ⟨rfl, Finset.notMem_empty 30, rfl⟩ (by simp [Awaits]) 0
    exact absurd kept (by decide +kernel)
  · decide

/-- The chord of the source's own test, with its second device still there. -/
def twoDevices : List (PoseEvent 2) :=
  [.key 0 30 1 0, .key 0 31 1 0, .key 1 30 1 0, .key 0 30 0 0, .key 0 31 0 0]

theorem twoDevices_faithful : Faithful twoDevices := by
  refine (faithful_iff_unstripped twoDevices (by decide)).mpr ?_
  intro before device code now mid other rest s split
  have left : .disconnect other ∈ twoDevices := by
    rw [split]
    simp
  simp [twoDevices] at left

end Pose

end BongoCat

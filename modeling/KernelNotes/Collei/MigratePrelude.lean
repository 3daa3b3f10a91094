import KernelNotes.Collei.MigrateImages

/-!
# The part of `migrate_nbd` that can be undone

Until `migrate-continue` has had its effect nothing has happened to the guest: whatever fails, the
storage slot is the old one and its images hold the latest writes. What is said here of that part
holds of the exception handler too, as long as it takes the guest for the source's.
-/

namespace Collei

open Outcome

/-- One guest, in the place that `storage_slot` names: the target, if it started, and else still the
source. -/
structure Authoritative (before after : Run) : Prop where
  moved : after.started = true →
    after.vm.storageSlot = after.target ∧ after.vm.running after.target = true ∧ after.resumed = false
  kept : after.started = false → after.vm.storageSlot = before.vm.storageSlot
  alone : after.both = false
  latest : after.current after.vm.storageSlot = true

/-! ## Until the switchover is known -/

/-- The storage slot is the old one, and as long as the target has not started the guest is the
source's. `b` tells whether the switchover has begun. -/
structure Unswitched (before : Run) (b : Bool) (r : Run) : Prop where
  source : r.source = before.source
  images : r.images = before.images
  storage : r.vm.storageFile = before.vm.storageFile
  switched : r.switched = false
  began : r.began = b
  whole : r.orphaned = false
  quiet : b = false → r.started = false
  idle : r.started = false → r.vm.running r.target = false
  alone : r.started = false → r.both = false
  latest : r.started = false → r.current r.images = true

namespace Unswitched

variable {before : Run} {b : Bool} {r : Run}

theorem storageSlot (u : Unswitched before b r) : r.vm.storageSlot = before.vm.storageSlot := by
  rw [Vm.storageSlot, u.storage, Vm.storageSlot]

/-- While nothing is recorded, one guest is authoritative as long as the target has not
started. -/
theorem authoritative_iff (u : Unswitched before b r) (apart : before.vm.storageSlot = before.source)
    (same : before.images = before.vm.storageSlot) : Authoritative before r ↔ r.started = false := by
  constructor
  · intro one
    by_contra started
    rw [Bool.not_eq_false] at started
    have slot := (one.moved started).1
    rw [u.storageSlot, apart, ← u.source] at slot
    exact Slot.ne_other _ slot
  · intro still
    refine ⟨?_, fun _ => u.storageSlot, u.alone still, ?_⟩
    · intro started
      rw [still] at started
      cases started
    · rw [u.storageSlot, ← same, ← u.images]
      exact u.latest still

theorem targetStarts (u : Unswitched before b r) : Unswitched before b (targetStarts r) := by
  rw [Collei.targetStarts]
  split
  · rename_i starts
    simp only [Bool.and_eq_true] at starts
    exact
      { u with
        storage := u.storage
        quiet := by
          intro idle
          have began := starts.1.1
          rw [u.began, idle] at began
          cases began
        idle := by simp
        alone := by simp
        latest := by simp }
  · exact u

theorem session (u : Unswitched before b r) (session : Session) :
    Unswitched before b { r with session } := { u with }

theorem ambient (before : Run) (b : Bool) : Ambient (Unswitched before b) :=
  ⟨fun _ u => u.targetStarts, fun _ session u => u.session session⟩

end Unswitched

theorem Vm.running_setRunning_ne {vm : Vm} {slot other : Slot} (different : other ≠ slot)
    (running : Bool) : (vm.setRunning slot running).running other = vm.running other := by
  rw [Vm.running, Vm.running, Vm.setRunning]
  simp [Function.update_of_ne different]

theorem Vm.running_exit_le {vm : Vm} {slot other : Slot} (stopped : vm.running other = false) :
    (vm.exit slot).running other = false := by
  rw [Vm.running] at stopped
  rw [Vm.running, Vm.exit]
  by_cases same : other = slot
  · subst same
    simp
  · simpa [Function.update_of_ne same] using stopped

namespace Unswitched

variable {before : Run} {b : Bool} {r : Run}

theorem pause (u : Unswitched before b r) :
    Unswitched before b { r with vm := r.vm.setRunning r.source false } :=
  { u with
    idle := fun still => by
      rw [← u.idle still]
      exact Vm.running_setRunning_ne (Slot.other_ne _) _ }

theorem exit (u : Unswitched before b r) (slot : Slot) :
    Unswitched before b { r with vm := r.vm.exit slot } :=
  { u with idle := fun still => Vm.running_exit_le (u.idle still) }

theorem continueSource (u : Unswitched before b r) : Unswitched before b (continueSource r) :=
  { u with
    idle := fun still => by
      rw [← u.idle still]
      exact Vm.running_setRunning_ne (Slot.other_ne _) _
    alone := fun still => by
      show (r.both || (r.vm.alive r.source && r.vm.running r.target)) = false
      rw [u.alone still, u.idle still, Bool.and_false, Bool.or_false]
    latest := fun still => by
      show (decide (r.images = r.images) && !r.orphaned && r.current r.images) = true
      rw [u.whole, u.latest still]
      simp }

theorem finished (u : Unswitched before b r) (apart : before.images = before.source) (copied : Bool) :
    Unswitched before b { r with current := Function.update r.current r.target copied } :=
  { u with
    latest := fun still => by
      have elsewhere : r.images ≠ r.target := by
        rw [u.images, apart, ← u.source]
        exact Slot.ne_other _
      show Function.update r.current r.target copied r.images = true
      rw [Function.update_of_ne elsewhere]
      exact u.latest still }

end Unswitched

/-! ## Before the switchover -/

theorem selectLaunchRuntime_keeps (options : LaunchOptions) (vm : Vm) :
    ∃ source target, (selectLaunchRuntime options vm).2 =
      { vm with migrateSource := source, migrateTarget := target } := by
  rw [selectLaunchRuntime.eq_def]
  dsimp only
  repeat' split
  all_goals exact ⟨_, _, rfl⟩

/-- A launch leaves the storage slot alone, and a process it adds in order to receive a guest does
not run one. -/
theorem launch_waits (config : Config) (flags : List Flag) (disks : (slot : Slot) → Option (Disks slot))
    (vm : Vm) (waits : (LaunchOptions.parse flags).migration = some .defer) :
    (launch config flags disks vm).2.storageFile = vm.storageFile ∧
      ∀ slot, vm.running slot = false → (launch config flags disks vm).2.running slot = false := by
  have keeps := selectLaunchRuntime_keeps (LaunchOptions.parse flags) vm
  rw [launch]
  dsimp only
  split
  · exact ⟨rfl, fun _ stopped => stopped⟩
  revert keeps
  obtain ⟨result, vm'⟩ := selectLaunchRuntime (LaunchOptions.parse flags) vm
  rintro ⟨source, target, rfl⟩
  cases result with
  | error e => exact ⟨rfl, fun _ stopped => stopped⟩
  | ok runtime =>
    dsimp only
    split
    · exact ⟨rfl, fun _ stopped => stopped⟩
    split
    · exact ⟨rfl, fun _ stopped => stopped⟩
    refine ⟨rfl, ?_⟩
    intro slot stopped
    rw [Vm.running] at stopped ⊢
    by_cases here : slot = runtime.whichQemu
    · subst here
      simp [waits]
    · simpa [Function.update_of_ne here] using stopped

theorem ambient_before {before : Run} {P : Run → Prop}
    (apart : ∀ r session, P r → P { r with session }) :
    Ambient fun r => Unswitched before false r ∧ P r where
  starts := by
    rintro r ⟨u, holds⟩
    rw [targetStarts_of_not_began u.began]
    exact ⟨u, holds⟩
  session := fun r session both => ⟨both.1.session session, apart r session both.2⟩

theorem queryBlock_keeps {inv : Run → Prop} (starts : ∀ r, inv r → inv (targetStarts r)) (turn : Turn)
    (slot : Slot) : Keeps inv (queryBlock turn slot) := by
  refine Keeps.bind (ask_keeps starts _) fun _ => Keeps.bind Keeps.read fun r => ?_
  cases r.vm.qemu slot with
  | some q => exact Keeps.pure _
  | none => exact Keeps.fail _

theorem hmpCommands_keeps {inv : Run → Prop} (starts : ∀ r, inv r → inv (targetStarts r))
    (turns : List Turn) : Keeps inv (hmpCommands turns) := by
  induction turns with
  | nil => exact Keeps.pure ()
  | cons turn rest ih =>
    rw [hmpCommands]
    exact Keeps.bind (ask_keeps starts _) fun _ => ih

/-- The source was never resumed since the switchover began. -/
def Fresh (r : Run) : Prop := r.resumed = false

def TargetAlive (r : Run) : Prop := r.resumed = false ∧ r.vm.alive r.target = true

def Paused (r : Run) : Prop := TargetAlive r ∧ r.vm.running r.source = false

def Copied (r : Run) : Prop := Paused r ∧ r.current r.target = true

/-- Nothing is left of the session. -/
structure Session.Empty (session : Session) : Prop where
  jobs : session.jobs = []
  clients : session.clients = []
  exports : session.exports = []
  server : session.serverStarted = false

theorem waitQmpReady_ends (before : Run) (polls : List QmpReadyPoll) :
    ∀ r, Unswitched before false r ∧ Fresh r →
      Ends (fun _ r' => Unswitched before false r' ∧ TargetAlive r')
        (fun _ r' => Unswitched before false r') (waitQmpReady polls r) := by
  have ambient : Ambient fun r => Unswitched before false r ∧ Fresh r :=
    ambient_before fun _ _ fresh => fresh
  induction polls with
  | nil => exact fun r holds => Ends.fail holds.1
  | cons poll rest ih =>
    intro r holds
    rw [waitQmpReady]
    refine Ends.bind (fun a s => r = s ∧ r = a) (Ends.pure ⟨rfl, rfl⟩) ?_
    rintro _ _ ⟨rfl, rfl⟩
    refine Ends.refuse_bind (fun _ => holds.1) fun _ => ?_
    refine Ends.bind (fun _ s => r = s) ?_ ?_
    · have same : Keeps (fun s => r = s) (attempt (ask poll.query)) := by
        refine attempt_keeps (ask_keeps ?_ _)
        rintro _ rfl
        exact (targetStarts_of_not_began holds.1.began).symm
      refine (same r rfl).mono (fun _ _ eq => eq) ?_
      rintro _ _ rfl
      exact holds.1
    · rintro failed _ rfl
      split
      · rename_i ready
        rw [Bool.and_eq_true] at ready
        exact Ends.pure ⟨holds.1, holds.2, ready.2⟩
      · refine Ends.bind _ ((ambient.ask _ r holds).mono (fun _ _ kept => kept) fun _ _ kept => kept.1) ?_
        exact fun _ s kept => ih s kept

theorem Vm.alive_setRunning (vm : Vm) (slot other : Slot) (running : Bool) :
    (vm.setRunning slot running).alive other = vm.alive other := by
  rw [Vm.alive, Vm.alive, Vm.setRunning]
  by_cases same : other = slot
  · subst same
    simp
  · simp [Function.update_of_ne same]

theorem Vm.running_setRunning_false (vm : Vm) (slot : Slot) :
    (vm.setRunning slot false).running slot = false := by
  rw [Vm.running, Vm.setRunning]
  cases there : vm.qemu slot <;> simp [there]

/-- The status `pre-switchover` means that the source guest is paused. -/
theorem waitMigrationStatus_ends (before : Run) (polls : List StatusPoll) :
    ∀ r, Unswitched before false r ∧ TargetAlive r →
      Ends (fun _ r' => Unswitched before false r' ∧ Paused r')
        (fun _ r' => Unswitched before false r') (waitMigrationStatus polls r) := by
  have ambient : Ambient fun r => Unswitched before false r ∧ TargetAlive r :=
    ambient_before fun _ _ alive => alive
  have pause : ∀ r, Unswitched before false r ∧ TargetAlive r →
      Unswitched before false { r with vm := r.vm.setRunning r.source false } ∧
        Paused { r with vm := r.vm.setRunning r.source false } := by
    rintro r ⟨u, resumed, alive⟩
    refine ⟨u.pause, ⟨resumed, ?_⟩, Vm.running_setRunning_false _ _⟩
    exact (Vm.alive_setRunning r.vm r.source r.target false).trans alive
  induction polls with
  | nil => exact fun r holds => Ends.fail holds.1
  | cons poll rest ih =>
    intro r holds
    rw [waitMigrationStatus]
    have asked := call_ends (r := r) holds.1.began poll.query fun r =>
      if poll.status = .reached then { r with vm := r.vm.setRunning r.source false } else r
    cases status : poll.status with
    | reached =>
      rw [status] at asked
      refine Ends.bind (fun _ r' => Unswitched before false r' ∧ Paused r') (asked.mono ?_ ?_) ?_
      · rintro _ _ rfl
        exact pause r holds
      · rintro _ _ (rfl | rfl)
        · exact holds.1
        · exact (pause r holds).1
      · exact fun _ _ paused => Ends.pure paused
    | stopped =>
      rw [status] at asked
      refine Ends.bind (fun _ r' => r' = r) (asked.mono (fun _ _ same => same) ?_) ?_
      · rintro _ _ (rfl | rfl) <;> exact holds.1
      · rintro _ _ rfl
        exact Ends.fail holds.1
    | other =>
      rw [status] at asked
      refine Ends.bind (fun _ r' => r' = r) (asked.mono (fun _ _ same => same) ?_) ?_
      · rintro _ _ (rfl | rfl) <;> exact holds.1
      · rintro _ _ rfl
        refine Ends.bind _
          ((ambient.ask _ _ holds).mono (fun _ _ kept => kept) fun _ _ kept => kept.1) ?_
        exact fun _ s kept => ih s kept

theorem finish_ends {before : Run} (apart : before.images = before.source) (c : FinishCalls) {r : Run}
    (u : Unswitched before false r) (paused : Paused r) :
    Ends (fun _ r' => Unswitched before false r' ∧ Copied r')
      (fun _ r' => Unswitched before false r') (finish c r) := by
  have ambient : Ambient fun r => Unswitched before false r ∧ Paused r :=
    ambient_before fun _ _ paused => paused
  refine Ends.bind _ ((cancelJobs_keeps ambient c r ⟨u, paused⟩).mono (fun _ _ kept => kept)
    fun _ _ kept => kept.1) ?_
  rintro _ r' ⟨u', paused'⟩
  refine (⟨u'.finished apart _, paused', ?_⟩ :
    _ ∧ Copied { r' with current := Function.update r'.current r'.target (!r'.vm.running r'.source) })
  show Function.update r'.current r'.target (!r'.vm.running r'.source) r'.target = true
  rw [Function.update_self, paused'.2]
  rfl

/-! ## The clean-up -/

theorem stage_ends (inv : Run → Prop) {todo : Session → Bool} {x : Session → Op Run Raised Unit}
    {failed : Raised → Run → Prop} {r : Run}
    (keeps : ∀ session, Keeps inv (x session)) (holds : inv r) (bad : ∀ e r', inv r' → failed e r')
    (done : ∀ r', inv r' → Ends (fun _ r'' => todo r''.session = false) (fun _ _ => True) (x r'.session r')) :
    Ends (fun error r' => inv r' ∧ (error = false → todo r'.session = false)) failed (stage todo x r) := by
  rw [stage]
  split
  · have kept := keeps r.session r holds
    have clear := done r holds
    rw [attempt]
    revert kept clear
    obtain ⟨result, r'⟩ := x r.session r
    intro kept clear
    rcases result with (_ | _ | _ | _) | _
    · exact ⟨kept, by simp⟩
    · exact ⟨kept, by simp⟩
    · exact bad _ _ kept
    · exact bad _ _ kept
    · exact ⟨kept, fun _ => clear⟩
  · rename_i clear
    exact ⟨holds, fun _ => by simpa using clear⟩

theorem targetStarts_session (r : Run) : (targetStarts r).session = r.session := by
  rw [targetStarts]
  split <;> rfl

theorem waitJobsConcluded_nil (polls : List ConcludedPoll) (errors : Bool) (r : Run) :
    Ends (fun _ r' => r'.session.jobs = []) (fun _ _ => True) (waitJobsConcluded polls [] errors r) := by
  rw [waitJobsConcluded]
  refine Ends.bind (fun _ r' => r'.session.jobs = []) (show _ = _ from rfl) ?_
  exact fun _ _ none => Ends.refuse (fun _ => none) fun _ => trivial

theorem waitJobsConcluded_ends (polls : List ConcludedPoll) :
    ∀ (pending : List String) (errors : Bool) (r : Run),
      Ends (fun _ r' => r'.session.jobs = []) (fun _ _ => True)
        (waitJobsConcluded polls pending errors r) := by
  induction polls with
  | nil =>
    intro pending errors r
    cases pending with
    | nil => exact waitJobsConcluded_nil [] errors r
    | cons name names => exact Ends.fail trivial
  | cons poll rest ih =>
    intro pending errors r
    cases pending with
    | nil => exact waitJobsConcluded_nil _ errors r
    | cons name names =>
      rw [waitJobsConcluded]
      exact Ends.bind _ (Ends.trivial _) fun _ _ _ => Ends.bind _ (Ends.trivial _) fun _ _ _ =>
        Ends.bind _ (Ends.trivial _) fun _ r₃ _ => ih _ _ r₃

section

variable {inv : Run → Prop} (ambient : Ambient inv) {J : Session → Prop}
  {failed : Raised → Run → Prop} {r : Run}
include ambient

theorem Ambient.ask_session (turn : Turn) : Keeps (fun r => inv r ∧ J r.session) (Collei.ask turn) := by
  refine ask_keeps ?_ turn
  rintro r ⟨holds, fact⟩
  rw [targetStarts_session]
  exact ⟨ambient.starts r holds, fact⟩

theorem Ambient.setSession {f : Session → Session} (frame : ∀ session, J session → J (f session)) :
    Keeps (fun r => inv r ∧ J r.session) (Collei.setSession f) :=
  Keeps.update fun r both => ⟨ambient.session r _ both.1, frame _ both.2⟩

theorem removeJobs_ends (c : CleanupCalls) (holds : inv r) (bad : ∀ e r', inv r' → failed e r') :
    Ends (fun error r' => inv r' ∧ (error = false → r'.session.jobs = [])) failed (removeJobs c r) := by
  refine (stage_ends inv (fun _ => cancelJobs_keeps ambient _) holds bad ?_).mono ?_
    fun _ _ kept => kept
  · intro r' _
    refine (Ends.bind _ (Ends.trivial _) fun _ _ _ => Ends.bind _ (Ends.trivial _) fun _ _ _ =>
      Ends.bind _ (Ends.trivial _) fun _ r₃ _ => (waitJobsConcluded_ends _ _ _ r₃).mono ?_ ?_)
    · intro _ r'' none
      rw [none]
      rfl
    · exact fun _ _ _ => trivial
  · rintro error r' ⟨kept, clear⟩
    exact ⟨kept, fun fine => by simpa using clear fine⟩

theorem removeClients_ends (c : CleanupCalls) (frame : ∀ session, J session → J { session with clients := [] })
    (holds : inv r) (fact : J r.session) (bad : ∀ e r', inv r' → failed e r') :
    Ends (fun error r' => inv r' ∧ J r'.session ∧ (error = false → r'.session.clients = [])) failed
      (removeClients c r) := by
  refine (stage_ends (fun r => inv r ∧ J r.session) ?_ ⟨holds, fact⟩
    (fun e r' both => bad e r' both.1) ?_).mono ?_ fun _ _ kept => kept
  · exact fun _ => Keeps.bind (forEach_keeps (fun _ => ambient.ask_session _) _) fun _ =>
      ambient.setSession frame
  · exact fun r' _ => Ends.bind _ (Ends.trivial _) fun _ _ _ => (show _ = _ from rfl)
  · rintro error r' ⟨⟨kept, fact'⟩, clear⟩
    exact ⟨kept, fact', fun fine => by simpa using clear fine⟩

theorem removeExports_ends (c : CleanupCalls) (frame : ∀ session, J session → J { session with exports := [] })
    (holds : inv r) (fact : J r.session) (bad : ∀ e r', inv r' → failed e r') :
    Ends (fun error r' => inv r' ∧ J r'.session ∧ (error = false → r'.session.exports = [])) failed
      (removeExports c r) := by
  refine (stage_ends (fun r => inv r ∧ J r.session) ?_ ⟨holds, fact⟩
    (fun e r' both => bad e r' both.1) ?_).mono ?_ fun _ _ kept => kept
  · refine fun _ => Keeps.bind (forEach_keeps (fun _ => ambient.ask_session _) _) fun _ =>
      Keeps.bind (waitExportsRemoved_keeps ?_ _) fun _ => ambient.setSession frame
    rintro r ⟨kept, fact'⟩
    rw [targetStarts_session]
    exact ⟨ambient.starts r kept, fact'⟩
  · exact fun r' _ => Ends.bind _ (Ends.trivial _) fun _ _ _ => Ends.bind _ (Ends.trivial _) fun _ _ _ =>
      (show _ = _ from rfl)
  · rintro error r' ⟨⟨kept, fact'⟩, clear⟩
    exact ⟨kept, fact', fun fine => by simpa using clear fine⟩

theorem stopServer_ends (c : CleanupCalls)
    (frame : ∀ session, J session → J { session with serverStarted := false })
    (holds : inv r) (fact : J r.session) (bad : ∀ e r', inv r' → failed e r') :
    Ends (fun error r' => inv r' ∧ J r'.session ∧ (error = false → r'.session.serverStarted = false)) failed
      (stopServer c r) := by
  refine (stage_ends (fun r => inv r ∧ J r.session) ?_ ⟨holds, fact⟩
    (fun e r' both => bad e r' both.1) ?_).mono ?_ fun _ _ kept => kept
  · exact fun _ => Keeps.bind (ambient.ask_session _) fun _ => ambient.setSession frame
  · exact fun r' _ => Ends.bind _ (Ends.trivial _) fun _ _ _ => (show _ = _ from rfl)
  · rintro error r' ⟨⟨kept, fact'⟩, clear⟩
    exact ⟨kept, fact', clear⟩

theorem cleanup_ends (c : CleanupCalls) (holds : inv r) (bad : ∀ e r', inv r' → failed e r') :
    Ends (fun _ r' => inv r' ∧ r'.session.Empty) failed (cleanup c false r) := by
  rw [cleanup]
  refine Ends.bind _ (removeJobs_ends ambient c holds bad) ?_
  rintro e₁ r₁ ⟨holds₁, jobs⟩
  refine Ends.bind _ (removeClients_ends ambient c (J := fun session => e₁ = false → session.jobs = [])
    (fun _ fact => fact) holds₁ jobs bad) ?_
  rintro e₂ r₂ ⟨holds₂, jobs, clients⟩
  refine Ends.bind _ (removeExports_ends ambient c
    (J := fun session => (e₁ = false → session.jobs = []) ∧ (e₂ = false → session.clients = []))
    (fun _ fact => fact) holds₂ ⟨jobs, clients⟩ bad) ?_
  rintro e₃ r₃ ⟨holds₃, ⟨jobs, clients⟩, exports⟩
  refine Ends.bind _ (stopServer_ends ambient c
    (J := fun session => (e₁ = false → session.jobs = []) ∧ (e₂ = false → session.clients = []) ∧
      (e₃ = false → session.exports = []))
    (fun _ fact => fact) holds₃ ⟨jobs, clients, exports⟩ bad) ?_
  rintro e₄ r₄ ⟨holds₄, ⟨jobs, clients, exports⟩, server⟩
  refine Ends.bind (fun a s => r₄ = s ∧ r₄ = a) (Ends.pure ⟨rfl, rfl⟩) ?_
  rintro _ _ ⟨rfl, rfl⟩
  have whole : (e₁ || e₂ || e₃ || e₄) = false → r₄.session.Empty := by
    simp only [Bool.or_eq_false_iff]
    rintro ⟨⟨⟨f₁, f₂⟩, f₃⟩, f₄⟩
    exact ⟨jobs f₁, clients f₂, exports f₃, server f₄⟩
  refine Ends.bind (fun _ r' => inv r' ∧ ((e₁ || e₂ || e₃ || e₄) = false → r'.session.Empty)) ?_ ?_
  · refine Ends.given (fun _ => ?_) fun _ => ⟨holds₄, whole⟩
    exact (ambient.ask_session (J := fun session => _ → session.Empty) _ r₄ ⟨holds₄, whole⟩).mono
      (fun _ _ kept => kept) fun e r' kept => bad e r' kept.1
  · rintro _ r₅ ⟨holds₅, empty⟩
    split
    · exact Ends.fail (bad _ _ holds₅)
    · rename_i fine
      exact Ends.pure ⟨holds₅, empty (by simpa using fine)⟩

end

theorem cleanup_empty (c : CleanupCalls) (bestEffort : Bool) {r : Run} (empty : r.session.Empty) :
    cleanup c bestEffort r = ask c.unlinkSocket r := by
  have jobs : removeJobs c r = (.ok false, r) := by
    rw [removeJobs, stage, if_neg]
    simp [empty.jobs]
  have clients : removeClients c r = (.ok false, r) := by
    rw [removeClients, stage, if_neg]
    simp [empty.clients]
  have exports : removeExports c r = (.ok false, r) := by
    rw [removeExports, stage, if_neg]
    simp [empty.exports]
  have server : stopServer c r = (.ok false, r) := by
    rw [stopServer, stage, if_neg]
    simp [empty.server]
  rw [cleanup, Op.bind_ok jobs, Op.bind_ok clients, Op.bind_ok exports, Op.bind_ok server,
    Op.bind_ok (show Op.read r = (.ok r, r) from rfl), Op.given, if_pos empty.server]
  cases ran : ask c.unlinkSocket r with
  | mk result r' =>
    cases result with
    | error e => exact Op.bind_error ran
    | ok a => exact Op.bind_ok ran

/-! ## The whole prelude -/

theorem prelude_ends {before : Run} (apart : before.images = before.source) (config : Config)
    (images : Slot) (disks : List MigratableDisk) (c : PreludeCalls) {r : Run}
    (u : Unswitched before false r) (fresh : Fresh r) :
    Ends (fun _ r' => (Unswitched before false r' ∧ Copied r') ∧ r'.session.Empty)
      (fun _ r' => Unswitched before false r') (prelude config images disks c r) := by
  have alive : Ambient fun r => Unswitched before false r ∧ TargetAlive r :=
    ambient_before fun _ _ alive => alive
  have copied : Ambient fun r => Unswitched before false r ∧ Copied r :=
    ambient_before fun _ _ copied => copied
  rw [prelude]
  refine Ends.bind (fun _ r' => Unswitched before false r' ∧ Fresh r') ?_ ?_
  · have added : Unswitched before false
        { r with vm := (launch config [.a, .nbdTarget] c.disks r.vm).2 } := by
      obtain ⟨file, waits⟩ := launch_waits config [.a, .nbdTarget] c.disks r.vm rfl
      exact { u with
        storage := file.trans u.storage
        idle := fun still => waits _ (u.idle still) }
    refine (call_ends u.began _ _).mono ?_ ?_
    · rintro _ _ rfl
      exact ⟨added, fresh⟩
    · rintro _ _ (rfl | rfl)
      · exact u
      · exact added
  rintro _ r₁ both
  refine Ends.bind _ (waitQmpReady_ends before _ r₁ both) ?_
  intro _ r₂ both
  -- up to the wait for `pre-switchover` only the session changes
  have go : ∀ {α : Type} {x : Op Run Raised α} {f : α → Op Run Raised Unit} {r : Run},
      Keeps (fun r => Unswitched before false r ∧ TargetAlive r) x →
      Unswitched before false r ∧ TargetAlive r →
      (∀ a r', Unswitched before false r' ∧ TargetAlive r' →
        Ends (fun _ r' => (Unswitched before false r' ∧ Copied r') ∧ r'.session.Empty)
          (fun _ r' => Unswitched before false r') (f a r')) →
      Ends (fun _ r' => (Unswitched before false r' ∧ Copied r') ∧ r'.session.Empty)
        (fun _ r' => Unswitched before false r') ((x >>= f) r) := by
    intro α x f r keeps holds rest
    exact Ends.bind _ ((keeps r holds).mono (fun _ _ kept => kept) fun _ _ kept => kept.1) rest
  refine go Keeps.read both fun r _ both => ?_
  refine go (queryBlock_keeps alive.starts _ _) both fun blocks _ both => ?_
  refine go (Keeps.lift _) both fun targetDisks _ both => ?_
  refine go (Keeps.refuse _ _) both fun _ _ both => ?_
  refine go (start_keeps alive _) both fun _ _ both => ?_
  refine go (waitReady_keeps alive _) both fun _ _ both => ?_
  refine go (alive.ask _) both fun _ _ both => ?_
  refine go (hmpCommands_keeps alive.starts _) both fun _ _ both => ?_
  refine go (hmpCommands_keeps alive.starts _) both fun _ r₃ both => ?_
  refine Ends.bind _ (waitMigrationStatus_ends before _ r₃ both) ?_
  rintro _ r₄ ⟨u₄, paused⟩
  refine Ends.bind _ (finish_ends apart _ u₄ paused) ?_
  exact fun _ r₅ both => cleanup_ends copied _ both fun _ _ kept => kept.1

end Collei

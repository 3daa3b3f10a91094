import KernelNotes.Collei.MigratePrelude

/-!
# Where the guest is after `migrate_nbd`

From `migrate-continue` on the target can start the guest at any time. The action notices only
when it asks, and until it has asked with success its exception handler takes the source for the
owner of the guest. The action ends with one authoritative guest exactly when the target did
not start, or when nothing fails between `migrate-continue` and the record of the new
storage slot.
-/

namespace Collei

open Outcome

/-! ## The switchover -/

/-- The switchover has begun and has not been confirmed: the source is paused, and the target runs
if it has started. -/
structure Handing (before r : Run) : Prop where
  unswitched : Unswitched before true r
  copied : Copied r
  alone : r.both = false
  follows : r.vm.running r.target = r.started
  empty : r.session.Empty

variable {vm : Vm} {slot : Slot} {before r : Run} {file : Option Slot} {inv : Run → Prop} {b : Bool}

theorem Vm.running_setRunning_true (alive : vm.alive slot = true) :
    (vm.setRunning slot true).running slot = true := by
  obtain ⟨q, there⟩ := Option.isSome_iff_exists.mp alive
  rw [Vm.running, Vm.setRunning]
  simp [there]

/-- When the target has started, its guest is the only one, and its images are the latest. -/
theorem Handing.targetStarts (h : Handing before r) :
    Handing before (targetStarts r) ∧ (targetStarts r).started = true := by
  obtain ⟨⟨⟨resumed, alive⟩, paused⟩, current⟩ := h.copied
  cases started : r.started with
  | true =>
    have stays : Collei.targetStarts r = r := by
      rw [Collei.targetStarts, h.follows, started]
      simp
    rw [stays]
    exact ⟨h, started⟩
  | false =>
    have moves := Unswitched.targetStarts h.unswitched
    have awake : (r.began && r.vm.alive r.target && !r.vm.running r.target) = true := by
      simp [h.unswitched.began, alive, h.follows, started]
    rw [Collei.targetStarts, if_pos awake] at moves ⊢
    refine ⟨⟨moves, ⟨⟨⟨resumed, ?_⟩, ?_⟩, ?_⟩, ?_, ?_, h.empty⟩, rfl⟩
    · exact (Vm.alive_setRunning _ _ _ _).trans alive
    · exact (Vm.running_setRunning_ne (Slot.ne_other _) _).trans paused
    · show (decide (r.target = r.target) && r.current r.target && !r.vm.running r.source) = true
      simp [current, paused]
    · show (r.both || r.vm.running r.source) = false
      rw [h.alone, paused]
      rfl
    · exact Vm.running_setRunning_true alive

theorem Handing.starts : ∀ r, Handing before r → Handing before (Collei.targetStarts r) :=
  fun _ h => h.targetStarts.1

theorem call_spec (inv : Run → Prop) (starts : ∀ r, inv r → inv (targetStarts r)) {turn : Turn}
    {effect : Run → Run} (holds : inv r) :
    Ends (fun _ r' => turn.fault = none ∧ ∃ s, inv s ∧ effect s = r')
      (fun e r' => turn.fault = some e ∧ ∃ s, inv s ∧ (if turn.took then effect s else s) = r')
      (call turn effect r) := by
  have holds' : inv (if turn.starts then targetStarts r else r) := by
    split
    · exact starts r holds
    · exact holds
  rw [call]
  cases fault : turn.fault with
  | none => exact ⟨rfl, _, holds', rfl⟩
  | some e => exact ⟨rfl, _, holds', rfl⟩

theorem ask_spec (inv : Run → Prop) (starts : ∀ r, inv r → inv (targetStarts r)) {turn : Turn}
    (holds : inv r) :
    Ends (fun _ r' => turn.fault = none ∧ inv r') (fun e r' => turn.fault = some e ∧ inv r')
      (ask turn r) := by
  refine (call_spec inv starts holds).mono ?_ ?_
  · rintro _ _ ⟨fine, s, kept, rfl⟩
    exact ⟨fine, kept⟩
  · rintro _ _ ⟨fault, s, kept, rfl⟩
    exact ⟨fault, by rwa [id, ite_self]⟩

/-- All calls of the round succeed and no side reports a failure. -/
def Poll.Answered (poll : Poll) : Prop :=
  poll.sourceStatus.fault = none ∧ poll.sourceMigrate.fault = none ∧ poll.targetStatus.fault = none ∧
    poll.targetMigrate.fault = none ∧ poll.report.fault = none ∧ poll.failed = false

/-- The rounds go well until one of them finds the source done and the target running. -/
def Confirms : List Poll → Prop
  | [] => False
  | poll :: rest => poll.Answered ∧
      ((poll.sourceDone && poll.targetRunning) = true ∨ (poll.sleep.fault = none ∧ Confirms rest))

theorem waitLocalMigration_ends (before : Run) (polls : List Poll) :
    ∀ r, Handing before r →
      Ends (fun _ r' => Confirms polls ∧ Handing before r' ∧ r'.started = true)
        (fun _ r' => ¬ Confirms polls ∧ Handing before r') (waitLocalMigration polls r) := by
  induction polls with
  | nil => exact fun r h => Ends.fail ⟨id, h⟩
  | cons poll rest ih =>
    intro r h
    rw [waitLocalMigration]
    have no : ∀ {turn : Turn} {e : Raised}, turn.fault = some e → turn.fault ≠ none := by
      intro turn e fault
      rw [fault]
      nofun
    refine Ends.bind _ ((ask_spec _ Handing.starts h).mono (fun _ _ both => both) ?_) ?_
    · exact fun _ _ both => ⟨fun yes => no both.1 yes.1.1, both.2⟩
    rintro _ r₁ ⟨f₁, h₁⟩
    refine Ends.bind _ ((ask_spec _ Handing.starts h₁).mono (fun _ _ both => both) ?_) ?_
    · exact fun _ _ both => ⟨fun yes => no both.1 yes.1.2.1, both.2⟩
    rintro _ r₂ ⟨f₂, h₂⟩
    refine Ends.bind (fun _ r' => poll.targetStatus.fault = none ∧
      (Handing before r' ∧ (poll.targetRunning = true → r'.started = true)))
      ((call_spec _ Handing.starts h₂).mono ?_ ?_) ?_
    · rintro _ _ ⟨fine, s, hs, rfl⟩
      refine ⟨fine, ?_⟩
      split
      · exact ⟨hs.targetStarts.1, fun _ => hs.targetStarts.2⟩
      · rename_i not
        exact ⟨hs, fun yes => absurd yes not⟩
    · rintro _ _ ⟨fault, s, hs, rfl⟩
      refine ⟨fun yes => no fault yes.1.2.2.1, ?_⟩
      split
      · split
        · exact hs.targetStarts.1
        · exact hs
      · exact hs
    rintro _ r₃ ⟨f₃, h₃⟩
    have starts : ∀ r, Handing before r ∧ (poll.targetRunning = true → r.started = true) →
        Handing before (targetStarts r) ∧ (poll.targetRunning = true → (targetStarts r).started = true) :=
      fun _ both => ⟨both.1.targetStarts.1, fun _ => both.1.targetStarts.2⟩
    refine Ends.bind _ ((ask_spec _ starts h₃).mono (fun _ _ both => both) ?_) ?_
    · exact fun _ _ both => ⟨fun yes => no both.1 yes.1.2.2.2.1, both.2.1⟩
    rintro _ r₄ ⟨f₄, h₄⟩
    refine Ends.bind _ ((ask_spec _ starts h₄).mono (fun _ _ both => both) ?_) ?_
    · exact fun _ _ both => ⟨fun yes => no both.1 yes.1.2.2.2.2.1, both.2.1⟩
    rintro _ r₅ ⟨f₅, h₅⟩
    refine Ends.bind (fun _ r' => poll.failed = false ∧ r₅ = r')
      (Ends.refuse (fun fine => ⟨fine, rfl⟩) ?_) ?_
    · intro failed
      refine ⟨fun yes => ?_, h₅.1⟩
      rw [yes.1.2.2.2.2.2] at failed
      cases failed
    rintro _ _ ⟨f₆, rfl⟩
    have answered : poll.Answered := ⟨f₁, f₂, f₃, f₄, f₅, f₆⟩
    split
    · rename_i confirmed
      refine Ends.pure ⟨⟨answered, Or.inl confirmed⟩, h₅.1, h₅.2 ?_⟩
      rw [Bool.and_eq_true] at confirmed
      exact confirmed.2
    · rename_i open'
      refine Ends.bind _ ((ask_spec _ Handing.starts h₅.1).mono (fun _ _ both => both) ?_) ?_
      · refine fun _ _ both => ⟨?_, both.2⟩
        rintro ⟨_, now | later⟩
        · exact open' now
        · exact no both.1 later.1
      rintro _ r₆ ⟨f₇, h₆⟩
      refine (ih r₆ h₆).mono ?_ ?_
      · rintro _ _ ⟨confirms, kept⟩
        exact ⟨⟨answered, Or.inr ⟨f₇, confirms⟩⟩, kept⟩
      · rintro _ _ ⟨never, kept⟩
        refine ⟨?_, kept⟩
        rintro ⟨_, now | later⟩
        · exact open' now
        · exact never later.2

/-- The switchover is confirmed. -/
structure Moved (before r : Run) : Prop where
  source : r.source = before.source
  switched : r.switched = true
  started : r.started = true
  running : r.vm.running r.target = true
  resumed : r.resumed = false
  alone : r.both = false
  latest : r.current r.target = true
  empty : r.session.Empty

theorem Moved.authoritative_iff (m : Moved before r) :
    Authoritative before r ↔ r.vm.storageSlot = r.target := by
  constructor
  · exact fun one => (one.moved m.started).1
  · intro recorded
    refine ⟨fun _ => ⟨recorded, m.running, m.resumed⟩, ?_, m.alone, ?_⟩
    · intro still
      rw [m.started] at still
      cases still
    · rw [recorded]
      exact m.latest

theorem Moved.targetStarts (m : Moved before r) : targetStarts r = r := by
  rw [Collei.targetStarts, m.running]
  simp

/-- The calls up to the flag `switched` succeed. -/
def SwitchCalls.Clean (c : SwitchCalls) : Prop :=
  c.proceed.fault = none ∧ Confirms c.polls ∧ c.report.fault = none

theorem switchOver_ends (u : Unswitched before false r) (copied : Copied r)
    (empty : r.session.Empty) (c : SwitchCalls) :
    Ends (fun _ r' => c.Clean ∧ Moved before r' ∧ r'.vm.storageFile = before.vm.storageFile)
      (fun _ r' => ¬ c.Clean ∧ ∃ b, Unswitched before b r') (switchOver c r) := by
  have quiet := u.quiet rfl
  have begins : Handing before { r with began := true } :=
    { unswitched := { u with began := rfl, quiet := nofun }
      copied := copied
      alone := u.alone quiet
      follows := (u.idle quiet).trans quiet.symm
      empty := empty }
  rw [switchOver]
  refine Ends.bind (fun _ r' => c.proceed.fault = none ∧ Handing before r')
    ((call_spec (fun s => r = s) ?_ rfl).mono ?_ ?_) ?_
  · rintro _ rfl
    exact (targetStarts_of_not_began u.began).symm
  · rintro _ _ ⟨fine, _, rfl, rfl⟩
    exact ⟨fine, begins⟩
  · rintro e _ ⟨fault, _, rfl, rfl⟩
    refine ⟨fun clean => ?_, ?_⟩
    · rw [clean.1] at fault
      cases fault
    · split
      · exact ⟨true, begins.unswitched⟩
      · exact ⟨false, u⟩
  rintro _ r₁ ⟨f₁, h₁⟩
  refine Ends.bind _ ((waitLocalMigration_ends before _ r₁ h₁).mono (fun _ _ both => both) ?_) ?_
  · exact fun _ _ both => ⟨fun clean => both.1 clean.2.1, true, both.2.unswitched⟩
  rintro _ r₂ ⟨confirms, h₂, started⟩
  refine Ends.bind _ ((ask_spec (fun s => Handing before s ∧ s.started = true)
    (fun _ both => both.1.targetStarts) ⟨h₂, started⟩).mono (fun _ _ both => both) ?_) ?_
  · rintro e _ ⟨fault, h, _⟩
    refine ⟨fun clean => ?_, true, h.unswitched⟩
    rw [clean.2.2] at fault
    cases fault
  rintro _ r₃ ⟨f₃, h₃, started₃⟩
  refine (⟨⟨f₁, confirms, f₃⟩, ?_, h₃.unswitched.storage⟩ :
    c.Clean ∧ Moved before { r₃ with switched := true } ∧ r₃.vm.storageFile = _)
  exact
    { source := h₃.unswitched.source
      switched := rfl
      started := started₃
      running := h₃.follows.trans started₃
      resumed := h₃.copied.1.1.1
      alone := h₃.alone
      latest := h₃.copied.2
      empty := h₃.empty }

/-! ## Recording the new storage slot -/

/-- The call has had its effect. -/
def Turn.Done (turn : Turn) : Prop := turn.fault = none ∨ turn.took = true

theorem Moved.persist (m : Moved before r) :
    Moved before { r with vm := r.vm.persistStorageSlot r.target } := { m with }

theorem Moved.exit (m : Moved before r) : Moved before { r with vm := r.vm.exit r.source } :=
  { m with
    running := by
      rw [← m.running]
      show (r.vm.exit r.source).running r.source.other = _
      rw [Vm.running, Vm.exit]
      simp [Function.update_of_ne (Slot.other_ne _), Vm.running, Run.target] }

/-- The guest has moved, and the storage slot is recorded or is not. -/
def MovedTo (before : Run) (file : Option Slot) (r : Run) : Prop :=
  Moved before r ∧ r.vm.storageFile = file

theorem MovedTo.starts : ∀ r, MovedTo before file r → MovedTo before file (targetStarts r) := by
  rintro r ⟨m, same⟩
  rw [m.targetStarts]
  exact ⟨m, same⟩

theorem stopQemuSlot_keeps (starts : ∀ r, inv r → inv (targetStarts r))
    (exits : ∀ r, inv r → inv { r with vm := r.vm.exit slot }) (c : StopCalls) :
    Keeps inv (stopQemuSlot c slot) := by
  refine Keeps.bind Keeps.read fun r => Keeps.given ?_
  refine Keeps.bind (call_keeps starts _ ?_) fun _ =>
    Keeps.bind (ask_keeps starts _) fun _ => Keeps.refuse _ _
  intro r holds
  split
  · exact exits r holds
  · exact holds

theorem stopOrWarn_keeps (starts : ∀ r, inv r → inv (targetStarts r))
    (exits : ∀ r, inv r → inv { r with vm := r.vm.exit slot }) (c : StopCalls) (warn : Turn) :
    Keeps inv (stopOrWarn c slot warn) := by
  intro r holds
  have kept := stopQemuSlot_keeps starts exits c r holds
  rw [stopOrWarn]
  revert kept
  obtain ⟨result, r'⟩ := stopQemuSlot c slot r
  intro kept
  match result with
  | .ok () => exact kept
  | .error .collei => exact ask_keeps starts warn r' kept
  | .error .os => exact kept
  | .error .interrupt => exact kept
  | .error .killed => exact kept

theorem MovedTo.exit :
    ∀ r, MovedTo before file r → MovedTo before file { r with vm := r.vm.exit before.source } := by
  rintro r ⟨m, same⟩
  rw [← m.source]
  exact ⟨m.exit, same⟩

theorem persistStorageSlot_ends (m : MovedTo before file r) (turn : Turn) :
    Ends (fun _ r' => turn.Done ∧ MovedTo before (some before.target) r')
      (fun e r' => (turn.Done ∧ MovedTo before (some before.target) r') ∨
        (¬ turn.Done ∧ turn.fault = some e ∧ MovedTo before file r'))
      (persistStorageSlot turn r) := by
  have records : ∀ s, MovedTo before file s →
      MovedTo before (some before.target) { s with vm := s.vm.persistStorageSlot s.target } := by
    rintro s ⟨moved, _⟩
    refine ⟨moved.persist, ?_⟩
    show some s.target = some before.target
    rw [Run.target, moved.source, Run.target]
  refine (call_spec _ MovedTo.starts m).mono ?_ ?_
  · rintro _ _ ⟨fine, s, moved, rfl⟩
    exact ⟨Or.inl fine, records s moved⟩
  · rintro e _ ⟨fault, s, moved, rfl⟩
    split
    · rename_i took
      exact Or.inl ⟨Or.inr took, records s moved⟩
    · rename_i lost
      refine Or.inr ⟨?_, fault, moved⟩
      rintro (fine | took)
      · rw [fine] at fault
        cases fault
      · exact lost took

theorem commit_ends (m : MovedTo before file r) (c : CommitCalls) :
    Ends (fun _ r' => c.persist.Done ∧ MovedTo before (some before.target) r')
      (fun e r' => (c.persist.Done ∧ MovedTo before (some before.target) r') ∨
        (¬ c.persist.Done ∧ c.persist.fault = some e ∧ MovedTo before file r'))
      (commit c r) := by
  rw [commit]
  refine Ends.bind _ (persistStorageSlot_ends m c.persist) ?_
  rintro _ r₁ ⟨done, m₁⟩
  refine Ends.bind (fun a s => r₁ = s ∧ r₁ = a) (Ends.pure ⟨rfl, rfl⟩) ?_
  rintro _ _ ⟨rfl, rfl⟩
  rw [m₁.1.source]
  refine Ends.bind _ ((stopQemuSlot_keeps MovedTo.starts MovedTo.exit c.stop r₁ m₁).mono
    (fun _ _ kept => kept) fun _ _ kept => Or.inl ⟨done, kept⟩) ?_
  intro _ r₂ m₂
  exact (ask_keeps MovedTo.starts _ r₂ m₂).mono (fun _ _ kept => ⟨done, kept⟩)
    fun _ _ kept => Or.inl ⟨done, kept⟩

/-- What the handler needs in order to record the storage slot of a guest that has moved. -/
def HandlerCalls.Records (c : HandlerCalls) : Prop :=
  c.cleanup.unlinkSocket.fault = none ∧ c.persist.Done

theorem handler_moved (m : MovedTo before file r) (c : HandlerCalls) :
    (c.Records → MovedTo before (some before.target) (handler c r).2) ∧
      (¬ c.Records → MovedTo before file (handler c r).2) := by
  refine @Ends.state _ _ _ (fun r' => (c.Records → MovedTo before (some before.target) r') ∧
    (¬ c.Records → MovedTo before file r')) _ ?_
  rw [handler]
  refine Ends.bind (fun _ r' => c.cleanup.unlinkSocket.fault = none ∧ MovedTo before file r') ?_ ?_
  · rw [cleanup_empty _ _ m.1.empty]
    refine (ask_spec _ MovedTo.starts m).mono (fun _ _ both => both) ?_
    rintro e r' ⟨fault, kept⟩
    refine ⟨?_, fun _ => kept⟩
    rintro ⟨fine, _⟩
    rw [fine] at fault
    cases fault
  rintro _ r₁ ⟨fine, m₁⟩
  refine Ends.bind (fun a s => r₁ = s ∧ r₁ = a) (Ends.pure ⟨rfl, rfl⟩) ?_
  rintro _ _ ⟨rfl, rfl⟩
  rw [if_pos m₁.1.switched, m₁.1.source]
  refine Ends.bind _ ((persistStorageSlot_ends m₁ c.persist).mono (fun _ _ both => both) ?_) ?_
  · rintro e r' (⟨done, kept⟩ | ⟨lost, _, kept⟩)
    · exact ⟨fun _ => kept, fun not => absurd ⟨fine, done⟩ not⟩
    · exact ⟨fun records => absurd records.2 lost, fun _ => kept⟩
  rintro _ r₂ ⟨done, m₂⟩
  refine (stopOrWarn_keeps MovedTo.starts MovedTo.exit c.stopSource c.warn r₂ m₂).mono ?_ ?_
  · exact fun _ _ kept => ⟨fun _ => kept, fun not => absurd ⟨fine, done⟩ not⟩
  · exact fun _ _ kept => ⟨fun _ => kept, fun not => absurd ⟨fine, done⟩ not⟩

theorem waitCancelled_keeps (starts : ∀ r, inv r → inv (targetStarts r)) (polls : List CancelPoll) :
    Keeps inv (waitCancelled polls) := by
  induction polls with
  | nil => exact Keeps.pure ()
  | cons poll rest ih =>
    rw [waitCancelled]
    exact Keeps.bind (ask_keeps starts _) fun _ =>
      Keeps.ite (Keeps.bind (ask_keeps starts _) fun _ => ih) (Keeps.pure ())

theorem resumeSource_keeps (starts : ∀ r, inv r → inv (targetStarts r))
    (resumes : ∀ r, inv r → inv (continueSource r)) (c : ResumeCalls) :
    Keeps inv (resumeSource c) := by
  refine Keeps.bind (attempt_keeps ?_) fun _ => Keeps.given (ask_keeps starts _)
  refine Keeps.bind (ask_keeps starts _) fun _ => Keeps.bind (Keeps.given (call_keeps starts _ ?_)) fun _ =>
    Keeps.bind (waitCancelled_keeps starts _) fun _ => Keeps.bind (ask_keeps starts _) fun _ =>
      Keeps.bind Keeps.read fun _ => Keeps.given (call_keeps starts _ resumes)
  intro r holds
  split
  · exact resumes r holds
  · exact holds

theorem handler_unswitched (u : Unswitched before b r) (c : HandlerCalls) :
    Unswitched before b (handler c r).2 := by
  have ambient := Unswitched.ambient before b
  refine Ends.state ?_
  rw [handler]
  refine Ends.bind _ (cleanup_keeps ambient _ _ r u) ?_
  intro _ r₁ u₁
  refine Ends.bind (fun a s => r₁ = s ∧ r₁ = a) (Ends.pure ⟨rfl, rfl⟩) ?_
  rintro _ _ ⟨rfl, rfl⟩
  rw [if_neg (by simp [u₁.switched])]
  exact Keeps.bind (resumeSource_keeps ambient.starts (fun _ u => u.continueSource) _)
    (fun _ => stopOrWarn_keeps ambient.starts (fun _ u => u.exit _) _ _) r₁ u₁

/-! ## The whole action -/

/-- Nothing fails between `migrate-continue` and the flag `switched`, and the new storage slot is
written by the action or, unless the process is killed, by its handler. -/
def Secured (i : Inputs) : Prop :=
  i.switch.Clean ∧
    (i.commit.persist.Done ∨ (i.commit.persist.fault ≠ some .killed ∧ i.handler.Records))

theorem handled_unswitched (u : Unswitched before b r) (e : Raised) (c : HandlerCalls) :
    Unswitched before b ((Op.given (e ≠ .killed) (handler c)) r).2 := by
  rw [Op.given]
  split
  · exact handler_unswitched u c
  · exact u

theorem body_ends (apart : before.images = before.source) (i : Inputs) (images : Slot)
    (disks : List MigratableDisk) (u : Unswitched before false r) (fresh : Fresh r) :
    Ends (fun _ r' => Secured i ∧ MovedTo before (some before.target) r')
      (fun e r' => (∃ b, Unswitched before b r' ∧ (b = true → ¬ i.switch.Clean)) ∨
        (i.switch.Clean ∧ i.commit.persist.Done ∧ MovedTo before (some before.target) r') ∨
        (i.switch.Clean ∧ ¬ i.commit.persist.Done ∧ i.commit.persist.fault = some e ∧
          MovedTo before before.vm.storageFile r'))
      (body i images disks r) := by
  rw [body]
  refine Ends.bind _ ((prelude_ends apart _ images disks _ u fresh).mono (fun _ _ kept => kept) ?_) ?_
  · exact fun _ _ kept => Or.inl ⟨false, kept, nofun⟩
  rintro _ r₁ ⟨⟨u₁, copied⟩, empty⟩
  refine Ends.bind _ ((switchOver_ends u₁ copied empty i.switch).mono (fun _ _ kept => kept) ?_) ?_
  · rintro _ r' ⟨dirty, b, kept⟩
    exact Or.inl ⟨b, kept, fun _ => dirty⟩
  rintro _ r₂ ⟨clean, moved⟩
  refine (commit_ends moved i.commit).mono ?_ ?_
  · exact fun _ _ both => ⟨⟨clean, Or.inl both.1⟩, both.2⟩
  · rintro e r' (⟨done, kept⟩ | ⟨lost, fault, kept⟩)
    · exact Or.inr (Or.inl ⟨clean, done, kept⟩)
    · exact Or.inr (Or.inr ⟨clean, lost, fault, kept⟩)

/-- How the transfer ends: the storage slot is the old one and the guest may have started in the
target without the action's knowledge, or the guest has moved and the slot is recorded if it could
be. -/
theorem transfer_cases (apart : before.images = before.source) (i : Inputs) (images : Slot)
    (disks : List MigratableDisk) (u : Unswitched before false r) (fresh : Fresh r) :
    (∃ b, Unswitched before b (transfer i images disks r).2 ∧ (b = true → ¬ Secured i)) ∨
      (Secured i ∧ MovedTo before (some before.target) (transfer i images disks r).2) ∨
      (¬ Secured i ∧ MovedTo before before.vm.storageFile (transfer i images disks r).2) := by
  have spec := body_ends apart i images disks u fresh
  rw [transfer, Op.onError]
  revert spec
  obtain ⟨result, r'⟩ := body i images disks r
  intro spec
  cases result with
  | ok a => exact Or.inr (Or.inl spec)
  | error e =>
    rcases spec with ⟨b, u', dirty⟩ | ⟨clean, done, moved⟩ | ⟨clean, lost, fault, moved⟩
    · exact Or.inl ⟨b, handled_unswitched u' e _, fun began secured => dirty began secured.1⟩
    · refine Or.inr (Or.inl ⟨⟨clean, Or.inl done⟩, ?_⟩)
      dsimp only
      rw [Op.given]
      split
      · obtain ⟨yes, no⟩ := handler_moved moved i.handler
        by_cases records : i.handler.Records
        · exact yes records
        · exact no records
      · exact moved
    · dsimp only
      rw [Op.given]
      obtain ⟨yes, no⟩ := handler_moved moved i.handler
      split
      · rename_i handled
        by_cases records : i.handler.Records
        · refine Or.inr (Or.inl ⟨⟨clean, Or.inr ⟨?_, records⟩⟩, yes records⟩)
          rw [fault]
          exact fun same => handled (Option.some.inj same)
        · refine Or.inr (Or.inr ⟨?_, no records⟩)
          rintro ⟨_, done | ⟨_, records'⟩⟩
          · exact lost done
          · exact records records'
      · rename_i killed
        refine Or.inr (Or.inr ⟨?_, moved⟩)
        rintro ⟨_, done | ⟨alive, _⟩⟩
        · exact lost done
        · rw [not_not] at killed
          rw [killed] at fault
          exact alive fault

/-- After the transfer one guest is authoritative exactly when the target did not start, or the
record of the new storage slot was safe. -/
theorem transfer_authoritative_iff (apart : before.vm.storageSlot = before.source)
    (same : before.images = before.vm.storageSlot) (i : Inputs) (images : Slot)
    (disks : List MigratableDisk) (u : Unswitched before false r) (fresh : Fresh r) :
    Authoritative before (transfer i images disks r).2 ↔
      ((transfer i images disks r).2.started = true → Secured i) := by
  rcases transfer_cases (same.trans apart) i images disks u fresh with
    ⟨b, u', dirty⟩ | ⟨secured, moved, file⟩ | ⟨exposed, moved, file⟩
  · rw [u'.authoritative_iff apart same]
    constructor
    · intro still started
      rw [still] at started
      cases started
    · intro safe
      cases b with
      | false => exact u'.quiet rfl
      | true => exact Bool.eq_false_iff.mpr fun started => dirty rfl (safe started)
  · rw [moved.authoritative_iff]
    refine ⟨fun _ _ => secured, fun _ => ?_⟩
    rw [Vm.storageSlot, file]
    exact congrArg Slot.other moved.source.symm
  · rw [moved.authoritative_iff]
    constructor
    · intro recorded
      rw [Vm.storageSlot, file, ← Vm.storageSlot, apart, Run.target, moved.source] at recorded
      exact absurd recorded (Slot.ne_other _)
    · exact fun safe => absurd (safe moved.started) exposed

theorem Unswitched.unlinkImage (u : Unswitched before b r) {path : FilePath}
    (elsewhere : path.directory ≠ some before.images) : Unswitched before b (unlinkImage path r) :=
  { u with
    whole := by
      show (r.orphaned || path.directory == some r.images) = false
      rw [u.whole, u.images]
      simpa using elsewhere
    latest := fun still => by
      show (r.current r.images && decide (path.directory ≠ some r.images)) = true
      rw [u.latest still, u.images]
      simpa using elsewhere }

theorem prepareTargetImages_unswitched (c : PrepareCalls) (dryRun : Bool)
    {disks : List MigratableDisk}
    (elsewhere : ∀ disk ∈ disks, disk.target.directory ≠ some before.images) :
    Keeps (fun r => Unswitched before false r ∧ Fresh r) (prepareTargetImages c dryRun disks) := by
  have ambient : Ambient fun r => Unswitched before false r ∧ Fresh r :=
    ambient_before fun _ _ fresh => fresh
  refine Keeps.bind (Keeps.refuse _ _) fun _ => ?_
  induction disks with
  | nil => exact Keeps.pure ()
  | cons disk rest ih =>
    rw [prepareTargetImages.go]
    refine Keeps.bind (Keeps.given (call_keeps ambient.starts _ ?_)) fun _ =>
      Keeps.bind (ambient.ask _) fun _ => ih fun d mem => elsewhere d (List.mem_cons_of_mem _ mem)
    exact fun r both => ⟨both.1.unlinkImage (elsewhere disk List.mem_cons_self), both.2⟩

theorem target_not_running (one : (inspect vm).live = 1) :
    vm.running (inspect vm).whichQemu.other = false := by
  have dead : vm.alive (inspect vm).whichQemu.other = false := by
    revert one
    rw [inspect, liveQemuNames]
    cases s : vm.alive .s <;> cases t : vm.alive .t <;> simp [s, t, Slot.other]
  rw [Vm.alive, Option.isSome_eq_false_iff, Option.isNone_iff_eq_none] at dead
  rw [Vm.running, dead]
  rfl

theorem Run.begin_unswitched {current : Slot → Bool} (one : (inspect vm).live = 1)
    (latest : current vm.storageSlot = true) :
    Unswitched (Run.begin vm current) false (Run.begin vm current) where
  source := rfl
  images := rfl
  storage := rfl
  switched := rfl
  began := rfl
  whole := rfl
  quiet := fun _ => rfl
  idle := fun _ => target_not_running one
  alone := fun _ => rfl
  latest := fun _ => latest

/-- A launch, and nothing else. -/
def launched : List Step := [.launch plain [] fun slot => some (oneDisk slot)]

/-- A transfer in which every call succeeds. -/
def smooth : Inputs := { prelude := { disks := fun slot => some (oneDisk slot) } }

/-- The target starts, and the first question after `migrate-continue` fails. -/
def askFails : Inputs :=
  { smooth with switch := { polls := [{ sourceStatus := { starts := true, fault := some .collei } }] } }

end Collei

import KernelNotes.Collei.BlockMigration

/-!
# The action `migrate_nbd`

`action_migrate_nbd` moves a running guest, with its images, from the QEMU of one slot to a new one
in the other slot. Up to `prepare_target_images` it only looks; then it copies the images, hands
the guest over, and records the new storage slot. On any exception it goes back, or forward when
the guest is known to have been handed over.
-/

namespace Collei

open Outcome

/-! ## Before anything is changed -/

/-- The options that `migrate_nbd` does not support. -/
def unsupportedOptions : List String := ["buildroot", "fire", "multipath", "qsd", "sriov", "vfio"]

/-- A `ColleiError` out of a result. -/
def orRaise {ε α : Type} (result : Except ε α) : Op Run Raised α :=
  Op.lift (match result with
    | .ok a => .ok a
    | .error _ => .error .collei)

/-- The reply of a process to `query-block`; nobody replies when there is no process. -/
def queryBlock (turn : Turn) (slot : Slot) : Op Run Raised (List Block) := do
  ask turn
  let r ← Op.read
  match r.vm.qemu slot with
  | some q => pure q.disks.blocks
  | none => Op.fail .os

structure SelectInputs where
  config : Config := ⟨fun _ => false⟩
  args : List String := []
  confirmed : Bool := true
  query : Turn := {}
  present : FilePath → Bool := fun _ => false
  overwrite : Bool := true

/-- The images to copy, or nothing when the user declines. -/
def selectDisks (i : SelectInputs) : Op Run Raised (Option (List MigratableDisk)) := do
  Op.refuse (!i.args.isEmpty) .collei
  Op.refuse (unsupportedOptions.any i.config.enabled) .collei
  let r ← Op.read
  let runtime := inspect r.vm
  Op.refuse (runtime.live != 1) .collei
  if i.confirmed then do
    let blocks ← queryBlock i.query runtime.whichQemu
    let disks ← orRaise
      (discoverMigratableDisks blocks runtime.storageSlot runtime.whichQemu.other)
    if (disks.any fun disk => i.present disk.target) && !i.overwrite then pure none
    else pure (some disks)
  else pure none

structure PrepareCalls where
  qemuImg : Bool := true
  unlink : String → Turn := fun _ => {}
  create : String → Turn := fun _ => {}

/-- An image file is removed: its directory has lost the image. -/
def unlinkImage (path : FilePath) (r : Run) : Run :=
  { r with
    unlinked := r.unlinked ++ [path]
    orphaned := r.orphaned || path.directory == some r.images
    current := fun slot => r.current slot && decide (path.directory ≠ some slot) }

/-- `prepare_target_images`. -/
def prepareTargetImages (c : PrepareCalls) (dryRun : Bool) (disks : List MigratableDisk) :
    Op Run Raised Unit := do
  Op.refuse (!c.qemuImg) .collei
  go disks
where
  go : List MigratableDisk → Op Run Raised Unit
    | [] => pure ()
    | disk :: rest => do
      Op.given (dryRun = false) (call (c.unlink disk.nodeName) (unlinkImage disk.target))
      ask (c.create disk.nodeName)
      go rest

/-! ## The transfer -/

structure QmpReadyPoll where
  pidFile : Bool := true
  query : Turn := {}
  sleep : Turn := {}

/-- `_wait_qmp_ready`. Only a live process answers. -/
def waitQmpReady : List QmpReadyPoll → Op Run Raised Unit
  | [] => Op.fail .collei
  | poll :: rest => do
    let r ← Op.read
    Op.refuse (poll.pidFile && !r.vm.alive r.target) .collei
    let failed ← attempt (ask poll.query)
    if !failed && r.vm.alive r.target then pure ()
    else do
      ask poll.sleep
      waitQmpReady rest

/-- `_validate_target_disks`. -/
def validateTargetDisks (source target : List MigratableDisk) : Bool :=
  (source.all fun disk => target.any fun other =>
    other.nodeName = disk.nodeName && other.imageFormat = disk.imageFormat &&
      other.virtualSize = disk.virtualSize) &&
  target.all fun other => source.any fun disk => disk.nodeName = other.nodeName

/-- `_migration_hmp_command` for each command of a list. -/
def hmpCommands : List Turn → Op Run Raised Unit
  | [] => pure ()
  | turn :: rest => do
    ask turn
    hmpCommands rest

/-- The `status` of `query-migrate`, while one value is waited for. -/
inductive StatusReply where
  | reached
  | stopped
  | other
  deriving DecidableEq, Repr

structure StatusPoll where
  query : Turn := {}
  status : StatusReply := .reached
  sleep : Turn := {}

/-- `_wait_migration_status` for `pre-switchover`, a status in which the source guest is paused. -/
def waitMigrationStatus : List StatusPoll → Op Run Raised Unit
  | [] => Op.fail .collei
  | poll :: rest => do
    call poll.query fun r =>
      if poll.status = .reached then { r with vm := r.vm.setRunning r.source false } else r
    match poll.status with
    | .reached => pure ()
    | .stopped => Op.fail .collei
    | .other => do
      ask poll.sleep
      waitMigrationStatus rest

structure PreludeCalls where
  disks : (slot : Slot) → Option (Disks slot) := fun _ => none
  launch : Turn := {}
  qmpReady : List QmpReadyPoll := [{}]
  query : Turn := {}
  start : StartCalls := {}
  ready : List ReadyPoll := [{}]
  readFiles : Turn := {}
  -- five commands for the target: four settings and `migrate_incoming`
  target : List Turn := [{}, {}, {}, {}, {}]
  -- seven for the source: the settings, two questions and `migrate`
  source : List Turn := [{}, {}, {}, {}, {}, {}, {}]
  status : List StatusPoll := [{}]
  finish : FinishCalls := {}
  cleanup : CleanupCalls := {}

/-- The part of the transfer before the guest can leave the source: the target QEMU is launched,
the images are copied, and the guest is paused. -/
def prelude (config : Config) (images : Slot) (disks : List MigratableDisk) (c : PreludeCalls) :
    Op Run Raised Unit := do
  call c.launch fun r => { r with vm := (launch config [.a, .nbdTarget] c.disks r.vm).2 }
  waitQmpReady c.qmpReady
  let r ← Op.read
  let blocks ← queryBlock c.query r.target
  let targetDisks ← orRaise (discoverMigratableDisks blocks r.target images)
  Op.refuse (!validateTargetDisks disks targetDisks) .collei
  start c.start
  waitReady c.ready
  ask c.readFiles
  hmpCommands c.target
  hmpCommands c.source
  waitMigrationStatus c.status
  finish c.finish
  cleanup c.cleanup false

/-- One round of `_wait_local_migration`: four questions, the report and the sleep. A target that
reports itself running has started. -/
structure Poll where
  sourceStatus : Turn := {}
  sourceMigrate : Turn := {}
  targetStatus : Turn := {}
  targetMigrate : Turn := {}
  report : Turn := {}
  sourceDone : Bool := true
  targetRunning : Bool := true
  failed : Bool := false
  sleep : Turn := {}

/-- `_wait_local_migration`. -/
def waitLocalMigration : List Poll → Op Run Raised Unit
  | [] => Op.fail .collei
  | poll :: rest => do
    ask poll.sourceStatus
    ask poll.sourceMigrate
    call poll.targetStatus fun r => if poll.targetRunning then targetStarts r else r
    ask poll.targetMigrate
    ask poll.report
    Op.refuse poll.failed .collei
    if poll.sourceDone && poll.targetRunning then pure ()
    else do
      ask poll.sleep
      waitLocalMigration rest

structure SwitchCalls where
  proceed : Turn := {}
  polls : List Poll := [{}]
  report : Turn := {}

/-- `migrate-continue` and the wait for the target. -/
def switchOver (c : SwitchCalls) : Op Run Raised Unit := do
  call c.proceed fun r => { r with began := true }
  waitLocalMigration c.polls
  ask c.report
  Op.update fun r => { r with switched := true }

/-- What happens when a process is to be stopped. -/
structure StopCalls where
  pidFile : Bool := true
  kill : Turn := {}
  exits : Bool := true
  wait : Turn := {}

/-- `_stop_qemu_slot`. -/
def stopQemuSlot (c : StopCalls) (slot : Slot) : Op Run Raised Unit := do
  let r ← Op.read
  Op.given (c.pidFile = true ∧ r.vm.alive slot = true) do
    call c.kill fun r => if c.exits then { r with vm := r.vm.exit slot } else r
    ask c.wait
    Op.refuse (!c.exits) .collei

def persistStorageSlot (turn : Turn) : Op Run Raised Unit :=
  call turn fun r => { r with vm := r.vm.persistStorageSlot r.target }

structure CommitCalls where
  persist : Turn := {}
  stop : StopCalls := {}
  report : Turn := {}

/-- The new storage slot is recorded, and the source is stopped. -/
def commit (c : CommitCalls) : Op Run Raised Unit := do
  persistStorageSlot c.persist
  let r ← Op.read
  stopQemuSlot c.stop r.source
  ask c.report

/-! ## The exception handler -/

structure CancelPoll where
  query : Turn := {}
  active : Bool := false
  sleep : Turn := {}

/-- The wait for a cancelled migration; when the time is up it goes on all the same. -/
def waitCancelled : List CancelPoll → Op Run Raised Unit
  | [] => pure ()
  | poll :: rest => do
    ask poll.query
    if poll.active then do
      ask poll.sleep
      waitCancelled rest
    else pure ()

structure ResumeCalls where
  query : Turn := {}
  active : Bool := true
  cancel : Turn := {}
  resumes : Bool := false
  polls : List CancelPoll := [{}]
  status : Turn := {}
  cont : Turn := {}
  warn : Turn := {}

/-- `_resume_source_after_failed_migration`. A cancelled migration can resume the guest by
itself. -/
def resumeSource (c : ResumeCalls) : Op Run Raised Unit := do
  let failed ← attempt do
    ask c.query
    Op.given (c.active = true)
      (call c.cancel fun r => if c.resumes then continueSource r else r)
    waitCancelled c.polls
    ask c.status
    let r ← Op.read
    Op.given (r.vm.running r.source = false) (call c.cont continueSource)
  Op.given (failed = true) (ask c.warn)

/-- `except ColleiError` around a stop. -/
def stopOrWarn (c : StopCalls) (slot : Slot) (warn : Turn) : Op Run Raised Unit := fun r =>
  match stopQemuSlot c slot r with
  | (.error .collei, r') => ask warn r'
  | result => result

structure HandlerCalls where
  cleanup : CleanupCalls := {}
  persist : Turn := {}
  stopSource : StopCalls := {}
  resume : ResumeCalls := {}
  stopTarget : StopCalls := {}
  warn : Turn := {}

def handler (c : HandlerCalls) : Op Run Raised Unit := do
  cleanup c.cleanup true
  let r ← Op.read
  if r.switched then do
    persistStorageSlot c.persist
    stopOrWarn c.stopSource r.source c.warn
  else do
    resumeSource c.resume
    stopOrWarn c.stopTarget r.target c.warn

structure Inputs where
  select : SelectInputs := {}
  dryRun : Bool := false
  prepare : PrepareCalls := {}
  longSocket : Bool := false
  prelude : PreludeCalls := {}
  switch : SwitchCalls := {}
  commit : CommitCalls := {}
  handler : HandlerCalls := {}

/-- The body of the `try`. -/
def body (i : Inputs) (images : Slot) (disks : List MigratableDisk) : Op Run Raised Unit := do
  prelude i.select.config images disks i.prelude
  switchOver i.switch
  commit i.commit

/-- The `try` with its handler; nobody handles the end of the process. -/
def transfer (i : Inputs) (images : Slot) (disks : List MigratableDisk) : Op Run Raised Unit :=
  Op.onError (body i images disks) fun e => Op.given (e ≠ .killed) (handler i.handler)

/-- `action_migrate_nbd`. -/
def migrateNbd (i : Inputs) : Op Run Raised Unit := do
  let r ← Op.read
  match ← selectDisks i.select with
  | none => pure ()
  | some disks => do
    prepareTargetImages i.prepare i.dryRun disks
    if i.dryRun then pure ()
    else do
      Op.refuse i.longSocket .collei
      setSession fun _ => { resources := disks.map MigratableDisk.nodeName }
      transfer i (inspect r.vm).storageSlot disks

/-- The state in which the action starts. -/
def Run.begin (vm : Vm) (current : Slot → Bool) : Run :=
  { vm, source := (inspect vm).whichQemu, images := (inspect vm).storageSlot, current }

end Collei

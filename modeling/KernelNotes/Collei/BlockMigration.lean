import KernelNotes.Collei.Vm
import KernelNotes.Lib.Outcome

/-!
# Copying the images of a running VM

`block_migration.py`: which disks are copied and to which paths, and the session that mirrors them
to the target QEMU over NBD.

Every call to QEMU can succeed, fail or time out, and the process that makes the calls can be
interrupted or killed at any of them. A `Turn` is what happens at one call, with what the target
QEMU does in the meantime; a function that makes calls takes the turns as arguments.
-/

namespace Collei

open Outcome

/-! ## The disks -/

structure MigratableDisk where
  nodeName : String
  source : FilePath
  target : FilePath
  imageFormat : String
  virtualSize : Nat
  deriving DecidableEq, Repr

/-- The reasons for which a topology is refused. -/
inductive DiscoverError where
  | noNodeName (qdev : String)
  | duplicateNode (node : String)
  | unsupportedFormat (node : String)
  | noImage (node : String)
  | invalidImage (node : String)
  | encryptedNode (node : String)
  | outsideDirectory (path : FilePath)
  | invalidPath (path : FilePath)
  | noDisks
  deriving DecidableEq, Repr

/-- `device.startswith("pflash") and device.removeprefix("pflash").isdigit()`. -/
def isPflash (device : String) : Bool :=
  let rest := device.toList.drop 6
  "pflash".toList.isPrefixOf device.toList && !rest.isEmpty && rest.all Char.isDigit

/-- The device and the medium of a block that is to be copied: writable, attached to a device of
the guest, and not the firmware. -/
def writableDisk (block : Block) : Option (String × Inserted) :=
  match block.inserted, block.qdev with
  | some inserted, some qdev =>
    if block.device.any isPflash || qdev == "" || inserted.ro then none else some (qdev, inserted)
  | _, _ => none

/-- `_relative_image`. -/
def relativeImage (filename : FilePath) (directory : Slot) : Except DiscoverError (List String) :=
  match filename with
  | .image d relative =>
    if d ≠ directory then .error (.outsideDirectory filename)
    else if relative = [] ∨ ".." ∈ relative then .error (.invalidPath filename)
    else .ok relative
  | .elsewhere _ => .error (.outsideDirectory filename)

/-- The checks on one disk. -/
def migratableDisk (source target : Slot) (seen : List String) (qdev : String)
    (inserted : Inserted) : Except DiscoverError MigratableDisk :=
  match inserted.nodeName with
  | none => .error (.noNodeName qdev)
  | some node =>
    if node = "" then .error (.noNodeName qdev)
    else if node ∈ seen then .error (.duplicateNode node)
    else if inserted.drv ≠ "qcow2" ∧ inserted.drv ≠ "raw" then .error (.unsupportedFormat node)
    else match inserted.image with
      | none => .error (.noImage node)
      | some image =>
        match image.filename, image.virtualSize with
        | some filename, some size =>
          if inserted.encrypted then .error (.encryptedNode node)
          else relativeImage filename source >>= fun relative =>
            .ok ⟨node, filename, .image target relative, inserted.drv, size⟩
        | _, _ => .error (.invalidImage node)

def discoverFrom (source target : Slot) :
    List String → List Block → Except DiscoverError (List MigratableDisk)
  | _, [] => .ok []
  | seen, block :: rest =>
    match writableDisk block with
    | none => discoverFrom source target seen rest
    | some (qdev, inserted) => do
      let disk ← migratableDisk source target seen qdev inserted
      let disks ← discoverFrom source target (disk.nodeName :: seen) rest
      return disk :: disks

/-- `discover_migratable_disks`, on the reply to `query-block`. -/
def discoverMigratableDisks (blocks : List Block) (source target : Slot) :
    Except DiscoverError (List MigratableDisk) := do
  let disks ← discoverFrom source target [] blocks
  if disks = [] then .error .noDisks
  else .ok (disks.mergeSort fun a b => decide (a.nodeName ≤ b.nodeName))

/-! ## Calls -/

/-- What ends a call other than by its result: `ColleiError`, `OSError`, an interrupt, or the end of
the process. -/
inductive Raised where
  | collei
  | os
  | interrupt
  | killed
  deriving DecidableEq, Repr

/-- What happens at a call: whether the target starts its guest before it, whether the call fails,
and whether a call that fails has had its effect. -/
structure Turn where
  starts : Bool := false
  fault : Option Raised := none
  took : Bool := false
  deriving DecidableEq, Repr

/-- The fields of `BlockMirrorSession`; resources are named by their block nodes. -/
structure Session where
  resources : List String := []
  serverStarted : Bool := false
  exports : List String := []
  clients : List String := []
  jobs : List String := []

/-- The VM during a migration from the slot `source` to the other one, of images in the directory
`images`.

`began` is true once `migrate-continue` has had its effect, `switched` is the flag of the
action. The other fields record what happened: `started`, whether the target ever ran the guest;
`resumed`, whether the source guest was resumed after the switchover had begun; `both`, whether
both guests ran at one time; `current`, which image directories hold the latest writes of
the guest; `unlinked`, the image files that were removed, and `orphaned`, whether the source had one
of them open. -/
structure Run where
  vm : Vm
  source : Slot
  images : Slot
  session : Session := {}
  began : Bool := false
  switched : Bool := false
  started : Bool := false
  resumed : Bool := false
  both : Bool := false
  current : Slot → Bool
  unlinked : List FilePath := []
  orphaned : Bool := false

def Run.target (r : Run) : Slot := r.source.other

/-- The target QEMU starts the guest, if it is there and the switchover has begun. From then on
the guest writes to the target's images. -/
def targetStarts (r : Run) : Run :=
  if r.began && r.vm.alive r.target && !r.vm.running r.target then
    { r with
      vm := r.vm.setRunning r.target true
      started := true
      both := r.both || r.vm.running r.source
      current := fun slot => decide (slot = r.target) && r.current slot && !r.vm.running r.source }
  else r

/-- The guest of the source runs again, and writes to the images it has open. -/
def continueSource (r : Run) : Run :=
  { r with
    vm := r.vm.setRunning r.source true
    resumed := r.resumed || (r.began && r.vm.alive r.source)
    both := r.both || (r.vm.alive r.source && r.vm.running r.target)
    current := fun slot => decide (slot = r.images) && !r.orphaned && r.current slot }

/-- A call with an effect on the state. -/
def call (turn : Turn) (effect : Run → Run) : Op Run Raised Unit := fun r =>
  let r := if turn.starts then targetStarts r else r
  match turn.fault with
  | none => (.ok (), effect r)
  | some e => (.error e, if turn.took then effect r else r)

/-- A call that only asks. -/
def ask (turn : Turn) : Op Run Raised Unit := call turn id

/-- `except (ColleiError, OSError)`: tells whether there was one. -/
def attempt (x : Op Run Raised Unit) : Op Run Raised Bool := fun r =>
  match x r with
  | (.ok (), r') => (.ok false, r')
  | (.error .collei, r') => (.ok true, r')
  | (.error .os, r') => (.ok true, r')
  | (.error e, r') => (.error e, r')

/-- One call for each element. -/
def forEach (names : List String) (body : String → Op Run Raised Unit) : Op Run Raised Unit :=
  match names with
  | [] => pure ()
  | name :: rest => do
    body name
    forEach rest body

/-! ## The mirror session -/

def setSession (f : Session → Session) : Op Run Raised Unit :=
  Op.update fun r => { r with session := f r.session }

structure StartCalls where
  unlinkSocket : Turn := {}
  serverStart : Turn := {}
  exportAdd : String → Turn := fun _ => {}
  blockdevAdd : String → Turn := fun _ => {}
  mirror : String → Turn := fun _ => {}

/-- `start`: the exports of the target, then a client and a mirror job of the source for each. -/
def start (c : StartCalls) : Op Run Raised Unit := do
  ask c.unlinkSocket
  ask c.serverStart
  setSession fun session => { session with serverStarted := true }
  let r ← Op.read
  forEach r.session.resources fun name => do
    ask (c.exportAdd name)
    setSession fun session => { session with exports := session.exports ++ [name] }
  forEach r.session.resources fun name => do
    ask (c.blockdevAdd name)
    setSession fun session => { session with clients := session.clients ++ [name] }
    ask (c.mirror name)
    setSession fun session => { session with jobs := session.jobs ++ [name] }

/-- What `query-block-jobs` says about a job. -/
inductive JobReply where
  | missing
  | failed
  | copying
  | ready
  deriving DecidableEq, Repr

structure ReadyPoll where
  query : Turn := {}
  job : String → JobReply := fun _ => .ready
  report : Turn := {}
  sleep : Turn := {}

/-- `wait_ready`. The deadline passes when the polls are used up. -/
def waitReady : List ReadyPoll → Op Run Raised Unit
  | [] => Op.fail .collei
  | poll :: rest => do
    ask poll.query
    let r ← Op.read
    Op.refuse (r.session.jobs.any fun name =>
      poll.job name = .missing || poll.job name = .failed) .collei
    ask poll.report
    if r.session.jobs.all fun name => poll.job name = .ready then pure ()
    else do
      ask poll.sleep
      waitReady rest

inductive ConcludedReply where
  | gone
  | active
  | concluded (error : Bool)
  deriving DecidableEq, Repr

structure ConcludedPoll where
  query : Turn := {}
  job : String → ConcludedReply := fun _ => .concluded false
  dismiss : String → Turn := fun _ => {}
  sleep : Turn := {}

/-- `_wait_jobs_concluded`, with the jobs that are pending and whether one ended in an error. -/
def waitJobsConcluded : List ConcludedPoll → List String → Bool → Op Run Raised Unit
  | _, [], errors => do
    setSession fun session => { session with jobs := [] }
    Op.refuse errors .collei
  | [], _ :: _, _ => Op.fail .collei
  | poll :: rest, name :: names, errors => do
    let pending := name :: names
    ask poll.query
    forEach pending fun job =>
      Op.given (poll.job job ≠ .gone ∧ poll.job job ≠ .active) (ask (poll.dismiss job))
    let left := pending.filter fun job => poll.job job = .active
    Op.given (left ≠ []) (ask poll.sleep)
    waitJobsConcluded rest left
      (errors || pending.any fun job => poll.job job = .concluded true)

structure FinishCalls where
  query : Turn := {}
  active : String → Bool := fun _ => true
  cancel : String → Turn := fun _ => {}
  polls : List ConcludedPoll := [{}]

/-- `block-job-cancel` for the jobs that have not concluded, then the wait for all. -/
def cancelJobs (c : FinishCalls) : Op Run Raised Unit := do
  let r ← Op.read
  ask c.query
  forEach r.session.jobs fun job => Op.given (c.active job = true) (ask (c.cancel job))
  waitJobsConcluded c.polls r.session.jobs false

/-- `finish`. A mirror job that was in sync and has concluded without an error has made the image
of the target equal to the one the source has open, which nothing writes any more if the guest is
paused. -/
def finish (c : FinishCalls) : Op Run Raised Unit := do
  cancelJobs c
  Op.update fun r => { r with
    current := Function.update r.current r.target (!r.vm.running r.source) }

structure ExportPoll where
  query : Turn := {}
  present : Bool := false
  sleep : Turn := {}

/-- `_wait_exports_removed`. -/
def waitExportsRemoved : List ExportPoll → Op Run Raised Unit
  | [] => Op.fail .collei
  | poll :: rest => do
    ask poll.query
    if poll.present then do
      ask poll.sleep
      waitExportsRemoved rest
    else pure ()

structure CleanupCalls where
  jobs : FinishCalls := {}
  clientDel : String → Turn := fun _ => {}
  exportDel : String → Turn := fun _ => {}
  exportPolls : List ExportPoll := [{}]
  serverStop : Turn := {}
  unlinkSocket : Turn := {}
  warn : Turn := {}

/-- A part of the clean-up: it is skipped when there is nothing to do, and its failure is noted. -/
def stage (todo : Session → Bool) (x : Session → Op Run Raised Unit) : Op Run Raised Bool := fun r =>
  if todo r.session then attempt (x r.session) r else (.ok false, r)

def removeJobs (c : CleanupCalls) : Op Run Raised Bool :=
  stage (fun session => !session.jobs.isEmpty) fun _ => cancelJobs c.jobs

def removeClients (c : CleanupCalls) : Op Run Raised Bool :=
  stage (fun session => !session.clients.isEmpty) fun session => do
    forEach session.clients.reverse fun name => ask (c.clientDel name)
    setSession fun session => { session with clients := [] }

def removeExports (c : CleanupCalls) : Op Run Raised Bool :=
  stage (fun session => !session.exports.isEmpty) fun session => do
    forEach session.exports.reverse fun name => ask (c.exportDel name)
    waitExportsRemoved c.exportPolls
    setSession fun session => { session with exports := [] }

def stopServer (c : CleanupCalls) : Op Run Raised Bool :=
  stage (fun session => session.serverStarted) fun _ => do
    ask c.serverStop
    setSession fun session => { session with serverStarted := false }

/-- `cleanup`. -/
def cleanup (c : CleanupCalls) (bestEffort : Bool) : Op Run Raised Unit := do
  let jobs ← removeJobs c
  let clients ← removeClients c
  let exports ← removeExports c
  let server ← stopServer c
  let r ← Op.read
  Op.given (r.session.serverStarted = false) (ask c.unlinkSocket)
  if jobs || clients || exports || server then
    if bestEffort then ask c.warn else Op.fail .collei
  else pure ()

/-! ## What the session keeps

The calls of a session change nothing but the session, and the target can start during each. -/

/-- The invariant does not depend on the session, and the target can start without breaking it. -/
structure Ambient (inv : Run → Prop) : Prop where
  starts : ∀ r, inv r → inv (targetStarts r)
  session : ∀ r session, inv r → inv { r with session }

section

variable {inv : Run → Prop}

theorem call_keeps (starts : ∀ r, inv r → inv (targetStarts r)) (turn : Turn) {effect : Run → Run}
    (same : ∀ r, inv r → inv (effect r)) : Keeps inv (call turn effect) := by
  intro r holds
  have holds' : inv (if turn.starts then targetStarts r else r) := by
    split
    · exact starts r holds
    · exact holds
  rw [call]
  cases turn.fault with
  | none => exact same _ holds'
  | some e =>
    show inv (if turn.took then _ else _)
    split
    · exact same _ holds'
    · exact holds'

theorem ask_keeps (starts : ∀ r, inv r → inv (targetStarts r)) (turn : Turn) : Keeps inv (ask turn) :=
  call_keeps starts turn fun _ holds => holds

theorem attempt_keeps {x : Op Run Raised Unit} (keeps : Keeps inv x) : Keeps inv (attempt x) := by
  intro r holds
  have kept := keeps r holds
  rw [attempt]
  revert kept
  obtain ⟨result, r'⟩ := x r
  intro kept
  match result with
  | .ok () => exact kept
  | .error .collei => exact kept
  | .error .os => exact kept
  | .error .interrupt => exact kept
  | .error .killed => exact kept

theorem forEach_keeps {body : String → Op Run Raised Unit} (keeps : ∀ name, Keeps inv (body name))
    (names : List String) : Keeps inv (forEach names body) := by
  induction names with
  | nil => exact Keeps.pure ()
  | cons name rest ih =>
    rw [forEach]
    exact Keeps.bind (keeps name) fun _ => ih

theorem stage_keeps {todo : Session → Bool} {x : Session → Op Run Raised Unit}
    (keeps : ∀ session, Keeps inv (x session)) : Keeps inv (stage todo x) := by
  intro r holds
  rw [stage]
  split
  · exact attempt_keeps (keeps _) r holds
  · exact holds

theorem waitExportsRemoved_keeps (starts : ∀ r, inv r → inv (targetStarts r)) (polls : List ExportPoll) :
    Keeps inv (waitExportsRemoved polls) := by
  induction polls with
  | nil => exact Keeps.fail _
  | cons poll rest ih =>
    rw [waitExportsRemoved]
    exact Keeps.bind (ask_keeps starts _) fun _ =>
      Keeps.ite (Keeps.bind (ask_keeps starts _) fun _ => ih) (Keeps.pure ())

variable (ambient : Ambient inv)
include ambient

theorem Ambient.ask (turn : Turn) : Keeps inv (ask turn) := ask_keeps ambient.starts turn

theorem setSession_keeps (f : Session → Session) : Keeps inv (setSession f) :=
  Keeps.update fun r holds => ambient.session r _ holds

theorem start_keeps (c : StartCalls) : Keeps inv (start c) := by
  refine Keeps.bind (ambient.ask _) fun _ => Keeps.bind (ambient.ask _) fun _ =>
    Keeps.bind (setSession_keeps ambient _) fun _ => Keeps.bind Keeps.read fun r => Keeps.bind ?_ fun _ => ?_
  · exact forEach_keeps (fun _ => Keeps.bind (ambient.ask _) fun _ => setSession_keeps ambient _) _
  · exact forEach_keeps (fun _ => Keeps.bind (ambient.ask _) fun _ =>
      Keeps.bind (setSession_keeps ambient _) fun _ => Keeps.bind (ambient.ask _) fun _ =>
        setSession_keeps ambient _) _

theorem waitReady_keeps (polls : List ReadyPoll) : Keeps inv (waitReady polls) := by
  induction polls with
  | nil => exact Keeps.fail _
  | cons poll rest ih =>
    rw [waitReady]
    exact Keeps.bind (ambient.ask _) fun _ => Keeps.bind Keeps.read fun _ =>
      Keeps.bind (Keeps.refuse _ _) fun _ => Keeps.bind (ambient.ask _) fun _ =>
        Keeps.ite (Keeps.pure ()) (Keeps.bind (ambient.ask _) fun _ => ih)

theorem waitJobsConcluded_keeps (polls : List ConcludedPoll) :
    ∀ (pending : List String) (errors : Bool), Keeps inv (waitJobsConcluded polls pending errors) := by
  induction polls with
  | nil =>
    intro pending errors
    cases pending with
    | nil => exact Keeps.bind (setSession_keeps ambient _) fun _ => Keeps.refuse _ _
    | cons name names => exact Keeps.fail _
  | cons poll rest ih =>
    intro pending errors
    cases pending with
    | nil => exact Keeps.bind (setSession_keeps ambient _) fun _ => Keeps.refuse _ _
    | cons name names =>
      rw [waitJobsConcluded]
      exact Keeps.bind (ambient.ask _) fun _ =>
        Keeps.bind (forEach_keeps (fun _ => Keeps.given (ambient.ask _)) _) fun _ =>
          Keeps.bind (Keeps.given (ambient.ask _)) fun _ => ih _ _

theorem cancelJobs_keeps (c : FinishCalls) : Keeps inv (cancelJobs c) :=
  Keeps.bind Keeps.read fun _ => Keeps.bind (ambient.ask _) fun _ =>
    Keeps.bind (forEach_keeps (fun _ => Keeps.given (ambient.ask _)) _) fun _ =>
      waitJobsConcluded_keeps ambient _ _ _

theorem cleanup_keeps (c : CleanupCalls) (bestEffort : Bool) : Keeps inv (cleanup c bestEffort) := by
  refine Keeps.bind (stage_keeps fun _ => cancelJobs_keeps ambient _) fun _ =>
    Keeps.bind (stage_keeps fun _ => Keeps.bind (forEach_keeps (fun _ => ambient.ask _) _) fun _ =>
      setSession_keeps ambient _) fun _ =>
    Keeps.bind (stage_keeps fun _ => Keeps.bind (forEach_keeps (fun _ => ambient.ask _) _) fun _ =>
      Keeps.bind (waitExportsRemoved_keeps ambient.starts _) fun _ => setSession_keeps ambient _) fun _ =>
    Keeps.bind (stage_keeps fun _ => Keeps.bind (ambient.ask _) fun _ =>
      setSession_keeps ambient _) fun _ =>
    Keeps.bind Keeps.read fun _ => Keeps.bind (Keeps.given (ambient.ask _)) fun _ => ?_
  exact Keeps.ite (Keeps.ite (ambient.ask _) (Keeps.fail _)) (Keeps.pure ())

end

end Collei

import KernelNotes.Collei.BlockMigration
import KernelNotes.Lib.Run

/-!
# The mirror session and the two QEMUs

`BlockMirrorSession` notes what it has made in four fields. Here the commands of `start`, `finish` and
`cleanup` act on the resources of the two QEMUs as well: a command that fails changes nothing, and
QEMU refuses to delete what is not there or in use. After `start` the fields are exact. A clean-up that
is cut short in the middle of a loop leaves a field that names resources which are gone, and the
next clean-up stops at the first of them.

Left out are the socket file and the guest.
-/

namespace Collei.Mirror

open Outcome

/-- `MirrorResource`: the block node of a disk and the three ids made from it. -/
structure MirrorResource where
  nodeName : String
  exportId : String
  clientNode : String
  jobId : String
  deriving DecidableEq, Repr

/-- The fields of `BlockMirrorSession` that change. -/
structure BlockMirrorSession where
  resources : List MirrorResource
  serverStarted : Bool := false
  exports : List MirrorResource := []
  clients : List MirrorResource := []
  jobs : List MirrorResource := []

/-- What the session has made: the NBD server and its exports in the target, the client nodes and the
jobs in the source. A job that has concluded is there until it is dismissed. -/
structure Qemus where
  server : Bool := false
  exports : List MirrorResource := []
  clients : List MirrorResource := []
  jobs : List MirrorResource := []
  concluded : String → Bool := fun _ => false

/-- A command that deletes something. -/
inductive Deletion where
  | job (id : String)
  | client (node : String)
  | export_ (id : String)
  | server
  deriving DecidableEq, Repr

/-- The place of a deletion in the order of the clean-up. -/
def Deletion.rank : Deletion → Nat
  | .job _ => 0
  | .client _ => 1
  | .export_ _ => 2
  | .server => 3

/-- The session, the two QEMUs, and the deletions asked for so far. -/
structure State where
  session : BlockMirrorSession
  qemus : Qemus := {}
  log : List Deletion := []

abbrev Call := Op State Raised

/-- The `status` of `query-block-jobs`: whether the job has concluded, if it is there. -/
def Qemus.status (q : Qemus) (id : String) : Option Bool :=
  if q.jobs.any fun job => job.jobId == id then some (q.concluded id) else none

/-! ## Commands -/

/-- `qmp_execute`: the command fails, or QEMU refuses it, or it has its effect. -/
def command (fails : Bool) (refused : Qemus → Bool) (effect : Qemus → Qemus) : Call Unit := do
  let s ← Op.read
  Op.refuse (fails || refused s.qemus) .collei
  Op.update fun s => { s with qemus := effect s.qemus }

/-- A command that deletes something. -/
def delete (what : Deletion) (fails : Bool) (refused : Qemus → Bool) (effect : Qemus → Qemus) : Call Unit := do
  Op.update fun s => { s with log := s.log ++ [what] }
  command fails refused effect

/-- An assignment to the fields of the session. -/
def note (f : BlockMirrorSession → BlockMirrorSession) : Call Unit :=
  Op.update fun s => { s with session := f s.session }

def nbdServerStart (fails : Bool) : Call Unit :=
  command fails (fun q => q.server) fun q => { q with server := true }

def blockExportAdd (fails : Bool) (r : MirrorResource) : Call Unit :=
  command fails
    (fun q => !q.server || q.exports.any fun e => e.exportId == r.exportId || e.nodeName == r.nodeName)
    fun q => { q with exports := q.exports ++ [r] }

def blockdevAdd (fails : Bool) (r : MirrorResource) : Call Unit :=
  command fails
    (fun q => (q.clients.any fun c => c.clientNode == r.clientNode) || !q.exports.any fun e => e.nodeName == r.nodeName)
    fun q => { q with clients := q.clients ++ [r] }

def blockdevMirror (fails : Bool) (r : MirrorResource) : Call Unit :=
  command fails
    (fun q => (q.jobs.any fun j => j.jobId == r.jobId) || !q.clients.any fun c => c.clientNode == r.clientNode)
    fun q => { q with jobs := q.jobs ++ [r], concluded := Function.update q.concluded r.jobId false }

/-- `block-job-cancel`. The job concludes some time later. -/
def blockJobCancel (fails : Bool) (r : MirrorResource) : Call Unit :=
  command fails (fun q => (q.status r.jobId).isNone) id

def jobDismiss (fails : Bool) (id : String) : Call Unit :=
  delete (.job id) fails (fun q => q.status id != some true)
    fun q => { q with jobs := q.jobs.filter fun job => job.jobId != id }

/-- `blockdev-del`. A client node is in use by a job that has not concluded. -/
def blockdevDel (fails : Bool) (r : MirrorResource) : Call Unit :=
  delete (.client r.clientNode) fails
    (fun q => (!q.clients.any fun c => c.clientNode == r.clientNode) ||
      q.jobs.any fun j => j.clientNode == r.clientNode && !q.concluded j.jobId)
    fun q => { q with clients := q.clients.filter fun c => c.clientNode != r.clientNode }

/-- `block-export-del` in the mode `safe`. An export is in use by its client node. -/
def blockExportDel (fails : Bool) (r : MirrorResource) : Call Unit :=
  delete (.export_ r.exportId) fails
    (fun q => (!q.exports.any fun e => e.exportId == r.exportId) || q.clients.any fun c => c.nodeName == r.nodeName)
    fun q => { q with exports := q.exports.filter fun e => e.exportId != r.exportId }

/-- `nbd-server-stop`. Exports that are still there are closed with it, or are a reason to refuse. -/
def nbdServerStop (closes fails : Bool) : Call Unit :=
  delete .server fails (fun q => !q.server || (!closes && !q.exports.isEmpty))
    fun q => { q with server := false, exports := [] }

/-! ## The session -/

structure StartFaults where
  serverStart : Bool := false
  exportAdd : MirrorResource → Bool := fun _ => false
  blockdevAdd : MirrorResource → Bool := fun _ => false
  mirror : MirrorResource → Bool := fun _ => false

/-- A new export and its note. -/
def startExport (f : StartFaults) (r : MirrorResource) : Call Unit := do
  blockExportAdd (f.exportAdd r) r
  note fun session => { session with exports := session.exports ++ [r] }

/-- A new client and the mirror job that copies to it. -/
def startMirror (f : StartFaults) (r : MirrorResource) : Call Unit := do
  blockdevAdd (f.blockdevAdd r) r
  note fun session => { session with clients := session.clients ++ [r] }
  blockdevMirror (f.mirror r) r
  note fun session => { session with jobs := session.jobs ++ [r] }

/-- `start`. -/
def start (f : StartFaults) : Call Unit := do
  nbdServerStart f.serverStart
  note fun session => { session with serverStarted := true }
  let s ← Op.read
  Op.each s.session.resources (startExport f)
  Op.each s.session.resources (startMirror f)

/-- `_query_jobs`: some jobs have concluded since the last question. -/
def queryJobs (fails : Bool) (settles : String → Bool) : Call Qemus := do
  Op.refuse fails .collei
  Op.update fun s => { s with
    qemus := { s.qemus with concluded := fun id => s.qemus.concluded id || settles id } }
  let s ← Op.read
  pure s.qemus

/-- A round of `_wait_jobs_concluded`: the reply, with the jobs that have an `error`, and the dismissals. -/
structure JobPoll where
  query : Bool := false
  settles : String → Bool := fun _ => true
  error : String → Bool := fun _ => false
  dismiss : String → Bool := fun _ => false

/-- `_wait_jobs_concluded`, with the jobs that are pending and whether one had an error. The deadline
passes when the polls are used up. -/
def waitJobsConcluded : List JobPoll → List String → Bool → Call Unit
  | _, [], errors => do
    note fun session => { session with jobs := [] }
    Op.refuse errors .collei
  | [], _ :: _, _ => Op.fail .collei
  | poll :: rest, id :: ids, errors => do
    let jobs ← queryJobs poll.query poll.settles
    Op.each (id :: ids) fun job => Op.given (jobs.status job = some true) (jobDismiss (poll.dismiss job) job)
    waitJobsConcluded rest ((id :: ids).filter fun job => jobs.status job = some false)
      (errors || (id :: ids).any fun job => jobs.status job = some true && poll.error job)

structure FinishCalls where
  query : Bool := false
  settles : String → Bool := fun _ => false
  cancel : MirrorResource → Bool := fun _ => false
  polls : List JobPoll := [{}]

/-- `finish`, and the first part of `cleanup`, which cancels with `force`. -/
def finish (c : FinishCalls) : Call Unit := do
  let s ← Op.read
  let jobs ← queryJobs c.query c.settles
  Op.each s.session.jobs fun r => Op.given (jobs.status r.jobId = some false) (blockJobCancel (c.cancel r) r)
  waitJobsConcluded c.polls (s.session.jobs.map MirrorResource.jobId) false

/-- A round of `_wait_exports_removed`. An export that is deleted may linger for some time. -/
structure ExportPoll where
  query : Bool := false
  lingers : Bool := false

/-- `_wait_exports_removed`. -/
def waitExportsRemoved : List ExportPoll → Call Unit
  | [] => Op.fail .collei
  | poll :: rest => do
    Op.refuse poll.query .collei
    if poll.lingers then waitExportsRemoved rest else pure ()

structure CleanupCalls where
  jobs : FinishCalls := {}
  clientDel : MirrorResource → Bool := fun _ => false
  exportDel : MirrorResource → Bool := fun _ => false
  exportPolls : List ExportPoll := [{}]
  serverStop : Bool := false

/-- A part of the clean-up: it is skipped when there is nothing to do, and its error is noted. -/
def stage (todo : BlockMirrorSession → Bool) (x : BlockMirrorSession → Call Unit) : Call Bool := do
  let s ← Op.read
  if todo s.session then Op.attempt (x s.session) else pure false

def removeJobs (c : CleanupCalls) : Call Bool :=
  stage (fun session => !session.jobs.isEmpty) fun _ => finish c.jobs

def removeClients (c : CleanupCalls) : Call Bool :=
  stage (fun session => !session.clients.isEmpty) fun session => do
    Op.each session.clients.reverse fun r => blockdevDel (c.clientDel r) r
    note fun session => { session with clients := [] }

def removeExports (c : CleanupCalls) : Call Bool :=
  stage (fun session => !session.exports.isEmpty) fun session => do
    Op.each session.exports.reverse fun r => blockExportDel (c.exportDel r) r
    waitExportsRemoved c.exportPolls
    note fun session => { session with exports := [] }

def stopServer (closes : Bool) (c : CleanupCalls) : Call Bool :=
  stage (fun session => session.serverStarted) fun _ => do
    nbdServerStop closes c.serverStop
    note fun session => { session with serverStarted := false }

/-- `cleanup`. -/
def cleanup (closes : Bool) (c : CleanupCalls) (bestEffort : Bool) : Call Unit := do
  let jobs ← removeJobs c
  let clients ← removeClients c
  let exports ← removeExports c
  let server ← stopServer closes c
  Op.refuse ((jobs || clients || exports || server) && !bestEffort) .collei

/-! ## How a command ends -/

variable {fails closes : Bool} {s s' : State} {rs : List MirrorResource} {r : MirrorResource}
  {c : CleanupCalls}

theorem command_ends {refused : Qemus → Bool} {effect : Qemus → Qemus} :
    Ends (fun _ s' => s' = { s with qemus := effect s.qemus } ∧ fails = false ∧ refused s.qemus = false)
      (fun _ s' => s' = s ∧ (fails = true ∨ refused s.qemus = true)) (command fails refused effect s) := by
  refine Ends.read_bind ?_
  refine Ends.bind (fun _ s' => s = s' ∧ fails = false ∧ refused s.qemus = false)
    (Ends.refuse (fun accepted => ?_) fun no => ?_) ?_
  · exact ⟨rfl, Bool.or_eq_false_iff.mp accepted⟩
  · exact ⟨rfl, Bool.or_eq_true_iff.mp no⟩
  · rintro _ _ ⟨rfl, accepted⟩
    exact Ends.update ⟨rfl, accepted⟩

theorem delete_ends {what : Deletion} {fails : Bool} {refused : Qemus → Bool} {effect : Qemus → Qemus} {s : State} :
    Ends (fun _ s' => s' = { s with qemus := effect s.qemus, log := s.log ++ [what] } ∧ fails = false ∧
        refused s.qemus = false)
      (fun _ s' => s' = { s with log := s.log ++ [what] } ∧ (fails = true ∨ refused s.qemus = true))
      (delete what fails refused effect s) := by
  refine Ends.bind (fun _ s' => { s with log := s.log ++ [what] } = s') (Ends.update rfl) ?_
  rintro _ _ rfl
  exact command_ends

theorem delete_accepted {what : Deletion} {fails : Bool} {refused : Qemus → Bool} {effect : Qemus → Qemus}
    {s : State} (calm : fails = false) (accepted : refused s.qemus = false) :
    delete what fails refused effect s = (.ok (), { s with qemus := effect s.qemus, log := s.log ++ [what] }) := by
  have ends := @delete_ends what fails refused effect s
  match ran : delete what fails refused effect s with
  | (.ok (), s') =>
    rw [ran] at ends
    rw [ends.1]
  | (.error e, s') =>
    rw [ran] at ends
    rcases ends.2 with fault | no
    · exact absurd (calm.symm.trans fault) (by simp)
    · exact absurd (accepted.symm.trans no) (by simp)

/-! ## After `start` -/

/-- The fields say what there is, and no id is used twice. -/
structure Booked (s : State) : Prop where
  server : s.qemus.server = s.session.serverStarted
  exports : s.qemus.exports = s.session.exports
  clients : s.qemus.clients = s.session.clients
  jobs : s.qemus.jobs = s.session.jobs
  closed : s.qemus.server = false → s.qemus.exports = []
  exportIds : (s.session.exports.map MirrorResource.exportId).Nodup
  clientNodes : (s.session.clients.map MirrorResource.clientNode).Nodup
  jobIds : (s.session.jobs.map MirrorResource.jobId).Nodup

theorem nodup_snoc {key : MirrorResource → String} (nodup : (rs.map key).Nodup)
    (fresh : (rs.any fun e => key e == key r) = false) : ((rs ++ [r]).map key).Nodup := by
  rw [List.map_append, List.nodup_append]
  refine ⟨nodup, List.nodup_singleton _, fun id mem id' here same => ?_⟩
  obtain ⟨e, old, rfl⟩ := List.mem_map.mp mem
  obtain rfl := List.mem_singleton.mp here
  rw [List.any_eq_false] at fresh
  exact fresh e old (beq_iff_eq.mpr same)

theorem startExport_booked (f : StartFaults) (r : MirrorResource) : Keeps Booked (startExport f r) := by
  intro s booked
  refine Ends.bind _ (command_ends.mono (fun _ _ => id) ?_) ?_
  · rintro _ _ ⟨rfl, -⟩
    exact booked
  · rintro _ _ ⟨rfl, -, accepted⟩
    refine Ends.update ⟨booked.server, ?_, booked.clients, booked.jobs, fun off => ?_,
      nodup_snoc booked.exportIds ?_, booked.clientNodes, booked.jobIds⟩
    · exact congrArg (· ++ [r]) booked.exports
    · have off : s.qemus.server = false := off
      rw [off] at accepted
      cases accepted
    · have free := (Bool.or_eq_false_iff.mp accepted).2
      rw [List.any_eq_false] at free ⊢
      intro e mem same
      refine free e (booked.exports ▸ mem) ?_
      rw [same, Bool.true_or]

theorem startMirror_booked (f : StartFaults) (r : MirrorResource) : Keeps Booked (startMirror f r) := by
  intro s booked
  refine Ends.bind _ (command_ends.mono (fun _ _ => id) ?_) ?_
  · rintro _ _ ⟨rfl, -⟩
    exact booked
  rintro _ _ ⟨rfl, -, accepted⟩
  refine Ends.bind (fun _ => Booked) (Ends.update ⟨booked.server, booked.exports, ?_, booked.jobs, booked.closed,
    booked.exportIds, nodup_snoc booked.clientNodes ?_, booked.jobIds⟩) ?_
  · exact congrArg (· ++ [r]) booked.clients
  · rw [← booked.clients]
    exact (Bool.or_eq_false_iff.mp accepted).1
  intro _ s booked
  refine Ends.bind _ (command_ends.mono (fun _ _ => id) ?_) ?_
  · rintro _ _ ⟨rfl, -⟩
    exact booked
  rintro _ _ ⟨rfl, -, accepted⟩
  refine Ends.update ⟨booked.server, booked.exports, booked.clients, ?_, booked.closed, booked.exportIds,
    booked.clientNodes, nodup_snoc booked.jobIds ?_⟩
  · exact congrArg (· ++ [r]) booked.jobs
  · rw [← booked.jobs]
    exact (Bool.or_eq_false_iff.mp accepted).1

/-- Wherever `start` ends, the fields are exact. -/
theorem start_booked (f : StartFaults) : Keeps Booked (start f) := by
  intro s booked
  refine Ends.bind _ (command_ends.mono (fun _ _ => id) ?_) ?_
  · rintro _ _ ⟨rfl, -⟩
    exact booked
  rintro _ _ ⟨rfl, -, -⟩
  refine Ends.bind (fun _ => Booked) (Ends.update ?_) fun _ s' booked' => ?_
  · exact ⟨rfl, booked.exports, booked.clients, booked.jobs, nofun, booked.exportIds, booked.clientNodes,
      booked.jobIds⟩
  · exact (Keeps.read.bind fun read => (Keeps.each _ fun r _ => startExport_booked f r).bind fun _ =>
      Keeps.each _ fun r _ => startMirror_booked f r) s' booked'

/-! ## Deleting in reverse

The loops over the clients and over the exports are one argument: `held` is what QEMU has of a kind, and
`context` is what the loop leaves alone. -/

section Drain

variable {held : State → List MirrorResource} {key : MirrorResource → String} {context : State → Prop}
  {del : MirrorResource → Call Unit}

/-- A deletion has its effect, which takes a resource that is there, or changes nothing. -/
def Deletes (held : State → List MirrorResource) (key : MirrorResource → String) (context : State → Prop)
    (del : MirrorResource → Call Unit) : Prop :=
  ∀ r s, context s → Ends
    (fun _ s' => context s' ∧ ((held s).any fun e => key e == key r) = true ∧
      held s' = (held s).filter fun e => key e != key r)
    (fun _ s' => context s' ∧ held s' = held s) (del r s)

theorem filter_snoc (nodup : ((rs ++ [r]).map key).Nodup) :
    ((rs ++ [r]).filter fun e => key e != key r) = rs := by
  rw [List.map_append, List.nodup_append] at nodup
  rw [List.filter_append, List.filter_eq_self.mpr, List.filter_eq_nil_iff.mpr, List.append_nil]
  · intro e mem
    obtain rfl := List.mem_singleton.mp mem
    simp
  · intro e mem
    rw [bne_iff_ne]
    exact nodup.2.2 (key e) (List.mem_map_of_mem mem) (key r) (by simp)

/-- What is there is the list up to some point, and the last resource is there only if all are. -/
theorem eq_of_any {hs : List MirrorResource} (nodup : ((rs ++ [r]).map key).Nodup)
    (start_ : hs <+: rs ++ [r]) (there : (hs.any fun e => key e == key r) = true) :
    hs = rs ++ [r] := by
  rcases List.prefix_concat_iff.mp start_ with all | short
  · exact all
  · obtain ⟨e, mem, same⟩ := List.any_eq_true.mp there
    rw [List.map_append, List.nodup_append] at nodup
    exact absurd (beq_iff_eq.mp same) (nodup.2.2 (key e) (List.mem_map_of_mem (short.subset mem)) (key r) (by simp))

theorem drain_ends (deletes : Deletes held key context del) (rs : List MirrorResource) :
    ∀ s, context s → (rs.map key).Nodup → held s <+: rs →
      Ends (fun _ s' => context s' ∧ held s' = []) (fun _ s' => context s' ∧ held s' <+: held s)
        (Op.each rs.reverse del s) := by
  induction rs using List.reverseRecOn with
  | nil =>
    intro s here _ start_
    exact Ends.pure ⟨here, List.prefix_nil.mp start_⟩
  | append_singleton rs r ih =>
    intro s here nodup start_
    rw [List.reverse_append, List.reverse_singleton, List.singleton_append, Op.each]
    refine Ends.bind _ ((deletes r s here).mono (fun _ _ => id) ?_) ?_
    · rintro _ s' ⟨here', same⟩
      exact ⟨here', same ▸ List.prefix_rfl⟩
    · rintro _ s' ⟨here', there, left⟩
      have all := eq_of_any nodup start_ there
      rw [all, filter_snoc nodup] at left
      have nodup' : (rs.map key).Nodup := by
        rw [List.map_append] at nodup
        exact nodup.of_append_left
      refine (ih s' here' nodup' (left ▸ List.prefix_rfl)).mono (fun _ _ => id) ?_
      rintro _ s'' ⟨here'', short⟩
      rw [left] at short
      exact ⟨here'', all ▸ short.trans (List.prefix_append rs [r])⟩

/-- When nothing fails but for want of the resource, everything goes if all or nothing of the list is there. -/
theorem drain_clean (deletes : Deletes held key context del)
    (accepts : ∀ r s, context s → ((held s).any fun e => key e == key r) = true → (del r s).1 = .ok ())
    (rs : List MirrorResource) : ∀ s, context s → (rs.map key).Nodup → held s <+: rs →
      (held (Op.each rs.reverse del s).2 = [] ↔ held s = rs ∨ held s = []) := by
  induction rs using List.reverseRecOn with
  | nil =>
    intro s here _ start_
    show held s = [] ↔ _
    rw [or_self]
  | append_singleton rs r ih =>
    intro s here nodup start_
    rw [List.reverse_append, List.reverse_singleton, List.singleton_append, Op.each]
    have ends := deletes r s here
    by_cases there : ((held s).any fun e => key e == key r) = true
    · have ran := eq_of_ok (accepts r s here there)
      rw [ran] at ends
      rw [Op.bind_ok ran]
      obtain ⟨here', -, left⟩ := ends
      have all := eq_of_any nodup start_ there
      rw [all, filter_snoc nodup] at left
      have nodup' : (rs.map key).Nodup := by
        rw [List.map_append] at nodup
        exact nodup.of_append_left
      rw [ih _ here' nodup' (left ▸ List.prefix_rfl), left]
      simp [all]
    · have failed : ∃ e s', del r s = (.error e, s') := by
        rcases ran : del r s with ⟨e | _, s'⟩
        · exact ⟨e, s', rfl⟩
        · rw [ran] at ends
          exact absurd ends.2.1 there
      obtain ⟨e, s', ran⟩ := failed
      rw [ran] at ends
      rw [Op.bind_error ran]
      show held s' = [] ↔ _
      rw [ends.2]
      constructor
      · exact .inr
      · rintro (all | nothing)
        · rw [all] at there
          exact absurd (by simp) there
        · exact nothing

end Drain

/-! ## The jobs -/

theorem status_eq_some {q : Qemus} {id : String} {concluded : Bool} :
    q.status id = some concluded ↔ (∃ j ∈ q.jobs, j.jobId = id) ∧ q.concluded id = concluded := by
  rw [Qemus.status]
  split
  · rename_i there
    obtain ⟨j, mem, same⟩ := List.any_eq_true.mp there
    rw [Option.some.injEq]
    exact ⟨fun done => ⟨⟨j, mem, beq_iff_eq.mp same⟩, done⟩, And.right⟩
  · rename_i absent
    constructor
    · nofun
    · rintro ⟨⟨j, mem, same⟩, -⟩
      rw [List.any_eq_true] at absent
      exact absurd ⟨j, mem, beq_iff_eq.mpr same⟩ absent

/-- Some jobs have concluded and some were dismissed. -/
structure Shrunk (s₀ s : State) : Prop where
  session : s.session = s₀.session
  server : s.qemus.server = s₀.qemus.server
  exports : s.qemus.exports = s₀.qemus.exports
  clients : s.qemus.clients = s₀.qemus.clients
  jobs : ∀ j ∈ s.qemus.jobs, j ∈ s₀.qemus.jobs

/-- All jobs were dismissed, which is noted. -/
structure Dismissed (s₀ s : State) : Prop where
  session : s.session = { s₀.session with jobs := [] }
  server : s.qemus.server = s₀.qemus.server
  exports : s.qemus.exports = s₀.qemus.exports
  clients : s.qemus.clients = s₀.qemus.clients
  jobs : s.qemus.jobs = []

theorem Shrunk.refl (s : State) : Shrunk s s := ⟨rfl, rfl, rfl, rfl, fun _ => id⟩

variable {s₀ : State}

theorem queryJobs_ends {settles : String → Bool} (shrunk : Shrunk s₀ s) :
    Ends (fun q s' => q = s'.qemus ∧ Shrunk s₀ s' ∧ s'.qemus.jobs = s.qemus.jobs ∧ s'.session = s.session ∧
        ∀ id, settles id = true → s'.qemus.concluded id = true)
      (fun _ s' => s = s' ∧ fails = true) (queryJobs fails settles s) := by
  refine Ends.refuse_bind (fun failed => ⟨rfl, failed⟩) fun _ => ?_
  refine ⟨rfl, ⟨shrunk.session, shrunk.server, shrunk.exports, shrunk.clients, shrunk.jobs⟩, rfl, rfl,
    fun id settled => ?_⟩
  show (s.qemus.concluded id || settles id) = true
  rw [settled, Bool.or_true]

theorem jobDismiss_ends {id : String} (shrunk : Shrunk s₀ s) :
    Ends (fun _ s' => Shrunk s₀ s' ∧ s'.qemus = { s.qemus with jobs := s.qemus.jobs.filter fun j => j.jobId != id })
      (fun _ s' => Shrunk s₀ s' ∧ (fails = true ∨ s.qemus.status id ≠ some true)) (jobDismiss fails id s) := by
  refine delete_ends.mono ?_ ?_
  · rintro _ _ ⟨rfl, -, -⟩
    exact ⟨⟨shrunk.session, shrunk.server, shrunk.exports, shrunk.clients,
      fun j mem => shrunk.jobs j (List.mem_of_mem_filter mem)⟩, rfl⟩
  · rintro _ _ ⟨rfl, failed⟩
    exact ⟨⟨shrunk.session, shrunk.server, shrunk.exports, shrunk.clients, shrunk.jobs⟩,
      failed.imp (fun fault => fault) fun refused => bne_iff_ne.mp refused⟩

theorem dismissAll_ends (seen : Qemus) (fails : String → Bool) (ids : List String) : ∀ s, Shrunk s₀ s →
    Ends (fun _ s' => Shrunk s₀ s' ∧ ∀ j ∈ s'.qemus.jobs, j ∈ s.qemus.jobs ∧
        (j.jobId ∈ ids → seen.status j.jobId ≠ some true))
      (fun _ s' => Shrunk s₀ s')
      (Op.each ids (fun id => Op.given (seen.status id = some true) (jobDismiss (fails id) id)) s) := by
  induction ids with
  | nil => exact fun s shrunk => Ends.pure ⟨shrunk, fun j mem => ⟨mem, nofun⟩⟩
  | cons id ids ih =>
    intro s shrunk
    rw [Op.each]
    refine Ends.bind (fun _ s' => Shrunk s₀ s' ∧ ∀ j ∈ s'.qemus.jobs, j ∈ s.qemus.jobs ∧
      (j.jobId = id → seen.status id ≠ some true)) (Ends.given (fun _ => ?_) fun active => ?_) ?_
    · refine (jobDismiss_ends shrunk).mono ?_ fun _ _ => And.left
      rintro _ s' ⟨shrunk', left⟩
      refine ⟨shrunk', fun j mem => ?_⟩
      rw [left] at mem
      obtain ⟨old, other⟩ := List.mem_filter.mp mem
      exact ⟨old, fun same => absurd same (bne_iff_ne.mp other)⟩
    · exact ⟨shrunk, fun j mem => ⟨mem, fun _ => active⟩⟩
    · rintro _ s' ⟨shrunk', first⟩
      refine (ih s' shrunk').mono ?_ fun _ _ kept => kept
      rintro _ s'' ⟨shrunk'', rest⟩
      refine ⟨shrunk'', fun j mem => ⟨(first j (rest j mem).1).1, fun listed => ?_⟩⟩
      rcases List.mem_cons.mp listed with same | later
      · exact same ▸ (first j (rest j mem).1).2 same
      · exact (rest j mem).2 later

theorem waitJobsConcluded_nil (polls : List JobPoll) (errors : Bool) (shrunk : Shrunk s₀ s)
    (cover : ∀ j ∈ s.qemus.jobs, j.jobId ∈ ([] : List String)) :
    Ends (fun _ s' => Dismissed s₀ s') (fun _ s' => Dismissed s₀ s') (waitJobsConcluded polls [] errors s) := by
  have none_ : s.qemus.jobs = [] := List.eq_nil_iff_forall_not_mem.mpr fun j mem => List.not_mem_nil (cover j mem)
  have dismissed : Dismissed s₀ { s with session := { s.session with jobs := [] } } :=
    ⟨by rw [shrunk.session], shrunk.server, shrunk.exports, shrunk.clients, none_⟩
  rw [waitJobsConcluded]
  refine Ends.bind (fun _ s' => Dismissed s₀ s') (Ends.update dismissed) fun _ s' gone => ?_
  exact Ends.refuse (fun _ => gone) fun _ => gone

theorem pending_of_left {seen : Qemus} {pending : List String} {j : MirrorResource} (old : j ∈ seen.jobs)
    (listed : j.jobId ∈ pending) (active : j.jobId ∈ pending → seen.status j.jobId ≠ some true) :
    j.jobId ∈ pending.filter fun id => seen.status id = some false := by
  refine List.mem_filter.mpr ⟨listed, decide_eq_true ?_⟩
  rw [status_eq_some]
  refine ⟨⟨j, old, rfl⟩, ?_⟩
  by_contra settled
  exact active listed (status_eq_some.mpr ⟨⟨j, old, rfl⟩, by simpa using settled⟩)

theorem waitJobsConcluded_ends (polls : List JobPoll) : ∀ (pending : List String) (errors : Bool) (s : State),
    Shrunk s₀ s → (∀ j ∈ s.qemus.jobs, j.jobId ∈ pending) →
      Ends (fun _ s' => Dismissed s₀ s') (fun _ s' => Shrunk s₀ s' ∨ Dismissed s₀ s')
        (waitJobsConcluded polls pending errors s) := by
  induction polls with
  | nil =>
    intro pending errors s shrunk cover
    cases pending with
    | nil => exact (waitJobsConcluded_nil _ _ shrunk cover).mono (fun _ _ => id) fun _ _ => .inr
    | cons id ids => exact .inl shrunk
  | cons poll rest ih =>
    intro pending errors s shrunk cover
    cases pending with
    | nil => exact (waitJobsConcluded_nil _ _ shrunk cover).mono (fun _ _ => id) fun _ _ => .inr
    | cons id ids =>
      rw [waitJobsConcluded]
      refine Ends.bind _ ((queryJobs_ends shrunk).mono (fun _ _ ran => ran) ?_) ?_
      · rintro _ _ ⟨rfl, -⟩
        exact .inl shrunk
      rintro _ s' ⟨rfl, shrunk', jobs, -, -⟩
      refine Ends.bind _ ((dismissAll_ends _ _ _ s' shrunk').mono (fun _ _ ran => ran) fun _ _ => .inl) ?_
      rintro _ s'' ⟨shrunk'', left⟩
      refine ih _ _ s'' shrunk'' fun j mem => ?_
      obtain ⟨old, active⟩ := left j mem
      exact pending_of_left old (cover j (jobs ▸ old)) active

/-- `finish` deals with jobs only. -/
theorem finish_ends (c : FinishCalls) (listed : ∀ j ∈ s.qemus.jobs, j ∈ s.session.jobs) :
    Ends (fun _ s' => Dismissed s s') (fun _ s' => Shrunk s s' ∨ Dismissed s s') (finish c s) := by
  refine Ends.read_bind ?_
  refine Ends.bind _ ((queryJobs_ends (Shrunk.refl s)).mono (fun _ _ => id) ?_) ?_
  · rintro _ _ ⟨rfl, -⟩
    exact .inl (Shrunk.refl s)
  rintro _ s' ⟨rfl, shrunk, jobs, -, -⟩
  refine Ends.bind (fun _ s'' => s' = s'') ?_ ?_
  · have keeps : Keeps (fun s'' => s' = s'') (Op.each s.session.jobs fun r =>
        Op.given (s'.qemus.status r.jobId = some false) (blockJobCancel (c.cancel r) r)) := by
      refine Keeps.each _ fun r _ => Keeps.given fun s'' same => ?_
      subst same
      exact command_ends.mono (fun _ _ ran => ran.1.symm) fun _ _ ran => ran.1.symm
    exact (keeps s' rfl).mono (fun _ _ => id) fun _ _ same => .inl (same ▸ shrunk)
  · rintro _ _ rfl
    refine waitJobsConcluded_ends _ _ _ s' shrunk fun j mem => ?_
    exact List.mem_map_of_mem (listed j (jobs ▸ mem))

/-! ## Through any number of clean-ups -/

/-- Whatever there is, is listed; of the clients and the exports it is the first part of the list. -/
structure Tracked (s : State) : Prop where
  server : s.qemus.server = s.session.serverStarted
  exports : s.qemus.exports <+: s.session.exports
  clients : s.qemus.clients <+: s.session.clients
  jobs : ∀ j ∈ s.qemus.jobs, j ∈ s.session.jobs
  closed : s.qemus.server = false → s.qemus.exports = []
  exportIds : (s.session.exports.map MirrorResource.exportId).Nodup
  clientNodes : (s.session.clients.map MirrorResource.clientNode).Nodup
  jobIds : (s.session.jobs.map MirrorResource.jobId).Nodup

theorem Booked.tracked (booked : Booked s) : Tracked s where
  server := booked.server
  exports := booked.exports ▸ List.prefix_rfl
  clients := booked.clients ▸ List.prefix_rfl
  jobs _ mem := booked.jobs ▸ mem
  closed := booked.closed
  exportIds := booked.exportIds
  clientNodes := booked.clientNodes
  jobIds := booked.jobIds

theorem Tracked.shrunk (tracked : Tracked s) (shrunk : Shrunk s s') : Tracked s' := by
  obtain ⟨session, server, exports, clients, jobs⟩ := shrunk
  constructor
  · rw [server, session]
    exact tracked.server
  · rw [exports, session]
    exact tracked.exports
  · rw [clients, session]
    exact tracked.clients
  · rw [session]
    exact fun j mem => tracked.jobs j (jobs j mem)
  · rw [server, exports]
    exact tracked.closed
  · rw [session]
    exact tracked.exportIds
  · rw [session]
    exact tracked.clientNodes
  · rw [session]
    exact tracked.jobIds

theorem Tracked.dismissed (tracked : Tracked s) (dismissed : Dismissed s s') : Tracked s' := by
  obtain ⟨session, server, exports, clients, jobs⟩ := dismissed
  constructor
  · rw [server, session]
    exact tracked.server
  · rw [exports, session]
    exact tracked.exports
  · rw [clients, session]
    exact tracked.clients
  · rw [jobs]
    exact fun j mem => absurd mem List.not_mem_nil
  · rw [server, exports]
    exact tracked.closed
  · rw [session]
    exact tracked.exportIds
  · rw [session]
    exact tracked.clientNodes
  · rw [session]
    exact List.nodup_nil

theorem finish_tracked (c : FinishCalls) : Keeps Tracked (finish c) := by
  intro s tracked
  refine (finish_ends c tracked.jobs).mono (fun _ s' gone => tracked.dismissed gone) ?_
  rintro _ s' (shrunk | gone)
  · exact tracked.shrunk shrunk
  · exact tracked.dismissed gone

theorem stage_ends {todo : BlockMirrorSession → Bool} {x : BlockMirrorSession → Call Unit}
    {post : Bool → State → Prop} {failed : Raised → State → Prop}
    (skip : todo s.session = false → post false s)
    (run : todo s.session = true → Ends (fun _ => post false) (fun _ => post true) (x s.session s)) :
    Ends post failed (stage todo x s) := by
  refine Ends.read_bind ?_
  by_cases now : todo s.session = true
  · rw [if_pos now]
    exact Ends.attempt (run now)
  · rw [if_neg now]
    exact skip (by simpa using now)

/-- Only client nodes were deleted. -/
structure OnlyClients (s₀ s : State) : Prop where
  session : s.session = s₀.session
  server : s.qemus.server = s₀.qemus.server
  exports : s.qemus.exports = s₀.qemus.exports
  jobs : s.qemus.jobs = s₀.qemus.jobs

theorem blockdevDel_deletes (s₀ : State) (fails : MirrorResource → Bool) :
    Deletes (fun s => s.qemus.clients) MirrorResource.clientNode (OnlyClients s₀)
      fun r => blockdevDel (fails r) r := by
  intro r s only
  refine delete_ends.mono ?_ ?_
  · rintro _ _ ⟨rfl, -, accepted⟩
    refine ⟨⟨only.session, only.server, only.exports, only.jobs⟩, ?_, rfl⟩
    simpa using (Bool.or_eq_false_iff.mp accepted).1
  · rintro _ _ ⟨rfl, -⟩
    exact ⟨⟨only.session, only.server, only.exports, only.jobs⟩, rfl⟩

theorem Tracked.onlyClients (tracked : Tracked s) (only : OnlyClients s s')
    (clients : s'.qemus.clients <+: s.session.clients) : Tracked s' := by
  obtain ⟨session, server, exports, jobs⟩ := only
  refine ⟨?_, ?_, session ▸ clients, ?_, ?_, session ▸ tracked.exportIds, session ▸ tracked.clientNodes,
    session ▸ tracked.jobIds⟩
  · rw [server, session]
    exact tracked.server
  · rw [exports, session]
    exact tracked.exports
  · rw [jobs, session]
    exact tracked.jobs
  · rw [server, exports]
    exact tracked.closed

theorem removeClients_tracked (c : CleanupCalls) : Keeps Tracked (removeClients c) := by
  intro s tracked
  refine stage_ends (fun _ => tracked) fun _ => ?_
  have drained := drain_ends (blockdevDel_deletes s c.clientDel) s.session.clients s ⟨rfl, rfl, rfl, rfl⟩
    tracked.clientNodes tracked.clients
  refine Ends.bind _ (drained.mono (fun _ _ ran => ran) ?_) ?_
  · rintro _ s' ⟨only, left⟩
    exact tracked.onlyClients only (left.trans tracked.clients)
  · rintro _ s' ⟨only, none_⟩
    have tracked' := tracked.onlyClients only (none_ ▸ List.nil_prefix)
    refine Ends.update ⟨tracked'.server, tracked'.exports, ?_, tracked'.jobs, tracked'.closed, tracked'.exportIds,
      List.nodup_nil, tracked'.jobIds⟩
    exact List.prefix_nil.mpr none_

/-- Only exports were deleted. -/
structure OnlyExports (s₀ s : State) : Prop where
  session : s.session = s₀.session
  server : s.qemus.server = s₀.qemus.server
  clients : s.qemus.clients = s₀.qemus.clients
  jobs : s.qemus.jobs = s₀.qemus.jobs

theorem blockExportDel_deletes (s₀ : State) (fails : MirrorResource → Bool) :
    Deletes (fun s => s.qemus.exports) MirrorResource.exportId (OnlyExports s₀)
      fun r => blockExportDel (fails r) r := by
  intro r s only
  refine delete_ends.mono ?_ ?_
  · rintro _ _ ⟨rfl, -, accepted⟩
    refine ⟨⟨only.session, only.server, only.clients, only.jobs⟩, ?_, rfl⟩
    simpa using (Bool.or_eq_false_iff.mp accepted).1
  · rintro _ _ ⟨rfl, -⟩
    exact ⟨⟨only.session, only.server, only.clients, only.jobs⟩, rfl⟩

theorem Tracked.onlyExports (tracked : Tracked s) (only : OnlyExports s s')
    (exports : s'.qemus.exports <+: s.session.exports)
    (closed : s.qemus.server = false → s'.qemus.exports = []) : Tracked s' := by
  obtain ⟨session, server, clients, jobs⟩ := only
  refine ⟨?_, session ▸ exports, ?_, ?_, server ▸ closed, session ▸ tracked.exportIds,
    session ▸ tracked.clientNodes, session ▸ tracked.jobIds⟩
  · rw [server, session]
    exact tracked.server
  · rw [clients, session]
    exact tracked.clients
  · rw [jobs, session]
    exact tracked.jobs

theorem waitExportsRemoved_same (polls : List ExportPoll) (s : State) :
    Ends (fun _ s' => s = s') (fun _ s' => s = s') (waitExportsRemoved polls s) := by
  induction polls with
  | nil => exact rfl
  | cons poll rest ih =>
    rw [waitExportsRemoved]
    refine Ends.refuse_bind (fun _ => rfl) fun _ => ?_
    by_cases lingers : poll.lingers = true
    · rw [if_pos lingers]
      exact ih
    · rw [if_neg lingers]
      exact Ends.pure rfl

theorem removeExports_tracked (c : CleanupCalls) : Keeps Tracked (removeExports c) := by
  intro s tracked
  refine stage_ends (fun _ => tracked) fun _ => ?_
  have drained := drain_ends (blockExportDel_deletes s c.exportDel) s.session.exports s ⟨rfl, rfl, rfl, rfl⟩
    tracked.exportIds tracked.exports
  refine Ends.bind _ (drained.mono (fun _ _ ran => ran) ?_) ?_
  · rintro _ s' ⟨only, left⟩
    refine tracked.onlyExports only (left.trans tracked.exports) fun off => ?_
    have left : s'.qemus.exports <+: s.qemus.exports := left
    rw [tracked.closed off] at left
    exact List.prefix_nil.mp left
  · rintro _ s' ⟨only, none_⟩
    have tracked' := tracked.onlyExports only (none_ ▸ List.nil_prefix) fun _ => none_
    refine Ends.bind (fun _ s'' => s' = s'') ((waitExportsRemoved_same _ s').mono (fun _ _ same => same) ?_) ?_
    · rintro _ _ rfl
      exact tracked'
    · rintro _ _ rfl
      refine Ends.update ⟨tracked'.server, ?_, tracked'.clients, tracked'.jobs, tracked'.closed, List.nodup_nil,
        tracked'.clientNodes, tracked'.jobIds⟩
      exact List.prefix_nil.mpr none_

theorem stopServer_tracked (closes : Bool) (c : CleanupCalls) : Keeps Tracked (stopServer closes c) := by
  intro s tracked
  refine stage_ends (fun _ => tracked) fun _ => ?_
  refine Ends.bind _ (delete_ends.mono (fun _ _ ran => ran) ?_) ?_
  · rintro _ _ ⟨rfl, -⟩
    exact ⟨tracked.server, tracked.exports, tracked.clients, tracked.jobs, tracked.closed, tracked.exportIds,
      tracked.clientNodes, tracked.jobIds⟩
  · rintro _ _ ⟨rfl, -, -⟩
    exact Ends.update ⟨rfl, List.nil_prefix, tracked.clients, tracked.jobs, fun _ => rfl, tracked.exportIds,
      tracked.clientNodes, tracked.jobIds⟩

/-- No call of `cleanup` loses sight of a resource. -/
theorem cleanup_tracked (closes : Bool) (c : CleanupCalls) (bestEffort : Bool) :
    Keeps Tracked (cleanup closes c bestEffort) := by
  refine Keeps.bind ?_ fun _ => (removeClients_tracked c).bind fun _ => (removeExports_tracked c).bind fun _ =>
    (stopServer_tracked closes c).bind fun _ => Keeps.refuse _ _
  intro s tracked
  exact stage_ends (fun _ => tracked) fun _ => finish_tracked c.jobs s tracked

/-! ## The order of the deletions -/

/-- The deletions since `old` are in order and go up to the given rank. -/
def Ordered (old : List Deletion) (rank : Nat) (s : State) : Prop :=
  ∃ added, s.log = old ++ added ∧ (added.map Deletion.rank).Pairwise (· ≤ ·) ∧ ∀ d ∈ added, d.rank ≤ rank

section Order

variable {old : List Deletion} {rank : Nat}

theorem Ordered.mono (ordered : Ordered old rank s) {higher : Nat} (le : rank ≤ higher) :
    Ordered old higher s := by
  obtain ⟨added, log, sorted, bound⟩ := ordered
  exact ⟨added, log, sorted, fun d mem => Nat.le_trans (bound d mem) le⟩

theorem Ordered.congr (ordered : Ordered old rank s) (same : s'.log = s.log) :
    Ordered old rank s' := by
  rw [Ordered, same]
  exact ordered

theorem Ordered.delete (ordered : Ordered old rank s) {what : Deletion} (here : what.rank = rank)
    (log : s'.log = s.log ++ [what]) : Ordered old rank s' := by
  obtain ⟨added, before, sorted, bound⟩ := ordered
  refine ⟨added ++ [what], by rw [log, before, List.append_assoc], ?_, fun d mem => ?_⟩
  · rw [List.map_append, List.pairwise_append]
    refine ⟨sorted, List.pairwise_singleton _ _, fun a mem b mem' => ?_⟩
    obtain ⟨d, earlier, rfl⟩ := List.mem_map.mp mem
    obtain rfl := List.mem_singleton.mp mem'
    exact here ▸ bound d earlier
  · rcases List.mem_append.mp mem with mem | mem
    · exact bound d mem
    · exact List.mem_singleton.mp mem ▸ Nat.le_of_eq here

theorem command_ordered (fails : Bool) (refused : Qemus → Bool) (effect : Qemus → Qemus) :
    Keeps (Ordered old rank) (command fails refused effect) := by
  intro s ordered
  refine command_ends.mono ?_ ?_
  · rintro _ _ ⟨rfl, -⟩
    exact ordered.congr rfl
  · rintro _ _ ⟨rfl, -⟩
    exact ordered

theorem delete_ordered {what : Deletion} (here : what.rank = rank) (fails : Bool) (refused : Qemus → Bool)
    (effect : Qemus → Qemus) : Keeps (Ordered old rank) (delete what fails refused effect) := by
  intro s ordered
  refine delete_ends.mono ?_ ?_
  · rintro _ _ ⟨rfl, -⟩
    exact ordered.delete here rfl
  · rintro _ _ ⟨rfl, -⟩
    exact ordered.delete here rfl

theorem jobDismiss_ordered (fails : Bool) (id : String) : Keeps (Ordered old 0) (jobDismiss fails id) :=
  @delete_ordered old 0 (.job id) rfl _ _ _

theorem blockdevDel_ordered (fails : Bool) (r : MirrorResource) : Keeps (Ordered old 1) (blockdevDel fails r) :=
  @delete_ordered old 1 (.client r.clientNode) rfl _ _ _

theorem blockExportDel_ordered (fails : Bool) (r : MirrorResource) :
    Keeps (Ordered old 2) (blockExportDel fails r) := @delete_ordered old 2 (.export_ r.exportId) rfl _ _ _

theorem nbdServerStop_ordered (closes fails : Bool) : Keeps (Ordered old 3) (nbdServerStop closes fails) :=
  @delete_ordered old 3 .server rfl _ _ _

theorem note_ordered (f : BlockMirrorSession → BlockMirrorSession) : Keeps (Ordered old rank) (note f) :=
  Keeps.update fun _ ordered => ordered.congr rfl

theorem stage_ordered {todo : BlockMirrorSession → Bool} {x : BlockMirrorSession → Call Unit}
    (keeps : ∀ session, Keeps (Ordered old rank) (x session)) : Keeps (Ordered old rank) (stage todo x) :=
  Keeps.read.bind fun _ => Keeps.ite (keeps _).attempt (Keeps.pure _)

theorem queryJobs_ordered (fails : Bool) (settles : String → Bool) :
    Keeps (Ordered old rank) (queryJobs fails settles) :=
  (Keeps.refuse _ _).bind fun _ => (Keeps.update fun _ ordered => ordered.congr rfl).bind fun _ =>
    Keeps.read.bind fun _ => Keeps.pure _

theorem waitJobsConcluded_ordered (polls : List JobPoll) :
    ∀ pending errors, Keeps (Ordered old 0) (waitJobsConcluded polls pending errors) := by
  induction polls with
  | nil =>
    intro pending errors
    cases pending with
    | nil => exact (note_ordered _).bind fun _ => Keeps.refuse _ _
    | cons id ids => exact Keeps.fail _
  | cons poll rest ih =>
    intro pending errors
    cases pending with
    | nil => exact (note_ordered _).bind fun _ => Keeps.refuse _ _
    | cons id ids =>
      rw [waitJobsConcluded]
      exact (queryJobs_ordered _ _).bind fun _ =>
        (Keeps.each _ fun _ _ => Keeps.given (jobDismiss_ordered _ _)).bind fun _ => ih _ _

theorem finish_ordered (c : FinishCalls) : Keeps (Ordered old 0) (finish c) :=
  Keeps.read.bind fun _ => (queryJobs_ordered _ _).bind fun _ =>
    (Keeps.each _ fun _ _ => Keeps.given (command_ordered _ _ _)).bind fun _ => waitJobsConcluded_ordered _ _ _

theorem waitExportsRemoved_ordered (polls : List ExportPoll) :
    Keeps (Ordered old rank) (waitExportsRemoved polls) := by
  intro s ordered
  refine (waitExportsRemoved_same polls s).mono ?_ ?_
  · rintro _ _ rfl
    exact ordered
  · rintro _ _ rfl
    exact ordered

theorem cleanup_ordered (closes : Bool) (c : CleanupCalls) (bestEffort : Bool) (s : State) :
    Ordered s.log 3 (cleanup closes c bestEffort s).2 := by
  have fresh : Ordered s.log 0 s := ⟨[], (List.append_nil _).symm, .nil, nofun⟩
  have jobs : Keeps (Ordered s.log 0) (removeJobs c) := stage_ordered fun _ => finish_ordered _
  have clients : Keeps (Ordered s.log 1) (removeClients c) := stage_ordered fun _ =>
    (Keeps.each _ fun _ _ => blockdevDel_ordered _ _).bind fun _ => note_ordered _
  have exports : Keeps (Ordered s.log 2) (removeExports c) := stage_ordered fun _ =>
    (Keeps.each _ fun _ _ => blockExportDel_ordered _ _).bind fun _ =>
      (waitExportsRemoved_ordered _).bind fun _ => note_ordered _
  have server : Keeps (Ordered s.log 3) (stopServer closes c) := stage_ordered fun _ =>
    (nbdServerStop_ordered _ _).bind fun _ => note_ordered _
  refine (Ends.bind (fun _ => Ordered s.log 0) ((jobs s fresh).mono (fun _ _ => id) fun _ _ low =>
    low.mono (by decide)) fun _ s₁ done => ?_).state
  refine Ends.bind (fun _ => Ordered s.log 1) ((clients s₁ (done.mono (by decide))).mono (fun _ _ => id)
    fun _ _ low => low.mono (by decide)) fun _ s₂ done => ?_
  refine Ends.bind (fun _ => Ordered s.log 2) ((exports s₂ (done.mono (by decide))).mono (fun _ _ => id)
    fun _ _ low => low.mono (by decide)) fun _ s₃ done => ?_
  exact (server.bind fun _ => Keeps.refuse _ _) s₃ (done.mono (by decide))

end Order

/-! ## A clean-up without failures -/

/-- Nothing fails, and every job concludes in time. -/
structure FinishCalls.Clean (c : FinishCalls) (jobs : List MirrorResource) : Prop where
  query : c.query = false
  cancel : ∀ r, c.cancel r = false
  polls : ∀ poll ∈ c.polls, poll.query = false ∧ ∀ id, poll.dismiss id = false
  conclude : ∀ r ∈ jobs, ∃ poll ∈ c.polls, poll.settles r.jobId = true

/-- No command fails but for what QEMU refuses, and what was asked to stop stops in time. -/
structure CleanupCalls.Clean (c : CleanupCalls) (jobs : List MirrorResource) : Prop where
  jobs : c.jobs.Clean jobs
  clientDel : ∀ r, c.clientDel r = false
  exportDel : ∀ r, c.exportDel r = false
  exportPolls : ∀ poll ∈ c.exportPolls, poll.query = false
  removed : ∃ poll ∈ c.exportPolls, poll.lingers = false
  serverStop : c.serverStop = false

theorem dismissAll_ok (seen : Qemus) {fails : String → Bool} (calm : ∀ id, fails id = false) (ids : List String) :
    ∀ s : State, ids.Nodup → (∀ id ∈ ids, seen.status id = some true → s.qemus.status id = some true) →
      (Op.each ids (fun id => Op.given (seen.status id = some true) (jobDismiss (fails id) id)) s).1 = .ok () := by
  induction ids with
  | nil => exact fun _ _ _ => rfl
  | cons id ids ih =>
    intro s nodup there
    obtain ⟨new, nodup'⟩ := List.nodup_cons.mp nodup
    rw [Op.each]
    by_cases now : seen.status id = some true
    · have ran := @delete_accepted (.job id) (fails id) (fun q => q.status id != some true)
        (fun q => { q with jobs := q.jobs.filter fun job => job.jobId != id }) s (calm id)
        (by simp [there id List.mem_cons_self now])
      rw [Op.given, if_pos now, jobDismiss, Op.bind_ok ran]
      refine ih _ nodup' fun id' mem seen' => ?_
      obtain ⟨⟨j, old, same⟩, concluded⟩ := status_eq_some.mp (there id' (List.mem_cons_of_mem id mem) seen')
      refine status_eq_some.mpr ⟨⟨j, List.mem_filter.mpr ⟨old, ?_⟩, same⟩, concluded⟩
      rw [bne_iff_ne, same]
      exact fun equal => new (equal ▸ mem)
    · rw [Op.given, if_neg now, Op.bind_ok (show (pure () : Call Unit) s = (.ok (), s) from rfl)]
      exact ih s nodup' fun id' mem => there id' (List.mem_cons_of_mem id mem)

theorem waitJobsConcluded_clean (polls : List JobPoll) : ∀ (pending : List String) (errors : Bool) (s : State),
    Shrunk s₀ s → (∀ j ∈ s.qemus.jobs, j.jobId ∈ pending) → pending.Nodup →
      (∀ poll ∈ polls, poll.query = false ∧ ∀ id, poll.dismiss id = false) →
        (∀ id ∈ pending, ∃ poll ∈ polls, poll.settles id = true) →
          Dismissed s₀ (waitJobsConcluded polls pending errors s).2 := by
  induction polls with
  | nil =>
    intro pending errors s shrunk cover _ _ conclude
    cases pending with
    | nil => exact (waitJobsConcluded_nil _ _ shrunk cover).state
    | cons id ids =>
      obtain ⟨poll, mem, -⟩ := conclude id List.mem_cons_self
      exact absurd mem List.not_mem_nil
  | cons poll rest ih =>
    intro pending errors s shrunk cover nodup calm conclude
    cases pending with
    | nil => exact (waitJobsConcluded_nil _ _ shrunk cover).state
    | cons id ids =>
      obtain ⟨quiet, dismiss⟩ := calm poll List.mem_cons_self
      rw [waitJobsConcluded]
      refine (Ends.bind _ ((queryJobs_ends shrunk).mono (fun _ _ ran => ran) ?_) ?_ :
        Ends (fun _ s' => Dismissed s₀ s') (fun _ s' => Dismissed s₀ s') _).state
      · rintro _ _ ⟨-, failed⟩
        exact absurd (quiet.symm.trans failed) (by simp)
      rintro _ s' ⟨rfl, shrunk', jobs, -, settled⟩
      have ok := dismissAll_ok s'.qemus dismiss (id :: ids) s' nodup fun _ _ seen => seen
      refine Ends.bind _ ((dismissAll_ends _ _ _ s' shrunk').of_ok ok) ?_
      rintro _ s'' ⟨shrunk'', left⟩
      refine Ends.of_state (ih _ _ s'' shrunk'' (fun j mem => ?_) (nodup.filter _)
        (fun poll mem => calm poll (List.mem_cons_of_mem _ mem)) fun id' mem => ?_)
      · obtain ⟨old, active⟩ := left j mem
        exact pending_of_left old (cover j (jobs ▸ old)) active
      · obtain ⟨listed, active⟩ := List.mem_filter.mp mem
        obtain ⟨poll', mem', settles⟩ := conclude id' listed
        rcases List.mem_cons.mp mem' with rfl | later
        · have done := (status_eq_some.mp (decide_eq_true_iff.mp active)).2
          rw [settled id' settles] at done
          cases done
        · exact ⟨poll', later, settles⟩

/-- `finish` dismisses all jobs when nothing fails. -/
theorem finish_clean {c : FinishCalls} (tracked : Tracked s) (clean : c.Clean s.session.jobs) :
    Dismissed s (finish c s).2 := by
  suffices ends : Ends (fun _ s' => Dismissed s s') (fun _ s' => Dismissed s s') (finish c s) from ends.state
  refine Ends.read_bind ?_
  refine Ends.bind _ ((queryJobs_ends (Shrunk.refl s)).mono (fun _ _ ran => ran) ?_) ?_
  · rintro _ _ ⟨-, failed⟩
    exact absurd (clean.query.symm.trans failed) (by simp)
  rintro _ s' ⟨rfl, shrunk, jobs, -, -⟩
  have cancelled : Op.each s.session.jobs (fun r =>
      Op.given (s'.qemus.status r.jobId = some false) (blockJobCancel (c.cancel r) r)) s' = (.ok (), s') := by
    refine Op.each_same fun r _ => ?_
    rw [Op.given]
    split
    · rename_i active
      rw [blockJobCancel, command, Op.bind_ok (show Op.read s' = (.ok s', s') from rfl), clean.cancel, active]
      rfl
    · rfl
  rw [Op.bind_ok cancelled]
  refine Ends.of_state (waitJobsConcluded_clean _ _ _ s' shrunk (fun j mem => ?_) tracked.jobIds clean.polls
    fun id mem => ?_)
  · exact List.mem_map_of_mem (tracked.jobs j (jobs ▸ mem))
  · obtain ⟨r, listed, rfl⟩ := List.mem_map.mp mem
    exact clean.conclude r listed

/-- All of the list is there, or nothing. -/
def Even (held listed : List MirrorResource) : Prop := held = listed ∨ held = []

theorem even_of_nil {held : List MirrorResource} (start_ : held <+: []) : Even held [] :=
  .inr (List.prefix_nil.mp start_)

theorem removeJobs_clean (tracked : Tracked s) (clean : c.Clean s.session.jobs) :
    Ends (fun _ s' => Dismissed s s') (fun _ _ => False) (removeJobs c s) := by
  refine stage_ends (fun empty => ?_) fun _ => Ends.of_state (finish_clean tracked clean.jobs)
  have none_ : s.session.jobs = [] := by simpa using empty
  refine ⟨by rw [← none_], rfl, rfl, rfl, List.eq_nil_iff_forall_not_mem.mpr fun j mem => ?_⟩
  exact absurd (tracked.jobs j mem) (none_ ▸ List.not_mem_nil)

theorem removeClients_clean (tracked : Tracked s) (calm : ∀ r, c.clientDel r = false)
    (jobs : s.qemus.jobs = []) :
    Ends (fun _ s' => s'.session.exports = s.session.exports ∧ s'.qemus.exports = s.qemus.exports ∧
        s'.qemus.jobs = [] ∧ (s'.qemus.clients = [] ↔ Even s.qemus.clients s.session.clients))
      (fun _ _ => False) (removeClients c s) := by
  refine stage_ends (fun empty => ?_) fun _ => ?_
  · have none_ : s.session.clients = [] := by simpa using empty
    have start_ := tracked.clients
    rw [none_] at start_ ⊢
    exact ⟨rfl, rfl, jobs, fun _ => even_of_nil start_, fun _ => List.prefix_nil.mp start_⟩
  have here : OnlyClients s s := ⟨rfl, rfl, rfl, rfl⟩
  have ends := drain_ends (blockdevDel_deletes s c.clientDel) _ s here tracked.clientNodes tracked.clients
  have gone := drain_clean (blockdevDel_deletes s c.clientDel) (fun r s' only there => by
    rw [blockdevDel, delete_accepted (calm r) (by rw [there, only.jobs, jobs]; rfl)]) _ s here tracked.clientNodes
    tracked.clients
  have result : Ends (fun _ s' => s'.qemus.clients = [] ↔ Even s.qemus.clients s.session.clients)
      (fun _ s' => s'.qemus.clients = [] ↔ Even s.qemus.clients s.session.clients)
      (Op.each s.session.clients.reverse (fun r => blockdevDel (c.clientDel r) r) s) := Ends.of_state gone
  refine Ends.bind _ ((ends.and result).mono (fun _ _ ran => ran) ?_) ?_
  · rintro _ s' ⟨⟨only, -⟩, even⟩
    exact ⟨by rw [only.session], only.exports, by rw [only.jobs, jobs], even⟩
  · rintro _ s' ⟨⟨only, -⟩, even⟩
    exact Ends.update ⟨by rw [only.session], only.exports, only.jobs.trans jobs, even⟩

theorem removeExports_clean (tracked : Tracked s) (calm : ∀ r, c.exportDel r = false)
    (jobs : s.qemus.jobs = []) :
    Ends (fun _ s' => s'.qemus.clients = s.qemus.clients ∧ s'.qemus.jobs = [] ∧
        (s.qemus.clients = [] → (s'.qemus.exports = [] ↔ Even s.qemus.exports s.session.exports)))
      (fun _ _ => False) (removeExports c s) := by
  refine stage_ends (fun empty => ?_) fun _ => ?_
  · have none_ : s.session.exports = [] := by simpa using empty
    have start_ := tracked.exports
    rw [none_] at start_ ⊢
    exact ⟨rfl, jobs, fun _ => ⟨fun _ => even_of_nil start_, fun _ => List.prefix_nil.mp start_⟩⟩
  have here : OnlyExports s s := ⟨rfl, rfl, rfl, rfl⟩
  have ends := drain_ends (blockExportDel_deletes s c.exportDel) _ s here tracked.exportIds tracked.exports
  have gone (free : s.qemus.clients = []) := drain_clean (blockExportDel_deletes s c.exportDel)
    (fun r s' only there => by
      rw [blockExportDel, delete_accepted (calm r) (by rw [there, only.clients, free]; rfl)]) _ s here
    tracked.exportIds tracked.exports
  have result : Ends
      (fun _ s' => s.qemus.clients = [] → (s'.qemus.exports = [] ↔ Even s.qemus.exports s.session.exports))
      (fun _ s' => s.qemus.clients = [] → (s'.qemus.exports = [] ↔ Even s.qemus.exports s.session.exports))
      (Op.each s.session.exports.reverse (fun r => blockExportDel (c.exportDel r) r) s) := Ends.of_state gone
  refine Ends.bind _ ((ends.and result).mono (fun _ _ ran => ran) ?_) ?_
  · rintro _ s' ⟨⟨only, -⟩, even⟩
    exact ⟨only.clients, only.jobs.trans jobs, even⟩
  · rintro _ s' ⟨⟨only, -⟩, even⟩
    refine Ends.bind (fun _ s'' => s' = s'') ((waitExportsRemoved_same _ s').mono (fun _ _ same => same) ?_) ?_
    · rintro _ _ rfl
      exact ⟨only.clients, only.jobs.trans jobs, even⟩
    · rintro _ _ rfl
      exact Ends.update ⟨only.clients, only.jobs.trans jobs, even⟩

theorem stopServer_clean (tracked : Tracked s) (calm : c.serverStop = false) :
    Ends (fun _ s' => s'.qemus.clients = s.qemus.clients ∧ s'.qemus.jobs = s.qemus.jobs ∧
        (s'.qemus.server = false ∧ s'.qemus.exports = [] ↔ closes = true ∨ s.qemus.exports = []))
      (fun _ _ => False) (stopServer closes c s) := by
  refine stage_ends (fun off => ?_) fun on => ?_
  · have off : s.qemus.server = false := tracked.server.trans off
    exact ⟨rfl, rfl, fun gone => .inr gone.2, fun _ => ⟨off, tracked.closed off⟩⟩
  have on : s.qemus.server = true := tracked.server.trans on
  refine Ends.bind _ (delete_ends.mono (fun _ _ ran => ran) ?_) ?_
  · rintro _ _ ⟨rfl, fault | refused⟩
    · exact absurd (calm.symm.trans fault) (by simp)
    · refine ⟨rfl, rfl, fun gone => absurd (on.symm.trans gone.1) (by simp), fun free => ?_⟩
      rcases free with closes | empty
      · simp [on, closes] at refused
      · simp [on, empty] at refused
  · rintro _ _ ⟨rfl, -, accepted⟩
    refine Ends.update ⟨rfl, rfl, fun _ => ?_, fun _ => ⟨rfl, rfl⟩⟩
    simpa [on, or_iff_not_imp_left] using accepted

/-- No mirror job, client node, export or server is left. -/
def Nothing (q : Qemus) : Prop := q.jobs = [] ∧ q.clients = [] ∧ q.exports = [] ∧ q.server = false

/-- A clean-up without failures leaves nothing if all or none of the listed clients are there, and the
same for the exports, which the end of the server may close. -/
theorem cleanup_nothing_iff {bestEffort : Bool} (tracked : Tracked s)
    (clean : c.Clean s.session.jobs) : Nothing (cleanup closes c bestEffort s).2.qemus ↔
      Even s.qemus.clients s.session.clients ∧ (closes = true ∨ Even s.qemus.exports s.session.exports) := by
  suffices ends : Ends
      (fun _ s' => Nothing s'.qemus ↔
        Even s.qemus.clients s.session.clients ∧ (closes = true ∨ Even s.qemus.exports s.session.exports))
      (fun _ s' => Nothing s'.qemus ↔
        Even s.qemus.clients s.session.clients ∧ (closes = true ∨ Even s.qemus.exports s.session.exports))
      (cleanup closes c bestEffort s) from ends.state
  refine Ends.bind _ ((removeJobs_clean tracked clean).mono (fun _ _ ran => ran) fun _ _ => False.elim) ?_
  intro _ s₁ dismissed
  have tracked₁ := tracked.dismissed dismissed
  refine Ends.bind _ (((removeClients_tracked c s₁ tracked₁).and (removeClients_clean tracked₁ clean.clientDel
    dismissed.jobs)).mono (fun _ _ ran => ran) fun _ _ never => never.2.elim) ?_
  rintro _ s₂ ⟨tracked₂, listed₂, exports₂, jobs₂, clients₂⟩
  refine Ends.bind _ (((removeExports_tracked c s₂ tracked₂).and (removeExports_clean tracked₂ clean.exportDel
    jobs₂)).mono (fun _ _ ran => ran) fun _ _ never => never.2.elim) ?_
  rintro _ s₃ ⟨tracked₃, clients₃, jobs₃, exports₃⟩
  refine Ends.bind _ ((stopServer_clean tracked₃ clean.serverStop).mono (fun _ _ ran => ran)
    fun _ _ => False.elim) ?_
  rintro _ s₄ ⟨clients₄, jobs₄, server₄⟩
  rw [dismissed.clients, dismissed.session] at clients₂
  rw [exports₂, dismissed.exports, listed₂, dismissed.session] at exports₃
  have result : Nothing s₄.qemus ↔
      Even s.qemus.clients s.session.clients ∧ (closes = true ∨ Even s.qemus.exports s.session.exports) := by
    rw [Nothing, jobs₄, jobs₃, clients₄, clients₃, clients₂, and_comm (a := s₄.qemus.exports = []), server₄]
    constructor
    · rintro ⟨-, even, free⟩
      exact ⟨even, free.imp id (exports₃ (clients₂.mpr even)).mp⟩
    · rintro ⟨even, free⟩
      exact ⟨rfl, even, free.imp id (exports₃ (clients₂.mpr even)).mpr⟩
  exact Ends.refuse (fun _ => result) fun _ => result

/-! ## Whole runs -/

/-- What is done with a session after `start`. -/
inductive Action where
  | finish (c : FinishCalls)
  | cleanup (c : CleanupCalls) (bestEffort : Bool)

def Action.exec (closes : Bool) : Action → Call Unit
  | .finish c => Mirror.finish c
  | .cleanup c bestEffort => Mirror.cleanup closes c bestEffort

def Action.step (closes : Bool) (s : State) (action : Action) : State := (action.exec closes s).2

theorem Tracked.run (tracked : Tracked s) (actions : List Action) :
    Tracked (Runs.run (Action.step closes) s actions) := by
  refine Runs.invariant_run (fun s action before _ => ?_) tracked (Runs.along_true _ _)
  cases action with
  | finish c => exact (finish_tracked c).state before
  | cleanup c bestEffort => exact (cleanup_tracked closes c bestEffort).state before

/-- A new session: nothing is made yet. -/
def session (resources : List MirrorResource) : State := { session := { resources } }

theorem session_booked (resources : List MirrorResource) : Booked (session resources) :=
  ⟨rfl, rfl, rfl, rfl, fun _ => rfl, List.nodup_nil, List.nodup_nil, List.nodup_nil⟩

/-- Wherever `start` ends, the fields say what there is. Every clean-up deletes jobs, clients, exports
and the server in this order. After any calls, with any failures, a clean-up without failures leaves
nothing behind if and only if the calls before it deleted all or none of the listed clients, and all or
none of the listed exports unless the end of the server closes them. -/
theorem cleanup_resumes_iff (resources : List MirrorResource) (closes : Bool) (f : StartFaults) :
    Booked (start f (session resources)).2 ∧
      (∀ s c bestEffort, Ordered s.log 3 (cleanup closes c bestEffort s).2) ∧
      ∀ (actions : List Action) (s : State), Runs.run (Action.step closes) (start f (session resources)).2 actions = s →
        ∀ (c : CleanupCalls) (bestEffort : Bool), c.Clean s.session.jobs →
          (Nothing (cleanup closes c bestEffort s).2.qemus ↔
            Even s.qemus.clients s.session.clients ∧
              (closes = true ∨ Even s.qemus.exports s.session.exports)) := by
  have booked := (start_booked f).state (session_booked resources)
  refine ⟨booked, fun s c bestEffort => cleanup_ordered closes c bestEffort s, ?_⟩
  rintro actions s rfl c bestEffort clean
  exact cleanup_nothing_iff (booked.tracked.run actions) clean

/-- A session with two disks, started, then cleaned up with a failure at the client node of the first disk. -/
def cutShort : State :=
  let started := (start {} (session [⟨"drive0", "exp-drive0", "mig-drive0", "mirror-drive0"⟩,
    ⟨"drive1", "exp-drive1", "mig-drive1", "mirror-drive1"⟩])).2
  (cleanup true { clientDel := fun r => r.nodeName == "drive0" } true started).2

/-- The next clean-up stops at the client node that is gone, and the other one stays. -/
theorem cleanup_stuck : ({} : CleanupCalls).Clean cutShort.session.jobs ∧
    (cleanup true {} true cutShort).2.qemus.clients =
      [⟨"drive0", "exp-drive0", "mig-drive0", "mirror-drive0"⟩] := by
  constructor
  · refine ⟨⟨rfl, fun _ => rfl, fun poll mem => ?_, fun r _ => ⟨{}, List.mem_singleton.mpr rfl, rfl⟩⟩, fun _ => rfl,
      fun _ => rfl, fun poll mem => ?_, ⟨{}, List.mem_singleton.mpr rfl, rfl⟩, rfl⟩
    · obtain rfl := List.mem_singleton.mp mem
      exact ⟨rfl, fun _ => rfl⟩
    · obtain rfl := List.mem_singleton.mp mem
      rfl
  · decide +kernel

end Collei.Mirror

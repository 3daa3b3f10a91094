import KernelNotes.Collei.BalloonPolicy

/-!
# The reconciliation of the balloon daemon

`controller.rs`: one tick of the daemon for one VM. The daemon attaches to a QEMU it has found,
reads its memory sizes and the statistics of its guest over QMP, and lets the policy decide; while
the statistics are stale or missing it gives the whole memory back. Everything a tick meets is in
a `Scan`: what the discovery found, the answers of QMP, the clock of the host, and the values of
`Instant::now()`.
-/

namespace Collei.Balloon

/-! ## QMP -/

/-- A JSON value. -/
inductive Value where
  | number (n : Int)
  | string (s : String)
  | object (fields : List (String × Value))
  | other

def Value.get : Value → String → Option Value
  | .object fields, name => fields.lookup name
  | _, _ => none

def Value.asStr : Value → Option String
  | .string s => some s
  | _ => none

def Value.asU64 : Value → Option Nat
  | .number n => if 0 ≤ n ∧ n ≤ u64Max then some n.toNat else none
  | _ => none

def Value.asI64 : Value → Option Int
  | .number n => if -2 ^ 63 ≤ n ∧ n < 2 ^ 63 then some n else none
  | _ => none

/-- The answers of QMP in one tick; `none` is an error or a timeout. -/
structure Qmp where
  connected : Bool := true
  queryStatus : Option Value
  queryMigrate : Option Value
  queryMemorySizeSummary : Option Value
  queryBalloon : Option Value
  guestStats : Option Value
  setPolling : Bool := true
  balloon : Bool := true

inductive Error where
  | connect
  | command
  | omitted (field : String)
  | notUnsigned (field : String)
  | runState (status : String)
  | migrationState (status : String)
  | capacityOverflow
  | clock
  deriving DecidableEq, Repr

def execute (reply : Option Value) : Except Error Value :=
  match reply with
  | some value => .ok value
  | none => .error .command

/-- `preflight`. -/
def preflight (qmp : Qmp) : Except Error Unit := do
  let status ← execute qmp.queryStatus
  match (status.get "status").bind Value.asStr with
  | none => .error (.omitted "status")
  | some runState =>
    if runState ≠ "running" then .error (.runState runState)
    else
      let migration ← execute qmp.queryMigrate
      match (migration.get "status").bind Value.asStr with
      | none => .ok ()
      | some state =>
        if state ∈ ["none", "completed", "failed", "cancelled"] then .ok ()
        else .error (.migrationState state)

/-- `optional_u64`. -/
def optionalU64 (value : Value) (field : String) : Except Error (Option Nat) :=
  match value.get field with
  | none => .ok none
  | some v =>
    match v.asU64 with
    | some n => .ok (some n)
    | none => .error (.notUnsigned field)

/-- `required_u64`. -/
def requiredU64 (value : Value) (field : String) : Except Error Nat := do
  match ← optionalU64 value field with
  | some n => .ok n
  | none => .error (.omitted field)

/-- `query_capacity`. -/
def queryCapacity (qmp : Qmp) : Except Error Nat := do
  let memory ← execute qmp.queryMemorySizeSummary
  let base ← requiredU64 memory "base-memory"
  let plugged := (← optionalU64 memory "plugged-memory").getD 0
  if base + plugged ≤ u64Max then .ok (base + plugged) else .error .capacityOverflow

/-- `query_actual`. -/
def queryActual (qmp : Qmp) : Except Error Nat := do
  requiredU64 (← execute qmp.queryBalloon) "actual"

/-- `stat_value`. -/
def statValue (value : Value) : Option Nat :=
  if value.asI64 = some (-1) ∨ value.asU64 = some u64Max then none else value.asU64

/-- `query_guest_stats`. -/
def queryGuestStats (qmp : Qmp) : Except Error (Option Nat × Nat) := do
  let response ← execute qmp.guestStats
  let lastUpdate ← requiredU64 response "last-update"
  let available :=
    ((response.get "stats").bind fun stats => stats.get "stat-available-memory").bind statValue
  return (available, lastUpdate)

structure Snapshot where
  capacity : Nat
  actual : Nat
  available : Option Nat
  lastUpdate : Nat
  deriving DecidableEq, Repr

/-- `query_snapshot`. -/
def querySnapshot (qmp : Qmp) : Except Error Snapshot := do
  let capacity ← queryCapacity qmp
  let actual ← queryActual qmp
  let (available, lastUpdate) ← queryGuestStats qmp
  return ⟨capacity, actual, available, lastUpdate⟩

def connect (qmp : Qmp) : Except Error Unit := if qmp.connected then .ok () else .error .connect

/-- The first three steps of `reconcile_vm`. -/
def observe (qmp : Qmp) : Except Error Snapshot := do
  connect qmp
  preflight qmp
  querySnapshot qmp

/-! ## One tick -/

structure DaemonConfig where
  statsStaleAfterSeconds : Nat := 20
  invalidSamplesBeforeRestore : Nat := 3
  commandTimeoutSeconds : Nat := 60
  deriving DecidableEq, Repr

/-- Everything a tick meets. `runtime` is the pid of the QEMU, if `discover_vms` found exactly one.
Instants are in nanoseconds: `checked` is the one `elapsed` is taken at, `timedOut` the one a
backoff starts at, `decided` the one it is compared with, and `sent` the one a command starts at.
`clock` is the wall clock in seconds, if it is past the epoch. -/
structure Scan where
  runtime : Option Nat
  qmp : Qmp
  clock : Option Nat
  checked : Nat
  timedOut : Nat
  decided : Nat
  sent : Nat

structure PendingCommand where
  target : Nat
  action : ActionKind
  started : Nat
  deriving DecidableEq, Repr

structure VmState where
  pid : Nat
  lastUpdate : Nat
  highSamples : Nat := 0
  invalidSamples : Nat := 0
  pending : Option PendingCommand := none
  reclaimBackoffUntil : Option Nat := none
  deriving DecidableEq, Repr

/-- A `balloon` command that was sent, and whether QMP has acknowledged it. -/
structure Command where
  target : Nat
  action : ActionKind
  acknowledged : Bool
  deriving DecidableEq, Repr

structure Outcome where
  state : VmState
  sent : Option Command
  deriving DecidableEq, Repr

def actualTolerance : Nat := 4 * mib

/-- `saturating_add(1)` of `u32`. -/
def satSucc (n : Nat) : Nat := min (n + 1) (2 ^ 32 - 1)

/-- `Duration::from_secs`. -/
def fromSecs (seconds : Nat) : Nat := 1000000000 * seconds

/-- `complete` of `update_pending`. -/
def PendingCommand.complete (pending : PendingCommand) (actual : Nat) : Bool :=
  match pending.action with
  | .reclaim => actual ≤ satAdd pending.target actualTolerance
  | .return => satAdd actual actualTolerance ≥ pending.target

/-- `update_pending`. -/
def updatePending (config : DaemonConfig) (scan : Scan) (actual : Nat) (state : VmState) : VmState :=
  match state.pending with
  | none => state
  | some pending =>
    if pending.complete actual then { state with pending := none }
    else if scan.checked - pending.started > fromSecs config.commandTimeoutSeconds then
      match pending.action with
      | .reclaim =>
        { state with
          pending := none
          reclaimBackoffUntil := some (scan.timedOut + fromSecs config.commandTimeoutSeconds) }
      | .return => { state with pending := none }
    else state

/-- `command_balloon`; the flag tells whether it returned without an error. -/
def commandBalloon (dryRun : Bool) (scan : Scan) (target : Nat) (action : ActionKind)
    (state : VmState) : Outcome × Bool :=
  if dryRun then (⟨state, none⟩, true)
  else if scan.qmp.balloon then
    (⟨{ state with pending := some ⟨target, action, scan.sent⟩ }, some ⟨target, action, true⟩⟩, true)
  else (⟨state, some ⟨target, action, false⟩⟩, false)

/-- `fresh` of `reconcile_vm`. -/
def fresh (config : DaemonConfig) (now lastUpdate : Nat) : Bool :=
  lastUpdate ≠ 0 ∧ lastUpdate ≤ satAdd now 5 ∧ now - lastUpdate ≤ config.statsStaleAfterSeconds

/-- `handle_invalid_stats`. -/
def handleInvalidStats (config : DaemonConfig) (dryRun : Bool) (scan : Scan) (snapshot : Snapshot)
    (state : VmState) : Outcome :=
  let state := { state with invalidSamples := satSucc state.invalidSamples, highSamples := 0 }
  if state.invalidSamples ≥ config.invalidSamplesBeforeRestore ∧
      snapshot.actual < snapshot.capacity ∧
      state.pending.all (fun pending => pending.action = .reclaim) then
    (commandBalloon dryRun scan snapshot.capacity .return state).1
  else ⟨state, none⟩

/-- `available > reserve.saturating_add(hysteresis)`. -/
def aboveMark (policy : PolicyConfig) (capacity available : Nat) : Bool :=
  (thresholds policy capacity).any fun t => available > satAdd t.reserve t.hysteresis

/-- The counters after a new sample. -/
def countSample (lastUpdate : Nat) (above : Bool) (state : VmState) : VmState :=
  { state with
    lastUpdate := lastUpdate
    invalidSamples := 0
    highSamples := if above then satSucc state.highSamples else 0 }

/-- Whether a decision is not carried out because of an earlier command. -/
def blocked (scan : Scan) (state : VmState) (decision : Decision) : Bool :=
  match decision.action with
  | .reclaim =>
    state.pending.isSome || state.reclaimBackoffUntil.any fun deadline => deadline > scan.decided
  | .return =>
    state.pending.any fun pending =>
      pending.action = .return ∧ pending.target ≥ decision.target

/-- The end of `reconcile_vm`, once the policy has decided. -/
def carryOut (dryRun : Bool) (scan : Scan) (decision : Decision) (state : VmState) : Outcome :=
  if blocked scan state decision then ⟨state, none⟩
  else
    let result := commandBalloon dryRun scan decision.target decision.action state
    if result.2 ∧ decision.action = .reclaim then
      { result.1 with state := { result.1.state with highSamples := 0 } }
    else result.1

/-- `reconcile_vm` on statistics that are there and fresh. -/
def handleSample (policy : PolicyConfig) (dryRun : Bool) (scan : Scan) (snapshot : Snapshot)
    (available : Nat) (state : VmState) : Outcome :=
  if snapshot.lastUpdate ≤ state.lastUpdate then ⟨state, none⟩
  else
    let state := countSample snapshot.lastUpdate
      (aboveMark policy snapshot.capacity available) state
    ((decide policy snapshot.capacity snapshot.actual available state.highSamples).getD none).elim
      ⟨state, none⟩ fun decision => carryOut dryRun scan decision state

/-- `reconcile_vm`. -/
def reconcileVm (config : DaemonConfig) (policy : PolicyConfig) (dryRun vfioPassthrough : Bool)
    (scan : Scan) (state : VmState) : Outcome :=
  match observe scan.qmp with
  | .error _ => ⟨state, none⟩
  | .ok snapshot =>
    if vfioPassthrough then
      ⟨{ state with lastUpdate := max state.lastUpdate snapshot.lastUpdate, pending := none }, none⟩
    else
      let state := updatePending config scan snapshot.actual state
      match scan.clock, snapshot.available with
      | none, _ => ⟨state, none⟩
      | some _, none => handleInvalidStats config dryRun scan snapshot state
      | some now, some available =>
        if fresh config now snapshot.lastUpdate then
          handleSample policy dryRun scan snapshot available state
        else handleInvalidStats config dryRun scan snapshot state

/-- `attach_vm`. -/
def attachVm (qmp : Qmp) (pid : Nat) : Except Error VmState := do
  connect qmp
  preflight qmp
  let (_, baseline) ← queryGuestStats qmp
  if qmp.setPolling then .ok { pid := pid, lastUpdate := baseline } else .error .command

/-- The daemon as it was started for a VM. `vfio` tells which QEMUs have a VFIO device; it is read
from the command line, which does not change while the process lives. -/
structure Daemon where
  config : DaemonConfig := {}
  policy : PolicyConfig := {}
  dryRun : Bool := false
  vfio : Nat → Bool := fun _ => false

/-- `reconcile_all` for one VM: a state of another process is dropped, a process without a state
is attached, and any other is reconciled. -/
def Daemon.reconcileAll (daemon : Daemon) (scan : Scan) (state : Option VmState) :
    Option VmState × Option Command :=
  match scan.runtime with
  | none => (none, none)
  | some pid =>
    match daemon.policy.enabled, state.filter fun s => s.pid = pid with
    | false, kept => (kept, none)
    | true, none => ((attachVm scan.qmp pid).toOption, none)
    | true, some s =>
      let outcome := reconcileVm daemon.config daemon.policy daemon.dryRun (daemon.vfio pid) scan s
      (some outcome.state, outcome.sent)

end Collei.Balloon

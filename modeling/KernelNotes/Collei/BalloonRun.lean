import KernelNotes.Collei.BalloonDaemon

/-!
# What the balloon daemon commands

Over every sequence of scans: a command is only sent to a VM that runs, is not migrating and has no
VFIO device; memory is only reclaimed after enough samples above the mark in a row; targets stay
between the least logical size and the capacity; and when the statistics stay away, the full
capacity is given back in the end.
-/

namespace Collei.Balloon

/-! ## The functions of one tick -/

section Tick

variable {config : DaemonConfig} {policy : PolicyConfig} {dryRun : Bool} {scan : Scan}
  {state : VmState} {snapshot : Snapshot}

/-- The fields that only samples change. -/
structure SameCounts (a b : VmState) : Prop where
  pid : a.pid = b.pid
  lastUpdate : a.lastUpdate = b.lastUpdate
  highSamples : a.highSamples = b.highSamples

theorem SameCounts.refl (a : VmState) : SameCounts a a := ⟨rfl, rfl, rfl⟩

theorem updatePending_same (actual : Nat) :
    SameCounts (updatePending config scan actual state) state := by
  rw [updatePending]
  split
  · exact .refl _
  split
  · exact ⟨rfl, rfl, rfl⟩
  split
  · split <;> exact ⟨rfl, rfl, rfl⟩
  · exact .refl _

theorem commandBalloon_same (target : Nat) (action : ActionKind) :
    SameCounts (commandBalloon dryRun scan target action state).1.state state := by
  rw [commandBalloon]
  split
  · exact .refl _
  split
  · exact ⟨rfl, rfl, rfl⟩
  · exact .refl _

variable {command : Command} {available : Nat} {qmp : Qmp} {seen : Seen}

theorem commandBalloon_sent {target : Nat} {action : ActionKind}
    (sent : (commandBalloon dryRun scan target action state).1.sent = some command) :
    dryRun = false ∧ command.target = target ∧ command.action = action ∧
      command.acknowledged = (commandBalloon dryRun scan target action state).2 := by
  rw [commandBalloon] at sent ⊢
  split at sent
  · cases sent
  rename_i live
  rw [if_neg live]
  split at sent
  · rename_i heard
    cases sent
    rw [if_pos heard]
    exact ⟨Bool.not_eq_true _ ▸ live, rfl, rfl, rfl⟩
  · rename_i lost
    cases sent
    rw [if_neg lost]
    exact ⟨Bool.not_eq_true _ ▸ live, rfl, rfl, rfl⟩

theorem handleInvalidStats_spec :
    (handleInvalidStats config dryRun scan snapshot state).state.pid = state.pid ∧
      (handleInvalidStats config dryRun scan snapshot state).state.highSamples = 0 := by
  rw [handleInvalidStats]
  dsimp only
  split
  · have same := @commandBalloon_same dryRun scan
      { state with invalidSamples := satSucc state.invalidSamples, highSamples := 0 }
      snapshot.capacity .return
    exact ⟨same.pid, same.highSamples⟩
  · exact ⟨rfl, rfl⟩

theorem handleInvalidStats_sent
    (sent : (handleInvalidStats config dryRun scan snapshot state).sent = some command) :
    dryRun = false ∧ command.target = snapshot.capacity ∧ command.action = .return := by
  rw [handleInvalidStats] at sent
  dsimp only at sent
  split at sent
  · obtain ⟨live, target, action, -⟩ := commandBalloon_sent sent
    exact ⟨live, target, action⟩
  · cases sent

/-- Carrying out a decision leaves the counters, but an acknowledged reclaim, like a dry run,
starts the count of high samples anew. -/
theorem carryOut_spec (decision : Decision) :
    (carryOut dryRun scan decision state).state.pid = state.pid ∧
      (carryOut dryRun scan decision state).state.lastUpdate = state.lastUpdate ∧
      ((carryOut dryRun scan decision state).state.highSamples = 0 ∨
        (carryOut dryRun scan decision state).state.highSamples = state.highSamples ∧
        ∀ command, (carryOut dryRun scan decision state).sent = some command →
          ¬ (command.action = .reclaim ∧ command.acknowledged = true)) := by
  have same := @commandBalloon_same dryRun scan state decision.target decision.action
  rw [carryOut]
  dsimp only
  split
  · refine ⟨rfl, rfl, .inr ⟨rfl, ?_⟩⟩
    intro command sent
    cases sent
  split
  · exact ⟨same.pid, same.lastUpdate, .inl rfl⟩
  · rename_i other
    refine ⟨same.pid, same.lastUpdate, .inr ⟨same.highSamples, ?_⟩⟩
    rintro command sent ⟨reclaims, heard⟩
    obtain ⟨-, -, action, acknowledged⟩ := commandBalloon_sent sent
    exact other ⟨acknowledged ▸ heard, action ▸ reclaims⟩

theorem carryOut_sent {decision : Decision}
    (sent : (carryOut dryRun scan decision state).sent = some command) :
    dryRun = false ∧ blocked scan state decision = false ∧ command.target = decision.target ∧
      command.action = decision.action := by
  rw [carryOut] at sent
  dsimp only at sent
  split at sent
  · cases sent
  rename_i free
  have inner : (commandBalloon dryRun scan decision.target decision.action state).1.sent =
      some command := by
    split at sent
    · exact sent
    · exact sent
  obtain ⟨live, target, action, -⟩ := commandBalloon_sent inner
  exact ⟨live, Bool.not_eq_true _ ▸ free, target, action⟩

/-- What the statistics of a tick are, next to those of the last sample: not read, stale or
missing, no newer, or a new sample. -/
inductive Reading where
  | unknown
  | invalid (snapshot : Snapshot)
  | repeated
  | sample (snapshot : Snapshot) (available : Nat)

def reading (config : DaemonConfig) (scan : Scan) (lastUpdate : Nat) : Reading :=
  match observe scan.qmp with
  | .error _ => .unknown
  | .ok snapshot =>
    match scan.clock, snapshot.available with
    | none, _ => .unknown
    | some _, none => .invalid snapshot
    | some now, some available =>
      if fresh config now snapshot.lastUpdate = false then .invalid snapshot
      else if snapshot.lastUpdate ≤ lastUpdate then .repeated
      else .sample snapshot available

theorem reading_invalid {lastUpdate : Nat}
    (read : reading config scan lastUpdate = .invalid snapshot) :
    observe scan.qmp = .ok snapshot := by
  rw [reading] at read
  split at read
  · cases read
  rename_i observed
  split at read
  · cases read
  · cases read
    exact observed
  · split at read
    · cases read
      exact observed
    split at read <;> cases read

theorem reading_sample {lastUpdate : Nat}
    (read : reading config scan lastUpdate = .sample snapshot available) :
    observe scan.qmp = .ok snapshot ∧ snapshot.available = some available ∧
      (∃ now, scan.clock = some now ∧ fresh config now snapshot.lastUpdate = true) ∧
      lastUpdate < snapshot.lastUpdate := by
  rw [reading] at read
  split at read
  · cases read
  rename_i observed
  split at read
  · cases read
  · cases read
  · rename_i clocked present
    split at read
    · cases read
    rename_i recent
    split at read
    · cases read
    · rename_i newer
      cases read
      exact ⟨observed, present, ⟨_, clocked, Bool.not_eq_false _ ▸ recent⟩, Nat.not_le.mp newer⟩

/-- `reconcile_vm` after a sample was counted. -/
def decideSample (policy : PolicyConfig) (dryRun : Bool) (scan : Scan) (snapshot : Snapshot)
    (available : Nat) (state : VmState) : Outcome :=
  ((decide policy snapshot.capacity snapshot.actual available state.highSamples).getD none).elim
    ⟨state, none⟩ fun decision => carryOut dryRun scan decision state

theorem reconcileVm_cases (policy : PolicyConfig) (dryRun : Bool) :
    let outcome := reconcileVm config policy dryRun false scan state
    ((reading config scan state.lastUpdate = .unknown ∨
        reading config scan state.lastUpdate = .repeated) ∧
      outcome.sent = none ∧ SameCounts outcome.state state) ∨
    (∃ snapshot, reading config scan state.lastUpdate = .invalid snapshot ∧
      outcome = handleInvalidStats config dryRun scan snapshot
        (updatePending config scan snapshot.actual state)) ∨
    ∃ snapshot available, reading config scan state.lastUpdate = .sample snapshot available ∧
      outcome = decideSample policy dryRun scan snapshot available
        (countSample snapshot.lastUpdate (aboveMark policy snapshot.capacity available)
          (updatePending config scan snapshot.actual state)) := by
  dsimp only
  rw [reconcileVm, reading]
  cases observe scan.qmp with
  | error e => exact .inl ⟨.inl rfl, rfl, .refl _⟩
  | ok snapshot =>
    simp only [Bool.false_eq_true, if_false]
    have same := @updatePending_same config scan state snapshot.actual
    cases scan.clock with
    | none => exact .inl ⟨.inl rfl, rfl, same⟩
    | some now =>
      cases snapshot.available with
      | none => exact .inr (.inl ⟨snapshot, rfl, rfl⟩)
      | some available =>
        dsimp only
        by_cases recent : fresh config now snapshot.lastUpdate = true
        · rw [if_pos recent, if_neg (by rw [recent]; exact Bool.noConfusion), handleSample,
            same.lastUpdate]
          by_cases old : snapshot.lastUpdate ≤ state.lastUpdate
          · rw [if_pos old, if_pos old]
            exact .inl ⟨.inr rfl, rfl, same⟩
          · rw [if_neg old, if_neg old]
            exact .inr (.inr ⟨snapshot, available, rfl, rfl⟩)
        · rw [if_neg recent, if_pos (Bool.not_eq_true _ ▸ recent)]
          exact .inr (.inl ⟨snapshot, rfl, rfl⟩)

theorem reconcileVm_vfio (config : DaemonConfig) (policy : PolicyConfig) (dryRun : Bool)
    (scan : Scan) (state : VmState) :
    (reconcileVm config policy dryRun true scan state).sent = none ∧
      (reconcileVm config policy dryRun true scan state).state.pid = state.pid ∧
      (reconcileVm config policy dryRun true scan state).state.highSamples = state.highSamples := by
  rw [reconcileVm]
  cases observe scan.qmp with
  | error e => exact ⟨rfl, rfl, rfl⟩
  | ok snapshot => exact ⟨rfl, rfl, rfl⟩

/-- What a sample leads to: the counters are those of the sample, except that the count of high
samples may start anew. -/
theorem decideSample_spec (available : Nat) :
    (decideSample policy dryRun scan snapshot available state).state.pid = state.pid ∧
      (decideSample policy dryRun scan snapshot available state).state.lastUpdate =
        state.lastUpdate ∧
      ((decideSample policy dryRun scan snapshot available state).state.highSamples = 0 ∨
        (decideSample policy dryRun scan snapshot available state).state.highSamples =
          state.highSamples ∧
        ∀ command, (decideSample policy dryRun scan snapshot available state).sent = some command →
          ¬ (command.action = .reclaim ∧ command.acknowledged = true)) := by
  rw [decideSample]
  generalize (decide policy snapshot.capacity snapshot.actual available state.highSamples).getD none =
    decision
  cases decision with
  | none =>
    refine ⟨rfl, rfl, .inr ⟨rfl, ?_⟩⟩
    intro command sent
    cases sent
  | some decision => exact carryOut_spec decision

theorem decideSample_sent
    (sent : (decideSample policy dryRun scan snapshot available state).sent = some command) :
    ∃ decision, decide policy snapshot.capacity snapshot.actual available state.highSamples =
        some (some decision) ∧
      dryRun = false ∧ blocked scan state decision = false ∧ command.target = decision.target ∧
      command.action = decision.action := by
  rw [decideSample] at sent
  generalize decide policy snapshot.capacity snapshot.actual available state.highSamples = decided
    at sent ⊢
  cases decided with
  | none => cases sent
  | some decision =>
    cases decision with
    | none => cases sent
    | some decision => exact ⟨decision, rfl, carryOut_sent sent⟩

end Tick

/-! ## The state of the VM -/

/-- QMP reports the VM as running and no migration under way. -/
def RunsUnmigrated (qmp : Qmp) : Prop :=
  (∃ status, qmp.queryStatus = some status ∧
    (status.get "status").bind Value.asStr = some "running") ∧
  ∃ migration, qmp.queryMigrate = some migration ∧
    ∀ state, (migration.get "status").bind Value.asStr = some state →
      state ∈ ["none", "completed", "failed", "cancelled"]

theorem execute_ok {reply : Option Value} {value : Value} (ok : execute reply = .ok value) :
    reply = some value := by
  cases reply with
  | none => cases ok
  | some v =>
    cases ok
    rfl

theorem preflight_ok (ok : preflight qmp = .ok ()) : RunsUnmigrated qmp := by
  rw [preflight] at ok
  cases asked : execute qmp.queryStatus with
  | error e =>
    rw [asked] at ok
    cases ok
  | ok status =>
    rw [asked] at ok
    simp only [bind, Except.bind] at ok
    split at ok
    · cases ok
    rename_i runState running
    split at ok
    · cases ok
    rename_i same
    rw [not_not.mp same] at running
    refine ⟨⟨status, execute_ok asked, running⟩, ?_⟩
    split at ok
    · cases ok
    rename_i migration answered
    refine ⟨migration, execute_ok answered, ?_⟩
    intro state found
    split at ok
    · rename_i absent
      rw [found] at absent
      cases absent
    · rename_i state' found'
      rw [found] at found'
      cases found'
      split at ok
      · assumption
      · cases ok

theorem observe_ok {snapshot : Snapshot} (ok : observe qmp = .ok snapshot) :
    RunsUnmigrated qmp ∧ querySnapshot qmp = .ok snapshot := by
  rw [observe] at ok
  cases connected : connect qmp with
  | error e =>
    rw [connected] at ok
    cases ok
  | ok _ =>
    cases checked : preflight qmp with
    | error e =>
      rw [connected, checked] at ok
      cases ok
    | ok _ =>
      rw [connected, checked] at ok
      exact ⟨preflight_ok checked, ok⟩

/-! ## The log of a run -/

/-- One tick: what it met, the state before it and the command it sent. -/
structure Entry where
  scan : Scan
  before : Option VmState
  sent : Option Command

/-- The state that was reconciled, if the VM was attached before the tick. -/
def Entry.kept (e : Entry) : Option VmState := e.before.filter fun s => e.scan.runtime = some s.pid

def Entry.lastUpdate (e : Entry) : Nat :=
  match observe e.scan.qmp with
  | .ok snapshot => snapshot.lastUpdate
  | .error _ => 0

/-- The daemon's state for a VM, and its log with the latest tick first. -/
structure Seen where
  state : Option VmState
  log : List Entry

def Seen.start : Seen := ⟨none, []⟩

namespace Daemon

variable (daemon : Daemon)

def sends (seen : Seen) (scan : Scan) : Option Command := (daemon.reconcileAll scan seen.state).2

def step (seen : Seen) (scan : Scan) : Seen :=
  ⟨(daemon.reconcileAll scan seen.state).1, ⟨scan, seen.state, daemon.sends seen scan⟩ :: seen.log⟩

/-- A new fresh sample above the mark. -/
def HighSample (e : Entry) : Prop :=
  ∃ s snapshot available, e.kept = some s ∧
    reading daemon.config e.scan s.lastUpdate = .sample snapshot available ∧
    aboveMark daemon.policy snapshot.capacity available = true

/-- What ends a row of high samples: the VM was not attached before, its statistics are stale or
missing, a new sample is not above the mark, or a reclaim was commanded successfully. -/
inductive Reset (e : Entry) : Prop where
  | unattached (unattached : e.kept = none)
  | invalid {s : VmState} {snapshot : Snapshot} (kept : e.kept = some s)
      (read : reading daemon.config e.scan s.lastUpdate = .invalid snapshot)
  | low {s : VmState} {snapshot : Snapshot} {available : Nat} (kept : e.kept = some s)
      (read : reading daemon.config e.scan s.lastUpdate = .sample snapshot available)
      (below : aboveMark daemon.policy snapshot.capacity available = false)
  | reclaimed {command : Command} (sent : e.sent = some command)
      (reclaims : command.action = .reclaim) (heard : command.acknowledged = true)

/-- The log ends with ticks none of which is a reset, and among them are this many high samples,
each with a later update than the ones before it and none later than the bound. -/
def Backed (log : List Entry) (count bound : Nat) : Prop :=
  ∃ recent older evidence : List Entry, log = recent ++ older ∧ (∀ e ∈ recent, ¬ daemon.Reset e) ∧
    evidence.Sublist recent ∧ (∀ e ∈ evidence, daemon.HighSample e) ∧
    evidence.Pairwise (fun later earlier : Entry => earlier.lastUpdate < later.lastUpdate) ∧
    (∀ e ∈ evidence, e.lastUpdate ≤ bound) ∧ count ≤ evidence.length

variable {daemon} {log : List Entry} {count bound : Nat} {e : Entry}

theorem Backed.zero (log : List Entry) (bound : Nat) : daemon.Backed log 0 bound :=
  ⟨[], log, [], rfl, by simp, List.Sublist.refl _, by simp, List.Pairwise.nil, by simp,
    Nat.zero_le _⟩

theorem Backed.mono (backed : daemon.Backed log count bound) {count' bound' : Nat}
    (fewer : count' ≤ count) (later : bound ≤ bound') : daemon.Backed log count' bound' := by
  obtain ⟨recent, older, evidence, split, quiet, sub, high, sorted, bounded, enough⟩ := backed
  exact ⟨recent, older, evidence, split, quiet, sub, high, sorted,
    fun e mem => Nat.le_trans (bounded e mem) later, Nat.le_trans fewer enough⟩

theorem Backed.skip (backed : daemon.Backed log count bound) (quiet : ¬ daemon.Reset e) :
    daemon.Backed (e :: log) count bound := by
  obtain ⟨recent, older, evidence, rfl, quiets, sub, rest⟩ := backed
  refine ⟨e :: recent, older, evidence, rfl, ?_, sub.trans (List.sublist_cons_self _ _), rest⟩
  intro e' mem
  rcases List.mem_cons.mp mem with rfl | old
  · exact quiet
  · exact quiets e' old

theorem Backed.sample (backed : daemon.Backed log count bound) (quiet : ¬ daemon.Reset e)
    (high : daemon.HighSample e) (newer : bound < e.lastUpdate) :
    daemon.Backed (e :: log) (count + 1) e.lastUpdate := by
  obtain ⟨recent, older, evidence, rfl, quiets, sub, highs, sorted, bounded, enough⟩ := backed
  refine ⟨e :: recent, older, e :: evidence, rfl, ?_, sub.cons_cons e, ?_, ?_, ?_, ?_⟩
  · intro e' mem
    rcases List.mem_cons.mp mem with rfl | old
    · exact quiet
    · exact quiets e' old
  · intro e' mem
    rcases List.mem_cons.mp mem with rfl | old
    · exact high
    · exact highs e' old
  · exact List.pairwise_cons.mpr ⟨fun e' mem => Nat.lt_of_le_of_lt (bounded e' mem) newer, sorted⟩
  · intro e' mem
    rcases List.mem_cons.mp mem with rfl | old
    · exact Nat.le_refl _
    · exact Nat.le_trans (bounded e' old) (Nat.le_of_lt newer)
  · exact Nat.succ_le_succ enough

/-! ## The samples behind the count -/

variable (daemon) in
/-- The count of high samples is backed by the log. A VM with a VFIO device has none. -/
structure Counted (seen : Seen) : Prop where
  enabled : seen.state.isSome → daemon.policy.enabled = true
  vfio : ∀ s, seen.state = some s → daemon.vfio s.pid = true → s.highSamples = 0
  backed : ∀ s, seen.state = some s → daemon.Backed seen.log s.highSamples s.lastUpdate

theorem Counted.start : daemon.Counted .start :=
  ⟨fun some => absurd some (by decide), fun _ eq => absurd eq (by simp [Seen.start]),
    fun _ eq => absurd eq (by simp [Seen.start])⟩

theorem reconcileAll_cases (scan : Scan) (state : Option VmState) :
    (daemon.reconcileAll scan state = (none, none)) ∨
    (daemon.policy.enabled = false ∧ daemon.reconcileAll scan state =
      (state.filter fun s => scan.runtime = some s.pid, none)) ∨
    (daemon.policy.enabled = true ∧ ∃ pid, scan.runtime = some pid ∧
      daemon.reconcileAll scan state = ((attachVm scan.qmp pid).toOption, none)) ∨
    (daemon.policy.enabled = true ∧ ∃ s, state = some s ∧ scan.runtime = some s.pid ∧
      daemon.reconcileAll scan state =
        (some (reconcileVm daemon.config daemon.policy daemon.dryRun (daemon.vfio s.pid) scan s).state,
          (reconcileVm daemon.config daemon.policy daemon.dryRun (daemon.vfio s.pid) scan s).sent)) := by
  rw [reconcileAll]
  cases found : scan.runtime with
  | none => exact .inl rfl
  | some pid =>
    right
    dsimp only
    have same : (fun s : VmState => Decidable.decide (some pid = some s.pid)) =
        fun s : VmState => Decidable.decide (s.pid = pid) := by
      funext s
      simp only [Option.some.injEq, eq_comm]
    rw [same]
    cases enabled : daemon.policy.enabled with
    | false => exact .inl ⟨rfl, rfl⟩
    | true =>
      right
      cases kept : state.filter fun s => Decidable.decide (s.pid = pid) with
      | none => exact .inl ⟨rfl, pid, rfl, rfl⟩
      | some s =>
        obtain ⟨eq, here⟩ := Option.filter_eq_some_iff.mp kept
        have here : s.pid = pid := of_decide_eq_true here
        subst here
        exact .inr ⟨rfl, s, eq, rfl, rfl⟩

theorem attachVm_ok {pid : Nat} {s : VmState} (ok : attachVm qmp pid = .ok s) :
    s.pid = pid ∧ s.highSamples = 0 := by
  rw [attachVm] at ok
  cases connected : connect qmp with
  | error e =>
    rw [connected] at ok
    cases ok
  | ok _ =>
    cases checked : preflight qmp with
    | error e =>
      rw [connected, checked] at ok
      cases ok
    | ok _ =>
      cases read : queryGuestStats qmp with
      | error e =>
        rw [connected, checked, read] at ok
        cases ok
      | ok stats =>
        rw [connected, checked, read] at ok
        simp only [bind, Except.bind] at ok
        split at ok
        · cases ok
          exact ⟨rfl, rfl⟩
        · cases ok

theorem kept_eq {scan : Scan} {s : VmState} {sent : Option Command}
    (here : scan.runtime = some s.pid) : (⟨scan, some s, sent⟩ : Entry).kept = some s := by
  rw [Entry.kept, Option.filter_some, if_pos (by simpa using here)]

theorem lastUpdate_eq {scan : Scan} {before : Option VmState} {sent : Option Command}
    {snapshot : Snapshot} (observed : observe scan.qmp = .ok snapshot) :
    (⟨scan, before, sent⟩ : Entry).lastUpdate = snapshot.lastUpdate := by
  rw [Entry.lastUpdate, observed]

/-- A tick is no reset when the VM was attached, its statistics are neither invalid nor a low
sample, and no reclaim went through. -/
theorem not_reset {scan : Scan} {s : VmState} {sent : Option Command}
    (here : scan.runtime = some s.pid)
    (valid : ∀ snapshot, reading daemon.config scan s.lastUpdate ≠ .invalid snapshot)
    (high : ∀ snapshot available,
      reading daemon.config scan s.lastUpdate = .sample snapshot available →
        aboveMark daemon.policy snapshot.capacity available = true)
    (quiet : ∀ command, sent = some command →
      ¬ (command.action = .reclaim ∧ command.acknowledged = true)) :
    ¬ daemon.Reset ⟨scan, some s, sent⟩ := by
  have kept := @kept_eq scan s sent here
  rintro (unattached | ⟨kept', read⟩ | ⟨kept', read, below⟩ | ⟨sent', reclaims, heard⟩)
  · rw [kept] at unattached
    cases unattached
  · rw [kept] at kept'
    cases kept'
    exact valid _ read
  · rw [kept] at kept'
    cases kept'
    rw [high _ _ read] at below
    cases below
  · exact quiet _ sent' ⟨reclaims, heard⟩

theorem satSucc_le (n : Nat) : satSucc n ≤ n + 1 := Nat.min_le_left _ _

theorem Backed.countSample {scan : Scan} {s : VmState} {snapshot : Snapshot} {sent : Option Command}
    (backed : daemon.Backed log s.highSamples s.lastUpdate) (here : scan.runtime = some s.pid)
    (read : reading daemon.config scan s.lastUpdate = .sample snapshot available)
    (quiet : ∀ command, sent = some command → ¬ (command.action = .reclaim ∧ command.acknowledged = true)) :
    daemon.Backed (⟨scan, some s, sent⟩ :: log)
      (Balloon.countSample snapshot.lastUpdate
        (aboveMark daemon.policy snapshot.capacity available) s).highSamples
      snapshot.lastUpdate := by
  obtain ⟨observed, -, -, newer⟩ := reading_sample read
  cases above : aboveMark daemon.policy snapshot.capacity available with
  | false => exact .zero _ _
  | true =>
    have eq := @lastUpdate_eq scan (some s) sent snapshot observed
    have calm : ¬ daemon.Reset ⟨scan, some s, sent⟩ := by
      refine not_reset here (fun _ invalid => ?_) (fun _ _ read' => ?_) quiet
      · rw [read] at invalid
        cases invalid
      · rw [read] at read'
        cases read'
        exact above
    have more := backed.sample calm ⟨s, snapshot, available, kept_eq here, read, above⟩ (eq ▸ newer)
    exact more.mono (satSucc_le _) (Nat.le_of_eq eq)

theorem Counted.reconcile {scan : Scan} {s : VmState} (counted : daemon.Counted seen)
    (attached : seen.state = some s) (here : scan.runtime = some s.pid) :
    let outcome := reconcileVm daemon.config daemon.policy daemon.dryRun false scan s
    outcome.state.pid = s.pid ∧
      daemon.Backed (⟨scan, some s, outcome.sent⟩ :: seen.log) outcome.state.highSamples
        outcome.state.lastUpdate := by
  have backed := counted.backed s attached
  dsimp only
  rcases @reconcileVm_cases daemon.config scan s daemon.policy daemon.dryRun with
    ⟨read, sent, same⟩ | ⟨snapshot, read, eq⟩ | ⟨snapshot, available, read, eq⟩
  · refine ⟨same.pid, ?_⟩
    rw [same.highSamples, same.lastUpdate]
    refine backed.skip (not_reset here ?_ ?_ ?_)
    · intro snapshot invalid
      rcases read with read | read <;> rw [read] at invalid <;> cases invalid
    · intro snapshot available sample
      rcases read with read | read <;> rw [read] at sample <;> cases sample
    · intro command some
      rw [sent] at some
      cases some
  · have pending := @updatePending_same daemon.config scan s snapshot.actual
    obtain ⟨pid, none⟩ := @handleInvalidStats_spec daemon.config daemon.dryRun scan
      (updatePending daemon.config scan snapshot.actual s) snapshot
    rw [← eq] at pid none
    rw [none]
    exact ⟨pid.trans pending.pid, .zero _ _⟩
  · have pending := @updatePending_same daemon.config scan s snapshot.actual
    obtain ⟨pid, last, counts⟩ := @decideSample_spec daemon.policy daemon.dryRun scan
      (Balloon.countSample snapshot.lastUpdate
        (aboveMark daemon.policy snapshot.capacity available)
        (updatePending daemon.config scan snapshot.actual s)) snapshot available
    rw [← eq] at pid last counts
    refine ⟨pid.trans pending.pid, ?_⟩
    rcases counts with none | ⟨count, quiet⟩
    · rw [none]
      exact .zero _ _
    · have more := backed.countSample here read quiet
      have counted : (Balloon.countSample snapshot.lastUpdate
          (aboveMark daemon.policy snapshot.capacity available)
          (updatePending daemon.config scan snapshot.actual s)).highSamples =
          (Balloon.countSample snapshot.lastUpdate
            (aboveMark daemon.policy snapshot.capacity available) s).highSamples := by
        simp only [Balloon.countSample, pending.highSamples]
      rw [count, last, counted]
      exact more

theorem Counted.step (counted : daemon.Counted seen) (scan : Scan) :
    daemon.Counted (daemon.step seen scan) := by
  rw [Daemon.step, sends]
  rcases @reconcileAll_cases daemon scan seen.state with eq | ⟨off, eq⟩ | ⟨on, pid, found, eq⟩ |
    ⟨on, s, attached, here, eq⟩
  · rw [eq]
    exact ⟨fun some => absurd some (by simp), fun _ some => absurd some (by simp),
      fun _ some => absurd some (by simp)⟩
  · have absent : seen.state = none := by
      cases state : seen.state with
      | none => rfl
      | some s =>
        have on := counted.enabled (by rw [state]; rfl)
        rw [off] at on
        cases on
    rw [eq, absent]
    exact ⟨fun some => absurd some (by simp), fun _ some => absurd some (by simp),
      fun _ some => absurd some (by simp)⟩
  · rw [eq]
    have fresh : ∀ s, (attachVm scan.qmp pid).toOption = some s → s.highSamples = 0 := by
      intro s some
      cases answer : attachVm scan.qmp pid with
      | error e =>
        rw [answer] at some
        cases some
      | ok s' =>
        rw [answer] at some
        cases some
        exact (attachVm_ok answer).2
    refine ⟨fun _ => on, fun s some _ => fresh s some, fun s some => ?_⟩
    rw [fresh s some]
    exact .zero _ _
  · rw [eq]
    refine ⟨fun _ => on, ?_, ?_⟩
    · intro s' some vfio
      cases some
      cases passed : daemon.vfio s.pid with
      | true =>
        have spec := reconcileVm_vfio daemon.config daemon.policy daemon.dryRun scan s
        rw [spec.2.2]
        exact counted.vfio s attached passed
      | false =>
        rw [passed] at vfio
        rw [(counted.reconcile attached here).1, passed] at vfio
        cases vfio
    · intro s' some
      cases some
      cases passed : daemon.vfio s.pid with
      | true =>
        have spec := reconcileVm_vfio daemon.config daemon.policy daemon.dryRun scan s
        rw [spec.2.2, counted.vfio s attached passed]
        exact .zero _ _
      | false =>
        rw [attached]
        exact (counted.reconcile attached here).2

/-! ## What a command presupposes -/

variable (daemon) in
/-- A command as it should be. A reclaim comes when nothing is pending, after any backoff, and
after enough high samples in a row, the tick at hand included. -/
structure Proper (seen : Seen) (scan : Scan) (command : Command) : Prop where
  live : daemon.dryRun = false
  attached : ∃ s, seen.state = some s ∧ scan.runtime = some s.pid ∧ daemon.vfio s.pid = false
  running : RunsUnmigrated scan.qmp
  bounded : ∃ snapshot, observe scan.qmp = .ok snapshot ∧
    (∀ t, thresholds daemon.policy snapshot.capacity = some t → t.minLogical ≤ command.target) ∧
    (command.target ≤ snapshot.capacity ∨
      command.action = .reclaim ∧ command.target < snapshot.actual)
  reclaim : command.action = .reclaim → ∃ s snapshot, seen.state = some s ∧
    observe scan.qmp = .ok snapshot ∧
    (updatePending daemon.config scan snapshot.actual s).pending = none ∧
    (∀ deadline,
      (updatePending daemon.config scan snapshot.actual s).reclaimBackoffUntil = some deadline →
        deadline ≤ scan.decided) ∧
    daemon.Backed (⟨scan, seen.state, none⟩ :: seen.log) daemon.policy.confirmSamples
      snapshot.lastUpdate

theorem decided_bounds {policy : PolicyConfig} {capacity actual samples : Nat} {d : Decision}
    (decided : decide policy capacity actual available samples = some (some d)) :
    (∀ t, thresholds policy capacity = some t → t.minLogical ≤ d.target) ∧
      (d.target ≤ capacity ∨ d.action = .reclaim ∧ d.target < actual) := by
  obtain ⟨t, reclaimStep, found, chosen⟩ := decide_chosen decided
  obtain ⟨-, floor⟩ := thresholds_le found
  constructor
  · intro t' found'
    rw [found] at found'
    cases found'
    rcases choose_cases chosen with ⟨-, -, eq⟩ | ⟨-, large, -, above, -⟩ | ⟨reclaims, -⟩
    · exact Nat.le_of_eq eq.symm
    · exact Nat.le_of_lt (Nat.lt_of_le_of_lt large above)
    · exact (choose_reclaim reclaims chosen).1
  · cases action : d.action with
    | «return» => exact .inl (choose_return floor action chosen).2
    | reclaim => exact .inr ⟨rfl, (choose_reclaim action chosen).2.1⟩

theorem not_blocked_reclaim {scan : Scan} {s : VmState} {d : Decision} (reclaims : d.action = .reclaim)
    (free : blocked scan s d = false) :
    s.pending = none ∧ ∀ deadline, s.reclaimBackoffUntil = some deadline → deadline ≤ scan.decided := by
  rw [blocked, reclaims] at free
  simp only [Bool.or_eq_false_iff, Option.isSome_eq_false_iff, Option.isNone_iff_eq_none] at free
  refine ⟨free.1, ?_⟩
  intro deadline some
  have past := free.2
  rw [some, Option.any_some, decide_eq_false_iff_not] at past
  exact Nat.not_lt.mp past

theorem sends_proper {scan : Scan} (counted : daemon.Counted seen)
    (sent : daemon.sends seen scan = some command) : daemon.Proper seen scan command := by
  rw [sends] at sent
  rcases @reconcileAll_cases daemon scan seen.state with eq | ⟨-, eq⟩ | ⟨-, pid, -, eq⟩ |
    ⟨-, s, attached, here, eq⟩
  · rw [eq] at sent
    cases sent
  · rw [eq] at sent
    cases sent
  · rw [eq] at sent
    cases sent
  rw [eq] at sent
  cases passed : daemon.vfio s.pid with
  | true =>
    simp only [passed, (reconcileVm_vfio daemon.config daemon.policy daemon.dryRun scan s).1] at sent
    cases sent
  | false =>
    simp only [passed] at sent
    rcases @reconcileVm_cases daemon.config scan s daemon.policy daemon.dryRun with
      ⟨-, none, -⟩ | ⟨snapshot, read, eq⟩ | ⟨snapshot, available, read, eq⟩
    · rw [none] at sent
      cases sent
    · rw [eq] at sent
      obtain ⟨live, target, action⟩ := handleInvalidStats_sent sent
      have observed := reading_invalid read
      refine ⟨live, ⟨s, attached, here, passed⟩, (observe_ok observed).1,
        ⟨snapshot, observed, ?_, .inl (Nat.le_of_eq target)⟩, ?_⟩
      · intro t found
        rw [target]
        exact (thresholds_le found).2
      · intro reclaims
        rw [action] at reclaims
        cases reclaims
    · rw [eq] at sent
      obtain ⟨d, decided, live, free, target, action⟩ := decideSample_sent sent
      obtain ⟨observed, -⟩ := reading_sample read
      obtain ⟨floor, ceiling⟩ := decided_bounds decided
      refine ⟨live, ⟨s, attached, here, passed⟩, (observe_ok observed).1,
        ⟨snapshot, observed, ?_, ?_⟩, ?_⟩
      · intro t found
        rw [target]
        exact floor t found
      · rw [target, action]
        exact ceiling
      · intro reclaims
        rw [action] at reclaims
        obtain ⟨none, past⟩ := not_blocked_reclaim reclaims free
        refine ⟨s, snapshot, attached, observed, none, past, ?_⟩
        obtain ⟨t, reclaimStep, -, chosen⟩ := decide_chosen decided
        have enough := choose_confirmed reclaims chosen
        have pending := @updatePending_same daemon.config scan s snapshot.actual
        simp only [Balloon.countSample, pending.highSamples] at enough
        rw [attached]
        refine ((counted.backed s attached).countSample here read ?_).mono enough (Nat.le_refl _)
        intro command some
        cases some

/-! ## Statistics that stay away -/

variable (daemon) in
/-- The states of a VM over an infinite sequence of scans. -/
def states (start : Option VmState) (scans : Nat → Scan) : Nat → Option VmState
  | 0 => start
  | k + 1 => (daemon.reconcileAll (scans k) (states start scans k)).1

variable (daemon) in
/-- A tick in which QMP works and the VM runs with less than its capacity, but the statistics are
stale or missing. -/
structure Silent (pid : Nat) (scan : Scan) (snapshot : Snapshot) : Prop where
  found : scan.runtime = some pid
  observed : observe scan.qmp = .ok snapshot
  polling : scan.qmp.setPolling = true
  clocked : ∃ now, scan.clock = some now ∧
    (snapshot.available = none ∨ fresh daemon.config now snapshot.lastUpdate = false)
  ballooned : snapshot.actual < snapshot.capacity

variable (daemon) in
/-- A return to the full capacity of the snapshot. -/
def Restores (scan : Scan) (snapshot : Snapshot) (state : Option VmState) : Prop :=
  ∃ command, (daemon.reconcileAll scan state).2 = some command ∧ command.action = .return ∧
    command.target = snapshot.capacity

variable (daemon) in
/-- The daemon may command the VM. -/
structure Eligible (pid : Nat) : Prop where
  enabled : daemon.policy.enabled = true
  live : daemon.dryRun = false
  unpassed : daemon.vfio pid = false
  width : daemon.config.invalidSamplesBeforeRestore < 2 ^ 32

section Silence

variable {pid : Nat} {scan : Scan} {snapshot : Snapshot} {s : VmState}

theorem Silent.reading (silent : daemon.Silent pid scan snapshot) (lastUpdate : Nat) :
    reading daemon.config scan lastUpdate = .invalid snapshot := by
  obtain ⟨now, clocked, stale⟩ := silent.clocked
  rw [Balloon.reading, silent.observed]
  dsimp only
  rw [clocked]
  cases present : snapshot.available with
  | none => rfl
  | some available =>
    rcases stale with missing | stale
    · rw [present] at missing
      cases missing
    · dsimp only
      rw [if_pos stale]

theorem Silent.attach (silent : daemon.Silent pid scan snapshot) :
    ∃ s, attachVm scan.qmp pid = .ok s ∧ s.pid = pid := by
  have observed := silent.observed
  rw [observe] at observed
  rw [attachVm]
  cases connected : connect scan.qmp with
  | error e =>
    rw [connected] at observed
    cases observed
  | ok _ =>
    cases checked : preflight scan.qmp with
    | error e =>
      rw [connected, checked] at observed
      cases observed
    | ok _ =>
      have read := (observe_ok silent.observed).2
      rw [querySnapshot] at read
      cases capacity : queryCapacity scan.qmp with
      | error e =>
        rw [capacity] at read
        cases read
      | ok _ =>
        cases actual : queryActual scan.qmp with
        | error e =>
          rw [capacity, actual] at read
          cases read
        | ok _ =>
          cases stats : queryGuestStats scan.qmp with
          | error e =>
            rw [capacity, actual, stats] at read
            cases read
          | ok pair =>
            simp only [bind, Except.bind, silent.polling, if_true]
            exact ⟨_, rfl, rfl⟩

theorem Silent.reconcile (silent : daemon.Silent pid scan snapshot) (eligible : daemon.Eligible pid)
    (here : s.pid = pid) :
    daemon.reconcileAll scan (some s) =
      (some (handleInvalidStats daemon.config false scan snapshot
          (updatePending daemon.config scan snapshot.actual s)).state,
        (handleInvalidStats daemon.config false scan snapshot
          (updatePending daemon.config scan snapshot.actual s)).sent) := by
  have outcome : reconcileVm daemon.config daemon.policy daemon.dryRun (daemon.vfio s.pid) scan s =
      handleInvalidStats daemon.config false scan snapshot
        (updatePending daemon.config scan snapshot.actual s) := by
    rw [here, eligible.unpassed, eligible.live]
    rcases @reconcileVm_cases daemon.config scan s daemon.policy false with
      ⟨read, -⟩ | ⟨snapshot', read, eq⟩ | ⟨_, _, read, -⟩
    · rw [silent.reading] at read
      rcases read with read | read <;> cases read
    · rw [silent.reading] at read
      cases read
      exact eq
    · rw [silent.reading] at read
      cases read
  have kept : (some s).filter (fun s => Decidable.decide (s.pid = pid)) = some s := by
    rw [Option.filter_some, if_pos (by simpa using here)]
  rw [reconcileAll, silent.found]
  dsimp only
  rw [eligible.enabled, kept]
  dsimp only
  rw [← here, outcome]

theorem Silent.attaches (silent : daemon.Silent pid scan snapshot) (eligible : daemon.Eligible pid)
    (state : Option VmState) :
    ∃ s, (daemon.reconcileAll scan state).1 = some s ∧ s.pid = pid := by
  rw [reconcileAll, silent.found]
  dsimp only
  rw [eligible.enabled]
  cases kept : state.filter fun s => Decidable.decide (s.pid = pid) with
  | none =>
    obtain ⟨s, ok, here⟩ := silent.attach
    exact ⟨s, by rw [ok]; rfl, here⟩
  | some s =>
    obtain ⟨rfl, here⟩ := Option.filter_eq_some_iff.mp kept
    have here : s.pid = pid := of_decide_eq_true here
    have tick := silent.reconcile eligible here
    refine ⟨_, rfl, ?_⟩
    rw [reconcileAll, silent.found] at tick
    dsimp only at tick
    rw [eligible.enabled, kept] at tick
    have first := congrArg Prod.fst tick
    dsimp only at first
    rw [Option.some.inj first]
    exact handleInvalidStats_spec.1.trans ((updatePending_same _).pid.trans here)

theorem updatePending_invalidSamples (actual : Nat) :
    (updatePending daemon.config scan actual s).invalidSamples = s.invalidSamples := by
  rw [updatePending]
  split
  · rfl
  split
  · rfl
  split
  · split <;> rfl
  · rfl

theorem updatePending_kept {actual : Nat} {pending : PendingCommand}
    (kept : (updatePending daemon.config scan actual s).pending = some pending) :
    s.pending = some pending ∧
      scan.checked - pending.started ≤ fromSecs daemon.config.commandTimeoutSeconds := by
  rw [updatePending] at kept
  split at kept
  · rename_i none
    rw [none] at kept
    cases kept
  rename_i some
  split at kept
  · cases kept
  split at kept
  · split at kept <;> cases kept
  · rename_i early
    rw [some] at kept
    cases kept
    exact ⟨some, Nat.not_lt.mp early⟩

/-- A silent tick that does not restore counts one more invalid sample, and once enough are
counted, a return is still pending. -/
theorem Silent.step (silent : daemon.Silent pid scan snapshot) (eligible : daemon.Eligible pid)
    (here : s.pid = pid) (waits : ¬ daemon.Restores scan snapshot (some s)) :
    ∃ s', (daemon.reconcileAll scan (some s)).1 = some s' ∧ s'.pid = pid ∧
      s'.invalidSamples = satSucc s.invalidSamples ∧
      s'.pending = (updatePending daemon.config scan snapshot.actual s).pending ∧
      (daemon.config.invalidSamplesBeforeRestore ≤ satSucc s.invalidSamples →
        ∃ pending, s'.pending = some pending) := by
  have tick := silent.reconcile eligible here
  rw [handleInvalidStats] at tick
  dsimp only at tick
  rw [updatePending_invalidSamples] at tick
  split at tick
  · rename_i restores
    refine absurd ?_ waits
    rw [Restores, tick, commandBalloon]
    simp only [Bool.false_eq_true, if_false]
    split
    · exact ⟨_, rfl, rfl, rfl⟩
    · exact ⟨_, rfl, rfl, rfl⟩
  · rename_i holds
    rw [tick]
    refine ⟨_, rfl, (updatePending_same _).pid.trans here, rfl, rfl, ?_⟩
    intro enough
    cases pending : (updatePending daemon.config scan snapshot.actual s).pending with
    | some command => exact ⟨command, rfl⟩
    | none => exact absurd ⟨enough, silent.ballooned, by rw [pending]; rfl⟩ holds

end Silence

/-- When the statistics stay away, the full capacity is commanded after finitely many ticks. -/
theorem eventually_restores {pid : Nat} (eligible : daemon.Eligible pid) {scans : Nat → Scan}
    {snapshots : Nat → Snapshot} (silent : ∀ k, daemon.Silent pid (scans k) (snapshots k))
    (advances : ∀ k, (scans k).checked < (scans (k + 1)).checked) (start : Option VmState) :
    ∃ k, daemon.Restores (scans k) (snapshots k) (daemon.states start scans k) := by
  by_contra never
  have waits : ∀ k, ¬ daemon.Restores (scans k) (snapshots k) (daemon.states start scans k) :=
    fun k restores => never ⟨k, restores⟩
  -- The counter reaches any number a u32 holds.
  have counts : ∀ k, ∃ s, daemon.states start scans (k + 1) = some s ∧ s.pid = pid ∧
      min k (2 ^ 32 - 1) ≤ s.invalidSamples := by
    intro k
    induction k with
    | zero =>
      obtain ⟨s, eq, here⟩ := (silent 0).attaches eligible start
      exact ⟨s, eq, here, by omega⟩
    | succ k ih =>
      obtain ⟨s, eq, here, low⟩ := ih
      have wait := waits (k + 1)
      rw [eq] at wait
      obtain ⟨s', eq', here', count, -⟩ := (silent (k + 1)).step eligible here wait
      refine ⟨s', ?_, here', ?_⟩
      · rw [states, eq]
        exact eq'
      · rw [count, satSucc]
        omega
  -- From then on a command is pending in every tick, and it stays for the next one.
  have width := eligible.width
  generalize last : daemon.config.invalidSamplesBeforeRestore + 1 = first at *
  have blocks : ∀ k, ∃ s pending, daemon.states start scans (first + k) = some s ∧
      s.pending = some pending ∧
      (scans (first + k)).checked - pending.started ≤
        fromSecs daemon.config.commandTimeoutSeconds ∧
      ∃ s', daemon.states start scans (first + (k + 1)) = some s' ∧ s'.pending = some pending := by
    intro k
    obtain ⟨s, eq, here, low⟩ := counts (daemon.config.invalidSamplesBeforeRestore + k)
    have index : daemon.config.invalidSamplesBeforeRestore + k + 1 = first + k := by omega
    rw [index] at eq
    have wait := waits (first + k)
    rw [eq] at wait
    obtain ⟨s', eq', -, -, same, pends⟩ := (silent (first + k)).step eligible here wait
    obtain ⟨pending, held⟩ := pends (by rw [satSucc]; omega)
    obtain ⟨before, early⟩ := updatePending_kept (same.symm.trans held)
    refine ⟨s, pending, eq, before, early, s', ?_, held⟩
    rw [← Nat.add_assoc, states, eq]
    exact eq'
  obtain ⟨s, pending, eq, held, -⟩ := blocks 0
  have stays : ∀ k, ∃ s, daemon.states start scans (first + k) = some s ∧
      s.pending = some pending := by
    intro k
    induction k with
    | zero => exact ⟨s, eq, held⟩
    | succ k ih =>
      obtain ⟨s, eq, held⟩ := ih
      obtain ⟨s', pending', eq', held', -, next⟩ := blocks k
      rw [eq] at eq'
      cases eq'
      rw [held] at held'
      cases held'
      exact next
  -- Its time runs out.
  have late : ∀ k, k ≤ (scans k).checked := by
    intro k
    induction k with
    | zero => exact Nat.zero_le _
    | succ k ih => exact Nat.lt_of_le_of_lt ih (advances k)
  generalize fromSecs daemon.config.commandTimeoutSeconds = timeout at *
  obtain ⟨s', eq', held'⟩ := stays (pending.started + timeout + 1)
  obtain ⟨s'', pending', eq'', held'', early, -⟩ := blocks (pending.started + timeout + 1)
  rw [eq'] at eq''
  cases eq''
  rw [held'] at held''
  cases held''
  have now := late (first + (pending.started + timeout + 1))
  omega

/-- Every command of every run is proper, and statistics that stay away lead to the full capacity.
A target above the capacity is only sent to a VM that reports even more memory than that. -/
theorem commands_proper (daemon : Daemon) :
    (∀ scans, Runs.Along daemon.step
      (fun seen scan => ∀ command, daemon.sends seen scan = some command →
        daemon.Proper seen scan command) .start scans) ∧
    ∀ pid, daemon.Eligible pid → ∀ (scans : Nat → Scan) (snapshots : Nat → Snapshot),
      (∀ k, daemon.Silent pid (scans k) (snapshots k)) →
      (∀ k, (scans k).checked < (scans (k + 1)).checked) → ∀ start,
      ∃ k, daemon.Restores (scans k) (snapshots k) (daemon.states start scans k) := by
  constructor
  · intro scans
    have kept : ∀ seen scan, daemon.Counted seen → True → daemon.Counted (daemon.step seen scan) :=
      fun _ scan counted _ => counted.step scan
    exact Runs.along_of_invariant kept (fun _ _ counted _ _ sent => sends_proper counted sent)
      Counted.start (Runs.along_true Seen.start scans)
  · intro pid eligible scans snapshots silent advances start
    exact eventually_restores eligible silent advances start

end Daemon

/-! ## Two VMs -/

def runningStatus : Option Value := some (.object [("status", .string "running")])

/-- A QEMU with a capacity of 1 GiB, this much memory and this much of it available, both in MiB. -/
def reports (actual available : Nat) (lastUpdate : Nat) : Qmp where
  queryStatus := runningStatus
  queryMigrate := some (.object [])
  queryMemorySizeSummary := some (.object [("base-memory", .number (1024 * mib : Nat))])
  queryBalloon := some (.object [("actual", .number (actual * mib : Nat))])
  guestStats := some (.object [("last-update", .number lastUpdate),
    ("stats", .object [("stat-available-memory", .number (available * mib : Nat))])])

def scanAt (qmp : Qmp) (time : Nat) : Scan := ⟨some 7, qmp, some time, time, time, time, time⟩

def quick : Daemon where
  policy := { confirmSamples := 1 }

/-- A QEMU that reports 4 GiB in use of 1 GiB is told to go down to 3.5 GiB. -/
theorem quick_above_capacity :
    quick.sends (Runs.run quick.step .start [scanAt (reports 4096 4000 100) 100])
      (scanAt (reports 4096 4000 101) 101) = some ⟨3584 * mib, .reclaim, true⟩ ∧
    (observe (reports 4096 4000 101)).map Snapshot.capacity = .ok (1024 * mib) := by
  decide +kernel

/-- A VM whose balloon holds half of its memory and whose statistics have stopped. -/
theorem quick_restores :
    ∃ k, quick.Restores (scanAt (reports 512 100 1) (k + 100))
      ⟨1024 * mib, 512 * mib, some (100 * mib), 1⟩
      (quick.states none (fun k => scanAt (reports 512 100 1) (k + 100)) k) := by
  refine (Daemon.commands_proper quick).2 7 ⟨rfl, rfl, rfl, by decide⟩ _ (fun _ => _) ?_ ?_ none
  · intro k
    have observed : observe (reports 512 100 1) =
        .ok ⟨1024 * mib, 512 * mib, some (100 * mib), 1⟩ := by decide +kernel
    refine ⟨rfl, observed, rfl, ⟨k + 100, rfl, .inr ?_⟩, by decide +kernel⟩
    refine decide_eq_false ?_
    rintro ⟨-, -, recent⟩
    have recent : k + 100 - 1 ≤ 20 := recent
    omega
  · intro k
    exact Nat.lt_succ_self _

end Collei.Balloon

import KernelNotes.Lib.Run
import KernelNotes.SimpleFs.Discard

/-!
# Block lifetimes under the journal

The allocator, the journal and the two discard paths as one system with an
active JBD2 journal. Every bitmap change belongs to the running transaction.
`close` seals it, `commitDone` makes the sealed transaction durable, and
`forceCommit` is `simplefs_journal_force_commit` with online discard. JBD2 and
the block-device cache may change the buffer heads at any time (`cache`).

Ghost state records what the code does not: the transaction of each block's most
recent `put_blocks`, the file that maps each block, and the file that last wrote
to it in its present lifetime.
-/

namespace SimpleFs.Lifetime

open Bits Space

/-- What `simplefs_journal_prepare_new_blocks` reads from an existing buffer head. -/
structure BufferHead where
  revoked : Bool
  transactionOwned : Bool
  deriving DecidableEq, Repr

/-- The bitmap and the block owners as one transaction saw them last. -/
structure Snapshot where
  free : BitMap
  owner : Nat → Option Nat

structure State where
  space : Space
  buffers : Nat → Option BufferHead
  running : Nat
  committed : Nat
  closing : Option Snapshot
  durable : Snapshot
  freedIn : Nat → Option Nat
  owner : Nat → Option Nat
  contents : Nat → Option Nat

/-- A block without a buffer head is not held back: the lookup is skipped. -/
def busy (s : State) : BitMap := fun b =>
  match s.buffers b with
  | none => false
  | some bh => bh.revoked || bh.transactionOwned

/-- The most recent free of the block is in a transaction that has not committed. -/
def Uncommitted (s : State) (b : Nat) : Prop := ∃ tid, s.freedIn b = some tid ∧ s.committed < tid

inductive Action where
  | free (bno len : Nat) (faults : HandleFaults)
  | retire (bno len : Nat) (forget : Option Nat) (faults : HandleFaults)
  | alloc (file len : Nat) (faults : HandleFaults)
  | allocExact (file bno len : Nat) (faults : HandleFaults)
  | write (file b : Nat)
  | cache (buffers : Nat → Option BufferHead)
  | close
  | commitDone
  | forceCommit (fails : Bool) (granularity : Nat) (budget : Option Nat)
  | trim (range : FstrimRange) (budget : Option Nat)

/-- The caller has dropped its pointers to the range in the same transaction. -/
def release (bno len : Nat) (faults : HandleFaults) (s : State) : State :=
  let put := putBlocks faults bno len s.space
  { s with
    space := put.2
    owner := fun b => if Within bno len b then none else s.owner b
    freedIn := fun b => if put.1 ∧ Within bno len b then some s.running else s.freedIn b }

/-- `jbd2_journal_revoke` of the first `len` blocks from `bno` on. -/
def revoke (bno len : Nat) (s : State) : State :=
  { s with
    buffers := fun b =>
      if Within bno len b then
        some ⟨true, ((s.buffers b).map BufferHead.transactionOwned).getD false⟩
      else s.buffers b }

/-- `simplefs_retire_metadata_blocks`: revoke the old metadata, then free. When the
revoke of block number `n` of the range fails, nothing is freed. -/
def retire (bno len : Nat) (forget : Option Nat) (faults : HandleFaults) (s : State) : State :=
  match forget with
  | none => release bno len faults (revoke bno len s)
  | some n => revoke bno (min n len) s

/-- The caller maps the range it was given and starts a new lifetime for it. -/
def give (file first len : Nat) (s : State) : State :=
  { s with
    owner := fun b => if Within first len b then some file else s.owner b
    contents := fun b => if Within first len b then none else s.contents b }

def alloc (file len : Nat) (faults : HandleFaults) (s : State) : State :=
  let got := getFreeBlocks (busy s) faults len s.space
  if got.1 = 0 then { s with space := got.2 } else give file got.1 len { s with space := got.2 }

def allocExact (file bno len : Nat) (faults : HandleFaults) (s : State) : State :=
  let got := takeExactBlocks (busy s) faults bno len s.space
  if got.1 then give file bno len { s with space := got.2 } else { s with space := got.2 }

def now (s : State) : Snapshot := ⟨s.space.bfreeBitmap, s.owner⟩

/-- Seal the running transaction and open the next one. -/
def close (s : State) : State :=
  match s.closing with
  | some _ => s
  | none => if s.space.sShutdown then s
      else { s with closing := some (now s), running := s.running + 1 }

/-- The sealed transaction is on disk. -/
def commitDone (s : State) : State :=
  match s.closing with
  | none => s
  | some snapshot => if s.space.sShutdown then s
      else { s with durable := snapshot, closing := none, committed := s.running - 1 }

/-- The journal part of `simplefs_journal_force_commit`: everything so far is durable. -/
def commitAll (s : State) : State :=
  { s with durable := now s, closing := none, committed := s.running, running := s.running + 1 }

/-- The state in which the step issues discards, and the ranges it issues. -/
def discards (s : State) : Action → State × List Space.Extent
  | .forceCommit fails granularity budget =>
    if fails || s.space.sShutdown then (s, [])
    else
      let durable := commitAll s
      (durable, (issuePendingDiscards granularity budget durable.space).1)
  | .trim range budget => (s, (trimFs false range budget s.space).2.1)
  | _ => (s, [])

def forceCommit (fails : Bool) (granularity : Nat) (budget : Option Nat) (s : State) : State :=
  if fails || s.space.sShutdown then { s with space := failIf fails s.space }
  else
    let durable := commitAll s
    { durable with space := (issuePendingDiscards granularity budget durable.space).2 }

def step (s : State) : Action → State
  | .free bno len faults => release bno len faults s
  | .retire bno len forget faults => retire bno len forget faults s
  | .alloc file len faults => alloc file len faults s
  | .allocExact file bno len faults => allocExact file bno len faults s
  | .write file b =>
    if s.owner b = some file then
      { s with contents := Function.update s.contents b (some file) }
    else s
  | .cache buffers => { s with buffers := buffers }
  | .close => close s
  | .commitDone => commitDone s
  | .forceCommit fails granularity budget => forceCommit fails granularity budget s
  | .trim _ _ => s

/-- A mounted image: everything in it is durable and nothing was freed since. -/
def mounted (space : Space) (owner : Nat → Option Nat)
    (buffers : Nat → Option BufferHead) : State where
  space := space
  buffers := buffers
  running := 1
  committed := 0
  closing := none
  durable := ⟨space.bfreeBitmap, owner⟩
  freedIn := fun _ => none
  owner := owner
  contents := fun _ => none

/-! ## The invariant -/

/-- A snapshot is still honoured: a file it knows still maps its block, or the block was
released and, if it is free again, then in a transaction after `tid`. -/
def Honoured (s : State) (tid : Nat) (snapshot : Snapshot) : Prop :=
  ∀ b file, snapshot.owner b = some file →
    (s.owner b = some file ∨
      (s.owner b = none ∧
        (s.space.bfreeBitmap b = true → ∃ later, s.freedIn b = some later ∧ tid < later))) ∧
    (s.contents b = none ∨ s.contents b = some file)

structure Inv (s : State) : Prop where
  order : s.committed < s.running
  unowned : ∀ b, s.space.bfreeBitmap b = true → s.owner b = none
  writer : ∀ b file, s.owner b = some file → s.contents b = none ∨ s.contents b = some file
  durable : Honoured s s.committed s.durable
  closing : ∀ snapshot, s.closing = some snapshot →
    s.committed + 1 < s.running ∧ Honoured s (s.running - 1) snapshot

theorem mounted_inv (space : Space) (owner : Nat → Option Nat)
    (buffers : Nat → Option BufferHead)
    (unowned : ∀ b, space.bfreeBitmap b = true → owner b = none) :
    Inv (mounted space owner buffers) where
  order := Nat.one_pos
  unowned := unowned
  writer _ _ _ := Or.inl rfl
  durable b file owned := ⟨Or.inl owned, Or.inl rfl⟩
  closing := by simp [mounted]

variable {s : State} {tid file first len : Nat} {snapshot : Snapshot} {space : Space}

theorem honoured_now (inv : Inv s) (tid : Nat) : Honoured s tid (now s) :=
  fun b file owned => ⟨Or.inl owned, inv.writer b file owned⟩

theorem Honoured.shrink (honoured : Honoured s tid snapshot) (shrinks : Shrinks s.space space) :
    Honoured { s with space := space } tid snapshot := by
  intro b file known
  obtain ⟨present, text⟩ := honoured b file known
  refine ⟨present.imp id fun gone => ⟨gone.1, fun free => gone.2 (shrinks.free b free)⟩, text⟩

theorem Inv.shrink (inv : Inv s) (shrinks : Shrinks s.space space) :
    Inv { s with space := space } where
  order := inv.order
  unowned b free := inv.unowned b (shrinks.free b free)
  writer := inv.writer
  durable := inv.durable.shrink shrinks
  closing snapshot sealed :=
    ⟨(inv.closing snapshot sealed).1, (inv.closing snapshot sealed).2.shrink shrinks⟩

/-- A block that is free and whose last free is old enough belongs to no one in the
snapshot, so it may be given to a new owner. -/
theorem Honoured.unknown (honoured : Honoured s tid snapshot) {b : Nat} (unowned : s.owner b = none)
    (free : s.space.bfreeBitmap b = true)
    (settled : ∀ later, s.freedIn b = some later → later ≤ tid) : snapshot.owner b = none := by
  cases known : snapshot.owner b with
  | none => rfl
  | some file =>
    exfalso
    rcases (honoured b file known).1 with same | ⟨_, reason⟩
    · rw [unowned] at same
      cases same
    · obtain ⟨later, freed, after⟩ := reason free
      have := settled later freed
      omega

theorem Honoured.give (honoured : Honoured s tid snapshot)
    (unknown : ∀ b, Within first len b → snapshot.owner b = none) :
    Honoured (give file first len s) tid snapshot := by
  intro b other known
  have outside : ¬ Within first len b := by
    intro inside
    rw [unknown b inside] at known
    cases known
  simpa only [Lifetime.give, if_neg outside] using honoured b other known

theorem Inv.give (inv : Inv s) {size : Nat} (shrinks : Shrinks s.space space)
    (taken : Taken (busy s) size first len s.space.bfreeBitmap space.bfreeBitmap)
    (settled : ∀ b, Within first len b → ¬ Uncommitted s b) :
    Inv (give file first len { s with space := space }) := by
  have old (b : Nat) (inside : Within first len b) (later : Nat)
      (freed : s.freedIn b = some later) : later ≤ s.committed := by
    by_contra recent
    exact settled b inside ⟨later, freed, by omega⟩
  have known (tid : Nat) (snapshot : Snapshot) (honoured : Honoured s tid snapshot)
      (after : s.committed ≤ tid) (b : Nat) (inside : Within first len b) :
      snapshot.owner b = none := by
    have free := taken.free b inside
    refine honoured.unknown (inv.unowned b free) free fun later freed => ?_
    have := old b inside later freed
    omega
  have smaller := inv.shrink shrinks
  refine ⟨inv.order, fun b free => ?_, fun b other owned => ?_, ?_, fun snapshot sealed => ?_⟩
  · have kept : clearRange s.space.bfreeBitmap first len b = true := taken.cleared ▸ free
    have outside := ((clearRange_eq_true _ _ _ _).1 kept).1
    simpa only [Lifetime.give, if_neg outside] using smaller.unowned b free
  · by_cases inside : Within first len b
    · exact Or.inl (by simp only [Lifetime.give, if_pos inside])
    · simp only [Lifetime.give, if_neg inside] at owned ⊢
      exact inv.writer b other owned
  · exact smaller.durable.give (known _ _ inv.durable le_rfl)
  · obtain ⟨early, honoured⟩ := inv.closing snapshot sealed
    exact ⟨early, (honoured.shrink shrinks).give (known _ _ honoured (by omega))⟩

theorem Honoured.release (honoured : Honoured s tid snapshot) (inv : Inv s)
    (before : tid < s.running) (bno len : Nat) (faults : HandleFaults) :
    Honoured (release bno len faults s) tid snapshot := by
  intro b file known
  obtain ⟨present, text⟩ := honoured b file known
  obtain ⟨_, _, refused, accepted⟩ := putBlocks_sound faults bno len s.space
  refine ⟨?_, text⟩
  cases put : (putBlocks faults bno len s.space).1 with
  | true =>
    have bits := (accepted put).1
    by_cases inside : Within bno len b
    · refine Or.inr ⟨by simp only [Lifetime.release, if_pos inside], fun _ => ⟨s.running, ?_, before⟩⟩
      simp only [Lifetime.release, put, inside, and_self, if_true]
    · simp only [Lifetime.release, inside, and_false, if_false, bits,
        setRange_of_outside _ inside]
      exact present
  | false =>
    have bits := refused put
    simp only [Lifetime.release, put, Bool.false_eq_true, false_and, if_false, bits]
    by_cases inside : Within bno len b
    · simp only [if_pos inside]
      refine Or.inr ⟨trivial, fun free => ?_⟩
      rcases present with owned | ⟨_, reason⟩
      · rw [inv.unowned b free] at owned
        cases owned
      · exact reason free
    · simp only [if_neg inside]
      exact present

theorem Inv.release (inv : Inv s) (bno len : Nat) (faults : HandleFaults) :
    Inv (release bno len faults s) := by
  obtain ⟨_, _, refused, accepted⟩ := putBlocks_sound faults bno len s.space
  refine ⟨inv.order, fun b free => ?_, fun b file owned => ?_,
    inv.durable.release inv inv.order bno len faults, fun snapshot sealed => ?_⟩
  · by_cases inside : Within bno len b
    · simp only [Lifetime.release, if_pos inside]
    · simp only [Lifetime.release, if_neg inside] at free ⊢
      refine inv.unowned b ?_
      cases put : (putBlocks faults bno len s.space).1 with
      | true => rwa [(accepted put).1, setRange_of_outside _ inside] at free
      | false => rwa [refused put] at free
  · by_cases inside : Within bno len b
    · simp only [Lifetime.release, if_pos inside] at owned
      cases owned
    · simp only [Lifetime.release, if_neg inside] at owned
      exact inv.writer b file owned
  · obtain ⟨early, honoured⟩ := inv.closing snapshot sealed
    exact ⟨early, honoured.release inv (show s.running - 1 < s.running by
      have := inv.order
      omega) bno len faults⟩

theorem Inv.revoke (inv : Inv s) (bno len : Nat) : Inv (revoke bno len s) :=
  ⟨inv.order, inv.unowned, inv.writer, inv.durable, inv.closing⟩

theorem Inv.retire (inv : Inv s) (bno len : Nat) (forget : Option Nat) (faults : HandleFaults) :
    Inv (retire bno len forget faults s) := by
  cases forget with
  | none => exact (inv.revoke bno len).release bno len faults
  | some n => exact inv.revoke bno (min n len)

theorem Inv.write (inv : Inv s) {b : Nat} (owned : s.owner b = some file) :
    Inv { s with contents := Function.update s.contents b (some file) } := by
  have text {tid : Nat} {snapshot : Snapshot} (honoured : Honoured s tid snapshot) :
      Honoured { s with contents := Function.update s.contents b (some file) } tid snapshot := by
    intro c other known
    obtain ⟨present, old⟩ := honoured c other known
    refine ⟨present, ?_⟩
    by_cases same : c = b
    · subst same
      rcases present with mine | ⟨none, _⟩
      · rw [owned, Option.some.injEq] at mine
        simp [mine]
      · rw [owned] at none
        cases none
    · simpa only [Function.update_of_ne same] using old
  refine ⟨inv.order, inv.unowned, fun c other mine => ?_, text inv.durable,
    fun snapshot sealed => ⟨(inv.closing snapshot sealed).1, text (inv.closing snapshot sealed).2⟩⟩
  by_cases same : c = b
  · subst same
    rw [owned, Option.some.injEq] at mine
    simp [mine]
  · simpa only [Function.update_of_ne same] using inv.writer c other mine

theorem Inv.close (inv : Inv s) : Inv (close s) := by
  rw [Lifetime.close]
  cases sealed : s.closing with
  | some snapshot => exact inv
  | none =>
    dsimp only
    split
    · exact inv
    · have order := inv.order
      refine ⟨by simp only; omega, inv.unowned, inv.writer, inv.durable, ?_⟩
      rintro _ ⟨⟩
      exact ⟨by simp only; omega, honoured_now inv _⟩

theorem Inv.commitDone (inv : Inv s) : Inv (commitDone s) := by
  rw [Lifetime.commitDone]
  cases sealed : s.closing with
  | none => exact inv
  | some snapshot =>
    dsimp only
    split
    · exact inv
    · have order := inv.order
      exact ⟨by simp only; omega, inv.unowned, inv.writer, (inv.closing snapshot sealed).2,
        by simp⟩

theorem Inv.commitAll (inv : Inv s) : Inv (commitAll s) :=
  ⟨Nat.lt_succ_self _, inv.unowned, inv.writer, honoured_now inv _, by simp [Lifetime.commitAll]⟩

theorem issuePendingDiscards_shrinks (granularity : Nat) (budget : Option Nat) (space : Space) :
    Shrinks space (issuePendingDiscards granularity budget space).2 := by
  rw [issuePendingDiscards]
  split
  · exact .refl space
  · exact ⟨⟨rfl, rfl, rfl, rfl⟩, fun _ free => free, fun up => up⟩

theorem Inv.forceCommit (inv : Inv s) (fails : Bool) (granularity : Nat) (budget : Option Nat) :
    Inv (forceCommit fails granularity budget s) := by
  rw [Lifetime.forceCommit]
  split
  · exact inv.shrink ⟨⟨rfl, rfl, rfl, rfl⟩, fun _ free => free, fun up => (failIf_up up).1⟩
  · exact inv.commitAll.shrink (issuePendingDiscards_shrinks _ _ _)

/-! ## Reuse -/

/-- No call returns a block whose last free is uncommitted. -/
def SafeAlloc (s : State) : Action → Prop
  | .alloc _ len faults =>
    let first := (getFreeBlocks (busy s) faults len s.space).1
    0 < first → ∀ b, Within first len b → ¬ Uncommitted s b
  | .allocExact _ bno len faults =>
    (takeExactBlocks (busy s) faults bno len s.space).1 = true →
      ∀ b, Within bno len b → ¬ Uncommitted s b
  | _ => True

/-- If the system stopped here, no file of the durable image would map a block that
another file has written since. -/
def Recoverable (s : State) : Prop :=
  ∀ b file, s.durable.owner b = some file → s.contents b = none ∨ s.contents b = some file

/-- The buffer heads still hold back every free block of the range whose last free is
uncommitted. -/
def HeldBack (s : State) (inRange : Nat → Prop) : Prop :=
  ∀ b, inRange b → s.space.bfreeBitmap b = true → Uncommitted s b → busy s b = true

/-- The condition on one step: at an allocation, the blocks it may choose from are held
back as long as their last free is uncommitted. -/
def Guarded (s : State) : Action → Prop
  | .alloc _ _ _ => HeldBack s fun _ => True
  | .allocExact _ bno len _ => HeldBack s (Within bno len)
  | _ => True

theorem Taken.settled {size : Nat} {after : BitMap} {inRange : Nat → Prop}
    (taken : Taken (busy s) size first len s.space.bfreeBitmap after) (held : HeldBack s inRange)
    (covers : ∀ b, Within first len b → inRange b) :
    ∀ b, Within first len b → ¬ Uncommitted s b := by
  intro b inside recent
  have stuck := held b (covers b inside) (taken.free b inside) recent
  rw [taken.calm b inside] at stuck
  cases stuck

theorem safeAlloc_of_guarded (s : State) (act : Action) (guarded : Guarded s act) :
    SafeAlloc s act := by
  cases act with
  | alloc file len faults =>
    intro found
    exact Taken.settled ((getFreeBlocks_sound (busy s) faults len s.space).2 found) guarded
      fun _ _ => trivial
  | allocExact file bno len faults =>
    intro found
    exact Taken.settled ((takeExactBlocks_sound (busy s) faults bno len s.space).2 found) guarded
      fun _ inside => inside
  | _ => trivial

theorem step_inv (s : State) (act : Action) (inv : Inv s) (safe : SafeAlloc s act) :
    Inv (step s act) := by
  cases act with
  | free bno len faults => exact inv.release bno len faults
  | retire bno len forget faults => exact inv.retire bno len forget faults
  | alloc file len faults =>
    obtain ⟨shrinks, taken⟩ := getFreeBlocks_sound (busy s) faults len s.space
    simp only [step, alloc]
    split
    · exact inv.shrink shrinks
    · rename_i found
      have positive := Nat.pos_of_ne_zero found
      exact inv.give shrinks (taken positive) (safe positive)
  | allocExact file bno len faults =>
    obtain ⟨shrinks, taken⟩ := takeExactBlocks_sound (busy s) faults bno len s.space
    simp only [step, allocExact]
    split
    · rename_i found
      exact inv.give shrinks (taken found) (safe found)
    · exact inv.shrink shrinks
  | write file b =>
    simp only [step]
    split
    · rename_i owned
      exact inv.write owned
    · exact inv
  | cache buffers => exact ⟨inv.order, inv.unowned, inv.writer, inv.durable, inv.closing⟩
  | close => exact inv.close
  | commitDone => exact inv.commitDone
  | forceCommit fails granularity budget => exact inv.forceCommit fails granularity budget
  | trim range budget => exact inv

/-- Along every run whose allocations find the uncommitted frees held back, no block is
reused before its release is durable, and a crash at the end loses no file's data to
another file. -/
theorem reuse_after_commit (space : Space) (owner : Nat → Option Nat)
    (buffers : Nat → Option BufferHead)
    (unowned : ∀ b, space.bfreeBitmap b = true → owner b = none) (acts : List Action)
    (guarded : Runs.Along step Guarded (mounted space owner buffers) acts) :
    Runs.Along step SafeAlloc (mounted space owner buffers) acts ∧
      Recoverable (Runs.run step (mounted space owner buffers) acts) := by
  have kept (s : State) (act : Action) (inv : Inv s) (ok : Guarded s act) : Inv (step s act) :=
    step_inv s act inv (safeAlloc_of_guarded s act ok)
  have start := mounted_inv space owner buffers unowned
  constructor
  · exact Runs.along_of_invariant kept (fun s act _ ok => safeAlloc_of_guarded s act ok) start
      guarded
  · intro b file known
    exact ((Runs.invariant_run kept start guarded).durable b file known).2

/-- Eight blocks: metadata up to the root directory in block 4, data in block 5, and
blocks 6 and 7 free. -/
def smallSpace : Space where
  nrBlocks := 8
  nrInodes := 8
  nrIstoreBlocks := 1
  nrIfreeBlocks := 1
  nrBfreeBlocks := 1
  bfreeBitmap := fun b => decide (b = 6 ∨ b = 7)
  ifreeBitmap := fun _ => false
  discardPending := fun _ => false
  nrFreeBlocks := 2
  nrFreeInodes := 0
  sDiscard := false
  sShutdown := false

/-- File 1 maps block 5. -/
def smallOwner : Nat → Option Nat := fun b => if b = 5 then some 1 else none

theorem smallOwner_unowned (b : Nat) (free : smallSpace.bfreeBitmap b = true) :
    smallOwner b = none := by
  simp only [smallSpace, decide_eq_true_eq] at free
  rw [smallOwner, if_neg (by omega)]

theorem smallSpace_freed (s : State) (freed : s.freedIn = fun b => if b = 5 then some 1 else none)
    (committed : s.committed = 1) (b : Nat) : ¬ Uncommitted s b := by
  rintro ⟨tid, when, recent⟩
  rw [freed] at when
  dsimp only at when
  split at when
  · rw [Option.some.injEq] at when
    omega
  · cases when

theorem freedIn_commit :
    (Runs.run step (mounted smallSpace smallOwner fun _ => none)
      [.free 5 1 {}, .close, .commitDone]).freedIn = fun b => if b = 5 then some 1 else none := by
  funext b
  have accepted : (putBlocks {} 5 1 smallSpace).1 = true := by decide
  have range : Within 5 1 b ↔ b = 5 := by
    rw [Within]
    omega
  show (if (putBlocks {} 5 1 smallSpace).1 = true ∧ Within 5 1 b then some 1 else none) = _
  simp only [accepted, range, true_and]

/-- Freed, committed, reused and written: nothing is lost. -/
theorem reuse_after_commit_small :
    Runs.Along step SafeAlloc (mounted smallSpace smallOwner fun _ => none)
        [.free 5 1 {}, .close, .commitDone, .alloc 2 1 {}, .write 2 5] ∧
      Recoverable (Runs.run step (mounted smallSpace smallOwner fun _ => none)
        [.free 5 1 {}, .close, .commitDone, .alloc 2 1 {}, .write 2 5]) :=
  reuse_after_commit smallSpace smallOwner (fun _ => none) smallOwner_unowned _
    ⟨trivial, trivial, trivial, fun b _ _ recent =>
      absurd recent (smallSpace_freed _ freedIn_commit rfl b), trivial, trivial⟩

/-- Block 5 is freed by file 1 and handed to file 2 before the free commits. After a
crash file 1 still maps it and finds file 2's data. -/
theorem reuse_before_commit_small :
    ¬ Runs.Along step SafeAlloc (mounted smallSpace smallOwner fun _ => none)
        [.free 5 1 {}, .alloc 2 1 {}, .write 2 5] ∧
      ¬ Recoverable (Runs.run step (mounted smallSpace smallOwner fun _ => none)
        [.free 5 1 {}, .alloc 2 1 {}, .write 2 5]) := by
  constructor
  · intro safe
    exact safe.2.1 (by decide) 5 (by decide) ⟨1, by decide, by decide⟩
  · intro recoverable
    have text := recoverable 5 1 (by decide)
    exact absurd text (by decide)

/-! ## Discard -/

/-- Every block the step discards is free, and its last free is committed. -/
def SafeDiscard (s : State) (act : Action) : Prop :=
  ∀ b, Covers (discards s act).2 b →
    (discards s act).1.space.bfreeBitmap b = true ∧ ¬ Uncommitted (discards s act).1 b

/-- The condition on one step: at a `FITRIM` call no free block of the requested window
was freed by an uncommitted transaction. -/
def Settled (s : State) : Action → Prop
  | .trim range _ => ∀ b, Within (trimWindow range s.space).1 (trimWindow range s.space).2 b →
      s.space.bfreeBitmap b = true → ¬ Uncommitted s b
  | _ => True

/-- No free is dated after the running transaction. -/
def Dated (s : State) : Prop := ∀ b tid, s.freedIn b = some tid → tid ≤ s.running

theorem Dated.release (dated : Dated s) (bno len : Nat) (faults : HandleFaults) :
    Dated (release bno len faults s) := by
  intro b tid freed
  simp only [Lifetime.release] at freed
  split at freed
  · rw [Option.some.injEq] at freed
    exact le_of_eq freed.symm
  · exact dated b tid freed

theorem Dated.mono {s' : State} (dated : Dated s) (same : s'.freedIn = s.freedIn)
    (later : s.running ≤ s'.running) : Dated s' := by
  intro b tid freed
  rw [same] at freed
  exact le_trans (dated b tid freed) later

theorem step_dated (s : State) (act : Action) (dated : Dated s) : Dated (step s act) := by
  cases act with
  | free bno len faults => exact dated.release bno len faults
  | retire bno len forget faults =>
    have revoked (n : Nat) : Dated (revoke bno n s) := dated
    cases forget with
    | none => exact (revoked len).release bno len faults
    | some n => exact revoked (min n len)
  | alloc file len faults =>
    simp only [step, alloc]
    split <;> exact dated.mono rfl le_rfl
  | allocExact file bno len faults =>
    simp only [step, allocExact]
    split <;> exact dated.mono rfl le_rfl
  | write file b =>
    simp only [step]
    split <;> exact dated.mono rfl le_rfl
  | cache buffers => exact dated.mono rfl le_rfl
  | close =>
    simp only [step, close]
    split
    · exact dated
    · split
      · exact dated
      · exact dated.mono rfl (Nat.le_succ _)
  | commitDone =>
    simp only [step, commitDone]
    split
    · exact dated
    · split <;> exact dated.mono rfl le_rfl
  | forceCommit fails granularity budget =>
    simp only [step, forceCommit]
    split
    · exact dated.mono rfl le_rfl
    · exact dated.mono rfl (Nat.le_succ _)
  | trim range budget => exact dated

theorem safeDiscard_step (s : State) (act : Action) (dated : Dated s) (settled : Settled s act) :
    SafeDiscard s act := by
  intro b covered
  cases act with
  | forceCommit fails granularity budget =>
    simp only [discards] at covered ⊢
    split at covered
    · obtain ⟨range, mem, _⟩ := covered
      simp at mem
    · rename_i fine
      rw [if_neg fine]
      rw [issuePendingDiscards] at covered
      split at covered
      · obtain ⟨range, mem, _⟩ := covered
        simp at mem
      · refine ⟨(pendingWalk_covers _ _ _ _ _ _ _ _ covered).2, ?_⟩
        rintro ⟨tid, freed, recent⟩
        exact absurd (dated b tid freed) (Nat.not_le.2 recent)
  | trim range budget =>
    obtain ⟨free, inside⟩ := trimFs_covers _ _ _ _ _ covered
    exact ⟨free, settled b inside free⟩
  | _ =>
    obtain ⟨range, mem, _⟩ := covered
    simp [discards] at mem

/-- Along every run whose `FITRIM` calls find no uncommitted free in their window, only
free blocks with a committed release are discarded. -/
theorem discard_after_commit (space : Space) (owner : Nat → Option Nat)
    (buffers : Nat → Option BufferHead) (acts : List Action)
    (settled : Runs.Along step Settled (mounted space owner buffers) acts) :
    Runs.Along step SafeDiscard (mounted space owner buffers) acts :=
  Runs.along_of_invariant (fun s act dated _ => step_dated s act dated) safeDiscard_step
    (by simp [Dated, mounted]) settled

/-- Freed, committed and trimmed. -/
theorem discard_after_commit_small :
    Runs.Along step SafeDiscard (mounted smallSpace smallOwner fun _ => none)
      [.free 5 1 {}, .close, .commitDone, .trim ⟨0, 32768, 0⟩ none] :=
  discard_after_commit smallSpace smallOwner (fun _ => none) _
    ⟨trivial, trivial, trivial, fun b _ _ =>
      smallSpace_freed _ freedIn_commit rfl b, trivial⟩

/-- `FITRIM` right after the free discards block 5, which the durable image still maps. -/
theorem discard_before_commit_small :
    ¬ Runs.Along step SafeDiscard (mounted smallSpace smallOwner fun _ => none)
      [.free 5 1 {}, .trim ⟨0, 32768, 0⟩ none] := by
  intro safe
  have block := safe.2.1 5 ⟨(5, 3), by decide, by decide⟩
  exact block.2 ⟨1, by decide, by decide⟩

end SimpleFs.Lifetime

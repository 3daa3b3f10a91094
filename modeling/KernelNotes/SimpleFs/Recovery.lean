import KernelNotes.Lib.RedoLog
import KernelNotes.Lib.Run
import KernelNotes.SimpleFs.Basic

/-!
# The recovery marker over mounts, commits, crashes and unmounts

One image is mounted and unmounted any number of times, with or without its
JBD2 journal. The on-disk `s_needs_recovery` is meant to say that the log may
still hold committed transactions. Every function that reads or writes it is
here: `simplefs_journal_set_needs_recovery`, `simplefs_journal_load`, the
mount-option part of `simplefs_fill_super`, and `simplefs_put_super`.

JBD2 is used through its contract. A commit is atomic and durable. A checkpoint
drops transactions whose blocks are home. Loading replays the log and empties
it. Destroying a journal empties its log only if it was loaded and not aborted,
because an unloaded journal is created in the aborted state.

`latest` is a ghost: the metadata as the last durable writer left it.
-/

namespace SimpleFs.Recovery

open RedoLog

/-- The values of `s_journal_mode`. -/
inductive JournalMode where
  | default | disable | noRecovery
  deriving DecidableEq, Repr

/-- A committed transaction: its block images, and the marker in its image of the
superblock when it has one. -/
structure Tx where
  writes : List (Nat × Nat)
  marker : Option Bool
  deriving DecidableEq, Repr

/-- What is on the device. -/
structure Image where
  needsRecovery : Bool
  journalPresent : Bool
  home : Nat → Nat
  log : List Tx

/-- The block writes that replay would perform. -/
def Image.pending (image : Image) : List (Nat × Nat) := image.log.flatMap Tx.writes

/-- The mounted file system, as far as the journal is concerned. `jbd2` says that
`j_jbd2` is set, which after a mount means that the journal was loaded. -/
structure Mount where
  journalMode : JournalMode
  rdonly : Bool
  devRo : Bool
  jbd2 : Bool
  sNeedsRecovery : Bool
  sShutdown : Bool
  deriving DecidableEq, Repr

/-- The running transaction, and whether it includes the superblock. -/
structure Running where
  writes : List (Nat × Nat) := []
  superblock : Bool := false

structure World where
  image : Image
  mount : Option Mount
  running : Running
  latest : Nat → Nat

/-! ## JBD2 -/

def replayTx (image : Image) (tx : Tx) : Image :=
  { image with
    home := redo image.home tx.writes
    needsRecovery := tx.marker.getD image.needsRecovery }

/-- Replay the oldest `count` transactions; the log itself is not touched yet. -/
def replay (image : Image) (count : Nat) : Image := (image.log.take count).foldl replayTx image

/-- `jbd2_journal_force_commit`. The image of the superblock is the page-cache one,
whose marker is the in-core marker. -/
def forceCommit (m : Mount) (w : World) : World :=
  { w with
    image := { w.image with
      log := w.image.log ++
        [⟨w.running.writes, if w.running.superblock then some m.sNeedsRecovery else none⟩] }
    running := {}
    latest := redo w.latest w.running.writes }

/-- Bring the blocks selected by `chosen` home at their newest committed version. -/
def writeHome (chosen : Nat → Bool) (image : Image) : Image :=
  { image with
    home := fun b => if chosen b then redo image.home image.pending b else image.home b }

/-- Checkpoint the oldest `count` transactions. -/
def checkpoint (count : Nat) (image : Image) : Image :=
  let old := keys ((image.log.take count).flatMap Tx.writes)
  { writeHome (fun b => decide (b ∈ old)) image with log := image.log.drop count }

/-- `jbd2_journal_flush`: commit what is running and checkpoint everything. -/
def journalFlush (m : Mount) (w : World) : World :=
  let committed := forceCommit m w
  { committed with image := checkpoint committed.image.log.length committed.image }

/-! ## The marker, mount and unmount -/

/-- `simplefs_journal_set_needs_recovery`. A failed write leaves `found` on the medium. -/
def setNeedsRecovery (inCore dirty devRo : Bool) (found : Option Bool) (image : Image) :
    Image × Except Errno Bool :=
  if inCore == dirty then (image, .ok inCore)
  else if devRo then (image, .error .erofs)
  else match found with
    | none => ({ image with needsRecovery := dirty }, .ok dirty)
    | some bit => ({ image with needsRecovery := bit }, .error .eio)

/-- The options and the device of one mount. -/
structure MountOpts where
  nojournal : Bool := false
  norecovery : Bool := false
  rdonly : Bool := false
  devRo : Bool := false
  deriving DecidableEq, Repr

/-- Where a mount can fail: allocation, `jbd2_journal_init_dev`, recovery after some
number of transactions, the marker write, and anything after the journal is up. -/
structure MountFaults where
  kzalloc : Bool := false
  initDev : Fault := none
  load : Option Nat := none
  marker : Option Bool := none
  late : Fault := none

/-- The end of `simplefs_journal_load`: replay the log, then set or clear the marker.
The in-core marker was read before the replay. -/
def loadAndMark (opts : MountOpts) (faults : MountFaults) (image : Image) :
    Image × Except Errno (Bool × Bool) :=
  match faults.load with
  | some count => (replay image count, .error .eio)
  | none =>
    let recovered := { replay image image.log.length with log := [] }
    let inCore := image.needsRecovery
    if !opts.rdonly || inCore then
      match setNeedsRecovery inCore (!opts.rdonly) opts.devRo faults.marker recovered with
      | (written, .ok marker) => (written, .ok (true, marker))
      | (written, .error err) => (written, .error err)
    else (recovered, .ok (true, inCore))

/-- `simplefs_journal_load`: the new values of `j_jbd2` and of the in-core marker. -/
def journalLoad (mode : JournalMode) (opts : MountOpts) (faults : MountFaults) (image : Image) :
    Image × Except Errno (Bool × Bool) :=
  if mode == .disable || !image.journalPresent then (image, .ok (false, image.needsRecovery))
  else if faults.kzalloc then (image, .error .enomem)
  else match faults.initDev with
    | some err => (image, .error err)
    | none =>
      if mode == .noRecovery then (image, .ok (false, image.needsRecovery))
      else if opts.devRo then
        if image.needsRecovery then (image, .error .erofs) else (image, .ok (false, false))
      else loadAndMark opts faults image

/-- `simplefs_fill_super`, after the block layer has refused a writable mount of a
write-protected device. A late failure destroys a journal whose log is empty. -/
def fillSuper (opts : MountOpts) (faults : MountFaults) (image : Image) :
    Image × Except Errno Mount :=
  if !opts.rdonly && opts.devRo then (image, .error .eacces)
  else if opts.norecovery && !opts.rdonly then (image, .error .einval)
  else
    let mode : JournalMode :=
      if opts.nojournal then .disable else if opts.norecovery then .noRecovery else .default
    match journalLoad mode opts faults image, faults.late with
    | (loaded, .error err), _ => (loaded, .error err)
    | (loaded, .ok _), some err => (loaded, .error err)
    | (loaded, .ok (jbd2, marker)), none =>
      (loaded, .ok ⟨mode, opts.rdonly, opts.devRo, jbd2, marker, false⟩)

/-- Where an unmount can fail, and whether the journal is aborted by then. -/
structure UnmountFaults where
  sync : Fault := none
  write : Fault := none
  checkpoint : Fault := none
  marker : Option Bool := none
  aborted : Bool := false

/-- `simplefs_sync_fs` with `wait`: commit with a journal, write through without. -/
def syncFs (m : Mount) (w : World) : World := if m.jbd2 then forceCommit m w else w

/-- The branch of `simplefs_put_super` that marks the image clean. Without a
journal, `simplefs_journal_checkpoint` succeeds and does nothing. -/
def markClean (faults : UnmountFaults) (m : Mount) (w : World) : World :=
  match faults.sync, faults.write, faults.checkpoint with
  | some _, _, _ => w
  | none, some _, _ => syncFs m w
  | none, none, some _ => syncFs m w
  | none, none, none =>
    let stable := if m.jbd2 then journalFlush m (syncFs m w) else syncFs m w
    { stable with
      image := (setNeedsRecovery m.sNeedsRecovery false m.devRo faults.marker stable.image).1 }

/-- `simplefs_put_super`. -/
def putSuper (faults : UnmountFaults) (m : Mount) (w : World) : World :=
  let synced :=
    if !m.rdonly && !m.sShutdown && m.journalMode != .noRecovery then markClean faults m w else w
  let destroyed :=
    if m.jbd2 && !m.sShutdown && !faults.aborted then journalFlush m synced else synced
  { destroyed with mount := none, running := {} }

/-! ## Runs -/

inductive Action where
  | mount (opts : MountOpts) (faults : MountFaults)
  | dirty (writes : List (Nat × Nat)) (superblock : Bool)
  | commit
  | writeBack (blocks : List Nat)
  | checkpoint (count : Nat)
  | shutdown
  | unmount (faults : UnmountFaults)
  | crash

/-- A metadata change: it joins the running transaction, or goes straight home when
there is no journal. -/
def dirtyMetadata (m : Mount) (writes : List (Nat × Nat)) (superblock : Bool) (w : World) : World :=
  if m.rdonly || m.sShutdown then w
  else if m.jbd2 then
    { w with running := ⟨w.running.writes ++ writes, w.running.superblock || superblock⟩ }
  else { w with
    image := { w.image with home := redo w.image.home writes }
    latest := redo w.latest writes }

/-- The journal is writable and takes part in commits and checkpoints. -/
def Mount.journaling (m : Mount) : Bool := m.jbd2 && !m.rdonly && !m.sShutdown

def mounted (m : Mount) (w : World) : Action → World
  | .mount _ _ => w
  | .dirty writes superblock => dirtyMetadata m writes superblock w
  | .commit => if m.journaling then forceCommit m w else w
  | .writeBack blocks =>
    if m.jbd2 then { w with image := writeHome (fun b => decide (b ∈ blocks)) w.image } else w
  | .checkpoint count =>
    if m.journaling then { w with image := SimpleFs.Recovery.checkpoint count w.image } else w
  | .shutdown => { w with mount := some { m with sShutdown := true }, running := {} }
  | .unmount faults => putSuper faults m w
  | .crash => { w with mount := none, running := {} }

def step (w : World) (act : Action) : World :=
  match w.mount with
  | some m => mounted m w act
  | none =>
    match act with
    | .mount opts faults =>
      match fillSuper opts faults w.image with
      | (image, .ok m) => { w with image := image, mount := some m, running := {} }
      | (image, .error _) => { w with image := image }
    | _ => w

/-- The image `mkfs` writes, with any metadata in it. -/
def mkfs (journalPresent : Bool) (home : Nat → Nat) : World where
  image := ⟨false, journalPresent, home, []⟩
  mount := none
  running := {}
  latest := home

/-! ## The invariant -/

/-- The image agrees with the ghost: replay would reach the latest metadata, a clear
marker means an empty log, and no logged superblock would clear the marker. -/
structure ImageInv (image : Image) (latest : Nat → Nat) : Prop where
  current : redo image.home image.pending = latest
  marked : image.needsRecovery = false → image.log = []
  images : ∀ tx ∈ image.log, tx.marker ≠ some false
  absent : image.journalPresent = false → image.log = []

/-- A writable mount either journals under a set marker or has no log to respect. -/
structure MountInv (m : Mount) (image : Image) : Prop where
  journaled : m.jbd2 = true → m.rdonly = false →
    image.needsRecovery = true ∧ m.sNeedsRecovery = true
  present : m.jbd2 = true → image.journalPresent = true
  direct : m.jbd2 = false → m.rdonly = false → image.log = []

structure Inv (w : World) : Prop where
  image : ImageInv w.image w.latest
  mount : ∀ m, w.mount = some m → MountInv m w.image

variable {image before after : Image} {latest : Nat → Nat} {m : Mount} {w : World}
  {opts : MountOpts} {mode : JournalMode}

theorem ImageInv.of_empty (empty : image.log = []) (home : image.home = latest) :
    ImageInv image latest where
  current := by simp [Image.pending, empty, home]
  marked _ := empty
  images := by simp [empty]
  absent _ := empty

theorem ImageInv.home_of_empty (inv : ImageInv image latest) (empty : image.log = []) :
    image.home = latest := by
  simpa [Image.pending, empty] using inv.current

theorem foldl_replayTx (image : Image) (txs : List Tx) :
    (txs.foldl replayTx image).home = redo image.home (txs.flatMap Tx.writes) ∧
      (txs.foldl replayTx image).log = image.log ∧
      (txs.foldl replayTx image).journalPresent = image.journalPresent := by
  induction txs generalizing image with
  | nil => simp
  | cons tx rest ih =>
    obtain ⟨home, log, present⟩ := ih (replayTx image tx)
    refine ⟨?_, log, present⟩
    rw [List.foldl_cons, home, List.flatMap_cons, redo_append]
    rfl

theorem foldl_replayTx_marker (image : Image) (txs : List Tx)
    (images : ∀ tx ∈ txs, tx.marker ≠ some false) (set : image.needsRecovery = true) :
    (txs.foldl replayTx image).needsRecovery = true := by
  induction txs generalizing image with
  | nil => exact set
  | cons tx rest ih =>
    apply ih
    · intro later listed
      exact images later (List.mem_cons_of_mem tx listed)
    · have first := images tx List.mem_cons_self
      cases mark : tx.marker with
      | none => simp [replayTx, mark, set]
      | some bit => cases bit <;> simp_all [replayTx]

theorem pending_split (image : Image) (count : Nat) :
    image.pending = (image.log.take count).flatMap Tx.writes ++
      (image.log.drop count).flatMap Tx.writes := by
  rw [← List.flatMap_append, List.take_append_drop]
  rfl

theorem replay_inv (inv : ImageInv image latest) (count : Nat) :
    ImageInv (replay image count) latest := by
  obtain ⟨home, log, present⟩ := foldl_replayTx image (image.log.take count)
  refine ⟨?_, ?_, ?_, ?_⟩
  · rw [← inv.current]
    have same : (replay image count).pending = image.pending := by
      simp only [Image.pending, replay, log]
    rw [same]
    refine redo_suffix image.home _ [] image.pending ?_
    intro k unwritten
    have early : k ∉ keys ((image.log.take count).flatMap Tx.writes) := by
      rw [pending_split image count, keys, List.map_append, List.mem_append] at unwritten
      exact fun mem => unwritten (Or.inl mem)
    rw [List.nil_append, redo_of_not_mem _ _ unwritten]
    simp only [replay, home, redo_of_not_mem _ _ early]
  · intro clear
    cases before : image.needsRecovery with
    | false =>
      have empty := inv.marked before
      simp [replay, empty]
    | true =>
      have still := foldl_replayTx_marker image (image.log.take count)
        (fun tx mem => inv.images tx (List.mem_of_mem_take mem)) before
      exact absurd clear (by simp [replay, still])
  · intro tx mem
    exact inv.images tx (by simpa only [replay, log] using mem)
  · intro gone
    have empty := inv.absent (by simpa only [replay, present] using gone)
    simpa only [replay, log] using empty

theorem replay_all_home (inv : ImageInv image latest) :
    (replay image image.log.length).home = latest := by
  rw [replay, (foldl_replayTx image _).1, List.take_length]
  exact inv.current

theorem writeHome_inv (inv : ImageInv image latest) (chosen : Nat → Bool) :
    ImageInv (writeHome chosen image) latest := by
  refine ⟨?_, inv.marked, inv.images, inv.absent⟩
  rw [← inv.current]
  refine redo_suffix image.home _ [] image.pending ?_
  intro k unwritten
  simp only [writeHome, List.nil_append, redo_of_not_mem _ _ unwritten, ite_self]

theorem checkpoint_current (image : Image) (count : Nat) :
    redo (checkpoint count image).home (checkpoint count image).pending =
      redo image.home image.pending := by
  rw [pending_split image count]
  refine redo_suffix image.home _ _ _ ?_
  intro k unwritten
  by_cases old : k ∈ keys ((image.log.take count).flatMap Tx.writes)
  · simp only [checkpoint, writeHome, old, decide_true, if_true, pending_split image count]
    rfl
  · rw [redo_append, redo_of_not_mem _ _ unwritten, redo_of_not_mem _ _ old]
    simp only [checkpoint, writeHome, old, decide_false, Bool.false_eq_true, if_false]

theorem checkpoint_inv (inv : ImageInv image latest) (count : Nat) :
    ImageInv (checkpoint count image) latest where
  current := (checkpoint_current image count).trans inv.current
  marked clear := by simp [checkpoint, inv.marked clear]
  images tx mem := inv.images tx (List.mem_of_mem_drop mem)
  absent gone := by simp [checkpoint, inv.absent gone]

theorem forceCommit_current (inv : redo w.image.home w.image.pending = w.latest) :
    redo (forceCommit m w).image.home (forceCommit m w).image.pending =
      (forceCommit m w).latest := by
  simp only [forceCommit, Image.pending, List.flatMap_append, List.flatMap_cons,
    List.flatMap_nil, List.append_nil, redo_append]
  exact congrArg (fun store => redo store w.running.writes) inv

theorem journalFlush_empty (inv : ImageInv w.image w.latest) :
    (journalFlush m w).image.log = [] ∧
      (journalFlush m w).image.home = (journalFlush m w).latest := by
  have empty : (journalFlush m w).image.log = [] := by simp [journalFlush, checkpoint]
  refine ⟨empty, ?_⟩
  have reached := checkpoint_current (forceCommit m w).image (forceCommit m w).image.log.length
  have drained : (journalFlush m w).image.pending = [] := by
    simp [Image.pending, empty]
  change redo (journalFlush m w).image.home (journalFlush m w).image.pending = _ at reached
  rw [drained, redo_nil, forceCommit_current inv.current] at reached
  exact reached

theorem setNeedsRecovery_frame (inCore dirty devRo : Bool) (found : Option Bool) (image : Image) :
    (setNeedsRecovery inCore dirty devRo found image).1.log = image.log ∧
      (setNeedsRecovery inCore dirty devRo found image).1.home = image.home ∧
      (setNeedsRecovery inCore dirty devRo found image).1.journalPresent =
        image.journalPresent := by
  unfold setNeedsRecovery
  split_ifs
  · exact ⟨rfl, rfl, rfl⟩
  · exact ⟨rfl, rfl, rfl⟩
  · cases found <;> exact ⟨rfl, rfl, rfl⟩

/-- What a successful `journalLoad` returns, for a mount the checks before it let through. -/
structure Loaded (mode : JournalMode) (opts : MountOpts) (before after : Image)
    (latest : Nat → Nat) (jbd2 marker : Bool) : Prop where
  recovered : jbd2 = true → after.log = [] ∧ after.home = latest
  present : jbd2 = true → after.journalPresent = true
  dirty : jbd2 = true → opts.rdonly = false → after.needsRecovery = true ∧ marker = true
  untouched : jbd2 = false → after = before
  unlogged : jbd2 = false → opts.rdonly = false → mode = .disable ∨ before.journalPresent = false

theorem recovered_marker (inv : ImageInv image latest) {found : Option Bool} {written : Image}
    {marker : Bool} (writable : opts.rdonly = false)
    (wrote : setNeedsRecovery image.needsRecovery (!opts.rdonly) opts.devRo found { replay image image.log.length with log := [] } = (written, .ok marker)) :
    written.needsRecovery = true ∧ marker = true := by
  cases before : image.needsRecovery with
  | true =>
    simp only [setNeedsRecovery, writable, before, Bool.not_false, beq_self_eq_true, if_true,
      Prod.mk.injEq, Except.ok.injEq] at wrote
    obtain ⟨rfl, rfl⟩ := wrote
    exact ⟨foldl_replayTx_marker image _
      (fun tx mem => inv.images tx (List.mem_of_mem_take mem)) before, rfl⟩
  | false =>
    cases fixed : opts.devRo <;> cases found <;>
      simp [setNeedsRecovery, writable, before, fixed] at wrote
    obtain ⟨rfl, rfl⟩ := wrote
    exact ⟨rfl, rfl⟩

/-- The image stays sound whatever a load returns, and a success is as `Loaded` says. -/
def LoadSound (mode : JournalMode) (opts : MountOpts) (before : Image) (latest : Nat → Nat)
    (out : Image × Except Errno (Bool × Bool)) : Prop :=
  ImageInv out.1 latest ∧
    ∀ jbd2 marker, out.2 = .ok (jbd2, marker) → Loaded mode opts before out.1 latest jbd2 marker

theorem LoadSound.of_error (inv : ImageInv after latest) (err : Errno) :
    LoadSound mode opts before latest (after, .error err) :=
  ⟨inv, by simp⟩

theorem LoadSound.of_skip (inv : ImageInv image latest) (marker : Bool)
    (unlogged : opts.rdonly = false → mode = .disable ∨ image.journalPresent = false) :
    LoadSound mode opts image latest (image, .ok (false, marker)) := by
  refine ⟨inv, ?_⟩
  rintro _ _ ⟨⟩
  exact ⟨by simp, by simp, by simp, fun _ => rfl, fun _ => unlogged⟩

theorem LoadSound.of_replay {marker : Bool} (empty : after.log = []) (home : after.home = latest)
    (present : after.journalPresent = true)
    (dirty : opts.rdonly = false → after.needsRecovery = true ∧ marker = true) :
    LoadSound mode opts before latest (after, .ok (true, marker)) := by
  refine ⟨ImageInv.of_empty empty home, ?_⟩
  rintro _ _ ⟨⟩
  exact ⟨fun _ => ⟨empty, home⟩, fun _ => present, fun _ => dirty, by simp, by simp⟩

theorem loadAndMark_sound {faults : MountFaults} (inv : ImageInv image latest)
    (present : image.journalPresent = true) :
    LoadSound mode opts image latest (loadAndMark opts faults image) := by
  have home := replay_all_home inv
  have still : (replay image image.log.length).journalPresent = true :=
    (foldl_replayTx image _).2.2.trans present
  have frame := setNeedsRecovery_frame image.needsRecovery (!opts.rdonly) opts.devRo
    faults.marker { replay image image.log.length with log := [] }
  unfold loadAndMark
  cases faults.load with
  | some count => exact .of_error (replay_inv inv count) _
  | none =>
    dsimp only
    split
    · split
      · rename_i written marker wrote
        rw [wrote] at frame
        exact .of_replay frame.1 (frame.2.1.trans home) (frame.2.2.trans still)
          fun writable => recovered_marker inv writable wrote
      · rename_i written err wrote
        rw [wrote] at frame
        exact .of_error (.of_empty frame.1 (frame.2.1.trans home)) err
    · rename_i quiet
      exact .of_replay rfl home still fun writable => by simp [writable] at quiet

/-- The whole of `journalLoad`, for a mount that passed the earlier checks. -/
theorem journalLoad_sound {mode : JournalMode} {opts : MountOpts} {faults : MountFaults}
    {image : Image} {latest : Nat → Nat} (inv : ImageInv image latest)
    (forensic : mode = .noRecovery → opts.rdonly = true)
    (protect : opts.devRo = true → opts.rdonly = true) :
    LoadSound mode opts image latest (journalLoad mode opts faults image) := by
  unfold journalLoad
  split
  · rename_i off
    exact .of_skip inv _ fun _ => by simpa using off
  rename_i on
  split
  · exact .of_error inv _
  cases faults.initDev with
  | some err => exact .of_error inv err
  | none =>
    dsimp only
    split
    · rename_i only
      exact .of_skip inv _ fun writable => by simp [forensic (by simpa using only)] at writable
    split
    · rename_i fixed
      split
      · exact .of_error inv _
      · exact .of_skip inv _ fun writable => by simp [protect fixed] at writable
    · simp only [Bool.or_eq_true, not_or, Bool.not_eq_true', Bool.not_eq_false] at on
      exact loadAndMark_sound inv on.2

/-- A writable mount without the journal needs an image whose marker is clear. -/
def CleanIfUnjournaled (opts : MountOpts) (image : Image) : Prop :=
  opts.nojournal = true → opts.rdonly = false → image.needsRecovery = false

instance (opts : MountOpts) (image : Image) : Decidable (CleanIfUnjournaled opts image) :=
  inferInstanceAs (Decidable (_ → _ → _))

/-- A mount leaves a sound image. If it succeeds, a journaled mount sees the latest
metadata and so does one that skips replay under a clear marker. -/
def MountSound (opts : MountOpts) (before : Image) (latest : Nat → Nat)
    (out : Image × Except Errno Mount) : Prop :=
  ImageInv out.1 latest ∧
    ∀ m, out.2 = .ok m → (CleanIfUnjournaled opts before → MountInv m out.1) ∧
      (m.jbd2 = true ∨ before.needsRecovery = false → out.1.home = latest)

theorem MountSound.of_error (inv : ImageInv after latest) (err : Errno) :
    MountSound opts before latest (after, .error err) :=
  ⟨inv, by simp⟩

theorem fillSuper_sound {opts : MountOpts} {faults : MountFaults} {image : Image}
    {latest : Nat → Nat} (inv : ImageInv image latest) :
    MountSound opts image latest (fillSuper opts faults image) := by
  unfold fillSuper
  split
  · exact .of_error inv _
  rename_i admitted
  split
  · exact .of_error inv _
  rename_i allowed
  dsimp only
  generalize choice : (if opts.nojournal = true then JournalMode.disable
    else if opts.norecovery = true then .noRecovery else .default) = mode
  have forensic : mode = .noRecovery → opts.rdonly = true := by
    rintro rfl
    cases ro : opts.rdonly <;> cases nr : opts.norecovery <;> cases nj : opts.nojournal <;>
      simp_all
  have disabled : mode = .disable → opts.nojournal = true := by
    rintro rfl
    cases nj : opts.nojournal <;> cases nr : opts.norecovery <;> simp_all
  have protect : opts.devRo = true → opts.rdonly = true := by
    intro fixed
    simpa [fixed] using admitted
  have sound := @journalLoad_sound mode opts faults image latest inv forensic protect
  generalize journalLoad mode opts faults image = out at sound
  obtain ⟨after, result⟩ := out
  cases result with
  | error err => exact .of_error sound.1 err
  | ok pair =>
    obtain ⟨jbd2, marker⟩ := pair
    cases faults.late with
    | some err => exact .of_error sound.1 err
    | none =>
      have loaded := sound.2 jbd2 marker rfl
      refine ⟨sound.1, ?_⟩
      rintro _ ⟨⟩
      refine ⟨fun clean => ⟨loaded.dirty, loaded.present, fun off writable => ?_⟩, ?_⟩
      · rw [loaded.untouched off]
        rcases loaded.unlogged off writable with direct | gone
        · exact inv.marked (clean (disabled direct) writable)
        · exact inv.absent gone
      · rintro seen
        cases on : jbd2 with
        | true => exact (loaded.recovered on).2
        | false =>
          have before : image.needsRecovery = false := by simpa [on] using seen
          rw [loaded.untouched on]
          exact inv.home_of_empty (inv.marked before)

theorem forceCommit_inv (inv : ImageInv w.image w.latest)
    (dirty : w.image.needsRecovery = true ∧ m.sNeedsRecovery = true)
    (present : w.image.journalPresent = true) :
    ImageInv (forceCommit m w).image (forceCommit m w).latest where
  current := forceCommit_current inv.current
  marked clear := by simp [forceCommit, dirty.1] at clear
  images tx mem := by
    simp only [forceCommit, List.mem_append, List.mem_singleton] at mem
    rcases mem with old | rfl
    · exact inv.images tx old
    · cases w.running.superblock <;> simp [dirty.2]
  absent gone := by simp [forceCommit, present] at gone

theorem journalFlush_inv (inv : ImageInv w.image w.latest) :
    ImageInv (journalFlush m w).image (journalFlush m w).latest :=
  .of_empty (journalFlush_empty inv).1 (journalFlush_empty inv).2

theorem syncFs_inv (inv : ImageInv w.image w.latest) (mountInv : MountInv m w.image)
    (writable : m.rdonly = false) : ImageInv (syncFs m w).image (syncFs m w).latest := by
  unfold syncFs
  split
  · rename_i on
    exact forceCommit_inv inv (mountInv.journaled on writable) (mountInv.present on)
  · exact inv

/-- Marking the image clean finds an empty log, with a journal because it was just
flushed and without one because the mount had none to respect. -/
theorem markClean_inv {faults : UnmountFaults} (inv : ImageInv w.image w.latest)
    (mountInv : MountInv m w.image) (writable : m.rdonly = false) :
    ImageInv (markClean faults m w).image (markClean faults m w).latest := by
  have synced := syncFs_inv inv mountInv writable
  unfold markClean
  split
  · exact inv
  · exact synced
  · exact synced
  · dsimp only
    have frame (image : Image) :=
      setNeedsRecovery_frame m.sNeedsRecovery false m.devRo faults.marker image
    split
    · have flushed := journalFlush_empty (m := m) synced
      exact .of_empty ((frame _).1.trans flushed.1) ((frame _).2.1.trans flushed.2)
    · rename_i off
      rw [Bool.not_eq_true] at off
      have empty := mountInv.direct off writable
      have same : syncFs m w = w := by simp [syncFs, off]
      rw [same]
      exact .of_empty ((frame _).1.trans empty)
        ((frame _).2.1.trans (inv.home_of_empty empty))

theorem putSuper_inv {faults : UnmountFaults} (inv : ImageInv w.image w.latest)
    (mountInv : MountInv m w.image) : Inv (putSuper faults m w) := by
  refine ⟨?_, by simp [putSuper]⟩
  unfold putSuper
  dsimp only
  generalize choice : (if !m.rdonly && !m.sShutdown && m.journalMode != .noRecovery then
    markClean faults m w else w) = synced
  have sound : ImageInv synced.image synced.latest := by
    subst choice
    split
    · rename_i clean
      simp only [Bool.and_eq_true, Bool.not_eq_true'] at clean
      exact markClean_inv inv mountInv clean.1.1
    · exact inv
  split
  · exact journalFlush_inv sound
  · exact sound

theorem dirtyMetadata_inv (inv : Inv w) (here : w.mount = some m) (writes : List (Nat × Nat))
    (superblock : Bool) : Inv (dirtyMetadata m writes superblock w) := by
  unfold dirtyMetadata
  split
  · exact inv
  rename_i active
  split
  · exact ⟨inv.image, inv.mount⟩
  · rename_i off
    simp only [Bool.or_eq_true, not_or, Bool.not_eq_true] at active off
    have empty := (inv.mount m here).direct off active.1
    refine ⟨.of_empty empty ?_, fun other there => ?_⟩
    · change redo w.image.home writes = redo w.latest writes
      rw [inv.image.home_of_empty empty]
    · have same := inv.mount other there
      exact ⟨same.journaled, same.present, same.direct⟩

theorem mounted_inv (inv : Inv w) (here : w.mount = some m) (act : Action) :
    Inv (mounted m w act) := by
  have mountInv := inv.mount m here
  cases act with
  | mount opts faults => exact inv
  | dirty writes superblock => exact dirtyMetadata_inv inv here writes superblock
  | commit =>
    simp only [mounted]
    split
    · rename_i on
      simp only [Mount.journaling, Bool.and_eq_true, Bool.not_eq_true'] at on
      have dirty := mountInv.journaled on.1.1 on.1.2
      refine ⟨forceCommit_inv inv.image dirty (mountInv.present on.1.1), fun other there => ?_⟩
      obtain rfl : m = other := Option.some.inj (here.symm.trans there)
      exact ⟨fun _ _ => dirty, mountInv.present, fun off => by simp [on.1.1] at off⟩
    · exact inv
  | writeBack blocks =>
    simp only [mounted]
    split
    · refine ⟨writeHome_inv inv.image _, fun other there => ?_⟩
      have same := inv.mount other there
      exact ⟨same.journaled, same.present, same.direct⟩
    · exact inv
  | checkpoint count =>
    simp only [mounted]
    split
    · refine ⟨checkpoint_inv inv.image count, fun other there => ?_⟩
      have same := inv.mount other there
      refine ⟨same.journaled, same.present, fun off writable => ?_⟩
      simp [SimpleFs.Recovery.checkpoint, same.direct off writable]
    · exact inv
  | shutdown =>
    refine ⟨inv.image, ?_⟩
    rintro other ⟨⟩
    exact ⟨mountInv.journaled, mountInv.present, mountInv.direct⟩
  | unmount faults => exact putSuper_inv inv.image mountInv
  | crash => exact ⟨inv.image, by simp [mounted]⟩

/-- The condition on one step: no writable mount without the journal while the marker
says that the log may be needed. -/
def Allowed (w : World) : Action → Prop
  | .mount opts _ => CleanIfUnjournaled opts w.image
  | _ => True

instance (w : World) : (act : Action) → Decidable (Allowed w act)
  | .mount opts _ => inferInstanceAs (Decidable (CleanIfUnjournaled opts w.image))
  | .dirty _ _ | .commit | .writeBack _ | .checkpoint _ | .shutdown | .unmount _ | .crash =>
    isTrue trivial

theorem step_inv (w : World) (act : Action) (inv : Inv w) (allowed : Allowed w act) :
    Inv (step w act) := by
  unfold step
  cases here : w.mount with
  | some m => exact mounted_inv inv here act
  | none =>
    cases act with
    | mount opts faults =>
      have sound := @fillSuper_sound opts faults w.image w.latest inv.image
      dsimp only
      split
      · rename_i image m mounted
        rw [mounted] at sound
        refine ⟨sound.1, ?_⟩
        rintro _ ⟨⟩
        exact (sound.2 m rfl).1 allowed
      · rename_i image err failed
        rw [failed] at sound
        exact ⟨sound.1, by simp⟩
    | _ => exact inv

/-- The marker is sound in one state of the image: clear means that the log is empty,
and a mount sees the latest metadata when it replays the log and when it skips replay
under a clear marker. -/
structure MarkerSound (w : World) : Prop where
  logEmpty : w.image.needsRecovery = false → w.image.log = []
  skipped : ∀ opts faults image m, fillSuper opts faults w.image = (image, .ok m) →
    m.jbd2 = false → w.image.needsRecovery = false → image.home = w.latest
  replayed : ∀ opts faults image m, fillSuper opts faults w.image = (image, .ok m) →
    m.jbd2 = true → image.home = w.latest

theorem Inv.markerSound (inv : Inv w) : MarkerSound w where
  logEmpty := inv.image.marked
  skipped opts faults image m mount _ clear := by
    have sound := @fillSuper_sound opts faults w.image w.latest inv.image
    rw [mount] at sound
    exact (sound.2 m rfl).2 (Or.inr clear)
  replayed opts faults image m mount on := by
    have sound := @fillSuper_sound opts faults w.image w.latest inv.image
    rw [mount] at sound
    exact (sound.2 m rfl).2 (Or.inl on)

theorem mkfs_inv (journalPresent : Bool) (home : Nat → Nat) : Inv (mkfs journalPresent home) :=
  ⟨.of_empty rfl rfl, by simp [mkfs]⟩

/-- From a fresh image, every history without a writable nojournal mount of a marked
image keeps the marker sound. -/
theorem markerSound_run (journalPresent : Bool) (home : Nat → Nat) (acts : List Action)
    (allowed : Runs.Along step Allowed (mkfs journalPresent home) acts) :
    MarkerSound (Runs.run step (mkfs journalPresent home) acts) :=
  (Runs.invariant_run step_inv (mkfs_inv journalPresent home) allowed).markerSound

/-- A commit, a crash, and a read-only mount that recovers. -/
theorem markerSound_crash_recover :
    MarkerSound (Runs.run step (mkfs true fun _ => 0)
      [.mount {} {}, .dirty [(1, 5)] true, .commit, .crash, .mount { rdonly := true } {},
        .unmount {}]) :=
  markerSound_run true (fun _ => 0) _ (by decide)

/-- A commit and a crash, then a writable nojournal mount and its clean unmount: the
marker is clear and the committed transaction is still only in the log. -/
theorem not_markerSound_nojournal :
    ¬ MarkerSound (Runs.run step (mkfs true fun _ => 0)
      [.mount {} {}, .dirty [(1, 5)] true, .commit, .crash, .mount { nojournal := true } {},
        .unmount {}]) := by
  intro sound
  have empty := sound.logEmpty (by decide)
  exact absurd empty (by decide)

end SimpleFs.Recovery

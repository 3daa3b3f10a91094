import KernelNotes.Collei.MigrateNbd
import KernelNotes.Lib.Run

/-!
# Which images `migrate_nbd` removes

The source directory of a migration follows from `storage_slot`, its target directory from
`which_qemu`. Launches, exits and migrations move the two independently. The images that
`prepare_target_images` removes are those of the running source QEMU exactly when the two
have come apart.
-/

namespace Collei

open Outcome

/-! ## What the discovery accepts -/

theorem relativeImage_ok {filename : FilePath} {directory : Slot} {relative : List String}
    (ok : relativeImage filename directory = .ok relative) : filename = .image directory relative := by
  cases filename with
  | elsewhere path => cases ok
  | image d parts =>
    rw [relativeImage] at ok
    split at ok
    · cases ok
    · rename_i same
      split at ok
      · cases ok
      · cases ok
        rw [not_not.mp same]

variable {source target : Slot} {disks : List MigratableDisk} {r : Run} {q : Qemu}

/-- A disk that passes the checks lies in the source directory, and goes to the same place of the
target directory. -/
theorem migratableDisk_ok {seen : List String} {qdev : String} {inserted : Inserted}
    {disk : MigratableDisk} (ok : migratableDisk source target seen qdev inserted = .ok disk) :
    ∃ relative, inserted.image.bind Image.filename = some (.image source relative) ∧
      disk.target = .image target relative := by
  rw [migratableDisk] at ok
  split at ok
  · cases ok
  split at ok
  · cases ok
  split at ok
  · cases ok
  split at ok
  · cases ok
  split at ok
  · cases ok
  rename_i image found
  split at ok
  · rename_i filename size named sized
    split at ok
    · cases ok
    cases inside : relativeImage filename source with
    | error e =>
      rw [inside] at ok
      cases ok
    | ok relative =>
      rw [inside] at ok
      cases ok
      rw [relativeImage_ok inside] at named
      exact ⟨relative, by rw [found]; exact named, rfl⟩
  · cases ok

theorem writableDisk_inserted {block : Block} {qdev : String} {inserted : Inserted}
    (writable : writableDisk block = some (qdev, inserted)) : block.inserted = some inserted := by
  rw [writableDisk] at writable
  split at writable
  · rename_i there _
    split at writable
    · cases writable
    · cases writable
      exact there
  · cases writable

theorem discoverFrom_ok {blocks : List Block} :
    ∀ {seen : List String} {disks : List MigratableDisk},
      discoverFrom source target seen blocks = .ok disks → ∀ disk ∈ disks, ∃ block ∈ blocks,
        ∃ relative, block.file = some (.image source relative) ∧
          disk.target = .image target relative := by
  induction blocks with
  | nil =>
    intro seen disks ok disk mem
    cases ok
    cases mem
  | cons block rest ih =>
    intro seen disks ok disk mem
    rw [discoverFrom] at ok
    split at ok
    · obtain ⟨b, inRest, found⟩ := ih ok disk mem
      exact ⟨b, List.mem_cons_of_mem _ inRest, found⟩
    · rename_i qdev inserted writable
      cases first : migratableDisk source target seen qdev inserted with
      | error e =>
        rw [first] at ok
        cases ok
      | ok d =>
        rw [first] at ok
        cases later : discoverFrom source target (d.nodeName :: seen) rest with
        | error e => simp [later, bind, Except.bind] at ok
        | ok ds =>
          have all : d :: ds = disks := by
            simpa [later, bind, Except.bind, pure, Except.pure] using ok
          subst all
          rcases List.mem_cons.mp mem with rfl | mem
          · obtain ⟨relative, file, goal⟩ := migratableDisk_ok first
            refine ⟨block, List.mem_cons_self, relative, ?_, goal⟩
            rw [Block.file, writableDisk_inserted writable]
            exact file
          · obtain ⟨b, inRest, found⟩ := ih later disk mem
            exact ⟨b, List.mem_cons_of_mem _ inRest, found⟩

/-- The disks found are some, and each is an image of the source directory that is to be copied to
the target directory. -/
theorem discoverMigratableDisks_ok {blocks : List Block}
    (ok : discoverMigratableDisks blocks source target = .ok disks) :
    disks ≠ [] ∧ ∀ disk ∈ disks, ∃ block ∈ blocks, ∃ relative,
      block.file = some (.image source relative) ∧ disk.target = .image target relative := by
  rw [discoverMigratableDisks] at ok
  cases found : discoverFrom source target [] blocks with
  | error e =>
    rw [found] at ok
    cases ok
  | ok all =>
    rw [found] at ok
    change (if all = [] then Except.error DiscoverError.noDisks else _) = _ at ok
    split at ok
    · cases ok
    · rename_i some
      cases ok
      constructor
      · intro none
        have length := congrArg List.length none
        rw [List.length_mergeSort] at length
        exact some (List.eq_nil_of_length_eq_zero length)
      · intro disk mem
        exact discoverFrom_ok found disk (List.mem_mergeSort.mp mem)

/-! ## What the action selects and removes -/

theorem targetStarts_of_not_began (idle : r.began = false) : targetStarts r = r := by
  simp [targetStarts, idle]

theorem ask_ends (idle : r.began = false) (turn : Turn) :
    Ends (fun _ r' => r = r') (fun _ r' => r = r') (ask turn r) := by
  have same : (if turn.starts then targetStarts r else r) = r := by
    rw [targetStarts_of_not_began idle, ite_self]
  simp only [ask, call, same, id_eq, ite_self]
  cases turn.fault <;> exact rfl

theorem queryBlock_ends (idle : r.began = false) (turn : Turn) (slot : Slot) :
    Ends (fun blocks r' => r = r' ∧ ∃ q, r.vm.qemu slot = some q ∧ q.disks.blocks = blocks)
      (fun _ r' => r = r') (queryBlock turn slot r) := by
  rw [queryBlock]
  refine Ends.bind _ (ask_ends idle turn) ?_
  rintro _ _ rfl
  refine Ends.bind (fun a s => r = s ∧ r = a) (Ends.pure ⟨rfl, rfl⟩) ?_
  rintro _ _ ⟨rfl, rfl⟩
  cases there : r.vm.qemu slot with
  | some q => exact Ends.pure ⟨rfl, q, rfl, rfl⟩
  | none => exact Ends.fail rfl

/-- The images to copy come from the one QEMU that is alive and from the directory of the storage
slot. -/
theorem selectDisks_ends (idle : r.began = false) (i : SelectInputs) :
    Ends (fun found r' => r = r' ∧ ∀ disks, found = some disks → (inspect r.vm).live = 1 ∧
        ∃ q, r.vm.qemu (inspect r.vm).whichQemu = some q ∧
          discoverMigratableDisks q.disks.blocks (inspect r.vm).storageSlot
            (inspect r.vm).whichQemu.other = .ok disks)
      (fun _ r' => r = r') (selectDisks i r) := by
  rw [selectDisks]
  refine Ends.refuse_bind (fun _ => rfl) fun _ => ?_
  refine Ends.refuse_bind (fun _ => rfl) fun _ => ?_
  refine Ends.bind (fun a s => r = s ∧ r = a) (Ends.pure ⟨rfl, rfl⟩) ?_
  rintro _ _ ⟨rfl, rfl⟩
  refine Ends.bind (fun _ s => r = s ∧ ((inspect r.vm).live != 1) = false)
    (Ends.refuse (fun one => ⟨rfl, one⟩) fun _ => rfl) ?_
  rintro _ _ ⟨rfl, one⟩
  split
  · refine Ends.bind _ (queryBlock_ends idle _ _) ?_
    rintro _ _ ⟨rfl, q, there, rfl⟩
    refine Ends.bind (fun disks s => r = s ∧ discoverMigratableDisks q.disks.blocks
      (inspect r.vm).storageSlot (inspect r.vm).whichQemu.other = .ok disks) ?_ ?_
    · refine Ends.lift ?_ fun _ _ => rfl
      intro disks ok
      split at ok
      · rename_i found
        cases ok
        exact ⟨rfl, found⟩
      · cases ok
    · rintro disks _ ⟨rfl, found⟩
      split
      · exact Ends.pure ⟨rfl, nofun⟩
      · refine Ends.pure ⟨rfl, ?_⟩
        rintro _ ⟨⟩
        exact ⟨by simpa using one, q, there, found⟩
  · exact Ends.pure ⟨rfl, nofun⟩

theorem call_ends (idle : r.began = false) (turn : Turn) (effect : Run → Run) :
    Ends (fun _ r' => r' = effect r) (fun _ r' => r' = r ∨ r' = effect r) (call turn effect r) := by
  have same : (if turn.starts then targetStarts r else r) = r := by
    rw [targetStarts_of_not_began idle, ite_self]
  simp only [call, same]
  cases turn.fault with
  | none => exact rfl
  | some e =>
    show _ ∨ _
    split
    · exact Or.inr rfl
    · exact Or.inl rfl

/-- Every file removed so far is the target of a disk, and nothing is removed in a dry run. -/
def RemovedOnly (dryRun : Bool) (disks : List MigratableDisk) (r : Run) : Prop :=
  r.began = false ∧ ∀ path ∈ r.unlinked, dryRun = false ∧ ∃ disk ∈ disks, disk.target = path

theorem RemovedOnly.unlinkImage {disk : MigratableDisk} (so : RemovedOnly false disks r)
    (mem : disk ∈ disks) : RemovedOnly false disks (unlinkImage disk.target r) := by
  refine ⟨so.1, ?_⟩
  intro path removed
  rcases List.mem_append.mp removed with before | now
  · exact so.2 path before
  · exact ⟨rfl, disk, mem, (List.mem_singleton.mp now).symm⟩

theorem RemovedOnly.call {dryRun : Bool} {effect : Run → Run}
    (same : ∀ r, RemovedOnly dryRun disks r → RemovedOnly dryRun disks (effect r)) (turn : Turn) :
    Keeps (RemovedOnly dryRun disks) (call turn effect) := by
  intro r so
  refine (call_ends so.1 turn effect).mono ?_ ?_
  · rintro _ _ rfl
    exact same r so
  · rintro _ _ (rfl | rfl)
    · exact so
    · exact same r so

theorem prepareTargetImages_go_keeps (c : PrepareCalls) (dryRun : Bool) (all : List MigratableDisk)
    (part : disks ⊆ all) :
    Keeps (RemovedOnly dryRun all) (prepareTargetImages.go c dryRun disks) := by
  induction disks with
  | nil => exact Keeps.pure ()
  | cons disk rest ih =>
    rw [prepareTargetImages.go]
    refine Keeps.bind ?_ fun _ => Keeps.bind ?_ fun _ => ih fun d mem => part (List.mem_cons_of_mem _ mem)
    · cases dryRun with
      | true => exact fun r so => Ends.given nofun fun _ => so
      | false =>
        exact Keeps.given (RemovedOnly.call (fun r so => so.unlinkImage (part List.mem_cons_self)) _)
    · exact RemovedOnly.call (fun _ so => so) _

theorem prepareTargetImages_keeps (c : PrepareCalls) (dryRun : Bool) (disks : List MigratableDisk) :
    Keeps (RemovedOnly dryRun disks) (prepareTargetImages c dryRun disks) :=
  Keeps.bind (Keeps.refuse _ _) fun _ => prepareTargetImages_go_keeps c dryRun disks (List.Subset.refl _)

theorem prepareTargetImages_go_all (disks : List MigratableDisk) (r : Run) :
    ((prepareTargetImages.go {} false disks r).2).unlinked =
      r.unlinked ++ disks.map MigratableDisk.target := by
  induction disks generalizing r with
  | nil => exact (List.append_nil _).symm
  | cons disk rest ih =>
    show ((prepareTargetImages.go {} false rest (unlinkImage disk.target r)).2).unlinked = _
    rw [ih]
    simp [unlinkImage]

/-! ## Histories -/

/-- What happens to the processes in a migration with shared images (`action_migrate`): the guest
passes from one process to the other, if it passes. -/
def Vm.localMigration (switches : Bool) (vm : Vm) : Vm :=
  match vm.migrateSource, vm.migrateTarget with
  | some source, some target =>
    if switches && vm.alive source && vm.alive target then
      (vm.setRunning source false).setRunning target true
    else vm
  | _, _ => vm

inductive Step where
  | launch (config : Config) (flags : List Flag) (disks : (slot : Slot) → Option (Disks slot))
  | localMigration (switches : Bool)
  | migrateNbd (i : Inputs)
  | exit (slot : Slot)

def step (vm : Vm) : Step → Vm
  | .launch config flags disks => (launch config flags disks vm).2
  | .localMigration switches => vm.localMigration switches
  | .migrateNbd i => (migrateNbd i (Run.begin vm fun _ => true)).2.vm
  | .exit slot => vm.exit slot

/-- A VM that was never launched. -/
def fresh : Vm := ⟨fun _ => none, none, none, none⟩

theorem Qemu.mem_openFiles {directory : Slot} {relative : List String}
    (opened : .image directory relative ∈ q.openFiles) : directory = q.images := by
  obtain ⟨block, mem, file⟩ := List.mem_filterMap.mp opened
  exact q.disks.inside block mem directory relative file

theorem Qemu.mem_openFiles_of_block {block : Block} {path : FilePath} (mem : block ∈ q.disks.blocks)
    (file : block.file = some path) : path ∈ q.openFiles :=
  List.mem_filterMap.mpr ⟨block, mem, file⟩

/-- The disks of a migration go to files that the source has open just in case the target directory
is the directory they are in. -/
theorem targets_closed_iff
    (found : discoverMigratableDisks q.disks.blocks source target = .ok disks) :
    (∀ disk ∈ disks, disk.target ∉ q.openFiles) ↔ source ≠ target := by
  obtain ⟨some, placed⟩ := discoverMigratableDisks_ok found
  constructor
  · rintro closed rfl
    obtain ⟨disk, mem⟩ := List.exists_mem_of_ne_nil disks some
    obtain ⟨block, there, relative, file, goal⟩ := placed disk mem
    apply closed disk mem
    rw [goal]
    exact Qemu.mem_openFiles_of_block there file
  · intro apart disk mem opened
    obtain ⟨block, there, relative, file, goal⟩ := placed disk mem
    rw [goal] at opened
    apply apart
    rw [Qemu.mem_openFiles opened]
    exact q.disks.inside block there source relative file

/-- `prepare_target_images` spares the images that the source has open, whatever fails, exactly
when the storage slot is the slot of the source, a dry run apart. -/
theorem prepareTargetImages_spares_iff {vm : Vm} {i : Inputs} {current : Slot → Bool}
    (selected : (selectDisks i.select (Run.begin vm current)).1 = .ok (some disks))
    (source : vm.qemu (inspect vm).whichQemu = some q) :
    (∀ (calls : PrepareCalls), ∀ path ∈ (prepareTargetImages calls i.dryRun disks
        (selectDisks i.select (Run.begin vm current)).2).2.unlinked, path ∉ q.openFiles) ↔
      (inspect vm).storageSlot = (inspect vm).whichQemu ∨ i.dryRun = true := by
  have spec := selectDisks_ends (r := Run.begin vm current) rfl i.select
  revert selected spec
  obtain ⟨result, r⟩ := selectDisks i.select (Run.begin vm current)
  rintro ⟨⟩ spec
  obtain ⟨rfl, picked⟩ := spec
  obtain ⟨_, q', source', found⟩ := picked disks rfl
  obtain rfl : q' = q := Option.some.inj (source'.symm.trans source)
  have closed := targets_closed_iff found
  constructor
  · intro spared
    by_cases dry : i.dryRun = true
    · exact Or.inr dry
    · left
      rw [Bool.not_eq_true] at dry
      have apart : ∀ disk ∈ disks, disk.target ∉ q'.openFiles := by
        intro disk mem
        apply spared {}
        rw [dry]
        show disk.target ∈ (prepareTargetImages.go {} false disks _).2.unlinked
        rw [prepareTargetImages_go_all]
        exact List.mem_append_right _ (List.mem_map_of_mem mem)
      exact by_contra fun different => closed.mp apart (Slot.eq_other_of_ne different)
  · intro fine calls path removed
    have only := (prepareTargetImages_keeps calls i.dryRun disks).state
      (s := Run.begin vm current) ⟨rfl, nofun⟩
    obtain ⟨wet, disk, mem, rfl⟩ := only.2 path removed
    rcases fine with same | dry
    · refine closed.mpr ?_ disk mem
      change (inspect vm).storageSlot ≠ (inspect vm).whichQemu.other
      rw [same]
      exact Slot.ne_other _
    · rw [wet] at dry
      cases dry

/-- No run of `prepare_target_images` in this step removes a file that the source has open. -/
def Spares (vm : Vm) : Step → Prop
  | .migrateNbd i => ∀ disks q,
      (selectDisks i.select (Run.begin vm fun _ => true)).1 = .ok (some disks) →
      vm.qemu (inspect vm).whichQemu = some q →
      ∀ (calls : PrepareCalls), ∀ path ∈ (prepareTargetImages calls i.dryRun disks
        (selectDisks i.select (Run.begin vm fun _ => true)).2).2.unlinked, path ∉ q.openFiles
  | _ => True

/-- A migration that gets as far as `prepare_target_images` does so with the storage slot that the
source is in, or is a dry run. -/
def Aligned (vm : Vm) : Step → Prop
  | .migrateNbd i =>
    (∃ disks, (selectDisks i.select (Run.begin vm fun _ => true)).1 = .ok (some disks)) →
    (inspect vm).storageSlot = (inspect vm).whichQemu ∨ i.dryRun = true
  | _ => True

theorem spares_iff_aligned (vm : Vm) (act : Step) : Spares vm act ↔ Aligned vm act := by
  cases act with
  | launch config flags disks => exact Iff.rfl
  | localMigration switches => exact Iff.rfl
  | exit slot => exact Iff.rfl
  | migrateNbd i =>
    constructor
    · rintro spares ⟨disks, selected⟩
      have spec := selectDisks_ends (r := Run.begin vm fun _ => true) rfl i.select
      obtain ⟨q, source⟩ : ∃ q, vm.qemu (inspect vm).whichQemu = some q := by
        revert selected spec
        obtain ⟨result, r⟩ := selectDisks i.select (Run.begin vm fun _ => true)
        rintro ⟨⟩ ⟨_, picked⟩
        obtain ⟨_, q, source, _⟩ := picked disks rfl
        exact ⟨q, source⟩
      exact (prepareTargetImages_spares_iff selected source).mp (spares disks q selected source)
    · intro aligned disks q selected source
      exact (prepareTargetImages_spares_iff selected source).mpr (aligned ⟨disks, selected⟩)

/-- One disk, in the file `disk` of the image directory. -/
def oneDisk (images : Slot) : Disks images where
  blocks := [⟨none, some "virtio0",
    some ⟨false, some "disk0", "qcow2", some ⟨some (.image images ["disk"]), some 1024⟩, false⟩⟩]
  inside := by
    intro b mem directory relative file
    rw [List.mem_singleton.mp mem] at file
    cases file
    rfl

def plain : Config := ⟨fun _ => false⟩

/-- A launch, a migration with shared images, the exit of the old QEMU and `migrate_nbd`: the guest
is in slot `t`, and its images are those of slot `s`. -/
def sharedThenExit : List Step :=
  [.launch plain [] fun slot => some (oneDisk slot), .launch plain [.a] fun slot => some (oneDisk slot),
    .localMigration true, .exit .s, .migrateNbd {}]

end Collei

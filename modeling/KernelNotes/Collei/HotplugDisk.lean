import KernelNotes.Collei.BlockMigration
import KernelNotes.Lib.Run

/-!
# Hot-plugged disks

`hotplug_disk` numbers its disks by a counter file; `unplug_disk` removes the disk with the number 0
and sets the counter back to 0, whatever other disks are plugged. `Tally` counts the actions: how many
disks were plugged since the last removal, and how many at most between two removals before that. The next
number is in use when it lies between the two.

Disks that belong to the VM from its start have other ids and are left out.
-/

namespace Collei.HotplugDisk

open Outcome

def diskId (n : Nat) : String := "hp_disk" ++ toString n

def driveId (n : Nat) : String := "hp_drive" ++ toString n

/-- The image file of a hot-plugged disk. -/
def imageName (n : Nat) : String := "hotplug" ++ toString n

structure Drive where
  id : String
  image : String
  deriving DecidableEq, Repr

structure Device where
  id : String
  scsiId : Nat
  drive : String
  deriving DecidableEq, Repr

/-- The counter file, the image files, and what was plugged into the running QEMU. -/
structure State where
  counter : Nat := 0
  images : List String := []
  drives : List Drive := []
  devices : List Device := []

/-- `drive_add`. QEMU refuses an id or an image that is in use. -/
def driveAdd (n : Nat) (s : State) : State :=
  if s.drives.any fun d => d.id == driveId n || d.image == imageName n then s
  else { s with drives := s.drives ++ [⟨driveId n, imageName n⟩] }

/-- `device_add`. QEMU refuses an id, a SCSI id or a drive that is in use, and a drive that is not there. -/
def deviceAdd (n : Nat) (s : State) : State :=
  if (s.devices.any fun d => d.id == diskId n || d.scsiId == n || d.drive == driveId n) ||
      !s.drives.any fun d => d.id == driveId n then s
  else { s with devices := s.devices ++ [⟨diskId n, n, driveId n⟩] }

/-- `device_del`: the device and its drive, if there is one with this id. -/
def deviceDel (id : String) (s : State) : State :=
  match s.devices.find? fun d => d.id == id with
  | none => s
  | some device =>
    { s with
      devices := s.devices.filter fun d => d.id != id
      drives := s.drives.filter fun d => d.id != device.drive }

/-- What becomes of a monitor command. A refusal is printed and otherwise ignored. -/
inductive Reply where
  | done
  | refused
  | failed
  deriving DecidableEq, Repr

def hmpCommand (reply : Reply) (effect : State → State) : Op State Raised Unit :=
  match reply with
  | .done => Op.update effect
  | .refused => pure ()
  | .failed => Op.fail .os

structure HotplugTurns where
  create : Bool := false
  drive : Reply := .done
  device : Reply := .done

/-- `action_hotplug_disk`. -/
def hotplugDisk (t : HotplugTurns) : Op State Raised Unit := do
  let s ← Op.read
  let counter := s.counter
  Op.update fun s => { s with counter := counter + 1 }
  Op.given (imageName counter ∉ s.images) do
    Op.refuse t.create .collei
    Op.update fun s => { s with images := s.images ++ [imageName counter] }
  hmpCommand t.drive (driveAdd counter)
  hmpCommand t.device (deviceAdd counter)

/-- `action_unplug_disk`. -/
def unplugDisk (fails : Bool) : Op State Raised Unit := do
  Op.refuse fails .os
  Op.update (deviceDel (diskId 0))
  Op.update fun s => { s with counter := 0 }

inductive Action where
  | hotplug (t : HotplugTurns)
  | unplug (fails : Bool)

def Action.exec : Action → Op State Raised Unit
  | .hotplug t => hotplugDisk t
  | .unplug fails => unplugDisk fails

def Action.step (s : State) (action : Action) : State := (action.exec s).2

/-- No plugged disk has the device id, the SCSI id, the drive id or the image that the next
`hotplug_disk` takes. -/
def Fresh (s : State) : Prop :=
  ∀ d ∈ s.devices, d.id ≠ diskId s.counter ∧ d.scsiId ≠ s.counter ∧ d.drive ≠ driveId s.counter ∧
    ∀ drive ∈ s.drives, drive.id = d.drive → drive.image ≠ imageName s.counter

/-! ## Numbers -/

variable {m n : Nat} {s : State} {t : Tally}

theorem diskId_inj : diskId m = diskId n ↔ m = n := by
  rw [diskId, diskId, String.append_right_inj]
  exact Nat.repr_inj

theorem driveId_inj : driveId m = driveId n ↔ m = n := by
  rw [driveId, driveId, String.append_right_inj]
  exact Nat.repr_inj

theorem imageName_inj : imageName m = imageName n ↔ m = n := by
  rw [imageName, imageName, String.append_right_inj]
  exact Nat.repr_inj

/-- The disk with a number. -/
def device (n : Nat) : Device := ⟨diskId n, n, driveId n⟩

def drive (n : Nat) : Drive := ⟨driveId n, imageName n⟩

/-- Every device and every drive has a number. -/
structure Numbered (s : State) : Prop where
  devices : ∀ d ∈ s.devices, ∃ n, d = device n
  drives : ∀ d ∈ s.drives, ∃ n, d = drive n

theorem device_inj : device m = device n ↔ m = n :=
  ⟨fun same => congrArg Device.scsiId same, congrArg device⟩

theorem drive_inj : drive m = drive n ↔ m = n :=
  ⟨fun same => driveId_inj.mp (congrArg Drive.id same), congrArg drive⟩

theorem Numbered.fresh_iff (numbered : Numbered s) : Fresh s ↔ device s.counter ∉ s.devices := by
  constructor
  · exact fun fresh mem => (fresh _ mem).2.1 rfl
  · intro absent d mem
    obtain ⟨n, rfl⟩ := numbered.devices d mem
    have other : n ≠ s.counter := fun same => absent (same ▸ mem)
    refine ⟨mt diskId_inj.mp other, other, mt driveId_inj.mp other, fun dr mem' here => ?_⟩
    obtain ⟨m, rfl⟩ := numbered.drives dr mem'
    obtain rfl := driveId_inj.mp here
    exact mt imageName_inj.mp other

theorem any_drive (numbered : Numbered s) (n : Nat) :
    (s.drives.any fun d => d.id == driveId n || d.image == imageName n) = true ↔ drive n ∈ s.drives := by
  rw [List.any_eq_true]
  constructor
  · rintro ⟨d, mem, hit⟩
    obtain ⟨m, rfl⟩ := numbered.drives d mem
    simp only [Bool.or_eq_true, beq_iff_eq, drive, driveId_inj, imageName_inj, or_self] at hit
    exact hit ▸ mem
  · exact fun mem => ⟨_, mem, by simp [drive]⟩

theorem any_device (numbered : Numbered s) (n : Nat) :
    (s.devices.any fun d => d.id == diskId n || d.scsiId == n || d.drive == driveId n) = true ↔
      device n ∈ s.devices := by
  rw [List.any_eq_true]
  constructor
  · rintro ⟨d, mem, hit⟩
    obtain ⟨m, rfl⟩ := numbered.devices d mem
    simp only [Bool.or_eq_true, beq_iff_eq, device, diskId_inj, driveId_inj, or_self] at hit
    exact hit ▸ mem
  · exact fun mem => ⟨_, mem, by simp [device]⟩

/-! ## One action -/

/-- What `hotplug_disk` does, however its commands end. -/
structure Plugged (s s' : State) : Prop where
  counter : s'.counter = s.counter + 1
  drives : s'.drives = s.drives ∨ s'.drives = s.drives ++ [drive s.counter]
  devices : s'.devices = s.devices ∨ s'.devices = s.devices ++ [device s.counter]

theorem driveAdd_cases (n : Nat) (s : State) :
    driveAdd n s = s ∨ driveAdd n s = { s with drives := s.drives ++ [drive n] } := by
  rw [driveAdd]
  split
  · exact .inl rfl
  · exact .inr rfl

theorem deviceAdd_cases (n : Nat) (s : State) :
    deviceAdd n s = s ∨ deviceAdd n s = { s with devices := s.devices ++ [device n] } := by
  rw [deviceAdd]
  split
  · exact .inl rfl
  · exact .inr rfl

theorem hmpCommand_ends (reply : Reply) (effect : State → State) (s : State) :
    Ends (fun _ s' => s' = s ∨ s' = effect s) (fun _ s' => s' = s) (hmpCommand reply effect s) := by
  cases reply with
  | done => exact .inr rfl
  | refused => exact .inl rfl
  | failed => exact rfl

theorem hotplugDisk_plugged (t : HotplugTurns) (s : State) : Plugged s (hotplugDisk t s).2 := by
  suffices ends : Ends (fun _ => Plugged s) (fun _ => Plugged s) (hotplugDisk t s) from ends.state
  rw [hotplugDisk]
  refine Ends.read_bind ?_
  let Counted (s' : State) : Prop :=
    s'.counter = s.counter + 1 ∧ s'.drives = s.drives ∧ s'.devices = s.devices
  have plugged : ∀ s', Counted s' → Plugged s s' :=
    fun s' counted => ⟨counted.1, .inl counted.2.1, .inl counted.2.2⟩
  refine Ends.bind (fun _ => Counted) (Ends.update ⟨rfl, rfl, rfl⟩) fun _ s₁ counted => ?_
  refine Ends.bind (fun _ => Counted) ?_ fun _ s₂ counted' => ?_
  · refine Ends.given (fun _ => ?_) fun _ => counted
    exact Ends.bind (fun _ => Counted) (Ends.refuse (fun _ => counted) fun _ => plugged s₁ counted)
      fun _ _ same => Ends.update same
  let Driven (s' : State) : Prop :=
    s'.counter = s.counter + 1 ∧ (s'.drives = s.drives ∨ s'.drives = s.drives ++ [drive s.counter]) ∧
      s'.devices = s.devices
  refine Ends.bind (fun _ => Driven)
    ((hmpCommand_ends _ _ s₂).mono (fun _ s₃ ran => ?_) fun _ _ ran => ran ▸ plugged s₂ counted') ?_
  · obtain ⟨counter, drives, devices⟩ := counted'
    rcases ran with rfl | rfl
    · exact ⟨counter, .inl drives, devices⟩
    · rcases driveAdd_cases s.counter s₂ with same | more
      · exact same.symm ▸ ⟨counter, .inl drives, devices⟩
      · exact more ▸ ⟨counter, .inr (drives ▸ rfl), devices⟩
  · rintro _ s₃ ⟨counter, drives, devices⟩
    have same : Plugged s s₃ := ⟨counter, drives, .inl devices⟩
    refine (hmpCommand_ends _ _ s₃).mono (fun _ s₄ ran => ?_) fun _ _ ran => ran ▸ same
    rcases ran with rfl | rfl
    · exact same
    · rcases deviceAdd_cases s.counter s₃ with same' | more
      · exact same'.symm ▸ same
      · exact more ▸ ⟨counter, drives, .inr (devices ▸ rfl)⟩

theorem mem_deviceDel (s : State) (n m : Nat) :
    device m ∈ (deviceDel (diskId n) s).devices ↔ device m ∈ s.devices ∧ m ≠ n := by
  rw [deviceDel]
  split
  · rename_i missing
    rw [List.find?_eq_none] at missing
    refine ⟨fun mem => ⟨mem, fun same => missing _ mem ?_⟩, And.left⟩
    exact beq_iff_eq.mpr (congrArg diskId same)
  · rw [List.mem_filter]
    simp only [device, bne_iff_ne, ne_eq, diskId_inj]

theorem Numbered.deviceDel (numbered : Numbered s) (id : String) : Numbered (deviceDel id s) := by
  rw [HotplugDisk.deviceDel]
  split
  · exact numbered
  · constructor
    · exact fun d mem => numbered.devices d (List.mem_of_mem_filter mem)
    · exact fun d mem => numbered.drives d (List.mem_of_mem_filter mem)

theorem Numbered.mem_drives_deviceDel (numbered : Numbered s) (plugged : device n ∈ s.devices)
    (m : Nat) :
    drive m ∈ (HotplugDisk.deviceDel (diskId n) s).drives ↔ drive m ∈ s.drives ∧ m ≠ n := by
  rw [HotplugDisk.deviceDel]
  split
  · rename_i missing
    rw [List.find?_eq_none] at missing
    exact absurd (beq_iff_eq.mpr rfl) (missing _ plugged)
  · rename_i found hit
    obtain ⟨k, rfl⟩ := numbered.devices found (List.mem_of_find?_eq_some hit)
    have named := List.find?_some hit
    have same : k = n := diskId_inj.mp (beq_iff_eq.mp named)
    rw [List.mem_filter]
    simp only [device, drive, bne_iff_ne, ne_eq, driveId_inj, same]

theorem Numbered.deviceDel_missing (numbered : Numbered s) (missing : device n ∉ s.devices) :
    HotplugDisk.deviceDel (diskId n) s = s := by
  rw [HotplugDisk.deviceDel]
  split
  · rfl
  · rename_i found hit
    have mem := List.mem_of_find?_eq_some hit
    obtain ⟨k, rfl⟩ := numbered.devices found mem
    have named := List.find?_some hit
    obtain rfl : k = n := diskId_inj.mp (beq_iff_eq.mp named)
    exact absurd mem missing

theorem Plugged.numbered {s' : State} (plugged : Plugged s s') (numbered : Numbered s) :
    Numbered s' := by
  constructor
  · intro d mem
    rcases plugged.devices with same | more
    · exact numbered.devices d (same ▸ mem)
    · rw [more, List.mem_append, List.mem_singleton] at mem
      exact mem.elim (numbered.devices d) fun last => ⟨_, last⟩
  · intro d mem
    rcases plugged.drives with same | more
    · exact numbered.drives d (same ▸ mem)
    · rw [more, List.mem_append, List.mem_singleton] at mem
      exact mem.elim (numbered.drives d) fun last => ⟨_, last⟩

theorem Plugged.mem_devices {s' : State} (plugged : Plugged s s') (mem : device n ∈ s'.devices) :
    device n ∈ s.devices ∨ n = s.counter := by
  rcases plugged.devices with same | more
  · exact .inl (same ▸ mem)
  · rw [more, List.mem_append, List.mem_singleton, device_inj] at mem
    exact mem

theorem Numbered.driveAdd (numbered : Numbered s) (n : Nat) :
    Numbered (HotplugDisk.driveAdd n s) := by
  rcases driveAdd_cases n s with same | more
  · rw [same]
    exact numbered
  · rw [more]
    refine ⟨numbered.devices, fun d mem => ?_⟩
    rw [List.mem_append, List.mem_singleton] at mem
    exact mem.elim (numbered.drives d) fun last => ⟨n, last⟩

theorem Numbered.mem_driveAdd (numbered : Numbered s) (n m : Nat) :
    drive m ∈ (HotplugDisk.driveAdd n s).drives ↔ drive m ∈ s.drives ∨ m = n := by
  rw [HotplugDisk.driveAdd]
  split
  · rename_i used
    have mem := (any_drive numbered n).mp used
    exact ⟨.inl, fun either => either.elim id fun same => same ▸ mem⟩
  · rw [List.mem_append, List.mem_singleton]
    exact or_congr_right drive_inj

theorem Numbered.mem_deviceAdd (numbered : Numbered s) (there : drive n ∈ s.drives) (m : Nat) :
    device m ∈ (deviceAdd n s).devices ↔ device m ∈ s.devices ∨ m = n := by
  have driven : (s.drives.any fun d => d.id == driveId n) = true :=
    List.any_eq_true.mpr ⟨_, there, beq_iff_eq.mpr rfl⟩
  rw [deviceAdd, driven, Bool.not_true, Bool.or_false]
  split
  · rename_i used
    have mem := (any_device numbered n).mp used
    exact ⟨.inl, fun either => either.elim id fun same => same ▸ mem⟩
  · rw [List.mem_append, List.mem_singleton]
    exact or_congr_right device_inj

theorem driveAdd_devices (n : Nat) (s : State) : (driveAdd n s).devices = s.devices := by
  rcases driveAdd_cases n s with same | more
  · rw [same]
  · rw [more]

theorem deviceAdd_drives (n : Nat) (s : State) : (deviceAdd n s).drives = s.drives := by
  rcases deviceAdd_cases n s with same | more
  · rw [same]
  · rw [more]

theorem hotplugDisk_clean (s : State) : ∃ images, (hotplugDisk {} s).2 =
    deviceAdd s.counter (driveAdd s.counter { s with counter := s.counter + 1, images := images }) := by
  by_cases missing : imageName s.counter ∉ s.images
  · refine ⟨s.images ++ [imageName s.counter], ?_⟩
    show ((Op.given _ _ >>= fun _ => _ : Op State Raised Unit) _).2 = _
    rw [Op.given, if_pos missing]
    rfl
  · refine ⟨s.images, ?_⟩
    show ((Op.given _ _ >>= fun _ => _ : Op State Raised Unit) _).2 = _
    rw [Op.given, if_neg missing]
    rfl

/-! ## Counting the actions -/

/-- The disks plugged since the last removal, and the most that were plugged between two removals
before that. -/
structure Tally where
  count : Nat := 0
  peak : Nat := 0
  deriving DecidableEq, Repr

def Tally.next (t : Tally) : Action → Tally
  | .hotplug _ => { t with count := t.count + 1 }
  | .unplug true => t
  | .unplug false => ⟨0, max t.peak t.count⟩

def tally (actions : List Action) : Tally := actions.foldl Tally.next {}

/-- The numbers that may be in use: all since the last removal, and all but 0 before that. -/
def Tally.Taken (t : Tally) (n : Nat) : Prop := n < t.count ∨ (1 ≤ n ∧ n < t.peak)

/-- The disks are among those that the actions account for. -/
structure Known (t : Tally) (s : State) : Prop where
  numbered : Numbered s
  counter : s.counter = t.count
  devices : ∀ n, device n ∈ s.devices → t.Taken n

theorem Known.step (known : Known t s) (action : Action) :
    Known (t.next action) (action.step s) := by
  cases action with
  | hotplug turns =>
    have plugged := hotplugDisk_plugged turns s
    refine ⟨plugged.numbered known.numbered, ?_, fun n mem => ?_⟩
    · exact plugged.counter.trans (congrArg (· + 1) known.counter)
    rcases plugged.mem_devices mem with old | last
    · exact (known.devices n old).imp_left Nat.lt_succ_of_lt
    · exact .inl (by rw [last, known.counter]; exact Nat.lt_succ_self _)
  | unplug fails =>
    cases fails with
    | true => exact known
    | false =>
      have left := known.numbered.deviceDel (diskId 0)
      refine ⟨⟨left.devices, left.drives⟩, rfl, fun n mem => .inr ?_⟩
      obtain ⟨old, positive⟩ := (mem_deviceDel s 0 n).mp mem
      have taken := known.devices n old
      rw [Tally.Taken] at taken
      show 1 ≤ n ∧ n < max t.peak t.count
      omega

/-- An action without a fault. -/
def Action.Clean : Action → Prop
  | .hotplug t => t = {}
  | .unplug fails => fails = false

/-- After actions without a fault, the disks are all those that the actions account for. -/
structure Full (t : Tally) (s : State) : Prop extends Known t s where
  plugged : ∀ n, t.Taken n → device n ∈ s.devices
  drives : ∀ n, drive n ∈ s.drives ↔ t.Taken n

theorem Full.step (full : Full t s) {action : Action} (clean : action.Clean) :
    Full (t.next action) (action.step s) := by
  have known := full.toKnown.step action
  cases action with
  | hotplug turns =>
    obtain rfl : turns = {} := clean
    obtain ⟨images, ran⟩ := hotplugDisk_clean s
    have numbered : Numbered { s with counter := s.counter + 1, images := images } :=
      ⟨full.numbered.devices, full.numbered.drives⟩
    have driven := numbered.mem_driveAdd s.counter
    have plugged := (numbered.driveAdd s.counter).mem_deviceAdd ((driven s.counter).mpr (.inr rfl))
    have taken (n : Nat) : (t.next (.hotplug {})).Taken n ↔ t.Taken n ∨ n = s.counter := by
      rw [full.counter]
      show (n < t.count + 1 ∨ 1 ≤ n ∧ n < t.peak) ↔ (n < t.count ∨ 1 ≤ n ∧ n < t.peak) ∨ n = t.count
      omega
    refine ⟨known, fun n mem => ?_, fun n => ?_⟩
    · rw [Action.step, Action.exec, ran, plugged, driveAdd_devices]
      exact ((taken n).mp mem).imp_left (full.plugged n)
    · rw [Action.step, Action.exec, ran, deviceAdd_drives, driven, taken]
      exact or_congr_left (full.drives n)
  | unplug fails =>
    obtain rfl : fails = false := clean
    have taken (n : Nat) : (t.next (.unplug false)).Taken n ↔ t.Taken n ∧ n ≠ 0 := by
      show (n < 0 ∨ 1 ≤ n ∧ n < max t.peak t.count) ↔ (n < t.count ∨ 1 ≤ n ∧ n < t.peak) ∧ n ≠ 0
      omega
    refine ⟨known, fun n mem => ?_, fun n => ?_⟩
    · show device n ∈ (deviceDel (diskId 0) s).devices
      rw [mem_deviceDel]
      exact ((taken n).mp mem).imp_left (full.plugged n)
    · show drive n ∈ (deviceDel (diskId 0) s).drives ↔ _
      rw [taken]
      by_cases first : device 0 ∈ s.devices
      · rw [full.numbered.mem_drives_deviceDel first]
        exact and_congr_left' (full.drives n)
      · rw [full.numbered.deviceDel_missing first, full.drives, iff_self_and]
        rintro mem rfl
        exact first (full.plugged 0 mem)

/-- The state `prepare_native_host` leaves: no disk is plugged yet, image files may be there. -/
def started (images : List String) : State := { images := images }

theorem not_taken_start (n : Nat) : ¬ Tally.Taken {} n := by
  show ¬ (n < 0 ∨ 1 ≤ n ∧ n < 0)
  omega

theorem started_full (images : List String) : Full {} (started images) := by
  constructor
  · constructor
    · exact ⟨fun _ mem => (nomatch mem), fun _ mem => (nomatch mem)⟩
    · rfl
    · exact fun _ mem => (nomatch mem)
  · exact fun n taken => absurd taken (not_taken_start n)
  · exact fun n => ⟨fun mem => (nomatch mem), fun taken => absurd taken (not_taken_start n)⟩

theorem Known.run (known : Known t s) (actions : List Action) :
    Known (actions.foldl Tally.next t) (Runs.run Action.step s actions) := by
  induction actions generalizing t s with
  | nil => exact known
  | cons action rest ih => exact ih (known.step action)

theorem Full.run (full : Full t s) {actions : List Action}
    (clean : ∀ action ∈ actions, action.Clean) :
    Full (actions.foldl Tally.next t) (Runs.run Action.step s actions) := by
  induction actions generalizing t s with
  | nil => exact full
  | cons action rest ih =>
    exact ih (full.step (clean action List.mem_cons_self)) fun later mem =>
      clean later (List.mem_cons_of_mem action mem)

/-- Some disk was plugged since the last removal, but fewer than once before. -/
def Tally.Behind (t : Tally) : Prop := 1 ≤ t.count ∧ t.count < t.peak

theorem Tally.taken_count (t : Tally) : t.Taken t.count ↔ t.Behind := by
  rw [Tally.Taken, Tally.Behind]
  omega

/-- What the next `hotplug_disk` takes is free unless the count is behind, whatever commands failed
before; and when no command failed, only then. -/
theorem hotplugDisk_fresh_iff (images : List String) (actions : List Action) :
    let s := Runs.run Action.step (started images) actions
    (¬ (tally actions).Behind → Fresh s) ∧
      ((∀ action ∈ actions, action.Clean) → (Fresh s ↔ ¬ (tally actions).Behind)) := by
  intro s
  have known : Known (tally actions) s := (started_full images).toKnown.run actions
  rw [known.numbered.fresh_iff, known.counter, ← Tally.taken_count]
  constructor
  · exact fun free mem => free (known.devices _ mem)
  · intro clean
    have full : Full (tally actions) s := (started_full images).run clean
    exact ⟨mt (full.plugged _), mt (known.devices _)⟩

/-- Two disks, one removal and a third disk, which takes the number 0. The next one would take the number 1
of the second disk, which is still there. -/
theorem hotplugDisk_collides :
    ¬ Fresh (Runs.run Action.step (started []) [.hotplug {}, .hotplug {}, .unplug false, .hotplug {}]) := by
  intro fresh
  have still : device 1 ∈ (Runs.run Action.step (started [])
      [.hotplug {}, .hotplug {}, .unplug false, .hotplug {}]).devices := by
    decide +kernel
  exact (fresh _ still).2.1 (by decide +kernel)

end Collei.HotplugDisk

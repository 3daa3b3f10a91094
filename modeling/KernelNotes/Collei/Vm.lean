import Mathlib

/-!
# A virtual machine with two slots

`runtime.py`, the launch part of `collei.py` and `launch_options.py`. A VM directory has two
slots, each of which can hold one QEMU process, and two image directories. Which QEMU is meant by
"the" QEMU of a VM (`which_qemu`) follows from the processes that are alive; which image directory
is meant (`image_directory`) follows from the file `storage_slot`. A launch derives both from
these and from its options.

The QEMU of a VM under Firecracker and the root pid file of the old layout, which no launch
writes, are left out.
-/

namespace Collei

inductive Slot where
  | s
  | t
  deriving DecidableEq, Repr

/-- `"t" if slot == "s" else "s"`. -/
def Slot.other : Slot → Slot
  | .s => .t
  | .t => .s

@[simp] theorem Slot.other_ne (slot : Slot) : slot.other ≠ slot := by
  cases slot <;> decide

@[simp] theorem Slot.ne_other (slot : Slot) : slot ≠ slot.other := by
  cases slot <;> decide

theorem Slot.eq_other_of_ne {a b : Slot} (different : a ≠ b) : a = b.other := by
  cases a <;> cases b <;> simp_all [Slot.other]

/-- A resolved path: below an image directory, `img` for slot `s` and `img-t` for slot `t`, or
somewhere else. -/
inductive FilePath where
  | image (directory : Slot) (relative : List String)
  | elsewhere (path : String)
  deriving DecidableEq, Repr

/-- The image directory of a path. -/
def FilePath.directory : FilePath → Option Slot
  | .image directory _ => some directory
  | .elsewhere _ => none

/-- The image metadata of a block node. -/
structure Image where
  filename : Option FilePath
  virtualSize : Option Nat
  deriving DecidableEq, Repr

/-- The medium of a block device, as `query-block` reports it. -/
structure Inserted where
  ro : Bool := false
  nodeName : Option String
  drv : String
  image : Option Image
  encrypted : Bool := false
  deriving DecidableEq, Repr

structure Block where
  device : Option String := none
  qdev : Option String
  inserted : Option Inserted
  deriving DecidableEq, Repr

/-- The file behind the device, if any. -/
def Block.file (b : Block) : Option FilePath := b.inserted.bind fun i => i.image.bind Image.filename

/-- The block devices of a QEMU that was launched on an image directory: its images come from that
directory and not from the other one. -/
structure Disks (images : Slot) where
  blocks : List Block
  inside : ∀ b ∈ blocks, ∀ directory relative,
    b.file = some (.image directory relative) → directory = images

/-- A QEMU process. `running` tells whether its guest runs. -/
structure Qemu where
  images : Slot
  disks : Disks images
  running : Bool

/-- The files a QEMU has open as images. -/
def Qemu.openFiles (q : Qemu) : List FilePath := q.disks.blocks.filterMap Block.file

/-- The processes and the state files of a VM. -/
structure Vm where
  qemu : Slot → Option Qemu
  storageFile : Option Slot
  migrateSource : Option Slot
  migrateTarget : Option Slot

/-- `_storage_slot`. -/
def Vm.storageSlot (vm : Vm) : Slot := vm.storageFile.getD .s

def Vm.alive (vm : Vm) (slot : Slot) : Bool := (vm.qemu slot).isSome

/-- The names of the slots with a live process, in the order in which they are looked at. -/
def liveQemuNames (vm : Vm) : List Slot := [.s, .t].filter vm.alive

/-- The part of `VmRuntime` that varies. -/
structure Runtime where
  whichQemu : Slot
  live : Nat
  storageSlot : Slot
  deriving DecidableEq, Repr

/-- `VmRuntime.inspect`. -/
def inspect (vm : Vm) : Runtime :=
  { whichQemu := (liveQemuNames vm).getLast?.getD vm.storageSlot
    live := (liveQemuNames vm).length
    storageSlot := vm.storageSlot }

/-! ## Launching -/

inductive Mode where
  | defer
  | file
  | cpr
  | cprTransfer
  deriving DecidableEq, Repr

/-- The options `-a`, `-l`, `-L`, `-T`, `--nbd-target` and `--dry-run`. -/
inductive Flag where
  | a
  | l
  | bigL
  | bigT
  | nbdTarget
  | dryRun
  deriving DecidableEq, Repr

structure LaunchOptions where
  dryRun : Bool
  migration : Option Mode
  nbdTarget : Bool
  deriving DecidableEq, Repr

/-- `LaunchOptions.parse`. Of several modes the first in the order of the branches counts. -/
def LaunchOptions.parse (flags : List Flag) : LaunchOptions :=
  { dryRun := decide (.dryRun ∈ flags)
    migration :=
      if .a ∈ flags ∨ .nbdTarget ∈ flags then some .defer
      else if .l ∈ flags then some .file
      else if .bigL ∈ flags then some .cpr
      else if .bigT ∈ flags then some .cprTransfer
      else none
    nbdTarget := decide (.nbdTarget ∈ flags) }

inductive LaunchError where
  | nbdTargetNeedsDefer
  | passthrough
  | noSource
  | twoRunning
  | alreadyRunning
  | alreadyLaunched
  deriving DecidableEq, Repr

/-- The options of `config.ini`, as far as they are asked for being enabled. -/
structure Config where
  enabled : String → Bool

/-- `validate_launch_options`. -/
def validateLaunchOptions (config : Config) (options : LaunchOptions) : Except LaunchError Unit :=
  if options.nbdTarget && decide (options.migration ≠ some .defer) then .error .nbdTargetNeedsDefer
  else if options.migration ≠ some .defer then .ok ()
  else if config.enabled "vfio" || config.enabled "sriov" then .error .passthrough
  else .ok ()

/-- `select_launch_runtime`: the slot and the storage slot of the new process. For a migration
target the two slots are noted in files. -/
def selectLaunchRuntime (options : LaunchOptions) (vm : Vm) : Except LaunchError Runtime × Vm :=
  let live := liveQemuNames vm
  let here := inspect vm
  match options.migration with
  | some .defer | some .cprTransfer =>
    match live with
    | [] => (.error .noSource, vm)
    | [source] =>
      let target := source.other
      let vm' := if options.dryRun then vm
        else { vm with migrateSource := some source, migrateTarget := some target }
      let storage := if options.nbdTarget then target else here.storageSlot
      (.ok { here with whichQemu := target, storageSlot := storage }, vm')
    | _ => (.error .twoRunning, vm)
  | some .file | some .cpr =>
    if live ≠ [] then (.error .alreadyRunning, vm)
    else (.ok { here with whichQemu := .s }, vm)
  | none =>
    if live ≠ [] ∧ options.dryRun = false then (.error .alreadyLaunched, vm)
    else (.ok here, vm)

/-- A launch. `disks` are the devices QEMU comes up with, if it comes up. A migration target waits
for its guest. -/
def launch (config : Config) (flags : List Flag) (disks : (slot : Slot) → Option (Disks slot))
    (vm : Vm) : Except LaunchError Unit × Vm :=
  let options := LaunchOptions.parse flags
  match validateLaunchOptions config options with
  | .error e => (.error e, vm)
  | .ok () =>
    match selectLaunchRuntime options vm with
    | (.error e, vm') => (.error e, vm')
    | (.ok runtime, vm') =>
      if options.dryRun then (.ok (), vm')
      else match disks runtime.storageSlot with
        | none => (.ok (), vm')
        | some d =>
          let waits := decide (options.migration = some .defer ∨ options.migration = some .cprTransfer)
          let process : Qemu := ⟨runtime.storageSlot, d, !waits⟩
          (.ok (), { vm' with
            qemu := Function.update vm'.qemu runtime.whichQemu (some process) })

/-- A process is gone. -/
def Vm.exit (slot : Slot) (vm : Vm) : Vm := { vm with qemu := Function.update vm.qemu slot none }

/-- `persist_storage_slot`. -/
def Vm.persistStorageSlot (slot : Slot) (vm : Vm) : Vm := { vm with storageFile := some slot }

/-- The guest of the process in a slot runs, or does not. -/
def Vm.setRunning (slot : Slot) (running : Bool) (vm : Vm) : Vm :=
  { vm with qemu := Function.update vm.qemu slot ((vm.qemu slot).map fun q => { q with running }) }

/-- The guest runs in this slot. -/
def Vm.running (vm : Vm) (slot : Slot) : Bool := (vm.qemu slot).any Qemu.running

end Collei

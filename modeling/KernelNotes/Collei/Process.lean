import KernelNotes.Collei.Vm

/-!
# The processes of a VM

`VmRuntime.inspect`, `qemu_directory` and `pid` of `runtime.py` look for the QEMUs of a VM in the
pid files of its directory: one in each slot, and one in the directory itself, where the old layout
had it. `inspect` takes a pid for alive when there is any process of that number.

A QEMU has its monitors in the directory of its pid file: `setup_pidfile` passes `monitor_dir /
"pid"`.
-/

namespace Collei.Process

/-- The directories of a VM that may hold a pid file. -/
inductive Place where
  | s
  | t
  | root
  deriving DecidableEq, Repr

/-- The order in which they are looked at. -/
def places : List Place := [.s, .t, .root]

/-- The slot `inspect` files a pid under. -/
def Place.slot : Place → Slot
  | .s => .s
  | .t => .t
  | .root => .s

/-- `directory / which_qemu`. -/
def Place.ofSlot : Slot → Place
  | .s => .s
  | .t => .t

/-- A pid file: not there, no number, or a number. -/
inductive PidText where
  | missing
  | garbage
  | number (n : Int)
  deriving DecidableEq, Repr

/-- The pid file at a place of a VM directory. -/
structure PidPath where
  directory : String
  place : Place
  deriving DecidableEq, Repr

/-- What the command line of a process tells: the file name of the executable, the value of
`-pidfile` when it is a pid file of a VM, and whether a VFIO device is passed through. -/
structure Command where
  executable : String
  pidfile : Option PidPath
  vfio : Bool := false
  deriving DecidableEq, Repr

/-- The processes by number. -/
abbrev Table := Nat → Option Command

/-- A QEMU that was started with this pid file, and so has its monitors beside it. -/
def StartedWith (table : Table) (pid : Nat) (path : PidPath) : Prop :=
  ∃ command, table pid = some command ∧
    "qemu-system-".toList.isPrefixOf command.executable.toList = true ∧
    command.pidfile = some path

/-! ## `inspect` -/

/-- The file `storage_slot`. -/
inductive StorageText where
  | missing
  | slot (slot : Slot)
  | other
  deriving DecidableEq, Repr

/-- The files of a VM directory that `inspect` reads. -/
structure Files where
  directory : String
  pid : Place → PidText
  storage : StorageText

inductive Error where
  | invalidStorageSlot
  | notRunning
  deriving DecidableEq, Repr

/-- `_storage_slot`. -/
def storageSlot (files : Files) : Except Error Slot :=
  match files.storage with
  | .missing => .ok .s
  | .slot slot => .ok slot
  | .other => .error .invalidStorageSlot

/-- The pid in the file, if `/proc` has a process of that number. -/
def livePid (files : Files) (table : Table) (place : Place) : Option Nat :=
  match files.pid place with
  | .number n => if 0 ≤ n ∧ (table n.toNat).isSome then some n.toNat else none
  | _ => none

def live (files : Files) (table : Table) : List (Place × Nat) :=
  places.filterMap fun place => (livePid files table place).map (place, ·)

/-- The part of `VmRuntime` that varies. -/
structure Runtime where
  whichQemu : Slot
  livePids : List Nat
  storageSlot : Slot
  deriving DecidableEq, Repr

/-- `VmRuntime.inspect`. -/
def inspect (files : Files) (table : Table) : Except Error Runtime := do
  let slot ← storageSlot files
  return {
    whichQemu := ((live files table).getLast?.map fun entry => entry.1.slot).getD slot
    livePids := (live files table).map Prod.snd
    storageSlot := slot }

/-- `VmRuntime.pid`, what `action_kill` signals. -/
def Runtime.pid (vm : Runtime) : Except Error Nat :=
  match vm.livePids with
  | [] => .error .notRunning
  | pid :: _ => .ok pid

/-- `VmRuntime.qemu_directory`. -/
def Runtime.qemuDirectory (vm : Runtime) : Place := .ofSlot vm.whichQemu

/-! ## When the selection is sound -/

/-- Every live pid is a QEMU started with the file it was read from, and the one that is signalled
has its monitors in the directory of the selected QEMU. -/
def Sound (files : Files) (table : Table) : Prop :=
  ∀ vm, inspect files table = .ok vm →
    (∀ entry ∈ live files table, StartedWith table entry.2 ⟨files.directory, entry.1⟩) ∧
    ∀ pid, vm.pid = .ok pid → StartedWith table pid ⟨files.directory, vm.qemuDirectory⟩

/-- The pid files with a live pid tell the truth. -/
def Genuine (files : Files) (table : Table) : Prop :=
  ∀ place pid, livePid files table place = some pid →
    StartedWith table pid ⟨files.directory, place⟩

/-- The first and the last live pid file stand for the same directory: slots `s` and `t` are not
both live without the file of the old layout, and that one is not live without slot `s`. -/
def OneSlot (files : Files) (table : Table) : Prop :=
  ((livePid files table .s).isSome → (livePid files table .t).isSome →
    (livePid files table .root).isSome) ∧
  ((livePid files table .root).isSome → (livePid files table .s).isSome)

variable {table : Table} {pid : Nat} {files : Files}

theorem StartedWith.path_eq {path path' : PidPath} (started : StartedWith table pid path)
    (started' : StartedWith table pid path') : path = path' := by
  obtain ⟨command, found, -, pidfile⟩ := started
  obtain ⟨command', found', -, pidfile'⟩ := started'
  rw [found] at found'
  cases found'
  rw [pidfile] at pidfile'
  exact Option.some.inj pidfile'

theorem mem_live {place : Place} :
    (place, pid) ∈ live files table ↔ livePid files table place = some pid := by
  rw [live, List.mem_filterMap]
  constructor
  · rintro ⟨p, -, eq⟩
    obtain ⟨n, found, same⟩ := Option.map_eq_some_iff.mp eq
    cases same
    exact found
  · intro found
    refine ⟨place, ?_, by rw [found]; rfl⟩
    cases place <;> decide

theorem genuine_iff :
    Genuine files table ↔
      ∀ entry ∈ live files table, StartedWith table entry.2 ⟨files.directory, entry.1⟩ :=
  ⟨fun genuine entry mem => genuine entry.1 entry.2 (mem_live.mp mem),
    fun all place pid found => all (place, pid) (mem_live.mpr found)⟩

theorem live_eq (files : Files) (table : Table) :
    live files table =
      ((livePid files table .s).map (Place.s, ·)).toList ++
        (((livePid files table .t).map (Place.t, ·)).toList ++
          ((livePid files table .root).map (Place.root, ·)).toList) := by
  simp only [live, places, List.filterMap_cons, List.filterMap_nil]
  cases livePid files table .s <;> cases livePid files table .t <;>
    cases livePid files table .root <;> rfl

theorem oneSlot_iff :
    OneSlot files table ↔
      ∀ first ∈ (live files table).head?, ∀ last ∈ (live files table).getLast?,
        first.1 = .ofSlot last.1.slot := by
  rw [OneSlot, live_eq]
  cases livePid files table .s <;> cases livePid files table .t <;>
    cases livePid files table .root <;> simp [Place.slot, Place.ofSlot]

/-- What `inspect` selects when there is something alive. -/
theorem inspect_selects {vm : Runtime} (ok : inspect files table = .ok vm)
    (signalled : vm.pid = .ok pid) :
    ∃ first last, (live files table).head? = some first ∧ (live files table).getLast? = some last ∧
      first.2 = pid ∧ vm.qemuDirectory = .ofSlot last.1.slot := by
  rw [inspect] at ok
  cases stored : storageSlot files with
  | error e =>
    rw [stored] at ok
    cases ok
  | ok slot =>
    rw [stored] at ok
    cases ok
    rw [Runtime.pid] at signalled
    cases entries : live files table with
    | nil =>
      rw [entries] at signalled
      cases signalled
    | cons first rest =>
      rw [entries] at signalled
      cases signalled
      refine ⟨first, (first :: rest).getLast (List.cons_ne_nil _ _), rfl,
        List.getLast?_eq_some_getLast _, rfl, ?_⟩
      simp only [Runtime.qemuDirectory, List.getLast?_eq_some_getLast
        (List.cons_ne_nil first rest), Option.map_some, Option.getD_some]

theorem inspect_runs {first : Place × Nat} (valid : files.storage ≠ .other)
    (head : (live files table).head? = some first) :
    ∃ vm, inspect files table = .ok vm ∧ vm.pid = .ok first.2 := by
  have stored : ∃ slot, storageSlot files = .ok slot := by
    cases storage : files.storage with
    | missing => exact ⟨.s, by rw [storageSlot, storage]⟩
    | slot slot => exact ⟨slot, by rw [storageSlot, storage]⟩
    | other => exact absurd storage valid
  obtain ⟨slot, stored⟩ := stored
  cases entries : live files table with
  | nil =>
    rw [entries] at head
    cases head
  | cons entry rest =>
    rw [entries] at head
    cases head
    refine ⟨_, by rw [inspect, stored]; rfl, ?_⟩
    simp only [Runtime.pid, entries, List.map_cons]

/-- Both slots hold a QEMU of their own, as they do during a migration. -/
def migrating : Files where
  directory := "vm"
  pid
    | .s => .number 100
    | .t => .number 200
    | .root => .missing
  storage := .missing

def bothQemus : Table
  | 100 => some ⟨"qemu-system-x86_64", some ⟨"vm", .s⟩, false⟩
  | 200 => some ⟨"qemu-system-x86_64", some ⟨"vm", .t⟩, false⟩
  | _ => none

end Collei.Process

import KernelNotes.Collei.GuestIds
import KernelNotes.Collei.Vm

/-!
# Host resources of running VMs

`vsock_cid` and `tcp_port` of `runtime.py`, with what `prepare_novnc` and `prepare_vhost_user_net`
of `host_setup.py` add to them. Each VM has a window of twenty ports, shared by its two slots and
its disks, and one vsock CID of its own; the CID of slot `t` is the next one.
-/

namespace Collei.HostPorts

def vmPortRange : Nat := 20

def portAllocateStart : Nat := 50000

def portAllocateEnd : Nat := 60000

def vsockCidStart : Nat := 1000

inductive Service where
  | vnc
  | ssh
  | rdp
  | vhostUser
  | nbd
  deriving DecidableEq, Repr

inductive Error where
  | tooManyVm
  deriving DecidableEq, Repr

/-- `VmRuntime.qemu_index`. -/
def qemuIndex : Slot → Nat
  | .s => 0
  | .t => 1

/-- `VmRuntime.vsock_cid`. -/
def vsockCid (guestId : Nat) (slot : Slot) : Nat := guestId + vsockCidStart + qemuIndex slot

/-- `base` of `tcp_port`. -/
def base (guestId : Nat) : Nat := portAllocateStart + guestId * vmPortRange

/-- `VmRuntime.tcp_port`. -/
def tcpPort (guestId : Nat) (slot : Slot) (service : Service) (disk : Nat) : Except Error Nat :=
  match service with
  | .vnc => .ok (base guestId + qemuIndex slot * 2)
  | .ssh => .ok (base guestId + 4 + qemuIndex slot)
  | .rdp => .ok (base guestId + 18 + qemuIndex slot)
  | .vhostUser => .ok (base guestId + 14 + qemuIndex slot * 2)
  | .nbd =>
    if base guestId + 6 + disk > portAllocateEnd then .error .tooManyVm
    else .ok (base guestId + 6 + disk)

/-- The ports of one QEMU: VNC and the noVNC port after it, ssh, rdp, and the two ends of the
vhost-user bridge. -/
def qemuPorts (guestId : Nat) (slot : Slot) : Except Error (List Nat) := do
  let vnc ← tcpPort guestId slot .vnc 0
  let ssh ← tcpPort guestId slot .ssh 0
  let rdp ← tcpPort guestId slot .rdp 0
  let vhostUser ← tcpPort guestId slot .vhostUser 0
  return [vnc, vnc + 1, ssh, rdp, vhostUser, vhostUser + 1]

/-- A VM with at least one QEMU running and this many disks. -/
structure RunningVm where
  guestId : Nat
  legal : GuestIds.LegalId guestId
  slots : List Slot
  running : slots = [.s] ∨ slots = [.t] ∨ slots = [.s, .t]
  disks : Nat

namespace RunningVm

def cids (vm : RunningVm) : List Nat := vm.slots.map (vsockCid vm.guestId)

/-- The nbd ports of the disk numbers that `tcp_port` accepts. -/
def nbdPorts (vm : RunningVm) : List Nat :=
  (List.range vm.disks).filterMap fun disk => (tcpPort vm.guestId .s .nbd disk).toOption

def ports (vm : RunningVm) : List Nat :=
  (vm.slots.flatMap fun slot => ((qemuPorts vm.guestId slot).toOption.getD [])) ++ vm.nbdPorts

end RunningVm

/-- The VMs that run on a host, each with a guest id of its own. -/
structure Host where
  vms : List RunningVm
  distinct : (vms.map RunningVm.guestId).Nodup

/-- No CID and no port is used twice. -/
def Host.Clear (host : Host) : Prop :=
  (host.vms.flatMap RunningVm.cids).Nodup ∧ (host.vms.flatMap RunningVm.ports).Nodup

instance (host : Host) : Decidable host.Clear := inferInstanceAs (Decidable (_ ∧ _))

/-! ## The ports of one VM -/

/-- The offsets in the window of a VM that its running slots use. -/
def offsets : List Slot → List Nat
  | [] => []
  | .s :: rest => [0, 1, 4, 18, 14, 15] ++ offsets rest
  | .t :: rest => [2, 3, 5, 19, 16, 17] ++ offsets rest

/-- The disks whose nbd ports come before the first vhost-user port in use. -/
def room (slots : List Slot) : Nat := if .s ∈ slots then 8 else 10

namespace RunningVm

theorem mem_nbdPorts {vm : RunningVm} {port : Nat} :
    port ∈ vm.nbdPorts ↔
      ∃ disk < vm.disks, base vm.guestId + 6 + disk ≤ portAllocateEnd ∧
        port = base vm.guestId + 6 + disk := by
  rw [nbdPorts, List.mem_filterMap]
  constructor
  · rintro ⟨disk, mem, eq⟩
    rw [tcpPort] at eq
    split at eq
    · cases eq
    · cases eq
      exact ⟨disk, List.mem_range.mp mem, Nat.not_lt.mp ‹_›, rfl⟩
  · rintro ⟨disk, mem, fits, rfl⟩
    refine ⟨disk, List.mem_range.mpr mem, ?_⟩
    rw [tcpPort, if_neg (Nat.not_lt.mpr fits)]
    rfl

theorem nodup_nbdPorts (vm : RunningVm) : vm.nbdPorts.Nodup := by
  refine List.Nodup.filterMap ?_ List.nodup_range
  intro a b port left right
  simp only [tcpPort, Option.mem_def] at left right
  split at left <;> split at right <;> simp only [Except.toOption, reduceCtorEq, Option.some.injEq] at left right
  omega

theorem ports_eq (vm : RunningVm) :
    vm.ports = (offsets vm.slots).map (base vm.guestId + ·) ++ vm.nbdPorts := by
  rw [ports]
  congr 1
  rcases vm.running with eq | eq | eq
  all_goals
    rw [eq]
    rfl

theorem offsets_nodup (vm : RunningVm) : (offsets vm.slots).Nodup := by
  rcases vm.running with eq | eq | eq
  all_goals
    rw [eq]
    decide

theorem offsets_lt (vm : RunningVm) : ∀ o ∈ offsets vm.slots, o < vmPortRange := by
  rcases vm.running with eq | eq | eq
  all_goals
    rw [eq]
    decide

theorem room_used (vm : RunningVm) : 6 + room vm.slots ∈ offsets vm.slots := by
  rcases vm.running with eq | eq | eq
  all_goals
    rw [eq]
    decide

theorem room_free (vm : RunningVm) : ∀ disk < room vm.slots, 6 + disk ∉ offsets vm.slots := by
  rcases vm.running with eq | eq | eq
  all_goals
    rw [eq]
    decide

theorem room_le (vm : RunningVm) : room vm.slots ≤ 10 := by
  rw [room]
  split <;> omega

theorem nodup_ports_iff (vm : RunningVm) : vm.ports.Nodup ↔ vm.disks ≤ room vm.slots := by
  have legal := vm.legal
  rw [GuestIds.LegalId, GuestIds.guestIdMin, GuestIds.guestIdMax] at legal
  have bounded := vm.room_le
  rw [ports_eq]
  constructor
  · intro nodup
    by_contra large
    have clash := List.disjoint_of_nodup_append nodup
    refine clash (List.mem_map_of_mem vm.room_used) (mem_nbdPorts.mpr ⟨room vm.slots, by omega, ?_, ?_⟩)
    · rw [base, portAllocateStart, vmPortRange, portAllocateEnd]
      omega
    · show base vm.guestId + (6 + room vm.slots) = _
      omega
  · intro fits
    refine List.Nodup.append ?_ vm.nodup_nbdPorts ?_
    · exact vm.offsets_nodup.map fun a b eq => Nat.add_left_cancel eq
    · intro port own nbd
      obtain ⟨o, mem, rfl⟩ := List.mem_map.mp own
      obtain ⟨disk, low, -, eq⟩ := mem_nbdPorts.mp nbd
      have same : o = 6 + disk := by omega
      exact vm.room_free disk (by omega) (same ▸ mem)

theorem ports_inside {vm : RunningVm} (fits : vm.disks ≤ room vm.slots) {port : Nat}
    (mem : port ∈ vm.ports) :
    base vm.guestId ≤ port ∧ port < base vm.guestId + vmPortRange := by
  have bounded := vm.room_le
  rw [ports_eq, List.mem_append] at mem
  rcases mem with own | nbd
  · obtain ⟨o, used, rfl⟩ := List.mem_map.mp own
    have := vm.offsets_lt o used
    omega
  · obtain ⟨disk, low, -, rfl⟩ := mem_nbdPorts.mp nbd
    rw [vmPortRange]
    omega

theorem mem_cids {vm : RunningVm} {cid : Nat} :
    cid ∈ vm.cids ↔ ∃ slot ∈ vm.slots, vsockCid vm.guestId slot = cid := List.mem_map

theorem nodup_cids (vm : RunningVm) : vm.cids.Nodup := by
  rw [cids]
  rcases vm.running with eq | eq | eq
  all_goals
    rw [eq]
    simp [vsockCid, qemuIndex]

end RunningVm

/-! ## The VMs of a host -/

/-- Slot `t` of one VM beside slot `s` of the VM with the next id. -/
def Neighbours (vm vm' : RunningVm) : Prop :=
  vm'.guestId = vm.guestId + 1 ∧ .t ∈ vm.slots ∧ .s ∈ vm'.slots

theorem disjoint_cids_iff {vm vm' : RunningVm} (different : vm.guestId ≠ vm'.guestId) :
    vm.cids.Disjoint vm'.cids ↔ ¬ Neighbours vm vm' ∧ ¬ Neighbours vm' vm := by
  constructor
  · intro disjoint
    constructor
    · rintro ⟨next, first, second⟩
      refine disjoint (RunningVm.mem_cids.mpr ⟨_, first, rfl⟩) (RunningVm.mem_cids.mpr ⟨_, second, ?_⟩)
      simp only [vsockCid, qemuIndex]
      omega
    · rintro ⟨next, first, second⟩
      refine disjoint (RunningVm.mem_cids.mpr ⟨_, second, rfl⟩) (RunningVm.mem_cids.mpr ⟨_, first, ?_⟩)
      simp only [vsockCid, qemuIndex]
      omega
  · rintro ⟨apart, apart'⟩ cid left right
    obtain ⟨slot, mem, rfl⟩ := RunningVm.mem_cids.mp left
    obtain ⟨slot', mem', eq⟩ := RunningVm.mem_cids.mp right
    simp only [vsockCid] at eq
    cases slot <;> cases slot' <;> simp only [qemuIndex] at eq
    · omega
    · exact apart' ⟨by omega, mem', mem⟩
    · exact apart ⟨by omega, mem, mem'⟩
    · omega

theorem disjoint_ports {vm vm' : RunningVm} (different : vm.guestId ≠ vm'.guestId)
    (fits : vm.disks ≤ room vm.slots) (fits' : vm'.disks ≤ room vm'.slots) :
    vm.ports.Disjoint vm'.ports := by
  intro port left right
  have here := RunningVm.ports_inside fits left
  have there := RunningVm.ports_inside fits' right
  simp only [base, vmPortRange] at here there
  omega

/-- The two QEMUs of VM 11 during a migration, and VM 12. -/
def besideMigration : Host where
  vms := [⟨11, by decide, [.s, .t], by decide, 1⟩, ⟨12, by decide, [.s], by decide, 1⟩]
  distinct := by decide

end Collei.HostPorts

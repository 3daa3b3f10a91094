import KernelNotes.Lib.Run

/-!
# Guest ids

`create_vm_layout` of `install.py`, `allocate_guest_id` of `runtime.py` and `clone_vm_auto` of
`actions.py`. The id of a VM stands in the `config.ini` of its directory. It is used as one octet
of a MAC address and of an IP address, so it has to be below 256, and it names the host resources
of the VM, so no two VMs may share one.

Ids are handed out twice: an installation takes one more than the largest id in use, a clone the
smallest id that is free. A clone gets its id after its directory, with the id of the original,
is already there.
-/

namespace Collei.GuestIds

def guestIdMin : Nat := 11

def guestIdMax : Nat := 255

inductive Error where
  | invalidName
  | duplicated
  | usage
  | alreadyExists
  | commandFailed
  | vmNotFound
  | configInvalid
  | idNotInteger
  | noFreeId
  deriving DecidableEq, Repr

/-- What a `config.ini` says about the id: the file does not parse, there is no `id`, the `id` is
no number, or it is one. The last is all that is ever written; the others are what a copy that was
cut off can leave. -/
inductive Config where
  | broken
  | noId
  | badId
  | id (n : Nat)
  deriving DecidableEq, Repr

def Config.guestId : Config → Option Nat
  | .id n => some n
  | _ => none

/-- The directories below the VM root, each with its `config.ini` if it has one. -/
structure Root where
  dirs : List (String × Option Config)
  nodup : (dirs.map Prod.fst).Nodup

namespace Root

def empty : Root := ⟨[], List.nodup_nil⟩

def drop (root : Root) (name : String) : Root where
  dirs := root.dirs.filter fun d => d.1 ≠ name
  nodup := root.nodup.sublist (List.filter_sublist.map _)

/-- The directory gets this `config.ini`, or none. -/
def put (root : Root) (name : String) (config : Option Config) : Root where
  dirs := (name, config) :: (root.drop name).dirs
  nodup := by
    refine List.nodup_cons.mpr ⟨?_, (root.drop name).nodup⟩
    simp [drop]

/-- What `list_vms` takes for VMs: the directories with a `config.ini`. -/
def configs (root : Root) : List Config := root.dirs.filterMap Prod.snd

def ids (root : Root) : List Nat := root.configs.filterMap Config.guestId

/-- `(vm_root / name).exists()`. -/
def occupied (root : Root) (name : String) : Bool :=
  name == "." || name == ".." || (root.dirs.map Prod.fst).contains name

/-- The options of `ColleiContext.vm(name)`. -/
def vm (root : Root) (name : String) : Except Error Config :=
  match root.dirs.lookup name with
  | none => .error .vmNotFound
  | some none => .error .configInvalid
  | some (some .broken) => .error .configInvalid
  | some (some config) => .ok config

/-- `list_vms`, which loads every configuration. -/
def listVms (root : Root) : Except Error (List Config) :=
  root.configs.mapM fun config => if config = .broken then .error .configInvalid else .ok config

/-- The ids of the VMs that have the option `id`. -/
def guestIds (root : Root) : Except Error (List Nat) :=
  root.listVms.bind fun vms =>
    (vms.filter (· ≠ .noId)).mapM fun config =>
      match config.guestId with
      | none => .error .idNotInteger
      | some n => .ok n

/-- `VmInstaller.next_guest_id`. -/
def nextGuestId (root : Root) : Except Error Nat :=
  root.guestIds.map fun ids => ids.max?.getD 10 + 1

/-- `ColleiContext.allocate_guest_id`. -/
def allocateGuestId (root : Root) : Except Error Nat :=
  root.guestIds.bind fun used =>
    match (List.range' guestIdMin (guestIdMax + 1 - guestIdMin)).find? (· ∉ used) with
    | some n => .ok n
    | none => .error .noFreeId

end Root

/-- `re.fullmatch(r"[A-Za-z0-9_.-]+", name)`. -/
def validName (name : String) : Bool :=
  !name.isEmpty && name.toList.all fun c => c.isAlphanum || c == '_' || c == '.' || c == '-'

/-- `create_vm_layout`. -/
def createVmLayout (name : String) (root : Root) : Except Error Unit × Root :=
  if validName name = false then (.error .invalidName, root)
  else if root.occupied name then (.error .duplicated, root)
  else
    -- The directory exists from here on, but without its config.ini it is not listed.
    let made := root.put name none
    match made.nextGuestId with
    | .error e => (.error e, made)
    | .ok n => (.ok (), made.put name (some (.id n)))

/-- Where `vm_root / args[0]` is: below the VM root, or somewhere else because `args[0]` has more
than one component. -/
inductive Target where
  | child (name : String)
  | elsewhere (name : String) (occupied : Bool)
  deriving DecidableEq, Repr

/-- `target.name`. -/
def Target.name : Target → String
  | .child name => name
  | .elsewhere name _ => name

/-- How the `cp -r` ends. One that fails has copied some of the directory, with no `config.ini`,
with the whole of it or with a beginning of it. -/
inductive Copy where
  | done
  | failed (left : Option Config)
  | dryRun
  deriving DecidableEq, Repr

/-- What `clone_vm_auto` meets. -/
structure Surroundings where
  active : Bool := false
  confirmed : Bool := true
  cp : Copy := .done
  deriving DecidableEq, Repr

/-- The VM root after the `cp -r` of a directory with this `config.ini`. -/
def copyTo (target : Target) (config : Config) (cp : Copy) (root : Root) : Root :=
  match target, cp with
  | .elsewhere .., _ => root
  | .child _, .dryRun => root
  | .child name, .done => root.put name (some config)
  | .child name, .failed left => root.put name left

def Target.exists (target : Target) (root : Root) : Bool :=
  match target with
  | .child name => root.occupied name
  | .elsewhere _ occupied => occupied

/-- The second half of `action_clone_vm_auto`: the VM of this name gets a new id. -/
def renumber (name : String) (root : Root) : Except Error Unit × Root :=
  match root.vm name, root.allocateGuestId with
  | .error e, _ => (.error e, root)
  | .ok _, .error e => (.error e, root)
  | .ok _, .ok n => (.ok (), root.put name (some (.id n)))

/-- `action_clone_vm_auto`. The VM whose options are changed is the one called `target.name`. -/
def cloneVmAuto (source : String) (args : List Target) (env : Surroundings) (root : Root) :
    Except Error Unit × Root :=
  match root.vm source, args with
  | .error e, _ => (.error e, root)
  | .ok config, [target] =>
    if target.exists root then (.error .alreadyExists, root)
    else if env.active && !env.confirmed then (.ok (), root)
    else
      match env.cp with
      | .failed _ => (.error .commandFailed, copyTo target config env.cp root)
      | _ => renumber target.name (copyTo target config env.cp root)
  | .ok _, _ => (.error .usage, root)

/-! ## Operations on the VM root -/

inductive Action where
  | install (name : String)
  | clone (source : String) (args : List Target) (env : Surroundings)
  | remove (name : String)
  deriving DecidableEq, Repr

/-- The VM root after an operation, successful or not. -/
def step (root : Root) : Action → Root
  | .install name => (createVmLayout name root).2
  | .clone source args env => (cloneVmAuto source args env root).2
  | .remove name => root.drop name

/-- An id that makes an octet and lies above the reserved ones. -/
def LegalId (n : Nat) : Prop := guestIdMin ≤ n ∧ n ≤ guestIdMax

instance (n : Nat) : Decidable (LegalId n) := inferInstanceAs (Decidable (_ ∧ _))

/-- Every VM has a legal id, and no two have the same one. -/
structure UniqueAndLegal (root : Root) : Prop where
  legal : ∀ config ∈ root.configs, ∃ n, config = .id n ∧ LegalId n
  distinct : root.configs.Nodup

/-! ## Directories -/

namespace Root

theorem ext {a b : Root} (same : a.dirs = b.dirs) : a = b := by
  cases a
  cases b
  cases same
  rfl

@[simp] theorem configs_put_some (root : Root) (name : String) (config : Config) :
    (root.put name (some config)).configs = config :: (root.drop name).configs := rfl

theorem drop_put (root : Root) (name : String) (config : Option Config) :
    (root.put name config).drop name = root.drop name := by
  apply ext
  simp [put, drop]

theorem put_put (root : Root) (name : String) (config config' : Option Config) :
    (root.put name config).put name config' = root.put name config' := by
  apply ext
  show (name, config') :: ((root.put name config).drop name).dirs = _
  rw [drop_put]
  rfl

theorem drop_of_free {root : Root} {name : String} (free : root.occupied name = false) :
    root.drop name = root := by
  apply ext
  refine List.filter_eq_self.mpr ?_
  intro d mem
  have absent : name ∉ root.dirs.map Prod.fst := by
    simp only [occupied, Bool.or_eq_false_iff, List.contains_eq_mem, decide_eq_false_iff_not] at free
    exact free.2
  simp only [ne_eq, decide_eq_true_eq]
  rintro rfl
  exact absent (List.mem_map_of_mem mem)

theorem configs_drop (root : Root) (name : String) :
    (root.drop name).configs.Sublist root.configs :=
  List.filter_sublist.filterMap _

theorem mem_ids {root : Root} {n : Nat} : n ∈ root.ids ↔ .id n ∈ root.configs := by
  rw [ids, List.mem_filterMap]
  constructor
  · rintro ⟨config, mem, eq⟩
    cases config <;> cases eq
    exact mem
  · intro mem
    exact ⟨_, mem, rfl⟩

/-- A VM that `ColleiContext.vm` loads is listed. -/
theorem mem_configs_of_vm {root : Root} {name : String} {config : Config}
    (ok : root.vm name = .ok config) : config ∈ root.configs := by
  rw [vm] at ok
  split at ok
  · cases ok
  · cases ok
  · cases ok
  · rename_i found
    cases ok
    obtain ⟨before, after, eq, -⟩ := List.lookup_eq_some_iff.mp found
    have mem : (name, some config) ∈ root.dirs := eq ▸ List.mem_append_right _ List.mem_cons_self
    exact List.mem_filterMap.mpr ⟨_, mem, rfl⟩

theorem vm_put (root : Root) (name : String) (n : Nat) :
    (root.put name (some (.id n))).vm name = .ok (.id n) := by
  simp [vm, put]

theorem guestIds_eq {root : Root} (named : ∀ config ∈ root.configs, ∃ n, config = .id n) :
    root.guestIds = .ok root.ids := by
  have listed : root.listVms = .ok root.configs := by
    rw [listVms]
    generalize root.configs = vms at named
    induction vms with
    | nil => rfl
    | cons config rest ih =>
      obtain ⟨n, rfl⟩ := named config List.mem_cons_self
      rw [List.mapM_cons, ih fun c mem => named c (List.mem_cons_of_mem _ mem)]
      rfl
  rw [guestIds, listed, ids]
  show List.mapM _ _ = _
  generalize root.configs = vms at named
  induction vms with
  | nil => rfl
  | cons config rest ih =>
    obtain ⟨n, rfl⟩ := named config List.mem_cons_self
    rw [List.filter_cons_of_pos (by simp), List.mapM_cons,
      ih fun c mem => named c (List.mem_cons_of_mem _ mem)]
    rfl

end Root

/-! ## What the operations keep -/

theorem UniqueAndLegal.empty : UniqueAndLegal .empty :=
  ⟨fun _ mem => absurd mem List.not_mem_nil, List.nodup_nil⟩

theorem UniqueAndLegal.drop {root : Root} (sane : UniqueAndLegal root) (name : String) :
    UniqueAndLegal (root.drop name) :=
  ⟨fun config mem => sane.legal config ((root.configs_drop name).subset mem),
    sane.distinct.sublist (root.configs_drop name)⟩

theorem UniqueAndLegal.guestIds {root : Root} (sane : UniqueAndLegal root) :
    root.guestIds = .ok root.ids :=
  Root.guestIds_eq fun config mem => (sane.legal config mem).imp fun _ both => both.1

/-- A configuration may join legal ones if it has a legal id that is not in use. -/
def Fresh (root : Root) (config : Config) : Prop := ∃ n, config = .id n ∧ LegalId n ∧ n ∉ root.ids

theorem uniqueAndLegal_put_iff {root : Root} {name : String} (sane : UniqueAndLegal (root.drop name))
    (config : Config) :
    UniqueAndLegal (root.put name (some config)) ↔ Fresh (root.drop name) config := by
  constructor
  · rintro ⟨legal, distinct⟩
    obtain ⟨n, rfl, fits⟩ := legal config List.mem_cons_self
    exact ⟨n, rfl, fits, fun used => (List.nodup_cons.mp distinct).1 (Root.mem_ids.mp used)⟩
  · rintro ⟨n, rfl, fits, unused⟩
    constructor
    · intro c mem
      rcases List.mem_cons.mp mem with rfl | old
      · exact ⟨n, rfl, fits⟩
      · exact sane.legal c old
    · exact List.nodup_cons.mpr ⟨fun mem => unused (Root.mem_ids.mpr mem), sane.distinct⟩

theorem uniqueAndLegal_put_none {root : Root} {name : String}
    (sane : UniqueAndLegal (root.drop name)) : UniqueAndLegal (root.put name none) :=
  ⟨sane.legal, sane.distinct⟩

/-! ## An installation -/

/-- The number `next_guest_id` comes to is above every id in use, and one of them precedes it
unless there is none. -/
theorem next_above {ids : List Nat} {n : Nat} (mem : n ∈ ids) : n < ids.max?.getD 10 + 1 :=
  Nat.lt_succ_of_le (List.le_max?_getD_of_mem mem)

theorem next_reached (ids : List Nat) : ids = [] ∨ ids.max?.getD 10 ∈ ids := by
  cases found : ids.max? with
  | none => exact .inl (List.max?_eq_none_iff.mp found)
  | some n => exact .inr (List.max?_mem found)

theorem next_legal_iff {ids : List Nat} (legal : ∀ n ∈ ids, LegalId n) :
    LegalId (ids.max?.getD 10 + 1) ↔ guestIdMax ∉ ids := by
  constructor
  · intro fits used
    exact absurd (next_above used) (Nat.not_lt.mpr fits.2)
  · intro unused
    rcases next_reached ids with rfl | mem
    · exact ⟨by decide, by decide⟩
    · have bounds := legal _ mem
      have other : ids.max?.getD 10 ≠ guestIdMax := fun eq => unused (eq ▸ mem)
      rw [LegalId] at bounds ⊢
      omega

theorem UniqueAndLegal.legal_ids {root : Root} (sane : UniqueAndLegal root) :
    ∀ n ∈ root.ids, LegalId n := by
  intro n mem
  obtain ⟨m, eq, fits⟩ := sane.legal _ (Root.mem_ids.mp mem)
  cases eq
  exact fits

theorem createVmLayout_eq {root : Root} {name : String} (sane : UniqueAndLegal root)
    (valid : validName name = true) (free : root.occupied name = false) :
    createVmLayout name root =
      (.ok (), root.put name (some (.id (root.ids.max?.getD 10 + 1)))) := by
  have listed : (root.put name none).guestIds = .ok root.ids := by
    rw [(uniqueAndLegal_put_none (sane.drop name)).guestIds]
    show Except.ok (root.drop name).ids = _
    rw [Root.drop_of_free free]
  rw [createVmLayout, if_neg (by rw [valid]; decide), if_neg (by rw [free]; decide)]
  simp only [Root.nextGuestId, listed, Except.map, Root.put_put]

theorem install_keeps_iff {root : Root} (sane : UniqueAndLegal root) (name : String) :
    UniqueAndLegal (createVmLayout name root).2 ↔
      (validName name = true → root.occupied name = false → guestIdMax ∉ root.ids) := by
  by_cases valid : validName name = true
  · by_cases free : root.occupied name = false
    · rw [createVmLayout_eq sane valid free, uniqueAndLegal_put_iff (sane.drop name),
        Root.drop_of_free free]
      constructor
      · rintro ⟨n, eq, fits, -⟩ - -
        cases eq
        exact (next_legal_iff sane.legal_ids).mp fits
      · intro room
        refine ⟨_, rfl, (next_legal_iff sane.legal_ids).mpr (room valid free), ?_⟩
        intro used
        exact absurd (next_above used) (Nat.lt_irrefl _)
    · have refused : createVmLayout name root = (.error .duplicated, root) := by
        rw [createVmLayout, if_neg (by rw [valid]; decide), if_pos (Bool.not_eq_false _ ▸ free)]
      rw [refused]
      exact ⟨fun _ _ absent => absurd absent free, fun _ => sane⟩
  · have refused : createVmLayout name root = (.error .invalidName, root) := by
      rw [createVmLayout, if_pos (Bool.not_eq_true _ ▸ valid)]
    rw [refused]
    exact ⟨fun _ legal => absurd legal valid, fun _ => sane⟩

/-! ## A clone -/

theorem allocateGuestId_cases {root : Root} {used : List Nat} (listed : root.guestIds = .ok used) :
    (∃ n, root.allocateGuestId = .ok n ∧ LegalId n ∧ n ∉ used) ∨
      root.allocateGuestId = .error .noFreeId ∧ ∀ n, LegalId n → n ∈ used := by
  rw [Root.allocateGuestId, listed]
  simp only [Except.bind]
  cases found : (List.range' guestIdMin (guestIdMax + 1 - guestIdMin)).find? (· ∉ used) with
  | some n =>
    have mem := List.mem_range'_1.mp (List.mem_of_find?_eq_some found)
    have unused := List.find?_some found
    simp only [guestIdMin, guestIdMax] at mem
    refine .inl ⟨n, rfl, ⟨?_, ?_⟩, by simpa using unused⟩
    · simp only [guestIdMin]
      omega
    · simp only [guestIdMax]
      omega
  | none =>
    refine .inr ⟨rfl, ?_⟩
    intro n fits
    rw [LegalId, guestIdMin, guestIdMax] at fits
    have mem : n ∈ List.range' guestIdMin (guestIdMax + 1 - guestIdMin) :=
      List.mem_range'_1.mpr (by simp only [guestIdMin, guestIdMax]; omega)
    simpa using List.find?_eq_none.mp found n mem

theorem renumber_keeps {root : Root} (sane : UniqueAndLegal root) (name : String) :
    UniqueAndLegal (renumber name root).2 := by
  rw [renumber]
  rcases allocateGuestId_cases sane.guestIds with ⟨n, allocated, fits, unused⟩ | ⟨full, -⟩
  · cases root.vm name with
    | error e => exact sane
    | ok config =>
      simp only [allocated]
      refine (uniqueAndLegal_put_iff (sane.drop name) _).mpr ⟨n, rfl, fits, ?_⟩
      intro used
      exact unused (Root.mem_ids.mpr ((root.configs_drop name).subset (Root.mem_ids.mp used)))
  · cases root.vm name with
    | error e => exact sane
    | ok config =>
      rw [full]
      exact sane

/-- The copy of a VM that is given a new id. It has the id of the original until then, so it is
left a duplicate when there is no new id. -/
theorem renumber_copy_iff {root : Root} (sane : UniqueAndLegal root) {name : String}
    (free : root.occupied name = false) {config : Config} (original : config ∈ root.configs) :
    UniqueAndLegal (renumber name (root.put name (some config))).2 ↔
      ∃ n, LegalId n ∧ n ∉ root.ids := by
  obtain ⟨m, rfl, -⟩ := sane.legal config original
  have same : root.drop name = root := Root.drop_of_free free
  have listed : (root.put name (some (.id m))).guestIds = .ok (m :: root.ids) := by
    rw [Root.guestIds_eq]
    · show Except.ok (m :: (root.drop name).ids) = _
      rw [same]
    · intro c mem
      rw [Root.configs_put_some, same] at mem
      rcases List.mem_cons.mp mem with rfl | old
      · exact ⟨m, rfl⟩
      · exact (sane.legal c old).imp fun _ both => both.1
  rw [renumber, Root.vm_put]
  rcases allocateGuestId_cases listed with ⟨n, allocated, fits, unused⟩ | ⟨full, all⟩
  · simp only [allocated, Root.put_put]
    have unused : n ∉ root.ids := fun used => unused (List.mem_cons_of_mem _ used)
    rw [uniqueAndLegal_put_iff (sane.drop name), same]
    exact ⟨fun _ => ⟨n, fits, unused⟩, fun _ => ⟨n, rfl, fits, unused⟩⟩
  · simp only [full]
    rw [uniqueAndLegal_put_iff (sane.drop name), same]
    constructor
    · rintro ⟨n, eq, -, unused⟩
      cases eq
      exact absurd (Root.mem_ids.mpr original) unused
    · rintro ⟨n, fits, unused⟩
      rcases List.mem_cons.mp (all n fits) with rfl | used
      · exact absurd (Root.mem_ids.mpr original) unused
      · exact absurd used unused

/-- What a clone needs once it copies: an id that is free, and from a copy that fails either no
`config.ini` or one that happens to be fresh. -/
def CopyFits (root : Root) : Copy → Prop
  | .done => ∃ n, LegalId n ∧ n ∉ root.ids
  | .failed left => ∀ config ∈ left, Fresh root config
  | .dryRun => True

theorem clone_child_keeps_iff {root : Root} (sane : UniqueAndLegal root) {source name : String}
    {config : Config} (loaded : root.vm source = .ok config) (free : root.occupied name = false)
    {env : Surroundings} (agreed : env.active = true → env.confirmed = true) :
    UniqueAndLegal (cloneVmAuto source [.child name] env root).2 ↔ CopyFits root env.cp := by
  have asked : (env.active && !env.confirmed) = false := by
    cases active : env.active with
    | false => rfl
    | true => rw [agreed active]; rfl
  simp only [cloneVmAuto, loaded, Target.exists, free, asked, Bool.false_eq_true, if_false]
  cases env.cp with
  | done => exact renumber_copy_iff sane free (Root.mem_configs_of_vm loaded)
  | dryRun => exact ⟨fun _ => trivial, fun _ => renumber_keeps sane name⟩
  | failed left =>
    cases left with
    | none =>
      exact ⟨fun _ _ mem => absurd mem (Option.not_mem_none _),
        fun _ => uniqueAndLegal_put_none (sane.drop name)⟩
    | some beginning =>
      show UniqueAndLegal (root.put name (some beginning)) ↔ _
      rw [uniqueAndLegal_put_iff (sane.drop name), Root.drop_of_free free]
      exact ⟨fun fresh _ mem => Option.mem_some_iff.mp mem ▸ fresh, fun all => all beginning rfl⟩

/-! ## Histories -/

/-- What keeps the ids unique and legal: an installation that goes through finds the last id
unused, and a clone that copies below the VM root finds a free id and does not fail half way. -/
def Fits (root : Root) : Action → Prop
  | .install name => validName name = true → root.occupied name = false → guestIdMax ∉ root.ids
  | .clone source [.child name] env =>
    (∃ config, root.vm source = .ok config) → root.occupied name = false →
      (env.active = true → env.confirmed = true) → CopyFits root env.cp
  | .clone .. => True
  | .remove _ => True

theorem clone_keeps_iff {root : Root} (sane : UniqueAndLegal root) (source : String)
    (args : List Target) (env : Surroundings) :
    UniqueAndLegal (cloneVmAuto source args env root).2 ↔ Fits root (.clone source args env) := by
  cases loaded : root.vm source with
  | error e =>
    have refused : (cloneVmAuto source args env root).2 = root := by simp only [cloneVmAuto, loaded]
    rw [refused]
    refine ⟨fun _ => ?_, fun _ => sane⟩
    match args with
    | [] | [.elsewhere ..] => trivial
    | _ :: _ :: _ => simp only [Fits]
    | [.child name] =>
      rintro ⟨config, found⟩
      rw [loaded] at found
      cases found
  | ok config =>
    match args with
    | [] => simpa only [cloneVmAuto, loaded, Fits, iff_true] using sane
    | _ :: _ :: _ => simpa only [cloneVmAuto, loaded, Fits, iff_true] using sane
    | [.elsewhere name occupied] =>
      refine ⟨fun _ => trivial, fun _ => ?_⟩
      simp only [cloneVmAuto, loaded, copyTo]
      split
      · exact sane
      split
      · exact sane
      split
      · exact sane
      · exact renumber_keeps sane _
    | [.child name] =>
      by_cases free : root.occupied name = false
      · by_cases agreed : env.active = true → env.confirmed = true
        · rw [clone_child_keeps_iff sane loaded free agreed]
          exact ⟨fun fits _ _ _ => fits, fun fits => fits ⟨config, loaded⟩ free agreed⟩
        · have asked : (env.active && !env.confirmed) = true := by
            push Not at agreed
            simp [agreed.1, agreed.2]
          have declined : (cloneVmAuto source [.child name] env root).2 = root := by
            simp only [cloneVmAuto, loaded, Target.exists, free, asked, Bool.false_eq_true,
              if_false, if_true]
          rw [declined]
          exact ⟨fun _ _ _ yes => absurd yes agreed, fun _ => sane⟩
      · have refused : (cloneVmAuto source [.child name] env root).2 = root := by
          simp only [cloneVmAuto, loaded, Target.exists, Bool.not_eq_false _ ▸ free, if_true]
        rw [refused]
        exact ⟨fun _ _ absent => absurd absent free, fun _ => sane⟩

theorem step_keeps_iff (root : Root) (act : Action) (sane : UniqueAndLegal root) :
    UniqueAndLegal (step root act) ↔ Fits root act := by
  cases act with
  | install name => exact install_keeps_iff sane name
  | clone source args env => exact clone_keeps_iff sane source args env
  | remove name => exact ⟨fun _ => trivial, fun _ => sane.drop name⟩

/-- The guest ids stay unique and legal over a history from an empty VM root exactly when each of
its operations fits. -/
theorem history_unique_iff (acts : List Action) :
    Runs.Along step (fun root act => UniqueAndLegal (step root act)) .empty acts ↔
      Runs.Along step Fits .empty acts :=
  Runs.along_kept_iff step_keeps_iff .empty acts

/-- Two names that take turns: each installation is followed by the removal of the older VM. -/
def turns (rounds : Nat) : List Action :=
  (List.replicate rounds
    [.install "a", .remove "b", .install "b", .remove "a"]).flatten

/-- With never more than two VMs, the id of the new one reaches 256. -/
theorem turns_illegal : ¬ UniqueAndLegal (Runs.run step .empty (turns 123)) := by
  have reached : (Runs.run step .empty (turns 123)).configs = [.id 256] := by decide +kernel
  intro sane
  obtain ⟨n, eq, fits⟩ := sane.legal (.id 256) (by rw [reached]; exact List.mem_cons_self)
  cases eq
  exact absurd fits (by decide)

end Collei.GuestIds

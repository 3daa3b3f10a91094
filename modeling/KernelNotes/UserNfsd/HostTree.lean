import KernelNotes.UserNfsd.Readdir
import KernelNotes.Lib.FileTree
import KernelNotes.Lib.Outcome

/-!
# The NFS server on a tree of files with links

GETATTR, SETATTR, ACCESS, READ, WRITE, READDIR and CREATE of `user_nfsd.c` as sequences of system calls on a
host. Each system call resolves its path on its own: `lstat`, `utimensat` as the server calls it and `open`
with `O_EXCL` do not follow a link at the end, the others do. The model records the nodes that the calls
act on.

What else may fail on the host (permissions, space, memory) is given with the request.
-/

namespace UserNfsd

open CString Outcome

abbrev Fs := FileTree.Tree Stat

/-- The host: its files, and the nodes that system calls have acted on. -/
structure Machine where
  tree : Fs
  touched : List Nat := []

def errnoOf : FileTree.Fault → Errno
  | .enoent => .enoent
  | .enotdir => .enotdir
  | .eloop => .other

/-! ## System calls -/

def touch (i : Nat) : Op Machine Errno Unit :=
  Op.update fun m => { m with touched := m.touched ++ [i] }

/-- The node that a path names. -/
def find (nofollow : Bool) (path : List UInt8) : Op Machine Errno Nat := do
  let m ← Op.read
  match m.tree.resolve nofollow path with
  | .ok (.node i) => do
    touch i
    return i
  | .ok (.absent _ _) => Op.fail .enoent
  | .error fault => Op.fail (errnoOf fault)

def modify (i : Nat) (change : Stat → List UInt8 → Stat × List UInt8) : Op Machine Errno Unit :=
  Op.update fun m => { m with tree := m.tree.modify i change }

def nodeOf (i : Nat) : Op Machine Errno (FileTree.Node Stat) := do
  let m ← Op.read
  match m.tree.nodes i with
  | some node => return node
  | none => Op.fail .enoent

def fstat (fd : Nat) : Op Machine Errno Stat := do
  let node ← nodeOf fd
  return node.attributes

def lstat (denied : Option Errno) (path : List UInt8) : Op Machine Errno Stat := do
  Op.check denied
  let i ← find true path
  fstat i

def chmod (denied : Option Errno) (path : List UInt8) (mode : Nat) : Op Machine Errno Unit := do
  let i ← find false path
  Op.check denied
  modify i fun st data => ({ st with mode := (st.mode &&& 0o170000) ||| mode }, data)

/-- An owner that is not given stays. -/
def chown (denied : Option Errno) (path : List UInt8) (uid gid : Option Nat) : Op Machine Errno Unit := do
  let i ← find false path
  Op.check denied
  modify i fun st data => ({ st with uid := uid.getD st.uid, gid := gid.getD st.gid }, data)

/-- The data cut or filled with zeros to a length. -/
def resize (size : Nat) (data : List UInt8) : List UInt8 :=
  data.take size ++ List.replicate (size - data.length) 0

def notADirectory (i : Nat) : Op Machine Errno Unit := do
  let node ← nodeOf i
  Op.refuse node.shape.isDir .eisdir

def truncate (denied : Option Errno) (path : List UInt8) (size : Nat) : Op Machine Errno Unit := do
  let i ← find false path
  notADirectory i
  Op.check denied
  modify i fun st data => ({ st with size := size }, resize size data)

/-- `utimensat` with `AT_SYMLINK_NOFOLLOW`; a time that is omitted stays. -/
def utimensat (denied : Option Errno) (path : List UInt8) (atime mtime : Option (Nat × Nat)) :
    Op Machine Errno Unit := do
  let i ← find true path
  Op.check denied
  modify i fun st data => ({ st with atim := atime.getD st.atim, mtim := mtime.getD st.mtim }, data)

def access (denied : Option Errno) (path : List UInt8) : Op Machine Errno Unit := do
  let _ ← find false path
  Op.check denied

def openRead (denied : Option Errno) (path : List UInt8) : Op Machine Errno Nat := do
  let i ← find false path
  Op.check denied
  return i

def openWrite (denied : Option Errno) (path : List UInt8) : Op Machine Errno Nat := do
  let i ← find false path
  notADirectory i
  Op.check denied
  return i

def pread (denied : Option Errno) (fd count offset : Nat) : Op Machine Errno (List UInt8) := do
  notADirectory fd
  Op.check denied
  let node ← nodeOf fd
  return (node.data.drop offset).take count

/-- The data with bytes written at an offset. -/
def overwrite (bytes : List UInt8) (offset : Nat) (data : List UInt8) : List UInt8 :=
  resize offset data ++ bytes ++ data.drop (offset + bytes.length)

def pwrite (denied : Option Errno) (fd : Nat) (bytes : List UInt8) (offset : Nat) :
    Op Machine Errno Nat := do
  Op.check denied
  modify fd fun st data =>
    ({ st with size := (overwrite bytes offset data).length }, overwrite bytes offset data)
  return bytes.length

def toDirent (name : List UInt8) (i : Nat) : Dirent :=
  ⟨i, name.take maxNamLen, List.length_take_le _ _⟩

/-- `opendir`, and what `readdir` then lists. -/
def opendir (denied : Option Errno) (path : List UInt8) : Op Machine Errno (List Dirent) := do
  let i ← find false path
  Op.check denied
  let node ← nodeOf i
  match node.shape with
  | .dir parent entries =>
    return toDirent FileTree.dot i :: toDirent FileTree.dotdot parent ::
      entries.map fun (name, child) => toDirent name child
  | .file | .link _ => Op.fail .enotdir

def newStat (mode i : Nat) : Stat :=
  ⟨0o100000 ||| mode, 1, 0, 0, 0, 0, 0, i, (0, 0), (0, 0), (0, 0)⟩

/-- `open` with `O_CREAT`, and with `O_EXCL` if `excl`. -/
def openCreate (denied : Option Errno) (path : List UInt8) (excl : Bool) (mode : Nat) :
    Op Machine Errno Unit := do
  Op.check denied
  let m ← Op.read
  match m.tree.resolve excl path with
  | .ok (.node i) => do
    Op.refuse excl .eexist
    touch i
    notADirectory i
  | .ok (.absent parent name) => do
    touch parent
    Op.update fun m => { m with tree := m.tree.addFile parent name (newStat mode m.tree.next) }
    touch m.tree.next
  | .error fault => Op.fail (errnoOf fault)

/-! ## Procedures -/

/-- What fails for reasons other than the names, in one request. -/
structure Denied where
  lstat : Option Errno := none
  lstatChild : Option Errno := none
  postLstat : Option Errno := none
  chmod : Option Errno := none
  chown : Option Errno := none
  truncate : Option Errno := none
  utimensat : Option Errno := none
  access : Nat → Option Errno := fun _ => none
  openFile : Option Errno := none
  malloc : Bool := false
  pread : Option Errno := none
  pwrite : Option Errno := none
  fsync : Option Errno := none
  opendir : Option Errno := none

/-- A system call in a procedure. -/
def call {α : Type} (x : Op Machine Errno α) : Op Machine NfsStat α := Op.mapError errnoToNfs3 x

/-- `fill_post_attr`. -/
def fillPostAttr (d : Denied) (path : List UInt8) : Op Machine NfsStat (Option Fattr3) := do
  let st ← Op.optional (lstat d.postLstat path)
  return st.map fillFattr

structure WccAttr where
  size : UInt64
  mtime : Nfstime3
  ctime : Nfstime3

/-- `fill_pre_attr_from_stat`. -/
def fillPreAttr (st : Stat) : WccAttr :=
  ⟨UInt64.ofNat st.size, nfstimeFromStat st.mtim, nfstimeFromStat st.ctim⟩

structure WccData where
  before : Option WccAttr
  after : Option Fattr3

/-- `fill_wcc`. -/
def fillWcc (d : Denied) (path : List UInt8) (before : Option Stat) : Op Machine NfsStat WccData := do
  let after ← fillPostAttr d path
  return ⟨before.map fillPreAttr, after⟩

/-- `nfsproc3_getattr_3_svc` on the path of the handle. -/
def getattrAt (d : Denied) (path : List UInt8) : Op Machine NfsStat Fattr3 := do
  let st ← call (lstat d.lstat path)
  return fillFattr st

inductive TimeHow where
  | dontChange
  | serverTime
  | clientTime (time : Nat × Nat)

/-- The time `utimensat` sets; the server's clock is given. -/
def TimeHow.time (now : Nat × Nat) : TimeHow → Option (Nat × Nat)
  | .dontChange => none
  | .serverTime => some now
  | .clientTime time => some time

structure SetattrArgs where
  mode : Option Nat
  uid : Option Nat
  gid : Option Nat
  size : Option Nat
  atime : TimeHow
  mtime : TimeHow
  guard : Option Nfstime3
  now : Nat × Nat

/-- `nfsproc3_setattr_3_svc` on the path of the handle. -/
def setattrAt (d : Denied) (arg : SetattrArgs) (path : List UInt8) : Op Machine NfsStat WccData := do
  let before ← Op.onError (call (lstat d.lstat path)) fun _ => fillWcc d path none
  Op.onError (do
    Op.refuse (arg.guard.any (· != nfstimeFromStat before.ctim)) .notSync
    Op.given arg.mode.isSome (call (chmod d.chmod path (arg.mode.getD 0 &&& 0o7777)))
    Op.given (arg.uid.isSome ∨ arg.gid.isSome) (call (chown d.chown path arg.uid arg.gid))
    Op.given arg.size.isSome (call (truncate d.truncate path (arg.size.getD 0)))
    let atime := arg.atime.time arg.now
    let mtime := arg.mtime.time arg.now
    Op.given (atime.isSome ∨ mtime.isSome) (call (utimensat d.utimensat path atime mtime)))
    fun _ => fillWcc d path (some before)
  fillWcc d path (some before)

/-- The bits of ACCESS and the check for each. -/
def accessBits : List (Nat × Nat) := [(1, 4), (2, 1), (4, 2), (8, 2), (16, 2), (32, 1)]

/-- The bits that are asked for and pass. -/
def grant (d : Denied) (asked : Nat) (path : List UInt8) : List (Nat × Nat) → Op Machine NfsStat Nat
  | [] => return 0
  | (bit, check) :: rest =>
    if asked &&& bit = 0 then grant d asked path rest
    else do
      let passed ← Op.optional (access (d.access check) path)
      let more ← grant d asked path rest
      return if passed.isSome then bit ||| more else more

/-- `nfsproc3_access_3_svc` on the path of the handle. -/
def accessAt (d : Denied) (asked : Nat) (path : List UInt8) : Op Machine NfsStat (Nat × Option Fattr3) := do
  Op.onError (call (access (d.access 0) path)) fun _ => fillPostAttr d path
  let granted ← grant d asked path accessBits
  let attributes ← fillPostAttr d path
  return (granted, attributes)

/-- `NFS3_MAXDATA`. -/
def maxData : Nat := 1048576

structure Read3ResOk where
  attributes : Fattr3
  data : List UInt8
  eof : Bool

/-- `nfsproc3_read_3_svc` on the path of the handle. -/
def readAt (d : Denied) (offset count : Nat) (path : List UInt8) : Op Machine NfsStat Read3ResOk :=
  Op.onError (do
    let fd ← call (openRead d.openFile path)
    Op.refuse d.malloc .io
    let data ← call (pread d.pread fd (min count maxData) offset)
    let st ← call (fstat fd)
    return ⟨fillFattr st, data, (offset + data.length) % 2 ^ 64 ≥ st.size⟩)
    fun _ => fillPostAttr d path

/-- `nfsproc3_write_3_svc` on the path of the handle. It returns the number of bytes too. -/
def writeAt (d : Denied) (offset count : Nat) (data path : List UInt8) :
    Op Machine NfsStat (WccData × Nat) := do
  let before ← Op.optional (lstat d.lstat path)
  let written ← Op.onError (do
    let fd ← call (openWrite d.openFile path)
    let written ← call (pwrite d.pwrite fd (data.take count) offset)
    call (Op.check d.fsync)
    return written)
    fun _ => fillWcc d path before
  let wcc ← fillWcc d path before
  return (wcc, written)

/-- `nfsproc3_readdir_3_svc` on the path of the handle. -/
def readdirAt (d : Denied) (cookie count : Nat) (path : List UInt8) : Op Machine NfsStat Readdir3ResOk := do
  let listing ← Op.onError (call (opendir d.opendir path)) fun _ => fillPostAttr d path
  let attributes ← fillPostAttr d path
  let (entries, eof) := readdirLoop cookie (maxEntries count) listing 0 []
  return ⟨attributes, entries, eof⟩

/-- The string in a buffer. -/
def pathOf (object : List UInt8) : List UInt8 := (cstring object).getD []

inductive HandleRequest where
  | getattr
  | setattr (arg : SetattrArgs)
  | access (asked : Nat)
  | read (offset count : Nat)
  | write (offset count : Nat) (data : List UInt8)
  | readdir (cookie count : Nat)

/-- A procedure on the path of the handle, without the contents of its reply. -/
def HandleRequest.exec (d : Denied) (path : List UInt8) : HandleRequest → Op Machine NfsStat Unit
  | .getattr => do let _ ← getattrAt d path
  | .setattr arg => do let _ ← setattrAt d arg path
  | .access asked => do let _ ← accessAt d asked path
  | .read offset count => do let _ ← readAt d offset count path
  | .write offset count data => do let _ ← writeAt d offset count data path
  | .readdir cookie count => do let _ ← readdirAt d cookie count path

/-- A request with a handle. -/
def HandleRequest.serve (e : Export) (frame : Frame) (d : Denied) (handle : List UInt8)
    (request : HandleRequest) (m : Machine) : Option (Except NfsStat Unit × Machine) :=
  (fullpathFromFh e.object handle frame.dirRel frame.dirFull).map fun
    | .error _ => (.error .badhandle, m)
    | .ok (_, full) => request.exec d (pathOf full) m

/-- The mode of creation, with the mode bits if they are set. -/
inductive CreateHow where
  | unchecked (mode : Option Nat)
  | guarded (mode : Option Nat)
  | exclusive
  deriving DecidableEq, Repr

/-- `create_mode_from_args`. -/
def CreateHow.mode : CreateHow → Nat
  | .unchecked (some mode) | .guarded (some mode) => mode &&& 0o7777
  | .unchecked none | .guarded none | .exclusive => 0o644

def CreateHow.excl : CreateHow → Bool
  | .unchecked _ => false
  | .guarded _ | .exclusive => true

structure Create3ResOk where
  object : Fh
  attributes : Fattr3
  wcc : WccData

/-- A CREATE that is refused before the file is opened. -/
def refuseCreate (d : Denied) (dir : List UInt8) (status : NfsStat) : Op Machine NfsStat Create3ResOk := do
  let before ← Op.optional (lstat d.lstat dir)
  let _ ← fillWcc d dir before
  Op.fail status

/-- The part of `nfsproc3_create_3_svc` that opens the file; the handle is that of its relative path. -/
def createAt (d : Denied) (how : CreateHow) (dir child : List UInt8) (handle : Except Errno Fh) :
    Op Machine NfsStat Create3ResOk := do
  let before ← Op.optional (lstat d.lstat dir)
  let (fh, st) ← Op.onError (do
    call (openCreate d.openFile child how.excl how.mode)
    let st ← call (lstat d.lstatChild child)
    let fh ← call (Op.lift handle)
    return (fh, st))
    fun _ => fillWcc d dir before
  let wcc ← fillWcc d dir before
  return ⟨fh, fillFattr st, wcc⟩

/-- `nfsproc3_create_3_svc`. -/
def createOn (e : Export) (frame : Frame) (d : Denied) (handle name : List UInt8) (how : CreateHow)
    (m : Machine) : Option (Except NfsStat Create3ResOk × Machine) :=
  (fullpathFromFh e.object handle frame.dirRel frame.dirFull).bind fun
    | .error _ => some (.error .badhandle, m)
    | .ok (dirRel, dirFull) =>
      (childRelpath dirRel name frame.childRel).bind fun
        | .error err => some (refuseCreate d (pathOf dirFull) (errnoToNfs3 err) m)
        | .ok childRel => (strcmp name [dot, 0]).bind fun self =>
          if self then some (refuseCreate d (pathOf dirFull) .exist m)
          else
            (joinExportPath e.object childRel frame.childFull).bind fun
              | .error err => some (refuseCreate d (pathOf dirFull) (errnoToNfs3 err) m)
              | .ok childFull => (fhFromPath childRel).map fun fh =>
                createAt d how (pathOf dirFull) (pathOf childFull) fh m

/-! ## Requests that stay with one node -/

/-- The calls so far acted on one node at most: no other node has changed, and names lead where they did. -/
structure Only (tree : Fs) (o : Nat) (m : Machine) : Prop where
  shape : FileTree.SameShape tree m.tree
  touched : ∀ i ∈ m.touched, i = o
  others : ∀ i, i ≠ o → m.tree.nodes i = tree.nodes i

/-- A path leads to no other node. -/
def Leads (tree : Fs) (nofollow : Bool) (path : List UInt8) (o : Nat) : Prop :=
  ∀ i, tree.resolve nofollow path = .ok (.node i) → i = o

section Keeps

variable {tree : Fs} {o : Nat}

theorem touch_keeps : Keeps (Only tree o) (touch o) := by
  refine Keeps.update fun m only => ⟨only.shape, fun i mem => ?_, only.others⟩
  rcases List.mem_append.mp mem with old | last
  · exact only.touched i old
  · exact List.mem_singleton.mp last

theorem find_ends {nofollow : Bool} {path : List UInt8} (leads : Leads tree nofollow path o) {m : Machine}
    (only : Only tree o m) :
    Ends (fun i m' => i = o ∧ Only tree o m') (fun _ => Only tree o) (find nofollow path m) := by
  refine Ends.read_bind ?_
  rw [← only.shape.resolve]
  match found : tree.resolve nofollow path with
  | .ok (.node i) =>
    obtain rfl := leads i found
    exact Ends.bind (fun _ => Only tree i) (touch_keeps m only) fun _ _ only' => ⟨rfl, only'⟩
  | .ok (.absent _ _) => exact only
  | .error _ => exact only

theorem found_keeps {α : Type} {path : List UInt8} {body : Nat → Op Machine Errno α} {nofollow : Bool}
    (leads : Leads tree nofollow path o) (rest : Keeps (Only tree o) (body o)) :
    Keeps (Only tree o) (find nofollow path >>= body) := by
  intro m only
  refine Ends.bind (fun i m' => i = o ∧ Only tree o m') (find_ends leads only) ?_
  rintro _ m' ⟨rfl, only'⟩
  exact rest m' only'

theorem modify_keeps (change : Stat → List UInt8 → Stat × List UInt8) :
    Keeps (Only tree o) (modify o change) := by
  refine Keeps.update fun m only =>
    ⟨only.shape.trans (FileTree.modify_sameShape m.tree o change), only.touched, fun i other => ?_⟩
  exact (if_neg other).trans (only.others i other)

theorem nodeOf_keeps (i : Nat) : Keeps (Only tree o) (nodeOf i) := by
  refine Keeps.bind Keeps.read fun m => ?_
  split
  · exact Keeps.pure _
  · exact Keeps.fail _

theorem fstat_keeps (fd : Nat) : Keeps (Only tree o) (fstat fd) :=
  Keeps.bind (nodeOf_keeps fd) fun _ => Keeps.pure _

theorem notADirectory_keeps (i : Nat) : Keeps (Only tree o) (notADirectory i) :=
  Keeps.bind (nodeOf_keeps i) fun _ => Keeps.refuse _ _

theorem call_keeps {α : Type} {x : Op Machine Errno α} (keeps : Keeps (Only tree o) x) :
    Keeps (Only tree o) (call x) := Keeps.mapError _ keeps

theorem lstat_keeps (denied : Option Errno) {path : List UInt8} (leads : Leads tree true path o) :
    Keeps (Only tree o) (lstat denied path) :=
  Keeps.bind (Keeps.check _) fun _ => found_keeps leads (fstat_keeps o)

theorem fillPostAttr_keeps (d : Denied) {path : List UInt8} (leads : Leads tree true path o) :
    Keeps (Only tree o) (fillPostAttr d path) :=
  Keeps.bind (Keeps.optional (lstat_keeps _ leads)) fun _ => Keeps.pure _

theorem fillWcc_keeps (d : Denied) {path : List UInt8} (before : Option Stat)
    (leads : Leads tree true path o) : Keeps (Only tree o) (fillWcc d path before) :=
  Keeps.bind (fillPostAttr_keeps d leads) fun _ => Keeps.pure _

variable {path : List UInt8} (leads : Leads tree true path o) (follows : Leads tree false path o) (d : Denied)

include leads in
theorem getattrAt_keeps : Keeps (Only tree o) (getattrAt d path) :=
  Keeps.bind (call_keeps (lstat_keeps _ leads)) fun _ => Keeps.pure _

include follows

theorem chmod_keeps (denied : Option Errno) (mode : Nat) : Keeps (Only tree o) (chmod denied path mode) :=
  found_keeps follows (Keeps.bind (Keeps.check _) fun _ => modify_keeps _)

theorem chown_keeps (denied : Option Errno) (uid gid : Option Nat) :
    Keeps (Only tree o) (chown denied path uid gid) :=
  found_keeps follows (Keeps.bind (Keeps.check _) fun _ => modify_keeps _)

theorem truncate_keeps (denied : Option Errno) (size : Nat) :
    Keeps (Only tree o) (truncate denied path size) :=
  found_keeps follows (Keeps.bind (notADirectory_keeps o) fun _ =>
    Keeps.bind (Keeps.check _) fun _ => modify_keeps _)

omit follows in
include leads in
theorem utimensat_keeps (denied : Option Errno) (atime mtime : Option (Nat × Nat)) :
    Keeps (Only tree o) (utimensat denied path atime mtime) :=
  found_keeps leads (Keeps.bind (Keeps.check _) fun _ => modify_keeps _)

theorem access_keeps (denied : Option Errno) : Keeps (Only tree o) (access denied path) :=
  found_keeps follows (Keeps.check _)

theorem openWrite_ends (denied : Option Errno) {m : Machine} (only : Only tree o m) :
    Ends (fun fd m' => fd = o ∧ Only tree o m') (fun _ => Only tree o) (openWrite denied path m) := by
  refine Ends.bind (fun i m' => i = o ∧ Only tree o m') (find_ends follows only) ?_
  rintro _ m' ⟨rfl, only'⟩
  refine Ends.bind _ (notADirectory_keeps _ m' only') fun _ m'' only'' => ?_
  exact Ends.bind _ (Keeps.check _ m'' only'') fun _ _ last => ⟨rfl, last⟩

include leads

theorem setattrAt_keeps (arg : SetattrArgs) : Keeps (Only tree o) (setattrAt d arg path) := by
  refine Keeps.bind (Keeps.onError (call_keeps (lstat_keeps _ leads)) fun _ => fillWcc_keeps d _ leads)
    fun before => Keeps.bind (Keeps.onError ?_ fun _ => fillWcc_keeps d _ leads) fun _ =>
      fillWcc_keeps d _ leads
  refine Keeps.bind (Keeps.refuse _ _) fun _ => ?_
  refine Keeps.bind (Keeps.given (call_keeps (chmod_keeps follows _ _))) fun _ => ?_
  refine Keeps.bind (Keeps.given (call_keeps (chown_keeps follows _ _ _))) fun _ => ?_
  refine Keeps.bind (Keeps.given (call_keeps (truncate_keeps follows _ _))) fun _ => ?_
  exact Keeps.given (call_keeps (utimensat_keeps leads _ _ _))

omit leads in
theorem grant_keeps (asked : Nat) (bits : List (Nat × Nat)) :
    Keeps (Only tree o) (grant d asked path bits) := by
  induction bits with
  | nil => exact Keeps.pure _
  | cons entry rest ih =>
    rw [grant]
    exact Keeps.ite ih (Keeps.bind (Keeps.optional (access_keeps follows _)) fun _ =>
      Keeps.bind ih fun _ => Keeps.pure _)

theorem accessAt_keeps (asked : Nat) : Keeps (Only tree o) (accessAt d asked path) :=
  Keeps.bind (Keeps.onError (call_keeps (access_keeps follows _)) fun _ => fillPostAttr_keeps d leads)
    fun _ => Keeps.bind (grant_keeps follows d asked _) fun _ =>
      Keeps.bind (fillPostAttr_keeps d leads) fun _ => Keeps.pure _

theorem readAt_keeps (offset count : Nat) : Keeps (Only tree o) (readAt d offset count path) := by
  refine Keeps.onError ?_ fun _ => fillPostAttr_keeps d leads
  refine Keeps.bind (call_keeps (found_keeps follows
    (Keeps.bind (Keeps.check _) fun _ => Keeps.pure o))) fun fd => ?_
  refine Keeps.bind (Keeps.refuse _ _) fun _ => ?_
  refine Keeps.bind (call_keeps (Keeps.bind (notADirectory_keeps fd) fun _ =>
    Keeps.bind (Keeps.check _) fun _ => Keeps.bind (nodeOf_keeps fd) fun _ => Keeps.pure _)) fun data => ?_
  exact Keeps.bind (call_keeps (fstat_keeps fd)) fun _ => Keeps.pure _

theorem writeAt_keeps (offset count : Nat) (data : List UInt8) :
    Keeps (Only tree o) (writeAt d offset count data path) := by
  refine Keeps.bind (Keeps.optional (lstat_keeps _ leads)) fun before => ?_
  refine Keeps.bind (Keeps.onError ?_ fun _ => fillWcc_keeps d _ leads) fun _ =>
    Keeps.bind (fillWcc_keeps d _ leads) fun _ => Keeps.pure _
  intro m only
  refine Ends.bind (fun fd m' => fd = o ∧ Only tree o m') (Ends.mapError (openWrite_ends follows _ only)) ?_
  rintro _ m' ⟨rfl, only'⟩
  refine Keeps.bind (call_keeps (Keeps.bind (Keeps.check _) fun _ =>
    Keeps.bind (modify_keeps _) fun _ => Keeps.pure _)) (fun _ => ?_) m' only'
  exact Keeps.bind (call_keeps (Keeps.check _)) fun _ => Keeps.pure _

theorem readdirAt_keeps (cookie count : Nat) : Keeps (Only tree o) (readdirAt d cookie count path) := by
  refine Keeps.bind (Keeps.onError (call_keeps ?_) fun _ => fillPostAttr_keeps d leads) fun _ =>
    Keeps.bind (fillPostAttr_keeps d leads) fun _ => Keeps.pure _
  refine found_keeps follows (Keeps.bind (Keeps.check _) fun _ =>
    Keeps.bind (nodeOf_keeps o) fun node => ?_)
  split
  · exact Keeps.pure _
  · exact Keeps.fail _
  · exact Keeps.fail _

/-- A request on a path that leads to one node, links followed or not, acts on that node only. -/
theorem exec_keeps (request : HandleRequest) : Keeps (Only tree o) (request.exec d path) := by
  cases request with
  | getattr => exact Keeps.bind (getattrAt_keeps leads d) fun _ => Keeps.pure _
  | setattr arg => exact Keeps.bind (setattrAt_keeps leads follows d arg) fun _ => Keeps.pure _
  | access asked => exact Keeps.bind (accessAt_keeps leads follows d asked) fun _ => Keeps.pure _
  | read offset count => exact Keeps.bind (readAt_keeps leads follows d offset count) fun _ => Keeps.pure _
  | write offset count data =>
    exact Keeps.bind (writeAt_keeps leads follows d offset count data) fun _ => Keeps.pure _
  | readdir cookie count =>
    exact Keeps.bind (readdirAt_keeps leads follows d cookie count) fun _ => Keeps.pure _

end Keeps

end UserNfsd

import KernelNotes.UserNfsd.Handle
import KernelNotes.Lib.Run

/-!
# LOOKUP, CREATE and REMOVE of the user-space NFS server

`nfsproc3_lookup_3_svc`, `nfsproc3_create_3_svc` and `nfsproc3_remove_3_svc` of `user_nfsd.c`. A
call carries a handle, which is any string of bytes, and a name. The server answers with a status
and perhaps a handle, after system calls on paths of the host. Whatever the client sends, and
whichever of the returned handles it sends again, these paths stay below the export.
-/

namespace UserNfsd

open CString

inductive NfsStat where
  | ok
  | perm
  | noent
  | io
  | acces
  | exist
  | xdev
  | nodev
  | notdir
  | isdir
  | inval
  | fbig
  | nospc
  | rofs
  | mlink
  | nametoolong
  | notempty
  | badhandle
  | notSync
  | notsupp
  deriving DecidableEq, Repr

/-- `errno_to_nfs3`. -/
def errnoToNfs3 : Errno → NfsStat
  | .eperm => .perm
  | .enoent => .noent
  | .eacces => .acces
  | .eexist => .exist
  | .exdev => .xdev
  | .enodev => .nodev
  | .enotdir => .notdir
  | .eisdir => .isdir
  | .einval => .inval
  | .efbig => .fbig
  | .enospc => .nospc
  | .erofs => .rofs
  | .emlink => .mlink
  | .enametoolong => .nametoolong
  | .enotempty => .notempty
  | .eopnotsupp => .notsupp
  | .other => .io

/-- A system call on a path of the host, given by the object that holds it. -/
inductive SysCall where
  | lstat (path : List UInt8)
  | openFile (path : List UInt8)
  | unlink (path : List UInt8)
  deriving DecidableEq, Repr

@[simp] def SysCall.path : SysCall → List UInt8
  | .lstat path => path
  | .openFile path => path
  | .unlink path => path

/-- The answer of the server and the system calls it made. -/
structure Reply where
  status : NfsStat
  object : Option Fh
  calls : List SysCall

/-- The buffers of a procedure, with whatever they held before. -/
structure Frame where
  dirRel : List UInt8
  childRel : List UInt8
  dirFull : List UInt8
  childFull : List UInt8
  sized : dirRel.length = maxPath ∧ childRel.length = maxPath ∧ dirFull.length = pathMax ∧
    childFull.length = pathMax

/-- How the host answers: the errors of `lstat` on the child, of `open` and of `unlink`. -/
structure Host where
  lstatChild : Option Errno := none
  openChild : Option Errno := none
  unlinkChild : Option Errno := none
  deriving DecidableEq, Repr

/-- The export root, a string in an array of `PATH_MAX` bytes. -/
structure Export where
  root : List UInt8
  plain : 0 ∉ root
  short : root.length < pathMax

def Export.object (e : Export) : List UInt8 :=
  e.root ++ 0 :: List.replicate (pathMax - e.root.length - 1) 0

/-- A failure after the handle was resolved: the attributes of the directory are sent with it. -/
def failed (status : NfsStat) (dirFull : List UInt8) (calls : List SysCall) : Option Reply :=
  some ⟨status, none, calls ++ [.lstat dirFull]⟩

/-- `nfsproc3_lookup_3_svc`. -/
def lookup (root : List UInt8) (frame : Frame) (host : Host) (handle name : List UInt8) :
    Option Reply :=
  (fullpathFromFh root handle frame.dirRel frame.dirFull).bind fun
    | .error _ => some ⟨.badhandle, none, []⟩
    | .ok (dirRel, dirFull) =>
      (childRelpath dirRel name frame.childRel).bind fun
        | .error e => failed (errnoToNfs3 e) dirFull []
        | .ok childRel =>
          (joinExportPath root childRel frame.childFull).bind fun
            | .error e => failed (errnoToNfs3 e) dirFull []
            | .ok childFull =>
              match host.lstatChild with
              | some e => failed (errnoToNfs3 e) dirFull [.lstat childFull]
              | none =>
                (fhFromPath childRel).bind fun
                  | .error e => failed (errnoToNfs3 e) dirFull [.lstat childFull]
                  | .ok fh => some ⟨.ok, some fh, [.lstat childFull, .lstat dirFull]⟩

/-- `nfsproc3_create_3_svc`. -/
def create (root : List UInt8) (frame : Frame) (host : Host) (handle name : List UInt8) :
    Option Reply :=
  (fullpathFromFh root handle frame.dirRel frame.dirFull).bind fun
    | .error _ => some ⟨.badhandle, none, []⟩
    | .ok (dirRel, dirFull) =>
      (childRelpath dirRel name frame.childRel).bind fun
        | .error e => failed (errnoToNfs3 e) dirFull [.lstat dirFull]
        | .ok childRel => (strcmp name [dot, 0]).bind fun self =>
          if self then failed .exist dirFull [.lstat dirFull]
          else
            (joinExportPath root childRel frame.childFull).bind fun
              | .error e => failed (errnoToNfs3 e) dirFull [.lstat dirFull]
              | .ok childFull =>
                match host.openChild, host.lstatChild with
                | some e, _ =>
                  failed (errnoToNfs3 e) dirFull [.lstat dirFull, .openFile childFull]
                | none, some e =>
                  failed (errnoToNfs3 e) dirFull
                    [.lstat dirFull, .openFile childFull, .lstat childFull]
                | none, none =>
                  (fhFromPath childRel).bind fun
                    | .error e =>
                      failed (errnoToNfs3 e) dirFull
                        [.lstat dirFull, .openFile childFull, .lstat childFull]
                    | .ok fh =>
                      some ⟨.ok, some fh, [.lstat dirFull, .openFile childFull,
                        .lstat childFull, .lstat dirFull]⟩

/-- `nfsproc3_remove_3_svc`. -/
def remove (root : List UInt8) (frame : Frame) (host : Host) (handle name : List UInt8) :
    Option Reply :=
  (fullpathFromFh root handle frame.dirRel frame.dirFull).bind fun
    | .error _ => some ⟨.badhandle, none, []⟩
    | .ok (dirRel, dirFull) =>
      (childRelpath dirRel name frame.childRel).bind fun
        | .error e => failed (errnoToNfs3 e) dirFull [.lstat dirFull]
        | .ok childRel => (strcmp name [dot, 0]).bind fun self =>
          if self then failed .inval dirFull [.lstat dirFull]
          else
            (joinExportPath root childRel frame.childFull).bind fun
              | .error e => failed (errnoToNfs3 e) dirFull [.lstat dirFull]
              | .ok childFull =>
                match host.unlinkChild with
                | some e => failed (errnoToNfs3 e) dirFull [.lstat dirFull, .unlink childFull]
                | none =>
                  some ⟨.ok, none, [.lstat dirFull, .unlink childFull, .lstat dirFull]⟩

/-! ## Chains of calls -/

inductive Procedure where
  | lookup
  | create
  | remove
  deriving DecidableEq, Repr

/-- A handle that a client sends: any bytes, or one of the handles the server has returned. -/
inductive Sent where
  | raw (bytes : List UInt8)
  | returned (index : Nat)

/-- One call. The name is any bytes; the decoder puts a terminator after them. -/
structure Call where
  procedure : Procedure
  handle : Sent
  name : List UInt8
  frame : Frame
  host : Host

/-- The bytes a client sends; a returned handle went out through `set_nfsfh`. -/
def Sent.resolve (returned : List Fh) : Sent → List UInt8
  | .raw bytes => bytes
  | .returned index => (returned[index]?).elim [] Fh.bytes

def serve (e : Export) (returned : List Fh) (call : Call) : Option Reply :=
  let handle := call.handle.resolve returned
  let name := call.name ++ [0]
  match call.procedure with
  | .lookup => lookup e.object call.frame call.host handle name
  | .create => create e.object call.frame call.host handle name
  | .remove => remove e.object call.frame call.host handle name

/-- The handles a client has after a call. -/
def step (e : Export) (returned : List Fh) (call : Call) : List Fh :=
  returned ++ ((serve e returned call).bind Reply.object).toList

/-! ## Confinement -/

/-- The object holds a string, and the string is a path below the export. -/
def Below (e : Export) (object : List UInt8) : Prop :=
  ∃ path, cstring object = some path ∧ Confined e.root path

/-- The server answers, and every path it gave to the host is below the export. -/
def Proper (e : Export) (answer : Option Reply) : Prop :=
  ∃ reply, answer = some reply ∧ ∀ call ∈ reply.calls, Below e call.path

theorem Export.cstring_object (e : Export) : cstring e.object = some e.root :=
  cstring_append e.plain _

/-- `nfsfh_to_relpath` on any bytes refuses them or leaves a safe path in the buffer. -/
theorem nfsfhToRelpath_spec (handle relpath : List UInt8) :
    (∃ e, nfsfhToRelpath handle relpath = some (.error e)) ∨
    ∃ out s, nfsfhToRelpath handle relpath = some (.ok out) ∧ out.length = relpath.length ∧
      cstring out = some s ∧ Safe s := by
  rw [nfsfhToRelpath]
  split
  · exact .inl ⟨_, rfl⟩
  rename_i fits
  have copied : memcpy (List.replicate fhSize 0) 0 handle =
      some (handle ++ List.replicate (fhSize - handle.length) 0) :=
    @memcpy_zeros [] handle fhSize (by omega)
  have size : (handle ++ List.replicate (fhSize - handle.length) 0).length = fhSize := by
    rw [List.length_append, List.length_replicate]
    omega
  rw [copied, Option.bind_some, Fh.ofData, dif_pos size, Option.bind_some]
  rcases pathFromFh_spec ⟨handle.length, _, size⟩ relpath with refused | ⟨out, s, eq, len, holds, safe, -⟩
  · exact .inl refused
  · exact .inr ⟨out, s, eq, len, holds, safe⟩

/-- `fullpath_from_fh` on any bytes refuses them or leaves a path below the export. -/
theorem fullpathFromFh_spec (e : Export) (handle relpath fullpath : List UInt8) :
    (∃ err, fullpathFromFh e.object handle relpath fullpath = some (.error err)) ∨
    ∃ rel full s, fullpathFromFh e.object handle relpath fullpath = some (.ok (rel, full)) ∧
      cstring rel = some s ∧ Below e full := by
  rw [fullpathFromFh]
  rcases nfsfhToRelpath_spec handle relpath with ⟨err, refused⟩ | ⟨rel, s, eq, -, holds, -⟩
  · rw [refused]
    exact .inl ⟨_, rfl⟩
  rw [eq, Option.bind_some]
  rcases joinExportPath_spec e.cstring_object holds fullpath with
    ⟨err, refused⟩ | ⟨full, path, eq, -, below, confined⟩
  · dsimp only
    rw [refused]
    exact .inl ⟨_, rfl⟩
  · dsimp only
    rw [eq]
    exact .inr ⟨rel, full, s, rfl, holds, path, below, confined⟩

section Procedures

variable {e : Export} {dirFull childFull : List UInt8}

theorem failed_proper (status : NfsStat) {calls : List SysCall} (dir : Below e dirFull)
    (earlier : ∀ call ∈ calls, Below e call.path) : Proper e (failed status dirFull calls) := by
  refine ⟨_, rfl, fun call mem => ?_⟩
  rcases List.mem_append.mp mem with before | last
  · exact earlier call before
  · rw [List.mem_singleton.mp last]
    exact dir

/-- A procedure that resolves the handle and goes on only with a path below the export. -/
theorem resolved_proper (handle : List UInt8) (frame : Frame)
    {body : List UInt8 → List UInt8 → Option Reply}
    (proper : ∀ rel full s, cstring rel = some s → Below e full → Proper e (body rel full)) :
    Proper e ((fullpathFromFh e.object handle frame.dirRel frame.dirFull).bind fun
      | .error _ => some ⟨.badhandle, none, []⟩
      | .ok (dirRel, dirFull) => body dirRel dirFull) := by
  rcases fullpathFromFh_spec e handle frame.dirRel frame.dirFull with
    ⟨err, refused⟩ | ⟨rel, full, s, eq, holds, below⟩
  · rw [refused]
    exact ⟨_, rfl, fun call mem => absurd mem List.not_mem_nil⟩
  · rw [eq]
    exact proper rel full s holds below

variable {refused : Errno → Option Reply}

theorem child_proper {dirRel name dir plainName : List UInt8} (frame : Frame)
    (directory : cstring dirRel = some dir) (named : cstring name = some plainName)
    {body : List UInt8 → Option Reply} (onError : ∀ err, Proper e (refused err))
    (proper : ∀ rel s, cstring rel = some s → Proper e (body rel)) :
    Proper e ((childRelpath dirRel name frame.childRel).bind fun
      | .error err => refused err
      | .ok childRel => body childRel) := by
  have sized : frame.childRel ≠ [] := by
    intro empty
    have length := frame.sized.2.1
    rw [empty] at length
    exact absurd length (by decide)
  rcases childRelpath_spec directory named frame.childRel sized with
    ⟨err, eq⟩ | ⟨rel, s, eq, -, holds, -⟩
  · rw [eq]
    exact onError err
  · rw [eq]
    exact proper rel s holds

theorem join_proper {childRel rel : List UInt8} (frame : Frame)
    (holds : cstring childRel = some rel) {body : List UInt8 → Option Reply}
    (onError : ∀ err, Proper e (refused err))
    (proper : ∀ full, Below e full → Proper e (body full)) :
    Proper e ((joinExportPath e.object childRel frame.childFull).bind fun
      | .error err => refused err
      | .ok childFull => body childFull) := by
  rcases joinExportPath_spec e.cstring_object holds frame.childFull with
    ⟨err, eq⟩ | ⟨full, path, eq, -, below, confined⟩
  · rw [eq]
    exact onError err
  · rw [eq]
    exact proper full ⟨path, below, confined⟩

theorem handle_proper {childRel rel : List UInt8} (holds : cstring childRel = some rel)
    {body : Fh → Option Reply} (onError : ∀ err, Proper e (refused err))
    (proper : ∀ fh, Proper e (body fh)) :
    Proper e ((fhFromPath childRel).bind fun
      | .error err => refused err
      | .ok fh => body fh) := by
  rcases fhFromPath_eq holds with ⟨_, -, eq⟩ | ⟨-, err, eq⟩
  · rw [eq]
    exact proper _
  · rw [eq]
    exact onError err

end Procedures

section

variable (e : Export) (frame : Frame) (host : Host) (handle : List UInt8) {name plainName : List UInt8}
  (named : cstring name = some plainName)

include named

theorem lookup_proper : Proper e (lookup e.object frame host handle name) := by
  refine resolved_proper handle frame fun dirRel dirFull dir directory dirBelow => ?_
  refine child_proper frame directory named ?_ fun childRel rel holds => ?_
  · exact fun err => failed_proper _ dirBelow (by simp)
  refine join_proper frame holds ?_ fun childFull childBelow => ?_
  · exact fun err => failed_proper _ dirBelow (by simp)
  split
  · exact failed_proper _ dirBelow (by simpa using childBelow)
  refine handle_proper holds ?_ fun fh => ?_
  · exact fun err => failed_proper _ dirBelow (by simpa using childBelow)
  · exact ⟨_, rfl, by simp [dirBelow, childBelow]⟩

theorem create_proper : Proper e (create e.object frame host handle name) := by
  refine resolved_proper handle frame fun dirRel dirFull dir directory dirBelow => ?_
  refine child_proper frame directory named ?_ fun childRel rel holds => ?_
  · exact fun err => failed_proper _ dirBelow (by simpa using dirBelow)
  rw [strcmp_eq named (rfl : cstring [dot, 0] = some [dot]), Option.bind_some]
  split
  · exact failed_proper _ dirBelow (by simpa using dirBelow)
  refine join_proper frame holds ?_ fun childFull childBelow => ?_
  · exact fun err => failed_proper _ dirBelow (by simpa using dirBelow)
  split
  · exact failed_proper _ dirBelow (by simp [dirBelow, childBelow])
  · exact failed_proper _ dirBelow (by simp [dirBelow, childBelow])
  refine handle_proper holds ?_ fun fh => ?_
  · exact fun err => failed_proper _ dirBelow (by simp [dirBelow, childBelow])
  · exact ⟨_, rfl, by simp [dirBelow, childBelow]⟩

theorem remove_proper : Proper e (remove e.object frame host handle name) := by
  refine resolved_proper handle frame fun dirRel dirFull dir directory dirBelow => ?_
  refine child_proper frame directory named ?_ fun childRel rel holds => ?_
  · exact fun err => failed_proper _ dirBelow (by simpa using dirBelow)
  rw [strcmp_eq named (rfl : cstring [dot, 0] = some [dot]), Option.bind_some]
  split
  · exact failed_proper _ dirBelow (by simpa using dirBelow)
  refine join_proper frame holds ?_ fun childFull childBelow => ?_
  · exact fun err => failed_proper _ dirBelow (by simpa using dirBelow)
  split
  · exact failed_proper _ dirBelow (by simp [dirBelow, childBelow])
  · exact ⟨_, rfl, by simp [dirBelow, childBelow]⟩

end

theorem serve_proper (e : Export) (returned : List Fh) (call : Call) :
    Proper e (serve e returned call) := by
  obtain ⟨plainName, named⟩ : ∃ plainName, cstring (call.name ++ [0]) = some plainName :=
    cstring_of_mem (List.mem_append_right _ List.mem_cons_self)
  rw [serve]
  cases call.procedure with
  | lookup => exact lookup_proper e call.frame call.host _ named
  | create => exact create_proper e call.frame call.host _ named
  | remove => exact remove_proper e call.frame call.host _ named

/-- Every accepted path comes back from its handle, different paths have different handles, and
along every chain of calls the server answers, with no access outside an object, and hands only
paths below the export to the host. -/
theorem handles_stay_inside (e : Export) :
    (∀ p s fh path, cstring p = some s → fhFromPath p = some (.ok fh) → s.length < path.length →
      ∃ out, pathFromFh fh path = some (.ok out) ∧ out.length = path.length ∧
        cstring out = some s) ∧
    (∀ p q s t fh fh', cstring p = some s → cstring q = some t → fhFromPath p = some (.ok fh) →
      fhFromPath q = some (.ok fh') → s ≠ t → fh.bytes ≠ fh'.bytes) ∧
    ∀ (start : List Fh) (calls : List Call),
      Runs.Along (step e) (fun returned call => Proper e (serve e returned call)) start calls := by
  refine ⟨?_, ?_, ?_⟩
  · intro p s fh path holds made room
    exact pathFromFh_of_path holds made room
  · intro p q s t fh fh' left right made made' differ same
    exact differ (eq_of_bytes_eq left right made made' same)
  · intro start calls
    have each : ∀ returned call, Proper e (serve e returned call) ↔ True :=
      fun returned call => iff_of_true (serve_proper e returned call) trivial
    exact (Runs.along_congr each start calls).mpr (Runs.along_true start calls)

/-- The export `/srv/`. -/
def srv : Export := ⟨[47, 115, 114, 118, 47], by decide, by decide⟩

/-- The handle of `a/b` under this export. -/
theorem srv_handle_of_path : ∃ fh out, fhFromPath [97, slash, 98, 0] = some (.ok fh) ∧
    pathFromFh fh (List.replicate maxPath 0) = some (.ok out) ∧ cstring out = some [97, slash, 98] := by
  have holds : cstring [97, slash, 98, 0] = some [97, slash, 98] := rfl
  rcases fhFromPath_eq holds with ⟨short, -, eq⟩ | ⟨never, -⟩
  · obtain ⟨out, back, -, same⟩ := (handles_stay_inside srv).1 _ _ _ (List.replicate maxPath 0) holds eq
      (by rw [List.length_replicate]; decide)
    exact ⟨_, out, eq, back, same⟩
  · exact absurd ⟨by decide, by decide⟩ never

end UserNfsd

import KernelNotes.Lib.CString

/-!
# File handles and paths of the user-space NFS server

`user_nfsd_core.c`, and the helpers of `user_nfsd.c` that go between a handle, the path it stands
for and the name of an entry. A handle is the path of the file relative to the export, in clear
text, behind four bytes of magic. Since any client can make up a handle, the path in it is checked
each time.

Functions have no result when they access memory outside of their objects, and otherwise an error
code or a value.
-/

namespace UserNfsd

open CString

def fhSize : Nat := 64

def maxPath : Nat := 1024

def pathMax : Nat := 4096

def slash : UInt8 := 47

def dot : UInt8 := 46

/-- `UNFS_MAGIC`. -/
def magic : List UInt8 := [85, 78, 70, 83]

inductive Errno where
  | eperm
  | enoent
  | eacces
  | eexist
  | exdev
  | enodev
  | enotdir
  | eisdir
  | einval
  | efbig
  | enospc
  | erofs
  | emlink
  | enametoolong
  | enotempty
  | eopnotsupp
  | other
  deriving DecidableEq, Repr

/-- An access outside of an object, or an error code, or a value. -/
abbrev C (α : Type) := Option (Except Errno α)

/-- `struct unfs_fh`. -/
structure Fh where
  len : Nat
  data : List UInt8
  size : data.length = fhSize

/-- A handle with these bytes in its array. -/
def Fh.ofData (len : Nat) (data : List UInt8) : Option Fh :=
  if size : data.length = fhSize then some ⟨len, data, size⟩ else none

/-! ## `user_nfsd_core.c` -/

/-- `component_is_dotdot`. -/
def componentIsDotdot (start : List UInt8) (len : Nat) : Option Bool :=
  if len = 2 then do
    let first ← start[0]?
    let second ← start[1]?
    return first = dot ∧ second = dot
  else some false

/-- The loop of `unfs_path_is_safe`; there are no more components than bytes. -/
def scan : Nat → List UInt8 → Option Bool
  | 0, _ => none
  | fuel + 1, component =>
    component[0]?.bind fun first =>
      if first = 0 then some true
      else
        (strchr slash component).bind fun found =>
          match found with
          | none =>
            (strlen component).bind fun len =>
              (componentIsDotdot component len).map fun dotdot => !dotdot
          | some len =>
            (componentIsDotdot component len).bind fun dotdot =>
              if dotdot then some false else scan fuel (component.drop (len + 1))

/-- `unfs_path_is_safe`. -/
def pathIsSafe (path : List UInt8) : Option Bool :=
  path[0]?.bind fun first => if first = slash then some false else scan path.length path

/-- `unfs_fh_from_path`. -/
def fhFromPath (path : List UInt8) : C Fh :=
  (pathIsSafe path).bind fun safe =>
    if safe = false then some (.error .einval)
    else
      (strlen path).bind fun len =>
        if magic.length + len + 1 > fhSize then some (.error .enametoolong)
        else
          (read path (len + 1)).bind fun bytes =>
            (memcpy (List.replicate fhSize 0) 0 magic).bind fun data =>
              (memcpy data magic.length bytes).bind fun data =>
                (Fh.ofData (magic.length + len + 1) data).map .ok

/-- `unfs_path_from_fh`, into an object of this size. -/
def pathFromFh (fh : Fh) (path : List UInt8) : C (List UInt8) :=
  if path.length = 0 then some (.error .einval)
  else if fh.len ≤ magic.length ∨ fh.len > fhSize then some (.error .einval)
  else
    (read fh.data magic.length).bind fun first =>
      if first ≠ magic then some (.error .einval)
      else
        fh.data[fh.len - 1]?.bind fun last =>
          if last ≠ 0 then some (.error .einval)
          else
            (strlen (fh.data.drop magic.length)).bind fun len =>
              if len + 1 > path.length then some (.error .enametoolong)
              else
                (pathIsSafe (fh.data.drop magic.length)).bind fun safe =>
                  if safe = false then some (.error .einval)
                  else
                    (read (fh.data.drop magic.length) (len + 1)).bind fun bytes =>
                      (memcpy path 0 bytes).map .ok

/-- The loop that trims the slashes at the end of the export root. -/
def trimmedLen (root : List UInt8) : Nat → Option Nat
  | 0 => some 0
  | 1 => some 1
  | len + 2 => root[len + 1]?.bind fun last => if last = slash then trimmedLen root (len + 1) else some (len + 2)

/-- `unfs_join_export_path`, into an object of this size. -/
def joinExportPath (root relpath out : List UInt8) : C (List UInt8) :=
  if out.length = 0 then some (.error .einval)
  else
    (pathIsSafe relpath).bind fun safe =>
      if safe = false then some (.error .einval)
      else
        (strlen root).bind fun len => (trimmedLen root len).bind fun rootLen =>
          relpath[0]?.bind fun first => root[0]?.bind fun rootFirst =>
            (read root rootLen).bind fun trimmed => (cstring relpath).bind fun rel =>
              let text :=
                if first = 0 then trimmed
                else if rootLen = 1 ∧ rootFirst = slash then slash :: rel
                else trimmed ++ slash :: rel
              (snprintf out out.length text).map fun (filled, written) =>
                if written ≥ out.length then .error .enametoolong else .ok filled

/-! ## `user_nfsd.c` -/

/-- `nfsfh_to_relpath`. -/
def nfsfhToRelpath (handle relpath : List UInt8) : C (List UInt8) :=
  if handle.length > fhSize then some (.error .einval)
  else
    (memcpy (List.replicate fhSize 0) 0 handle).bind fun data =>
      (Fh.ofData handle.length data).bind fun core => pathFromFh core relpath

/-- `fullpath_from_fh`. It returns the relative and the full path. -/
def fullpathFromFh (root handle relpath fullpath : List UInt8) : C (List UInt8 × List UInt8) :=
  (nfsfhToRelpath handle relpath).bind fun
    | .error e => some (.error e)
    | .ok relpath => (joinExportPath root relpath fullpath).map fun result =>
      result.map fun fullpath => (relpath, fullpath)

/-- `validate_name`. -/
def validateName (name : List UInt8) : C Unit :=
  name[0]?.bind fun first =>
    if first = 0 then some (.error .einval)
    else
      (strchr slash name).bind fun found =>
        if found.isSome then some (.error .einval)
        else
          (strcmp name [dot, dot, 0]).map fun dotdot =>
            if dotdot then .error .einval else .ok ()

/-- `child_relpath`, into an object of this size. -/
def childRelpath (dir name out : List UInt8) : C (List UInt8) :=
  (validateName name).bind fun
    | .error _ => some (.error .einval)
    | .ok () =>
      (strcmp name [dot, 0]).bind fun self => dir[0]?.bind fun first =>
        (cstring dir).bind fun d => (cstring name).bind fun n =>
          let text := if self then d else if first = 0 then n else d ++ slash :: n
          (snprintf out out.length text).bind fun (filled, written) =>
            if written ≥ out.length then some (.error .enametoolong)
            else
              (pathIsSafe filled).map fun safe => if safe then .ok filled else .error .einval

/-! ## Safe paths -/

/-- A relative path without a `..` component. -/
def Safe (s : List UInt8) : Prop := s.head? ≠ some slash ∧ [dot, dot] ∉ s.splitOn slash

instance (s : List UInt8) : Decidable (Safe s) := inferInstanceAs (Decidable (_ ∧ _))

theorem componentIsDotdot_eq (a : List UInt8) (b : UInt8) (rest : List UInt8) :
    componentIsDotdot (a ++ b :: rest) a.length = some (decide (a = [dot, dot])) := by
  rw [componentIsDotdot]
  split
  · rename_i two
    match a, two with
    | [x, y], _ => simp
  · rename_i other
    have differs : a ≠ [dot, dot] := fun eq => other (by rw [eq]; rfl)
    rw [decide_eq_false differs]

variable {s p root rel : List UInt8} {fh : Fh}

/-- The scan finds out whether a component is `..`. -/
theorem scan_eq (plain : 0 ∉ s) {fuel : Nat} (enough : s.length < fuel) (rest : List UInt8) :
    scan fuel (s ++ 0 :: rest) = some (decide ([dot, dot] ∉ s.splitOn slash)) := by
  induction fuel generalizing s with
  | zero => exact absurd enough (Nat.not_lt_zero _)
  | succ fuel ih =>
    match s with
    | [] =>
      rw [List.splitOn_nil]
      rfl
    | b :: t =>
      have solid : b ≠ 0 := fun zero => plain (zero ▸ List.mem_cons_self)
      rw [scan]
      show (if b = 0 then _ else _) = _
      rw [if_neg solid]
      by_cases mem : slash ∈ b :: t
      · obtain ⟨a, c, eq, absent⟩ := List.eq_append_cons_of_mem mem
        have plain' : 0 ∉ a ∧ 0 ∉ c := by
          rw [eq] at plain
          exact ⟨fun m => plain (List.mem_append_left _ m),
            fun m => plain (List.mem_append_right _ (List.mem_cons_of_mem _ m))⟩
        have shorter : c.length < fuel := by
          have := congrArg List.length eq
          simp only [List.length_append, List.length_cons] at this enough
          omega
        rw [eq, List.append_assoc, List.cons_append, strchr_append absent plain'.1,
          Option.bind_some, List.splitOn_append_cons_self_of_not_mem absent]
        dsimp only
        rw [componentIsDotdot_eq, Option.bind_some]
        have tail : (a ++ slash :: (c ++ 0 :: rest)).drop (a.length + 1) = c ++ 0 :: rest := by
          rw [List.append_cons, List.drop_left' (by simp)]
        rw [tail, ih plain'.2 shorter]
        by_cases dots : a = [dot, dot]
        · simp [dots]
        · simp [dots, Ne.symm dots]
      · rw [strchr_absent (by decide) mem plain, Option.bind_some]
        dsimp only
        rw [strlen, cstring_append plain, Option.map_some, Option.bind_some,
          componentIsDotdot_eq, Option.map_some, List.splitOn_eq_singleton mem]
        simp [eq_comm]

theorem pathIsSafe_eq (plain : 0 ∉ s) (rest : List UInt8) :
    pathIsSafe (s ++ 0 :: rest) = some (decide (Safe s)) := by
  have enough : s.length < (s ++ 0 :: rest).length := by
    rw [List.length_append, List.length_cons]
    omega
  rw [pathIsSafe, getElem?_terminated (Nat.zero_le _), Option.bind_some, scan_eq plain enough]
  cases s with
  | nil => rfl
  | cons b t =>
    simp only [List.getElem?_cons_zero, Option.getD_some]
    by_cases first : b = slash
    · simp [Safe, first]
    · simp [Safe, first]

theorem pathIsSafe_cstring (holds : cstring p = some s) :
    pathIsSafe p = some (decide (Safe s)) := by
  obtain ⟨plain, rest, rfl⟩ := cstring_eq_some holds
  exact pathIsSafe_eq plain rest

/-! ## Handles -/

/-- The handle of a path: the magic, the path and zeros up to the end. -/
def handleBytes (s : List UInt8) : List UInt8 :=
  magic ++ s ++ List.replicate (fhSize - magic.length - s.length) 0

theorem handleBytes_eq (short : magic.length + s.length + 1 ≤ fhSize) :
    handleBytes s =
      magic ++ s ++ 0 :: List.replicate (fhSize - magic.length - s.length - 1) 0 := by
  have some : fhSize - magic.length - s.length = fhSize - magic.length - s.length - 1 + 1 := by omega
  rw [handleBytes, some, List.replicate_succ]
  rfl

theorem handleBytes_length (short : magic.length + s.length + 1 ≤ fhSize) :
    (handleBytes s).length = fhSize := by
  rw [handleBytes, List.length_append, List.length_append, List.length_replicate]
  omega

theorem read_terminated {rest : List UInt8} :
    CString.read (s ++ 0 :: rest) (s.length + 1) = some (s ++ [0]) := by
  rw [CString.read, if_pos (by simp), List.append_cons, List.take_left' (by simp)]

theorem memcpy_zeros {a b : List UInt8} {n : Nat} (fits : b.length ≤ n) :
    memcpy (a ++ List.replicate n 0) a.length b =
      some (a ++ b ++ List.replicate (n - b.length) 0) := by
  have room : a.length + b.length ≤ (a ++ List.replicate n (0 : UInt8)).length := by
    rw [List.length_append, List.length_replicate]
    omega
  have rest : (a ++ List.replicate n (0 : UInt8)).drop (a.length + b.length) =
      List.replicate (n - b.length) 0 := by
    rw [List.drop_append, List.drop_of_length_le (by omega), List.nil_append, Nat.add_sub_cancel_left,
      List.drop_replicate]
  rw [memcpy_eq room, List.take_left, rest]

theorem fhFromPath_eq (holds : cstring p = some s) :
    (∃ short : magic.length + s.length + 1 ≤ fhSize, Safe s ∧
      fhFromPath p = some (.ok ⟨magic.length + s.length + 1, handleBytes s,
        handleBytes_length short⟩)) ∨
    ¬ (Safe s ∧ magic.length + s.length + 1 ≤ fhSize) ∧ ∃ e, fhFromPath p = some (.error e) := by
  obtain ⟨-, rest, eq⟩ := cstring_eq_some holds
  rw [fhFromPath, pathIsSafe_cstring holds, Option.bind_some, strlen, holds, Option.map_some,
    Option.bind_some]
  by_cases safe : Safe s
  · rw [decide_eq_true safe, if_neg (by decide)]
    by_cases short : magic.length + s.length + 1 ≤ fhSize
    · refine .inl ⟨short, safe, ?_⟩
      have first : memcpy (List.replicate fhSize 0) 0 magic =
          some (magic ++ List.replicate (fhSize - magic.length) 0) :=
        @memcpy_zeros [] magic fhSize (by decide)
      have second : memcpy (magic ++ List.replicate (fhSize - magic.length) 0) magic.length
          (s ++ [0]) = some (handleBytes s) := by
        rw [memcpy_zeros (by rw [List.length_append, List.length_singleton]; omega),
          handleBytes_eq short]
        simp [Nat.sub_sub, Nat.add_assoc]
      rw [if_neg (Nat.not_lt.mpr short), eq, read_terminated, Option.bind_some, first,
        Option.bind_some, second, Option.bind_some, Fh.ofData, dif_pos (handleBytes_length short)]
      rfl
    · rw [if_pos (Nat.not_le.mp short)]
      exact .inr ⟨fun both => short both.2, _, rfl⟩
  · rw [decide_eq_false safe, if_pos rfl]
    exact .inr ⟨fun both => safe both.1, _, rfl⟩

/-- What `unfs_path_from_fh` gives for any handle: an error, or a safe string in the buffer. -/
theorem pathFromFh_spec (fh : Fh) (path : List UInt8) :
    (∃ e, pathFromFh fh path = some (.error e)) ∨
    ∃ out s, pathFromFh fh path = some (.ok out) ∧ out.length = path.length ∧
      cstring out = some s ∧ Safe s ∧ cstring (fh.data.drop magic.length) = some s := by
  have size := fh.size
  rw [pathFromFh]
  by_cases empty : path.length = 0
  · rw [if_pos empty]
    exact .inl ⟨_, rfl⟩
  rw [if_neg empty]
  by_cases illegal : fh.len ≤ magic.length ∨ fh.len > fhSize
  · rw [if_pos illegal]
    exact .inl ⟨_, rfl⟩
  rw [if_neg illegal]
  have long : magic.length < fh.len := by omega
  have short : fh.len ≤ fh.data.length := by omega
  rw [CString.read, if_pos (by omega), Option.bind_some]
  split
  · exact .inl ⟨_, rfl⟩
  rw [List.getElem?_eq_getElem (show fh.len - 1 < fh.data.length by omega), Option.bind_some]
  split
  · exact .inl ⟨_, rfl⟩
  rename_i last
  -- The last byte of the handle terminates the string in it.
  have terminated : 0 ∈ fh.data.drop magic.length := by
    have index : fh.len - 1 - magic.length < (fh.data.drop magic.length).length := by
      rw [List.length_drop]
      omega
    refine List.mem_iff_getElem.mpr ⟨fh.len - 1 - magic.length, index, ?_⟩
    rw [List.getElem_drop]
    have same : magic.length + (fh.len - 1 - magic.length) = fh.len - 1 := by omega
    simp only [same]
    exact not_not.mp last
  obtain ⟨s, holds⟩ := cstring_of_mem terminated
  obtain ⟨plain, rest, eq⟩ := cstring_eq_some holds
  rw [strlen, holds, Option.map_some, Option.bind_some]
  split
  · exact .inl ⟨_, rfl⟩
  rename_i fits
  rw [pathIsSafe_cstring holds, Option.bind_some]
  split
  · exact .inl ⟨_, rfl⟩
  rename_i safe
  rw [eq, read_terminated, Option.bind_some]
  have room : 0 + (s ++ [0]).length ≤ path.length := by
    rw [List.length_append, List.length_singleton]
    omega
  have copied := memcpy_eq room
  rw [copied, Option.map_some]
  refine .inr ⟨_, s, rfl, memcpy_length copied, ?_, ?_, ?_⟩
  · rw [List.take_zero, List.nil_append, List.append_assoc]
    exact cstring_append plain _
  · exact of_decide_eq_true (Bool.not_eq_false _ ▸ safe)
  · rfl

theorem pathFromFh_of_path (holds : cstring p = some s) (made : fhFromPath p = some (.ok fh))
    {path : List UInt8} (room : s.length < path.length) :
    ∃ out, pathFromFh fh path = some (.ok out) ∧ out.length = path.length ∧ cstring out = some s := by
  rcases fhFromPath_eq holds with ⟨short, safe, eq⟩ | ⟨-, e, eq⟩
  · rw [eq] at made
    cases made
    obtain ⟨plain, -⟩ := cstring_eq_some holds
    have inner : cstring ((handleBytes s).drop magic.length) = some s := by
      rw [handleBytes_eq short, List.append_assoc, List.drop_left]
      exact cstring_append plain _
    have last : (handleBytes s)[magic.length + s.length + 1 - 1]? = some 0 := by
      rw [handleBytes_eq short, Nat.add_sub_cancel,
        List.getElem?_append_right (Nat.le_of_eq List.length_append), List.length_append, Nat.sub_self]
      rfl
    have first : CString.read (handleBytes s) magic.length = some magic := by
      rw [CString.read, if_pos (by rw [handleBytes_length short]; decide), handleBytes_eq short,
        List.append_assoc, List.take_left]
    obtain ⟨-, rest, split⟩ := cstring_eq_some inner
    have copied := @memcpy_eq path (s ++ [0]) 0 (by
      rw [List.length_append, List.length_singleton]
      omega)
    refine ⟨_, ?_, memcpy_length copied, ?_⟩
    · rw [pathFromFh, if_neg (by omega), if_neg (by dsimp only; omega)]
      dsimp only
      rw [first, Option.bind_some, if_neg (not_not.mpr rfl), last, Option.bind_some,
        if_neg (not_not.mpr rfl), strlen, inner, Option.map_some, Option.bind_some,
        if_neg (by omega), pathIsSafe_cstring inner, Option.bind_some, decide_eq_true safe,
        if_neg (by decide), split, read_terminated, Option.bind_some, copied]
      rfl
    · rw [List.take_zero, List.nil_append, List.append_assoc]
      exact cstring_append plain _
  · rw [eq] at made
    cases made

/-- The bytes that a client gets. -/
def Fh.bytes (fh : Fh) : List UInt8 := fh.data.take fh.len

theorem bytes_of_path (holds : cstring p = some s) (made : fhFromPath p = some (.ok fh)) :
    fh.bytes = magic ++ s ++ [0] := by
  rcases fhFromPath_eq holds with ⟨short, -, eq⟩ | ⟨-, e, eq⟩
  · rw [eq] at made
    cases made
    rw [Fh.bytes]
    dsimp only
    rw [handleBytes_eq short, ← List.singleton_append, ← List.append_assoc]
    exact List.take_left' (by simp [Nat.add_assoc])
  · rw [eq] at made
    cases made

theorem eq_of_bytes_eq {q t : List UInt8} (left : cstring p = some s) (right : cstring q = some t)
    {fh' : Fh} (made : fhFromPath p = some (.ok fh)) (made' : fhFromPath q = some (.ok fh'))
    (same : fh.bytes = fh'.bytes) : s = t := by
  rw [bytes_of_path left made, bytes_of_path right made'] at same
  exact List.append_cancel_left (List.append_cancel_right same)

/-! ## Joins -/

/-- The export root without the slashes at its end; `/` stays. -/
def trimmed (root : List UInt8) : List UInt8 :=
  match root with
  | [] => []
  | first :: rest => first :: rest.rdropWhile (· == slash)

/-- The prefix of the paths below the export root: `/` counts as empty. -/
def exportPrefix (root : List UInt8) : List UInt8 :=
  if trimmed root = [slash] then [] else trimmed root

/-- The export root, alone or followed by a slash and a safe path. -/
def Confined (root path : List UInt8) : Prop :=
  path = exportPrefix root ∨ ∃ rel, Safe rel ∧ path = exportPrefix root ++ slash :: rel

theorem trimmed_concat_slash {r : List UInt8} (some : r ≠ []) : trimmed (r ++ [slash]) = trimmed r := by
  match r, some with
  | first :: rest, _ =>
    rw [List.cons_append, trimmed, trimmed, List.rdropWhile_concat_pos _ _ _ (by decide)]

theorem trimmed_concat_other {r : List UInt8} {b : UInt8} (other : b ≠ slash) :
    trimmed (r ++ [b]) = r ++ [b] := by
  match r with
  | [] => rfl
  | first :: rest =>
    rw [List.cons_append, trimmed, List.rdropWhile_concat_neg _ _ _ (by simpa using other)]

theorem trimmed_isPrefix (r : List UInt8) : trimmed r <+: r := by
  match r with
  | [] => exact List.prefix_refl _
  | first :: rest => exact (List.prefix_cons_inj first).mpr (List.rdropWhile_prefix _ _)

theorem trimmedLen_eq (r rest : List UInt8) {n : Nat} (inside : n ≤ r.length) :
    trimmedLen (r ++ rest) n = some (trimmed (r.take n)).length := by
  induction n with
  | zero => rfl
  | succ n ih =>
    cases n with
    | zero =>
      match r, inside with
      | first :: _, _ => rfl
    | succ n =>
      have low : n + 1 < r.length := inside
      have next : r.take (n + 2) = r.take (n + 1) ++ [r[n + 1]] := by
        rw [List.take_succ_eq_append_getElem low]
      rw [trimmedLen, List.getElem?_append_left low, List.getElem?_eq_getElem low,
        Option.bind_some]
      split
      · rename_i ends
        rw [ih (by omega), next, ends, trimmed_concat_slash]
        intro none
        have := congrArg List.length none
        rw [List.length_take, List.length_nil] at this
        omega
      · rename_i other
        rw [next, trimmed_concat_other other, ← next, List.length_take]
        congr 1
        omega

theorem read_trimmed (r rest : List UInt8) :
    CString.read (r ++ rest) (trimmed r).length = some (trimmed r) := by
  have short := (trimmed_isPrefix r).length_le
  rw [CString.read, if_pos (by rw [List.length_append]; omega), List.take_append_of_le_length short]
  exact congrArg some (List.prefix_iff_eq_take.mp (trimmed_isPrefix r)).symm

theorem trimmed_eq_slash (r : List UInt8) :
    trimmed r = [slash] ↔ (trimmed r).length = 1 ∧ (r[0]?).getD 0 = slash := by
  match r with
  | [] => exact ⟨fun eq => absurd eq (by decide), fun both => absurd both.1 (by decide)⟩
  | first :: rest =>
    rw [trimmed, List.length_cons, List.cons.injEq, List.getElem?_cons_zero, Option.getD_some,
      ← List.length_eq_zero_iff]
    constructor
    · rintro ⟨top, none⟩
      exact ⟨by omega, top⟩
    · rintro ⟨one, top⟩
      exact ⟨top, by omega⟩

theorem first_eq_zero (plain : 0 ∉ s) : (s[0]?).getD 0 = 0 ↔ s = [] := by
  match s with
  | [] => exact ⟨fun _ => rfl, fun _ => rfl⟩
  | b :: t =>
    constructor
    · intro zero
      exact absurd (zero ▸ List.mem_cons_self : (0 : UInt8) ∈ b :: t) plain
    · intro none
      cases none

/-- The text of a join. -/
def joined (root rel : List UInt8) : List UInt8 :=
  if rel = [] then trimmed root else exportPrefix root ++ slash :: rel

theorem joined_confined (safe : Safe rel) : Confined root (joined root rel) := by
  rw [joined]
  split
  · by_cases top : trimmed root = [slash]
    · right
      refine ⟨[], by decide, ?_⟩
      rw [exportPrefix, if_pos top, top]
      rfl
    · left
      rw [exportPrefix, if_neg top]
  · exact .inr ⟨rel, safe, rfl⟩

theorem joined_plain (plainRoot : 0 ∉ root) (plainRel : 0 ∉ rel) : 0 ∉ joined root rel := by
  have trim : 0 ∉ trimmed root := fun mem => plainRoot ((trimmed_isPrefix root).subset mem)
  have pre : 0 ∉ exportPrefix root := by
    rw [exportPrefix]
    split
    · exact List.not_mem_nil
    · exact trim
  rw [joined]
  split
  · exact trim
  · intro mem
    rcases List.mem_append.mp mem with mem | mem
    · exact pre mem
    · rcases List.mem_cons.mp mem with zero | mem
      · exact absurd zero (by decide)
      · exact plainRel mem

theorem joinExportPath_spec {rootObject relObject : List UInt8}
    (rooted : cstring rootObject = some root) (relative : cstring relObject = some rel)
    (out : List UInt8) :
    (∃ e, joinExportPath rootObject relObject out = some (.error e)) ∨
    ∃ out' path, joinExportPath rootObject relObject out = some (.ok out') ∧
      out'.length = out.length ∧ cstring out' = some path ∧ Confined root path := by
  obtain ⟨plainRoot, restRoot, rfl⟩ := cstring_eq_some rooted
  obtain ⟨plainRel, restRel, rfl⟩ := cstring_eq_some relative
  rw [joinExportPath]
  by_cases sized : out.length = 0
  · rw [if_pos sized]
    exact .inl ⟨_, rfl⟩
  rw [if_neg sized, pathIsSafe_eq plainRel, Option.bind_some]
  split
  · exact .inl ⟨_, rfl⟩
  rename_i checked
  have safe : Safe rel := of_decide_eq_true (Bool.not_eq_false _ ▸ checked)
  rw [strlen, cstring_append plainRoot, Option.map_some, Option.bind_some,
    trimmedLen_eq root _ (Nat.le_refl _), List.take_length, Option.bind_some,
    getElem?_terminated (Nat.zero_le _), Option.bind_some, getElem?_terminated (Nat.zero_le _),
    Option.bind_some, read_trimmed, Option.bind_some, cstring_append plainRel, Option.bind_some]
  have text : (if (rel[0]?).getD 0 = 0 then trimmed root
      else if (trimmed root).length = 1 ∧ (root[0]?).getD 0 = slash then slash :: rel
      else trimmed root ++ slash :: rel) = joined root rel := by
    rw [joined, exportPrefix]
    simp only [first_eq_zero plainRel, ← trimmed_eq_slash]
    split
    · rfl
    · split <;> rfl
  rw [text]
  have plain := joined_plain plainRoot plainRel
  obtain ⟨out', printed, length, holds⟩ :=
    snprintf_eq (Nat.pos_of_ne_zero sized) (Nat.le_refl _) plain
  dsimp only
  rw [printed, Option.map_some]
  dsimp only
  split
  · exact .inl ⟨_, rfl⟩
  · rename_i fits
    rw [List.take_of_length_le (by omega)] at holds
    exact .inr ⟨out', _, rfl, length, holds, joined_confined safe⟩

/-! ## Children -/

theorem strcmp_eq {q t : List UInt8} (left : cstring p = some s) (right : cstring q = some t) :
    strcmp p q = some (decide (s = t)) := by
  rw [strcmp, left, right]
  rfl

theorem validateName_total {object name : List UInt8} (named : cstring object = some name) :
    (∃ e, validateName object = some (.error e)) ∨ validateName object = some (.ok ()) := by
  obtain ⟨plain, rest, rfl⟩ := cstring_eq_some named
  rw [validateName, getElem?_terminated (Nat.zero_le _), Option.bind_some]
  split
  · exact .inl ⟨_, rfl⟩
  by_cases mem : slash ∈ name
  · obtain ⟨a, b, rfl, absent⟩ := List.eq_append_cons_of_mem mem
    have plainA : 0 ∉ a := fun m => plain (List.mem_append_left _ m)
    rw [List.append_assoc, List.cons_append, strchr_append absent plainA]
    exact .inl ⟨_, rfl⟩
  · rw [strchr_absent (by decide) mem plain, Option.bind_some, if_neg (by decide),
      strcmp_eq (cstring_append plain rest) (rfl : cstring [dot, dot, 0] = some [dot, dot]),
      Option.map_some]
    split
    · exact .inl ⟨_, rfl⟩
    · exact .inr rfl

theorem childRelpath_spec {dirObject nameObject dir name : List UInt8}
    (directory : cstring dirObject = some dir) (named : cstring nameObject = some name)
    (out : List UInt8) (sized : out ≠ []) :
    (∃ e, childRelpath dirObject nameObject out = some (.error e)) ∨
    ∃ out' rel, childRelpath dirObject nameObject out = some (.ok out') ∧
      out'.length = out.length ∧ cstring out' = some rel ∧ Safe rel := by
  obtain ⟨plainDir, restDir, rfl⟩ := cstring_eq_some directory
  obtain ⟨plainName, restName, rfl⟩ := cstring_eq_some named
  rw [childRelpath]
  rcases validateName_total named with ⟨e, refused⟩ | accepted
  · rw [refused]
    exact .inl ⟨_, rfl⟩
  rw [accepted, Option.bind_some]
  dsimp only
  rw [strcmp_eq named (rfl : cstring [dot, 0] = some [dot]), Option.bind_some,
    getElem?_terminated (Nat.zero_le _), Option.bind_some, directory, Option.bind_some, named,
    Option.bind_some]
  generalize chosen : (if decide (name = [dot]) = true then dir
    else if (dir[0]?).getD 0 = 0 then name else dir ++ slash :: name) = text
  have plain : 0 ∉ text := by
    rw [← chosen]
    split
    · exact plainDir
    split
    · exact plainName
    · intro mem
      rcases List.mem_append.mp mem with mem | mem
      · exact plainDir mem
      · rcases List.mem_cons.mp mem with zero | mem
        · exact absurd zero (by decide)
        · exact plainName mem
  obtain ⟨out', printed, length, holds⟩ :=
    snprintf_eq (List.length_pos_iff.mpr sized) (Nat.le_refl _) plain
  rw [printed, Option.bind_some]
  dsimp only
  split
  · exact .inl ⟨_, rfl⟩
  rename_i fits
  rw [List.take_of_length_le (by omega)] at holds
  rw [pathIsSafe_cstring holds, Option.map_some]
  split
  · rename_i safe
    exact .inr ⟨out', text, rfl, length, holds, of_decide_eq_true safe⟩
  · exact .inl ⟨_, rfl⟩

end UserNfsd

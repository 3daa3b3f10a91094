import KernelNotes.UserNfsd.Server
import KernelNotes.Lib.Cursor
import KernelNotes.Lib.Xdr

/-!
# READDIR of the user-space NFS server

`nfsproc3_readdir_3_svc` of `user_nfsd.c` lists the directory anew for every call. The cookie of an entry
is its place in the listing, so it means another entry once something before it was removed or created.
The number of entries in a reply depends on the size of the client's buffer but not on the lengths of
the names.
-/

namespace UserNfsd

open CString

/-! ## Attributes -/

/-- The fields of `struct stat` that go into attributes. -/
structure Stat where
  mode : Nat
  nlink : Nat
  uid : Nat
  gid : Nat
  size : Nat
  blocks : Nat
  dev : Nat
  ino : Nat
  atim : Nat × Nat
  mtim : Nat × Nat
  ctim : Nat × Nat
  deriving DecidableEq, Repr

inductive Ftype3 where
  | reg
  | dir
  | blk
  | chr
  | lnk
  | sock
  | fifo
  deriving DecidableEq, Repr

def Ftype3.code : Ftype3 → UInt32
  | .reg => 1
  | .dir => 2
  | .blk => 3
  | .chr => 4
  | .lnk => 5
  | .sock => 6
  | .fifo => 7

/-- `ftype_from_mode`. -/
def ftypeFromMode (mode : Nat) : Ftype3 :=
  match mode &&& 0o170000 with
  | 0o040000 => .dir
  | 0o060000 => .blk
  | 0o020000 => .chr
  | 0o120000 => .lnk
  | 0o140000 => .sock
  | 0o010000 => .fifo
  | _ => .reg

structure Nfstime3 where
  seconds : UInt32
  nseconds : UInt32
  deriving DecidableEq, Repr

/-- `nfstime_from_stat`. -/
def nfstimeFromStat (time : Nat × Nat) : Nfstime3 := ⟨UInt32.ofNat time.1, UInt32.ofNat time.2⟩

structure Fattr3 where
  type : Ftype3
  mode : UInt32
  nlink : UInt32
  uid : UInt32
  gid : UInt32
  size : UInt64
  used : UInt64
  rdev : UInt32 × UInt32
  fsid : UInt64
  fileid : UInt64
  atime : Nfstime3
  mtime : Nfstime3
  ctime : Nfstime3
  deriving DecidableEq, Repr

/-- `fill_fattr`. -/
def fillFattr (st : Stat) : Fattr3 where
  type := ftypeFromMode st.mode
  mode := UInt32.ofNat (st.mode &&& 0o7777)
  nlink := UInt32.ofNat st.nlink
  uid := UInt32.ofNat st.uid
  gid := UInt32.ofNat st.gid
  size := UInt64.ofNat st.size
  used := UInt64.ofNat (st.blocks * 512)
  rdev := (0, 0)
  fsid := UInt64.ofNat st.dev
  fileid := UInt64.ofNat st.ino
  atime := nfstimeFromStat st.atim
  mtime := nfstimeFromStat st.mtim
  ctime := nfstimeFromStat st.ctim

/-! ## The procedure -/

/-- `NFS3_MAXNAMLEN`. -/
def maxNamLen : Nat := 255

/-- `struct dirent`; the name is in an array of 256 bytes. -/
structure Dirent where
  ino : Nat
  name : List UInt8
  short : name.length ≤ maxNamLen
  deriving DecidableEq, Repr

structure Entry3 where
  fileid : UInt64
  name : List UInt8
  cookie : Nat
  deriving DecidableEq, Repr

structure Readdir3ResOk where
  dirAttributes : Option Fattr3
  entries : List Entry3
  eof : Bool
  deriving DecidableEq, Repr

inductive Readdir3Res where
  | resok (ok : Readdir3ResOk)
  | resfail (status : NfsStat) (dirAttributes : Option Fattr3)
  deriving DecidableEq, Repr

/-- What `opendir` and `readdir` give, and what `lstat` says about the directory. -/
structure DirHost where
  opendir : Except Errno (List Dirent)
  lstatDir : Option Stat

/-- The limit on the number of entries of a reply. -/
def maxEntries (count : Nat) : Nat :=
  let limit := count / 32
  let limit := if limit = 0 then 1 else limit
  if limit > 256 then 256 else limit

/-- The loop over the directory: the entries, and whether the directory ended it. -/
def readdirLoop (cookie limit : Nat) : List Dirent → Nat → List Entry3 → List Entry3 × Bool
  | [], _, entries => (entries, true)
  | de :: rest, seq, entries =>
    if seq + 1 ≤ cookie then readdirLoop cookie limit rest (seq + 1) entries
    else if entries.length = limit then (entries, false)
    else
      readdirLoop cookie limit rest (seq + 1)
        (entries ++ [⟨UInt64.ofNat de.ino, de.name.take maxNamLen, seq + 1⟩])

/-- `nfsproc3_readdir_3_svc`. -/
def readdir (root : List UInt8) (frame : Frame) (host : DirHost) (handle : List UInt8)
    (cookie count : Nat) : Option Readdir3Res :=
  (fullpathFromFh root handle frame.dirRel frame.dirFull).map fun
    | .error _ => .resfail .badhandle none
    | .ok _ =>
      match host.opendir with
      | .error e => .resfail (errnoToNfs3 e) (host.lstatDir.map fillFattr)
      | .ok listing =>
        let (entries, eof) := readdirLoop cookie (maxEntries count) listing 0 []
        .resok ⟨host.lstatDir.map fillFattr, entries, eof⟩

/-! ## One reply -/

theorem maxEntries_pos (count : Nat) : 0 < maxEntries count := by
  rw [maxEntries]
  split_ifs <;> omega

/-- The entry of a reply at a place of the listing. -/
def entryAt (de : Dirent) (seq : Nat) : Entry3 := ⟨UInt64.ofNat de.ino, de.name, seq + 1⟩

/-- The entries of a listing that starts at this place. -/
def numbered (listing : List Dirent) (seq : Nat) : List Entry3 :=
  (listing.zipIdx seq).map fun (de, place) => entryAt de place

theorem numbered_cons (de : Dirent) (rest : List Dirent) (seq : Nat) :
    numbered (de :: rest) seq = entryAt de seq :: numbered rest (seq + 1) := rfl

theorem numbered_length (listing : List Dirent) (seq : Nat) :
    (numbered listing seq).length = listing.length := by
  rw [numbered, List.length_map, List.length_zipIdx]

theorem numbered_names (listing : List Dirent) (seq : Nat) :
    (numbered listing seq).map Entry3.name = listing.map Dirent.name := by
  induction listing generalizing seq with
  | nil => rfl
  | cons de rest ih => rw [numbered_cons, List.map_cons, List.map_cons, ih]; rfl

theorem entryAt_eq (de : Dirent) (seq : Nat) :
    (⟨UInt64.ofNat de.ino, de.name.take maxNamLen, seq + 1⟩ : Entry3) = entryAt de seq := by
  rw [List.take_of_length_le de.short, entryAt]

variable {limit : Nat} {p : Paging} {name : List UInt8} {steps : List DirStep}

theorem readdirLoop_behind {cookie : Nat} (listing : List Dirent) {seq : Nat}
    {entries : List Entry3} (behind : cookie ≤ seq) (room : entries.length ≤ limit) :
    readdirLoop cookie limit listing seq entries =
      (entries ++ (numbered listing seq).take (limit - entries.length),
        decide (listing.length ≤ limit - entries.length)) := by
  induction listing generalizing seq entries with
  | nil => simp [readdirLoop, numbered]
  | cons de rest ih =>
    rw [readdirLoop, if_neg (by omega)]
    by_cases full : entries.length = limit
    · rw [if_pos full, full, Nat.sub_self, List.take_zero, List.append_nil,
        decide_eq_false (by rw [List.length_cons]; omega)]
    · have less : limit - entries.length = limit - (entries.length + 1) + 1 := by omega
      have longer : (entries ++ [entryAt de seq]).length = entries.length + 1 := by
        rw [List.length_append, List.length_singleton]
      rw [if_neg full, entryAt_eq, ih (Nat.le_succ_of_le behind) (by omega), longer, numbered_cons,
        less, List.take_succ_cons, List.append_assoc, List.singleton_append, List.length_cons]
      simp only [Nat.add_le_add_iff_right]

theorem readdirLoop_before {cookie : Nat} (listing : List Dirent) {seq : Nat}
    (before : seq ≤ cookie) :
    readdirLoop cookie limit listing seq [] =
      ((numbered (listing.drop (cookie - seq)) cookie).take limit,
        decide ((listing.drop (cookie - seq)).length ≤ limit)) := by
  induction listing generalizing seq with
  | nil => simp [readdirLoop, numbered]
  | cons de rest ih =>
    rcases Nat.eq_or_lt_of_le before with rfl | low
    · rw [readdirLoop_behind (de :: rest) (Nat.le_refl _) (Nat.zero_le _), Nat.sub_self]
      rfl
    · have less : cookie - seq = cookie - (seq + 1) + 1 := by omega
      rw [readdirLoop, if_pos (Nat.succ_le_of_lt low), ih low, less, List.drop_succ_cons]

/-- The entries of a reply. -/
def page (listing : List Dirent) (cookie count : Nat) : List Entry3 :=
  (numbered (listing.drop cookie) cookie).take (maxEntries count)

theorem readdirLoop_eq (listing : List Dirent) (cookie count : Nat) :
    readdirLoop cookie (maxEntries count) listing 0 [] =
      (page listing cookie count, decide (listing.length ≤ cookie + maxEntries count)) := by
  rw [readdirLoop_before listing (Nat.zero_le _), Nat.sub_zero, List.length_drop, page]
  simp only [Nat.sub_le_iff_le_add']

theorem page_names (listing : List Dirent) (cookie count : Nat) :
    (page listing cookie count).map Entry3.name =
      ((listing.map Dirent.name).drop cookie).take (maxEntries count) := by
  rw [page, List.map_take, numbered_names, List.map_drop]

theorem getElem?_numbered (listing : List Dirent) (seq i : Nat) :
    (numbered listing seq)[i]? = listing[i]?.map fun de => entryAt de (seq + i) := by
  rw [numbered, List.getElem?_map, List.getElem?_zipIdx, Option.map_map]
  rfl

theorem getLast?_numbered_take (listing : List Dirent) (seq : Nat) (some : 0 < limit) :
    (((numbered listing seq).take limit).getLast?.map Entry3.cookie).getD seq =
      seq + min limit listing.length := by
  rcases Nat.eq_zero_or_pos listing.length with none | more
  · rw [List.length_eq_zero_iff.mp none]
    simp [numbered]
  · have last : min limit listing.length - 1 < listing.length := by omega
    rw [List.getLast?_eq_getElem?, List.length_take, numbered_length,
      List.getElem?_take_of_lt (by omega), getElem?_numbered, List.getElem?_eq_getElem last]
    show seq + (min limit listing.length - 1) + 1 = _
    omega

/-- Where a client goes on after a reply. -/
def nextCookie (cookie : Nat) (entries : List Entry3) : Nat :=
  (entries.getLast?.map Entry3.cookie).getD cookie

theorem nextCookie_page (listing : List Dirent) (cookie count : Nat) :
    nextCookie cookie (page listing cookie count) =
      cookie + min (maxEntries count) (listing.length - cookie) := by
  rw [nextCookie, page, getLast?_numbered_take _ _ (maxEntries_pos count), List.length_drop]

theorem readdir_cases (root : List UInt8) (frame : Frame) (host : DirHost) (handle : List UInt8)
    (cookie count : Nat) :
    (∀ ok, readdir root frame host handle cookie count ≠ some (.resok ok)) ∨
    ∃ listing, host.opendir = .ok listing ∧ readdir root frame host handle cookie count =
      some (.resok ⟨host.lstatDir.map fillFattr, page listing cookie count,
        decide (listing.length ≤ cookie + maxEntries count)⟩) := by
  rw [readdir]
  match fullpathFromFh root handle frame.dirRel frame.dirFull, host.opendir with
  | none, _ => exact .inl fun ok same => nomatch same
  | some (.error _), _ => exact .inl fun ok same => nomatch same
  | some (.ok _), .error _ => exact .inl fun ok same => nomatch same
  | some (.ok _), .ok listing =>
    refine .inr ⟨listing, rfl, ?_⟩
    rw [Option.map_some]
    dsimp only
    rw [readdirLoop_eq]

/-! ## Paging through a directory -/

/-- A directory of the host, in the order in which `readdir` lists it. -/
structure Directory where
  entries : List Dirent
  nodup : (entries.map Dirent.name).Nodup

def Directory.names (d : Directory) : List (List UInt8) := d.entries.map Dirent.name

theorem map_filter_name (entries : List Dirent) (name : List UInt8) :
    (entries.filter fun de => de.name != name).map Dirent.name =
      (entries.map Dirent.name).filter (· != name) := by
  rw [List.filter_map]
  rfl

/-- What a REMOVE of this name leaves. -/
def Directory.remove (d : Directory) (name : List UInt8) : Directory where
  entries := d.entries.filter fun de => de.name != name
  nodup := by
    rw [map_filter_name]
    exact d.nodup.filter _

/-- What a CREATE leaves, with the place at which the host lists the new entry. -/
def Directory.create (d : Directory) (de : Dirent) (place : Nat) : Directory :=
  if absent : de.name ∈ d.entries.map Dirent.name then d
  else
    { entries := Cursor.insertAt place de d.entries
      nodup := by
        rw [Cursor.map_insertAt]
        exact Cursor.nodup_insertAt d.nodup absent }

/-- A READDIR call, apart from the cookie. -/
structure ReaddirCall where
  handle : List UInt8
  frame : Frame
  opendirFails : Option Errno
  attributes : Option Stat
  count : Nat

def ReaddirCall.answer (e : Export) (call : ReaddirCall) (d : Directory) (cookie : Nat) :
    Option Readdir3Res :=
  let opendir := match call.opendirFails with
    | none => .ok d.entries
    | some err => .error err
  readdir e.object call.frame ⟨opendir, call.attributes⟩ call.handle cookie call.count

/-- The directory, and the client's cookie and the names it has got. -/
structure Paging where
  directory : Directory
  cookie : Nat
  got : List (List UInt8)

/-- What a client does with a reply. -/
def Paging.receive (p : Paging) : Option Readdir3Res → Paging
  | some (.resok ok) =>
    { p with
      cookie := nextCookie p.cookie ok.entries
      got := p.got ++ ok.entries.map Entry3.name }
  | _ => p

inductive DirStep where
  | readdir (call : ReaddirCall)
  | remove (name : List UInt8)
  | create (de : Dirent) (place : Nat)

def Paging.step (e : Export) (p : Paging) : DirStep → Paging
  | .readdir call => p.receive (call.answer e p.directory p.cookie)
  | .remove name => { p with directory := p.directory.remove name }
  | .create de place => { p with directory := p.directory.create de place }

def Paging.start (d : Directory) : Paging := ⟨d, 0, []⟩

theorem answer_cases (e : Export) (call : ReaddirCall) (d : Directory) (cookie : Nat) :
    (∀ ok, call.answer e d cookie ≠ some (.resok ok)) ∨
    call.answer e d cookie = some (.resok ⟨call.attributes.map fillFattr, page d.entries cookie call.count,
      decide (d.entries.length ≤ cookie + maxEntries call.count)⟩) := by
  rw [ReaddirCall.answer]
  rcases readdir_cases e.object call.frame _ call.handle cookie call.count with never | ⟨listing, opened, eq⟩
  · exact .inl never
  · refine .inr (eq.trans ?_)
    match call.opendirFails, opened with
    | none, opened => cases opened; rfl

theorem receive_other {answer : Option Readdir3Res} (never : ∀ ok, answer ≠ some (.resok ok)) :
    p.receive answer = p := by
  match answer, never with
  | none, _ => rfl
  | some (.resfail _ _), _ => rfl
  | some (.resok ok), never => exact absurd rfl (never ok)

theorem receive_directory (p : Paging) (answer : Option Readdir3Res) :
    (p.receive answer).directory = p.directory := by
  match answer with
  | none => rfl
  | some (.resfail _ _) => rfl
  | some (.resok _) => rfl

/-- A REMOVE before the cookie while this entry is the next one: it will be left out. -/
def Paging.skips (name : List UInt8) (p : Paging) : DirStep → Nat
  | .remove other =>
    if p.directory.names.idxOf other < p.cookie ∧ p.directory.names.idxOf name = p.cookie then 1 else 0
  | .readdir _ | .create _ _ => 0

/-- A CREATE before the cookie while this entry is the last one: it will be sent again. -/
def Paging.repeats (name : List UInt8) (p : Paging) : DirStep → Nat
  | .create de place =>
    if de.name ∉ p.directory.names ∧ place < p.cookie ∧ p.directory.names.idxOf name + 1 = p.cookie then 1
    else 0
  | .readdir _ | .remove _ => 0

/-- The step leaves the entry where it is. -/
def Spares (name : List UInt8) : DirStep → Prop
  | .remove other => name ≠ other
  | .readdir _ | .create _ _ => True

instance (name : List UInt8) : DecidablePred (Spares name)
  | .remove other => inferInstanceAs (Decidable (name ≠ other))
  | .readdir _ | .create _ _ => isTrue trivial

theorem names_remove (d : Directory) (name : List UInt8) :
    (d.remove name).names = d.names.filter (· != name) := map_filter_name d.entries name

theorem names_create (d : Directory) (de : Dirent) (place : Nat) :
    (d.create de place).names =
      if de.name ∈ d.names then d.names else Cursor.insertAt place de.name d.names := by
  rw [Directory.create, Directory.names, Directory.names]
  split
  · rfl
  · exact Cursor.map_insertAt _ _ _ _

theorem mem_names_step (e : Export) (mem : name ∈ p.directory.names) {step : DirStep}
    (spares : Spares name step) : name ∈ (p.step e step).directory.names := by
  cases step with
  | readdir call =>
    rw [Paging.step, receive_directory]
    exact mem
  | remove other =>
    rw [Paging.step, names_remove]
    exact List.mem_filter.mpr ⟨mem, bne_iff_ne.mpr spares⟩
  | create de place =>
    rw [Paging.step, names_create]
    split
    · exact mem
    · exact Cursor.mem_insertAt.mpr (.inr mem)

/-- Whether the entry is before the cookie, less how often it was sent. -/
def Paging.level (name : List UInt8) (p : Paging) : Int :=
  Cursor.left p.cookie p.directory.names name - p.got.count name

theorem level_readdir (e : Export) (mem : name ∈ p.directory.names) (call : ReaddirCall) :
    (p.step e (.readdir call)).level name = p.level name := by
  rw [Paging.step]
  rcases answer_cases e call p.directory p.cookie with never | eq
  · rw [receive_other never]
  · have passed := Cursor.count_page p.directory.nodup mem p.cookie (maxEntries call.count)
    have index : p.directory.names.idxOf name < p.directory.entries.length :=
      List.length_map Dirent.name ▸ List.idxOf_lt_length_of_mem mem
    have same : Cursor.left (p.cookie + min (maxEntries call.count) (p.directory.entries.length - p.cookie))
        p.directory.names name = Cursor.left (p.cookie + maxEntries call.count) p.directory.names name := by
      rw [Cursor.left, Cursor.left]
      exact if_congr (by omega) rfl rfl
    rw [eq]
    show ((Cursor.left (nextCookie p.cookie _) p.directory.names name : Nat) : Int) -
      (p.got ++ List.map Entry3.name _).count name = _
    rw [nextCookie_page, page_names, List.count_append, same, Paging.level, Directory.names, ← passed]
    omega

theorem level_step (e : Export) (mem : name ∈ p.directory.names) {step : DirStep}
    (spares : Spares name step) :
    p.level name + p.skips name step = (p.step e step).level name + p.repeats name step := by
  cases step with
  | readdir call => rw [level_readdir e mem]; rfl
  | remove other =>
    have moved := Cursor.left_filter_ne p.directory.nodup mem spares p.cookie
    rw [Paging.level, Paging.level, Paging.step, names_remove, Directory.names, moved, Paging.skips,
      Paging.repeats, Directory.names]
    push_cast
    omega
  | create de place =>
    rw [Paging.level, Paging.level, Paging.step, names_create, Paging.skips, Paging.repeats]
    by_cases listed : de.name ∈ p.directory.names
    · rw [if_pos listed, if_neg fun new => new.1 listed]
    · have other : name ≠ de.name := fun same => listed (same ▸ mem)
      have moved := Cursor.left_insertAt mem other place p.cookie
      simp only [listed, not_false_eq_true, true_and, if_false]
      rw [← moved]
      push_cast
      omega

/-- An entry that is listed from the first step to the last. -/
def Throughout (d : Directory) (steps : List DirStep) (name : List UInt8) : Prop :=
  name ∈ d.names ∧ ∀ step ∈ steps, Spares name step

instance (d : Directory) (steps : List DirStep) (name : List UInt8) : Decidable (Throughout d steps name) :=
  inferInstanceAs (Decidable (_ ∧ _))

theorem along_spares (e : Export) (spares : ∀ step ∈ steps, Spares name step) (p : Paging) :
    Runs.Along (Paging.step e) (fun _ step => Spares name step) p steps := by
  induction steps generalizing p with
  | nil => trivial
  | cons step rest ih =>
    exact ⟨spares step List.mem_cons_self, ih (fun later mem => spares later (List.mem_cons_of_mem step mem)) _⟩

/-- How often an entry is sent: once when the cookie passes it, less for each time it was skipped and
more for each time it was sent again. -/
theorem level_run (e : Export) {d : Directory} (throughout : Throughout d steps name) :
    (Runs.tally (Paging.step e) (Paging.skips name) (Paging.start d) steps : Int) =
      (Runs.run (Paging.step e) (Paging.start d) steps).level name +
        Runs.tally (Paging.step e) (Paging.repeats name) (Paging.start d) steps := by
  have balance := @Runs.balance_run Paging DirStep (Paging.step e) (fun p => name ∈ p.directory.names)
    (fun _ step => Spares name step) (Paging.level name) (Paging.skips name) (Paging.repeats name)
    (fun _ _ mem spares => mem_names_step e mem spares) (fun _ _ mem spares => level_step e mem spares)
    (Paging.start d) steps throughout.1 (along_spares e throughout.2 (Paging.start d))
  have zero : (Paging.start d).level name = 0 := rfl
  rw [zero, Int.zero_add] at balance
  exact balance

theorem mem_names_run (e : Export) {d : Directory} (throughout : Throughout d steps name) :
    name ∈ (Runs.run (Paging.step e) (Paging.start d) steps).directory.names :=
  @Runs.invariant_run Paging DirStep (Paging.step e) (fun p => name ∈ p.directory.names)
    (fun _ step => Spares name step) (fun _ _ mem spares => mem_names_step e mem spares)
    (Paging.start d) steps throughout.1 (along_spares e throughout.2 (Paging.start d))

theorem eof_iff {e : Export} {call : ReaddirCall} {ok : Readdir3ResOk}
    (answered : call.answer e p.directory p.cookie = some (.resok ok)) :
    ok.eof = true ↔ p.directory.entries.length ≤ nextCookie p.cookie ok.entries := by
  rcases answer_cases e call p.directory p.cookie with never | eq
  · exact absurd answered (never ok)
  · obtain rfl := Readdir3Res.resok.inj (Option.some.inj (eq.symm.trans answered))
    dsimp only
    rw [decide_eq_true_iff, nextCookie_page]
    omega

/-- Every READDIR call reports the end exactly when no entry is behind its last one. When the last call has
reported it, the entries that were there throughout have been sent once each if and only if each of them was
skipped as often as it was pushed back. -/
theorem readdir_complete_iff (e : Export) (d : Directory) (steps : List DirStep) (call : ReaddirCall)
    (ok : Readdir3ResOk) :
    let p := Runs.run (Paging.step e) (Paging.start d) steps
    call.answer e p.directory p.cookie = some (.resok ok) →
      (ok.eof = true ↔ p.directory.names.drop (nextCookie p.cookie ok.entries) = []) ∧
      (ok.eof = true →
        ((∀ name, Throughout d steps name → (p.step e (.readdir call)).got.count name = 1) ↔
          ∀ name, Throughout d steps name →
            Runs.tally (Paging.step e) (Paging.skips name) (Paging.start d) steps =
              Runs.tally (Paging.step e) (Paging.repeats name) (Paging.start d) steps)) := by
  intro p answered
  have ends := eof_iff answered
  have size : p.directory.names.length = p.directory.entries.length := List.length_map _
  constructor
  · rw [ends, List.drop_eq_nil_iff, size]
  · intro eof
    refine forall_congr' fun name => forall_congr' fun throughout => ?_
    have balance : _ = p.level name + _ := level_run e throughout
    have mem : name ∈ p.directory.names := mem_names_run e throughout
    rw [← level_readdir e mem call] at balance
    -- The cookie of the last reply is behind every entry.
    have passed : Cursor.left (p.step e (.readdir call)).cookie (p.step e (.readdir call)).directory.names
        name = 1 := by
      have index := size ▸ List.idxOf_lt_length_of_mem mem
      rw [Paging.step, receive_directory, answered]
      exact if_pos (Nat.lt_of_lt_of_le index (ends.mp eof))
    rw [Paging.level, passed] at balance
    omega

/-- A frame whose buffers are zero. -/
def zeroFrame : Frame where
  dirRel := List.replicate maxPath 0
  childRel := List.replicate maxPath 0
  dirFull := List.replicate pathMax 0
  childFull := List.replicate pathMax 0
  sized := ⟨List.length_replicate, List.length_replicate, List.length_replicate, List.length_replicate⟩

/-- The handle of the export itself. -/
def rootHandle : List UInt8 := magic ++ [0]

/-- A call for one entry. -/
def oneEntry : ReaddirCall := ⟨rootHandle, zeroFrame, none, none, 32⟩

/-- A directory with the entries `a`, `b` and `c`. -/
def abc : Directory := ⟨[⟨1, [97], by decide⟩, ⟨2, [98], by decide⟩, ⟨3, [99], by decide⟩], by decide⟩

/-- After `a` was sent, REMOVE of `a` makes `b` the first entry, and the next call goes on with `c`. -/
theorem readdir_skips :
    let steps : List DirStep := [.readdir oneEntry, .remove [97]]
    let p := Runs.run (Paging.step srv) (Paging.start abc) steps
    oneEntry.answer srv p.directory p.cookie = some (.resok ⟨none, [⟨3, [99], 2⟩], true⟩) ∧
      Throughout abc steps [98] ∧ (p.step srv (.readdir oneEntry)).got.count [98] = 0 := by
  intro steps p
  refine ⟨?_, ?_, ?_⟩
  · decide +kernel
  · decide +kernel
  · decide +kernel

/-- REMOVE of `c` after `a` was sent is harmless: `a` and `b` are sent once each. -/
theorem readdir_complete_abc :
    let steps : List DirStep := [.readdir oneEntry, .remove [99]]
    let p := Runs.run (Paging.step srv) (Paging.start abc) steps
    ∀ name, Throughout abc steps name → (p.step srv (.readdir oneEntry)).got.count name = 1 := by
  intro steps p
  have answered : oneEntry.answer srv p.directory p.cookie = some (.resok ⟨none, [⟨2, [98], 2⟩], true⟩) := by
    decide +kernel
  have even : ∀ name ∈ abc.names, Runs.tally (Paging.step srv) (Paging.skips name) (Paging.start abc) steps =
      Runs.tally (Paging.step srv) (Paging.repeats name) (Paging.start abc) steps := by
    decide +kernel
  exact ((readdir_complete_iff srv abc steps oneEntry _ answered).2 rfl).mpr fun name throughout =>
    even name throughout.1

/-! ## The size of a reply -/

/-- `xdr_nfstime3`. -/
def encodeNfstime3 (time : Nfstime3) : List UInt8 := Xdr.uint32 time.seconds ++ Xdr.uint32 time.nseconds

/-- `xdr_fattr3`. -/
def encodeFattr3 (attr : Fattr3) : List UInt8 :=
  Xdr.uint32 attr.type.code ++ Xdr.uint32 attr.mode ++ Xdr.uint32 attr.nlink ++ Xdr.uint32 attr.uid ++
    Xdr.uint32 attr.gid ++ Xdr.uint64 attr.size ++ Xdr.uint64 attr.used ++ Xdr.uint32 attr.rdev.1 ++
    Xdr.uint32 attr.rdev.2 ++ Xdr.uint64 attr.fsid ++ Xdr.uint64 attr.fileid ++ encodeNfstime3 attr.atime ++
    encodeNfstime3 attr.mtime ++ encodeNfstime3 attr.ctime

/-- `xdr_entry3` without the pointer to the next entry. -/
def encodeEntry3 (entry : Entry3) : List UInt8 :=
  Xdr.uint64 entry.fileid ++ Xdr.string entry.name ++ Xdr.uint64 (UInt64.ofNat entry.cookie)

/-- The cookie verifier is all zero. -/
def cookieverf : List UInt8 := List.replicate 8 0

/-- `xdr_READDIR3resok`. -/
def encodeReaddir3ResOk (ok : Readdir3ResOk) : List UInt8 :=
  Xdr.optional encodeFattr3 ok.dirAttributes ++ Xdr.fixed cookieverf ++
    Xdr.linked encodeEntry3 ok.entries ++ Xdr.bool ok.eof

theorem encodeFattr3_length (attr : Fattr3) : (encodeFattr3 attr).length = 84 := by
  simp [encodeFattr3, encodeNfstime3]

theorem encodeEntry3_length (entry : Entry3) :
    (encodeEntry3 entry).length = 20 + Xdr.padded entry.name.length := by
  rw [encodeEntry3, List.length_append, List.length_append, Xdr.uint64_length, Xdr.uint64_length,
    Xdr.string_length]
  omega

/-- The bytes of an entry, with the marker before it. -/
def entrySize (name : List UInt8) : Nat := 24 + Xdr.padded name.length

/-- The bytes of a reply without entries. -/
def emptySize (attributes : Option Stat) : Nat := if attributes.isSome then 104 else 20

theorem encodeReaddir3ResOk_length (attributes : Option Stat) (entries : List Entry3) (eof : Bool) :
    (encodeReaddir3ResOk ⟨attributes.map fillFattr, entries, eof⟩).length =
      emptySize attributes + ((entries.map Entry3.name).map entrySize).sum := by
  have each : (fun entry => 4 + (encodeEntry3 entry).length) = entrySize ∘ Entry3.name := by
    funext entry
    rw [encodeEntry3_length, Function.comp_apply, entrySize]
    omega
  rw [encodeReaddir3ResOk, List.length_append, List.length_append, List.length_append, Xdr.linked_length,
    each, List.map_map, Xdr.bool_length, Xdr.fixed_length, emptySize]
  dsimp only
  cases attributes with
  | none =>
    show 4 + 8 + _ + 4 = 20 + _
    omega
  | some st =>
    have size : (Xdr.optional encodeFattr3 (some (fillFattr st))).length = 88 := by
      rw [Xdr.optional, List.length_append, Xdr.bool_length, encodeFattr3_length]
    rw [Option.map_some, size]
    show 88 + 8 + _ + 4 = 104 + _
    omega

/-- A reply fits into the client's buffer if and only if the names at the places that the limit allows are
short enough. -/
theorem readdir_fits_iff (root : List UInt8) (frame : Frame) (listing : List Dirent)
    (attributes : Option Stat) (handle : List UInt8) (cookie count : Nat) (ok : Readdir3ResOk)
    (answered : readdir root frame ⟨.ok listing, attributes⟩ handle cookie count = some (.resok ok)) :
    (encodeReaddir3ResOk ok).length ≤ count ↔
      emptySize attributes + ((((listing.map Dirent.name).drop cookie).take
        (min (max (count / 32) 1) 256)).map entrySize).sum ≤ count := by
  rcases readdir_cases root frame ⟨.ok listing, attributes⟩ handle cookie count with
    never | ⟨listing', opened, eq⟩
  · exact absurd answered (never ok)
  · obtain rfl := Except.ok.inj opened
    obtain rfl := Readdir3Res.resok.inj (Option.some.inj (eq.symm.trans answered))
    have limit : maxEntries count = min (max (count / 32) 1) 256 := by
      rw [maxEntries]
      split_ifs <;> omega
    rw [encodeReaddir3ResOk_length, page_names, limit]

/-- The last entry of the directory in a buffer of 64 bytes. -/
theorem readdir_fits_last : ∃ ok,
    readdir srv.object zeroFrame ⟨.ok abc.entries, none⟩ rootHandle 2 64 = some (.resok ok) ∧
      (encodeReaddir3ResOk ok).length ≤ 64 := by
  have answered : readdir srv.object zeroFrame ⟨.ok abc.entries, none⟩ rootHandle 2 64 =
      some (.resok ⟨none, [⟨3, [99], 3⟩], true⟩) := by
    decide +kernel
  exact ⟨_, answered, (readdir_fits_iff _ _ _ _ _ _ _ _ answered).mpr (by decide)⟩

/-- The attributes of a directory. -/
def dirStat : Stat := ⟨0o040755, 2, 0, 0, 4096, 8, 1, 2, (0, 0), (0, 0), (0, 0)⟩

/-- A buffer of 132 bytes has room for the attributes and one entry, but three are sent. -/
theorem readdir_overflows : emptySize (some dirStat) + entrySize [97] ≤ 132 ∧ ∃ ok,
    readdir srv.object zeroFrame ⟨.ok abc.entries, some dirStat⟩ rootHandle 0 132 = some (.resok ok) ∧
      (encodeReaddir3ResOk ok).length = 188 := by
  have answered : readdir srv.object zeroFrame ⟨.ok abc.entries, some dirStat⟩ rootHandle 0 132 =
      some (.resok ⟨some (fillFattr dirStat), [⟨1, [97], 1⟩, ⟨2, [98], 2⟩, ⟨3, [99], 3⟩], true⟩) := by
    decide +kernel
  exact ⟨by decide, _, answered, by decide +kernel⟩

end UserNfsd

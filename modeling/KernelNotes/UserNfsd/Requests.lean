import KernelNotes.UserNfsd.HostTree

/-!
# What requests act on

Two questions about the requests of `HostTree`. Which of them act on anything but the object that GETATTR
reports for the handle or the name: those on a link that leads somewhere, since every procedure but GETATTR
has a system call that follows it. And when a CREATE that fails leaves a new file behind: when the file was
created and only then the path turned out not to fit into a handle.
-/

namespace UserNfsd

open CString Outcome

/-! ## Calls that do not change the tree -/

/-- The tree is this one, and the calls acted on these nodes only. -/
structure Within (tree : Fs) (S : Nat → Prop) (m : Machine) : Prop where
  tree : m.tree = tree
  touched : ∀ i ∈ m.touched, S i

section Within

variable {tree : Fs} {S : Nat → Prop}

variable {m : Machine} {i j parent : Nat} {name : List UInt8} {handle : Except Errno Fh}

theorem Within.touch (held : Within tree S m) (mem : S i) :
    Within tree S { m with touched := m.touched ++ [i] } := by
  refine ⟨held.tree, fun j inside => ?_⟩
  rcases List.mem_append.mp inside with old | last
  · exact held.touched j old
  · exact List.mem_singleton.mp last ▸ mem

theorem nodeOf_ends (i : Nat) (m : Machine) :
    Ends (fun node m' => m.tree.nodes i = some node ∧ m = m') (fun _ m' => m.tree.nodes i = none ∧ m = m')
      (nodeOf i m) := by
  refine Ends.read_bind ?_
  match found : m.tree.nodes i with
  | some node => exact ⟨rfl, rfl⟩
  | none => exact ⟨rfl, rfl⟩

theorem nodeOf_keep {inv : Machine → Prop} (i : Nat) : Keeps inv (nodeOf i) := by
  intro m holds
  refine (nodeOf_ends i m).mono ?_ ?_
  · rintro _ _ ⟨-, rfl⟩
    exact holds
  · rintro _ _ ⟨-, rfl⟩
    exact holds

/-- `lstat` acts on the node that the path names. -/
theorem lstat_within (denied : Option Errno) {path : List UInt8}
    (named : ∀ i, tree.resolve true path = .ok (.node i) → S i) :
    Keeps (Within tree S) (lstat denied path) := by
  refine Keeps.bind (Keeps.check _) fun _ m held => ?_
  refine Ends.bind (fun _ => Within tree S) ?_ fun i m' held' => ?_
  · refine Ends.read_bind ?_
    rw [held.tree]
    match found : tree.resolve true path with
    | .ok (.node i) => exact held.touch (named i found)
    | .ok (.absent _ _) => exact held
    | .error _ => exact held
  · exact Ends.bind (fun _ => Within tree S) (nodeOf_keep i m' held') fun _ _ same => same

theorem fillWcc_within (d : Denied) {path : List UInt8} (before : Option Stat)
    (named : ∀ i, tree.resolve true path = .ok (.node i) → S i) :
    Keeps (Within tree S) (fillWcc d path before) :=
  Keeps.bind (Keeps.bind (Keeps.optional (lstat_within _ named)) fun _ => Keeps.pure _) fun _ => Keeps.pure _

theorem notADirectory_within (i : Nat) : Keeps (Within tree S) (notADirectory i) :=
  Keeps.bind (nodeOf_keep i) fun _ => Keeps.refuse _ _

end Within

theorem find_has (nofollow : Bool) (path : List UInt8) :
    Keeps (fun m => j ∈ m.touched) (find nofollow path) := by
  refine Keeps.bind Keeps.read fun m => ?_
  match m.tree.resolve nofollow path with
  | .ok (.node i) => exact Keeps.bind (Keeps.update fun _ mem => List.mem_append_left _ mem) fun _ => Keeps.pure i
  | .ok (.absent _ _) => exact Keeps.fail _
  | .error _ => exact Keeps.fail _

theorem lstat_has (denied : Option Errno) (path : List UInt8) :
    Keeps (fun m => j ∈ m.touched) (lstat denied path) :=
  Keeps.bind (Keeps.check _) fun _ => Keeps.bind (find_has true path) fun i =>
    Keeps.bind (nodeOf_keep i) fun _ => Keeps.pure _

/-! ## CREATE -/

/-- The tree with the file that CREATE adds. -/
def created (tree : Fs) (how : CreateHow) (dir : Nat) (name : List UInt8) : Fs :=
  tree.addFile dir name (newStat how.mode tree.next)

/-- The outcome of opening the file: the tree as it was, or with a new file. -/
inductive Opened (tree : Fs) (how : CreateHow) (child : List UInt8) (S : Nat → Prop) (m : Machine) : Prop where
  | same (held : Within tree S m)
  | added {dir : Nat} {name : List UInt8} (missing : tree.resolve how.excl child = .ok (.absent dir name))
      (held : Within (created tree how dir name) (fun i => S i ∨ i = dir ∨ i = tree.next) m)
      (new : dir ∈ m.touched ∧ tree.next ∈ m.touched)

section Create

variable {tree : Fs} {S : Nat → Prop} (d : Denied) {how : CreateHow} {dir child : List UInt8}

theorem openCreate_ends
    (named : how.excl = false → ∀ i, tree.resolve false child = .ok (.node i) → S i)
    (held : Within tree S m) :
    Ends (fun _ => Opened tree how child S) (fun _ => Within tree S)
      (openCreate d.openFile child how.excl how.mode m) := by
  refine Ends.check_bind (fun _ _ => held) fun _ => ?_
  refine Ends.read_bind ?_
  rw [held.tree]
  match found : tree.resolve how.excl child with
  | .ok (.node i) =>
    refine Ends.bind (fun _ m' => how.excl = false ∧ m = m') (Ends.refuse (fun plain => ⟨plain, rfl⟩) fun _ => held) ?_
    rintro _ _ ⟨plain, rfl⟩
    rw [plain] at found
    refine Ends.bind (fun _ => Within tree S) (held.touch (named plain i found)) fun _ m' held' => ?_
    exact (notADirectory_within i m' held').mono (fun _ _ last => .same last) fun _ _ last => last
  | .ok (.absent parent name) =>
    refine .added found ⟨?_, fun i mem => ?_⟩ ⟨?_, ?_⟩
    · show m.tree.addFile parent name (newStat how.mode m.tree.next) = _
      rw [held.tree, created]
    · rcases List.mem_append.mp mem with old | last
      · rcases List.mem_append.mp old with older | last
        · exact .inl (held.touched i older)
        · exact .inr (.inl (List.mem_singleton.mp last))
      · exact .inr (.inr (List.mem_singleton.mp last))
    · exact List.mem_append_left _ (List.mem_append_right _ List.mem_cons_self)
    · exact List.mem_append_right _ List.mem_cons_self
  | .error _ => exact held

/-- A path names nodes of the set, before and after the file was added. -/
structure Reaches (tree : Fs) (how : CreateHow) (child : List UInt8) (S : Nat → Prop) (path : List UInt8) :
    Prop where
  before : ∀ i, tree.resolve true path = .ok (.node i) → S i
  after : ∀ dir name, tree.resolve how.excl child = .ok (.absent dir name) →
    ∀ i, (created tree how dir name).resolve true path = .ok (.node i) → S i ∨ i = dir ∨ i = tree.next

theorem lstat_opened {path : List UInt8} (reaches : Reaches tree how child S path) (denied : Option Errno) :
    Keeps (Opened tree how child S) (lstat denied path) := by
  intro m opened
  cases opened with
  | same held =>
    exact (lstat_within denied reaches.before m held).mono (fun _ _ => .same) fun _ _ => .same
  | @added parent name missing held new =>
    have kept := ((lstat_within denied (reaches.after parent name missing) m held).and
      (lstat_has denied path m new.1)).and (lstat_has denied path m new.2)
    refine kept.mono ?_ ?_
    · rintro _ _ ⟨⟨held', first⟩, second⟩
      exact .added missing held' ⟨first, second⟩
    · rintro _ _ ⟨⟨held', first⟩, second⟩
      exact .added missing held' ⟨first, second⟩

theorem fillWcc_opened {path : List UInt8} (reaches : Reaches tree how child S path) (before : Option Stat) :
    Keeps (Opened tree how child S) (fillWcc d path before) :=
  Keeps.bind (Keeps.bind (Keeps.optional (lstat_opened reaches _)) fun _ => Keeps.pure _) fun _ => Keeps.pure _

/-- However CREATE ends, the tree is as before or has the new file, and the calls acted on the nodes that the
names lead to. -/
theorem createAt_opened
    (named : how.excl = false → ∀ i, tree.resolve false child = .ok (.node i) → S i)
    (directory : Reaches tree how child S dir) (object : Reaches tree how child S child)
    (handle : Except Errno Fh) (held : Within tree S m) :
    Opened tree how child S (createAt d how dir child handle m).2 := by
  suffices ends : Ends (fun _ => Opened tree how child S) (fun _ => Opened tree how child S)
    (createAt d how dir child handle m) from ends.state
  refine Ends.bind (fun _ => Within tree S)
    (Ends.optional ((lstat_within _ directory.before m held).mono (fun _ _ same => same) fun _ _ same => same))
    fun before m₁ held₁ => ?_
  refine Ends.bind (fun _ => Opened tree how child S) ?_ fun _ m₂ opened =>
    Keeps.bind (fillWcc_opened d directory before) (fun _ => Keeps.pure _) m₂ opened
  refine Ends.onError (fun _ => Opened tree how child S) ?_ fun _ m₂ opened =>
    (fillWcc_opened d directory before).state opened
  refine Ends.bind (fun _ => Opened tree how child S)
    (Ends.mapError ((openCreate_ends d named held₁).mono (fun _ _ same => same) fun _ _ => .same))
    fun _ m₂ opened => ?_
  exact Keeps.bind (Keeps.mapError _ (lstat_opened object _))
    (fun _ => Keeps.bind (Keeps.mapError _ (Keeps.lift _)) fun _ => Keeps.pure _) m₂ opened

/-! ### What is left behind -/

theorem lstat_tree {tree : Fs} (denied : Option Errno) (path : List UInt8) :
    Keeps (fun m => m.tree = tree) (lstat denied path) := by
  intro m same
  have held : Within tree (fun _ => True) m := ⟨same, fun _ _ => trivial⟩
  exact (lstat_within denied (fun _ _ => trivial) m held).mono (fun _ _ last => last.tree)
    fun _ _ last => last.tree

theorem fillWcc_tree {tree : Fs} (path : List UInt8) (before : Option Stat) :
    Keeps (fun m => m.tree = tree) (fillWcc d path before) :=
  Keeps.bind (Keeps.bind (Keeps.optional (lstat_tree _ _)) fun _ => Keeps.pure _) fun _ => Keeps.pure _

/-- The host makes a new file for CREATE. -/
def Makes (d : Denied) (tree : Fs) (how : CreateHow) (child : List UInt8) (parent : Nat) (name : List UInt8) :
    Prop := d.openFile = none ∧ tree.resolve how.excl child = .ok (.absent parent name)

theorem openCreate_leaves (none : ∀ parent name, ¬ Makes d m.tree how child parent name) :
    Ends (fun _ m' => m'.tree = m.tree) (fun _ m' => m'.tree = m.tree)
      (openCreate d.openFile child how.excl how.mode m) := by
  have held : Within m.tree (fun _ => True) m := ⟨rfl, fun _ _ => trivial⟩
  cases denied : d.openFile with
  | some err => exact (rfl : m.tree = m.tree)
  | none =>
    rw [← denied]
    refine (openCreate_ends d (fun _ _ _ => trivial) held).mono (fun _ m' opened => ?_) fun _ _ last => last.tree
    cases opened with
    | same held' => exact held'.tree
    | added missing => exact absurd ⟨denied, missing⟩ (none _ _)

theorem openCreate_makes (makes : Makes d m.tree how child parent name) :
    Ends (fun _ m' => m'.tree = created m.tree how parent name) (fun _ _ => False)
      (openCreate d.openFile child how.excl how.mode m) := by
  rw [makes.1]
  refine Ends.bind (fun _ m' => m = m') rfl ?_
  rintro _ _ rfl
  refine Ends.read_bind ?_
  rw [makes.2]
  exact (rfl : _ = _)

theorem createAt_tree {tree : Fs}
    (opened : ∀ m₁ : Machine, m₁.tree = m.tree → Ends (fun _ m' => m'.tree = tree) (fun _ m' => m'.tree = tree) (openCreate d.openFile child how.excl how.mode m₁))
    (handle : Except Errno Fh) : (createAt d how dir child handle m).2.tree = tree := by
  suffices ends : Ends (fun _ m' => m'.tree = tree) (fun _ m' => m'.tree = tree)
    (createAt d how dir child handle m) from ends.state
  refine Ends.bind (fun _ m' => m'.tree = m.tree)
    (Ends.optional ((lstat_tree _ _ m rfl).mono (fun _ _ same => same) fun _ _ same => same)) fun before m₁ same => ?_
  refine Ends.bind (fun _ m' => m'.tree = tree) ?_ fun _ m₂ same' =>
    Keeps.bind (fillWcc_tree d _ _) (fun _ => Keeps.pure _) m₂ same'
  refine Ends.onError (fun _ m' => m'.tree = tree) ?_ fun _ m₂ same' => (fillWcc_tree d _ _).state same'
  refine Ends.bind (fun _ m' => m'.tree = tree) (Ends.mapError (opened m₁ same)) fun _ m₂ same' => ?_
  exact Keeps.bind (Keeps.mapError _ (lstat_tree _ _))
    (fun _ => Keeps.bind (Keeps.mapError _ (Keeps.lift _)) fun _ => Keeps.pure _) m₂ same'

theorem createAt_leaves {m : Machine} (none : ∀ parent name, ¬ Makes d m.tree how child parent name)
    (handle : Except Errno Fh) : (createAt d how dir child handle m).2.tree = m.tree :=
  createAt_tree d (fun _ same => same ▸ openCreate_leaves d (same.symm ▸ none)) handle

theorem createAt_makes {m : Machine} {parent : Nat} {name : List UInt8}
    (makes : Makes d m.tree how child parent name) (handle : Except Errno Fh) :
    (createAt d how dir child handle m).2.tree = created m.tree how parent name := by
  refine createAt_tree d (fun m₁ same => ?_) handle
  rw [← same] at makes ⊢
  exact (openCreate_makes d makes).mono (fun _ _ made => made) fun _ _ never => never.elim

theorem createAt_refused (m : Machine) (err : Errno) :
    Ends (fun _ _ => False) (fun _ _ => True) (createAt d how dir child (.error err) m) := by
  refine Ends.bind (fun _ _ => True) (Ends.trivial _) fun before m₁ _ => ?_
  refine Ends.bind (fun _ _ => False) ?_ fun _ _ never => never.elim
  refine Ends.onError (fun _ _ => True) ?_ fun _ _ _ => trivial
  refine Ends.bind (fun _ _ => True) (Ends.trivial _) fun _ m₂ _ => ?_
  exact Ends.bind (fun _ _ => True) (Ends.trivial _) fun _ _ _ => trivial

theorem lstat_succeeds {path : List UInt8} {node : FileTree.Node Stat}
    (found : m.tree.resolve true path = .ok (.node i)) (there : m.tree.nodes i = some node) :
    Ends (fun _ _ => True) (fun _ _ => False) (lstat none path m) := by
  refine Ends.bind (fun _ m' => m = m') rfl ?_
  rintro _ _ rfl
  have here : Ends (fun j m' => i = j ∧ m.tree = m'.tree) (fun _ _ => False) (find true path m) := by
    refine Ends.read_bind ?_
    rw [found]
    exact ⟨rfl, rfl⟩
  refine Ends.bind _ here ?_
  rintro _ m' ⟨rfl, same⟩
  refine Ends.bind (fun _ _ => True) ((nodeOf_ends i m').mono (fun _ _ _ => trivial) ?_) fun _ _ _ => trivial
  rintro _ _ ⟨gone, -⟩
  rw [← same, there] at gone
  cases gone

/-- A name at which a file is made is missing, or a link that leads to where it is made. -/
theorem missing_cases {tree : Fs} {excl : Bool}
    (missing : tree.resolve excl child = .ok (.absent parent name)) :
    tree.resolve true child = .ok (.absent parent name) ∨
      ∃ i, tree.resolve true child = .ok (.node i) ∧ tree.IsLink i := by
  cases excl with
  | true => exact .inl missing
  | false =>
    have agrees := FileTree.resolve_agrees tree child
    rw [missing] at agrees
    match found : tree.resolve true child with
    | .error e => rw [found] at agrees; cases agrees
    | .ok (.absent _ _) => rw [found] at agrees; cases agrees; exact .inl rfl
    | .ok (.node i) =>
      rw [found] at agrees
      refine .inr ⟨i, rfl, ?_⟩
      by_contra plain
      cases agrees plain

theorem created_found {tree : Fs}
    (missing : tree.resolve how.excl child = .ok (.absent parent name)) :
    ∃ i node, (created tree how parent name).resolve true child = .ok (.node i) ∧
      (created tree how parent name).nodes i = some node := by
  rcases missing_cases missing with absent | ⟨i, found, link⟩
  · exact ⟨_, _, FileTree.resolve_addFile _ absent, if_pos rfl⟩
  · obtain ⟨target, shape⟩ := FileTree.isLink_iff.mp link
    have still : (created tree how parent name).shape i = some (.link target) :=
      (FileTree.shape_addFile_link _ i target).mpr shape
    obtain ⟨node, there, -⟩ := Option.map_eq_some_iff.mp still
    exact ⟨i, node, FileTree.resolve_addFile_node _ (FileTree.resolve_misses missing) found, there⟩

theorem createAt_succeeds {m : Machine} {parent : Nat} {name : List UInt8}
    (makes : Makes d m.tree how child parent name) (stable : d.lstatChild = none) (fh : Fh) :
    Ends (fun _ _ => True) (fun _ _ => False) (createAt d how dir child (.ok fh) m) := by
  refine Ends.bind (fun _ m' => m'.tree = m.tree)
    (Ends.optional ((lstat_tree _ _ m rfl).mono (fun _ _ same => same) fun _ _ same => same)) fun before m₁ same => ?_
  refine Ends.bind (fun _ _ => True) ?_ fun _ m₂ _ => ?_
  · refine Ends.onError (fun _ _ => False) ?_ fun _ _ never => never.elim
    rw [← same] at makes
    refine Ends.bind (fun _ m' => m'.tree = created m₁.tree how parent name)
      (Ends.mapError (openCreate_makes d makes)) fun _ m₂ made => ?_
    obtain ⟨i, node, found, there⟩ := created_found makes.2
    rw [← made] at found there
    rw [stable]
    exact Ends.bind (fun _ _ => True) (Ends.mapError (lstat_succeeds found there)) fun _ _ _ => trivial
  · refine Ends.bind (fun _ _ => True) ?_ fun _ _ _ => trivial
    refine Ends.bind (fun _ _ => True) ?_ fun _ _ _ => trivial
    exact Ends.bind (fun _ _ => True) (Ends.optional ((Ends.trivial _).mono (fun _ _ x => x) fun _ _ x => x))
      fun _ _ _ => trivial

end Create

/-! ## The paths of a CREATE -/

/-- The paths of a CREATE whose arguments are accepted: that of the file relative to the export, and the full
ones of the directory and of the file. -/
structure ChildPaths where
  rel : List UInt8
  dir : List UInt8
  child : List UInt8

/-- The paths, if the checks before the file is opened pass. -/
def childPaths (e : Export) (frame : Frame) (handle name : List UInt8) : Option ChildPaths :=
  match fullpathFromFh e.object handle frame.dirRel frame.dirFull with
  | some (.ok (dirRel, dirFull)) =>
    match childRelpath dirRel name frame.childRel, strcmp name [dot, 0] with
    | some (.ok childRel), some false =>
      match joinExportPath e.object childRel frame.childFull with
      | some (.ok childFull) => some ⟨pathOf childRel, pathOf dirFull, pathOf childFull⟩
      | some (.error _) | none => none
    | _, _ => none
  | some (.error _) | none => none

/-- The longest path that fits into a handle. -/
def longestPath : Nat := fhSize - magic.length - 1

/-- CREATE stops before the file is opened, or goes on with the paths, and with a handle if the relative one is
short enough. -/
theorem createOn_cases (e : Export) (frame : Frame) (d : Denied) (handle : List UInt8)
    {plainName : List UInt8} (named : cstring name = some plainName) (how : CreateHow)
    (m : Machine) :
    (childPaths e frame handle name = none ∧
      (createOn e frame d handle name how m = some (.error .badhandle, m) ∨
        ∃ dir status, createOn e frame d handle name how m = some (refuseCreate d dir status m))) ∨
    ∃ paths fh, childPaths e frame handle name = some paths ∧
      createOn e frame d handle name how m = some (createAt d how paths.dir paths.child fh m) ∧
      (fh.isOk = true ↔ paths.rel.length ≤ longestPath) := by
  rw [createOn, childPaths]
  rcases fullpathFromFh_spec e handle frame.dirRel frame.dirFull with
    ⟨err, refused⟩ | ⟨dirRel, dirFull, dir, resolved, directory, -⟩
  · rw [refused]
    exact .inl ⟨rfl, .inl rfl⟩
  rw [resolved, Option.bind_some]
  dsimp only
  have sized : frame.childRel ≠ [] := by
    intro empty
    have length := frame.sized.2.1
    rw [empty] at length
    exact absurd length (by decide)
  rcases childRelpath_spec directory named frame.childRel sized with
    ⟨err, refused⟩ | ⟨childRel, rel, accepted, -, holds, safe⟩
  · rw [refused]
    exact .inl ⟨rfl, .inr ⟨_, _, rfl⟩⟩
  rw [accepted, Option.bind_some, strcmp_eq named (rfl : cstring [dot, 0] = some [dot])]
  dsimp only
  rw [Option.bind_some]
  by_cases self : plainName = [dot]
  · rw [decide_eq_true self, if_pos rfl]
    exact .inl ⟨rfl, .inr ⟨_, _, rfl⟩⟩
  rw [decide_eq_false self, if_neg Bool.false_ne_true]
  dsimp only
  rcases joinExportPath_spec e.cstring_object holds frame.childFull with
    ⟨err, refused⟩ | ⟨childFull, path, joined, -⟩
  · rw [refused]
    exact .inl ⟨rfl, .inr ⟨_, _, rfl⟩⟩
  rw [joined, Option.bind_some]
  dsimp only
  have short : magic.length + rel.length + 1 ≤ fhSize ↔ rel.length ≤ longestPath := by
    show 4 + rel.length + 1 ≤ 64 ↔ rel.length ≤ 64 - 4 - 1
    omega
  have string : pathOf childRel = rel := by
    rw [pathOf, holds]
    rfl
  refine .inr ?_
  rcases fhFromPath_eq holds with ⟨fits, -, eq⟩ | ⟨never, err, eq⟩
  · rw [eq]
    refine ⟨⟨pathOf childRel, pathOf dirFull, pathOf childFull⟩, _, rfl, rfl, ?_⟩
    dsimp only
    rw [string]
    exact iff_of_true rfl (short.mp fits)
  · rw [eq]
    refine ⟨⟨pathOf childRel, pathOf dirFull, pathOf childFull⟩, _, rfl, rfl, ?_⟩
    dsimp only
    rw [string]
    exact iff_of_false Bool.false_ne_true fun fits => never ⟨safe, short.mpr fits⟩

theorem refuseCreate_ends (d : Denied) (dir : List UInt8) (status : NfsStat) (m : Machine) :
    Ends (fun _ _ => False) (fun _ m' => m'.tree = m.tree) (refuseCreate d dir status m) := by
  refine Ends.bind (fun _ m' => m'.tree = m.tree)
    (Ends.optional ((lstat_tree _ _ m rfl).mono (fun _ _ same => same) fun _ _ same => same)) fun before m₁ same => ?_
  exact Ends.bind (fun _ m' => m'.tree = m.tree) (fillWcc_tree d _ _ m₁ same)
    fun _ _ same' => Ends.fail same'

/-- A node that was not in use before is in use. -/
def FileMade (m m' : Machine) : Prop := ∃ i, m.tree.nodes i = none ∧ m'.tree.nodes i ≠ none

theorem fileMade_created {m' : Machine} {how : CreateHow}
    (made : m'.tree = created m.tree how parent name) : FileMade m m' := by
  refine ⟨m.tree.next, m.tree.free _ (Nat.le_refl _), fun none => ?_⟩
  have some : (created m.tree how parent name).nodes m.tree.next = _ := if_pos rfl
  rw [made, some] at none
  cases none

theorem not_fileMade {m' : Machine} (same : m'.tree = m.tree) : ¬ FileMade m m' := by
  rintro ⟨i, unused, used⟩
  exact used (same ▸ unused)

/-- A CREATE that fails has made no file, unless the host makes the file and its path is too long for a
handle. -/
theorem create_failed_iff (e : Export) (frame : Frame) (d : Denied) (stable : d.lstatChild = none)
    (handle name : List UInt8) (how : CreateHow) (m : Machine) :
    (∀ status m', createOn e frame d handle (name ++ [0]) how m = some (.error status, m') → ¬ FileMade m m') ↔
      ¬ ∃ paths, childPaths e frame handle (name ++ [0]) = some paths ∧
        (∃ parent last, Makes d m.tree how paths.child parent last) ∧ longestPath < paths.rel.length := by
  obtain ⟨plainName, named⟩ : ∃ plainName, cstring (name ++ [0]) = some plainName :=
    cstring_of_mem (List.mem_append_right _ List.mem_cons_self)
  rcases createOn_cases e frame d handle named how m with ⟨none, stopped⟩ | ⟨paths, fh, accepted, ran, fits⟩
  · refine iff_of_true (fun status m' failed => ?_) fun ⟨paths, found, _⟩ => nomatch none.symm.trans found
    rcases stopped with bad | ⟨dir, status', refused⟩
    · rw [bad] at failed
      cases failed
      exact not_fileMade rfl
    · have ends := refuseCreate_ends d dir status' m
      rw [Option.some.inj (refused.symm.trans failed)] at ends
      exact not_fileMade ends
  constructor
  · rintro harmless ⟨paths', same, ⟨parent, last, makes⟩, long⟩
    obtain rfl := Option.some.inj (accepted.symm.trans same)
    match fh, fits with
    | .ok _, fits => exact absurd (fits.mp rfl) (Nat.not_le.mpr long)
    | .error err, _ =>
      have ends := @createAt_refused d how paths.dir paths.child m err
      have made := @createAt_makes d how paths.dir paths.child m parent last makes (.error err)
      match result : createAt d how paths.dir paths.child (.error err) m with
      | (.ok _, _) =>
        rw [result] at ends
        exact ends
      | (.error status, m') =>
        rw [result] at ran made
        exact harmless status m' ran (fileMade_created made)
  · intro short status m' failed
    have result := Option.some.inj (ran.symm.trans failed)
    by_cases makes : ∃ parent last, Makes d m.tree how paths.child parent last
    · have fit : paths.rel.length ≤ longestPath :=
        Nat.le_of_not_lt fun long => short ⟨paths, accepted, makes, long⟩
      obtain ⟨parent, last, makes⟩ := makes
      match fh, fits.mpr fit with
      | .ok fh, _ =>
        have ends := @createAt_succeeds d how paths.dir paths.child m parent last makes stable fh
        rw [result] at ends
        exact ends.elim
    · have same := @createAt_leaves d how paths.dir paths.child m
        (fun parent last made => makes ⟨parent, last, made⟩) fh
      rw [result] at same
      exact not_fileMade same

/-- The attributes of a file of the examples below. -/
def plainStat (mode i : Nat) : Stat := ⟨mode, 1, 0, 0, 0, 0, 0, i, (0, 0), (0, 0), (0, 0)⟩

/-- A host with an empty directory `/srv`. -/
def emptyHost : Fs where
  root := 0
  nodes
    | 0 => some ⟨plainStat 0o040755 0, [], .dir 0 [([115, 114, 118], 1)]⟩
    | 1 => some ⟨plainStat 0o040755 1, [], .dir 0 []⟩
    | _ => none
  next := 2
  free
    | 0, low => absurd low (by decide)
    | 1, low => absurd low (by decide)
    | _ + 2, _ => rfl
  rooted := rfl
  parented
    | 0, _, _, rfl => rfl
    | 1, _, _, rfl => rfl
  live
    | 0, _, _, rfl => by decide
    | 1, _, _, rfl => by decide

/-- The status of a failed CREATE, and whether the node is in use after it. -/
def leftBehind (i : Nat) (result : Except NfsStat Create3ResOk × Machine) : Option NfsStat × Bool :=
  (match result.1 with
    | .ok _ => none
    | .error status => some status, (result.2.tree.nodes i).isSome)

theorem exists_of_leftBehind {run : Option (Except NfsStat Create3ResOk × Machine)}
    {status : NfsStat} (free : m.tree.nodes i = none)
    (seen : run.map (leftBehind i) = some (some status, true)) :
    ∃ status m', run = some (.error status, m') ∧ FileMade m m' := by
  obtain ⟨⟨result, m'⟩, rfl, both⟩ := Option.map_eq_some_iff.mp seen
  cases result with
  | ok _ => exact nomatch (Prod.mk.inj both).1
  | error status =>
    exact ⟨status, m', rfl, i, free, Option.isSome_iff_ne_none.mp (Prod.mk.inj both).2⟩

/-- A name of sixty bytes in the export itself: the file is made, and then the reply is an error. -/
theorem create_leaves_file : ∃ status m',
    createOn srv zeroFrame {} rootHandle (List.replicate 60 97 ++ [0]) (.unchecked none)
      ⟨emptyHost, []⟩ = some (.error status, m') ∧ FileMade ⟨emptyHost, []⟩ m' := by
  have seen : (createOn srv zeroFrame {} rootHandle (List.replicate 60 97 ++ [0]) (.unchecked none)
      ⟨emptyHost, []⟩).map (leftBehind 2) = some (some .nametoolong, true) := by
    decide +kernel
  exact exists_of_leftBehind rfl seen

/-- A name of one byte: a CREATE that fails has made no file. -/
theorem create_failed_short :
    (childPaths srv zeroFrame rootHandle ([97] ++ [0])).isSome = true ∧
    ∀ status m', createOn srv zeroFrame {} rootHandle ([97] ++ [0]) (.unchecked none)
      ⟨emptyHost, []⟩ = some (.error status, m') → ¬ FileMade ⟨emptyHost, []⟩ m' := by
  refine ⟨by decide +kernel, (create_failed_iff srv zeroFrame {} rfl rootHandle [97]
    (.unchecked none) ⟨emptyHost, []⟩).mpr ?_⟩
  rintro ⟨paths, accepted, -, long⟩
  have short : (childPaths srv zeroFrame rootHandle ([97] ++ [0])).all
      (fun paths => paths.rel.length = 1) = true := by decide +kernel
  rw [accepted] at short
  have one : paths.rel.length = 1 := of_decide_eq_true short
  rw [one] at long
  exact absurd long (by decide)

/-! ## Links -/

/-- The calls acted on the object only, it is below this directory, and nothing else has changed. -/
structure StaysWith (tree : Fs) (top o : Nat) (m : Machine) : Prop where
  touched : ∀ i ∈ m.touched, i = o ∧ tree.Below top i
  others : ∀ i, i ≠ o → m.tree.nodes i = tree.nodes i

/-- A link that leads nowhere, or no link. -/
def Plain (tree : Fs) (path : List UInt8) (o : Nat) : Prop :=
  tree.IsLink o → ∀ i, tree.resolve false path ≠ .ok (.node i)

section Handles

variable {tree : Fs} {top o : Nat} {path : List UInt8}

theorem find_touches {nofollow : Bool} (found : m.tree.resolve nofollow path = .ok (.node j)) :
    Ends (fun i m' => j = i ∧ j ∈ m'.touched ∧ m.tree = m'.tree) (fun _ _ => False)
      (find nofollow path m) := by
  refine Ends.read_bind ?_
  rw [found]
  exact ⟨rfl, List.mem_append_right _ List.mem_cons_self, rfl⟩

theorem lstat_touches (found : m.tree.resolve true path = .ok (.node j)) :
    Ends (fun _ m' => j ∈ m'.touched) (fun _ m' => j ∈ m'.touched) (lstat none path m) := by
  refine Ends.bind (fun _ m' => m = m') rfl ?_
  rintro _ _ rfl
  refine Ends.bind (fun _ m' => j ∈ m'.touched)
    ((find_touches found).mono (fun _ _ ran => ran.2.1) fun _ _ never => never.elim) fun i m' mem => ?_
  exact Keeps.bind (nodeOf_keep i) (fun _ => Keeps.pure _) m' mem

theorem access_has (denied : Option Errno) : Keeps (fun m => j ∈ m.touched) (access denied path) :=
  Keeps.bind (find_has false path) fun _ => Keeps.check _

theorem fillPostAttr_has (d : Denied) : Keeps (fun m => j ∈ m.touched) (fillPostAttr d path) :=
  Keeps.bind (Keeps.optional (lstat_has _ _)) fun _ => Keeps.pure _

theorem grant_has (d : Denied) (asked : Nat) (bits : List (Nat × Nat)) :
    Keeps (fun m => j ∈ m.touched) (grant d asked path bits) := by
  induction bits with
  | nil => exact Keeps.pure _
  | cons entry rest ih =>
    rw [grant]
    exact Keeps.ite ih (Keeps.bind (Keeps.optional (access_has _)) fun _ => Keeps.bind ih fun _ => Keeps.pure _)

theorem getattr_touches (found : tree.resolve true path = .ok (.node o)) :
    o ∈ (HandleRequest.getattr.exec {} path ⟨tree, []⟩).2.touched := by
  suffices ends : Ends (fun _ m' => o ∈ m'.touched) (fun _ m' => o ∈ m'.touched)
    (HandleRequest.getattr.exec {} path ⟨tree, []⟩) from ends.state
  refine Ends.bind (fun _ m' => o ∈ m'.touched) ?_ fun _ _ mem => mem
  exact Ends.bind (fun _ m' => o ∈ m'.touched) (Ends.mapError (lstat_touches found)) fun _ _ mem => mem

theorem access_touches (found : tree.resolve false path = .ok (.node j)) :
    j ∈ ((HandleRequest.access 0).exec {} path ⟨tree, []⟩).2.touched := by
  suffices ends : Ends (fun _ m' => j ∈ m'.touched) (fun _ m' => j ∈ m'.touched)
    ((HandleRequest.access 0).exec {} path ⟨tree, []⟩) from ends.state
  refine Ends.bind (fun _ m' => j ∈ m'.touched) ?_ fun _ _ mem => mem
  refine Ends.bind (fun _ m' => j ∈ m'.touched) ?_ fun _ m' mem =>
    Keeps.bind (grant_has _ _ _) (fun _ => Keeps.bind (fillPostAttr_has _) fun _ => Keeps.pure _) m' mem
  refine Ends.onError (fun _ m' => j ∈ m'.touched) ?_ fun _ _ mem => (fillPostAttr_has _).state mem
  refine Ends.mapError (Ends.bind (fun _ m' => j ∈ m'.touched) ?_ fun _ m' mem => Keeps.check _ m' mem)
  exact (find_touches found).mono (fun _ _ ran => ran.2.1) fun _ _ never => never.elim

/-- The requests on an object keep to it if and only if it is below the directory and not a link that leads
somewhere. -/
theorem exec_stays_iff (found : tree.resolve true path = .ok (.node o)) :
    (∀ d request, StaysWith tree top o (HandleRequest.exec d path request ⟨tree, []⟩).2) ↔
      tree.Below top o ∧ Plain tree path o := by
  constructor
  · intro stays
    refine ⟨((stays {} .getattr).touched o (getattr_touches found)).2, fun link j follows => ?_⟩
    obtain rfl := ((stays {} (.access 0)).touched j (access_touches follows)).1
    exact FileTree.resolve_not_isLink follows link
  · rintro ⟨below, plain⟩ d request
    have leads : Leads tree true path o := fun i same =>
      FileTree.Place.node.inj (Except.ok.inj (same.symm.trans found))
    have follows : Leads tree false path o := by
      intro i followed
      by_cases link : tree.IsLink o
      · exact absurd followed (plain link i)
      · have agrees := FileTree.resolve_agrees tree path
        rw [found] at agrees
        exact FileTree.Place.node.inj (Except.ok.inj (followed.symm.trans (agrees link)))
    have only := (exec_keeps leads follows d request).state
      (⟨.refl tree, fun _ mem => absurd mem List.not_mem_nil, fun _ _ => rfl⟩ : Only tree o ⟨tree, []⟩)
    refine ⟨fun i mem => ?_, only.others⟩
    obtain rfl := only.touched i mem
    exact ⟨rfl, below⟩

end Handles

/-- The calls acted on the objects that the directory and the name stand for, or on the new file of that name,
all below one directory, and nothing else has changed. -/
structure CreateStays (tree : Fs) (top : Nat) (dir child : List UInt8) (m : Machine) : Prop where
  touched : ∀ i ∈ m.touched,
    tree.Below top i ∧ (tree.resolve true dir = .ok (.node i) ∨ tree.resolve true child = .ok (.node i)) ∨
      ¬ tree.Live i ∧ m.tree.resolve true child = .ok (.node i) ∧ m.tree.Below top i
  others : ∀ i, i ∉ m.touched → m.tree.nodes i = tree.nodes i

/-- The objects are below the directory; the name is not a link that leads to another object or to a place for
one; and where the name is missing, the directory is not a link. -/
structure CreatePlain (tree : Fs) (top : Nat) (dir child : List UInt8) : Prop where
  directory : ∀ i, tree.resolve true dir = .ok (.node i) → tree.Below top i
  object : ∀ i, tree.resolve true child = .ok (.node i) → ¬ tree.IsLink i → tree.Below top i
  link : ∀ i, tree.resolve true child = .ok (.node i) → tree.IsLink i →
    (∀ parent name, tree.resolve false child ≠ .ok (.absent parent name)) ∧
      ∀ j, tree.resolve false child = .ok (.node j) →
        tree.resolve true dir = .ok (.node j) ∧ (¬ tree.IsDir j → tree.Below top i)
  missing : ∀ parent name, tree.resolve true child = .ok (.absent parent name) →
    tree.resolve true dir = .ok (.node parent)

section Creations

variable {tree : Fs} {top : Nat} {dir child : List UInt8} {mode : Option Nat}

theorem isDir_node {node : FileTree.Node Stat} (found : tree.nodes i = some node)
    (directory : tree.IsDir i) : node.shape.isDir = true := by
  rw [FileTree.Tree.IsDir, FileTree.Tree.shape, found] at directory
  exact directory

theorem openCreate_isDir {S : Nat → Prop} (d : Denied)
    (found : tree.resolve false child = .ok (.node j)) (directory : tree.IsDir j) (inside : S j)
    (held : Within tree S m) :
    Ends (fun _ _ => False) (fun _ => Within tree S)
      (openCreate d.openFile child false (CreateHow.mode (.unchecked mode)) m) := by
  refine Ends.check_bind (fun _ _ => held) fun _ => ?_
  refine Ends.read_bind ?_
  rw [held.tree, found]
  refine Ends.bind (fun _ m' => m = m') rfl ?_
  rintro _ _ rfl
  refine Ends.bind (fun _ => Within tree S) (held.touch inside) fun _ m' held' => ?_
  refine Ends.bind (fun node m'' => m'.tree.nodes j = some node ∧ m' = m'')
    ((nodeOf_ends j m').mono (fun _ _ ran => ran) ?_) ?_
  · rintro _ _ ⟨-, rfl⟩
    exact held'
  · rintro node _ ⟨there, rfl⟩
    rw [held'.tree] at there
    exact Ends.refuse (fun file => absurd (isDir_node there directory) (by rw [file]; exact Bool.false_ne_true))
      fun _ => held'

theorem openCreate_error {S : Nat → Prop} (d : Denied) {fault : FileTree.Fault}
    (found : tree.resolve false child = .error fault) (held : Within tree S m) :
    Ends (fun _ _ => False) (fun _ => Within tree S)
      (openCreate d.openFile child false (CreateHow.mode (.unchecked mode)) m) := by
  refine Ends.check_bind (fun _ _ => held) fun _ => ?_
  refine Ends.read_bind ?_
  rw [held.tree, found]
  exact held

theorem createAt_closed {S : Nat → Prop} (d : Denied) {how : CreateHow}
    (directory : ∀ i, tree.resolve true dir = .ok (.node i) → S i)
    (closed : ∀ m, Within tree S m → Ends (fun _ _ => False) (fun _ => Within tree S) (openCreate d.openFile child how.excl how.mode m))
    (handle : Except Errno Fh) (held : Within tree S m) :
    Within tree S (createAt d how dir child handle m).2 := by
  suffices ends : Ends (fun _ => Within tree S) (fun _ => Within tree S)
    (createAt d how dir child handle m) from ends.state
  refine Ends.bind (fun _ => Within tree S)
    (Ends.optional ((lstat_within _ directory m held).mono (fun _ _ same => same) fun _ _ same => same))
    fun before m₁ held₁ => ?_
  refine Ends.bind (fun _ _ => False) ?_ fun _ _ never => never.elim
  refine Ends.onError (fun _ => Within tree S) ?_ fun _ m₂ held₂ =>
    (fillWcc_within d before directory).state held₂
  exact Ends.bind (fun _ _ => False) (Ends.mapError (closed m₁ held₁)) fun _ _ never => never.elim

theorem createStays_of_within
    (held : Within tree (fun i => tree.Below top i ∧ (tree.resolve true dir = .ok (.node i) ∨ tree.resolve true child = .ok (.node i))) m) :
    CreateStays tree top dir child m :=
  ⟨fun i mem => .inl (held.touched i mem), fun i _ => by rw [held.tree]⟩

theorem nodes_created {how : CreateHow} (other : i ≠ parent) (old : i ≠ tree.next) :
    (created tree how parent name).nodes i = tree.nodes i :=
  (if_neg old).trans (if_neg other)

theorem not_live_next (tree : Fs) : ¬ tree.Live tree.next := fun live =>
  absurd (FileTree.lt_of_live live) (Nat.lt_irrefl _)

theorem createAt_stays (plain : CreatePlain tree top dir child) (d : Denied) (handle : Except Errno Fh) :
    CreateStays tree top dir child (createAt d (.unchecked mode) dir child handle ⟨tree, []⟩).2 := by
  let S (i : Nat) : Prop := tree.Below top i ∧
    (tree.resolve true dir = .ok (.node i) ∨ tree.resolve true child = .ok (.node i))
  have start : Within tree S ⟨tree, []⟩ := ⟨rfl, fun _ mem => absurd mem List.not_mem_nil⟩
  have directory (i : Nat) (found : tree.resolve true dir = .ok (.node i)) : S i :=
    ⟨plain.directory i found, .inl found⟩
  have agrees := FileTree.resolve_agrees tree child
  have follows (j : Nat) (found : tree.resolve false child = .ok (.node j)) : S j := by
    match here : tree.resolve true child with
    | .error _ => rw [here, found] at agrees; cases agrees
    | .ok (.absent _ _) => rw [here, found] at agrees; cases agrees
    | .ok (.node i) =>
      by_cases link : tree.IsLink i
      · exact directory j ((plain.link i here link).2 j found).1
      · rw [here] at agrees
        obtain rfl := FileTree.Place.node.inj (Except.ok.inj ((agrees link).symm.trans found))
        exact ⟨plain.object i here link, .inr here⟩
  have opens (object : ∀ i, tree.resolve true child = .ok (.node i) → S i)
      (absent : ∀ parent name, tree.resolve false child = .ok (.absent parent name) →
        tree.resolve true child = .ok (.absent parent name)) :
      CreateStays tree top dir child (createAt d (.unchecked mode) dir child handle ⟨tree, []⟩).2 := by
    have added (parent : Nat) (name : List UInt8) (gone : tree.resolve false child = .ok (.absent parent name)) :=
      plain.missing parent name (absent parent name gone)
    have reachesDir : Reaches tree (.unchecked mode) child S dir := by
      refine ⟨directory, fun parent name gone i found => .inr (.inl ?_)⟩
      have still := FileTree.resolve_addFile_node (newStat (CreateHow.mode (.unchecked mode)) tree.next)
        (FileTree.resolve_misses gone) (added parent name gone)
      exact FileTree.Place.node.inj (Except.ok.inj (found.symm.trans still))
    have reachesChild : Reaches tree (.unchecked mode) child S child := by
      refine ⟨object, fun parent name gone i found => .inr (.inr ?_)⟩
      have new := FileTree.resolve_addFile (newStat (CreateHow.mode (.unchecked mode)) tree.next)
        (absent parent name gone)
      exact FileTree.Place.node.inj (Except.ok.inj (found.symm.trans new))
    cases createAt_opened d (fun _ => follows) reachesDir reachesChild handle start with
    | same held => exact createStays_of_within held
    | @added parent name gone held new =>
      have above := plain.directory parent (added parent name gone)
      refine ⟨fun i mem => ?_, fun i untouched => ?_⟩
      · rcases held.touched i mem with old | rfl | rfl
        · exact .inl old
        · exact .inl ⟨above, .inl (added i name gone)⟩
        · refine .inr ⟨not_live_next tree, ?_, ?_⟩
          · rw [held.tree]
            exact FileTree.resolve_addFile _ (absent parent name gone)
          · rw [held.tree]
            exact (FileTree.below_addFile above parent name _).tail
              (FileTree.entry_new (FileTree.resolve_misses gone) _)
      · rw [held.tree]
        exact nodes_created (fun same => untouched (same ▸ new.1)) fun same => untouched (same ▸ new.2)
  match led : tree.resolve false child with
  | .error fault =>
    exact createStays_of_within (createAt_closed d directory
      (fun m held => openCreate_error d led held) handle start)
  | .ok (.node j) =>
    by_cases isDir : tree.IsDir j
    · exact createStays_of_within (createAt_closed d directory
        (fun m held => openCreate_isDir d led isDir (follows j led) held) handle start)
    · refine opens (fun i found => ⟨?_, .inr found⟩) fun _ _ gone => nomatch led.symm.trans gone
      by_cases link : tree.IsLink i
      · exact ((plain.link i found link).2 j led).2 isDir
      · exact plain.object i found link
  | .ok (.absent parent name) =>
    rcases missing_cases led with absent | ⟨i, found, link⟩
    · exact opens (fun i found => nomatch absent.symm.trans found) fun _ _ gone =>
        (led.symm.trans gone) ▸ absent
    · exact absurd led ((plain.link i found link).1 parent name)

/-! ### What a CREATE acts on -/

theorem fillWcc_has (d : Denied) (path : List UInt8) (before : Option Stat) :
    Keeps (fun m => j ∈ m.touched) (fillWcc d path before) :=
  Keeps.bind (fillPostAttr_has d) fun _ => Keeps.pure _

theorem notADirectory_has (i : Nat) : Keeps (fun m => j ∈ m.touched) (notADirectory i) :=
  Keeps.bind (nodeOf_keep i) fun _ => Keeps.refuse _ _

theorem openCreate_has (denied : Option Errno) (path : List UInt8) (excl : Bool) (mode : Nat) :
    Keeps (fun m => j ∈ m.touched) (openCreate denied path excl mode) := by
  have more (i : Nat) : Keeps (fun m => j ∈ m.touched) (touch i) :=
    Keeps.update fun _ mem => List.mem_append_left _ mem
  refine Keeps.bind (Keeps.check _) fun _ => Keeps.bind Keeps.read fun m => ?_
  match m.tree.resolve excl path with
  | .ok (.node i) =>
    exact Keeps.bind (Keeps.refuse _ _) fun _ => Keeps.bind (more i) fun _ => notADirectory_has i
  | .ok (.absent parent name) =>
    exact Keeps.bind (more parent) fun _ => Keeps.bind (Keeps.update fun _ mem => mem) fun _ => more _
  | .error _ => exact Keeps.fail _

theorem createAt_touches {how : CreateHow}
    (opened : ∀ m₁ : Machine, m₁.tree = m.tree → Ends (fun _ m' => j ∈ m'.touched ∨ m'.tree = m.tree ∧ m.tree.resolve true child = .ok (.node j)) (fun _ m' => j ∈ m'.touched) (openCreate none child how.excl how.mode m₁)) :
    j ∈ (createAt {} how dir child handle m).2.touched := by
  suffices ends : Ends (fun _ m' => j ∈ m'.touched) (fun _ m' => j ∈ m'.touched)
    (createAt {} how dir child handle m) from ends.state
  refine Ends.bind (fun _ m' => m'.tree = m.tree)
    (Ends.optional ((lstat_tree _ _ m rfl).mono (fun _ _ same => same) fun _ _ same => same)) fun before m₁ same => ?_
  refine Ends.bind (fun _ m' => j ∈ m'.touched) ?_ fun _ m₂ mem =>
    Keeps.bind (fillWcc_has _ _ _) (fun _ => Keeps.pure _) m₂ mem
  refine Ends.onError (fun _ m' => j ∈ m'.touched) ?_ fun _ _ mem => (fillWcc_has _ _ _).state mem
  refine Ends.bind _ (Ends.mapError (opened m₁ same)) fun _ m₂ either => ?_
  refine Ends.bind (fun _ m' => j ∈ m'.touched) (Ends.mapError ?_) fun _ m₃ mem =>
    Keeps.bind (Keeps.mapError _ (Keeps.lift _)) (fun _ => Keeps.pure _) m₃ mem
  rcases either with mem | ⟨same', found⟩
  · exact lstat_has none child m₂ mem
  · exact lstat_touches (same'.symm ▸ found)

theorem createAt_touches_dir {how : CreateHow} (found : tree.resolve true dir = .ok (.node i)) :
    i ∈ (createAt {} how dir child handle ⟨tree, []⟩).2.touched := by
  suffices ends : Ends (fun _ m' => i ∈ m'.touched) (fun _ m' => i ∈ m'.touched)
    (createAt {} how dir child handle ⟨tree, []⟩) from ends.state
  refine Ends.bind (fun _ m' => i ∈ m'.touched)
    (Ends.optional ((lstat_touches found).mono (fun _ _ mem => mem) fun _ _ mem => mem)) fun before m₁ mem => ?_
  refine Ends.bind (fun _ m' => i ∈ m'.touched) ?_ fun _ m₂ mem' =>
    Keeps.bind (fillWcc_has _ _ _) (fun _ => Keeps.pure _) m₂ mem'
  refine Ends.onError (fun _ m' => i ∈ m'.touched) ?_ fun _ _ mem' => (fillWcc_has _ _ _).state mem'
  exact Keeps.bind (Keeps.mapError _ (openCreate_has _ _ _ _)) (fun _ =>
    Keeps.bind (Keeps.mapError _ (lstat_has _ _)) fun _ =>
      Keeps.bind (Keeps.mapError _ (Keeps.lift _)) fun _ => Keeps.pure _) m₁ mem

theorem openCreate_node (found : m.tree.resolve false child = .ok (.node j)) :
    Ends (fun _ m' => j ∈ m'.touched ∧ m'.tree = m.tree) (fun _ m' => j ∈ m'.touched ∧ ¬ ∃ node, m.tree.nodes j = some node ∧ node.shape.isDir = false)
      (openCreate none child false (CreateHow.mode (.unchecked mode)) m) := by
  refine Ends.bind (fun _ m' => m = m') rfl ?_
  rintro _ _ rfl
  refine Ends.read_bind ?_
  rw [found]
  refine Ends.bind (fun _ m' => m = m') rfl ?_
  rintro _ _ rfl
  refine Ends.bind (fun _ m' => j ∈ m'.touched ∧ m'.tree = m.tree)
    ⟨List.mem_append_right _ List.mem_cons_self, rfl⟩ fun _ m' ⟨mem, same⟩ => ?_
  refine Ends.bind (fun node m'' => m'.tree.nodes j = some node ∧ m' = m'')
    ((nodeOf_ends j m').mono (fun _ _ ran => ran) ?_) ?_
  · rintro _ _ ⟨gone, rfl⟩
    refine ⟨mem, fun ⟨node, there, _⟩ => ?_⟩
    rw [← same, gone] at there
    cases there
  · rintro node _ ⟨there, rfl⟩
    refine Ends.refuse (fun _ => ⟨mem, same⟩) fun isDir => ⟨mem, fun ⟨other, there', file⟩ => ?_⟩
    rw [← same, there] at there'
    cases there'
    rw [file] at isDir
    cases isDir

/-- A node that a path leads to is an object of the names if the CREATE keeps to them. -/
theorem CreateStays.named (stays : CreateStays tree top dir child m) (live : tree.Live i)
    (mem : i ∈ m.touched) : tree.Below top i ∧
      (tree.resolve true dir = .ok (.node i) ∨ tree.resolve true child = .ok (.node i)) :=
  (stays.touched i mem).resolve_right fun new => new.1 live

theorem createPlain_of_stays
    (stays : CreateStays tree top dir child (createAt {} (.unchecked mode) dir child handle ⟨tree, []⟩).2) :
    CreatePlain tree top dir child := by
  have agrees := FileTree.resolve_agrees tree child
  have led' (m₁ : Machine) (same : m₁.tree = tree) (j : Nat)
      (led : tree.resolve false child = .ok (.node j)) : m₁.tree.resolve false child = .ok (.node j) := by
    rw [same]
    exact led
  have target (j : Nat) (led : tree.resolve false child = .ok (.node j)) :
      j ∈ (createAt {} (.unchecked mode) dir child handle ⟨tree, []⟩).2.touched :=
    createAt_touches fun m₁ same => (openCreate_node (led' m₁ same j led)).mono (fun _ _ ran => .inl ran.1)
      fun _ _ ran => ran.1
  have made (parent : Nat) (name : List UInt8) (gone : tree.resolve false child = .ok (.absent parent name)) :
      (createAt {} (.unchecked mode) dir child handle ⟨tree, []⟩).2.tree =
          created tree (.unchecked mode) parent name ∧
        parent ∈ (createAt {} (.unchecked mode) dir child handle ⟨tree, []⟩).2.touched ∧
        tree.next ∈ (createAt {} (.unchecked mode) dir child handle ⟨tree, []⟩).2.touched := by
    have same := @createAt_makes {} (.unchecked mode) dir child ⟨tree, []⟩ parent name ⟨rfl, gone⟩ handle
    have anywhere (path : List UInt8) : Reaches tree (.unchecked mode) child (fun _ => True) path :=
      ⟨fun _ _ => trivial, fun _ _ _ _ _ => .inl trivial⟩
    refine ⟨same, ?_⟩
    cases createAt_opened {} (fun _ _ _ => trivial) (anywhere dir) (anywhere child) handle
      (⟨rfl, fun _ _ => trivial⟩ : Within tree (fun _ => True) ⟨tree, []⟩) with
    | same held =>
      have grown := congrArg FileTree.Tree.next (held.tree.symm.trans same)
      exact absurd grown (Nat.ne_of_lt (Nat.lt_succ_self _))
    | @added parent' name' gone' held new =>
      obtain ⟨rfl, rfl⟩ := FileTree.Place.absent.inj (Except.ok.inj (gone.symm.trans gone'))
      exact new
  refine ⟨?_, ?_, ?_, ?_⟩
  · intro i found
    exact (stays.named (FileTree.resolve_live found) (createAt_touches_dir found)).1
  · intro i found plain
    rw [found] at agrees
    exact (stays.named (FileTree.resolve_live found) (target i (agrees plain))).1
  · intro i found link
    constructor
    · intro parent name gone
      obtain ⟨same, -, mem⟩ := made parent name gone
      have still := FileTree.resolve_addFile_node (newStat (CreateHow.mode (.unchecked mode)) tree.next)
        (FileTree.resolve_misses gone) found
      rcases stays.touched _ mem with ⟨-, names⟩ | ⟨-, new, -⟩
      · rcases names with here | here
        · exact not_live_next tree (FileTree.resolve_live here)
        · exact not_live_next tree (FileTree.resolve_live here)
      · rw [same] at new
        have eq := FileTree.Place.node.inj (Except.ok.inj (still.symm.trans new))
        exact not_live_next tree (eq ▸ FileTree.resolve_live found)
    · intro j led
      obtain ⟨-, here | here⟩ := stays.named (FileTree.resolve_live led) (target j led)
      · refine ⟨here, fun file => ?_⟩
        have name : i ∈ (createAt {} (.unchecked mode) dir child handle ⟨tree, []⟩).2.touched := by
          refine createAt_touches fun m₁ same => (openCreate_node (led' m₁ same j led)).mono
            (fun _ _ ran => .inr ⟨ran.2.trans same, found⟩) fun _ _ ran => absurd ?_ ran.2
          obtain ⟨node, there⟩ := Option.isSome_iff_exists.mp (FileTree.resolve_live led)
          refine ⟨node, same ▸ there, ?_⟩
          rw [FileTree.Tree.IsDir, FileTree.Tree.shape, there] at file
          exact Bool.not_eq_true _ ▸ file
        exact (stays.named (FileTree.resolve_live found) name).1
      · obtain rfl := FileTree.Place.node.inj (Except.ok.inj (here.symm.trans found))
        exact absurd link (FileTree.resolve_not_isLink led)
  · intro parent name gone
    rw [gone] at agrees
    obtain ⟨-, mem, -⟩ := made parent name agrees
    obtain ⟨-, -, above, entries, shape, -⟩ := FileTree.turn_missing (FileTree.resolve_misses gone)
    have live := FileTree.live_of_isDir (FileTree.isDir_iff.mpr ⟨above, entries, shape⟩)
    obtain ⟨-, here | here⟩ := stays.named live mem
    · exact here
    · cases gone.symm.trans here

end Creations

/-- The requests with a handle keep to the object that GETATTR reports, below a directory such as the export,
if and only if it lies there and is not a link that leads somewhere; and CREATE without a check keeps to the
objects of the directory and the name if and only if these are plain. -/
theorem requests_stay_iff (e : Export) (frame : Frame) (handle : List UInt8) (tree : Fs) (top : Nat) :
    (∀ rel full o, fullpathFromFh e.object handle frame.dirRel frame.dirFull = some (.ok (rel, full)) →
      tree.resolve true (pathOf full) = .ok (.node o) →
      ((∀ d request result m', HandleRequest.serve e frame d handle request ⟨tree, []⟩ = some (result, m') →
          StaysWith tree top o m') ↔
        tree.Below top o ∧ Plain tree (pathOf full) o)) ∧
    ∀ name paths, childPaths e frame handle (name ++ [0]) = some paths →
      ((∀ d mode result m', createOn e frame d handle (name ++ [0]) (.unchecked mode) ⟨tree, []⟩ =
            some (result, m') → CreateStays tree top paths.dir paths.child m') ↔
        CreatePlain tree top paths.dir paths.child) := by
  constructor
  · intro rel full o resolved found
    have served (d : Denied) (request : HandleRequest) :
        request.serve e frame d handle ⟨tree, []⟩ = some (request.exec d (pathOf full) ⟨tree, []⟩) := by
      rw [HandleRequest.serve, resolved]
      rfl
    rw [← exec_stays_iff found]
    constructor
    · exact fun stays d request => stays d request _ _ (served d request)
    · intro stays d request result m' ran
      have same := Option.some.inj ((served d request).symm.trans ran)
      have state : (request.exec d (pathOf full) ⟨tree, []⟩).2 = m' := congrArg Prod.snd same
      exact state ▸ stays d request
  · intro name paths accepted
    obtain ⟨plainName, named⟩ : ∃ plainName, cstring (name ++ [0]) = some plainName :=
      cstring_of_mem (List.mem_append_right _ List.mem_cons_self)
    have ran (d : Denied) (mode : Option Nat) : ∃ fh, createOn e frame d handle (name ++ [0]) (.unchecked mode)
        ⟨tree, []⟩ = some (createAt d (.unchecked mode) paths.dir paths.child fh ⟨tree, []⟩) := by
      rcases createOn_cases e frame d handle named (.unchecked mode) ⟨tree, []⟩ with
        ⟨none, -⟩ | ⟨paths', fh, accepted', ran, -⟩
      · exact nomatch accepted.symm.trans none
      · obtain rfl := Option.some.inj (accepted.symm.trans accepted')
        exact ⟨fh, ran⟩
    constructor
    · intro stays
      obtain ⟨fh, eq⟩ := ran {} none
      exact createPlain_of_stays (stays {} none _ _ eq)
    · intro plain d mode result m' eq
      obtain ⟨fh, eq'⟩ := ran d mode
      have same := Option.some.inj (eq'.symm.trans eq)
      have state : (createAt d (.unchecked mode) paths.dir paths.child fh ⟨tree, []⟩).2 = m' :=
        congrArg Prod.snd same
      exact state ▸ createAt_stays plain d fh

/-- A host with a file `/s` and, in the export, a link `l` to it. -/
def linkHost : Fs where
  root := 0
  nodes
    | 0 => some ⟨plainStat 0o040755 0, [], .dir 0 [([115, 114, 118], 1), ([115], 3)]⟩
    | 1 => some ⟨plainStat 0o040755 1, [], .dir 0 [([108], 2)]⟩
    | 2 => some ⟨plainStat 0o120777 2, [], .link [47, 115]⟩
    | 3 => some ⟨plainStat 0o100644 3, [], .file⟩
    | _ => none
  next := 4
  free
    | 0, low | 1, low | 2, low | 3, low => absurd low (by decide)
    | _ + 4, _ => rfl
  rooted := rfl
  parented
    | 0, _, _, rfl => rfl
    | 1, _, _, rfl => rfl
    | 2, _, _, here | 3, _, _, here | _ + 4, _, _, here => nomatch here
  live
    | 0, _, _, rfl => by decide
    | 1, _, _, rfl => by decide
    | 2, _, _, here | 3, _, _, here | _ + 4, _, _, here => nomatch here

/-- GETATTR of the link reports the link, and WRITE changes the file outside of the export. -/
theorem write_follows_link : linkHost.resolve true [47, 115, 114, 118, 47, 108] = .ok (.node 2) ∧
    ∃ result m', (HandleRequest.write 0 1 [120]).serve srv zeroFrame {} (magic ++ [108, 0]) ⟨linkHost, []⟩ =
      some (result, m') ∧ (linkHost.nodes 3).map (·.data) = some [] ∧
      (m'.tree.nodes 3).map (·.data) = some [120] := by
  have run : ((HandleRequest.write 0 1 [120]).serve srv zeroFrame {} (magic ++ [108, 0]) ⟨linkHost, []⟩).map
      (fun ran => (ran.2.tree.nodes 3).map (·.data)) = some (some [120]) := by
    decide +kernel
  obtain ⟨⟨result, m'⟩, ran, changed⟩ := Option.map_eq_some_iff.mp run
  exact ⟨by decide +kernel, result, m', ran, rfl, changed⟩

/-- The full path of a handle that is accepted. -/
def fullOf (resolved : C (List UInt8 × List UInt8)) : Option (List UInt8) :=
  match resolved with
  | some (.ok (_, full)) => some (pathOf full)
  | some (.error _) | none => none

theorem exists_of_fullOf {resolved : C (List UInt8 × List UInt8)} {path : List UInt8}
    (full : fullOf resolved = some path) : ∃ rel full, resolved = some (.ok (rel, full)) ∧ pathOf full = path := by
  match resolved, full with
  | some (.ok (rel, full)), same => exact ⟨rel, full, rfl, Option.some.inj same⟩

/-- The requests on the export itself keep to it. -/
theorem requests_stay_srv : ∀ d request result m',
    HandleRequest.serve srv zeroFrame d rootHandle request ⟨emptyHost, []⟩ = some (result, m') →
      StaysWith emptyHost 1 1 m' := by
  have found : emptyHost.resolve true [47, 115, 114, 118] = .ok (.node 1) := by decide +kernel
  have resolved : fullOf (fullpathFromFh srv.object rootHandle zeroFrame.dirRel zeroFrame.dirFull) =
      some [47, 115, 114, 118] := by
    decide +kernel
  obtain ⟨rel, full, eq, path⟩ := exists_of_fullOf resolved
  refine ((requests_stay_iff srv zeroFrame rootHandle emptyHost 1).1 rel full 1 eq (path ▸ found)).mpr ?_
  exact ⟨.refl, fun link => absurd link (by decide)⟩

end UserNfsd

import Mathlib

/-!
# A tree of files with symbolic links

Files, directories and symbolic links under numbers, and how a path is resolved: component by component,
where a link in the middle is always followed and a link at the end is followed unless the caller asks not
to. Resolution ends with an object, or with a directory and the name it does not have.

The main facts: the two kinds of resolution agree unless the object is a link; resolution does not look at
the contents of files; and after a file was added where resolution ended, it ends at that file.
-/

namespace FileTree

def slash : UInt8 := 47

def dot : List UInt8 := [46]

def dotdot : List UInt8 := [46, 46]

inductive Fault where
  | enoent
  | enotdir
  | eloop
  deriving DecidableEq, Repr

/-- What resolution sees of a node. -/
inductive Shape where
  | file
  | dir (parent : Nat) (entries : List (List UInt8 × Nat))
  | link (target : List UInt8)
  deriving DecidableEq, Repr

def Shape.isDir : Shape → Bool
  | .dir _ _ => true
  | .file | .link _ => false

def Shape.isLink : Shape → Bool
  | .link _ => true
  | .file | .dir _ _ => false

/-- The data is that of a file. -/
structure Node (M : Type) where
  attributes : M
  data : List UInt8
  shape : Shape

/-- The nodes by number, those from `next` on being free. The root and the parent of a directory are
directories, and its entries are in use. -/
structure Tree (M : Type) where
  root : Nat
  nodes : Nat → Option (Node M)
  next : Nat
  free : ∀ i, next ≤ i → nodes i = none
  rooted : ((nodes root).map Node.shape).any Shape.isDir = true
  parented : ∀ i parent entries, (nodes i).map Node.shape = some (.dir parent entries) →
    ((nodes parent).map Node.shape).any Shape.isDir = true
  live : ∀ i parent entries, (nodes i).map Node.shape = some (.dir parent entries) →
    ∀ entry ∈ entries, (nodes entry.2).isSome = true

variable {M : Type}

def Tree.shape (t : Tree M) (i : Nat) : Option Shape := (t.nodes i).map Node.shape

def Tree.IsDir (t : Tree M) (i : Nat) : Prop := (t.shape i).any Shape.isDir = true

def Tree.IsLink (t : Tree M) (i : Nat) : Prop := (t.shape i).any Shape.isLink = true

instance (t : Tree M) (i : Nat) : Decidable (t.IsDir i) := inferInstanceAs (Decidable (_ = _))

instance (t : Tree M) (i : Nat) : Decidable (t.IsLink i) := inferInstanceAs (Decidable (_ = _))

/-- Where a resolution ends. -/
inductive Place where
  | node (i : Nat)
  | absent (parent : Nat) (name : List UInt8)
  deriving DecidableEq, Repr

def components (path : List UInt8) : List (List UInt8) := path.splitOn slash

/-- Where the target of a link starts. -/
def Tree.start (t : Tree M) (cur : Nat) (target : List UInt8) : Nat :=
  if target.head? = some slash then t.root else cur

/-- What one component of a path does: go on from a node, find nothing, find a link (with the node where its
target starts), or fail. -/
inductive Turn where
  | onto (i : Nat)
  | missing
  | link (i start : Nat) (target : List (List UInt8))
  | noDir
  deriving DecidableEq, Repr

/-- The turn onto an entry of the directory `cur`. -/
def Tree.arrive (t : Tree M) (cur child : Nat) : Turn :=
  match t.shape child with
  | some (.link target) => .link child (t.start cur target) (components target)
  | some .file | some (.dir _ _) | none => .onto child

def Tree.turn (t : Tree M) (cur : Nat) (name : List UInt8) : Turn :=
  match t.shape cur with
  | some (.dir parent entries) =>
    if name = [] ∨ name = dot then .onto cur
    else if name = dotdot then .onto parent
    else (entries.lookup name).elim .missing (t.arrive cur)
  | some .file | some (.link _) | none => .noDir

section Walk

variable (t : Tree M) (nofollow : Bool) (jump : Nat → List (List UInt8) → Except Fault Place)

/-- Resolution from a node, with what to do at a link that is followed. -/
def walkFrom : Nat → List (List UInt8) → Except Fault Place
  | cur, [] => .ok (.node cur)
  | cur, name :: rest =>
    match t.turn cur name with
    | .onto next => walkFrom next rest
    | .missing => if rest = [] then .ok (.absent cur name) else .error .enoent
    | .link child start target =>
      if rest = [] ∧ nofollow = true then .ok (.node child) else jump start (target ++ rest)
    | .noDir => .error .enotdir

/-- Resolution over at most so many links. -/
def walk : Nat → Nat → List (List UInt8) → Except Fault Place
  | 0 => walkFrom t nofollow fun _ _ => .error .eloop
  | links + 1 => walkFrom t nofollow (walk links)

end Walk

def maxLinks : Nat := 40

/-- The resolution of an absolute path. -/
def Tree.resolve (t : Tree M) (nofollow : Bool) (path : List UInt8) : Except Fault Place :=
  walk t nofollow maxLinks t.root (components path)

/-! ## Rules for resolutions -/

section Rules

variable {t : Tree M} {nofollow : Bool} {jump : Nat → List (List UInt8) → Except Fault Place}
  {cur : Nat} {name : List UInt8} {rest : List (List UInt8)}

theorem walkFrom_onto {next : Nat} (turn : t.turn cur name = .onto next) :
    walkFrom t nofollow jump cur (name :: rest) = walkFrom t nofollow jump next rest := by
  rw [walkFrom, turn]

theorem walkFrom_missing (turn : t.turn cur name = .missing) :
    walkFrom t nofollow jump cur (name :: rest) =
      if rest = [] then .ok (.absent cur name) else .error .enoent := by
  rw [walkFrom, turn]

theorem walkFrom_link {child start : Nat} {target : List (List UInt8)}
    (turn : t.turn cur name = .link child start target) :
    walkFrom t nofollow jump cur (name :: rest) =
      if rest = [] ∧ nofollow = true then .ok (.node child) else jump start (target ++ rest) := by
  rw [walkFrom, turn]

theorem walkFrom_followed {child start : Nat} {target : List (List UInt8)}
    (turn : t.turn cur name = .link child start target) :
    walkFrom t false jump cur (name :: rest) = jump start (target ++ rest) := by
  rw [walkFrom_link turn, if_neg (fun both => Bool.false_ne_true both.2)]

theorem walkFrom_noDir (turn : t.turn cur name = .noDir) :
    walkFrom t nofollow jump cur (name :: rest) = .error .enotdir := by
  rw [walkFrom, turn]

/-- What holds for every jump holds for every number of links. -/
theorem walk_induction {P : (Nat → List (List UInt8) → Except Fault Place) → Prop}
    (none : P fun _ _ => .error .eloop) (step : ∀ jump, P jump → P (walkFrom t nofollow jump))
    (links : Nat) : P (walk t nofollow links) := by
  induction links with
  | zero => exact step _ none
  | succ links ih => exact step _ ih

end Rules

/-! ## Following and not following -/

theorem arrive_link {t : Tree M} {cur child : Nat} {target : List UInt8}
    (linked : t.shape child = some (.link target)) :
    t.arrive cur child = .link child (t.start cur target) (components target) := by
  rw [Tree.arrive, linked]

theorem arrive_other {t : Tree M} {cur child : Nat} (other : ∀ target, t.shape child ≠ some (.link target)) :
    t.arrive cur child = .onto child := by
  rw [Tree.arrive]
  split
  · rename_i target linked
    exact absurd linked (other target)
  all_goals rfl

theorem isLink_iff {t : Tree M} {i : Nat} : t.IsLink i ↔ ∃ target, t.shape i = some (.link target) := by
  rw [Tree.IsLink]
  match t.shape i with
  | none => simp
  | some .file => simp [Shape.isLink]
  | some (.dir _ _) => simp [Shape.isLink]
  | some (.link target) => simp [Shape.isLink]

/-- The turns from a directory. -/
theorem turn_dir {t : Tree M} {cur parent : Nat} {entries : List (List UInt8 × Nat)}
    (here : t.shape cur = some (.dir parent entries)) (name : List UInt8) :
    t.turn cur name = if name = [] ∨ name = dot then .onto cur
      else if name = dotdot then .onto parent
      else (entries.lookup name).elim .missing (t.arrive cur) := by
  rw [Tree.turn, here]

theorem turn_noDir {t : Tree M} {cur : Nat} (other : ¬ t.IsDir cur) (name : List UInt8) :
    t.turn cur name = .noDir := by
  rw [Tree.turn]
  split
  · rename_i here
    exact absurd (by rw [Tree.IsDir, here]; rfl) other
  all_goals rfl

theorem isDir_iff {t : Tree M} {i : Nat} :
    t.IsDir i ↔ ∃ parent entries, t.shape i = some (.dir parent entries) := by
  rw [Tree.IsDir]
  match t.shape i with
  | none => simp
  | some .file => simp [Shape.isDir]
  | some (.dir _ _) => simp [Shape.isDir]
  | some (.link target) => simp [Shape.isDir]

/-- A link is found only at a link, from a directory. -/
theorem turn_link {t : Tree M} {cur child start : Nat} {name : List UInt8} {target : List (List UInt8)}
    (turn : t.turn cur name = .link child start target) :
    t.IsLink child ∧ t.IsDir cur ∧ (start = cur ∨ start = t.root) := by
  by_cases dir : t.IsDir cur
  · obtain ⟨parent, entries, here⟩ := isDir_iff.mp dir
    rw [turn_dir here] at turn
    split_ifs at turn
    cases found : entries.lookup name with
    | none =>
      rw [found] at turn
      cases turn
    | some i =>
      rw [found, Option.elim_some] at turn
      by_cases linked : t.IsLink i
      · obtain ⟨text, eq⟩ := isLink_iff.mp linked
        rw [arrive_link eq] at turn
        cases turn
        refine ⟨linked, dir, ?_⟩
        rw [Tree.start]
        split
        · exact .inr rfl
        · exact .inl rfl
      · rw [arrive_other fun text eq => linked (isLink_iff.mpr ⟨text, eq⟩)] at turn
        cases turn
  · rw [turn_noDir dir] at turn
    cases turn

theorem not_isLink_of_isDir {t : Tree M} {i : Nat} (dir : t.IsDir i) : ¬ t.IsLink i := by
  rw [Tree.IsDir] at dir
  rw [Tree.IsLink]
  match t.shape i, dir with
  | some (.dir _ _), _ => exact Bool.false_ne_true

theorem isDir_root (t : Tree M) : t.IsDir t.root := t.rooted

theorem isDir_parent {t : Tree M} {i parent : Nat} {entries : List (List UInt8 × Nat)}
    (here : t.shape i = some (.dir parent entries)) : t.IsDir parent := t.parented i parent entries here

/-- Going on never leads to a link. -/
theorem turn_onto {t : Tree M} {cur next : Nat} {name : List UInt8}
    (turn : t.turn cur name = .onto next) : ¬ t.IsLink next := by
  by_cases dir : t.IsDir cur
  · obtain ⟨parent, entries, here⟩ := isDir_iff.mp dir
    rw [turn_dir here] at turn
    split_ifs at turn
    · cases turn
      exact not_isLink_of_isDir dir
    · cases turn
      exact not_isLink_of_isDir (isDir_parent here)
    · cases found : entries.lookup name with
      | none =>
        rw [found] at turn
        cases turn
      | some i =>
        rw [found, Option.elim_some] at turn
        by_cases linked : t.IsLink i
        · obtain ⟨text, eq⟩ := isLink_iff.mp linked
          rw [arrive_link eq] at turn
          cases turn
        · rw [arrive_other fun text eq => linked (isLink_iff.mpr ⟨text, eq⟩)] at turn
          cases turn
          exact linked
  · rw [turn_noDir dir] at turn
    cases turn

/-- A name that is missing is missing in a directory. -/
theorem turn_missing {t : Tree M} {cur : Nat} {name : List UInt8} (turn : t.turn cur name = .missing) :
    ¬ (name = [] ∨ name = dot) ∧ name ≠ dotdot ∧
      ∃ parent entries, t.shape cur = some (.dir parent entries) ∧ entries.lookup name = none := by
  by_cases dir : t.IsDir cur
  · obtain ⟨parent, entries, here⟩ := isDir_iff.mp dir
    rw [turn_dir here] at turn
    split_ifs at turn with stay up
    cases found : entries.lookup name with
    | none => exact ⟨stay, up, parent, entries, here, found⟩
    | some i =>
      rw [found, Option.elim_some, Tree.arrive] at turn
      split at turn <;> cases turn
  · rw [turn_noDir dir] at turn
    cases turn

/-- The result of not following links compared with that of following them. -/
def Agrees (t : Tree M) (nofollow follow : Except Fault Place) : Prop :=
  match nofollow with
  | .error e => follow = .error e
  | .ok (.absent parent name) => follow = .ok (.absent parent name)
  | .ok (.node i) => ¬ t.IsLink i → follow = .ok (.node i)

theorem walkFrom_agrees {t : Tree M} {jump jump' : Nat → List (List UInt8) → Except Fault Place}
    (agrees : ∀ cur path, Agrees t (jump cur path) (jump' cur path)) (cur : Nat)
    (path : List (List UInt8)) :
    Agrees t (walkFrom t true jump cur path) (walkFrom t false jump' cur path) := by
  induction path generalizing cur with
  | nil => exact fun _ => rfl
  | cons name rest ih =>
    cases turn : t.turn cur name with
    | onto next =>
      rw [walkFrom_onto turn, walkFrom_onto turn]
      exact ih next
    | missing =>
      rw [walkFrom_missing turn, walkFrom_missing turn]
      split <;> rfl
    | link child start target =>
      rw [walkFrom_link turn, walkFrom_followed turn]
      split
      · exact fun plain => absurd (turn_link turn).1 plain
      · exact agrees start _
    | noDir =>
      rw [walkFrom_noDir turn, walkFrom_noDir turn]
      rfl

/-- The two resolutions agree unless not following ends at a link. -/
theorem walk_agrees (t : Tree M) (links cur : Nat) (path : List (List UInt8)) :
    Agrees t (walk t true links cur path) (walk t false links cur path) := by
  induction links generalizing cur path with
  | zero =>
    have loops : Agrees t (.error .eloop) (.error .eloop) := rfl
    exact walkFrom_agrees (fun _ _ => loops) cur path
  | succ links ih => exact walkFrom_agrees ih cur path

theorem resolve_agrees (t : Tree M) (path : List UInt8) :
    Agrees t (t.resolve true path) (t.resolve false path) := walk_agrees t _ _ _

/-- The jump never ends at a link. -/
def Lands (t : Tree M) (jump : Nat → List (List UInt8) → Except Fault Place) : Prop :=
  ∀ cur path i, ¬ t.IsLink cur → jump cur path = .ok (.node i) → ¬ t.IsLink i

theorem walkFrom_lands {t : Tree M} {jump : Nat → List (List UInt8) → Except Fault Place}
    (lands : Lands t jump) : Lands t (walkFrom t false jump) := by
  intro cur path i plain ended
  induction path generalizing cur with
  | nil =>
    cases ended
    exact plain
  | cons name rest ih =>
    cases turn : t.turn cur name with
    | onto next => exact ih next (turn_onto turn) (walkFrom_onto turn ▸ ended)
    | missing =>
      rw [walkFrom_missing turn] at ended
      split at ended <;> cases ended
    | link child start target =>
      rw [walkFrom_followed turn] at ended
      obtain ⟨-, dir, rfl | rfl⟩ := turn_link turn
      · exact lands _ _ i plain ended
      · exact lands _ _ i (not_isLink_of_isDir (isDir_root t)) ended
    | noDir =>
      rw [walkFrom_noDir turn] at ended
      cases ended

/-- Following links never ends at a link. -/
theorem resolve_not_isLink {t : Tree M} {path : List UInt8} {i : Nat}
    (ended : t.resolve false path = .ok (.node i)) : ¬ t.IsLink i :=
  @walk_induction M t false (Lands t) (fun _ _ _ _ never => nomatch never) (fun _ => walkFrom_lands)
    maxLinks _ _ i (not_isLink_of_isDir (isDir_root t)) ended

/-! ## Nodes in use -/

/-- The node is in use. -/
def Tree.Live (t : Tree M) (i : Nat) : Prop := (t.nodes i).isSome = true

theorem live_of_isDir {t : Tree M} {i : Nat} (dir : t.IsDir i) : t.Live i := by
  obtain ⟨parent, entries, here⟩ := isDir_iff.mp dir
  obtain ⟨node, found, -⟩ := Option.map_eq_some_iff.mp here
  rw [Tree.Live, found]
  rfl

theorem lt_of_live {t : Tree M} {i : Nat} (live : t.Live i) : i < t.next := by
  by_contra high
  rw [Tree.Live, t.free i (Nat.le_of_not_lt high)] at live
  cases live

theorem mem_of_lookup {entries : List (List UInt8 × Nat)} {name : List UInt8} {i : Nat}
    (found : entries.lookup name = some i) : (name, i) ∈ entries := by
  induction entries with
  | nil => cases found
  | cons entry rest ih =>
    rw [List.lookup_cons] at found
    split at found
    · rename_i same
      cases found
      exact eq_of_beq same ▸ List.mem_cons_self
    · exact List.mem_cons_of_mem _ (ih found)

/-- One component leads to nodes in use. -/
theorem turn_live {t : Tree M} {cur : Nat} {name : List UInt8} :
    (∀ next, t.turn cur name = .onto next → t.Live next) ∧
      ∀ child start target, t.turn cur name = .link child start target → t.Live child ∧ t.Live start := by
  by_cases dir : t.IsDir cur
  · obtain ⟨parent, entries, here⟩ := isDir_iff.mp dir
    rw [turn_dir here]
    split_ifs
    · exact ⟨fun next same => Turn.onto.inj same ▸ live_of_isDir dir, fun _ _ _ never => (nomatch never)⟩
    · exact ⟨fun next same => Turn.onto.inj same ▸ live_of_isDir (isDir_parent here),
        fun _ _ _ never => (nomatch never)⟩
    · cases found : entries.lookup name with
      | none => exact ⟨fun _ never => (nomatch never), fun _ _ _ never => (nomatch never)⟩
      | some i =>
        have low : t.Live i := t.live cur parent entries here _ (mem_of_lookup found)
        rw [Option.elim_some]
        by_cases linked : t.IsLink i
        · obtain ⟨text, eq⟩ := isLink_iff.mp linked
          rw [arrive_link eq]
          refine ⟨fun _ never => (nomatch never), fun child start target same => ?_⟩
          cases same
          refine ⟨low, ?_⟩
          rw [Tree.start]
          split
          · exact live_of_isDir (isDir_root t)
          · exact live_of_isDir dir
        · rw [arrive_other fun text eq => linked (isLink_iff.mpr ⟨text, eq⟩)]
          exact ⟨fun next same => Turn.onto.inj same ▸ low, fun _ _ _ never => (nomatch never)⟩
  · rw [turn_noDir dir]
    exact ⟨fun _ never => (nomatch never), fun _ _ _ never => (nomatch never)⟩

/-- The jump ends at nodes in use. -/
def Alive (t : Tree M) (jump : Nat → List (List UInt8) → Except Fault Place) : Prop :=
  ∀ cur path i, t.Live cur → jump cur path = .ok (.node i) → t.Live i

theorem walkFrom_alive {t : Tree M} {nofollow : Bool} {jump : Nat → List (List UInt8) → Except Fault Place}
    (alive : Alive t jump) : Alive t (walkFrom t nofollow jump) := by
  intro cur path i low ended
  induction path generalizing cur with
  | nil =>
    cases ended
    exact low
  | cons name rest ih =>
    cases turn : t.turn cur name with
    | onto next => exact ih next (turn_live.1 next turn) (walkFrom_onto turn ▸ ended)
    | missing =>
      rw [walkFrom_missing turn] at ended
      split at ended <;> cases ended
    | link child start target =>
      obtain ⟨inside, inside'⟩ := turn_live.2 child start target turn
      rw [walkFrom_link turn] at ended
      split at ended
      · cases ended
        exact inside
      · exact alive _ _ i inside' ended
    | noDir =>
      rw [walkFrom_noDir turn] at ended
      cases ended

theorem resolve_live {t : Tree M} {nofollow : Bool} {path : List UInt8} {i : Nat}
    (ended : t.resolve nofollow path = .ok (.node i)) : t.Live i :=
  @walk_induction M t nofollow (Alive t) (fun _ _ _ _ never => nomatch never) (fun _ => walkFrom_alive)
    maxLinks _ _ i (live_of_isDir (isDir_root t)) ended

/-! ## Contents and attributes -/

/-- The same nodes for resolution. -/
structure SameShape (t t' : Tree M) : Prop where
  root : t.root = t'.root
  shape : t.shape = t'.shape

theorem SameShape.refl (t : Tree M) : SameShape t t := ⟨rfl, rfl⟩

theorem SameShape.trans {t t' t'' : Tree M} (first : SameShape t t') (second : SameShape t' t'') :
    SameShape t t'' := ⟨first.root.trans second.root, first.shape.trans second.shape⟩

theorem SameShape.turn {t t' : Tree M} (same : SameShape t t') : t.turn = t'.turn := by
  funext cur name
  have arrives : t.arrive cur = t'.arrive cur := by
    funext child
    rw [Tree.arrive, Tree.arrive, same.shape]
    simp only [Tree.start, same.root]
  rw [Tree.turn, Tree.turn, same.shape, arrives]

theorem SameShape.walkFrom {t t' : Tree M} (same : SameShape t t') (nofollow : Bool)
    (jump : Nat → List (List UInt8) → Except Fault Place) :
    walkFrom t nofollow jump = FileTree.walkFrom t' nofollow jump := by
  funext cur path
  induction path generalizing cur with
  | nil => rfl
  | cons name rest ih =>
    rw [FileTree.walkFrom, FileTree.walkFrom, same.turn]
    simp only [ih]

theorem SameShape.resolve {t t' : Tree M} (same : SameShape t t') (nofollow : Bool) (path : List UInt8) :
    t.resolve nofollow path = t'.resolve nofollow path := by
  have walks (links : Nat) : walk t nofollow links = walk t' nofollow links := by
    induction links with
    | zero => exact same.walkFrom nofollow _
    | succ links ih => rw [walk, walk, ih, same.walkFrom]
  rw [Tree.resolve, Tree.resolve, walks, same.root]

section Modify

variable (nodes : Nat → Option (Node M)) (i : Nat) (change : M → List UInt8 → M × List UInt8)

/-- The nodes after a change of the attributes and the data of one. -/
def modifyNodes (j : Nat) : Option (Node M) :=
  if j = i then (nodes j).map fun node =>
    ⟨(change node.attributes node.data).1, (change node.attributes node.data).2, node.shape⟩
  else nodes j

theorem modifyNodes_shape (j : Nat) :
    (modifyNodes nodes i change j).map Node.shape = (nodes j).map Node.shape := by
  rw [modifyNodes]
  split
  · rw [Option.map_map]
    rfl
  · rfl

end Modify

/-- A change of the attributes and the data of a node. -/
def Tree.modify (t : Tree M) (i : Nat) (change : M → List UInt8 → M × List UInt8) : Tree M where
  root := t.root
  nodes := modifyNodes t.nodes i change
  next := t.next
  free j high := by rw [modifyNodes, t.free j high]; exact ite_self _
  rooted := by rw [modifyNodes_shape]; exact t.rooted
  parented j parent entries here := by
    rw [modifyNodes_shape] at here ⊢
    exact t.parented j parent entries here
  live j parent entries here entry mem := by
    rw [modifyNodes_shape] at here
    rw [← Option.isSome_map, modifyNodes_shape, Option.isSome_map]
    exact t.live j parent entries here entry mem

theorem modify_sameShape (t : Tree M) (i : Nat) (change : M → List UInt8 → M × List UInt8) :
    SameShape t (t.modify i change) := ⟨rfl, funext fun j => (modifyNodes_shape t.nodes i change j).symm⟩

/-! ## New files -/

/-- A directory with one more entry. -/
def Shape.extend (name : List UInt8) (i : Nat) : Shape → Shape
  | .dir parent entries => .dir parent (entries ++ [(name, i)])
  | .file => .file
  | .link target => .link target

section Add

variable (nodes : Nat → Option (Node M)) (parent : Nat) (name : List UInt8) (new : Nat) (attributes : M)

/-- The nodes with a new file. -/
def addNodes (j : Nat) : Option (Node M) :=
  if j = new then some ⟨attributes, [], .file⟩
  else if j = parent then (nodes j).map fun node => { node with shape := node.shape.extend name new }
  else nodes j

theorem addNodes_shape (j : Nat) : (addNodes nodes parent name new attributes j).map Node.shape =
    if j = new then some .file
    else if j = parent then ((nodes j).map Node.shape).map (Shape.extend name new)
    else (nodes j).map Node.shape := by
  rw [addNodes]
  split
  · rfl
  split
  · rw [Option.map_map, Option.map_map]
    rfl
  · rfl

end Add

theorem Shape.isDir_extend (name : List UInt8) (i : Nat) (shape : Shape) :
    (shape.extend name i).isDir = shape.isDir := by
  cases shape <;> rfl

theorem Shape.extend_eq_dir {name : List UInt8} {i above : Nat} {entries : List (List UInt8 × Nat)}
    {shape : Shape} (extended : shape.extend name i = .dir above entries) :
    ∃ before, shape = .dir above before ∧ entries = before ++ [(name, i)] := by
  cases shape with
  | dir parent before =>
    cases extended
    exact ⟨before, rfl, rfl⟩
  | file => cases extended
  | link target => cases extended

/-- A directory stays one when a file is added. -/
theorem addNodes_isDir {nodes : Nat → Option (Node M)} {new j : Nat} (unused : nodes new = none)
    (dir : ((nodes j).map Node.shape).any Shape.isDir = true) (parent : Nat) (name : List UInt8)
    (attributes : M) :
    ((addNodes nodes parent name new attributes j).map Node.shape).any Shape.isDir = true := by
  have other : j ≠ new := by
    rintro rfl
    rw [unused] at dir
    cases dir
  rw [addNodes_shape, if_neg other]
  split
  · rw [Option.any_map]
    simp only [Shape.isDir_extend]
    exact dir
  · exact dir

theorem addNodes_isSome {nodes : Nat → Option (Node M)} {parent new j : Nat} {name : List UInt8}
    {attributes : M} (used : (nodes j).isSome = true) :
    (addNodes nodes parent name new attributes j).isSome = true := by
  rw [addNodes]
  split
  · rfl
  split
  · rw [Option.isSome_map]
    exact used
  · exact used

/-- A new file under a name in a directory. -/
def Tree.addFile (t : Tree M) (parent : Nat) (name : List UInt8) (attributes : M) : Tree M where
  root := t.root
  nodes := addNodes t.nodes parent name t.next attributes
  next := t.next + 1
  free j high := by
    rw [addNodes, if_neg (by omega), t.free j (by omega)]
    exact ite_self _
  rooted := addNodes_isDir (t.free _ (Nat.le_refl _)) t.rooted parent name attributes
  parented j above entries here := by
    rw [addNodes_shape] at here
    refine addNodes_isDir (t.free _ (Nat.le_refl _)) ?_ parent name attributes
    split_ifs at here
    · cases here
    · obtain ⟨shape, found, extended⟩ := Option.map_eq_some_iff.mp here
      obtain ⟨before, rfl, -⟩ := Shape.extend_eq_dir extended
      exact t.parented j above before found
    · exact t.parented j above entries here
  live j above entries here entry mem := by
    rw [addNodes_shape] at here
    split_ifs at here
    · cases here
    · obtain ⟨shape, found, extended⟩ := Option.map_eq_some_iff.mp here
      obtain ⟨before, rfl, rfl⟩ := Shape.extend_eq_dir extended
      rcases List.mem_append.mp mem with old | last
      · exact addNodes_isSome (t.live j above before found entry old)
      · rw [List.mem_singleton.mp last, addNodes, if_pos rfl]
        rfl
    · exact addNodes_isSome (t.live j above entries here entry mem)

section AddFile

variable (t : Tree M) (parent : Nat) (name : List UInt8) (attributes : M)

theorem shape_addFile (j : Nat) : (t.addFile parent name attributes).shape j =
    if j = t.next then some .file
    else if j = parent then (t.shape j).map (Shape.extend name t.next) else t.shape j :=
  addNodes_shape t.nodes parent name t.next attributes j

theorem shape_next : t.shape t.next = none := by
  rw [Tree.shape, t.free _ (Nat.le_refl _)]
  rfl

variable {t} {parent name}

/-- A node is a link after the addition if it was one, and then the same. -/
theorem shape_addFile_link (j : Nat) (target : List UInt8) :
    (t.addFile parent name attributes).shape j = some (.link target) ↔ t.shape j = some (.link target) := by
  rw [shape_addFile]
  by_cases new : j = t.next
  · rw [if_pos new, new, shape_next]
    exact ⟨fun never => (nomatch never), fun never => (nomatch never)⟩
  rw [if_neg new]
  by_cases here : j = parent
  · rw [if_pos here]
    match t.shape j with
    | none => exact Iff.rfl
    | some .file => exact Iff.rfl
    | some (.link _) => exact Iff.rfl
    | some (.dir _ _) => exact ⟨fun never => (nomatch never), fun never => (nomatch never)⟩
  · rw [if_neg here]

theorem arrive_addFile (cur child : Nat) :
    (t.addFile parent name attributes).arrive cur child = t.arrive cur child := by
  by_cases linked : ∃ target, t.shape child = some (.link target)
  · obtain ⟨target, eq⟩ := linked
    rw [arrive_link eq, arrive_link ((shape_addFile_link attributes child target).mpr eq)]
    rfl
  · rw [arrive_other fun target eq => linked ⟨target, eq⟩,
      arrive_other fun target eq => linked ⟨target, (shape_addFile_link attributes child target).mp eq⟩]

/-- One component: only the new name leads elsewhere. -/
theorem turn_addFile (missing : t.turn parent name = .missing) (cur : Nat) (other : List UInt8) :
    (t.addFile parent name attributes).turn cur other =
      if cur = parent ∧ other = name then .onto t.next else t.turn cur other := by
  obtain ⟨plain, down, above, entries, here, absent⟩ := turn_missing missing
  have arrives : (t.addFile parent name attributes).arrive cur = t.arrive cur :=
    funext (arrive_addFile attributes cur)
  by_cases new : cur = t.next
  · have unused : t.shape cur = none := new ▸ shape_next t
    have file : (t.addFile parent name attributes).shape cur = some .file := by
      rw [shape_addFile, if_pos new]
    rw [Tree.turn, Tree.turn, file, unused, if_neg]
    rintro ⟨rfl, -⟩
    rw [unused] at here
    cases here
  by_cases same : cur = parent
  · subst same
    have extended : (t.addFile cur name attributes).shape cur =
        some (.dir above (entries ++ [(name, t.next)])) := by
      rw [shape_addFile, if_neg new, if_pos rfl, here]
      rfl
    rw [turn_dir extended, turn_dir here, arrives, List.lookup_append]
    by_cases named : other = name
    · have onto : t.arrive cur t.next = .onto t.next :=
        arrive_other fun target linked => by rw [shape_next] at linked; cases linked
      rw [named, if_neg plain, if_neg down, absent, if_pos ⟨rfl, rfl⟩, Option.none_or,
        List.lookup_cons_self, Option.elim_some, onto]
    · have nothing : List.lookup other [(name, t.next)] = none := by
        rw [List.lookup_cons, beq_eq_false_iff_ne.mpr named]
        rfl
      have elsewhere : ¬ (cur = cur ∧ other = name) := fun both => named both.2
      rw [nothing, Option.or_none, if_neg elsewhere]
  · rw [if_neg fun both => same both.1, Tree.turn, Tree.turn, shape_addFile, if_neg new, if_neg same, arrives]

/-- Where a resolution ends without an object, the directory lacks the name. -/
def Misses (t : Tree M) (jump : Nat → List (List UInt8) → Except Fault Place) : Prop :=
  ∀ cur path dir name, jump cur path = .ok (.absent dir name) → t.turn dir name = .missing

theorem walkFrom_misses {t : Tree M} {nofollow : Bool} {jump : Nat → List (List UInt8) → Except Fault Place}
    (misses : Misses t jump) : Misses t (walkFrom t nofollow jump) := by
  intro cur path dir name ended
  induction path generalizing cur with
  | nil => cases ended
  | cons first rest ih =>
    cases turn : t.turn cur first with
    | onto next => exact ih next (walkFrom_onto turn ▸ ended)
    | missing =>
      rw [walkFrom_missing turn] at ended
      split at ended
      · cases ended
        exact turn
      · cases ended
    | link child start target =>
      rw [walkFrom_link turn] at ended
      split at ended
      · cases ended
      · exact misses _ _ dir name ended
    | noDir =>
      rw [walkFrom_noDir turn] at ended
      cases ended

theorem walk_misses (t : Tree M) (nofollow : Bool) (links : Nat) : Misses t (walk t nofollow links) :=
  @walk_induction M t nofollow (Misses t) (fun _ _ _ _ never => nomatch never) (fun _ => walkFrom_misses) links

theorem resolve_misses {t : Tree M} {nofollow : Bool} {path : List UInt8} {dir : Nat} {name : List UInt8}
    (ended : t.resolve nofollow path = .ok (.absent dir name)) : t.turn dir name = .missing :=
  walk_misses t nofollow maxLinks _ _ dir name ended

/-- Where one resolution ends at the missing name, the other one ends at the file. -/
def Fills (dir : Nat) (name : List UInt8) (new : Nat)
    (jump jump' : Nat → List (List UInt8) → Except Fault Place) : Prop :=
  ∀ cur path, jump cur path = .ok (.absent dir name) → jump' cur path = .ok (.node new)

theorem walkFrom_fills (missing : t.turn parent name = .missing) (nofollow : Bool)
    {jump jump' : Nat → List (List UInt8) → Except Fault Place} (fills : Fills parent name t.next jump jump') :
    Fills parent name t.next (walkFrom t nofollow jump)
      (walkFrom (t.addFile parent name attributes) nofollow jump') := by
  intro cur path ended
  induction path generalizing cur with
  | nil => cases ended
  | cons first rest ih =>
    have turned := turn_addFile attributes missing cur first
    by_cases here : cur = parent ∧ first = name
    · rw [if_pos here] at turned
      rw [here.1, here.2, walkFrom_missing missing] at ended
      split at ended
      · rename_i last
        rw [walkFrom_onto turned, last]
        rfl
      · cases ended
    rw [if_neg here] at turned
    cases turn : t.turn cur first with
    | onto next =>
      rw [walkFrom_onto (turned.trans turn)]
      exact ih next (walkFrom_onto turn ▸ ended)
    | missing =>
      rw [walkFrom_missing turn] at ended
      split at ended
      · cases ended
        exact absurd ⟨rfl, rfl⟩ here
      · cases ended
    | link child start target =>
      rw [walkFrom_link (turned.trans turn)]
      rw [walkFrom_link turn] at ended
      split at ended
      · cases ended
      · rename_i passed
        rw [if_neg passed]
        exact fills _ _ ended
    | noDir =>
      rw [walkFrom_noDir turn] at ended
      cases ended

/-- A new file is found where its name was missing. -/
theorem resolve_addFile {nofollow : Bool} {path : List UInt8}
    (ended : t.resolve nofollow path = .ok (.absent parent name)) :
    (t.addFile parent name attributes).resolve nofollow path = .ok (.node t.next) := by
  have missing := resolve_misses ended
  have filled (links : Nat) : Fills parent name t.next (walk t nofollow links)
      (walk (t.addFile parent name attributes) nofollow links) := by
    induction links with
    | zero => exact walkFrom_fills attributes missing nofollow fun _ _ never => nomatch never
    | succ links ih => exact walkFrom_fills attributes missing nofollow ih
  exact filled maxLinks t.root (components path) ended

/-- Where one resolution ends at an object, so does the other. -/
def Stays (jump jump' : Nat → List (List UInt8) → Except Fault Place) : Prop :=
  ∀ cur path i, jump cur path = .ok (.node i) → jump' cur path = .ok (.node i)

theorem walkFrom_stays (missing : t.turn parent name = .missing) (nofollow : Bool)
    {jump jump' : Nat → List (List UInt8) → Except Fault Place} (stays : Stays jump jump') :
    Stays (walkFrom t nofollow jump) (walkFrom (t.addFile parent name attributes) nofollow jump') := by
  intro cur path i ended
  induction path generalizing cur with
  | nil => exact ended
  | cons first rest ih =>
    have turned := turn_addFile attributes missing cur first
    cases turn : t.turn cur first with
    | onto next =>
      rw [if_neg (by rintro ⟨rfl, rfl⟩; rw [missing] at turn; cases turn), turn] at turned
      rw [walkFrom_onto turned]
      exact ih next (walkFrom_onto turn ▸ ended)
    | missing =>
      rw [walkFrom_missing turn] at ended
      split at ended <;> cases ended
    | link child start target =>
      rw [if_neg (by rintro ⟨rfl, rfl⟩; rw [missing] at turn; cases turn), turn] at turned
      rw [walkFrom_link turned]
      rw [walkFrom_link turn] at ended
      split at ended
      · rename_i last
        rw [if_pos last]
        exact ended
      · rename_i passed
        rw [if_neg passed]
        exact stays _ _ i ended
    | noDir =>
      rw [walkFrom_noDir turn] at ended
      cases ended

/-- A new file does not change where the other paths lead. -/
theorem resolve_addFile_node (missing : t.turn parent name = .missing) {nofollow : Bool} {path : List UInt8}
    {i : Nat} (ended : t.resolve nofollow path = .ok (.node i)) :
    (t.addFile parent name attributes).resolve nofollow path = .ok (.node i) := by
  have stay (links : Nat) : Stays (walk t nofollow links)
      (walk (t.addFile parent name attributes) nofollow links) := by
    induction links with
    | zero => exact walkFrom_stays attributes missing nofollow fun _ _ _ never => nomatch never
    | succ links ih => exact walkFrom_stays attributes missing nofollow ih
  exact stay maxLinks t.root (components path) i ended

end AddFile

/-! ## The tree below a directory -/

/-- The directory has the node as an entry. -/
def Tree.Entry (t : Tree M) (dir i : Nat) : Prop :=
  ∃ parent entries name, t.shape dir = some (.dir parent entries) ∧ (name, i) ∈ entries

/-- The node is reached from the directory through entries alone. -/
def Tree.Below (t : Tree M) (dir i : Nat) : Prop := Relation.ReflTransGen t.Entry dir i

theorem entry_addFile {t : Tree M} {dir i : Nat} (entry : t.Entry dir i) (parent : Nat)
    (name : List UInt8) (attributes : M) : (t.addFile parent name attributes).Entry dir i := by
  obtain ⟨above, entries, other, here, mem⟩ := entry
  have old : dir ≠ t.next := by
    rintro rfl
    rw [shape_next] at here
    cases here
  by_cases same : dir = parent
  · refine ⟨above, entries ++ [(name, t.next)], other, ?_, List.mem_append_left _ mem⟩
    rw [shape_addFile, if_neg old, if_pos same, here]
    rfl
  · refine ⟨above, entries, other, ?_, mem⟩
    rw [shape_addFile, if_neg old, if_neg same, here]

theorem below_addFile {t : Tree M} {dir i : Nat} (below : t.Below dir i) (parent : Nat)
    (name : List UInt8) (attributes : M) : (t.addFile parent name attributes).Below dir i :=
  Relation.ReflTransGen.mono (fun _ _ entry => entry_addFile entry parent name attributes) dir i below

/-- A new file is an entry of its directory. -/
theorem entry_new {t : Tree M} {parent : Nat} {name : List UInt8}
    (missing : t.turn parent name = .missing) (attributes : M) :
    (t.addFile parent name attributes).Entry parent t.next := by
  obtain ⟨-, -, above, entries, here, -⟩ := turn_missing missing
  have old : parent ≠ t.next := by
    rintro rfl
    rw [shape_next] at here
    cases here
  refine ⟨above, entries ++ [(name, t.next)], name, ?_, List.mem_append_right _ List.mem_cons_self⟩
  rw [shape_addFile, if_neg old, if_pos rfl, here]
  rfl

end FileTree

import KernelNotes.Lib.Forest

/-!
# The disjoint-set structure

`find` follows the array to an element whose entry is 0 and writes that element
into every entry on its way; `union_pair` writes the root of its first argument
into the entry of the root of its second one. An entry 0 marks a root, so element
0 cannot be the parent of anything. `find` recurses without a bound, and here
with fuel: without enough of it there is no result.
-/

namespace Wheels.DisjointSet

open Forests Relation

/-- The entries of the array, all 0 at first. -/
abbrev Arr := Nat → Nat

def new : Arr := fun _ => 0

def find : (fuel : Nat) → Arr → Nat → Option (Nat × Arr)
  | 0, _, _ => none
  | fuel + 1, arr, x =>
    if arr x ≠ 0 then
      match find fuel arr (arr x) with
      | none => none
      | some (r, arr') => some (r, Function.update arr' x r)
    else some (x, arr)

def unionPair (fuel : Nat) (arr : Arr) (x y : Nat) : Option Arr :=
  match find fuel arr x with
  | none => none
  | some (x, arr) =>
    match find fuel arr y with
    | none => none
    | some (y, arr) => some (Function.update arr y x)

inductive Call
  | find (x : Nat)
  | unionPair (x y : Nat)

def call (fuel : Nat) (arr : Arr) : Call → Option Arr
  | .find x => (find fuel arr x).map Prod.snd
  | .unionPair x y => unionPair fuel arr x y

/-! ## What is required -/

/-- The pairs united so far, the last one first. -/
def pairs (before : List (Nat × Nat)) : Call → List (Nat × Nat)
  | .find _ => before
  | .unionPair x y => (x, y) :: before

def Connected (pairs : List (Nat × Nat)) : Nat → Nat → Prop := EqvGen fun x y => (x, y) ∈ pairs

def Finds (arr : Arr) (x r : Nat) : Prop := ∃ fuel arr', find fuel arr x = some (r, arr')

/-- Every element has a representative, the same one for connected elements only. -/
def Right (size : Nat) (pairs : List (Nat × Nat)) (arr : Arr) : Prop :=
  (∀ x < size, ∃ r, Finds arr x r) ∧
    ∀ x < size, ∀ y < size, (∃ r, Finds arr x r ∧ Finds arr y r) ↔ Connected pairs x y

/-- Every call returns, and the structure is right before and after it. -/
def RightAlong (size : Nat) : List (Nat × Nat) → Arr → List Call → Prop
  | before, arr, [] => Right size before arr
  | before, arr, c :: rest =>
    Right size before arr ∧
      ∃ fuel arr', call fuel arr c = some arr' ∧ RightAlong size (pairs before c) arr' rest

def Call.Inside (size : Nat) : Call → Prop
  | .find x => x < size
  | .unionPair x y => x < size ∧ y < size

/-- Element 0 has not been united with another one. -/
def Alone (size : Nat) (pairs : List (Nat × Nat)) : Prop := ∀ z < size, Connected pairs 0 z → z = 0

/-- A union joins two classes, and the first argument is not an element 0 on its own; uniting that
element with itself changes nothing. -/
def Good (size : Nat) (before : List (Nat × Nat)) : Call → Prop
  | .find _ => True
  | .unionPair x y =>
    (¬ Connected before x y ∧ ¬ (x = 0 ∧ Alone size before)) ∨ (x = 0 ∧ y = 0 ∧ Alone size before)

def GoodAlong (size : Nat) : List (Nat × Nat) → List Call → Prop
  | _, [] => True
  | before, c :: rest => Good size before c ∧ GoodAlong size (pairs before c) rest

/-! ## The array as a forest -/

def parent (arr : Arr) : Nat → Option Nat := fun x => if arr x = 0 then none else some (arr x)

variable {x r fuel y : Nat}

theorem parent_update {arr : Arr} (some_ : r ≠ 0) :
    parent (Function.update arr x r) = Function.update (parent arr) x (some r) := by
  funext y
  by_cases same : y = x
  · subst same
    rw [parent, Function.update_self, Function.update_self, if_neg some_]
  · rw [parent, Function.update_of_ne same, Function.update_of_ne same, parent]

theorem root_ne_zero {arr : Arr} (root : Root (parent arr) x r) (other : x ≠ 0) : r ≠ 0 := by
  induction root with
  | top _ => exact other
  | up some_ _ ih =>
    rename_i x p r
    rw [parent] at some_
    split at some_
    · exact nomatch some_
    · next entry =>
        obtain rfl := Option.some.inj some_
        exact ih entry

/-- A result of `find` is the root, and compresses paths. -/
theorem find_sound {arr arr' : Arr} (found : find fuel arr x = some (r, arr')) :
    Root (parent arr) x r ∧ Compressed (parent arr) (parent arr') := by
  induction fuel generalizing x r arr' with
  | zero => exact nomatch found
  | succ fuel ih =>
    rw [find] at found
    split at found
    · next entry =>
        split at found
        · exact nomatch found
        · next r' arr'' later =>
            obtain ⟨rfl, rfl⟩ := Prod.mk.inj (Option.some.inj found)
            obtain ⟨root, small⟩ := ih later
            have above : parent arr x = some (arr x) := if_neg entry
            have root' : Root (parent arr) x r' := .up above root
            rw [parent_update (root_ne_zero root entry)]
            exact ⟨root', small.update (above ▸ Option.some_ne_none _) root'⟩
    · next entry =>
        obtain ⟨rfl, rfl⟩ := Prod.mk.inj (Option.some.inj found)
        exact ⟨.top (if_pos (not_not.mp entry)), Compressed.refl _⟩

theorem find_mono {more : Nat} {arr : Arr} {result : Nat × Arr}
    (found : find fuel arr x = some result) (enough : fuel ≤ more) :
    find more arr x = some result := by
  induction fuel generalizing x more result with
  | zero => exact nomatch found
  | succ fuel ih =>
    obtain ⟨more, rfl⟩ := Nat.exists_eq_add_of_le' (Nat.le_trans (Nat.le_add_left 1 fuel) enough)
    rw [find] at found ⊢
    split at found
    · next entry =>
        rw [if_pos entry]
        split at found
        · exact nomatch found
        · next later =>
            rw [ih later (Nat.le_of_succ_le_succ enough)]
            exact found
    · next entry => rw [if_neg entry, found]

theorem finds_of_root {arr : Arr} (root : Root (parent arr) x r) : Finds arr x r := by
  induction root with
  | top none_ =>
    rename_i x
    have entry : arr x = 0 := by
      by_contra some_
      exact nomatch (if_neg some_).symm.trans none_
    exact ⟨1, arr, if_neg (not_not.mpr entry)⟩
  | up some_ above ih =>
    rename_i x p r
    obtain ⟨fuel, arr', later⟩ := ih
    rw [parent] at some_
    split at some_
    · exact nomatch some_
    · next entry =>
        obtain rfl := Option.some.inj some_
        refine ⟨fuel + 1, Function.update arr' x r, ?_⟩
        rw [find, if_pos entry, later]

theorem finds_iff {arr : Arr} : Finds arr x r ↔ Root (parent arr) x r := by
  constructor
  · rintro ⟨fuel, arr', found⟩
    exact (find_sound found).1
  · exact finds_of_root

/-! ## One call -/

theorem connected_cons {P : List (Nat × Nat)} {a b : Nat} :
    Connected ((x, y) :: P) a b ↔
      Connected P a b ∨ (Connected P a x ∧ Connected P y b) ∨ (Connected P a y ∧ Connected P x b) := by
  constructor
  · intro connected
    induction connected with
    | rel a b mem =>
      rcases List.mem_cons.mp mem with same | old
      · obtain ⟨rfl, rfl⟩ := Prod.mk.inj same
        exact .inr (.inl ⟨.refl _, .refl _⟩)
      · exact .inl (.rel a b old)
    | refl a => exact .inl (.refl a)
    | symm a b _ ih =>
      rcases ih with old | ⟨left, right⟩ | ⟨left, right⟩
      · exact .inl (old.symm _ _)
      · exact .inr (.inr ⟨right.symm _ _, left.symm _ _⟩)
      · exact .inr (.inl ⟨right.symm _ _, left.symm _ _⟩)
    | trans a b c _ _ first second =>
      rcases first with old | ⟨left, right⟩ | ⟨left, right⟩
      · rcases second with old' | ⟨left', right'⟩ | ⟨left', right'⟩
        · exact .inl (old.trans _ _ _ old')
        · exact .inr (.inl ⟨old.trans _ _ _ left', right'⟩)
        · exact .inr (.inr ⟨old.trans _ _ _ left', right'⟩)
      · rcases second with old' | ⟨left', right'⟩ | ⟨left', right'⟩
        · exact .inr (.inl ⟨left, right.trans _ _ _ old'⟩)
        · exact .inr (.inl ⟨left, right'⟩)
        · exact .inl (left.trans _ _ _ right')
      · rcases second with old' | ⟨left', right'⟩ | ⟨left', right'⟩
        · exact .inr (.inr ⟨left, right.trans _ _ _ old'⟩)
        · exact .inl (left.trans _ _ _ right')
        · exact .inr (.inr ⟨left, right'⟩)
  · have old : ∀ {a b}, Connected P a b → Connected ((x, y) :: P) a b := by
      intro a b
      exact EqvGen.mono (fun _ _ mem => List.mem_cons_of_mem _ mem) a b
    have new : Connected ((x, y) :: P) x y := .rel x y List.mem_cons_self
    rintro (same | ⟨left, right⟩ | ⟨left, right⟩)
    · exact old same
    · exact (old left).trans _ _ _ (new.trans _ _ _ (old right))
    · exact (old left).trans _ _ _ ((new.symm _ _).trans _ _ _ (old right))

section OneCall

variable {size : Nat} {P : List (Nat × Nat)} {arr arr' : Arr}

/-- The structure is right, and the array holds elements only. -/
structure Forest (size : Nat) (P : List (Nat × Nat)) (arr : Arr) : Prop where
  bounded : ∀ x < size, arr x < size
  rooted : ∀ x < size, ∃ r, Root (parent arr) x r
  same : ∀ x < size, ∀ y < size, ∀ r s, Root (parent arr) x r → Root (parent arr) y s →
    (r = s ↔ Connected P x y)

theorem right_iff (bounded : ∀ x < size, arr x < size) : Right size P arr ↔ Forest size P arr := by
  simp only [Right, finds_iff]
  constructor
  · rintro ⟨rooted, same⟩
    refine ⟨bounded, rooted, fun x inside y inside' r s root root' => ?_⟩
    rw [← same x inside y inside']
    constructor
    · rintro rfl
      exact ⟨r, root, root'⟩
    · rintro ⟨t, above, above'⟩
      exact (root.unique above).trans (root'.unique above').symm
  · intro forest
    refine ⟨forest.rooted, fun x inside y inside' => ?_⟩
    obtain ⟨r, root⟩ := forest.rooted x inside
    obtain ⟨s, root'⟩ := forest.rooted y inside'
    rw [← forest.same x inside y inside' r s root root']
    constructor
    · rintro ⟨t, above, above'⟩
      exact (root.unique above).trans (root'.unique above').symm
    · rintro rfl
      exact ⟨r, root, root'⟩

theorem root_lt (bounded : ∀ x < size, arr x < size) (root : Root (parent arr) x r)
    (inside : x < size) : r < size := by
  induction root with
  | top _ => exact inside
  | up some_ _ ih =>
    rw [parent] at some_
    split at some_
    · exact nomatch some_
    · obtain rfl := Option.some.inj some_
      exact ih (bounded _ inside)

theorem find_bounded (bounded : ∀ z < size, arr z < size) (inside : x < size)
    (found : find fuel arr x = some (r, arr')) : ∀ z < size, arr' z < size := by
  induction fuel generalizing x r arr' with
  | zero => exact nomatch found
  | succ fuel ih =>
    have low := root_lt bounded (find_sound found).1 inside
    rw [find] at found
    split at found
    · split at found
      · exact nomatch found
      · next r' arr'' later =>
          obtain ⟨rfl, rfl⟩ := Prod.mk.inj (Option.some.inj found)
          intro z within_
          by_cases same : z = x
          · subst same
            rw [Function.update_self]
            exact low
          · rw [Function.update_of_ne same]
            exact ih (bounded x inside) later z within_
    · obtain ⟨rfl, rfl⟩ := Prod.mk.inj (Option.some.inj found)
      exact bounded

theorem Forest.find (forest : Forest size P arr) (inside : x < size)
    (found : find fuel arr x = some (r, arr')) : Forest size P arr' := by
  have keeps : ∀ {z t}, Root (parent arr) z t → Root (parent arr') z t :=
    Root.compressed (find_sound found).2
  refine ⟨find_bounded forest.bounded inside found, fun z within_ => ?_, ?_⟩
  · obtain ⟨t, root⟩ := forest.rooted z within_
    exact ⟨t, keeps root⟩
  · intro y inside' z within_ t u root root'
    obtain ⟨t', above⟩ := forest.rooted y inside'
    obtain ⟨u', above'⟩ := forest.rooted z within_
    rw [root.unique (keeps above), root'.unique (keeps above')]
    exact forest.same y inside' z within_ t' u' above above'

theorem root_zero_iff (forest : Forest size P arr) (inside : x < size)
    (root : Root (parent arr) x r) : r = 0 ↔ x = 0 ∧ Alone size P := by
  constructor
  · rintro rfl
    have zero : x = 0 := by
      by_contra other
      exact root_ne_zero root other rfl
    subst zero
    refine ⟨rfl, fun z within_ joined => ?_⟩
    obtain ⟨t, above⟩ := forest.rooted z within_
    have same := (forest.same 0 inside z within_ 0 t root above).mpr joined
    by_contra other
    exact root_ne_zero above other same.symm
  · rintro ⟨rfl, alone⟩
    have low := root_lt forest.bounded root inside
    exact alone r low ((forest.same 0 inside r low r r root (.top root.parentless)).mp rfl)

/-- Two trees with different roots are joined under the first one, unless that is element 0. -/
theorem Forest.link (forest : Forest size P arr) {s : Nat} (inside : x < size ∧ y < size)
    (root : Root (parent arr) x r) (root' : Root (parent arr) y s) (apart : r ≠ s) (other : r ≠ 0) :
    Forest size ((x, y) :: P) (Function.update arr s r) := by
  have linked : ∀ {z t}, Root (parent arr) z t →
      Root (parent (Function.update arr s r)) z (if t = s then r else t) := by
    intro z t above
    rw [parent_update other]
    exact above.link root.parentless root'.parentless apart
  refine ⟨fun z within_ => ?_, fun z within_ => ?_, ?_⟩
  · by_cases same : z = s
    · rw [same, Function.update_self]
      exact root_lt forest.bounded root inside.1
    · rw [Function.update_of_ne same]
      exact forest.bounded z within_
  · obtain ⟨t, above⟩ := forest.rooted z within_
    exact ⟨_, linked above⟩
  · intro a inA b inB t u rootA rootB
    obtain ⟨t', above⟩ := forest.rooted a inA
    obtain ⟨u', above'⟩ := forest.rooted b inB
    rw [rootA.unique (linked above), rootB.unique (linked above'), connected_cons,
      ← forest.same a inA b inB t' u' above above', ← forest.same a inA x inside.1 t' r above root,
      ← forest.same y inside.2 b inB s u' root' above', ← forest.same a inA y inside.2 t' s above root',
      ← forest.same x inside.1 b inB r u' root above']
    grind

/-- A union returns; the structure is right after it exactly when the call is a good one. -/
theorem Forest.unionPair_iff (forest : Forest size P arr) (inside : x < size ∧ y < size)
    (ran : unionPair fuel arr x y = some arr') :
    (∀ z < size, arr' z < size) ∧
      (Forest size ((x, y) :: P) arr' ↔ Good size P (.unionPair x y)) := by
  rw [unionPair] at ran
  split at ran
  · exact nomatch ran
  next r arr₁ found =>
  split at ran
  · exact nomatch ran
  next s arr₂ found' =>
  obtain rfl := Option.some.inj ran
  have forest₁ := forest.find inside.1 found
  have forest₂ := forest₁.find inside.2 found'
  have keeps := (find_sound found').2
  have root : Root (parent arr₂) x r :=
    ((find_sound found).1.compressed (find_sound found).2).compressed keeps
  have root' : Root (parent arr₂) y s := (find_sound found').1.compressed keeps
  have joined := forest₂.same x inside.1 y inside.2 r s root root'
  have zero := root_zero_iff forest₂ inside.1 root
  have still : r = 0 → Function.update arr₂ s r = arr₂ := by
    rintro rfl
    refine Function.update_eq_self_iff.mpr ?_
    by_contra entry
    exact nomatch (if_neg (Ne.symm entry)).symm.trans root'.parentless
  rw [Good]
  by_cases first : r = 0
  · rw [still first]
    refine ⟨forest₂.bounded, ?_⟩
    obtain ⟨rfl, alone⟩ := zero.mp first
    constructor
    · intro new
      refine .inr ⟨rfl, ?_, alone⟩
      have same := (new.same 0 inside.1 y inside.2 r s root root').mpr
        (connected_cons.mpr (.inr (.inl ⟨.refl _, .refl _⟩)))
      by_contra other
      exact root_ne_zero root' other (same.symm.trans first)
    · rintro (⟨-, no⟩ | ⟨-, rfl, -⟩)
      · exact absurd ⟨rfl, alone⟩ no
      · refine ⟨forest₂.bounded, forest₂.rooted, fun a inA b inB t u rootA rootB => ?_⟩
        rw [connected_cons, forest₂.same a inA b inB t u rootA rootB]
        constructor
        · exact .inl
        · rintro (same | ⟨left, right⟩ | ⟨left, right⟩)
          · exact same
          · exact left.trans _ _ _ right
          · exact left.trans _ _ _ right
  · by_cases loop : r = s
    · subst loop
      have low := root_lt forest₂.bounded root inside.1
      refine ⟨fun z within_ => ?_, iff_of_false ?_ ?_⟩
      · by_cases same : z = r
        · rw [same, Function.update_self]
          exact low
        · rw [Function.update_of_ne same]
          exact forest₂.bounded z within_
      · intro new
        obtain ⟨t, above⟩ := new.rooted x inside.1
        rw [parent_update first] at above
        exact root.lost above
      · rintro (⟨no, -⟩ | ⟨rfl, rfl, alone⟩)
        · exact no (joined.mp rfl)
        · exact first (zero.mpr ⟨rfl, alone⟩)
    · have new := forest₂.link inside root root' loop first
      exact ⟨new.bounded, iff_of_true new (.inl ⟨mt joined.mpr loop, mt zero.mpr first⟩)⟩

theorem Forest.exists_unionPair (forest : Forest size P arr) (inside : x < size ∧ y < size) :
    ∃ fuel arr', unionPair fuel arr x y = some arr' := by
  obtain ⟨r, root⟩ := forest.rooted x inside.1
  obtain ⟨s, root'⟩ := forest.rooted y inside.2
  obtain ⟨fuel, arr₁, found⟩ := finds_of_root root
  obtain ⟨fuel', arr₂, found'⟩ := finds_of_root (root'.compressed (find_sound found).2)
  refine ⟨max fuel fuel', Function.update arr₂ s r, ?_⟩
  rw [unionPair, find_mono found (Nat.le_max_left _ _)]
  dsimp only
  rw [find_mono found' (Nat.le_max_right _ _)]

theorem Forest.call_iff (forest : Forest size P arr) {c : Call} (inside : c.Inside size) :
    (∃ fuel arr', call fuel arr c = some arr') ∧
      ∀ fuel arr', call fuel arr c = some arr' →
        (∀ z < size, arr' z < size) ∧ (Forest size (pairs P c) arr' ↔ Good size P c) := by
  cases c with
  | find x =>
    constructor
    · obtain ⟨r, root⟩ := forest.rooted x inside
      obtain ⟨fuel, arr', found⟩ := finds_of_root root
      exact ⟨fuel, arr', congrArg (Option.map Prod.snd) found⟩
    · intro fuel arr' ran
      obtain ⟨⟨r, arr'⟩, found, rfl⟩ := Option.map_eq_some_iff.mp ran
      have kept := forest.find inside found
      exact ⟨kept.bounded, iff_of_true kept trivial⟩
  | unionPair x y =>
    exact ⟨forest.exists_unionPair inside, fun _ _ ran => forest.unionPair_iff inside ran⟩

end OneCall

/-! ## Sequences of calls -/

theorem rightAlong_iff {size : Nat} {P : List (Nat × Nat)} {arr : Arr} (forest : Forest size P arr)
    {calls : List Call} (inside : ∀ c ∈ calls, c.Inside size) :
    RightAlong size P arr calls ↔ GoodAlong size P calls := by
  induction calls generalizing P arr with
  | nil => exact iff_of_true ((right_iff forest.bounded).mpr forest) trivial
  | cons c rest ih =>
    obtain ⟨now, later⟩ := List.forall_mem_cons.mp inside
    obtain ⟨⟨fuel, arr', ran⟩, after⟩ := forest.call_iff now
    constructor
    · rintro ⟨-, fuel, arr', ran, along⟩
      obtain ⟨bounded, good⟩ := after fuel arr' ran
      have next : Forest size (pairs P c) arr' := by
        rw [← right_iff bounded]
        cases rest with
        | nil => exact along
        | cons => exact along.1
      exact ⟨good.mp next, (ih next later).mp along⟩
    · rintro ⟨good, along⟩
      have next := (after fuel arr' ran).2.mpr good
      exact ⟨(right_iff forest.bounded).mpr forest, fuel, arr', ran, (ih next later).mpr along⟩

theorem connected_nil (connected : Connected [] x y) : x = y := by
  induction connected with
  | rel _ _ mem => exact absurd mem List.not_mem_nil
  | refl _ => rfl
  | symm _ _ _ ih => exact ih.symm
  | trans _ _ _ _ _ first second => exact first.trans second

theorem forest_new (size : Nat) : Forest size [] new := by
  have top : ∀ x, Root (parent new) x x := fun x => .top (if_pos rfl)
  refine ⟨fun x inside => Nat.lt_of_le_of_lt (Nat.zero_le x) inside, fun x _ => ⟨x, top x⟩, ?_⟩
  intro x _ y _ r s root root'
  rw [root.unique (top x), root'.unique (top y)]
  constructor
  · rintro rfl
    exact .refl x
  · exact connected_nil

/-- From the empty structure every call returns and keeps the structure right exactly when every
union joins two classes and does not hang something below element 0. -/
theorem unions_right_iff (size : Nat) (calls : List Call) (inside : ∀ c ∈ calls, c.Inside size) :
    RightAlong size [] new calls ↔ GoodAlong size [] calls :=
  rightAlong_iff (forest_new size) inside

/-- Three elements, the second and the third united, and a search. -/
theorem unions_right_pair :
    RightAlong 3 [] new [.unionPair 1 2, .find 2] := by
  refine (unions_right_iff 3 _ ?_).mpr ⟨.inl ⟨?_, ?_⟩, trivial, trivial⟩
  · simp [Call.Inside]
  · exact fun connected => absurd (connected_nil connected) (by decide)
  · exact fun both => absurd both.1 (by decide)

/-- A pair united twice leaves an entry that points to itself, and nothing can be united with a
first element 0. -/
theorem unions_go_wrong :
    ¬ RightAlong 3 [] new [.unionPair 1 2, .unionPair 1 2] ∧
      ¬ RightAlong 2 [] new [.unionPair 0 1] := by
  constructor
  · rw [rightAlong_iff (forest_new 3) (by simp [Call.Inside])]
    rintro ⟨-, ⟨apart, -⟩ | ⟨one, -⟩, -⟩
    · exact apart (.rel 1 2 List.mem_cons_self)
    · exact absurd one (by decide)
  · rw [rightAlong_iff (forest_new 2) (by simp [Call.Inside])]
    rintro ⟨⟨-, free⟩ | ⟨-, one, -⟩, -⟩
    · exact free ⟨rfl, fun z _ connected => (connected_nil connected).symm⟩
    · exact absurd one (by decide)

end Wheels.DisjointSet

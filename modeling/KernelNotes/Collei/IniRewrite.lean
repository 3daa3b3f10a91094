import KernelNotes.Collei.IniRead

/-!
# Replacing entries, without line indices

`rewrite named f` walks over lines and their events together: the lines of the options in
`named` give way to `f`, all others stay. The same walk over the events tells how the result
reads. The replacement by line index, from the last entry to the first, is such a walk.
-/

namespace Collei.Ini

open Text

section Rewrite

variable (named : Str → Bool)

/-- The entries of the options in `named` give way to `f`. In an entry that was replaced the
continuation lines are skipped. -/
def rewrite {α : Type} (f : Str → List α) : Bool → List α → List Event → List α
  | _, x :: xs, .option n _ :: evs =>
    if named n then f n ++ rewrite f true xs evs else x :: rewrite f false xs evs
  | skip, x :: xs, .cont _ :: evs =>
    if skip then rewrite f true xs evs else x :: rewrite f false xs evs
  | _, x :: xs, _ :: evs => x :: rewrite f false xs evs
  | _, _, _ => []

/-- Whether a continuation line behind the events would be skipped. -/
def skipping : Bool → List Event → Bool
  | skip, [] => skip
  | _, .option n _ :: evs => skipping (named n) evs
  | skip, .cont _ :: evs => skipping skip evs
  | _, _ :: evs => skipping false evs

variable {named} {α β : Type}

@[simp] theorem rewrite_nil (f : Str → List α) (skip : Bool) (evs : List Event) :
    rewrite named f skip [] evs = [] := by
  cases evs <;> rfl

theorem rewrite_append (f : Str → List α) {skip : Bool} {xs ys : List α} {evs more : List Event}
    (same : xs.length = evs.length) :
    rewrite named f skip (xs ++ ys) (evs ++ more) =
      rewrite named f skip xs evs ++ rewrite named f (skipping named skip evs) ys more := by
  induction xs generalizing skip evs with
  | nil =>
    cases evs with
    | nil => simp [skipping]
    | cons ev evs => cases same
  | cons x xs ih =>
    cases evs with
    | nil => cases same
    | cons ev evs =>
      have later (skip : Bool) :
          rewrite named f skip (xs ++ ys) (evs ++ more) =
            rewrite named f skip xs evs ++ rewrite named f (skipping named skip evs) ys more :=
        ih (Nat.succ.inj same)
      cases ev with
      | header => simp [rewrite, skipping, later]
      | free => simp [rewrite, skipping, later]
      | option n first =>
        by_cases hit : named n = true
        · simp [rewrite, skipping, hit, later]
        · simp [rewrite, skipping, hit, later]
      | cont text =>
        cases skip with
        | true => simp [rewrite, skipping, later]
        | false => simp [rewrite, skipping, later]

theorem rewrite_restart (f : Str → List α) {ev : Event} (fresh : contsOf [ev] = []) (skip : Bool)
    (xs : List α) (evs : List Event) :
    rewrite named f skip xs (ev :: evs) = rewrite named f false xs (ev :: evs) := by
  cases xs with
  | nil => simp
  | cons x xs =>
    cases ev with
    | cont text => cases fresh
    | _ => rfl

theorem rewrite_flatMap (f : Str → List α) (g : α → List α) {skip : Bool} {xs : List α}
    (evs : List Event) (fixed : ∀ x ∈ xs, g x = [x]) :
    (rewrite named f skip xs evs).flatMap g =
      rewrite named (fun n => (f n).flatMap g) skip xs evs := by
  induction xs generalizing skip evs with
  | nil => simp
  | cons x xs ih =>
    have later (skip : Bool) (evs : List Event) :
        (rewrite named f skip xs evs).flatMap g =
          rewrite named (fun n => (f n).flatMap g) skip xs evs :=
      ih evs fun y listed => fixed y (List.mem_cons_of_mem x listed)
    have here := fixed x List.mem_cons_self
    cases evs with
    | nil => rfl
    | cons ev evs =>
      cases ev with
      | header => simp [rewrite, later, here]
      | free => simp [rewrite, later, here]
      | option n first =>
        by_cases hit : named n = true
        · simp [rewrite, hit, later]
        · simp [rewrite, hit, later, here]
      | cont text =>
        cases skip with
        | true => simp [rewrite, later]
        | false => simp [rewrite, later, here]

theorem mem_rewrite {f : Str → List α} {skip : Bool} {xs : List α} {evs : List Event} {y : α}
    (listed : y ∈ rewrite named f skip xs evs) :
    y ∈ xs ∨ ∃ n ∈ optionNames evs, named n = true ∧ y ∈ f n := by
  induction xs generalizing skip evs with
  | nil => simp at listed
  | cons x xs ih =>
    cases evs with
    | nil => cases listed
    | cons ev evs =>
      have later {skip : Bool} (listed : y ∈ rewrite named f skip xs evs) :
          y ∈ x :: xs ∨ ∃ n ∈ optionNames (ev :: evs), named n = true ∧ y ∈ f n := by
        rcases ih listed with old | ⟨n, present, hit, new⟩
        · exact Or.inl (List.mem_cons_of_mem x old)
        · refine Or.inr ⟨n, ?_, hit, new⟩
          rw [optionNames_cons]
          exact List.mem_append_right _ present
      have kept {skip : Bool} (listed : y ∈ x :: rewrite named f skip xs evs) :
          y ∈ x :: xs ∨ ∃ n ∈ optionNames (ev :: evs), named n = true ∧ y ∈ f n := by
        rcases List.mem_cons.1 listed with rfl | old
        · exact Or.inl List.mem_cons_self
        · exact later old
      cases ev with
      | header => exact kept listed
      | free => exact kept listed
      | option n first =>
        rw [rewrite] at listed
        split at listed
        · rename_i hit
          rcases List.mem_append.1 listed with new | old
          · exact Or.inr ⟨n, List.mem_cons_self, hit, new⟩
          · exact later old
        · exact kept listed
      | cont text =>
        rw [rewrite] at listed
        split at listed
        · exact later listed
        · exact kept listed

theorem drop_rewrite (f : Str → List α) {xs : List α} {evs : List Event} :
    (rewrite named f false xs evs).drop (contsOf evs).length = rewrite named f true xs evs := by
  induction xs generalizing evs with
  | nil => simp
  | cons x xs ih =>
    cases evs with
    | nil => rfl
    | cons ev evs =>
      cases ev with
      | cont text => simpa [rewrite, contsOf] using ih
      | _ => rfl

/-! ## Entries and their lines -/

theorem entriesFrom_names (i : Nat) (evs : List Event) :
    (entriesFrom i evs).map Entry.name = optionNames evs := by
  induction evs generalizing i with
  | nil => rfl
  | cons ev evs ih => cases ev <;> simp [entriesFrom, optionNames, ih]

theorem entriesFrom_start_le {i : Nat} {evs : List Event} {e : Entry}
    (listed : e ∈ entriesFrom i evs) : i ≤ e.start := by
  induction evs generalizing i with
  | nil => cases listed
  | cons ev evs ih =>
    have later (listed : e ∈ entriesFrom (i + 1) evs) : i ≤ e.start := by
      have := ih listed
      omega
    cases ev with
    | option n first =>
      rcases List.mem_cons.1 listed with rfl | old
      · exact Nat.le_refl i
      · exact later old
    | _ => exact later listed

theorem entriesFrom_sorted (i : Nat) (evs : List Event) :
    (entriesFrom i evs).Pairwise fun a b => a.start < b.start := by
  induction evs generalizing i with
  | nil => exact List.Pairwise.nil
  | cons ev evs ih =>
    cases ev with
    | option n first =>
      refine List.Pairwise.cons (fun e listed => ?_) (ih (i + 1))
      exact entriesFrom_start_le listed
    | _ => exact ih (i + 1)

/-- The ranges of the entries in `named`, from the first to the last. -/
def ranges (named : Str → Bool) (f : Str → List Str) (entries : List Entry) :
    List (Nat × Nat × List Str) :=
  entries.filterMap fun e => if named e.name then some (e.start, e.stop, f e.name) else none

/-- Replacing the ranges from the last to the first is one walk. What stands before index `i`
is untouched. -/
theorem foldr_splice (f : Str → List Str) {before lines : List Str} {evs : List Event}
    (same : lines.length = evs.length) :
    (ranges named f (entriesFrom before.length evs)).foldr (fun r l => splice l r)
        (before ++ lines) = before ++ rewrite named f false lines evs := by
  induction lines generalizing before evs with
  | nil =>
    cases evs with
    | nil => simp [ranges, entriesFrom]
    | cons ev evs => cases same
  | cons raw rest ih =>
    cases evs with
    | nil => cases same
    | cons ev evs =>
      have later := @ih (before ++ [raw]) evs (Nat.succ.inj same)
      rw [List.length_append, List.length_singleton, List.append_assoc, List.append_assoc,
        List.singleton_append, List.singleton_append] at later
      cases ev with
      | header => exact later
      | free => exact later
      | cont text => exact later
      | option n first =>
        rw [rewrite]
        split
        · rename_i hit
          rw [entriesFrom, ranges, List.filterMap_cons, if_pos hit]
          dsimp only
          rw [List.foldr_cons, ← ranges, later, splice]
          have cut : before.length + 1 + (contsOf evs).length =
              before.length + ((contsOf evs).length + 1) := by omega
          dsimp only
          rw [List.take_left, cut, List.drop_append, Nat.add_sub_cancel_left,
            List.drop_succ_cons, drop_rewrite,
            List.drop_eq_nil_of_le (Nat.le_add_right _ _), List.nil_append, List.append_assoc]
        · rename_i miss
          rw [entriesFrom, ranges, List.filterMap_cons, if_neg miss]
          exact later

end Rewrite

/-! ## The ranges of a mapping -/

/-- The options a mapping names. -/
def isNamed (values : List (Str × Str)) (n : Str) : Bool := (values.lookup n).isSome

/-- The lines a mapping gives an option. -/
def rendered (values : List (Str × Str)) (n : Str) : List Str :=
  render n ((values.lookup n).getD [])

variable {values : List (Str × Str)} {n : Str}

theorem lookup_of_mem (distinct : (values.map Prod.fst).Nodup) {v : Str}
    (listed : (n, v) ∈ values) : values.lookup n = some v := by
  induction values with
  | nil => cases listed
  | cons p values ih =>
    rw [List.map_cons, List.nodup_cons] at distinct
    rw [List.lookup]
    rcases List.mem_cons.1 listed with rfl | old
    · rw [beq_self_eq_true]
    · have other : (n == p.1) = false := by
        rw [beq_eq_false_iff_ne]
        rintro rfl
        exact distinct.1 (List.mem_map.2 ⟨_, old, rfl⟩)
      rw [other]
      exact ih distinct.2 old

theorem mem_of_lookup {v : Str} (found : values.lookup n = some v) : (n, v) ∈ values := by
  obtain ⟨before, after, rfl, _⟩ := List.lookup_eq_some_iff.1 found
  simp

theorem isNamed_iff : isNamed values n = true ↔ n ∈ values.map Prod.fst := by
  rw [isNamed, Option.isSome_iff_exists]
  constructor
  · rintro ⟨v, found⟩
    exact List.mem_map_of_mem (mem_of_lookup found)
  · intro listed
    obtain ⟨p, inside, rfl⟩ := List.mem_map.1 listed
    cases found : values.lookup p.1 with
    | some v => exact ⟨v, rfl⟩
    | none =>
      rw [List.lookup_eq_none_iff] at found
      simpa using found p inside

theorem rendered_of_mem (distinct : (values.map Prod.fst).Nodup) {p : Str × Str}
    (listed : p ∈ values) : rendered values p.1 = render p.1 p.2 := by
  rw [rendered, lookup_of_mem distinct listed, Option.getD_some]

theorem pair_of_named (hit : isNamed values n = true) :
    ∃ p ∈ values, p.1 = n ∧ rendered values n = render n p.2 := by
  rw [isNamed, Option.isSome_iff_exists] at hit
  obtain ⟨v, found⟩ := hit
  exact ⟨(n, v), mem_of_lookup found, rfl, by rw [rendered, found]; rfl⟩

theorem lookup_eq_some {entries : List Entry} (distinct : (entries.map Entry.name).Nodup)
    {e : Entry} : lookup entries n = some e ↔ e ∈ entries ∧ e.name = n := by
  rw [lookup]
  constructor
  · intro found
    exact ⟨List.mem_of_find?_eq_some found, by simpa using List.find?_some found⟩
  · rintro ⟨listed, rfl⟩
    cases found : entries.find? fun x => x.name == e.name with
    | none =>
      rw [List.find?_eq_none] at found
      simpa using found e listed
    | some x =>
      have same : x.name = e.name := by simpa using List.find?_some found
      rw [List.inj_on_of_nodup_map distinct (List.mem_of_find?_eq_some found) listed same]

/-- The ranges that are replaced are those of the entries, from the last to the first. -/
theorem replacements_eq (distinct : (values.map Prod.fst).Nodup) {evs : List Event}
    (names : (optionNames evs).Nodup) :
    replacements (entriesFrom 0 evs) values =
      (ranges (isNamed values) (rendered values) (entriesFrom 0 evs)).reverse := by
  have names' : ((entriesFrom 0 evs).map Entry.name).Nodup := by rwa [entriesFrom_names]
  have sorted := entriesFrom_sorted 0 evs
  generalize entriesFrom 0 evs = entries at names' sorted
  have starts : (entries.map Entry.start).Nodup := by
    rw [List.Nodup, List.pairwise_map]
    exact sorted.imp fun less same => Nat.ne_of_lt less same
  have ascending : (ranges (isNamed values) (rendered values) entries).Pairwise
      fun a b => a.1 < b.1 := by
    refine List.Pairwise.filterMap _ ?_ sorted
    intro a b less x hx y hy
    simp only [Option.ite_none_right_eq_some, Option.some.injEq] at hx hy
    rw [← hx.2, ← hy.2]
    exact less
  have members (x : Nat × Nat × List Str) :
      x ∈ replacements entries values ↔ x ∈ ranges (isNamed values) (rendered values) entries := by
    simp only [replacements, List.mem_mergeSort, ranges, List.mem_filterMap, Option.map_eq_some_iff, lookup_eq_some names',
      Option.ite_none_right_eq_some, Option.some.injEq]
    constructor
    · rintro ⟨⟨n, v⟩, listed, e, ⟨inside, rfl⟩, rfl⟩
      have found := lookup_of_mem distinct listed
      exact ⟨e, inside, by rw [isNamed, found]; rfl, by rw [rendered, found]; rfl⟩
    · rintro ⟨e, inside, hit, rfl⟩
      rw [isNamed, Option.isSome_iff_exists] at hit
      obtain ⟨v, found⟩ := hit
      exact ⟨(e.name, v), mem_of_lookup found, e, ⟨inside, rfl⟩, by rw [rendered, found]; rfl⟩
  have once : (replacements entries values).Nodup := by
    rw [replacements, (List.mergeSort_perm _ _).nodup_iff]
    have keys : values.Pairwise fun a b => a.1 ≠ b.1 := by
      rwa [List.Nodup, List.pairwise_map] at distinct
    refine List.Pairwise.filterMap _ ?_ keys
    rintro ⟨n, v⟩ ⟨m, w⟩ different x hx y hy rfl
    simp only [Option.map_eq_some_iff, lookup_eq_some names'] at hx hy
    obtain ⟨e, ⟨inside, rfl⟩, rfl⟩ := hx
    obtain ⟨e', ⟨inside', rfl⟩, same⟩ := hy
    have equal := List.inj_on_of_nodup_map starts inside' inside (Prod.mk.inj same).1
    exact different (by rw [equal])
  have perm := (List.perm_ext_iff_of_nodup once
    (ascending.imp fun {a b} less same => Nat.ne_of_lt less (congrArg Prod.fst same))).2 members
  refine List.Perm.eq_of_pairwise ?_ (List.pairwise_mergeSort ?_ ?_ _) ?_
    (perm.trans (List.reverse_perm _).symm)
  · intro a b ha hb less greater
    have keyed : ((ranges (isNamed values) (rendered values) entries).map Prod.fst).Nodup := by
      rw [List.Nodup, List.pairwise_map]
      exact ascending.imp fun less same => Nat.ne_of_lt less same
    rw [members] at ha
    rw [List.mem_reverse] at hb
    simp only [decide_eq_true_eq] at less greater
    exact List.inj_on_of_nodup_map keyed ha hb (Nat.le_antisymm greater less)
  · intro a b c
    simp only [decide_eq_true_eq]
    omega
  · intro a b
    simp only [Bool.or_eq_true, decide_eq_true_eq]
    omega
  · rw [List.pairwise_reverse]
    exact ascending.imp fun less => by simpa using Nat.le_of_lt less

/-- What `set_many` does to the lines there are. -/
theorem foldl_splice (distinct : (values.map Prod.fst).Nodup) {lines : List Str} {evs : List Event}
    (same : lines.length = evs.length) (names : (optionNames evs).Nodup) :
    (replacements (entriesFrom 0 evs) values).foldl splice lines =
      rewrite (isNamed values) (rendered values) false lines evs := by
  rw [replacements_eq distinct names, List.foldl_reverse]
  exact @foldr_splice (isNamed values) (rendered values) [] lines evs same

end Collei.Ini

import KernelNotes.Collei.IniRewrite

/-!
# How a rewritten file reads

A line behind an entry is read in the same way whatever stands in the entry's place, since it is
not indented. So a file in which entries were replaced scans when the new lines do, its options
other than the replaced ones keep their values, and replacing once more is the same as replacing
only the second time.
-/

namespace Collei.Ini

open Text

/-! ## Scans in pieces -/

/-- Whether an option is open behind the events. -/
def opensAfter : Bool → List Event → Bool
  | opened, [] => opened
  | _, ev :: evs => opensAfter ev.opens evs

variable {name m : Str} {found opened skip : Bool} {evs : List Event} {lines : List Str}

theorem Scan.append {xs ys : List Str} {more : List Event} (first : Scan name found opened xs evs)
    (second : Scan name (found || evs.any Event.isHeader) (opensAfter opened evs) ys more) :
    Scan name found opened (xs ++ ys) (evs ++ more) := by
  induction xs generalizing found opened evs with
  | nil =>
    cases evs with
    | nil => simpa [opensAfter] using second
    | cons ev evs => exact first.elim
  | cons x xs ih =>
    cases evs with
    | nil => exact first.elim
    | cons ev evs =>
      refine ⟨first.1, ih first.2 ?_⟩
      rwa [List.any_cons, ← Bool.or_assoc] at second

theorem Scan.split {xs ys : List Str} {all : List Event}
    (scan : Scan name found opened (xs ++ ys) all) :
    ∃ evs more, all = evs ++ more ∧ Scan name found opened xs evs ∧
      Scan name (found || evs.any Event.isHeader) (opensAfter opened evs) ys more := by
  induction xs generalizing found opened all with
  | nil => exact ⟨[], all, rfl, trivial, by simpa [opensAfter] using scan⟩
  | cons x xs ih =>
    cases all with
    | nil => exact scan.elim
    | cons ev all =>
      obtain ⟨evs, more, rfl, first, second⟩ := ih scan.2
      refine ⟨ev :: evs, more, rfl, ⟨scan.1, first⟩, ?_⟩
      rwa [List.any_cons, ← Bool.or_assoc]

theorem classify_reopen {raw : Str} {ev : Event} (opened : Bool)
    (accepted : classify name true true raw = .ok ev) (ends : contsOf [ev] = []) :
    classify name true opened raw = .ok ev := by
  rw [classify] at accepted ⊢
  split at accepted
  · simp at accepted
  · simp only [Bool.not_true, Bool.false_eq_true, if_false, if_true] at accepted ⊢
    split at accepted
    · split at accepted
      · cases accepted
        cases ends
      · cases accepted
    · rename_i unindented
      rw [if_neg unindented]
      exact accepted

/-! ## The scan of a rewritten file -/

section Rewrite

variable {named : Str → Bool} {ps : Str → List Str} {en : Str → List Event}

theorem Scan.replace {now : Bool}
    (blocks : ∀ n ∈ optionNames evs, named n = true → ∀ o, Scan name true o (ps n) (en n))
    (scan : Scan name found opened lines evs) (inEntry : skip = true → found = true ∧ opened = true)
    (outside : skip = false → now = opened) :
    Scan name found now (rewrite named ps skip lines evs) (rewrite named en skip evs evs) := by
  induction lines generalizing found opened skip now evs with
  | nil =>
    cases evs with
    | nil => trivial
    | cons ev evs => exact scan.elim
  | cons raw rest ih =>
    cases evs with
    | nil => exact scan.elim
    | cons ev evs =>
      obtain ⟨accepted, later⟩ := scan
      have blocks' : ∀ n ∈ optionNames evs, named n = true → ∀ o,
          Scan name true o (ps n) (en n) := by
        intro n present
        refine blocks n ?_
        rw [optionNames_cons]
        exact List.mem_append_right _ present
      -- a line that is kept outside of an entry, or ends one
      have kept (still : skip = false ∨ contsOf [ev] = []) :
          Scan name found now (raw :: rewrite named ps false rest evs)
            (ev :: rewrite named en false evs evs) := by
        refine ⟨?_, ih blocks' later (by simp) fun _ => rfl⟩
        cases skip with
        | false => rw [outside rfl]; exact accepted
        | true =>
          obtain ⟨rfl, rfl⟩ := inEntry rfl
          exact classify_reopen now accepted (still.resolve_left (by simp))
      cases ev with
      | header => exact kept (Or.inr rfl)
      | free => exact kept (Or.inr rfl)
      | option n first =>
        by_cases hit : named n = true
        · obtain rfl := (classify_option_inv accepted).1
          simp only [rewrite, hit, if_true]
          refine (blocks n List.mem_cons_self hit now).append ?_
          exact ih blocks' later (fun _ => ⟨rfl, rfl⟩) (by simp)
        · simp only [rewrite, hit]
          exact kept (Or.inr rfl)
      | cont text =>
        cases skip with
        | false => exact kept (Or.inl rfl)
        | true =>
          obtain ⟨rfl, rfl⟩ := inEntry rfl
          exact ih blocks' later (fun _ => ⟨rfl, rfl⟩) (by simp)

theorem Scan.blocks_of_replace {now : Bool} {all : List Event}
    (scan : Scan name found opened lines evs) (inEntry : skip = true → found = true ∧ opened = true)
    (outside : skip = false → now = opened)
    (whole : Scan name found now (rewrite named ps skip lines evs) all) :
    ∀ n ∈ optionNames evs, named n = true → ∃ o blockEvs, Scan name true o (ps n) blockEvs := by
  induction lines generalizing found opened skip now evs all with
  | nil =>
    cases evs with
    | nil =>
      intro n present
      cases present
    | cons ev evs => exact scan.elim
  | cons raw rest ih =>
    cases evs with
    | nil => exact scan.elim
    | cons ev evs =>
      obtain ⟨accepted, later⟩ := scan
      have kept (still : skip = false ∨ contsOf [ev] = [])
          (whole : Scan name found now (raw :: rewrite named ps false rest evs) all) :
          ∀ n ∈ optionNames evs, named n = true → ∃ o blockEvs,
            Scan name true o (ps n) blockEvs := by
        cases all with
        | nil => exact whole.elim
        | cons ev' all =>
          have again : classify name found now raw = .ok ev := by
            cases skip with
            | false => rw [outside rfl]; exact accepted
            | true =>
              obtain ⟨rfl, rfl⟩ := inEntry rfl
              exact classify_reopen now accepted (still.resolve_left (by simp))
          obtain ⟨accepted', whole⟩ := whole
          rw [again] at accepted'
          cases accepted'
          refine ih later ?_ (fun _ => rfl) whole
          simp
      cases ev with
      | header => exact kept (Or.inr rfl) whole
      | free => exact kept (Or.inr rfl) whole
      | cont text =>
        cases skip with
        | false => exact kept (Or.inl rfl) whole
        | true =>
          obtain ⟨rfl, rfl⟩ := inEntry rfl
          simp only [rewrite, if_true, optionNames] at whole ⊢
          refine ih later (fun _ => ⟨rfl, rfl⟩) ?_ whole
          simp
      | option n first =>
        obtain rfl := (classify_option_inv accepted).1
        by_cases hit : named n = true
        · simp only [rewrite, hit, if_true] at whole
          obtain ⟨blockEvs, more, _, first, second⟩ := whole.split
          intro m present
          rcases List.mem_cons.1 present with rfl | old
          · exact fun _ => ⟨now, blockEvs, first⟩
          · refine ih later (fun _ => ⟨rfl, rfl⟩) ?_ second m old
            simp
        · simp only [rewrite, hit] at whole
          intro m present isNamed
          rcases List.mem_cons.1 present with rfl | old
          · exact absurd isNamed hit
          · exact kept (Or.inr rfl) whole m old isNamed

/-! ## What the new events say -/

theorem header_of_replace (header : evs.any Event.isHeader = true) :
    (rewrite named en skip evs evs).any Event.isHeader = true := by
  induction evs generalizing skip with
  | nil => cases header
  | cons ev evs ih =>
    cases ev with
    | header => rfl
    | free => exact ih header
    | option n first =>
      rw [rewrite]
      split
      · rw [List.any_append, Bool.or_eq_true]
        exact Or.inr (ih header)
      · exact ih header
    | cont text =>
      rw [rewrite]
      split
      · exact ih header
      · exact ih header

theorem optionNames_replace
    (blocks : ∀ n ∈ optionNames evs, named n = true → optionNames (en n) = [n]) :
    optionNames (rewrite named en skip evs evs) = optionNames evs := by
  induction evs generalizing skip with
  | nil => rfl
  | cons ev evs ih =>
    cases ev with
    | header => exact ih blocks
    | free => exact ih blocks
    | option n first =>
      have later (skip : Bool) : optionNames (rewrite named en skip evs evs) = optionNames evs :=
        ih fun m present => blocks m (List.mem_cons_of_mem n present)
      rw [rewrite]
      split
      · rename_i hit
        rw [optionNames_append, blocks n List.mem_cons_self hit, later]
        rfl
      · rw [optionNames, later, optionNames]
    | cont text =>
      rw [rewrite]
      split
      · exact ih blocks
      · exact ih blocks

/-- New lines start with an option line, if there are any. -/
def Fronted (en : Str → List Event) : Prop := ∀ n, contsOf (en n) = []

theorem contsOf_append_nil {xs ys : List Event} (front : contsOf xs = []) (back : contsOf ys = []) :
    contsOf (xs ++ ys) = [] := by
  cases xs with
  | nil => exact back
  | cons ev xs =>
    cases ev with
    | cont text => cases front
    | _ => rfl

theorem contsOf_skip (fronted : Fronted en) (evs : List Event) :
    contsOf (rewrite named en true evs evs) = [] := by
  induction evs with
  | nil => rfl
  | cons ev evs ih =>
    cases ev with
    | header => rfl
    | free => rfl
    | option n first =>
      rw [rewrite]
      split
      · exact contsOf_append_nil (fronted n) ih
      · rfl
    | cont text => exact ih

theorem contsOf_keep (fronted : Fronted en) (evs : List Event) :
    contsOf (rewrite named en false evs evs) = contsOf evs := by
  induction evs with
  | nil => rfl
  | cons ev evs ih =>
    cases ev with
    | header => rfl
    | free => rfl
    | option n first =>
      rw [rewrite]
      split
      · exact contsOf_append_nil (fronted n) (contsOf_skip fronted evs)
      · rfl
    | cont text => simp [rewrite, contsOf, ih]

/-- The value of an option, if the events have it. -/
def valueIn (m : Str) : List Event → Option (Option Str)
  | [] => none
  | .option n first :: evs =>
    if n = m then some (joined (first ++ contsOf evs)) else valueIn m evs
  | _ :: evs => valueIn m evs

theorem lookup_entriesFrom (i : Nat) (m : Str) (evs : List Event) :
    (lookup (entriesFrom i evs) m).map Entry.value = valueIn m evs := by
  induction evs generalizing i with
  | nil => rfl
  | cons ev evs ih =>
    cases ev with
    | option n first =>
      rw [entriesFrom, lookup, List.find?_cons, valueIn]
      by_cases same : n = m
      · simp [same]
      · rw [if_neg same, ← ih (i + 1), lookup, beq_eq_false_iff_ne.2 same]
    | _ => exact ih (i + 1)

theorem valueIn_isSome (m : Str) (evs : List Event) :
    (valueIn m evs).isSome = true ↔ m ∈ optionNames evs := by
  induction evs with
  | nil => simp [valueIn, optionNames]
  | cons ev evs ih =>
    cases ev with
    | option n first =>
      rw [valueIn, optionNames, List.mem_cons]
      split
      · rename_i same
        simp [same]
      · rename_i other
        rw [ih]
        exact ⟨Or.inr, fun listed => listed.resolve_left fun same => other same.symm⟩
    | _ => exact ih

theorem valueIn_append {xs : List Event} (absent : m ∉ optionNames xs) (ys : List Event) :
    valueIn m (xs ++ ys) = valueIn m ys := by
  induction xs with
  | nil => rfl
  | cons ev xs ih =>
    rw [optionNames_cons, List.mem_append, not_or] at absent
    cases ev with
    | option n first =>
      have other : n ≠ m := fun same => absent.1 (by simp [optionNames, same])
      rw [List.cons_append, valueIn, if_neg other, ih absent.2]
    | _ => exact ih absent.2

theorem valueIn_other (fronted : Fronted en) (other : named m = false)
    (blocks : ∀ n ∈ optionNames evs, named n = true → m ∉ optionNames (en n)) :
    valueIn m (rewrite named en skip evs evs) = valueIn m evs := by
  induction evs generalizing skip with
  | nil => rfl
  | cons ev evs ih =>
    cases ev with
    | header => exact ih blocks
    | free => exact ih blocks
    | option n first =>
      have later (skip : Bool) : valueIn m (rewrite named en skip evs evs) = valueIn m evs :=
        ih fun k present => blocks k (List.mem_cons_of_mem n present)
      rw [rewrite]
      split
      · rename_i hit
        have different : n ≠ m := by
          rintro rfl
          simp [hit] at other
        rw [valueIn_append (blocks n List.mem_cons_self hit), later, valueIn, if_neg different]
      · rw [valueIn, contsOf_keep fronted, later, valueIn]
    | cont text =>
      rw [rewrite]
      split
      · exact ih blocks
      · exact ih blocks

/-- The events of an option that is set, with its continuation lines. -/
def block (n : Str) (first texts : List Str) : List Event := .option n first :: texts.map .cont

@[simp] theorem optionNames_block (n : Str) (first texts : List Str) :
    optionNames (block n first texts) = [n] := by
  rw [block, optionNames]
  congr 1
  induction texts with
  | nil => rfl
  | cons text texts ih => exact ih

theorem valueIn_block (n : Str) (first texts : List Str) (closed : contsOf evs = []) :
    valueIn n (block n first texts ++ evs) = some (joined (first ++ texts)) := by
  have conts : contsOf (texts.map Event.cont ++ evs) = texts := by
    induction texts with
    | nil => exact closed
    | cons text texts ih => rw [List.map_cons, List.cons_append, contsOf, ih]
  rw [block, List.cons_append, valueIn, if_pos rfl, conts]

theorem valueIn_named {first texts : Str → List Str}
    (form : ∀ n, en n = block n (first n) (texts n)) (hit : named m = true)
    (present : m ∈ optionNames evs) :
    valueIn m (rewrite named en skip evs evs) = some (joined (first m ++ texts m)) := by
  have fronted : Fronted en := fun n => by rw [form]; rfl
  induction evs generalizing skip with
  | nil => cases present
  | cons ev evs ih =>
    cases ev with
    | header => exact ih present
    | free => exact ih present
    | option n old =>
      rw [rewrite]
      by_cases same : n = m
      · subst same
        rw [if_pos hit, form, valueIn_block]
        exact contsOf_skip fronted evs
      · have later : m ∈ optionNames evs := (List.mem_cons.1 present).resolve_left (Ne.symm same)
        split
        · rw [valueIn_append, ih later]
          rw [form, optionNames_block, List.mem_singleton]
          exact Ne.symm same
        · rw [valueIn, if_neg same, ih later]
    | cont text =>
      rw [rewrite]
      split
      · exact ih present
      · exact ih present

/-! ## Replacing twice -/

theorem rewrite_rewrite {α : Type} (f g : Str → List α) (fronted : Fronted en)
    (same : ∀ n ∈ optionNames evs, named n = true → (g n).length = (en n).length) {again : Bool}
    {xs : List α} (sized : xs.length = evs.length) (outside : skip = false → again = false) :
    rewrite named f again (rewrite named g skip xs evs) (rewrite named en skip evs evs) =
      rewrite named (fun n => rewrite named f false (g n) (en n)) skip xs evs := by
  induction xs generalizing skip again evs with
  | nil => simp
  | cons x xs ih =>
    cases evs with
    | nil => cases sized
    | cons ev evs =>
      have sized' := Nat.succ.inj sized
      have same' : ∀ n ∈ optionNames evs, named n = true → (g n).length = (en n).length := by
        intro n present
        refine same n ?_
        rw [optionNames_cons]
        exact List.mem_append_right _ present
      cases ev with
      | header => simp [rewrite, ih same' sized']
      | free => simp [rewrite, ih same' sized']
      | cont text =>
        cases skip with
        | true => simp [rewrite, ih same' sized']
        | false => simp [rewrite, ih same' sized', outside rfl]
      | option n first =>
        by_cases hit : named n = true
        · have here := same n List.mem_cons_self hit
          have restart : rewrite named f again (g n) (en n) =
              rewrite named f false (g n) (en n) := by
            cases shape : en n with
            | nil =>
              have empty : g n = [] := by
                rw [← List.length_eq_zero_iff, here, shape, List.length_nil]
              rw [empty, rewrite_nil, rewrite_nil]
            | cons ev more =>
              refine rewrite_restart f ?_ again _ _
              have front := fronted n
              rw [shape] at front
              cases ev with
              | cont text => cases front
              | _ => rfl
          simp only [rewrite, hit, if_true]
          rw [rewrite_append f here, restart, ih same' sized' (by simp)]
        · simp [rewrite, hit, ih same' sized']

theorem rewrite_block {α : Type} (f : Str → List α) {n : Str} (hit : named n = true)
    {first texts : List Str} {xs : List α} (sized : xs.length = (block n first texts).length) :
    rewrite named f false xs (block n first texts) = f n := by
  have skipped {texts : List Str} {ys : List α} :
      rewrite named f true ys (texts.map Event.cont) = [] := by
    induction texts generalizing ys with
    | nil => cases ys <;> rfl
    | cons text texts ih =>
      cases ys with
      | nil => rfl
      | cons y ys => exact ih
  cases xs with
  | nil => cases sized
  | cons x xs => rw [block, rewrite, if_pos hit, skipped, List.append_nil]

end Rewrite

end Collei.Ini

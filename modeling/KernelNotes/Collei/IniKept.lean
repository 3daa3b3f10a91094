import KernelNotes.Collei.IniWrite

/-!
# A write touches nothing else

For values of one line, `set_many` keeps every line outside the entries it sets, keeps the
values of all other options and can be repeated without effect, provided no new option is glued to
the last line and each value is confined to its entry: the physical lines behind the first one
are indented. Both conditions are necessary. `remove` needs none.
-/

namespace Collei.Ini

open Text

/-! ## Lines outside the entries -/

/-- The line with this index lies in the entry of a named option. -/
def covered (named : Str → Bool) (entries : List Entry) (i : Nat) : Bool :=
  entries.any fun e => named e.name && decide (e.start ≤ i) && decide (i < e.stop)

/-- The lines outside the entries of the named options; the first one has index `i`. -/
def outsideFrom (named : Str → Bool) (entries : List Entry) : Nat → List Str → List Str
  | _, [] => []
  | i, line :: rest =>
    if covered named entries i then outsideFrom named entries (i + 1) rest
    else line :: outsideFrom named entries (i + 1) rest

/-- The lines outside the entries of the named options. -/
def outside (named : Str → Bool) (lines : List Str) (entries : List Entry) : List Str :=
  outsideFrom named entries 0 lines

section Outside

variable {named : Str → Bool}

variable {i : Nat} {skip : Bool} {lines : List Str} {n written : Str}

theorem covered_iff {entries : List Entry} : covered named entries i = true ↔
    ∃ e ∈ entries, named e.name = true ∧ e.start ≤ i ∧ i < e.stop := by
  simp [covered, and_assoc]

/-- The entries before the events, as far as they are named: all have started, and only the one
that is being skipped reaches further. -/
structure Reach (named : Str → Bool) (before : List Entry) (i : Nat) (skip : Bool)
    (evs : List Event) : Prop where
  started : ∀ e ∈ before, named e.name = true → e.start ≤ i
  stopped : ∀ e ∈ before, named e.name = true → e.stop ≤ i ∨
    (skip = true ∧ e.stop = i + (contsOf evs).length)
  skipped : skip = true → ∃ e ∈ before, named e.name = true ∧ e.stop = i + (contsOf evs).length

theorem Reach.not_covered {before : List Entry} {evs : List Event}
    (reach : Reach named before i skip evs) (ends : skip = false ∨ contsOf evs = [])
    {later : List Entry} (after : ∀ e ∈ later, named e.name = true → i < e.start) :
    covered named (before ++ later) i = false := by
  by_contra hit
  rw [Bool.not_eq_false, covered_iff] at hit
  obtain ⟨e, listed, isNamed, starts, stops⟩ := hit
  rcases List.mem_append.1 listed with old | new
  · rcases reach.stopped e old isNamed with done | ⟨skip, exact⟩
    · omega
    · rcases ends with no | closed
      · rw [no] at skip
        cases skip
      · rw [closed, List.length_nil] at exact
        omega
  · have := after e new isNamed
    omega

theorem Reach.next {before : List Entry} {evs : List Event} (reach : Reach named before i skip evs)
    (ends : skip = false ∨ contsOf evs = []) (more : List Event) :
    Reach named before (i + 1) false more := by
  refine ⟨fun e listed hit => ?_, fun e listed hit => Or.inl ?_, nofun⟩
  · have := reach.started e listed hit
    omega
  · rcases reach.stopped e listed hit with done | ⟨skip, exact⟩
    · omega
    · rcases ends with no | closed
      · rw [no] at skip
        cases skip
      · rw [closed, List.length_nil] at exact
        omega

theorem outsideFrom_eq {before : List Entry} {i : Nat} {skip : Bool} {lines : List Str}
    {evs : List Event} (sized : lines.length = evs.length)
    (reach : Reach named before i skip evs) :
    outsideFrom named (before ++ entriesFrom i evs) i lines =
      rewrite named (fun _ => []) skip lines evs := by
  induction lines generalizing before i skip evs with
  | nil => simp [outsideFrom]
  | cons raw rest ih =>
    cases evs with
    | nil => cases sized
    | cons ev evs =>
      have sized' := Nat.succ.inj sized
      have after : ∀ e ∈ entriesFrom (i + 1) evs, named e.name = true → i < e.start :=
        fun e listed _ => entriesFrom_start_le listed
      have kept (ends : skip = false ∨ contsOf (ev :: evs) = []) :
          outsideFrom named (before ++ entriesFrom (i + 1) evs) i (raw :: rest) =
            raw :: rewrite named (fun _ => []) false rest evs := by
        rw [outsideFrom, reach.not_covered ends after, ih sized' (reach.next ends evs)]
        rfl
      cases ev with
      | header => exact kept (Or.inr rfl)
      | free => exact kept (Or.inr rfl)
      | cont text =>
        cases skip with
        | false => exact kept (Or.inl rfl)
        | true =>
          obtain ⟨e, listed, hit, stops⟩ := reach.skipped rfl
          rw [contsOf, List.length_cons] at stops
          have inside : covered named (before ++ entriesFrom (i + 1) evs) i = true :=
            covered_iff.2 ⟨e, List.mem_append_left _ listed, hit,
              reach.started e listed hit, by omega⟩
          have later : Reach named before (i + 1) true evs := by
            refine ⟨fun x here named => ?_, fun x here named => ?_, fun _ => ?_⟩
            · have := reach.started x here named
              omega
            · rcases reach.stopped x here named with done | ⟨_, exact⟩
              · exact Or.inl (by omega)
              · rw [contsOf, List.length_cons] at exact
                exact Or.inr ⟨rfl, by omega⟩
            · exact ⟨e, listed, hit, by omega⟩
          show outsideFrom named (before ++ entriesFrom (i + 1) evs) i (raw :: rest) = _
          rw [outsideFrom, inside, if_pos rfl, ih sized' later]
          rfl
      | option n first =>
        rw [entriesFrom, List.append_cons, rewrite]
        have step : Reach named (before ++ [⟨n, joined (first ++ contsOf evs), i,
            i + 1 + (contsOf evs).length⟩]) (i + 1) (named n) evs := by
          have old := reach.next (Or.inr rfl) evs
          refine ⟨fun x here hit => ?_, fun x here hit => ?_, fun hit => ?_⟩
          · rcases List.mem_append.1 here with early | new
            · exact old.started x early hit
            · rw [List.mem_singleton.1 new]
              exact Nat.le_succ i
          · rcases List.mem_append.1 here with early | new
            · exact Or.inl ((old.stopped x early hit).resolve_right fun absurdity =>
                Bool.noConfusion absurdity.1)
            · rw [List.mem_singleton.1 new] at hit ⊢
              exact Or.inr ⟨hit, rfl⟩
          · exact ⟨_, List.mem_append_right _ (List.mem_singleton_self _), hit, rfl⟩
        by_cases hit : named n = true
        · have inside : covered named (before ++ [⟨n, joined (first ++ contsOf evs), i,
              i + 1 + (contsOf evs).length⟩] ++ entriesFrom (i + 1) evs) i = true :=
            covered_iff.2 ⟨⟨n, joined (first ++ contsOf evs), i, i + 1 + (contsOf evs).length⟩,
              by simp, hit, Nat.le_refl i, by show i < i + 1 + _; omega⟩
          rw [outsideFrom, inside, if_pos rfl, ih sized' step, hit]
          rfl
        · have after' : ∀ e ∈ (⟨n, joined (first ++ contsOf evs), i,
              i + 1 + (contsOf evs).length⟩ : Entry) :: entriesFrom (i + 1) evs,
              named e.name = true → i < e.start := by
            intro e listed isNamed
            rcases List.mem_cons.1 listed with rfl | later
            · exact absurd isNamed hit
            · exact after e later isNamed
          have free := reach.not_covered (Or.inr rfl) after'
          rw [List.append_cons] at free
          rw [Bool.not_eq_true] at hit
          rw [outsideFrom, free, ih sized' step, hit]
          rfl

/-- The lines outside the named entries are those a walk that drops the entries leaves. -/
theorem outside_eq {evs : List Event} (sized : lines.length = evs.length) :
    outside named lines (entriesFrom 0 evs) = rewrite named (fun _ => []) false lines evs :=
  @outsideFrom_eq named [] 0 false lines evs sized ⟨nofun, nofun, nofun⟩

theorem rewrite_sublist {skip : Bool} {lines : List Str} {evs : List Event} :
    (rewrite named (fun _ => []) skip lines evs).Sublist lines := by
  induction lines generalizing skip evs with
  | nil => simp
  | cons raw rest ih =>
    cases evs with
    | nil => exact List.nil_sublist _
    | cons ev evs =>
      cases ev with
      | header => exact ih.cons_cons raw
      | free => exact ih.cons_cons raw
      | option n first =>
        rw [rewrite]
        split
        · exact ih.cons raw
        · exact ih.cons_cons raw
      | cont text =>
        rw [rewrite]
        split
        · exact ih.cons raw
        · exact ih.cons_cons raw

theorem outside_wellSplit {file : Str} {evs : List Event}
    (sized : (linesOf file).length = evs.length) :
    WellSplit (outside named (linesOf file) (entriesFrom 0 evs)) := by
  rw [outside_eq sized]
  exact (splitLines_wellSplit _).sublist rewrite_sublist

theorem rewrite_length_le {f g : Str → List Str} {skip : Bool} {lines : List Str} {evs : List Event}
    (longer : ∀ n ∈ optionNames evs, named n = true →
      (f n).flatten.length ≤ (g n).flatten.length) :
    (rewrite named f skip lines evs).flatten.length ≤
      (rewrite named g skip lines evs).flatten.length := by
  induction lines generalizing skip evs with
  | nil => simp
  | cons raw rest ih =>
    cases evs with
    | nil => exact Nat.le_refl _
    | cons ev evs =>
      have later (skip : Bool) : (rewrite named f skip rest evs).flatten.length ≤
          (rewrite named g skip rest evs).flatten.length := by
        refine ih fun n present => longer n ?_
        rw [optionNames_cons]
        exact List.mem_append_right _ present
      have kept : (raw :: rewrite named f false rest evs).flatten.length ≤
          (raw :: rewrite named g false rest evs).flatten.length := by
        rw [List.flatten_cons, List.flatten_cons, List.length_append, List.length_append]
        exact Nat.add_le_add_left (later false) _
      cases ev with
      | header => exact kept
      | free => exact kept
      | option n first =>
        by_cases hit : named n = true
        · simp only [rewrite, hit, if_true]
          rw [List.flatten_append, List.flatten_append, List.length_append, List.length_append]
          exact Nat.add_le_add (longer n List.mem_cons_self hit) (later true)
        · rw [rewrite, rewrite, if_neg hit, if_neg hit]
          exact kept
      | cont text =>
        cases skip with
        | true => exact later true
        | false => exact kept

theorem rewrite_length_eq {f g : Str → List Str} {skip : Bool} {lines : List Str}
    {evs : List Event} (sized : lines.length = evs.length)
    (longer : ∀ n ∈ optionNames evs, named n = true →
      (f n).flatten.length ≤ (g n).flatten.length)
    (same : (rewrite named g skip lines evs).flatten.length =
      (rewrite named f skip lines evs).flatten.length) :
    ∀ n ∈ optionNames evs, named n = true → (g n).flatten.length = (f n).flatten.length := by
  induction lines generalizing skip evs with
  | nil =>
    cases evs with
    | nil =>
      intro n present
      cases present
    | cons ev evs => cases sized
  | cons raw rest ih =>
    cases evs with
    | nil => cases sized
    | cons ev evs =>
      have longer' : ∀ n ∈ optionNames evs, named n = true →
          (f n).flatten.length ≤ (g n).flatten.length := by
        intro n present
        refine longer n ?_
        rw [optionNames_cons]
        exact List.mem_append_right _ present
      have later {skip : Bool} (same : (rewrite named g skip rest evs).flatten.length =
          (rewrite named f skip rest evs).flatten.length) :=
        ih (Nat.succ.inj sized) longer' same
      have kept (same : (raw :: rewrite named g false rest evs).flatten.length =
          (raw :: rewrite named f false rest evs).flatten.length) :
          ∀ n ∈ optionNames evs, named n = true → (g n).flatten.length = (f n).flatten.length := by
        rw [List.flatten_cons, List.flatten_cons, List.length_append, List.length_append] at same
        exact later (Nat.add_left_cancel same)
      cases ev with
      | header => exact kept same
      | free => exact kept same
      | cont text =>
        cases skip with
        | true => exact later same
        | false => exact kept same
      | option n first =>
        by_cases hit : named n = true
        · simp only [rewrite, hit, if_true] at same
          rw [List.flatten_append, List.flatten_append, List.length_append,
            List.length_append] at same
          have here := longer n List.mem_cons_self hit
          have rest' : (rewrite named f true rest evs).flatten.length ≤
              (rewrite named g true rest evs).flatten.length := rewrite_length_le longer'
          intro m present isNamed
          rcases List.mem_cons.1 present with rfl | old
          · omega
          · exact @later true (by omega) m old isNamed
        · rw [rewrite, rewrite, if_neg hit, if_neg hit] at same
          intro m present isNamed
          rcases List.mem_cons.1 present with rfl | old
          · exact absurd isNamed hit
          · exact kept same m old isNamed

end Outside

/-! ## What a write may change -/

/-- The file is accepted, its lines outside the named entries are those that were there, where an
option was appended behind one more newline, and the other options have their values. -/
structure TouchesOnly (name : Str) (named : Str → Bool) (appended : Prop) (file : Str)
    (entries : List Entry) (written : Str) : Prop where
  lines : ∃ entries', readLines name (linesOf written) = .ok entries' ∧
    (outside named (linesOf written) entries' = outside named (linesOf file) entries ∨
      (appended ∧ outside named (linesOf written) entries' =
        splitLines ((outside named (linesOf file) entries).flatten ++ ['\n'])))
  others : ∀ m, validName m = true → named m = false → get name m written = get name m file

/-- A value without newline that starts with a character other than white space. -/
def Inline (v : Str) : Prop := '\n' ∉ v ∧ (v.head?.any fun c => !isSpace c) = true

instance (v : Str) : Decidable (Inline v) := inferInstanceAs (Decidable (_ ∧ _))

/-- The physical lines of the value behind the first one continue its entry. -/
def Confined (v : Str) : Prop :=
  ∀ raw ∈ (linesOf (rstripNewlines v ++ ['\n'])).tail, ContLine raw

instance (v : Str) : Decidable (Confined v) := inferInstanceAs (Decidable (∀ raw ∈ _, _))

theorem Inline.oneLine {v : Str} (inline : Inline v) : OneLine v := by
  obtain ⟨plain, solid⟩ := inline
  refine ⟨fun listed => plain ((List.rdropWhile_prefix _ v).subset listed), ?_⟩
  cases v with
  | nil => cases solid
  | cons c rest =>
    have front : isSpace c = false := by simpa using solid
    have stays : (c == '\r' || c == '\n') = false := by
      by_contra newline
      rw [Bool.not_eq_false] at newline
      rw [newline_space newline] at front
      cases front
    have line : rstripNewlines (c :: rest) = c :: rstripNewlines rest :=
      rdropWhile_append_stop stays [] rest
    rw [line]
    exact front

section Frame

variable {name file : Str} {values : List (Str × Str)} {evs : List Event}

theorem Confined.scan {v : Str} (confined : Confined v) (inline : Inline v)
    (valid : validName n = true) (name : Str) :
    ∃ first texts, ∀ opened, Scan name true opened (pieces n v) (block n first texts) := by
  obtain ⟨w, ws, lines, whole⟩ := pieces_oneLine valid inline.oneLine
  rw [Confined, lines, List.tail_cons] at confined
  exact ⟨_, ws.map contText, fun opened => by
    rw [whole]
    exact scan_entry name valid confined opened⟩

theorem rewrite_congr {α : Type} {named : Str → Bool} {f g : Str → List α}
    (same : ∀ n, named n = true → f n = g n) {skip : Bool} {xs : List α} {evs : List Event} :
    rewrite named f skip xs evs = rewrite named g skip xs evs := by
  induction xs generalizing skip evs with
  | nil => simp
  | cons x xs ih =>
    cases evs with
    | nil => rfl
    | cons ev evs =>
      cases ev with
      | header => simp [rewrite, ih]
      | free => simp [rewrite, ih]
      | option n first =>
        by_cases hit : named n = true
        · simp [rewrite, hit, ih, same n hit]
        · simp [rewrite, hit, ih]
      | cont text => simp [rewrite, ih]

theorem Base.rewrite_written {lines' : List Str} {evs' : List Event} {sep : Str}
    (base : Base name values lines evs lines' evs' sep) {first texts : Str → List Str}
    (blocks : ∀ n, isNamed values n = true → ∀ opened, Scan name true opened ((rendered values n).flatMap linesOf) (block n (first n) (texts n)))
    (f : Str → List Str) :
    rewrite (isNamed values) f false
        (linesOf (rewrite (isNamed values) (rendered values) false lines' evs').flatten)
        (rewrite (isNamed values) (fun n => block n (first n) (texts n)) false evs' evs') =
      rewrite (isNamed values) f false lines' evs' := by
  have sized (n : Str) (hit : isNamed values n = true) :
      ((rendered values n).flatMap linesOf).length = (block n (first n) (texts n)).length :=
    (blocks n hit true).length_eq
  rw [base.resplit, rewrite_rewrite _ _ (fun n => rfl) (fun n _ => sized n)
    base.accepts.scan.length_eq (fun _ => rfl)]
  exact rewrite_congr fun n hit => rewrite_block f hit (sized n hit)

theorem setMany_present (accepts : Accepts name (linesOf file) evs)
    (distinct : (values.map Prod.fst).Nodup) (valid : ∀ p ∈ values, validName p.1 = true)
    (present : ∀ n, isNamed values n = true → n ∈ optionNames evs) :
    setMany name values file =
      .ok (rewrite (isNamed values) (rendered values) false (linesOf file) evs).flatten := by
  have none : absent values evs = [] := by
    rw [absent, List.filter_eq_nil_iff]
    intro n listed
    simpa using present n (isNamed_iff.2 listed)
  rw [setMany_eq accepts distinct valid, none]
  rfl

theorem touchesOnly_of_confined (accepts : Accepts name (linesOf file) evs)
    (distinct : (values.map Prod.fst).Nodup) (valid : ∀ p ∈ values, validName p.1 = true)
    (inline : ∀ p ∈ values, Inline p.2) (apart : ¬ Glued values (linesOf file) (entriesFrom 0 evs))
    (confined : ∀ p ∈ values, Confined p.2) (wrote : setMany name values file = .ok written) :
    TouchesOnly name (isNamed values) (∃ p ∈ values, lookup (entriesFrom 0 evs) p.1 = none) file
        (entriesFrom 0 evs) written ∧
      setMany name values written = .ok written := by
  obtain ⟨lines', evs', sep, base, result⟩ := Base.exists accepts distinct valid apart
  rw [result] at wrote
  cases wrote
  have blocks (n : Str) : ∃ first texts, isNamed values n = true →
      ∀ opened, Scan name true opened ((rendered values n).flatMap linesOf) (block n first texts) := by
    by_cases hit : isNamed values n = true
    · obtain ⟨p, listed, rfl, lines⟩ := pair_of_named hit
      obtain ⟨first, texts, scan⟩ := (confined p listed).scan (inline p listed) (valid p listed) name
      exact ⟨first, texts, fun _ opened => by rw [lines]; exact scan opened⟩
    · exact ⟨[], [], fun absurdity => absurd absurdity hit⟩
  choose first texts ok using blocks
  have reads := base.reads ok
  have names : optionNames (rewrite (isNamed values) (fun n => block n (first n) (texts n)) false
      evs' evs') = optionNames evs' := optionNames_replace fun n _ _ => optionNames_block n _ _
  refine ⟨⟨⟨_, readLines_iff.2 ⟨_, reads, rfl⟩, ?_⟩, ?_⟩, ?_⟩
  · have split := @outside_wellSplit (isNamed values) _ _ reads.scan.length_eq
    have split' := @outside_wellSplit (isNamed values) _ _ accepts.scan.length_eq
    have flat : (outside (isNamed values)
        (linesOf (rewrite (isNamed values) (rendered values) false lines' evs').flatten)
        (entriesFrom 0 (rewrite (isNamed values) (fun n => block n (first n) (texts n)) false
          evs' evs'))).flatten =
        (outside (isNamed values) (linesOf file) (entriesFrom 0 evs)).flatten ++ sep := by
      rw [outside_eq reads.scan.length_eq, base.rewrite_written ok, base.texts,
        outside_eq accepts.scan.length_eq]
      simp
    rw [← split.splitLines_flatten, flat]
    rcases base.separates with rfl | ⟨rfl, more⟩
    · left
      rw [List.append_nil, split'.splitLines_flatten]
    · exact Or.inr ⟨not_not.1 (mt absent_eq_nil.2 more), rfl⟩
  · intro m validM other
    rw [get_eq reads validM, get_eq accepts validM, valueIn_other (fun n => rfl) other,
      base.others m other]
    intro n _ hit
    rw [optionNames_block, List.mem_singleton]
    rintro rfl
    rw [hit] at other
    cases other
  · rw [setMany_present reads distinct valid fun n hit => by rw [names]; exact base.present n hit,
      base.rewrite_written ok]

/-! ## Both conditions are necessary -/

theorem scan_anywhere {rest : Str} {opened : Bool} {ws : List Str} {blockEvs : List Event}
    (valid : validName n = true) (head : lines = (n ++ " =".toList ++ rest) :: ws)
    (scan : Scan name true opened lines blockEvs) :
    ∃ more, blockEvs = .option n (firstValues (rstripNewlines rest)) :: more ∧
      Scan name true true ws more ∧ ∀ o, Scan name true o lines blockEvs := by
  subst head
  cases blockEvs with
  | nil => exact scan.elim
  | cons ev more =>
    obtain ⟨accepted, later⟩ := scan
    rw [classify_option name valid] at accepted
    cases accepted
    exact ⟨more, rfl, later, fun o => ⟨classify_option name valid o rest, later⟩⟩

/-- What a skipping walk leaves of lines is nothing only if they all continue the entry. -/
theorem conts_of_gone {named : Str → Bool} {f : Str → List Str} (filled : ∀ n, (f n).flatten ≠ [])
    {ws : List Str} (solid : ∀ w ∈ ws, w ≠ []) {more : List Event} (sized : ws.length = more.length)
    (gone : (rewrite named f true ws more).flatten = []) :
    ∃ texts : List Str, more = texts.map .cont := by
  induction ws generalizing more with
  | nil =>
    cases more with
    | nil => exact ⟨[], rfl⟩
    | cons ev more => cases sized
  | cons w ws ih =>
    cases more with
    | nil => cases sized
    | cons ev more =>
      have kept (skip : Bool) : (w :: rewrite named f skip ws more).flatten ≠ [] := by
        simp [solid w List.mem_cons_self]
      cases ev with
      | header => exact absurd gone (kept false)
      | free => exact absurd gone (kept false)
      | option n first =>
        rw [rewrite] at gone
        split at gone
        · rw [List.flatten_append, List.append_eq_nil_iff] at gone
          exact absurd gone.1 (filled n)
        · exact absurd gone (kept false)
      | cont text =>
        obtain ⟨texts, rfl⟩ := ih (fun x listed => solid x (List.mem_cons_of_mem w listed))
          (Nat.succ.inj sized) gone
        exact ⟨text :: texts, rfl⟩

theorem mem_optionNames_replace {named : Str → Bool} {en : Str → List Event} {n : Str}
    (hit : named n = true) (inside : n ∈ optionNames (en n)) {skip : Bool} {evs : List Event}
    (present : n ∈ optionNames evs) : n ∈ optionNames (rewrite named en skip evs evs) := by
  induction evs generalizing skip with
  | nil => cases present
  | cons ev evs ih =>
    cases ev with
    | header => exact ih present
    | free => exact ih present
    | cont text =>
      rw [rewrite]
      split
      · exact ih present
      · exact ih present
    | option m first =>
      rw [rewrite]
      by_cases same : n = m
      · subst same
        rw [if_pos hit, optionNames_append]
        exact List.mem_append_left _ inside
      · have later := (List.mem_cons.1 present).resolve_left same
        split
        · rw [optionNames_append]
          exact List.mem_append_right _ (ih later)
        · exact List.mem_cons_of_mem m (ih later)

theorem rendered_filled (n : Str) : (rendered values n).flatten ≠ [] := by
  obtain ⟨s, more, shape⟩ := List.exists_cons_of_ne_nil (render_ne_nil n ((values.lookup n).getD []))
  obtain ⟨body, c, rfl, _⟩ := sealed_render (shape ▸ List.mem_cons_self)
  rw [rendered, shape]
  simp

theorem line_ne_nil {text line : Str} (listed : line ∈ linesOf text) : line ≠ [] := by
  rcases line_cases listed with ⟨body, c, rfl, _⟩ | ⟨some, _⟩
  · simp
  · exact some

/-- The events of the lines a mapping gives to the options of a file, if the whole file is
accepted. -/
theorem blocks_of_written {lines' : List Str} {evs' all : List Event}
    (valid : ∀ p ∈ values, validName p.1 = true) (scan : Scan name false false lines' evs')
    (whole : Scan name false false (rewrite (isNamed values)
      (fun n => (rendered values n).flatMap linesOf) false lines' evs') all) :
    ∃ en : Str → List Event, Fronted en ∧ all = rewrite (isNamed values) en false evs' evs' ∧
      ∀ n ∈ optionNames evs', isNamed values n = true →
        n ∈ optionNames (en n) ∧
        ((rendered values n).flatMap linesOf).length = (en n).length ∧
        ∃ rest ws more, (rendered values n).flatMap linesOf = (n ++ " =".toList ++ rest) :: ws ∧
          en n = .option n (firstValues (rstripNewlines rest)) :: more ∧
          Scan name true true ws more := by
  have parts := scan.blocks_of_replace (by simp) (fun _ => rfl) whole
  have blocks (n : Str) : ∃ evs, contsOf evs = [] ∧ (n ∈ optionNames evs' →
      isNamed values n = true → ∃ rest ws more,
        (rendered values n).flatMap linesOf = (n ++ " =".toList ++ rest) :: ws ∧
        evs = .option n (firstValues (rstripNewlines rest)) :: more ∧ Scan name true true ws more ∧
        ∀ o, Scan name true o ((rendered values n).flatMap linesOf) evs) := by
    by_cases both : n ∈ optionNames evs' ∧ isNamed values n = true
    · obtain ⟨o, blockEvs, here⟩ := parts n both.1 both.2
      obtain ⟨p, listed, rfl, lines⟩ := pair_of_named both.2
      obtain ⟨rest, ws, head⟩ := pieces_head (v := p.2) (valid p listed)
      rw [pieces, ← lines] at head
      obtain ⟨more, rfl, later, everywhere⟩ := scan_anywhere (valid p listed) head here
      exact ⟨_, rfl, fun _ _ => ⟨rest, ws, more, head, rfl, later, everywhere⟩⟩
    · exact ⟨[], rfl, fun present hit => absurd ⟨present, hit⟩ both⟩
  choose en fronted ok using blocks
  refine ⟨en, fronted, ?_, ?_⟩
  · refine whole.unique (scan.replace (fun n present hit => ?_) (by simp) fun _ => rfl)
    obtain ⟨_, _, _, _, _, _, everywhere⟩ := ok n present hit
    exact everywhere
  · intro n present hit
    obtain ⟨rest, ws, more, head, shape, later, everywhere⟩ := ok n present hit
    refine ⟨?_, (everywhere true).length_eq, rest, ws, more, head, shape, later⟩
    rw [shape]
    exact List.mem_cons_self

theorem confined_of_again (accepts : Accepts name (linesOf file) evs)
    (distinct : (values.map Prod.fst).Nodup) (valid : ∀ p ∈ values, validName p.1 = true)
    (inline : ∀ p ∈ values, Inline p.2) (apart : ¬ Glued values (linesOf file) (entriesFrom 0 evs))
    (wrote : setMany name values file = .ok written) {all : List Event}
    (reads : Accepts name (linesOf written) all)
    (again : setMany name values written = .ok written) : ∀ p ∈ values, Confined p.2 := by
  obtain ⟨lines', evs', sep, base, result⟩ := Base.exists accepts distinct valid apart
  rw [result, Except.ok.injEq] at wrote
  have scan := reads.scan
  rw [← wrote, base.resplit] at scan
  obtain ⟨en, fronted, rfl, blocks⟩ := blocks_of_written valid base.accepts.scan scan
  -- writing again puts the lines that are not part of the entries behind the new ones
  rw [setMany_present reads distinct valid fun n hit =>
      mem_optionNames_replace hit (blocks n (base.present n hit) hit).1 (base.present n hit),
    ← wrote, base.resplit, rewrite_rewrite _ _ fronted (fun n present hit => (blocks n present hit).2.1)
      base.accepts.scan.length_eq (fun _ => rfl), Except.ok.injEq] at again
  have twice (n : Str) (present : n ∈ optionNames evs') (hit : isNamed values n = true) :
      ∃ ws more, rewrite (isNamed values) (rendered values) false
          ((rendered values n).flatMap linesOf) (en n) =
        rendered values n ++ rewrite (isNamed values) (rendered values) true ws more ∧
      ((rendered values n).flatMap linesOf).tail = ws ∧ Scan name true true ws more := by
    obtain ⟨_, _, rest, ws, more, head, shape, later⟩ := blocks n present hit
    refine ⟨ws, more, ?_, by rw [head]; rfl, later⟩
    rw [head, shape, rewrite, if_pos hit]
  have same := rewrite_length_eq base.accepts.scan.length_eq (fun n present hit => by
    obtain ⟨ws, more, form, _⟩ := twice n present hit
    rw [form, List.flatten_append, List.length_append]
    exact Nat.le_add_right _ _) (congrArg List.length again)
  intro p listed
  have hit : isNamed values p.1 = true := isNamed_iff.2 (List.mem_map_of_mem listed)
  have equal := same p.1 (base.present p.1 hit) hit
  obtain ⟨ws, more, form, tail, later⟩ := twice p.1 (base.present p.1 hit) hit
  rw [form, List.flatten_append, List.length_append] at equal
  have gone : (rewrite (isNamed values) (rendered values) true ws more).flatten = [] := by
    rw [← List.length_eq_zero_iff]
    omega
  have solid : ∀ w ∈ ws, w ≠ [] := by
    intro w inside
    rw [← tail] at inside
    obtain ⟨text, _, here⟩ := List.mem_flatMap.1 (List.mem_of_mem_tail inside)
    exact line_ne_nil here
  obtain ⟨texts, rfl⟩ := conts_of_gone rendered_filled solid later.length_eq gone
  obtain ⟨w, others, lines, whole⟩ := pieces_oneLine (valid p listed) (inline p listed).oneLine
  rw [rendered_of_mem distinct listed, ← pieces, whole, List.tail_cons] at tail
  rw [Confined, lines, List.tail_cons, tail]
  exact conts_of_scan later

theorem skipping_opens {named : Str → Bool} {skip opened : Bool} {evs : List Event}
    (isOpen : skip = true → opened = true) (skipped : skipping named skip evs = true) :
    opensAfter opened evs = true := by
  induction evs generalizing skip opened with
  | nil => exact isOpen skipped
  | cons ev evs ih =>
    cases ev with
    | header => exact ih (by simp) skipped
    | free => exact ih (by simp) skipped
    | option n first => exact ih (fun _ => rfl) skipped
    | cont text => exact ih (fun _ => rfl) skipped

theorem skipping_replace {named : Str → Bool} {en : Str → List Event} {skip again : Bool}
    {evs : List Event} (outside : skip = false → again = false)
    (stays : skipping named skip evs = false) :
    skipping named again (rewrite named en skip evs evs) = false := by
  induction evs generalizing skip again with
  | nil => exact outside stays
  | cons ev evs ih =>
    cases ev with
    | header => exact ih (fun _ => rfl) stays
    | free => exact ih (fun _ => rfl) stays
    | option n first =>
      rw [skipping] at stays
      by_cases hit : named n = true
      · rw [rewrite, if_pos hit, skipping_append]
        exact ih (by simp) (hit ▸ stays)
      · rw [Bool.not_eq_true] at hit
        rw [hit] at stays
        rw [rewrite, hit, if_neg (by simp), skipping, hit]
        exact ih (fun _ => rfl) stays
    | cont text =>
      cases skip with
      | true => exact ih (by simp) stays
      | false => exact ih outside stays

theorem Glue.skipping_before {init : List Str} {last : Str} {before : List Event} {x : Str}
    {others : List Str} {rest : Str} {ws : List Str} (accepts : Accepts name (linesOf file) evs)
    (glue : Glue values (linesOf file) evs written init last before x others rest ws) :
    Scan name false false init before ∧ before.any Event.isHeader = true ∧
      skipping (isNamed values) false before = false := by
  obtain ⟨ev, rfl⟩ := glue.evs_eq
  have scan := accepts.scan
  rw [glue.lines_eq] at scan
  obtain ⟨front, back, whole, first, second⟩ := scan.split
  obtain ⟨rfl, rfl⟩ := List.append_inj whole (by rw [← first.length_eq, glue.sized])
  have line : rstripNewlines last = last := by
    rw [rstripNewlines, List.rdropWhile_eq_self_iff]
    intro some newline
    have boundary := glue.unbroken _ (List.getLast_mem some)
    rw [Bool.or_eq_true, beq_iff_eq, beq_iff_eq] at newline
    rcases newline with same | same
    · rw [same] at boundary
      exact absurd boundary (by decide)
    · rw [same] at boundary
      exact absurd boundary (by decide)
  have header : before.any Event.isHeader = true := by
    have all := accepts.header
    rw [List.any_append, Bool.or_eq_true] at all
    refine all.resolve_right fun isHeader => ?_
    cases ev with
    | header =>
      rcases classify_inv second.1 with ⟨_, _, isSection⟩ | ⟨same, _⟩ | ⟨_, _, _, _, _, same⟩ |
        ⟨_, _, _, same, _⟩
      · rw [line, glue.blank] at isSection
        cases isSection
      · cases same
      · cases same
      · cases same
    | _ => cases isHeader
  refine ⟨first, header, ?_⟩
  by_contra skipped
  rw [Bool.not_eq_false] at skipped
  have isOpen : opensAfter false before = true := skipping_opens (by simp) skipped
  obtain ⟨accepted, _⟩ := second
  rw [header, isOpen] at accepted
  have blank : startsBlank (rstripNewlines last) = true := by
    obtain ⟨c, more, shape⟩ := List.exists_cons_of_ne_nil glue.some
    rw [line, shape, startsBlank]
    exact strip_eq_nil.1 glue.blank c (by simp [shape])
  obtain ⟨text, rfl⟩ := cont_of_indented rfl blank (by simp) accepted
  have stays := glue.stays
  rw [skipping_append, skipped] at stays
  cases stays

theorem not_glued_of_lines (accepts : Accepts name (linesOf file) evs)
    (distinct : (values.map Prod.fst).Nodup) (valid : ∀ p ∈ values, validName p.1 = true)
    (wrote : setMany name values file = .ok written) {appended : Prop}
    (touches : TouchesOnly name (isNamed values) appended file (entriesFrom 0 evs) written) :
    ¬ Glued values (linesOf file) (entriesFrom 0 evs) := by
  intro glued
  obtain ⟨init, last, before, x, others, rest, ws, glue⟩ := glued.lines accepts distinct valid wrote
  obtain ⟨scanInit, header, stays⟩ := glue.skipping_before accepts
  obtain ⟨⟨entries', loaded, kept⟩, _⟩ := touches
  obtain ⟨all, reads, rfl⟩ := readLines_iff.1 loaded
  have scan := reads.scan
  rw [glue.whole] at scan
  obtain ⟨front, back, rfl, first, second⟩ := scan.split
  obtain ⟨en, fronted, rfl, blocks⟩ := blocks_of_written valid scanInit first
  cases back with
  | nil => exact second.elim
  | cons ev more =>
    rw [header_of_replace header] at second
    have isAbsent : x ∈ absent values evs := by simp [glue.missing]
    have validX : validName x = true := by
      rw [absent] at isAbsent
      obtain ⟨p, listed, rfl⟩ := List.mem_map.1 (List.mem_of_mem_filter isAbsent)
      exact valid p listed
    obtain ⟨text, rfl⟩ := glue.cont validX second.1
    have flat : (outside (isNamed values) (linesOf written) (entriesFrom 0
        (rewrite (isNamed values) en false before before ++ .cont text :: more))).flatten.length ≤
        (outside (isNamed values) (linesOf file) (entriesFrom 0 evs)).flatten.length + 1 := by
      rcases kept with same | ⟨_, ended⟩
      · rw [same]
        omega
      · rw [ended, splitLines_flatten, List.length_append, List.length_singleton]
    have early : (rewrite (isNamed values) (fun _ => []) false init before).flatten.length ≤
        (rewrite (isNamed values) (fun n => rewrite (isNamed values) (fun _ => []) false
          ((rendered values n).flatMap linesOf) (en n)) false init before).flatten.length :=
      rewrite_length_le fun n _ _ => by simp
    rw [outside_eq reads.scan.length_eq, outside_eq accepts.scan.length_eq, glue.kept, glue.whole,
      rewrite_append _ first.length_eq, skipping_replace (fun _ => rfl) stays,
      rewrite_rewrite _ _ fronted (fun n present hit => (blocks n present hit).2.1) glue.sized
        (fun _ => rfl)] at flat
    simp only [rewrite, List.flatten_append, List.flatten_cons, List.length_append, List.flatten_nil,
      List.length_nil] at flat
    have long : 1 ≤ x.length := by
      cases x with
      | nil => cases validX
      | cons k tail => simp
    simp at flat early
    omega

/-! ## Removing an option -/

theorem splice_eq (accepts : Accepts name (linesOf file) evs) {e : Entry}
    (found : lookup (entriesFrom 0 evs) n = some e) :
    splice (linesOf file) (e.start, e.stop, []) =
      rewrite (· == n) (fun _ => []) false (linesOf file) evs := by
  have names : ((entriesFrom 0 evs).map Entry.name).Nodup := by
    rw [entriesFrom_names]
    exact accepts.distinct
  obtain ⟨listed, rfl⟩ := (lookup_eq_some names).1 found
  have single : ranges (· == e.name) (fun _ => []) (entriesFrom 0 evs) = [(e.start, e.stop, [])] := by
    have others {part : List Entry} (none : ∀ x ∈ part, x.name ≠ e.name) :
        ranges (· == e.name) (fun _ => []) part = [] := by
      rw [ranges, List.filterMap_eq_nil_iff]
      intro x inside
      rw [if_neg (by simpa using none x inside)]
    obtain ⟨front, back, whole⟩ := List.append_of_mem listed
    rw [whole, List.map_append, List.map_cons, List.nodup_middle, List.nodup_cons, List.mem_append,
      not_or] at names
    have here : ranges (· == e.name) (fun _ => []) (e :: back) =
        (e.start, e.stop, []) :: ranges (· == e.name) (fun _ => []) back := by
      rw [ranges, List.filterMap_cons, if_pos (by simp)]
      rfl
    have apart : ranges (· == e.name) (fun _ => []) (front ++ e :: back) =
        ranges (· == e.name) (fun _ => []) front ++ ranges (· == e.name) (fun _ => []) (e :: back) :=
      List.filterMap_append
    rw [whole, apart, here, others fun x inside same => names.1.1 (same ▸ List.mem_map_of_mem inside),
      others fun x inside same => names.1.2 (same ▸ List.mem_map_of_mem inside)]
    rfl
  have walk := @foldr_splice (· == e.name) (fun _ => []) [] (linesOf file) evs accepts.scan.length_eq
  rw [List.length_nil, single] at walk
  exact walk

theorem plain_of_line {line : Str} (listed : line ∈ linesOf file) : '\r' ∉ line := by
  intro inside
  refine universalNewlines_plain file ?_
  rw [← splitLines_flatten (universalNewlines file), List.mem_flatten]
  exact ⟨line, listed, inside⟩

/-- Lines of a file from which entries were dropped are the lines of the file that is left. -/
theorem linesOf_dropped {named : Str → Bool} :
    linesOf (rewrite named (fun _ => []) skip (linesOf file) evs).flatten =
      rewrite named (fun _ => []) skip (linesOf file) evs := by
  have part : (rewrite named (fun _ => []) skip (linesOf file) evs).Sublist (linesOf file) :=
    rewrite_sublist
  have plain : '\r' ∉ (rewrite named (fun _ => []) skip (linesOf file) evs).flatten := by
    intro inside
    obtain ⟨line, listed, here⟩ := List.mem_flatten.1 inside
    exact plain_of_line (part.subset listed) here
  rw [linesOf, universalNewlines_eq plain]
  exact ((splitLines_wellSplit _).sublist part).splitLines_flatten

theorem optionNames_dropped {named : Str → Bool} {skip : Bool} :
    optionNames (rewrite named (fun _ => []) skip evs evs) =
      (optionNames evs).filter fun m => !named m := by
  induction evs generalizing skip with
  | nil => rfl
  | cons ev evs ih =>
    cases ev with
    | header => exact ih
    | free => exact ih
    | option n first =>
      by_cases hit : named n = true
      · simp [rewrite, optionNames, hit, ih]
      · simp [rewrite, optionNames, hit, ih]
    | cont text =>
      cases skip with
      | true => exact ih
      | false => exact ih

theorem dropped_touchesOnly (accepts : Accepts name (linesOf file) evs) (named : Str → Bool) :
    TouchesOnly name named False file (entriesFrom 0 evs)
      (rewrite named (fun _ => []) false (linesOf file) evs).flatten := by
  have fronted : Fronted fun _ => [] := fun _ => rfl
  have reads : Accepts name (linesOf (rewrite named (fun _ => []) false (linesOf file) evs).flatten)
      (rewrite named (fun _ => []) false evs evs) := by
    rw [linesOf_dropped]
    refine ⟨?_, header_of_replace accepts.header, ?_⟩
    · exact accepts.scan.replace (fun _ _ _ _ => trivial) (by simp) fun _ => rfl
    · rw [optionNames_dropped]
      exact accepts.distinct.filter _
  refine ⟨⟨_, readLines_iff.2 ⟨_, reads, rfl⟩, Or.inl ?_⟩, ?_⟩
  · have again := @rewrite_rewrite false evs named (fun _ => []) Str (fun _ => []) (fun _ => [])
      fronted (fun _ _ _ => rfl) false (linesOf file) accepts.scan.length_eq (fun _ => rfl)
    rw [outside_eq reads.scan.length_eq, outside_eq accepts.scan.length_eq, linesOf_dropped, again]
    exact rewrite_congr fun m _ => rewrite_nil _ _ _
  · intro m validM other
    rw [get_eq reads validM, get_eq accepts validM, valueIn_other fronted other]
    intro _ _ _
    exact List.not_mem_nil

theorem remove_touchesOnly (accepts : Accepts name (linesOf file) evs)
    (valid : validName n = true) :
    ∃ written, remove name n file = .ok written ∧
      TouchesOnly name (· == n) False file (entriesFrom 0 evs) written := by
  have here : validateName n = .ok () := if_pos valid
  cases found : lookup (entriesFrom 0 evs) n with
  | none =>
    refine ⟨file, ?_, ⟨_, readLines_iff.2 ⟨evs, accepts, rfl⟩, Or.inl rfl⟩, fun _ _ _ => rfl⟩
    rw [remove, here, read_eq accepts]
    simp only [found, bind, Except.bind]
    rfl
  | some e =>
    refine ⟨_, ?_, dropped_touchesOnly accepts (· == n)⟩
    rw [remove, here, read_eq accepts, ← splice_eq accepts found]
    simp only [found, bind, Except.bind]
    rfl

end Frame

end Collei.Ini

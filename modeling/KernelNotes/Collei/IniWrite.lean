import KernelNotes.Collei.IniBlock

/-!
# What a write leaves

The file `set_many` writes is the rewriting of a file: the one there was, ended by a newline
where new options follow, with an empty entry for each of them. The exception is a file whose
last line is blank and not ended: there the first new option is glued to the blanks. From this,
two results: when what was set is read back, and when nothing else changes.
-/

namespace Collei.Ini

open Text

/-! ## The last line -/

section Last

variable {named : Str → Bool}

theorem skipping_iff {i : Nat} {skip : Bool} {evs : List Event} :
    skipping named skip evs = true ↔
      (∃ e ∈ entriesFrom i evs, e.stop = i + evs.length ∧ named e.name = true) ∨
        (skip = true ∧ (contsOf evs).length = evs.length) := by
  induction evs generalizing i skip with
  | nil => simp [skipping, entriesFrom, contsOf]
  | cons ev evs ih =>
    have shift : i + (evs.length + 1) = i + 1 + evs.length := by omega
    cases ev with
    | header =>
      rw [skipping, @ih (i + 1), entriesFrom, List.length_cons, shift]
      · simp [contsOf]
      all_goals simp
    | free =>
      rw [skipping, @ih (i + 1), entriesFrom, List.length_cons, shift]
      · simp [contsOf]
      all_goals simp
    | cont text =>
      rw [skipping, @ih (i + 1), entriesFrom, List.length_cons, shift]
      · simp [contsOf]
      all_goals simp
    | option n first =>
      rw [skipping, @ih (i + 1), entriesFrom, List.length_cons, shift]
      simp only [List.mem_cons, exists_eq_or_imp, contsOf, List.length_nil]
      constructor
      · rintro (inside | ⟨hit, all⟩)
        · exact Or.inl (Or.inr inside)
        · exact Or.inl (Or.inl ⟨by rw [all], hit⟩)
      · rintro ((⟨stops, hit⟩ | inside) | ⟨_, none⟩)
        · exact Or.inr ⟨hit, by omega⟩
        · exact Or.inl inside
        · omega

theorem skipping_append (skip : Bool) (evs more : List Event) :
    skipping named skip (evs ++ more) = skipping named (skipping named skip evs) more := by
  induction evs generalizing skip with
  | nil => rfl
  | cons ev evs ih => cases ev <;> exact ih _

theorem rewrite_last_kept {α : Type} (f : Str → List α) {skip : Bool} {init : List α} {last : α}
    {evs : List Event} {ev : Event} (sized : init.length = evs.length)
    (kept : skipping named skip (evs ++ [ev]) = false) :
    rewrite named f skip (init ++ [last]) (evs ++ [ev]) = rewrite named f skip init evs ++ [last] := by
  rw [skipping_append] at kept
  rw [rewrite_append f sized]
  cases ev with
  | header => rfl
  | free => rfl
  | option n first =>
    simp only [skipping] at kept
    simp [rewrite, kept]
  | cont text =>
    simp only [skipping] at kept
    simp [rewrite, kept]

theorem mem_rewrite_gone {α : Type} {f : Str → List α} {skip : Bool} {init : List α} {last : α}
    {evs : List Event} {ev : Event} (sized : init.length = evs.length)
    (gone : skipping named skip (evs ++ [ev]) = true) {y : α}
    (listed : y ∈ rewrite named f skip (init ++ [last]) (evs ++ [ev])) :
    y ∈ init ∨ ∃ n, y ∈ f n := by
  rw [skipping_append] at gone
  rw [rewrite_append f sized, List.mem_append] at listed
  rcases listed with early | late
  · rcases mem_rewrite early with old | ⟨n, _, _, new⟩
    · exact Or.inl old
    · exact Or.inr ⟨n, new⟩
  · cases ev with
    | header => cases gone
    | free => cases gone
    | option n first =>
      simp only [skipping] at gone
      exact Or.inr ⟨n, by simpa [rewrite, gone] using late⟩
    | cont text =>
      simp only [skipping] at gone
      simp [rewrite, gone] at late

end Last

/-! ## The text that is written -/

/-- The options of a mapping that are not in the file. -/
def absent (values : List (Str × Str)) (evs : List Event) : List Str :=
  (values.map Prod.fst).filter fun n => decide (n ∉ optionNames evs)

theorem lookup_isSome (n : Str) (evs : List Event) :
    (lookup (entriesFrom 0 evs) n).isSome = true ↔ n ∈ optionNames evs := by
  rw [← valueIn_isSome, ← lookup_entriesFrom 0, Option.isSome_map]

theorem additions_eq {values : List (Str × Str)} (distinct : (values.map Prod.fst).Nodup)
    (evs : List Event) :
    additions (entriesFrom 0 evs) values = (absent values evs).flatMap (rendered values) := by
  have known : ∀ p ∈ values, rendered values p.1 = render p.1 p.2 := by
    intro p listed
    rw [rendered, lookup_of_mem distinct listed, Option.getD_some]
  rw [additions, absent]
  generalize rendered values = lines at known
  clear distinct
  induction values with
  | nil => rfl
  | cons p values ih =>
    have later := ih fun q listed => known q (List.mem_cons_of_mem p listed)
    have here := known p List.mem_cons_self
    obtain ⟨n, v⟩ := p
    rw [List.flatMap_cons, later, List.map_cons, List.filter_cons]
    dsimp only at here ⊢
    by_cases present : n ∈ optionNames evs
    · rw [if_pos ((lookup_isSome n evs).2 present), if_neg (by simpa using present)]
      rfl
    · rw [if_neg (mt (lookup_isSome n evs).1 present), if_pos (by simpa using present),
        List.flatMap_cons, here]

theorem validate_all {values : List (Str × Str)} (valid : ∀ p ∈ values, validName p.1 = true) :
    (values.forM fun (option, _) => validateName option) = .ok () := by
  induction values with
  | nil => rfl
  | cons p values ih =>
    have here : validateName p.1 = .ok () := if_pos (valid p List.mem_cons_self)
    have later := ih fun q listed => valid q (List.mem_cons_of_mem p listed)
    show (validateName p.1 >>= fun _ => values.forM fun (option, _) => validateName option) = _
    rw [here, later]
    rfl

theorem read_eq {name file : Str} {evs : List Event} (accepts : Accepts name (linesOf file) evs) :
    read name file = .ok (linesOf file, entriesFrom 0 evs) := by
  have entries : readLines name (linesOf file) = .ok (entriesFrom 0 evs) :=
    readLines_iff.2 ⟨evs, accepts, rfl⟩
  rw [read, entries]
  rfl

theorem setMany_eq {name file : Str} {values : List (Str × Str)} {evs : List Event}
    (accepts : Accepts name (linesOf file) evs) (distinct : (values.map Prod.fst).Nodup)
    (valid : ∀ p ∈ values, validName p.1 = true) :
    setMany name values file = .ok (addOptions
      (rewrite (isNamed values) (rendered values) false (linesOf file) evs)
      ((absent values evs).flatMap (rendered values))).flatten := by
  rw [setMany, validate_all valid, read_eq accepts]
  show Except.ok _ = Except.ok _
  rw [foldl_splice distinct accepts.scan.length_eq accepts.distinct, additions_eq distinct]

theorem get_eq {name file n : Str} {evs : List Event} (accepts : Accepts name (linesOf file) evs)
    (valid : validName n = true) : get name n file = .ok (valueIn n evs).join := by
  have here : validateName n = .ok () := if_pos valid
  rw [get, here, read_eq accepts, ← lookup_entriesFrom 0]
  show Except.ok _ = Except.ok _
  cases lookup (entriesFrom 0 evs) n with
  | none => rfl
  | some e => rfl

/-! ## The file that is rewritten -/

theorem sealed_render {n v s : Str} (listed : s ∈ render n v) : Sealed s := by
  by_cases one : OneLine v
  · rw [render_oneLine one, List.mem_singleton] at listed
    rw [listed]
    exact sealed_newline _
  · rw [render_lines one, List.mem_cons, List.mem_map] at listed
    rcases listed with rfl | ⟨line, _, rfl⟩
    · exact ⟨n ++ " =".toList, '\n', by simp, by decide, by decide⟩
    · exact sealed_newline _

/-- A new option before its lines are filled in. -/
def placeholder (n : Str) : Str := n ++ " =".toList ++ ['\n']

theorem scan_placeholders (name : Str) {ns : List Str} (valid : ∀ n ∈ ns, validName n = true)
    (opened : Bool) :
    Scan name true opened (ns.map placeholder) (ns.map fun n => .option n []) := by
  induction ns generalizing opened with
  | nil => trivial
  | cons n ns ih =>
    refine ⟨classify_option name (valid n List.mem_cons_self) opened ['\n'], ?_⟩
    exact ih (fun m listed => valid m (List.mem_cons_of_mem n listed)) true

theorem rewrite_placeholders {named : Str → Bool} (f : Str → List Str) {ns : List Str}
    (hits : ∀ n ∈ ns, named n = true) (skip : Bool) :
    rewrite named f skip (ns.map placeholder) (ns.map fun n => .option n []) = ns.flatMap f := by
  induction ns generalizing skip with
  | nil => rfl
  | cons n ns ih =>
    rw [List.map_cons, List.map_cons, rewrite, if_pos (hits n List.mem_cons_self),
      ih fun m listed => hits m (List.mem_cons_of_mem n listed)]
    rfl

theorem optionNames_placeholders (ns : List Str) :
    optionNames (ns.map fun n => .option n []) = ns := by
  induction ns with
  | nil => rfl
  | cons n ns ih => rw [List.map_cons, optionNames, ih]

/-- The lines and events of which the written file is a rewriting. `sep` is the newline that was
added before the new options, if any. -/
structure Base (name : Str) (values : List (Str × Str)) (lines : List Str) (evs : List Event)
    (lines' : List Str) (evs' : List Event) (sep : Str) : Prop where
  accepts : Accepts name lines' evs'
  present : ∀ n, isNamed values n = true → n ∈ optionNames evs'
  others : ∀ m, isNamed values m = false → valueIn m evs' = valueIn m evs
  texts : ∀ f : Str → List Str,
    (rewrite (isNamed values) f false lines' evs').flatten =
      (rewrite (isNamed values) f false lines evs).flatten ++ sep ++
        ((absent values evs).flatMap f).flatten
  resplit : linesOf (rewrite (isNamed values) (rendered values) false lines' evs').flatten =
    rewrite (isNamed values) (fun n => (rendered values n).flatMap linesOf) false lines' evs'
  separates : sep = [] ∨ (sep = ['\n'] ∧ absent values evs ≠ [])

theorem contsOf_append_closed {xs ys : List Event} (closed : contsOf ys = []) :
    contsOf (xs ++ ys) = contsOf xs := by
  induction xs with
  | nil => exact closed
  | cons ev xs ih =>
    cases ev with
    | cont text => rw [List.cons_append, contsOf, ih, contsOf]
    | _ => rfl

theorem valueIn_append_closed {m : Str} {xs ys : List Event} (closed : contsOf ys = [])
    (none : m ∉ optionNames ys) : valueIn m (xs ++ ys) = valueIn m xs := by
  induction xs with
  | nil =>
    cases found : valueIn m ys with
    | none => rw [List.nil_append, found]; rfl
    | some value => exact absurd ((valueIn_isSome m ys).1 (by rw [found]; rfl)) none
  | cons ev xs ih =>
    cases ev with
    | option n first => rw [List.cons_append, valueIn, ih, contsOf_append_closed closed, valueIn]
    | _ => exact ih

theorem Base.extend {name : Str} {values : List (Str × Str)} {lines lines' : List Str}
    {evs evs' : List Event} {sep : Str} (distinct : (values.map Prod.fst).Nodup)
    (valid : ∀ p ∈ values, validName p.1 = true) (accepts : Accepts name lines' evs')
    (names : optionNames evs' = optionNames evs) (same : ∀ m, valueIn m evs' = valueIn m evs)
    (texts : ∀ f : Str → List Str, (rewrite (isNamed values) f false lines' evs').flatten =
      (rewrite (isNamed values) f false lines evs).flatten ++ sep)
    (fixed : ∀ x ∈ lines', linesOf x = [x])
    (closed : ∀ s ∈ rewrite (isNamed values) (rendered values) false lines' evs', Sealed s)
    (separates : sep = [] ∨ (sep = ['\n'] ∧ absent values evs ≠ [])) :
    Base name values lines evs (lines' ++ (absent values evs).map placeholder)
      (evs' ++ (absent values evs).map fun n => .option n []) sep := by
  have inside : ∀ n ∈ absent values evs, n ∈ values.map Prod.fst ∧ n ∉ optionNames evs := by
    intro n listed
    simpa [absent] using listed
  have hits : ∀ n ∈ absent values evs, isNamed values n = true := fun n listed =>
    isNamed_iff.2 (inside n listed).1
  have validAbsent : ∀ n ∈ absent values evs, validName n = true := by
    intro n listed
    obtain ⟨p, present, rfl⟩ := List.mem_map.1 (inside n listed).1
    exact valid p present
  have sized := accepts.scan.length_eq
  have whole (f : Str → List Str) :
      rewrite (isNamed values) f false (lines' ++ (absent values evs).map placeholder)
        (evs' ++ (absent values evs).map fun n => .option n []) =
      rewrite (isNamed values) f false lines' evs' ++ (absent values evs).flatMap f := by
    rw [rewrite_append f sized, rewrite_placeholders f hits]
  have noConts (ns : List Str) : contsOf (ns.map fun n => Event.option n []) = [] := by
    cases ns <;> rfl
  refine ⟨⟨?_, ?_, ?_⟩, ?_, ?_, ?_, ?_, separates⟩
  · refine accepts.scan.append ?_
    rw [accepts.header]
    exact scan_placeholders name validAbsent _
  · rw [List.any_append, accepts.header]
    rfl
  · rw [optionNames_append, optionNames_placeholders]
    refine List.Nodup.append accepts.distinct (distinct.filter _) fun n old new => ?_
    rw [names] at old
    exact (inside n new).2 old
  · intro n hit
    rw [optionNames_append, optionNames_placeholders, names, List.mem_append]
    by_cases present : n ∈ optionNames evs
    · exact Or.inl present
    · refine Or.inr ?_
      simpa [absent, present] using isNamed_iff.1 hit
  · intro m other
    rw [valueIn_append_closed (noConts _), same]
    rw [optionNames_placeholders]
    intro listed
    rw [hits m listed] at other
    cases other
  · intro f
    rw [whole, List.flatten_append, texts]
  · rw [whole, whole]
    have all : ∀ s ∈ rewrite (isNamed values) (rendered values) false lines' evs' ++
        (absent values evs).flatMap (rendered values), Sealed s := by
      intro s listed
      rcases List.mem_append.1 listed with old | new
      · exact closed s old
      · obtain ⟨n, _, new⟩ := List.mem_flatMap.1 new
        exact sealed_render new
    have split := linesOf_flatten all []
    rw [List.append_nil, List.flatMap_append, rewrite_flatMap _ _ _ fixed, List.flatMap_assoc] at split
    simpa [linesOf, universalNewlines, splitLines] using split

/-- The last line is blank, has no end and is kept, and an option is to be appended: it will be
written behind the blanks. -/
def Glued (values : List (Str × Str)) (lines : List Str) (entries : List Entry) : Prop :=
  (∃ p ∈ values, lookup entries p.1 = none) ∧
    (∃ last ∈ lines.getLast?, strip last = [] ∧ Unbroken last) ∧
    ∀ e ∈ entries, e.stop = lines.length → isNamed values e.name = false

theorem Accepts.last {name file : Str} {evs : List Event} (accepts : Accepts name (linesOf file) evs) :
    ∃ init last evs' ev, linesOf file = init ++ [last] ∧ evs = evs' ++ [ev] ∧
      init.length = evs'.length := by
  have sized := accepts.scan.length_eq
  rcases evs.eq_nil_or_concat with rfl | ⟨evs', ev, rfl⟩
  · exact absurd accepts.header (by simp)
  · rw [List.concat_eq_append] at sized ⊢
    rcases (linesOf file).eq_nil_or_concat with empty | ⟨init, last, whole⟩
    · rw [empty] at sized
      simp at sized
    · rw [List.concat_eq_append] at whole
      refine ⟨init, last, evs', ev, whole, rfl, ?_⟩
      rw [whole] at sized
      simpa using sized

theorem absent_eq_nil {values : List (Str × Str)} {evs : List Event} :
    absent values evs = [] ↔ ¬ ∃ p ∈ values, lookup (entriesFrom 0 evs) p.1 = none := by
  have missing (n : Str) : lookup (entriesFrom 0 evs) n = none ↔ n ∉ optionNames evs := by
    rw [← lookup_isSome, Bool.not_eq_true, Option.isSome_eq_false_iff, Option.isNone_iff_eq_none]
  simp [absent, missing]

theorem render_ne_nil (n v : Str) : render n v ≠ [] := by
  by_cases one : OneLine v
  · simp [render_oneLine one]
  · simp [render_lines one]

theorem additions_ne_nil {values : List (Str × Str)} {ns : List Str} (some : ns ≠ []) :
    ns.flatMap (rendered values) ≠ [] := by
  cases ns with
  | nil => exact absurd rfl some
  | cons n ns => simp [rendered, render_ne_nil]

/-- Behind the lines of the file, when all of them are ended, new options start a line. -/
theorem Base.of_closed {name file : Str} {values : List (Str × Str)} {evs : List Event}
    (accepts : Accepts name (linesOf file) evs) (distinct : (values.map Prod.fst).Nodup)
    (valid : ∀ p ∈ values, validName p.1 = true) (more : absent values evs ≠ [])
    (closed : ∀ s ∈ rewrite (isNamed values) (rendered values) false (linesOf file) evs, Sealed s) :
    ∃ lines' evs' sep, Base name values (linesOf file) evs lines' evs' sep ∧
      setMany name values file =
        .ok (rewrite (isNamed values) (rendered values) false lines' evs').flatten := by
  have fixed : ∀ x ∈ linesOf file, linesOf x = [x] := fun x listed => linesOf_fixed listed
  rw [setMany_eq accepts distinct valid, addOptions, if_neg (additions_ne_nil more)]
  split
  · have ended (f : Str → List Str) :
        rewrite (isNamed values) f false (linesOf file ++ [['\n']]) (evs ++ [.free]) =
          rewrite (isNamed values) f false (linesOf file) evs ++ [['\n']] := by
      rw [rewrite_append f accepts.scan.length_eq]
      rfl
    have blank : Accepts name (linesOf file ++ [['\n']]) (evs ++ [.free]) := by
      refine ⟨accepts.scan.append ?_, ?_, ?_⟩
      · rw [accepts.header]
        exact ⟨by rfl, trivial⟩
      · rw [List.any_append, accepts.header]
        rfl
      · rw [optionNames_append]
        simpa [optionNames] using accepts.distinct
    have base : Base name values (linesOf file) evs _ _ ['\n'] := Base.extend distinct valid blank
      (by simp [optionNames_append, optionNames])
      (fun m => valueIn_append_closed rfl (by simp [optionNames]))
      (fun f => by rw [ended]; simp)
      (fun x listed => by
        rcases List.mem_append.1 listed with old | new
        · exact fixed x old
        · rw [List.mem_singleton.1 new]
          rfl)
      (fun s listed => by
        rw [ended] at listed
        rcases List.mem_append.1 listed with old | new
        · exact closed s old
        · rw [List.mem_singleton.1 new]
          exact sealed_newline [])
      (Or.inr ⟨rfl, more⟩)
    refine ⟨_, _, _, base, ?_⟩
    rw [base.texts]
    simp
  · have base : Base name values (linesOf file) evs _ _ [] := Base.extend distinct valid accepts rfl
      (fun m => rfl) (fun f => by simp) fixed closed (Or.inl rfl)
    refine ⟨_, _, _, base, ?_⟩
    rw [base.texts]
    simp

theorem classify_newline (name : Str) (found opened : Bool) (raw : Str) :
    classify name found opened (raw ++ ['\n']) = classify name found opened raw := by
  have same : rstripNewlines (raw ++ ['\n']) = rstripNewlines raw :=
    List.rdropWhile_concat_pos _ _ _ (by decide)
  rw [classify, classify, same]

theorem Accepts.ended {name : Str} {init : List Str} {last : Str} {evs : List Event}
    (accepts : Accepts name (init ++ [last]) evs) : Accepts name (init ++ [last ++ ['\n']]) evs := by
  refine ⟨?_, accepts.header, accepts.distinct⟩
  obtain ⟨first, second, whole, front, back⟩ := accepts.scan.split
  rw [whole]
  refine front.append ?_
  cases second with
  | nil => exact back.elim
  | cons ev more => exact ⟨by rw [classify_newline]; exact back.1, back.2⟩

theorem Base.exists {name file : Str} {values : List (Str × Str)} {evs : List Event}
    (accepts : Accepts name (linesOf file) evs) (distinct : (values.map Prod.fst).Nodup)
    (valid : ∀ p ∈ values, validName p.1 = true)
    (apart : ¬ Glued values (linesOf file) (entriesFrom 0 evs)) :
    ∃ lines' evs' sep, Base name values (linesOf file) evs lines' evs' sep ∧
      setMany name values file =
        .ok (rewrite (isNamed values) (rendered values) false lines' evs').flatten := by
  have fixed : ∀ x ∈ linesOf file, linesOf x = [x] := fun x listed => linesOf_fixed listed
  have sized := accepts.scan.length_eq
  obtain ⟨init, last, before, ev, lines, rfl, sizedInit⟩ := accepts.last
  have early := sealed_of_init lines
  have earlyRewritten : ∀ s ∈ rewrite (isNamed values) (rendered values) false init before,
      Sealed s := by
    intro s listed
    rcases mem_rewrite listed with old | ⟨n, _, _, new⟩
    · exact early s old
    · exact sealed_render new
  have gone (skipped : skipping (isNamed values) false (before ++ [ev]) = true) :
      ∀ s ∈ rewrite (isNamed values) (rendered values) false (linesOf file) (before ++ [ev]),
        Sealed s := by
    intro s listed
    rw [lines] at listed
    rcases mem_rewrite_gone sizedInit skipped listed with old | ⟨n, new⟩
    · exact early s old
    · exact sealed_render new
  have kept (stays : skipping (isNamed values) false (before ++ [ev]) = false) (f : Str → List Str) :
      rewrite (isNamed values) f false (linesOf file) (before ++ [ev]) =
        rewrite (isNamed values) f false init before ++ [last] := by
    rw [lines]
    exact rewrite_last_kept f sizedInit stays
  by_cases none : absent values (before ++ [ev]) = []
  · -- nothing is appended: only the last line may be open
    refine ⟨linesOf file, before ++ [ev], [], ⟨accepts, ?_, fun _ _ => rfl, ?_, ?_, Or.inl rfl⟩, ?_⟩
    · intro n hit
      by_contra missing
      refine absurd none (List.ne_nil_of_mem (a := n) ?_)
      simpa [absent, missing] using isNamed_iff.1 hit
    · intro f
      rw [none]
      simp
    · rw [← rewrite_flatMap _ _ _ fixed]
      cases skipped : skipping (isNamed values) false (before ++ [ev]) with
      | true =>
        have split := linesOf_flatten (gone skipped) []
        simpa [linesOf, universalNewlines, splitLines] using split
      | false =>
        rw [kept skipped, List.flatten_append, List.flatMap_append, List.flatten_singleton,
          List.flatMap_singleton]
        exact linesOf_flatten earlyRewritten last
    · rw [setMany_eq accepts distinct valid, none]
      rfl
  · cases skipped : skipping (isNamed values) false (before ++ [ev]) with
    | true => exact Base.of_closed accepts distinct valid none (gone skipped)
    | false =>
      have inside : last ∈ linesOf file := by simp [lines]
      rcases line_cases inside with ⟨body, c, rfl, _, boundary, plain⟩ | ⟨_, unbroken⟩
      · refine Base.of_closed accepts distinct valid none fun s listed => ?_
        rw [kept skipped] at listed
        rcases List.mem_append.1 listed with old | new
        · exact earlyRewritten s old
        · rw [List.mem_singleton.1 new]
          exact ⟨body, c, rfl, boundary, plain⟩
      · -- the last line is open: it must be blank for an option to be glued to it
        have solid : strip last ≠ [] := by
          intro blank
          refine apart ⟨not_not.1 (mt absent_eq_nil.2 none), ?_, ?_⟩
          · exact ⟨last, by rw [lines]; simp, blank, unbroken⟩
          · intro e listed stops
            by_contra hit
            rw [Bool.not_eq_false] at hit
            have again : skipping (isNamed values) false (before ++ [ev]) = true :=
              skipping_iff.2 (Or.inl ⟨e, listed, by rw [stops, sized, Nat.zero_add], hit⟩)
            rw [skipped] at again
            cases again
        rw [lines] at accepts
        have ended (f : Str → List Str) :
            rewrite (isNamed values) f false (init ++ [last ++ ['\n']]) (before ++ [ev]) =
              rewrite (isNamed values) f false init before ++ [last ++ ['\n']] :=
          rewrite_last_kept f sizedInit skipped
        have base : Base name values (linesOf file) (before ++ [ev]) _ _ ['\n'] :=
          Base.extend distinct valid accepts.ended rfl (fun m => rfl)
            (fun f => by rw [ended, kept skipped]; simp)
            (fun x listed => by
              rcases List.mem_append.1 listed with old | new
              · exact fixed x (by rw [lines]; exact List.mem_append_left _ old)
              · rw [List.mem_singleton.1 new]
                exact linesOf_line unbroken)
            (fun s listed => by
              rw [ended] at listed
              rcases List.mem_append.1 listed with old | new
              · exact earlyRewritten s old
              · rw [List.mem_singleton.1 new]
                exact sealed_newline last)
            (Or.inr ⟨rfl, none⟩)
        refine ⟨_, _, _, base, ?_⟩
        rw [← lines] at accepts
        rw [setMany_eq accepts distinct valid, addOptions, if_neg (additions_ne_nil none), kept skipped,
          if_pos (by simpa using solid), base.texts, kept skipped]
        simp

theorem pieces_head {n v : Str} (valid : validName n = true) :
    ∃ rest ws, pieces n v = (n ++ " =".toList ++ rest) :: ws := by
  by_cases one : OneLine v
  · obtain ⟨w, ws, _, whole⟩ := pieces_oneLine valid one
    exact ⟨_, ws, whole⟩
  · exact ⟨_, _, pieces_lines valid one⟩

/-- The lines of a file in which the option `x` was glued to the last line. -/
structure Glue (values : List (Str × Str)) (lines : List Str) (evs : List Event) (written : Str)
    (init : List Str) (last : Str) (before : List Event) (x : Str) (others : List Str)
    (rest : Str) (ws : List Str) : Prop where
  lines_eq : lines = init ++ [last]
  sized : init.length = before.length
  kept : ∀ f : Str → List Str, rewrite (isNamed values) f false lines evs =
    rewrite (isNamed values) f false init before ++ [last]
  evs_eq : ∃ ev, evs = before ++ [ev]
  stays : skipping (isNamed values) false evs = false
  blank : strip last = []
  unbroken : Unbroken last
  some : last ≠ []
  missing : absent values evs = x :: others
  head : (rendered values x).flatMap linesOf = (x ++ " =".toList ++ rest) :: ws
  whole : linesOf written =
    rewrite (isNamed values) (fun n => (rendered values n).flatMap linesOf) false init before ++
      (last ++ (x ++ " =".toList ++ rest)) ::
        (ws ++ others.flatMap fun n => (rendered values n).flatMap linesOf)

theorem Glued.lines {name file : Str} {values : List (Str × Str)} {evs : List Event}
    (accepts : Accepts name (linesOf file) evs) (distinct : (values.map Prod.fst).Nodup)
    (valid : ∀ p ∈ values, validName p.1 = true)
    (glued : Glued values (linesOf file) (entriesFrom 0 evs)) {written : Str}
    (wrote : setMany name values file = .ok written) :
    ∃ init last before x others rest ws,
      Glue values (linesOf file) evs written init last before x others rest ws := by
  have sized := accepts.scan.length_eq
  obtain ⟨missing, ⟨last, isLast, blank, unbroken⟩, notNamed⟩ := glued
  obtain ⟨init, last', before, ev, lines, whole, sizedInit⟩ := accepts.last
  have same : last' = last := by
    rw [lines] at isLast
    simpa using isLast
  subst same
  have inside : last' ∈ linesOf file := by simp [lines]
  have nonempty : last' ≠ [] := by
    rcases line_cases inside with ⟨body, c, rfl, _⟩ | ⟨some, _⟩
    · simp
    · exact some
  have stays : skipping (isNamed values) false evs = false := by
    by_contra skipped
    rw [Bool.not_eq_false] at skipped
    rcases skipping_iff.1 skipped with ⟨e, listed, stops, hit⟩ | ⟨no, _⟩
    · rw [notNamed e listed (by rw [stops, sized, Nat.zero_add])] at hit
      cases hit
    · cases no
  have kept (f : Str → List Str) : rewrite (isNamed values) f false (linesOf file) evs =
      rewrite (isNamed values) f false init before ++ [last'] := by
    rw [lines, whole]
    exact rewrite_last_kept f sizedInit (whole ▸ stays)
  obtain ⟨x, others, shape⟩ := List.exists_cons_of_ne_nil (mt absent_eq_nil.1 (not_not.2 missing))
  have inMapping : ∀ n ∈ absent values evs, ∃ v, rendered values n = render n v ∧ validName n = true := by
    intro n listed
    have key : n ∈ values.map Prod.fst := by
      rw [absent] at listed
      exact List.mem_of_mem_filter listed
    obtain ⟨p, present, rfl⟩ := List.mem_map.1 key
    exact ⟨_, rfl, valid p present⟩
  obtain ⟨v, lines_x, validX⟩ := inMapping x (by simp [shape])
  obtain ⟨rest, ws, head⟩ := pieces_head (v := v) validX
  have early : ∀ s ∈ rewrite (isNamed values) (rendered values) false init before, Sealed s := by
    intro s listed
    rcases mem_rewrite listed with old | ⟨n, _, _, new⟩
    · exact sealed_of_init lines s old
    · exact sealed_render new
  have headLines : (rendered values x).flatMap linesOf = (x ++ " =".toList ++ rest) :: ws := by
    rw [lines_x]
    exact head
  refine ⟨init, last', before, x, others, rest, ws, lines, sizedInit, kept, ⟨ev, whole⟩, stays, blank,
    unbroken, nonempty, shape, headLines, ?_⟩
  have more : absent values evs ≠ [] := by simp [shape]
  rw [setMany_eq accepts distinct valid, addOptions, if_neg (additions_ne_nil more), kept,
    if_neg (by simp [blank]), Except.ok.injEq] at wrote
  have closed : ∀ s ∈ (absent values evs).flatMap (rendered values), Sealed s := by
    intro s listed
    obtain ⟨n, _, new⟩ := List.mem_flatMap.1 listed
    exact sealed_render new
  have added := linesOf_flatten closed []
  have empty : linesOf [] = [] := rfl
  rw [List.append_nil, empty, List.append_nil, List.flatMap_assoc, shape, List.flatMap_cons,
    List.flatMap_cons, headLines, List.cons_append] at added
  have fixed : ∀ y ∈ init, linesOf y = [y] := fun y listed =>
    linesOf_fixed (lines ▸ List.mem_append_left _ listed)
  rw [← wrote, List.flatten_append, List.flatten_append, List.flatten_singleton, List.append_assoc,
    linesOf_flatten early, rewrite_flatMap _ _ _ fixed]
  congr 1
  refine linesOf_unbroken_append unbroken ?_
  rw [shape]
  exact added

theorem cont_of_indented {name raw : Str} {found opened : Bool} {ev : Event} (inside : found = true)
    (blank : startsBlank (rstripNewlines raw) = true)
    (busy : opened = false → isIdle (strip (rstripNewlines raw)) = false)
    (accepted : classify name found opened raw = .ok ev) : ∃ text, ev = .cont text := by
  subst inside
  rw [classify] at accepted
  split at accepted
  · simp at accepted
  · simp only [Bool.not_true, Bool.false_eq_true, if_false, blank, if_true] at accepted
    cases opened with
    | true =>
      simp only [if_true] at accepted
      split at accepted
      · cases accepted
        exact ⟨_, rfl⟩
      · cases accepted
    | false =>
      simp only [busy rfl, Bool.false_eq_true, if_false] at accepted
      cases accepted

theorem Glue.cont {name : Str} {values : List (Str × Str)} {lines : List Str} {evs : List Event}
    {written : Str} {init : List Str} {last : Str} {before : List Event} {x : Str}
    {others : List Str} {rest : Str} {ws : List Str}
    (glue : Glue values lines evs written init last before x others rest ws)
    (validX : validName x = true) {opened : Bool} {ev : Event}
    (accepted : classify name true opened (last ++ (x ++ " =".toList ++ rest)) = .ok ev) :
    ∃ text, ev = .cont text := by
  cases x with
  | nil => cases validX
  | cons k tail =>
    have keys := validX
    rw [validName, Bool.and_eq_true, List.all_eq_true] at keys
    obtain ⟨solid, _, hash, semicolon, _⟩ := isKeyChar_solid (keys.2 k List.mem_cons_self)
    have stays : (k == '\r' || k == '\n') = false := by
      by_contra newline
      rw [Bool.not_eq_false] at newline
      rw [newline_space newline] at solid
      cases solid
    have text : last ++ (k :: tail ++ " =".toList ++ rest) =
        last ++ k :: (tail ++ " =".toList ++ rest) := by simp
    refine cont_of_indented rfl ?_ (fun _ => ?_) accepted
    · rw [text, rstripNewlines, rdropWhile_append_stop stays]
      obtain ⟨c, more, shape⟩ := List.exists_cons_of_ne_nil glue.some
      rw [shape, List.cons_append, startsBlank]
      exact strip_eq_nil.1 glue.blank c (by simp [shape])
    · rw [strip_rstripNewlines, text, strip_blank_append glue.blank, strip_cons solid]
      simp [isIdle, isComment, hash, semicolon]

theorem Base.reads {name : Str} {values : List (Str × Str)} {lines lines' : List Str}
    {evs evs' : List Event} {sep : Str} (base : Base name values lines evs lines' evs' sep)
    {first texts : Str → List Str}
    (blocks : ∀ n, isNamed values n = true → ∀ opened, Scan name true opened
      ((rendered values n).flatMap linesOf) (block n (first n) (texts n))) :
    Accepts name (linesOf (rewrite (isNamed values) (rendered values) false lines' evs').flatten)
      (rewrite (isNamed values) (fun n => block n (first n) (texts n)) false evs' evs') := by
  rw [base.resplit]
  refine ⟨?_, header_of_replace base.accepts.header, ?_⟩
  · exact base.accepts.scan.replace (fun n _ hit => blocks n hit) nofun fun _ => rfl
  · rw [optionNames_replace fun n _ _ => optionNames_block n _ _]
    exact base.accepts.distinct

end Collei.Ini

import KernelNotes.Collei.IniWrite

/-!
# Reading back what was set

A value is read back when its lines are separated by newlines only, no line of it that is
written on a line of its own looks like a section header, and the new options are not glued
to a blank last line. For values whose lines do not end in white space nothing weaker will do.
-/

namespace Collei.Ini

open Text

/-- The file is accepted, and each option that was set has the text of its value: without the
trailing newlines, and without trailing white space on each line. -/
def ReadsBack (name : Str) (values : List (Str × Str)) (written : Str) : Prop :=
  (∃ entries, readLines name (linesOf written) = .ok entries) ∧
    ∀ p ∈ values, get name p.1 written = .ok (normal p.2)

/-- The values and the file a write can be trusted with. -/
structure Faithful (values : List (Str × Str)) (lines : List Str) (entries : List Entry) : Prop where
  legible : ∀ p ∈ values, Legible p.2
  apart : ¬ Glued values lines entries

/-- Something is written, and no line of it ends in white space. -/
def Plain (v : Str) : Prop :=
  rstripNewlines v ≠ [] ∧ ∀ line ∈ (rstripNewlines v).splitOn '\n', rstrip line = line

section ReadBack

variable {name file : Str} {values : List (Str × Str)} {evs : List Event}

variable {written raw line n v x : Str} {first lines : List Str} {found opened : Bool}

theorem Faithful.readsBack (accepts : Accepts name (linesOf file) evs)
    (distinct : (values.map Prod.fst).Nodup) (valid : ∀ p ∈ values, validName p.1 = true)
    (faithful : Faithful values (linesOf file) (entriesFrom 0 evs))
    (wrote : setMany name values file = .ok written) : ReadsBack name values written := by
  obtain ⟨lines', evs', sep, base, result⟩ := Base.exists accepts distinct valid faithful.apart
  rw [result] at wrote
  cases wrote
  have blocks (n : Str) : ∃ first texts, isNamed values n = true →
      (∀ opened, Scan name true opened ((rendered values n).flatMap linesOf) (block n first texts)) ∧
        ∀ p ∈ values, p.1 = n → joined (first ++ texts) = normal p.2 := by
    by_cases hit : isNamed values n = true
    · obtain ⟨p, listed, rfl, lines⟩ := pair_of_named hit
      obtain ⟨first, texts, scan, value⟩ := (faithful.legible p listed).scan (valid p listed) name
      refine ⟨first, texts, fun _ => ⟨fun opened => by rw [lines]; exact scan opened, ?_⟩⟩
      intro q other same
      rw [value, List.inj_on_of_nodup_map distinct other listed same]
    · exact ⟨[], [], fun absurdity => absurd absurdity hit⟩
  choose first texts ok using blocks
  have reads := base.reads fun n hit => (ok n hit).1
  refine ⟨⟨_, readLines_iff.2 ⟨_, reads, rfl⟩⟩, fun p listed => ?_⟩
  have hit : isNamed values p.1 = true := isNamed_iff.2 (List.mem_map_of_mem listed)
  rw [get_eq reads (valid p listed), valueIn_named (fun n => rfl) hit (base.present p.1 hit),
    Option.join_some, (ok p.1 hit).2 p listed rfl]

/-! ## What is read has no other line boundary -/

theorem rstrip_unbroken {t : Str} (inner : Unbroken raw.dropLast) (part : t <:+: raw) :
    Unbroken (rstrip t) := by
  intro d listed
  by_contra boundary
  rw [Bool.not_eq_false] at boundary
  obtain ⟨a, b, cut⟩ := List.append_of_mem listed
  -- the boundary is white space, so it is not the last character that stays
  have solid : b ≠ [] := by
    rintro rfl
    have stays : rstrip (a ++ [d]) = a ++ [d] := by
      rw [← cut]
      exact List.rdropWhile_idempotent _ _
    rw [rstrip, List.rdropWhile_concat_pos _ _ _ (isSpace_of_isBreak boundary)] at stays
    have shorter := (List.rdropWhile_prefix isSpace (l := a)).length_le
    rw [stays, List.length_append, List.length_singleton] at shorter
    omega
  obtain ⟨x, y, whole⟩ := part
  obtain ⟨blanks, kept⟩ := List.rdropWhile_prefix isSpace (l := t)
  have front : raw = (x ++ (a ++ [d])) ++ (b ++ blanks ++ y) := by
    rw [← whole, ← kept]
    change x ++ (rstrip t ++ blanks) ++ y = _
    rw [cut]
    simp
  have inside : d ∈ raw.dropLast := by
    rw [front, List.dropLast_append_of_ne_nil (by simp [solid])]
    simp
  rw [inner d inside] at boundary
  cases boundary

theorem dropLast_unbroken (listed : line ∈ linesOf file) : Unbroken line.dropLast := by
  rcases line_cases listed with ⟨body, c, rfl, unbroken, _, _⟩ | ⟨_, unbroken⟩
  · rwa [List.dropLast_concat]
  · exact fun c inside => unbroken c (List.dropLast_subset _ inside)

/-- The texts an event carries. -/
def Event.texts : Event → List Str
  | .option _ first => first
  | .cont text => [text]
  | _ => []

theorem splitOption_suffix {before first : Str} (split : splitOption line = some (before, first)) :
    first <:+ line := by
  rw [splitOption] at split
  split at split
  · cases split
  · rename_i c rest back
    cases split
    exact ((List.suffix_cons c first).trans (back ▸ List.dropWhile_suffix _))

theorem continuation_suffix {rest : Str} (indented : continuation line = some rest) :
    rest <:+ line := by
  rcases continuation_cases indented with rfl | rfl
  · exact List.suffix_append _ _
  · exact List.suffix_cons _ _

theorem classifyOption_texts (inner : Unbroken raw.dropLast)
    (parsed : classifyOption (rstripNewlines raw) = .ok (.option n first)) :
    ∀ text ∈ first, Unbroken text := by
  have line : rstripNewlines raw <:+: raw := (List.rdropWhile_prefix _ raw).isInfix
  rw [classifyOption] at parsed
  split at parsed
  · cases parsed
  · rename_i before value split
    split at parsed
    · cases parsed
      have suffix : (if value.head? = some ' ' then value.tail else value) <:+ value := by
        split
        · exact List.tail_suffix value
        · exact List.suffix_refl value
      rw [firstValues]
      generalize (if value.head? = some ' ' then value.tail else value) = body at suffix
      by_cases empty : body = []
      · simp [empty]
      · rw [if_neg empty, List.forall_mem_singleton]
        exact rstrip_unbroken inner ((suffix.trans (splitOption_suffix split)).isInfix.trans line)
    · cases parsed

theorem classify_texts {ev : Event} (inner : Unbroken raw.dropLast)
    (accepted : classify name found opened raw = .ok ev) : ∀ text ∈ ev.texts, Unbroken text := by
  cases ev with
  | header => simp [Event.texts]
  | free => simp [Event.texts]
  | option n first => exact classifyOption_texts inner (classify_option_inv accepted).2.parsed
  | cont text =>
    obtain ⟨_, _, _, rest, indented, rfl⟩ := classify_cont_inv accepted
    have line : rstripNewlines raw <:+: raw := (List.rdropWhile_prefix _ raw).isInfix
    rw [Event.texts, List.forall_mem_singleton]
    exact rstrip_unbroken inner ((continuation_suffix indented).isInfix.trans line)

theorem Scan.texts (inner : ∀ line ∈ lines, Unbroken line.dropLast)
    (scan : Scan name found opened lines evs) : ∀ ev ∈ evs, ∀ text ∈ ev.texts, Unbroken text := by
  induction lines generalizing found opened evs with
  | nil =>
    cases evs with
    | nil => simp
    | cons ev evs => exact scan.elim
  | cons raw rest ih =>
    cases evs with
    | nil => exact scan.elim
    | cons ev evs =>
      intro x listed
      rcases List.mem_cons.1 listed with rfl | later
      · exact classify_texts (inner raw List.mem_cons_self) scan.1
      · exact ih (fun line inside => inner line (List.mem_cons_of_mem raw inside)) scan.2 x later

theorem mem_of_mem_intercalate {c d : Char} {ls : List Str} (listed : c ∈ [d].intercalate ls) :
    c = d ∨ ∃ l ∈ ls, c ∈ l := by
  induction ls with
  | nil => cases listed
  | cons l ls ih =>
    by_cases single : ls = []
    · rw [single] at listed
      exact Or.inr ⟨l, List.mem_cons_self, by simpa using listed⟩
    · rw [List.intercalate_cons_of_ne_nil single, List.mem_append, List.mem_append] at listed
      rcases listed with (here | between) | later
      · exact Or.inr ⟨l, List.mem_cons_self, here⟩
      · exact Or.inl (List.mem_singleton.1 between)
      · rcases ih later with same | ⟨k, inside, here⟩
        · exact Or.inl same
        · exact Or.inr ⟨k, List.mem_cons_of_mem l inside, here⟩

theorem value_boundaries (texts : ∀ ev ∈ evs, ∀ text ∈ ev.texts, Unbroken text) {value : Str}
    (found : valueIn n evs = some (some value)) : ∀ c ∈ value, isBreak c = true → c = '\n' := by
  have conts {more : List Event} (texts : ∀ ev ∈ more, ∀ text ∈ ev.texts, Unbroken text) :
      ∀ text ∈ contsOf more, Unbroken text := by
    induction more with
    | nil => simp [contsOf]
    | cons ev more ih =>
      cases ev with
      | cont t =>
        intro text listed
        rcases List.mem_cons.1 listed with rfl | later
        · exact texts (.cont text) List.mem_cons_self text (by simp [Event.texts])
        · exact ih (fun x inside => texts x (List.mem_cons_of_mem _ inside)) text later
      | _ => simp [contsOf]
  induction evs with
  | nil => cases found
  | cons ev evs ih =>
    have later := ih fun x inside => texts x (List.mem_cons_of_mem ev inside)
    cases ev with
    | option m first =>
      rw [valueIn] at found
      split at found
      · rw [joined] at found
        split at found
        · cases found
        · cases found
          intro c listed boundary
          by_contra other
          rcases mem_of_mem_intercalate listed with newline | ⟨text, inside, here⟩
          · exact other newline
          · have unbroken : Unbroken text := by
              rcases List.mem_append.1 inside with front | back
              · exact texts _ List.mem_cons_self text front
              · exact conts (fun x inside => texts x (List.mem_cons_of_mem _ inside)) text back
            rw [unbroken c here] at boundary
            cases boundary
      · exact later found
    | _ => exact later found

theorem Plain.normal (plain : Plain v) : normal v = some (rstripNewlines v) := by
  have lines : ((rstripNewlines v).splitOn '\n').map rstrip = (rstripNewlines v).splitOn '\n' := by
    conv_rhs => rw [← List.map_id ((rstripNewlines v).splitOn '\n')]
    exact List.map_congr_left plain.2
  rw [Ini.normal, lines, joined, List.intercalate_splitOn, if_neg plain.1]

theorem smooth_of_readsBack (back : ReadsBack name values written)
    (valid : ∀ p ∈ values, validName p.1 = true) {p : Str × Str} (listed : p ∈ values)
    (plain : Plain p.2) : ∀ line ∈ (rstripNewlines p.2).splitOn '\n', Unbroken line := by
  obtain ⟨⟨entries, loaded⟩, values⟩ := back
  obtain ⟨evs, accepts, _⟩ := readLines_iff.1 loaded
  have value := values p listed
  rw [get_eq accepts (valid p listed), plain.normal, Except.ok.injEq, Option.join_eq_some_iff] at value
  have texts := accepts.scan.texts fun line inside => dropLast_unbroken inside
  have only := value_boundaries texts value
  intro line inside c here
  by_contra boundary
  rw [Bool.not_eq_false] at boundary
  obtain ⟨whole, other⟩ := mem_of_mem_splitOn inside here
  exact other (only c whole boundary)

/-! ## Lines that look like a section header -/

theorem Scan.noSection (scan : Scan name true opened lines evs) :
    ∀ raw ∈ lines, sectionOf (strip (rstripNewlines raw)) = none := by
  induction lines generalizing opened evs with
  | nil => simp
  | cons raw rest ih =>
    cases evs with
    | nil => exact scan.elim
    | cons ev evs =>
      intro x listed
      rcases List.mem_cons.1 listed with rfl | later
      · have accepted := scan.1
        rw [classify] at accepted
        split at accepted
        · simp at accepted
        · assumption
      · exact ih scan.2 x later

theorem legible_of_readsBack (accepts : Accepts name (linesOf file) evs)
    (distinct : (values.map Prod.fst).Nodup) (valid : ∀ p ∈ values, validName p.1 = true)
    (apart : ¬ Glued values (linesOf file) (entriesFrom 0 evs))
    (wrote : setMany name values file = .ok written) (back : ReadsBack name values written)
    {p : Str × Str} (listed : p ∈ values) (plain : Plain p.2) : Legible p.2 := by
  have unbroken := smooth_of_readsBack back valid listed plain
  refine ⟨fun line inside => Or.inl (unbroken line inside), fun several line inside => ?_⟩
  obtain ⟨lines', evs', sep, base, result⟩ := Base.exists accepts distinct valid apart
  rw [result] at wrote
  cases wrote
  obtain ⟨⟨entries, loaded⟩, _⟩ := back
  obtain ⟨evsNew, acceptsNew, _⟩ := readLines_iff.1 loaded
  have scan := acceptsNew.scan
  rw [base.resplit] at scan
  have hit : isNamed values p.1 = true := isNamed_iff.2 (List.mem_map_of_mem listed)
  obtain ⟨opened, blockEvs, block⟩ := base.accepts.scan.blocks_of_replace (by simp) (fun _ => rfl)
    scan p.1 (base.present p.1 hit) hit
  have member : "    ".toList ++ line ++ ['\n'] ∈ (rendered values p.1).flatMap linesOf := by
    rw [rendered_of_mem distinct listed, ← pieces, pieces_lines (valid p listed) several]
    refine List.mem_cons_of_mem _ (List.mem_flatMap.2 ⟨line, inside, ?_⟩)
    rw [linesOf_line (unbroken_indent (unbroken line inside))]
    exact List.mem_singleton_self _
  have clear := block.noSection _ member
  rwa [strip_rstripNewlines, strip_append_space (by decide), strip_indent] at clear

/-! ## A glued option is not there -/

theorem Scan.optionLine (scan : Scan name found opened lines evs) (present : x ∈ optionNames evs) :
    ∃ raw ∈ lines, ∃ first, OptionLine raw x first := by
  induction lines generalizing found opened evs with
  | nil =>
    cases evs with
    | nil => cases present
    | cons ev evs => exact scan.elim
  | cons raw rest ih =>
    cases evs with
    | nil => exact scan.elim
    | cons ev evs =>
      rw [optionNames_cons, List.mem_append] at present
      rcases present with here | later
      · cases ev with
        | option n first =>
          rw [optionNames, optionNames, List.mem_singleton] at here
          subst here
          exact ⟨raw, List.mem_cons_self, first, (classify_option_inv scan.1).2⟩
        | _ => cases here
      · obtain ⟨line, inside, opens⟩ := ih scan.2 later
        exact ⟨line, List.mem_cons_of_mem raw inside, opens⟩

theorem Scan.present (scan : Scan name found opened lines evs) (listed : raw ∈ lines)
    (line : OptionLine raw x first) : x ∈ optionNames evs := by
  induction lines generalizing found opened evs with
  | nil => cases listed
  | cons other rest ih =>
    cases evs with
    | nil => exact scan.elim
    | cons ev evs =>
      rw [optionNames_cons, List.mem_append]
      rcases List.mem_cons.1 listed with rfl | later
      · left
        have accepted := scan.1
        cases found with
        | false =>
          rw [line.outside] at accepted
          cases accepted
        | true =>
          rw [line.classify] at accepted
          cases accepted
          simp [optionNames]
      · exact Or.inr (ih scan.2 later)

/-- The lines of a value without other line boundaries: behind the first all are indented. -/
theorem pieces_indented (valid : validName n = true)
    (unbroken : ∀ line ∈ (rstripNewlines v).splitOn '\n', Unbroken line) {rest : Str}
    {ws : List Str} (head : pieces n v = (n ++ " =".toList ++ rest) :: ws) :
    ∀ w ∈ ws, startsBlank (rstripNewlines w) = true := by
  by_cases one : OneLine v
  · obtain ⟨w, others, lines, whole⟩ := pieces_oneLine valid one
    have single := unbroken (rstripNewlines v) (by rw [splitOn_self one.1]; simp)
    rw [linesOf_line single] at lines
    cases lines
    rw [whole] at head
    rw [← (List.cons.inj head).2]
    simp
  · rw [pieces_lines valid one] at head
    rw [← (List.cons.inj head).2]
    intro w listed
    obtain ⟨line, inside, here⟩ := List.mem_flatMap.1 listed
    rw [linesOf_line (unbroken_indent (unbroken line inside)), List.mem_singleton] at here
    subst here
    have indented : continuation ("    ".toList ++ line ++ ['\n']) = some (line ++ ['\n']) := rfl
    exact (continuation_rstripNewlines indented).2

/-- An option line among the lines of `n` is that of `n`. -/
theorem optionLine_pieces (valid : validName n = true)
    (unbroken : ∀ line ∈ (rstripNewlines v).splitOn '\n', Unbroken line) (listed : raw ∈ pieces n v)
    (line : OptionLine raw x first) : x = n := by
  obtain ⟨rest, ws, head⟩ := pieces_head (v := v) valid
  rw [head] at listed
  rcases List.mem_cons.1 listed with rfl | later
  · have same := line.classify [] true
    rw [classify_option [] valid true rest] at same
    cases same
    rfl
  · have blank := pieces_indented valid unbroken head raw later
    rw [line.unindented] at blank
    cases blank

theorem not_glued_of_readsBack (accepts : Accepts name (linesOf file) evs)
    (distinct : (values.map Prod.fst).Nodup) (valid : ∀ p ∈ values, validName p.1 = true)
    (wrote : setMany name values file = .ok written) (back : ReadsBack name values written)
    (plain : ∀ p ∈ values, Plain p.2) : ¬ Glued values (linesOf file) (entriesFrom 0 evs) := by
  intro glued
  obtain ⟨init, last, before, x, others, rest, ws, glue⟩ := glued.lines accepts distinct valid wrote
  have once : (absent values evs).Nodup := distinct.filter _
  have isAbsent : ∀ n ∈ absent values evs, (∃ p ∈ values, p.1 = n) ∧ n ∉ optionNames evs := by
    intro n listed
    simpa [absent] using listed
  obtain ⟨⟨p, listed, rfl⟩, new⟩ := isAbsent x (by simp [glue.missing])
  have pieceOf : ∀ n, isNamed values n = true → ∀ raw ∈ (rendered values n).flatMap linesOf,
      ∀ first, OptionLine raw p.1 first → p.1 = n := by
    intro n hit raw here first line
    obtain ⟨q, present, rfl, shape⟩ := pair_of_named hit
    rw [shape] at here
    exact optionLine_pieces (valid q present)
      (smooth_of_readsBack back valid present (plain q present)) here line
  have noLine : ∀ raw ∈ linesOf written, ∀ first, ¬ OptionLine raw p.1 first := by
    intro raw here first line
    rw [glue.whole] at here
    rcases List.mem_append.1 here with early | late
    · rcases mem_rewrite early with old | ⟨n, present, hit, fresh⟩
      · refine new (accepts.scan.present ?_ line)
        rw [glue.lines_eq]
        exact List.mem_append_left _ old
      · have same := pieceOf n hit raw fresh first line
        obtain ⟨ev, whole⟩ := glue.evs_eq
        refine new ?_
        rw [same, whole, optionNames_append]
        exact List.mem_append_left _ present
    · rcases List.mem_cons.1 late with rfl | later
      · obtain ⟨text, same⟩ := glue.cont (valid p listed) (line.classify name true)
        cases same
      · rcases List.mem_append.1 later with tail | other
        · have head := glue.head
          rw [rendered_of_mem distinct listed] at head
          have blank := pieces_indented (valid p listed)
            (smooth_of_readsBack back valid listed (plain p listed)) head raw tail
          rw [line.unindented] at blank
          cases blank
        · obtain ⟨n, isOther, fresh⟩ := List.mem_flatMap.1 other
          have hit : isNamed values n = true := by
            obtain ⟨⟨q, present, rfl⟩, _⟩ := isAbsent n (by simp [glue.missing, isOther])
            exact isNamed_iff.2 (List.mem_map_of_mem present)
          have same := pieceOf n hit raw fresh first line
          rw [glue.missing, List.nodup_cons] at once
          exact once.1 (same ▸ isOther)
  obtain ⟨⟨entries, loaded⟩, read⟩ := back
  obtain ⟨evsNew, acceptsNew, _⟩ := readLines_iff.1 loaded
  have value := read p listed
  rw [get_eq acceptsNew (valid p listed), (plain p listed).normal, Except.ok.injEq,
    Option.join_eq_some_iff] at value
  obtain ⟨raw, inside, first, line⟩ := acceptsNew.scan.optionLine
    ((valueIn_isSome p.1 evsNew).1 (by rw [value]; rfl))
  exact noLine raw inside first line

end ReadBack

/-- What `set_many` writes is read back when the values and the file are `Faithful`; for plain
values it is read back only then. `append` sets the old value, a newline and the new text. -/
theorem setMany_reads_back (name file : Str) (values : List (Str × Str)) (entries : List Entry)
    (accepted : readLines name (linesOf file) = .ok entries)
    (distinct : (values.map Prod.fst).Nodup) (valid : ∀ p ∈ values, validName p.1 = true) :
    (∃ written, setMany name values file = .ok written ∧
      (Faithful values (linesOf file) entries → ReadsBack name values written) ∧
      ((∀ p ∈ values, Plain p.2) →
        (ReadsBack name values written ↔ Faithful values (linesOf file) entries))) ∧
    ∀ option value, append name option value file =
      get name option file >>= fun old =>
        set name option (old.elim value fun text => text ++ ['\n'] ++ value) file := by
  obtain ⟨evs, accepts, rfl⟩ := readLines_iff.1 accepted
  refine ⟨⟨_, setMany_eq accepts distinct valid, ?_, ?_⟩, ?_⟩
  · intro faithful
    exact faithful.readsBack accepts distinct valid (setMany_eq accepts distinct valid)
  · intro plain
    constructor
    · intro back
      have apart := not_glued_of_readsBack accepts distinct valid
        (setMany_eq accepts distinct valid) back plain
      refine ⟨fun p listed => ?_, apart⟩
      exact legible_of_readsBack accepts distinct valid apart (setMany_eq accepts distinct valid) back
        listed (plain p listed)
    · intro faithful
      exact faithful.readsBack accepts distinct valid (setMany_eq accepts distinct valid)
  · intro option value
    rw [append]
    congr 1
    funext old
    cases old with
    | none => rfl
    | some text => rfl

theorem setMany_reads_back_twoLines :
    Faithful [("b".toList, "x\n  y".toList)] (linesOf "[vm]\na = 1\n".toList)
        [⟨"a".toList, some "1".toList, 1, 2⟩] ∧
      ∃ written, setMany "vm".toList [("b".toList, "x\n  y".toList)] "[vm]\na = 1\n".toList =
          .ok written ∧ ReadsBack "vm".toList [("b".toList, "x\n  y".toList)] written := by
  have faithful : Faithful [("b".toList, "x\n  y".toList)] (linesOf "[vm]\na = 1\n".toList)
      [⟨"a".toList, some "1".toList, 1, 2⟩] := by
    refine ⟨fun p listed => ?_, ?_⟩
    · rw [List.mem_singleton.1 listed]
      exact ⟨by decide +kernel, fun _ => by decide +kernel⟩
    · rintro ⟨_, ⟨last, isLast, blank, _⟩, _⟩
      have form : last = "a = 1\n".toList := by
        have shape : (linesOf "[vm]\na = 1\n".toList).getLast? = some "a = 1\n".toList := by decide
        rw [shape] at isLast
        exact (Option.some.inj isLast).symm
      rw [form] at blank
      exact absurd blank (by decide)
  obtain ⟨⟨written, wrote, reads, _⟩, _⟩ := setMany_reads_back "vm".toList "[vm]\na = 1\n".toList
    [("b".toList, "x\n  y".toList)] [⟨"a".toList, some "1".toList, 1, 2⟩] (by decide) (by decide)
    (by decide)
  exact ⟨faithful, written, wrote, reads faithful⟩

/-- A line of the value that looks like a section header makes the file unreadable, another line
boundary cuts the value, and an option can be glued to the last line. -/
theorem setMany_not_read_back :
    (setMany "vm".toList [("a".toList, "1\n[b]".toList)] "[vm]\na = 1\n".toList >>=
      read "vm".toList) = .error .onlySection ∧
    (setMany "vm".toList [("a".toList, "1\u2028b = 2".toList)] "[vm]\na = 1\n".toList >>=
      get "vm".toList "a".toList) = .ok (some "1".toList) ∧
    (setMany "vm".toList [("x".toList, "1".toList)] "[vm]\na = 1\n    ".toList >>=
      get "vm".toList "x".toList) = .ok none := by
  refine ⟨?_, ?_, ?_⟩
  · decide +kernel
  · decide +kernel
  · decide +kernel

end Collei.Ini

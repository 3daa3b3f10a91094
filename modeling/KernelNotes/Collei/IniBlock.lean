import KernelNotes.Collei.IniFrame

/-!
# How the lines of one option read

`_render` writes an option as its name, an equals sign and the value, on one line or on several.
What `_read` sees are the physical lines of that text. The first is the line of the option; the
others continue it as long as they are indented and do not look like a section header.
-/

namespace Collei.Ini

open Text

/-! ## The line of the option -/

variable {c : Char} {n raw rest s line file v : Str} {ws : List Str}

theorem isKeyChar_bounds (key : isKeyChar c = true) :
    45 ≤ c.toNat ∧ c.toNat ≤ 122 ∧ c.toNat ≠ 59 ∧ c.toNat ≠ 61 ∧ c.toNat ≠ 91 := by
  simp only [isKeyChar, Char.isAlphanum, Char.isAlpha, Char.isUpper, Char.isLower, Char.isDigit,
    Bool.or_eq_true, Bool.and_eq_true, decide_eq_true_eq, beq_iff_eq, ge_iff_le,
    UInt32.le_iff_toNat_le] at key
  have value : c.val.toNat = c.toNat := rfl
  rw [value] at key
  change (((((65 ≤ _ ∧ _ ≤ 90) ∨ 97 ≤ _ ∧ _ ≤ 122) ∨ 48 ≤ _ ∧ _ ≤ 57) ∨ _) ∨ _) ∨ _ at key
  rcases key with ((((_ | _) | _) | rfl) | rfl) | rfl
  · omega
  · omega
  · omega
  · decide
  · decide
  · decide

theorem isKeyChar_solid (key : isKeyChar c = true) :
    isSpace c = false ∧ c ≠ '[' ∧ c ≠ '#' ∧ c ≠ ';' ∧ c ≠ '=' := by
  obtain ⟨low, high, semicolon, equals, bracket⟩ := isKeyChar_bounds key
  refine ⟨?_, ?_, ?_, ?_, ?_⟩
  · simp only [isSpace, Bool.or_eq_false_iff, Bool.and_eq_false_iff, decide_eq_false_iff_not,
      beq_eq_false_iff_ne]
    omega
  · rintro rfl
    exact bracket rfl
  · rintro rfl
    exact absurd low (by decide)
  · rintro rfl
    exact semicolon rfl
  · rintro rfl
    exact equals rfl

theorem isKeyChar_unbroken (valid : validName n = true) : Unbroken n := by
  intro c listed
  rw [validName, Bool.and_eq_true, List.all_eq_true] at valid
  by_contra boundary
  rw [Bool.not_eq_false] at boundary
  have solid := (isKeyChar_solid (valid.2 c listed)).1
  rw [isSpace_of_isBreak boundary] at solid
  cases solid

theorem newline_space (newline : (c == '\r' || c == '\n') = true) : isSpace c = true := by
  rw [Bool.or_eq_true, beq_iff_eq, beq_iff_eq] at newline
  rcases newline with rfl | rfl
  · decide
  · decide

theorem rstrip_rstripNewlines (s : Str) : rstrip (rstripNewlines s) = rstrip s :=
  rdropWhile_rdropWhile (fun _ => newline_space) s

theorem classify_unindented {name raw : Str} {c : Char} {s : Str} (opened : Bool)
    (line : rstripNewlines raw = c :: s) (solid : isSpace c = false) (bracket : c ≠ '[')
    (hash : c ≠ '#') (semicolon : c ≠ ';') :
    classify name true opened raw = classifyOption (c :: s) := by
  have noSection : sectionOf (c :: rstrip s) = none := by
    rw [sectionOf]
    intro rest same
    exact bracket (List.cons.inj same).1
  have busy : isIdle (c :: rstrip s) = false := by simp [isIdle, isComment, hash, semicolon]
  rw [classify]
  simp only [line, strip_cons solid, noSection, busy, startsBlank, solid, Bool.not_true,
    Bool.false_eq_true, if_false]

theorem splitOption_eq {before : Str} (plain : ∀ c ∈ before, c ≠ '=') (first : Str) :
    splitOption (before ++ '=' :: first) = some (before, first) := by
  have pass : ∀ c ∈ before, (c != '=') = true := by simpa using plain
  rw [splitOption, List.dropWhile_append_of_pos pass, List.takeWhile_append_of_pos pass]
  simp

theorem strip_name (valid : validName n = true) : strip (n ++ [' ']) = n := by
  rw [validName, Bool.and_eq_true, List.all_eq_true] at valid
  cases n with
  | nil => rfl
  | cons c tail =>
    have solid := (isKeyChar_solid (valid.2 c List.mem_cons_self)).1
    rw [strip_append_space rfl, strip_cons solid, rstrip, List.rdropWhile_eq_self_iff.2]
    intro some
    have last := valid.2 _ (List.mem_cons_of_mem c (List.getLast_mem some))
    simp [(isKeyChar_solid last).1]

theorem classify_option (name : Str) (valid : validName n = true) (opened : Bool) (rest : Str) :
    classify name true opened (n ++ " =".toList ++ rest) =
      .ok (.option n (firstValues (rstripNewlines rest))) := by
  have keys := valid
  rw [validName, Bool.and_eq_true, List.all_eq_true] at keys
  have line : rstripNewlines (n ++ " =".toList ++ rest) = (n ++ [' ']) ++ '=' :: rstripNewlines rest := by
    have front : n ++ " =".toList ++ rest = (n ++ [' ']) ++ '=' :: rest := by simp
    rw [front]
    exact rdropWhile_append_stop rfl _ _
  have plain : ∀ c ∈ n ++ [' '], c ≠ '=' := by
    intro c listed
    rcases List.mem_append.1 listed with inside | blank
    · exact (isKeyChar_solid (keys.2 c inside)).2.2.2.2
    · rw [List.mem_singleton.1 blank]
      decide
  have parsed : classifyOption ((n ++ [' ']) ++ '=' :: rstripNewlines rest) =
      .ok (.option n (firstValues (rstripNewlines rest))) := by
    rw [classifyOption, splitOption_eq plain]
    dsimp only
    rw [strip_name valid, if_pos valid]
  rw [← parsed]
  cases n with
  | nil => simp at keys
  | cons c tail =>
    obtain ⟨solid, bracket, hash, semicolon, _⟩ := isKeyChar_solid (keys.2 c List.mem_cons_self)
    exact classify_unindented opened line solid bracket hash semicolon

/-! ## Lines that continue an option -/

/-- Read as a continuation line where an option is open. -/
def ContLine (raw : Str) : Prop :=
  (continuation raw).isSome = true ∧ sectionOf (strip (rstripNewlines raw)) = none

instance (raw : Str) : Decidable (ContLine raw) := inferInstanceAs (Decidable (_ ∧ _))

/-- The text a continuation line adds. -/
def contText (raw : Str) : Str := rstrip ((continuation (rstripNewlines raw)).getD [])

theorem continuation_cases (indented : continuation raw = some rest) :
    raw = "    ".toList ++ rest ∨ raw = '\t' :: rest := by
  rw [continuation.eq_def] at indented
  split at indented
  · cases indented
    exact Or.inl rfl
  · cases indented
    exact Or.inr rfl
  · cases indented

theorem continuation_rstripNewlines (indented : continuation raw = some rest) :
    continuation (rstripNewlines raw) = some (rstripNewlines rest) ∧
      startsBlank (rstripNewlines raw) = true := by
  rcases continuation_cases indented with rfl | rfl
  · have line : rstripNewlines ("    ".toList ++ rest) = "    ".toList ++ rstripNewlines rest :=
      rdropWhile_append_stop (c := ' ') rfl [' ', ' ', ' '] rest
    rw [line]
    exact ⟨rfl, rfl⟩
  · have line : rstripNewlines ('\t' :: rest) = '\t' :: rstripNewlines rest :=
      rdropWhile_append_stop (c := '\t') rfl [] rest
    rw [line]
    exact ⟨rfl, rfl⟩

theorem ContLine.classify (name : Str) (cont : ContLine raw) :
    classify name true true raw = .ok (.cont (contText raw)) := by
  obtain ⟨rest, indented⟩ := Option.isSome_iff_exists.1 cont.1
  obtain ⟨line, blank⟩ := continuation_rstripNewlines indented
  rw [Ini.classify, contText]
  simp only [cont.2, blank, line, Bool.not_true, Bool.false_eq_true, if_false, if_true,
    Option.getD_some]

theorem continuation_append (indented : continuation s = some rest) (t : Str) :
    continuation (s ++ t) = some (rest ++ t) := by
  rcases continuation_cases indented with rfl | rfl
  · rfl
  · rfl

theorem contLine_of_classify {name text : Str}
    (accepted : classify name true true raw = .ok (.cont text)) : ContLine raw := by
  obtain ⟨_, _, noSection, rest, indented, _⟩ := classify_cont_inv accepted
  refine ⟨?_, noSection⟩
  obtain ⟨tail, whole⟩ := List.rdropWhile_prefix (fun c => c == '\r' || c == '\n') (l := raw)
  rw [← whole]
  exact Option.isSome_iff_exists.2 ⟨_, continuation_append indented tail⟩

theorem scan_conts (name : Str) (conts : ∀ raw ∈ ws, ContLine raw) :
    Scan name true true ws (ws.map fun w => .cont (contText w)) := by
  induction ws with
  | nil => trivial
  | cons w ws ih =>
    refine ⟨(conts w List.mem_cons_self).classify name, ih fun raw listed => ?_⟩
    exact conts raw (List.mem_cons_of_mem w listed)

theorem conts_of_scan {name : Str} {texts : List Str}
    (scan : Scan name true true ws (texts.map .cont)) : ∀ raw ∈ ws, ContLine raw := by
  induction ws generalizing texts with
  | nil =>
    intro raw listed
    cases listed
  | cons w ws ih =>
    cases texts with
    | nil => exact scan.elim
    | cons text texts =>
      intro raw listed
      rcases List.mem_cons.1 listed with rfl | later
      · exact contLine_of_classify scan.1
      · exact ih scan.2 raw later

/-! ## Physical lines -/

/-- Ends with a line boundary that reading leaves alone. -/
def Sealed (s : Str) : Prop := ∃ body c, s = body ++ [c] ∧ isBreak c = true ∧ c ≠ '\r'

theorem sealed_newline (s : Str) : Sealed (s ++ ['\n']) := ⟨s, '\n', rfl, by decide, by decide⟩

theorem Sealed.linesOf_append (closed : Sealed s) (t : Str) :
    linesOf (s ++ t) = linesOf s ++ linesOf t := by
  obtain ⟨body, c, rfl, boundary, plain⟩ := closed
  have ends : (body ++ [c]).getLast? ≠ some '\r' := by simpa using plain
  rw [linesOf, universalNewlines_append ends]
  refine splitLines_append ?_ _
  intro d last
  obtain ⟨body', whole⟩ := universalNewlines_concat plain body
  rw [whole] at last
  simp only [List.getLast?_append, List.getLast?_singleton, Option.some_or, Option.mem_def,
    Option.some.injEq] at last
  exact last ▸ boundary

theorem linesOf_flatten {texts : List Str} (closed : ∀ s ∈ texts, Sealed s) (last : Str) :
    linesOf (texts.flatten ++ last) = texts.flatMap linesOf ++ linesOf last := by
  induction texts with
  | nil => rfl
  | cons s texts ih =>
    rw [List.flatten_cons, List.append_assoc, (closed s List.mem_cons_self).linesOf_append,
      ih fun t listed => closed t (List.mem_cons_of_mem s listed), List.flatMap_cons,
      List.append_assoc]

theorem unbroken_plain (unbroken : Unbroken s) : '\r' ∉ s := fun listed =>
  absurd (unbroken '\r' listed) (by decide)

theorem linesOf_unbroken_append {t : Str} {lines : List Str} (unbroken : Unbroken s)
    (rest : linesOf t = line :: lines) : linesOf (s ++ t) = (s ++ line) :: lines := by
  have ends : s.getLast? ≠ some '\r' := fun last =>
    unbroken_plain unbroken (List.mem_of_getLast? last)
  rw [linesOf, universalNewlines_append ends, universalNewlines_eq (unbroken_plain unbroken)]
  exact splitLines_unbroken_append unbroken rest

theorem linesOf_line (unbroken : Unbroken s) : linesOf (s ++ ['\n']) = [s ++ ['\n']] :=
  linesOf_unbroken_append unbroken rfl

theorem linesOf_carriage (unbroken : Unbroken s) : linesOf (s ++ ['\r', '\n']) = [s ++ ['\n']] :=
  linesOf_unbroken_append unbroken rfl

theorem line_cases (listed : line ∈ linesOf file) :
    (∃ body c, line = body ++ [c] ∧ Unbroken body ∧ isBreak c = true ∧ c ≠ '\r') ∨
      (line ≠ [] ∧ Unbroken line) := by
  rcases (splitLines_wellSplit _).of_mem listed with ⟨body, c, rfl, unbroken, boundary⟩ | open_line
  · refine Or.inl ⟨body, c, rfl, unbroken, boundary, ?_⟩
    rintro rfl
    refine universalNewlines_plain file ?_
    rw [← splitLines_flatten (universalNewlines file), List.mem_flatten]
    exact ⟨_, listed, by simp⟩
  · exact Or.inr open_line

theorem linesOf_fixed (listed : line ∈ linesOf file) : linesOf line = [line] := by
  rcases line_cases listed with ⟨body, c, rfl, unbroken, boundary, plain⟩ | ⟨some, unbroken⟩
  · refine linesOf_unbroken_append unbroken ?_
    rw [linesOf, universalNewlines_eq (by simpa using Ne.symm plain), splitLines, if_pos boundary]
    rfl
  · rw [linesOf, universalNewlines_eq (unbroken_plain unbroken), splitLines_unbroken unbroken some]

theorem sealed_of_init {last : Str} {init : List Str} (lines : linesOf file = init ++ [last]) :
    ∀ line ∈ init, Sealed line := by
  intro line listed
  have split := splitLines_wellSplit (universalNewlines file)
  rw [← linesOf, lines] at split
  obtain ⟨body, c, rfl, unbroken, boundary⟩ := split.isLine line listed
  refine ⟨body, c, rfl, boundary, ?_⟩
  rintro rfl
  have inside : body ++ ['\r'] ∈ linesOf file := by
    rw [lines]
    exact List.mem_append_left _ listed
  rcases line_cases inside with ⟨body', c', same, _, _, plain⟩ | ⟨_, whole⟩
  · exact plain (List.append_inj_right' same rfl |> List.singleton_inj.1).symm
  · exact unbroken_plain whole (by simp)

theorem strip_rstripNewlines (s : Str) : strip (rstripNewlines s) = strip s := by
  induction s using List.reverseRecOn with
  | nil => rfl
  | append_singleton s c ih =>
    rw [rstripNewlines, List.rdropWhile_concat]
    split
    · rename_i newline
      rw [strip_append_space (newline_space newline)]
      exact ih
    · rfl

/-! ## The lines of a value -/

/-- The physical lines of an option that is set. -/
def pieces (n v : Str) : List Str := (render n v).flatMap linesOf

/-- The value is written behind the equals sign. -/
def OneLine (v : Str) : Prop := '\n' ∉ rstripNewlines v ∧ startsBlank (rstripNewlines v) = false

instance (v : Str) : Decidable (OneLine v) := inferInstanceAs (Decidable (_ ∧ _))

theorem render_oneLine (one : OneLine v) (n : Str) :
    render n v = [n ++ " = ".toList ++ rstripNewlines v ++ ['\n']] := if_pos one

theorem render_lines (several : ¬ OneLine v) (n : Str) :
    render n v = (n ++ " =\n".toList) ::
      ((rstripNewlines v).splitOn '\n').map fun line => "    ".toList ++ line ++ ['\n'] :=
  if_neg several

theorem linesOf_closed (s : Str) : ∃ w ws, linesOf (s ++ ['\n']) = w :: ws := by
  cases lines : linesOf (s ++ ['\n']) with
  | cons w ws => exact ⟨w, ws, rfl⟩
  | nil =>
    obtain ⟨body, whole⟩ := universalNewlines_concat (c := '\n') (by decide) s
    have flat := splitLines_flatten (universalNewlines (s ++ ['\n']))
    rw [← linesOf, lines, whole] at flat
    simp at flat

theorem pieces_oneLine (valid : validName n = true) (one : OneLine v) :
    ∃ w ws, linesOf (rstripNewlines v ++ ['\n']) = w :: ws ∧
      pieces n v = (n ++ " =".toList ++ ' ' :: w) :: ws := by
  obtain ⟨w, ws, lines⟩ := linesOf_closed (rstripNewlines v)
  refine ⟨w, ws, lines, ?_⟩
  have front : Unbroken (n ++ " = ".toList) := by
    intro c listed
    rcases List.mem_append.1 listed with inside | fixed
    · exact isKeyChar_unbroken valid c inside
    · exact (by decide +kernel : Unbroken " = ".toList) c fixed
  rw [pieces, render_oneLine one, List.flatMap_singleton, List.append_assoc (n ++ " = ".toList),
    linesOf_unbroken_append front lines]
  simp

theorem pieces_lines (valid : validName n = true) (several : ¬ OneLine v) :
    pieces n v = (n ++ " =".toList ++ ['\n']) ::
      ((rstripNewlines v).splitOn '\n').flatMap fun line =>
        linesOf ("    ".toList ++ line ++ ['\n']) := by
  have front : Unbroken (n ++ " =".toList) := by
    intro c listed
    rcases List.mem_append.1 listed with inside | fixed
    · exact isKeyChar_unbroken valid c inside
    · exact (by decide +kernel : Unbroken " =".toList) c fixed
  have head : n ++ " =\n".toList = n ++ " =".toList ++ ['\n'] := by simp
  rw [pieces, render_lines several, List.flatMap_cons, head, linesOf_line front, List.flatMap_map]
  rfl

/-- The text `get` is to return for a value that was set. -/
def normal (v : Str) : Option Str := joined (((rstripNewlines v).splitOn '\n').map rstrip)

/-- No line boundary in the line, other than a carriage return at its end. -/
def Smooth (line : Str) : Prop :=
  Unbroken line ∨ (line.getLast? = some '\r' ∧ Unbroken line.dropLast)

instance (line : Str) : Decidable (Smooth line) := inferInstanceAs (Decidable (_ ∨ _))

/-- The value has only newlines as line boundaries, and no line of it that is written on a line of
its own looks like a section header. -/
structure Legible (v : Str) : Prop where
  smooth : ∀ line ∈ (rstripNewlines v).splitOn '\n', Smooth line
  noSection : ¬ OneLine v → ∀ line ∈ (rstripNewlines v).splitOn '\n', sectionOf (strip line) = none

theorem splitOn_self (plain : '\n' ∉ s) : s.splitOn '\n' = [s] := by
  rw [List.splitOn_eq_splitOnP]
  refine List.splitOnP_eq_singleton fun c listed => ?_
  rw [beq_eq_false_iff_ne]
  rintro rfl
  exact plain listed

theorem rstripNewlines_space (s : Str) : rstripNewlines (' ' :: s) = ' ' :: rstripNewlines s :=
  rdropWhile_append_stop (c := ' ') rfl [] s

theorem rstripNewlines_newline (s : Str) :
    rstripNewlines (rstripNewlines s ++ ['\n']) = rstripNewlines s := by
  rw [rstripNewlines, List.rdropWhile_concat_pos _ _ _ (by decide)]
  exact List.rdropWhile_idempotent _ _

theorem rstripNewlines_last (last : (rstripNewlines v).getLast? = some c) :
    ¬ (c == '\r' || c == '\n') = true := by
  induction v using List.reverseRecOn with
  | nil => cases last
  | append_singleton v d ih =>
    rw [rstripNewlines, List.rdropWhile_concat] at last
    split at last
    · exact ih last
    · rename_i stays
      rw [List.getLast?_concat, Option.some.injEq] at last
      exact last ▸ stays

theorem Smooth.unbroken (smooth : Smooth (rstripNewlines v)) : Unbroken (rstripNewlines v) := by
  rcases smooth with unbroken | ⟨last, _⟩
  · exact unbroken
  · exact absurd (by decide) (rstripNewlines_last last)

theorem strip_indent (line : Str) : strip ("    ".toList ++ line) = strip line := by
  show strip (' ' :: ' ' :: ' ' :: ' ' :: line) = strip line
  rw [strip_space_cons rfl, strip_space_cons rfl, strip_space_cons rfl, strip_space_cons rfl]

theorem unbroken_indent (unbroken : Unbroken line) : Unbroken ("    ".toList ++ line) := by
  intro c listed
  rcases List.mem_append.1 listed with fixed | inside
  · exact (by decide +kernel : Unbroken "    ".toList) c fixed
  · exact unbroken c inside

theorem Smooth.piece (smooth : Smooth line) (plain : sectionOf (strip line) = none) :
    ∃ w, linesOf ("    ".toList ++ line ++ ['\n']) = [w] ∧ ContLine w ∧ contText w = rstrip line := by
  -- either way the line is a body, and what is stripped of it is stripped of the line
  have general (body : Str) (strips : strip body = strip line) (rstrips : rstrip body = rstrip line) :
      ContLine ("    ".toList ++ body ++ ['\n']) ∧
        contText ("    ".toList ++ body ++ ['\n']) = rstrip line := by
    have indented : continuation ("    ".toList ++ body ++ ['\n']) = some (body ++ ['\n']) := rfl
    refine ⟨⟨by rw [indented]; rfl, ?_⟩, ?_⟩
    · rw [strip_rstripNewlines, strip_append_space (by decide), strip_indent, strips, plain]
    · rw [contText, (continuation_rstripNewlines indented).1, Option.getD_some,
        rstrip_rstripNewlines, rstrip, List.rdropWhile_concat_pos _ _ _ (by decide)]
      exact rstrips
  rcases smooth with unbroken | ⟨last, unbroken⟩
  · exact ⟨_, linesOf_line (unbroken_indent unbroken), general line rfl rfl⟩
  · have form : line = line.dropLast ++ ['\r'] := (List.dropLast_append_getLast? _ last).symm
    refine ⟨_, ?_, general line.dropLast ?_ ?_⟩
    · rw [form, List.dropLast_concat, List.append_assoc, List.append_assoc, List.singleton_append,
        ← List.append_assoc]
      exact linesOf_carriage (unbroken_indent unbroken)
    · conv_rhs => rw [form, strip_append_space (by decide)]
    · conv_rhs => rw [form, rstrip, List.rdropWhile_concat_pos _ _ _ (by decide)]
      rfl

theorem pieces_smooth {lines : List Str} (smooth : ∀ line ∈ lines, Smooth line)
    (plain : ∀ line ∈ lines, sectionOf (strip line) = none) :
    ∃ ws, (lines.flatMap fun line => linesOf ("    ".toList ++ line ++ ['\n'])) = ws ∧
      (∀ w ∈ ws, ContLine w) ∧ ws.map contText = lines.map rstrip := by
  induction lines with
  | nil => exact ⟨[], rfl, by simp, rfl⟩
  | cons line lines ih =>
    obtain ⟨ws, flat, conts, texts⟩ := ih (fun l listed => smooth l (List.mem_cons_of_mem line listed))
      fun l listed => plain l (List.mem_cons_of_mem line listed)
    obtain ⟨w, here, cont, text⟩ := (smooth line List.mem_cons_self).piece
      (plain line List.mem_cons_self)
    refine ⟨w :: ws, ?_, ?_, ?_⟩
    · rw [List.flatMap_cons, here, flat]
      rfl
    · intro x listed
      rcases List.mem_cons.1 listed with rfl | later
      · exact cont
      · exact conts x later
    · rw [List.map_cons, List.map_cons, text, texts]

/-- The lines of an option are read as one entry when those behind the first continue it. -/
theorem scan_entry (name : Str) (valid : validName n = true) (conts : ∀ w ∈ ws, ContLine w)
    (opened : Bool) :
    Scan name true opened ((n ++ " =".toList ++ rest) :: ws)
      (block n (firstValues (rstripNewlines rest)) (ws.map contText)) := by
  refine ⟨classify_option name valid opened rest, ?_⟩
  rw [List.map_map]
  exact scan_conts name conts

theorem Legible.scan (legible : Legible v) (valid : validName n = true) (name : Str) :
    ∃ first texts, (∀ opened, Scan name true opened (pieces n v) (block n first texts)) ∧
      joined (first ++ texts) = normal v := by
  by_cases one : OneLine v
  · obtain ⟨w, ws, lines, whole⟩ := pieces_oneLine valid one
    have single := splitOn_self one.1
    have unbroken := (legible.smooth (rstripNewlines v) (by rw [single]; simp)).unbroken
    rw [linesOf_line unbroken] at lines
    cases lines
    refine ⟨firstValues (rstripNewlines (' ' :: (rstripNewlines v ++ ['\n']))), [], ?_, ?_⟩
    · rw [whole]
      exact scan_entry name valid (by simp)
    · rw [rstripNewlines_space, rstripNewlines_newline, normal, single, firstValues]
      by_cases empty : rstripNewlines v = []
      · simp [empty, joined, rstrip]
      · simp [empty]
  · obtain ⟨ws, flat, conts, texts⟩ := pieces_smooth legible.smooth (legible.noSection one)
    refine ⟨firstValues (rstripNewlines ['\n']), ws.map contText, ?_, ?_⟩
    · rw [pieces_lines valid one, flat]
      exact scan_entry name valid conts
    · rw [texts, normal]
      rfl

end Collei.Ini

import Mathlib

/-!
# Text as a list of characters

The string operations of a Python program that works line by line: white space and line
boundaries as `str` knows them, stripping, universal newlines on reading, and splitting into
lines that keep their ends. A list of lines that was split stays the same when it is joined and
split again, and splitting distributes over a text that ends with a line boundary.
-/

namespace Text

abbrev Str := List Char

instance : LawfulBEq Str := inferInstance

/-- `str.isspace` on one character. -/
def isSpace (c : Char) : Bool :=
  let n := c.toNat
  (decide (9 ≤ n) && decide (n ≤ 13)) || (decide (28 ≤ n) && decide (n ≤ 32)) || n == 133 ||
    n == 160 || n == 5760 || (decide (8192 ≤ n) && decide (n ≤ 8202)) || n == 8232 || n == 8233 ||
    n == 8239 || n == 8287 || n == 12288

/-- The characters at which `str.splitlines` ends a line. -/
def isBreak (c : Char) : Bool :=
  let n := c.toNat
  (decide (10 ≤ n) && decide (n ≤ 13)) || (decide (28 ≤ n) && decide (n ≤ 30)) || n == 133 ||
    n == 8232 || n == 8233

variable {c : Char} {s line : Str} {lines : List Str}

theorem isSpace_of_isBreak (boundary : isBreak c = true) : isSpace c = true := by
  simp only [isBreak, isSpace, Bool.or_eq_true, Bool.and_eq_true, decide_eq_true_eq,
    beq_iff_eq] at *
  omega

def rstrip (s : Str) : Str := s.rdropWhile isSpace

def lstrip (s : Str) : Str := s.dropWhile isSpace

def strip (s : Str) : Str := rstrip (lstrip s)

/-- Reading in text mode: a carriage return, alone or before a newline, becomes a newline. -/
def universalNewlines : Str → Str
  | [] => []
  | '\r' :: '\n' :: rest => '\n' :: universalNewlines rest
  | c :: rest => (if c = '\r' then '\n' else c) :: universalNewlines rest

/-- `str.splitlines(keepends=True)` of a text without carriage returns. -/
def splitLines : Str → List Str
  | [] => []
  | c :: rest =>
    if isBreak c then [c] :: splitLines rest
    else match splitLines rest with
      | [] => [[c]]
      | line :: lines => (c :: line) :: lines

/-- No line boundary in the text. -/
def Unbroken (s : Str) : Prop := ∀ c ∈ s, isBreak c = false

instance (s : Str) : Decidable (Unbroken s) :=
  decidable_of_iff (s.all (fun c => !isBreak c) = true) (by simp [Unbroken])

/-- A line with its end. -/
def IsLine (line : Str) : Prop :=
  ∃ body stop, line = body ++ [stop] ∧ Unbroken body ∧ isBreak stop = true

/-- What a text splits into: whole lines, of which the last may lack its end. -/
def WellSplit : List Str → Prop
  | [] => True
  | [line] => IsLine line ∨ (line ≠ [] ∧ Unbroken line)
  | line :: next :: rest => IsLine line ∧ WellSplit (next :: rest)

/-! ## Stripping -/

/-- Stripping on the right stops at the first character that stays. -/
theorem rdropWhile_append_stop {p : Char → Bool} (stays : p c = false) (s t : Str) :
    (s ++ c :: t).rdropWhile p = s ++ c :: t.rdropWhile p := by
  induction t using List.reverseRecOn with
  | nil => simp [List.rdropWhile_concat, stays]
  | append_singleton t d ih =>
    have front : s ++ c :: (t ++ [d]) = (s ++ c :: t) ++ [d] := by simp
    rw [front, List.rdropWhile_concat, List.rdropWhile_concat]
    split
    · exact ih
    · simp

theorem rdropWhile_rdropWhile {p q : Char → Bool} (weaker : ∀ c, p c = true → q c = true) (s : Str) :
    (s.rdropWhile p).rdropWhile q = s.rdropWhile q := by
  induction s using List.reverseRecOn with
  | nil => rfl
  | append_singleton s d ih =>
    rw [List.rdropWhile_concat, List.rdropWhile_concat]
    by_cases drops : p d = true
    · rw [if_pos drops, if_pos (weaker d drops), ih]
    · rw [if_neg drops, List.rdropWhile_concat]

theorem strip_cons (solid : isSpace c = false) (s : Str) : strip (c :: s) = c :: rstrip s := by
  rw [strip, lstrip, List.dropWhile_cons_of_neg (by simp [solid])]
  exact rdropWhile_append_stop solid [] s

theorem strip_space_cons (blank : isSpace c = true) (s : Str) : strip (c :: s) = strip s := by
  rw [strip, lstrip, List.dropWhile_cons_of_pos blank, strip, lstrip]

theorem strip_append_space (blank : isSpace c = true) (s : Str) : strip (s ++ [c]) = strip s := by
  induction s with
  | nil => exact strip_space_cons blank []
  | cons d s ih =>
    by_cases front : isSpace d = true
    · rw [List.cons_append, strip_space_cons front, ih, strip_space_cons front]
    · rw [Bool.not_eq_true] at front
      rw [List.cons_append, strip_cons front, strip_cons front, rstrip, rstrip,
        List.rdropWhile_concat_pos _ _ _ blank]

theorem strip_rstrip (s : Str) : strip (rstrip s) = strip s := by
  induction s using List.reverseRecOn with
  | nil => rfl
  | append_singleton s c ih =>
    rw [rstrip, List.rdropWhile_concat]
    split
    · rename_i blank
      rw [strip_append_space blank]
      exact ih
    · rfl

theorem strip_eq_nil : strip s = [] ↔ ∀ c ∈ s, isSpace c = true := by
  induction s with
  | nil => simp [strip, lstrip, rstrip]
  | cons c s ih =>
    by_cases blank : isSpace c = true
    · rw [strip_space_cons blank, ih]
      simp [blank]
    · rw [strip_cons (by simpa using blank)]
      simp [blank]

theorem strip_blank_append (blank : strip s = []) (t : Str) : strip (s ++ t) = strip t := by
  rw [strip_eq_nil] at blank
  induction s with
  | nil => rfl
  | cons c s ih =>
    rw [List.cons_append, strip_space_cons (blank c List.mem_cons_self)]
    exact ih fun d listed => blank d (List.mem_cons_of_mem c listed)

/-! ## Splitting -/

theorem splitLines_line {body : Str} (unbroken : Unbroken body) {stop : Char}
    (boundary : isBreak stop = true) (rest : Str) :
    splitLines (body ++ stop :: rest) = (body ++ [stop]) :: splitLines rest := by
  induction body with
  | nil => simp [splitLines, boundary]
  | cons c body ih =>
    have inner : isBreak c = false := unbroken c List.mem_cons_self
    have later := ih fun d listed => unbroken d (List.mem_cons_of_mem c listed)
    rw [List.cons_append, splitLines, if_neg (by simp [inner]), later]
    rfl

theorem IsLine.splitLines_append (isLine : IsLine line) (rest : Str) :
    splitLines (line ++ rest) = line :: splitLines rest := by
  obtain ⟨body, stop, rfl, unbroken, boundary⟩ := isLine
  rw [List.append_assoc]
  exact splitLines_line unbroken boundary rest

theorem splitLines_unbroken (unbroken : Unbroken s) (some : s ≠ []) : splitLines s = [s] := by
  induction s with
  | nil => exact absurd rfl some
  | cons c rest ih =>
    have inner : isBreak c = false := unbroken c List.mem_cons_self
    rw [splitLines, if_neg (by simp [inner])]
    cases rest with
    | nil => rfl
    | cons d rest =>
      rw [ih (fun e listed => unbroken e (List.mem_cons_of_mem c listed)) (by simp)]

theorem splitLines_unbroken_append {t : Str} (unbroken : Unbroken s)
    (rest : splitLines t = line :: lines) : splitLines (s ++ t) = (s ++ line) :: lines := by
  induction s with
  | nil => exact rest
  | cons c s ih =>
    have inner : isBreak c = false := unbroken c List.mem_cons_self
    have later := ih fun d listed => unbroken d (List.mem_cons_of_mem c listed)
    rw [List.cons_append, splitLines, if_neg (by simp [inner]), later]
    rfl

theorem splitLines_flatten (s : Str) : (splitLines s).flatten = s := by
  induction s with
  | nil => rfl
  | cons c rest ih =>
    rw [splitLines]
    split
    · rw [List.flatten_cons, ih]
      rfl
    · cases split : splitLines rest with
      | nil =>
        rw [split] at ih
        simp only [List.flatten_nil] at ih
        rw [← ih]
        rfl
      | cons line lines =>
        rw [split] at ih
        rw [← ih]
        rfl

theorem WellSplit.cons (isLine : IsLine line) (later : WellSplit lines) :
    WellSplit (line :: lines) := by
  cases lines with
  | nil => exact Or.inl isLine
  | cons next rest => exact ⟨isLine, later⟩

theorem splitLines_wellSplit (s : Str) : WellSplit (splitLines s) := by
  induction s with
  | nil => trivial
  | cons c rest ih =>
    rw [splitLines]
    split
    · rename_i boundary
      exact WellSplit.cons ⟨[], c, rfl, by simp [Unbroken], boundary⟩ ih
    · rename_i inner
      rw [Bool.not_eq_true] at inner
      cases lines : splitLines rest with
      | nil => exact Or.inr ⟨by simp, by simpa [Unbroken] using inner⟩
      | cons line more =>
        rw [lines] at ih
        have longer (isLine : IsLine line) : IsLine (c :: line) := by
          obtain ⟨body, stop, rfl, unbroken, boundary⟩ := isLine
          refine ⟨c :: body, stop, rfl, fun d listed => ?_, boundary⟩
          rcases List.mem_cons.1 listed with rfl | old
          · exact inner
          · exact unbroken d old
        cases more with
        | nil =>
          rcases ih with isLine | ⟨_, unbroken⟩
          · exact Or.inl (longer isLine)
          · refine Or.inr ⟨by simp, fun d listed => ?_⟩
            rcases List.mem_cons.1 listed with rfl | old
            · exact inner
            · exact unbroken d old
        | cons next rest => exact ⟨longer ih.1, ih.2⟩

theorem WellSplit.of_mem (split : WellSplit lines) (listed : line ∈ lines) :
    IsLine line ∨ (line ≠ [] ∧ Unbroken line) := by
  induction lines with
  | nil => cases listed
  | cons first rest ih =>
    cases rest with
    | nil =>
      rw [List.mem_singleton.1 listed]
      exact split
    | cons next rest =>
      rcases List.mem_cons.1 listed with rfl | later
      · exact Or.inl split.1
      · exact ih split.2 later

/-- Only the last line may lack its end. -/
theorem WellSplit.isLine {init : List Str} {last : Str} (split : WellSplit (init ++ [last])) :
    ∀ line ∈ init, IsLine line := by
  induction init with
  | nil =>
    intro line listed
    cases listed
  | cons first init ih =>
    have step : IsLine first ∧ WellSplit (init ++ [last]) := by
      cases init with
      | nil => exact split
      | cons next init => exact split
    intro line listed
    rcases List.mem_cons.1 listed with rfl | later
    · exact step.1
    · exact ih step.2 line later

/-- Lines left out leave lines. -/
theorem WellSplit.sublist {fewer : List Str} (split : WellSplit lines)
    (part : fewer.Sublist lines) : WellSplit fewer := by
  induction part with
  | slnil => trivial
  | @cons fewer lines line part ih =>
    cases lines with
    | nil =>
      rw [List.sublist_nil.1 part]
      trivial
    | cons next rest => exact ih split.2
  | @cons_cons fewer lines line part ih =>
    cases lines with
    | nil =>
      rw [List.sublist_nil.1 part]
      exact split
    | cons next rest => exact WellSplit.cons split.1 (ih split.2)

/-- Joining and splitting again gives the lines back. -/
theorem WellSplit.splitLines_flatten (split : WellSplit lines) :
    splitLines lines.flatten = lines := by
  induction lines with
  | nil => rfl
  | cons line rest ih =>
    cases rest with
    | nil =>
      rcases split with isLine | ⟨some, unbroken⟩
      · simpa [splitLines] using isLine.splitLines_append []
      · simpa using splitLines_unbroken unbroken some
    | cons next rest =>
      rw [List.flatten_cons, split.1.splitLines_append, ih split.2]

/-- A text that ends with a line boundary, or is empty. -/
def Terminated (s : Str) : Prop := ∀ c ∈ s.getLast?, isBreak c = true

theorem splitLines_append (terminated : Terminated s) (t : Str) :
    splitLines (s ++ t) = splitLines s ++ splitLines t := by
  induction s with
  | nil => rfl
  | cons c rest ih =>
    have later : Terminated rest := by
      intro d last
      cases rest with
      | nil => cases last
      | cons e rest => exact terminated d (by rwa [List.getLast?_cons_cons])
    rw [List.cons_append, splitLines, ih later]
    conv_rhs => rw [splitLines]
    split
    · rfl
    · rename_i inner
      cases lines : splitLines rest with
      | cons line more => rfl
      | nil =>
        -- the single character would be the last one, and it is no boundary
        have empty : rest = [] := by
          rw [← Text.splitLines_flatten rest, lines]
          rfl
        subst empty
        exact absurd (terminated c rfl) inner

/-- A piece of a text that was split holds characters of the text, and not the separator. -/
theorem mem_of_mem_splitOn {d : Char} (listed : line ∈ s.splitOn d) (inside : c ∈ line) :
    c ∈ s ∧ c ≠ d := by
  rw [List.splitOn_eq_splitOnP] at listed
  induction s generalizing line with
  | nil =>
    rw [List.splitOnP_nil, List.mem_singleton] at listed
    rw [listed] at inside
    cases inside
  | cons e s ih =>
    rw [List.splitOnP_cons_eq_if_modifyHead] at listed
    split at listed
    · rcases List.mem_cons.1 listed with rfl | later
      · cases inside
      · exact ⟨List.mem_cons_of_mem e (ih later inside).1, (ih later inside).2⟩
    · rename_i other
      cases parts : s.splitOnP (· == d) with
      | nil =>
        rw [parts] at listed
        cases listed
      | cons first rest =>
        rw [parts, List.modifyHead_cons] at listed
        rcases List.mem_cons.1 listed with rfl | later
        · rcases List.mem_cons.1 inside with rfl | deeper
          · exact ⟨List.mem_cons_self, by simpa using other⟩
          · have old := ih (by rw [parts]; exact List.mem_cons_self) deeper
            exact ⟨List.mem_cons_of_mem e old.1, old.2⟩
        · have old := ih (by rw [parts]; exact List.mem_cons_of_mem first later) inside
          exact ⟨List.mem_cons_of_mem e old.1, old.2⟩

/-! ## Universal newlines -/

theorem universalNewlines_eq (plain : '\r' ∉ s) : universalNewlines s = s := by
  induction s with
  | nil => rfl
  | cons c rest ih =>
    rw [List.mem_cons, not_or] at plain
    have other : c ≠ '\r' := fun same => plain.1 same.symm
    rw [universalNewlines, if_neg other, ih plain.2]
    intro _ same
    exact absurd same other

theorem universalNewlines_plain (s : Str) : '\r' ∉ universalNewlines s := by
  induction s using universalNewlines.induct with
  | case1 => simp [universalNewlines]
  | case2 rest ih => simpa [universalNewlines] using ih
  | case3 c rest other ih =>
    rw [universalNewlines]
    · rw [List.mem_cons, not_or]
      refine ⟨?_, ih⟩
      split
      · decide
      · rename_i different
        exact fun same => different same.symm
    · exact other

/-- Reading distributes over a text that does not end in a carriage return. -/
theorem universalNewlines_append (plain : s.getLast? ≠ some '\r') (t : Str) :
    universalNewlines (s ++ t) = universalNewlines s ++ universalNewlines t := by
  induction s using universalNewlines.induct with
  | case1 => rfl
  | case2 rest ih =>
    have later : rest.getLast? ≠ some '\r' := by
      intro last
      cases rest with
      | nil => cases last
      | cons d rest => exact plain (by rwa [List.getLast?_cons_cons, List.getLast?_cons_cons])
    simp [universalNewlines, ih later]
  | case3 c rest other ih =>
    have later : rest.getLast? ≠ some '\r' := by
      intro last
      cases rest with
      | nil => cases last
      | cons d rest => exact plain (by rwa [List.getLast?_cons_cons])
    rw [universalNewlines.eq_3 c rest other, List.cons_append, universalNewlines, ih later]
    · rfl
    · intro more same start
      cases rest with
      | nil => exact plain (by rw [same]; rfl)
      | cons d rest =>
        rw [List.cons_append, List.cons.injEq] at start
        exact other rest same (by rw [start.1])

theorem universalNewlines_concat (plain : c ≠ '\r') (s : Str) :
    ∃ body, universalNewlines (s ++ [c]) = body ++ [c] := by
  induction s using universalNewlines.induct with
  | case1 =>
    refine ⟨[], ?_⟩
    rw [List.nil_append, universalNewlines_eq (by simpa using Ne.symm plain)]
  | case2 rest ih =>
    obtain ⟨body, whole⟩ := ih
    exact ⟨'\n' :: body, by simp [universalNewlines, whole]⟩
  | case3 d rest other ih =>
    obtain ⟨body, whole⟩ := ih
    by_cases pair : d = '\r' ∧ rest = [] ∧ c = '\n'
    · obtain ⟨rfl, rfl, rfl⟩ := pair
      exact ⟨[], rfl⟩
    · refine ⟨(if d = '\r' then '\n' else d) :: body, ?_⟩
      rw [List.cons_append, universalNewlines, whole]
      · rfl
      · intro more same start
        cases rest with
        | nil =>
          rw [List.nil_append, List.cons.injEq] at start
          exact pair ⟨same, rfl, start.1⟩
        | cons e rest =>
          rw [List.cons_append, List.cons.injEq] at start
          exact other rest same (by rw [start.1])

end Text

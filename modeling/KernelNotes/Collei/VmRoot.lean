import KernelNotes.Collei.IniReadBack

/-!
# Two readers of one configuration

The balloon daemon looks for the option `vm` of `config.ini` with a loop of its own, `collei_vm_root`,
which takes the lines one by one and knows nothing of continuation lines. Here it is compared with
`IniConfig` on every text that `IniConfig` accepts and whose lines and blanks are the same for Python
and for Rust.

A path is compared before `~` is expanded in it.
-/

namespace Collei.VmRoot

open Text Ini

/-! ## `collei_vm_root` -/

/-- `char::is_whitespace`. -/
def isWhitespace (c : Char) : Bool :=
  let n := c.toNat
  (decide (9 ≤ n) && decide (n ≤ 13)) || n == 32 || n == 133 || n == 160 || n == 5760 ||
    (decide (8192 ≤ n) && decide (n ≤ 8202)) || n == 8232 || n == 8233 || n == 8239 || n == 8287 || n == 12288

/-- `str::trim`. -/
def trim (s : Str) : Str := (s.dropWhile isWhitespace).rdropWhile isWhitespace

/-- `str::lines`: the lines, without a newline at the end or a carriage return and a newline. -/
def lines : Str → List Str
  | [] => []
  | '\r' :: '\n' :: rest => [] :: lines rest
  | '\n' :: rest => [] :: lines rest
  | c :: rest =>
    match lines rest with
    | [] => [[c]]
    | line :: more => (c :: line) :: more

/-- The two messages of `bail!`. -/
inductive RootError where
  | emptyPath
  | missing
  deriving DecidableEq, Repr

/-- The line goes on with a value of `in_collei`, or returns. -/
inductive Verdict where
  | goOn (inCollei : Bool)
  | done (root : Except RootError Str)
  deriving DecidableEq

def bracketed (line : Str) : Bool := line.head? == some '[' && line.getLast? == some ']'

def header : Str := "[collei]".toList

def collei : Str := "collei".toList

def vm : Str := "vm".toList

def rooted (path : Str) : Except RootError Str := if path = [] then .error .emptyPath else .ok path

/-- The body of the loop, on a line that is trimmed. -/
def judge (inCollei : Bool) (line : Str) : Verdict :=
  if bracketed line then .goOn (line == header)
  else if !inCollei || line.isEmpty || isComment line then .goOn inCollei
  else
    match splitOption line with
    | none => .goOn inCollei
    | some (key, value) => if trim key = vm then .done (rooted (trim value)) else .goOn inCollei

def rootFrom : Bool → List Str → Except RootError Str
  | _, [] => .error .missing
  | inCollei, raw :: rest =>
    match judge inCollei (trim raw) with
    | .goOn next => rootFrom next rest
    | .done root => root

/-- `collei_vm_root`, on the text of the file. -/
def colleiVmRoot (content : Str) : Except RootError Str := rootFrom false (lines content)

/-! ## Lines and blanks -/

/-- Both languages see the same lines and blanks: every carriage return stands before a newline, and there
is no other line boundary and no unit separator. -/
def plainText : Str → Bool
  | [] => true
  | '\r' :: '\n' :: rest => plainText rest
  | c :: rest => (c == '\n' || !isBreak c) && c.toNat != 31 && plainText rest

/-- The languages agree on the blanks of the text. -/
def SameBlanks (s : Str) : Prop := ∀ c ∈ s, isWhitespace c = isSpace c

variable {c : Char} {line raw name v : Str} {found opened : Bool} {raws values : List Str}
  {evs : List Event}

theorem isWhitespace_eq (unbroken : isBreak c = false) (other : (c.toNat != 31) = true) :
    isWhitespace c = isSpace c := by
  rw [Bool.eq_iff_iff]
  simp only [isBreak, isWhitespace, isSpace, Bool.or_eq_true, Bool.and_eq_true, decide_eq_true_eq, beq_iff_eq,
    Bool.or_eq_false_iff, Bool.and_eq_false_iff, decide_eq_false_iff_not, beq_eq_false_iff_ne, bne_iff_ne] at *
  omega

theorem dropWhile_congr {p q : Char → Bool} {s : Str} (same : ∀ c ∈ s, p c = q c) :
    s.dropWhile p = s.dropWhile q := by
  induction s with
  | nil => rfl
  | cons c s ih =>
    rw [List.dropWhile_cons, List.dropWhile_cons, same c List.mem_cons_self,
      ih fun d listed => same d (List.mem_cons_of_mem c listed)]

theorem trim_eq {s : Str} (same : SameBlanks s) : trim s = strip s := by
  have front : s.dropWhile isWhitespace = s.dropWhile isSpace := dropWhile_congr same
  have back : ∀ c ∈ (s.dropWhile isSpace).reverse, isWhitespace c = isSpace c :=
    fun c listed => same c ((List.dropWhile_sublist _).subset (List.mem_reverse.mp listed))
  rw [trim, front, strip, rstrip, lstrip, List.rdropWhile, List.rdropWhile, dropWhile_congr back]

/-- A line of Rust is a line of Python, up to the newline. -/
structure SameLine (line raw : Str) : Prop where
  text : raw = line ∨ raw = line ++ ['\n']
  blanks : SameBlanks line

theorem SameLine.trim (same : SameLine line raw) : VmRoot.trim line = strip raw := by
  rw [trim_eq same.blanks]
  rcases same.text with rfl | rfl
  · rfl
  · rw [strip_append_space rfl]

theorem sameLine_nil : SameLine [] ['\n'] := ⟨.inr rfl, nofun⟩

theorem lines_cons {rest : Str} (notReturn : ∀ tail, c = '\r' → rest = '\n' :: tail → False)
    (notNewline : c = '\n' → False) : lines (c :: rest) =
      match lines rest with
      | [] => [[c]]
      | line :: more => (c :: line) :: more := by
  rw [lines]
  · exact notReturn
  · exact notNewline

theorem plain_cons {rest : Str} (notReturn : ∀ tail, c = '\r' → rest = '\n' :: tail → False)
    (notNewline : c = '\n' → False) (plain : plainText (c :: rest) = true) :
    ((isBreak c = false ∧ (c.toNat != 31) = true) ∧ plainText rest = true) ∧
      universalNewlines (c :: rest) = c :: universalNewlines rest := by
  rw [plainText, Bool.and_eq_true, Bool.and_eq_true] at plain
  · obtain ⟨⟨fine, other⟩, later⟩ := plain
    have unbroken : isBreak c = false := by
      rcases Bool.or_eq_true_iff.mp fine with newline | whole
      · exact absurd (beq_iff_eq.mp newline) notNewline
      · simpa using whole
    refine ⟨⟨⟨unbroken, other⟩, later⟩, ?_⟩
    rw [universalNewlines, if_neg]
    · rintro rfl
      exact absurd unbroken (by decide)
    · exact notReturn
  · exact notReturn

theorem lines_linesOf {file : Str} (plain : plainText file = true) :
    List.Forall₂ SameLine (lines file) (linesOf file) := by
  rw [linesOf]
  induction file using lines.induct with
  | case1 => exact .nil
  | case2 rest ih =>
    rw [plainText] at plain
    rw [lines, universalNewlines, splitLines, if_pos (by decide)]
    exact .cons sameLine_nil (ih plain)
  | case3 rest ih =>
    have later : plainText rest = true := by simpa [plainText] using plain
    have front : universalNewlines ('\n' :: rest) = '\n' :: universalNewlines rest := by simp [universalNewlines]
    rw [lines, front, splitLines, if_pos (by decide)]
    exact .cons sameLine_nil (ih later)
  | case4 c rest notReturn notNewline empty ih =>
    obtain ⟨⟨⟨unbroken, other⟩, later⟩, front⟩ := plain_cons notReturn notNewline plain
    rw [empty] at ih
    have none_ := List.forall₂_nil_left_iff.mp (ih later)
    rw [lines_cons notReturn notNewline, empty, front, splitLines, if_neg (by simp [unbroken]), none_]
    refine .cons ⟨.inl rfl, fun d listed => ?_⟩ .nil
    rw [List.mem_singleton.mp listed]
    exact isWhitespace_eq unbroken other
  | case5 c rest notReturn notNewline line more found ih =>
    obtain ⟨⟨⟨unbroken, other⟩, later⟩, front⟩ := plain_cons notReturn notNewline plain
    rw [found] at ih
    obtain ⟨raw, raws, same, rest_, split⟩ := List.forall₂_cons_left_iff.mp (ih later)
    rw [lines_cons notReturn notNewline, found, front, splitLines, if_neg (by simp [unbroken]), split]
    refine .cons ⟨?_, fun d listed => ?_⟩ rest_
    · rcases same.text with rfl | rfl
      · exact .inl rfl
      · exact .inr rfl
    · rcases List.mem_cons.mp listed with rfl | inside
      · exact isWhitespace_eq unbroken other
      · exact same.blanks d inside

/-! ## What a line says -/

/-- The path of a line that reads like the option `vm`. -/
def vmPath (line : Str) : Option Str :=
  match splitOption line with
  | none => none
  | some (key, value) => if strip key = vm then some (strip value) else none

theorem splitOption_key {key value : Str} (split : splitOption line = some (key, value)) :
    key = line.takeWhile (· != '=') := by
  rw [splitOption] at split
  split at split
  · cases split
  · cases split
    rfl

theorem vmPath_comment (comment : isComment line = true) : vmPath line = none := by
  rw [vmPath]
  split
  · rfl
  · rename_i key value split
    refine if_neg fun same => ?_
    match line with
    | [] => cases comment
    | c :: rest =>
      have mark : c = '#' ∨ c = ';' := by simpa [isComment] using comment
      have front : key = c :: rest.takeWhile (· != '=') := by
        rw [splitOption_key split, List.takeWhile_cons_of_pos]
        rcases mark with rfl | rfl
        · rfl
        · rfl
      have solid : isSpace c = false := by
        rcases mark with rfl | rfl
        · rfl
        · rfl
      rw [front, strip_cons solid, vm] at same
      have first : c = 'v' := (List.cons.inj same).1
      rcases mark with rfl | rfl
      · exact absurd first (by decide)
      · exact absurd first (by decide)

theorem judge_true (same : SameBlanks line) : judge true line =
    if bracketed line then .goOn (line == header)
    else match vmPath line with
      | none => .goOn true
      | some path => .done (rooted path) := by
  rw [judge]
  by_cases bracket : bracketed line = true
  · rw [if_pos bracket, if_pos bracket]
  rw [if_neg bracket, if_neg bracket, Bool.not_true, Bool.false_or]
  by_cases idle : (line.isEmpty || isComment line) = true
  · rw [if_pos idle]
    rcases Bool.or_eq_true_iff.mp idle with empty | comment
    · rw [List.isEmpty_iff.mp empty]
      rfl
    · rw [vmPath_comment comment]
  · rw [if_neg idle, vmPath]
    cases split : splitOption line with
    | none => rfl
    | some parts =>
      obtain ⟨key, value⟩ := parts
      have left : SameBlanks key := fun c listed =>
        same c ((List.takeWhile_sublist _).subset (splitOption_key split ▸ listed))
      have right : SameBlanks value := fun c listed => same c ((splitOption_suffix split).subset listed)
      dsimp only
      rw [trim_eq left, trim_eq right]
      split
      · rfl
      · rfl

theorem judge_false (line : Str) : judge false line = .goOn (bracketed line && line == header) := by
  rw [judge]
  by_cases bracket : bracketed line = true
  · rw [if_pos bracket, bracket, Bool.true_and]
  · rw [if_neg bracket, Bool.not_false, Bool.true_or, Bool.true_or, if_pos rfl, Bool.eq_false_of_not_eq_true bracket,
      Bool.false_and]

theorem idle_harmless (idle : isIdle line = true) :
    bracketed line = false ∧ vmPath line = none := by
  match line with
  | [] => exact ⟨rfl, rfl⟩
  | c :: rest =>
    have comment : isComment (c :: rest) = true := by simpa [isIdle] using idle
    have mark : c = '#' ∨ c = ';' := by simpa [isComment] using comment
    refine ⟨?_, vmPath_comment comment⟩
    rcases mark with rfl | rfl
    · rfl
    · rfl

theorem splitOption_some {before first : Str} (split : splitOption line = some (before, first)) :
    line = before ++ '=' :: first ∧ ∀ c ∈ before, c ≠ '=' := by
  rw [splitOption] at split
  split at split
  · cases split
  rename_i c rest back
  cases split
  have equals : c = '=' := by
    have stop := List.head_dropWhile_not (fun c => c != '=') (by rw [back]; exact List.cons_ne_nil _ _)
    simpa [back] using stop
  subst equals
  refine ⟨?_, fun d listed => ?_⟩
  · rw [← back, List.takeWhile_append_dropWhile]
  · simpa using List.mem_takeWhile_imp listed

theorem strip_firstValues (rest : Str) : strip ((firstValues rest).headD []) = strip rest := by
  have trimmed : strip (if rest.head? = some ' ' then rest.tail else rest) = strip rest := by
    split
    · rename_i blank
      match rest with
      | [] => rfl
      | c :: tail =>
        obtain rfl : c = ' ' := by simpa using blank
        exact (strip_space_cons rfl tail).symm
    · rfl
  rw [firstValues]
  generalize (if rest.head? = some ' ' then rest.tail else rest) = text at trimmed ⊢
  split
  · rename_i empty
    rw [← trimmed, empty]
    rfl
  · rw [← trimmed]
    exact strip_rstrip text

theorem option_reads {n : Str} {first : List Str} (line : OptionLine raw n first) :
    bracketed (strip raw) = false ∧
      vmPath (strip raw) = if n = vm then some (strip (first.headD [])) else none := by
  have parsed := line.parsed
  rw [classifyOption] at parsed
  split at parsed
  · cases parsed
  rename_i before rest split
  split at parsed
  swap
  · cases parsed
  rename_i valid
  cases parsed
  obtain ⟨whole, plain⟩ := splitOption_some split
  cases before with
  | nil => cases valid
  | cons c tail =>
    have solid : isSpace c = false := by
      have unindented := line.unindented
      rw [whole] at unindented
      exact unindented
    have stripped : strip raw = (c :: tail) ++ '=' :: rstrip rest := by
      rw [← strip_rstripNewlines, whole, List.cons_append, strip_cons solid]
      exact congrArg (c :: ·) (rdropWhile_append_stop rfl tail rest)
    have key : isKeyChar c = true := by
      rw [strip_cons solid, validName, Bool.and_eq_true, List.all_eq_true] at valid
      exact valid.2 c List.mem_cons_self
    constructor
    · rw [stripped, bracketed]
      simp [(isKeyChar_solid key).2.1]
    · rw [stripped, vmPath, splitOption_eq plain]
      dsimp only
      rw [strip_rstrip, strip_firstValues]

theorem cont_reads {text : Str} (accepted : classify name found opened raw = .ok (.cont text)) :
    strip raw = strip text := by
  obtain ⟨-, -, -, rest, indented, rfl⟩ := classify_cont_inv accepted
  rw [← strip_rstripNewlines, strip_rstrip]
  rcases continuation_cases indented with line | line
  · rw [line, strip_indent]
  · rw [line, strip_space_cons rfl]

theorem not_header_of_noSection (noSection : sectionOf (strip (rstripNewlines raw)) = none) :
    (strip raw == header) = false := by
  rw [beq_eq_false_iff_ne]
  intro isHeader
  rw [strip_rstripNewlines, isHeader] at noSection
  cases noSection

theorem classify_free_inv (accepted : classify name found opened raw = .ok .free) :
    isIdle (strip raw) = true := by
  rw [← strip_rstripNewlines]
  rcases classify_inv accepted with ⟨other, _⟩ | ⟨_, idle⟩ | ⟨_, _, _, _, _, other⟩ | ⟨_, _, _, other, _⟩
  · cases other
  · exact idle
  · cases other
  · cases other

theorem classify_header_inv (accepted : classify name found opened raw = .ok .header) :
    found = false ∧ sectionOf (strip raw) = some name := by
  rcases classify_inv accepted with ⟨_, first, isSection⟩ | ⟨other, _⟩ | ⟨_, _, _, _, _, other⟩ | ⟨_, _, _, other, _⟩
  · refine ⟨first, ?_⟩
    rw [strip_rstripNewlines] at isSection
    obtain ⟨found', here⟩ := Option.isSome_iff_exists.mp isSection
    rw [classify, strip_rstripNewlines, here] at accepted
    dsimp only at accepted
    split at accepted
    · cases accepted
    · rename_i same
      rw [first, Bool.false_or, bne_iff_ne, not_not] at same
      rw [here, same]
  · cases other
  · cases other
  · cases other

theorem not_header {ev : Event} (accepted : classify name true opened raw = .ok ev) :
    (strip raw == header) = false := by
  rcases classify_inv accepted with ⟨-, first, -⟩ | ⟨-, idle⟩ | ⟨-, -, noSection, -⟩ | ⟨-, n, first, -, line⟩
  · cases first
  · rw [beq_eq_false_iff_ne]
    intro isHeader
    rw [strip_rstripNewlines, isHeader] at idle
    cases idle
  · exact not_header_of_noSection noSection
  · exact not_header_of_noSection line.noSection

/-! ## The loop on an accepted text -/

theorem rootFrom_cons (same : SameLine line raw) (rest : List Str) :
    rootFrom true (line :: rest) =
      if bracketed (strip raw) then rootFrom (strip raw == header) rest
      else match vmPath (strip raw) with
        | none => rootFrom true rest
        | some path => rooted path := by
  have blanks : SameBlanks (strip raw) := by
    rw [← same.trim, trim]
    intro c listed
    exact same.blanks c ((List.dropWhile_sublist _).subset ((List.rdropWhile_prefix _ _).subset listed))
  rw [rootFrom, same.trim, judge_true blanks]
  by_cases bracket : bracketed (strip raw) = true
  · rw [if_pos bracket, if_pos bracket]
  · rw [if_neg bracket, if_neg bracket]
    cases vmPath (strip raw) with
    | none => rfl
    | some path => rfl

theorem rootFrom_false : ∀ {ls : List Str} {evs : List Event} {opened : Bool},
    Scan name true opened raws evs → List.Forall₂ SameLine ls raws → rootFrom false ls = .error .missing := by
  induction raws with
  | nil =>
    intro ls evs opened _ same
    rw [List.forall₂_nil_right_iff.mp same]
    rfl
  | cons raw raws ih =>
    intro ls evs opened scan same
    obtain ⟨line, more, here, rest, rfl⟩ := List.forall₂_cons_right_iff.mp same
    match evs with
    | [] => exact scan.elim
    | ev :: evs =>
      obtain ⟨accepted, later⟩ := scan
      rw [rootFrom, here.trim, judge_false, not_header accepted, Bool.and_false]
      exact ih later rest

/-- What the loop returns, by the events of the section. -/
def rootOf : List Event → Except RootError Str
  | [] => .error .missing
  | .option n first :: evs => if n = vm then rooted (strip (first.headD [])) else rootOf evs
  | .cont text :: evs =>
    if bracketed (strip text) then .error .missing
    else match vmPath (strip text) with
      | none => rootOf evs
      | some path => rooted path
  | _ :: evs => rootOf evs

theorem rootFrom_true : ∀ {ls : List Str} {evs : List Event} {opened : Bool},
    Scan name true opened raws evs → List.Forall₂ SameLine ls raws → rootFrom true ls = rootOf evs := by
  induction raws with
  | nil =>
    intro ls evs opened scan same
    rw [List.forall₂_nil_right_iff.mp same]
    match evs with
    | [] => rfl
    | _ :: _ => exact scan.elim
  | cons raw raws ih =>
    intro ls evs opened scan same
    obtain ⟨line, more, here, rest, rfl⟩ := List.forall₂_cons_right_iff.mp same
    match evs with
    | [] => exact scan.elim
    | ev :: evs =>
      obtain ⟨accepted, later⟩ := scan
      rw [rootFrom_cons here]
      cases ev with
      | header => exact absurd (classify_header_inv accepted).1 Bool.noConfusion
      | free =>
        have idle := classify_free_inv accepted
        rw [(idle_harmless idle).1, (idle_harmless idle).2, if_neg Bool.false_ne_true]
        show rootFrom true more = rootOf evs
        exact ih later rest
      | option n first =>
        obtain ⟨unbracketed, path⟩ := option_reads (classify_option_inv accepted).2
        rw [unbracketed, path, if_neg Bool.false_ne_true, rootOf]
        by_cases here : n = vm
        · rw [if_pos here, if_pos here]
        · rw [if_neg here, if_neg here]
          exact ih later rest
      | cont text =>
        rw [not_header accepted, cont_reads accepted, rootOf, rootFrom_false later rest, ih later rest]

theorem header_of_section (found : sectionOf line = some collei) :
    (bracketed line && line == header) = true := by
  match line with
  | [] => cases found
  | c :: rest =>
    rw [sectionOf.eq_def] at found
    split at found
    · rename_i rest same
      obtain ⟨rfl, rfl⟩ := List.cons.inj same
      split at found
      · rename_i inner
        have name : rest.dropLast = collei := Option.some.inj found
        have whole : rest = collei ++ [']'] := by
          rw [← name]
          exact (List.dropLast_append_getLast? _ inner.1).symm
        rw [whole]
        decide
      · cases found
    · cases found

theorem rootFrom_start : ∀ {ls : List Str} {evs : List Event} {opened : Bool},
    Scan collei false opened raws evs → List.Forall₂ SameLine ls raws → rootFrom false ls = rootOf evs := by
  induction raws with
  | nil =>
    intro ls evs opened scan same
    rw [List.forall₂_nil_right_iff.mp same]
    match evs with
    | [] => rfl
    | _ :: _ => exact scan.elim
  | cons raw raws ih =>
    intro ls evs opened scan same
    obtain ⟨line, more, here, rest, rfl⟩ := List.forall₂_cons_right_iff.mp same
    match evs with
    | [] => exact scan.elim
    | ev :: evs =>
      obtain ⟨accepted, later⟩ := scan
      rw [rootFrom, here.trim, judge_false]
      cases ev with
      | header =>
        rw [header_of_section (classify_header_inv accepted).2]
        show rootFrom true more = rootOf evs
        exact rootFrom_true later rest
      | free =>
        rw [(idle_harmless (classify_free_inv accepted)).1, Bool.false_and]
        show rootFrom false more = rootOf evs
        exact ih later rest
      | option n first => exact absurd (classify_option_inv accepted).1 Bool.noConfusion
      | cont text => exact absurd (classify_cont_inv accepted).1 Bool.noConfusion

/-! ## When the readers agree -/

/-- The first continuation line before the option `vm` that reads like a header or like the option. -/
def misleading : List Event → Option Str
  | [] => none
  | .option n _ :: evs => if n = vm then none else misleading evs
  | .cont text :: evs =>
    if bracketed (strip text) || (vmPath (strip text)).isSome then some (strip text) else misleading evs
  | _ :: evs => misleading evs

/-- What the line of the option `vm` starts its value with. -/
def vmLine : List Event → Option (List Str)
  | [] => none
  | .option n first :: evs => if n = vm then some first else vmLine evs
  | _ :: evs => vmLine evs

theorem rootOf_eq (evs : List Event) : rootOf evs =
    match misleading evs with
    | some line => if bracketed line then .error .missing else rooted ((vmPath line).getD [])
    | none =>
      match vmLine evs with
      | none => .error .missing
      | some first => rooted (strip (first.headD [])) := by
  induction evs with
  | nil => rfl
  | cons ev evs ih =>
    cases ev with
    | header => exact ih
    | free => exact ih
    | option n first =>
      rw [rootOf, misleading, vmLine]
      by_cases here : n = vm
      · rw [if_pos here, if_pos here, if_pos here]
      · rw [if_neg here, if_neg here, if_neg here]
        exact ih
    | cont text =>
      rw [rootOf, misleading]
      by_cases bracket : bracketed (strip text) = true
      · rw [if_pos bracket, bracket, Bool.true_or, if_pos rfl]
        dsimp only
        rw [if_pos bracket]
      · rw [if_neg bracket, Bool.eq_false_of_not_eq_true bracket, Bool.false_or]
        cases path : vmPath (strip text) with
        | none =>
          rw [Option.isSome_none, if_neg Bool.false_ne_true]
          exact ih
        | some path' =>
          rw [Option.isSome_some, if_pos rfl]
          dsimp only
          rw [if_neg bracket, path]
          rfl

theorem valueIn_vmLine (evs : List Event) :
    match vmLine evs with
    | none => valueIn vm evs = none
    | some first => ∃ conts, valueIn vm evs = some (joined (first ++ conts)) := by
  induction evs with
  | nil => rfl
  | cons ev evs ih =>
    cases ev with
    | header => exact ih
    | free => exact ih
    | cont text => exact ih
    | option n first =>
      rw [vmLine, valueIn]
      by_cases here : n = vm
      · rw [if_pos here, if_pos here]
        exact ⟨contsOf evs, rfl⟩
      · rw [if_neg here, if_neg here]
        exact ih

theorem firstValues_rstrip (rest : Str) : ∀ v ∈ firstValues rest, rstrip v = v := by
  intro v listed
  rw [firstValues] at listed
  generalize (if rest.head? = some ' ' then rest.tail else rest) = text at listed
  split at listed
  · cases listed
  · rw [List.mem_singleton.mp listed]
    exact rdropWhile_rdropWhile (fun _ => id) _

theorem option_rstrip {n : Str} {first : List Str} (line : OptionLine raw n first) :
    ∀ v ∈ first, rstrip v = v := by
  have parsed := line.parsed
  rw [classifyOption] at parsed
  split at parsed
  · cases parsed
  split at parsed
  swap
  · cases parsed
  cases parsed
  exact firstValues_rstrip _

theorem vmLine_rstrip : ∀ {evs : List Event} {found opened : Bool},
    Scan name found opened raws evs → ∀ {first : List Str}, vmLine evs = some first → ∀ v ∈ first, rstrip v = v := by
  induction raws with
  | nil =>
    intro evs found opened scan first here
    match evs with
    | [] => cases here
    | _ :: _ => exact scan.elim
  | cons raw raws ih =>
    intro evs found opened scan first here
    match evs with
    | [] => exact scan.elim
    | ev :: evs =>
      obtain ⟨accepted, later⟩ := scan
      cases ev with
      | header => exact ih later here
      | free => exact ih later here
      | cont text => exact ih later here
      | option n first' =>
        rw [vmLine] at here
        split at here
        · cases here
          exact option_rstrip (classify_option_inv accepted).2
        · exact ih later here

theorem joined_none (missing : joined values = none) : values.headD [] = [] := by
  rw [joined] at missing
  split at missing
  · rename_i empty
    rcases values with _ | ⟨l, _ | ⟨l', ls⟩⟩
    · rfl
    · simpa using empty
    · rw [List.intercalate_cons_of_ne_nil (List.cons_ne_nil _ _)] at empty
      simp at empty
  · cases missing

theorem joined_single (whole : joined values = some v) (single : '\n' ∉ v) : values = [v] := by
  rw [joined] at whole
  split at whole
  · cases whole
  · cases whole
    rcases values with _ | ⟨l, _ | ⟨l', ls⟩⟩
    · rename_i some_
      exact absurd rfl some_
    · simp
    · rw [List.intercalate_cons_of_ne_nil (List.cons_ne_nil _ _)] at single
      simp at single

theorem joined_ne_nil (whole : joined values = some v) : v ≠ [] := by
  rw [joined] at whole
  split at whole
  · cases whole
  · cases whole
    assumption

theorem strip_eq_self (solid : rstrip v = v) (some_ : v ≠ []) :
    strip v = v ↔ startsBlank v = false := by
  match v with
  | [] => exact absurd rfl some_
  | c :: rest =>
    show strip (c :: rest) = c :: rest ↔ isSpace c = false
    constructor
    · intro same
      by_contra blank
      rw [Bool.not_eq_false] at blank
      have short : (strip rest).length ≤ rest.length :=
        Nat.le_trans (List.rdropWhile_prefix _ _).length_le (List.dropWhile_sublist _).length_le
      rw [← strip_space_cons blank, same, List.length_cons] at short
      omega
    · intro front
      rw [strip, lstrip, List.dropWhile_cons_of_neg (by simp [front]), solid]


/-- The Rust reader returns the path that Python has on one line, and an error where Python has none. -/
def Agrees (value : Option Str) (root : Except RootError Str) : Prop :=
  match value with
  | none => ∃ e, root = .error e
  | some v => '\n' ∉ v → root = .ok v

/-- No continuation line before the option reads like a header or like the option, and the value starts
on the line of the option, with at most one blank before it. Or the first such continuation line happens to
say the same as the option. -/
def Faithful (evs : List Event) : Prop :=
  match misleading evs with
  | some line =>
    match (valueIn vm evs).join with
    | none => bracketed line = true ∨ vmPath line = some []
    | some v => '\n' ∈ v ∨ (bracketed line = false ∧ vmPath line = some v)
  | none => ∀ v, (valueIn vm evs).join = some v → '\n' ∉ v → vmLine evs = some [v] ∧ startsBlank v = false

theorem rooted_eq_ok {path : Str} : rooted path = .ok v ↔ path = v ∧ v ≠ [] := by
  rw [rooted]
  by_cases empty : path = []
  · rw [if_pos empty]
    constructor
    · nofun
    · rintro ⟨rfl, some_⟩
      exact absurd empty some_
  · rw [if_neg empty, Except.ok.injEq]
    constructor
    · rintro rfl
      exact ⟨rfl, empty⟩
    · exact And.left

theorem rooted_eq_error {path : Str} : (∃ e, rooted path = .error e) ↔ path = [] := by
  rw [rooted]
  by_cases empty : path = []
  · rw [if_pos empty]
    exact ⟨fun _ => empty, fun _ => ⟨_, rfl⟩⟩
  · rw [if_neg empty]
    exact ⟨nofun, fun same => absurd same empty⟩

theorem misleading_reads (found : misleading evs = some line) :
    bracketed line = true ∨ ∃ path, vmPath line = some path := by
  induction evs with
  | nil => cases found
  | cons ev evs ih =>
    cases ev with
    | header => exact ih found
    | free => exact ih found
    | option n first =>
      rw [misleading] at found
      split at found
      · cases found
      · exact ih found
    | cont text =>
      rw [misleading] at found
      split at found
      · rename_i marked
        cases found
        rw [Bool.or_eq_true] at marked
        exact marked.imp id Option.isSome_iff_exists.mp
      · exact ih found

theorem value_ne_nil (value : (valueIn vm evs).join = some v) : v ≠ [] := by
  have first_ := valueIn_vmLine evs
  cases line : vmLine evs with
  | none =>
    rw [line] at first_
    rw [first_] at value
    cases value
  | some first =>
    rw [line] at first_
    obtain ⟨conts, whole⟩ := first_
    rw [whole] at value
    exact joined_ne_nil value

theorem agrees_iff (scan : Scan name false false raws evs) :
    Agrees (valueIn vm evs).join (rootOf evs) ↔ Faithful evs := by
  rw [rootOf_eq, Faithful]
  have first_ := valueIn_vmLine evs
  cases found : misleading evs with
  | some line =>
    dsimp only
    by_cases bracket : bracketed line = true
    · rw [if_pos bracket]
      cases (valueIn vm evs).join with
      | none => exact ⟨fun _ => .inl bracket, fun _ => ⟨_, rfl⟩⟩
      | some v => simp [Agrees, bracket]
    · obtain ⟨path, reads⟩ := (misleading_reads found).resolve_left bracket
      rw [if_neg bracket, reads, Option.getD_some]
      cases value : (valueIn vm evs).join with
      | none =>
        rw [Agrees, rooted_eq_error, Option.some.injEq]
        exact ⟨.inr, fun either => either.resolve_left bracket⟩
      | some v =>
        rw [Agrees, rooted_eq_ok]
        have unbracketed := Bool.eq_false_of_not_eq_true bracket
        constructor
        · intro same
          by_cases single : '\n' ∈ v
          · exact .inl single
          · exact .inr ⟨unbracketed, congrArg some (same single).1⟩
        · rintro (several | ⟨-, same⟩) single
          · exact absurd several single
          · exact ⟨Option.some.inj same, value_ne_nil value⟩
  | none =>
    dsimp only
    cases line : vmLine evs with
    | none =>
      rw [line] at first_
      have value : (valueIn vm evs).join = none := by rw [first_]; rfl
      rw [value]
      exact ⟨fun _ => nofun, fun _ => ⟨_, rfl⟩⟩
    | some first =>
      rw [line] at first_
      obtain ⟨conts, whole⟩ := first_
      have value : (valueIn vm evs).join = joined (first ++ conts) := by rw [whole]; rfl
      rw [value]
      dsimp only
      cases text : joined (first ++ conts) with
      | none =>
        have empty : first.headD [] = [] := by
          match first with
          | [] => rfl
          | l :: ls => exact @joined_none (l :: (ls ++ conts)) text
        rw [empty]
        exact ⟨fun _ => nofun, fun _ => ⟨_, rfl⟩⟩
      | some v =>
        have some_ := joined_ne_nil text
        rw [Agrees, rooted_eq_ok]
        constructor
        · rintro same v' rfl' single
          obtain rfl := Option.some.inj rfl'
          have one := joined_single text single
          match first with
          | [] => exact absurd (same single).1.symm some_
          | l :: ls =>
            obtain ⟨rfl, nothing⟩ := List.cons.inj one
            have solid := vmLine_rstrip scan line l List.mem_cons_self
            obtain ⟨rfl, rfl⟩ := List.append_eq_nil_iff.mp nothing
            exact ⟨rfl, (strip_eq_self solid some_).mp (same single).1⟩
        · intro plain single
          obtain ⟨here, front⟩ := plain v rfl single
          obtain rfl := Option.some.inj here
          have solid := vmLine_rstrip scan line v List.mem_cons_self
          exact ⟨(strip_eq_self solid some_).mpr front, some_⟩

def shortConfig : Str := "[collei]\n# machines\nvm = /srv/vm\nargs =\n    one\n    two\n".toList

/-- A line inside the value of another option. -/
def innerLine : Str := "[collei]\nargs =\n    vm = /wrong\nvm = /right\n".toList

end Collei.VmRoot

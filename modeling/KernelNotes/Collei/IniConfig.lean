import KernelNotes.Lib.Text

/-!
# A single-section configuration file with targeted writes

`IniConfig` of `options.py`. The file is read into lines; every option occupies a range of
them, its first line and the indented lines that continue it. A write replaces those ranges by
line index, appends the options that are new, and joins the lines again. Nothing is read
back after a write.

A file is its decoded text. What the file system can refuse is not modelled.
-/

namespace Collei.Ini

open Text

/-- The ways in which `_read` and the name check raise `ColleiError`. -/
inductive ConfigError where
  | onlySection
  | contentBefore
  | orphanContinuation (line : Str)
  | continuationIndent
  | invalidOption (line : Str)
  | invalidName (name : Str)
  | duplicateOption (name : Str)
  | missingSection
  deriving DecidableEq, Repr

/-- `[A-Za-z0-9_.-]`. -/
def isKeyChar (c : Char) : Bool := c.isAlphanum || c == '_' || c == '.' || c == '-'

/-- `_KEY.fullmatch`. -/
def validName (name : Str) : Bool := !name.isEmpty && name.all isKeyChar

/-- `_SECTION.fullmatch`: the text between brackets, not empty and without a closing bracket. -/
def sectionOf : Str → Option Str
  | '[' :: rest =>
    if rest.getLast? = some ']' ∧ rest.dropLast ≠ [] ∧ ']' ∉ rest.dropLast then
      some rest.dropLast
    else none
  | _ => none

/-- `text.startswith(("#", ";"))`. -/
def isComment : Str → Bool
  | c :: _ => c == '#' || c == ';'
  | [] => false

/-- Nothing to read: blank, or a comment. -/
def isIdle (stripped : Str) : Bool := stripped.isEmpty || isComment stripped

/-- `text[:1].isspace()`. -/
def startsBlank : Str → Bool
  | c :: _ => isSpace c
  | [] => false

/-- `text.rstrip("\r\n")`. -/
def rstripNewlines (text : Str) : Str := text.rdropWhile fun c => c == '\r' || c == '\n'

/-- The text of a continuation line behind its four spaces or its tab. -/
def continuation : Str → Option Str
  | ' ' :: ' ' :: ' ' :: ' ' :: rest => some rest
  | '\t' :: rest => some rest
  | _ => none

/-- `line.split("=", 1)`, if there is an equals sign. -/
def splitOption (line : Str) : Option (Str × Str) :=
  match line.dropWhile (· != '=') with
  | [] => none
  | _ :: first => some (line.takeWhile (· != '='), first)

/-- `"\n".join(values) or None`. -/
def joined (values : List Str) : Option Str :=
  let text := ['\n'].intercalate values
  if text = [] then none else some text

structure Entry where
  name : Str
  value : Option Str
  start : Nat
  stop : Nat
  deriving DecidableEq, Repr

/-- The option whose lines are being read. -/
structure Current where
  name : Str
  start : Nat
  values : List Str

/-- The local variables of `_read`. -/
structure Reader where
  entries : List Entry := []
  foundSection : Bool := false
  current : Option Current := none

/-- `finish`: the current option, if any, becomes an entry. -/
def finish (stop : Nat) (r : Reader) : Reader :=
  match r.current with
  | none => r
  | some cur =>
    { r with entries := r.entries ++ [⟨cur.name, joined cur.values, cur.start, stop⟩]
             current := none }

/-- The values an option line starts with. -/
def firstValues (first : Str) : List Str :=
  let text := if first.head? = some ' ' then first.tail else first
  if text = [] then [] else [rstrip text]

/-- A line that is not indented, inside the section. -/
def readOption (index : Nat) (line : Str) (r : Reader) : Except ConfigError Reader :=
  match splitOption line with
  | none => .error (.invalidOption line)
  | some (before, first) =>
    let name := strip before
    if !validName name then .error (.invalidName name)
    else if name ∈ r.entries.map Entry.name then .error (.duplicateOption name)
    else .ok { r with current := some ⟨name, index, firstValues first⟩ }

/-- An indented line inside the section. -/
def readIndented (line : Str) (r : Reader) : Except ConfigError Reader :=
  match r.current with
  | none => if isIdle (strip line) then .ok r else .error (.orphanContinuation line)
  | some cur =>
    match continuation line with
    | some text =>
      .ok { r with current := some { cur with values := cur.values ++ [rstrip text] } }
    | none => .error .continuationIndent

/-- One round of the loop of `_read`. -/
def readLine (name : Str) (index : Nat) (raw : Str) (r : Reader) : Except ConfigError Reader :=
  let line := rstripNewlines raw
  match sectionOf (strip line) with
  | some found =>
    let r := finish index r
    if r.foundSection || found != name then .error .onlySection
    else .ok { r with foundSection := true }
  | none =>
    if !r.foundSection then
      if isIdle (strip line) then .ok r else .error .contentBefore
    else if startsBlank line then readIndented line r
    else
      let r := finish index r
      if isIdle (strip line) then .ok r else readOption index line r

def readFrom (name : Str) : Nat → List Str → Reader → Except ConfigError Reader
  | _, [], r => .ok r
  | index, raw :: rest, r => readLine name index raw r >>= readFrom name (index + 1) rest

/-- The lines of a file. -/
def linesOf (file : Str) : List Str := splitLines (universalNewlines file)

/-- `_read`, on the lines of the file. -/
def readLines (name : Str) (lines : List Str) : Except ConfigError (List Entry) := do
  let r ← readFrom name 0 lines {}
  let r := finish lines.length r
  if r.foundSection then .ok r.entries else .error .missingSection

/-- `_read`. -/
def read (name file : Str) : Except ConfigError (List Str × List Entry) := do
  let entries ← readLines name (linesOf file)
  return (linesOf file, entries)

def lookup (entries : List Entry) (option : Str) : Option Entry :=
  entries.find? fun e => e.name == option

/-- `_validate_name`. -/
def validateName (option : Str) : Except ConfigError Unit :=
  if validName option then .ok () else .error (.invalidName option)

/-- `get`. -/
def get (name option file : Str) : Except ConfigError (Option Str) := do
  validateName option
  let (_, entries) ← read name file
  return (lookup entries option).bind Entry.value

/-- `_render`: one line, or the name alone followed by an indented line for each line. -/
def render (option value : Str) : List Str :=
  let value := rstripNewlines value
  if '\n' ∉ value ∧ startsBlank value = false then [option ++ " = ".toList ++ value ++ ['\n']]
  else (option ++ " =\n".toList) ::
    (value.splitOn '\n').map fun line => "    ".toList ++ line ++ ['\n']

/-- `lines[start:stop] = rendered`. -/
def splice (lines : List Str) (r : Nat × Nat × List Str) : List Str :=
  lines.take r.1 ++ r.2.2 ++ lines.drop r.2.1

/-- The ranges to replace. They are disjoint, so `sorted(..., reverse=True)` orders them by their
start. -/
def replacements (entries : List Entry) (values : List (Str × Str)) : List (Nat × Nat × List Str) :=
  (values.filterMap fun (option, value) =>
    (lookup entries option).map fun e => (e.start, e.stop, render option value)).mergeSort
      fun a b => decide (b.1 ≤ a.1)

/-- The lines of the options that are not in the file yet. -/
def additions (entries : List Entry) (values : List (Str × Str)) : List Str :=
  values.flatMap fun (option, value) =>
    if (lookup entries option).isSome then [] else render option value

/-- The new options at the end, behind a newline unless the last line is blank. -/
def addOptions (lines more : List Str) : List Str :=
  if more = [] then lines
  else if lines.getLast?.any fun last => !(strip last).isEmpty then lines ++ [['\n']] ++ more
  else lines ++ more

/-- `set_many`, for a mapping given by its items: the text that is written. -/
def setMany (name : Str) (values : List (Str × Str)) (file : Str) : Except ConfigError Str := do
  values.forM fun (option, _) => validateName option
  let (lines, entries) ← read name file
  let lines := (replacements entries values).foldl splice lines
  return (addOptions lines (additions entries values)).flatten

/-- `set`. -/
def set (name option value file : Str) : Except ConfigError Str := setMany name [(option, value)] file

/-- `append`. -/
def append (name option value file : Str) : Except ConfigError Str := do
  match ← get name option file with
  | none => set name option value file
  | some current => set name option (current ++ ['\n'] ++ value) file

/-- `remove`. Without the option nothing is written. -/
def remove (name option file : Str) : Except ConfigError Str := do
  validateName option
  let (lines, entries) ← read name file
  match lookup entries option with
  | none => return file
  | some e => return (splice lines (e.start, e.stop, [])).flatten

end Collei.Ini

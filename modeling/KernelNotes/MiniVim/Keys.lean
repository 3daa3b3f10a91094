import KernelNotes.Lib.CString
import KernelNotes.MiniVim.Draw

/-!
# The keys of the editor

`handle_key` over the text, the cursor and the command line. A read or write outside
of an allocation and a length that would wrap have no result, so a result says that
there was none. What the system calls of a save come to is part of the input.
-/

namespace MiniVim

open CString

/-- The allocation and the length in use. -/
structure Buffer where
  data : List UInt8
  len : Nat

def Buffer.content (b : Buffer) : List UInt8 := b.data.take b.len

inductive Mode
  | normal | insert | command
  deriving DecidableEq

structure Editor where
  text : Buffer
  cursor : Nat
  mode : Mode
  dirty : Bool
  quit : Bool
  paste : Bool
  prefixKey : Int
  command : List UInt8
  commandLen : Nat
  path : Option (List UInt8)
  /-- The content last loaded or saved, which no code reads. -/
  saved : List UInt8

def fileLimit : Nat := 8 * 1024 * 1024

def commandSize : Nat := 4096 + 16

/-! ## Positions in the text -/

section Code

variable (L : Locale)

def lineStart (b : Buffer) : Nat → Option Nat
  | 0 => some 0
  | position + 1 => do
    let c ← b.data[position]?
    if c ≠ 10 then lineStart b position else some (position + 1)

def lineEndLoop (b : Buffer) : Nat → Nat → Option Nat
  | 0, position => some position
  | left + 1, position => do
    let c ← b.data[position]?
    if c ≠ 10 then lineEndLoop b left (position + 1) else some position

def lineEnd (b : Buffer) (position : Nat) : Option Nat :=
  lineEndLoop b (b.len - position) position

/-- The glyph at a position, of at most `len` bytes. -/
def glyphAt (b : Buffer) (position len column : Nat) : Option (Nat × Nat) :=
  if 1 ≤ len ∧ position + len ≤ b.data.length then
    some (glyph L ((b.data.drop position).take len) column)
  else none

def previousLoop (b : Buffer) (position : Nat) : Nat → Nat → Nat → Option Nat
  | 0, _, _ => none
  | fuel + 1, p, previous =>
    if p < position then do
      let (n, _) ← glyphAt L b p (position - p) 0
      previousLoop b position fuel (p + n) p
    else some previous

def previousChar (b : Buffer) (position : Nat) : Option Nat := do
  let p ← lineStart b position
  if p = position then some (position - 1) else previousLoop L b position (position + 1) p p

def nextChar (b : Buffer) (position : Nat) : Option Nat :=
  if b.len ≤ position then some position
  else do
    let (n, _) ← glyphAt L b position (b.len - position) 0
    some (position + n)

def columnLoop (b : Buffer) (cursor : Nat) : Nat → Nat → Nat → Option Nat
  | 0, _, _ => none
  | fuel + 1, p, column =>
    if p < cursor then do
      let (n, width) ← glyphAt L b p (cursor - p) column
      columnLoop b cursor fuel (p + n) (column + width)
    else some column

def cursorColumn (b : Buffer) (cursor : Nat) : Option Nat := do
  let p ← lineStart b cursor
  columnLoop L b cursor (cursor + 1) p 0

def verticalLoop (b : Buffer) (target : Nat) : Nat → Nat → Nat → Option Nat
  | 0, _, _ => none
  | fuel + 1, p, column =>
    if p < b.len then do
      let c ← b.data[p]?
      if c = 10 then some p
      else do
        let (n, width) ← glyphAt L b p (b.len - p) column
        if target < column + width then some p
        else verticalLoop b target fuel (p + n) (column + width)
    else some p

/-- The line above or below, or none. -/
def verticalLine (b : Buffer) (up : Bool) (p : Nat) : Option (Option Nat) :=
  if up then if p = 0 then some none else (lineStart b (p - 1)).map some
  else do
    let p ← lineEnd b p
    if p = b.len then some none else some (some (p + 1))

def moveVertical (up : Bool) (e : Editor) : Option Editor := do
  let target ← cursorColumn L e.text e.cursor
  let p ← lineStart e.text e.cursor
  match ← verticalLine e.text up p with
  | none => some e
  | some p => do
    let p ← verticalLoop L e.text target (e.text.len + 1) p 0
    some { e with cursor := p }

/-! ## Changes of the text -/

def grow (need : Nat) : Nat → Nat → Nat
  | 0, cap => cap
  | fuel + 1, cap => if cap < need then grow need fuel (cap * 2) else cap

/-- The bytes `realloc` adds are unknown; here they are zero. -/
def reserve (data : List UInt8) (need : Nat) : List UInt8 :=
  if need ≤ data.length then data
  else
    let cap := if data.length = 0 then 1024 else data.length
    data ++ List.replicate (grow need need cap - data.length) 0

def memmove (data : List UInt8) (dst src n : Nat) : Option (List UInt8) := do
  let bytes ← read (data.drop src) n
  memcpy data dst bytes

def store (data : List UInt8) (i : Nat) (byte : UInt8) : Option (List UInt8) :=
  if i < data.length then some (data.set i byte) else none

/-- A difference of two `size_t` that does not wrap. -/
def sub (a b : Nat) : Option Nat := if b ≤ a then some (a - b) else none

def insertByte (byte : UInt8) (e : Editor) : Option Editor :=
  if fileLimit ≤ e.text.len then some e
  else do
    let data := reserve e.text.data (e.text.len + 2)
    let n ← sub e.text.len e.cursor
    let data ← memmove data (e.cursor + 1) e.cursor n
    let data ← store data e.cursor byte
    let data ← store data (e.text.len + 1) 0
    some { e with text := ⟨data, e.text.len + 1⟩, cursor := e.cursor + 1, dirty := true }

def deleteRange (start stop : Nat) (e : Editor) : Option Editor :=
  if start = stop then some e
  else do
    let n ← sub e.text.len stop
    let data ← memmove e.text.data start stop n
    let size ← sub stop start
    let len ← sub e.text.len size
    let data ← store data len 0
    some { e with text := ⟨data, len⟩, cursor := start, dirty := true }

/-! ## Commands -/

/-- The save of the text under a path, when its system calls succeed. -/
def saveFile (done : Bool) (path : Option (List UInt8)) (e : Editor) : Editor × Bool :=
  match path with
  | none | some [] => (e, false)
  | some path =>
    if done then
      ({ e with path := some path, dirty := false, saved := e.text.content }, true)
    else (e, false)

def runCommand (done : Bool) (e : Editor) : Option Editor := do
  let command ← cstring e.command
  let e := { e with mode := .normal }
  if command = [113, 33] then some { e with quit := true }
  else if command = [113] then
    if e.dirty then some e else some { e with quit := true }
  else if command = [119] ∨ command = [119, 113] then
    let (e, written) := saveFile done e.path e
    if written ∧ command = [119, 113] then some { e with quit := true } else some e
  else if command.take 2 = [119, 32] then
    some (saveFile done (some ((command.drop 2).dropWhile (· = 32))) e).1
  else some e

def commandKey (done : Bool) (key : Int) (e : Editor) : Option Editor :=
  if key = 13 ∨ key = 10 then runCommand done e
  else if key = 127 ∨ key = 8 then
    if e.commandLen ≠ 0 then do
      let command ← store e.command (e.commandLen - 1) 0
      some { e with command, commandLen := e.commandLen - 1 }
    else some { e with mode := .normal }
  else if 32 ≤ key ∧ key < 127 ∧ e.commandLen + 1 < commandSize then do
    let command ← store e.command e.commandLen (UInt8.ofNat key.toNat)
    let command ← store command (e.commandLen + 1) 0
    some { e with command, commandLen := e.commandLen + 1 }
  else some e

def pasteKey (key : Int) (e : Editor) : Option Editor :=
  if key = 13 ∨ key = 10 then insertByte 10 e
  else if key = 9 ∨ 32 ≤ key ∧ key < 256 ∧ key ≠ 127 then insertByte (UInt8.ofNat key.toNat) e
  else some e

def insertKey (key : Int) (e : Editor) : Option Editor :=
  if key = 127 ∨ key = 8 then do
    let start ← previousChar L e.text e.cursor
    deleteRange start e.cursor e
  else if key = 13 ∨ key = 10 then insertByte 10 e
  else if key = 9 ∨ 32 ≤ key ∧ key < 256 then insertByte (UInt8.ofNat key.toNat) e
  else some e

/-- The cursor moves to the next character unless the line ends. -/
def stepRight (e : Editor) : Option Editor := do
  let stop ← lineEnd e.text e.cursor
  if e.cursor < stop then
    let next ← nextChar L e.text e.cursor
    some { e with cursor := next }
  else some e

def deleteLine (e : Editor) : Option Editor := do
  let start ← lineStart e.text e.cursor
  let stop ← lineEnd e.text e.cursor
  let (start, stop) :=
    if stop < e.text.len then (start, stop + 1)
    else if start ≠ 0 then (start - 1, stop) else (start, stop)
  let e ← deleteRange start stop e
  let cursor ← lineStart e.text e.cursor
  some { e with cursor }

/-- The keys of the normal and the insert mode, before the reset of the prefix. -/
def editKey (key : Int) (e : Editor) : Option Editor :=
  if key = 257 ∨ e.mode = .normal ∧ key = 107 then moveVertical L true e
  else if key = 258 ∨ e.mode = .normal ∧ key = 106 then moveVertical L false e
  else if key = 259 ∨ e.mode = .normal ∧ key = 104 then do
    let start ← lineStart e.text e.cursor
    if start < e.cursor then
      let previous ← previousChar L e.text e.cursor
      some { e with cursor := previous }
    else some e
  else if key = 260 ∨ e.mode = .normal ∧ key = 108 then stepRight L e
  else if key = 261 ∨ e.mode = .normal ∧ key = 48 then do
    let start ← lineStart e.text e.cursor
    some { e with cursor := start }
  else if key = 262 ∨ e.mode = .normal ∧ key = 36 then do
    let stop ← lineEnd e.text e.cursor
    some { e with cursor := stop }
  else if key = 263 ∨ e.mode = .normal ∧ key = 120 then do
    let stop ← lineEnd e.text e.cursor
    if e.cursor < stop then
      let next ← nextChar L e.text e.cursor
      deleteRange e.cursor next e
    else some e
  else if e.mode = .insert then insertKey L key e
  else if key = 58 then do
    let command ← store e.command 0 0
    some { e with command, commandLen := 0, mode := .command }
  else if key = 105 then some { e with mode := .insert }
  else if key = 97 then do
    let e ← stepRight L e
    some { e with mode := .insert }
  else if key = 111 then do
    let stop ← lineEnd e.text e.cursor
    let e ← insertByte 10 { e with cursor := stop }
    some { e with mode := .insert }
  else if key = 71 then do
    let start ← lineStart e.text e.text.len
    some { e with cursor := start }
  else if key = 103 ∧ e.prefixKey = 103 then some { e with cursor := 0 }
  else if key = 100 ∧ e.prefixKey = 100 then deleteLine e
  else some e

/-- A `g` or `d` that is not the second one is kept for the next key. -/
def keepsPrefix (key : Int) (e : Editor) : Prop :=
  e.mode = .normal ∧ (key = 103 ∧ e.prefixKey ≠ 103 ∨ key = 100 ∧ e.prefixKey ≠ 100)

instance (key : Int) (e : Editor) : Decidable (keepsPrefix key e) :=
  inferInstanceAs (Decidable (_ ∧ _))

def handleKey (key : Int) (done : Bool) (e : Editor) : Option Editor :=
  if key = 264 then some { e with paste := true, mode := .insert }
  else if key = 265 then some { e with paste := false }
  else if e.paste then pasteKey key e
  else if key = 27 ∨ key = 3 then some { e with mode := .normal, prefixKey := 0 }
  else if e.mode = .command then commandKey done key e
  else if keepsPrefix key e then some { e with prefixKey := key }
  else (editKey L key e).map fun e => { e with prefixKey := 0 }

/-- Keys with what a save comes to, should the key start one. -/
def handleKeys : List (Int × Bool) → Editor → Option Editor
  | [], e => some e
  | (key, done) :: rest, e => do
    let e ← handleKey L key done e
    handleKeys rest e

/-- The editor at the start, with a file or without. -/
def load (content spare : List UInt8) (path : Option (List UInt8)) : Editor where
  text := ⟨content ++ 0 :: spare, content.length⟩
  cursor := 0
  mode := .normal
  dirty := false
  quit := false
  paste := false
  prefixKey := 0
  command := List.replicate commandSize 0
  commandLen := 0
  path := path
  saved := content

end Code

variable {L : Locale} {b : Buffer}

/-! ## Positions stay in the text -/

theorem lineStart_spec {position : Nat} (inside : position ≤ b.data.length) :
    ∃ p, lineStart b position = some p ∧ p ≤ position := by
  induction position with
  | zero => exact ⟨0, rfl, le_rfl⟩
  | succ position ih =>
    rw [lineStart, List.getElem?_eq_getElem inside, Option.bind_eq_bind, Option.bind_some]
    split
    · obtain ⟨p, found, le⟩ := ih (by omega)
      exact ⟨p, found, by omega⟩
    · exact ⟨position + 1, rfl, le_rfl⟩

theorem lineEndLoop_spec {left position : Nat} (inside : position + left ≤ b.data.length) :
    ∃ p, lineEndLoop b left position = some p ∧ position ≤ p ∧ p ≤ position + left := by
  induction left generalizing position with
  | zero => exact ⟨position, rfl, le_rfl, le_rfl⟩
  | succ left ih =>
    have here : position < b.data.length := by omega
    rw [lineEndLoop, List.getElem?_eq_getElem here, Option.bind_eq_bind, Option.bind_some]
    split
    · obtain ⟨p, found, ge, le⟩ := @ih (position + 1) (by omega)
      exact ⟨p, found, by omega, by omega⟩
    · exact ⟨position, rfl, le_rfl, by omega⟩

variable {position fuel p cursor : Nat}

theorem lineEnd_spec (room : b.len < b.data.length) (inside : position ≤ b.len) :
    ∃ p, lineEnd b position = some p ∧ position ≤ p ∧ p ≤ b.len := by
  obtain ⟨p, found, ge, le⟩ :=
    @lineEndLoop_spec b (b.len - position) position (by omega)
  exact ⟨p, found, ge, by omega⟩

theorem glyphAt_spec {len : Nat} (some_ : 1 ≤ len) (inside : position + len ≤ b.data.length)
    (column : Nat) :
    ∃ n width, glyphAt L b position len column = some (n, width) ∧ 1 ≤ n ∧ n ≤ len := by
  have size : ((b.data.drop position).take len).length = len := by
    rw [List.length_take, List.length_drop]
    omega
  have more : (b.data.drop position).take len ≠ [] := fun empty => by
    rw [empty, List.length_nil] at size
    omega
  obtain ⟨pos, le⟩ := glyph_bounds (L := L) more column
  exact ⟨(glyph L _ column).1, (glyph L _ column).2, if_pos ⟨some_, inside⟩, pos, by omega⟩

theorem previousLoop_spec {previous : Nat} (inside : position ≤ b.data.length)
    (order : p ≤ position) (before : previous ≤ position) (enough : position - p < fuel) :
    ∃ q, previousLoop L b position fuel p previous = some q ∧ q ≤ position := by
  induction fuel generalizing p previous with
  | zero => omega
  | succ fuel ih =>
    rw [previousLoop]
    split
    · obtain ⟨n, width, found, pos, le⟩ :=
        glyphAt_spec (L := L) (b := b) (show 1 ≤ position - p by omega)
          (show p + (position - p) ≤ b.data.length by omega) 0
      rw [found]
      exact ih (by omega) order (by omega)
    · exact ⟨previous, rfl, before⟩

theorem previousChar_spec (inside : position ≤ b.data.length) :
    ∃ q, previousChar L b position = some q ∧ q ≤ position := by
  obtain ⟨p, found, le⟩ := lineStart_spec inside
  rw [previousChar, found, Option.bind_eq_bind, Option.bind_some]
  split
  · exact ⟨position - 1, rfl, by omega⟩
  · exact previousLoop_spec inside le le (by omega)

theorem nextChar_spec (room : b.len < b.data.length) (inside : position ≤ b.len) :
    ∃ q, nextChar L b position = some q ∧ position ≤ q ∧ q ≤ b.len := by
  rw [nextChar]
  split
  · exact ⟨position, rfl, le_rfl, inside⟩
  · obtain ⟨n, width, found, pos, le⟩ :=
      glyphAt_spec (L := L) (b := b) (show 1 ≤ b.len - position by omega)
        (show position + (b.len - position) ≤ b.data.length by omega) 0
    rw [found]
    exact ⟨position + n, rfl, by omega, by omega⟩

theorem columnLoop_spec (inside : cursor ≤ b.data.length) (order : p ≤ cursor)
    (enough : cursor - p < fuel) (column : Nat) :
    ∃ c, columnLoop L b cursor fuel p column = some c := by
  induction fuel generalizing p column with
  | zero => omega
  | succ fuel ih =>
    rw [columnLoop]
    split
    · obtain ⟨n, width, found, pos, le⟩ :=
        glyphAt_spec (L := L) (b := b) (show 1 ≤ cursor - p by omega)
          (show p + (cursor - p) ≤ b.data.length by omega) column
      rw [found]
      exact ih (by omega) (by omega) _
    · exact ⟨column, rfl⟩

theorem cursorColumn_spec (inside : cursor ≤ b.data.length) :
    ∃ c, cursorColumn L b cursor = some c := by
  obtain ⟨p, found, le⟩ := lineStart_spec inside
  rw [cursorColumn, found]
  exact columnLoop_spec inside le (by omega) 0

theorem verticalLoop_spec (room : b.len < b.data.length) (target : Nat) (inside : p ≤ b.len)
    (enough : b.len - p < fuel) (column : Nat) :
    ∃ q, verticalLoop L b target fuel p column = some q ∧ q ≤ b.len := by
  induction fuel generalizing p column with
  | zero => omega
  | succ fuel ih =>
    rw [verticalLoop]
    split
    · have here : p < b.data.length := by omega
      rw [List.getElem?_eq_getElem here, Option.bind_eq_bind, Option.bind_some]
      split
      · exact ⟨p, rfl, inside⟩
      · obtain ⟨n, width, found, pos, le⟩ :=
          glyphAt_spec (L := L) (b := b) (show 1 ≤ b.len - p by omega)
            (show p + (b.len - p) ≤ b.data.length by omega) column
        rw [found, Option.bind_eq_bind, Option.bind_some]
        dsimp only
        split
        · exact ⟨p, rfl, inside⟩
        · exact ih (by omega) (by omega) _
    · exact ⟨p, rfl, inside⟩

theorem verticalLine_spec (room : b.len < b.data.length) (up : Bool) (inside : p ≤ b.len) :
    ∃ line, verticalLine b up p = some line ∧ ∀ q, line = some q → q ≤ b.len := by
  rw [verticalLine]
  split
  · split
    · exact ⟨none, rfl, fun q none_ => nomatch none_⟩
    · obtain ⟨q, found, le⟩ := @lineStart_spec b (p - 1) (by omega)
      rw [found]
      exact ⟨some q, rfl, fun q' same => by cases same; omega⟩
  · obtain ⟨q, found, ge, le⟩ := lineEnd_spec room inside
    rw [found, Option.bind_eq_bind, Option.bind_some]
    split
    · exact ⟨none, rfl, fun q none_ => nomatch none_⟩
    · exact ⟨some (q + 1), rfl, fun q' same => by cases same; omega⟩

/-! ## The invariant -/

structure Inv (e : Editor) : Prop where
  cursor : e.cursor ≤ e.text.len
  limit : e.text.len ≤ fileLimit
  room : e.text.len < e.text.data.length
  size : e.command.length = commandSize
  commandLen : e.commandLen < commandSize
  terminated : 0 ∈ e.command
  clean : e.dirty = false → e.text.content = e.saved

/-- There is a result, which keeps the invariant and does not quit. -/
def Stays (e : Editor) (r : Option Editor) : Prop :=
  ∃ e', r = some e' ∧ Inv e' ∧ e'.quit = e.quit

variable {e : Editor}

theorem Inv.stays (inv : Inv e) : Stays e (some e) := ⟨e, rfl, inv, rfl⟩

theorem Stays.ite {c : Prop} [Decidable c] {r r' : Option Editor} (yes : Stays e r)
    (no : Stays e r') : Stays e (if c then r else r') := by
  split
  · exact yes
  · exact no

theorem Inv.at_cursor (inv : Inv e) (inside : cursor ≤ e.text.len) :
    Inv { e with cursor } := { inv with cursor := inside }

theorem Inv.moved (inv : Inv e) {cursor : Nat} (inside : cursor ≤ e.text.len) :
    Stays e (some { e with cursor }) := ⟨_, rfl, inv.at_cursor inside, rfl⟩

theorem moveVertical_stays (inv : Inv e) (up : Bool) : Stays e (moveVertical L up e) := by
  have room := inv.room
  have inside : e.cursor ≤ e.text.data.length := by have := inv.cursor; omega
  obtain ⟨target, column⟩ := cursorColumn_spec (L := L) inside
  obtain ⟨p, start, le⟩ := lineStart_spec inside
  obtain ⟨line, found, below⟩ := verticalLine_spec room up (Nat.le_trans le inv.cursor)
  simp only [moveVertical, column, start, found, Option.bind_eq_bind, Option.bind_some]
  cases line with
  | none => exact inv.stays
  | some p =>
    obtain ⟨q, reached, le⟩ := verticalLoop_spec (L := L) room target (below p rfl)
      (show e.text.len - p < e.text.len + 1 by omega) 0
    dsimp only
    rw [reached]
    exact inv.moved le

theorem le_grow {need cap : Nat} (pos : 1 ≤ cap) (enough : need ≤ cap + fuel) :
    need ≤ grow need fuel cap := by
  induction fuel generalizing cap with
  | zero => exact enough
  | succ fuel ih =>
    rw [grow]
    split
    · exact ih (by omega) (by omega)
    · omega

theorem le_reserve (data : List UInt8) (need : Nat) : need ≤ (reserve data need).length := by
  rw [reserve]
  split
  · assumption
  · dsimp only
    have grown : need ≤ grow need need (if data.length = 0 then 1024 else data.length) :=
      le_grow (by split <;> omega) (by omega)
    rw [List.length_append, List.length_replicate]
    omega

theorem memmove_spec {data : List UInt8} {dst src n : Nat} (from_ : src + n ≤ data.length)
    (onto : dst + n ≤ data.length) :
    ∃ data', memmove data dst src n = some data' ∧ data'.length = data.length := by
  have bytes : read (data.drop src) n = some ((data.drop src).take n) :=
    if_pos (by rw [List.length_drop]; omega)
  have size : ((data.drop src).take n).length = n := by
    rw [List.length_take, List.length_drop]
    omega
  have done := @memcpy_eq data ((data.drop src).take n) dst (by omega)
  rw [memmove, bytes]
  exact ⟨_, done, memcpy_length done⟩

theorem store_spec {data : List UInt8} {i : Nat} (inside : i < data.length) (byte : UInt8) :
    store data i byte = some (data.set i byte) := if_pos inside

theorem sub_spec {a b : Nat} (le : b ≤ a) : sub a b = some (a - b) := if_pos le

theorem insertByte_stays (inv : Inv e) (byte : UInt8) : Stays e (insertByte byte e) := by
  have cursor := inv.cursor
  rw [insertByte]
  split
  · exact inv.stays
  next more =>
  have space := le_reserve e.text.data (e.text.len + 2)
  obtain ⟨data, moved, size⟩ :=
    @memmove_spec (reserve e.text.data (e.text.len + 2)) (e.cursor + 1) e.cursor
      (e.text.len - e.cursor) (by omega) (by omega)
  have first := @store_spec data e.cursor (by omega) byte
  have last := @store_spec (data.set e.cursor byte) (e.text.len + 1)
    (by rw [List.length_set]; omega) 0
  simp only [sub_spec cursor, moved, first, last, Option.bind_eq_bind, Option.bind_some]
  refine ⟨_, rfl, { inv with
    cursor := Nat.succ_le_succ cursor
    limit := Nat.not_le.mp more
    room := ?_
    clean := fun clean => nomatch clean }, rfl⟩
  dsimp only
  rw [List.length_set, List.length_set]
  omega

theorem deleteRange_stays (inv : Inv e) {start stop : Nat} (order : start ≤ stop)
    (inside : stop ≤ e.text.len) : Stays e (deleteRange start stop e) := by
  have room := inv.room
  have limit := inv.limit
  rw [deleteRange]
  split
  · exact inv.stays
  obtain ⟨data, moved, size⟩ :=
    @memmove_spec e.text.data start stop (e.text.len - stop) (by omega) (by omega)
  have rest := @sub_spec e.text.len (stop - start) (by omega)
  have last := @store_spec data (e.text.len - (stop - start)) (by omega) 0
  simp only [sub_spec inside, moved, sub_spec order, rest, last, Option.bind_eq_bind,
    Option.bind_some]
  refine ⟨_, rfl, { inv with
    cursor := ?_
    limit := ?_
    room := ?_
    clean := fun clean => nomatch clean }, rfl⟩
  all_goals
    dsimp only
    try rw [List.length_set]
    omega

theorem stepRight_stays (inv : Inv e) : Stays e (stepRight L e) := by
  obtain ⟨stop, found, -, -⟩ := lineEnd_spec inv.room inv.cursor
  rw [stepRight, found, Option.bind_eq_bind, Option.bind_some]
  split
  · obtain ⟨next, found, -, le⟩ := nextChar_spec (L := L) inv.room inv.cursor
    rw [found]
    exact inv.moved le
  · exact inv.stays

theorem Inv.inside (inv : Inv e) : e.cursor ≤ e.text.data.length :=
  Nat.le_trans inv.cursor inv.room.le

theorem deleteLine_stays (inv : Inv e) : Stays e (deleteLine e) := by
  obtain ⟨start, found, le⟩ := lineStart_spec inv.inside
  obtain ⟨stop, found', ge, le'⟩ := lineEnd_spec inv.room inv.cursor
  obtain ⟨a, c, range, order, inside⟩ : ∃ a c, (if stop < e.text.len then (start, stop + 1)
      else if start ≠ 0 then (start - 1, stop) else (start, stop)) = (a, c) ∧
      a ≤ c ∧ c ≤ e.text.len := by
    split
    · exact ⟨start, stop + 1, rfl, by omega, by omega⟩
    · split
      · exact ⟨start - 1, stop, rfl, by omega, le'⟩
      · exact ⟨start, stop, rfl, by omega, le'⟩
  obtain ⟨e', done, inv', quit⟩ := deleteRange_stays inv order inside
  obtain ⟨p, atStart, le⟩ := lineStart_spec inv'.inside
  simp only [deleteLine, found, found', range, done, atStart, Option.bind_eq_bind,
    Option.bind_some]
  exact ⟨_, rfl, inv'.at_cursor (Nat.le_trans le inv'.cursor), quit⟩

theorem insertKey_stays (inv : Inv e) (key : Int) : Stays e (insertKey L key e) := by
  rw [insertKey]
  split
  · obtain ⟨start, found, le⟩ := previousChar_spec (L := L) inv.inside
    rw [found]
    exact deleteRange_stays inv le inv.cursor
  · split
    · exact insertByte_stays inv 10
    · split
      · exact insertByte_stays inv _
      · exact inv.stays

theorem pasteKey_stays (inv : Inv e) (key : Int) : Stays e (pasteKey key e) := by
  rw [pasteKey]
  split
  · exact insertByte_stays inv 10
  · split
    · exact insertByte_stays inv _
    · exact inv.stays

theorem editKey_stays (inv : Inv e) (key : Int) : Stays e (editKey L key e) := by
  obtain ⟨start, atStart, startLe⟩ := lineStart_spec inv.inside
  obtain ⟨stop, atStop, -, stopLe⟩ := lineEnd_spec inv.room inv.cursor
  obtain ⟨next, atNext, nextGe, nextLe⟩ := nextChar_spec (L := L) inv.room inv.cursor
  have startIn := Nat.le_trans startLe inv.cursor
  have size := inv.size
  rw [editKey, atStart, atStop, atNext]
  refine .ite (moveVertical_stays inv true) ?_
  refine .ite (moveVertical_stays inv false) ?_
  refine .ite ?_ ?_
  · obtain ⟨previous, found, le⟩ := previousChar_spec (L := L) inv.inside
    rw [found]
    exact .ite (inv.moved (Nat.le_trans le inv.cursor)) inv.stays
  refine .ite (stepRight_stays inv) ?_
  refine .ite (inv.moved startIn) ?_
  refine .ite (inv.moved stopLe) ?_
  refine .ite (.ite (deleteRange_stays inv nextGe nextLe) inv.stays) ?_
  refine .ite (insertKey_stays inv key) ?_
  refine .ite ?_ ?_
  · rw [store_spec (by rw [size]; decide)]
    exact ⟨_, rfl, { inv with
      size := by rw [List.length_set]; exact size
      commandLen := show 0 < commandSize by decide
      terminated := List.mem_set (by rw [size]; decide) 0 }, rfl⟩
  refine .ite ⟨_, rfl, { inv with }, rfl⟩ ?_
  refine .ite ?_ ?_
  · obtain ⟨e', moved, inv', quit⟩ := stepRight_stays (L := L) inv
    rw [moved]
    exact ⟨_, rfl, { inv' with }, quit⟩
  refine .ite ?_ ?_
  · obtain ⟨e', grown, inv', quit⟩ := insertByte_stays (inv.at_cursor stopLe) 10
    rw [Option.bind_eq_bind, Option.bind_some, grown]
    exact ⟨_, rfl, { inv' with }, quit⟩
  refine .ite ?_ ?_
  · obtain ⟨p, found, le⟩ := lineStart_spec inv.room.le
    rw [found]
    exact inv.moved le
  refine .ite (inv.moved (Nat.zero_le _)) ?_
  exact .ite (deleteLine_stays inv) inv.stays

/-! ## Quitting -/

/-- There is a result, which keeps the invariant; the editor quits by `q!` or with its text saved. -/
def Safe (e : Editor) (r : Option Editor) : Prop :=
  ∃ e', r = some e' ∧ Inv e' ∧ (e'.quit = true → e.quit = true ∨
    cstring e.command = some [113, 33] ∨ e'.text.content = e'.saved)

theorem Stays.safe {r : Option Editor} (stays : Stays e r) : Safe e r := by
  obtain ⟨e', done, inv, quit⟩ := stays
  exact ⟨e', done, inv, fun set_ => .inl (quit ▸ set_)⟩

theorem saveFile_spec (inv : Inv e) (done : Bool) (path : Option (List UInt8)) :
    Inv (saveFile done path e).1 ∧ (saveFile done path e).1.quit = e.quit ∧
      ((saveFile done path e).2 = true →
        (saveFile done path e).1.text.content = (saveFile done path e).1.saved) := by
  rw [saveFile.eq_def]
  split
  · exact ⟨inv, rfl, fun written => nomatch written⟩
  · exact ⟨inv, rfl, fun written => nomatch written⟩
  · split
    · exact ⟨{ inv with clean := fun _ => rfl }, rfl, fun _ => rfl⟩
    · exact ⟨inv, rfl, fun written => nomatch written⟩

theorem runCommand_safe (inv : Inv e) (done : Bool) : Safe e (runCommand done e) := by
  obtain ⟨command, typed⟩ := cstring_of_mem inv.terminated
  have inv' : Inv { e with mode := .normal } := { inv with }
  rw [runCommand, typed, Option.bind_eq_bind, Option.bind_some]
  dsimp only
  split
  next forced => exact ⟨_, rfl, { inv with }, fun _ => .inr (.inl (forced ▸ typed))⟩
  split
  · split
    · exact ⟨_, rfl, inv', fun quit => .inl quit⟩
    next clean =>
      have same := inv.clean (Bool.eq_false_iff.mpr clean)
      exact ⟨_, rfl, { inv with }, fun _ => .inr (.inr same)⟩
  split
  · obtain ⟨kept, quit, written⟩ := saveFile_spec inv' done e.path
    split
    next both => exact ⟨_, rfl, { kept with }, fun _ => .inr (.inr (written both.1))⟩
    · exact ⟨_, rfl, kept, fun set_ => .inl (quit ▸ set_)⟩
  split
  · obtain ⟨kept, quit, -⟩ :=
      saveFile_spec inv' done (some ((command.drop 2).dropWhile (· = 32)))
    exact ⟨_, rfl, kept, fun set_ => .inl (quit ▸ set_)⟩
  · exact ⟨_, rfl, inv', fun quit => .inl quit⟩

theorem commandKey_safe (inv : Inv e) (done : Bool) (key : Int) :
    Safe e (commandKey done key e) := by
  have size := inv.size
  have inside := inv.commandLen
  rw [commandKey]
  split
  · exact runCommand_safe inv done
  refine Stays.safe ?_
  split
  · split
    · have there : e.commandLen - 1 < e.command.length := by omega
      rw [store_spec there]
      exact ⟨_, rfl, { inv with
        size := by rw [List.length_set]; exact size
        commandLen := by dsimp only; omega
        terminated := List.mem_set there 0 }, rfl⟩
    · exact ⟨_, rfl, { inv with }, rfl⟩
  · split
    next fits =>
      have there : e.commandLen + 1 < (e.command.set e.commandLen (UInt8.ofNat key.toNat)).length :=
        by rw [List.length_set]; omega
      rw [store_spec (by omega), Option.bind_eq_bind, Option.bind_some, store_spec there]
      exact ⟨_, rfl, { inv with
        size := by rw [List.length_set, List.length_set]; exact size
        commandLen := fits.2.2
        terminated := List.mem_set there 0 }, rfl⟩
    · exact inv.stays

theorem handleKey_safe (inv : Inv e) (key : Int) (done : Bool) : Safe e (handleKey L key done e) := by
  rw [handleKey]
  split
  · exact Stays.safe ⟨_, rfl, { inv with }, rfl⟩
  split
  · exact Stays.safe ⟨_, rfl, { inv with }, rfl⟩
  split
  · exact (pasteKey_stays inv key).safe
  split
  · exact Stays.safe ⟨_, rfl, { inv with }, rfl⟩
  split
  · exact commandKey_safe inv done key
  split
  · exact Stays.safe ⟨_, rfl, { inv with }, rfl⟩
  · obtain ⟨e', edited, inv', quit⟩ := editKey_stays (L := L) inv key
    rw [edited]
    exact Stays.safe ⟨_, rfl, { inv' with }, quit⟩

theorem handleKeys_inv (inv : Inv e) (keys : List (Int × Bool)) :
    ∃ e', handleKeys L keys e = some e' ∧ Inv e' := by
  induction keys generalizing e with
  | nil => exact ⟨e, rfl, inv⟩
  | cons input rest ih =>
    obtain ⟨e', pressed, inv', -⟩ := handleKey_safe (L := L) inv input.1 input.2
    rw [handleKeys, pressed]
    exact ih inv'

theorem load_inv {content : List UInt8} (fits : content.length ≤ fileLimit) (spare : List UInt8)
    (path : Option (List UInt8)) : Inv (load content spare path) where
  cursor := Nat.zero_le _
  limit := fits
  room := by
    rw [load, List.length_append, List.length_cons]
    dsimp only
    omega
  size := List.length_replicate
  commandLen := show 0 < commandSize by decide
  terminated := List.mem_replicate.mpr ⟨by decide, rfl⟩
  clean := fun _ => List.take_left' rfl

/-- Every sequence of keys is handled without a read or write out of bounds. It leaves the cursor
in a text within the limit, a text that is not marked dirty is the one loaded or saved last, and
the next key makes the editor quit only by `q!` or with nothing unsaved. -/
theorem handleKeys_safe (L : Locale) (content spare : List UInt8) (path : Option (List UInt8))
    (keys : List (Int × Bool)) (fits : content.length ≤ fileLimit) :
    ∃ e, handleKeys L keys (load content spare path) = some e ∧
      e.cursor ≤ e.text.len ∧ e.text.len ≤ fileLimit ∧ e.text.len < e.text.data.length ∧
      e.commandLen < commandSize ∧ (e.dirty = false → e.text.content = e.saved) ∧
      ∀ key done, ∃ e', handleKey L key done e = some e' ∧
        (e'.quit = true → e.quit = true ∨ cstring e.command = some [113, 33] ∨
          e'.text.content = e'.saved) := by
  obtain ⟨e, run, inv⟩ := handleKeys_inv (L := L) (load_inv fits spare path) keys
  refine ⟨e, run, inv.cursor, inv.limit, inv.room, inv.commandLen, inv.clean, fun key done => ?_⟩
  obtain ⟨e', pressed, -, quits⟩ := handleKey_safe (L := L) inv key done
  exact ⟨e', pressed, quits⟩

/-- A letter is typed into an empty file. -/
theorem handleKeys_typed :
    ([] : List UInt8).length ≤ fileLimit ∧
      ∃ e, handleKeys twoByteLocale [(105, false), (97, false)] (load [] [] none) = some e ∧
        e.cursor ≤ e.text.len := by
  obtain ⟨e, run, inside, -⟩ :=
    handleKeys_safe twoByteLocale [] [] none [(105, false), (97, false)] (by decide)
  exact ⟨by decide, e, run, inside⟩

end MiniVim

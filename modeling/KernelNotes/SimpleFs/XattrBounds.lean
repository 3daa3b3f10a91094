import KernelNotes.SimpleFs.XattrMap

/-!
# Accesses to the extended-attribute block

The loops of `simplefs_xattr.c` once more, with every read and write checked against
the block or the scratch buffer and every difference of sizes checked not to wrap. On
a block that `simplefs_xattr_validate` accepts no check fails, whatever its entries say.
-/

namespace SimpleFs.Xattr

open Bytes Outcome

section Code

def loadIn (width : Nat) (m : Bytes.Buffer) (off : Nat) : Option Nat :=
  if off + width ≤ blockSize then some (load width m off) else none

def sliceIn (m : Bytes.Buffer) (off len : Nat) : Option (List UInt8) :=
  if off + len ≤ blockSize then some (slice m off len) else none

def storeIn (width : Nat) (m : Bytes.Buffer) (off x : Nat) : Option Bytes.Buffer :=
  if off + width ≤ blockSize then some (store width m off x) else none

def copyIn (m : Bytes.Buffer) (off : Nat) (src : List UInt8) : Option Bytes.Buffer :=
  if off + src.length ≤ blockSize then some (copy m off src) else none

def subIn (a b : Nat) : Option Nat := if b ≤ a then some (a - b) else none

variable (block : Bytes.Buffer)

def validateFromIn : (count entriesEnd valuesStart : Nat) → Option (Except Errno (Nat × Nat))
  | 0, entriesEnd, valuesStart => some (.ok (entriesEnd, valuesStart))
  | count + 1, entriesEnd, valuesStart =>
    if blockSize - entryHeaderSize < entriesEnd then some (.error .euclean)
    else do
      let nameLen ← loadIn 1 block entriesEnd
      let room ← subIn blockSize entriesEnd
      if room < entrySize nameLen then some (.error .euclean)
      else do
        let offs ← loadIn 2 block (entriesEnd + 2)
        let size ← loadIn 4 block (entriesEnd + 4)
        if blockSize < offs then some (.error .euclean)
        else do
          let room ← subIn blockSize offs
          if room < size then some (.error .euclean)
          else validateFromIn count (entriesEnd + entrySize nameLen) (min valuesStart offs)

def matchesNameIn (name : List UInt8) (entry nameLen : Nat) : Option Bool :=
  if nameLen = name.length then
    (sliceIn block (entry + entryHeaderSize) name.length).map (· == name)
  else some false

def readValueIn (entry : Nat) (buffer : Option Nat) : Option (Except Errno (Nat × List UInt8)) := do
  let valueSize ← loadIn 4 block (entry + 4)
  match buffer with
  | none => some (.ok (valueSize, []))
  | some size =>
    if size < valueSize then some (.error .erange)
    else do
      let offs ← loadIn 2 block (entry + 2)
      let value ← sliceIn block offs valueSize
      some (.ok (valueSize, value))

def getFromIn (name : List UInt8) (buffer : Option Nat) :
    (count entry : Nat) → Option (Except Errno (Nat × List UInt8))
  | 0, _ => some (.error .enodata)
  | count + 1, entry => do
    let nameLen ← loadIn 1 block entry
    let same ← matchesNameIn block name entry nameLen
    if same then readValueIn block entry buffer
    else getFromIn name buffer count (entry + entrySize nameLen)

def listFromIn (buffer : Option Nat) :
    (count entry : Nat) → List UInt8 → Option (Except Errno (List UInt8))
  | 0, _, done => some (.ok done)
  | count + 1, entry, done => do
    let nameLen ← loadIn 1 block entry
    if buffer.any (· < done.length + (nameLen + 1)) then some (.error .erange)
    else do
      let name ← sliceIn block (entry + entryHeaderSize) nameLen
      listFromIn buffer count (entry + entrySize nameLen) (done ++ name ++ [0])

def findFromIn (name : List UInt8) : (count i entry : Nat) → Option Nat → Option (Option Nat)
  | 0, _, _, found => some found
  | count + 1, i, entry, found => do
    let _ ← loadIn 2 block (entry + 2)
    let nameLen ← loadIn 1 block entry
    let same ← matchesNameIn block name entry nameLen
    findFromIn name count (i + 1) (entry + entrySize nameLen) (if same then some i else found)

def writeEntryIn (tmp : Bytes.Buffer) (entry offs : Nat) (name value : List UInt8) :
    Option Bytes.Buffer := do
  let tmp ← storeIn 1 tmp entry name.length
  let tmp ← storeIn 1 tmp (entry + 1) 0
  let tmp ← storeIn 4 tmp (entry + 4) value.length
  let tmp ← storeIn 2 tmp (entry + 2) offs
  let tmp ← copyIn tmp (entry + entryHeaderSize) name
  let tmp ← copyIn tmp offs value
  storeIn 4 tmp 4 (hCount tmp + 1)

/-- The name and the value are read after the check for space. -/
def addEntryIn (nameLen valueSize : Nat) (name value : Option (List UInt8)) (b : Build) :
    Option (Except Errno Build) :=
  if b.valuesStart < valueSize then some (.error .enospc)
  else do
    let valuesStart ← subIn b.valuesStart valueSize
    if valuesStart < b.entriesEnd + entrySize nameLen then some (.error .enospc)
    else do
      let name ← name
      let value ← value
      let tmp ← writeEntryIn b.tmp b.entriesEnd valuesStart name value
      some (.ok ⟨tmp, b.entriesEnd + entrySize nameLen, valuesStart⟩)

def copyFromIn (found : Option Nat) : (count j src : Nat) → Build → Option (Except Errno Build)
  | 0, _, _, b => some (.ok b)
  | count + 1, j, src, b => do
    let nameLen ← loadIn 1 block src
    if found = some j then copyFromIn found count (j + 1) (src + entrySize nameLen) b
    else do
      let valueSize ← loadIn 4 block (src + 4)
      let value := (loadIn 2 block (src + 2)).bind fun offs => sliceIn block offs valueSize
      match ← addEntryIn nameLen valueSize (sliceIn block (src + entryHeaderSize) nameLen) value b with
      | .error e => some (.error e)
      | .ok b => copyFromIn found count (j + 1) (src + entrySize nameLen) b

def rebuildIn (found : Option Nat) (name : List UInt8) (value : Option (List UInt8)) :
    Option (Except Errno Bytes.Buffer) := do
  match ← copyFromIn block found (hCount block) 0 headerSize ⟨emptyBlock, headerSize, blockSize⟩ with
  | .error e => some (.error e)
  | .ok b =>
    match value with
    | none => some (.ok b.tmp)
    | some value => do
      let added ← addEntryIn name.length value.length (some name) (some value) b
      some (added.map Build.tmp)

end Code

variable {block : Bytes.Buffer} {count entry : Nat}

theorem loadIn_eq {width off : Nat} {m : Bytes.Buffer} (inside : off + width ≤ blockSize) :
    loadIn width m off = some (load width m off) := if_pos inside

theorem sliceIn_eq {off len : Nat} {m : Bytes.Buffer} (inside : off + len ≤ blockSize) :
    sliceIn m off len = some (slice m off len) := if_pos inside

theorem storeIn_eq {width off x : Nat} {m : Bytes.Buffer} (inside : off + width ≤ blockSize) :
    storeIn width m off x = some (store width m off x) := if_pos inside

theorem copyIn_eq {off : Nat} {m : Bytes.Buffer} {src : List UInt8}
    (inside : off + src.length ≤ blockSize) : copyIn m off src = some (copy m off src) :=
  if_pos inside

theorem subIn_eq {a b : Nat} (le : b ≤ a) : subIn a b = some (a - b) := if_pos le

/-! ## Accepted entries -/

/-- The entry and its value lie inside the block. -/
structure EntryIn (block : Bytes.Buffer) (entry : Nat) : Prop where
  header : entry + 8 ≤ blockSize
  whole : entry + entrySize (eNameLen block entry) ≤ blockSize
  value : eValueOffs block entry + eValueSize block entry ≤ blockSize

/-- The validation goes through this many entries. -/
def Walk (block : Bytes.Buffer) (count entry : Nat) : Prop :=
  ∃ valuesStart ends, validateFrom block count entry valuesStart = .ok ends

theorem Walk.step (walk : Walk block (count + 1) entry) :
    EntryIn block entry ∧ Walk block count (nextEntry block entry) := by
  obtain ⟨valuesStart, ends, run⟩ := walk
  have size : blockSize = 4096 := rfl
  have head : entryHeaderSize = 8 := rfl
  rw [validateFrom] at run
  split at run
  · cases run
  split at run
  · cases run
  split at run
  · cases run
  next header whole value =>
    exact ⟨⟨by omega, by omega, by omega⟩, _, _, run⟩

theorem walk_of_valid (accepted : validate block = .ok ()) : Walk block (hCount block) headerSize := by
  rw [validate] at accepted
  split at accepted
  · cases accepted
  split at accepted
  · cases accepted
  split at accepted
  · cases accepted
  next run => exact ⟨blockSize, _, run⟩

/-! ## The loops that read -/

theorem validateFromIn_eq (block : Bytes.Buffer) (count entriesEnd valuesStart : Nat) :
    validateFromIn block count entriesEnd valuesStart =
      some (validateFrom block count entriesEnd valuesStart) := by
  have size : blockSize = 4096 := rfl
  have head : entryHeaderSize = 8 := rfl
  induction count generalizing entriesEnd valuesStart with
  | zero => rfl
  | succ count ih =>
    rw [validateFromIn, validateFrom]
    split
    · rfl
    rw [loadIn_eq (by omega), subIn_eq (by omega), loadIn_eq (by omega), loadIn_eq (by omega)]
    simp only [Option.bind_eq_bind, Option.bind_some, ih]
    rw [eNameLen, eValueOffs, eValueSize, nextEntry, eNameLen]
    split
    · rfl
    by_cases far : blockSize < load 2 block (entriesEnd + 2)
    · rw [if_pos far, if_pos (.inl far)]
    · rw [if_neg far, subIn_eq (by omega), Option.bind_some]
      by_cases long : blockSize - load 2 block (entriesEnd + 2) < load 4 block (entriesEnd + 4)
      · rw [if_pos long, if_pos (.inr long)]
      · rw [if_neg long, if_neg (not_or.mpr ⟨far, long⟩)]

theorem EntryIn.nameLen (inside : EntryIn block entry) :
    loadIn 1 block entry = some (eNameLen block entry) :=
  loadIn_eq (by have := inside.header; omega)

theorem EntryIn.valueOffs (inside : EntryIn block entry) :
    loadIn 2 block (entry + 2) = some (eValueOffs block entry) :=
  loadIn_eq (by have := inside.header; omega)

theorem EntryIn.valueSize (inside : EntryIn block entry) :
    loadIn 4 block (entry + 4) = some (eValueSize block entry) :=
  loadIn_eq (by have := inside.header; omega)

theorem EntryIn.name (inside : EntryIn block entry) :
    sliceIn block (entry + entryHeaderSize) (eNameLen block entry) =
      some (eName block entry (eNameLen block entry)) := by
  have whole := inside.whole
  have wide := entrySize_ge (eNameLen block entry)
  exact sliceIn_eq (by omega)

theorem EntryIn.matchesName (inside : EntryIn block entry) (name : List UInt8) :
    matchesNameIn block name entry (eNameLen block entry) =
      some (matchesName block name entry) := by
  rw [matchesNameIn, Xattr.matchesName]
  split
  next same =>
    have read := inside.name
    rw [same] at read
    rw [read, same, beq_self_eq_true, Bool.true_and]
    rfl
  next other => rw [beq_eq_false_iff_ne.mpr other, Bool.false_and]

theorem EntryIn.readValue (inside : EntryIn block entry) (buffer : Option Nat) :
    readValueIn block entry buffer = some (readValue block entry buffer) := by
  rw [readValueIn, inside.valueSize]
  cases buffer with
  | none => rfl
  | some size =>
    simp only [Xattr.readValue, Option.bind_eq_bind, Option.bind_some]
    split
    · rfl
    · rw [inside.valueOffs, Option.bind_some, sliceIn_eq inside.value, Option.bind_some]

theorem Walk.getFrom (walk : Walk block count entry) (name : List UInt8) (buffer : Option Nat) :
    getFromIn block name buffer count entry = some (getFrom block name buffer count entry) := by
  induction count generalizing entry with
  | zero => rfl
  | succ count ih =>
    obtain ⟨inside, later⟩ := walk.step
    rw [getFromIn, Xattr.getFrom, inside.nameLen]
    simp only [Option.bind_eq_bind, Option.bind_some, inside.matchesName]
    split
    · exact inside.readValue buffer
    · exact ih later

theorem Walk.listFrom (walk : Walk block count entry) (buffer : Option Nat) (done : List UInt8) :
    listFromIn block buffer count entry done = some (listFrom block buffer count entry done) := by
  induction count generalizing entry done with
  | zero => rfl
  | succ count ih =>
    obtain ⟨inside, later⟩ := walk.step
    rw [listFromIn, Xattr.listFrom, inside.nameLen, Option.bind_eq_bind, Option.bind_some]
    split
    · rfl
    · rw [inside.name, Option.bind_eq_bind, Option.bind_some]
      exact ih later _

theorem Walk.findFrom (walk : Walk block count entry) (name : List UInt8) (i : Nat)
    (found : Option Nat) :
    findFromIn block name count i entry found = some (findFrom block name count i entry found) := by
  induction count generalizing entry i found with
  | zero => rfl
  | succ count ih =>
    obtain ⟨inside, later⟩ := walk.step
    rw [findFromIn, Xattr.findFrom, inside.valueOffs, inside.nameLen]
    simp only [Option.bind_eq_bind, Option.bind_some, inside.matchesName]
    exact ih later _ _

/-! ## The rebuilt block -/

theorem writeEntryIn_eq {tmp : Bytes.Buffer} {offs : Nat} {name value : List UInt8}
    (room : entry + entrySize name.length ≤ offs) (inside : offs + value.length ≤ blockSize) :
    writeEntryIn tmp entry offs name value = some (writeEntry tmp entry offs name value) := by
  have wide := entrySize_ge name.length
  have size : blockSize = 4096 := rfl
  have head : entryHeaderSize = 8 := rfl
  rw [writeEntryIn, storeIn_eq (by omega)]
  simp only [Option.bind_eq_bind, Option.bind_some]
  rw [storeIn_eq (by omega), Option.bind_some, storeIn_eq (by omega), Option.bind_some,
    storeIn_eq (by omega), Option.bind_some, copyIn_eq (by omega), Option.bind_some,
    copyIn_eq inside, Option.bind_some, storeIn_eq (by omega)]
  rfl

theorem addEntryIn_eq {b : Build} (inside : b.valuesStart ≤ blockSize) (name value : List UInt8) :
    addEntryIn name.length value.length (some name) (some value) b =
      some (addEntry name value b) := by
  rw [addEntryIn, addEntry]
  by_cases large : b.valuesStart < value.length
  · rw [if_pos large, if_pos (.inl large)]
  rw [if_neg large, subIn_eq (by omega)]
  simp only [Option.bind_eq_bind, Option.bind_some]
  by_cases full : b.valuesStart - value.length < b.entriesEnd + entrySize name.length
  · rw [if_pos full, if_pos (.inr full)]
  · rw [if_neg full, if_neg (not_or.mpr ⟨large, full⟩), writeEntryIn_eq (by omega) (by omega)]
    rfl

theorem eNameLen_le (block : Bytes.Buffer) (entry : Nat) : eNameLen block entry ≤ 255 :=
  Nat.le_of_lt_succ (load_lt ..)

/-- The copy of an accepted block stays in bounds and has the form of a proper block. -/
theorem Walk.copyFrom (walk : Walk block count entry) (found : Option Nat) (j : Nat) {b : Build}
    {attrs : List Attr} (built : Built b attrs) :
    copyFromIn block found count j entry b = some (copyFrom block found count j entry b) ∧
      ∀ b', copyFrom block found count j entry b = .ok b' → ∃ attrs', Built b' attrs' := by
  induction count generalizing entry j b attrs with
  | zero => exact ⟨rfl, fun b' done => ⟨attrs, Except.ok.inj done ▸ built⟩⟩
  | succ count ih =>
    obtain ⟨inside, later⟩ := walk.step
    have start := built.valuesStart
    rw [copyFromIn, Xattr.copyFrom, inside.nameLen, Option.bind_eq_bind, Option.bind_some]
    split
    · exact ih later _ built
    have value := sliceIn_eq (m := block) inside.value
    have added := addEntryIn_eq (b := b) (by omega)
      (eName block entry (eNameLen block entry))
      (slice block (eValueOffs block entry) (eValueSize block entry))
    have grown := built.addEntry (a := (eName block entry (eNameLen block entry),
      slice block (eValueOffs block entry) (eValueSize block entry)))
      (by rw [eName, slice_length]; exact eNameLen_le block entry)
    rw [eName, slice_length, slice_length, ← eName] at added
    rw [inside.valueSize, Option.bind_eq_bind, Option.bind_some, inside.valueOffs, inside.name,
      Option.bind_some, value]
    dsimp only
    rw [added, Option.bind_some]
    split at grown
    · obtain ⟨b', ok, built'⟩ := grown
      rw [ok]
      exact ih later _ built'
    · rw [grown]
      exact ⟨rfl, fun b' done => by cases done⟩

theorem Built.valid {b : Build} {attrs : List Attr} (built : Built b attrs) :
    validate b.tmp = .ok () :=
  built.table.valid (by have := built.valuesStart; omega) built.magic built.count

theorem rebuildIn_eq (accepted : validate block = .ok ()) (found : Option Nat)
    (name : List UInt8) (value : Option (List UInt8)) :
    rebuildIn block found name value = some (rebuild block found name value) := by
  obtain ⟨copied, kept⟩ := (walk_of_valid accepted).copyFrom found 0 emptyBlock_built
  rw [rebuildIn, rebuild, copied, Option.bind_eq_bind, Option.bind_some]
  cases run : copyFrom block found (hCount block) 0 headerSize
      ⟨emptyBlock, headerSize, blockSize⟩ with
  | error e => rfl
  | ok b =>
    obtain ⟨attrs, built⟩ := kept b run
    have start := built.valuesStart
    cases value with
    | none => rfl
    | some value =>
      dsimp only
      rw [addEntryIn_eq (by omega), Option.bind_some]
      change _ = some ((addEntry name value b).bind fun b' => .ok b'.tmp)
      cases addEntry name value b with
      | error e => rfl
      | ok b' => rfl

/-- The rebuilt block is accepted, for what was copied and appended has the form of a proper
block even where the old values overlapped or a name was there twice. -/
theorem rebuild_accepted (accepted : validate block = .ok ()) (found : Option Nat)
    {name : List UInt8} (short : name.length ≤ 255) (value : Option (List UInt8))
    {tmp : Bytes.Buffer} (done : rebuild block found name value = .ok tmp) :
    validate tmp = .ok () := by
  obtain ⟨-, kept⟩ := (walk_of_valid accepted).copyFrom found 0 emptyBlock_built
  rw [rebuild] at done
  cases run : copyFrom block found (hCount block) 0 headerSize
      ⟨emptyBlock, headerSize, blockSize⟩ with
  | error e =>
    rw [run] at done
    cases done
  | ok b =>
    obtain ⟨attrs, built⟩ := kept b run
    rw [run] at done
    cases value with
    | none => exact Except.ok.inj done ▸ built.valid
    | some value =>
      have grown := built.addEntry (a := (name, value)) short
      change (addEntry name value b).bind (fun b' => .ok b'.tmp) = .ok tmp at done
      split at grown
      · obtain ⟨b', ok, built'⟩ := grown
        rw [ok] at done
        exact Except.ok.inj done ▸ built'.valid
      · rw [grown] at done
        cases done

/-! ## The block of an inode -/

/-- The inode has no block or one that is accepted. -/
def Accepted (s : State) : Prop :=
  s.iXattrBlock ≠ 0 → validate (s.blocks s.iXattrBlock) = .ok ()

theorem newBlock_keeps (faults : SetFaults) : Keeps Accepted (newBlock faults) := by
  intro s accepted
  rw [newBlock]
  cases Space.getFreeBlocks faults.busy faults.take 1 s.space with
  | mk bno space =>
    cases bno with
    | zero => exact accepted
    | succ bno =>
      cases faults.getFolio with
      | some e => exact accepted
      | none =>
        intro _
        simp only [Function.update_self]
        exact emptyBlock_encodes.valid

theorem openBlock_keeps (faults : SetFaults) : Keeps Accepted (openBlock faults) := by
  refine Keeps.read.bind fun s => (newBlock_keeps faults).ite ((Keeps.check _).bind fun _ => ?_)
  cases validate (s.blocks s.iXattrBlock) with
  | error e => exact Keeps.fail _
  | ok _ => exact Keeps.pure _

theorem lookupForSet_keeps (faults : SetFaults) (args : SetArgs) :
    Keeps Accepted (lookupForSet faults args) :=
  (openBlock_keeps faults).bind fun _ => Keeps.read.bind fun _ =>
    (Keeps.refuse _ _).bind fun _ => (Keeps.refuse _ _).bind fun _ => Keeps.pure _

theorem writeBack_keeps {args : SetArgs} (short : args.name.length ≤ 255) (faults : SetFaults)
    (found : Option Nat) : Keeps Accepted (writeBack faults args found) := by
  refine (Keeps.refuse _ _).bind fun _ s accepted => Ends.read_bind ?_
  refine Ends.bind (fun tmp s' => s = s' ∧ (s.iXattrBlock ≠ 0 → validate tmp = .ok ()))
    (Ends.lift (fun tmp done => ⟨rfl, fun block => ?_⟩) fun _ _ => accepted) ?_
  · exact rebuild_accepted (accepted block) found short args.value done
  rintro tmp _ ⟨rfl, fine⟩
  refine Ends.bind (fun _ => Accepted) (fun block => ?_) fun _ s' accepted' => ?_
  · simp only [Function.update_self]
    exact fine block
  · exact Ends.check_bind (fun _ _ => accepted') fun _ => accepted'

theorem set_keeps (faults : SetFaults) (args : SetArgs) : Keeps Accepted (set faults args) := by
  intro s accepted
  refine Ends.refuse_bind (fun _ => accepted) fun short => ?_
  have body : Keeps Accepted (do
      let found ← lookupForSet faults args
      writeBack faults args found) :=
    (lookupForSet_keeps faults args).bind fun found =>
      writeBack_keeps (by simpa using short) faults found
  refine Ends.read_bind ?_
  split
  · exact Keeps.refuse _ _ s accepted
  · exact (Keeps.check faults.start).bind (fun _ => body.bind fun _ => Keeps.check faults.stop)
      s accepted

/-- On an accepted block no access leaves the block or the scratch buffer and no size wraps, and
`simplefs_xattr_set` leaves an accepted block, however it ends. -/
theorem accepted_in_bounds (s : State) (accepted : Accepted s) (block : s.iXattrBlock ≠ 0)
    (name : List UInt8) (buffer : Option Nat) (faults : SetFaults) (args : SetArgs) :
    let b := s.blocks s.iXattrBlock
    validateFromIn b (hCount b) headerSize blockSize =
        some (validateFrom b (hCount b) headerSize blockSize) ∧
      getFromIn b name buffer (hCount b) headerSize =
        some (getFrom b name buffer (hCount b) headerSize) ∧
      listFromIn b buffer (hCount b) headerSize [] =
        some (listFrom b buffer (hCount b) headerSize []) ∧
      (∃ found, findFromIn b args.name (hCount b) 0 headerSize none = some found ∧
        findFrom b args.name (hCount b) 0 headerSize none = found ∧
        rebuildIn b found args.name args.value = some (rebuild b found args.name args.value)) ∧
      Accepted (set faults args s).2 := by
  intro b
  have valid := accepted block
  have walk := walk_of_valid valid
  exact ⟨validateFromIn_eq .., walk.getFrom name buffer, walk.listFrom buffer [],
    ⟨_, walk.findFrom args.name 0 none, rfl, rebuildIn_eq valid _ args.name args.value⟩,
    (set_keeps faults args).state accepted⟩

/-- A block whose two entries have one name and one value. -/
def doubled : State :=
  { freshInode with
    iXattrBlock := 9
    blocks := fun _ => writeEntry (writeEntry emptyBlock 8 4092 [117] [1, 2]) 20 4092 [117] [1, 2] }

theorem doubled_in_bounds :
    Accepted doubled ∧ Accepted (set {} ⟨[117], none, false, false⟩ doubled).2 := by
  have accepted : Accepted doubled := fun _ => by decide +kernel
  exact ⟨accepted, (accepted_in_bounds doubled accepted (by decide) [117] none {}
    ⟨[117], none, false, false⟩).2.2.2.2⟩

end SimpleFs.Xattr

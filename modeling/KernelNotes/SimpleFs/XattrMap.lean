import KernelNotes.SimpleFs.Xattr

/-!
# The attribute block is a finite map

`Encodes` relates the bytes of a block to a list of attributes with distinct names. Each of
the five loops, run on an encoded block, computes a function of that list. A rebuild appends
attributes one at a time to a block that encodes the earlier ones, and fails exactly when
the sizes do not fit.
-/

namespace SimpleFs.Xattr

open Bytes Outcome

/-- A name and its value. -/
abbrev Attr := List UInt8 × List UInt8

def entriesSize (attrs : List Attr) : Nat := (attrs.map fun a => entrySize a.1.length).sum

def valuesSize (attrs : List Attr) : Nat := (attrs.map fun a => a.2.length).sum

/-- What the attributes need: header, aligned entries and values. -/
def blockBytes (attrs : List Attr) : Nat := headerSize + entriesSize attrs + valuesSize attrs

/-- The attributes after a set: the others, and the new one if there is a value. -/
def assign (name : List UInt8) (value : Option (List UInt8)) (attrs : List Attr) : List Attr :=
  attrs.filter (fun a => a.1 ≠ name) ++ value.toList.map fun v => (name, v)

theorem entrySize_ge (n : Nat) : entryHeaderSize + n ≤ entrySize n := by
  rw [entrySize]
  omega

@[simp] theorem entriesSize_nil : entriesSize [] = 0 := rfl

@[simp] theorem entriesSize_cons (a : Attr) (rest : List Attr) :
    entriesSize (a :: rest) = entrySize a.1.length + entriesSize rest := by simp [entriesSize]

@[simp] theorem entriesSize_append (xs ys : List Attr) :
    entriesSize (xs ++ ys) = entriesSize xs + entriesSize ys := by simp [entriesSize]

@[simp] theorem valuesSize_nil : valuesSize [] = 0 := rfl

@[simp] theorem valuesSize_cons (a : Attr) (rest : List Attr) :
    valuesSize (a :: rest) = a.2.length + valuesSize rest := by simp [valuesSize]

@[simp] theorem valuesSize_append (xs ys : List Attr) :
    valuesSize (xs ++ ys) = valuesSize xs + valuesSize ys := by simp [valuesSize]

theorem length_le_entriesSize (attrs : List Attr) : 8 * attrs.length ≤ entriesSize attrs := by
  induction attrs with
  | nil => simp
  | cons a rest ih =>
    have := entrySize_ge a.1.length
    rw [entryHeaderSize] at this
    rw [entriesSize_cons, List.length_cons]
    omega

/-! ## Encoded blocks -/

/-- The entry describes the attribute, and its value is where the entry says. -/
structure EntryAt (block : Bytes.Buffer) (entry : Nat) (a : Attr) : Prop where
  nameLen : eNameLen block entry = a.1.length
  name : eName block entry a.1.length = a.1
  valueSize : eValueSize block entry = a.2.length
  value : slice block (eValueOffs block entry) a.2.length = a.2

/-- The attributes stand one after the other from `entry` on, with all values in
`[low, blockSize)` and the entries below `low`. -/
def Table (block : Bytes.Buffer) (low : Nat) : Nat → List Attr → Prop
  | entry, [] => entry ≤ low
  | entry, a :: rest =>
    EntryAt block entry a ∧ low ≤ eValueOffs block entry ∧
      eValueOffs block entry + a.2.length ≤ blockSize ∧
      Table block low (entry + entrySize a.1.length) rest

variable {block : Bytes.Buffer} {low entry : Nat} {attrs : List Attr} {a : Attr} {name : List UInt8}
  {b : Build} {s : State} {args : SetArgs}

theorem Table.below (table : Table block low entry attrs) : entry + entriesSize attrs ≤ low := by
  induction attrs generalizing entry with
  | nil => exact table
  | cons a rest ih =>
    have := ih table.2.2.2
    rw [entriesSize_cons]
    omega

theorem EntryAt.next (at_ : EntryAt block entry a) :
    nextEntry block entry = entry + entrySize a.1.length := by
  rw [nextEntry, at_.nameLen]

theorem EntryAt.matchesName (at_ : EntryAt block entry a) (name : List UInt8) :
    matchesName block name entry = decide (a.1 = name) := by
  rw [Xattr.matchesName, at_.nameLen, Bool.eq_iff_iff]
  simp only [Bool.and_eq_true, beq_iff_eq, decide_eq_true_eq]
  constructor
  · rintro ⟨same, found⟩
    rw [← found, ← same, at_.name]
  · rintro rfl
    exact ⟨rfl, at_.name⟩

theorem EntryAt.congr {m m' : Bytes.Buffer} (at_ : EntryAt m entry a)
    (entries : Agree m m' entry (entry + entrySize a.1.length)) (values : Agree m m' low blockSize)
    (above : low ≤ eValueOffs m entry) (inside : eValueOffs m entry + a.2.length ≤ blockSize) :
    EntryAt m' entry a ∧ eValueOffs m' entry = eValueOffs m entry := by
  have room := entrySize_ge a.1.length
  rw [entryHeaderSize] at room
  have offs : eValueOffs m' entry = eValueOffs m entry :=
    (load_congr (entries.narrow (by omega) (by omega))).symm
  refine ⟨⟨?_, ?_, ?_, ?_⟩, offs⟩
  · exact (load_congr (entries.narrow (by omega) (by omega))).symm.trans at_.nameLen
  · refine (slice_congr (entries.narrow ?_ ?_)).symm.trans at_.name
    · omega
    · rw [entryHeaderSize]
      omega
  · exact (load_congr (entries.narrow (by omega) (by omega))).symm.trans at_.valueSize
  · rw [offs]
    exact (slice_congr (values.narrow above inside)).symm.trans at_.value

theorem Table.congr {m m' : Bytes.Buffer} {low' : Nat} (table : Table m low entry attrs)
    (entries : Agree m m' entry (entry + entriesSize attrs)) (values : Agree m m' low blockSize)
    (lower : low' ≤ low) (room : entry + entriesSize attrs ≤ low') : Table m' low' entry attrs := by
  induction attrs generalizing entry with
  | nil => exact room
  | cons a rest ih =>
    obtain ⟨at_, above, inside, later⟩ := table
    rw [entriesSize_cons] at entries room
    obtain ⟨at_', offs⟩ := at_.congr (entries.narrow le_rfl (by omega)) values above inside
    refine ⟨at_', by omega, by omega, ih later (entries.narrow (by omega) (by omega)) (by omega)⟩

theorem Table.append (table : Table block low entry attrs)
    (at_ : EntryAt block (entry + entriesSize attrs) a)
    (above : low ≤ eValueOffs block (entry + entriesSize attrs))
    (inside : eValueOffs block (entry + entriesSize attrs) + a.2.length ≤ blockSize)
    (room : entry + entriesSize attrs + entrySize a.1.length ≤ low) :
    Table block low entry (attrs ++ [a]) := by
  induction attrs generalizing entry with
  | nil => exact ⟨at_, above, inside, room⟩
  | cons b rest ih =>
    obtain ⟨first, firstAbove, firstInside, later⟩ := table
    rw [entriesSize_cons, ← Nat.add_assoc] at at_ above inside room
    exact ⟨first, firstAbove, firstInside, ih later at_ above inside room⟩

/-- The block holds exactly these attributes, under distinct names. -/
structure Encodes (block : Bytes.Buffer) (attrs : List Attr) : Prop where
  magic : hMagic block = magic
  count : hCount block = attrs.length
  table : ∃ low, low ≤ blockSize ∧ Table block low headerSize attrs
  distinct : (attrs.map Prod.fst).Nodup

/-! ## The loops that read -/

theorem validateFrom_table {valuesStart : Nat} (table : Table block low entry attrs)
    (lowInside : low ≤ blockSize) (start : low ≤ valuesStart) :
    ∃ valuesStart', low ≤ valuesStart' ∧
      validateFrom block attrs.length entry valuesStart =
        .ok (entry + entriesSize attrs, valuesStart') := by
  induction attrs generalizing entry valuesStart with
  | nil => exact ⟨valuesStart, start, rfl⟩
  | cons a rest ih =>
    have below := table.below
    obtain ⟨at_, above, inside, later⟩ := table
    rw [entriesSize_cons] at below ⊢
    have room := entrySize_ge a.1.length
    rw [List.length_cons, validateFrom, at_.next, at_.nameLen, at_.valueSize,
      if_neg (by omega), if_neg (by omega), if_neg (by omega)]
    obtain ⟨valuesStart', low', run⟩ := ih later (le_min start above)
    exact ⟨valuesStart', low', by rw [run, Nat.add_assoc]⟩

theorem Table.valid (table : Table block low headerSize attrs) (lowInside : low ≤ blockSize)
    (head : hMagic block = magic) (count : hCount block = attrs.length) :
    validate block = .ok () := by
  have below := table.below
  have few := length_le_entriesSize attrs
  have size : blockSize = 4096 := rfl
  obtain ⟨valuesStart, start, run⟩ := validateFrom_table table lowInside lowInside
  have fewEntries : ¬ (blockSize - headerSize) / entryHeaderSize < attrs.length := by
    simp only [headerSize, entryHeaderSize, size] at below ⊢
    omega
  rw [validate, if_neg (not_not.2 head), count, if_neg fewEntries, run]
  exact if_neg (by omega)

theorem Encodes.valid (encodes : Encodes block attrs) : validate block = .ok () := by
  obtain ⟨low, lowInside, table⟩ := encodes.table
  exact table.valid lowInside encodes.magic encodes.count

/-- What `simplefs_xattr_get` reports for a value, and for none. -/
def answer (buffer : Option Nat) : Option (List UInt8) → Except Errno (Nat × List UInt8)
  | none => .error .enodata
  | some value =>
    match buffer with
    | none => .ok (value.length, [])
    | some size => if size < value.length then .error .erange else .ok (value.length, value)

theorem getFrom_table (table : Table block low entry attrs) (name : List UInt8)
    (buffer : Option Nat) :
    getFrom block name buffer attrs.length entry = answer buffer (attrs.lookup name) := by
  induction attrs generalizing entry with
  | nil => rfl
  | cons a rest ih =>
    obtain ⟨at_, _, _, later⟩ := table
    rw [List.length_cons, getFrom, at_.matchesName, at_.next, ih later, List.lookup]
    by_cases same : a.1 = name
    · have found : (name == a.1) = true := by rw [same, beq_self_eq_true]
      rw [decide_eq_true same, if_pos rfl, found]
      cases buffer with
      | none => rw [readValue, at_.valueSize, answer]
      | some size => rw [readValue, at_.valueSize, at_.value, answer]
    · have other : (name == a.1) = false := beq_eq_false_iff_ne.2 fun eq => same eq.symm
      rw [decide_eq_false same, other]
      rfl

/-- The names as `simplefs_listxattr` writes them, each with a zero byte. -/
def listing (names : List (List UInt8)) : List UInt8 := names.flatMap fun name => name ++ [0]

theorem listFrom_table (table : Table block low entry attrs) (buffer : Option Nat)
    (done : List UInt8)
    (room : ∀ size ∈ buffer, done.length + (listing (attrs.map Prod.fst)).length ≤ size) :
    listFrom block buffer attrs.length entry done = .ok (done ++ listing (attrs.map Prod.fst)) := by
  induction attrs generalizing entry done with
  | nil => simp [listFrom, listing]
  | cons a rest ih =>
    obtain ⟨at_, _, _, later⟩ := table
    have split : listing ((a :: rest).map Prod.fst) =
        a.1 ++ [0] ++ listing (rest.map Prod.fst) := by
      simp [listing]
    rw [split] at room ⊢
    have fits : ¬ buffer.any (· < done.length + (a.1.length + 1)) = true := by
      rw [Option.any_eq_true]
      rintro ⟨size, held, short⟩
      have := room size held
      simp only [List.length_append, List.length_singleton, decide_eq_true_eq] at this short
      omega
    rw [List.length_cons, listFrom, at_.nameLen, if_neg fits, at_.name, at_.next, ih later]
    · simp [List.append_assoc]
    · intro size held
      have := room size held
      simp only [List.length_append, List.length_singleton] at this ⊢
      omega

theorem findFrom_absent (table : Table block low entry attrs) (absent : name ∉ attrs.map Prod.fst)
    (i : Nat) (found : Option Nat) : findFrom block name attrs.length i entry found = found := by
  induction attrs generalizing entry i with
  | nil => rfl
  | cons a rest ih =>
    obtain ⟨at_, _, _, later⟩ := table
    rw [List.map_cons, List.mem_cons, not_or] at absent
    rw [List.length_cons, findFrom, at_.matchesName, at_.next,
      decide_eq_false fun eq => absent.1 eq.symm]
    exact ih later absent.2 (i + 1)

theorem findFrom_table (table : Table block low entry attrs) (distinct : (attrs.map Prod.fst).Nodup)
    (name : List UInt8) (i : Nat) :
    findFrom block name attrs.length i entry none =
      (attrs.findIdx? fun a => decide (a.1 = name)).map (· + i) := by
  induction attrs generalizing entry i with
  | nil => rfl
  | cons a rest ih =>
    obtain ⟨at_, _, _, later⟩ := table
    rw [List.map_cons, List.nodup_cons] at distinct
    rw [List.length_cons, findFrom, at_.matchesName, at_.next, List.findIdx?_cons]
    by_cases same : a.1 = name
    · rw [decide_eq_true same, if_pos rfl, if_pos rfl,
        findFrom_absent later (same ▸ distinct.1)]
      simp
    · rw [decide_eq_false same, if_neg (by simp), if_neg (by simp), ih later distinct.2]
      cases (rest.findIdx? fun a => decide (a.1 = name)) with
      | none => rfl
      | some k => simp [Nat.add_assoc, Nat.add_comm 1 i]

/-! ## The loop that rebuilds -/

/-- Append attributes one after the other. -/
def addAll (attrs : List Attr) (b : Build) : Except Errno Build :=
  attrs.foldlM (fun b a => addEntry a.1 a.2 b) b

/-- The attributes without the one at position `found`, counted from `j`. -/
def without (found : Option Nat) : Nat → List Attr → List Attr
  | _, [] => []
  | j, a :: rest =>
    if found = some j then without found (j + 1) rest else a :: without found (j + 1) rest

theorem copyFrom_table (table : Table block low entry attrs) (found : Option Nat) (j : Nat)
    (b : Build) :
    copyFrom block found attrs.length j entry b = addAll (without found j attrs) b := by
  induction attrs generalizing entry j b with
  | nil => rfl
  | cons a rest ih =>
    obtain ⟨at_, _, _, later⟩ := table
    rw [List.length_cons, copyFrom, without, at_.next]
    split
    · exact ih later (j + 1) b
    · rw [at_.nameLen, at_.name, at_.valueSize, at_.value]
      simp only [ih later, addAll, List.foldlM_cons]

theorem without_none (attrs : List Attr) (found : Option Nat) (j : Nat)
    (before : ∀ k, found = some k → k < j) : without found j attrs = attrs := by
  induction attrs generalizing j with
  | nil => rfl
  | cons a rest ih =>
    rw [without, if_neg fun here => by have := before j here; omega,
      ih (j + 1) fun k here => by have := before k here; omega]

theorem without_found (distinct : (attrs.map Prod.fst).Nodup) (name : List UInt8) (j : Nat) :
    without ((attrs.findIdx? fun a => decide (a.1 = name)).map (· + j)) j attrs =
      attrs.filter fun a => a.1 ≠ name := by
  induction attrs generalizing j with
  | nil => rfl
  | cons a rest ih =>
    rw [List.map_cons, List.nodup_cons] at distinct
    rw [List.findIdx?_cons, List.filter_cons]
    by_cases same : a.1 = name
    · have absent : ∀ b ∈ rest, b.1 ≠ name := fun b listed eq =>
        distinct.1 (List.mem_map.2 ⟨b, listed, eq.trans same.symm⟩)
      have all : rest.filter (fun a => decide (a.1 ≠ name)) = rest :=
        List.filter_eq_self.2 fun b listed => decide_eq_true (absent b listed)
      rw [decide_eq_true same, if_pos rfl, if_neg (by simp [same]), all]
      simp only [Option.map_some, Nat.zero_add, without, if_true]
      exact without_none rest _ (j + 1) fun k here => by cases here; omega
    · rw [decide_eq_false same, if_neg (by simp), if_pos (by simp [same]), without]
      have shift : ((rest.findIdx? fun a => decide (a.1 = name)).map (· + 1)).map (· + j) =
          (rest.findIdx? fun a => decide (a.1 = name)).map (· + (j + 1)) := by
        cases rest.findIdx? fun a => decide (a.1 = name) with
        | none => rfl
        | some k => simp [Nat.add_assoc, Nat.add_comm 1 j]
      rw [shift, ih distinct.2, if_neg]
      intro here
      obtain ⟨k, _, there⟩ := Option.map_eq_some_iff.1 here
      omega

/-- The buffer under construction holds these attributes. -/
structure Built (b : Build) (attrs : List Attr) : Prop where
  magic : hMagic b.tmp = magic
  count : hCount b.tmp = attrs.length
  entriesEnd : b.entriesEnd = headerSize + entriesSize attrs
  valuesStart : b.valuesStart + valuesSize attrs = blockSize
  table : Table b.tmp b.valuesStart headerSize attrs

theorem writeEntry_spec {tmp : Bytes.Buffer} {entry offs : Nat} {a : Attr} (short : a.1.length ≤ 255)
    (header : headerSize ≤ entry) (room : entry + entrySize a.1.length ≤ offs)
    (inside : offs + a.2.length ≤ blockSize) (few : hCount tmp < 4096) :
    let tmp' := writeEntry tmp entry offs a.1 a.2
    EntryAt tmp' entry a ∧ eValueOffs tmp' entry = offs ∧ hMagic tmp' = hMagic tmp ∧
      hCount tmp' = hCount tmp + 1 ∧ Agree tmp tmp' headerSize entry ∧
      Agree tmp tmp' (offs + a.2.length) blockSize := by
  intro tmp'
  have wide := entrySize_ge a.1.length
  have size : blockSize = 4096 := rfl
  simp only [entryHeaderSize, headerSize, size] at wide header inside
  have count : hCount (copy (copy (store 2 (store 4 (store 1 (store 1 tmp entry a.1.length)
      (entry + 1) 0) (entry + 4) a.2.length) (entry + 2) offs) (entry + 8) a.1) offs a.2) =
      hCount tmp := by
    simp (disch := omega) only [hCount, load_copy_apart, load_store_apart]
  have same : tmp' = store 4 (copy (copy (store 2 (store 4 (store 1 (store 1 tmp entry a.1.length)
      (entry + 1) 0) (entry + 4) a.2.length) (entry + 2) offs) (entry + 8) a.1) offs a.2) 4
      (hCount tmp + 1) := by
    rw [← count]
    rfl
  rw [same]
  have offset : eValueOffs (store 4 (copy (copy (store 2 (store 4 (store 1 (store 1 tmp entry
      a.1.length) (entry + 1) 0) (entry + 4) a.2.length) (entry + 2) offs) (entry + 8) a.1)
      offs a.2) 4 (hCount tmp + 1)) entry = offs := by
    simp (disch := omega) only [eValueOffs, load_copy_apart, load_store_apart]
    exact load_store _ (by omega)
  refine ⟨⟨?_, ?_, ?_, ?_⟩, offset, ?_, ?_, ?_, ?_⟩
  · simp (disch := omega) only [eNameLen, load_copy_apart, load_store_apart]
    exact load_store _ (by omega)
  · simp (disch := omega) only [eName, entryHeaderSize, slice_copy_apart, slice_store_apart]
    exact slice_copy _ _ _
  · simp (disch := omega) only [eValueSize, load_copy_apart, load_store_apart]
    exact load_store _ (by omega)
  · rw [offset]
    simp (disch := omega) only [slice_store_apart]
    exact slice_copy _ _ _
  · simp (disch := omega) only [hMagic, load_copy_apart, load_store_apart]
  · exact load_store _ (by omega)
  · have bottom : headerSize = 8 := rfl
    exact ((store_agree _ (by omega)).trans <| (copy_agree _ (by omega)).trans <|
      (copy_agree _ (by omega)).trans <| (store_agree _ (by omega)).trans <|
      (store_agree _ (by omega)).trans <| (store_agree _ (by omega)).trans <|
      store_agree _ (by omega)).symm
  · exact ((store_agree _ (by omega)).trans <| (copy_agree _ (by omega)).trans <|
      (copy_agree _ (by omega)).trans <| (store_agree _ (by omega)).trans <|
      (store_agree _ (by omega)).trans <| (store_agree _ (by omega)).trans <|
      store_agree _ (by omega)).symm

theorem Built.addEntry (built : Built b attrs) (short : a.1.length ≤ 255) :
    if blockBytes (attrs ++ [a]) ≤ blockSize then
      ∃ b', addEntry a.1 a.2 b = .ok b' ∧ Built b' (attrs ++ [a])
    else addEntry a.1 a.2 b = .error .enospc := by
  obtain ⟨tmp, entriesEnd, valuesStart⟩ := b
  obtain ⟨magic, count, ends, values, table⟩ := built
  dsimp only at magic count ends values table
  subst ends
  have few := length_le_entriesSize attrs
  have below := table.below
  have bytes : blockBytes (attrs ++ [a]) =
      headerSize + entriesSize attrs + entrySize a.1.length + (valuesSize attrs + a.2.length) := by
    rw [blockBytes, entriesSize_append, entriesSize_cons, entriesSize_nil, valuesSize_append,
      valuesSize_cons, valuesSize_nil]
    omega
  have size : blockSize = 4096 := rfl
  rw [bytes, Xattr.addEntry]
  dsimp only
  split
  · rename_i fits
    rw [if_neg (by omega)]
    refine ⟨_, rfl, ?_⟩
    obtain ⟨at_, offs, magicKept, counted, entries, valuesKept⟩ :=
      @writeEntry_spec tmp (headerSize + entriesSize attrs) (valuesStart - a.2.length) a short
        (Nat.le_add_right _ _) (by omega) (by omega) (by rw [count]; omega)
    generalize writeEntry tmp (headerSize + entriesSize attrs) (valuesStart - a.2.length) a.1 a.2 =
      tmp' at at_ offs magicKept counted entries valuesKept
    have kept : Table tmp' (valuesStart - a.2.length) headerSize attrs :=
      table.congr entries (valuesKept.narrow (by omega) le_rfl) (Nat.sub_le _ _) (by omega)
    refine ⟨magicKept.trans magic, ?_, ?_, ?_, ?_⟩
    · rw [List.length_append, List.length_singleton, ← count]
      exact counted
    · rw [entriesSize_append, entriesSize_cons, entriesSize_nil]
      exact Nat.add_assoc _ _ _
    · show valuesStart - a.2.length + valuesSize (attrs ++ [a]) = blockSize
      rw [valuesSize_append, valuesSize_cons, valuesSize_nil]
      omega
    · exact kept.append at_ offs.ge (by omega) (by omega)
  · rw [if_pos (by omega)]

theorem Built.bytes (built : Built b attrs) : blockBytes attrs ≤ blockSize := by
  have below := built.table.below
  have values := built.valuesStart
  rw [blockBytes]
  omega

theorem blockBytes_mono (attrs more : List Attr) : blockBytes attrs ≤ blockBytes (attrs ++ more) := by
  simp only [blockBytes, entriesSize_append, valuesSize_append]
  omega

theorem Built.addAll (built : Built b attrs) (more : List Attr)
    (short : ∀ a ∈ more, a.1.length ≤ 255) :
    if blockBytes (attrs ++ more) ≤ blockSize then
      ∃ b', addAll more b = .ok b' ∧ Built b' (attrs ++ more)
    else addAll more b = .error .enospc := by
  induction more generalizing b attrs with
  | nil =>
    rw [List.append_nil, if_pos built.bytes]
    exact ⟨b, rfl, built⟩
  | cons a rest ih =>
    have first := built.addEntry (short a List.mem_cons_self)
    have split : attrs ++ a :: rest = attrs ++ [a] ++ rest := by simp
    rw [split]
    by_cases fits : blockBytes (attrs ++ [a]) ≤ blockSize
    · rw [if_pos fits] at first
      obtain ⟨b', added, built'⟩ := first
      have run : Xattr.addAll (a :: rest) b = Xattr.addAll rest b' := by
        rw [Xattr.addAll, List.foldlM_cons, added]
        rfl
      rw [run]
      exact ih built' fun c listed => short c (List.mem_cons_of_mem a listed)
    · rw [if_neg fits] at first
      have more := blockBytes_mono (attrs ++ [a]) rest
      rw [if_neg (by omega), Xattr.addAll, List.foldlM_cons, first]
      rfl

theorem emptyBlock_built : Built ⟨emptyBlock, headerSize, blockSize⟩ [] where
  magic := by
    rw [hMagic, emptyBlock, load_store_apart _ (by omega)]
    exact load_store _ (by decide)
  count := load_store _ (by decide)
  entriesEnd := rfl
  valuesStart := rfl
  table := show headerSize ≤ blockSize by decide

theorem Table.short {block : Bytes.Buffer} {low entry : Nat} {attrs : List Attr}
    (table : Table block low entry attrs) : ∀ a ∈ attrs, a.1.length ≤ 255 := by
  induction attrs generalizing entry with
  | nil => simp
  | cons b rest ih =>
    obtain ⟨at_, _, _, later⟩ := table
    intro a listed
    rcases List.mem_cons.1 listed with rfl | old
    · have byte := load_lt 1 block entry
      have len := at_.nameLen
      rw [eNameLen] at len
      omega
    · exact ih later a old

theorem assign_short {value : Option (List UInt8)} (shortName : name.length ≤ 255)
    (short : ∀ a ∈ attrs, a.1.length ≤ 255) : ∀ a ∈ assign name value attrs, a.1.length ≤ 255 := by
  intro a listed
  rcases List.mem_append.1 listed with old | new
  · exact short a (List.mem_of_mem_filter old)
  · obtain ⟨v, _, rfl⟩ := List.mem_map.1 new
    exact shortName

theorem assign_distinct {value : Option (List UInt8)} (distinct : (attrs.map Prod.fst).Nodup) :
    ((assign name value attrs).map Prod.fst).Nodup := by
  rw [assign, List.map_append, List.nodup_append]
  refine ⟨(List.filter_sublist.map _).nodup distinct, ?_, ?_⟩
  · cases value with
    | none => simp
    | some v => simp
  · intro n old m new same
    obtain ⟨a, listed, rfl⟩ := List.mem_map.1 old
    obtain ⟨b, added, rfl⟩ := List.mem_map.1 new
    obtain ⟨v, _, rfl⟩ := List.mem_map.1 added
    have other := (List.mem_filter.1 listed).2
    simp [same] at other

theorem Encodes.rebuild_eq (encodes : Encodes block attrs) (name : List UInt8)
    (value : Option (List UInt8)) :
    rebuild block (findFrom block name (hCount block) 0 headerSize none) name value =
      (addAll (assign name value attrs) ⟨emptyBlock, headerSize, blockSize⟩).map Build.tmp := by
  obtain ⟨low, _, table⟩ := encodes.table
  rw [encodes.count, findFrom_table table encodes.distinct, rebuild, encodes.count,
    copyFrom_table table, without_found encodes.distinct, assign, addAll, addAll,
    List.foldlM_append]
  generalize (List.foldlM (fun (b : Build) (a : Attr) => addEntry a.1 a.2 b)
    ⟨emptyBlock, headerSize, blockSize⟩ (attrs.filter fun a => decide (a.1 ≠ name)) :
      Except Errno Build) = kept
  cases kept with
  | error e => rfl
  | ok b =>
    cases value with
    | none => rfl
    | some v =>
      simp only [Option.toList_some, List.map_cons, List.map_nil, List.foldlM_cons,
        List.foldlM_nil]
      show (addEntry name v b >>= fun b => pure b.tmp) =
        Except.map Build.tmp (addEntry name v b >>= pure)
      cases addEntry name v b with
      | error e => rfl
      | ok b' => rfl

theorem Encodes.rebuild (encodes : Encodes block attrs) (shortName : name.length ≤ 255)
    (value : Option (List UInt8)) :
    if blockBytes (assign name value attrs) ≤ blockSize then
      ∃ tmp, rebuild block (findFrom block name (hCount block) 0 headerSize none) name value =
        .ok tmp ∧ Encodes tmp (assign name value attrs)
    else
      rebuild block (findFrom block name (hCount block) 0 headerSize none) name value =
        .error .enospc := by
  obtain ⟨low, _, table⟩ := encodes.table
  have added := emptyBlock_built.addAll (assign name value attrs) (assign_short shortName table.short)
  rw [List.nil_append] at added
  rw [encodes.rebuild_eq]
  split
  · rename_i fits
    rw [if_pos fits] at added
    obtain ⟨b, run, built⟩ := added
    refine ⟨b.tmp, by rw [run]; rfl, built.magic, built.count, ⟨b.valuesStart, ?_, built.table⟩,
      assign_distinct encodes.distinct⟩
    have := built.valuesStart
    omega
  · rename_i full
    rw [if_neg full] at added
    rw [added]
    rfl

/-! ## Sequences of sets -/

/-- The inode has these attributes: none without a block, else what the block encodes. -/
structure Holds (s : State) (attrs : List Attr) : Prop where
  absent : s.iXattrBlock = 0 → attrs = []
  present : s.iXattrBlock ≠ 0 → Encodes (s.blocks s.iXattrBlock) attrs

/-- The inode has a block, it holds these attributes, and the search found what is there. -/
structure Ready (name : List UInt8) (attrs : List Attr) (found : Option Nat) (s : State) : Prop where
  block : s.iXattrBlock ≠ 0
  encodes : Encodes (s.blocks s.iXattrBlock) attrs
  found : found = findFrom (s.blocks s.iXattrBlock) name (hCount (s.blocks s.iXattrBlock)) 0
    headerSize none

theorem emptyBlock_encodes : Encodes emptyBlock [] where
  magic := emptyBlock_built.magic
  count := emptyBlock_built.count
  table := ⟨blockSize, le_rfl, emptyBlock_built.table⟩
  distinct := .nil

theorem newBlock_ends (faults : SetFaults) (s : State) :
    Ends (fun _ s' => s'.iXattrBlock ≠ 0 ∧ Encodes (s'.blocks s'.iXattrBlock) [])
      (fun _ _ => True) (newBlock faults s) := by
  rw [newBlock]
  cases Space.getFreeBlocks faults.busy faults.take 1 s.space with
  | mk bno space =>
    cases bno with
    | zero => exact trivial
    | succ bno =>
      cases faults.getFolio with
      | some e => exact trivial
      | none =>
        refine ⟨Nat.succ_ne_zero bno, ?_⟩
        simp only [Function.update_self]
        exact emptyBlock_encodes

theorem openBlock_ends (holds : Holds s attrs) (faults : SetFaults) :
    Ends (fun _ s' => s'.iXattrBlock ≠ 0 ∧ Encodes (s'.blocks s'.iXattrBlock) attrs)
      (fun _ _ => True) (openBlock faults s) := by
  refine Ends.read_bind ?_
  split
  · rename_i fresh
    rw [holds.absent fresh]
    exact newBlock_ends faults _
  · rename_i old
    have encodes := holds.present old
    refine Ends.check_bind (fun _ _ => trivial) fun _ => ?_
    rw [encodes.valid]
    exact ⟨old, encodes⟩

theorem lookupForSet_ends (holds : Holds s attrs) (faults : SetFaults) (args : SetArgs) :
    Ends (Ready args.name attrs) (fun _ _ => True) (lookupForSet faults args s) := by
  refine Ends.bind _ (openBlock_ends holds faults) ?_
  rintro _ s' ⟨block, encodes⟩
  refine Ends.bind (fun a s'' => a = s' ∧ s'' = s') ⟨rfl, rfl⟩ ?_
  rintro _ _ ⟨rfl, rfl⟩
  refine Ends.refuse_bind (fun _ => trivial) fun _ => ?_
  refine Ends.refuse_bind (fun _ => trivial) fun _ => ?_
  exact ⟨block, encodes, rfl⟩

theorem writeBack_ends {found : Option Nat} (ready : Ready args.name attrs found s)
    (short : args.name.length ≤ 255) (faults : SetFaults) :
    Ends (fun _ s' => Holds s' (assign args.name args.value attrs) ∧
        blockBytes (assign args.name args.value attrs) ≤ blockSize)
      (fun e _ => faults.kzalloc = false → faults.dirty = none →
        e = .enospc ∧ blockSize < blockBytes (assign args.name args.value attrs))
      (writeBack faults args found s) := by
  have spec := ready.encodes.rebuild short args.value
  rw [← ready.found] at spec
  refine Ends.bind (fun _ s' => s = s') (Ends.refuse (fun _ => rfl) fun failed ok => ?_) ?_
  · rw [failed] at ok
    cases ok
  rintro _ _ rfl
  refine Ends.read_bind ?_
  by_cases fits : blockBytes (assign args.name args.value attrs) ≤ blockSize
  · rw [if_pos fits] at spec
    obtain ⟨tmp, run, encodes⟩ := spec
    rw [run]
    refine Ends.bind (fun a s' => tmp = a ∧ s = s') ⟨rfl, rfl⟩ ?_
    rintro _ _ ⟨rfl, rfl⟩
    refine Ends.bind (fun _ s' => Holds s' (assign args.name args.value attrs)) ?_ ?_
    · refine ⟨fun zero => absurd zero ready.block, fun _ => ?_⟩
      simp only [Function.update_self]
      exact encodes
    · intro _ s' held
      refine Ends.bind (fun _ s'' => s' = s'') (Ends.check (fun _ => rfl) fun e failed _ ok => ?_) ?_
      · rw [failed] at ok
        cases ok
      · rintro _ _ rfl
        exact ⟨⟨held.absent, held.present⟩, fits⟩
  · rw [if_neg fits] at spec
    rw [spec]
    exact fun _ _ => ⟨rfl, by omega⟩

theorem Holds.set (holds : Holds s attrs) (faults : SetFaults) (args : SetArgs) :
    Ends (fun _ s' => Holds s' (assign args.name args.value attrs)) (fun _ _ => True)
      (set faults args s) := by
  refine Ends.bind (fun _ s' => s = s' ∧ args.name.length ≤ 255)
    (Ends.refuse (fun fine => ⟨rfl, by simpa using fine⟩) fun _ => trivial) ?_
  rintro _ _ ⟨rfl, short⟩
  refine Ends.read_bind ?_
  split
  · rename_i nothing
    refine Ends.refuse (fun _ => ?_) fun _ => trivial
    rw [nothing.2, holds.absent nothing.1]
    exact ⟨fun _ => rfl, fun block => absurd nothing.1 block⟩
  · refine Ends.check_bind (fun _ _ => trivial) fun _ => ?_
    refine Ends.bind (fun _ s' => Holds s' (assign args.name args.value attrs)) ?_ ?_
    · refine Ends.bind _ (lookupForSet_ends holds faults args) fun found s' ready => ?_
      exact (writeBack_ends ready short faults).mono (fun _ _ done => done.1) fun _ _ _ => trivial
    · intro _ s' held
      exact Ends.check (fun _ => held) fun _ _ => trivial

/-- The set gets as far as its flag checks and passes them. -/
def PassesFlagChecks (faults : SetFaults) (args : SetArgs) (s : State) : Prop :=
  args.name.length ≤ 255 ∧
    if s.iXattrBlock = 0 ∧ args.value = none then args.replace = false
    else faults.start = none ∧ ∃ found, (lookupForSet faults args s).1 = .ok found

/-- Nothing goes wrong below the set after its flag checks. -/
structure Undisturbed (faults : SetFaults) : Prop where
  kzalloc : faults.kzalloc = false
  dirty : faults.dirty = none
  stop : faults.stop = none

/-- Past the flag checks, a set fails for lack of space and for no other reason, and it does so
when the attributes do not fit in the block. -/
theorem Holds.set_passed (holds : Holds s attrs) {faults : SetFaults}
    (passes : PassesFlagChecks faults args s) (undisturbed : Undisturbed faults) :
    Ends (fun _ _ => blockBytes (assign args.name args.value attrs) ≤ blockSize)
      (fun e _ => e = .enospc ∧ blockSize < blockBytes (assign args.name args.value attrs))
      (Xattr.set faults args s) := by
  obtain ⟨short, passed⟩ := passes
  refine Ends.bind (fun _ s' => s = s') (Ends.refuse (fun _ => rfl) fun long => ?_) ?_
  · rw [decide_eq_true_eq] at long
    omega
  rintro _ _ rfl
  refine Ends.read_bind ?_
  split
  · rename_i nothing
    rw [if_pos nothing] at passed
    refine Ends.refuse (fun _ => ?_) fun missing => ?_
    · rw [nothing.2, holds.absent nothing.1]
      exact show blockBytes [] ≤ blockSize by decide
    · rw [passed] at missing
      cases missing
  · rename_i something
    rw [if_neg something] at passed
    obtain ⟨started, found, ok⟩ := passed
    rw [started]
    refine Ends.bind (fun _ s' => s = s') rfl ?_
    rintro _ _ rfl
    refine Ends.bind (fun _ _ => blockBytes (assign args.name args.value attrs) ≤ blockSize) ?_ ?_
    · refine Ends.bind _ ((lookupForSet_ends holds faults args).of_ok ok) fun found s' ready => ?_
      exact (writeBack_ends ready short faults).mono (fun _ _ done => done.2)
        fun _ _ failed => failed undisturbed.kzalloc undisturbed.dirty
    · intro _ s' fits
      rw [undisturbed.stop]
      exact fits

theorem Holds.enospc_iff (holds : Holds s attrs) {faults : SetFaults}
    (passes : PassesFlagChecks faults args s) (undisturbed : Undisturbed faults) :
    (Xattr.set faults args s).1 = .error .enospc ↔
      blockSize < blockBytes (assign args.name args.value attrs) := by
  have ends := holds.set_passed passes undisturbed
  generalize Xattr.set faults args s = run at ends
  obtain ⟨result, s'⟩ := run
  cases result with
  | ok a =>
    have fits : blockBytes (assign args.name args.value attrs) ≤ blockSize := ends
    refine ⟨fun failed => (by cases failed), fun beyond => ?_⟩
    omega
  | error e =>
    obtain ⟨rfl, beyond⟩ := ends
    exact ⟨fun _ => beyond, fun _ => rfl⟩

theorem Holds.get (holds : Holds s attrs) (short : name.length ≤ 255) (buffer : Option Nat) :
    get none name buffer s = answer buffer (attrs.lookup name) := by
  rw [Xattr.get]
  by_cases block : s.iXattrBlock = 0
  · rw [if_pos block, holds.absent block]
    rfl
  · have encodes := holds.present block
    obtain ⟨low, _, table⟩ := encodes.table
    rw [if_neg block, if_neg (by omega)]
    simp only [encodes.valid, encodes.count]
    exact getFrom_table table name buffer

theorem Holds.listxattr (holds : Holds s attrs) (buffer : Option Nat)
    (room : ∀ size ∈ buffer, (listing (attrs.map Prod.fst)).length ≤ size) :
    listxattr none buffer s = .ok (listing (attrs.map Prod.fst)) := by
  rw [Xattr.listxattr]
  by_cases block : s.iXattrBlock = 0
  · rw [if_pos block, holds.absent block]
    rfl
  · have encodes := holds.present block
    obtain ⟨low, _, table⟩ := encodes.table
    rw [if_neg block]
    simp only [encodes.valid, encodes.count]
    refine (listFrom_table table buffer [] ?_).trans (by rw [List.nil_append])
    intro size held
    have := room size held
    rw [List.length_nil]
    omega

/-- One call, with its faults. -/
abbrev Call := SetFaults × SetArgs

def step (s : State) (call : Call) : State := (set call.1 call.2 s).2

def Succeeds (s : State) (call : Call) : Prop := (set call.1 call.2 s).1 = .ok ()

/-- The value of the last call that named the attribute, if that call did not remove it. -/
def lastSet (calls : List Call) (name : List UInt8) : Option (List UInt8) :=
  calls.foldl (fun last call => if call.2.name = name then call.2.value else last) none

/-- The attributes after all the calls. -/
def assignAll (calls : List Call) : List Attr :=
  calls.foldl (fun attrs call => assign call.2.name call.2.value attrs) []

theorem lookup_assign (name : List UInt8) (value : Option (List UInt8)) (attrs : List Attr)
    (other : List UInt8) :
    (assign name value attrs).lookup other = if name = other then value else attrs.lookup other := by
  induction attrs with
  | nil =>
    cases value with
    | none => simp [assign]
    | some v =>
      by_cases same : name = other
      · simp [assign, same]
      · have different : (other == name) = false := beq_eq_false_iff_ne.2 fun eq => same eq.symm
        simp [assign, same, List.lookup, different]
  | cons a rest ih =>
    by_cases removed : a.1 = name
    · have skip : assign name value (a :: rest) = assign name value rest := by
        simp [assign, removed]
      rw [skip, ih]
      by_cases same : name = other
      · rw [if_pos same, if_pos same]
      · have different : (other == a.1) = false :=
          beq_eq_false_iff_ne.2 fun eq => same (removed.symm.trans eq.symm)
        rw [if_neg same, if_neg same, List.lookup, different]
    · have keep : assign name value (a :: rest) = a :: assign name value rest := by
        simp [assign, removed]
      rw [keep, List.lookup, ih, List.lookup]
      cases here : other == a.1 with
      | false => rfl
      | true =>
        have different : ¬ name = other := fun same =>
          removed ((eq_of_beq here).symm.trans same.symm)
        simp only [if_neg different]

theorem lookup_assignAll (calls : List Call) (name : List UInt8) :
    (assignAll calls).lookup name = lastSet calls name := by
  induction calls using List.reverseRecOn with
  | nil => rfl
  | append_singleton calls call ih =>
    rw [assignAll, lastSet, List.foldl_append, List.foldl_append]
    simp only [List.foldl_cons, List.foldl_nil]
    rw [lookup_assign, ← lastSet, ← ih]
    rfl

theorem assignAll_distinct (calls : List Call) : ((assignAll calls).map Prod.fst).Nodup := by
  induction calls using List.reverseRecOn with
  | nil => exact .nil
  | append_singleton calls call ih =>
    rw [assignAll, List.foldl_append]
    exact assign_distinct ih

theorem Holds.step (holds : Holds s attrs) {call : Call} (succeeds : Succeeds s call) :
    Holds (step s call) (assign call.2.name call.2.value attrs) :=
  Ends.state ((holds.set call.1 call.2).of_ok succeeds)

theorem Holds.run {start : State} (holds : Holds start attrs) {calls : List Call}
    (succeeded : Runs.Along Xattr.step Succeeds start calls) :
    Holds (Runs.run Xattr.step start calls)
      (calls.foldl (fun attrs call => assign call.2.name call.2.value attrs) attrs) := by
  induction calls generalizing start attrs with
  | nil => exact holds
  | cons call rest ih => exact ih (holds.step succeeded.1) succeeded.2

/-- After any sequence of successful sets on a new inode the block is a finite map: it is well
formed, a get returns the value of the last set, the names are listed once each, and the next
set past its flag checks fails for lack of space exactly when the resulting attributes do not
fit. -/
theorem xattr_finite_map (start : State) (fresh : start.iXattrBlock = 0) (calls : List Call)
    (succeeded : Runs.Along step Succeeds start calls) :
    let s := Runs.run step start calls
    ∃ attrs : List Attr, (attrs.map Prod.fst).Nodup ∧
      (∀ name, attrs.lookup name = lastSet calls name) ∧
      (s.iXattrBlock ≠ 0 → validate (s.blocks s.iXattrBlock) = .ok ()) ∧
      (∀ name buffer, name.length ≤ 255 →
        get none name buffer s = answer buffer (lastSet calls name)) ∧
      (∀ buffer, (∀ size ∈ buffer, (listing (attrs.map Prod.fst)).length ≤ size) →
        listxattr none buffer s = .ok (listing (attrs.map Prod.fst))) ∧
      ∀ faults args, PassesFlagChecks faults args s → Undisturbed faults →
        ((set faults args s).1 = .error .enospc ↔
          blockSize < blockBytes (assign args.name args.value attrs)) := by
  intro s
  have none : Holds start [] := ⟨fun _ => rfl, fun block => absurd fresh block⟩
  have holds : Holds s (assignAll calls) := none.run succeeded
  refine ⟨assignAll calls, assignAll_distinct calls, lookup_assignAll calls,
    fun block => (holds.present block).valid, fun name buffer short => ?_,
    fun buffer room => holds.listxattr buffer room,
    fun faults args passes undisturbed => holds.enospc_iff passes undisturbed⟩
  rw [← lookup_assignAll]
  exact holds.get short buffer

/-- A new inode on a device with one free block. -/
def freshInode : State where
  space :=
    { nrBlocks := 8, nrInodes := 4, nrIstoreBlocks := 1, nrIfreeBlocks := 1, nrBfreeBlocks := 1
      bfreeBitmap := fun b => decide (b = 7), ifreeBitmap := fun _ => false
      discardPending := fun _ => false, nrFreeBlocks := 1, nrFreeInodes := 0
      sDiscard := false, sShutdown := false }
  blocks := fun _ _ => 0
  iXattrBlock := 0

/-- Create an attribute, create a second one with an empty value, remove the first. -/
def threeSets : List Call :=
  [({}, { name := [117, 46, 97], value := some [1, 2], create := true }),
    ({}, { name := [117, 46, 98], value := some [] }),
    ({}, { name := [117, 46, 97], value := none, replace := true })]

theorem xattr_finite_map_threeSets :
    let s := Runs.run step freshInode threeSets
    get none [117, 46, 97] (some 16) s = .error .enodata ∧
      get none [117, 46, 98] (some 16) s = .ok (0, []) := by
  have succeeded : Runs.Along step Succeeds freshInode threeSets :=
    ⟨by rw [Succeeds]; decide, by rw [Succeeds]; decide, by rw [Succeeds]; decide, trivial⟩
  obtain ⟨_, _, _, _, get, _⟩ := xattr_finite_map freshInode rfl threeSets succeeded
  exact ⟨get _ _ (by decide), get _ _ (by decide)⟩

end SimpleFs.Xattr

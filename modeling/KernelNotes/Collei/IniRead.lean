import KernelNotes.Collei.IniConfig

/-!
# What a line means

Whether a line is accepted, and what it contributes, depends on two facts about the lines
before it: whether the section header was seen, and whether an option is open. `classify` says
so for one line and `Scan` for a list of lines. `readLines_iff` relates this view to the loop with
its line indices, and everything else is proved about scans.
-/

namespace Collei.Ini

open Text

/-- What one line contributes. -/
inductive Event where
  | header
  | free
  | option (name : Str) (first : List Str)
  | cont (text : Str)
  deriving DecidableEq, Repr

/-- An option is open behind the line. -/
def Event.opens : Event → Bool
  | .option _ _ => true
  | .cont _ => true
  | _ => false

def Event.isHeader : Event → Bool
  | .header => true
  | _ => false

def classifyOption (line : Str) : Except ConfigError Event :=
  match splitOption line with
  | none => .error (.invalidOption line)
  | some (before, first) =>
    if validName (strip before) then .ok (.option (strip before) (firstValues first))
    else .error (.invalidName (strip before))

def classify (name : Str) (found opened : Bool) (raw : Str) : Except ConfigError Event :=
  let line := rstripNewlines raw
  match sectionOf (strip line) with
  | some s => if found || s != name then .error .onlySection else .ok .header
  | none =>
    if !found then
      if isIdle (strip line) then .ok .free else .error .contentBefore
    else if startsBlank line then
      if opened then
        match continuation line with
        | some text => .ok (.cont (rstrip text))
        | none => .error .continuationIndent
      else if isIdle (strip line) then .ok .free else .error (.orphanContinuation line)
    else if isIdle (strip line) then .ok .free else classifyOption line

/-- The lines are accepted one after the other, with these events. -/
def Scan (name : Str) : Bool → Bool → List Str → List Event → Prop
  | _, _, [], [] => True
  | found, opened, raw :: rest, ev :: evs =>
    classify name found opened raw = .ok ev ∧
      Scan name (found || ev.isHeader) ev.opens rest evs
  | _, _, _, _ => False

/-- The names of the options, in order. -/
def optionNames : List Event → List Str
  | [] => []
  | .option n _ :: evs => n :: optionNames evs
  | _ :: evs => optionNames evs

/-- The texts of the continuation lines the events start with. -/
def contsOf : List Event → List Str
  | .cont text :: evs => text :: contsOf evs
  | _ => []

/-- The entries of the events, the first of which stands at index `i`. -/
def entriesFrom (i : Nat) : List Event → List Entry
  | [] => []
  | .option n first :: evs =>
    ⟨n, joined (first ++ contsOf evs), i, i + 1 + (contsOf evs).length⟩ :: entriesFrom (i + 1) evs
  | _ :: evs => entriesFrom (i + 1) evs

/-- A file that is accepted: one header, and no option twice. -/
structure Accepts (name : Str) (lines : List Str) (evs : List Event) : Prop where
  scan : Scan name false false lines evs
  header : evs.any Event.isHeader = true
  distinct : (optionNames evs).Nodup

/-! ## The loop follows the events -/

/-- What a round of the loop does to the local variables. -/
def applyEvent (index : Nat) : Event → Reader → Except ConfigError Reader
  | .header, r => .ok { finish index r with foundSection := true }
  | .free, r => .ok (if r.foundSection then finish index r else r)
  | .option n first, r =>
    let r := finish index r
    if n ∈ r.entries.map Entry.name then .error (.duplicateOption n)
    else .ok { r with current := some ⟨n, index, first⟩ }
  | .cont text, r =>
    match r.current with
    | none => .ok r
    | some cur => .ok { r with current := some { cur with values := cur.values ++ [text] } }

@[simp] theorem finish_foundSection (stop : Nat) (r : Reader) :
    (finish stop r).foundSection = r.foundSection := by
  rw [finish]
  split <;> rfl

@[simp] theorem finish_current (stop : Nat) (r : Reader) : (finish stop r).current = none := by
  rw [finish]
  split
  · assumption
  · rfl

theorem readLine_eq (name : Str) (index : Nat) (raw : Str) (r : Reader) :
    readLine name index raw r =
      classify name r.foundSection r.current.isSome raw >>= fun ev => applyEvent index ev r := by
  rw [readLine, classify]
  dsimp only
  cases sectionOf (strip (rstripNewlines raw)) with
  | some s =>
    dsimp only
    rw [finish_foundSection]
    split
    · rfl
    · rfl
  | none =>
    dsimp only
    by_cases found : r.foundSection = true
    · simp only [found, Bool.not_true, Bool.false_eq_true, if_false]
      by_cases indented : startsBlank (rstripNewlines raw) = true
      · rw [if_pos indented, if_pos indented, readIndented]
        cases current : r.current with
        | none =>
          simp only [Option.isSome_none, Bool.false_eq_true, if_false]
          split
          · show Except.ok r = Except.ok (if r.foundSection then finish index r else r)
            rw [finish, current]
            split <;> rfl
          · rfl
        | some cur =>
          simp only [Option.isSome_some, if_true]
          cases continuation (rstripNewlines raw) with
          | none => rfl
          | some text =>
            show _ = applyEvent index (.cont (rstrip text)) r
            rw [applyEvent, current]
      · rw [if_neg indented, if_neg indented]
        split
        · show Except.ok (finish index r) = Except.ok (if r.foundSection then finish index r else r)
          rw [if_pos found]
        · rw [readOption, classifyOption]
          cases splitOption (rstripNewlines raw) with
          | none => rfl
          | some parts =>
            dsimp only
            by_cases valid : validName (strip parts.1) = true
            · rw [if_pos valid, if_neg (by simp [valid])]
              rfl
            · rw [if_neg valid, if_pos (by simpa using valid)]
              rfl
    · rw [Bool.not_eq_true] at found
      simp only [found, Bool.not_false, if_true]
      split
      · show Except.ok r = Except.ok (if r.foundSection then finish index r else r)
        rw [if_neg (by simp [found])]
      · rfl

/-- The names that are taken. -/
def namesOf (r : Reader) : List Str :=
  r.entries.map Entry.name ++ (r.current.map Current.name).toList

/-- The entries there will be at the end, when the loop goes on with these events. -/
def endEntries (i : Nat) (r : Reader) (evs : List Event) : List Entry :=
  r.entries ++
    (r.current.map fun cur =>
      (⟨cur.name, joined (cur.values ++ contsOf evs), cur.start, i + (contsOf evs).length⟩ :
        Entry)).toList ++
    entriesFrom i evs

theorem finish_names (stop : Nat) (r : Reader) :
    (finish stop r).entries.map Entry.name = namesOf r := by
  rw [finish, namesOf]
  cases r.current with
  | none => simp
  | some cur => simp

variable {evs : List Event} {ev : Event} {name raw n : Str} {found opened : Bool}
  {first lines : List Str} {r : Reader} {i : Nat}

theorem finish_entries (i : Nat) (r : Reader) (closed : contsOf evs = []) :
    (finish i r).entries ++ entriesFrom i evs = endEntries i r evs := by
  rw [finish, endEntries, closed]
  cases r.current with
  | none => simp
  | some cur => simp

/-- What the test of a line guarantees about its event. -/
structure Fits (r : Reader) (ev : Event) : Prop where
  inside : ev.opens = true → r.foundSection = true
  open_cont : ∀ text, ev = .cont text → r.current.isSome = true

theorem classifyOption_ok {line : Str} (accepted : classifyOption line = .ok ev) :
    ∃ n first, ev = .option n first := by
  rw [classifyOption] at accepted
  split at accepted
  · cases accepted
  · split at accepted
    · cases accepted
      exact ⟨_, _, rfl⟩
    · cases accepted

/-- A line that opens an option. -/
structure OptionLine (raw n : Str) (first : List Str) : Prop where
  noSection : sectionOf (strip (rstripNewlines raw)) = none
  unindented : startsBlank (rstripNewlines raw) = false
  busy : isIdle (strip (rstripNewlines raw)) = false
  parsed : classifyOption (rstripNewlines raw) = .ok (.option n first)

theorem classify_inv (accepted : classify name found opened raw = .ok ev) :
    (ev = .header ∧ found = false ∧ (sectionOf (strip (rstripNewlines raw))).isSome = true) ∨
      (ev = .free ∧ isIdle (strip (rstripNewlines raw)) = true) ∨
      (found = true ∧ opened = true ∧ sectionOf (strip (rstripNewlines raw)) = none ∧
        ∃ rest, continuation (rstripNewlines raw) = some rest ∧ ev = .cont (rstrip rest)) ∨
      (found = true ∧ ∃ n first, ev = .option n first ∧ OptionLine raw n first) := by
  rw [classify] at accepted
  split at accepted
  · rename_i isSection
    split at accepted
    · cases accepted
    · rename_i fresh
      cases accepted
      rw [Bool.or_eq_true, not_or, Bool.not_eq_true] at fresh
      exact Or.inl ⟨rfl, fresh.1, by rw [isSection]; rfl⟩
  · rename_i noSection
    cases found with
    | false =>
      simp only [Bool.not_false, if_true] at accepted
      split at accepted
      · cases accepted
        exact Or.inr (Or.inl ⟨rfl, by assumption⟩)
      · cases accepted
    | true =>
      simp only [Bool.not_true, Bool.false_eq_true, if_false] at accepted
      split at accepted
      · split at accepted
        · rename_i isOpen
          split at accepted
          · rename_i rest indented
            cases accepted
            exact Or.inr (Or.inr (Or.inl ⟨rfl, isOpen, noSection, rest, indented, rfl⟩))
          · cases accepted
        · split at accepted
          · cases accepted
            exact Or.inr (Or.inl ⟨rfl, by assumption⟩)
          · cases accepted
      · rename_i unindented
        split at accepted
        · cases accepted
          exact Or.inr (Or.inl ⟨rfl, by assumption⟩)
        · rename_i busy
          obtain ⟨n, first, rfl⟩ := classifyOption_ok accepted
          exact Or.inr (Or.inr (Or.inr ⟨rfl, n, first, rfl, noSection, by simpa using unindented,
            by simpa using busy, accepted⟩))

theorem classify_cont_inv {text : Str}
    (accepted : classify name found opened raw = .ok (.cont text)) :
    found = true ∧ opened = true ∧ sectionOf (strip (rstripNewlines raw)) = none ∧
      ∃ rest, continuation (rstripNewlines raw) = some rest ∧ text = rstrip rest := by
  rcases classify_inv accepted with ⟨same, _⟩ | ⟨same, _⟩ | ⟨found, opened, noSection, rest, indented, same⟩ |
    ⟨_, _, _, same, _⟩
  · cases same
  · cases same
  · cases same
    exact ⟨found, opened, noSection, rest, indented, rfl⟩
  · cases same

theorem classify_option_inv (accepted : classify name found opened raw = .ok (.option n first)) :
    found = true ∧ OptionLine raw n first := by
  rcases classify_inv accepted with ⟨same, _⟩ | ⟨same, _⟩ | ⟨_, _, _, _, _, same⟩ |
    ⟨found, _, _, same, line⟩
  · cases same
  · cases same
  · cases same
  · cases same
    exact ⟨found, line⟩

theorem OptionLine.classify (line : OptionLine raw n first) (name : Str) (opened : Bool) :
    classify name true opened raw = .ok (.option n first) := by
  rw [Ini.classify]
  simp only [line.noSection, line.unindented, line.busy, line.parsed, Bool.not_true,
    Bool.false_eq_true, if_false]

theorem OptionLine.outside (line : OptionLine raw n first) (name : Str) (opened : Bool) :
    Ini.classify name false opened raw = .error .contentBefore := by
  rw [Ini.classify]
  simp only [line.noSection, line.busy, Bool.not_false, Bool.false_eq_true, if_true, if_false]

theorem classify_fits (accepted : classify name r.foundSection r.current.isSome raw = .ok ev) :
    Fits r ev := by
  cases ev with
  | header => exact ⟨nofun, nofun⟩
  | free => exact ⟨nofun, nofun⟩
  | option n first => exact ⟨fun _ => (classify_option_inv accepted).1, nofun⟩
  | cont text =>
    obtain ⟨found, opened, _⟩ := classify_cont_inv accepted
    exact ⟨fun _ => found, fun _ _ => opened⟩

/-- No option is open before the header. -/
def Orderly (r : Reader) : Prop := r.foundSection = false → r.current = none

/-- What a round that succeeds leaves. -/
structure Stepped (i : Nat) (ev : Event) (r r' : Reader) : Prop where
  found : r'.foundSection = (r.foundSection || ev.isHeader)
  opens : r'.current.isSome = ev.opens
  names : namesOf r' = namesOf r ++ optionNames [ev]
  entries : ∀ evs, endEntries i r (ev :: evs) = endEntries (i + 1) r' evs
  fresh : ∀ n ∈ optionNames [ev], n ∉ namesOf r
  orderly : Orderly r'

theorem applyEvent_ok {r' : Reader} (fits : Fits r ev) (orderly : Orderly r)
    (applied : applyEvent i ev r = .ok r') : Stepped i ev r r' := by
  have closes (ev : Event) (shut : contsOf [ev] = []) (evs : List Event) :
      contsOf (ev :: evs) = [] := by
    cases ev with
    | cont text => cases shut
    | _ => rfl
  cases ev with
  | header =>
    rw [applyEvent] at applied
    cases applied
    refine ⟨by simp [Event.isHeader], by simp [Event.opens], ?_, fun evs => ?_,
      fun n listed => by simp [optionNames] at listed, fun missing => by simp at missing⟩
    · rw [← finish_names i r]
      simp [namesOf, optionNames]
    · rw [← finish_entries i r (closes _ rfl evs)]
      simp [endEntries, entriesFrom]
  | free =>
    rw [applyEvent] at applied
    cases applied
    have closed : (if r.foundSection = true then finish i r else r) = finish i r := by
      split
      · rfl
      · rename_i missing
        rw [finish, orderly (by simpa using missing)]
    rw [closed]
    refine ⟨by simp [Event.isHeader], by simp [Event.opens], ?_, fun evs => ?_,
      fun n listed => by simp [optionNames] at listed, fun _ => by simp⟩
    · rw [← finish_names i r]
      simp [namesOf, optionNames]
    · rw [← finish_entries i r (closes _ rfl evs)]
      simp [endEntries, entriesFrom]
  | option n first =>
    rw [applyEvent] at applied
    split at applied
    · cases applied
    · rename_i fresh
      cases applied
      rw [finish_names] at fresh
      have found := fits.inside rfl
      refine ⟨by simp [Event.isHeader], by simp [Event.opens], ?_, fun evs => ?_,
        fun m listed => ?_, fun missing => ?_⟩
      · rw [← finish_names i r]
        simp [namesOf, optionNames]
      · rw [← finish_entries i r (closes _ rfl evs)]
        simp [endEntries, entriesFrom]
      · simp only [optionNames, List.mem_singleton] at listed
        exact listed ▸ fresh
      · simp [found] at missing
  | cont text =>
    rw [applyEvent] at applied
    have isOpen := fits.open_cont text rfl
    have found := fits.inside rfl
    cases current : r.current with
    | none => simp [current] at isOpen
    | some cur =>
      rw [current] at applied
      cases applied
      refine ⟨by simp [Event.isHeader], rfl, ?_, fun evs => ?_,
        fun n listed => by simp [optionNames] at listed, fun missing => ?_⟩
      · simp [namesOf, current, optionNames]
      · simp only [endEntries, current, Option.map_some, contsOf, entriesFrom]
        simp
        omega
      · simp [found] at missing

theorem applyEvent_of_fresh (fresh : ∀ n ∈ optionNames [ev], n ∉ namesOf r) :
    ∃ r', applyEvent i ev r = .ok r' := by
  cases ev with
  | header => exact ⟨_, rfl⟩
  | free => exact ⟨_, rfl⟩
  | option n first =>
    refine ⟨{ finish i r with current := some ⟨n, i, first⟩ }, ?_⟩
    rw [applyEvent]
    dsimp only
    rw [finish_names, if_neg (fresh n (by simp [optionNames]))]
  | cont text =>
    rw [applyEvent]
    split
    · exact ⟨_, rfl⟩
    · exact ⟨_, rfl⟩

theorem optionNames_cons (ev : Event) (evs : List Event) :
    optionNames (ev :: evs) = optionNames [ev] ++ optionNames evs := by
  cases ev <;> rfl

theorem optionNames_append (evs more : List Event) :
    optionNames (evs ++ more) = optionNames evs ++ optionNames more := by
  induction evs with
  | nil => rfl
  | cons ev evs ih =>
    rw [List.cons_append, optionNames_cons, ih, optionNames_cons ev evs, List.append_assoc]

theorem Scan.length_eq (scan : Scan name found opened lines evs) : lines.length = evs.length := by
  induction lines generalizing found opened evs with
  | nil =>
    cases evs with
    | nil => rfl
    | cons ev evs => exact scan.elim
  | cons raw rest ih =>
    cases evs with
    | nil => exact scan.elim
    | cons ev evs => simpa using ih scan.2

theorem Scan.unique {evs' : List Event} (scan : Scan name found opened lines evs)
    (scan' : Scan name found opened lines evs') : evs = evs' := by
  induction lines generalizing found opened evs evs' with
  | nil =>
    cases evs with
    | cons ev evs => exact scan.elim
    | nil =>
      cases evs' with
      | cons ev evs => exact scan'.elim
      | nil => rfl
  | cons raw rest ih =>
    cases evs with
    | nil => exact scan.elim
    | cons ev evs =>
      cases evs' with
      | nil => exact scan'.elim
      | cons ev' evs' =>
        obtain ⟨here, later⟩ := scan
        obtain ⟨here', later'⟩ := scan'
        rw [here] at here'
        cases here'
        rw [ih later later']

theorem readFrom_ok {r' : Reader} (orderly : Orderly r) (distinct : (namesOf r).Nodup)
    (ran : readFrom name i lines r = .ok r') :
    ∃ evs, Scan name r.foundSection r.current.isSome lines evs ∧
      r'.foundSection = (r.foundSection || evs.any Event.isHeader) ∧
      (namesOf r ++ optionNames evs).Nodup ∧
      (finish (i + lines.length) r').entries = endEntries i r evs := by
  induction lines generalizing i r with
  | nil =>
    cases ran
    refine ⟨[], trivial, by simp, by simpa [optionNames] using distinct, ?_⟩
    rw [List.length_nil, Nat.add_zero, ← finish_entries i _ rfl]
    simp [entriesFrom]
  | cons raw rest ih =>
    rw [readFrom, readLine_eq] at ran
    cases accepted : classify name r.foundSection r.current.isSome raw with
    | error e =>
      rw [accepted] at ran
      cases ran
    | ok ev =>
      rw [accepted] at ran
      cases applied : applyEvent i ev r with
      | error e =>
        change applyEvent i ev r >>= _ = _ at ran
        rw [applied] at ran
        cases ran
      | ok middle =>
        change applyEvent i ev r >>= _ = _ at ran
        rw [applied] at ran
        have step := applyEvent_ok (classify_fits accepted) orderly applied
        have still : (namesOf middle).Nodup := by
          rw [step.names]
          have single : (optionNames [ev]).Nodup := by
            cases ev <;> simp [optionNames]
          refine List.Nodup.append distinct single fun n old new => step.fresh n new old
        obtain ⟨evs, scan, found, names, entries⟩ := ih step.orderly still ran
        rw [step.found, step.opens] at scan
        refine ⟨ev :: evs, ⟨accepted, scan⟩, ?_, ?_, ?_⟩
        · rw [found, step.found, List.any_cons, Bool.or_assoc]
        · rwa [step.names, List.append_assoc, ← optionNames_cons] at names
        · rw [step.entries, ← entries, List.length_cons]
          congr 2
          omega

theorem readFrom_of_scan (orderly : Orderly r)
    (scan : Scan name r.foundSection r.current.isSome lines evs)
    (distinct : (namesOf r ++ optionNames evs).Nodup) : ∃ r', readFrom name i lines r = .ok r' := by
  induction lines generalizing i r evs with
  | nil => exact ⟨r, rfl⟩
  | cons raw rest ih =>
    cases evs with
    | nil => exact scan.elim
    | cons ev evs =>
      obtain ⟨accepted, later⟩ := scan
      rw [optionNames_cons, ← List.append_assoc] at distinct
      have fresh : ∀ n ∈ optionNames [ev], n ∉ namesOf r := fun n new old =>
        (List.disjoint_of_nodup_append (List.nodup_append.1 distinct).1) old new
      obtain ⟨middle, applied⟩ := applyEvent_of_fresh (i := i) fresh
      have step := applyEvent_ok (classify_fits accepted) orderly applied
      rw [← step.found, ← step.opens] at later
      rw [← step.names] at distinct
      obtain ⟨r', ran⟩ := ih (i := i + 1) step.orderly later distinct
      refine ⟨r', ?_⟩
      rw [readFrom, readLine_eq, accepted]
      show applyEvent i ev r >>= _ = _
      rw [applied]
      exact ran

/-- Reading is scanning: the loop accepts what the scan accepts, and its entries are those of the
events. -/
theorem readLines_iff {entries : List Entry} :
    readLines name lines = .ok entries ↔
      ∃ evs, Accepts name lines evs ∧ entries = entriesFrom 0 evs := by
  have orderly : Orderly {} := fun _ => rfl
  have empty (evs : List Event) : endEntries 0 {} evs = entriesFrom 0 evs := by simp [endEntries]
  have forward (r : Reader) (ran : readFrom name 0 lines {} = .ok r) :=
    readFrom_ok orderly (by simp [namesOf]) ran
  constructor
  · intro read
    rw [readLines] at read
    cases ran : readFrom name 0 lines {} with
    | error e =>
      rw [ran] at read
      cases read
    | ok r =>
      rw [ran] at read
      obtain ⟨evs, scan, found, distinct, ends⟩ := forward r ran
      change (if (finish lines.length r).foundSection = true then _ else _) = _ at read
      rw [finish_foundSection] at read
      split at read
      · rename_i header
        cases read
        refine ⟨evs, ⟨scan, by simpa [header] using found.symm, by simpa [namesOf] using distinct⟩, ?_⟩
        rw [← empty, ← ends, Nat.zero_add]
      · cases read
  · rintro ⟨evs, accepts, rfl⟩
    obtain ⟨r, ran⟩ := readFrom_of_scan (i := 0) orderly accepts.scan
      (by simpa [namesOf] using accepts.distinct)
    obtain ⟨evs', scan, found, _, ends⟩ := forward r ran
    cases accepts.scan.unique scan
    rw [readLines, ran]
    show (if (finish lines.length r).foundSection = true then _ else _) = _
    rw [finish_foundSection, found, if_pos (by simp [accepts.header]), ← empty, ← ends, Nat.zero_add]

end Collei.Ini

import KernelNotes.SimpleFs.XattrMap

/-!
# What a failed set leaves behind

`simplefs_xattr_set` attaches a new block to an inode that has none before it looks at the flags,
allocates its buffer and checks the space. None of the exits behind that point takes the block off
again, and its contents are journaled on success only. On an inode with a block every exit leaves
things as they were.
-/

namespace SimpleFs.Xattr

open Bytes Outcome

/-- The errors that report a refusal. -/
def Reported (e : Errno) : Prop :=
  e = .enodata ∨ e = .eexist ∨ e = .enospc ∨ e = .enomem ∨ e = .erange

instance (e : Errno) : Decidable (Reported e) := inferInstanceAs (Decidable (_ ∨ _))

/-- The inode, the block map and the journaled contents of the inode's block are the same. -/
structure Unchanged (s s' : State) : Prop where
  iXattrBlock : s'.iXattrBlock = s.iXattrBlock
  iBlocks : s'.iBlocks = s.iBlocks
  bfreeBitmap : s'.space.bfreeBitmap = s.space.bfreeBitmap
  journaled : s'.journaled s.iXattrBlock = s.journaled s.iXattrBlock

theorem Unchanged.refl (s : State) : Unchanged s s := ⟨rfl, rfl, rfl, rfl⟩

/-- The inode and its block as they are read again: from what the journal was given. -/
def reload (s : State) : State := { s with blocks := s.journaled }

theorem Unchanged.get {s s' : State} (same : Unchanged s s') (getFolio : Fault) (name : List UInt8)
    (buffer : Option Nat) : get getFolio name buffer (reload s') = get getFolio name buffer (reload s) := by
  -- Only the block number and the contents of that block are read.
  have reads : ∀ t : State, Xattr.get getFolio name buffer (reload t) =
      Xattr.get getFolio name buffer { reload s with
        iXattrBlock := t.iXattrBlock, blocks := fun _ => t.journaled t.iXattrBlock } := fun _ => rfl
  rw [reads s', reads s, same.iXattrBlock, same.journaled]

/-- A set that reports a refusal has changed nothing that a reload would see. -/
def Atomic (faults : SetFaults) (args : SetArgs) (s : State) : Prop :=
  ∀ e, (set faults args s).1 = .error e → Reported e →
    Unchanged s (set faults args s).2 ∧
      ∀ getFolio name buffer,
        get getFolio name buffer (reload (set faults args s).2) =
          get getFolio name buffer (reload s)

/-- The allocator gets to a free block. -/
def Offered (faults : SetFaults) (s : State) : Prop :=
  s.space.sShutdown = false ∧ faults.take.start = false ∧ s.space.CanTake faults.busy 1

/-- What goes wrong after a new block was attached. -/
def Spoiled (faults : SetFaults) (args : SetArgs) : Prop :=
  args.replace = true ∨ faults.kzalloc = true ∨
    blockSize < blockBytes (assign args.name args.value []) ∨ ∃ e, faults.dirty = some e ∧ Reported e

/-- What goes wrong after a block was taken for an inode that has none: the bookkeeping of the
allocation, giving the block back when it cannot be read, or anything behind the attachment. -/
def Botched (faults : SetFaults) (args : SetArgs) : Prop :=
  faults.take.persist = true ∨ faults.take.stop = true ∨
    (∃ e, faults.getFolio = some e ∧ Reported e ∧ faults.giveBack.start = true) ∨
    faults.getFolio = none ∧ Spoiled faults args

theorem Botched.behind {faults : SetFaults} {args : SetArgs} (botched : Botched faults args)
    (persist : faults.take.persist = false) (stop : faults.take.stop = false) :
    (∃ e, faults.getFolio = some e ∧ Reported e ∧ faults.giveBack.start = true) ∨
      faults.getFolio = none ∧ Spoiled faults args := by
  rcases botched with lost | lost | rest
  · rw [persist] at lost
    cases lost
  · rw [stop] at lost
    cases lost
  · exact rest

/-- The first attribute of an inode is refused after a block was taken for it. -/
structure Strands (faults : SetFaults) (args : SetArgs) (s : State) : Prop where
  fresh : s.iXattrBlock = 0
  short : args.name.length ≤ 255
  value : args.value.isSome = true
  started : faults.start = none
  offered : Offered faults s
  botched : Botched faults args

/-- How the end of a set relates to the condition. -/
def Judged (faults : SetFaults) (args : SetArgs) (s : State) (e : Errno) (s' : State) : Prop :=
  (Reported e → (Unchanged s s' ↔ ¬ Strands faults args s)) ∧
    (¬ Reported e → ¬ Strands faults args s)

variable {e : Errno}

theorem Judged.of_kept {faults : SetFaults} {args : SetArgs} {s s' : State} (same : Unchanged s s')
    (never : ¬ Strands faults args s) : Judged faults args s e s' :=
  ⟨fun _ => iff_of_true same never, fun _ => never⟩

theorem Judged.of_stranded {faults : SetFaults} {args : SetArgs} {s s' : State}
    (differs : ¬ Unchanged s s') (strands : Strands faults args s) (reported : Reported e) :
    Judged faults args s e s' :=
  ⟨fun _ => iff_of_false differs (not_not.mpr strands), fun other => absurd reported other⟩

/-! ## An inode with a block -/

theorem lookupForSet_old {s : State} (old : s.iXattrBlock ≠ 0) (faults : SetFaults)
    (args : SetArgs) :
    Ends (fun _ s' => s = s') (fun e s' => Reported e → Unchanged s s')
      (lookupForSet faults args s) := by
  refine Ends.bind (fun _ s' => s = s') ?_ ?_
  · refine Ends.read_bind ?_
    rw [if_neg old]
    refine Ends.check_bind (fun _ _ _ => .refl s) fun _ => ?_
    cases validate (s.blocks s.iXattrBlock) with
    | error e => exact fun _ => .refl s
    | ok _ => rfl
  rintro _ _ rfl
  refine Ends.read_bind ?_
  refine Ends.refuse_bind (fun _ _ => .refl s) fun _ => ?_
  refine Ends.refuse_bind (fun _ _ => .refl s) fun _ => ?_
  rfl

theorem writeBack_ends_old (faults : SetFaults) (args : SetArgs) (found : Option Nat) (s : State) :
    Ends (fun _ _ => True) (fun _ s' => Unchanged s s') (writeBack faults args found s) := by
  refine Ends.refuse_bind (fun _ => .refl s) fun _ => ?_
  refine Ends.read_bind ?_
  refine Ends.bind (fun _ s' => s = s') (Ends.lift (fun _ _ => rfl) fun _ _ => .refl s) ?_
  rintro tmp _ rfl
  -- The contents in memory are new; the journal does not have them yet.
  refine Ends.bind (fun _ s' => Unchanged s s') ⟨rfl, rfl, rfl, rfl⟩ ?_
  intro _ s' same
  refine Ends.bind (fun _ _ => True) (Ends.check (fun _ => trivial) fun _ _ => same) ?_
  exact fun _ _ _ => trivial

theorem set_old_ends {s : State} (old : s.iXattrBlock ≠ 0) (faults : SetFaults) (args : SetArgs)
    (stops : ∀ e, faults.stop = some e → ¬ Reported e) :
    Ends (fun _ _ => True) (fun e s' => Reported e → Unchanged s s') (set faults args s) := by
  refine Ends.refuse_bind (fun _ _ => .refl s) fun _ => ?_
  refine Ends.read_bind ?_
  rw [if_neg fun nothing => old nothing.1]
  refine Ends.check_bind (fun _ _ _ => .refl s) fun _ => ?_
  refine Ends.bind (fun _ _ => True) ?_ fun _ _ _ => Ends.check (fun _ => trivial) ?_
  · refine Ends.bind (fun _ s' => s = s') (lookupForSet_old old faults args) ?_
    rintro found _ rfl
    exact (writeBack_ends_old faults args found s).mono (fun _ _ _ => trivial) fun _ _ same _ => same
  · exact fun e failed reported => absurd reported (stops e failed)

/-! ## The first attribute of an inode -/

/-- The call gets to the allocation of a block. -/
structure First (faults : SetFaults) (args : SetArgs) (s : State) : Prop where
  reserved : s.space.Reserved
  fresh : s.iXattrBlock = 0
  short : args.name.length ≤ 255
  value : args.value.isSome = true
  started : faults.start = none

/-- A new block is attached, and nothing has gone wrong so far. -/
structure Attached (faults : SetFaults) (s s' : State) : Prop where
  block : s'.iXattrBlock ≠ 0
  empty : s'.blocks s'.iXattrBlock = emptyBlock
  offered : Offered faults s
  persist : faults.take.persist = false
  stop : faults.take.stop = false
  folio : faults.getFolio = none

section

variable {faults : SetFaults} {args : SetArgs} {s s' : State}

theorem Attached.strands_iff (attached : Attached faults s s') (first : First faults args s) :
    Strands faults args s ↔ Spoiled faults args := by
  constructor
  · intro strands
    rcases strands.botched.behind attached.persist attached.stop with ⟨e, failed, -⟩ | ⟨-, spoiled⟩
    · rw [attached.folio] at failed
      cases failed
    · exact spoiled
  · intro spoiled
    exact ⟨first.fresh, first.short, first.value, first.started, attached.offered,
      .inr (.inr (.inr ⟨attached.folio, spoiled⟩))⟩

theorem Attached.judged (attached : Attached faults s s') (first : First faults args s)
    {s'' : State} (block : s''.iXattrBlock = s'.iXattrBlock)
    (reports : Reported e ↔ Spoiled faults args) : Judged faults args s e s'' := by
  constructor
  · intro reported
    refine iff_of_false (fun same => attached.block ?_) (not_not.mpr ?_)
    · rw [← block, same.iXattrBlock, first.fresh]
    · exact (attached.strands_iff first).mpr (reports.mp reported)
  · intro other strands
    exact other (reports.mpr ((attached.strands_iff first).mp strands))

theorem newBlock_judged (first : First faults args s) :
    Ends (fun _ s' => Attached faults s s') (Judged faults args s) (newBlock faults s) := by
  rw [newBlock]
  by_cases offered : Offered faults s
  · obtain ⟨up, started, can⟩ := offered
    obtain ⟨b, run, taken⟩ :=
      Space.getFreeBlocks_of_canTake Nat.zero_lt_one first.reserved.zero up started can
    have free : s.space.bfreeBitmap (b + 1) = true := taken.free _ (Bits.within_one.mpr rfl)
    have gone : Bits.clearRange s.space.bfreeBitmap (b + 1) 1 ≠ s.space.bfreeBitmap := by
      intro same
      rw [← same, Bits.clearRange_eq_true] at free
      exact free.1 (Bits.within_one.mpr rfl)
    by_cases lost : (faults.take.persist || faults.take.stop) = true
    · rw [run, if_pos lost]
      refine Judged.of_stranded (fun same => gone same.bfreeBitmap) ?_ (by decide)
      refine ⟨first.fresh, first.short, first.value, first.started, ⟨up, started, can⟩, ?_⟩
      rw [Bool.or_eq_true] at lost
      rcases lost with persist | stop
      · exact .inl persist
      · exact .inr (.inl stop)
    rw [Bool.or_eq_true, not_or, Bool.not_eq_true, Bool.not_eq_true] at lost
    rw [lost.1, lost.2, Bool.or_false, if_neg Bool.false_ne_true, Space.failIf_false] at run
    rw [run]
    cases folio : faults.getFolio with
    | none =>
      exact ⟨Nat.succ_ne_zero b, Function.update_self .., ⟨up, started, can⟩, lost.1, lost.2, folio⟩
    | some e =>
      dsimp only
      by_cases kept : faults.giveBack.start = true
      · -- The block is neither attached nor free.
        rw [Space.putBlocks, if_pos (by rw [kept, Bool.or_true])]
        refine ⟨fun reported => iff_of_false (fun same => gone same.bfreeBitmap) (not_not.mpr ?_), ?_⟩
        · exact ⟨first.fresh, first.short, first.value, first.started, ⟨up, started, can⟩,
            .inr (.inr (.inl ⟨e, folio, reported, kept⟩))⟩
        · intro other strands
          rcases strands.botched.behind lost.1 lost.2 with ⟨e', failed, reported, -⟩ | ⟨fine, -⟩
          · rw [folio] at failed
            cases failed
            exact other reported
          · rw [folio] at fine
            cases fine
      · rw [Bool.not_eq_true] at kept
        have apart : ¬ Bits.Within (b + 1) 1 s.space.rootDirBlock := by
          intro within
          have root := first.reserved.root
          rw [Bits.within_one.mp within, free] at root
          cases root
        have used : ∀ c, Bits.Within (b + 1) 1 c →
            (s.space.take (b + 1) 1).bfreeBitmap c = false := by
          intro c within
          by_contra set
          rw [Bool.not_eq_false] at set
          exact ((Bits.clearRange_eq_true ..).mp set).1 within
        rw [@Space.putBlocks_eq_give faults.giveBack (b + 1) 1 (s.space.take (b + 1) 1) up kept
          ⟨Nat.succ_pos b, Nat.zero_lt_one⟩ taken.inside apart used]
        refine Judged.of_kept ⟨rfl, rfl, Space.give_take taken, rfl⟩ ?_
        intro strands
        rcases strands.botched.behind lost.1 lost.2 with ⟨e', -, -, failed⟩ | ⟨fine, -⟩
        · rw [kept] at failed
          cases failed
        · rw [folio] at fine
          cases fine
  · obtain ⟨fault, run⟩ : ∃ fault, Space.getFreeBlocks faults.busy faults.take 1 s.space =
        (0, Space.failIf fault s.space) := by
      by_cases can : s.space.CanTake faults.busy 1
      · have down : (s.space.sShutdown || faults.take.start) = true := by
          by_contra open_
          rw [Bool.or_eq_true, not_or, Bool.not_eq_true, Bool.not_eq_true] at open_
          exact offered ⟨open_.1, open_.2, can⟩
        exact ⟨false, by simp [Space.getFreeBlocks, Space.getFreeBlocksWith, down, Space.failIf]⟩
      · exact Space.getFreeBlocks_of_not_canTake faults.take first.reserved.zero can
    rw [run]
    exact .of_kept ⟨rfl, rfl, rfl, rfl⟩ fun strands => offered strands.offered

theorem findFrom_emptyBlock (name : List UInt8) :
    findFrom emptyBlock name (hCount emptyBlock) 0 headerSize none = none := by
  rw [emptyBlock_encodes.count]
  rfl

theorem lookupForSet_judged (first : First faults args s) :
    Ends (fun found s' => Attached faults s s' ∧ found = none ∧ args.replace = false)
      (Judged faults args s) (lookupForSet faults args s) := by
  refine Ends.bind (fun _ s' => Attached faults s s') ?_ ?_
  · refine Ends.read_bind ?_
    rw [if_pos first.fresh]
    exact newBlock_judged first
  intro _ s' attached
  refine Ends.bind (fun a s'' => s' = a ∧ s' = s'') ⟨rfl, rfl⟩ ?_
  rintro _ _ ⟨rfl, rfl⟩
  rw [attached.empty]
  dsimp only
  rw [findFrom_emptyBlock]
  refine Ends.bind (fun _ s'' => s' = s'') (Ends.refuse (fun _ => rfl) nofun) ?_
  rintro _ _ rfl
  refine Ends.bind (fun _ s'' => s' = s'' ∧ args.replace = false) ?_ ?_
  · rw [Option.isNone_none, Bool.true_and]
    refine Ends.refuse (fun fine => ⟨rfl, fine⟩) fun replace => ?_
    exact attached.judged first rfl (iff_of_true (by decide) (.inl replace))
  · rintro _ _ ⟨rfl, fine⟩
    exact ⟨attached, rfl, fine⟩

theorem writeBack_judged (first : First faults args s) (attached : Attached faults s s')
    (replace : args.replace = false) :
    Ends (fun _ s'' => s''.iXattrBlock = s'.iXattrBlock ∧ ¬ Spoiled faults args)
      (Judged faults args s) (writeBack faults args none s') := by
  have spec := emptyBlock_encodes.rebuild first.short args.value
  rw [findFrom_emptyBlock] at spec
  refine Ends.bind (fun _ s'' => s' = s'' ∧ faults.kzalloc = false)
    (Ends.refuse (fun fine => ⟨rfl, fine⟩) fun failed => ?_) ?_
  · exact attached.judged first rfl (iff_of_true (by decide) (.inr (.inl failed)))
  rintro _ _ ⟨rfl, kzalloc⟩
  refine Ends.bind (fun a s'' => s' = a ∧ s' = s'') ⟨rfl, rfl⟩ ?_
  rintro _ _ ⟨rfl, rfl⟩
  rw [attached.empty]
  by_cases fits : blockBytes (assign args.name args.value []) ≤ blockSize
  · rw [if_pos fits] at spec
    obtain ⟨tmp, run, -⟩ := spec
    rw [run]
    refine Ends.bind (fun a s'' => tmp = a ∧ s' = s'') ⟨rfl, rfl⟩ ?_
    rintro _ _ ⟨rfl, rfl⟩
    have spoiled_iff : Spoiled faults args ↔ ∃ e, faults.dirty = some e ∧ Reported e := by
      rw [Spoiled, replace, kzalloc]
      simp [Nat.not_lt.mpr fits]
    refine Ends.bind (fun _ (s'' : State) => s''.iXattrBlock = s'.iXattrBlock) rfl ?_
    intro _ s'' block
    refine Ends.bind (fun _ after => s'' = after ∧ faults.dirty = none)
      (Ends.check (fun fine => ⟨rfl, fine⟩) fun e failed => ?_) ?_
    · refine attached.judged first block ?_
      rw [spoiled_iff, failed]
      simp
    · rintro _ _ ⟨rfl, dirty⟩
      refine ⟨block, fun spoiled => ?_⟩
      obtain ⟨e, failed, -⟩ := spoiled_iff.mp spoiled
      rw [dirty] at failed
      cases failed
  · rw [if_neg fits] at spec
    rw [spec]
    exact attached.judged first rfl
      (iff_of_true (by decide) (.inr (.inr (.inl (Nat.lt_of_not_le fits)))))

theorem set_first_ends (first : First faults args s)
    (stops : ∀ e, faults.stop = some e → ¬ Reported e) :
    Ends (fun _ _ => ¬ Strands faults args s) (Judged faults args s) (set faults args s) := by
  obtain ⟨v, given⟩ := Option.isSome_iff_exists.mp first.value
  refine Ends.bind (fun _ s' => s = s') (Ends.refuse (fun _ => rfl) fun long => ?_) ?_
  · exact absurd (of_decide_eq_true long) (Nat.not_lt.mpr first.short)
  rintro _ _ rfl
  refine Ends.read_bind ?_
  have something : ¬ (s.iXattrBlock = 0 ∧ args.value = none) := by
    rintro ⟨-, missing⟩
    rw [given] at missing
    cases missing
  rw [if_neg something, first.started]
  refine Ends.bind (fun _ (s' : State) => s = s') rfl ?_
  rintro _ _ rfl
  refine Ends.bind (fun _ s' => (∃ t, Attached faults s t ∧ s'.iXattrBlock = t.iXattrBlock) ∧
    ¬ Spoiled faults args) ?_ ?_
  · refine Ends.bind _ (lookupForSet_judged first) ?_
    rintro found t ⟨attached, rfl, replace⟩
    exact (writeBack_judged first attached replace).mono
      (fun _ _ done => ⟨⟨t, attached, done.1⟩, done.2⟩) fun _ _ => id
  · rintro _ s' ⟨⟨t, attached, block⟩, fine⟩
    refine Ends.check (fun _ => ?_) fun e failed => ?_
    · exact fun strands => fine ((attached.strands_iff first).mp strands)
    · exact attached.judged first block (iff_of_false (stops e failed) fine)

end

/-! ## Every set -/

theorem set_judged (faults : SetFaults) (args : SetArgs) (s : State) (reserved : s.space.Reserved)
    (stops : ∀ e, faults.stop = some e → ¬ Reported e) :
    Ends (fun _ _ => ¬ Strands faults args s) (Judged faults args s) (set faults args s) := by
  by_cases reaches : s.iXattrBlock = 0 ∧ args.name.length ≤ 255 ∧ args.value.isSome = true ∧
      faults.start = none
  · obtain ⟨fresh, short, value, started⟩ := reaches
    exact set_first_ends ⟨reserved, fresh, short, value, started⟩ stops
  have never : ¬ Strands faults args s := fun strands =>
    reaches ⟨strands.fresh, strands.short, strands.value, strands.started⟩
  by_cases fresh : s.iXattrBlock = 0
  · refine Ends.bind (fun _ s' => s = s' ∧ args.name.length ≤ 255)
      (Ends.refuse (fun fine => ⟨rfl, by simpa using fine⟩) fun _ => .of_kept (.refl s) never) ?_
    rintro _ _ ⟨rfl, short⟩
    refine Ends.read_bind ?_
    split
    · exact Ends.refuse (fun _ => never) fun _ => .of_kept (.refl s) never
    · rename_i something
      refine Ends.bind (fun _ _ => False) (Ends.check (fun started => ?_) fun _ _ => ?_) nofun
      · have value : args.value.isSome = true :=
          Option.isSome_iff_ne_none.mpr fun gone => something ⟨fresh, gone⟩
        exact reaches ⟨fresh, short, value, started⟩
      · exact .of_kept (.refl s) never
  · refine (set_old_ends fresh faults args stops).mono (fun _ _ _ => never) fun e s' same => ?_
    exact ⟨fun reported => iff_of_true (same reported) never, fun _ => never⟩

/-- Replace an attribute of an inode that has none. -/
def replaceMissing : SetArgs where
  name := [117, 46, 97]
  value := some [1, 2]
  replace := true

/-- The inode after a first attribute of another name was set. -/
def secondName : State :=
  (set {} { name := [117, 46, 98], value := some [3] } freshInode).2

end SimpleFs.Xattr

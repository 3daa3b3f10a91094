import KernelNotes.Lib.Bits
import KernelNotes.SimpleFs.Basic

/-!
# The inode and block bitmaps

`simplefs_bitmap.h`: a set bit is a free inode or block. An allocation searches
first fit and clears the range before it asks the journal whether the blocks may
be reused; blocks the journal still holds on to are `busy` here. A failed
bitmap write or a failed handle stop shuts the file system down, and what was
cleared stays cleared: the failure paths lose blocks but never hand them out.
-/

namespace SimpleFs

open Bits

/-- The allocation state of `struct simplefs_sb_info`. -/
structure Space where
  nrBlocks : Nat
  nrInodes : Nat
  nrIstoreBlocks : Nat
  nrIfreeBlocks : Nat
  nrBfreeBlocks : Nat
  bfreeBitmap : BitMap
  ifreeBitmap : BitMap
  discardPending : BitMap
  nrFreeBlocks : UInt32
  nrFreeInodes : UInt32
  sDiscard : Bool
  sShutdown : Bool

namespace Space

def rootDirBlock (s : Space) : Nat :=
  1 + s.nrIstoreBlocks + s.nrIfreeBlocks + s.nrBfreeBlocks

/-- Which of the journal calls of one helper fail: opening the handle, persisting the
bitmap block and the counters, closing the handle. -/
structure HandleFaults where
  start : Bool := false
  persist : Bool := false
  stop : Bool := false

/-- The superblock and the block of the root directory are in use. -/
structure Reserved (s : Space) : Prop where
  zero : s.bfreeBitmap 0 = false
  root : s.bfreeBitmap s.rootDirBlock = false

/-- `simplefs_journal_fail`, as far as the allocator sees it. -/
def failIf (fault : Bool) (s : Space) : Space := { s with sShutdown := s.sShutdown || fault }

/-- The first run of `len` free bits from `start` on, cleared. Zero means not found. -/
def getFirstFreeBitsFrom (freemap : BitMap) (size len start : Nat) : Nat × BitMap :=
  match firstRun freemap size len start with
  | none => (0, freemap)
  | some first => (first, clearRange freemap first len)

def getFirstFreeBits (freemap : BitMap) (size len : Nat) : Nat × BitMap :=
  getFirstFreeBitsFrom freemap size len 0

/-- `simplefs_journal_prepare_new_blocks` for the `len` blocks from `first` on: refused when
the journal still holds on to one of them. -/
def prepareNewBlocks (busy : BitMap) (len first : Nat) : Fault :=
  if anySet busy first len then some .eagain else none

/-- The candidate loop of `__simplefs_get_free_blocks`, for any answers to the preparation
of a candidate. A refused candidate is given back. After `EAGAIN` the search goes on one block
further, any other error ends it. -/
def candidates (prepare : Nat → Fault) (size len : Nat) : Nat → BitMap → Nat → Nat × BitMap
  | 0, freemap, _ => (0, freemap)
  | fuel + 1, freemap, search =>
    match getFirstFreeBitsFrom freemap size len search with
    | (0, rest) => (0, rest)
    | (first + 1, rest) =>
      match prepare (first + 1) with
      | none => (first + 1, rest)
      | some .eagain =>
        candidates prepare size len fuel (setRange rest (first + 1) len) (first + 2)
      | some _ => (0, setRange rest (first + 1) len)

/-- `__simplefs_get_free_blocks`: the first block of the range, or zero. -/
def getFreeBlocksWith (prepare : Nat → Fault) (faults : HandleFaults) (len : Nat) (s : Space) :
    Nat × Space :=
  if s.sShutdown || faults.start then (0, s)
  else match candidates prepare s.nrBlocks len (s.nrBlocks + 1) s.bfreeBitmap 0 with
    | (0, freemap) => (0, failIf faults.stop { s with bfreeBitmap := freemap })
    | (first + 1, freemap) =>
      let taken := { s with
        bfreeBitmap := freemap
        nrFreeBlocks := s.nrFreeBlocks - UInt32.ofNat len
        discardPending := clearRange s.discardPending (first + 1) len }
      (if faults.persist || faults.stop then 0 else first + 1,
        failIf (faults.persist || faults.stop) taken)

/-- `__simplefs_get_free_blocks` where the journal's answers do not change during the call. -/
def getFreeBlocks (busy : BitMap) (faults : HandleFaults) (len : Nat) (s : Space) : Nat × Space :=
  getFreeBlocksWith (prepareNewBlocks busy len) faults len s

/-- The bounds test shared by the helpers that take an explicit range. -/
def badRange (s : Space) (bno len : Nat) : Bool :=
  bno == 0 || len == 0 || decide (s.nrBlocks ≤ bno) || decide (s.nrBlocks - bno < len)

/-- `simplefs_take_exact_blocks`. -/
def takeExactBlocks (busy : BitMap) (faults : HandleFaults) (bno len : Nat) (s : Space) :
    Bool × Space :=
  if s.badRange bno len || s.sShutdown || faults.start then (false, s)
  else if !allSet s.bfreeBitmap bno len || anySet busy bno len then (false, failIf faults.stop s)
  else
    let taken := { s with
      bfreeBitmap := clearRange s.bfreeBitmap bno len
      discardPending := clearRange s.discardPending bno len
      nrFreeBlocks := s.nrFreeBlocks - UInt32.ofNat len }
    (!(faults.persist || faults.stop), failIf (faults.persist || faults.stop) taken)

/-- `__simplefs_put_blocks` with an active journal: whether the bits were set, and the
new state. Refused are ranges out of bounds, the root directory block, and ranges
with a block that is free already. -/
def putBlocks (faults : HandleFaults) (bno len : Nat) (s : Space) : Bool × Space :=
  if s.sShutdown || faults.start then (false, s)
  else if s.badRange bno len || (decide (bno ≤ s.rootDirBlock) && decide (s.rootDirBlock < bno + len))
      || anySet s.bfreeBitmap bno len then (false, failIf faults.stop s)
  else
    let freed := { s with
      bfreeBitmap := setRange s.bfreeBitmap bno len
      nrFreeBlocks := s.nrFreeBlocks + UInt32.ofNat len
      discardPending := if s.sDiscard then setRange s.discardPending bno len else s.discardPending }
    (true, failIf (faults.persist || faults.stop) freed)

/-- `get_free_inode`. -/
def getFreeInode (faults : HandleFaults) (s : Space) : Nat × Space :=
  if s.sShutdown || faults.start then (0, s)
  else match getFirstFreeBits s.ifreeBitmap s.nrInodes 1 with
    | (0, freemap) => (0, failIf faults.stop { s with ifreeBitmap := freemap })
    | (ino + 1, freemap) =>
      let taken := { s with ifreeBitmap := freemap, nrFreeInodes := s.nrFreeInodes - 1 }
      (if faults.persist || faults.stop then 0 else ino + 1,
        failIf (faults.persist || faults.stop) taken)

/-- `put_inode`. -/
def putInode (faults : HandleFaults) (ino : Nat) (s : Space) : Space :=
  if s.sShutdown || faults.start then s
  else if ino == 0 || decide (s.nrInodes ≤ ino) || s.ifreeBitmap ino then failIf faults.stop s
  else failIf (faults.persist || faults.stop)
    { s with ifreeBitmap := setRange s.ifreeBitmap ino 1, nrFreeInodes := s.nrFreeInodes + 1 }

/-! ## What the helpers do to the bitmaps -/

/-- A range was taken: it was free, and it is exactly what was cleared. -/
structure Cut (size first len : Nat) (before after : BitMap) : Prop where
  free : ∀ b, Within first len b → before b = true
  inside : first + len ≤ size
  positive : 0 < len
  cleared : after = clearRange before first len

/-- A range was taken that is not busy. -/
structure Taken (busy : BitMap) (size first len : Nat) (before after : BitMap) : Prop
    extends Cut size first len before after where
  calm : ∀ b, Within first len b → busy b = false

variable {len first : Nat} {s s' : Space} {busy : BitMap}

theorem getFirstFreeBitsFrom_found {freemap rest : BitMap} {size start : Nat}
    (found : getFirstFreeBitsFrom freemap size len start = (first + 1, rest)) :
    start ≤ first + 1 ∧ first + 1 + len ≤ size ∧ 0 < len ∧
      (∀ b, Within (first + 1) len b → freemap b = true) ∧
      rest = clearRange freemap (first + 1) len := by
  rw [getFirstFreeBitsFrom] at found
  cases run : firstRun freemap size len start with
  | none => simp [run] at found
  | some at_ =>
    simp only [run, Prod.mk.injEq] at found
    obtain ⟨rfl, rfl⟩ := found
    obtain ⟨low, high, positive, full⟩ := firstRun_sound freemap run
    exact ⟨low, high, positive, full, rfl⟩

theorem getFirstFreeBitsFrom_zero {freemap rest : BitMap} {size start : Nat}
    (found : getFirstFreeBitsFrom freemap size len start = (0, rest)) :
    rest = freemap ∨ (rest = clearRange freemap 0 len ∧ freemap 0 = true) := by
  rw [getFirstFreeBitsFrom] at found
  cases run : firstRun freemap size len start with
  | none =>
    simp only [run, Prod.mk.injEq, true_and] at found
    exact Or.inl found.symm
  | some at_ =>
    simp only [run, Prod.mk.injEq] at found
    obtain ⟨rfl, rfl⟩ := found
    obtain ⟨_, _, positive, full⟩ := firstRun_sound freemap run
    exact Or.inr ⟨rfl, full 0 ⟨le_rfl, by omega⟩⟩

/-- The candidate loop either takes a free range the journal agreed to or takes nothing
that counts. -/
theorem candidates_sound (prepare : Nat → Fault) (size len fuel : Nat) (freemap : BitMap)
    (search : Nat) :
    (∀ first rest, candidates prepare size len fuel freemap search = (first + 1, rest) →
      Cut size (first + 1) len freemap rest ∧ prepare (first + 1) = none) ∧
    (∀ rest, candidates prepare size len fuel freemap search = (0, rest) →
      rest = freemap ∨ (rest = clearRange freemap 0 len ∧ freemap 0 = true)) := by
  induction fuel generalizing search with
  | zero =>
    refine ⟨fun first rest found => ?_, fun rest found => ?_⟩
    · simp [candidates] at found
    · simp only [candidates, Prod.mk.injEq, true_and] at found
      exact Or.inl found.symm
  | succ fuel ih =>
    rw [candidates]
    cases probe : getFirstFreeBitsFrom freemap size len search with
    | mk at_ left =>
      cases at_ with
      | zero =>
        refine ⟨fun first rest found => by simp at found, fun rest found => ?_⟩
        simp only [Prod.mk.injEq, true_and] at found
        exact found ▸ getFirstFreeBitsFrom_zero probe
      | succ at_ =>
        obtain ⟨_, inside, positive, full, rfl⟩ := getFirstFreeBitsFrom_found probe
        dsimp only
        rw [setRange_clearRange freemap (at_ + 1) len full]
        split
        · rename_i agreed
          refine ⟨fun first rest found => ?_, fun rest found => by simp at found⟩
          simp only [Prod.mk.injEq, Nat.add_right_cancel_iff] at found
          obtain ⟨rfl, rfl⟩ := found
          exact ⟨⟨full, inside, positive, rfl⟩, agreed⟩
        · exact ih (at_ + 2)
        · refine ⟨fun first rest found => by simp at found, fun rest found => ?_⟩
          simp only [Prod.mk.injEq, true_and] at found
          exact Or.inl found.symm

/-- One round per block is enough: more fuel changes nothing, so the loop ends by itself. -/
theorem candidates_fuel (prepare : Nat → Fault) (size len fuel : Nat) (freemap : BitMap)
    (search : Nat) (enough : size < search + fuel) :
    candidates prepare size len (fuel + 1) freemap search =
      candidates prepare size len fuel freemap search := by
  induction fuel generalizing freemap search with
  | zero =>
    have empty : size - search = 0 := by omega
    simp [candidates, getFirstFreeBitsFrom, firstRun, empty, runFrom]
  | succ fuel ih =>
    rw [candidates]
    conv_rhs => rw [candidates]
    cases probe : getFirstFreeBitsFrom freemap size len search with
    | mk at_ left =>
      cases at_ with
      | zero => rfl
      | succ at_ =>
        have low := (getFirstFreeBitsFrom_found probe).1
        dsimp only
        rw [ih (setRange left (at_ + 1) len) (at_ + 2) (by omega)]

/-- What no block allocation changes. -/
structure SameGeometry (s s' : Space) : Prop where
  nrBlocks : s'.nrBlocks = s.nrBlocks
  nrInodes : s'.nrInodes = s.nrInodes
  rootDirBlock : s'.rootDirBlock = s.rootDirBlock
  ifreeBitmap : s'.ifreeBitmap = s.ifreeBitmap

theorem SameGeometry.trans {s'' : Space} (first : SameGeometry s s')
    (second : SameGeometry s' s'') : SameGeometry s s'' where
  nrBlocks := second.nrBlocks.trans first.nrBlocks
  nrInodes := second.nrInodes.trans first.nrInodes
  rootDirBlock := second.rootDirBlock.trans first.rootDirBlock
  ifreeBitmap := second.ifreeBitmap.trans first.ifreeBitmap

/-- An allocation never frees a block, and never brings the file system back up. -/
structure Shrinks (s s' : Space) : Prop where
  geometry : SameGeometry s s'
  free : ∀ b, s'.bfreeBitmap b = true → s.bfreeBitmap b = true
  up : s'.sShutdown = false → s.sShutdown = false

theorem Shrinks.refl (s : Space) : Shrinks s s :=
  ⟨⟨rfl, rfl, rfl, rfl⟩, fun _ free => free, fun up => up⟩

theorem Shrinks.trans {s'' : Space} (first : Shrinks s s') (second : Shrinks s' s'') :
    Shrinks s s'' where
  geometry := first.geometry.trans second.geometry
  free := fun b free => first.free b (second.free b free)
  up := fun up => first.up (second.up up)

theorem clearRange_shrinks (bits : BitMap) (first len b : Nat)
    (set : clearRange bits first len b = true) : bits b = true :=
  ((clearRange_eq_true bits first len b).1 set).2

@[simp] theorem failIf_false (s : Space) : failIf false s = s := by
  simp [failIf]

theorem failIf_up {fault : Bool} (up : (failIf fault s).sShutdown = false) :
    s.sShutdown = false ∧ fault = false := by
  simpa [failIf] using up

/-- The state after the range was taken. -/
def take (first len : Nat) (s : Space) : Space :=
  { s with
    bfreeBitmap := clearRange s.bfreeBitmap first len
    nrFreeBlocks := s.nrFreeBlocks - UInt32.ofNat len
    discardPending := clearRange s.discardPending first len }

theorem failIf_shrinks (fault : Bool) (s : Space) : Shrinks s (failIf fault s) :=
  ⟨⟨rfl, rfl, rfl, rfl⟩, fun _ set => set, fun up => (failIf_up up).1⟩

theorem take_shrinks (first len : Nat) (s : Space) : Shrinks s (take first len s) :=
  ⟨⟨rfl, rfl, rfl, rfl⟩, fun b set => clearRange_shrinks _ first len b set, fun up => up⟩

/-- All that `__simplefs_get_free_blocks` can do. The block map can lose bits without being
charged only when its reserved bit zero is set. -/
theorem getFreeBlocksWith_cases (prepare : Nat → Fault) (faults : HandleFaults) (len : Nat)
    (s : Space) :
    (∃ fault freemap,
      getFreeBlocksWith prepare faults len s = (0, failIf fault { s with bfreeBitmap := freemap }) ∧
      (freemap = s.bfreeBitmap ∨
        (freemap = clearRange s.bfreeBitmap 0 len ∧ s.bfreeBitmap 0 = true))) ∨
    (∃ first fault,
      getFreeBlocksWith prepare faults len s =
        (if fault then 0 else first + 1, failIf fault (take (first + 1) len s)) ∧
      Cut s.nrBlocks (first + 1) len s.bfreeBitmap (take (first + 1) len s).bfreeBitmap ∧
      prepare (first + 1) = none) := by
  by_cases down : (s.sShutdown || faults.start) = true
  · refine Or.inl ⟨false, s.bfreeBitmap, ?_, Or.inl rfl⟩
    simp [getFreeBlocksWith, down, failIf]
  have sound := candidates_sound prepare s.nrBlocks len (s.nrBlocks + 1) s.bfreeBitmap 0
  rw [getFreeBlocksWith, if_neg down]
  cases probe : candidates prepare s.nrBlocks len (s.nrBlocks + 1) s.bfreeBitmap 0 with
  | mk at_ left =>
    cases at_ with
    | zero => exact Or.inl ⟨faults.stop, left, rfl, sound.2 left probe⟩
    | succ at_ =>
      obtain ⟨cut, agreed⟩ := sound.1 at_ left probe
      obtain rfl := cut.cleared
      exact Or.inr ⟨at_, faults.persist || faults.stop, rfl, cut, agreed⟩

/-- `getFreeBlocks` shrinks the free map, and a nonzero result is a taken range. -/
theorem getFreeBlocks_sound (busy : BitMap) (faults : HandleFaults) (len : Nat) (s : Space) :
    Shrinks s (getFreeBlocks busy faults len s).2 ∧
      (0 < (getFreeBlocks busy faults len s).1 →
        Taken busy s.nrBlocks (getFreeBlocks busy faults len s).1 len s.bfreeBitmap
          (getFreeBlocks busy faults len s).2.bfreeBitmap) := by
  rw [getFreeBlocks]
  rcases getFreeBlocksWith_cases (prepareNewBlocks busy len) faults len s with
    ⟨fault, freemap, run, kept⟩ | ⟨first, fault, run, cut, agreed⟩
  · rw [run]
    refine ⟨⟨⟨rfl, rfl, rfl, rfl⟩, fun b set => ?_, fun up => (failIf_up up).1⟩,
      fun positive => absurd positive (by simp)⟩
    rcases kept with rfl | ⟨rfl, _⟩
    · exact set
    · exact clearRange_shrinks _ _ _ _ set
  · rw [run]
    refine ⟨(take_shrinks _ _ s).trans (failIf_shrinks _ _), fun positive => ?_⟩
    cases fault with
    | true => simp at positive
    | false =>
      have calm : anySet busy (first + 1) len = false := by
        by_contra held
        simp [prepareNewBlocks, Bool.not_eq_false _ |>.mp held] at agreed
      exact ⟨cut, (anySet_eq_false_iff _ _ _).1 calm⟩

/-- Some range of this length can be handed out: it is free, and the journal lets go of it. -/
def CanTake (busy : BitMap) (len : Nat) (s : Space) : Prop :=
  ∃ first, 0 < first ∧ first + len ≤ s.nrBlocks ∧
    ∀ b, Within first len b → s.bfreeBitmap b = true ∧ busy b = false

theorem prepareNewBlocks_eq_none :
    prepareNewBlocks busy len first = none ↔ ∀ b, Within first len b → busy b = false := by
  rw [← anySet_eq_false_iff, prepareNewBlocks]
  cases anySet busy first len with
  | true => simp
  | false => simp

theorem candidates_complete {busy freemap : BitMap} {size len fuel search first : Nat}
    (positive : 0 < len) (reserved : freemap 0 = false) (enough : size < search + fuel)
    (missed : (candidates (prepareNewBlocks busy len) size len fuel freemap search).1 = 0 ∨
      first < (candidates (prepareNewBlocks busy len) size len fuel freemap search).1)
    (late : search ≤ first) (inside : first + len ≤ size)
    (free : ∀ b, Within first len b → freemap b = true) :
    ∃ b, Within first len b ∧ busy b = true := by
  induction fuel generalizing search with
  | zero => omega
  | succ fuel ih =>
    rw [candidates] at missed
    have first_fit : ∃ found, firstRun freemap size len search = some found ∧ found ≤ first := by
      by_contra none_
      obtain ⟨b, within, unset⟩ := firstRun_complete freemap positive
        (fun found run => Nat.lt_of_not_le fun early => none_ ⟨found, run, early⟩) late inside
      rw [free b within] at unset
      cases unset
    obtain ⟨found, run, early⟩ := first_fit
    obtain ⟨low, high, _, full⟩ := firstRun_sound freemap run
    have probe : getFirstFreeBitsFrom freemap size len search =
        (found, clearRange freemap found len) := by simp only [getFirstFreeBitsFrom, run]
    rw [probe] at missed
    cases found with
    | zero =>
      rw [full 0 ⟨le_rfl, by omega⟩] at reserved
      cases reserved
    | succ found =>
      dsimp only at missed
      rw [setRange_clearRange freemap (found + 1) len full] at missed
      by_cases calm : anySet busy (found + 1) len = true
      · -- The range found is busy. It is `first` itself, or the search goes on behind it.
        rw [prepareNewBlocks, if_pos calm] at missed
        by_cases same : first = found + 1
        · by_contra never
          have none := (anySet_eq_false_iff busy (found + 1) len).mpr fun b within => by
            by_contra held
            exact never ⟨b, same ▸ within, by simpa using held⟩
          rw [none] at calm
          cases calm
        · exact ih (by omega) missed (by omega)
      · rw [prepareNewBlocks, if_neg calm] at missed
        dsimp only at missed
        omega

/-- With a range to hand out, the allocation takes one; only its bookkeeping can still fail. -/
theorem getFreeBlocks_of_canTake {busy : BitMap} {faults : HandleFaults} {len : Nat} {s : Space}
    (positive : 0 < len) (reserved : s.bfreeBitmap 0 = false) (up : s.sShutdown = false)
    (started : faults.start = false) (can : CanTake busy len s) :
    ∃ first, getFreeBlocks busy faults len s =
        (if faults.persist || faults.stop then 0 else first + 1,
          failIf (faults.persist || faults.stop) (take (first + 1) len s)) ∧
      Taken busy s.nrBlocks (first + 1) len s.bfreeBitmap (take (first + 1) len s).bfreeBitmap := by
  obtain ⟨first, inner, inside, free⟩ := can
  have sound := candidates_sound (prepareNewBlocks busy len) s.nrBlocks len (s.nrBlocks + 1)
    s.bfreeBitmap 0
  rw [getFreeBlocks, getFreeBlocksWith, if_neg (by simp [up, started])]
  cases probe : candidates (prepareNewBlocks busy len) s.nrBlocks len (s.nrBlocks + 1)
      s.bfreeBitmap 0 with
  | mk found rest =>
    cases found with
    | zero =>
      obtain ⟨b, within, held⟩ := candidates_complete positive reserved (by omega)
        (.inl (congrArg Prod.fst probe)) (Nat.zero_le first) inside fun b within => (free b within).1
      rw [(free b within).2] at held
      cases held
    | succ found =>
      obtain ⟨cut, agreed⟩ := sound.1 found rest probe
      obtain rfl := cut.cleared
      exact ⟨found, rfl, cut, prepareNewBlocks_eq_none.mp agreed⟩

theorem getFreeBlocks_lowest {faults : HandleFaults} {q : Nat} (positive : 0 < len)
    (reserved : s.bfreeBitmap 0 = false) (ran : getFreeBlocks busy faults len s = (first + 1, s'))
    (inside : q + len ≤ s.nrBlocks)
    (free : ∀ b, Within q len b → s.bfreeBitmap b = true ∧ busy b = false) : first + 1 ≤ q := by
  by_contra early
  rw [getFreeBlocks, getFreeBlocksWith] at ran
  split at ran
  · cases ran
  split at ran
  · cases ran
  · rename_i found _ probe
    have same : found = first := by
      have value := congrArg Prod.fst ran
      dsimp only at value
      split at value
      · cases value
      · omega
    obtain ⟨b, within, held⟩ := @candidates_complete busy s.bfreeBitmap s.nrBlocks len (s.nrBlocks + 1) 0 q
      positive reserved (by omega) (.inr (by rw [probe]; dsimp only; omega)) (Nat.zero_le q) inside
      fun b within => (free b within).1
    rw [(free b within).2] at held
    cases held

theorem getFreeBlocks_of_not_canTake (faults : HandleFaults) (reserved : s.bfreeBitmap 0 = false)
    (cannot : ¬ CanTake busy len s) :
    ∃ fault, getFreeBlocks busy faults len s = (0, failIf fault s) := by
  rcases getFreeBlocksWith_cases (prepareNewBlocks busy len) faults len s with
    ⟨fault, freemap, run, kept | ⟨-, zero⟩⟩ | ⟨first, fault, run, cut, agreed⟩
  · rw [kept] at run
    exact ⟨fault, run⟩
  · rw [reserved] at zero
    cases zero
  · refine absurd ⟨first + 1, Nat.succ_pos first, cut.inside, fun b within => ?_⟩ cannot
    exact ⟨cut.free b within, prepareNewBlocks_eq_none.mp agreed b within⟩

/-- All that `simplefs_take_exact_blocks` can do. -/
theorem takeExactBlocks_cases (busy : BitMap) (faults : HandleFaults) (bno len : Nat) (s : Space) :
    (∃ fault, takeExactBlocks busy faults bno len s = (false, failIf fault s)) ∨
    (∃ fault, takeExactBlocks busy faults bno len s = (!fault, failIf fault (take bno len s)) ∧
      0 < bno ∧ Taken busy s.nrBlocks bno len s.bfreeBitmap (take bno len s).bfreeBitmap) := by
  by_cases refused : (s.badRange bno len || s.sShutdown || faults.start) = true
  · refine Or.inl ⟨false, ?_⟩
    simp [takeExactBlocks, refused, failIf]
  by_cases unfit : (!allSet s.bfreeBitmap bno len || anySet busy bno len) = true
  · refine Or.inl ⟨faults.stop, ?_⟩
    simp only [takeExactBlocks, if_neg refused, if_pos unfit]
  · refine Or.inr ⟨faults.persist || faults.stop, ?_, ?_⟩
    · rw [takeExactBlocks, if_neg refused, if_neg unfit]
      rfl
    simp only [Bool.or_eq_true, not_or, Bool.not_eq_true, Bool.not_eq_false',
      allSet_iff, anySet_eq_false_iff] at unfit
    simp only [badRange, Bool.or_eq_true, not_or, beq_iff_eq, decide_eq_true_eq] at refused
    exact ⟨by omega, ⟨unfit.1, by omega, by omega, rfl⟩, unfit.2⟩

/-- `takeExactBlocks` shrinks the free map, and success takes exactly the range. -/
theorem takeExactBlocks_sound (busy : BitMap) (faults : HandleFaults) (bno len : Nat) (s : Space) :
    Shrinks s (takeExactBlocks busy faults bno len s).2 ∧
      ((takeExactBlocks busy faults bno len s).1 = true →
        Taken busy s.nrBlocks bno len s.bfreeBitmap
          (takeExactBlocks busy faults bno len s).2.bfreeBitmap) := by
  rcases takeExactBlocks_cases busy faults bno len s with ⟨fault, run⟩ | ⟨fault, run, _, taken⟩
  · rw [run]
    exact ⟨failIf_shrinks _ s, by simp⟩
  · rw [run]
    exact ⟨(take_shrinks _ _ s).trans (failIf_shrinks _ _), fun _ => taken⟩

/-- The state after the range was freed. -/
def give (bno len : Nat) (s : Space) : Space :=
  { s with
    bfreeBitmap := setRange s.bfreeBitmap bno len
    nrFreeBlocks := s.nrFreeBlocks + UInt32.ofNat len
    discardPending := if s.sDiscard then setRange s.discardPending bno len else s.discardPending }

/-- All that `__simplefs_put_blocks` can do. -/
theorem putBlocks_cases (faults : HandleFaults) (bno len : Nat) (s : Space) :
    (∃ fault, putBlocks faults bno len s = (false, failIf fault s)) ∨
    (∃ fault, putBlocks faults bno len s = (true, failIf fault (give bno len s)) ∧
      0 < bno ∧ bno + len ≤ s.nrBlocks ∧ ∀ b, Within bno len b → s.bfreeBitmap b = false) := by
  by_cases down : (s.sShutdown || faults.start) = true
  · refine Or.inl ⟨false, ?_⟩
    simp [putBlocks, down, failIf]
  by_cases refused : (s.badRange bno len ||
      (decide (bno ≤ s.rootDirBlock) && decide (s.rootDirBlock < bno + len)) ||
      anySet s.bfreeBitmap bno len) = true
  · refine Or.inl ⟨faults.stop, ?_⟩
    rw [putBlocks, if_neg down, if_pos refused]
  · refine Or.inr ⟨faults.persist || faults.stop, ?_, ?_⟩
    · rw [putBlocks, if_neg down, if_neg refused]
      rfl
    simp only [Bool.or_eq_true, not_or, Bool.not_eq_true, anySet_eq_false_iff] at refused
    have bounds := refused.1.1
    simp only [badRange, Bool.or_eq_false_iff, beq_eq_false_iff_ne, decide_eq_false_iff_not]
      at bounds
    exact ⟨by omega, by omega, refused.2⟩

theorem putBlocks_eq_give {faults : HandleFaults} {bno len : Nat} {s : Space}
    (up : s.sShutdown = false) (started : faults.start = false) (positive : 0 < bno ∧ 0 < len)
    (inside : bno + len ≤ s.nrBlocks) (apart : ¬ Within bno len s.rootDirBlock)
    (used : ∀ b, Within bno len b → s.bfreeBitmap b = false) :
    putBlocks faults bno len s = (true, failIf (faults.persist || faults.stop) (give bno len s)) := by
  have range : s.badRange bno len = false := by
    simp only [badRange, Bool.or_eq_false_iff, beq_eq_false_iff_ne, decide_eq_false_iff_not]
    omega
  have free : anySet s.bfreeBitmap bno len = false := (anySet_eq_false_iff _ _ _).2 used
  have spared : (decide (bno ≤ s.rootDirBlock) && decide (s.rootDirBlock < bno + len)) = false := by
    rw [Bool.and_eq_false_iff, decide_eq_false_iff_not, decide_eq_false_iff_not]
    exact not_and_or.mp apart
  rw [putBlocks, if_neg (by simp [up, started]), if_neg (by simp [range, free, spared])]
  rfl

theorem give_take
    (taken : Taken busy s.nrBlocks first len s.bfreeBitmap (take first len s).bfreeBitmap) :
    (give first len (take first len s)).bfreeBitmap = s.bfreeBitmap :=
  setRange_clearRange s.bfreeBitmap first len taken.free

/-- `putBlocks` sets exactly the range or nothing, and the range was in use. -/
theorem putBlocks_sound (faults : HandleFaults) (bno len : Nat) (s : Space) :
    SameGeometry s (putBlocks faults bno len s).2 ∧
      ((putBlocks faults bno len s).2.sShutdown = false → s.sShutdown = false) ∧
      ((putBlocks faults bno len s).1 = false →
        (putBlocks faults bno len s).2.bfreeBitmap = s.bfreeBitmap) ∧
      ((putBlocks faults bno len s).1 = true →
        (putBlocks faults bno len s).2.bfreeBitmap = setRange s.bfreeBitmap bno len ∧
        (∀ b, Within bno len b → s.bfreeBitmap b = false) ∧ 0 < bno) := by
  rcases putBlocks_cases faults bno len s with ⟨fault, run⟩ | ⟨fault, run, positive, _, used⟩
  · rw [run]
    exact ⟨⟨rfl, rfl, rfl, rfl⟩, fun up => (failIf_up up).1, fun _ => rfl, by simp⟩
  · rw [run]
    exact ⟨⟨rfl, rfl, rfl, rfl⟩, fun up => (failIf_up up).1, by simp, fun _ => ⟨rfl, used, positive⟩⟩

/-- All that `get_free_inode` can do. -/
theorem getFreeInode_cases (faults : HandleFaults) (s : Space) :
    (∃ fault freemap, getFreeInode faults s = (0, failIf fault { s with ifreeBitmap := freemap }) ∧
      (freemap = s.ifreeBitmap ∨ s.ifreeBitmap 0 = true)) ∨
    (∃ ino fault,
      getFreeInode faults s = (if fault then 0 else ino + 1, failIf fault { s with
        ifreeBitmap := clearRange s.ifreeBitmap (ino + 1) 1
        nrFreeInodes := s.nrFreeInodes - 1 }) ∧
      ino + 1 < s.nrInodes ∧ s.ifreeBitmap (ino + 1) = true) := by
  by_cases down : (s.sShutdown || faults.start) = true
  · refine Or.inl ⟨false, s.ifreeBitmap, ?_, Or.inl rfl⟩
    simp [getFreeInode, down, failIf]
  rw [getFreeInode, if_neg down]
  cases probe : getFirstFreeBits s.ifreeBitmap s.nrInodes 1 with
  | mk at_ left =>
    cases at_ with
    | zero =>
      refine Or.inl ⟨faults.stop, left, rfl, ?_⟩
      exact (getFirstFreeBitsFrom_zero probe).imp_right And.right
    | succ at_ =>
      obtain ⟨_, inside, _, full, rfl⟩ := getFirstFreeBitsFrom_found probe
      exact Or.inr ⟨at_, faults.persist || faults.stop, rfl, inside, full _ ⟨le_rfl, by omega⟩⟩

/-- All that `put_inode` can do. -/
theorem putInode_cases (faults : HandleFaults) (ino : Nat) (s : Space) :
    (∃ fault, putInode faults ino s = failIf fault s) ∨
    (∃ fault, putInode faults ino s = failIf fault { s with
        ifreeBitmap := setRange s.ifreeBitmap ino 1
        nrFreeInodes := s.nrFreeInodes + 1 } ∧
      0 < ino ∧ ino < s.nrInodes ∧ s.ifreeBitmap ino = false) := by
  by_cases down : (s.sShutdown || faults.start) = true
  · refine Or.inl ⟨false, ?_⟩
    simp [putInode, down, failIf]
  by_cases refused : (ino == 0 || decide (s.nrInodes ≤ ino) || s.ifreeBitmap ino) = true
  · refine Or.inl ⟨faults.stop, ?_⟩
    rw [putInode, if_neg down, if_pos refused]
  · refine Or.inr ⟨faults.persist || faults.stop, ?_, ?_⟩
    · rw [putInode, if_neg down, if_neg refused]
    simp only [Bool.or_eq_true, not_or, Bool.not_eq_true, beq_eq_false_iff_ne,
      decide_eq_false_iff_not] at refused
    exact ⟨by omega, by omega, refused.2⟩

end Space

end SimpleFs

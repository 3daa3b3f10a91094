import KernelNotes.Lib.Run
import KernelNotes.SimpleFs.Discard

/-!
# Free-space accounting

The counters of the superblock, the two free maps and the map of pending discards
are updated one after the other, and the helpers have paths that put back what they
took and paths that lose it. `Exact` says that the counters are the populations of
the maps all the same. It is an invariant of every sequence of calls with any
arguments and any faults.

A ledger keeps what was handed out beside the state the helpers see: for every
outstanding allocation the blocks that were not returned yet, and the inode numbers.
-/

namespace SimpleFs.Space

open Bits

/-- The counters are the populations of the maps, only free blocks await a discard, and
bit zero of both maps is reserved, as the search that returns zero for failure assumes. -/
structure Exact (s : Space) : Prop where
  blocks : s.nrFreeBlocks.toNat = weight s.bfreeBitmap s.nrBlocks
  inodes : s.nrFreeInodes.toNat = weight s.ifreeBitmap s.nrInodes
  pending : ∀ b, s.discardPending b = true → s.bfreeBitmap b = true
  superblock : s.bfreeBitmap 0 = false
  rootInode : s.ifreeBitmap 0 = false
  blockNumbers : s.nrBlocks < 2 ^ 32
  inodeNumbers : s.nrInodes < 2 ^ 32

/-- `__simplefs_put_blocks` as a whole: without a journal the pending discards are issued
right away. -/
def putBlocksAndDiscard (journaled : Bool) (faults : HandleFaults) (granularity : Nat)
    (budget : Option Nat) (bno len : Nat) (s : Space) : Bool × Space :=
  let put := putBlocks faults bno len s
  if s.sShutdown || faults.start || faults.stop || journaled then put
  else (put.1, (issuePendingDiscards granularity budget put.2).2)

theorem putBlocksAndDiscard_maps (journaled : Bool) (faults : HandleFaults) (granularity : Nat)
    (budget : Option Nat) (bno len : Nat) (s : Space) :
    let put := putBlocks faults bno len s
    let after := putBlocksAndDiscard journaled faults granularity budget bno len s
    after.1 = put.1 ∧ after.2.bfreeBitmap = put.2.bfreeBitmap ∧
      after.2.ifreeBitmap = put.2.ifreeBitmap := by
  intro put after
  simp only [after, putBlocksAndDiscard, issuePendingDiscards]
  split
  · exact ⟨rfl, rfl, rfl⟩
  · split
    · exact ⟨rfl, rfl, rfl⟩
    · exact ⟨rfl, rfl, rfl⟩

/-! ## Counters -/

theorem charge {count : UInt32} {left len : Nat} (exact : left + len = count.toNat) :
    (count - UInt32.ofNat len).toNat = left := by
  have bound := count.toNat_lt
  have small : (UInt32.ofNat len).toNat = len := UInt32.toNat_ofNat_of_lt' (show len < 2 ^ 32 by omega)
  rw [UInt32.toNat_sub_of_le _ _ (by rw [UInt32.le_iff_toNat_le]; omega), small]
  omega

theorem refund {count : UInt32} {total len : Nat} (exact : total = count.toNat + len)
    (small : total < 2 ^ 32) : (count + UInt32.ofNat len).toNat = total := by
  rw [UInt32.toNat_add, UInt32.toNat_ofNat_of_lt' (show len < 2 ^ 32 by omega), Nat.mod_eq_of_lt (by omega)]
  exact exact.symm

theorem weight_lt {bits : BitMap} {size : Nat} (small : size < 2 ^ 32) :
    weight bits size < 2 ^ 32 :=
  (weight_le bits size).trans_lt small

namespace Exact

variable {s : Space}

theorem failIf (exact : Exact s) (fault : Bool) : Exact (Space.failIf fault s) :=
  ⟨exact.blocks, exact.inodes, exact.pending, exact.superblock, exact.rootInode,
    exact.blockNumbers, exact.inodeNumbers⟩

theorem withInodes (exact : Exact s) {freemap : BitMap} {count : UInt32}
    (inodes : count.toNat = weight freemap s.nrInodes) (rootInode : freemap 0 = false) :
    Exact { s with ifreeBitmap := freemap, nrFreeInodes := count } :=
  ⟨exact.blocks, inodes, exact.pending, exact.superblock, rootInode, exact.blockNumbers,
    exact.inodeNumbers⟩

theorem take (exact : Exact s) {first len : Nat} {after : BitMap}
    (cut : Cut s.nrBlocks first len s.bfreeBitmap after) : Exact (Space.take first len s) where
  blocks := charge ((weight_clearRange _ cut.inside cut.free).trans exact.blocks.symm)
  inodes := exact.inodes
  pending := by
    intro b set
    obtain ⟨outside, waiting⟩ := (clearRange_eq_true _ _ _ _).1 set
    exact (clearRange_eq_true _ _ _ _).2 ⟨outside, exact.pending b waiting⟩
  superblock := by
    by_contra set
    rw [Bool.not_eq_false] at set
    have free := clearRange_shrinks _ first len 0 set
    rw [exact.superblock] at free
    cases free
  rootInode := exact.rootInode
  blockNumbers := exact.blockNumbers
  inodeNumbers := exact.inodeNumbers

theorem give (exact : Exact s) {bno len : Nat} (positive : 0 < bno)
    (inside : bno + len ≤ s.nrBlocks) (used : ∀ b, Within bno len b → s.bfreeBitmap b = false) :
    Exact (Space.give bno len s) where
  blocks := by
    apply refund
    · show weight (setRange s.bfreeBitmap bno len) s.nrBlocks = _
      rw [weight_setRange _ inside used, exact.blocks]
    · exact weight_lt exact.blockNumbers
  inodes := exact.inodes
  pending := by
    intro b waiting
    refine (setRange_eq_true _ _ _ _).2 ?_
    simp only [Space.give] at waiting
    split at waiting
    · rcases (setRange_eq_true _ _ _ _).1 waiting with within | before
      · exact Or.inl within
      · exact Or.inr (exact.pending b before)
    · exact Or.inr (exact.pending b waiting)
  superblock := by
    have outside : ¬ Within bno len 0 := fun within => by have := within.1; omega
    exact (setRange_of_outside _ outside).trans exact.superblock
  rootInode := exact.rootInode
  blockNumbers := exact.blockNumbers
  inodeNumbers := exact.inodeNumbers

theorem issuePendingDiscards (exact : Exact s) (granularity : Nat) (budget : Option Nat) :
    Exact (Space.issuePendingDiscards granularity budget s).2 := by
  rw [Space.issuePendingDiscards]
  split
  · exact exact
  · exact ⟨exact.blocks, exact.inodes,
      fun b left => exact.pending b (pendingWalk_pending _ _ _ _ _ _ _ _ left),
      exact.superblock, exact.rootInode, exact.blockNumbers, exact.inodeNumbers⟩

theorem getFreeBlocksWith (exact : Exact s) (prepare : Nat → Fault) (faults : HandleFaults)
    (len : Nat) : Exact (Space.getFreeBlocksWith prepare faults len s).2 := by
  rcases getFreeBlocksWith_cases prepare faults len s with
    ⟨fault, freemap, run, kept⟩ | ⟨first, fault, run, cut, _⟩
  · rw [run]
    rcases kept with rfl | ⟨_, free⟩
    · exact exact.failIf fault
    · rw [exact.superblock] at free
      cases free
  · rw [run]
    exact (exact.take cut).failIf fault

theorem takeExactBlocks (exact : Exact s) (busy : BitMap) (faults : HandleFaults)
    (bno len : Nat) : Exact (Space.takeExactBlocks busy faults bno len s).2 := by
  rcases takeExactBlocks_cases busy faults bno len s with ⟨fault, run⟩ | ⟨fault, run, _, taken⟩
  · rw [run]
    exact exact.failIf fault
  · rw [run]
    exact (exact.take taken.toCut).failIf fault

theorem putBlocks (exact : Exact s) (faults : HandleFaults) (bno len : Nat) :
    Exact (Space.putBlocks faults bno len s).2 := by
  rcases putBlocks_cases faults bno len s with ⟨fault, run⟩ | ⟨fault, run, positive, inside, used⟩
  · rw [run]
    exact exact.failIf fault
  · rw [run]
    exact (exact.give positive inside used).failIf fault

theorem putBlocksAndDiscard (exact : Exact s) (journaled : Bool) (faults : HandleFaults)
    (granularity : Nat) (budget : Option Nat) (bno len : Nat) :
    Exact (Space.putBlocksAndDiscard journaled faults granularity budget bno len s).2 := by
  rw [Space.putBlocksAndDiscard]
  split
  · exact exact.putBlocks faults bno len
  · exact (exact.putBlocks faults bno len).issuePendingDiscards granularity budget

theorem getFreeInode (exact : Exact s) (faults : HandleFaults) :
    Exact (Space.getFreeInode faults s).2 := by
  rcases getFreeInode_cases faults s with
    ⟨fault, freemap, run, kept⟩ | ⟨ino, fault, run, inside, free⟩
  · rw [run]
    rcases kept with rfl | set
    · exact exact.failIf fault
    · rw [exact.rootInode] at set
      cases set
  · rw [run]
    have full : ∀ i, Within (ino + 1) 1 i → s.ifreeBitmap i = true := by
      intro i within
      rw [within_one.1 within]
      exact free
    refine failIf (exact.withInodes ?_ ?_) fault
    · exact @charge _ _ 1 ((weight_clearRange _ inside full).trans exact.inodes.symm)
    · have outside : ¬ Within (ino + 1) 1 0 := fun within => by have := within.1; omega
      exact (clearRange_of_outside _ outside).trans exact.rootInode

theorem putInode (exact : Exact s) (faults : HandleFaults) (ino : Nat) :
    Exact (Space.putInode faults ino s) := by
  rcases putInode_cases faults ino s with ⟨fault, run⟩ | ⟨fault, run, positive, inside, used⟩
  · rw [run]
    exact exact.failIf fault
  · rw [run]
    have clear : ∀ i, Within ino 1 i → s.ifreeBitmap i = false := by
      intro i within
      rw [within_one.1 within]
      exact used
    refine failIf (exact.withInodes ?_ ?_) fault
    · apply @refund _ _ 1
      · show weight (setRange s.ifreeBitmap ino 1) s.nrInodes = _
        rw [weight_setRange _ inside clear, exact.inodes]
      · exact weight_lt exact.inodeNumbers
    · have outside : ¬ Within ino 1 0 := fun within => by have := within.1; omega
      exact (setRange_of_outside _ outside).trans exact.rootInode

end Exact

/-! ## Outstanding allocations -/

/-- The allocator together with what its callers hold. -/
structure Ledger where
  space : Space
  blocks : List (List Nat)
  inodes : List Nat

/-- One call, with the answers of the journal and of the device. -/
inductive Call where
  | getFreeBlocks (prepare : Nat → Fault) (faults : HandleFaults) (len : Nat)
  | takeExactBlocks (busy : BitMap) (faults : HandleFaults) (bno len : Nat)
  | putBlocks (journaled : Bool) (faults : HandleFaults) (granularity : Nat)
      (budget : Option Nat) (bno len : Nat)
  | getFreeInode (faults : HandleFaults)
  | putInode (faults : HandleFaults) (ino : Nat)

namespace Ledger

/-- What remains of an allocation after the range was returned. -/
def without (bno len : Nat) (allocation : List Nat) : List Nat :=
  allocation.filter fun b => !decide (Within bno len b)

def step (l : Ledger) : Call → Ledger
  | .getFreeBlocks prepare faults len =>
    let got := getFreeBlocksWith prepare faults len l.space
    { l with
      space := got.2
      blocks := if got.1 = 0 then l.blocks else List.range' got.1 len :: l.blocks }
  | .takeExactBlocks busy faults bno len =>
    let got := takeExactBlocks busy faults bno len l.space
    { l with
      space := got.2
      blocks := if got.1 then List.range' bno len :: l.blocks else l.blocks }
  | .putBlocks journaled faults granularity budget bno len =>
    let put := putBlocksAndDiscard journaled faults granularity budget bno len l.space
    { l with
      space := put.2
      blocks := if put.1 then l.blocks.map (without bno len) else l.blocks }
  | .getFreeInode faults =>
    let got := getFreeInode faults l.space
    { l with
      space := got.2
      inodes := if got.1 = 0 then l.inodes else got.1 :: l.inodes }
  | .putInode faults ino =>
    let space := putInode faults ino l.space
    { l with
      space := space
      inodes := if !l.space.ifreeBitmap ino && space.ifreeBitmap ino then l.inodes.erase ino
        else l.inodes }

/-- What the caller of `get_free_blocks` relies on: a result other than zero starts `len` blocks
that were all free and are all allocated now. -/
def Granted (l : Ledger) : Call → Prop
  | .getFreeBlocks prepare faults len =>
    let got := getFreeBlocksWith prepare faults len l.space
    got.1 ≠ 0 → ∀ b, Within got.1 len b →
      l.space.bfreeBitmap b = true ∧ got.2.bfreeBitmap b = false
  | _ => True

/-- The accounts are exact, outstanding allocations do not overlap, and nothing that is
outstanding is on a free map. -/
structure Sound (l : Ledger) : Prop where
  exact : Exact l.space
  apart : l.blocks.Pairwise List.Disjoint
  blocksUsed : ∀ allocation ∈ l.blocks, ∀ b ∈ allocation, l.space.bfreeBitmap b = false
  distinct : l.inodes.Nodup
  inodesUsed : ∀ ino ∈ l.inodes, l.space.ifreeBitmap ino = false

theorem mem_range' {first len b : Nat} : b ∈ List.range' first len ↔ Within first len b := by
  rw [List.mem_range'_1, Within]

theorem not_free_of_cleared {before after : BitMap} {b : Nat}
    (shrinks : after b = true → before b = true) (used : before b = false) : after b = false := by
  by_contra set
  rw [Bool.not_eq_false] at set
  rw [shrinks set] at used
  cases used

namespace Sound

variable {l : Ledger}

theorem shrink (sound : Sound l) {space : Space} (exact : Exact space)
    (shrinks : Shrinks l.space space) : Sound { l with space := space } where
  exact := exact
  apart := sound.apart
  blocksUsed := fun allocation listed b mem =>
    not_free_of_cleared (shrinks.free b) (sound.blocksUsed allocation listed b mem)
  distinct := sound.distinct
  inodesUsed := fun ino held => by
    rw [shrinks.geometry.ifreeBitmap]
    exact sound.inodesUsed ino held

theorem lend (sound : Sound l) {space : Space} {first len : Nat} (exact : Exact space)
    (shrinks : Shrinks l.space space)
    (cut : Cut l.space.nrBlocks first len l.space.bfreeBitmap space.bfreeBitmap) :
    Sound { l with space := space, blocks := List.range' first len :: l.blocks } := by
  have kept := sound.shrink exact shrinks
  refine ⟨exact, List.pairwise_cons.2 ⟨?_, sound.apart⟩, ?_, sound.distinct, kept.inodesUsed⟩
  · intro allocation listed b mem other
    have free := cut.free b (mem_range'.1 mem)
    rw [sound.blocksUsed allocation listed b other] at free
    cases free
  · intro allocation listed b mem
    rcases List.mem_cons.1 listed with rfl | old
    · rw [cut.cleared]
      simp [clearRange, assignRange, mem_range'.1 mem]
    · exact kept.blocksUsed allocation old b mem

/-- Taking a range back: only its blocks become free, and nobody holds them any more. -/
theorem settle (sound : Sound l) {space : Space} {bno len : Nat} (exact : Exact space)
    (freed : ∀ b, space.bfreeBitmap b = true → Within bno len b ∨ l.space.bfreeBitmap b = true)
    (inodes : space.ifreeBitmap = l.space.ifreeBitmap) :
    Sound { l with space := space, blocks := l.blocks.map (without bno len) } where
  exact := exact
  apart := by
    refine List.pairwise_map.2 (sound.apart.imp fun apart b mem other => ?_)
    exact apart (List.mem_filter.1 mem).1 (List.mem_filter.1 other).1
  blocksUsed := by
    intro allocation listed b mem
    obtain ⟨old, held, rfl⟩ := List.mem_map.1 listed
    obtain ⟨inOld, outside⟩ := List.mem_filter.1 mem
    refine not_free_of_cleared (fun set => ?_) (sound.blocksUsed old held b inOld)
    rcases freed b set with within | free
    · simp [within] at outside
    · exact free
  distinct := sound.distinct
  inodesUsed := fun ino held => by
    show space.ifreeBitmap ino = false
    rw [inodes]
    exact sound.inodesUsed ino held

theorem getFreeBlocks (sound : Sound l) (prepare : Nat → Fault) (faults : HandleFaults)
    (len : Nat) :
    Sound (step l (.getFreeBlocks prepare faults len)) ∧
      Granted l (.getFreeBlocks prepare faults len) := by
  have exact := sound.exact.getFreeBlocksWith prepare faults len
  simp only [step, Granted]
  rcases getFreeBlocksWith_cases prepare faults len l.space with
    ⟨fault, freemap, run, kept⟩ | ⟨first, fault, run, cut, _⟩
  · rw [run] at exact ⊢
    refine ⟨?_, fun found => absurd rfl found⟩
    rcases kept with rfl | ⟨_, free⟩
    · exact sound.shrink exact (failIf_shrinks fault l.space)
    · rw [sound.exact.superblock] at free
      cases free
  · rw [run] at exact ⊢
    have shrinks := (take_shrinks (first + 1) len l.space).trans (failIf_shrinks fault _)
    cases fault with
    | true => exact ⟨sound.shrink exact shrinks, fun found => absurd rfl found⟩
    | false =>
      refine ⟨sound.lend exact shrinks cut, fun _ b within => ⟨cut.free b within, ?_⟩⟩
      have outside := (clearRange_eq_true l.space.bfreeBitmap (first + 1) len b).not.2
        fun both => both.1 within
      exact Bool.eq_false_iff.2 outside

theorem takeExactBlocks (sound : Sound l) (busy : BitMap) (faults : HandleFaults)
    (bno len : Nat) : Sound (step l (.takeExactBlocks busy faults bno len)) := by
  have exact := sound.exact.takeExactBlocks busy faults bno len
  simp only [step]
  rcases takeExactBlocks_cases busy faults bno len l.space with
    ⟨fault, run⟩ | ⟨fault, run, _, taken⟩
  · rw [run] at exact ⊢
    exact sound.shrink exact (failIf_shrinks fault l.space)
  · rw [run] at exact ⊢
    have shrinks := (take_shrinks bno len l.space).trans (failIf_shrinks fault _)
    cases fault with
    | true => exact sound.shrink exact shrinks
    | false => exact sound.lend exact shrinks taken.toCut

theorem putBlocks (sound : Sound l) (journaled : Bool) (faults : HandleFaults)
    (granularity : Nat) (budget : Option Nat) (bno len : Nat) :
    Sound (step l (.putBlocks journaled faults granularity budget bno len)) := by
  have exact := sound.exact.putBlocksAndDiscard journaled faults granularity budget bno len
  obtain ⟨done, blockMap, inodeMap⟩ :=
    putBlocksAndDiscard_maps journaled faults granularity budget bno len l.space
  simp only [step]
  generalize Space.putBlocksAndDiscard journaled faults granularity budget bno len l.space = after
    at exact done blockMap inodeMap
  rcases putBlocks_cases faults bno len l.space with ⟨fault, run⟩ | ⟨fault, run, _, _, used⟩
  · rw [run] at done blockMap inodeMap
    rw [done]
    exact ⟨exact, sound.apart, fun a listed b mem => (congrFun blockMap b).trans
      (sound.blocksUsed a listed b mem), sound.distinct,
      fun ino held => (congrFun inodeMap ino).trans (sound.inodesUsed ino held)⟩
  · rw [run] at done blockMap inodeMap
    rw [done]
    refine sound.settle exact (fun b set => ?_) inodeMap
    rw [blockMap] at set
    exact (setRange_eq_true _ _ _ _).1 set

theorem getFreeInode (sound : Sound l) (faults : HandleFaults) :
    Sound (step l (.getFreeInode faults)) := by
  have exact := sound.exact.getFreeInode faults
  simp only [step]
  rcases getFreeInode_cases faults l.space with
    ⟨fault, freemap, run, kept⟩ | ⟨ino, fault, run, _, free⟩
  · rw [run] at exact ⊢
    rcases kept with rfl | set
    · exact sound.shrink exact (failIf_shrinks fault l.space)
    · rw [sound.exact.rootInode] at set
      cases set
  · rw [run] at exact ⊢
    have old (i : Nat) (held : i ∈ l.inodes) :
        clearRange l.space.ifreeBitmap (ino + 1) 1 i = false :=
      not_free_of_cleared (clearRange_shrinks _ _ _ _) (sound.inodesUsed i held)
    cases fault with
    | true => exact ⟨exact, sound.apart, sound.blocksUsed, sound.distinct, old⟩
    | false =>
      have new : ino + 1 ∉ l.inodes := by
        intro held
        rw [sound.inodesUsed _ held] at free
        cases free
      refine ⟨exact, sound.apart, sound.blocksUsed, List.nodup_cons.2 ⟨new, sound.distinct⟩, ?_⟩
      intro i held
      rcases List.mem_cons.1 held with rfl | before
      · simp [failIf, clearRange, assignRange, Within]
      · exact old i before

theorem putInode (sound : Sound l) (faults : HandleFaults) (ino : Nat) :
    Sound (step l (.putInode faults ino)) := by
  have exact := sound.exact.putInode faults ino
  simp only [step]
  rcases putInode_cases faults ino l.space with ⟨fault, run⟩ | ⟨fault, run, _, _, used⟩
  · rw [run] at exact ⊢
    have unchanged : (!l.space.ifreeBitmap ino && (Space.failIf fault l.space).ifreeBitmap ino) =
        false := by
      simp [Space.failIf]
    rw [unchanged]
    exact sound.shrink exact (failIf_shrinks fault l.space)
  · rw [run] at exact ⊢
    have returned : (!l.space.ifreeBitmap ino && setRange l.space.ifreeBitmap ino 1 ino) = true := by
      simp [used, setRange, assignRange, Within]
    simp only [Space.failIf, returned, if_true]
    refine ⟨exact, sound.apart, sound.blocksUsed, sound.distinct.erase ino, fun i held => ?_⟩
    obtain ⟨other, before⟩ := (sound.distinct.mem_erase_iff).1 held
    have outside : ¬ Within ino 1 i := fun within => other (within_one.1 within)
    exact (setRange_of_outside _ outside).trans (sound.inodesUsed i before)

theorem step (sound : Sound l) (call : Call) : Sound (l.step call) ∧ Granted l call := by
  cases call with
  | getFreeBlocks prepare faults len => exact sound.getFreeBlocks prepare faults len
  | takeExactBlocks busy faults bno len => exact ⟨sound.takeExactBlocks busy faults bno len, trivial⟩
  | putBlocks journaled faults granularity budget bno len =>
    exact ⟨sound.putBlocks journaled faults granularity budget bno len, trivial⟩
  | getFreeInode faults => exact ⟨sound.getFreeInode faults, trivial⟩
  | putInode faults ino => exact ⟨sound.putInode faults ino, trivial⟩

end Sound

/-- Whatever is called with whatever arguments and faults, the accounts stay exact, no two
outstanding allocations overlap, and every range that was granted had been free. -/
theorem accounts_exact_run (space : Space) (exact : Exact space) (calls : List Call) :
    Sound (Runs.run step ⟨space, [], []⟩ calls) ∧
      Runs.Along step Granted ⟨space, [], []⟩ calls := by
  have start : Sound ⟨space, [], []⟩ := ⟨exact, .nil, by simp, .nil, by simp⟩
  have legal : Runs.Along step (fun _ _ => True) ⟨space, [], []⟩ calls :=
    Runs.along_true _ _
  exact ⟨Runs.invariant_run (fun l call sound _ => (sound.step call).1) start legal,
    Runs.along_of_invariant (fun l call sound _ => (sound.step call).1)
      (fun l call sound _ => (sound.step call).2) start legal⟩

/-- Eight blocks, of which the last three are free, and four inodes, of which two are free. -/
def smallSpace : Space where
  nrBlocks := 8
  nrInodes := 4
  nrIstoreBlocks := 1
  nrIfreeBlocks := 1
  nrBfreeBlocks := 1
  bfreeBitmap := fun b => decide (5 ≤ b ∧ b < 8)
  ifreeBitmap := fun i => decide (2 ≤ i ∧ i < 4)
  discardPending := fun _ => false
  nrFreeBlocks := 3
  nrFreeInodes := 2
  sDiscard := true
  sShutdown := false

theorem smallSpace_exact : Exact smallSpace where
  blocks := by decide
  inodes := by decide
  pending := fun _ waiting => by simp [smallSpace] at waiting
  superblock := by decide
  rootInode := by decide
  blockNumbers := by decide
  inodeNumbers := by decide

/-- A refused candidate, a failed persist that loses a block, and a double free. -/
def smallCalls : List Call :=
  [.getFreeBlocks (fun first => if first = 5 then some .eagain else none) {} 1,
    .takeExactBlocks (fun _ => false) { persist := true } 7 1,
    .putBlocks true {} 4096 none 6 1, .putBlocks true {} 4096 none 6 1]

theorem accounts_exact_smallCalls :
    Sound (Runs.run step ⟨smallSpace, [], []⟩ smallCalls) ∧
      Runs.Along step Granted ⟨smallSpace, [], []⟩ smallCalls :=
  accounts_exact_run smallSpace smallSpace_exact smallCalls

end Ledger

end SimpleFs.Space

import KernelNotes.SimpleFs.GetBlock
import KernelNotes.SimpleFs.PunchHole

/-!
# Reporting extents

`simplefs_report_iomap_begin` answers for the range around an offset: a part of one extent, cut where
the record of speculative blocks begins and ends, or the rest of a hole. It looks the block up on its
own, and agrees with `simplefs_get_block`. A walk that goes on where the last range ended meets every
block of the file once.
-/

namespace SimpleFs

open Outcome Bits Cells

namespace File

/-- The block lies in the record of speculative blocks. -/
def Speculative (file : File) (b : Nat) : Prop :=
  file.preallocBlock ≤ b ∧ b < file.preallocBlock + file.preallocLen

section

variable {file : File} {e : Extent} {iblock : Nat}
  (record : file.preallocBlock + file.preallocLen < wordSize) (fit : e.Fit)

include record fit

/-- An extent is reported as a whole, or the part before the record, in it or behind it. -/
theorem reportPart_cases (iblock : Nat) :
    (reportPart file iblock e = (e.eeBlock, e.eeBlock + e.extLen, e.unwritten) ∧
      (e.unwritten = true ∨ ∀ b, e.eeBlock ≤ b → b < e.eeBlock + e.extLen → ¬ Speculative file b)) ∨
    (e.unwritten = false ∧ file.preallocLen ≠ 0 ∧ file.preallocBlock < e.eeBlock + e.extLen ∧
      e.eeBlock < file.preallocBlock + file.preallocLen ∧
      ((iblock < file.preallocBlock ∧
          reportPart file iblock e = (e.eeBlock, min (e.eeBlock + e.extLen) file.preallocBlock, false)) ∨
        (Speculative file iblock ∧ reportPart file iblock e = (max e.eeBlock file.preallocBlock,
          min (e.eeBlock + e.extLen) (file.preallocBlock + file.preallocLen), true)) ∨
        (file.preallocBlock + file.preallocLen ≤ iblock ∧ reportPart file iblock e =
          (max e.eeBlock (file.preallocBlock + file.preallocLen), e.eeBlock + e.extLen, false)))) := by
  rw [reportPart, fit.extEnd, Nat.mod_eq_of_lt record]
  simp only [Speculative]
  by_cases cut : (!e.unwritten && decide (file.preallocLen ≠ 0) &&
      decide (file.preallocBlock < e.eeBlock + e.extLen) &&
      decide (e.eeBlock < file.preallocBlock + file.preallocLen)) = true
  · rw [if_pos cut]
    simp only [Bool.and_eq_true, Bool.not_eq_true', decide_eq_true_eq] at cut
    obtain ⟨⟨⟨written, some_⟩, before⟩, behind⟩ := cut
    refine .inr ⟨written, some_, before, behind, ?_⟩
    by_cases early : iblock < file.preallocBlock
    · rw [if_pos early]
      exact .inl ⟨early, rfl⟩
    rw [if_neg early]
    by_cases inside : iblock < file.preallocBlock + file.preallocLen
    · rw [if_pos inside]
      exact .inr (.inl ⟨⟨Nat.not_lt.mp early, inside⟩, rfl⟩)
    · rw [if_neg inside]
      exact .inr (.inr ⟨Nat.not_lt.mp inside, rfl⟩)
  · rw [if_neg cut]
    refine .inl ⟨rfl, ?_⟩
    cases state : e.unwritten with
    | true => exact .inl rfl
    | false =>
      simp only [state, Bool.and_eq_true, Bool.not_false, true_and, decide_eq_true_eq, not_and] at cut
      refine .inr fun b low high tracked => ?_
      have := cut ⟨by omega, by omega⟩
      omega

/-- The part of an extent that is reported contains the block, and its blocks are in one state. -/
theorem reportPart_spec (low : e.eeBlock ≤ iblock) (high : iblock < e.eeBlock + e.extLen) :
    e.eeBlock ≤ (reportPart file iblock e).1 ∧ (reportPart file iblock e).1 ≤ iblock ∧
      iblock < (reportPart file iblock e).2.1 ∧ (reportPart file iblock e).2.1 ≤ e.eeBlock + e.extLen ∧
      ∀ b, (reportPart file iblock e).1 ≤ b → b < (reportPart file iblock e).2.1 →
        ((reportPart file iblock e).2.2 = true ↔ e.unwritten = true ∨ Speculative file b) := by
  rcases reportPart_cases record fit iblock with
    ⟨part, state⟩ | ⟨written, -, before, behind, ⟨early, part⟩ | ⟨inside, part⟩ | ⟨late, part⟩⟩
  · rw [part]
    refine ⟨Nat.le_refl _, low, high, Nat.le_refl _, fun b from_ until_ => ⟨.inl, fun unwritten => ?_⟩⟩
    rcases state with same | never
    · exact same
    · exact unwritten.resolve_right (never b from_ until_)
  · rw [part, written]
    dsimp only
    refine ⟨Nat.le_refl _, low, by omega, by omega, fun b from_ until_ => iff_of_false nofun ?_⟩
    rw [Speculative]
    rintro (never | tracked)
    · cases never
    · omega
  · rw [Speculative] at inside
    rw [part, written]
    dsimp only
    refine ⟨by omega, by omega, by omega, by omega, fun b from_ until_ => iff_of_true rfl (.inr ?_)⟩
    exact ⟨by omega, by omega⟩
  · rw [part, written]
    dsimp only
    refine ⟨by omega, by omega, high, Nat.le_refl _, fun b from_ until_ => iff_of_false nofun ?_⟩
    rw [Speculative]
    rintro (never | tracked)
    · cases never
    · omega

theorem reportPart_next (low : e.eeBlock ≤ iblock) {stop : Nat} (ends : (reportPart file iblock e).2.1 = stop)
    (past : iblock < stop) (more : stop < e.eeBlock + e.extLen) : (reportPart file stop e).1 = stop := by
  rcases reportPart_cases record fit iblock with
    ⟨part, -⟩ | ⟨written, some_, before, behind, ⟨early, part⟩ | ⟨inside, part⟩ | ⟨late, part⟩⟩
  · rw [part] at ends
    dsimp only at ends
    omega
  all_goals
    rw [part] at ends
    dsimp only at ends
    rcases reportPart_cases record fit stop with
      ⟨-, same | never⟩ | ⟨-, -, -, -, ⟨early', next⟩ | ⟨inside', next⟩ | ⟨late', next⟩⟩
    · rw [written] at same
      cases same
    · refine absurd ?_ (never (max e.eeBlock file.preallocBlock) (by omega) (by omega))
      exact ⟨by omega, by omega⟩
    · omega
    · rw [next]
      rw [Speculative] at inside'
      dsimp only
      omega
    · rw [next]
      dsimp only
      omega

end

/-! ## One report -/

/-- The report is for the blocks from `first` on and before `stop`, and agrees with the tree, with
`simplefs_get_block` and with the record of speculative blocks. -/
structure Agrees (file : File) (buf : Buffer) (offset : Nat) (m : ReportMap) (first stop : Nat) : Prop where
  start : m.offset = first * blockSize
  size : m.length = (stop - first) * blockSize
  contains : m.offset ≤ offset ∧ offset < m.offset + m.length
  low : first ≤ offset / blockSize
  high : offset / blockSize < stop
  extent : m.type ≠ .hole → ∃ e ∈ buf.extents, e.eeBlock ≤ first ∧ stop ≤ e.eeBlock + e.extLen
  hole : m.type = .hole → (∀ b, first ≤ b → b < stop → mapOf buf.extents b = none) ∧
    (stop = blocksOf file.iSize ∨ stop < blocksOf file.iSize ∧ ∃ e ∈ buf.extents, stop = e.eeBlock)
  lookup : ∀ maxblocks, ∃ g, getBlock {} { create := false } (offset / blockSize) maxblocks file = (.ok g, file) ∧
    (m.type = .hole ↔ g.blocks = 0) ∧ (m.type ≠ .hole → ∃ addr, m.addr = some addr ∧
      addr + (offset - m.offset) = g.bno * blockSize + offset % blockSize)
  states : m.type ≠ .hole → ∀ b, first ≤ b → b < stop →
    (m.type = .unwritten ↔ (∃ p, mapOf buf.extents b = some (p, true)) ∨ Speculative file b)

section

variable {file : File} {buf : Buffer} (intact : Intact file buf) {iblock : Nat} {l r : List Extent} {e : Extent}

include intact

theorem load_calm : load {} file = (.ok buf, file) := by
  rw [load, intact.loaded]

/-- `simplefs_get_block` without `create`, for a block in an extent. -/
theorem getBlock_at (limit : iblock < maxFileBlocks) (at_ : At iblock buf.extents l e r)
    (found : findExtent iblock buf.extents = (true, l.length)) (maxblocks : Nat) :
    getBlock {} { create := false } iblock maxblocks file = (.ok (Mapping.inside iblock e), file) := by
  rw [getBlock, decide_eq_false (Nat.not_le.mpr limit)]
  refine (Op.bind_ok rfl).trans ((Op.bind_ok (load_calm intact)).trans ?_)
  rw [found]
  dsimp only
  rw [if_pos rfl, at_.getElem?]
  rfl

/-- `simplefs_get_block` without `create`, for a block in a hole. -/
theorem getBlock_gap (limit : iblock < maxFileBlocks) (missing : findExtent iblock buf.extents = (false, l.length))
    (maxblocks : Nat) :
    getBlock {} { create := false } iblock maxblocks file = (.ok Mapping.hole, file) := by
  rw [getBlock, decide_eq_false (Nat.not_le.mpr limit)]
  refine (Op.bind_ok rfl).trans ((Op.bind_ok (load_calm intact)).trans ?_)
  rw [missing]
  rfl

/-- The answer for an offset in an extent. -/
def extentReport (file : File) (iblock : Nat) (e : Extent) : ReportMap where
  offset := (reportPart file iblock e).1 * blockSize
  length := ((reportPart file iblock e).2.1 - (reportPart file iblock e).1) * blockSize
  addr := some ((e.eeStart + ((reportPart file iblock e).1 - e.eeBlock)) % wordSize * blockSize)
  type := if (reportPart file iblock e).2.2 then .unwritten else .mapped

variable {offset : Nat}

theorem agrees_extent (limit : offset / blockSize < maxFileBlocks)
    (record : file.preallocBlock + file.preallocLen < wordSize)
    (at_ : At (offset / blockSize) buf.extents l e r)
    (found : findExtent (offset / blockSize) buf.extents = (true, l.length)) :
    Agrees file buf offset (extentReport file (offset / blockSize) e)
      (reportPart file (offset / blockSize) e).1 (reportPart file (offset / blockSize) e).2.1 := by
  have listed := at_.mem
  have fit := intact.sound.fit e listed
  have physical := fit.physical
  obtain ⟨first, low, high, stop, states⟩ := reportPart_spec record fit at_.low at_.high
  have bytes : blockSize = 4096 := rfl
  have mapped : (extentReport file (offset / blockSize) e).type ≠ .hole := by
    rw [extentReport]
    dsimp only
    split
    · simp
    · simp
  generalize part : reportPart file (offset / blockSize) e = p at *
  obtain ⟨s, t, u⟩ := p
  dsimp only at *
  refine ⟨?_, ?_, ?_, low, high, fun _ => ⟨e, listed, first, stop⟩, fun never => absurd never mapped,
    fun maxblocks => ⟨_, getBlock_at intact limit at_ found maxblocks, ?_, fun _ => ?_⟩, fun _ b from_ until_ => ?_⟩
  · rw [extentReport, part]
  · rw [extentReport, part]
  · rw [extentReport, part]
    dsimp only
    rw [bytes] at *
    omega
  · have := at_.low
    have := at_.high
    refine iff_of_false mapped ?_
    rw [Mapping.inside]
    dsimp only
    omega
  · rw [extentReport, part]
    dsimp only
    refine ⟨_, rfl, ?_⟩
    have := at_.high
    rw [Mapping.inside, Nat.mod_eq_of_lt (by omega), Nat.mod_eq_of_lt (by omega)]
    dsimp only
    rw [bytes] at *
    omega
  · have here : At b buf.extents l e r := ⟨at_.split, by omega, by omega⟩
    have type_ : (extentReport file (offset / blockSize) e).type = .unwritten ↔ u = true := by
      rw [extentReport, part]
      cases u with
      | true => exact iff_of_true rfl rfl
      | false => exact iff_of_false (by simp) (by simp)
    rw [type_, states b from_ until_, here.mapOf intact.sound]
    refine or_congr_left ⟨fun unwritten => ⟨_, by rw [unwritten]⟩, ?_⟩
    rintro ⟨p, same⟩
    exact congrArg Prod.snd (Option.some.inj same)

omit intact in
theorem holeEnd_spec (gap : Gap iblock buf.extents l r) (sized : blocksOf file.iSize < wordSize)
    (inside : iblock < blocksOf file.iSize) (sound : Sound buf.extents) :
    iblock < holeEnd file buf.extents l.length iblock ∧
      (∀ e ∈ r, holeEnd file buf.extents l.length iblock ≤ e.eeBlock) ∧
      (holeEnd file buf.extents l.length iblock = blocksOf file.iSize ∨
        holeEnd file buf.extents l.length iblock < blocksOf file.iSize ∧
          ∃ e ∈ buf.extents, holeEnd file buf.extents l.length iblock = e.eeBlock) := by
  cases rest : r with
  | nil =>
    have value : holeEnd file buf.extents l.length iblock = blocksOf file.iSize := by
      rw [holeEnd, gap.getElem?, rest, Nat.mod_eq_of_lt sized]
      exact if_neg (Nat.not_le.mpr inside)
    rw [value]
    exact ⟨inside, nofun, .inl rfl⟩
  | cons next later =>
    have behind := gap.behind next (by rw [rest]; exact List.mem_cons_self)
    have listed : next ∈ buf.extents := by
      rw [gap.split, rest]
      simp
    have value : holeEnd file buf.extents l.length iblock = min (blocksOf file.iSize) next.eeBlock := by
      rw [holeEnd, gap.getElem?, rest, Nat.mod_eq_of_lt sized]
      exact if_neg (Nat.not_le.mpr (Nat.lt_min.mpr ⟨inside, behind⟩))
    rw [gap.split, rest] at sound
    have order := sound.of_append.2.1.first_le
    rw [value]
    refine ⟨by omega, fun e mem => ?_, ?_⟩
    · have := order e mem
      omega
    · by_cases close : blocksOf file.iSize ≤ next.eeBlock
      · exact .inl (Nat.min_eq_left close)
      · rw [Nat.min_eq_right (by omega)]
        exact .inr ⟨by omega, next, listed, rfl⟩

/-- The answer for an offset in a hole. -/
def holeReport (file : File) (buf : Buffer) (iblock idx : Nat) : ReportMap where
  offset := iblock * blockSize
  length := (holeEnd file buf.extents idx iblock - iblock) * blockSize
  addr := none
  type := .hole

theorem agrees_hole (limit : offset / blockSize < maxFileBlocks)
    (sized : blocksOf file.iSize < wordSize) (inside : offset < file.iSize)
    (gap : Gap (offset / blockSize) buf.extents l r)
    (missing : findExtent (offset / blockSize) buf.extents = (false, l.length)) :
    Agrees file buf offset (holeReport file buf (offset / blockSize) l.length) (offset / blockSize)
      (holeEnd file buf.extents l.length (offset / blockSize)) := by
  have bytes : blockSize = 4096 := rfl
  have below : offset / blockSize < blocksOf file.iSize := by
    rw [blocksOf, bytes]
    omega
  obtain ⟨more, room, ends⟩ := holeEnd_spec gap sized below intact.sound
  refine ⟨rfl, rfl, ?_, Nat.le_refl _, more, fun never => absurd rfl never, fun _ => ⟨fun b from_ until_ => ?_, ends⟩,
    fun maxblocks => ⟨_, getBlock_gap intact limit missing maxblocks, iff_of_true rfl rfl, fun never =>
      absurd rfl never⟩, fun never => absurd rfl never⟩
  · rw [holeReport]
    dsimp only
    rw [bytes] at *
    omega
  · refine gap.unmapped intact.sound (n := holeEnd file buf.extents l.length (offset / blockSize) -
      offset / blockSize) (fun e mem => ?_) from_ (by omega)
    have := room e mem
    omega

theorem load_cases (faults : LoadFaults) : load faults file = (.ok buf, file) ∨
    faults ≠ {} ∧ ∃ e, load faults file = (.error e, file) := by
  have ends := (load_eq intact faults).and (load_fault intact faults)
  generalize load faults file = run at ends ⊢
  obtain ⟨result, file'⟩ := run
  cases result with
  | ok buf' =>
    obtain ⟨⟨rfl, rfl⟩, -⟩ := ends
    exact .inl rfl
  | error e =>
    obtain ⟨rfl, fault⟩ := ends
    exact .inr ⟨fault, e, rfl⟩

theorem reportIomapBegin_of_load {m : ReportMap} (faults : LoadFaults)
    (calm : reportIomapBegin {} offset file = (.ok m, file)) :
    reportIomapBegin faults offset file = (.ok m, file) ∨
      faults ≠ {} ∧ ∃ e, reportIomapBegin faults offset file = (.error e, file) := by
  rcases load_cases intact faults with same | ⟨fault, e, failed⟩
  · left
    rw [reportIomapBegin] at calm ⊢
    have calm := (Op.bind_ok (load_calm intact)).symm.trans calm
    exact (Op.bind_ok same).trans calm
  · right
    refine ⟨fault, e, ?_⟩
    rw [reportIomapBegin]
    exact Op.bind_error failed

theorem reportIomapBegin_cases (word : offset / blockSize < wordSize) :
    (∃ l e r, At (offset / blockSize) buf.extents l e r ∧
      findExtent (offset / blockSize) buf.extents = (true, l.length) ∧
      reportIomapBegin {} offset file = (.ok (extentReport file (offset / blockSize) e), file)) ∨
    (∃ l r, Gap (offset / blockSize) buf.extents l r ∧
      findExtent (offset / blockSize) buf.extents = (false, l.length) ∧
      reportIomapBegin {} offset file = (.ok (holeReport file buf (offset / blockSize) l.length), file)) := by
  rw [reportIomapBegin, Nat.mod_eq_of_lt word]
  rcases findExtent_cases intact.sound (offset / blockSize) with ⟨l, e, r, at_, found⟩ | ⟨l, r, gap, missing⟩
  · refine .inl ⟨l, e, r, at_, found, (Op.bind_ok (load_calm intact)).trans ((Op.bind_ok rfl).trans ?_)⟩
    rw [found]
    dsimp only
    rw [if_pos rfl, at_.getElem?]
    rfl
  · refine .inr ⟨l, r, gap, missing, (Op.bind_ok (load_calm intact)).trans ((Op.bind_ok rfl).trans ?_)⟩
    rw [missing]
    rfl

section

variable (sized : file.iSize ≤ maxFilesize) (record : file.preallocBlock + file.preallocLen < wordSize)

include sized record

theorem reportIomapBegin_agrees (inside : offset < file.iSize) :
    ∃ m first stop, reportIomapBegin {} offset file = (.ok m, file) ∧ Agrees file buf offset m first stop := by
  have most : maxFilesize = maxFileBlocks * blockSize := rfl
  have limit : offset / blockSize < maxFileBlocks := by
    refine Nat.div_lt_of_lt_mul ?_
    rw [Nat.mul_comm, ← most]
    omega
  have word : offset / blockSize < wordSize := Nat.lt_trans limit (by decide)
  rcases reportIomapBegin_cases intact word with ⟨l, e, r, at_, found, ran⟩ | ⟨l, r, gap, missing, ran⟩
  · exact ⟨_, _, _, ran, agrees_extent intact limit record at_ found⟩
  · exact ⟨_, _, _, ran, agrees_hole intact limit (blocksOf_lt sized) inside gap missing⟩

theorem report_next {first stop first' stop' : Nat} {m m' : ReportMap}
    (inside : offset < file.iSize) (more : stop * blockSize < file.iSize)
    (ran : reportIomapBegin {} offset file = (.ok m, file))
    (agrees : Agrees file buf offset m first stop)
    (ran' : reportIomapBegin {} (stop * blockSize) file = (.ok m', file))
    (agrees' : Agrees file buf (stop * blockSize) m' first' stop') : first' = stop := by
  have bytes : blockSize = 4096 := rfl
  have block : stop * blockSize / blockSize = stop := Nat.mul_div_cancel _ (by decide)
  have low := agrees.low
  have high := agrees.high
  have start' := agrees'.start
  have word : stop < wordSize := by
    rw [← block]
    exact div_blockSize_lt (by omega)
  rcases reportIomapBegin_cases intact (by rw [block]; exact word) with
    ⟨l', e', r', at', -, same'⟩ | ⟨l', r', -, -, same'⟩
  · rw [ran', block] at same'
    rw [block] at at'
    cases same'
    have fit' := intact.sound.fit e' at'.mem
    obtain ⟨from_, upto, -⟩ := reportPart_spec record fit' at'.low at'.high
    rw [extentReport] at start'
    dsimp only at start'
    have first_ : first' = (reportPart file stop e').1 := by
      rw [bytes] at start'
      omega
    rw [first_]
    by_cases begins : e'.eeBlock = stop
    · omega
    -- the block before is in the same extent, which the record has cut here
    have at_ := at'.low
    have end_ := at'.high
    have mapped := At.mapOf intact.sound (b := stop - 1) ⟨at'.split, by omega, by omega⟩
    rcases @reportIomapBegin_cases file buf intact offset (div_blockSize_lt (by omega)) with
      ⟨l, e, r, here, -, same⟩ | ⟨l, r, -, -, same⟩
    · rw [ran] at same
      cases same
      have fit := intact.sound.fit e here.mem
      obtain ⟨lower, upper, below, above, -⟩ := reportPart_spec record fit here.low here.high
      have start := agrees.start
      have size := agrees.size
      rw [extentReport] at start size
      dsimp only at start size
      have stop_ : (reportPart file (offset / blockSize) e).2.1 = stop := by
        rw [bytes] at *
        omega
      obtain rfl : e = e' := intact.sound.unique here.mem at'.mem (b := stop - 1) (by omega) (by omega) (by omega)
        (by omega)
      exact reportPart_next record fit here.low stop_ high end_
    · rw [ran] at same
      cases same
      rw [(agrees.hole rfl).1 (stop - 1) (by omega) (by omega)] at mapped
      cases mapped
  · rw [ran', block] at same'
    cases same'
    rw [holeReport] at start'
    dsimp only at start'
    rw [bytes] at start'
    omega

end

end

/-! ## The walk -/

/-- Up to `n` reports, each from where the last range ended, as long as the file goes on. -/
def walk (file : File) : Nat → Nat → List ReportMap
  | 0, _ => []
  | n + 1, offset =>
    if offset < file.iSize then
      match (reportIomapBegin {} offset file).1 with
      | .ok m => m :: walk file n (m.offset + m.length)
      | .error _ => []
    else []

def ReportMap.blocks (m : ReportMap) : List Nat := List.range' (m.offset / blockSize) (m.length / blockSize)

section

variable {file : File} {buf : Buffer} (intact : Intact file buf) (sized : file.iSize ≤ maxFilesize)
  (record : file.preallocBlock + file.preallocLen < wordSize)

include intact sized record

theorem walk_blocks (n : Nat) : ∀ t, (t * blockSize < file.iSize → ∀ m first stop,
      reportIomapBegin {} (t * blockSize) file = (.ok m, file) →
      Agrees file buf (t * blockSize) m first stop → first = t) →
    blocksOf file.iSize ≤ t + n → ∃ total, blocksOf file.iSize ≤ t + total ∧
      (walk file n (t * blockSize)).flatMap ReportMap.blocks = List.range' t total := by
  have bytes : blockSize = 4096 := rfl
  induction n with
  | zero => exact fun t _ enough => ⟨0, enough, rfl⟩
  | succ n ih =>
    intro t boundary enough
    rw [walk]
    by_cases inside : t * blockSize < file.iSize
    · obtain ⟨m, first, stop, ran, agrees⟩ := reportIomapBegin_agrees intact sized record inside
      obtain rfl := boundary inside m first stop ran agrees
      have high := agrees.high
      rw [Nat.mul_div_cancel _ (by decide)] at high
      have next : m.offset + m.length = stop * blockSize := by
        rw [agrees.start, agrees.size, bytes]
        omega
      obtain ⟨total, covered, rest⟩ := ih stop (fun more m' first' stop' ran' agrees' =>
        report_next intact sized record inside more ran agrees ran' agrees') (by omega)
      refine ⟨stop - first + total, by omega, ?_⟩
      rw [if_pos inside, ran]
      dsimp only
      rw [List.flatMap_cons, next, rest, ReportMap.blocks, agrees.start, agrees.size,
        Nat.mul_div_cancel _ (by decide), Nat.mul_div_cancel _ (by decide), ← List.range'_append_1]
      congr 2
      omega
    · refine ⟨0, ?_, ?_⟩
      · rw [blocksOf, bytes] at *
        omega
      · rw [if_neg inside]
        rfl

end

/-- A file with a written extent, of which the record names the last two blocks, a hole, and an
unwritten extent. -/
def mixed : File := { small 32768 [.init 0 4 10 false, .init 6 2 20 true] with
  preallocBlock := 2
  preallocLen := 2 }

theorem mixed_intact : Intact mixed ⟨[.init 0 4 10 false, .init 6 2 20 true], []⟩ := by
  have same : SameTree (small 32768 [.init 0 4 10 false, .init 6 2 20 true]) mixed := ⟨rfl, rfl, rfl⟩
  exact same.intact (small_intact 32768 (by decide) (by decide) (by decide) (by decide))

end File

end SimpleFs

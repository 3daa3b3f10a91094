import Mathlib

/-!
# Drawing a line of text

`draw_text` cuts a line into glyphs and sends each to the terminal: whole when it
lies inside the columns of the window, as blanks where the window cuts it. What
the C library decides about characters is a `Locale`.
-/

namespace MiniVim

/-- The C0 controls, DEL and the C1 controls. -/
def IsControl (wc : Nat) : Prop := wc < 32 ∨ wc = 127 ∨ 128 ≤ wc ∧ wc < 160

instance : DecidablePred IsControl := fun _ => inferInstanceAs (Decidable (_ ∨ _))

/-- `mbrtowc` and `wcwidth` of a UTF-8 locale. A character is the number of its bytes and its
code; there is none where `mbrtowc` reports an error, an incomplete character or the NUL. -/
structure Locale where
  mbrtowc : List UInt8 → Option (Nat × Nat)
  wcwidth : Nat → Int
  bounds : ∀ {d n wc}, mbrtowc d = some (n, wc) → 1 ≤ n ∧ n ≤ d.length
  /-- What follows the character does not matter. -/
  whole : ∀ {d n wc}, mbrtowc d = some (n, wc) → ∀ rest, mbrtowc (d.take n ++ rest) = some (n, wc)
  ascii : ∀ {c : UInt8}, 32 ≤ c.toNat → c.toNat < 127 → ∀ rest,
    mbrtowc (c :: rest) = some (1, c.toNat)
  single : ∀ {c : UInt8} {rest wc}, mbrtowc (c :: rest) = some (1, wc) → c.toNat < 128
  multi : ∀ {d n wc}, mbrtowc d = some (n, wc) → 1 < n → ∀ b ∈ d.take n, 128 ≤ b.toNat
  width_ascii : ∀ {wc}, 32 ≤ wc → wc < 127 → wcwidth wc = 1
  width_control : ∀ {wc}, IsControl wc → wcwidth wc < 0

/-- The characters of one and two bytes. -/
def decodeTwo (d : List UInt8) : Option (Nat × Nat) :=
  let c := (d.headD 0).toNat
  let b := (d.getD 1 0).toNat
  if 0 < c ∧ c < 128 then some (1, c)
  else if (194 ≤ c ∧ c < 224) ∧ 128 ≤ b ∧ b < 192 then some (2, (c - 192) * 64 + (b - 128))
  else none

theorem decodeTwo_cases {d : List UInt8} {n wc : Nat} (decoded : decodeTwo d = some (n, wc)) :
    (∃ c rest, d = c :: rest ∧ n = 1 ∧ 0 < c.toNat ∧ c.toNat < 128) ∨
    ∃ c b rest, d = c :: b :: rest ∧ n = 2 ∧ 194 ≤ c.toNat ∧ 128 ≤ b.toNat := by
  rw [decodeTwo] at decoded
  split at decoded
  next low =>
    have one := (Prod.mk.inj (Option.some.inj decoded)).1
    cases d with
    | nil => exact absurd low.1 (Nat.lt_irrefl 0)
    | cons c rest => exact .inl ⟨c, rest, rfl, one.symm, low⟩
  · split at decoded
    next high =>
      have two := (Prod.mk.inj (Option.some.inj decoded)).1
      rcases d with _ | ⟨c, _ | ⟨b, rest⟩⟩
      · exact absurd high.1.1 (by decide)
      · exact absurd high.2.1 (show ¬ 128 ≤ (0 : UInt8).toNat by decide)
      · exact .inr ⟨c, b, rest, rfl, two.symm, high.1.1, high.2.1⟩
    · exact nomatch decoded

/-- A locale with these characters, all of one column. -/
def twoByteLocale : Locale where
  mbrtowc := decodeTwo
  wcwidth wc := if IsControl wc then -1 else 1
  bounds decoded := by
    rcases decodeTwo_cases decoded with ⟨c, rest, rfl, rfl, -⟩ | ⟨c, b, rest, rfl, rfl, -⟩ <;>
      simp
  whole := by
    intro d n wc decoded tail
    rcases decodeTwo_cases decoded with ⟨c, rest, rfl, rfl, low⟩ | ⟨c, b, rest, rfl, rfl, -⟩
    · rw [← decoded, decodeTwo, decodeTwo]
      exact (if_pos low).trans (if_pos low).symm
    · rw [← decoded]
      rfl
  ascii low high rest := if_pos ⟨by simp only [List.headD_cons]; omega, by
    simp only [List.headD_cons]; omega⟩
  single := by
    intro c rest wc decoded
    rcases decodeTwo_cases decoded with ⟨c', rest', same, -, low⟩ | ⟨c', b', rest', -, two, -⟩
    · rw [(List.cons.inj same).1]
      exact low.2
    · exact absurd two (by decide)
  multi := by
    intro d n wc decoded more
    rcases decodeTwo_cases decoded with ⟨c, rest, rfl, rfl, -⟩ | ⟨c, b, rest, rfl, rfl, high, high'⟩
    · exact absurd more (by decide)
    · intro x mem
      rcases List.mem_pair.mp mem with rfl | rfl
      · omega
      · exact high'
  width_ascii low high := if_neg (by rw [IsControl]; omega)
  width_control control := by rw [if_pos control]; decide

section Code

variable (L : Locale)

/-- The bytes and the columns of the character at the start. -/
def glyph (data : List UInt8) (column : Nat) : Nat × Nat :=
  let c := (data.headD 0).toNat
  if c < 32 ∨ c = 127 then (1, if c = 9 then 4 - column % 4 else 2)
  else match L.mbrtowc data with
    | none => (1, 4)
    | some (n, wc) => (n, if L.wcwidth wc < 0 then 1 else (L.wcwidth wc).toNat)

def hexDigit (d : Nat) : UInt8 := UInt8.ofNat (if d < 10 then 48 + d else 87 + d)

/-- What is sent for a glyph that is shown whole. -/
def piece (data : List UInt8) (n width : Nat) : List UInt8 :=
  let c := (data.headD 0).toNat
  if c = 9 then List.replicate width 32
  else if c < 32 ∨ c = 127 then [94, if c = 127 then 63 else UInt8.ofNat (c + 64)]
  else if width = 4 ∧ n = 1 ∧ 128 ≤ c then [92, 120, hexDigit (c / 16), hexDigit (c % 16)]
  else match L.mbrtowc (data.take n) with
    | none => data.take n
    | some (_, wc) => if L.wcwidth wc < 0 then [63] else data.take n

def drawLoop (left limit : Nat) : Nat → List UInt8 → Nat → List UInt8
  | 0, _, _ => []
  | fuel + 1, data, column =>
    if data = [] ∨ limit ≤ column then []
    else
      let (n, width) := glyph L data column
      let stop := column + width
      let sent :=
        if left ≤ column ∧ stop ≤ limit then piece L data n width
        else if left < stop ∧ column < limit then
          let first := if column < left then left else column
          let last := if limit < stop then limit else stop
          List.replicate (last - first) 32
        else []
      sent ++ drawLoop left limit fuel (data.drop n) stop

/-- The sum of the two `size_t` wraps; every glyph takes a byte of the line, so the loop ends. -/
def drawText (data : List UInt8) (left columns : Nat) : List UInt8 :=
  drawLoop L left ((left + columns) % 2 ^ 64) data.length data 0

/-- The columns of the whole line, drawn from a column on. -/
def lineWidth : Nat → List UInt8 → Nat → Nat
  | 0, _, column => column
  | fuel + 1, data, column =>
    if data = [] then column
    else lineWidth fuel (data.drop (glyph L data column).1) (column + (glyph L data column).2)

/-- The bytes decode to characters that are not controls, which take that many columns. -/
inductive Shows : List UInt8 → Nat → Prop
  | nil : Shows [] 0
  | char {out : List UInt8} {n wc width : Nat} (decoded : L.mbrtowc out = some (n, wc))
      (visible : ¬ IsControl wc) (plain : ∀ b ∈ out.take n, 32 ≤ b.toNat ∧ b.toNat ≠ 127)
      (rest : Shows (out.drop n) width) : Shows out ((L.wcwidth wc).toNat + width)

end Code

variable {L : Locale}

/-! ## What is sent -/

variable {w : Nat} {data : List UInt8}

theorem Shows.plain {out : List UInt8} (shows_ : Shows L out w) :
    ∀ b ∈ out, 32 ≤ b.toNat ∧ b.toNat ≠ 127 := by
  induction shows_ with
  | nil => exact fun b mem => absurd mem List.not_mem_nil
  | @char out n wc width decoded visible plain rest ih =>
    intro b mem
    rw [← List.take_append_drop n out] at mem
    exact (List.mem_append.mp mem).elim (plain b) (ih b)

theorem Shows.append {a b : List UInt8} {u : Nat} (first : Shows L a u) (second : Shows L b w) :
    Shows L (a ++ b) (u + w) := by
  induction first with
  | nil => rwa [List.nil_append, Nat.zero_add]
  | @char out n wc width decoded visible plain rest ih =>
    have le := (L.bounds decoded).2
    have again := L.whole decoded (out.drop n ++ b)
    rw [← List.append_assoc, List.take_append_drop] at again
    rw [Nat.add_assoc]
    refine .char again visible ?_ ?_
    · rwa [List.take_append_of_le_length le]
    · rwa [List.drop_append_of_le_length le]

theorem shows_ascii {c : UInt8} (low : 32 ≤ c.toNat) (high : c.toNat < 127) : Shows L [c] 1 := by
  have shown := Shows.char (L := L) (L.ascii low high []) (by rw [IsControl]; omega)
    (fun b mem => by rw [List.mem_singleton.mp mem]; omega) .nil
  rwa [L.width_ascii low high] at shown

theorem shows_cons {c : UInt8} {out : List UInt8} (low : 32 ≤ c.toNat) (high : c.toNat < 127)
    (rest : Shows L out w) : Shows L (c :: out) (1 + w) :=
  (shows_ascii low high).append rest

theorem shows_blanks (n : Nat) : Shows L (List.replicate n 32) n := by
  induction n with
  | zero => exact .nil
  | succ n ih =>
    rw [List.replicate_succ, Nat.add_comm]
    exact shows_cons (by decide) (by decide) ih

theorem hexDigit_toNat {d : Nat} (digit : d < 16) :
    32 ≤ (hexDigit d).toNat ∧ (hexDigit d).toNat < 127 := by
  rw [hexDigit, UInt8.toNat_ofNat']
  split <;> omega

theorem shows_take {n wc : Nat} (decoded : L.mbrtowc data = some (n, wc))
    (first : 32 ≤ (data.headD 0).toNat ∧ (data.headD 0).toNat ≠ 127)
    (visible : ¬ L.wcwidth wc < 0) : Shows L (data.take n) (L.wcwidth wc).toNat := by
  have again := L.whole decoded []
  rw [List.append_nil] at again
  rw [← Nat.add_zero (L.wcwidth wc).toNat]
  refine .char again (fun control => visible (L.width_control control)) (fun b mem => ?_) ?_
  · rw [List.take_take, Nat.min_self] at mem
    by_cases one : 1 < n
    · have high := L.multi decoded one b mem
      omega
    · obtain ⟨pos, le⟩ := L.bounds decoded
      have single : n = 1 := by omega
      subst single
      cases data with
      | nil => exact absurd le (by decide)
      | cons c rest =>
        rw [List.mem_singleton.mp mem]
        exact first
  · rw [List.drop_take, Nat.sub_self, List.take_zero]
    exact .nil

theorem glyph_bounds (more : data ≠ []) (column : Nat) :
    1 ≤ (glyph L data column).1 ∧ (glyph L data column).1 ≤ data.length := by
  have pos := List.length_pos_iff.mpr more
  rw [glyph]
  split
  · exact ⟨le_rfl, pos⟩
  · split
    · exact ⟨le_rfl, pos⟩
    next decoded => exact L.bounds decoded

theorem piece_shows (more : data ≠ []) (column : Nat) :
    Shows L (piece L data (glyph L data column).1 (glyph L data column).2)
      (glyph L data column).2 := by
  obtain ⟨c, rest, rfl⟩ := List.exists_cons_of_ne_nil more
  have byte := c.toNat_lt
  by_cases control : c.toNat < 32 ∨ c.toNat = 127
  · have same : glyph L (c :: rest) column = (1, if c.toNat = 9 then 4 - column % 4 else 2) :=
      if_pos control
    rw [same, piece, List.headD_cons]
    dsimp only
    by_cases tab : c.toNat = 9
    · rw [if_pos tab, if_pos tab]
      exact shows_blanks _
    · rw [if_neg tab, if_neg tab, if_pos control]
      have second : 32 ≤ (if c.toNat = 127 then 63 else UInt8.ofNat (c.toNat + 64) : UInt8).toNat ∧
          (if c.toNat = 127 then 63 else UInt8.ofNat (c.toNat + 64) : UInt8).toNat < 127 := by
        split
        · decide
        · rw [UInt8.toNat_ofNat']
          omega
      exact shows_cons (by decide) (by decide) (shows_cons second.1 second.2 .nil)
  have plain : c.toNat ≠ 9 := by omega
  cases decoded : L.mbrtowc (c :: rest) with
  | none =>
    have same : glyph L (c :: rest) column = (1, 4) := by
      rw [glyph, List.headD_cons, if_neg control, decoded]
    have high : 128 ≤ c.toNat := by
      by_contra low
      rw [L.ascii (by omega) (by omega)] at decoded
      exact nomatch decoded
    obtain ⟨low, below⟩ := @hexDigit_toNat (c.toNat / 16) (by omega)
    obtain ⟨low', below'⟩ := @hexDigit_toNat (c.toNat % 16) (by omega)
    rw [same, piece, List.headD_cons, if_neg plain, if_neg control, if_pos ⟨rfl, rfl, high⟩]
    exact shows_cons (by decide) (by decide) (shows_cons (by decide) (by decide)
      (shows_cons low below (shows_cons low' below' .nil)))
  | some char =>
    obtain ⟨n, wc⟩ := char
    have same : glyph L (c :: rest) column =
        (n, if L.wcwidth wc < 0 then 1 else (L.wcwidth wc).toNat) := by
      rw [glyph, List.headD_cons, if_neg control, decoded]
    have again := L.whole decoded []
    rw [List.append_nil] at again
    have valid : ¬ (n = 1 ∧ 128 ≤ c.toNat) := by
      rintro ⟨rfl, high⟩
      exact absurd (L.single decoded) (Nat.not_lt.mpr high)
    rw [same, piece, List.headD_cons, if_neg plain, if_neg control,
      if_neg fun escaped => valid escaped.2, again]
    dsimp only
    split
    · exact shows_cons (by decide) (by decide) .nil
    next visible => exact shows_take decoded (by rw [List.headD_cons]; omega) visible

/-! ## The columns of the window -/

/-- The columns of `[a, b)` that lie in the window. -/
def shown (left limit a b : Nat) : Nat := min b limit - max a left

theorem shown_add {left limit a b c : Nat} (ab : a ≤ b) (bc : b ≤ c) :
    shown left limit a b + shown left limit b c = shown left limit a c := by
  rw [shown, shown, shown]
  omega

theorem le_lineWidth (fuel : Nat) (data : List UInt8) (column : Nat) :
    column ≤ lineWidth L fuel data column := by
  induction fuel generalizing data column with
  | zero => exact le_rfl
  | succ fuel ih =>
    rw [lineWidth]
    split
    · exact le_rfl
    · exact Nat.le_trans (Nat.le_add_right ..) (ih _ _)

theorem drawLoop_shows (left limit : Nat) {fuel : Nat} (enough : data.length ≤ fuel)
    (column : Nat) :
    Shows L (drawLoop L left limit fuel data column)
      (shown left limit column (lineWidth L fuel data column)) := by
  induction fuel generalizing data column with
  | zero =>
    rw [drawLoop, lineWidth, shown, show min column limit - max column left = 0 by omega]
    exact .nil
  | succ fuel ih =>
    rw [drawLoop, lineWidth]
    by_cases done : data = [] ∨ limit ≤ column
    · rw [if_pos done]
      have none_ : shown left limit column (if data = [] then column else
          lineWidth L fuel (data.drop (glyph L data column).1)
            (column + (glyph L data column).2)) = 0 := by
        rw [shown]
        rcases done with empty | past
        · rw [if_pos empty]
          omega
        · omega
      rw [none_]
      exact .nil
    · obtain ⟨more, inside⟩ := not_or.mp done
      obtain ⟨pos, le⟩ := glyph_bounds (L := L) more column
      have whole := piece_shows (L := L) more column
      rw [if_neg done, if_neg more]
      generalize glyph L data column = g at pos le whole ⊢
      obtain ⟨n, width⟩ := g
      dsimp only at pos le whole ⊢
      rw [← shown_add (Nat.le_add_right column width) (le_lineWidth ..)]
      refine .append ?_ (ih (by rw [List.length_drop]; omega) _)
      rw [shown]
      by_cases fits : left ≤ column ∧ column + width ≤ limit
      · rw [if_pos fits, show min (column + width) limit - max column left = width by omega]
        exact whole
      rw [if_neg fits]
      by_cases cut : left < column + width ∧ column < limit
      · have blanks : (if limit < column + width then limit else column + width) -
            (if column < left then left else column) =
            min (column + width) limit - max column left := by
          split <;> split <;> omega
        rw [if_pos cut, blanks]
        exact shows_blanks _
      · rw [if_neg cut, show min (column + width) limit - max column left = 0 by omega]
        exact .nil

/-- The columns of the line in the window. -/
def windowColumns (L : Locale) (data : List UInt8) (left columns : Nat) : Nat :=
  ((Finset.range (lineWidth L data.length data 0)).filter
    fun c => left ≤ c ∧ c < left + columns).card

theorem shown_eq_windowColumns (data : List UInt8) (left columns : Nat) :
    shown left (left + columns) 0 (lineWidth L data.length data 0) =
      windowColumns L data left columns := by
  rw [windowColumns, shown, Nat.zero_max, ← Nat.card_Ico]
  congr 1
  ext c
  rw [Finset.mem_Ico, Finset.mem_filter, Finset.mem_range]
  omega

/-- Every line is sent as characters that are not controls and fit into the columns given; when
the end of the window is a `size_t` they fill the columns of the line inside it. -/
theorem drawText_shows (L : Locale) (data : List UInt8) (left columns : Nat) :
    ∃ w, Shows L (drawText L data left columns) w ∧ w ≤ columns ∧
      (∀ b ∈ drawText L data left columns, 32 ≤ b.toNat ∧ b.toNat ≠ 127) ∧
      (left + columns < 2 ^ 64 → w = windowColumns L data left columns) := by
  have shows_ := drawLoop_shows (L := L) left ((left + columns) % 2 ^ 64) (le_refl data.length) 0
  refine ⟨_, shows_, ?_, shows_.plain, fun fits => ?_⟩
  · rw [shown]
    have := Nat.mod_le (left + columns) (2 ^ 64)
    omega
  · rw [Nat.mod_eq_of_lt fits]
    exact shown_eq_windowColumns data left columns

/-- At the second of two letters with as many columns as a `size_t` holds, the end of the window
wraps and the letter is not drawn. -/
theorem drawText_wraps :
    drawText twoByteLocale [97, 98] 1 (2 ^ 64 - 1) = [] ∧
      windowColumns twoByteLocale [97, 98] 1 (2 ^ 64 - 1) = 1 ∧ ¬ Shows twoByteLocale [] 1 := by
  refine ⟨by decide, ?_, ?_⟩
  · rw [← shown_eq_windowColumns]
    decide
  · intro shows_
    generalize none_ : ([] : List UInt8) = out at shows_
    generalize one : 1 = w at shows_
    cases shows_ with
    | nil => exact absurd one (by decide)
    | char decoded =>
      subst none_
      exact nomatch decoded

end MiniVim

import Mathlib

/-!
# Byte-addressed buffers

A buffer is a function from addresses to bytes. `copy` is `memcpy` into it, `slice` reads a
range back, and `load` and `store` move little-endian numbers of a given width. Two
buffers that agree on a range give the same slices and numbers there, which is how a proof
passes a write that happened elsewhere.
-/

namespace Bytes

abbrev Buffer := Nat → UInt8

def slice (m : Buffer) (off len : Nat) : List UInt8 := (List.range len).map fun i => m (off + i)

def copy (m : Buffer) (off : Nat) (src : List UInt8) : Buffer := fun i =>
  if off ≤ i then (src[i - off]?).getD (m i) else m i

/-- The number with the given bytes, least significant first. -/
def ofLe : List UInt8 → Nat
  | [] => 0
  | b :: rest => b.toNat + 256 * ofLe rest

/-- The `width` low bytes of a number, least significant first. -/
def toLe : (width x : Nat) → List UInt8
  | 0, _ => []
  | width + 1, x => UInt8.ofNat x :: toLe width (x / 256)

def load (width : Nat) (m : Buffer) (off : Nat) : Nat := ofLe (slice m off width)

def store (width : Nat) (m : Buffer) (off x : Nat) : Buffer := copy m off (toLe width x)

/-- The buffers have the same bytes in `[low, high)`. -/
def Agree (m m' : Buffer) (low high : Nat) : Prop := ∀ i, low ≤ i → i < high → m i = m' i

@[simp] theorem slice_length (m : Buffer) (off len : Nat) : (slice m off len).length = len := by
  simp [slice]

@[simp] theorem toLe_length (width x : Nat) : (toLe width x).length = width := by
  induction width generalizing x with
  | zero => rfl
  | succ width ih => simp [toLe, ih]

theorem ofLe_toLe {width x : Nat} (small : x < 256 ^ width) : ofLe (toLe width x) = x := by
  induction width generalizing x with
  | zero =>
    rw [pow_zero] at small
    simp only [toLe, ofLe]
    omega
  | succ width ih =>
    have rest : x / 256 < 256 ^ width := by
      rw [pow_succ] at small
      exact Nat.div_lt_of_lt_mul (by rwa [Nat.mul_comm])
    rw [toLe, ofLe, ih rest, UInt8.toNat_ofNat']
    omega

theorem ofLe_lt (bytes : List UInt8) : ofLe bytes < 256 ^ bytes.length := by
  induction bytes with
  | nil => simp [ofLe]
  | cons b rest ih =>
    have := b.toNat_lt
    rw [ofLe, List.length_cons, pow_succ]
    omega

theorem load_lt (width : Nat) (m : Buffer) (off : Nat) : load width m off < 256 ^ width := by
  have bound := ofLe_lt (slice m off width)
  rwa [slice_length] at bound

/-! ## Frames -/

variable {m' : Buffer} {low high : Nat}

theorem Agree.symm {m : Buffer} (agree : Agree m m' low high) : Agree m' m low high :=
  fun i above below => (agree i above below).symm

theorem Agree.trans {m m'' : Buffer} (first : Agree m m' low high)
    (second : Agree m' m'' low high) : Agree m m'' low high :=
  fun i above below => (first i above below).trans (second i above below)

theorem Agree.narrow {m : Buffer} {low' high' : Nat} (agree : Agree m m' low high)
    (above : low ≤ low') (below : high' ≤ high) : Agree m m' low' high' :=
  fun i bound bound' => agree i (above.trans bound) (bound'.trans_le below)

theorem slice_congr {m : Buffer} {off len : Nat} (agree : Agree m m' off (off + len)) :
    slice m off len = slice m' off len := by
  refine List.map_congr_left fun i listed => agree (off + i) (by omega) ?_
  have := List.mem_range.1 listed
  omega

theorem load_congr {m : Buffer} {width off : Nat} (agree : Agree m m' off (off + width)) :
    load width m off = load width m' off := by
  rw [load, load, slice_congr agree]

/-- A copy changes nothing outside its range. -/
theorem copy_agree (m : Buffer) {off : Nat} {src : List UInt8}
    (apart : high ≤ off ∨ off + src.length ≤ low) : Agree (copy m off src) m low high := by
  intro i above below
  rw [copy]
  split
  · rw [List.getElem?_eq_none (by omega), Option.getD_none]
  · rfl

theorem store_agree (m : Buffer) {width off x : Nat} (apart : high ≤ off ∨ off + width ≤ low) :
    Agree (store width m off x) m low high :=
  copy_agree m (by rwa [toLe_length])

theorem slice_copy (m : Buffer) (off : Nat) (src : List UInt8) :
    slice (copy m off src) off src.length = src := by
  apply List.ext_getElem
  · simp
  · intro i inside _
    rw [slice_length] at inside
    simp [slice, copy, inside]

theorem load_store (m : Buffer) {width off x : Nat} (small : x < 256 ^ width) :
    load width (store width m off x) off = x := by
  have read := slice_copy m off (toLe width x)
  rw [toLe_length] at read
  rw [load, store, read, ofLe_toLe small]

/-! ## Reads past a write -/

section Apart

variable (m : Buffer) {width width' off at_ x len : Nat} {src : List UInt8}

theorem slice_copy_apart (apart : at_ + len ≤ off ∨ off + src.length ≤ at_) :
    slice (copy m off src) at_ len = slice m at_ len :=
  slice_congr (copy_agree m apart)

theorem slice_store_apart (apart : at_ + len ≤ off ∨ off + width ≤ at_) :
    slice (store width m off x) at_ len = slice m at_ len :=
  slice_congr (store_agree m apart)

theorem load_copy_apart (apart : at_ + width ≤ off ∨ off + src.length ≤ at_) :
    load width (copy m off src) at_ = load width m at_ :=
  load_congr (copy_agree m apart)

theorem load_store_apart (apart : at_ + width ≤ off ∨ off + width' ≤ at_) :
    load width (store width' m off x) at_ = load width m at_ :=
  load_congr (store_agree m apart)

end Apart

end Bytes

import Mathlib

/-!
# Strings in C memory

A pointer is the list of bytes from where it points to the end of the object. A function that
reads or writes outside of an object has no result, so a result says that it did not.

`cstring` is the string a pointer points to. The lemmas turn the functions of `string.h` into
functions of that string.
-/

namespace CString

/-- The bytes before the terminator. -/
def cstring : List UInt8 → Option (List UInt8)
  | [] => none
  | b :: rest => if b = 0 then some [] else (cstring rest).map (b :: ·)

def strlen (p : List UInt8) : Option Nat := (cstring p).map List.length

/-- The distance to the first `c` of the string, if it has one. -/
def strchr (c : UInt8) : List UInt8 → Option (Option Nat)
  | [] => none
  | b :: rest =>
    if b = c then some (some 0)
    else if b = 0 then some none
    else (strchr c rest).map (Option.map (· + 1))

def strcmp (p q : List UInt8) : Option Bool := do
  let s ← cstring p
  let t ← cstring q
  return s = t

/-- The bytes `memcmp` and `memcpy` read. -/
def read (p : List UInt8) (len : Nat) : Option (List UInt8) :=
  if len ≤ p.length then some (p.take len) else none

/-- `memcpy` of these bytes to an offset of an object. -/
def memcpy (dst : List UInt8) (off : Nat) (src : List UInt8) : Option (List UInt8) :=
  if off + src.length ≤ dst.length then some (dst.take off ++ src ++ dst.drop (off + src.length))
  else none

/-- `snprintf` of a text into an object, given its size. It returns the length of the whole
text. -/
def snprintf (out : List UInt8) (size : Nat) (text : List UInt8) : Option (List UInt8 × Nat) :=
  if size = 0 then some (out, text.length)
  else (memcpy out 0 (text.take (size - 1) ++ [0])).map (·, text.length)

/-! ## Strings -/

variable {s : List UInt8}

theorem cstring_append (plain : 0 ∉ s) (rest : List UInt8) : cstring (s ++ 0 :: rest) = some s := by
  induction s with
  | nil => rfl
  | cons b s ih =>
    have solid : b ≠ 0 := fun zero => plain (zero ▸ List.mem_cons_self)
    rw [List.cons_append, cstring, if_neg solid, ih fun mem => plain (List.mem_cons_of_mem _ mem)]
    rfl

theorem cstring_eq_some {p : List UInt8} (found : cstring p = some s) :
    0 ∉ s ∧ ∃ rest, p = s ++ 0 :: rest := by
  induction p generalizing s with
  | nil => cases found
  | cons b p ih =>
    rw [cstring] at found
    split at found
    · rename_i zero
      cases found
      exact ⟨List.not_mem_nil, p, by rw [zero]; rfl⟩
    · rename_i solid
      obtain ⟨t, inner, rfl⟩ := Option.map_eq_some_iff.mp found
      obtain ⟨plain, rest, rfl⟩ := ih inner
      refine ⟨?_, rest, rfl⟩
      intro mem
      rcases List.mem_cons.mp mem with zero | mem
      · exact solid zero.symm
      · exact plain mem

/-- An object with a terminator in it holds a string. -/
theorem cstring_of_mem {p : List UInt8} (terminated : 0 ∈ p) : ∃ s, cstring p = some s := by
  induction p with
  | nil => cases terminated
  | cons b p ih =>
    rw [cstring]
    split
    · exact ⟨[], rfl⟩
    · rename_i solid
      rcases List.mem_cons.mp terminated with zero | mem
      · exact absurd zero.symm solid
      · obtain ⟨s, found⟩ := ih mem
        exact ⟨b :: s, by rw [found]; rfl⟩

theorem strchr_append {c : UInt8} {a : List UInt8} (absent : c ∉ a) (plain : 0 ∉ a)
    (rest : List UInt8) : strchr c (a ++ c :: rest) = some (some a.length) := by
  induction a with
  | nil => rw [List.nil_append, strchr, if_pos rfl]; rfl
  | cons b a ih =>
    have other : b ≠ c := fun eq => absent (eq ▸ List.mem_cons_self)
    have solid : b ≠ 0 := fun zero => plain (zero ▸ List.mem_cons_self)
    rw [List.cons_append, strchr, if_neg other, if_neg solid,
      ih (fun mem => absent (List.mem_cons_of_mem _ mem))
        fun mem => plain (List.mem_cons_of_mem _ mem)]
    rfl

theorem strchr_absent {c : UInt8} (solid : c ≠ 0) (absent : c ∉ s) (plain : 0 ∉ s)
    (rest : List UInt8) : strchr c (s ++ 0 :: rest) = some none := by
  induction s with
  | nil => rw [List.nil_append, strchr, if_neg solid.symm, if_pos rfl]
  | cons b s ih =>
    have other : b ≠ c := fun eq => absent (eq ▸ List.mem_cons_self)
    have solid : b ≠ 0 := fun zero => plain (zero ▸ List.mem_cons_self)
    rw [List.cons_append, strchr, if_neg other, if_neg solid,
      ih (fun mem => absent (List.mem_cons_of_mem _ mem))
        fun mem => plain (List.mem_cons_of_mem _ mem)]
    rfl

/-- A byte at or before the terminator can be read. -/
theorem getElem?_terminated {rest : List UInt8} {i : Nat} (inside : i ≤ s.length) :
    ((s ++ 0 :: rest)[i]?) = some ((s[i]?).getD 0) := by
  rcases Nat.lt_or_eq_of_le inside with low | rfl
  · rw [List.getElem?_append_left low, List.getElem?_eq_getElem low]
    rfl
  · rw [List.getElem?_append_right (Nat.le_refl _), Nat.sub_self, List.getElem?_eq_none (Nat.le_refl _)]
    rfl

/-! ## Copies -/

theorem memcpy_eq {dst src : List UInt8} {off : Nat} (fits : off + src.length ≤ dst.length) :
    memcpy dst off src = some (dst.take off ++ src ++ dst.drop (off + src.length)) := by
  rw [memcpy, if_pos fits]

theorem memcpy_length {dst src out : List UInt8} {off : Nat} (done : memcpy dst off src = some out) :
    out.length = dst.length := by
  rw [memcpy] at done
  split at done
  · cases done
    simp only [List.length_append, List.length_take, List.length_drop]
    omega
  · cases done

theorem take_mem {a : UInt8} {n : Nat} (absent : a ∉ s) : a ∉ s.take n :=
  fun mem => absent (List.mem_of_mem_take mem)

/-- A text goes into an object of at least this size, cut to fit. -/
theorem snprintf_eq {out text : List UInt8} {size : Nat} (some_room : 0 < size)
    (inside : size ≤ out.length) (plain : 0 ∉ text) :
    ∃ out', snprintf out size text = some (out', text.length) ∧ out'.length = out.length ∧
      cstring out' = some (text.take (size - 1)) := by
  have fits : 0 + (text.take (size - 1) ++ [0]).length ≤ out.length := by
    rw [List.length_append, List.length_take, List.length_singleton]
    omega
  have done := memcpy_eq fits
  refine ⟨_, ?_, memcpy_length done, ?_⟩
  · rw [snprintf, if_neg (Nat.ne_of_gt some_room), done]
    rfl
  · rw [List.take_zero, List.nil_append, List.append_assoc]
    exact cstring_append (take_mem plain) _

end CString

import Mathlib

/-!
# External data representation

The encoders of XDR as far as replies need them. Every item takes a multiple of four bytes; the
lemmas say how many.
-/

namespace Xdr

/-- The bytes of a number, the highest first. -/
def bigEndian (n : Nat) : Nat → List UInt8
  | 0 => []
  | width + 1 => UInt8.ofNat (n / 256 ^ width) :: bigEndian n width

def uint32 (n : UInt32) : List UInt8 := bigEndian n.toNat 4

def uint64 (n : UInt64) : List UInt8 := bigEndian n.toNat 8

def bool (b : Bool) : List UInt8 := uint32 (if b then 1 else 0)

/-- The length rounded up to a multiple of four. -/
def padded (n : Nat) : Nat := (n + 3) / 4 * 4

/-- Bytes of a length that both sides know. -/
def fixed (bytes : List UInt8) : List UInt8 :=
  bytes ++ List.replicate (padded bytes.length - bytes.length) 0

/-- A string: its length and its bytes. -/
def string (bytes : List UInt8) : List UInt8 := uint32 (UInt32.ofNat bytes.length) ++ fixed bytes

/-- A union on a flag: the value follows if there is one. -/
def optional {α : Type} (encode : α → List UInt8) : Option α → List UInt8
  | none => bool false
  | some a => bool true ++ encode a

/-- A linked list: a flag before each element and one at the end. -/
def linked {α : Type} (encode : α → List UInt8) : List α → List UInt8
  | [] => bool false
  | a :: rest => bool true ++ encode a ++ linked encode rest

@[simp] theorem bigEndian_length (n width : Nat) : (bigEndian n width).length = width := by
  induction width with
  | zero => rfl
  | succ width ih => rw [bigEndian, List.length_cons, ih]

@[simp] theorem uint32_length (n : UInt32) : (uint32 n).length = 4 := bigEndian_length _ _

@[simp] theorem uint64_length (n : UInt64) : (uint64 n).length = 8 := bigEndian_length _ _

@[simp] theorem bool_length (b : Bool) : (bool b).length = 4 := uint32_length _

@[simp] theorem fixed_length (bytes : List UInt8) : (fixed bytes).length = padded bytes.length := by
  rw [fixed, List.length_append, List.length_replicate, padded]
  omega

@[simp] theorem string_length (bytes : List UInt8) : (string bytes).length = 4 + padded bytes.length := by
  rw [string, List.length_append, uint32_length, fixed_length]

theorem linked_length {α : Type} (encode : α → List UInt8) (l : List α) :
    (linked encode l).length = (l.map fun a => 4 + (encode a).length).sum + 4 := by
  induction l with
  | nil => rfl
  | cons a rest ih =>
    rw [linked, List.length_append, List.length_append, bool_length, ih, List.map_cons,
      List.sum_cons]
    omega

end Xdr

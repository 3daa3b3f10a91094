import Mathlib

/-!
# Fixed-width words

Conversions between machine words of different widths, as C performs them:
truncation, sign extension through a narrower signed type, and little-endian
storage of a 32-bit word in a byte array.
-/

namespace Words

/-- Narrowing a 64-bit value to 32 bits and widening it again keeps it exactly when it fits. -/
theorem widen_narrow_iff (x : UInt64) : x.toUInt32.toUInt64 = x ↔ x.toNat < 2 ^ 32 := by
  rw [← UInt64.toNat_inj]
  simp only [UInt32.toNat_toUInt64, UInt64.toNat_toUInt32]
  omega

/-- A value in the signed 32-bit range survives the trip through its 32-bit pattern. -/
theorem signExtend_truncate (x : Int64) (low : -2 ^ 31 ≤ x.toInt) (high : x.toInt < 2 ^ 31) :
    (x.toInt32.toUInt32.toInt32).toInt64 = x := by
  rw [← Int64.toInt_inj]
  simp only [Int32.toInt32_toUInt32, Int32.toInt_toInt64, Int64.toInt_toInt32]
  rw [Int.bmod_def]
  omega

/-- Store a 32-bit word in the first four bytes, least significant byte first. -/
def storeLe32 {n : Nat} (bytes : Vector UInt8 (n + 4)) (word : UInt32) :
    Vector UInt8 (n + 4) :=
  (((bytes.set 0 word.toUInt8).set 1 (word >>> 8).toUInt8).set 2
    (word >>> 16).toUInt8).set 3 (word >>> 24).toUInt8

/-- Read the first four bytes as a 32-bit word, least significant byte first. -/
def loadLe32 {n : Nat} (bytes : Vector UInt8 (n + 4)) : UInt32 :=
  bytes[0].toUInt32 + bytes[1].toUInt32 <<< 8 + bytes[2].toUInt32 <<< 16 +
    bytes[3].toUInt32 <<< 24

@[simp] theorem loadLe32_storeLe32 {n : Nat} (bytes : Vector UInt8 (n + 4)) (word : UInt32) :
    loadLe32 (storeLe32 bytes word) = word := by
  have bound := word.toNat_lt
  apply UInt32.toNat_inj.1
  simp only [loadLe32, storeLe32, Vector.getElem_set]
  simp [Nat.shiftLeft_eq, Nat.shiftRight_eq_div_pow]
  omega

end Words

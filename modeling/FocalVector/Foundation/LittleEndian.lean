import Mathlib.Data.Nat.Notation
import Mathlib.Algebra.Order.Ring.Nat
import Mathlib.Tactic.Ring

/-!
Contract: fixed-width little-endian byte strings.

Owns: the bytes of a natural number in a given width, the number read back
from bytes, and the two round trips, with their instances for 32-bit and
64-bit words.

Does not own: any file format, or which fields of a format are words.
-/

namespace FocalVector.Foundation

abbrev Bytes := List UInt8

namespace LittleEndian

/-- The `width` low-order bytes of `value`, least significant first. -/
def toBytes : Nat → Nat → Bytes
  | 0, _ => []
  | width + 1, value => UInt8.ofNat value :: toBytes width (value / 256)

/-- The number whose little-endian bytes are given. -/
def ofBytes : Bytes → Nat
  | [] => 0
  | byte :: bytes => byte.toNat + 256 * ofBytes bytes

@[simp] theorem toBytes_length (width value : Nat) :
    (toBytes width value).length = width := by
  induction width generalizing value with
  | zero => rfl
  | succ width ih => simp [toBytes, ih]

theorem ofBytes_lt (bytes : Bytes) : ofBytes bytes < 256 ^ bytes.length := by
  induction bytes with
  | nil => simp [ofBytes]
  | cons byte bytes ih =>
    have small := byte.toNat_lt
    simp only [ofBytes, List.length_cons, pow_succ]
    omega

theorem ofBytes_toBytes (width value : Nat) :
    ofBytes (toBytes width value) = value % 256 ^ width := by
  induction width generalizing value with
  | zero => simp [toBytes, ofBytes, Nat.mod_one]
  | succ width ih =>
    simp only [toBytes, ofBytes, ih, UInt8.toNat_ofNat']
    rw [pow_succ' 256 width, Nat.mod_mul]

theorem toBytes_ofBytes (bytes : Bytes) : toBytes bytes.length (ofBytes bytes) = bytes := by
  induction bytes with
  | nil => rfl
  | cons byte bytes ih =>
    have small := byte.toNat_lt
    have head : UInt8.ofNat (byte.toNat + 256 * ofBytes bytes) = byte := by
      apply UInt8.toNat_inj.mp
      rw [UInt8.toNat_ofNat']
      omega
    have tail : (byte.toNat + 256 * ofBytes bytes) / 256 = ofBytes bytes := by omega
    simp only [List.length_cons, ofBytes, toBytes, head, tail, ih]

/-- Byte strings of one length are determined by the number they spell. -/
theorem ofBytes_injective {left right : Bytes} (sameLength : left.length = right.length)
    (sameValue : ofBytes left = ofBytes right) : left = right := by
  rw [← toBytes_ofBytes left, ← toBytes_ofBytes right, sameLength, sameValue]

/-! ## Machine words -/

def u32Bytes (word : UInt32) : Bytes := toBytes 4 word.toNat

def u32OfBytes (bytes : Bytes) : UInt32 := UInt32.ofNat (ofBytes bytes)

def u64Bytes (word : UInt64) : Bytes := toBytes 8 word.toNat

def u64OfBytes (bytes : Bytes) : UInt64 := UInt64.ofNat (ofBytes bytes)

@[simp] theorem u32Bytes_length (word : UInt32) : (u32Bytes word).length = 4 :=
  toBytes_length 4 _

@[simp] theorem u64Bytes_length (word : UInt64) : (u64Bytes word).length = 8 :=
  toBytes_length 8 _

@[simp] theorem u32OfBytes_u32Bytes (word : UInt32) : u32OfBytes (u32Bytes word) = word := by
  apply UInt32.toNat_inj.mp
  rw [u32OfBytes, u32Bytes, UInt32.toNat_ofNat', ofBytes_toBytes]
  have small := word.toNat_lt
  omega

@[simp] theorem u64OfBytes_u64Bytes (word : UInt64) : u64OfBytes (u64Bytes word) = word := by
  apply UInt64.toNat_inj.mp
  rw [u64OfBytes, u64Bytes, UInt64.toNat_ofNat', ofBytes_toBytes]
  have small := word.toNat_lt
  omega

theorem u32OfBytes_injective {left right : Bytes} (leftLength : left.length = 4)
    (rightLength : right.length = 4) (same : u32OfBytes left = u32OfBytes right) :
    left = right := by
  apply ofBytes_injective (leftLength.trans rightLength.symm)
  have leftSmall := ofBytes_lt left
  have rightSmall := ofBytes_lt right
  have values := congrArg UInt32.toNat same
  simp only [u32OfBytes, UInt32.toNat_ofNat'] at values
  rw [leftLength] at leftSmall
  rw [rightLength] at rightSmall
  omega

theorem u32Bytes_u32OfBytes {bytes : Bytes} (fourBytes : bytes.length = 4) :
    u32Bytes (u32OfBytes bytes) = bytes :=
  u32OfBytes_injective (u32Bytes_length _) fourBytes (u32OfBytes_u32Bytes _)

end LittleEndian

end FocalVector.Foundation

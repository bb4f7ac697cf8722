import FocalVector.Foundation.LittleEndian
import Mathlib.Data.Nat.Bitwise

/-!
Contract: the bitwise CRC-32C checksum and the facts the formats rest on:
changing up to four bytes in a row always changes it.

The register is shifted right one bit at a time and the reflected polynomial is
folded in when the bit shifted out is set. The polynomial has its top bit set,
so that the bit shifted out can be read back off the result; every bit step, and
with it every byte step, is injective in the register. A bit step also respects
exclusive or, so that what a change does to the register does not depend on the
register, and the change of a byte is not back in the low byte of the register
before four more bytes were taken in.

Owns: `crc32c`, `crc32cUpdate`, `crc32c_single_byte` and `crc32c_burst`.
-/

namespace FocalVector.Foundation

/-- One turn of the inner loop. -/
def crc32cBit (crc : UInt32) : UInt32 :=
  (crc >>> 1) ^^^ (0x82f63b78 &&& (0 - (crc &&& 1)))

def crc32cByte (crc : UInt32) (byte : UInt8) : UInt32 :=
  (List.range 8).foldl (fun register _ => crc32cBit register) (crc ^^^ byte.toUInt32)

def crc32cUpdate (crc : UInt32) (bytes : Bytes) : UInt32 :=
  bytes.foldl crc32cByte crc

def crc32c (bytes : Bytes) : UInt32 := ~~~ crc32cUpdate (~~~ 0) bytes

/-- The part of a bit step that depends on the bit shifted out. -/
private theorem crc32c_fold (crc : UInt32) :
    (0x82f63b78 &&& (0 - (crc &&& 1)) : UInt32) =
      if crc.toNat % 2 = 1 then 0x82f63b78 else 0 := by
  have lowBit : crc &&& 1 = UInt32.ofNat (crc.toNat % 2) := by
    apply UInt32.toNat_inj.mp
    simp [Nat.and_one_is_mod]
    omega
  rcases Nat.mod_two_eq_zero_or_one crc.toNat with even | odd
  · rw [lowBit, even]
    decide
  · rw [lowBit, odd]
    decide

private theorem crc32cBit_toNat (crc : UInt32) :
    (crc32cBit crc).toNat =
      crc.toNat / 2 ^^^ (if crc.toNat % 2 = 1 then 0x82f63b78 else 0) := by
  unfold crc32cBit
  rw [crc32c_fold, UInt32.toNat_xor, UInt32.toNat_shiftRight]
  split <;> simp [Nat.shiftRight_eq_div_pow]

private theorem crc32cBit_top (crc : UInt32) :
    (crc32cBit crc).toNat.testBit 31 = decide (crc.toNat % 2 = 1) := by
  have small : crc.toNat / 2 < 2 ^ 31 := by
    have := crc.toNat_lt
    omega
  rw [crc32cBit_toNat, Nat.testBit_xor, Nat.testBit_lt_two_pow small]
  split
  next odd => simp only [odd]; decide
  next even => simp [even]

theorem crc32cBit_injective : Function.Injective crc32cBit := by
  intro left right same
  have sameOut : decide (left.toNat % 2 = 1) = decide (right.toNat % 2 = 1) := by
    rw [← crc32cBit_top, ← crc32cBit_top, same]
  have sameParity : left.toNat % 2 = 1 ↔ right.toNat % 2 = 1 := by
    simpa using sameOut
  have sameNat : (crc32cBit left).toNat = (crc32cBit right).toNat := by rw [same]
  rw [crc32cBit_toNat, crc32cBit_toNat, if_congr sameParity rfl rfl] at sameNat
  have sameHalf : left.toNat / 2 = right.toNat / 2 := Nat.xor_left_injective sameNat
  apply UInt32.toNat_inj.mp
  omega

private theorem crc32cBits_injective (rounds : List Nat) :
    Function.Injective fun crc => rounds.foldl (fun register _ => crc32cBit register) crc := by
  induction rounds with
  | nil => exact fun _ _ same => same
  | cons _ rest ih =>
    exact fun _ _ same => crc32cBit_injective (ih same)

private theorem crc32cByte_injective (byte : UInt8) :
    Function.Injective fun crc => crc32cByte crc byte := by
  intro left right same
  have sameStart := crc32cBits_injective (List.range 8) same
  exact (UInt32.xor_left_inj byte.toUInt32).mp sameStart

private theorem crc32cByte_ne (crc : UInt32) {byte other : UInt8} (differ : byte ≠ other) :
    crc32cByte crc byte ≠ crc32cByte crc other := by
  intro same
  have sameStart := crc32cBits_injective (List.range 8) same
  have sameWord : byte.toUInt32 = other.toUInt32 := (UInt32.xor_right_inj crc).mp sameStart
  exact differ (UInt8.toUInt32_inj.mp sameWord)

theorem crc32cUpdate_injective (bytes : Bytes) :
    Function.Injective fun crc => crc32cUpdate crc bytes := by
  induction bytes with
  | nil => exact fun _ _ same => same
  | cons byte rest ih =>
    exact fun _ _ same => crc32cByte_injective byte (ih same)

/-- Two byte strings that differ in exactly one byte have different checksums. -/
theorem crc32c_single_byte (left right : Bytes) {byte other : UInt8} (differ : byte ≠ other) :
    crc32c (left ++ byte :: right) ≠ crc32c (left ++ other :: right) := by
  intro same
  have sameRegister := UInt32.not_inj.mp same
  simp only [crc32cUpdate, List.foldl_append, List.foldl_cons] at sameRegister
  exact crc32cByte_ne _ differ (crc32cUpdate_injective right sameRegister)

/-! ## Bursts -/

private theorem crc32cBit_xor (left right : UInt32) :
    crc32cBit (left ^^^ right) = crc32cBit left ^^^ crc32cBit right := by
  apply UInt32.toNat_inj.mp
  rw [UInt32.toNat_xor, crc32cBit_toNat, crc32cBit_toNat, crc32cBit_toNat, UInt32.toNat_xor,
    Nat.xor_div_two, Nat.xor_mod_two_eq, Nat.add_mod]
  rcases Nat.mod_two_eq_zero_or_one left.toNat with leftBit | leftBit <;>
    rcases Nat.mod_two_eq_zero_or_one right.toNat with rightBit | rightBit <;>
      simp [leftBit, rightBit, Nat.xor_assoc, Nat.xor_comm, Nat.xor_left_comm]

private theorem crc32cBits_xor (rounds : List Nat) (left right : UInt32) :
    rounds.foldl (fun register _ => crc32cBit register) (left ^^^ right) =
      rounds.foldl (fun register _ => crc32cBit register) left ^^^
        rounds.foldl (fun register _ => crc32cBit register) right := by
  induction rounds generalizing left right with
  | nil => rfl
  | cons _ rest ih =>
    rw [List.foldl_cons, crc32cBit_xor, ih]
    rfl

private theorem crc32cBits_shift (rounds : List Nat) {value : Nat}
    (small : 2 ^ rounds.length * value < 2 ^ 32) :
    rounds.foldl (fun register _ => crc32cBit register)
      (UInt32.ofNat (2 ^ rounds.length * value)) = UInt32.ofNat value := by
  induction rounds with
  | nil => rw [List.length_nil, pow_zero, Nat.one_mul, List.foldl_nil]
  | cons _ rest ih =>
    rw [List.length_cons, pow_succ', Nat.mul_assoc] at small ⊢
    have halved : crc32cBit (UInt32.ofNat (2 * (2 ^ rest.length * value))) =
        UInt32.ofNat (2 ^ rest.length * value) := by
      apply UInt32.toNat_inj.mp
      rw [crc32cBit_toNat, UInt32.toNat_ofNat_of_lt' small,
        UInt32.toNat_ofNat_of_lt' (Nat.lt_of_le_of_lt (by omega) small), if_neg (by omega),
        Nat.xor_zero]
      omega
    rw [List.foldl_cons, halved]
    exact ih (by omega)

private theorem crc32cByte_change {left right : UInt32} {byte other : UInt8}
    (small : (crc32cByte left byte ^^^ crc32cByte right other).toNat < 2 ^ 24) :
    left.toNat ^^^ right.toNat ^^^ (byte.toNat ^^^ other.toNat) =
      2 ^ 8 * (crc32cByte left byte ^^^ crc32cByte right other).toNat := by
  have change : crc32cByte left byte ^^^ crc32cByte right other =
      (List.range 8).foldl (fun register _ => crc32cBit register)
        (left ^^^ byte.toUInt32 ^^^ (right ^^^ other.toUInt32)) :=
    (crc32cBits_xor _ _ _).symm
  have shifted := crc32cBits_shift (List.range 8)
    (show 2 ^ (List.range 8).length * (crc32cByte left byte ^^^ crc32cByte right other).toNat <
      2 ^ 32 by rw [List.length_range]; omega)
  rw [UInt32.ofNat_toNat, change] at shifted
  have before := congrArg UInt32.toNat (crc32cBits_injective (List.range 8) shifted)
  rw [← change, List.length_range, UInt32.toNat_ofNat_of_lt' (by
    show _ < 2 ^ 32
    omega)] at before
  rw [before]
  simp only [UInt32.toNat_xor, UInt8.toNat_toUInt32]
  ac_rfl

/-- Registers that meet after a few bytes differ only in as many low bytes. -/
private theorem crc32cUpdate_meet {bytes others : Bytes} {left right : UInt32}
    (sized : bytes.length = others.length) (short : bytes.length ≤ 4)
    (meet : crc32cUpdate left bytes = crc32cUpdate right others) :
    (left ^^^ right).toNat < 2 ^ (8 * bytes.length) := by
  induction bytes generalizing others left right with
  | nil =>
    obtain rfl := List.length_eq_zero_iff.mp sized.symm
    rw [show left = right from meet, UInt32.xor_self]
    decide
  | cons byte rest ih =>
    obtain ⟨other, others, rfl⟩ := List.exists_cons_of_length_eq_add_one sized.symm
    rw [List.length_cons] at sized short ⊢
    have later := ih (Nat.succ.inj sized) (by omega) meet
    have bound : 2 ^ (8 * rest.length) ≤ 2 ^ 24 := Nat.pow_le_pow_right (by decide) (by omega)
    have change := crc32cByte_change (later.trans_le bound)
    have isChange : left.toNat ^^^ right.toNat =
        2 ^ 8 * (crc32cByte left byte ^^^ crc32cByte right other).toNat ^^^
          (byte.toNat ^^^ other.toNat) := by
      rw [← change, Nat.xor_assoc, Nat.xor_self, Nat.xor_zero]
    rw [UInt32.toNat_xor, isChange]
    refine Nat.xor_lt_two_pow ?_ (Nat.xor_lt_two_pow ?_ ?_)
    · rw [Nat.mul_succ, Nat.add_comm, pow_add]
      exact Nat.mul_lt_mul_of_pos_left later (by decide)
    all_goals
      exact (UInt8.toNat_lt _).trans_le (Nat.pow_le_pow_right (by decide) (by omega))

/-- A few bytes are determined by what they make of a register. -/
private theorem crc32cUpdate_inj {bytes others : Bytes} {register : UInt32}
    (sized : bytes.length = others.length) (short : bytes.length ≤ 4)
    (meet : crc32cUpdate register bytes = crc32cUpdate register others) : bytes = others := by
  induction bytes generalizing others register with
  | nil => exact (List.length_eq_zero_iff.mp sized.symm).symm
  | cons byte rest ih =>
    obtain ⟨other, others, rfl⟩ := List.exists_cons_of_length_eq_add_one sized.symm
    rw [List.length_cons] at sized short
    have later := crc32cUpdate_meet (Nat.succ.inj sized) (by omega) meet
    have bound : 2 ^ (8 * rest.length) ≤ 2 ^ 24 := Nat.pow_le_pow_right (by decide) (by omega)
    have change := crc32cByte_change (later.trans_le bound)
    have small : byte.toNat ^^^ other.toNat < 2 ^ 8 :=
      Nat.xor_lt_two_pow byte.toNat_lt other.toNat_lt
    rw [Nat.xor_self, Nat.zero_xor] at change
    -- the change of the byte is below 256, so that nothing of it is left in the register
    have same : byte = other := UInt8.toNat_inj.mp (Nat.xor_eq_zero_iff.mp (by omega))
    subst same
    rw [ih (Nat.succ.inj sized) (by omega) meet]

/-- Byte strings that differ, and only in a window of at most four bytes, have different
checksums. -/
theorem crc32c_burst (left right : Bytes) {window other : Bytes}
    (sized : window.length = other.length) (short : window.length ≤ 4) (differ : window ≠ other) :
    crc32c (left ++ window ++ right) ≠ crc32c (left ++ other ++ right) := by
  intro same
  have sameRegister := UInt32.not_inj.mp same
  simp only [crc32cUpdate, List.foldl_append] at sameRegister
  exact differ (crc32cUpdate_inj sized short (crc32cUpdate_injective right sameRegister))

end FocalVector.Foundation

import Mathlib.Logic.Function.Iterate
import Mathlib.Data.List.Basic

/-! # Reflected cyclic redundancy checks

A remainder is shifted right bit by bit, and the polynomial is added when a bit falls out. With a
polynomial that has its top bit, a step can be undone, so a byte that differs is never forgotten.
-/

namespace Crc

variable {poly : BitVec 32}

/-- Shift a bit out of the remainder. -/
def bitStep (poly remainder : BitVec 32) : BitVec 32 :=
  (remainder >>> 1) ^^^ (if remainder.getLsbD 0 then poly else 0)

/-- Take a byte into the remainder. -/
def byteStep (poly remainder : BitVec 32) (byte : UInt8) : BitVec 32 :=
  (bitStep poly)^[8] (remainder ^^^ byte.toBitVec.setWidth 32)

/-- The check of some bytes. -/
def crc (poly : BitVec 32) (bytes : List UInt8) : BitVec 32 :=
  ~~~bytes.foldl (byteStep poly) (BitVec.allOnes 32)

/-- The polynomial of CRC-32. -/
def POLYNOMIAL : BitVec 32 := 0xEDB88320

/-- CRC-32. -/
def crc32 (bytes : List UInt8) : UInt32 := UInt32.ofBitVec (crc POLYNOMIAL bytes)

/-- The bit that falls out is the top bit of the result. -/
theorem msb_bitStep (top : poly.getLsbD 31 = true) (remainder : BitVec 32) :
    (bitStep poly remainder).getLsbD 31 = remainder.getLsbD 0 := by
  have shifted : (remainder >>> 1).getLsbD 31 = false := by
    rw [BitVec.getLsbD_ushiftRight]
    exact BitVec.getLsbD_of_ge _ _ (Nat.le_refl _)
  rw [bitStep, BitVec.getLsbD_xor, shifted, Bool.false_xor]
  cases remainder.getLsbD 0 with
  | false => exact BitVec.getLsbD_zero
  | true => exact top

theorem bitStep_injective (top : poly.getLsbD 31 = true) : Function.Injective (bitStep poly) := by
  intro first second same
  have low : first.getLsbD 0 = second.getLsbD 0 := by
    rw [← msb_bitStep top, same, msb_bitStep top]
  have shifted : first >>> 1 = second >>> 1 := by
    rw [bitStep, bitStep, low] at same
    exact (BitVec.xor_left_inj _).mp same
  apply BitVec.eq_of_getLsbD_eq
  intro i _
  cases i with
  | zero => exact low
  | succ i =>
      have bit := congrArg (BitVec.getLsbD · i) shifted
      simpa only [BitVec.getLsbD_ushiftRight, Nat.add_comm 1 i] using bit

/-- Remainders that differ are told apart by any byte. -/
theorem byteStep_injective (top : poly.getLsbD 31 = true) (byte : UInt8) :
    Function.Injective (byteStep poly · byte) := by
  intro first second same
  exact (BitVec.xor_left_inj _).mp ((bitStep_injective top).iterate 8 same)

/-- Bytes that differ are told apart by any remainder. -/
theorem byteStep_ne (top : poly.getLsbD 31 = true) (remainder : BitVec 32) {first second : UInt8}
    (different : first ≠ second) :
    byteStep poly remainder first ≠ byteStep poly remainder second := by
  intro same
  have wide := (BitVec.xor_right_inj _).mp ((bitStep_injective top).iterate 8 same)
  apply different
  apply UInt8.eq_of_toBitVec_eq
  have narrow := congrArg (BitVec.setWidth 8) wide
  rwa [BitVec.setWidth_setWidth_of_le _ (by decide), BitVec.setWidth_setWidth_of_le _ (by decide),
    BitVec.setWidth_eq, BitVec.setWidth_eq] at narrow

theorem foldl_byteStep_injective (top : poly.getLsbD 31 = true) (bytes : List UInt8) :
    Function.Injective (bytes.foldl (byteStep poly)) := by
  induction bytes with
  | nil => exact Function.injective_id
  | cons byte bytes recurse =>
      intro first second same
      exact byteStep_injective top byte (recurse same)

/-- **A change of one byte changes the check.** -/
theorem crc_ne (top : poly.getLsbD 31 = true) (before after : List UInt8) {first second : UInt8}
    (different : first ≠ second) :
    crc poly (before ++ first :: after) ≠ crc poly (before ++ second :: after) := by
  intro same
  have remainders := BitVec.not_inj.mp same
  rw [List.foldl_append, List.foldl_append, List.foldl_cons, List.foldl_cons] at remainders
  exact byteStep_ne top _ different (foldl_byteStep_injective top after remainders)

theorem crc32_ne (before after : List UInt8) {first second : UInt8} (different : first ≠ second) :
    crc32 (before ++ first :: after) ≠ crc32 (before ++ second :: after) := by
  intro same
  have top : POLYNOMIAL.getLsbD 31 = true := by decide
  exact crc_ne top before after different (UInt32.ofBitVec.inj same)

/-- The check value of CRC-32. -/
example : crc32 [49, 50, 51, 52, 53, 54, 55, 56, 57] = 0xCBF43926 := by decide +kernel

end Crc

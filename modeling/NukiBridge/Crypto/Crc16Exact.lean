import NukiBridge.Crypto.Crc16
import NukiBridge.Cyclic.Polynomial
import NukiBridge.Protocol.ByteOrder

/-! The CRC as a remainder. The loop over the bits is division by the generator
polynomial, of the data moved up by two bytes, with the start value added to the
first two of them. -/
namespace NukiBridge

open Crypto Cyclic Polynomial

/-- x^16 + x^12 + x^5 + 1, without its highest power. -/
def crcPoly : BitVec 16 := 0x1021#16

/-- One pass of the inner loop multiplies the register by x, modulo the polynomial of the code. -/
theorem crc16Shift_toBitVec (crc : UInt16) :
    (crc16Shift crc).toBitVec = timesX crcPoly crc.toBitVec := by
  have hMask : (crc &&& 0x8000 ≠ 0) ↔ crc.toBitVec.msb = true := by
    rw [ne_eq, ← UInt16.toBitVec_inj, UInt16.toBitVec_and]
    change ¬(crc.toBitVec &&& BitVec.twoPow 16 15) = 0#16 ↔ _
    rw [BitVec.and_twoPow, BitVec.msb_eq_getLsbD_last]
    split <;> simp_all
  rw [crc16Shift, timesX]
  split
  · rename_i hTop
    rw [if_pos (hMask.mp hTop)]
    rfl
  · rename_i hTop
    rw [if_neg (mt hMask.mpr hTop)]
    rfl

/-- The bits of a byte string, most significant first in each byte. -/
def bitsOf (bytes : List UInt8) : List Bool := bytes.flatMap fun byte => msbFirst byte.toBitVec

@[simp] theorem bitsOf_nil : bitsOf [] = [] := rfl

theorem bitsOf_cons (byte : UInt8) (bytes : List UInt8) :
    bitsOf (byte :: bytes) = msbFirst byte.toBitVec ++ bitsOf bytes := rfl

theorem bitsOf_append (left right : List UInt8) :
    bitsOf (left ++ right) = bitsOf left ++ bitsOf right := List.flatMap_append

@[simp] theorem length_bitsOf (bytes : List UInt8) : (bitsOf bytes).length = 8 * bytes.length := by
  induction bytes with
  | nil => rfl
  | cons byte bytes ih =>
      rw [bitsOf_cons, List.length_append, length_msbFirst, ih, List.length_cons]
      omega

theorem toNat_append_bytes (high low : UInt8) :
    (high.toBitVec ++ low.toBitVec).toNat = 256 * high.toNat + low.toNat := by
  rw [BitVec.toNat_append]
  exact shiftLeft_or _ _ 8 low.toNat_lt

/-- A byte in the upper half of the register. -/
theorem upperByte_toBitVec (byte : UInt8) :
    (byte.toUInt16 <<< 8).toBitVec =
      (timesX crcPoly)^[8] (remainder crcPoly (msbFirst byte.toBitVec)) := by
  have hBits : (byte.toUInt16 <<< 8).toBitVec = byte.toBitVec ++ 0#8 := by
    have hLt := byte.toNat_lt
    have hAppend := toNat_append_bytes byte 0
    apply BitVec.eq_of_toNat_eq
    rw [show (0 : UInt8).toBitVec = 0#8 from rfl] at hAppend
    rw [hAppend, UInt16.toNat_toBitVec, UInt16.toNat_shiftLeft, UInt8.toNat_toUInt16]
    simp only [UInt16.reduceToNat, Nat.reduceMod, Nat.shiftLeft_eq, UInt8.toNat_zero]
    omega
  have hZero : msbFirst 0#8 = List.replicate 8 false := by decide
  rw [hBits, ← remainder_msbFirst crcPoly (byte.toBitVec ++ 0#8), msbFirst_append, hZero,
    remainder_append, remainder_replicate, BitVec.xor_zero, List.length_replicate]

/-- One byte of the loop, seen as eight steps of the register. The byte enters at the top, where the
eight steps move it out against the polynomial. -/
theorem crc16Byte_toBitVec (crc : UInt16) (byte : UInt8) :
    (crc16Byte crc byte).toBitVec = (timesX crcPoly)^[8]
      (crc.toBitVec ^^^ (timesX crcPoly)^[8] (remainder crcPoly (msbFirst byte.toBitVec))) := by
  have hLoop (start : UInt16) :
      ((List.range 8).foldl (fun crc _ => crc16Shift crc) start).toBitVec =
        (timesX crcPoly)^[8] start.toBitVec := by
    change (crc16Shift (crc16Shift (crc16Shift (crc16Shift (crc16Shift (crc16Shift (crc16Shift
      (crc16Shift start)))))))).toBitVec = _
    simp only [crc16Shift_toBitVec]
    rfl
  rw [crc16Byte, hLoop, UInt16.toBitVec_xor, upperByte_toBitVec]

/-- The CRC is the start value and the body, each multiplied by its power of x. -/
theorem crc_toBitVec (body : List UInt8) (start : UInt16) :
    (body.foldl crc16Byte start).toBitVec =
      (timesX crcPoly)^[8 * body.length] start.toBitVec ^^^
        (timesX crcPoly)^[16] (remainder crcPoly (bitsOf body)) := by
  induction body generalizing start with
  | nil => 
      rw [bitsOf_nil, remainder_nil, iterate_zero, BitVec.xor_zero]
      rfl
  | cons byte body ih =>
      have hSum : 8 * (byte :: body).length = 8 * body.length + 8 := by
        rw [List.length_cons]
        omega
      rw [List.foldl_cons, ih, crc16Byte_toBitVec, bitsOf_cons, remainder_append, length_bitsOf,
        hSum, iterate_xor, iterate_xor, iterate_xor, Function.iterate_add_apply,
        ← Function.iterate_add_apply (timesX crcPoly) 8 8, ← Function.iterate_add_apply _ 16,
        ← Function.iterate_add_apply _ _ 16, Nat.add_comm 16, BitVec.xor_assoc]

/-- The generator with all its powers, the sixteenth being the one that the constant of the code
leaves out. -/
theorem modulus_crcPoly : modulus crcPoly = X ^ 16 + X ^ 12 + X ^ 5 + 1 := by
  have hBits : msbFirst crcPoly = [false, false, false, true, false, false, false, false, false,
      false, true, false, false, false, false, true] := by decide
  have hOne : coefficient true = 1 := rfl
  rw [modulus, register, hBits]
  simp only [polynomial_cons, polynomial_nil, coefficient_false, hOne, C_0, C_1, zero_mul, one_mul,
    zero_add, add_zero, List.length_cons, List.length_nil, pow_zero]
  ring

/-- The invariant of the loop over the bytes: the register is the remainder of what was fed in so
far, with the start value shifted along. -/
theorem register_crc (body : List UInt8) (start : UInt16) :
    register (body.foldl crc16Byte start).toBitVec =
      (polynomial (bitsOf body) * X ^ 16 +
        register start.toBitVec * X ^ (8 * body.length)) %ₘ modulus crcPoly := by
  rw [crc_toBitVec, register_xor, register_iterate, register_iterate, register_remainder,
    modByMonic_mul, add_modByMonic, add_comm]

/-- The bits of a bytewise difference. -/
theorem bitsOf_zipWith {left right : List UInt8} (h : left.length = right.length) :
    bitsOf (List.zipWith (· ^^^ ·) left right) =
      List.zipWith xor (bitsOf left) (bitsOf right) := by
  induction left generalizing right with
  | nil => cases right with
    | nil => rfl
    | cons => cases h
  | cons a left ih => cases right with
    | nil => cases h
    | cons b right =>
        rw [List.zipWith_cons_cons, bitsOf_cons, bitsOf_cons, bitsOf_cons, ih (Nat.succ.inj h),
          UInt8.toBitVec_xor, msbFirst_xor, List.zipWith_append (by simp)]

/-- The start value cancels in the difference of two checksums. -/
theorem register_crc_xor {data other : List UInt8} (h : other.length = data.length) :
    register (nukiCrc16 data ^^^ nukiCrc16 other).toBitVec =
      (polynomial (bitsOf (List.zipWith (· ^^^ ·) data other)) * X ^ 16) %ₘ modulus crcPoly := by
  have hBits : (bitsOf data).length = (bitsOf other).length := by
    rw [length_bitsOf, length_bitsOf, h]
  have hStart (p q s : (ZMod 2)[X]) : p * X ^ 16 + s + (q * X ^ 16 + s) = (p + q) * X ^ 16 := by
    rw [add_add_add_comm, CharTwo.add_self_eq_zero, add_zero, add_mul]
  rw [UInt16.toBitVec_xor, register_xor, nukiCrc16, nukiCrc16, register_crc, register_crc, h,
    ← add_modByMonic, hStart, bitsOf_zipWith h.symm, polynomial_zipWith hBits]

/-- The checksum of any data is the remainder of the data moved up by two bytes, with the
start value added to the highest powers. A checksum can be continued, and what two
checksums of one length differ by depends on nothing but the difference of the data. -/
theorem nukiCrc16_eq_remainder (data : List UInt8) :
    register (nukiCrc16 data).toBitVec =
        (polynomial (bitsOf data) * X ^ 16 + register 0xFFFF#16 * X ^ (8 * data.length)) %ₘ
          (X ^ 16 + X ^ 12 + X ^ 5 + 1) ∧
      (∀ rest, nukiCrc16 (data ++ rest) = rest.foldl crc16Byte (nukiCrc16 data) ∧
        register (nukiCrc16 (data ++ rest)).toBitVec =
          (polynomial (bitsOf rest) * X ^ 16 +
            register (nukiCrc16 data).toBitVec * X ^ (8 * rest.length)) %ₘ
              (X ^ 16 + X ^ 12 + X ^ 5 + 1)) ∧
      ∀ other data' other', other.length = data.length → other'.length = data'.length →
        List.zipWith (· ^^^ ·) data other = List.zipWith (· ^^^ ·) data' other' →
          nukiCrc16 data ^^^ nukiCrc16 other = nukiCrc16 data' ^^^ nukiCrc16 other' := by
  rw [← modulus_crcPoly]
  refine ⟨register_crc data 0xFFFF, ?_, ?_⟩
  · intro rest
    have hContinue : nukiCrc16 (data ++ rest) = rest.foldl crc16Byte (nukiCrc16 data) :=
      List.foldl_append
    exact ⟨hContinue, by rw [hContinue, register_crc]⟩
  · intro other data' other' hLen hLen' hDifference
    apply UInt16.toBitVec_inj.mp
    apply register_injective
    rw [register_crc_xor hLen, register_crc_xor hLen', hDifference]

/-- The last bit differs, after two different beginnings. -/
theorem nukiCrc16_eq_remainder_lastBit :
    nukiCrc16 [1, 2, 3] ^^^ nukiCrc16 [1, 2, 2] = nukiCrc16 [0, 0, 1] ^^^ nukiCrc16 [0, 0, 0] :=
  (nukiCrc16_eq_remainder [1, 2, 3]).2.2 [1, 2, 2] [0, 0, 1] [0, 0, 0] rfl rfl (by decide)

end NukiBridge

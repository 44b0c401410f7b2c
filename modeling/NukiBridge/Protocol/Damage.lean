import NukiBridge.Cyclic.Detection
import NukiBridge.Crypto.Crc16Exact
import NukiBridge.Protocol.Frame

/-! Damaged frames. The start value of the CRC cancels in a difference of two bodies,
so the difference of two accepted frames, with the CRC bytes in the order of their
weight, is a multiple of the generator polynomial. -/
namespace NukiBridge

open Crypto Cyclic

/-- The powers of x below the length of a frame are different. -/
theorem crcPoly_generates : Generates crcPoly 1600 where
  width := by decide
  low := rfl
  odd := by decide
  order := by
    intro k hk hLt
    obtain ⟨j, rfl⟩ := Nat.exists_eq_succ_of_ne_zero hk.ne'
    have hNever : returns crcPoly 1599 (timesX crcPoly 1#16) = false := by decide +kernel
    rw [Function.iterate_succ_apply]
    exact iterate_ne_one crcPoly hNever (by omega)

/-- Where two byte strings differ, bit by bit. -/
def flips (frame damaged : List UInt8) : List Bool :=
  List.zipWith xor (bitsOf frame) (bitsOf damaged)

theorem flips_append {left left' : List UInt8} (h : left'.length = left.length)
    (right right' : List UInt8) :
    flips (left ++ right) (left' ++ right') = flips left left' ++ flips right right' := by
  rw [flips, bitsOf_append, bitsOf_append, List.zipWith_append (by simp [h]), flips, flips]

/-- There is one entry for each bit of the frame, set where the damage flipped it. -/
theorem length_flips {frame damaged : List UInt8} (h : damaged.length = frame.length) :
    (flips frame damaged).length = 8 * frame.length := by
  rw [flips, List.length_zipWith, length_bitsOf, length_bitsOf, h, Nat.min_self]

/-- The start value cancels in a difference. -/
theorem crc_xor {body body' : List UInt8} (h : body'.length = body.length) :
    (nukiCrc16 body).toBitVec ^^^ (nukiCrc16 body').toBitVec =
      (timesX crcPoly)^[16] (remainder crcPoly (flips body body')) := by
  have cancel (a b c : BitVec 16) : (a ^^^ b) ^^^ (a ^^^ c) = b ^^^ c := by
    rw [BitVec.xor_comm a b, BitVec.xor_assoc, ← BitVec.xor_assoc a, BitVec.xor_self,
      BitVec.zero_xor]
  rw [nukiCrc16, nukiCrc16, crc_toBitVec, crc_toBitVec, h, cancel, flips,
    remainder_zipWith crcPoly (by rw [length_bitsOf, length_bitsOf, h]), iterate_xor]

/-- The bytes of the CRC in the order of their weight. -/
def bigEndian (crc : UInt16) : List UInt8 := [(crc >>> 8).toUInt8, crc.toUInt8]

/-- A checksum that is appended in big endian order is its own remainder. This ties the trailer of a
frame to the division. -/
theorem remainder_bigEndian (crc : UInt16) :
    remainder crcPoly (bitsOf (bigEndian crc)) = crc.toBitVec := by
  have hBytes : (crc >>> 8).toUInt8.toBitVec ++ crc.toUInt8.toBitVec = crc.toBitVec := by
    have hLt := crc.toNat_lt
    apply BitVec.eq_of_toNat_eq
    rw [toNat_append_bytes]
    simp [Nat.shiftRight_eq_div_pow]
    omega
  rw [bigEndian, bitsOf_cons, bitsOf_cons, bitsOf_nil, List.append_nil, ← msbFirst_append,
    remainder_msbFirst, hBytes]

theorem length_flips_bigEndian (crc crc' : UInt16) :
    (flips (bigEndian crc) (bigEndian crc')).length = 16 :=
  @length_flips (bigEndian crc) (bigEndian crc') rfl

/-- With the bytes of the CRC in that order, the difference of two frames is a multiple
of the generator. -/
theorem remainder_codewords {body body' : List UInt8} (sameLength : body'.length = body.length) :
    remainder crcPoly (flips body body' ++
      flips (bigEndian (nukiCrc16 body)) (bigEndian (nukiCrc16 body'))) = 0#16 := by
  rw [remainder_append, length_flips_bigEndian, ← crc_xor sameLength]
  rw [flips, remainder_zipWith crcPoly (by rw [length_bitsOf, length_bitsOf]; rfl),
    remainder_bigEndian, remainder_bigEndian, BitVec.xor_self]

/-- The order of the two bytes does not change how many of their bits differ. -/
theorem count_bigEndian (crc crc' : UInt16) :
    (flips (bigEndian crc) (bigEndian crc')).count true =
      (flips (sysPutLe16 crc) (sysPutLe16 crc')).count true := by
  have split (a b a' b' : UInt8) : flips [a, b] [a', b'] = flips [a] [a'] ++ flips [b] [b'] :=
    @flips_append [a] [a'] rfl [b] [b']
  rw [bigEndian, bigEndian, sysPutLe16, sysPutLe16, split, split, List.count_append,
    List.count_append, Nat.add_comm]

/-- Nor does it matter where no bit of them differs. -/
theorem flips_bigEndian_of_clear {crc crc' : UInt16}
    (clear : true ∉ flips (sysPutLe16 crc) (sysPutLe16 crc')) :
    flips (bigEndian crc) (bigEndian crc') = flips (sysPutLe16 crc) (sysPutLe16 crc') := by
  have hClear : true ∉ flips (bigEndian crc) (bigEndian crc') :=
    List.count_eq_zero.mp ((count_bigEndian crc crc').trans (List.count_eq_zero.mpr clear))
  have hLen : (flips (sysPutLe16 crc) (sysPutLe16 crc')).length = 16 :=
    @length_flips (sysPutLe16 crc) (sysPutLe16 crc') rfl
  have hStored := eq_replicate_of_not_mem clear
  have hWeighted := eq_replicate_of_not_mem hClear
  rw [hLen] at hStored
  rw [length_flips_bigEndian] at hWeighted
  exact hWeighted.trans hStored.symm

/-- The damage that a checksum should notice: one, two or three flipped bits, an odd
number of flipped bits, or flipped bits of the body that lie close together. -/
inductive Damage (frame damaged : List UInt8) : Prop where
  | few (atLeast : 1 ≤ (flips frame damaged).count true)
      (atMost : (flips frame damaged).count true ≤ 3)
  | odd (odd : Odd ((flips frame damaged).count true))
  | window (start len : Nat) (narrow : len ≤ 16) (inBody : start + len ≤ 8 * (frame.length - 2))
      (changed : 1 ≤ (flips frame damaged).count true)
      (inside : ∀ i, (flips frame damaged)[i]? = some true → start ≤ i ∧ i < start + len)

/-- Two accepted frames of one length never differ by such damage. -/
theorem not_damage_withCrc {body body' : List UInt8} (sameLength : body'.length = body.length)
    (short : (withCrc body).length ≤ 200) : ¬Damage (withCrc body) (withCrc body') := by
  have hFlips : flips (withCrc body) (withCrc body') =
      flips body body' ++ flips (sysPutLe16 (nukiCrc16 body)) (sysPutLe16 (nukiCrc16 body')) :=
    flips_append sameLength _ _
  have hZero := remainder_codewords sameLength
  have hCount : (flips body body' ++
      flips (bigEndian (nukiCrc16 body)) (bigEndian (nukiCrc16 body'))).count true =
        (flips (withCrc body) (withCrc body')).count true := by
    rw [hFlips, List.count_append, List.count_append, count_bigEndian]
  have noOdd (odd : Odd ((flips (withCrc body) (withCrc body')).count true)) : False :=
    crcPoly_generates.remainder_ne_of_odd (hCount ▸ odd) hZero
  intro damage
  cases damage with
  | few atLeast atMost =>
      by_cases hTwo : (flips (withCrc body) (withCrc body')).count true = 2
      · refine crcPoly_generates.remainder_ne_of_two (hCount.trans hTwo) ?_ hZero
        rw [length_withCrc] at short
        rw [List.length_append, length_flips sameLength, length_flips_bigEndian]
        omega
      · refine noOdd ?_
        rw [Nat.odd_iff]
        omega
  | odd odd => exact noOdd odd
  | window start len narrow inBody changed inside =>
      have hBody : true ∉ flips (sysPutLe16 (nukiCrc16 body)) (sysPutLe16 (nukiCrc16 body')) := by
        intro hMem
        obtain ⟨i, hi⟩ := List.mem_iff_getElem?.mp hMem
        have hInside := inside (8 * body.length + i) (by
          rw [hFlips, ← length_flips sameLength, List.getElem?_append_right (Nat.le_add_right _ _),
            Nat.add_sub_cancel_left, hi])
        rw [length_withCrc] at inBody
        omega
      rw [flips_bigEndian_of_clear hBody, ← hFlips] at hZero
      exact crcPoly_generates.remainder_ne_of_window narrow (List.count_pos_iff.mp changed) inside
        hZero

/-- A frame that is accepted is rejected after such damage, by both parsers. -/
theorem damage_rejected {frame damaged : List UInt8} (short : frame.length ≤ 200)
    (sameLength : damaged.length = frame.length) (damage : Damage frame damaged) :
    (∀ out kept, (nukiFrameParsePlain frame out).1 = 0 →
        nukiFrameParsePlain damaged kept = (-ebadmsg, kept)) ∧
      ∀ out kept, (nukiFrameParseAuth frame out).1 = 0 →
        nukiFrameParseAuth damaged kept = (-ebadmsg, kept) := by
  have noFrame {body body' : List UInt8} (hFrame : frame = withCrc body)
      (hDamaged : damaged = withCrc body') : False := by
    subst hFrame hDamaged
    rw [length_withCrc, length_withCrc] at sameLength
    exact not_damage_withCrc (Nat.add_right_cancel sameLength) short damage
  constructor
  · intro out kept accepted
    have hFrame := (nukiFrameParsePlain_eq_zero_iff frame out (nukiFrameParsePlain frame out).2).mp
      (Prod.ext accepted rfl)
    rcases nukiFrameParsePlain_cases damaged kept with ⟨body', -, hDamaged⟩ | ⟨-, hShort⟩ | ⟨h, -⟩
    · exact (noFrame hFrame hDamaged).elim
    · rw [sameLength, hFrame, length_plainFrame] at hShort
      omega
    · exact h
  · intro out kept accepted
    have hFrame := (nukiFrameParseAuth_eq_zero_iff frame out (nukiFrameParseAuth frame out).2).mp
      (Prod.ext accepted rfl)
    rcases nukiFrameParseAuth_cases damaged kept with ⟨body', -, hDamaged⟩ | ⟨-, hShort⟩ | ⟨h, -⟩
    · exact (noFrame hFrame hDamaged).elim
    · rw [sameLength, hFrame, length_authFrame] at hShort
      omega
    · exact h

/-- A Status COMPLETE for authorization 1, with one flipped bit. -/
theorem damage_rejected_status :
    nukiFrameParsePlain [1, 0, 0, 0, 0x0E, 0, 1, 0xAE, 0x52] ⟨0, []⟩ = (-ebadmsg, ⟨0, []⟩) ∧
      nukiFrameParseAuth [1, 0, 0, 0, 0x0E, 0, 1, 0xAE, 0x52] ⟨0, 0, []⟩ =
        (-ebadmsg, ⟨0, 0, []⟩) := by
  have rejected := @damage_rejected [1, 0, 0, 0, 0x0E, 0, 0, 0xAE, 0x52]
    [1, 0, 0, 0, 0x0E, 0, 1, 0xAE, 0x52] (by decide) rfl (.few (by decide) (by decide))
  exact ⟨rejected.1 ⟨0, []⟩ _ (by decide +kernel), rejected.2 ⟨0, 0, []⟩ _ (by decide +kernel)⟩

end NukiBridge

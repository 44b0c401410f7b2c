import NukiBridge.Crypto.Poly1305Limbs
import Mathlib.Data.List.GetD

/-! `poly1305` computes Poly1305. A block leaves the limbs' number multiplied modulo
the prime and every limb below its bound, so no word of the next block wraps; the
masked subtraction at the end picks the remainder. -/
namespace NukiBridge.Crypto

open Arithmetic Buffer Finset

theorem limb_limbsOfBytes (m : List UInt8) (n : Nat) {j : Nat} (hj : j < 17) :
    limb (limbsOfBytes m n) j = if j < n then (m.getD j 0).toNat else 0 := by
  induction n with
  | zero => exact limb_zero hj
  | succ n ih =>
      have hLast : limbsOfBytes m (n + 1) =
          (limbsOfBytes m n).setIfInBounds n (m.getD n 0).toUInt32 := by
        rw [limbsOfBytes, List.range_succ, List.foldl_append]
        rfl
      rw [hLast, limb_set _ _ _ hj, ih]
      rcases Nat.lt_trichotomy j n with hBefore | rfl | hAfter
      · rw [if_neg (by omega), if_pos hBefore, if_pos (by omega)]
      · rw [if_pos rfl, if_pos (Nat.lt_succ_self _), UInt8.toNat_toUInt32]
      · rw [if_neg (by omega), if_neg (by omega), if_neg (by omega)]

/-- The limbs of a block with the byte 1 behind it. -/
def blockLimbs (m : List UInt8) : Limbs := (limbsOfBytes m m.length).setIfInBounds m.length 1

theorem limb_blockLimbs (m : List UInt8) {j : Nat} (hj : j < 17) :
    limb (blockLimbs m) j = ((m ++ [1]).getD j 0).toNat := by
  rw [blockLimbs, limb_set _ _ _ hj, limb_limbsOfBytes m _ hj]
  rcases Nat.lt_trichotomy j m.length with hBefore | rfl | hAfter
  · rw [if_neg (by omega), if_pos hBefore, List.getD_append _ _ _ _ hBefore]
  · rw [if_pos rfl, List.getD_append_right _ _ _ _ (Nat.le_refl _), Nat.sub_self]
    rfl
  · rw [if_neg (by omega), if_neg (by omega), List.getD_append_right _ _ _ _ hAfter.le,
      List.getD_eq_default _ _ (by simp; omega)]
    rfl

/-- A block as the code loads it, with the one behind its last byte, is the number that the
specification adds, also where the last block is short. -/
theorem value_blockLimbs {m : List UInt8} (hLen : m.length ≤ 16) :
    value (blockLimbs m) = Poly1305.number (m ++ [1]) := by
  rw [Poly1305.number_eq_sum 17 (by simp; omega), value]
  exact sum_congr rfl fun j hj => by rw [limb_blockLimbs m (mem_range.mp hj)]

theorem value_limbsOfBytes {m : List UInt8} (hLen : m.length ≤ 17) :
    value (limbsOfBytes m m.length) = Poly1305.number m := by
  rw [Poly1305.number_eq_sum 17 hLen, value]
  apply sum_congr rfl
  intro j hj
  rw [limb_limbsOfBytes m _ (mem_range.mp hj)]
  split
  · rfl
  · rename_i hAfter
    rw [List.getD_eq_default _ _ (by omega)]
    rfl

/-- The value of the limbs is that of the sixteen lower ones and of the top one, which the reduction
takes apart. -/
theorem value_eq (h : Limbs) :
    value h = (∑ j ∈ range 16, limb h j * 256 ^ j) + limb h 16 * 256 ^ 16 :=
  sum_range_succ _ 16

theorem Reduced.value_lt {h : Limbs} (reduced : Reduced h) : value h < 5 * 256 ^ 16 := by
  have hLower := Poly1305.sum_digits_lt 16 reduced.low
  have hTop := reduced.top
  rw [value_eq]
  omega

/-- Reduced limbs are below twice the prime, so one subtraction of it is enough at the end. -/
theorem Reduced.value_lt_twice {h : Limbs} (reduced : Reduced h) :
    value h < 2 * Poly1305.prime := by
  have hValue := reduced.value_lt
  rw [Poly1305.prime]
  omega

/-- The product of the limbs' numbers, column by column, modulo a number in which
the folded columns have the factor of their place. -/
theorem mulColumns_modEq {p : Nat} (hFold : 320 ≡ 256 ^ 17 [MOD p]) {h r : Limbs}
    (hBound : ∀ j < 17, limb h j < 256) (rBound : ∀ j < 17, limb r j < 256) :
    value (mulColumns h r) ≡ value h * value r [MOD p] := by
  have hFactor : ((320 : Nat) : ZMod p) = (256 : ZMod p) ^ 17 := by
    have hCast := (ZMod.natCast_eq_natCast_iff _ _ _).mpr hFold
    rwa [Nat.cast_pow] at hCast
  have hColumns : value (mulColumns h r) =
      ∑ i ∈ range 17, (∑ j ∈ range 17, product h r i j) * 256 ^ i :=
    sum_congr rfl fun i hi => by rw [(mulColumns_exact hBound rBound).2.1 i (mem_range.mp hi)]
  have hTerm : ∀ i j, (product h r i j : ZMod p) = (limb h j : ZMod p) *
      (if j ≤ i then (limb r (i - j) : ZMod p) else 256 ^ 17 * (limb r (i + 17 - j) : ZMod p)) := by
    intro i j
    rw [product, Nat.cast_mul, Nat.cast_ite, Nat.cast_mul, hFactor]
  have hProduct := Poly1305.folded_product (256 : ZMod p)
    (fun j => (limb h j : ZMod p)) (fun j => (limb r j : ZMod p)) 17
  apply (ZMod.natCast_eq_natCast_iff _ _ _).mp
  rw [hColumns]
  simp only [value, Nat.cast_sum, Nat.cast_mul, Nat.cast_pow, Nat.cast_ofNat, hTerm]
  exact hProduct

/-- The second half of the loop body: two carry passes, and what exceeds 130 bits
folded back by five. -/
def reduceLimbs (x : Limbs) : Limbs :=
  let (u, h) := carryPass 0 x
  let u := u + h[16]!
  let h := h.setIfInBounds 16 (u &&& 3)
  let u := (5 : UInt32) * (u >>> 2)
  let (u, h) := carryPass u h
  h.setIfInBounds 16 (u + h[16]!)

/-- `reduceLimbs` where no word may wrap. -/
def reduceLimbsChecked (x : Limbs) : Option Limbs := do
  let (u, h) ← carryPassChecked 0 x
  let u ← addChecked u h[16]!
  let h := h.setIfInBounds 16 (u &&& 3)
  let u ← mulChecked 5 (u >>> 2)
  let (u, h) ← carryPassChecked u h
  let top ← addChecked u h[16]!
  return h.setIfInBounds 16 top

/-- What exceeds 130 bits and what stays of the top limb's total. -/
theorem splitTop {total : UInt32} (hSmall : total.toNat ≤ 2 ^ 30) :
    mulChecked 5 (total >>> 2) = some ((5 : UInt32) * (total >>> 2)) ∧
      ((5 : UInt32) * (total >>> 2)).toNat = 5 * (total.toNat / 4) ∧
      (total &&& 3).toNat = total.toNat % 4 := by
  have hHigh : (total >>> 2).toNat = total.toNat / 4 := by
    rw [UInt32.toNat_shiftRight]
    exact Nat.shiftRight_eq_div_pow _ 2
  have hFits : (5 : UInt32).toNat * (total >>> 2).toNat < 2 ^ 32 := by
    rw [hHigh]
    change 5 * (total.toNat / 4) < _
    omega
  refine ⟨mulChecked_eq hFits, ?_, ?_⟩
  · rw [toNat_mul hFits, hHigh]
    rfl
  · rw [UInt32.toNat_and]
    exact Nat.and_two_pow_sub_one_eq_mod _ 2

/-- A reduction never overflows a limb, leaves every limb reduced, and changes the number by a
multiple of the prime only. -/
theorem reduceLimbs_exact {x : Limbs} (hSmall : ∀ j < 17, limb x j ≤ 2 ^ 29) :
    reduceLimbsChecked x = some (reduceLimbs x) ∧ Reduced (reduceLimbs x) ∧
      ∃ folded, value (reduceLimbs x) + folded * Poly1305.prime = value x := by
  -- The first pass and the total that it leaves for the top limb.
  obtain ⟨hFirst, c⟩ := carryPass_exact (u := 0) (h := x) (by decide) fun j hj =>
    (hSmall j (by omega)).trans (by decide)
  generalize hFirstState : carryPass 0 x = first at hFirst c
  have hCarry : first.1.toNat ≤ 2 ^ 29 := c.carry_le fun j hj => hSmall j (by omega)
  have hTop : limb first.2 16 = limb x 16 := c.rest 16 (by omega) (Nat.le_refl _)
  have hTopSmall := hSmall 16 (by omega)
  have hTotalFits : first.1.toNat + (first.2[16]!).toNat < 2 ^ 32 := by
    change _ + limb first.2 16 < _
    omega
  have hTotal : (first.1 + first.2[16]!).toNat = first.1.toNat + limb x 16 := by
    rw [toNat_add hTotalFits, ← hTop]
    rfl
  generalize hTotalWord : first.1 + first.2[16]! = total at hTotal
  obtain ⟨hFactor, hFolded, hKept⟩ := @splitTop total (by omega)
  -- The second pass, which begins with what was folded back.
  generalize hMiddleState : first.2.setIfInBounds 16 (total &&& 3) = middle
  have hMiddle : ∀ j < 17, limb middle j =
      if 16 = j then total.toNat % 4 else limb first.2 j := by
    intro j hj
    rw [← hMiddleState, limb_set _ _ _ hj, hKept]
  have hMiddleLow : ∀ j < 16, limb middle j = limb first.2 j := by
    intro j hj
    rw [hMiddle j (by omega), if_neg (by omega)]
  have hMiddleSmall : ∀ j < 16, limb middle j < 256 := by
    intro j hj
    rw [hMiddleLow j hj]
    exact c.low j hj
  obtain ⟨hSecond, d⟩ := carryPass_exact (u := (5 : UInt32) * (total >>> 2)) (h := middle)
    (by omega)
    fun j hj => (hMiddleSmall j hj).le.trans (by decide)
  generalize hLastState : carryPass ((5 : UInt32) * (total >>> 2)) middle = last at hSecond d
  have hLastCarry : last.1.toNat ≤ 1 := d.carry_le_one (by omega) hMiddleSmall
  have hLastTop : limb last.2 16 = total.toNat % 4 := by
    rw [d.rest 16 (by omega) (Nat.le_refl _), hMiddle 16 (by omega), if_pos rfl]
  have hLastFits : last.1.toNat + (last.2[16]!).toNat < 2 ^ 32 := by
    change _ + limb last.2 16 < _
    omega
  have hResult : reduceLimbs x = last.2.setIfInBounds 16 (last.1 + last.2[16]!) := by
    simp only [reduceLimbs, hFirstState, hTotalWord, hMiddleState, hLastState]
  have hResultTop : limb (reduceLimbs x) 16 = last.1.toNat + total.toNat % 4 := by
    rw [hResult, limb_set _ _ _ (by omega), if_pos rfl, toNat_add hLastFits, ← hLastTop]
    rfl
  have hResultLow : ∀ j < 16, limb (reduceLimbs x) j = limb last.2 j := by
    intro j hj
    rw [hResult, limb_set _ _ _ (by omega), if_neg (by omega)]
  refine ⟨?_, ⟨?_, by omega⟩, total.toNat / 4, ?_⟩
  · simp only [reduceLimbsChecked, hFirst, Option.bind_eq_bind, Option.bind_some,
      addChecked_eq hTotalFits, hTotalWord, hMiddleState, hFactor, hSecond,
      addChecked_eq hLastFits, Option.pure_def, hResult]
  · intro j hj
    rw [hResultLow j hj]
    exact d.low j hj
  · have hSum := c.sum
    have hSum' := d.sum
    have hLower : ∑ j ∈ range 16, limb middle j * 256 ^ j =
        ∑ j ∈ range 16, limb first.2 j * 256 ^ j :=
      sum_congr rfl fun j hj => by rw [hMiddleLow j (mem_range.mp hj)]
    have hLowerResult : ∑ j ∈ range 16, limb (reduceLimbs x) j * 256 ^ j =
        ∑ j ∈ range 16, limb last.2 j * 256 ^ j :=
      sum_congr rfl fun j hj => by rw [hResultLow j (mem_range.mp hj)]
    have hParts := Nat.div_add_mod total.toNat 4
    rw [value_eq, value_eq, hResultTop, hLowerResult]
    rw [hLower, hFolded] at hSum'
    change _ = 0 + _ at hSum
    rw [Poly1305.prime]
    omega

/-- The loop body where no word may wrap. -/
def poly1305BlockChecked (r h : Limbs) (m : List UInt8) : Option Limbs := do
  reduceLimbsChecked (← mulColumnsChecked (← add1305Checked h (blockLimbs m)) r)

/-- The `while` loop where no word may wrap. -/
def poly1305LoopChecked (r h : Limbs) (m : List UInt8) : Option Limbs := do
  if 0 < m.length then
    poly1305LoopChecked r (← poly1305BlockChecked r h (m.take 16)) (m.drop 16)
  else return h
termination_by m.length

/-- The conditional subtraction: the limbs minus the prime if that is not negative. -/
def subtractPrime (h : Limbs) : Limbs :=
  let g := h
  let h := add1305 h minusp
  let s := -(h[16]! >>> 7)
  Vector.zipWith (fun h g => h ^^^ (s &&& (g ^^^ h))) h g

/-- `poly1305` where no word may wrap; the negation that makes the mask is meant to. -/
def poly1305Checked (m : List UInt8) (k : Bytes 32) : Option (Bytes 16) := do
  let h ← poly1305LoopChecked (clampedKey k) (Vector.replicate 17 0) m
  let g := h
  let h ← add1305Checked h minusp
  let s := -(h[16]! >>> 7)
  let h := Vector.zipWith (fun h g => h ^^^ (s &&& (g ^^^ h))) h g
  let c := limbsOfBytes (k.val.drop 16) 16
  let h ← add1305Checked h c
  return ⟨(List.range 16).map (fun j => h[j]!.toUInt8), by simp⟩

theorem limb_blockLimbs_lt (m : List UInt8) {j : Nat} (hj : j < 17) :
    limb (blockLimbs m) j < 256 := by
  rw [limb_blockLimbs m hj]
  exact UInt8.toNat_lt _

/-- The mask of the clamp, byte by byte. -/
def clampBytes : List UInt8 :=
  [255, 255, 255, 15, 252, 255, 255, 15, 252, 255, 255, 15, 252, 255, 255, 15]

theorem limb_mask (h : Limbs) (i : Nat) (mask : UInt32) {j : Nat} (hj : j < 17) :
    limb (h.setIfInBounds i (h[i]! &&& mask)) j =
      limb h j &&& if i = j then mask.toNat else 2 ^ 32 - 1 := by
  rw [limb_set _ _ _ hj]
  split
  · rename_i hSame
    rw [hSame, UInt32.toNat_and]
    rfl
  · rw [Nat.and_two_pow_sub_one_of_lt_two_pow]
    exact UInt32.toNat_lt _

theorem clamped_getD (k : Bytes 32) (j : Nat) :
    (List.zipWith (· &&& ·) (k.val.take 16) clampBytes).getD j 0 =
      k.val.getD j 0 &&& clampBytes.getD j 0 := by
  rcases Nat.lt_or_ge j 16 with hLower | hUpper
  · have hKey : j < k.val.length := by
      rw [Bytes.length]
      omega
    rw [List.getD_eq_getElem _ _ (by simp [clampBytes]; omega), List.getElem_zipWith,
      List.getElem_take, List.getD_eq_getElem _ _ hKey, List.getD_eq_getElem _ _ hLower]
    rfl
  · rw [List.getD_eq_default _ _ (by simp [clampBytes]; omega),
      List.getD_eq_default clampBytes _ hUpper, UInt8.and_zero]

/-- The seven masks of the code are the mask of the format. -/
theorem limb_clampedKey (k : Bytes 32) {j : Nat} (hj : j < 17) :
    limb (clampedKey k) j =
      ((List.zipWith (· &&& ·) (k.val.take 16) clampBytes).getD j 0).toNat := by
  have hByte : ∀ b : UInt8, b.toNat &&& 255 = b.toNat := fun b =>
    Nat.and_two_pow_sub_one_of_lt_two_pow b.toNat_lt
  have hWord : ∀ b : UInt8, b.toNat &&& 4294967295 = b.toNat := fun b =>
    Nat.and_two_pow_sub_one_of_lt_two_pow (n := 32) (b.toNat_lt.trans (by decide))
  rw [clamped_getD]
  simp only [clampedKey, limb_mask _ _ _ hj, limb_limbsOfBytes k.val 16 hj, UInt8.toNat_and]
  rcases (by omega : j = 0 ∨ j = 1 ∨ j = 2 ∨ j = 3 ∨ j = 4 ∨ j = 5 ∨ j = 6 ∨ j = 7 ∨ j = 8 ∨
    j = 9 ∨ j = 10 ∨ j = 11 ∨ j = 12 ∨ j = 13 ∨ j = 14 ∨ j = 15 ∨ j = 16) with
    rfl | rfl | rfl | rfl | rfl | rfl | rfl | rfl | rfl | rfl | rfl | rfl | rfl | rfl | rfl |
    rfl | rfl
  all_goals simp [clampBytes, hByte, hWord, Nat.and_assoc]

theorem limb_clampedKey_lt (k : Bytes 32) : ∀ j < 17, limb (clampedKey k) j < 256 := by
  intro j hj
  rw [limb_clampedKey k hj]
  exact UInt8.toNat_lt _

/-- Clamping is done byte by byte in the code and as one mask in the specification. Both read the
same number off the key. -/
theorem value_clampedKey (k : Bytes 32) :
    value (clampedKey k) = Poly1305.number (k.val.take 16) &&& Poly1305.clampMask := by
  have hMask : Poly1305.clampMask = Poly1305.number clampBytes := rfl
  rw [hMask, ← Poly1305.number_zipWith_and,
    Poly1305.number_eq_sum 17 (by simp [clampBytes]), value]
  exact sum_congr rfl fun j hj => by rw [limb_clampedKey k (mem_range.mp hj)]

/-- The words that both sides of the conditional subtraction are selected from. -/
theorem limb_select (h g : Limbs) (s : UInt32) {j : Nat} (hj : j < 17) :
    limb (Vector.zipWith (fun h g => h ^^^ (s &&& (g ^^^ h))) h g) j =
      (h[j]! ^^^ (s &&& (g[j]! ^^^ h[j]!))).toNat := by
  rw [limb, getElem!_pos _ j hj, getElem!_pos h j hj, getElem!_pos g j hj, Vector.getElem_zipWith]

/-- The mask selects all of one side. -/
theorem select_zero (x y : UInt32) : x ^^^ (-0 &&& (y ^^^ x)) = x := by
  rw [UInt32.neg_zero, UInt32.zero_and, UInt32.xor_zero]

/-- The masked choice between the two remainders, for the mask of all ones. The code computes both
and never branches on the key. -/
theorem select_one (x y : UInt32) : x ^^^ (-1 &&& (y ^^^ x)) = y := by
  rw [UInt32.neg_one_and, UInt32.xor_comm y x, ← UInt32.xor_assoc, UInt32.xor_self,
    UInt32.zero_xor]

/-- The top limb tells in which range the number lies. -/
theorem limb_top {h : Limbs} (hLow : ∀ j < 16, limb h j < 256) :
    limb h 16 = value h / 256 ^ 16 := by
  have hLower := Poly1305.sum_digits_lt 16 hLow
  rw [value_eq]
  omega

/-- What the mask selects, by the top limb after the prime was taken away. -/
theorem subtractPrime_cases (h : Limbs) :
    (limb (add1305 h minusp) 16 / 128 = 0 →
      ∀ j < 17, limb (subtractPrime h) j = limb (add1305 h minusp) j) ∧
    (limb (add1305 h minusp) 16 / 128 = 1 →
      ∀ j < 17, limb (subtractPrime h) j = limb h j) := by
  have hShift : ((add1305 h minusp)[16]! >>> 7).toNat = limb (add1305 h minusp) 16 / 128 := by
    rw [UInt32.toNat_shiftRight]
    exact Nat.shiftRight_eq_div_pow _ 7
  constructor
  · intro hZero j hj
    have hMask : (add1305 h minusp)[16]! >>> 7 = 0 := UInt32.toNat_inj.mp (hShift.trans hZero)
    rw [subtractPrime, limb_select _ _ _ hj, hMask, select_zero]
    rfl
  · intro hOne j hj
    have hMask : (add1305 h minusp)[16]! >>> 7 = 1 := UInt32.toNat_inj.mp (hShift.trans hOne)
    rw [subtractPrime, limb_select _ _ _ hj, hMask, select_one]
    rfl

theorem value_minusp : value minusp = 2 ^ 136 - Poly1305.prime := rfl

/-- The conditional subtraction at the end yields the remainder, whichever of the two values the
mask selects. -/
theorem subtractPrime_exact {h : Limbs} (reduced : Reduced h) :
    add1305Checked h minusp = some (add1305 h minusp) ∧
      (∀ j < 17, limb (subtractPrime h) j < 256) ∧
      value (subtractPrime h) = value h % Poly1305.prime := by
  have hTop := reduced.top
  have hLow : ∀ j < 17, limb h j < 256 := by
    intro j hj
    rcases Nat.lt_or_ge j 16 with hLower | hUpper
    · exact reduced.low j hLower
    · obtain rfl : j = 16 := by omega
      omega
  have hMinus : ∀ j < 17, limb minusp j ≤ 252 := by decide
  obtain ⟨hAdd, hAddLow, hAddValue⟩ := @add1305_exact h minusp fun j hj => by
    have hDigit := hLow j hj
    have hOther := hMinus j hj
    omega
  have hBelow := reduced.value_lt_twice
  have hAddTop := limb_top fun j hj => hAddLow j (by omega)
  have hSame : ∀ g : Limbs, (∀ j < 17, limb (subtractPrime h) j = limb g j) →
      value (subtractPrime h) = value g := fun g hLimbs =>
    sum_congr rfl fun j hj => by rw [hLimbs j (mem_range.mp hj)]
  rw [value_minusp] at hAddValue
  refine ⟨hAdd, ?_⟩
  rcases Nat.lt_or_ge (value h) Poly1305.prime with hLess | hGreater
  · have hSum : value (add1305 h minusp) = value h + (2 ^ 136 - Poly1305.prime) := by
      rw [hAddValue, Nat.mod_eq_of_lt]
      rw [Poly1305.prime] at hLess ⊢
      omega
    have hSelect := (subtractPrime_cases h).2 (by
      rw [hAddTop, hSum, Poly1305.prime]
      rw [Poly1305.prime] at hLess
      omega)
    refine ⟨fun j hj => (hSelect j hj).trans_lt (hLow j hj), ?_⟩
    rw [hSame h hSelect, Nat.mod_eq_of_lt hLess]
  · have hDifference : value (add1305 h minusp) = value h - Poly1305.prime := by
      have hSplit : value h + (2 ^ 136 - Poly1305.prime) =
          value h - Poly1305.prime + 256 ^ 17 := by
        rw [Poly1305.prime] at hGreater ⊢
        omega
      rw [hAddValue, hSplit, Nat.add_mod_right, Nat.mod_eq_of_lt]
      rw [Poly1305.prime] at hBelow ⊢
      omega
    have hSelect := (subtractPrime_cases h).1 (by
      rw [hAddTop, hDifference, Poly1305.prime]
      rw [Poly1305.prime] at hBelow
      omega)
    refine ⟨fun j hj => (hSelect j hj).trans_lt (hAddLow j hj), ?_⟩
    rw [hSame _ hSelect, hDifference, Nat.mod_eq_sub_mod hGreater, Nat.mod_eq_of_lt (by omega)]

section Block

variable {r : Limbs} (rBound : ∀ j < 17, limb r j < 256)

include rBound

/-- One block: no word wraps, the limbs keep their bounds, and their number is
multiplied modulo the prime. -/
theorem poly1305Block_exact {h : Limbs} {m : List UInt8} (reduced : Reduced h)
    (hLen : m.length ≤ 16) :
    poly1305BlockChecked r h m = some (poly1305Block r h m) ∧
      Reduced (poly1305Block r h m) ∧
      value (poly1305Block r h m) ≡ (value h + Poly1305.number (m ++ [1])) * value r
        [MOD Poly1305.prime] := by
  have hTop := reduced.top
  have hDigits : ∀ j < 17, limb h j + limb (blockLimbs m) j ≤ 2 ^ 30 := by
    intro j hj
    have hBlock := limb_blockLimbs_lt m hj
    rcases Nat.lt_or_ge j 16 with hLower | hUpper
    · have hLow := reduced.low j hLower
      omega
    · obtain rfl : j = 16 := by omega
      omega
  obtain ⟨hAdd, hAddLow, hAddValue⟩ := add1305_exact hDigits
  have hNumber : Poly1305.number (m ++ [1]) < 2 * 256 ^ 16 := by
    have hLower := Poly1305.number_lt m
    have hPower : 256 ^ m.length ≤ 256 ^ 16 := Nat.pow_le_pow_right (by decide) hLen
    rw [Poly1305.number_append]
    change _ + 256 ^ m.length * (1 + 256 * 0) < _
    omega
  have hSum : value (add1305 h (blockLimbs m)) =
      value h + Poly1305.number (m ++ [1]) := by
    have hValue := reduced.value_lt
    rw [hAddValue, value_blockLimbs hLen, Nat.mod_eq_of_lt (by omega)]
  obtain ⟨hMul, -, hColumns⟩ := mulColumns_exact hAddLow rBound
  obtain ⟨hReduce, hReduced, folded, hFolded⟩ := reduceLimbs_exact hColumns
  have hResult : poly1305Block r h m =
      reduceLimbs (mulColumns (add1305 h (blockLimbs m)) r) := rfl
  have hProduct := mulColumns_modEq (p := Poly1305.prime) (by decide) hAddLow rBound
  rw [hResult]
  refine ⟨?_, hReduced, ?_⟩
  · simp only [poly1305BlockChecked, hAdd, hMul, hReduce, Option.bind_eq_bind,
      Option.bind_some]
  · rw [hSum, ← hFolded] at hProduct
    exact Nat.add_mul_modulus_modEq_iff.mp hProduct

/-- The loop over the message, by induction on its blocks. -/
theorem poly1305Loop_exact (m : List UInt8) : ∀ {h : Limbs}, Reduced h →
    poly1305LoopChecked r h m = some (poly1305Loop r h m) ∧
      Reduced (poly1305Loop r h m) ∧
      value (poly1305Loop r h m) ≡
        Poly1305.horner (value r) (Poly1305.blocks m) (value h) [MOD Poly1305.prime] := by
  induction m using Poly1305.blocks.induct with
  | case1 m hLen ih =>
      intro h reduced
      obtain ⟨hBlock, hReduced, hValue⟩ := poly1305Block_exact rBound reduced
        (List.length_take_le 16 m)
      obtain ⟨hLoop, hEnd, hRest⟩ := ih hReduced
      rw [poly1305Loop, if_pos hLen, poly1305LoopChecked, if_pos hLen, Poly1305.blocks, if_pos hLen]
      refine ⟨?_, hEnd, ?_⟩
      · simp only [hBlock, Option.bind_eq_bind, Option.bind_some, hLoop]
      · rw [Poly1305.horner_cons]
        exact hRest.trans (Poly1305.horner_modEq _ _ hValue)
  | case2 m hLen =>
      intro h reduced
      rw [poly1305Loop, if_neg hLen, poly1305LoopChecked, if_neg hLen, Poly1305.blocks, if_neg hLen]
      rw [Poly1305.horner_nil]
      exact ⟨rfl, reduced, Nat.ModEq.refl _⟩

end Block

/-- Whole blocks first and the rest after them: the loop may be cut at any block boundary. -/
theorem poly1305Loop_append (r : Limbs) (rest : List UInt8) :
    ∀ (done : List UInt8) (h : Limbs), 16 ∣ done.length →
      poly1305Loop r h (done ++ rest) = poly1305Loop r (poly1305Loop r h done) rest := by
  intro done
  induction done using Poly1305.blocks.induct with
  | case1 done hLen ih =>
      intro h hBlocks
      have hFull : 16 ≤ done.length := Nat.le_of_dvd hLen hBlocks
      have hNext : 16 ∣ (done.drop 16).length := by
        rw [List.length_drop]
        omega
      rw [poly1305Loop, if_pos (by rw [List.length_append]; omega),
        List.take_append_of_le_length hFull, List.drop_append_of_le_length hFull, ih _ hNext]
      conv => rhs; rw [poly1305Loop.eq_def r h done, if_pos hLen]
  | case2 done hLen =>
      intro h _
      obtain rfl : done = [] := List.eq_nil_of_length_eq_zero (by omega)
      rw [List.nil_append, poly1305Loop.eq_def r h [], if_neg hLen]

theorem reduced_zero : Reduced (Vector.replicate 17 0) where
  low := by decide
  top := by decide

theorem value_zero : value (Vector.replicate 17 0) = 0 := rfl

/-- The lowest bytes of a number are the lowest limbs. -/
theorem limbBytes_eq {h : Limbs} (hLow : ∀ j < 17, limb h j < 256) :
    (List.range 16).map (fun j => h[j]!.toUInt8) =
      Poly1305.numberBytes 16 (value h % 2 ^ 128) := by
  apply List.map_congr_left
  intro j hj
  have hLess := List.mem_range.mp hj
  have hDigit : value h / 256 ^ j % 256 = limb h j :=
    Poly1305.digit_of_sum hLow (by omega)
  have hPower : 2 ^ 128 = 256 ^ j * 256 ^ (16 - j) := by
    rw [← pow_add, Nat.add_sub_cancel' hLess.le]
    rfl
  have hDivides : 256 ∣ 256 ^ (16 - j) := dvd_pow_self 256 (by omega)
  apply UInt8.toNat_inj.mp
  rw [UInt32.toNat_toUInt8, UInt8.toNat_ofNat', hPower, Nat.mod_mul_right_div_self,
    Nat.mod_mod_of_dvd _ hDivides, hDigit]
  exact Nat.mod_eq_of_lt (hLow j (by omega))

/-- The tag is the Poly1305 tag of the message, and no word wraps on the way: every
limb is back at its bound before each block, and the conditional subtraction leaves
the remainder modulo the prime. -/
theorem poly1305_correct (m : List UInt8) (k : Bytes 32) :
    (poly1305 m k).val = Poly1305.tag m k.val ∧
      poly1305Checked m k = some (poly1305 m k) ∧
      (∀ done rest : List UInt8, m = done ++ rest → 16 ∣ done.length →
        Reduced (poly1305Loop (clampedKey k) (Vector.replicate 17 0) done) ∧
          poly1305Loop (clampedKey k) (Vector.replicate 17 0) m = poly1305Loop (clampedKey k)
            (poly1305Loop (clampedKey k) (Vector.replicate 17 0) done) rest) ∧
      value (subtractPrime (poly1305Loop (clampedKey k) (Vector.replicate 17 0) m)) =
        Poly1305.evaluate m k.val ∧
      Poly1305.evaluate m k.val < Poly1305.prime := by
  have hLoops := fun message => poly1305Loop_exact (limb_clampedKey_lt k) message reduced_zero
  obtain ⟨hLoop, hReduced, hValue⟩ := hLoops m
  obtain ⟨hSubtract, hSubtractLow, hRemainder⟩ := subtractPrime_exact hReduced
  have hEvaluate : value (subtractPrime (poly1305Loop (clampedKey k) (Vector.replicate 17 0) m)) =
      Poly1305.evaluate m k.val := by
    rw [hRemainder, Poly1305.evaluate, ← value_clampedKey]
    rw [value_zero] at hValue
    exact hValue
  have hPad : (k.val.drop 16).length = 16 := by simp
  have hPadLimbs : ∀ j < 17, limb (limbsOfBytes (k.val.drop 16) 16) j < 256 := by
    intro j hj
    rw [limb_limbsOfBytes _ _ hj]
    split
    · exact UInt8.toNat_lt _
    · decide
  have hPadValue : value (limbsOfBytes (k.val.drop 16) 16) =
      Poly1305.number (k.val.drop 16) := by
    have hValue := value_limbsOfBytes (m := k.val.drop 16) (by omega)
    rwa [hPad] at hValue
  obtain ⟨hAdd, hAddLow, hAddValue⟩ := @add1305_exact
    (subtractPrime (poly1305Loop (clampedKey k) (Vector.replicate 17 0) m))
    (limbsOfBytes (k.val.drop 16) 16) fun j hj => by
      have hDigit := hSubtractLow j hj
      have hOther := hPadLimbs j hj
      omega
  refine ⟨?_, ?_, ?_, hEvaluate, ?_⟩
  · have hOut : (poly1305 m k).val = (List.range 16).map fun j =>
        (add1305 (subtractPrime (poly1305Loop (clampedKey k) (Vector.replicate 17 0) m))
          (limbsOfBytes (k.val.drop 16) 16))[j]!.toUInt8 := by
      rw [poly1305]
      rfl
    rw [hOut, limbBytes_eq hAddLow, hAddValue, Nat.mod_mod_of_dvd _ (by decide), hEvaluate,
      hPadValue, Poly1305.tag]
  · simp only [subtractPrime] at hAdd
    simp only [poly1305Checked, hLoop, hSubtract, hAdd, Option.bind_eq_bind, Option.bind_some,
      Option.pure_def, poly1305]
  · intro done rest hSplit hBlocks
    subst hSplit
    exact ⟨(hLoops done).2.1, poly1305Loop_append _ rest done _ hBlocks⟩
  · rw [Poly1305.evaluate]
    exact Nat.mod_lt _ (by decide)

end NukiBridge.Crypto

import NukiBridge.Arithmetic.Checked
import NukiBridge.Cipher.Poly1305
import NukiBridge.Crypto.Poly1305

/-! The loops of `poly1305` over the seventeen limbs, which are the digits of a
number in base 256. Each loop is given a second time over arithmetic that fails
where a word would wrap; both agree while the limbs keep their bounds. -/
namespace NukiBridge.Crypto

open Arithmetic Buffer Finset

/-- Limb `j` as a number. -/
def limb (h : Limbs) (j : Nat) : Nat := (h[j]!).toNat

/-- The number that the limbs stand for. -/
def value (h : Limbs) : Nat := ∑ j ∈ range 17, limb h j * 256 ^ j

/-- The bounds between two blocks. -/
structure Reduced (h : Limbs) : Prop where
  low : ∀ j < 16, limb h j < 256
  top : limb h 16 ≤ 4

theorem limb_set (h : Limbs) (i : Nat) (v : UInt32) {k : Nat} (hk : k < 17) :
    limb (h.setIfInBounds i v) k = if i = k then v.toNat else limb h k := by
  rw [limb, getElem!_setIfInBounds _ _ hk]
  split <;> rfl

theorem limb_zero {j : Nat} (h : j < 17) : limb (Vector.replicate 17 0) j = 0 := by
  rw [limb, getElem!_pos _ j h, Vector.getElem_replicate]
  rfl

/-- After `done` passes of a carry loop over the digits `digit` that began with the
carry `start` and the limbs `h`. -/
structure Carried (start : Nat) (digit : Nat → Nat) (h : Limbs) (done : Nat)
    (state : UInt32 × Limbs) : Prop where
  low : ∀ j < done, limb state.2 j < 256
  rest : ∀ j < 17, done ≤ j → limb state.2 j = limb h j
  carry : state.1.toNat ≤ 2 ^ 31
  sum : state.1.toNat * 256 ^ done + ∑ j ∈ range done, limb state.2 j * 256 ^ j =
    start + ∑ j ∈ range done, digit j * 256 ^ j

theorem Carried.zero {start : UInt32} (digit : Nat → Nat) (h : Limbs)
    (hStart : start.toNat ≤ 2 ^ 31) : Carried start.toNat digit h 0 (start, h) where
  low := by
    intro j hj
    exact absurd hj (Nat.not_lt_zero j)
  rest := fun _ _ _ => rfl
  carry := hStart
  sum := by simp

/-- One pass: the low byte of the total stays, the rest is carried. -/
theorem Carried.step {start : Nat} {digit : Nat → Nat} {h : Limbs} {done : Nat}
    {state : UInt32 × Limbs} (c : Carried start digit h done state) (hDone : done < 17)
    {total : UInt32} (hTotal : total.toNat = state.1.toNat + digit done) :
    Carried start digit h (done + 1)
      (total >>> 8, state.2.setIfInBounds done (total &&& 255)) := by
  have hLow : (total &&& 255).toNat = total.toNat % 256 := by
    rw [UInt32.toNat_and]
    exact Nat.and_two_pow_sub_one_eq_mod _ 8
  have hHigh : (total >>> 8).toNat = total.toNat / 256 := by
    rw [UInt32.toNat_shiftRight]
    exact Nat.shiftRight_eq_div_pow _ 8
  have hKept : ∀ j < 17, j ≠ done →
      limb (state.2.setIfInBounds done (total &&& 255)) j = limb state.2 j := by
    intro j hj hOther
    rw [limb_set _ _ _ hj, if_neg hOther.symm]
  refine ⟨?_, ?_, ?_, ?_⟩
  · intro j hj
    rcases Nat.lt_succ_iff_lt_or_eq.mp hj with hBefore | rfl
    · rw [hKept j (by omega) (by omega)]
      exact c.low j hBefore
    · rw [limb_set _ _ _ hDone, if_pos rfl, hLow]
      omega
  · intro j hj hAfter
    rw [hKept j hj (by omega)]
    exact c.rest j hj (by omega)
  · have hWord := total.toNat_lt
    rw [hHigh]
    omega
  · have hSame : ∑ j ∈ range done, limb (state.2.setIfInBounds done (total &&& 255)) j * 256 ^ j =
        ∑ j ∈ range done, limb state.2 j * 256 ^ j := by
      apply sum_congr rfl
      intro j hj
      have hBefore := mem_range.mp hj
      rw [hKept j (by omega) (by omega)]
    have hParts : total.toNat = 256 * (total.toNat / 256) + total.toNat % 256 :=
      (Nat.div_add_mod _ _).symm
    have hSum := c.sum
    rw [sum_range_succ, sum_range_succ, hSame, limb_set _ _ _ hDone, if_pos rfl, hLow, hHigh,
      ← Nat.add_assoc start, ← hSum, Nat.pow_succ]
    calc total.toNat / 256 * (256 ^ done * 256) + (∑ j ∈ range done, limb state.2 j * 256 ^ j +
          total.toNat % 256 * 256 ^ done)
        = (256 * (total.toNat / 256) + total.toNat % 256) * 256 ^ done +
            ∑ j ∈ range done, limb state.2 j * 256 ^ j := by ring
      _ = _ := by
        rw [← hParts, hTotal]
        ring

/-- The carry out of a loop that began without one is no larger than the digits. -/
theorem Carried.carry_le {digit : Nat → Nat} {h : Limbs} {done bound : Nat}
    {state : UInt32 × Limbs} (c : Carried 0 digit h done state)
    (hDigit : ∀ j < done, digit j ≤ bound) : state.1.toNat ≤ bound := by
  have hDigits : ∑ j ∈ range done, digit j * 256 ^ j ≤ bound * ∑ j ∈ range done, 1 * 256 ^ j := by
    rw [mul_sum]
    apply sum_le_sum
    intro j hj
    rw [one_mul]
    exact Nat.mul_le_mul_right _ (hDigit j (mem_range.mp hj))
  have hOnes : ∑ j ∈ range done, 1 * 256 ^ j < 256 ^ done :=
    Poly1305.sum_digits_lt done fun _ _ => by decide
  have hSum := c.sum
  have hProduct : state.1.toNat * 256 ^ done ≤ bound * 256 ^ done :=
    calc state.1.toNat * 256 ^ done ≤ ∑ j ∈ range done, digit j * 256 ^ j := by omega
      _ ≤ bound * ∑ j ∈ range done, 1 * 256 ^ j := hDigits
      _ ≤ bound * 256 ^ done := Nat.mul_le_mul_left _ hOnes.le
  exact Nat.le_of_mul_le_mul_right hProduct (Nat.pow_pos (by decide))

/-- The carry out of a loop over bytes that began with a small one is at most one. -/
theorem Carried.carry_le_one {start : Nat} {digit : Nat → Nat} {h : Limbs} {done : Nat}
    {state : UInt32 × Limbs} (c : Carried start digit h done state)
    (hStart : start ≤ 256 ^ done) (hDigit : ∀ j < done, digit j < 256) :
    state.1.toNat ≤ 1 := by
  have hDigits := Poly1305.sum_digits_lt done hDigit
  have hSum := c.sum
  have hProduct : state.1.toNat * 256 ^ done < 2 * 256 ^ done := by omega
  exact Nat.le_of_lt_succ (Nat.lt_of_mul_lt_mul_right hProduct)

/-- The body of a carry loop that reads the digit to add by `read`. -/
def carryBody (read : Limbs → Nat → UInt32) (state : UInt32 × Limbs) (j : Nat) :
    UInt32 × Limbs :=
  let u := state.1 + read state.2 j
  (u >>> 8, state.2.setIfInBounds j (u &&& 255))

/-- The same body where no word may wrap. -/
def carryBodyChecked (read : Limbs → Nat → Option UInt32) (state : UInt32 × Limbs) (j : Nat) :
    Option (UInt32 × Limbs) := do
  let u ← addChecked state.1 (← read state.2 j)
  return (u >>> 8, state.2.setIfInBounds j (u &&& 255))

/-- Every carry loop whose digits are small is exact: no sum of a digit and a carry wraps around. -/
theorem carryLoop_exact {read : Limbs → Nat → UInt32} {readChecked : Limbs → Nat → Option UInt32}
    {digit : Nat → Nat} {start : UInt32} {h : Limbs} {passes : Nat} (hPasses : passes ≤ 17)
    (hStart : start.toNat ≤ 2 ^ 31)
    (hRead : ∀ j < passes, ∀ g : Limbs, limb g j = limb h j →
      readChecked g j = some (read g j) ∧ (read g j).toNat = digit j ∧ digit j ≤ 2 ^ 30) :
    (List.range passes).foldlM (carryBodyChecked readChecked) (start, h) =
        some ((List.range passes).foldl (carryBody read) (start, h)) ∧
      Carried start.toNat digit h passes
        ((List.range passes).foldl (carryBody read) (start, h)) := by
  apply foldlM_exact (Carried start.toNat digit h) (Carried.zero digit h hStart)
  intro j hj state c
  obtain ⟨hChecked, hDigit, hSmall⟩ := hRead j hj state.2 (c.rest j (by omega) (Nat.le_refl _))
  have hCarry := c.carry
  have hFits : state.1.toNat + (read state.2 j).toNat < 2 ^ 32 := by omega
  constructor
  · simp only [carryBodyChecked, hChecked, Option.bind_eq_bind, Option.bind_some,
      addChecked_eq hFits, Option.pure_def, carryBody]
  · apply c.step (by omega)
    rw [toNat_add hFits, hDigit]

/-- `add1305` where no word may wrap. -/
def add1305Checked (h addend : Limbs) : Option Limbs := do
  let state ← (List.range 17).foldlM
    (carryBodyChecked fun h j => addChecked h[j]! addend[j]!) ((0 : UInt32), h)
  return state.2

/-- `carryPass` where no word may wrap. -/
def carryPassChecked (u : UInt32) (h : Limbs) : Option (UInt32 × Limbs) :=
  (List.range 16).foldlM (carryBodyChecked fun h j => some h[j]!) (u, h)

/-- Adding limb by limb: no word wraps, and the sum is exact modulo 256^17. -/
theorem add1305_exact {h addend : Limbs}
    (hSmall : ∀ j < 17, limb h j + limb addend j ≤ 2 ^ 30) :
    add1305Checked h addend = some (add1305 h addend) ∧
      (∀ j < 17, limb (add1305 h addend) j < 256) ∧
      value (add1305 h addend) = (value h + value addend) % 256 ^ 17 := by
  have hRead : ∀ j < 17, ∀ g : Limbs, limb g j = limb h j →
      addChecked g[j]! addend[j]! = some (g[j]! + addend[j]!) ∧
        (g[j]! + addend[j]!).toNat = limb h j + limb addend j ∧
        limb h j + limb addend j ≤ 2 ^ 30 := by
    intro j hj g hSame
    have hDigit := hSmall j hj
    have hFits : (g[j]!).toNat + (addend[j]!).toNat < 2 ^ 32 := by
      change limb g j + limb addend j < _
      omega
    refine ⟨addChecked_eq hFits, ?_, hDigit⟩
    rw [toNat_add hFits, ← hSame]
    rfl
  obtain ⟨hChecked, c⟩ := @carryLoop_exact _ _ _ 0 _ _ (Nat.le_refl 17) (by decide) hRead
  have hLow := c.low
  have hSum := c.sum
  have hValue : value (add1305 h addend) < 256 ^ 17 := Poly1305.sum_digits_lt 17 hLow
  refine ⟨?_, hLow, ?_⟩
  · rw [add1305Checked, hChecked]
    rfl
  · simp only [add_mul, sum_add_distrib] at hSum
    change _ + value (add1305 h addend) = 0 + (value h + value addend) at hSum
    rw [Nat.zero_add] at hSum
    rw [← hSum, Nat.add_comm, Nat.add_mul_mod_self_right, Nat.mod_eq_of_lt hValue]

/-- A carry pass over small limbs is exact. -/
theorem carryPass_exact {u : UInt32} {h : Limbs} (hStart : u.toNat ≤ 2 ^ 31)
    (hSmall : ∀ j < 16, limb h j ≤ 2 ^ 30) :
    carryPassChecked u h = some (carryPass u h) ∧
      Carried u.toNat (limb h) h 16 (carryPass u h) := by
  apply carryLoop_exact (by decide) hStart
  intro j hj g hSame
  exact ⟨rfl, hSame, hSmall j hj⟩

/-- The factor of limb `j` in column `i` where no word may wrap. -/
def factorChecked (r : Limbs) (i j : Nat) : Option UInt32 :=
  if j ≤ i then some r[i - j]! else mulChecked 320 r[i + 17 - j]!

/-- One product of column `i` where no word may wrap. -/
def columnBodyChecked (h r : Limbs) (i : Nat) (sum : UInt32) (j : Nat) : Option UInt32 := do
  addChecked sum (← mulChecked h[j]! (← factorChecked r i j))

def columnBody (h r : Limbs) (i : Nat) (sum : UInt32) (j : Nat) : UInt32 :=
  sum + h[j]! * (if j ≤ i then r[i - j]! else 320 * r[i + 17 - j]!)

/-- `mulColumns` where no word may wrap. -/
def mulColumnsChecked (h r : Limbs) : Option Limbs :=
  (List.range 17).foldlM (fun x i => do
    let sum ← (List.range 17).foldlM (columnBodyChecked h r i) (0 : UInt32)
    return x.setIfInBounds i sum) (Vector.replicate 17 0)

/-- Product `j` of column `i` as a number. -/
def product (h r : Limbs) (i j : Nat) : Nat :=
  limb h j * (if j ≤ i then limb r (i - j) else 320 * limb r (i + 17 - j))

section Columns

variable {h r : Limbs} (hBound : ∀ j < 17, limb h j < 256) (rBound : ∀ j < 17, limb r j < 256)

include hBound rBound

theorem columnBody_exact {i j : Nat} (hi : i < 17) (hj : j < 17) {sum : UInt32}
    (hSum : sum.toNat ≤ j * (255 * (320 * 255))) :
    columnBodyChecked h r i sum j = some (columnBody h r i sum j) ∧
      (columnBody h r i sum j).toNat = sum.toNat + product h r i j ∧
      product h r i j ≤ 255 * (320 * 255) := by
  have hFactor : ∃ factor : UInt32,
      factorChecked r i j = some factor ∧
        (if j ≤ i then r[i - j]! else 320 * r[i + 17 - j]!) = factor ∧
        (if j ≤ i then limb r (i - j) else 320 * limb r (i + 17 - j)) = factor.toNat ∧
        factor.toNat ≤ 320 * 255 := by
    by_cases hPlace : j ≤ i
    · have hDigit := rBound (i - j) (by omega)
      simp only [factorChecked, if_pos hPlace]
      refine ⟨_, rfl, rfl, rfl, ?_⟩
      change limb r (i - j) ≤ _
      omega
    · have hDigit := rBound (i + 17 - j) (by omega)
      have hFits : (320 : UInt32).toNat * (r[i + 17 - j]!).toNat < 2 ^ 32 := by
        change 320 * limb r (i + 17 - j) < _
        omega
      simp only [factorChecked, if_neg hPlace]
      refine ⟨_, mulChecked_eq hFits, rfl, (toNat_mul hFits).symm, ?_⟩
      rw [toNat_mul hFits]
      change 320 * limb r (i + 17 - j) ≤ _
      omega
  obtain ⟨factor, hChecked, hPlain, hNumber, hSmall⟩ := hFactor
  have hProduct : limb h j * factor.toNat ≤ 255 * (320 * 255) :=
    Nat.mul_le_mul (Nat.le_of_lt_succ (hBound j hj)) hSmall
  have hPasses : j * (255 * (320 * 255)) ≤ 17 * (255 * (320 * 255)) :=
    Nat.mul_le_mul_right _ hj.le
  have hMul : (h[j]!).toNat * factor.toNat < 2 ^ 32 := hProduct.trans_lt (by decide)
  have hAdd : sum.toNat + (h[j]! * factor).toNat < 2 ^ 32 := by
    rw [toNat_mul hMul]
    change _ + limb h j * factor.toNat < _
    omega
  rw [columnBodyChecked, columnBody, product, hChecked, hPlain, hNumber]
  refine ⟨?_, ?_, hProduct⟩
  · simp only [Option.bind_eq_bind, Option.bind_some, mulChecked_eq hMul, addChecked_eq hAdd]
  · rw [toNat_add hAdd, toNat_mul hMul]
    rfl

/-- No product and no column sum of the multiplication wraps around 32 bits, given that the limbs
are reduced. -/
theorem column_exact {i : Nat} (hi : i < 17) :
    (List.range 17).foldlM (columnBodyChecked h r i) (0 : UInt32) =
        some ((List.range 17).foldl (columnBody h r i) 0) ∧
      ((List.range 17).foldl (columnBody h r i) 0).toNat = ∑ j ∈ range 17, product h r i j ∧
      ∑ j ∈ range 17, product h r i j ≤ 2 ^ 29 := by
  have hBody : ∀ j < 17, ∀ sum : UInt32, (sum.toNat = ∑ k ∈ range j, product h r i k ∧
      sum.toNat ≤ j * (255 * (320 * 255))) →
      columnBodyChecked h r i sum j = some (columnBody h r i sum j) ∧
        (columnBody h r i sum j).toNat = ∑ k ∈ range (j + 1), product h r i k ∧
        (columnBody h r i sum j).toNat ≤ (j + 1) * (255 * (320 * 255)) := by
    intro j hj sum hInv
    obtain ⟨hBody, hTotal, hProduct⟩ := columnBody_exact hBound rBound hi hj hInv.2
    refine ⟨hBody, ?_, ?_⟩
    · rw [hTotal, sum_range_succ, hInv.1]
    · have hBefore := hInv.2
      rw [hTotal]
      omega
  obtain ⟨hChecked, hSum, hSmall⟩ := @foldlM_exact UInt32 _ _ (fun done sum =>
    sum.toNat = ∑ j ∈ range done, product h r i j ∧ sum.toNat ≤ done * (255 * (320 * 255))) 0
    (by simp) 17 hBody
  refine ⟨hChecked, hSum, ?_⟩
  rw [← hSum]
  exact hSmall.trans (by decide)

/-- The columns of the product. -/
theorem mulColumns_exact :
    mulColumnsChecked h r = some (mulColumns h r) ∧
      (∀ i < 17, limb (mulColumns h r) i = ∑ j ∈ range 17, product h r i j) ∧
      ∀ i < 17, limb (mulColumns h r) i ≤ 2 ^ 29 := by
  have hBody : ∀ i < 17, ∀ x : Limbs,
      (∀ k < i, limb x k = ∑ j ∈ range 17, product h r k j) →
      (do
        let sum ← (List.range 17).foldlM (columnBodyChecked h r i) (0 : UInt32)
        return x.setIfInBounds i sum) =
          some (x.setIfInBounds i ((List.range 17).foldl (columnBody h r i) 0)) ∧
        ∀ k < i + 1, limb (x.setIfInBounds i ((List.range 17).foldl (columnBody h r i) 0)) k =
          ∑ j ∈ range 17, product h r k j := by
    intro i hi x hInv
    obtain ⟨hSum, hNumber, -⟩ := column_exact hBound rBound hi
    constructor
    · rw [hSum]
      rfl
    · intro k hk
      rw [limb_set _ _ _ (by omega)]
      split
      · rename_i hSame
        rw [← hSame, hNumber]
      · exact hInv k (by omega)
  obtain ⟨hChecked, hColumns⟩ := foldlM_exact
    (fun done x => ∀ i < done, limb x i = ∑ j ∈ range 17, product h r i j)
    (fun i hi => absurd hi (Nat.not_lt_zero i)) 17 hBody
  refine ⟨hChecked, hColumns, ?_⟩
  intro i hi
  exact (hColumns i hi).trans_le (column_exact hBound rBound hi).2.2

end Columns

end NukiBridge.Crypto

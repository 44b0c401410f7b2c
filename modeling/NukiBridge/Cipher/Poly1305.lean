import Mathlib.Algebra.BigOperators.Intervals
import Mathlib.Algebra.BigOperators.Ring.Finset
import Mathlib.Data.Nat.ModEq
import Mathlib.Data.ZMod.Basic
import Mathlib.Tactic.Linarith
import Mathlib.Tactic.Ring

/-! Poly1305 over the natural numbers, and multiplication of numbers in a base
modulo a number that is close to a power of the base. -/
namespace Poly1305

open Finset

/-- The modulus. -/
def prime : Nat := 2 ^ 130 - 5

/-- A byte string as a number, least significant byte first. -/
def number : List UInt8 → Nat
  | [] => 0
  | byte :: bytes => byte.toNat + 256 * number bytes

/-- The `count` lowest bytes of a number, least significant byte first. -/
def numberBytes (count value : Nat) : List UInt8 :=
  (List.range count).map fun j => UInt8.ofNat (value / 256 ^ j)

/-- The bits of the multiplier that the format keeps. -/
def clampMask : Nat := 0x0ffffffc0ffffffc0ffffffc0fffffff

/-- The message cut into blocks of sixteen bytes and a shorter last one. -/
def blocks (m : List UInt8) : List (List UInt8) :=
  if 0 < m.length then m.take 16 :: blocks (m.drop 16) else []
termination_by m.length

/-- Horner evaluation at `r`: every block is read with a byte 1 behind it. -/
def horner (r : Nat) (blocks : List (List UInt8)) (start : Nat) : Nat :=
  blocks.foldl (fun sum block => (sum + number (block ++ [1])) * r) start

/-- The polynomial of the message at the clamped first half of the key. -/
def evaluate (m key : List UInt8) : Nat :=
  horner (number (key.take 16) &&& clampMask) (blocks m) 0 % prime

/-- The tag: the second half of the key added to the polynomial. -/
def tag (m key : List UInt8) : List UInt8 :=
  numberBytes 16 ((evaluate m key + number (key.drop 16)) % 2 ^ 128)

theorem horner_nil (r start : Nat) : horner r [] start = start := rfl

theorem horner_cons (r start : Nat) (block : List UInt8) (blocks : List (List UInt8)) :
    horner r (block :: blocks) start = horner r blocks ((start + number (block ++ [1])) * r) := rfl

/-- Horner evaluation respects congruence of what it starts from. -/
theorem horner_modEq {n : Nat} (r : Nat) (blocks : List (List UInt8)) {start start' : Nat}
    (h : start ≡ start' [MOD n]) : horner r blocks start ≡ horner r blocks start' [MOD n] := by
  induction blocks generalizing start start' with
  | nil => exact h
  | cons block blocks ih => exact ih ((h.add_right _).mul_right _)

/-- Bytes in sequence are one number, with the later ones as its higher part. -/
theorem number_append (first second : List UInt8) :
    number (first ++ second) = number first + 256 ^ first.length * number second := by
  induction first with
  | nil => simp [number]
  | cons byte first ih =>
      simp only [List.cons_append, number, ih, List.length_cons, Nat.pow_succ]
      ring

/-- A number of so many bytes is below the power of 256. -/
theorem number_lt (bytes : List UInt8) : number bytes < 256 ^ bytes.length := by
  induction bytes with
  | nil => simp [number]
  | cons byte bytes ih =>
      have hByte := byte.toNat_lt
      rw [number, List.length_cons, Nat.pow_succ]
      omega

/-- A number as the sum of its digits, with any number of leading zeros. -/
theorem number_eq_sum {bytes : List UInt8} (digits : Nat) (h : bytes.length ≤ digits) :
    number bytes = ∑ j ∈ range digits, (bytes.getD j 0).toNat * 256 ^ j := by
  induction bytes generalizing digits with
  | nil => simp [number]
  | cons byte bytes ih =>
      obtain ⟨rest, rfl⟩ := Nat.exists_eq_add_of_le' h
      rw [List.length_cons, ← Nat.add_assoc, sum_range_succ', number,
        ih _ (Nat.le_add_left _ rest), mul_sum]
      have hShift : ∀ j, ((byte :: bytes).getD (j + 1) 0).toNat * 256 ^ (j + 1) =
          256 * ((bytes.getD j 0).toNat * 256 ^ j) := by
        intro j
        rw [List.getD_cons_succ, pow_succ]
        ring
      simp only [hShift, List.getD_cons_zero, pow_zero, mul_one]
      ring

/-- Digits below the base: the sum stays below the next power. -/
theorem sum_digits_lt {digit : Nat → Nat} {base : Nat} : ∀ digits,
    (∀ j < digits, digit j < base) → ∑ j ∈ range digits, digit j * base ^ j < base ^ digits := by
  intro digits
  induction digits with
  | zero => intro _; simp
  | succ digits ih =>
      intro hDigit
      have hLower := ih fun j hj => hDigit j (Nat.lt_succ_of_lt hj)
      have hTop : (digit digits + 1) * base ^ digits ≤ base * base ^ digits :=
        Nat.mul_le_mul_right _ (hDigit digits (Nat.lt_succ_self _))
      rw [sum_range_succ, pow_succ']
      linarith

/-- The bits that two byte strings share, byte by byte. -/
theorem number_zipWith_and : ∀ first second : List UInt8,
    number (List.zipWith (· &&& ·) first second) = number first &&& number second := by
  intro first
  induction first with
  | nil => intro second; simp [number]
  | cons x first ih =>
      intro second
      match second with
      | [] => simp [number]
      | y :: second =>
          have hx := x.toNat_lt
          have hy := y.toNat_lt
          have hAnd : x.toNat &&& y.toNat < 2 ^ 8 := Nat.and_lt_two_pow _ hy
          have hBit : ∀ a b j : Nat, a < 2 ^ 8 →
              (a + 256 * b).testBit j = if j < 8 then a.testBit j else b.testBit (j - 8) := by
            intro a b j ha
            rw [Nat.add_comm]
            exact Nat.testBit_two_pow_mul_add b ha j
          rw [List.zipWith_cons_cons, number, number, number, ih, UInt8.toNat_and]
          apply Nat.eq_of_testBit_eq
          intro j
          rw [Nat.testBit_and, hBit _ _ _ hAnd, hBit _ _ _ hx, hBit _ _ _ hy]
          split
          · rw [Nat.testBit_and]
          · rw [Nat.testBit_and]

/-- The digits of a sum of digits. -/
theorem digit_of_sum {digit : Nat → Nat} {base digits i : Nat}
    (hDigit : ∀ j < digits, digit j < base) (h : i < digits) :
    (∑ j ∈ range digits, digit j * base ^ j) / base ^ i % base = digit i := by
  obtain ⟨above, rfl⟩ := Nat.exists_eq_add_of_lt h
  have hLower := sum_digits_lt i fun j hj => hDigit j (by omega)
  have hHigher : ∑ j ∈ range above, digit (i + 1 + j) * base ^ (i + 1 + j) =
      base ^ i * (base * ∑ j ∈ range above, digit (i + 1 + j) * base ^ j) := by
    rw [mul_sum, mul_sum]
    apply sum_congr rfl
    intro j _
    rw [pow_add, pow_succ]
    ring
  have hPositive : 0 < base ^ i := Nat.lt_of_le_of_lt (Nat.zero_le _) hLower
  rw [show i + above + 1 = i + 1 + above by omega, sum_range_add, sum_range_succ, hHigher,
    Nat.mul_comm (digit i), Nat.add_assoc, ← Nat.mul_add, Nat.add_mul_div_left _ _ hPositive,
    Nat.div_eq_of_lt hLower, Nat.zero_add, Nat.add_mul_mod_self_left,
    Nat.mod_eq_of_lt (hDigit i h)]

/-- The schoolbook product column by column, where what belongs to the columns past
`n` is folded back multiplied by `base ^ n`. -/
theorem folded_product {R : Type} [CommRing R] (base : R) (h r : Nat → R) (n : Nat) :
    ∑ i ∈ range n, (∑ j ∈ range n,
        h j * (if j ≤ i then r (i - j) else base ^ n * r (i + n - j))) * base ^ i =
      (∑ j ∈ range n, h j * base ^ j) * ∑ k ∈ range n, r k * base ^ k := by
  -- For one digit of `h`, the columns are those of `r`, rotated.
  have hColumn : ∀ j ∈ range n,
      ∑ i ∈ range n, (if j ≤ i then r (i - j) else base ^ n * r (i + n - j)) * base ^ i =
        base ^ j * ∑ k ∈ range n, r k * base ^ k := by
    intro j hj
    obtain ⟨m, rfl⟩ := Nat.exists_eq_add_of_le (mem_range.mp hj).le
    rw [sum_range_add, Nat.add_comm j m, sum_range_add, mul_add, mul_sum, mul_sum, add_comm]
    congr 1
    · apply sum_congr rfl
      intro i _
      rw [if_pos (Nat.le_add_right _ _), Nat.add_sub_cancel_left, pow_add]
      ring
    · apply sum_congr rfl
      intro i hi
      have hBelow := mem_range.mp hi
      rw [if_neg (by omega), show i + (m + j) - j = m + i by omega, pow_add, pow_add]
      ring
  calc ∑ i ∈ range n, (∑ j ∈ range n,
        h j * (if j ≤ i then r (i - j) else base ^ n * r (i + n - j))) * base ^ i
      = ∑ j ∈ range n, h j * ∑ i ∈ range n,
          (if j ≤ i then r (i - j) else base ^ n * r (i + n - j)) * base ^ i := by
        simp only [sum_mul, mul_sum]
        rw [sum_comm]
        simp only [mul_assoc]
    _ = ∑ j ∈ range n, h j * (base ^ j * ∑ k ∈ range n, r k * base ^ k) :=
        sum_congr rfl fun j hj => by rw [hColumn j hj]
    _ = (∑ j ∈ range n, h j * base ^ j) * ∑ k ∈ range n, r k * base ^ k := by
        rw [sum_mul]
        exact sum_congr rfl fun j _ => by ring

end Poly1305

import Mathlib.Algebra.Polynomial.RingDivision
import Mathlib.Algebra.Field.ZMod
import NukiBridge.Cyclic.Remainder

/-! Bit strings read as polynomials with coefficients in `ZMod 2`. What a register
computes by shifts is the remainder of the division by X^w + poly. -/
namespace Cyclic

open Polynomial

variable {w : Nat}

def coefficient (b : Bool) : ZMod 2 := if b then 1 else 0

@[simp] theorem coefficient_false : coefficient false = 0 := rfl

theorem coefficient_xor (a b : Bool) :
    coefficient (xor a b) = coefficient a + coefficient b := by
  cases a <;> cases b <;> rfl

/-- The first bit of a string is the coefficient of the highest power. -/
noncomputable def polynomial : List Bool → (ZMod 2)[X]
  | [] => 0
  | b :: bits => C (coefficient b) * X ^ bits.length + polynomial bits

@[simp] theorem polynomial_nil : polynomial [] = 0 := rfl

theorem polynomial_cons (b : Bool) (bits : List Bool) :
    polynomial (b :: bits) = C (coefficient b) * X ^ bits.length + polynomial bits := rfl

/-- The bits are the coefficients, the last bit being the constant one. -/
theorem coeff_polynomial (bits : List Bool) (i : Nat) :
    (polynomial bits).coeff i = coefficient (bits.reverse.getD i false) := by
  induction bits with
  | nil => simp
  | cons b bits ih =>
      rw [polynomial_cons, coeff_add, ih, coeff_C_mul_X_pow, List.reverse_cons]
      by_cases hLt : i < bits.length
      · rw [if_neg hLt.ne, zero_add, List.getD_append _ _ _ _ (by rwa [List.length_reverse])]
      · have hLe : bits.reverse.length ≤ i := by
          rw [List.length_reverse]
          exact Nat.le_of_not_lt hLt
        rw [List.getD_append_right _ _ _ _ hLe, List.getD_eq_default _ _ hLe, List.length_reverse,
          coefficient_false, add_zero]
        by_cases hEq : i = bits.length
        · rw [if_pos hEq, hEq, Nat.sub_self]
          rfl
        · rw [if_neg hEq, List.getD_eq_default]
          · rfl
          · simp only [List.length_singleton]
            omega

/-- The bits of a difference are the coefficients of the sum. -/
theorem polynomial_zipWith {left right : List Bool} (h : left.length = right.length) :
    polynomial (List.zipWith xor left right) = polynomial left + polynomial right := by
  induction left generalizing right with
  | nil => cases right with
    | nil => exact (add_zero _).symm
    | cons => cases h
  | cons a left ih => cases right with
    | nil => cases h
    | cons b right =>
        have hLen : left.length = right.length := Nat.succ.inj h
        rw [List.zipWith_cons_cons, polynomial_cons, polynomial_cons, polynomial_cons, ih hLen,
          List.length_zipWith, hLen, Nat.min_self, coefficient_xor, C_add, add_mul,
          add_add_add_comm]

/-- The polynomial that a register holds. -/
noncomputable def register (v : BitVec w) : (ZMod 2)[X] := polynomial (msbFirst v)

@[simp] theorem coeff_register (v : BitVec w) (i : Nat) :
    (register v).coeff i = coefficient (v.getLsbD i) := by
  rw [register, coeff_polynomial, ← getLsbD_remainder 0#w (Nat.le_of_eq (length_msbFirst v)),
    remainder_msbFirst]

theorem register_xor (a b : BitVec w) : register (a ^^^ b) = register a + register b := by
  ext i
  rw [coeff_add, coeff_register, coeff_register, coeff_register, BitVec.getLsbD_xor,
    coefficient_xor]

theorem register_injective : Function.Injective (@register w) := by
  intro a b h
  apply BitVec.eq_of_getLsbD_eq
  intro i _
  have hCoeff : (register a).coeff i = (register b).coeff i := by rw [h]
  rw [coeff_register, coeff_register] at hCoeff
  revert hCoeff
  cases a.getLsbD i <;> cases b.getLsbD i <;> decide

theorem degree_register_lt (v : BitVec w) : (register v).degree < w := by
  rw [degree_lt_iff_coeff_zero]
  intro i hi
  rw [coeff_register, BitVec.getLsbD_of_ge v i hi, coefficient_false]

theorem register_shiftLeft (v : BitVec w) :
    register v * X = register (v <<< 1) + C (coefficient v.msb) * X ^ w := by
  ext i
  rw [coeff_add, coeff_register, coeff_C_mul_X_pow]
  cases i with
  | zero =>
      rw [coeff_mul_X_zero]
      cases w with
      | zero => simp [BitVec.msb_eq_getLsbD_last]
      | succ w => simp
  | succ i =>
      rw [coeff_mul_X, coeff_register, BitVec.getLsbD_shiftLeft, BitVec.msb_eq_getLsbD_last]
      by_cases hEq : i + 1 = w
      · subst hEq
        simp
      · rw [if_neg hEq, add_zero]
        by_cases hLt : i + 1 < w
        · simp [hLt]
        · have hOut : w ≤ i := by omega
          simp [hLt, BitVec.getLsbD_of_ge v i hOut]

section Division

variable (poly : BitVec w)

/-- The divisor, with the highest power that the register leaves out. -/
noncomputable def modulus : (ZMod 2)[X] := X ^ w + register poly

theorem modulus_monic : (modulus poly).Monic := monic_X_pow_add (degree_register_lt poly)

/-- The modulus has the width of the register as its degree, so a register is always a remainder. -/
theorem degree_modulus : (modulus poly).degree = w := by
  rw [modulus, degree_add_eq_left_of_degree_lt, degree_X_pow]
  rw [degree_X_pow]
  exact degree_register_lt poly

/-- Reducing early changes nothing, which lets the register be reduced after every bit. -/
theorem modByMonic_mul (p q : (ZMod 2)[X]) :
    (p %ₘ modulus poly * q) %ₘ modulus poly = (p * q) %ₘ modulus poly := by
  apply modByMonic_eq_of_dvd_sub (modulus_monic poly)
  rw [← sub_mul]
  exact (dvd_modByMonic_sub p (modulus poly)).mul_right q

/-- A register is reduced. -/
theorem register_modByMonic (v : BitVec w) : register v %ₘ modulus poly = register v := by
  rw [modByMonic_eq_self_iff (modulus_monic poly), degree_modulus]
  exact degree_register_lt v

/-- One shift with its conditional subtraction multiplies by X and reduces. This is the step of
every such register. -/
theorem register_timesX (v : BitVec w) :
    register (timesX poly v) = (register v * X) %ₘ modulus poly := by
  rw [register_shiftLeft, timesX]
  cases v.msb with
  | false =>
      rw [if_neg Bool.false_ne_true, coefficient_false, C_0, zero_mul, add_zero,
        register_modByMonic]
  | true =>
      have hTop : (X : (ZMod 2)[X]) ^ w = modulus poly + register poly := by
        rw [modulus, add_assoc, CharTwo.add_self_eq_zero, add_zero]
      have hOne : coefficient true = 1 := rfl
      rw [if_pos rfl, hOne, C_1, one_mul, hTop, register_xor, add_modByMonic, add_modByMonic,
        modByMonic_self (modulus_monic poly), zero_add, register_modByMonic, register_modByMonic]

/-- Steps without input multiply by a power of the indeterminate, modulo the polynomial of the
code. -/
theorem register_iterate (n : Nat) (v : BitVec w) :
    register ((timesX poly)^[n] v) = (register v * X ^ n) %ₘ modulus poly := by
  induction n with
  | zero => rw [pow_zero, mul_one, register_modByMonic]; rfl
  | succ n ih =>
      rw [Function.iterate_succ_apply', register_timesX, ih, modByMonic_mul, pow_succ, mul_assoc]

theorem register_constant (b : Bool) :
    register (constant w b) = C (coefficient b) %ₘ modulus poly := by
  cases w with
  | zero =>
      have hZero {p : (ZMod 2)[X]} (h : p.degree < (0 : Nat)) : p = 0 :=
        degree_eq_bot.mp (Nat.WithBot.lt_zero_iff.mp h)
      have hDegree := degree_modByMonic_lt (C (coefficient b)) (modulus_monic poly)
      rw [degree_modulus] at hDegree
      rw [hZero hDegree, hZero (degree_register_lt _)]
  | succ w =>
      rw [(modByMonic_eq_self_iff (modulus_monic poly)).mpr]
      · ext i
        rw [coeff_register, coeff_C]
        cases b <;> cases i <;> simp [constant, coefficient]
      · rw [degree_modulus]
        exact lt_of_le_of_lt degree_C_le (by exact_mod_cast Nat.succ_pos w)

/-- The remainder of a bit string is the remainder of its polynomial. -/
theorem register_remainder (bits : List Bool) :
    register (remainder poly bits) = polynomial bits %ₘ modulus poly := by
  induction bits with
  | nil =>
      rw [remainder_nil, polynomial_nil, zero_modByMonic]
      ext i
      simp
  | cons b bits ih =>
      rw [remainder_cons, register_xor, register_iterate, register_constant poly, modByMonic_mul,
        ih, ← add_modByMonic, polynomial_cons]

end Division

end Cyclic

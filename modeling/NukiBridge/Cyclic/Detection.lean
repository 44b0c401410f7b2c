import Mathlib.Algebra.BigOperators.Intervals
import Mathlib.Algebra.Field.ZMod
import NukiBridge.Cyclic.Remainder

/-! Differences that are no multiples of a polynomial. What the polynomial must
satisfy is checked once: a constant term, a factor x + 1, and an order of x beyond the
length of the bit strings. -/
namespace Cyclic

variable {w : Nat}

/-- How many bits are set, modulo two: the value at x = 1. -/
def parity (v : BitVec w) : ZMod 2 := ∑ i ∈ Finset.range w, ((v.getLsbD i).toNat : ZMod 2)

theorem toNat_xor (a b : Bool) :
    ((xor a b).toNat : ZMod 2) = (a.toNat : ZMod 2) + (b.toNat : ZMod 2) := by
  cases a <;> cases b <;> rfl

@[simp] theorem parity_zero : parity 0#w = 0 := by simp [parity]

theorem parity_xor (a b : BitVec w) : parity (a ^^^ b) = parity a + parity b := by
  rw [parity, parity, parity, ← Finset.sum_add_distrib]
  apply Finset.sum_congr rfl
  intro i _
  rw [BitVec.getLsbD_xor, toNat_xor]

theorem getLsbD_shiftLeft_succ (v : BitVec w) {i : Nat} (h : i + 1 < w) :
    (v <<< 1).getLsbD (i + 1) = v.getLsbD i := by
  have hHigh : decide (i + 1 < 1) = false := decide_eq_false (by omega)
  rw [BitVec.getLsbD_shiftLeft, decide_eq_true h, hHigh, Nat.add_sub_cancel]
  rfl

/-- A shift loses the highest bit. -/
theorem parity_shiftLeft (v : BitVec w) : parity (v <<< 1) + (v.msb.toNat : ZMod 2) = parity v := by
  cases w with
  | zero => rw [BitVec.eq_nil v]; rfl
  | succ n =>
      have hLow : ((v <<< 1).getLsbD 0).toNat = 0 := by simp
      have hShift (i : Nat) (hi : i ∈ Finset.range n) :
          (((v <<< 1).getLsbD (i + 1)).toNat : ZMod 2) = ((v.getLsbD i).toNat : ZMod 2) := by
        rw [getLsbD_shiftLeft_succ v (Nat.succ_lt_succ (Finset.mem_range.mp hi))]
      rw [parity, parity, Finset.sum_range_succ', Finset.sum_congr rfl hShift, hLow,
        Finset.sum_range_succ, BitVec.msb_eq_getLsbD_last]
      simp

theorem parity_constant (h : 0 < w) (b : Bool) : parity (constant w b) = (b.toNat : ZMod 2) := by
  obtain ⟨n, rfl⟩ := Nat.exists_eq_succ_of_ne_zero h.ne'
  cases b with
  | false => exact parity_zero
  | true =>
      rw [parity, Finset.sum_range_succ']
      simp [constant]

/-- What the generator polynomial must satisfy to tell apart bit strings of up to `n`
bits: it has a constant term, x + 1 divides it, and the first `n` powers of x have
different remainders. -/
structure Generates (poly : BitVec w) (n : Nat) : Prop where
  width : 0 < w
  low : poly.getLsbD 0 = true
  odd : parity poly = 1
  order : ∀ k, 0 < k → k < n → (timesX poly)^[k] 1#w ≠ 1#w

section Order

variable (poly : BitVec w)

/-- One of the first `n` of these products is one. -/
def returns : Nat → BitVec w → Bool
  | 0, _ => false
  | n + 1, v => v == 1#w || returns n (timesX poly v)

/-- Up to the computed order no step returns to one. Two flipped bits at a smaller distance
therefore never cancel. -/
theorem iterate_ne_one {n k : Nat} {v : BitVec w} (h : returns poly n v = false) (hk : k < n) :
    (timesX poly)^[k] v ≠ 1#w := by
  induction n generalizing k v with
  | zero => exact absurd hk (Nat.not_lt_zero k)
  | succ n ih =>
      rw [returns, Bool.or_eq_false_iff, beq_eq_false_iff_ne] at h
      cases k with
      | zero => exact h.1
      | succ k =>
          rw [Function.iterate_succ_apply]
          exact ih h.2 (Nat.succ_lt_succ_iff.mp hk)

end Order

theorem eq_replicate_of_not_mem {bits : List Bool} (h : true ∉ bits) :
    bits = List.replicate bits.length false := by
  apply List.eq_replicate_of_mem
  intro b hb
  cases b with
  | false => rfl
  | true => exact absurd hb h

/-- The first of several bits that are set. -/
theorem exists_of_count {bits : List Bool} {n : Nat} (h : bits.count true = n + 1) :
    ∃ i rest, bits = List.replicate i false ++ true :: rest ∧ rest.count true = n := by
  induction bits with
  | nil => cases h
  | cons b bits ih => cases b with
    | true =>
        rw [List.count_cons_self] at h
        exact ⟨0, bits, rfl, Nat.succ.inj h⟩
    | false =>
        rw [List.count_cons_of_ne (by decide)] at h
        obtain ⟨i, rest, rfl, hRest⟩ := ih h
        exact ⟨i + 1, rest, rfl, hRest⟩

/-- Where all bits that are set lie in a window, the others are clear. -/
theorem window_eq {bits : List Bool} {start len : Nat}
    (inside : ∀ i, bits[i]? = some true → start ≤ i ∧ i < start + len) :
    ∃ before after, bits = List.replicate before false ++
      ((bits.drop start).take len ++ List.replicate after false) := by
  have hBefore : true ∉ bits.take start := by
    intro hMem
    obtain ⟨i, hi⟩ := List.mem_iff_getElem?.mp hMem
    rw [List.getElem?_take] at hi
    split at hi
    · rename_i hLt
      exact absurd (inside i hi).1 (Nat.not_le.mpr hLt)
    · cases hi
  have hAfter : true ∉ (bits.drop start).drop len := by
    intro hMem
    obtain ⟨i, hi⟩ := List.mem_iff_getElem?.mp hMem
    rw [List.getElem?_drop, List.getElem?_drop] at hi
    have hInside := (inside _ hi).2
    omega
  refine ⟨(bits.take start).length, ((bits.drop start).drop len).length, ?_⟩
  rw [← eq_replicate_of_not_mem hBefore, ← eq_replicate_of_not_mem hAfter, List.take_append_drop,
    List.take_append_drop]

namespace Generates

variable {poly : BitVec w} {n : Nat} (h : Generates poly n) {bits : List Bool}

include h

/-- Multiplication by x is injective. -/
theorem timesX_ne {v : BitVec w} (hv : v ≠ 0#w) : timesX poly v ≠ 0#w := by
  intro hZero
  apply hv
  rw [timesX] at hZero
  split at hZero
  · have hLow := congrArg (fun u => u.getLsbD 0) hZero
    simp [h.low] at hLow
  · rename_i hMsb
    apply BitVec.eq_of_getLsbD_eq
    intro i hi
    by_cases hLast : i + 1 < w
    · rw [← getLsbD_shiftLeft_succ v hLast, hZero, BitVec.getLsbD_zero, BitVec.getLsbD_zero]
    · have hTop : i = w - 1 := by omega
      rw [hTop, ← BitVec.msb_eq_getLsbD_last, Bool.not_eq_true _ |>.mp hMsb]
      simp

/-- With a constant term in the modulus a step loses nothing: a register that is not zero never
becomes zero. -/
theorem iterate_ne (k : Nat) {v : BitVec w} (hv : v ≠ 0#w) : (timesX poly)^[k] v ≠ 0#w := by
  induction k generalizing v with
  | zero => exact hv
  | succ k ih => exact ih (h.timesX_ne hv)

/-- Multiplication by x keeps the parity, as x + 1 divides the generator. -/
theorem parity_timesX (v : BitVec w) : parity (timesX poly v) = parity v := by
  have hShift := parity_shiftLeft v
  rw [timesX]
  split
  · rename_i hMsb
    rw [hMsb] at hShift
    rw [parity_xor, h.odd, ← hShift]
    rfl
  · rename_i hMsb
    rw [Bool.not_eq_true _ |>.mp hMsb] at hShift
    rw [← hShift]
    exact (add_zero _).symm

/-- Where the modulus vanishes at x = 1, steps keep the parity of the register. This is what detects
an odd number of flipped bits. -/
theorem parity_iterate (k : Nat) (v : BitVec w) :
    parity ((timesX poly)^[k] v) = parity v := by
  induction k generalizing v with
  | zero => rfl
  | succ k ih => rw [Function.iterate_succ_apply, ih, h.parity_timesX]

/-- The parity of a remainder counts the bits of the message, modulo two. -/
theorem parity_remainder (bits : List Bool) :
    parity (remainder poly bits) = (bits.count true : ZMod 2) := by
  induction bits with
  | nil => exact parity_zero
  | cons b bits ih =>
      rw [remainder_cons, parity_xor, h.parity_iterate, parity_constant h.width, ih,
        List.count_cons]
      cases b <;> simp [add_comm]

/-- An odd number of flipped bits is no multiple of the generator and is therefore always
detected. -/
theorem remainder_ne_of_odd (odd : Odd (bits.count true)) : remainder poly bits ≠ 0#w := by
  intro hZero
  have hParity := h.parity_remainder bits
  rw [hZero, parity_zero, ZMod.natCast_eq_one_iff_odd.mpr odd] at hParity
  exact absurd hParity (by decide)

/-- Two bits that are less than `n` apart are no multiple. -/
theorem remainder_ne_of_two (two : bits.count true = 2) (short : bits.length ≤ n) :
    remainder poly bits ≠ 0#w := by
  obtain ⟨i, rest, rfl, hRest⟩ := exists_of_count two
  obtain ⟨m, tail, rfl, hTail⟩ := exists_of_count hRest
  have hClear : remainder poly tail = 0#w := by
    rw [eq_replicate_of_not_mem (List.count_eq_zero.mp hTail), remainder_replicate]
  have hLen : (List.replicate m false ++ true :: tail).length = tail.length + (m + 1) := by
    rw [List.length_append, List.length_replicate, List.length_cons]
    omega
  have hPowers : remainder poly
      (List.replicate i false ++ true :: (List.replicate m false ++ true :: tail)) =
        (timesX poly)^[tail.length] ((timesX poly)^[m + 1] 1#w ^^^ 1#w) := by
    rw [remainder_append, remainder_replicate, iterate_zero, BitVec.zero_xor, remainder_cons,
      remainder_append, remainder_replicate, iterate_zero, BitVec.zero_xor, remainder_cons, hClear,
      BitVec.xor_zero, hLen, Function.iterate_add_apply, iterate_xor]
    rfl
  have hOrder : m + 1 < n := by
    rw [List.length_append, List.length_cons, hLen] at short
    omega
  rw [hPowers]
  apply h.iterate_ne
  exact mt BitVec.xor_eq_zero_iff.mp (h.order (m + 1) (Nat.succ_pos m) hOrder)

/-- Bits inside a window that is no wider than the register are no multiple. -/
theorem remainder_ne_of_window {start len : Nat} (narrow : len ≤ w) (changed : true ∈ bits)
    (inside : ∀ i, bits[i]? = some true → start ≤ i ∧ i < start + len) :
    remainder poly bits ≠ 0#w := by
  obtain ⟨before, after, hBits⟩ := window_eq inside
  let window := (bits.drop start).take len
  have hMem : true ∈ window := by
    rw [hBits, List.mem_append, List.mem_append, List.mem_replicate, List.mem_replicate] at changed
    simpa using changed
  have hWidth : window.length ≤ w := (List.length_take_le _ _).trans narrow
  have hWindow : remainder poly window ≠ 0#w := by
    obtain ⟨i, hi⟩ := List.mem_iff_getElem?.mp (List.mem_reverse.mpr hMem)
    have hBit := getLsbD_remainder poly hWidth i
    rw [List.getD_eq_getElem?_getD, hi] at hBit
    intro hZero
    rw [hZero, BitVec.getLsbD_zero] at hBit
    cases hBit
  rw [hBits, remainder_append, remainder_replicate, iterate_zero, BitVec.zero_xor, remainder_append,
    remainder_replicate, BitVec.xor_zero]
  exact h.iterate_ne _ hWindow

end Generates

end Cyclic

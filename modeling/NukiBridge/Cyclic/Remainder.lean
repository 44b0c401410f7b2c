import Mathlib.Data.List.GetD
import Mathlib.Data.List.Induction
import Mathlib.Logic.Function.Iterate

/-! Bit strings as polynomials over two elements, highest coefficient first, and
their remainders modulo x^w + poly. A register of `w` bits holds a remainder, and
one shift of a checksum loop multiplies it by x. -/
namespace Cyclic

variable {w : Nat}

/-- A polynomial without powers of x. -/
def constant (w : Nat) (b : Bool) : BitVec w := if b then 1#w else 0#w

@[simp] theorem constant_false (w : Nat) : constant w false = 0#w := rfl

theorem constant_xor (a b : Bool) : constant w (xor a b) = constant w a ^^^ constant w b := by
  cases a <;> cases b <;> simp [constant]

section Remainder

variable (poly : BitVec w)

/-- The product with x. -/
def timesX (v : BitVec w) : BitVec w := if v.msb then (v <<< 1) ^^^ poly else v <<< 1

@[simp] theorem timesX_zero : timesX poly 0#w = 0#w := by simp [timesX]

/-- A step is linear. Everything else about the register follows from this and from what it does to
a single bit. -/
theorem timesX_xor (a b : BitVec w) : timesX poly (a ^^^ b) = timesX poly a ^^^ timesX poly b := by
  have cancel (x y : BitVec w) : x ^^^ y = (x ^^^ poly) ^^^ (y ^^^ poly) := by
    rw [BitVec.xor_assoc, BitVec.xor_comm y, ← BitVec.xor_assoc poly, BitVec.xor_self,
      BitVec.zero_xor]
  rw [timesX, timesX, timesX, BitVec.msb_xor, BitVec.shiftLeft_xor_distrib]
  cases a.msb <;> cases b.msb
  · rfl
  · exact BitVec.xor_assoc _ _ _
  · change (a <<< 1 ^^^ b <<< 1) ^^^ poly = (a <<< 1 ^^^ poly) ^^^ b <<< 1
    rw [BitVec.xor_assoc, BitVec.xor_comm (b <<< 1), ← BitVec.xor_assoc]
  · exact cancel _ _

/-- Multiplication by a power of x is linear. -/
theorem iterate_xor (n : Nat) (a b : BitVec w) :
    (timesX poly)^[n] (a ^^^ b) = (timesX poly)^[n] a ^^^ (timesX poly)^[n] b := by
  induction n generalizing a b with
  | zero => rfl
  | succ n ih =>
      rw [Function.iterate_succ_apply, Function.iterate_succ_apply, Function.iterate_succ_apply,
        timesX_xor, ih]

@[simp] theorem iterate_zero (n : Nat) : (timesX poly)^[n] 0#w = 0#w :=
  Function.iterate_fixed (timesX_zero poly) n

/-- The remainder of a bit string. -/
def remainder (bits : List Bool) : BitVec w :=
  bits.foldl (fun v b => timesX poly v ^^^ constant w b) 0#w

@[simp] theorem remainder_nil : remainder poly [] = 0#w := rfl

/-- A register that already holds a remainder is shifted by the bits that follow. -/
theorem foldl_eq (bits : List Bool) (v : BitVec w) :
    bits.foldl (fun v b => timesX poly v ^^^ constant w b) v =
      (timesX poly)^[bits.length] v ^^^ remainder poly bits := by
  induction bits generalizing v with
  | nil => rw [List.length_nil, remainder_nil, BitVec.xor_zero]; rfl
  | cons b bits ih =>
      rw [remainder, List.foldl_cons, List.foldl_cons, ih, ih, timesX_zero, BitVec.zero_xor,
        iterate_xor, List.length_cons, Function.iterate_succ_apply, BitVec.xor_assoc]

/-- Messages in sequence: the remainder of the first part is shifted along by the length of the
second. -/
theorem remainder_append (left right : List Bool) :
    remainder poly (left ++ right) =
      (timesX poly)^[right.length] (remainder poly left) ^^^ remainder poly right := by
  rw [remainder, List.foldl_append, foldl_eq]
  rfl

theorem remainder_cons (b : Bool) (bits : List Bool) :
    remainder poly (b :: bits) =
      (timesX poly)^[bits.length] (constant w b) ^^^ remainder poly bits := by
  rw [remainder, List.foldl_cons, foldl_eq, timesX_zero, BitVec.zero_xor]

/-- The remainder of a difference. -/
theorem remainder_zipWith {left right : List Bool} (h : left.length = right.length) :
    remainder poly (List.zipWith xor left right) =
      remainder poly left ^^^ remainder poly right := by
  induction left generalizing right with
  | nil => cases right with
    | nil => exact (BitVec.xor_zero).symm
    | cons => cases h
  | cons a left ih => cases right with
    | nil => cases h
    | cons b right =>
        have hLen : left.length = right.length := Nat.succ.inj h
        have hZip : (List.zipWith xor left right).length = right.length := by
          rw [List.length_zipWith, hLen, Nat.min_self]
        rw [List.zipWith_cons_cons, remainder_cons, remainder_cons, remainder_cons, ih hLen, hZip,
          hLen, constant_xor, iterate_xor]
        ac_rfl

@[simp] theorem remainder_replicate (n : Nat) :
    remainder poly (List.replicate n false) = 0#w := by
  induction n with
  | zero => rfl
  | succ n ih => rw [List.replicate_succ, remainder_cons, ih, constant_false, iterate_zero,
      BitVec.xor_zero]

/-- A bit string that fits the register is its own remainder. -/
theorem getLsbD_remainder {bits : List Bool} (h : bits.length ≤ w) (i : Nat) :
    (remainder poly bits).getLsbD i = bits.reverse.getD i false := by
  induction bits using List.reverseRecOn generalizing i with
  | nil => simp
  | append_singleton bits b ih =>
      rw [List.length_append, List.length_singleton] at h
      have hMsb : (remainder poly bits).msb = false := by
        rw [BitVec.msb_eq_getLsbD_last, ih (by omega), List.getD_eq_default]
        rw [List.length_reverse]
        omega
      have hShift : timesX poly (remainder poly bits) = remainder poly bits <<< 1 := by
        rw [timesX, hMsb]
        rfl
      rw [remainder_append, List.length_singleton, Function.iterate_one, hShift, remainder_cons,
        remainder_nil, BitVec.xor_zero, List.length_nil, Function.iterate_zero_apply,
        BitVec.getLsbD_xor, List.reverse_append, List.reverse_singleton]
      cases i with
      | zero =>
          have hWidth : 0 < w := by omega
          cases b <;> simp [constant, hWidth]
      | succ i =>
          have hConstant : (constant w b).getLsbD (i + 1) = false := by
            cases b <;> simp [constant]
          rw [hConstant, Bool.xor_false, BitVec.getLsbD_shiftLeft, Nat.add_sub_cancel,
            ih (by omega)]
          by_cases hi : i + 1 < w
          · simp [hi]
          · rw [List.singleton_append, List.getD_cons_succ, List.getD_eq_default _ _
              (by rw [List.length_reverse]; omega), Bool.and_false]

end Remainder

/-- The bits of a register, highest first. -/
def msbFirst (v : BitVec w) : List Bool := (List.range w).map v.getMsbD

@[simp] theorem length_msbFirst (v : BitVec w) : (msbFirst v).length = w := by simp [msbFirst]

theorem msbFirst_xor (a b : BitVec w) :
    msbFirst (a ^^^ b) = List.zipWith xor (msbFirst a) (msbFirst b) := by
  rw [msbFirst, msbFirst, msbFirst, List.zipWith_map, List.zipWith_self]
  apply List.map_congr_left
  intro i _
  exact BitVec.getMsbD_xor

theorem msbFirst_append {n : Nat} (x : BitVec w) (y : BitVec n) :
    msbFirst (x ++ y) = msbFirst x ++ msbFirst y := by
  rw [msbFirst, List.range_add, List.map_append, List.map_map]
  congr 1
  · apply List.map_congr_left
    intro i hi
    have hHigh : ¬w ≤ i := Nat.not_le.mpr (List.mem_range.mp hi)
    simp [hHigh]
  · apply List.map_congr_left
    intro i _
    simp

/-- The register is the remainder of its bits. -/
theorem remainder_msbFirst (poly v : BitVec w) : remainder poly (msbFirst v) = v := by
  apply BitVec.eq_of_getLsbD_eq
  intro i hi
  have hLt : i < (msbFirst v).length := by rwa [length_msbFirst]
  rw [getLsbD_remainder poly (Nat.le_of_eq (length_msbFirst v)), List.getD_eq_getElem?_getD,
    List.getElem?_reverse hLt, length_msbFirst, msbFirst, List.getElem?_map,
    List.getElem?_range (by omega), Option.map_some, Option.getD_some, BitVec.getMsbD_eq_getLsbD]
  have hBack : w - 1 - (w - 1 - i) = i := by omega
  rw [hBack, decide_eq_true (by omega), Bool.true_and]

end Cyclic

import Mathlib.Algebra.Group.Nat.Defs
import Mathlib.Data.List.Range

/-! Arithmetic on 32-bit words that fails where a result does not fit, and the
rule by which a loop over it is the same loop over plain words. -/
namespace Arithmetic

/-- A sum that must not wrap. -/
def addChecked (x y : UInt32) : Option UInt32 :=
  if x.toNat + y.toNat < 2 ^ 32 then some (x + y) else none

/-- A product that must not wrap. -/
def mulChecked (x y : UInt32) : Option UInt32 :=
  if x.toNat * y.toNat < 2 ^ 32 then some (x * y) else none

theorem addChecked_eq {x y : UInt32} (h : x.toNat + y.toNat < 2 ^ 32) :
    addChecked x y = some (x + y) := if_pos h

theorem mulChecked_eq {x y : UInt32} (h : x.toNat * y.toNat < 2 ^ 32) :
    mulChecked x y = some (x * y) := if_pos h

theorem toNat_add {x y : UInt32} (h : x.toNat + y.toNat < 2 ^ 32) :
    (x + y).toNat = x.toNat + y.toNat := by
  rw [UInt32.toNat_add, Nat.mod_eq_of_lt h]

theorem toNat_mul {x y : UInt32} (h : x.toNat * y.toNat < 2 ^ 32) :
    (x * y).toNat = x.toNat * y.toNat := by
  rw [UInt32.toNat_mul, Nat.mod_eq_of_lt h]

/-- If every pass succeeds with the plain pass's result as long as an invariant
holds, so does the loop, and the invariant holds after it. -/
theorem foldlM_exact {State : Type} {checked : State → Nat → Option State}
    {plain : State → Nat → State} (Inv : Nat → State → Prop) {start : State}
    (hStart : Inv 0 start) : ∀ passes : Nat,
    (∀ i < passes, ∀ state, Inv i state →
      checked state i = some (plain state i) ∧ Inv (i + 1) (plain state i)) →
    (List.range passes).foldlM checked start = some ((List.range passes).foldl plain start) ∧
      Inv passes ((List.range passes).foldl plain start) := by
  intro passes
  induction passes with
  | zero => exact fun _ => ⟨rfl, hStart⟩
  | succ passes ih =>
      intro hPass
      obtain ⟨hLoop, hInv⟩ := ih fun i hi => hPass i (Nat.lt_succ_of_lt hi)
      obtain ⟨hChecked, hNext⟩ := hPass passes (Nat.lt_succ_self _) _ hInv
      rw [List.range_succ, List.foldlM_append, List.foldl_append, hLoop]
      constructor
      · change (checked _ passes).bind pure = _
        rw [hChecked]
        rfl
      · exact hNext

end Arithmetic

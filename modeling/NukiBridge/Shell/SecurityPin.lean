import NukiBridge.CLibrary.Strtoul

/-! The argument of `nuki calibrate`: which strings are taken for a PIN, and for which. -/
namespace NukiBridge

open CLibrary

/-- The PIN that an argument is taken for. -/
def securityPin (arg : List UInt8) : Option UInt16 :=
  let (pin, endptr) := strtoul arg
  if endptr ≠ [] ∨ pin > 0xFFFF then none else some pin.toUInt16

theorem toNat_ulongOf {negative : Bool} {value : Nat} (h : value < 2 ^ 32) :
    (ulongOf negative value).toNat = if negative then (2 ^ 32 - value) % 2 ^ 32 else value := by
  rw [ulongOf, if_neg (Nat.not_le.mpr h)]
  have hNat : (UInt32.ofNat value).toNat = value := UInt32.toNat_ofNat_of_lt h
  cases negative with
  | false => exact hNat
  | true =>
      have hNeg := UInt32.toNat_neg (UInt32.ofNat value)
      rw [hNat] at hNeg
      exact hNeg

theorem securityPin_eq {arg rest : List UInt8} {pin : UInt32} (h : strtoul arg = (pin, rest)) :
    securityPin arg = if rest = [] ∧ pin.toNat < 2 ^ 16 then some (.ofNat pin.toNat) else none := by
  have hLarge : pin > 0xFFFF ↔ ¬pin.toNat < 2 ^ 16 := by
    rw [gt_iff_lt, UInt32.lt_iff_toNat_lt]
    change 65535 < pin.toNat ↔ _
    omega
  rw [securityPin, h]
  dsimp only
  by_cases hPin : rest = [] ∧ pin.toNat < 2 ^ 16
  · have hGood : ¬(rest ≠ [] ∨ pin > 0xFFFF) := by
      rw [hLarge]
      exact not_or.mpr ⟨not_not.mpr hPin.1, not_not.mpr hPin.2⟩
    rw [if_pos hPin, if_neg hGood, UInt32.toUInt16]
  · rw [if_neg hPin, if_pos]
    rw [hLarge]
    exact not_and_or.mp hPin

/-- A number is taken for a PIN if it fits; a minus counts down from 2^32. -/
theorem securityPin_text_iff (n : Numeral) (pin : UInt16) : securityPin n.text = some pin ↔
    n.value = if n.negative then (2 ^ 32 - pin.toNat) % 2 ^ 32 else pin.toNat := by
  have hPin := pin.toNat_lt
  have hRead : strtoul (n.text ++ []) = _ := strtoul_text n nofun
  rw [List.append_nil] at hRead
  rw [securityPin_eq hRead]
  by_cases hRange : n.value < 2 ^ 32
  · rw [toNat_ulongOf hRange]
    generalize hNat : (if n.negative then (2 ^ 32 - n.value) % 2 ^ 32 else n.value) = value
    have hSame : value = pin.toNat ↔
        n.value = if n.negative then (2 ^ 32 - pin.toNat) % 2 ^ 32 else pin.toNat := by
      subst hNat
      cases n.negative with
      | false => rfl
      | true =>
          simp only [if_true]
          omega
    rw [← hSame]
    constructor
    · intro hSome
      split at hSome
      · rename_i hFits
        rw [← Option.some.inj hSome, UInt16.toNat_ofNat', Nat.mod_eq_of_lt hFits.2]
      · cases hSome
    · rintro rfl
      rw [if_pos ⟨rfl, hPin⟩, UInt16.ofNat_toNat]
  · -- what is too large for `unsigned long` is too large for a PIN
    have hMax : ulongOf n.negative n.value = ulongMax := if_pos (Nat.not_lt.mp hRange)
    rw [hMax, if_neg (by decide)]
    refine iff_of_false nofun fun hValue => hRange ?_
    rw [hValue]
    split
    · exact Nat.mod_lt _ (by decide)
    · omega

/-- A number written out in any number of digits is read as this number if it is below 65536, and
refused otherwise. -/
theorem securityPin_decimal {width n : Nat} (hWidth : 0 < width) (h : n < 10 ^ width) :
    securityPin (decimal width n) = if n < 2 ^ 16 then some (.ofNat n) else none := by
  have hValue : (Numeral.decimal width n hWidth).value = n :=
    (digitsValue_decimal width n).trans (Nat.mod_eq_of_lt h)
  have hPin (pin : UInt16) : securityPin (decimal width n) = some pin ↔ n = pin.toNat := by
    have hText := securityPin_text_iff (.decimal width n hWidth) pin
    rw [hValue] at hText
    exact hText
  by_cases hSmall : n < 2 ^ 16
  · rw [if_pos hSmall, hPin, UInt16.toNat_ofNat', Nat.mod_eq_of_lt hSmall]
  · rw [if_neg hSmall, Option.eq_none_iff_forall_ne_some]
    intro pin hSome
    exact hSmall ((hPin pin).mp hSome ▸ pin.toNat_lt)

/-- Which arguments `nuki calibrate` takes for a PIN, and for which: a number that reaches to
the end of the argument and fits into a PIN, where a minus counts down from 2^32, and also
an argument that is empty. Every digit counts, whatever their number. -/
theorem securityPin_exact :
    (∀ arg pin, securityPin arg = some pin ↔ arg = [] ∧ pin = 0 ∨
      ∃ n : Numeral, arg = n.text ∧
        n.value = if n.negative then (2 ^ 32 - pin.toNat) % 2 ^ 32 else pin.toNat) ∧
    ∀ width n, 0 < width → n < 10 ^ width →
      securityPin (decimal width n) = if n < 2 ^ 16 then some (.ofNat n) else none := by
  refine ⟨fun arg pin => ⟨fun hSome => ?_, ?_⟩, fun width n => securityPin_decimal⟩
  · rcases strtoul_cases arg with ⟨n, rest, rfl, hStops⟩ | hNothing
    · have hEnd : rest = [] := by
        by_contra hMore
        rw [securityPin_eq (strtoul_text n hStops), if_neg fun h => hMore h.1] at hSome
        cases hSome
      subst hEnd
      rw [List.append_nil] at hSome ⊢
      exact Or.inr ⟨n, rfl, (securityPin_text_iff n pin).mp hSome⟩
    · have hEmpty : arg = [] := by
        by_contra hMore
        rw [securityPin_eq hNothing, if_neg fun h => hMore h.1] at hSome
        cases hSome
      subst hEmpty
      exact Or.inl ⟨rfl, (Option.some.inj hSome).symm⟩
  · rintro (⟨rfl, rfl⟩ | ⟨n, rfl, hValue⟩)
    · rfl
    · exact (securityPin_text_iff n pin).mpr hValue

end NukiBridge

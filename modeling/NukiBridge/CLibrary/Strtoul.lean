import Mathlib.Algebra.Group.Nat.Defs
import Mathlib.Data.List.TakeWhile

/-! `strtoul` of the C library in base ten, where `unsigned long` has 32 bits. A string is
given by its bytes before the terminator. -/
namespace CLibrary

def isSpace (c : UInt8) : Bool := c = 0x20 ∨ 0x09 ≤ c ∧ c ≤ 0x0d

def isDigit (c : UInt8) : Bool := 0x30 ≤ c ∧ c ≤ 0x39

def minus : UInt8 := 0x2d

def plus : UInt8 := 0x2b

def ulongMax : UInt32 := 0xFFFFFFFF

/-- The number that digits are read as, before it is cut to a type. -/
def digitsValue (digits : List UInt8) : Nat :=
  digits.foldl (fun value c => 10 * value + (c.toNat - 0x30)) 0

/-- A sign and what comes after it. -/
def readSign : List UInt8 → Bool × List UInt8
  | [] => (false, [])
  | c :: rest => if c = minus then (true, rest) else if c = plus then (false, rest) else (false, c :: rest)

/-- The value in `unsigned long`: a minus negates it there, and what is too large for it is
its largest value. -/
def ulongOf (negative : Bool) (value : Nat) : UInt32 :=
  if 2 ^ 32 ≤ value then ulongMax
  else if negative then -(UInt32.ofNat value) else UInt32.ofNat value

/-- The value, and what `endptr` points to: the whole string where there are no digits. -/
def strtoul (nptr : List UInt8) : UInt32 × List UInt8 :=
  let (negative, s) := readSign (nptr.dropWhile isSpace)
  if s.takeWhile isDigit = [] then (0, nptr)
  else (ulongOf negative (digitsValue (s.takeWhile isDigit)), s.dropWhile isDigit)

/-- A number as `strtoul` reads it. -/
structure Numeral where
  spaces : List UInt8
  sign : List UInt8
  digits : List UInt8
  blank : ∀ c ∈ spaces, isSpace c = true
  signed : sign = [] ∨ sign = [plus] ∨ sign = [minus]
  nonempty : digits ≠ []
  numeric : ∀ c ∈ digits, isDigit c = true

namespace Numeral

def text (n : Numeral) : List UInt8 := n.spaces ++ (n.sign ++ n.digits)

def negative (n : Numeral) : Bool := n.sign = [minus]

def value (n : Numeral) : Nat := digitsValue n.digits

end Numeral

theorem isSpace_of_isDigit {c : UInt8} (h : isDigit c = true) : isSpace c = false := by
  simp only [isDigit, isSpace, decide_eq_true_eq, decide_eq_false_iff_not, not_or, not_and,
    UInt8.le_iff_toNat_le, ← UInt8.toNat_inj] at h ⊢
  change _ ∧ c.toNat ≤ 57 at h
  change 48 ≤ _ ∧ _ at h
  change ¬c.toNat = 32 ∧ (9 ≤ c.toNat → ¬c.toNat ≤ 13)
  omega

/-- The run of digits ends where the text goes on with another character, or ends. -/
theorem takeWhile_append_of_all {α : Type} {p : α → Bool} {l rest : List α}
    (all : ∀ x ∈ l, p x = true) (stops : ∀ x, rest.head? = some x → p x = false) :
    (l ++ rest).takeWhile p = l ∧ (l ++ rest).dropWhile p = rest := by
  have hRest : rest.takeWhile p = [] ∧ rest.dropWhile p = rest := by
    cases rest with
    | nil => exact ⟨rfl, rfl⟩
    | cons x rest => simp [stops x rfl]
  rw [List.takeWhile_append_of_pos all, List.dropWhile_append_of_pos all, hRest.1, hRest.2,
    List.append_nil]
  exact ⟨rfl, rfl⟩

theorem readSign_of_isDigit {c : UInt8} (rest : List UInt8) (h : isDigit c = true) :
    readSign (c :: rest) = (false, c :: rest) := by
  have hMinus : c ≠ minus := by
    rintro rfl
    cases h
  have hPlus : c ≠ plus := by
    rintro rfl
    cases h
  simp [readSign, hMinus, hPlus]

/-- A sign is no space, and reading it leaves the digits. -/
theorem Numeral.readSign_text (n : Numeral) (rest : List UInt8) :
    readSign ((n.text ++ rest).dropWhile isSpace) = (n.negative, n.digits ++ rest) := by
  obtain ⟨spaces, sign, digits, hBlank, hSigned, hNonempty, hNumeric⟩ := n
  obtain ⟨c, digits, rfl⟩ := List.exists_cons_of_ne_nil hNonempty
  have hDigit : isDigit c = true := hNumeric c List.mem_cons_self
  have hDrop : ((spaces ++ (sign ++ c :: digits)) ++ rest).dropWhile isSpace =
      sign ++ c :: digits ++ rest := by
    rw [List.append_assoc]
    refine (takeWhile_append_of_all hBlank ?_).2
    intro x hx
    rcases hSigned with rfl | rfl | rfl
    · cases hx
      exact isSpace_of_isDigit hDigit
    · cases hx
      rfl
    · cases hx
      rfl
  rw [text, hDrop]
  rcases hSigned with rfl | rfl | rfl
  · exact readSign_of_isDigit (digits ++ rest) hDigit
  · rfl
  · rfl

/-- A number is read as far as its digits go. -/
theorem strtoul_text (n : Numeral) {rest : List UInt8}
    (stops : ∀ c, rest.head? = some c → isDigit c = false) :
    strtoul (n.text ++ rest) = (ulongOf n.negative n.value, rest) := by
  obtain ⟨hTake, hDrop⟩ := takeWhile_append_of_all n.numeric stops
  rw [strtoul, n.readSign_text]
  dsimp only
  rw [hTake, hDrop, if_neg n.nonempty]
  rfl

/-- Reading a sign takes it off the front. -/
theorem readSign_eq (s : List UInt8) :
    ∃ sign, (sign = [] ∨ sign = [plus] ∨ sign = [minus]) ∧ s = sign ++ (readSign s).2 ∧
      (readSign s).1 = decide (sign = [minus]) := by
  cases s with
  | nil => exact ⟨[], Or.inl rfl, rfl, rfl⟩
  | cons c rest =>
      rw [readSign]
      by_cases hMinus : c = minus
      · subst hMinus
        exact ⟨[minus], Or.inr (Or.inr rfl), rfl, rfl⟩
      · rw [if_neg hMinus]
        by_cases hPlus : c = plus
        · subst hPlus
          exact ⟨[plus], Or.inr (Or.inl rfl), rfl, rfl⟩
        · rw [if_neg hPlus]
          exact ⟨[], Or.inl rfl, rfl, rfl⟩

/-- Every string is a number and what comes after it, or it is read as nothing. -/
theorem strtoul_cases (s : List UInt8) :
    (∃ n : Numeral, ∃ rest, s = n.text ++ rest ∧ (∀ c, rest.head? = some c → isDigit c = false)) ∨
      strtoul s = (0, s) := by
  obtain ⟨sign, hSigned, hSplit, hNegative⟩ := readSign_eq (s.dropWhile isSpace)
  generalize hRead : readSign (s.dropWhile isSpace) = read at hSplit hNegative
  obtain ⟨negative, body⟩ := read
  by_cases hNone : body.takeWhile isDigit = []
  · right
    rw [strtoul, hRead]
    exact if_pos hNone
  · left
    refine ⟨⟨s.takeWhile isSpace, sign, body.takeWhile isDigit, ?_, hSigned, hNone, ?_⟩,
      body.dropWhile isDigit, ?_, ?_⟩
    · exact fun c hc => List.mem_takeWhile_imp hc
    · exact fun c hc => List.mem_takeWhile_imp hc
    · have hBody : s.dropWhile isSpace = sign ++ body := hSplit
      simp only [Numeral.text, List.append_assoc, List.takeWhile_append_dropWhile]
      rw [← hBody, List.takeWhile_append_dropWhile]
    · intro c hc
      have hHead := List.head?_dropWhile_not isDigit body
      rw [hc] at hHead
      simpa using hHead

/-- So many decimal digits of a number. -/
def decimal : Nat → Nat → List UInt8
  | 0, _ => []
  | width + 1, n => decimal width (n / 10) ++ [UInt8.ofNat (0x30 + n % 10)]

theorem digitsValue_concat (digits : List UInt8) (c : UInt8) :
    digitsValue (digits ++ [c]) = 10 * digitsValue digits + (c.toNat - 0x30) := by
  simp [digitsValue]

theorem toNat_digit (n : Nat) : (UInt8.ofNat (0x30 + n % 10)).toNat = 0x30 + n % 10 := by
  rw [UInt8.toNat_ofNat']
  omega

/-- Writing a number with so many digits and reading it again gives the number, cut to these
digits. -/
theorem digitsValue_decimal (width n : Nat) : digitsValue (decimal width n) = n % 10 ^ width := by
  induction width generalizing n with
  | zero => simp [decimal, digitsValue, Nat.mod_one]
  | succ width ih =>
      rw [decimal, digitsValue_concat, ih, toNat_digit, Nat.pow_succ', Nat.mod_mul]
      omega

theorem isDigit_decimal (width n : Nat) : ∀ c ∈ decimal width n, isDigit c = true := by
  induction width generalizing n with
  | zero => exact fun c hc => absurd hc List.not_mem_nil
  | succ width ih =>
      intro c hc
      rcases List.mem_append.mp hc with hBefore | hLast
      · exact ih (n / 10) c hBefore
      · obtain rfl := List.mem_singleton.mp hLast
        have hLess := Nat.mod_lt n (by decide : 0 < 10)
        simp only [isDigit, decide_eq_true_eq, UInt8.le_iff_toNat_le, toNat_digit]
        change 48 ≤ 48 + n % 10 ∧ 48 + n % 10 ≤ 57
        omega

/-- A number written in decimal, with zeros in front. -/
def Numeral.decimal (width n : Nat) (h : 0 < width) : Numeral where
  spaces := []
  sign := []
  digits := CLibrary.decimal width n
  blank := nofun
  signed := Or.inl rfl
  nonempty := by
    obtain ⟨width, rfl⟩ := Nat.exists_eq_add_of_lt h
    simp [CLibrary.decimal]
  numeric := isDigit_decimal width n

end CLibrary

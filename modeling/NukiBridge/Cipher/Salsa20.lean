import Mathlib.Algebra.Group.Nat.Defs
import Mathlib.LinearAlgebra.Matrix.Defs
import Mathlib.Data.Fin.VecNotation
import Mathlib.Logic.Function.Iterate
import Mathlib.Data.List.GetD

/-! Salsa20 and HSalsa20 on a four by four matrix of words: rows and columns are
mixed in turn, each from its diagonal word on. Mixing the rows of the transposed
matrix twice is the same as one column round followed by one row round. -/
namespace Salsa20

abbrev Word := BitVec 32

abbrev State := Matrix (Fin 4) (Fin 4) Word

/-- The quarter-round on four words. -/
def quarterRound (y : Fin 4 → Word) : Fin 4 → Word :=
  let z1 := y 1 ^^^ (y 0 + y 3).rotateLeft 7
  let z2 := y 2 ^^^ (z1 + y 0).rotateLeft 9
  let z3 := y 3 ^^^ (z2 + z1).rotateLeft 13
  let z0 := y 0 ^^^ (z3 + z2).rotateLeft 18
  ![z0, z1, z2, z3]

/-- Every row mixed by one quarter-round that starts at its diagonal word. -/
def rowRound (y : State) : State := fun row column =>
  quarterRound (fun step => y row (row + step)) (column - row)

/-- Every column mixed likewise. -/
def columnRound (y : State) : State := (rowRound y.transpose).transpose

def doubleRound (y : State) : State := rowRound (columnRound y)

/-- A row round on the transposed matrix. -/
def transposedRound (y : State) : State := rowRound y.transpose

/-- Twice as many transposed rounds as double rounds, by taking them two at a time. -/
theorem transposedRound_iterate (n : Nat) :
    transposedRound^[2 * n] = doubleRound^[n] := by
  rw [Function.iterate_mul]
  congr 1

/-- Word `i` of a byte string, least significant byte first. -/
def word (bytes : List UInt8) (i : Nat) : Word :=
  BitVec.ofNat 32 ((bytes.getD (4 * i) 0).toNat + 2 ^ 8 * (bytes.getD (4 * i + 1) 0).toNat +
    2 ^ 16 * (bytes.getD (4 * i + 2) 0).toNat + 2 ^ 24 * (bytes.getD (4 * i + 3) 0).toNat)

/-- The four bytes of a word, least significant first. -/
def wordBytes (w : Word) : List UInt8 :=
  (List.range 4).map fun j => UInt8.ofNat (w.toNat / 2 ^ (8 * j))

/-- The matrix of a string of 64 bytes, row by row. -/
def load (bytes : List UInt8) : State := fun row column => word bytes (4 * row + column)

/-- The entry at a position counted row by row. -/
def State.entry (y : State) (i : Nat) : Word := y (Fin.ofNat 4 (i / 4)) (Fin.ofNat 4 i)

/-- The input of the core: the constant `c` on the diagonal, the key `k` and the
input `n` between. -/
def expand (c k n : List UInt8) : List UInt8 :=
  c.take 4 ++ k.take 16 ++ (c.drop 4).take 4 ++ n.take 16 ++ (c.drop 8).take 4 ++
    (k.drop 16).take 16 ++ (c.drop 12).take 4

/-- The matrix after the ten double rounds. -/
def rounds (c k n : List UInt8) : State := doubleRound^[10] (load (expand c k n))

/-- The Salsa20 block: rounds, then the initial matrix added word by word. -/
def block (c k n : List UInt8) : List UInt8 :=
  (List.range 16).flatMap fun i =>
    wordBytes ((rounds c k n).entry i + (load (expand c k n)).entry i)

/-- HSalsa20: the diagonal and the input words after the rounds, nothing added. -/
def hBlock (c k n : List UInt8) : List UInt8 :=
  [0, 5, 10, 15, 6, 7, 8, 9].flatMap fun i => wordBytes ((rounds c k n).entry i)

/-- The 64-bit block counter, least significant byte first. -/
def counter (blocks : Nat) : List UInt8 :=
  (List.range 8).map fun j => UInt8.ofNat (blocks / 2 ^ (8 * j))

/-- Byte `i` of the Salsa20 keystream for an eight byte nonce. -/
def streamByte (c k n : List UInt8) (i : Nat) : UInt8 :=
  (block c k (n ++ counter (i / 64))).getD (i % 64) 0

/-- Byte `i` of the XSalsa20 keystream: sixteen bytes of the nonce make the key of
the stream, the others are its nonce. -/
def extendedByte (c k n : List UInt8) (i : Nat) : UInt8 :=
  streamByte c (hBlock c k (n.take 16)) (n.drop 16) i

@[simp] theorem length_counter (blocks : Nat) : (counter blocks).length = 8 := by
  simp [counter]

/-- Words are counted on from where the bytes were cut. -/
theorem word_drop (bytes : List UInt8) (skipped i : Nat) :
    word (bytes.drop (4 * skipped)) i = word bytes (skipped + i) := by
  simp only [word, List.getD_eq_getElem?_getD, List.getElem?_drop, Nat.mul_add, Nat.add_assoc]

/-- A word that lies before the cut is unchanged by it. -/
theorem word_take {bytes : List UInt8} {len i : Nat} (h : 4 * i + 4 ≤ len) :
    word (bytes.take len) i = word bytes i := by
  have hAt : ∀ j < 4, (bytes.take len).getD (4 * i + j) 0 = bytes.getD (4 * i + j) 0 := by
    intro j hj
    rw [List.getD_eq_getElem?_getD, List.getElem?_take_of_lt (by omega),
      ← List.getD_eq_getElem?_getD]
  have hZero := hAt 0 (by omega)
  rw [Nat.add_zero] at hZero
  simp only [word, hZero, hAt 1 (by omega), hAt 2 (by omega), hAt 3 (by omega)]

/-- A word that lies in the first part is read there. -/
theorem word_append_left {first : List UInt8} (second : List UInt8) {i : Nat}
    (h : 4 * i + 4 ≤ first.length) : word (first ++ second) i = word first i := by
  rw [← word_take h, List.take_append_of_le_length (Nat.le_refl _), List.take_length]

/-- Behind a first part of whole words, the words are those of the second. -/
theorem word_append_right {first : List UInt8} (second : List UInt8) {words : Nat} (i : Nat)
    (h : first.length = 4 * words) : word (first ++ second) (words + i) = word second i := by
  rw [← word_drop, ← h, List.drop_append_of_le_length (Nat.le_refl _), List.drop_length,
    List.nil_append]

/-- Words of one string after another. -/
theorem word_append {first : List UInt8} (second : List UInt8) (i : Nat) (h : 4 ∣ first.length) :
    word (first ++ second) i =
      if i < first.length / 4 then word first i else word second (i - first.length / 4) := by
  obtain ⟨words, hWords⟩ := h
  rw [hWords, Nat.mul_div_cancel_left _ (by omega)]
  split
  · rename_i hLeft
    exact word_append_left second (by omega)
  · rename_i hRight
    rw [← word_append_right second _ hWords, Nat.add_sub_cancel' (by omega)]

/-- Where the words of the constant, the key and the input stand in the matrix. -/
theorem word_expand {c k n : List UInt8} (hConstant : c.length = 16) (hKey : k.length = 32)
    (hInput : 16 ≤ n.length) {i : Nat} (h : i < 4) :
    word (expand c k n) (5 * i) = word c i ∧ word (expand c k n) (1 + i) = word k i ∧
      word (expand c k n) (6 + i) = word n i ∧ word (expand c k n) (11 + i) = word k (4 + i) := by
  have h1 : (c.take 4).length = 4 := by simp [hConstant]
  have h2 : (k.take 16).length = 16 := by simp [hKey]
  have h3 : ((c.drop 4).take 4).length = 4 := by simp [hConstant]
  have h4 : (n.take 16).length = 16 := by simp [hInput]
  have h5 : ((c.drop 8).take 4).length = 4 := by simp [hConstant]
  have h6 : ((k.drop 16).take 16).length = 16 := by simp [hKey]
  have second := word_drop c 1
  have third := word_drop c 2
  have fourth := word_drop c 3
  have upper := word_drop k 4
  simp only [expand, List.append_assoc]
  rcases (by omega : i = 0 ∨ i = 1 ∨ i = 2 ∨ i = 3) with rfl | rfl | rfl | rfl <;>
  · simp (disch := simp [h1, h2, h3, h4, h5, h6]) only [word_append, h1, h2, h3, h4, h5, h6]
    simp [word_take, second, third, fourth, upper]

end Salsa20

import NukiBridge.Cipher.Salsa20
import NukiBridge.Crypto.Secretbox
import Mathlib.Data.Fintype.Basic

/-! `salsa_core` computes Salsa20 and HSalsa20. One round of the code gathers a
column from its diagonal word on and stores it as a row, so that it is a row round
on the transposed matrix; HSalsa20 takes back what the feed-forward added. -/
namespace NukiBridge.Crypto

open Buffer Salsa20

/-- The words of the code's array as a four by four matrix. -/
def toState (x : Matrix) : State := fun row column => (x[4 * row.val + column.val]!).toBitVec

theorem rotl32_toBitVec (x : UInt32) {c : UInt32} (hPositive : 0 < c.toNat)
    (hLess : c.toNat < 32) : (rotl32 x c).toBitVec = x.toBitVec.rotateLeft c.toNat := by
  have hLeft : (c.toBitVec % 32).toNat = c.toNat := by
    simp
    omega
  have hRight : ((32 - c).toBitVec % 32).toNat = 32 - c.toNat := by
    simp only [BitVec.toNat_umod, UInt32.toNat_toBitVec, UInt32.toNat_sub]
    simp
    omega
  rw [rotl32, UInt32.toBitVec_or, UInt32.toBitVec_shiftLeft, UInt32.toBitVec_shiftRight,
    BitVec.rotateLeft_def, Nat.mod_eq_of_lt hLess]
  change x.toBitVec <<< (c.toBitVec % 32).toNat ||| x.toBitVec >>> ((32 - c).toBitVec % 32).toNat = _
  rw [hLeft, hRight]

/-- One step of the load: a byte below what was read so far. -/
theorem shiftIn_toNat {u : UInt32} (byte : UInt8) (h : u.toNat < 2 ^ 24) :
    (u <<< 8 ||| byte.toUInt32).toNat = 2 ^ 8 * u.toNat + byte.toNat := by
  have hShift : u.toNat <<< 8 < 2 ^ 32 := by
    rw [Nat.shiftLeft_eq]
    omega
  rw [UInt32.toNat_or, UInt32.toNat_shiftLeft, UInt8.toNat_toUInt32]
  change u.toNat <<< 8 % 2 ^ 32 ||| byte.toNat = _
  rw [Nat.mod_eq_of_lt hShift]
  exact shiftLeft_or _ _ 8 byte.toNat_lt

theorem loadLe32_toBitVec (x : List UInt8) : (loadLe32 x).toBitVec = word x 0 := by
  apply BitVec.eq_of_toNat_eq
  have h0 := (x.getD 0 0).toNat_lt
  have h1 := (x.getD 1 0).toNat_lt
  have h2 := (x.getD 2 0).toNat_lt
  have h3 := (x.getD 3 0).toNat_lt
  have hTop : (x.getD 3 0).toUInt32.toNat = (x.getD 3 0).toNat := UInt8.toNat_toUInt32 _
  have hThird := shiftIn_toNat (x.getD 2 0) (u := (x.getD 3 0).toUInt32) (by omega)
  have hSecond := shiftIn_toNat (x.getD 1 0) (hThird.trans_lt (by omega))
  have hFirst := shiftIn_toNat (x.getD 0 0) (hSecond.trans_lt (by omega))
  simp only [word, Nat.mul_zero, Nat.zero_add, UInt32.toNat_toBitVec, BitVec.toNat_ofNat]
  rw [loadLe32, hFirst, hSecond, hThird, hTop, Nat.mod_eq_of_lt (by omega)]
  omega

theorem loadLe32_drop (x : List UInt8) (i : Nat) :
    (loadLe32 (x.drop (4 * i))).toBitVec = word x i := by
  rw [loadLe32_toBitVec, word_drop, Nat.add_zero]

theorem storeLe32_eq (u : UInt32) : storeLe32 u = wordBytes u.toBitVec := by
  have hByte : ∀ n : Nat, n % 32 = n →
      (u >>> UInt32.ofNat n).toUInt8 = UInt8.ofNat (u.toBitVec.toNat / 2 ^ n) := by
    intro n hShift
    apply UInt8.toNat_inj.mp
    simp [Nat.shiftRight_eq_div_pow, hShift]
  have hFirst := hByte 0 rfl
  rw [show u >>> UInt32.ofNat 0 = u from UInt32.shiftRight_zero] at hFirst
  have hRest : [(u >>> 8).toUInt8, (u >>> 16).toUInt8, (u >>> 24).toUInt8] =
      [8, 16, 24].map fun n => UInt8.ofNat (u.toBitVec.toNat / 2 ^ n) :=
    congrArg₂ List.cons (hByte 8 rfl) (congrArg₂ List.cons (hByte 16 rfl)
      (congrArg₂ List.cons (hByte 24 rfl) rfl))
  rw [storeLe32, hFirst, hRest]
  rfl

/-- The indices below 4 start from 0. -/
local instance neZeroFour : NeZero 4 := ⟨by decide⟩

/-- The four words of pass `j` as the code stores them into row `j`. -/
def storeRow (w : Matrix) (j : Nat) (t : Fin 4 → UInt32) : Matrix :=
  (((w.setIfInBounds (4 * j + (j + 0) % 4) (t 0)).setIfInBounds
    (4 * j + (j + 1) % 4) (t 1)).setIfInBounds
    (4 * j + (j + 2) % 4) (t 2)).setIfInBounds
    (4 * j + (j + 3) % 4) (t 3)

/-- Where the word `step` places past the diagonal of row `j` is stored. -/
theorem stored_iff : ∀ j row column step : Fin 4,
    4 * j.val + (j.val + step.val) % 4 = 4 * row.val + column.val ↔
      row = j ∧ column - j = step := by
  decide

/-- Where the word `step` places below the diagonal of column `j` is taken from. -/
theorem gathered_eq : ∀ j step : Fin 4,
    (5 * j.val + 4 * step.val) % 16 = 4 * (j + step).val + j.val := by
  decide

theorem toState_storeRow (w : Matrix) (j : Fin 4) (t : Fin 4 → UInt32) (row column : Fin 4) :
    toState (storeRow w j t) row column =
      if row = j then (t (column - j)).toBitVec else toState w row column := by
  have hIndex : 4 * row.val + column.val < 16 := by omega
  have hStep : column - j = 0 ∨ column - j = 1 ∨ column - j = 2 ∨ column - j = 3 := by omega
  have h0 : 4 * j.val + (j.val + 0) % 4 = _ ↔ _ := stored_iff j row column 0
  have h1 : 4 * j.val + (j.val + 1) % 4 = _ ↔ _ := stored_iff j row column 1
  have h2 : 4 * j.val + (j.val + 2) % 4 = _ ↔ _ := stored_iff j row column 2
  have h3 : 4 * j.val + (j.val + 3) % 4 = _ ↔ _ := stored_iff j row column 3
  simp only [toState, storeRow, getElem!_setIfInBounds _ _ hIndex, h0, h1, h2, h3]
  by_cases hRow : row = j
  · rcases hStep with h | h | h | h <;> simp [hRow, h]
  · simp [hRow]

/-- The statements of the inner loop on the words `t`. -/
def mixed (t : Fin 4 → UInt32) : Fin 4 → UInt32 :=
  let t1 := t 1 ^^^ rotl32 (t 0 + t 3) 7
  let t2 := t 2 ^^^ rotl32 (t1 + t 0) 9
  let t3 := t 3 ^^^ rotl32 (t2 + t1) 13
  let t0 := t 0 ^^^ rotl32 (t3 + t2) 18
  ![t0, t1, t2, t3]

theorem mixed_toBitVec (t : Fin 4 → UInt32) :
    (fun m => (mixed t m).toBitVec) = quarterRound fun m => (t m).toBitVec := by
  have rotate7 := fun x : UInt32 => @rotl32_toBitVec x 7 (by decide) (by decide)
  have rotate9 := fun x : UInt32 => @rotl32_toBitVec x 9 (by decide) (by decide)
  have rotate13 := fun x : UInt32 => @rotl32_toBitVec x 13 (by decide) (by decide)
  have rotate18 := fun x : UInt32 => @rotl32_toBitVec x 18 (by decide) (by decide)
  funext m
  match m with
  | 0 => simp [mixed, quarterRound, rotate7, rotate9, rotate13, rotate18]
  | 1 => simp [mixed, quarterRound, rotate7]
  | 2 => simp [mixed, quarterRound, rotate7, rotate9]
  | 3 => simp [mixed, quarterRound, rotate7, rotate9, rotate13]

/-- Pass `j` of the inner loop mixes column `j` and puts the result into row `j`, turned by as
much. -/
theorem toState_salsaColumn (x w : Matrix) (j row column : Fin 4) :
    toState (salsaColumn x w j) row column =
      if row = j then transposedRound (toState x) j column else toState w row column := by
  have hStores : salsaColumn x w j =
      storeRow w j (mixed fun m => x[(5 * j.val + 4 * m.val) % 16]!) := rfl
  have hGathers : (fun m : Fin 4 => (x[(5 * j.val + 4 * m.val) % 16]!).toBitVec) =
      fun m => (toState x).transpose j (j + m) := by
    funext m
    rw [gathered_eq]
    rfl
  have hMixed := congrFun (mixed_toBitVec fun m => x[(5 * j.val + 4 * m.val) % 16]!) (column - j)
  rw [hGathers] at hMixed
  rw [hStores, toState_storeRow, hMixed]
  rfl

/-- A round of the code is a row round on the transposed matrix. -/
theorem toState_salsaRound (x : Matrix) : toState (salsaRound x) = transposedRound (toState x) := by
  funext row column
  have hPasses : salsaRound x = salsaColumn x (salsaColumn x (salsaColumn x (salsaColumn x
      (Vector.replicate 16 0) (0 : Fin 4)) (1 : Fin 4)) (2 : Fin 4)) (3 : Fin 4) := rfl
  simp only [hPasses, toState_salsaColumn]
  match row with
  | 0 => rfl
  | 1 => rfl
  | 2 => rfl
  | 3 => rfl

/-- The twenty passes of the loop are the ten double rounds of the specification. Each pass leaves
the matrix transposed, and two of them restore it. -/
theorem toState_rounds (x : Matrix) :
    toState (salsaRound^[20] x) = doubleRound^[10] (toState x) := by
  have hRounds : ∀ n, toState (salsaRound^[n] x) = transposedRound^[n] (toState x) := by
    intro n
    induction n with
    | zero => rfl
    | succ n ih =>
        rw [Function.iterate_succ_apply', toState_salsaRound, ih, Function.iterate_succ_apply']
  rw [hRounds, show 20 = 2 * 10 from rfl, transposedRound_iterate]

theorem salsaMatrix_entry (inp k c : List UInt8) {i : Nat} (h : i < 4) :
    (salsaMatrix inp k c)[5 * i]! = loadLe32 (c.drop (4 * i)) ∧
      (salsaMatrix inp k c)[1 + i]! = loadLe32 (k.drop (4 * i)) ∧
      (salsaMatrix inp k c)[6 + i]! = loadLe32 (inp.drop (4 * i)) ∧
      (salsaMatrix inp k c)[11 + i]! = loadLe32 (k.drop (16 + 4 * i)) := by
  rcases (by omega : i = 0 ∨ i = 1 ∨ i = 2 ∨ i = 3) with rfl | rfl | rfl | rfl <;>
    simp [salsaMatrix, List.range_succ]

/-- An entry of the array as an entry of the matrix. -/
theorem entry_toState (x : Matrix) {i : Nat} (h : i < 16) :
    (toState x).entry i = (x[i]!).toBitVec := by
  have hIndex : 4 * (i / 4 % 4) + i % 4 = i := by omega
  rw [State.entry, toState]
  change (x[4 * (i / 4 % 4) + i % 4]!).toBitVec = _
  rw [hIndex]

theorem entry_load (bytes : List UInt8) {i : Nat} (h : i < 16) :
    (load bytes).entry i = word bytes i := by
  have hIndex : 4 * (i / 4 % 4) + i % 4 = i := by omega
  rw [State.entry, load]
  change word bytes (4 * (i / 4 % 4) + i % 4) = _
  rw [hIndex]

/-- Every position of the matrix is one of the four kinds. -/
theorem position_cases {i : Nat} (h : i < 16) :
    ∃ j < 4, i = 5 * j ∨ i = 1 + j ∨ i = 6 + j ∨ i = 11 + j := by
  rcases (by omega : i % 5 = 0 ∨ (1 ≤ i ∧ i ≤ 4) ∨ (6 ≤ i ∧ i ≤ 9) ∨ (11 ≤ i ∧ i ≤ 14))
    with hDiagonal | hKey | hInput | hUpper
  · exact ⟨i / 5, by omega, Or.inl (by omega)⟩
  · exact ⟨i - 1, by omega, Or.inr (Or.inl (by omega))⟩
  · exact ⟨i - 6, by omega, Or.inr (Or.inr (Or.inl (by omega)))⟩
  · exact ⟨i - 11, by omega, Or.inr (Or.inr (Or.inr (by omega)))⟩

/-- What the last loop of HSalsa20 takes back: the constants on the diagonal and the input words,
and nothing else. -/
theorem takenBack_entry (x : Matrix) (inp c : List UInt8) {i : Nat} (h : i < 4) :
    let taken := (List.range 4).foldl (fun x i =>
      (x.setIfInBounds (5 * i) (x[5 * i]! - loadLe32 (c.drop (4 * i)))).setIfInBounds
        (6 + i) (x[6 + i]! - loadLe32 (inp.drop (4 * i)))) x
    taken[5 * i]! = x[5 * i]! - loadLe32 (c.drop (4 * i)) ∧
      taken[6 + i]! = x[6 + i]! - loadLe32 (inp.drop (4 * i)) := by
  rcases (by omega : i = 0 ∨ i = 1 ∨ i = 2 ∨ i = 3) with rfl | rfl | rfl | rfl <;>
    simp [List.range_succ]

theorem zipWith_entry (x y : Matrix) {i : Nat} (h : i < 16) :
    (Vector.zipWith (· + ·) x y)[i]! = x[i]! + y[i]! := by
  rw [getElem!_pos _ i h, getElem!_pos x i h, getElem!_pos y i h, Vector.getElem_zipWith]

/-- What is left of a word of the initial matrix that was added and taken back. -/
theorem takenBack_eq {x y : Matrix} {inp c : List UInt8}
    (hDiagonal : ∀ i < 4, y[5 * i]! = loadLe32 (c.drop (4 * i)))
    (hInput : ∀ i < 4, y[6 + i]! = loadLe32 (inp.drop (4 * i))) {i : Nat} (h : i < 4) :
    let taken := (List.range 4).foldl (fun x i =>
      (x.setIfInBounds (5 * i) (x[5 * i]! - loadLe32 (c.drop (4 * i)))).setIfInBounds
        (6 + i) (x[6 + i]! - loadLe32 (inp.drop (4 * i)))) (Vector.zipWith (· + ·) x y)
    taken[5 * i]! = x[5 * i]! ∧ taken[6 + i]! = x[6 + i]! := by
  obtain ⟨eDiagonal, eInput⟩ := takenBack_entry (Vector.zipWith (· + ·) x y) inp c h
  constructor
  · rw [eDiagonal, zipWith_entry x y (by omega), hDiagonal i h, UInt32.add_sub_cancel]
  · rw [eInput, zipWith_entry x y (by omega), hInput i h, UInt32.add_sub_cancel]

/-- The bytes of the subkey are those of the words before the feed-forward. -/
theorem takenBack_bytes {x y : Matrix} {inp c : List UInt8}
    (hDiagonal : ∀ i < 4, y[5 * i]! = loadLe32 (c.drop (4 * i)))
    (hInput : ∀ i < 4, y[6 + i]! = loadLe32 (inp.drop (4 * i))) :
    let taken := (List.range 4).foldl (fun x i =>
      (x.setIfInBounds (5 * i) (x[5 * i]! - loadLe32 (c.drop (4 * i)))).setIfInBounds
        (6 + i) (x[6 + i]! - loadLe32 (inp.drop (4 * i)))) (Vector.zipWith (· + ·) x y)
    (List.range 4).flatMap (fun i => storeLe32 taken[5 * i]!) ++
        (List.range 4).flatMap (fun i => storeLe32 taken[6 + i]!) =
      [0, 5, 10, 15, 6, 7, 8, 9].flatMap fun i => wordBytes (x[i]!).toBitVec := by
  intro taken
  have hSplit : ∀ f : Nat → List UInt8, [0, 5, 10, 15, 6, 7, 8, 9].flatMap f =
      (List.range 4).flatMap (fun i => f (5 * i)) ++ (List.range 4).flatMap (fun i => f (6 + i)) :=
    fun f => by simp [List.range_succ]
  have hTaken := fun i (hi : i ∈ List.range 4) =>
    takenBack_eq (x := x) hDiagonal hInput (List.mem_range.mp hi)
  have hDiagonals : (List.range 4).flatMap (fun i => storeLe32 taken[5 * i]!) =
      (List.range 4).flatMap (fun i => wordBytes (x[5 * i]!).toBitVec) := by
    apply List.flatMap_congr
    intro i hi
    rw [(hTaken i hi).1, storeLe32_eq]
  have hInputs : (List.range 4).flatMap (fun i => storeLe32 taken[6 + i]!) =
      (List.range 4).flatMap (fun i => wordBytes (x[6 + i]!).toBitVec) := by
    apply List.flatMap_congr
    intro i hi
    rw [(hTaken i hi).2, storeLe32_eq]
  rw [hSplit, hDiagonals, hInputs]

section Core

variable {inp k c : List UInt8} (hInput : 16 ≤ inp.length) (hKey : k.length = 32)
  (hConstant : c.length = 16)

include hInput hKey hConstant

/-- The matrix is filled diagonal by diagonal in the code and word by word in the specification,
with the same words in the same places. -/
theorem salsaMatrix_toBitVec {i : Nat} (h : i < 16) :
    ((salsaMatrix inp k c)[i]!).toBitVec = word (expand c k inp) i := by
  obtain ⟨j, hj, hPosition⟩ := position_cases h
  obtain ⟨hDiagonal, hLower, hMiddle, hUpper⟩ := word_expand hConstant hKey hInput hj
  obtain ⟨eDiagonal, eLower, eMiddle, eUpper⟩ := salsaMatrix_entry inp k c hj
  rcases hPosition with rfl | rfl | rfl | rfl
  · rw [eDiagonal, hDiagonal, loadLe32_drop]
  · rw [eLower, hLower, loadLe32_drop]
  · rw [eMiddle, hMiddle, loadLe32_drop]
  · rw [eUpper, hUpper, show 16 + 4 * j = 4 * (4 + j) by omega, loadLe32_drop]

theorem toState_salsaMatrix : toState (salsaMatrix inp k c) = load (expand c k inp) := by
  funext row column
  exact salsaMatrix_toBitVec hInput hKey hConstant (by omega)

/-- The words after the twenty rounds of the code. -/
theorem entry_rounds {i : Nat} (h : i < 16) :
    (rounds c k inp).entry i = ((salsaRound^[20] (salsaMatrix inp k c))[i]!).toBitVec := by
  rw [rounds, ← toState_salsaMatrix hInput hKey hConstant, ← toState_rounds, entry_toState _ h]

/-- In its first mode the core is the block function of Salsa20, for every key and every input. -/
theorem salsaCore_block : salsaCore inp k c false = block c k inp := by
  simp only [salsaCore, Bool.false_eq_true, if_false, block]
  apply List.flatMap_congr
  intro i hi
  have hLess := List.mem_range.mp hi
  rw [storeLe32_eq, UInt32.toBitVec_add, entry_rounds hInput hKey hConstant hLess,
    entry_load _ hLess, salsaMatrix_toBitVec hInput hKey hConstant hLess]

/-- In its second mode the core is HSalsa20. It subtracts the input again instead of leaving out the
addition. -/
theorem salsaCore_subkey : salsaCore inp k c true = hBlock c k inp := by
  simp only [salsaCore, if_true, hBlock]
  rw [takenBack_bytes (fun i h => (salsaMatrix_entry inp k c h).1)
    (fun i h => (salsaMatrix_entry inp k c h).2.2.1)]
  apply List.flatMap_congr
  intro i hi
  have hLess : ∀ i ∈ [0, 5, 10, 15, 6, 7, 8, 9], i < 16 := by decide
  rw [entry_rounds hInput hKey hConstant (hLess i hi)]

end Core

/-- The matrix of the whole initial input reads its first sixteen bytes only. -/
theorem expand_take (c k n : List UInt8) : expand c k (n.take 16) = expand c k n := by
  rw [expand, expand, List.take_take]
  rfl

/-- The code computes Salsa20 and HSalsa20 for every input and key, and the key
derivation is HSalsa20 of the zero input. -/
theorem salsaCore_correct (inp : Bytes 16) (k : Bytes 32) :
    salsaCore inp.val k.val sigma false = Salsa20.block sigma k.val inp.val ∧
      salsaCore inp.val k.val sigma true = Salsa20.hBlock sigma k.val inp.val ∧
      (nukiCryptoKdf1 k).val = Salsa20.hBlock sigma k.val (List.replicate 16 0) :=
  ⟨salsaCore_block (by simp) (by simp) rfl, salsaCore_subkey (by simp) (by simp) rfl,
    salsaCore_subkey (by simp) (by simp) rfl⟩

/-- The bytes of a counter of which the first `done` already belong to the next one. -/
def carried (blocks done : Nat) : List UInt8 :=
  (List.range 8).map fun j =>
    UInt8.ofNat ((if j < done then blocks + 1 else blocks) / 2 ^ (8 * j))

theorem carried_set (blocks : Nat) {done : Nat} (h : done < 8) :
    (carried blocks done).set done (UInt8.ofNat ((blocks + 1) / 2 ^ (8 * done))) =
      carried blocks (done + 1) := by
  apply List.ext_getElem (by simp [carried])
  intro j hj _
  have hLess : j < 8 := by simpa [carried] using hj
  simp only [carried, List.getElem_set, List.getElem_map, List.getElem_range]
  rcases Nat.lt_trichotomy j done with hBefore | rfl | hAfter
  · rw [if_neg (by omega), if_pos hBefore, if_pos (by omega)]
  · rw [if_pos rfl, if_pos (by omega)]
  · rw [if_neg (by omega), if_neg (by omega), if_neg (by omega)]

/-- The carry into byte `done` is what the bytes below it have grown by. -/
theorem carry_step (blocks done : Nat) {carry : Nat}
    (h : (blocks + 1) / 2 ^ (8 * done) = blocks / 2 ^ (8 * done) + carry) :
    (blocks + 1) / 2 ^ (8 * (done + 1)) = blocks / 2 ^ (8 * (done + 1)) +
      (carry + blocks / 2 ^ (8 * done) % 256) / 256 := by
  have hSplit : ∀ x, x / 2 ^ (8 * (done + 1)) = x / 2 ^ (8 * done) / 256 := by
    intro x
    rw [Nat.mul_succ, Nat.pow_add, ← Nat.div_div_eq_div_mul]
  rw [hSplit, hSplit, h]
  omega

/-- The carry loop over the counter bytes, by induction on the bytes done. -/
theorem nextCounter_loop {nonce : List UInt8} (hNonce : nonce.length = 8) (blocks : Nat) :
    ∀ done ≤ 8, ∃ u : UInt32, (List.range done).foldl (fun (u, z) i =>
        let u := u + (z.getD (8 + i) 0).toUInt32
        (u >>> 8, z.set (8 + i) u.toUInt8)) ((1 : UInt32), nonce ++ counter blocks) =
          (u, nonce ++ carried blocks done) ∧ u.toNat ≤ 1 ∧
        (blocks + 1) / 2 ^ (8 * done) = blocks / 2 ^ (8 * done) + u.toNat := by
  intro done
  induction done with
  | zero => exact fun _ => ⟨1, rfl, Nat.le_refl _, by simp⟩
  | succ done ih =>
      intro hDone
      obtain ⟨u, hLoop, hCarry, hGrown⟩ := ih (by omega)
      have hByte : (nonce ++ carried blocks done).getD (8 + done) 0 =
          UInt8.ofNat (blocks / 2 ^ (8 * done)) := by
        rw [List.getD_append_right _ _ _ _ (by omega), hNonce, Nat.add_sub_cancel_left,
          List.getD_eq_getElem _ _ (by simp [carried]; omega)]
        simp [carried]
      have hSum : (u + (UInt8.ofNat (blocks / 2 ^ (8 * done))).toUInt32).toNat =
          u.toNat + blocks / 2 ^ (8 * done) % 256 := by
        simp
        omega
      refine ⟨(u + (UInt8.ofNat (blocks / 2 ^ (8 * done))).toUInt32) >>> 8, ?_, ?_, ?_⟩
      · have hStored : (u + (UInt8.ofNat (blocks / 2 ^ (8 * done))).toUInt32).toUInt8 =
            UInt8.ofNat ((blocks + 1) / 2 ^ (8 * done)) := by
          apply UInt8.toNat_inj.mp
          rw [UInt32.toNat_toUInt8, hSum, hGrown]
          simp
          omega
        rw [List.range_succ, List.foldl_append, hLoop]
        simp only [List.foldl_cons, List.foldl_nil, hByte, hStored]
        rw [List.set_append_right _ _ (by omega), hNonce, Nat.add_sub_cancel_left,
          carried_set blocks (by omega)]
      · rw [UInt32.toNat_shiftRight, hSum]
        simp [Nat.shiftRight_eq_div_pow]
        omega
      · rw [carry_step blocks done hGrown, UInt32.toNat_shiftRight, hSum]
        simp [Nat.shiftRight_eq_div_pow]

/-- The carry runs through all eight bytes of the counter, so the stream does not repeat before the
counter does. -/
theorem nextCounter_eq {nonce : List UInt8} (hNonce : nonce.length = 8) (blocks : Nat) :
    nextCounter (nonce ++ counter blocks) = nonce ++ counter (blocks + 1) := by
  obtain ⟨u, hLoop, -⟩ := nextCounter_loop hNonce blocks 8 (Nat.le_refl _)
  have hAll : carried blocks 8 = counter (blocks + 1) := by
    apply List.map_congr_left
    intro j hj
    rw [if_pos (List.mem_range.mp hj)]
  rw [nextCounter, hLoop, hAll]

theorem nextCounter_iterate {nonce : List UInt8} (hNonce : nonce.length = 8) (blocks : Nat) :
    nextCounter^[blocks] (nonce ++ List.replicate 8 0) = nonce ++ counter blocks := by
  induction blocks with
  | zero => rfl
  | succ blocks ih => rw [Function.iterate_succ_apply', ih, nextCounter_eq hNonce]

/-- The keystream of the code is the XSalsa20 keystream, byte by byte and for every position. -/
theorem xsalsa20Byte_eq (n : Bytes 24) (k : Bytes 32) (i : Nat) :
    xsalsa20Byte n k i = extendedByte sigma k.val n.val i := by
  have hSubkey : (coreHsalsa20 n.val k).val = hBlock sigma k.val (n.val.take 16) := by
    rw [hBlock, rounds, expand_take]
    exact salsaCore_subkey (by simp) (by simp) rfl
  have hNonce : (n.slice 16 8 (Nat.le_refl _)).val = n.val.drop 16 := by
    rw [Bytes.slice_val, List.take_of_length_le (by simp)]
  have hLength : (n.val.drop 16).length = 8 := by simp
  rw [xsalsa20Byte, keystreamByte, hNonce, nextCounter_iterate hLength, extendedByte, streamByte,
    ← hSubkey]
  congr 1
  exact salsaCore_block (by simp) (by simp) rfl

theorem inputByte_map (f : Nat → UInt8) {len i : Nat} (h : i < len) :
    inputByte (some ((List.range len).map f)) i = f i := by
  rw [inputByte, List.getD_eq_getElem _ _ (by simpa using h), List.getElem_map, List.getElem_range]

/-- The stream cipher by position: a shorter output is a prefix of a longer one, a
second application undoes the first, and the sealed message is its consequence. -/
theorem xsalsa20Xor_correct (n : Bytes 24) (k : Bytes 32) :
    (∀ (m : Option (List UInt8)) (len : Nat), xsalsa20Xor m len n k =
      (List.range len).map fun i => inputByte m i ^^^ extendedByte sigma k.val n.val i) ∧
    (∀ (m m' : Option (List UInt8)) (short long : Nat), short ≤ long →
      (∀ i < short, inputByte m i = inputByte m' i) →
      xsalsa20Xor m short n k = (xsalsa20Xor m' long n k).take short) ∧
    (∀ (m : Option (List UInt8)) (len : Nat),
      xsalsa20Xor (some (xsalsa20Xor m len n k)) len n k = (List.range len).map (inputByte m)) ∧
    (∀ msg out : List UInt8, msg.length ≤ maxMsgLen →
      let ciphertext := (List.range msg.length).map fun i =>
        msg.getD i 0 ^^^ extendedByte sigma k.val n.val (32 + i)
      let tagKey : Bytes 32 := ⟨(List.range 32).map (extendedByte sigma k.val n.val), by simp⟩
      nukiCryptoE1 out msg n k =
        (0, memcpy out 0 ((poly1305 ciphertext tagKey).val ++ ciphertext))) := by
  have hPosition : ∀ (m : Option (List UInt8)) (len : Nat), xsalsa20Xor m len n k =
      (List.range len).map fun i => inputByte m i ^^^ extendedByte sigma k.val n.val i := by
    intro m len
    rw [xsalsa20Xor_eq]
    exact List.map_congr_left fun i _ => by rw [xsalsa20Byte_eq]
  refine ⟨hPosition, ?_, ?_, ?_⟩
  · intro m m' short long hShort hSame
    rw [hPosition, hPosition, ← List.map_take, List.take_range, Nat.min_eq_left hShort]
    apply List.map_congr_left
    intro i hi
    rw [hSame i (List.mem_range.mp hi)]
  · intro m len
    rw [hPosition, hPosition]
    apply List.map_congr_left
    intro i hi
    rw [inputByte_map _ (List.mem_range.mp hi), UInt8.xor_assoc, UInt8.xor_self, UInt8.xor_zero]
  · intro msg out hLen ciphertext key
    have hKey : key = tagKey n k := by
      apply Subtype.ext
      exact List.map_congr_left fun i _ => (xsalsa20Byte_eq n k i).symm
    have hCipher : ciphertext = masked n k msg :=
      List.map_congr_left fun i _ => by rw [xsalsa20Byte_eq]
    rw [nukiCryptoE1_eq n k out hLen, secretbox, hKey, hCipher]

end NukiBridge.Crypto

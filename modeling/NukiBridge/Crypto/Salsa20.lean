import NukiBridge.Buffer.Memory
import Mathlib.Logic.Function.Iterate
import Mathlib.Data.List.GetD

/-! The Salsa20 and HSalsa20 core of `nuki_crypto.c` and the XSalsa20 stream
built from it. The stream is generated block by block with a byte-wise carried
counter; `xsalsa20Xor_eq` gives each of its bytes by position. -/
namespace NukiBridge.Crypto

open Buffer

/-- "expand 32-byte k" -/
def sigma : List UInt8 :=
  [0x65, 0x78, 0x70, 0x61, 0x6e, 0x64, 0x20, 0x33, 0x32, 0x2d, 0x62, 0x79, 0x74, 0x65, 0x20, 0x6b]

def rotl32 (x c : UInt32) : UInt32 := (x <<< c) ||| (x >>> (32 - c))

def loadLe32 (x : List UInt8) : UInt32 :=
  let u := (x.getD 3 0).toUInt32
  let u := (u <<< 8) ||| (x.getD 2 0).toUInt32
  let u := (u <<< 8) ||| (x.getD 1 0).toUInt32
  (u <<< 8) ||| (x.getD 0 0).toUInt32

def storeLe32 (u : UInt32) : List UInt8 :=
  [u.toUInt8, (u >>> 8).toUInt8, (u >>> 16).toUInt8, (u >>> 24).toUInt8]

@[simp] theorem length_storeLe32 (u : UInt32) : (storeLe32 u).length = 4 := rfl

/-- The sixteen words on which `salsa_core` works. -/
abbrev Matrix := Vector UInt32 16

/-- The initial matrix: constants `c` on the diagonal, the key `k` and the input between. -/
def salsaMatrix (inp k c : List UInt8) : Matrix :=
  (List.range 4).foldl (fun x i =>
    (((x.setIfInBounds (5 * i) (loadLe32 (c.drop (4 * i)))).setIfInBounds
      (1 + i) (loadLe32 (k.drop (4 * i)))).setIfInBounds
      (6 + i) (loadLe32 (inp.drop (4 * i)))).setIfInBounds
      (11 + i) (loadLe32 (k.drop (16 + 4 * i)))) (Vector.replicate 16 0)

/-- Pass `j` of the inner loop: mix four words of `x` and store them rotated in `w`. -/
def salsaColumn (x w : Matrix) (j : Nat) : Matrix :=
  let t0 := x[(5 * j + 4 * 0) % 16]!
  let t1 := x[(5 * j + 4 * 1) % 16]!
  let t2 := x[(5 * j + 4 * 2) % 16]!
  let t3 := x[(5 * j + 4 * 3) % 16]!
  let t1 := t1 ^^^ rotl32 (t0 + t3) 7
  let t2 := t2 ^^^ rotl32 (t1 + t0) 9
  let t3 := t3 ^^^ rotl32 (t2 + t1) 13
  let t0 := t0 ^^^ rotl32 (t3 + t2) 18
  (((w.setIfInBounds (4 * j + (j + 0) % 4) t0).setIfInBounds
    (4 * j + (j + 1) % 4) t1).setIfInBounds
    (4 * j + (j + 2) % 4) t2).setIfInBounds
    (4 * j + (j + 3) % 4) t3

/-- One of the twenty rounds. The four passes write all of `w`. -/
def salsaRound (x : Matrix) : Matrix :=
  (List.range 4).foldl (salsaColumn x) (Vector.replicate 16 0)

/-- `salsa_core`: the Salsa20 block for `h = false`, HSalsa20 for `h = true`. -/
@[irreducible]
def salsaCore (inp k c : List UInt8) (h : Bool) : List UInt8 :=
  let y := salsaMatrix inp k c
  let x := salsaRound^[20] y
  if h then
    let x := Vector.zipWith (· + ·) x y
    let x := (List.range 4).foldl (fun x i =>
      (x.setIfInBounds (5 * i) (x[5 * i]! - loadLe32 (c.drop (4 * i)))).setIfInBounds
        (6 + i) (x[6 + i]! - loadLe32 (inp.drop (4 * i)))) x
    (List.range 4).flatMap (fun i => storeLe32 x[5 * i]!) ++
      (List.range 4).flatMap (fun i => storeLe32 x[6 + i]!)
  else
    (List.range 16).flatMap (fun i => storeLe32 (x[i]! + y[i]!))

private theorem length_flatMap_storeLe32 (n : Nat) (f : Nat → UInt32) :
    ((List.range n).flatMap (fun i => storeLe32 (f i))).length = 4 * n := by
  simp [List.length_flatMap, Nat.mul_comm]

theorem length_salsaCore_block (inp k c : List UInt8) :
    (salsaCore inp k c false).length = 64 := by
  simp only [salsaCore, Bool.false_eq_true, if_false, length_flatMap_storeLe32]

/-- The two modes of the core differ in what they hand out: the subkey takes eight words of the
matrix, the block all sixteen. -/
theorem length_salsaCore_subkey (inp k c : List UInt8) :
    (salsaCore inp k c true).length = 32 := by
  simp only [salsaCore, if_true, List.length_append, length_flatMap_storeLe32]

def coreSalsa20 (inp : List UInt8) (k : Bytes 32) : Bytes 64 :=
  ⟨salsaCore inp k.val sigma false, length_salsaCore_block inp k.val sigma⟩

def coreHsalsa20 (inp : List UInt8) (k : Bytes 32) : Bytes 32 :=
  ⟨salsaCore inp k.val sigma true, length_salsaCore_subkey inp k.val sigma⟩

/-- The increment of the 64-bit block counter `z[8..16)`, carried in `u`. -/
def nextCounter (z : List UInt8) : List UInt8 :=
  ((List.range 8).foldl (fun (u, z) i =>
    let u := u + (z.getD (8 + i) 0).toUInt32
    (u >>> 8, z.set (8 + i) u.toUInt8)) ((1 : UInt32), z)).2

/-- `(m ? m[i] : 0)`. -/
def inputByte (m : Option (List UInt8)) (i : Nat) : UInt8 :=
  match m with
  | some m => m.getD i 0
  | none => 0

/-- The two loops of `stream_salsa20_xor` from counter state `z` on. -/
def streamLoop (k : Bytes 32) (z : List UInt8) (m : Option (List UInt8)) (len : Nat) :
    List UInt8 :=
  let x := coreSalsa20 z k
  if 64 ≤ len then
    (List.range 64).map (fun i => inputByte m i ^^^ x.val.getD i 0) ++
      streamLoop k (nextCounter z) (m.map (·.drop 64)) (len - 64)
  else
    (List.range len).map (fun i => inputByte m i ^^^ x.val.getD i 0)
termination_by len

def streamSalsa20Xor (m : Option (List UInt8)) (len : Nat) (n : Bytes 8) (k : Bytes 32) :
    List UInt8 :=
  streamLoop k (n.val ++ List.replicate 8 0) m len

def xsalsa20Xor (m : Option (List UInt8)) (len : Nat) (n : Bytes 24) (k : Bytes 32) :
    List UInt8 :=
  let subkey := coreHsalsa20 n.val k
  streamSalsa20Xor m len (n.slice 16 8 (Nat.le_refl _)) subkey

/-- Byte `i` of the keystream that starts with counter state `z`. -/
def keystreamByte (k : Bytes 32) (z : List UInt8) (i : Nat) : UInt8 :=
  (coreSalsa20 (nextCounter^[i / 64] z) k).val.getD (i % 64) 0

theorem inputByte_drop (m : Option (List UInt8)) (i : Nat) :
    inputByte (m.map (·.drop 64)) i = inputByte m (64 + i) := by
  cases m with
  | none => rfl
  | some m => simp [inputByte, List.getD_eq_getElem?_getD, List.getElem?_drop]

theorem keystreamByte_first (k : Bytes 32) (z : List UInt8) {i : Nat} (h : i < 64) :
    keystreamByte k z i = (coreSalsa20 z k).val.getD i 0 := by
  rw [keystreamByte, Nat.div_eq_of_lt h, Nat.mod_eq_of_lt h, Function.iterate_zero_apply]

/-- The key stream goes on with the next counter: what a later pass of the loop computes is the same
stream, sixty-four bytes further. -/
theorem keystreamByte_next (k : Bytes 32) (z : List UInt8) (i : Nat) :
    keystreamByte k (nextCounter z) i = keystreamByte k z (64 + i) := by
  have hDiv : (64 + i) / 64 = i / 64 + 1 := by omega
  rw [keystreamByte, keystreamByte, hDiv, Function.iterate_succ_apply, Nat.add_mod_left]

/-- One pass of the loop. It uses one block of the key stream, or the beginning of one where fewer
bytes are left. -/
private theorem streamLoop_pass (k : Bytes 32) (z : List UInt8) (m : Option (List UInt8))
    {n : Nat} (h : n ≤ 64) :
    (List.range n).map (fun i => inputByte m i ^^^ (coreSalsa20 z k).val.getD i 0) =
      (List.range n).map (fun i => inputByte m i ^^^ keystreamByte k z i) := by
  apply List.map_congr_left
  intro i hi
  rw [keystreamByte_first k z (Nat.lt_of_lt_of_le (List.mem_range.mp hi) h)]

/-- The loops produce, byte by byte, the input combined with the keystream. -/
theorem streamLoop_eq (k : Bytes 32) (z : List UInt8) (m : Option (List UInt8)) (len : Nat) :
    streamLoop k z m len =
      (List.range len).map (fun i => inputByte m i ^^^ keystreamByte k z i) := by
  fun_induction streamLoop k z m len with
  | case1 z m len x hLen ih =>
      have hRange : List.range len = List.range 64 ++ (List.range (len - 64)).map (64 + ·) := by
        rw [← List.range_add, Nat.add_sub_cancel' hLen]
      rw [streamLoop_pass k z m (Nat.le_refl _), ih, hRange, List.map_append, List.map_map]
      congr 1
      apply List.map_congr_left
      intro i _
      rw [inputByte_drop, keystreamByte_next, Function.comp_apply]
  | case2 z m len x hLen => exact streamLoop_pass k z m (by omega)

/-- Byte `i` of the XSalsa20 keystream of a nonce and a key. -/
def xsalsa20Byte (n : Bytes 24) (k : Bytes 32) (i : Nat) : UInt8 :=
  keystreamByte (coreHsalsa20 n.val k)
    ((n.slice 16 8 (Nat.le_refl _)).val ++ List.replicate 8 0) i

/-- Every byte of the output by its position alone: neither the length asked
for nor the other bytes of the input matter. -/
theorem xsalsa20Xor_eq (m : Option (List UInt8)) (len : Nat) (n : Bytes 24) (k : Bytes 32) :
    xsalsa20Xor m len n k =
      (List.range len).map (fun i => inputByte m i ^^^ xsalsa20Byte n k i) :=
  streamLoop_eq _ _ m len

@[simp] theorem length_xsalsa20Xor (m : Option (List UInt8)) (len : Nat) (n : Bytes 24)
    (k : Bytes 32) : (xsalsa20Xor m len n k).length = len := by
  rw [xsalsa20Xor_eq, List.length_map, List.length_range]

end NukiBridge.Crypto

import NukiBridge.Buffer.Memory

/-! `poly1305` of `nuki_crypto.c`: seventeen limbs of eight bits in 32-bit words,
with the lazy carries, the folded reduction and the masked final subtraction of
the source. -/
namespace NukiBridge.Crypto

open Buffer

abbrev Limbs := Vector UInt32 17

def add1305 (h addend : Limbs) : Limbs :=
  ((List.range 17).foldl (fun (u, h) j =>
    let u := u + (h[j]! + addend[j]!)
    (u >>> 8, h.setIfInBounds j (u &&& 255))) ((0 : UInt32), h)).2

def minusp : Limbs := #v[5, 0, 0, 0, 0, 0, 0, 0, 0, 0, 0, 0, 0, 0, 0, 0, 252]

/-- The first `n` limbs from the bytes of `m`, the others zero. -/
def limbsOfBytes (m : List UInt8) (n : Nat) : Limbs :=
  (List.range n).foldl (fun c j => c.setIfInBounds j (m.getD j 0).toUInt32)
    (Vector.replicate 17 0)

/-- The multiplier: the first half of the key with the bits of the format cleared. -/
def clampedKey (k : Bytes 32) : Limbs :=
  let r := limbsOfBytes k.val 16
  let r := r.setIfInBounds 3 (r[3]! &&& 15)
  let r := r.setIfInBounds 4 (r[4]! &&& 252)
  let r := r.setIfInBounds 7 (r[7]! &&& 15)
  let r := r.setIfInBounds 8 (r[8]! &&& 252)
  let r := r.setIfInBounds 11 (r[11]! &&& 15)
  let r := r.setIfInBounds 12 (r[12]! &&& 252)
  r.setIfInBounds 15 (r[15]! &&& 15)

/-- The product columns `x`, with the columns past the top limb folded back by 320. -/
def mulColumns (h r : Limbs) : Limbs :=
  (List.range 17).foldl (fun x i =>
    x.setIfInBounds i ((List.range 17).foldl (fun sum j =>
      sum + h[j]! * (if j ≤ i then r[i - j]! else 320 * r[i + 17 - j]!)) (0 : UInt32)))
    (Vector.replicate 17 0)

/-- One carry pass over the limbs below the top one, starting from carry `u`. -/
def carryPass (u : UInt32) (h : Limbs) : UInt32 × Limbs :=
  (List.range 16).foldl (fun (u, h) j =>
    let u := u + h[j]!
    (u >>> 8, h.setIfInBounds j (u &&& 255))) (u, h)

/-- The body of the `while` loop for the block `m` of one to sixteen bytes. -/
def poly1305Block (r h : Limbs) (m : List UInt8) : Limbs :=
  let c := (limbsOfBytes m m.length).setIfInBounds m.length 1
  let h := mulColumns (add1305 h c) r
  let (u, h) := carryPass 0 h
  let u := u + h[16]!
  let h := h.setIfInBounds 16 (u &&& 3)
  let u := (5 : UInt32) * (u >>> 2)
  let (u, h) := carryPass u h
  h.setIfInBounds 16 (u + h[16]!)

def poly1305Loop (r h : Limbs) (m : List UInt8) : Limbs :=
  if 0 < m.length then poly1305Loop r (poly1305Block r h (m.take 16)) (m.drop 16) else h
termination_by m.length

/-- `out[16] = Poly1305(m, key = k)`. -/
@[irreducible]
def poly1305 (m : List UInt8) (k : Bytes 32) : Bytes 16 :=
  let h := poly1305Loop (clampedKey k) (Vector.replicate 17 0) m
  let g := h
  let h := add1305 h minusp
  let s := -(h[16]! >>> 7)
  let h := Vector.zipWith (fun h g => h ^^^ (s &&& (g ^^^ h))) h g
  let c := limbsOfBytes (k.val.drop 16) 16
  let h := add1305 h c
  ⟨(List.range 16).map (fun j => h[j]!.toUInt8), by simp⟩

end NukiBridge.Crypto

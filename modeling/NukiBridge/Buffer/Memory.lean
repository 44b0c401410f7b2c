import Mathlib.Data.List.Basic
import Mathlib.Data.List.TakeDrop

/-! Byte buffers: arrays of a fixed length, copies into a buffer at an offset, and
what such copies leave. Bytes outside the copied range stay as they were. -/
namespace Buffer

/-- An array of exactly `n` bytes. -/
abbrev Bytes (n : Nat) := {bytes : List UInt8 // bytes.length = n}

namespace Bytes

@[simp] theorem length {n : Nat} (b : Bytes n) : b.val.length = n := b.property

/-- The zeroed array. -/
def zero (n : Nat) : Bytes n := ⟨List.replicate n 0, List.length_replicate⟩

instance {n : Nat} : Inhabited (Bytes n) := ⟨zero n⟩

/-- The `len` bytes from `off` on. -/
def slice {n : Nat} (b : Bytes n) (off len : Nat) (h : off + len ≤ n) : Bytes len :=
  ⟨(b.val.drop off).take len, by
    rw [List.length_take, List.length_drop, b.property]
    omega⟩

@[simp] theorem slice_val {n : Nat} (b : Bytes n) (off len : Nat) (h : off + len ≤ n) :
    (b.slice off len h).val = (b.val.drop off).take len := rfl

/-- The array with byte `i` replaced. -/
def set {n : Nat} (b : Bytes n) (i : Nat) (byte : UInt8) : Bytes n :=
  ⟨b.val.set i byte, by rw [List.length_set, b.property]⟩

/-- A byte stored right behind the part of the array that is already known. -/
theorem take_set {n : Nat} (b : Bytes n) {i : Nat} (byte : UInt8) (h : i < n) :
    (b.set i byte).val.take (i + 1) = b.val.take i ++ [byte] := by
  have hLen : i < b.val.length := by rwa [b.property]
  rw [set, List.take_set, List.take_add_one, List.getElem?_eq_getElem hLen, Option.toList_some,
    List.set_append_right _ _ (List.length_take_le i _), List.length_take,
    Nat.min_eq_left (Nat.le_of_lt hLen), Nat.sub_self]
  rfl

/-- The first `n` bytes of a buffer, read as zero where the buffer ends. -/
def ofList (n : Nat) (bytes : List UInt8) : Bytes n :=
  ⟨(bytes ++ List.replicate n 0).take n, by simp⟩

/-- From a list that is long enough, the first bytes are taken. -/
theorem ofList_val {n : Nat} {bytes : List UInt8} (h : n ≤ bytes.length) :
    (ofList n bytes).val = bytes.take n :=
  List.take_append_of_le_length h

@[simp] theorem ofList_self {n : Nat} (b : Bytes n) : ofList n b.val = b := by
  apply Subtype.ext
  rw [ofList_val (by simp), List.take_of_length_le (by simp)]

end Bytes

/-- Overwrite `dst` from `off` on with all of `src`. -/
def memcpy (dst : List UInt8) (off : Nat) (src : List UInt8) : List UInt8 :=
  dst.take off ++ src ++ dst.drop (off + src.length)

@[simp] theorem memcpy_nil (dst : List UInt8) (off : Nat) : memcpy dst off [] = dst := by
  simp [memcpy]

/-- A copy that fits changes no length. -/
@[simp] theorem length_memcpy {dst src : List UInt8} {off : Nat}
    (h : off + src.length ≤ dst.length) : (memcpy dst off src).length = dst.length := by
  simp only [memcpy, List.length_append, List.length_take, List.length_drop]
  omega

/-- A copy extends the part of the buffer that is already known. -/
theorem take_memcpy {dst src known : List UInt8} {off len : Nat} (h : dst.take off = known)
    (hOff : off ≤ dst.length) (hLen : len = off + src.length) :
    (memcpy dst off src).take len = known ++ src := by
  subst hLen h
  have hTake : (dst.take off ++ src).length = off + src.length := by
    rw [List.length_append, List.length_take, Nat.min_eq_left hOff]
  rw [memcpy, List.take_append_of_le_length (Nat.le_of_eq hTake.symm),
    List.take_of_length_le (Nat.le_of_eq hTake)]

/-- Copying to the front of a buffer. -/
theorem memcpy_zero (dst src : List UInt8) : memcpy dst 0 src = src ++ dst.drop src.length := by
  simp [memcpy]

/-- What was copied to the start is found there. -/
theorem take_memcpy_zero (dst src : List UInt8) :
    (memcpy dst 0 src).take src.length = src := by
  rw [memcpy_zero, List.take_append_of_le_length (Nat.le_refl _), List.take_length]

/-- Copies that follow each other from the front are one copy. -/
theorem memcpy_memcpy {dst first second : List UInt8} {off : Nat} (h : off = first.length) :
    memcpy (memcpy dst 0 first) off second = memcpy dst 0 (first ++ second) := by
  subst h
  rw [memcpy_zero, memcpy_zero, memcpy, List.take_append_of_le_length (Nat.le_refl _),
    List.take_length, List.drop_append, List.drop_of_length_le (Nat.le_add_right _ _),
    Nat.add_sub_cancel_left, List.drop_drop, List.nil_append, List.length_append]

/-- Reading an array after one entry was stored: the new entry at its place, and the old ones
elsewhere. -/
theorem getElem!_setIfInBounds {α : Type} [Inhabited α] {n : Nat} (w : Vector α n) {i k : Nat}
    (v : α) (h : k < n) : (w.setIfInBounds i v)[k]! = if i = k then v else w[k]! := by
  rw [getElem!_pos _ k h, getElem!_pos _ k h, Vector.getElem_setIfInBounds]

end Buffer

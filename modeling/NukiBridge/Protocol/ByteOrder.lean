import NukiBridge.Buffer.Memory
import Mathlib.Data.Nat.Bitwise

/-! Little-endian access as in Zephyr's `sys/byteorder.h`, and the error numbers
of the C library that the firmware returns. -/
namespace NukiBridge

/-- `sys_get_le16`. -/
def sysGetLe16 (src : List UInt8) : UInt16 :=
  (src.getD 1 0).toUInt16 <<< 8 ||| (src.getD 0 0).toUInt16

/-- `sys_put_le16`, as the two bytes it stores. -/
def sysPutLe16 (val : UInt16) : List UInt8 := [val.toUInt8, (val >>> 8).toUInt8]

/-- `sys_get_le32`. -/
def sysGetLe32 (src : List UInt8) : UInt32 :=
  (sysGetLe16 (src.drop 2)).toUInt32 <<< 16 ||| (sysGetLe16 src).toUInt32

/-- `sys_put_le32`, as the four bytes it stores. -/
def sysPutLe32 (val : UInt32) : List UInt8 :=
  sysPutLe16 val.toUInt16 ++ sysPutLe16 (val >>> 16).toUInt16

@[simp] theorem length_sysPutLe16 (val : UInt16) : (sysPutLe16 val).length = 2 := rfl

@[simp] theorem length_sysPutLe32 (val : UInt32) : (sysPutLe32 val).length = 4 := rfl

/-- Shifting and joining bytes is arithmetic in base 256 as long as the low part fits below the
shift. -/
theorem shiftLeft_or (high low width : Nat) (h : low < 2 ^ width) :
    high <<< width ||| low = 2 ^ width * high + low := by
  rw [← Nat.shiftLeft_add_eq_or_of_lt h, Nat.shiftLeft_eq, Nat.mul_comm]

theorem sysGetLe16_toNat (low high : UInt8) (rest : List UInt8) :
    (sysGetLe16 (low :: high :: rest)).toNat = 256 * high.toNat + low.toNat := by
  have hLow := low.toNat_lt
  have hHigh := high.toNat_lt
  have hShift : high.toNat <<< 8 < 65536 := by
    rw [Nat.shiftLeft_eq]
    omega
  simp only [sysGetLe16, List.getD_cons_succ, List.getD_cons_zero, UInt16.toNat_or,
    UInt16.toNat_shiftLeft, UInt8.toNat_toUInt16]
  change high.toNat <<< 8 % 65536 ||| low.toNat = _
  rw [Nat.mod_eq_of_lt hShift]
  exact shiftLeft_or _ _ 8 hLow

theorem sysGetLe32_toNat (src : List UInt8) :
    (sysGetLe32 src).toNat =
      65536 * (sysGetLe16 (src.drop 2)).toNat + (sysGetLe16 src).toNat := by
  have hLow := (sysGetLe16 src).toNat_lt
  have hHigh := (sysGetLe16 (src.drop 2)).toNat_lt
  have hShift : (sysGetLe16 (src.drop 2)).toNat <<< 16 < 4294967296 := by
    rw [Nat.shiftLeft_eq]
    omega
  simp only [sysGetLe32, UInt32.toNat_or, UInt32.toNat_shiftLeft, UInt16.toNat_toUInt32]
  change (sysGetLe16 (src.drop 2)).toNat <<< 16 % 4294967296 ||| (sysGetLe16 src).toNat = _
  rw [Nat.mod_eq_of_lt hShift]
  exact shiftLeft_or _ _ 16 hLow

@[simp] theorem sysGetLe16_sysPutLe16 (val : UInt16) (rest : List UInt8) :
    sysGetLe16 (sysPutLe16 val ++ rest) = val := by
  apply UInt16.toNat_inj.mp
  have h := val.toNat_lt
  simp only [sysPutLe16, List.cons_append, sysGetLe16_toNat]
  simp [Nat.shiftRight_eq_div_pow]
  omega

@[simp] theorem sysGetLe32_sysPutLe32 (val : UInt32) (rest : List UInt8) :
    sysGetLe32 (sysPutLe32 val ++ rest) = val := by
  apply UInt32.toNat_inj.mp
  have h := val.toNat_lt
  have hDrop : (sysPutLe32 val ++ rest).drop 2 = sysPutLe16 (val >>> 16).toUInt16 ++ rest := rfl
  rw [sysGetLe32_toNat, hDrop, sysGetLe16_sysPutLe16, sysPutLe32, List.append_assoc,
    sysGetLe16_sysPutLe16]
  simp [Nat.shiftRight_eq_div_pow]
  omega

/-- Storing what was loaded stores the loaded bytes. -/
theorem sysPutLe16_sysGetLe16 {src : List UInt8} (h : 2 ≤ src.length) :
    sysPutLe16 (sysGetLe16 src) = src.take 2 := by
  match src, h with
  | low :: high :: rest, _ =>
      have hLow := low.toNat_lt
      have hHigh := high.toNat_lt
      have hValue := sysGetLe16_toNat low high rest
      have first : (sysGetLe16 (low :: high :: rest)).toUInt8 = low := by
        apply UInt8.toNat_inj.mp
        simp [hValue]
      have second : (sysGetLe16 (low :: high :: rest) >>> 8).toUInt8 = high := by
        apply UInt8.toNat_inj.mp
        simp [hValue, Nat.shiftRight_eq_div_pow]
        omega
      simp [sysPutLe16, first, second]

/-- Four bytes that are read and written again stay the same, so a stored word is as good as its
bytes. -/
theorem sysPutLe32_sysGetLe32 {src : List UInt8} (h : 4 ≤ src.length) :
    sysPutLe32 (sysGetLe32 src) = src.take 4 := by
  have hLow := (sysGetLe16 src).toNat_lt
  have hHigh := (sysGetLe16 (src.drop 2)).toNat_lt
  have hValue := sysGetLe32_toNat src
  have first : (sysGetLe32 src).toUInt16 = sysGetLe16 src := by
    apply UInt16.toNat_inj.mp
    simp [hValue]
  have second : (sysGetLe32 src >>> 16).toUInt16 = sysGetLe16 (src.drop 2) := by
    apply UInt16.toNat_inj.mp
    simp [hValue, Nat.shiftRight_eq_div_pow]
    omega
  have hDrop : 2 ≤ (src.drop 2).length := by
    rw [List.length_drop]
    omega
  rw [sysPutLe32, first, second, sysPutLe16_sysGetLe16 (by omega), sysPutLe16_sysGetLe16 hDrop,
    ← List.take_add]

/-- Loads read the first bytes only. -/
theorem sysGetLe16_append {src : List UInt8} (rest : List UInt8) (h : 2 ≤ src.length) :
    sysGetLe16 (src ++ rest) = sysGetLe16 src := by
  match src, h with
  | _ :: _ :: _, _ => rfl

theorem sysGetLe32_append {src : List UInt8} (rest : List UInt8) (h : 4 ≤ src.length) :
    sysGetLe32 (src ++ rest) = sysGetLe32 src := by
  match src, h with
  | _ :: _ :: _ :: _ :: _, _ => rfl

/-! The error numbers of Zephyr's minimal C library; functions return them negated. -/

def enoent : Int := 2
def eio : Int := 5
def eagain : Int := 11
def enomem : Int := 12
def einval : Int := 22
def enodata : Int := 61
def ebadmsg : Int := 77
def etimedout : Int := 116
def enotconn : Int := 128
def enotsup : Int := 134

end NukiBridge

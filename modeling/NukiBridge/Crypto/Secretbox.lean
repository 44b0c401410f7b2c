import NukiBridge.Crypto.Salsa20
import NukiBridge.Crypto.Poly1305
import NukiBridge.Protocol.ByteOrder

/-! `nuki_crypto_e1` and `nuki_crypto_d1`: authenticated encryption in the
`tag | ciphertext` layout. One side takes the tag key and the keystream from a
single pass, the other from two; both agree because a keystream byte depends
on its position only. -/
namespace NukiBridge.Crypto

open Buffer

abbrev nukiKeyLen : Nat := 32
abbrev nukiNonceLen : Nat := 24
abbrev nukiTagLen : Nat := 16

/-- `NUKI_CRYPTO_MAX_MSG_LEN`. -/
def maxMsgLen : Nat := 256

def constantTimeEq16 (x y : Bytes 16) : Bool :=
  (List.range 16).foldl (fun d i =>
    d ||| (x.val.getD i 0 ^^^ y.val.getD i 0).toUInt32) (0 : UInt32) == 0

/-- `kdf1`: HSalsa20 of sixteen zero bytes. -/
def nukiCryptoKdf1 (dhResult : Bytes 32) : Bytes 32 :=
  coreHsalsa20 (List.replicate 16 0) dhResult

/-- Returns the error and the output buffer, which receives `tag | ciphertext`. -/
def nukiCryptoE1 (out msg : List UInt8) (nonce : Bytes 24) (key : Bytes 32) :
    Int × List UInt8 :=
  if msg.length > maxMsgLen then (-einval, out)
  else
    let paddedIn := List.replicate 32 0 ++ msg
    let paddedOut := xsalsa20Xor (some paddedIn) (32 + msg.length) nonce key
    let out := memcpy out 0 (poly1305 (paddedOut.drop 32) (Bytes.ofList 32 paddedOut)).val
    (0, memcpy out nukiTagLen (paddedOut.drop 32))

/-- Verifies the tag before it decrypts. `inp` starts with the tag, followed by
`msgLen` bytes of ciphertext. -/
def nukiCryptoD1 (out inp : List UInt8) (msgLen : Nat) (nonce : Bytes 24) (key : Bytes 32) :
    Int × List UInt8 :=
  if msgLen > maxMsgLen then (-einval, out)
  else
    let block0 := xsalsa20Xor none 64 nonce key
    let ciphertext := (inp.drop nukiTagLen).take msgLen
    let tag := poly1305 ciphertext (Bytes.ofList 32 block0)
    if !constantTimeEq16 tag (Bytes.ofList 16 inp) then (-ebadmsg, out)
    else
      let paddedIn := List.replicate 32 0 ++ ciphertext
      let paddedOut := xsalsa20Xor (some paddedIn) (32 + msgLen) nonce key
      (0, memcpy out 0 (paddedOut.drop 32))

private theorem foldl_or_eq_zero {α : Type} (f : α → UInt32) (xs : List α) (d : UInt32) :
    xs.foldl (fun d i => d ||| f i) d = 0 ↔ d = 0 ∧ ∀ i ∈ xs, f i = 0 := by
  induction xs generalizing d with
  | nil => simp
  | cons x xs ih => simp [ih, and_assoc]

/-- The comparison collects the differences of all bytes before it looks at them, and still decides
equality. -/
theorem constantTimeEq16_iff (x y : Bytes 16) : constantTimeEq16 x y = true ↔ x = y := by
  have hByte : ∀ i, (x.val.getD i 0 ^^^ y.val.getD i 0).toUInt32 = 0 ↔
      x.val.getD i 0 = y.val.getD i 0 := by
    intro i
    rw [← UInt8.xor_eq_zero_iff, ← UInt8.toUInt32_inj]
    rfl
  simp only [constantTimeEq16, beq_iff_eq, foldl_or_eq_zero, true_and, List.mem_range, hByte]
  constructor
  · intro h
    apply Subtype.ext
    apply List.ext_getElem (by simp)
    intro i hx hy
    have hAt := h i (by simpa using hx)
    rwa [List.getD_eq_getElem _ _ hx, List.getD_eq_getElem _ _ hy] at hAt
  · rintro rfl i _
    rfl

section Format

variable (nonce : Bytes 24) (key : Bytes 32)

/-- The tag key: the first 32 bytes of the keystream. -/
def tagKey : Bytes 32 :=
  ⟨(List.range 32).map (xsalsa20Byte nonce key), by simp⟩

/-- A message combined with the keystream after the tag key. -/
def masked (msg : List UInt8) : List UInt8 :=
  (List.range msg.length).map fun i => msg.getD i 0 ^^^ xsalsa20Byte nonce key (32 + i)

/-- The format itself: the tag of the ciphertext, then the ciphertext. -/
def secretbox (msg : List UInt8) : List UInt8 :=
  (poly1305 (masked nonce key msg) (tagKey nonce key)).val ++ masked nonce key msg

@[simp] theorem length_masked (msg : List UInt8) :
    (masked nonce key msg).length = msg.length := by
  simp [masked]

@[simp] theorem length_secretbox (msg : List UInt8) :
    (secretbox nonce key msg).length = 16 + msg.length := by
  simp [secretbox]

/-- Masking twice restores the message. -/
@[simp] theorem masked_masked (msg : List UInt8) :
    masked nonce key (masked nonce key msg) = msg := by
  apply List.ext_getElem (by simp)
  intro i hMasked hMsg
  have hGet : ∀ text : List UInt8, ∀ h : i < (masked nonce key text).length,
      (masked nonce key text)[i] = text.getD i 0 ^^^ xsalsa20Byte nonce key (32 + i) := by
    intro text h
    simp only [masked, List.getElem_map, List.getElem_range]
  have hOnce : i < (masked nonce key msg).length := by simpa using hMsg
  rw [hGet _ hMasked, List.getD_eq_getElem _ _ hOnce, hGet _ hOnce, UInt8.xor_assoc,
    UInt8.xor_self, UInt8.xor_zero, List.getD_eq_getElem _ _ hMsg]

/-- No two messages are sealed alike under one key and nonce, since the mask can be taken off
again. -/
theorem secretbox_injective : Function.Injective (secretbox nonce key) := by
  intro first second h
  have hMasked := congrArg (List.drop 16) h
  simp only [secretbox, List.drop_append_of_le_length (Bytes.length _).ge,
    List.drop_of_length_le (Bytes.length _).le, List.nil_append] at hMasked
  rw [← masked_masked nonce key first, hMasked, masked_masked]

private theorem inputByte_zeros (n : Nat) (msg : List UInt8) {i : Nat} (h : i < n) :
    inputByte (some (List.replicate n 0 ++ msg)) i = 0 := by
  simp [inputByte, List.getD_eq_getElem?_getD, List.getElem?_append_left, h]

private theorem inputByte_padded (n : Nat) (msg : List UInt8) (i : Nat) :
    inputByte (some (List.replicate n 0 ++ msg)) (n + i) = msg.getD i 0 := by
  simp [inputByte, List.getD_eq_getElem?_getD, List.getElem?_append_right]

/-- One pass over the padded message yields the tag key and the ciphertext. -/
theorem xsalsa20Xor_padded (msg : List UInt8) :
    xsalsa20Xor (some (List.replicate 32 0 ++ msg)) (32 + msg.length) nonce key =
      (tagKey nonce key).val ++ masked nonce key msg := by
  rw [xsalsa20Xor_eq, List.range_add, List.map_append, List.map_map]
  congr 1
  · apply List.map_congr_left
    intro i hi
    rw [inputByte_zeros 32 msg (List.mem_range.mp hi), UInt8.zero_xor]
  · apply List.map_congr_left
    intro i _
    rw [Function.comp_apply, inputByte_padded]

/-- The separate first block of the decryption starts with the same tag key. -/
theorem ofList_block0 : Bytes.ofList 32 (xsalsa20Xor none 64 nonce key) = tagKey nonce key := by
  apply Subtype.ext
  have hSplit : xsalsa20Xor none 64 nonce key = (tagKey nonce key).val ++
      (List.range 32).map (fun i => xsalsa20Byte nonce key (32 + i)) := by
    rw [xsalsa20Xor_eq, show 64 = 32 + 32 from rfl, List.range_add, List.map_append, List.map_map]
    congr 1 <;> simp [tagKey, inputByte, Function.comp_def]
  rw [Bytes.ofList_val (by simp), hSplit, List.take_append_of_le_length (by simp),
    List.take_of_length_le (by simp)]

/-- For every message that fits, encryption succeeds and writes the sealed box to the start of the
buffer, tag first. -/
theorem nukiCryptoE1_eq (out : List UInt8) {msg : List UInt8} (h : msg.length ≤ maxMsgLen) :
    nukiCryptoE1 out msg nonce key = (0, memcpy out 0 (secretbox nonce key msg)) := by
  have hTag : Bytes.ofList 32 ((tagKey nonce key).val ++ masked nonce key msg) =
      tagKey nonce key := by
    apply Subtype.ext
    rw [Bytes.ofList_val (by simp), List.take_append_of_le_length (by simp),
      List.take_of_length_le (by simp)]
  have hCipher : ((tagKey nonce key).val ++ masked nonce key msg).drop 32 =
      masked nonce key msg := by
    rw [List.drop_append_of_le_length (by simp), List.drop_of_length_le (by simp),
      List.nil_append]
  rw [nukiCryptoE1, if_neg (Nat.not_lt.mpr h)]
  simp only [xsalsa20Xor_padded, hTag, hCipher, nukiTagLen]
  rw [memcpy_memcpy (by simp), secretbox]

/-- A longer message is refused before anything is computed, and the output keeps its bytes. -/
theorem nukiCryptoE1_tooLong (out : List UInt8) {msg : List UInt8} (h : maxMsgLen < msg.length) :
    nukiCryptoE1 out msg nonce key = (-einval, out) := if_pos h

/-- What decryption does with `tag | ciphertext`: it accepts exactly the tag
that the ciphertext has, and only then writes. -/
theorem nukiCryptoD1_eq (out : List UInt8) {inp : List UInt8} {msgLen : Nat}
    (h : msgLen ≤ maxMsgLen) (hLen : 16 + msgLen ≤ inp.length) :
    nukiCryptoD1 out inp msgLen nonce key =
      if inp.take (16 + msgLen) = secretbox nonce key (masked nonce key ((inp.drop 16).take msgLen))
      then (0, memcpy out 0 (masked nonce key ((inp.drop 16).take msgLen)))
      else (-ebadmsg, out) := by
  have hCipher : ((inp.drop 16).take msgLen).length = msgLen := by
    rw [List.length_take, List.length_drop]
    omega
  have hPass := xsalsa20Xor_padded nonce key ((inp.drop 16).take msgLen)
  rw [hCipher] at hPass
  have hPlain : ((tagKey nonce key).val ++ masked nonce key ((inp.drop 16).take msgLen)).drop 32 =
      masked nonce key ((inp.drop 16).take msgLen) := by
    rw [List.drop_append_of_le_length (by simp), List.drop_of_length_le (by simp),
      List.nil_append]
  have hAccept : constantTimeEq16
      (poly1305 ((inp.drop 16).take msgLen) (tagKey nonce key)) (Bytes.ofList 16 inp) = true ↔
      inp.take (16 + msgLen) =
        secretbox nonce key (masked nonce key ((inp.drop 16).take msgLen)) := by
    rw [constantTimeEq16_iff, Subtype.ext_iff, Bytes.ofList_val (by omega), secretbox,
      masked_masked, List.take_add, List.append_cancel_right_eq]
    exact eq_comm
  rw [nukiCryptoD1, if_neg (Nat.not_lt.mpr h)]
  simp only [ofList_block0, nukiTagLen, hPass, hPlain, Bool.not_eq_true', ← Bool.not_eq_true,
    ite_not, hAccept]

/-- Decryption of what encryption produces restores the message, for every message that fits. -/
theorem nukiCryptoD1_secretbox (out : List UInt8) {msg inp : List UInt8}
    (h : msg.length ≤ maxMsgLen) (hInp : inp.take (16 + msg.length) = secretbox nonce key msg) :
    nukiCryptoD1 out inp msg.length nonce key = (0, memcpy out 0 msg) := by
  have hLen : 16 + msg.length ≤ inp.length := by
    have hLen := congrArg List.length hInp
    rw [length_secretbox, List.length_take] at hLen
    omega
  have hCipher : (inp.drop 16).take msg.length = masked nonce key msg := by
    rw [List.take_drop, hInp, secretbox, List.drop_append_of_le_length (by simp),
      List.drop_of_length_le (by simp), List.nil_append]
  rw [nukiCryptoD1_eq nonce key out h hLen, hCipher, masked_masked, if_pos hInp]

/-- Decryption accepts only what encryption produces. Anything else fails the comparison of the
tags. -/
theorem secretbox_of_nukiCryptoD1 {out out' inp : List UInt8} {msgLen : Nat}
    (h : msgLen ≤ maxMsgLen) (hLen : 16 + msgLen ≤ inp.length)
    (accepts : nukiCryptoD1 out inp msgLen nonce key = (0, out')) :
    ∃ msg, msg.length = msgLen ∧ inp.take (16 + msgLen) = secretbox nonce key msg ∧
      out' = memcpy out 0 msg := by
  rw [nukiCryptoD1_eq nonce key out h hLen] at accepts
  split at accepts
  · rename_i hTag
    refine ⟨_, ?_, hTag, (congrArg Prod.snd accepts).symm⟩
    rw [length_masked, List.length_take, List.length_drop]
    omega
  · exact absurd (congrArg Prod.fst accepts) (by simp [ebadmsg])

/-- A refusal leaves the output alone and has one of two reasons. -/
theorem nukiCryptoD1_refuses {out inp : List UInt8} {msgLen : Nat}
    (refuses : (nukiCryptoD1 out inp msgLen nonce key).1 ≠ 0) :
    nukiCryptoD1 out inp msgLen nonce key = (-einval, out) ∧ maxMsgLen < msgLen ∨
      nukiCryptoD1 out inp msgLen nonce key = (-ebadmsg, out) ∧ msgLen ≤ maxMsgLen := by
  unfold nukiCryptoD1 at refuses ⊢
  split
  · rename_i h
    exact Or.inl ⟨rfl, h⟩
  · rename_i h
    rw [if_neg h] at refuses
    simp only at refuses ⊢
    split
    · exact Or.inr ⟨rfl, Nat.le_of_not_lt h⟩
    · rename_i hTag
      rw [if_neg hTag] at refuses
      exact absurd rfl refuses

end Format

/-- The two functions are exact inverses over the whole format. -/
theorem nukiCryptoE1_nukiCryptoD1_inverse (nonce : Bytes 24) (key : Bytes 32) :
    (∀ msg out out' : List UInt8, msg.length ≤ maxMsgLen →
      (nukiCryptoE1 out msg nonce key).1 = 0 ∧
        nukiCryptoD1 out' (nukiCryptoE1 out msg nonce key).2 msg.length nonce key =
          (0, memcpy out' 0 msg)) ∧
    (∀ (n : Nat) (inp out out' : List UInt8), n ≤ maxMsgLen → inp.length = 16 + n →
      nukiCryptoD1 out inp n nonce key = (0, out') →
      ∃ p : List UInt8, p.length = n ∧ out' = memcpy out 0 p ∧
        ∀ buf : List UInt8, nukiCryptoE1 buf p nonce key = (0, memcpy buf 0 inp)) ∧
    (∀ (n : Nat) (inp out : List UInt8), (nukiCryptoD1 out inp n nonce key).1 ≠ 0 →
      nukiCryptoD1 out inp n nonce key = (-einval, out) ∧ maxMsgLen < n ∨
        nukiCryptoD1 out inp n nonce key = (-ebadmsg, out) ∧ n ≤ maxMsgLen) ∧
    (∀ msg out : List UInt8, maxMsgLen < msg.length →
      nukiCryptoE1 out msg nonce key = (-einval, out)) := by
  refine ⟨?_, ?_, ?_, ?_⟩
  · intro msg out out' h
    rw [nukiCryptoE1_eq nonce key out h]
    refine ⟨rfl, nukiCryptoD1_secretbox nonce key out' h ?_⟩
    rw [← length_secretbox nonce key msg, take_memcpy_zero]
  · intro n inp out out' h hLen accepts
    obtain ⟨msg, hMsg, hInp, hOut⟩ := secretbox_of_nukiCryptoD1 nonce key h hLen.ge accepts
    refine ⟨msg, hMsg, hOut, fun buf => ?_⟩
    rw [List.take_of_length_le hLen.le] at hInp
    rw [nukiCryptoE1_eq nonce key buf (hMsg.trans_le h), hInp]
  · exact fun n inp out => nukiCryptoD1_refuses nonce key
  · exact fun msg out => nukiCryptoE1_tooLong nonce key out

end NukiBridge.Crypto

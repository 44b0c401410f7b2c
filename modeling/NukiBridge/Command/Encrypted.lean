import NukiBridge.Crypto.Secretbox
import NukiBridge.Transport.Calls

/-! One encrypted message in each direction over USDIO: `send_encrypted` and
`recv_encrypted` of `nuki_command.c`. -/
namespace NukiBridge

open Buffer Interaction Crypto

/-- `ADATA_HDR_LEN`: nonce, authorization id and message length. -/
abbrev adataHdrLen : Nat := 30

/-- `MAX_PLAINTEXT`. -/
def maxPlaintext : Nat := 200

/-- `RECV_TIMEOUT` of `nuki_command.c`. -/
def commandRecvTimeout : Nat := 10

/-- The output variables of `recv_encrypted`: the payload buffer of the caller
and how much of it was received. -/
structure Received where
  cmd : UInt16
  payload : List UInt8
  payloadLen : Nat

/-- The wire format of an encrypted message. -/
def wireMessage (nonce : Bytes 24) (sharedKey : Bytes 32) (authId : UInt32) (cmd : UInt16)
    (payload : List UInt8) : List UInt8 :=
  nonce.val ++ sysPutLe32 authId ++ sysPutLe16 (UInt16.ofNat (nukiTagLen + (8 + payload.length))) ++
    secretbox nonce sharedKey (authFrame authId cmd payload)

/-- The length of a message on the wire: header, tag, and the eight bytes of the frame around the
payload. -/
@[simp] theorem length_wireMessage (nonce : Bytes 24) (sharedKey : Bytes 32) (authId : UInt32)
    (cmd : UInt16) (payload : List UInt8) :
    (wireMessage nonce sharedKey authId cmd payload).length =
      adataHdrLen + nukiTagLen + (8 + payload.length) := by
  simp only [wireMessage, List.length_append, Bytes.length, length_sysPutLe32,
    length_sysPutLe16, length_secretbox, length_authFrame, adataHdrLen, nukiTagLen]
  omega

def sendEncrypted (authId : UInt32) (sharedKey : Bytes 32) (cmd : UInt16)
    (payload : List UInt8) : Code Int := do
  let (plainLen, plain) :=
    nukiFrameBuildAuth (List.replicate frameMaxLen 0) frameMaxLen authId cmd payload
  if plainLen = 0 then return -einval
  let nonce ← Code.of (.sysRandGet nukiNonceLen)
  let (err, sealed) := nukiCryptoE1 (List.replicate (nukiTagLen + frameMaxLen) 0)
    (plain.take plainLen) nonce sharedKey
  if err ≠ 0 then return err
  let wire := nonce.val ++ sysPutLe32 authId ++
    sysPutLe16 (UInt16.ofNat (nukiTagLen + plainLen)) ++ sealed
  nukiTransportWrite (wire.take (adataHdrLen + nukiTagLen + plainLen))

/-- The part of `recv_encrypted` after the complete message was taken out of the
transport: decrypt, parse, hand out. -/
def openReceived (sharedKey : Bytes 32) (out : Received) (payloadMax : Nat) (nonce : Bytes 24)
    (wire : List UInt8) (plainLen : Nat) : Code (Int × Received) := do
  let (err, plain) := nukiCryptoD1 (List.replicate (nukiTagLen + maxPlaintext) 0)
    (wire.drop adataHdrLen) plainLen nonce sharedKey
  if err ≠ 0 then
    Code.log "decrypt/authenticate failed (%d)" [err]
    return (err, out)
  let (err, frame) := nukiFrameParseAuth (plain.take plainLen) ⟨0, out.cmd, []⟩
  if err ≠ 0 then
    Code.log "plaintext frame parse/CRC failed (%d)" [err]
    return (err, out)
  let out := { out with cmd := frame.commandId }
  if frame.payload.length > payloadMax then return (-enomem, out)
  return (0, { out with
    payload := memcpy out.payload 0 frame.payload, payloadLen := frame.payload.length })

/-- Waits for one complete message, decrypts and parses it. The caller's
variables are taken as they are found and returned as they are left. -/
def recvEncrypted (sharedKey : Bytes 32) (out : Received) (payloadMax : Nat) :
    Code (Int × Received) := do
  let err ← Code.of (.waitMin adataHdrLen commandRecvTimeout)
  if err ≠ (0 : Int) then return (err, out)
  let header : Bytes adataHdrLen ← Code.of (.peek adataHdrLen)
  let nonce : Bytes 24 := header.slice 0 24 (by decide)
  let ctLen := (sysGetLe16 (header.val.drop 28)).toNat
  if ctLen < nukiTagLen ∨ ctLen > nukiTagLen + maxPlaintext then
    Code.log "implausible encrypted message length %zu" [ctLen]
    let _ ← Code.of .reset
    return (-ebadmsg, out)
  let totalLen := adataHdrLen + ctLen
  let err ← Code.of (.waitMin totalLen commandRecvTimeout)
  if err ≠ (0 : Int) then return (err, out)
  let wire : Bytes totalLen ← Code.of (.peek totalLen)
  let _ ← Code.of .reset
  openReceived sharedKey out payloadMax nonce wire.val (ctLen - nukiTagLen)

/-- The longest payload whose frame fits into `NUKI_FRAME_MAX_LEN`. -/
def payloadMaxLen : Nat := 152

/-- Where the payload fits, sending draws one nonce and writes the message sealed under it. All
callers in the repository are in this case. -/
theorem sendEncrypted_eq (authId : UInt32) (sharedKey : Bytes 32) (cmd : UInt16)
    {payload : List UInt8} (h : payload.length ≤ payloadMaxLen) :
    sendEncrypted authId sharedKey cmd payload =
      (Code.of (.sysRandGet nukiNonceLen)).bind fun nonce =>
        nukiTransportWrite (wireMessage nonce sharedKey authId cmd payload) := by
  have hFrame : (authFrame authId cmd payload).length = 8 + payload.length := by
    rw [length_authFrame]
    omega
  have hFits : (authFrame authId cmd payload).length ≤ frameMaxLen := by
    rw [hFrame]
    exact Nat.add_le_add_left h 8
  have hMsg : (authFrame authId cmd payload).length ≤ maxMsgLen :=
    hFits.trans (by decide)
  have hBuild := nukiFrameBuildAuth_eq (List.replicate frameMaxLen 0) frameMaxLen authId cmd payload
  rw [if_pos hFits] at hBuild
  rw [sendEncrypted, hBuild]
  simp only [hFrame]
  rw [if_neg (by omega)]
  have hPlain : (memcpy (List.replicate frameMaxLen 0) 0 (authFrame authId cmd payload)).take
      (8 + payload.length) = authFrame authId cmd payload := by
    rw [← hFrame, take_memcpy_zero]
  simp only [Program.bind_eq, hPlain]
  congr 1
  funext nonce
  rw [nukiCryptoE1_eq nonce sharedKey _ hMsg]
  simp only [ne_eq, not_true, if_false]
  have hWire := length_wireMessage nonce sharedKey authId cmd payload
  rw [memcpy_zero, ← List.append_assoc, ← hWire]
  exact congrArg nukiTransportWrite (List.take_left)

/-- Opening hands out the frame that the message seals, and otherwise reports an
error and leaves the caller's variables alone. -/
theorem openReceived_cases (sharedKey : Bytes 32) (out : Received) (nonce : Bytes 24)
    (wire : List UInt8) {plainLen : Nat} (hMax : plainLen ≤ maxPlaintext)
    (hLen : (wire.drop adataHdrLen).length = 16 + plainLen) :
    (∃ authId cmd payload, wire.drop adataHdrLen =
        secretbox nonce sharedKey (authFrame authId cmd payload) ∧
      payload.length ≤ maxPlaintext ∧
      openReceived sharedKey out maxPlaintext nonce wire plainLen =
        .done (0, ⟨cmd, memcpy out.payload 0 payload, payload.length⟩)) ∨
    ((∀ authId cmd payload, wire.drop adataHdrLen ≠
        secretbox nonce sharedKey (authFrame authId cmd payload)) ∧
      ∃ err text, err ≠ 0 ∧ openReceived sharedKey out maxPlaintext nonce wire plainLen =
        .call (.log text [err]) fun _ => .done (err, out)) := by
  have hMsg : plainLen ≤ maxMsgLen := hMax.trans (by decide)
  by_cases accepts : ∃ msg, wire.drop adataHdrLen = secretbox nonce sharedKey msg
  · obtain ⟨msg, hSealed⟩ := accepts
    have hPlain : msg.length = plainLen := by
      rw [hSealed, length_secretbox] at hLen
      omega
    subst hPlain
    have hInp : (wire.drop adataHdrLen).take (16 + msg.length) = secretbox nonce sharedKey msg := by
      rw [List.take_of_length_le hLen.le, hSealed]
    have hOpen := nukiCryptoD1_secretbox nonce sharedKey
      (List.replicate (nukiTagLen + maxPlaintext) 0) hMsg hInp
    rw [openReceived, hOpen]
    simp only [ne_eq, not_true, if_false, take_memcpy_zero]
    have refused {err : Int} (hErr : err ≠ 0)
        (hParse : nukiFrameParseAuth msg ⟨0, out.cmd, []⟩ = (err, ⟨0, out.cmd, []⟩)) :
        ∀ authId cmd payload, wire.drop adataHdrLen ≠
          secretbox nonce sharedKey (authFrame authId cmd payload) := by
      intro authId cmd payload hOther
      have hMsg := secretbox_injective nonce sharedKey (hSealed.symm.trans hOther)
      rw [hMsg, nukiFrameParseAuth_authFrame] at hParse
      exact hErr (congrArg Prod.fst hParse).symm
    rcases nukiFrameParseAuth_cases msg ⟨0, out.cmd, []⟩ with
      ⟨body, hBody, rfl⟩ | ⟨hParse, -⟩ | ⟨hParse, -⟩
    · rw [length_withCrc] at hMax
      refine Or.inl ⟨sysGetLe32 body, sysGetLe16 (body.drop 4), body.drop 6, ?_, ?_, ?_⟩
      · rw [hSealed, authFrame, authBody_eq hBody]
      · rw [List.length_drop]
        omega
      · rw [nukiFrameParseAuth_withCrc hBody]
        simp only [not_true, if_false]
        rw [if_neg (by rw [List.length_drop]; omega)]
        rfl
    · refine Or.inr ⟨refused (by decide) hParse, -einval,
        "plaintext frame parse/CRC failed (%d)", by decide, ?_⟩
      rw [hParse]
      rfl
    · refine Or.inr ⟨refused (by decide) hParse, -ebadmsg,
        "plaintext frame parse/CRC failed (%d)", by decide, ?_⟩
      rw [hParse]
      rfl
  · have hRefused : (nukiCryptoD1 (List.replicate (nukiTagLen + maxPlaintext) 0)
        (wire.drop adataHdrLen) plainLen nonce sharedKey).1 ≠ 0 := by
      intro hAccepted
      obtain ⟨msg, -, hSealed, -⟩ := secretbox_of_nukiCryptoD1 nonce sharedKey hMsg hLen.ge
        (Prod.ext hAccepted rfl)
      rw [List.take_of_length_le hLen.le] at hSealed
      exact accepts ⟨msg, hSealed⟩
    refine Or.inr ⟨fun _ _ _ h => accepts ⟨_, h⟩, _, "decrypt/authenticate failed (%d)",
      hRefused, ?_⟩
    rw [openReceived]
    simp only [if_pos hRefused]
    rfl

end NukiBridge

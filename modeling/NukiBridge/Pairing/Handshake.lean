import NukiBridge.Crypto.Secretbox
import NukiBridge.Interaction.Attempt
import NukiBridge.Transport.Calls

/-! The "Authorize App" handshake of `nuki_pairing.c`, with the PSA side of
`nuki_crypto.c`. Where the source returns at the first error, so does an
attempt. What an uninitialised buffer holds is a parameter of the code. -/
namespace NukiBridge

open Buffer Interaction Crypto

/-! The functions of `nuki_crypto.c` that PSA Crypto carries out. A key id stands
for the key it was imported or generated as. -/

def nukiCryptoInit : Code Int := do
  let status ← Code.of .psaCryptoInit
  return if status = psaSuccess then 0 else -eio

/-- Returns the error, the public and the private key. -/
def nukiCryptoKeypair (pub priv : Bytes 32) : Code (Int × Bytes 32 × Bytes 32) := do
  let status ← Code.of .psaGenerateKey
  if status ≠ psaSuccess then return (-eio, pub, priv)
  let exported ← Code.of .psaExportKey
  let priv := exported.out
  if exported.status ≠ psaSuccess ∨ exported.outLen ≠ nukiKeyLen then
    let _ ← Code.of .psaDestroyKey
    return (-eio, pub, priv)
  let exported ← Code.of .psaExportPublicKey
  let pub := exported.out
  let _ ← Code.of .psaDestroyKey
  if exported.status ≠ psaSuccess ∨ exported.outLen ≠ nukiKeyLen then return (-eio, pub, priv)
  return (0, pub, priv)

def nukiCryptoDh1 (out priv pub : Bytes 32) : Code (Int × Bytes 32) := do
  let status ← Code.of (.psaImportKey priv)
  if status ≠ psaSuccess then return (-eio, out)
  let agreed ← Code.of (.psaRawKeyAgreement priv pub)
  let _ ← Code.of .psaDestroyKey
  if agreed.status ≠ psaSuccess ∨ agreed.outLen ≠ nukiKeyLen then return (-eio, agreed.out)
  return (0, agreed.out)

def nukiCryptoH1 (out key : Bytes 32) (data : List UInt8) : Code (Int × Bytes 32) := do
  let status ← Code.of (.psaImportKey key)
  if status ≠ psaSuccess then return (-eio, out)
  let mac ← Code.of (.psaMacCompute key data)
  let _ ← Code.of .psaDestroyKey
  if mac.status ≠ psaSuccess ∨ mac.outLen ≠ 32 then return (-eio, mac.out)
  return (0, mac.out)

/-- `NUKI_APP_NAME`. -/
def nukiAppName : List UInt8 := "NRF52840 Central".toList.map fun c => c.toNat.toUInt8

/-- `NUKI_NAME_LEN`. -/
def nukiNameLen : Nat := 32

theorem length_nukiAppName : nukiAppName.length = 16 := by decide

/-- The name field holds the name, padded by zeros. -/
theorem memcpy_nukiAppName :
    memcpy (List.replicate nukiNameLen 0) 0
      (nukiAppName.take (min nukiAppName.length nukiNameLen)) =
        nukiAppName ++ List.replicate 16 0 := by
  rw [Nat.min_eq_left (by rw [length_nukiAppName]; decide), List.take_length, memcpy_zero,
    List.drop_replicate, length_nukiAppName]
  rfl

/-- `NUKI_ID_TYPE_APP`. -/
def idTypeApp : UInt8 := 0

/-- `RECV_TIMEOUT` of `nuki_pairing.c`. -/
def pairingRecvTimeout : Nat := 15

def sendPlain (cmd : UInt16) (payload : List UInt8) : Code Int := do
  let (len, frame) := nukiFrameBuildPlain (List.replicate frameMaxLen 0) frameMaxLen cmd payload
  if len = 0 then return -einval
  nukiTransportWrite (frame.take len)

/-- A payload that fits is written as one frame. -/
theorem sendPlain_eq {cmd : UInt16} {payload : List UInt8} (h : payload.length ≤ 156) :
    sendPlain cmd payload = nukiTransportWrite (plainFrame cmd payload) := by
  have hFits : (plainFrame cmd payload).length ≤ frameMaxLen := by
    rw [length_plainFrame, frameMaxLen]
    omega
  have hLen : (plainFrame cmd payload).length ≠ 0 := by
    rw [length_plainFrame]
    omega
  rw [sendPlain, nukiFrameBuildPlain_eq, if_pos hFits]
  simp only [if_neg hLen, take_memcpy_zero]

/-- The length of the frame that starts with the command. -/
def expectedLen (cmd : UInt16) (payloadLen : Nat) : Nat :=
  if cmd = Cmd.errorReport then 2 + 3 + 2
  else if cmd = Cmd.status then 2 + 1 + 2
  else 2 + payloadLen + 2

/-- `recv_plain` from the complete frame on. -/
def openPlain {payloadLen : Nat} (expectCmd : UInt16) (payloadOut : Bytes payloadLen)
    (cmd : UInt16) (frame : List UInt8) : Code (Int × Bytes payloadLen) := do
  let (err, parsed) := nukiFrameParsePlain frame ⟨cmd, []⟩
  if err ≠ 0 then
    Code.log "frame parse/CRC failed (%d)" [err]
    return (err, payloadOut)
  if parsed.commandId = Cmd.errorReport ∧ parsed.payload.length = 3 then
    Code.log "lock rejected the previous message: error code %d for command 0x%04x"
      [(parsed.payload.getD 0 0).toInt8.toInt, (sysGetLe16 (parsed.payload.drop 1)).toNat]
    return (-eio, payloadOut)
  if parsed.commandId = Cmd.status ∧ parsed.payload.length = 1 ∧ expectCmd ≠ Cmd.status then
    Code.log "lock sent Status 0x%02x instead of command 0x%04x"
      [(parsed.payload.getD 0 0).toNat, expectCmd.toNat]
    return (-ebadmsg, payloadOut)
  if parsed.commandId ≠ expectCmd ∨ parsed.payload.length ≠ payloadLen then
    Code.log "unexpected response: cmd=0x%04x len=%zu (expected 0x%04x/%zu)"
      [parsed.commandId.toNat, parsed.payload.length, expectCmd.toNat, payloadLen]
    return (-ebadmsg, payloadOut)
  return (0, Bytes.ofList payloadLen parsed.payload)

/-- Waits for a plain frame with the command and with a payload of exactly the
length of the buffer. The length waited for is that of the command seen. -/
def recvPlain {payloadLen : Nat} (expectCmd : UInt16) (payloadOut : Bytes payloadLen) :
    Code (Int × Bytes payloadLen) := do
  let err ← Code.of (.waitMin 2 pairingRecvTimeout)
  if err ≠ (0 : Int) then
    Code.log "timeout waiting for command 0x%04x (no response at all)" [expectCmd.toNat]
    return (err, payloadOut)
  let hdr : Bytes 2 ← Code.of (.peek 2)
  let cmd := sysGetLe16 hdr.val
  let frameLen := expectedLen cmd payloadLen
  let err ← Code.of (.waitMin frameLen pairingRecvTimeout)
  if err ≠ (0 : Int) then
    let rxLen : Nat ← Code.of .rxLen
    let got := min rxLen frameMaxLen
    let seen : Bytes got ← Code.of (.peek got)
    Code.log "timeout waiting for command 0x%04x (saw start of 0x%04x, wanted %zu bytes, only got %zu)"
      [expectCmd.toNat, cmd.toNat, frameLen, got]
    let _ ← Code.of (.logHexdump "partial data received:" seen.val)
    return (err, payloadOut)
  let frame : Bytes frameLen ← Code.of (.peek frameLen)
  let _ ← Code.of .reset
  openPlain expectCmd payloadOut cmd frame.val

/-- The frame either is what was waited for, or is refused with an error. -/
theorem openPlain_cases {payloadLen : Nat} {expectCmd : UInt16} (out : Bytes payloadLen)
    (cmd : UInt16) (frame : List UInt8) (noReport : expectCmd ≠ Cmd.errorReport) :
    (∃ payload : Bytes payloadLen, frame = plainFrame expectCmd payload.val ∧
      openPlain expectCmd out cmd frame = .done (0, payload)) ∨
    (∀ payload : Bytes payloadLen, frame ≠ plainFrame expectCmd payload.val) ∧
      ∃ err text args, err ≠ 0 ∧
        openPlain expectCmd out cmd frame = (Code.log text args).bind fun _ => .done (err, out) := by
  rw [openPlain]
  generalize hParsed : nukiFrameParsePlain frame ⟨cmd, []⟩ = result
  obtain ⟨err, parsed⟩ := result
  have hFrame (payload : Bytes payloadLen) (h : frame = plainFrame expectCmd payload.val) :
      err = 0 ∧ parsed = ⟨expectCmd, payload.val⟩ := by
    rw [h, nukiFrameParsePlain_plainFrame] at hParsed
    exact ⟨(congrArg Prod.fst hParsed).symm, (congrArg Prod.snd hParsed).symm⟩
  simp only
  split
  · rename_i hErr
    exact Or.inr ⟨fun payload h => hErr (hFrame payload h).1, _, _, _, hErr, rfl⟩
  · rename_i hErr
    split
    · rename_i hReport
      refine Or.inr ⟨fun payload h => noReport ?_, _, _, _, by decide, rfl⟩
      rw [← hReport.1, (hFrame payload h).2]
    · split
      · rename_i hStatus
        refine Or.inr ⟨fun payload h => hStatus.2.2 ?_, _, _, _, by decide, rfl⟩
        rw [← hStatus.1, (hFrame payload h).2]
      · split
        · rename_i hOther
          refine Or.inr ⟨fun payload h => ?_, _, _, _, by decide, rfl⟩
          rw [(hFrame payload h).2] at hOther
          exact hOther.elim (absurd rfl) (absurd payload.length)
        · rename_i hExpected
          rw [not_or, not_not, not_not] at hExpected
          rw [not_not.mp hErr, nukiFrameParsePlain_eq_zero_iff, hExpected.1] at hParsed
          have hPayload := Bytes.ofList_self ⟨parsed.payload, hExpected.2⟩
          exact Or.inl ⟨⟨parsed.payload, hExpected.2⟩, hParsed,
            congrArg (fun payload => Program.done (0, payload)) hPayload⟩

/-- A text that starts with a frame starts with its command. -/
theorem command_of_prefix {cmd : UInt16} {payload text : List UInt8}
    (h : plainFrame cmd payload <+: text) : sysGetLe16 text = cmd := by
  obtain ⟨rest, rfl⟩ := h
  rw [plainFrame, withCrc, List.append_assoc, List.append_assoc, sysGetLe16_sysPutLe16]

/-- The frame fits the length that its own command calls for. -/
theorem expectedLen_eq {expectCmd : UInt16} {payloadLen : Nat}
    (noReport : expectCmd ≠ Cmd.errorReport) (status : expectCmd = Cmd.status → payloadLen = 1) :
    expectedLen expectCmd payloadLen = 2 + payloadLen + 2 := by
  rw [expectedLen, if_neg noReport]
  split
  · rename_i hStatus
    rw [status hStatus]
  · rfl

/-- `bt_addr_le_t`. -/
structure BtAddrLe where
  type : UInt8
  val : Bytes 6
  deriving DecidableEq

instance : Inhabited BtAddrLe := ⟨⟨0, default⟩⟩

/-- `struct nuki_pairing_data`. -/
structure PairingData where
  addr : BtAddrLe
  authId : UInt32
  appId : UInt32
  sharedKey : Bytes 32
  lockUuid : Bytes 16
  deriving DecidableEq

/-- `err = f(); if (err) return err;` for a function that also stores an output. -/
def orReturn {α : Type} (code : Code (Int × α)) : Attempt Call Call.Answer Int α :=
  ExceptT.mk (code.bind fun result =>
    .done (if result.1 ≠ 0 then .error result.1 else .ok result.2))

/-- The same for a function without output. -/
def orReturnErr (code : Code Int) : Attempt Call Call.Answer Int Unit :=
  orReturn (code.bind fun err => .done (err, ()))

/-! The body of `nuki_pairing_run`, cut at its numbered comments. The buffers that
it uses more than once, `hmac_input` and `authenticator`, go from part to part. -/

/-- 1-6: request the lock's public key and send our own. -/
def exchangeKeys (stack : (n : Nat) → Bytes n) :
    Attempt Call Call.Answer Int (Bytes 32 × Bytes 32 × Bytes 32) := do
  orReturnErr nukiCryptoInit
  orReturnErr (sendPlain Cmd.requestData (sysPutLe16 Cmd.publicKey))
  let slPub ← orReturn (recvPlain Cmd.publicKey (stack 32))
  let keys ← orReturn (nukiCryptoKeypair (stack 32) (stack 32))
  orReturnErr (sendPlain Cmd.publicKey keys.1.val)
  return (slPub, keys)

/-- 7-13: derive the shared secret and answer the first challenge. Returns the secret,
the challenge, the HMAC input and the authenticator. -/
def answerChallenge (stack : (n : Nat) → Bytes n) (slPub clPub clPriv : Bytes 32) :
    Attempt Call Call.Answer Int (Bytes 32 × Bytes 32 × List UInt8 × Bytes 32) := do
  let dhResult ← orReturn (nukiCryptoDh1 (stack 32) clPriv slPub)
  let sharedKey := nukiCryptoKdf1 dhResult
  let challenge ← orReturn (recvPlain Cmd.challenge (stack 32))
  let hmacInput := memcpy (stack 128).val 0 clPub.val
  let hmacInput := memcpy hmacInput 32 slPub.val
  let hmacInput := memcpy hmacInput 64 challenge.val
  let authenticator ← orReturn (nukiCryptoH1 (stack 32) sharedKey (hmacInput.take 96))
  orReturnErr (sendPlain Cmd.authAuthenticator authenticator.val)
  return (sharedKey, challenge, hmacInput, authenticator)

/-- 14-16: answer the second challenge with the AuthorizationData. Returns the app id,
our nonce, the HMAC input and the authenticator. -/
def authorizeApp (sharedKey challenge : Bytes 32) (hmacInput : List UInt8)
    (authenticator : Bytes 32) :
    Attempt Call Call.Answer Int (UInt32 × Bytes 32 × List UInt8 × Bytes 32) := do
  let challenge ← orReturn (recvPlain Cmd.challenge challenge)
  let appId : Bytes 4 ← ExceptT.lift (Code.of (.sysRandGet 4))
  let appId := sysGetLe32 appId.val
  let name := memcpy (List.replicate nukiNameLen 0) 0
    (nukiAppName.take (min nukiAppName.length nukiNameLen))
  let nonceAbf : Bytes 32 ← ExceptT.lift (Code.of (.sysRandGet 32))
  let body := idTypeApp :: sysPutLe32 appId ++ name ++ nonceAbf.val
  let hmacInput := memcpy hmacInput 0 body
  let hmacInput := memcpy hmacInput body.length challenge.val
  let authenticator ← orReturn
    (nukiCryptoH1 authenticator sharedKey (hmacInput.take (body.length + 32)))
  orReturnErr (sendPlain Cmd.authData (authenticator.val ++ body))
  return (appId, nonceAbf, hmacInput, authenticator)

/-- 17-21: check the AuthorizationId and confirm it. Its authenticator covers its own
fields and our nonce, and what is confirmed also covers the nonce of the lock, which is
not sent. Returns the authorization id and the UUID of the lock. -/
def confirmAuthorization (stack : (n : Nat) → Bytes n) (sharedKey nonceAbf : Bytes 32)
    (hmacInput : List UInt8) (authenticator : Bytes 32) :
    Attempt Call Call.Answer Int (UInt32 × Bytes 16) := do
  let authIdPayload : Bytes 84 ← orReturn (recvPlain Cmd.authId (stack 84))
  let hmacInput := memcpy hmacInput 0 (authIdPayload.val.drop 32)
  let hmacInput := memcpy hmacInput (84 - 32) nonceAbf.val
  let expectedAuthenticator ← orReturn
    (nukiCryptoH1 (stack 32) sharedKey (hmacInput.take (84 - 32 + 32)))
  if expectedAuthenticator.val ≠ authIdPayload.val.take 32 then
    ExceptT.lift (Code.log "AuthorizationId authenticator mismatch" [])
    throw (-ebadmsg)
  let authId := sysGetLe32 (authIdPayload.val.drop 32)
  let lockUuid : Bytes 16 := authIdPayload.slice 36 16 (by decide)
  let nonceK2 : Bytes 32 := authIdPayload.slice 52 32 (by decide)
  let hmacBody := sysPutLe32 authId ++ nonceK2.val
  let authenticator ← orReturn (nukiCryptoH1 authenticator sharedKey hmacBody)
  orReturnErr (sendPlain Cmd.authIdConfirmation (authenticator.val ++ sysPutLe32 authId))
  return (authId, lockUuid)

/-- 22: final Status COMPLETE. -/
def awaitComplete (stack : (n : Nat) → Bytes n) : Attempt Call Call.Answer Int Unit := do
  let statusPayload ← orReturn (recvPlain Cmd.status (stack 1))
  if statusPayload.val.getD 0 0 ≠ statusComplete then
    ExceptT.lift (Code.log "pairing finished with status 0x%02x, expected COMPLETE"
      [(statusPayload.val.getD 0 0).toNat])
    throw (-ebadmsg)

/-- The body of `nuki_pairing_run` up to its return, with what it stores in `out`. -/
def pairingSteps (stack : (n : Nat) → Bytes n) : Attempt Call Call.Answer Int PairingData := do
  let (slPub, clPub, clPriv) ← exchangeKeys stack
  let (sharedKey, challenge, hmacInput, authenticator) ← answerChallenge stack slPub clPub clPriv
  let (appId, nonceAbf, hmacInput, authenticator) ←
    authorizeApp sharedKey challenge hmacInput authenticator
  let (authId, lockUuid) ←
    confirmAuthorization stack sharedKey nonceAbf hmacInput authenticator
  awaitComplete stack
  ExceptT.lift (Code.log "pairing complete, authorization id %u" [authId.toNat])
  return { addr := default, authId, appId, sharedKey, lockUuid }

/-- Returns the error and what `out` holds then. -/
def nukiPairingRun (stack : (n : Nat) → Bytes n) (out : PairingData) :
    Code (Int × PairingData) := do
  match ← (pairingSteps stack).run with
  | .ok data => return (0, data)
  | .error err => return (err, out)

end NukiBridge

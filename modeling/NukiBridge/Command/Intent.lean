import NukiBridge.Command.Receive
import NukiBridge.Pairing.Handshake

/-! What a message to the lock asks for. The lock is told in words that only the holder of
the shared key can read: its side of `send_encrypted` opens a message and says what it is. -/
namespace NukiBridge

open Buffer Interaction Crypto

inductive Intent where
  | requestState
  | requestChallenge
  | lockAction (action : UInt8)
  | calibrate (securityPin : UInt16)
  deriving DecidableEq

namespace Intent

/-- The motor is told to move. -/
def moves : Intent → Bool
  | .lockAction _ | .calibrate _ => true
  | .requestState | .requestChallenge => false

/-- The command of a message and its payload. -/
def cmd : Intent → UInt16
  | .requestState | .requestChallenge => Cmd.requestData
  | .lockAction _ => Cmd.lockAction
  | .calibrate _ => Cmd.requestCalibration

def payload (appId : UInt32) (nonceK : Bytes 32) : Intent → List UInt8
  | .requestState => sysPutLe16 Cmd.keyturnerStates
  | .requestChallenge => sysPutLe16 Cmd.challenge
  | .lockAction action => action :: sysPutLe32 appId ++ 0 :: nonceK.val
  | .calibrate securityPin => nonceK.val ++ sysPutLe16 securityPin

/-- What a frame asks for, if it comes from this app. -/
def ofFrame (appId : UInt32) (frame : AuthFrame) : Option Intent :=
  if frame.commandId = Cmd.requestData then
    if frame.payload = sysPutLe16 Cmd.keyturnerStates then some .requestState
    else if frame.payload = sysPutLe16 Cmd.challenge then some .requestChallenge
    else none
  else if frame.commandId = Cmd.lockAction then
    if frame.payload.length = 38 ∧ sysGetLe32 (frame.payload.drop 1) = appId ∧
        frame.payload.getD 5 0 = 0 then
      some (.lockAction (frame.payload.getD 0 0))
    else none
  else if frame.commandId = Cmd.requestCalibration ∧ frame.payload.length = 34 then
    some (.calibrate (sysGetLe16 (frame.payload.drop 32)))
  else none

/-- What the lock reads that the record was agreed on with. -/
def read (record : PairingData) (wire : List UInt8) : Option Intent :=
  if sysGetLe32 (wire.drop 24) = record.authId ∧ messageLen wire = wire.length then
    let plainLen := lengthField wire - nukiTagLen
    let (err, plain) := nukiCryptoD1 (List.replicate wireMaxLen 0) (wire.drop adataHdrLen) plainLen
      (Bytes.ofList 24 wire) record.sharedKey
    if err ≠ 0 then none
    else
      let (err, frame) := nukiFrameParseAuth (plain.take plainLen) ⟨0, 0, []⟩
      if err = 0 ∧ frame.authId = record.authId then ofFrame record.appId frame else none
  else none

/-- A frame that was built for an intent is taken for it. -/
theorem ofFrame_payload (authId appId : UInt32) (nonceK : Bytes 32) (intent : Intent) :
    ofFrame appId ⟨authId, intent.cmd, intent.payload appId nonceK⟩ = some intent := by
  cases intent with
  | requestState => rfl
  | requestChallenge => rfl
  | lockAction action =>
      have hApp : sysGetLe32 (sysPutLe32 appId ++ 0 :: nonceK.val) = appId :=
        sysGetLe32_sysPutLe32 appId _
      have hLen : (payload appId nonceK (.lockAction action)).length = 38 := by simp [payload]
      have hOther : Cmd.lockAction ≠ Cmd.requestData := by decide
      exact (if_neg hOther).trans ((if_pos rfl).trans (if_pos ⟨hLen, hApp, rfl⟩))
  | calibrate securityPin =>
      have hPin : sysGetLe16 ((nonceK.val ++ sysPutLe16 securityPin).drop 32) = securityPin := by
        rw [List.drop_left' nonceK.length, ← List.append_nil (sysPutLe16 _),
          sysGetLe16_sysPutLe16]
      have hLen : (payload appId nonceK (.calibrate securityPin)).length = 34 := by simp [payload]
      have hData : Cmd.requestCalibration ≠ Cmd.requestData := by decide
      have hAction : Cmd.requestCalibration ≠ Cmd.lockAction := by decide
      have hRead : ofFrame appId ⟨authId, cmd (.calibrate securityPin),
          payload appId nonceK (.calibrate securityPin)⟩ =
            some (.calibrate (sysGetLe16 ((nonceK.val ++ sysPutLe16 securityPin).drop 32))) :=
        (if_neg hData).trans ((if_neg hAction).trans (if_pos ⟨rfl, hLen⟩))
      rw [hRead, hPin]

/-- The payloads of all intents are short enough to be sent. -/
theorem length_payload_le (appId : UInt32) (nonceK : Bytes 32) (intent : Intent) :
    (intent.payload appId nonceK).length ≤ payloadMaxLen := by
  cases intent <;> simp [payload, payloadMaxLen]

/-- The lock reads what the bridge seals for it: opening and parsing the message gives back the
intent that it was made from. -/
theorem read_wireMessage (record : PairingData) (nonce : Bytes 24) (nonceK : Bytes 32)
    (intent : Intent) :
    read record (wireMessage nonce record.sharedKey record.authId intent.cmd
      (intent.payload record.appId nonceK)) = some intent := by
  have hLe := length_payload_le record.appId nonceK intent
  have hFrame := ofFrame_payload record.authId record.appId nonceK intent
  generalize intent.payload record.appId nonceK = payload at hLe hFrame ⊢
  have hFits : payload.length ≤ 192 := hLe.trans (by decide)
  have hMessage := messageLen_wireMessage nonce record.sharedKey record.authId intent.cmd hFits
  have hLen := length_wireMessage nonce record.sharedKey record.authId intent.cmd payload
  have hSealed : (wireMessage nonce record.sharedKey record.authId intent.cmd payload).drop
      adataHdrLen = secretbox nonce record.sharedKey
        (authFrame record.authId intent.cmd payload) := by
    apply List.drop_left'
    simp [adataHdrLen]
  have hNonce : Bytes.ofList 24 (wireMessage nonce record.sharedKey record.authId intent.cmd
      payload) = nonce := by
    apply Subtype.ext
    rw [Bytes.ofList_val (by rw [hLen, adataHdrLen]; omega), wireMessage, List.append_assoc,
      List.append_assoc, List.take_left' nonce.length]
  have hAuth : sysGetLe32 ((wireMessage nonce record.sharedKey record.authId intent.cmd
      payload).drop 24) = record.authId := by
    rw [wireMessage, List.append_assoc, List.append_assoc, List.drop_left' nonce.length,
      sysGetLe32_sysPutLe32]
  have hPlain : lengthField (wireMessage nonce record.sharedKey record.authId intent.cmd payload) -
      nukiTagLen = (authFrame record.authId intent.cmd payload).length := by
    rw [length_authFrame]
    rw [messageLen, hLen] at hMessage
    omega
  have hMsg : (authFrame record.authId intent.cmd payload).length ≤ maxMsgLen := by
    rw [length_authFrame, maxMsgLen]
    omega
  have hWhole : (secretbox nonce record.sharedKey
      (authFrame record.authId intent.cmd payload)).take
        (16 + (authFrame record.authId intent.cmd payload).length) =
          secretbox nonce record.sharedKey (authFrame record.authId intent.cmd payload) :=
    List.take_of_length_le (by rw [length_secretbox])
  have hOpen := nukiCryptoD1_secretbox nonce record.sharedKey (List.replicate wireMaxLen 0) hMsg
    hWhole
  rw [read, if_pos ⟨hAuth, hMessage⟩]
  simp only [hPlain, hSealed, hNonce, hOpen, take_memcpy_zero, nukiFrameParseAuth_authFrame, hFrame]
  simp

end Intent
end NukiBridge

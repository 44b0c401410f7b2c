import NukiBridge.Command.Encrypted
import NukiBridge.Protocol.KeyturnerState

/-! The commands of `nuki_command.c` over `send_encrypted` and `recv_encrypted`.
What a variable on the stack holds before it is assigned is a parameter of the
code. -/
namespace NukiBridge

open Buffer Interaction

/-- The commands call `recv_encrypted` as one step, so that the messages can be
scripted; `CommandCode.link` puts its code in place. -/
inductive CommandCall where
  | base (c : Call)
  | recvEncrypted (sharedKey : Bytes 32) (out : Received) (payloadMax : Nat)

@[reducible] def CommandCall.Answer : CommandCall → Type
  | .base c => c.Answer
  | .recvEncrypted _ _ _ => Int × Received

abbrev CommandCode (α : Type) := Program CommandCall CommandCall.Answer α

/-- Code that receives nothing, as part of a command. -/
def CommandCode.lift {α : Type} (code : Code α) : CommandCode α :=
  code.inline fun c => @Program.perform CommandCall CommandCall.Answer (.base c)

/-- A command with the code of `recv_encrypted` in place. -/
def CommandCode.link {α : Type} (code : CommandCode α) : Code α :=
  code.inline fun
    | .base c => Program.perform c
    | .recvEncrypted sharedKey out payloadMax => recvEncrypted sharedKey out payloadMax

/-- `LOG_ERR` in a command. -/
def logErr (text : String) (args : List Int) : CommandCode Unit :=
  @Program.perform CommandCall CommandCall.Answer (.base (.log text args))

def recvMessage (sharedKey : Bytes 32) (out : Received) : CommandCode (Int × Received) :=
  @Program.perform CommandCall CommandCall.Answer (.recvEncrypted sharedKey out maxPlaintext)

def nukiCommandGetState (stack : Received) (authId : UInt32) (sharedKey : Bytes 32)
    (state : KeyturnerState) : CommandCode (Int × KeyturnerState) := do
  let err ← CommandCode.lift (sendEncrypted authId sharedKey Cmd.requestData
    (sysPutLe16 Cmd.keyturnerStates))
  if err ≠ 0 then return (err, state)
  let (err, got) ← recvMessage sharedKey stack
  if err ≠ 0 then return (err, state)
  if got.cmd ≠ Cmd.keyturnerStates then
    logErr "expected KeyturnerStates, got 0x%04x" [got.cmd.toNat]
    return (-ebadmsg, state)
  return nukiKeyturnerStateParse state got.payload got.payloadLen

/-- Requests a fresh Challenge and returns its 32-byte nonce. -/
def requestChallenge (stack : Received) (authId : UInt32) (sharedKey : Bytes 32)
    (nonceK : Bytes 32) : CommandCode (Int × Bytes 32) := do
  let err ← CommandCode.lift (sendEncrypted authId sharedKey Cmd.requestData
    (sysPutLe16 Cmd.challenge))
  if err ≠ 0 then return (err, nonceK)
  let (err, got) ← recvMessage sharedKey stack
  if err ≠ 0 then return (err, nonceK)
  if got.cmd ≠ Cmd.challenge ∨ got.payloadLen ≠ 32 then
    logErr "expected Challenge(32), got 0x%04x/%zu" [got.cmd.toNat, got.payloadLen]
    return (-ebadmsg, nonceK)
  return (0, Bytes.ofList 32 got.payload)

/-- `state_out` and `got_state`, where the caller passes them. -/
structure Captured where
  stateOut : Option KeyturnerState
  gotState : Option Bool
  deriving DecidableEq

/-- What a KeyturnerStates update does to them; one that does not parse is not fatal. -/
def Captured.capture (out : Captured) (got : Received) : Captured :=
  match out.stateOut, out.gotState with
  | some state, some gotState =>
      let (err, state) := nukiKeyturnerStateParse state got.payload got.payloadLen
      ⟨some state, some (if err = 0 then true else gotState)⟩
  | _, _ => out

/-- The iterations of the loop in `drain_until_complete` that are left. -/
def drainLoop (stack : Nat → Received) (sharedKey : Bytes 32) :
    Nat → Captured → CommandCode (Int × Captured)
  | 0, out => do
      logErr "gave up waiting for Status COMPLETE" []
      return (-etimedout, out)
  | left + 1, out => do
      let (err, got) ← recvMessage sharedKey (stack left)
      if err ≠ 0 then return (err, out)
      if got.cmd = Cmd.errorReport then
        logErr "lock returned ErrorReport (code %d)" [(got.payload.getD 0 0).toInt8.toInt]
        return (-eio, out)
      if got.cmd = Cmd.status then
        if got.payloadLen ≠ 1 then return (-ebadmsg, out)
        if got.payload.getD 0 0 = statusComplete then return (0, out)
        -- ACCEPTED: keep waiting for COMPLETE
        return ← drainLoop stack sharedKey left out
      let out := if got.cmd = Cmd.keyturnerStates then out.capture got else out
      drainLoop stack sharedKey left out

def drainUntilComplete (stack : Nat → Received) (sharedKey : Bytes 32) (out : Captured) :
    CommandCode (Int × Captured) :=
  drainLoop stack sharedKey 10 { out with gotState := out.gotState.map fun _ => false }

def nukiCommandLockAction (stack : Nat → Received) (nonceStack : Bytes 32) (authId appId : UInt32)
    (sharedKey : Bytes 32) (action : UInt8) (out : Captured) :
    CommandCode (Int × Captured) := do
  let (err, nonceK) ← requestChallenge (stack 10) authId sharedKey nonceStack
  if err ≠ 0 then return (err, out)
  -- action | appId | flags: no auto-unlock, no force | nonceK
  let actionPayload := action :: sysPutLe32 appId ++ 0 :: nonceK.val
  let err ← CommandCode.lift (sendEncrypted authId sharedKey Cmd.lockAction actionPayload)
  if err ≠ 0 then return (err, out)
  drainUntilComplete stack sharedKey out

def nukiCommandCalibrate (stack : Nat → Received) (nonceStack : Bytes 32) (authId : UInt32)
    (sharedKey : Bytes 32) (securityPin : UInt16) : CommandCode Int := do
  let (err, nonceK) ← requestChallenge (stack 10) authId sharedKey nonceStack
  if err ≠ 0 then return err
  let payload := nonceK.val ++ sysPutLe16 securityPin
  let err ← CommandCode.lift (sendEncrypted authId sharedKey Cmd.requestCalibration payload)
  if err ≠ 0 then return err
  let (err, _) ← drainUntilComplete stack sharedKey ⟨none, none⟩
  return err

end NukiBridge

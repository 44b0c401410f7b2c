import NukiBridge.App.State
import NukiBridge.Command.Operations
import NukiBridge.Interaction.Machine

/-! The operations of `nuki_app.c`: scan, connect and discover on demand, run the
handshake or one command, disconnect. Every access to a global and every call of the
kernel or the host is a step of its own. `g_op_lock` lets one operation run at a time. -/
namespace NukiBridge

open Buffer Interaction

/-- The steps of the operation thread. `connectBegin` and `connectEnd` are no code:
they mark the beginning and the result of a call of `connect_to_lock`. -/
inductive AppOp where
  | connectBegin
  | connectEnd (rc : Int)
  | resetReadySem
  | setConnectErr (err : Int)
  | setNeedGdio (need : Bool)
  | setConnecting (connecting : Bool)
  | leScanStart
  | scheduleScanTimeout
  | takeReadySem
  | leScanStop
  | loadConn
  | disconnectConn
  | loadConnectErr
  | resetDisconnectedSem
  | takeDisconnectedSem
  | loadGdioReady
  | connGetDst
  | getPairing
  | savePairing (data : PairingData)
  | updateCache (state : KeyturnerState)
  | transport (svc : Service) (c : Call)

@[reducible] def AppOp.Answer : AppOp → Type
  | .connectBegin => Unit
  | .connectEnd _ => Unit
  | .resetReadySem => Unit
  | .setConnectErr _ => Unit
  | .setNeedGdio _ => Unit
  | .setConnecting _ => Unit
  | .leScanStart => Int
  | .scheduleScanTimeout => Unit
  | .takeReadySem => Int
  | .leScanStop => Int
  | .loadConn => Option Nat
  | .disconnectConn => Int
  | .loadConnectErr => Int
  | .resetDisconnectedSem => Unit
  | .takeDisconnectedSem => Int
  | .loadGdioReady => Bool
  | .connGetDst => BtAddrLe
  | .getPairing => Option PairingData
  | .savePairing _ => Int
  | .updateCache _ => Unit
  | .transport _ c => c.Answer

abbrev AppCode (α : Type) := Program AppOp AppOp.Answer α

abbrev AppCode.of (op : AppOp) : AppCode op.Answer := Program.perform op

/-- Code over one transport, run on that of the service. -/
def AppCode.over {α : Type} (svc : Service) (code : Code α) : AppCode α :=
  code.inline fun c => @Program.perform AppOp AppOp.Answer (.transport svc c)

/-- What the environment decides in a step: the result of a call, whether a wait times
out, what is read through a null connection, the time, and the answer of a transport. -/
structure AppChoice where
  err : Int
  expire : Bool
  addr : BtAddrLe
  now : Int
  answer : (c : Call) → c.Answer

namespace AppState

/-- One step of the operation thread. A wait is not enabled before it can end. -/
def call : (op : AppOp) → AppChoice → AppState → Option (Reply op.Answer AppState)
  | .connectBegin, _, s => some (.answer () { s with
      calls := s.calls + 1
      inside := true
      verdict := none
      timedOut := false
      scanErr := none
      lost := false
      dropped := false
      gdioFrames := [] })
  | .connectEnd _, _, s => some (.answer () { s with inside := false })
  | .resetReadySem, _, s => some (.answer () { s with readySem := false })
  | .setConnectErr err, _, s => some (.answer () { s with connectErr := err })
  | .setNeedGdio need, _, s => some (.answer () { s with needGdio := need })
  | .setConnecting connecting, _, s => some (.answer () { s with connecting := connecting })
  | .leScanStart, choice, s =>
      -- it fails while the scanner is running
      if choice.err ≠ 0 then some (.answer choice.err { s with scanErr := some choice.err })
      else if s.scanner = none then some (.answer 0 { s with scanner := some s.calls })
      else none
  | .scheduleScanTimeout, _, s =>
      -- `k_work_schedule` leaves work that is already scheduled alone
      some (.answer () { s with scanTimer := s.scanTimer.or (some s.calls) })
  | .takeReadySem, choice, s =>
      if s.readySem = true then some (.answer 0 { s with readySem := false })
      else if choice.expire = true then some (.answer (-eagain) { s with timedOut := true })
      else none
  | .leScanStop, choice, s =>
      some (.answer choice.err { s with scanner := if choice.err = 0 then none else s.scanner })
  | .loadConn, _, s => some (.answer s.gConn s)
  | .disconnectConn, choice, s =>
      some (.answer choice.err (s.btConnDisconnect s.gConn choice.err))
  | .loadConnectErr, _, s => some (.answer s.connectErr s)
  | .resetDisconnectedSem, _, s => some (.answer () { s with disconnectedSem := false })
  | .takeDisconnectedSem, choice, s =>
      if s.disconnectedSem = true then some (.answer 0 { s with disconnectedSem := false })
      else if choice.expire = true then some (.answer (-eagain) s)
      else none
  | .loadGdioReady, _, s => some (.answer s.gdio.ready s)
  | .connGetDst, choice, s => some (.answer ((s.peer s.gConn).getD choice.addr) s)
  | .getPairing, _, s => some (.answer s.pairing s)
  | .savePairing data, choice, s => some (.answer choice.err { s with
      pairing := some data
      settings := if choice.err = 0 then some data else s.settings })
  | .updateCache state, choice, s =>
      some (.answer () { s with cache := some (state, choice.now) })
  | .transport .pairing (.btGattWrite data), choice, s =>
      some (.answer (choice.answer (.btGattWrite data))
        { s with gdioFrames := s.gdioFrames ++ [s.peer s.gdio.conn] })
  | .transport .pairing (.peek len), choice, s =>
      some (.answer (choice.answer (.peek len))
        { s with gdioFrames := s.gdioFrames ++ [s.gdioPeer] })
  | .transport _ c, choice, s => some (.answer (choice.answer c) s)

end AppState

/-- What uninitialised variables hold. -/
structure Leftover where
  bytes : (n : Nat) → Bytes n
  data : PairingData
  received : Nat → Received
  state : KeyturnerState
  gotState : Bool

/-- The body of `connect_to_lock`. -/
def connectToLockBody (needGdio : Bool) : AppCode Int := do
  let _ ← AppCode.of .resetReadySem
  let _ ← AppCode.of (.setConnectErr 0)
  let _ ← AppCode.of (.setNeedGdio needGdio)
  let _ ← AppCode.of (.setConnecting true)
  let err ← AppCode.of .leScanStart
  if err ≠ (0 : Int) then return err
  let _ ← AppCode.of .scheduleScanTimeout
  let err ← AppCode.of .takeReadySem
  if err ≠ (0 : Int) then
    let _ ← AppCode.of (.setConnecting false)
    let _ ← AppCode.of .leScanStop
    let conn ← AppCode.of .loadConn
    if conn ≠ (none : Option Nat) then
      let _ ← AppCode.of .disconnectConn
    return -etimedout
  AppCode.of .loadConnectErr

def connectToLock (needGdio : Bool) : AppCode Int := do
  let _ ← AppCode.of .connectBegin
  let rc ← connectToLockBody needGdio
  let _ ← AppCode.of (.connectEnd rc)
  return rc

def disconnectFromLock : AppCode Unit := do
  let conn ← AppCode.of .loadConn
  if conn = (none : Option Nat) then return ()
  let _ ← AppCode.of .resetDisconnectedSem
  let _ ← AppCode.of .disconnectConn
  let _ ← AppCode.of .takeDisconnectedSem
  return ()

/-- The result of an operation, and the state that `nuki_app_get_state` hands out. -/
structure Response where
  err : Int
  state : Option KeyturnerState

/-- The end of `pair_locked`: the address of the peer is stored with what the handshake
agreed on. -/
def storePaired (err : Int) (data : PairingData) : AppCode Response := do
  if err ≠ 0 then
    disconnectFromLock
    return ⟨err, none⟩
  let addr ← AppCode.of .connGetDst
  let err ← AppCode.of (.savePairing { data with addr })
  disconnectFromLock
  return ⟨err, none⟩

def pairLocked (stack : Leftover) : AppCode Response := do
  let err ← connectToLock true
  if err ≠ 0 then return ⟨err, none⟩
  let ready ← AppCode.of .loadGdioReady
  if ready = false then
    disconnectFromLock
    return ⟨-enotsup, none⟩
  let result ← AppCode.over .pairing (nukiPairingRun stack.bytes stack.data)
  storePaired result.1 result.2

/-- The operations over USDIO: they need a pairing, whose record only `pair_locked`
replaces, and hand what `finish` makes of the result to their caller. -/
def withPairing {α : Type} (command : PairingData → Code α)
    (finish : α → AppCode Response) : AppCode Response := do
  let paired ← AppCode.of .getPairing
  match (paired : Option PairingData) with
  | none => return ⟨-enoent, none⟩
  | some p =>
      let err ← connectToLock false
      if err ≠ 0 then return ⟨err, none⟩
      let result ← AppCode.over .keyturner (command p)
      disconnectFromLock
      finish result

def getStateLocked (stack : Leftover) : AppCode Response :=
  withPairing
    (fun p => (nukiCommandGetState (stack.received 0) p.authId p.sharedKey stack.state).link)
    fun (err, state) => return ⟨err, some state⟩

/-- The lock pushes its state during an action: it goes into the cache if the action
succeeded and a state was captured. -/
def cachePushed (err : Int) (out : Captured) : AppCode Unit :=
  match out with
  | ⟨some state, some true⟩ => if err = 0 then AppCode.of (.updateCache state) else return ()
  | _ => return ()

def lockActionLocked (stack : Leftover) (action : UInt8) : AppCode Response :=
  withPairing
    (fun p => (nukiCommandLockAction stack.received (stack.bytes 32) p.authId p.appId p.sharedKey
      action ⟨some stack.state, some stack.gotState⟩).link)
    fun (err, out) => do
      cachePushed err out
      return ⟨err, none⟩

def calibrateLocked (stack : Leftover) (securityPin : UInt16) : AppCode Response :=
  withPairing
    (fun p => (nukiCommandCalibrate stack.received (stack.bytes 32) p.authId p.sharedKey
      securityPin).link)
    fun err => return ⟨err, none⟩

inductive Operation where
  | pair
  | getState
  | lockAction (action : UInt8)
  | calibrate (securityPin : UInt16)
  deriving DecidableEq

/-- An operation and what it finds on its stack. -/
structure Request where
  operation : Operation
  stack : Leftover

def Request.body : Request → AppCode Response
  | ⟨.pair, stack⟩ => pairLocked stack
  | ⟨.getState, stack⟩ => getStateLocked stack
  | ⟨.lockAction action, stack⟩ => lockActionLocked stack action
  | ⟨.calibrate securityPin, stack⟩ => calibrateLocked stack securityPin

/-- The callbacks and the operation thread. -/
def bridge : Machine AppOp AppOp.Answer AppEvent AppChoice AppState where
  event := AppState.event
  call := AppState.call

/-- The bridge serves one operation after the other, in any sequence. -/
def bridgeServer : Server AppOp AppOp.Answer AppEvent AppChoice AppState Request Response where
  machine := bridge
  body := Request.body

/-- After `nuki_app_init`, with what was loaded from the settings. -/
def AppState.boot (stored : Option PairingData) : AppState where
  gConn := none
  gdio := ⟨none, false⟩
  usdio := ⟨none, false⟩
  needGdio := false
  readySem := false
  connectErr := 0
  connecting := false
  disconnectedSem := false
  pairing := stored
  settings := stored
  cache := none
  scanner := none
  scanTimer := none
  link := none
  created := 0
  creates := 0
  refs := 0
  calls := 0
  inside := false
  verdict := none
  timedOut := false
  scanErr := none
  lost := false
  dropped := false
  gdioPeer := none
  gdioFrames := []

abbrev AppStage := Stage AppOp AppOp.Answer AppState Request Response

/-- What any sequence of operations and callbacks that meet the condition leads to. -/
abbrev Reached (cond : Condition AppOp AppEvent AppChoice AppState) (stored : Option PairingData)
    (stage : AppStage) : Prop :=
  bridgeServer.Reaches cond (.boot stored) stage

end NukiBridge

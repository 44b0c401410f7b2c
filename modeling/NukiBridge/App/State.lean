import NukiBridge.App.Advertising
import NukiBridge.Protocol.KeyturnerState

/-! The globals of `nuki_app.c` and its callbacks. The Bluetooth host has room for one
connection (`CONFIG_BT_MAX_CONN=1`), and each of its callbacks runs without being
interrupted. What the calls of a callback return is part of its event. Log messages
are left out. -/
namespace NukiBridge

open Buffer

/-- The two services that are discovered; each has one transport. -/
inductive Service where
  | pairing
  | keyturner
  deriving DecidableEq

/-- The connection object of the host. `owner` is the call of `connect_to_lock` whose
scan found the peer; it is not part of the program. -/
structure Link where
  id : Nat
  addr : BtAddrLe
  established : Bool
  discReq : Bool
  discovery : Option Service
  owner : Nat
  deriving DecidableEq

/-- A transport as far as this file uses it: `conn` and the ready flag beside it. -/
structure Side where
  conn : Option Nat
  ready : Bool
  deriving DecidableEq

/-- The globals, the state of the host, and an account of what happened that the
program does not keep. A semaphore of at most one is a `Bool`. -/
structure AppState where
  gConn : Option Nat
  gdio : Side
  usdio : Side
  needGdio : Bool
  readySem : Bool
  connectErr : Int
  connecting : Bool
  disconnectedSem : Bool
  pairing : Option PairingData
  settings : Option PairingData
  cache : Option (KeyturnerState × Int)
  -- the host: the scanner and `g_scan_timeout_work`, each with the call that started it,
  -- the connection, how many there were, the calls of `bt_conn_le_create` and the references
  -- the application holds
  scanner : Option Nat
  scanTimer : Option Nat
  link : Option Link
  created : Nat
  creates : Nat
  refs : Int
  -- the account: the calls of `connect_to_lock`, whether one is in progress, and in it
  -- what ended the attempt, its own timeout, the error of its scan, the loss of its link,
  -- and whether the link was lost without having been asked to end
  calls : Nat
  inside : Bool
  verdict : Option (Nat × Int)
  timedOut : Bool
  scanErr : Option Int
  lost : Bool
  dropped : Bool
  -- the peer that GDIO was set up with, and in an operation the peer of each frame that
  -- was written to it or read from it
  gdioPeer : Option BtAddrLe
  gdioFrames : List (Option BtAddrLe)

/-- What happens outside of the operation thread, with the results of the calls made
then: of `bt_le_scan_stop`, `bt_conn_le_create`, `bt_gatt_dm_start`, the search for the
characteristic, `bt_gatt_subscribe` and `bt_conn_disconnect`. -/
inductive AppEvent where
  | deviceFound (addr : BtAddrLe) (ad : List BtData) (stop create : Int)
  | scanTimeout (stop : Int)
  | connected (err : UInt8) (dmStart : Int)
  | disconnected
  | gdioDiscovered (chrc : Bool) (subscribe dmStart : Int)
  | gdioNotFound (dmStart : Int)
  | gdioDiscoveryError (dmStart : Int)
  | usdioDiscovered (chrc : Bool) (subscribe : Int)
  | usdioNotFound (disconnect : Int)
  | usdioDiscoveryError (disconnect : Int)
  deriving DecidableEq

namespace AppState

def side (s : AppState) : Service → Side
  | .pairing => s.gdio
  | .keyturner => s.usdio

def withSide (s : AppState) : Service → Side → AppState
  | .pairing, side => { s with gdio := side }
  | .keyturner, side => { s with usdio := side }

/-- The peer of a connection that the host knows. -/
def peer (s : AppState) (conn : Option Nat) : Option BtAddrLe :=
  match s.link with
  | some l => if conn = some l.id then some l.addr else none
  | none => none

/-- `bt_conn_disconnect` with its result: if it succeeds, the host reports the end of the
connection later. -/
def btConnDisconnect (conn : Option Nat) (rc : Int) (s : AppState) : AppState :=
  { s with link := s.link.map fun l =>
      if rc = 0 ∧ conn = some l.id then { l with discReq := true } else l }

/-- `bt_conn_unref` of a connection of the application. -/
def btConnUnref (s : AppState) : AppState := { s with refs := s.refs - 1 }

/-- The first error or success of an attempt is its result. `owner` is the call that
the reporting event belongs to. -/
def finishConnectAttempt (owner : Nat) (err : Int) (s : AppState) : AppState :=
  if s.connecting = false then s
  else { s with
    connecting := false
    connectErr := err
    scanTimer := none
    readySem := true
    verdict := some (owner, err) }

/-- `nuki_transport_init`. A failed subscription leaves the pointer behind. -/
def transportInit (svc : Service) (l : Link) (subscribe : Int) (s : AppState) : Int × AppState :=
  let s := { s.withSide svc ⟨some l.id, (s.side svc).ready⟩ with refs := s.refs + 1 }
  if subscribe ≠ 0 then (subscribe, s.btConnUnref) else (0, s)

/-- `nuki_transport_release`. -/
def transportRelease (svc : Service) (s : AppState) : AppState :=
  if (s.side svc).conn ≠ none then
    s.btConnUnref.withSide svc ⟨none, (s.side svc).ready⟩
  else s

/-- Release a transport that is ready. -/
def releaseReady (svc : Service) (s : AppState) : AppState :=
  if (s.side svc).ready then
    let s := s.transportRelease svc
    s.withSide svc ⟨(s.side svc).conn, false⟩
  else s

/-- `bt_gatt_dm_start`; an error ends the attempt. -/
def startService (svc : Service) (l : Link) (dmStart : Int) (s : AppState) : AppState :=
  if dmStart ≠ 0 then s.finishConnectAttempt l.owner dmStart
  else { s with link := some { l with discovery := some svc } }

def discoverKeyturnerService : Link → Int → AppState → AppState := startService .keyturner

def startDiscovery (l : Link) (dmStart : Int) (s : AppState) : AppState :=
  if s.needGdio = false then s.discoverKeyturnerService l dmStart
  else s.startService .pairing l dmStart

/-- The peer that the scanner reported is the lock and nothing is connected yet. -/
def Takes (s : AppState) (addr : BtAddrLe) (ad : List BtData) (stop : Int) : Prop :=
  s.gConn = none ∧ isLock s.pairing addr ad = true ∧ stop = 0

instance (s : AppState) (addr : BtAddrLe) (ad : List BtData) (stop : Int) :
    Decidable (s.Takes addr ad stop) := instDecidableAnd

/-- `bt_conn_le_create` stores one reference. It fails while there is a connection. -/
def leCreate (addr : BtAddrLe) (owner : Nat) (create : Int) (s : AppState) : Option AppState :=
  if create ≠ 0 then some ({ s with creates := s.creates + 1 }.finishConnectAttempt owner create)
  else if s.link = none then
    some { s with
      gConn := some s.created
      link := some ⟨s.created, addr, false, false, none, owner⟩
      created := s.created + 1
      creates := s.creates + 1
      refs := s.refs + 1 }
  else none

def deviceFound (addr : BtAddrLe) (ad : List BtData) (stop create : Int) (owner : Nat)
    (s : AppState) : Option AppState :=
  if s.Takes addr ad stop then
    leCreate addr owner create { s with scanner := none, scanTimer := none }
  else some s

def scanTimeoutHandler (stop : Int) (owner : Nat) (s : AppState) : AppState :=
  { s with
    scanTimer := none
    scanner := if stop = 0 then none else s.scanner }.finishConnectAttempt owner (-etimedout)

def connected (err : UInt8) (dmStart : Int) (l : Link) (s : AppState) : AppState :=
  if err ≠ 0 then
    { s.btConnUnref with gConn := none, link := none, lost := true }.finishConnectAttempt
      l.owner (-eio)
  else
    let l := { l with established := true }
    let s := { s with link := some l }
    if s.gConn ≠ some l.id then s else s.startDiscovery l dmStart

def disconnected (l : Link) (s : AppState) : AppState :=
  if s.gConn ≠ some l.id then { s with link := none }
  else
    let s := (s.releaseReady .pairing).releaseReady .keyturner
    let dropped := s.dropped || !l.discReq
    let s := { s.btConnUnref with gConn := none, link := none, lost := true, dropped }
    { s.finishConnectAttempt l.owner (-enotconn) with disconnectedSem := true }

def gdioDiscovered (chrc : Bool) (subscribe dmStart : Int) (l : Link) (s : AppState) : AppState :=
  let s :=
    if chrc = false then s
    else
      let (err, s) := s.transportInit .pairing l subscribe
      if err = 0 then { s with gdio := ⟨s.gdio.conn, true⟩, gdioPeer := some l.addr } else s
  s.discoverKeyturnerService l dmStart

def usdioDiscovered (chrc : Bool) (subscribe : Int) (l : Link) (s : AppState) : AppState :=
  if chrc = false then s.finishConnectAttempt l.owner (-enotsup)
  else
    let (err, s) := s.transportInit .keyturner l subscribe
    if err ≠ 0 then s.finishConnectAttempt l.owner err
    else { s with usdio := ⟨s.usdio.conn, true⟩ }.finishConnectAttempt l.owner 0

/-- `usdio_not_found` and `usdio_discovery_error`, which do not look at what
`bt_conn_disconnect` returns. -/
def usdioFailed (err disconnect : Int) (l : Link) (s : AppState) : AppState :=
  (s.btConnDisconnect (some l.id) disconnect).finishConnectAttempt l.owner err

/-- The host reports on the connection. -/
def reports (established : Bool) (callback : Link → AppState → AppState) (s : AppState) :
    Option AppState :=
  match s.link with
  | some l => if l.established = established then some (callback l s) else none
  | none => none

/-- A discovery of the service completes: what its callback does. -/
def completes (svc : Service) (callback : Link → AppState → AppState) (s : AppState) :
    Option AppState :=
  match s.link with
  | some l =>
      if l.established = true ∧ l.discovery = some svc then
        let l := { l with discovery := none }
        some (callback l { s with link := some l })
      else none
  | none => none

/-- An event, where it can occur: advertisements while the scanner runs, the timeout
while it is scheduled, one report of each connection, one callback of each discovery. -/
def event : AppEvent → AppState → Option AppState
  | .deviceFound addr ad stop create, s =>
      s.scanner.bind fun owner => s.deviceFound addr ad stop create owner
  | .scanTimeout stop, s => s.scanTimer.map fun owner => s.scanTimeoutHandler stop owner
  | .connected err dmStart, s => s.reports false fun l s => s.connected err dmStart l
  | .disconnected, s => s.reports true fun l s => s.disconnected l
  | .gdioDiscovered chrc subscribe dmStart, s =>
      s.completes .pairing fun l s => s.gdioDiscovered chrc subscribe dmStart l
  | .gdioNotFound dmStart, s =>
      s.completes .pairing fun l s => s.discoverKeyturnerService l dmStart
  | .gdioDiscoveryError dmStart, s =>
      s.completes .pairing fun l s => s.discoverKeyturnerService l dmStart
  | .usdioDiscovered chrc subscribe, s =>
      s.completes .keyturner fun l s => s.usdioDiscovered chrc subscribe l
  | .usdioNotFound disconnect, s =>
      s.completes .keyturner fun l s => s.usdioFailed (-enotsup) disconnect l
  | .usdioDiscoveryError disconnect, s =>
      s.completes .keyturner fun l s => s.usdioFailed (-eio) disconnect l

end AppState
end NukiBridge

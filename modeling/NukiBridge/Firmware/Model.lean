import NukiBridge.App.Attempt
import NukiBridge.App.Poller
import NukiBridge.Interaction.Threads
import NukiBridge.Shell.Commands

/-! The whole firmware at run time: the poller, the UART thread and the shell call the
application at any time, and the callbacks of the host run between their steps. `g_op_lock`
is held for an operation, `g_cache_lock` for an access to the cache, whose three variables
are read and written one by one. -/
namespace NukiBridge

open Interaction

inductive AppMutex where
  | opLock
  | cacheLock
  deriving DecidableEq

/-- An access to the cache as a whole: a state stored at a time, or what was read, with the
time it was stored and the time it was read. -/
inductive CacheAccess where
  | stored (state : KeyturnerState) (storedAt : Int)
  | read (seen : Option (KeyturnerState × Int × Int))
  deriving DecidableEq

/-- The steps of the threads. `leftover` and `callerVars` are no code: they are what a caller
has on its stack. Nor are `cacheStored` and `cacheRead`, which keep account of the cache. -/
inductive FirmwareOp where
  | app (op : AppOp)
  | loadHavePairing
  | loadConn
  | loadUsdioReady
  | loadCacheValid
  | loadCachedState
  | loadCacheUptimeMs
  | storeCachedState (state : KeyturnerState)
  | storeCacheValid (valid : Bool)
  | storeCacheUptimeMs (ms : Int)
  | uptimeGet
  | cacheStored (state : KeyturnerState) (storedAt : Int)
  | cacheRead (seen : Option (KeyturnerState × Int × Int))
  | leftover
  | callerVars
  | sleep (sec : Nat)
  | pollOut (byte : UInt8)
  | shellWrite (level : ShellLevel) (format : String) (args : List ShellArg)

@[reducible] def FirmwareOp.Answer : FirmwareOp → Type
  | .app op => op.Answer
  | .loadHavePairing => Bool
  | .loadConn => Option Nat
  | .loadUsdioReady => Bool
  | .loadCacheValid => Bool
  | .loadCachedState => KeyturnerState
  | .loadCacheUptimeMs => Int
  | .storeCachedState _ => Unit
  | .storeCacheValid _ => Unit
  | .storeCacheUptimeMs _ => Unit
  | .uptimeGet => Int
  | .cacheStored _ _ => Unit
  | .cacheRead _ => Unit
  | .leftover => Leftover
  | .callerVars => CachedState
  | .sleep _ => Unit
  | .pollOut _ => Unit
  | .shellWrite _ _ _ => Unit

abbrev FirmwareCode (α : Type) := LockedCode AppMutex FirmwareOp.Answer α

abbrev FirmwareCode.of (op : FirmwareOp) : FirmwareCode op.Answer :=
  @Program.perform (Locked AppMutex FirmwareOp) (Locked.Answer FirmwareOp.Answer) (.call op)

def mutexLock (m : AppMutex) : FirmwareCode Unit :=
  @Program.perform (Locked AppMutex FirmwareOp) (Locked.Answer FirmwareOp.Answer) (.lock m)

def mutexUnlock (m : AppMutex) : FirmwareCode Unit :=
  @Program.perform (Locked AppMutex FirmwareOp) (Locked.Answer FirmwareOp.Answer) (.unlock m)

/-- The cache, the clock that its times are taken from, and the account of its accesses. -/
structure CacheCell where
  cachedState : KeyturnerState
  cacheValid : Bool
  cacheUptimeMs : Int
  uptime : Int
  log : List CacheAccess

structure Firmware where
  app : AppState
  cell : CacheCell

/-- What the environment decides in a step: besides what it decides in an operation, how
much time has passed, and what is on the stack of a caller. -/
structure FirmwareChoice where
  app : AppChoice
  ms : Nat
  stack : Leftover
  left : CachedState

namespace Firmware

def event (e : AppEvent) (s : Firmware) : Option Firmware :=
  (s.app.event e).map fun app => { s with app }

/-- The clock moves on whenever it is looked at. -/
def call : (op : FirmwareOp) → FirmwareChoice → Firmware → Option (Reply op.Answer Firmware)
  | .app op, choice, s =>
      (s.app.call op choice.app).map fun
        | .stay app => .stay { s with app }
        | .answer result app => .answer result { s with app }
  | .loadHavePairing, _, s => some (.answer s.app.pairing.isSome s)
  | .loadConn, _, s => some (.answer s.app.gConn s)
  | .loadUsdioReady, _, s => some (.answer s.app.usdio.ready s)
  | .loadCacheValid, _, s => some (.answer s.cell.cacheValid s)
  | .loadCachedState, _, s => some (.answer s.cell.cachedState s)
  | .loadCacheUptimeMs, _, s => some (.answer s.cell.cacheUptimeMs s)
  | .storeCachedState state, _, s =>
      some (.answer () { s with cell := { s.cell with cachedState := state } })
  | .storeCacheValid valid, _, s =>
      some (.answer () { s with cell := { s.cell with cacheValid := valid } })
  | .storeCacheUptimeMs ms, _, s =>
      some (.answer () { s with cell := { s.cell with cacheUptimeMs := ms } })
  | .uptimeGet, choice, s => some (.answer (s.cell.uptime + choice.ms)
      { s with cell := { s.cell with uptime := s.cell.uptime + choice.ms } })
  | .cacheStored state storedAt, _, s => some (.answer ()
      { s with cell := { s.cell with log := s.cell.log ++ [.stored state storedAt] } })
  | .cacheRead seen, _, s => some (.answer ()
      { s with cell := { s.cell with log := s.cell.log ++ [.read seen] } })
  | .leftover, choice, s => some (.answer choice.stack s)
  | .callerVars, choice, s => some (.answer choice.left s)
  | .sleep _, _, s => some (.answer () s)
  | .pollOut _, _, s => some (.answer () s)
  | .shellWrite _ _ _, _, s => some (.answer () s)

/-- After `main`, with what was loaded from the settings. -/
def boot (stored : Option PairingData) (uptime : Int) : Firmware :=
  ⟨.boot stored, ⟨default, false, 0, uptime, []⟩⟩

end Firmware

/-- The callbacks and the calls of the threads. -/
def firmware : Machine FirmwareOp FirmwareOp.Answer AppEvent FirmwareChoice Firmware where
  event := Firmware.event
  call := Firmware.call

/-- A state is stored in the cache, where the poller and a lock action do so. -/
def storeCache (state : KeyturnerState) : FirmwareCode Unit := do
  mutexLock .cacheLock
  let _ ← FirmwareCode.of (.storeCachedState state)
  let _ ← FirmwareCode.of (.storeCacheValid true)
  let now ← FirmwareCode.of .uptimeGet
  let _ ← FirmwareCode.of (.storeCacheUptimeMs now)
  let _ ← FirmwareCode.of (.cacheStored state now)
  mutexUnlock .cacheLock

def nukiAppGetCachedState : FirmwareCode CachedState := do
  let left ← FirmwareCode.of .callerVars
  mutexLock .cacheLock
  let valid ← FirmwareCode.of .loadCacheValid
  if valid = true then
    let state ← FirmwareCode.of .loadCachedState
    let now ← FirmwareCode.of .uptimeGet
    let storedAt ← FirmwareCode.of .loadCacheUptimeMs
    let _ ← FirmwareCode.of (.cacheRead (some (state, storedAt, now)))
    mutexUnlock .cacheLock
    return ⟨0, state, .ofInt (Int.tdiv (now - storedAt) 1000)⟩
  let _ ← FirmwareCode.of (.cacheRead none)
  mutexUnlock .cacheLock
  return { left with err := .ofInt (-enodata) }

/-- The steps of an operation, with the access to the cache opened up. -/
def firmwareOp : (op : AppOp) → FirmwareCode op.Answer
  | .updateCache state => do
      storeCache state
      FirmwareCode.of (.app (.updateCache state))
  | op => FirmwareCode.of (.app op)

/-- `nuki_app_pair`, `nuki_app_get_state`, `nuki_app_lock_action`, `nuki_app_calibrate`. -/
def nukiApp (operation : Operation) : FirmwareCode Response := do
  let stack : Leftover ← FirmwareCode.of .leftover
  mutexLock .opLock
  let response ← (Request.body ⟨operation, stack⟩).inline firmwareOp
  mutexUnlock .opLock
  return response

/-- `nuki_app_get_state` for a caller that has a variable for the state. -/
def nukiAppGetState : FirmwareCode (Int × KeyturnerState) := do
  let stack : Leftover ← FirmwareCode.of .leftover
  let response ← nukiApp .getState
  return (response.err, response.state.getD stack.state)

def nukiAppIsPaired : FirmwareCode Bool := FirmwareCode.of .loadHavePairing

def nukiAppIsConnected : FirmwareCode Bool := do
  let conn ← FirmwareCode.of .loadConn
  return decide (conn ≠ (none : Option Nat))

def nukiAppIsReady : FirmwareCode Bool := do
  let conn ← FirmwareCode.of .loadConn
  if conn = (none : Option Nat) then return false
  FirmwareCode.of .loadUsdioReady

/-- The calls of the poller. -/
def pollCall : (c : PollCall) → FirmwareCode c.Answer
  | .isPaired => nukiAppIsPaired
  | .getState => nukiAppGetState
  | .storeCache state => storeCache state
  | .sleep sec => FirmwareCode.of (.sleep sec)

/-- The calls of the UART thread. -/
def uartCall : (c : UartCall) → FirmwareCode c.Answer
  | .isPaired => nukiAppIsPaired
  | .isConnected => nukiAppIsConnected
  | .isReady => nukiAppIsReady
  | .pair => do
      let response ← nukiApp .pair
      return .ofInt response.err
  | .lockAction action => do
      let response ← nukiApp (.lockAction action)
      return .ofInt response.err
  | .calibrate securityPin => do
      let response ← nukiApp (.calibrate securityPin)
      return .ofInt response.err
  | .getCachedState => nukiAppGetCachedState
  | .pollOut byte => FirmwareCode.of (.pollOut byte)

/-- The calls of the shell. -/
def shellCall : (c : ShellCall) → FirmwareCode c.Answer
  | .write level format args => FirmwareCode.of (.shellWrite level format args)
  | .isPaired => nukiAppIsPaired
  | .isConnected => nukiAppIsConnected
  | .isReady => nukiAppIsReady
  | .pair => do
      let response ← nukiApp .pair
      return response.err
  | .getState => nukiAppGetState
  | .lockAction action => do
      let response ← nukiApp (.lockAction action)
      return response.err
  | .calibrate securityPin => do
      let response ← nukiApp (.calibrate securityPin)
      return response.err

inductive FirmwareThread where
  | poller
  | uart
  | shell
  deriving DecidableEq

/-- What the threads are given to do: so many passes of the poller, the frames that the UART
receives, the lines that are entered. -/
structure Workload where
  polls : Nat
  frames : List RxFrame
  lines : List ShellLine

def Workload.code (work : Workload) : FirmwareThread → FirmwareCode Unit
  | .poller => do
      let _ ← (statePollThreadFn work.polls 0).inline pollCall
      return ()
  | .uart => (nukiUartThreadFn work.frames).inline uartCall
  | .shell => do
      let _ ← (shellThread work.lines).inline shellCall
      return ()

/-- Any order of the steps of the threads and of the callbacks. -/
abbrev FirmwareReaches (stored : Option PairingData) (uptime : Int) (work : Workload)
    (S : Threads AppMutex FirmwareOp.Answer Firmware FirmwareThread) : Prop :=
  Threads.Reaches firmware (.start (.boot stored uptime) work.code) S

end NukiBridge

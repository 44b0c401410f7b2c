import NukiBridge.App.Operations
import NukiBridge.Interaction.Trace
import NukiBridge.Uart.Receive

/-! The thread of `nuki_uart_proto.c`: it takes the frames out of the queue one after the
other, calls the application as each frame asks, and writes one response to each. -/
namespace NukiBridge

open Buffer Interaction Framing

namespace UartCmd

/-! `enum nuki_uart_cmd`. -/

abbrev status : UInt8 := 1
abbrev pair : UInt8 := 2
abbrev state : UInt8 := 3
abbrev lock : UInt8 := 4
abbrev unlock : UInt8 := 5
abbrev unlatch : UInt8 := 6
abbrev calibrate : UInt8 := 7

end UartCmd

namespace LockAction

/-! `enum nuki_lock_action`, as far as the UART uses it. -/

def unlock : UInt8 := 0x01
def lock : UInt8 := 0x02
def unlatch : UInt8 := 0x03

end LockAction

/-- What `nuki_app_get_cached_state` returns and stores. -/
structure CachedState where
  err : Int32
  state : KeyturnerState
  ageSec : Int32

/-- The calls of the thread. -/
inductive UartCall where
  | isPaired
  | isConnected
  | isReady
  | pair
  | lockAction (action : UInt8)
  | calibrate (securityPin : UInt16)
  | getCachedState
  | pollOut (byte : UInt8)

@[reducible] def UartCall.Answer : UartCall → Type
  | .isPaired => Bool
  | .isConnected => Bool
  | .isReady => Bool
  | .pair => Int32
  | .lockAction _ => Int32
  | .calibrate _ => Int32
  | .getCachedState => CachedState
  | .pollOut _ => Unit

abbrev UartCode (α : Type) := Program UartCall UartCall.Answer α

abbrev UartCode.of (c : UartCall) : UartCode c.Answer := Program.perform c

abbrev UartExchange := Exchange UartCall UartCall.Answer

/-- `struct nuki_uart_resp_status`. -/
structure RespStatus where
  rc : Int32
  paired : UInt8
  connected : UInt8
  ready : UInt8

/-- `struct nuki_uart_resp_simple`. -/
structure RespSimple where
  rc : Int32

/-- `struct nuki_uart_resp_state`. -/
structure RespState where
  rc : Int32
  lockState : UInt8
  batteryPercent : UInt8
  criticalBattery : UInt8
  doorSensorState : UInt8
  year : UInt16
  month : UInt8
  day : UInt8
  hour : UInt8
  minute : UInt8
  second : UInt8
  timezoneOffsetMin : Int16
  ageSec : Int32

/-- The packed structures in memory. -/
def RespStatus.bytes (resp : RespStatus) : List UInt8 :=
  sysPutLe32 resp.rc.toUInt32 ++ [resp.paired, resp.connected, resp.ready]

def RespSimple.bytes (resp : RespSimple) : List UInt8 := sysPutLe32 resp.rc.toUInt32

def RespState.bytes (resp : RespState) : List UInt8 :=
  sysPutLe32 resp.rc.toUInt32 ++
    [resp.lockState, resp.batteryPercent, resp.criticalBattery, resp.doorSensorState] ++
    sysPutLe16 resp.year ++ [resp.month, resp.day, resp.hour, resp.minute, resp.second] ++
    sysPutLe16 resp.timezoneOffsetMin.toUInt16 ++ sysPutLe32 resp.ageSec.toUInt32

/-- A response that is zero but for its result. -/
def RespState.zero (rc : Int32) : RespState := ⟨rc, 0, 0, 0, 0, 0, 0, 0, 0, 0, 0, 0, 0⟩

/-- `uart_poll_out` for one byte after the other. -/
def pollOut : List UInt8 → UartCode Unit
  | [] => return ()
  | byte :: rest => do
      let _ ← UartCode.of (.pollOut byte)
      pollOut rest

def sendFrame (cmd : UInt8) (payload : List UInt8) (len : UInt8) : UartCode Unit :=
  pollOut (uartFrameSofResp :: cmd :: len :: payload.take len.toNat)

def sendSimpleResponse (cmd : UInt8) (rc : Int32) : UartCode Unit :=
  sendFrame cmd (RespSimple.mk rc).bytes 4

def handleStatus : UartCode Unit := do
  let paired ← UartCode.of .isPaired
  let connected ← UartCode.of .isConnected
  let ready ← UartCode.of .isReady
  let resp : RespStatus :=
    ⟨0, if paired then 1 else 0, if connected then 1 else 0, if ready then 1 else 0⟩
  sendFrame UartCmd.status resp.bytes 7

def handlePair : UartCode Unit := do
  let err ← UartCode.of .pair
  sendSimpleResponse UartCmd.pair err

def fillStateFields (resp : RespState) (state : KeyturnerState) (ageSec : Int32) : RespState :=
  { resp with
    lockState := state.lockState
    batteryPercent := state.batteryPercent
    criticalBattery := if state.criticalBattery then 1 else 0
    doorSensorState := state.doorSensorState
    year := state.year
    month := state.month
    day := state.day
    hour := state.hour
    minute := state.minute
    second := state.second
    timezoneOffsetMin := state.timezoneOffsetMin
    ageSec }

/-- The fields of a state that was handed out, zero where none was. -/
def filled (resp : RespState) (cached : CachedState) : RespState :=
  if cached.err = 0 then fillStateFields resp cached.state cached.ageSec else resp

def handleState : UartCode Unit := do
  let cached : CachedState ← UartCode.of .getCachedState
  sendFrame UartCmd.state (filled (.zero cached.err) cached).bytes 21

def handleLockAction (action cmd : UInt8) : UartCode Unit := do
  let err ← UartCode.of (.lockAction action)
  let resp := RespState.zero err
  if err = (0 : Int32) then
    let cached : CachedState ← UartCode.of .getCachedState
    sendFrame cmd (filled resp cached).bytes 21
  else sendFrame cmd resp.bytes 21

def handleCalibrate (frame : RxFrame) : UartCode Unit := do
  if frame.len ≠ 2 then sendSimpleResponse UartCmd.calibrate (.ofInt (-einval))
  else
    let err ← UartCode.of (.calibrate (sysGetLe16 (frame.payload.val.take 2)))
    sendSimpleResponse UartCmd.calibrate err

def dispatchFrame (frame : RxFrame) : UartCode Unit :=
  if frame.cmd = UartCmd.status then handleStatus
  else if frame.cmd = UartCmd.pair then handlePair
  else if frame.cmd = UartCmd.state then handleState
  else if frame.cmd = UartCmd.lock then handleLockAction LockAction.lock UartCmd.lock
  else if frame.cmd = UartCmd.unlock then handleLockAction LockAction.unlock UartCmd.unlock
  else if frame.cmd = UartCmd.unlatch then handleLockAction LockAction.unlatch UartCmd.unlatch
  else if frame.cmd = UartCmd.calibrate then handleCalibrate frame
  else sendSimpleResponse frame.cmd (.ofInt (-einval))

/-- `nuki_uart_thread_fn` for the frames that the queue hands out. -/
def nukiUartThreadFn : List RxFrame → UartCode Unit
  | [] => return ()
  | frame :: rest => do
      dispatchFrame frame
      nukiUartThreadFn rest

/-- The lock action that a command stands for. -/
inductive LockActionOf : UInt8 → UInt8 → Prop where
  | lock : LockActionOf UartCmd.lock LockAction.lock
  | unlock : LockActionOf UartCmd.unlock LockAction.unlock
  | unlatch : LockActionOf UartCmd.unlatch LockAction.unlatch

/-- The operation that a frame names. -/
def RxFrame.operation? (frame : RxFrame) : Option Operation :=
  if frame.cmd = UartCmd.pair then some .pair
  else if frame.cmd = UartCmd.lock then some (.lockAction LockAction.lock)
  else if frame.cmd = UartCmd.unlock then some (.lockAction LockAction.unlock)
  else if frame.cmd = UartCmd.unlatch then some (.lockAction LockAction.unlatch)
  else if frame.cmd = UartCmd.calibrate ∧ frame.len = 2 then
    some (.calibrate (sysGetLe16 frame.payload.val))
  else none

/-- The length of the response to a command. -/
def responseLen (cmd : UInt8) : Nat :=
  if cmd = UartCmd.status then 7
  else if cmd = UartCmd.state ∨ cmd = UartCmd.lock ∨ cmd = UartCmd.unlock ∨ cmd = UartCmd.unlatch
  then 21
  else 4

/-- What a trace writes. -/
def written (trace : List UartExchange) : List UInt8 :=
  trace.filterMap fun
    | ⟨.pollOut byte, _⟩ => some byte
    | _ => none

/-- The operations that a trace invokes, with their results. -/
def invoked (trace : List UartExchange) : List (Operation × Int32) :=
  trace.filterMap fun
    | ⟨.pair, rc⟩ => some (.pair, rc)
    | ⟨.lockAction action, rc⟩ => some (.lockAction action, rc)
    | ⟨.calibrate securityPin, rc⟩ => some (.calibrate securityPin, rc)
    | _ => none

/-- The trace of writing these bytes. -/
def sent (bytes : List UInt8) : List UartExchange := bytes.map fun byte => ⟨.pollOut byte, ()⟩

/-- The bytes on the line come in the order of the calls: what two traces write one after the other
is what each of them writes. -/
@[simp] theorem written_append (trace trace' : List UartExchange) :
    written (trace ++ trace') = written trace ++ written trace' :=
  List.filterMap_append

/-- Likewise for the operations: a trace is read call by call, and each operation stands beside its
own result. -/
@[simp] theorem invoked_append (trace trace' : List UartExchange) :
    invoked (trace ++ trace') = invoked trace ++ invoked trace' :=
  List.filterMap_append

@[simp] theorem written_sent (bytes : List UInt8) : written (sent bytes) = bytes := by
  induction bytes with
  | nil => rfl
  | cons byte bytes ih => exact congrArg (byte :: ·) ih

@[simp] theorem invoked_sent (bytes : List UInt8) : invoked (sent bytes) = [] := by
  induction bytes with
  | nil => rfl
  | cons byte bytes ih => exact ih

/-- What serving a frame comes to: the calls of the application, the result, and the
response. -/
inductive Handled (frame : RxFrame) : List UartExchange → Int32 → Packet → Prop where
  | status (paired connected ready : Bool) (h : frame.cmd = UartCmd.status) :
      Handled frame [⟨.isPaired, paired⟩, ⟨.isConnected, connected⟩, ⟨.isReady, ready⟩] 0
        ⟨frame.cmd, (RespStatus.mk 0 (if paired then 1 else 0) (if connected then 1 else 0)
          (if ready then 1 else 0)).bytes⟩
  | pair (rc : Int32) (h : frame.cmd = UartCmd.pair) :
      Handled frame [⟨.pair, rc⟩] rc ⟨frame.cmd, (RespSimple.mk rc).bytes⟩
  | state (cached : CachedState) (h : frame.cmd = UartCmd.state) :
      Handled frame [⟨.getCachedState, cached⟩] cached.err
        ⟨frame.cmd, (filled (.zero cached.err) cached).bytes⟩
  | refusedAction (action : UInt8) (rc : Int32) (h : LockActionOf frame.cmd action)
      (error : rc ≠ 0) :
      Handled frame [⟨.lockAction action, rc⟩] rc ⟨frame.cmd, (RespState.zero rc).bytes⟩
  | lockAction (action : UInt8) (cached : CachedState) (h : LockActionOf frame.cmd action) :
      Handled frame [⟨.lockAction action, (0 : Int32)⟩, ⟨.getCachedState, cached⟩] 0
        ⟨frame.cmd, (filled (.zero 0) cached).bytes⟩
  | calibrate (rc : Int32) (h : frame.cmd = UartCmd.calibrate) (len : frame.len = 2) :
      Handled frame [⟨.calibrate (sysGetLe16 (frame.payload.val.take 2)), rc⟩] rc
        ⟨frame.cmd, (RespSimple.mk rc).bytes⟩
  | invalid (h : frame.operation? = none) (status : frame.cmd ≠ UartCmd.status)
      (state : frame.cmd ≠ UartCmd.state) :
      Handled frame [] (.ofInt (-einval)) ⟨frame.cmd, (RespSimple.mk (.ofInt (-einval))).bytes⟩

@[simp] theorem RespStatus.length_bytes (resp : RespStatus) : resp.bytes.length = 7 := rfl

@[simp] theorem RespSimple.length_bytes (resp : RespSimple) : resp.bytes.length = 4 := rfl

/-- The size of the packed structure. It is the length byte 0x15 of every state response. -/
@[simp] theorem RespState.length_bytes (resp : RespState) : resp.bytes.length = 21 := rfl

/-- `uart_poll_out` has no result that could end the loop early, so all bytes are written, in order,
and nothing happens in between. -/
theorem traces_pollOut {bytes : List UInt8} {trace : List UartExchange} {result : Unit}
    (h : (pollOut bytes).Traces trace result) : trace = sent bytes := by
  induction bytes generalizing trace with
  | nil => exact h.of_done.1
  | cons byte bytes ih =>
      obtain ⟨answer, rest, rfl, hRest⟩ := h.of_perform
      rw [ih hRest]
      rfl

/-- A frame is sent as one packet. -/
theorem traces_sendFrame {cmd len : UInt8} {payload : List UInt8} {trace : List UartExchange}
    {result : Unit} (hLen : len = UInt8.ofNat payload.length) (hShort : payload.length < 256)
    (h : (sendFrame cmd payload len).Traces trace result) :
    trace = sent ((Packet.mk cmd payload).bytes uartFrameSofResp) := by
  have hNat : len.toNat = payload.length := by
    rw [hLen, UInt8.toNat_ofNat']
    exact Nat.mod_eq_of_lt hShort
  rw [traces_pollOut h, hNat, List.take_length, hLen]
  rfl

/-- A result alone is sent as one packet of four bytes, whichever handler reports it. -/
theorem traces_sendSimpleResponse {cmd : UInt8} {rc : Int32} {trace : List UartExchange}
    {result : Unit} (h : (sendSimpleResponse cmd rc).Traces trace result) :
    trace = sent ((Packet.mk cmd (RespSimple.mk rc).bytes).bytes uartFrameSofResp) :=
  traces_sendFrame rfl (by rw [RespSimple.length_bytes]; decide) h

/-- A state response is sent as one packet. -/
theorem traces_sendState {cmd : UInt8} {resp : RespState} {trace : List UartExchange}
    {result : Unit} (h : (sendFrame cmd resp.bytes 21).Traces trace result) :
    trace = sent ((Packet.mk cmd resp.bytes).bytes uartFrameSofResp) :=
  traces_sendFrame rfl (by rw [RespState.length_bytes]; decide) h

/-- The trace serves the frame. -/
def Serving (frame : RxFrame) (trace : List UartExchange) : Prop :=
  ∃ calls rc packet, Handled frame calls rc packet ∧
    trace = calls ++ sent (packet.bytes uartFrameSofResp)

section Handlers

variable {frame : RxFrame} {trace : List UartExchange} {result : Unit}

/-- The three predicates are read one after the other and nothing is locked in between, so the
response holds three answers that need not belong to one moment. -/
theorem traces_handleStatus (h : frame.cmd = UartCmd.status)
    (traces : handleStatus.Traces trace result) : Serving frame trace := by
  obtain ⟨paired, rest, rfl, hConnected⟩ := traces.of_perform
  obtain ⟨connected, rest, rfl, hReady⟩ := hConnected.of_perform
  obtain ⟨ready, rest, rfl, hFrame⟩ := hReady.of_perform
  have hSent := traces_sendFrame rfl (by rw [RespStatus.length_bytes]; decide) hFrame
  refine ⟨_, _, _, .status paired connected ready h, ?_⟩
  rw [hSent, h]
  rfl

/-- Pairing is asked for once, and its result is the whole response. -/
theorem traces_handlePair (h : frame.cmd = UartCmd.pair)
    (traces : handlePair.Traces trace result) : Serving frame trace := by
  obtain ⟨rc, rest, rfl, hFrame⟩ := traces.of_perform
  refine ⟨_, _, _, .pair rc h, ?_⟩
  rw [traces_sendSimpleResponse hFrame, h]
  rfl

/-- The cached state is read once. The same reading gives the result and the fields of the
response. -/
theorem traces_handleState (h : frame.cmd = UartCmd.state)
    (traces : handleState.Traces trace result) : Serving frame trace := by
  obtain ⟨cached, rest, rfl, hFrame⟩ := traces.of_perform
  refine ⟨_, _, _, .state cached h, ?_⟩
  rw [traces_sendState hFrame, h]
  rfl

/-- The two ends of a lock action: the application refuses and the fields stay zero, or it succeeds
and the cache is read afterwards for the fields. -/
theorem traces_handleLockAction {action : UInt8} (h : LockActionOf frame.cmd action)
    (traces : (handleLockAction action frame.cmd).Traces trace result) :
    Serving frame trace := by
  obtain ⟨rc, rest, rfl, hMore⟩ := traces.of_perform
  by_cases hError : rc = (0 : Int32)
  · subst hError
    rw [if_pos rfl] at hMore
    obtain ⟨cached, rest, rfl, hFrame⟩ := hMore.of_perform
    refine ⟨_, _, _, .lockAction action cached h, ?_⟩
    rw [traces_sendState hFrame]
    rfl
  · rw [if_neg hError] at hMore
    refine ⟨_, _, _, .refusedAction action rc h hError, ?_⟩
    rw [traces_sendState hMore]
    rfl

/-- The two branches on the length byte: a PIN of two bytes is passed on, and any other length is
answered with `-EINVAL` before the application is asked. -/
theorem traces_handleCalibrate (h : frame.cmd = UartCmd.calibrate)
    (traces : (handleCalibrate frame).Traces trace result) : Serving frame trace := by
  by_cases hLen : frame.len = 2
  · rw [handleCalibrate, if_neg (not_not.mpr hLen)] at traces
    obtain ⟨rc, rest, rfl, hFrame⟩ := traces.of_perform
    refine ⟨_, _, _, .calibrate rc h hLen, ?_⟩
    rw [traces_sendSimpleResponse hFrame, h]
    rfl
  · rw [handleCalibrate, if_pos hLen] at traces
    refine ⟨[], _, _, .invalid ?_ ?_ ?_, ?_⟩
    · simp only [RxFrame.operation?, h, hLen, and_false, if_false]
      rfl
    · rw [h]
      decide
    · rw [h]
      decide
    · rw [traces_sendSimpleResponse traces, h]
      rfl

/-- The `switch` over the command, one case after the other. Every frame is served, an unknown
command by `-EINVAL`. -/
theorem traces_dispatchFrame (traces : (dispatchFrame frame).Traces trace result) :
    Serving frame trace := by
  rw [dispatchFrame] at traces
  by_cases hStatus : frame.cmd = UartCmd.status
  · rw [if_pos hStatus] at traces
    exact traces_handleStatus hStatus traces
  rw [if_neg hStatus] at traces
  by_cases hPair : frame.cmd = UartCmd.pair
  · rw [if_pos hPair] at traces
    exact traces_handlePair hPair traces
  rw [if_neg hPair] at traces
  by_cases hState : frame.cmd = UartCmd.state
  · rw [if_pos hState] at traces
    exact traces_handleState hState traces
  rw [if_neg hState] at traces
  by_cases hLock : frame.cmd = UartCmd.lock
  · rw [if_pos hLock, ← hLock] at traces
    exact traces_handleLockAction (hLock ▸ .lock) traces
  rw [if_neg hLock] at traces
  by_cases hUnlock : frame.cmd = UartCmd.unlock
  · rw [if_pos hUnlock, ← hUnlock] at traces
    exact traces_handleLockAction (hUnlock ▸ .unlock) traces
  rw [if_neg hUnlock] at traces
  by_cases hUnlatch : frame.cmd = UartCmd.unlatch
  · rw [if_pos hUnlatch, ← hUnlatch] at traces
    exact traces_handleLockAction (hUnlatch ▸ .unlatch) traces
  rw [if_neg hUnlatch] at traces
  by_cases hCalibrate : frame.cmd = UartCmd.calibrate
  · rw [if_pos hCalibrate] at traces
    exact traces_handleCalibrate hCalibrate traces
  rw [if_neg hCalibrate] at traces
  refine ⟨[], _, _, .invalid ?_ hStatus hState, traces_sendSimpleResponse traces⟩
  simp only [RxFrame.operation?, if_neg hPair, if_neg hLock, if_neg hUnlock, if_neg hUnlatch]
  exact if_neg fun h => hCalibrate h.1

end Handlers

/-- A response to a frame: its command, a length that the command alone decides, the
result, and zeros where the result is an error. -/
structure RxFrame.AnsweredBy (frame : RxFrame) (rc : Int32) (packet : Packet) : Prop where
  cmd : packet.cmd = frame.cmd
  len : packet.payload.length = responseLen frame.cmd
  code : packet.payload.take 4 = sysPutLe32 rc.toUInt32
  zeroed : rc ≠ 0 → packet.payload.drop 4 = List.replicate (responseLen frame.cmd - 4) 0

/-- No response is longer than what a reader of this protocol accepts, whatever the command byte. -/
theorem responseLen_le (cmd : UInt8) : responseLen cmd ≤ uartMaxPayload := by
  rw [responseLen]
  split
  · decide
  · split <;> decide

/-- The three lock actions are answered by a state, also where they fail. -/
theorem LockActionOf.responseLen {cmd action : UInt8} (h : LockActionOf cmd action) :
    responseLen cmd = 21 := by
  cases h <;> rfl

/-- The three lock actions name their operation by the command byte alone. Length and payload of the
frame are not looked at. -/
theorem LockActionOf.operation? {frame : RxFrame} {action : UInt8}
    (h : LockActionOf frame.cmd action) : frame.operation? = some (.lockAction action) := by
  obtain ⟨cmd, len, payload⟩ := frame
  cases h <;> rfl

/-- A frame that names no operation, no status and no state gets the short response. This covers
unknown commands and a PIN of the wrong length. -/
theorem RxFrame.responseLen_of_invalid {frame : RxFrame} (h : frame.operation? = none)
    (status : frame.cmd ≠ UartCmd.status) (state : frame.cmd ≠ UartCmd.state) :
    responseLen frame.cmd = 4 := by
  have hOther {cmd action : UInt8} (named : LockActionOf cmd action) : frame.cmd ≠ cmd := by
    intro hCmd
    rw [← hCmd] at named
    exact absurd (h.symm.trans named.operation?) nofun
  rw [responseLen, if_neg status, if_neg]
  rintro (hState | hLock | hUnlock | hUnlatch)
  · exact state hState
  · exact hOther .lock hLock
  · exact hOther .unlock hUnlock
  · exact hOther .unlatch hUnlatch

theorem filled_error {cached : CachedState} (resp : RespState) (h : cached.err ≠ 0) :
    filled resp cached = resp :=
  if_neg h

/-- The result stands in front of all fields of the packed structure, little endian. -/
theorem RespState.take_bytes (resp : RespState) :
    resp.bytes.take 4 = sysPutLe32 resp.rc.toUInt32 := rfl

/-- The prepared response in memory: the result, and zeros for the seventeen bytes of the fields. -/
theorem RespState.bytes_zero (rc : Int32) :
    (RespState.zero rc).bytes = sysPutLe32 rc.toUInt32 ++ List.replicate 17 0 := by
  simp only [bytes, zero, List.append_assoc]
  exact congrArg (sysPutLe32 rc.toUInt32 ++ ·) (by decide)

/-- Behind the result a prepared response is all zeros, which is what an error response carries. -/
theorem RespState.drop_bytes_zero (rc : Int32) :
    (RespState.zero rc).bytes.drop 4 = List.replicate 17 0 := by
  rw [bytes_zero]
  exact List.drop_left' (length_sysPutLe32 _)

/-- Filling in the fields of the state leaves the result as it was set before. -/
theorem filled_rc (rc : Int32) (cached : CachedState) : (filled (.zero rc) cached).rc = rc := by
  rw [filled]
  split <;> rfl

namespace Handled

variable {frame : RxFrame} {calls : List UartExchange} {rc : Int32} {packet : Packet}

/-- However a frame was served, the packet has the shape that the protocol promises: one case for
each way of serving it. -/
theorem answeredBy (h : Handled frame calls rc packet) : frame.AnsweredBy rc packet := by
  cases h with
  | status paired connected ready hCmd =>
      exact ⟨rfl, by rw [hCmd]; rfl, rfl, fun hError => absurd rfl hError⟩
  | pair rc hCmd => exact ⟨rfl, by rw [hCmd]; rfl, rfl, fun _ => by rw [hCmd]; rfl⟩
  | state cached hCmd =>
      refine ⟨rfl, by rw [hCmd]; rfl, ?_, ?_⟩
      · rw [RespState.take_bytes, filled_rc]
      · intro hError
        rw [filled_error _ hError, RespState.drop_bytes_zero, hCmd]
        rfl
  | refusedAction action rc hAction hError =>
      refine ⟨rfl, hAction.responseLen.symm, rfl, fun _ => ?_⟩
      rw [hAction.responseLen]
      exact RespState.drop_bytes_zero rc
  | lockAction action cached hAction =>
      refine ⟨rfl, hAction.responseLen.symm, ?_, fun hError => absurd rfl hError⟩
      rw [RespState.take_bytes, filled_rc]
  | calibrate rc hCmd hLen => exact ⟨rfl, by rw [hCmd]; rfl, rfl, fun _ => by rw [hCmd]; rfl⟩
  | invalid hNone hStatus hState =>
      have hLen := RxFrame.responseLen_of_invalid hNone hStatus hState
      exact ⟨rfl, hLen.symm, rfl, fun _ => by rw [hLen]; rfl⟩

/-- While the application is called nothing goes to the line, so a response never starts before its
operation has returned. -/
theorem written_calls (h : Handled frame calls rc packet) : written calls = [] := by
  cases h <;> rfl

/-- The operation that the frame names is invoked, once, and its result is reported. -/
theorem invoked_calls (h : Handled frame calls rc packet) :
    invoked calls = frame.operation?.toList.map fun op => (op, rc) := by
  cases h with
  | status paired connected ready hCmd =>
      rw [RxFrame.operation?, hCmd]
      rfl
  | pair rc hCmd =>
      rw [RxFrame.operation?, hCmd]
      rfl
  | state cached hCmd =>
      rw [RxFrame.operation?, hCmd]
      rfl
  | refusedAction action rc hAction hError =>
      rw [hAction.operation?]
      rfl
  | lockAction action cached hAction =>
      rw [hAction.operation?]
      rfl
  | calibrate rc hCmd hLen =>
      have hTwo : frame.operation? = some (.calibrate (sysGetLe16 frame.payload.val)) := by
        simp only [RxFrame.operation?, hCmd, hLen, and_self, if_true]
        rfl
      have hPin : sysGetLe16 (frame.payload.val.take 2) = sysGetLe16 frame.payload.val := by
        rw [← sysGetLe16_append (frame.payload.val.drop 2), List.take_append_drop]
        rw [List.length_take, Bytes.length]
        decide
      rw [hTwo, hPin]
      rfl
  | invalid hNone hStatus hState =>
      rw [hNone]
      rfl

end Handled

/-- One frame and how it was served. -/
structure Served where
  frame : RxFrame
  calls : List UartExchange
  rc : Int32
  packet : Packet
  handled : Handled frame calls rc packet

namespace Served

def response (e : Served) : List UInt8 := e.packet.bytes uartFrameSofResp

/-- The calls of the application come before the first byte of the response. -/
def trace (e : Served) : List UartExchange := e.calls ++ sent e.response

/-- The operation that was invoked, with its result. -/
def invoked? (e : Served) : Option (Operation × Int32) :=
  e.frame.operation?.map fun op => (op, e.rc)

/-- Over a whole run the line carries the responses, one behind the other, with nothing between
them. -/
theorem written_trace (served : List Served) :
    written (served.flatMap trace) = served.flatMap response := by
  induction served with
  | nil => rfl
  | cons e served ih =>
      rw [List.flatMap_cons, List.flatMap_cons, written_append, ih, trace, written_append,
        e.handled.written_calls, written_sent, List.nil_append]

/-- Over a whole run the application is called once for each frame that names an operation, in the
order of the frames. -/
theorem invoked_trace (served : List Served) :
    invoked (served.flatMap trace) = served.filterMap invoked? := by
  induction served with
  | nil => rfl
  | cons e served ih =>
      have hHead : invoked e.trace = e.invoked?.toList := by
        rw [trace, invoked_append, e.handled.invoked_calls, invoked_sent, List.append_nil, invoked?]
        cases e.frame.operation? <;> rfl
      rw [List.flatMap_cons, invoked_append, ih, hHead, List.filterMap_cons]
      cases e.invoked? <;> rfl

/-- A reader finds the responses, and no others, although their payload may contain bytes that look
like a start byte. -/
theorem packets_response (served : List Served) :
    packets uartFrameSofResp uartMaxPayload (served.flatMap response) = served.map packet := by
  induction served with
  | nil => exact packets_nil
  | cons e served ih =>
      have hLen : e.packet.payload.length ≤ uartMaxPayload := by
        rw [e.handled.answeredBy.len]
        exact responseLen_le e.frame.cmd
      rw [List.flatMap_cons, response, packets_bytes _ hLen (by decide), ih]
      rfl

/-- A response is never empty, which gives the last byte that the argument about cut responses
needs. -/
theorem response_eq (e : Served) : ∃ bytes last, e.response = bytes ++ [last] :=
  (List.eq_nil_or_concat' e.response).resolve_left (List.cons_ne_nil _ _)

/-- Before its last byte a response is not written. -/
theorem written_ne_response {e : Served} {part : List UartExchange} (h : part <+: e.trace)
    (cut : part ≠ e.trace) : written part ≠ e.response := by
  intro hWhole
  obtain ⟨rest, hRest⟩ := h
  obtain ⟨bytes, last, hResponse⟩ := e.response_eq
  rcases List.eq_nil_or_concat' rest with rfl | ⟨rest, final, rfl⟩
  · exact cut (by rw [← hRest, List.append_nil])
  · have hTrace : part ++ rest ++ [final] = e.calls ++ sent bytes ++ [⟨.pollOut last, ()⟩] := by
      rw [List.append_assoc, hRest, trace, hResponse, sent, List.map_append, List.append_assoc]
      rfl
    have hBytes := congrArg written (List.append_inj' hTrace rfl).1
    rw [written_append, written_append, hWhole, hResponse, e.handled.written_calls,
      written_sent] at hBytes
    simpa using congrArg List.length hBytes

/-- What has been written in the middle of a run: the responses that are complete. -/
theorem packets_prefix {served : List Served} {part : List UartExchange}
    (h : part <+: served.flatMap trace) :
    ∃ complete rest, served = complete ++ rest ∧ complete.flatMap trace <+: part ∧
      packets uartFrameSofResp uartMaxPayload (written part) = complete.map packet := by
  induction served generalizing part with
  | nil =>
      obtain rfl := List.prefix_nil.mp h
      exact ⟨[], [], rfl, List.nil_prefix, packets_nil⟩
  | cons e served ih =>
      have hLen : e.packet.payload.length ≤ uartMaxPayload := by
        rw [e.handled.answeredBy.len]
        exact responseLen_le e.frame.cmd
      rw [List.flatMap_cons] at h
      by_cases hPart : e.trace <+: part
      · obtain ⟨part, rfl⟩ := hPart
        rw [List.prefix_append_right_inj] at h
        obtain ⟨complete, rest, rfl, hComplete, hPackets⟩ := ih h
        refine ⟨e :: complete, rest, rfl, ?_, ?_⟩
        · rw [List.flatMap_cons, List.prefix_append_right_inj]
          exact hComplete
        · have hWritten : written e.trace = e.response := by
            rw [trace, written_append, e.handled.written_calls, written_sent, List.nil_append]
          rw [written_append, hWritten, response, packets_bytes _ hLen (by decide), hPackets]
          rfl
      · have hCut : part <+: e.trace :=
          (List.prefix_or_prefix_of_prefix h (List.prefix_append _ _)).resolve_right hPart
        have hNe : part ≠ e.trace := fun hSame => hPart (hSame ▸ List.prefix_rfl)
        have hWritten : written part <+: e.response := by
          have hPrefix : written part <+: written e.trace := by
            unfold written
            exact hCut.filterMap _
          rwa [trace, written_append, e.handled.written_calls, written_sent,
            List.nil_append] at hPrefix
        refine ⟨[], e :: served, rfl, List.nil_prefix, ?_⟩
        exact packets_cut hWritten (written_ne_response hCut hNe) hLen (by decide)

end Served

/-- The thread serves one frame after the other: by induction on the frames, each with its calls and
its response. -/
theorem traces_nukiUartThreadFn {frames : List RxFrame} {trace : List UartExchange}
    {result : Unit} (h : (nukiUartThreadFn frames).Traces trace result) :
    ∃ served : List Served, served.map Served.frame = frames ∧
      trace = served.flatMap Served.trace := by
  induction frames generalizing trace with
  | nil => exact ⟨[], rfl, h.of_done.1⟩
  | cons frame frames ih =>
      obtain ⟨first, rest, _, rfl, hFirst, hRest⟩ := Program.Traces.of_bind h
      obtain ⟨calls, rc, packet, hHandled, rfl⟩ := traces_dispatchFrame hFirst
      obtain ⟨served, rfl, rfl⟩ := ih hRest
      exact ⟨⟨frame, calls, rc, packet, hHandled⟩ :: served, rfl, rfl⟩

/-- The same request: bytes of the payload behind its length may differ. -/
def RxFrame.SameRequest (frame frame' : RxFrame) : Prop :=
  frame.cmd = frame'.cmd ∧ frame.len = frame'.len ∧
    frame.payload.val.take frame.len.toNat = frame'.payload.val.take frame.len.toNat

/-- What serving a frame does depends on the command, the length and the payload that the length
covers, and not on what else the queue entry holds. -/
theorem dispatchFrame_congr {frame frame' : RxFrame} (h : frame.SameRequest frame') :
    dispatchFrame frame = dispatchFrame frame' := by
  obtain ⟨hCmd, hLen, hPayload⟩ := h
  have hCalibrate : handleCalibrate frame = handleCalibrate frame' := by
    rw [handleCalibrate, handleCalibrate, ← hLen]
    by_cases hTwo : frame.len = 2
    · rw [hTwo] at hPayload
      rw [if_neg (not_not.mpr hTwo), if_neg (not_not.mpr hTwo)]
      change frame.payload.val.take 2 = frame'.payload.val.take 2 at hPayload
      rw [hPayload]
    · rw [if_pos hTwo, if_pos hTwo]
  rw [dispatchFrame, dispatchFrame, ← hCmd, hCalibrate]

/-- The same for the thread: bytes behind the declared length of a frame change no call and no
response. -/
theorem nukiUartThreadFn_congr {frames frames' : List RxFrame}
    (h : List.Forall₂ RxFrame.SameRequest frames frames') :
    nukiUartThreadFn frames = nukiUartThreadFn frames' := by
  induction h with
  | nil => rfl
  | cons same _ ih => rw [nukiUartThreadFn, nukiUartThreadFn, dispatchFrame_congr same, ih]

/-- Whatever is queued and whatever the application returns, each frame is served once, in
the order of the queue: the operation it names is invoked with its PIN, its response is
written as one packet that a reader recovers, and only the bytes of the request matter. -/
theorem dispatch_exact (frames : List RxFrame) (answers : Nat → (c : UartCall) → c.Answer) :
    let trace := ((nukiUartThreadFn frames).transcript answers 0).1
    ∃ served : List Served,
      served.map Served.frame = frames ∧
      trace = served.flatMap Served.trace ∧
      written trace = served.flatMap Served.response ∧
      packets uartFrameSofResp uartMaxPayload (written trace) = served.map Served.packet ∧
      (∀ e ∈ served, e.frame.AnsweredBy e.rc e.packet) ∧
      invoked trace = served.filterMap Served.invoked? ∧
      (invoked trace).map Prod.fst = frames.filterMap RxFrame.operation? ∧
      ∀ frames', List.Forall₂ RxFrame.SameRequest frames frames' →
        nukiUartThreadFn frames = nukiUartThreadFn frames' := by
  intro trace
  obtain ⟨served, hFrames, hTrace⟩ :=
    traces_nukiUartThreadFn ((nukiUartThreadFn frames).traces_transcript answers 0)
  change trace = _ at hTrace
  have hWritten : written trace = served.flatMap Served.response := by
    rw [hTrace, Served.written_trace]
  have hInvoked : invoked trace = served.filterMap Served.invoked? := by
    rw [hTrace, Served.invoked_trace]
  refine ⟨served, hFrames, hTrace, hWritten, ?_, ?_, hInvoked, ?_, ?_⟩
  · rw [hWritten, Served.packets_response]
  · intro e _
    exact e.handled.answeredBy
  · rw [hInvoked, ← hFrames, List.map_filterMap, List.filterMap_map]
    congr 1
    funext e
    rw [Served.invoked?, Option.map_map]
    exact Option.map_id'
  · intro frames' hSame
    exact nukiUartThreadFn_congr hSame

end NukiBridge

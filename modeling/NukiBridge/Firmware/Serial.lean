import NukiBridge.App.Discipline
import NukiBridge.Firmware.Order
import NukiBridge.Interaction.Logs

/-! Operations are serialised: whatever the threads do and however their steps are
interleaved, the application gets only where one operation after the other takes it, and
their calls are those of one operation after the other. So what is proved of the bridge,
which serves one operation at a time, holds of the firmware. -/
namespace NukiBridge

open Interaction

/-- The application as a part of the firmware: its callbacks, and the steps of operations. -/
def appPart : Part firmware bridge where
  view := Firmware.app
  embed := .app
  answerOf := fun _ result => result
  event := by
    intro e s s' fires
    obtain ⟨app, hFires, rfl⟩ := Option.map_eq_some_iff.mp fires
    exact Or.inr ⟨e, hFires⟩
  stay := by
    intro op choice s s' calls
    obtain ⟨reply, hCalls, hReply⟩ := Option.map_eq_some_iff.mp calls
    cases reply with
    | stay app =>
        cases hReply
        exact ⟨choice.app, hCalls⟩
    | answer result app => cases hReply
  answer := by
    intro op choice s result s' calls
    obtain ⟨reply, hCalls, hReply⟩ := Option.map_eq_some_iff.mp calls
    cases reply with
    | stay app => cases hReply
    | answer result app =>
        cases hReply
        exact ⟨choice.app, hCalls⟩

abbrev FirmwareExchange := Exchange FirmwareOp FirmwareOp.Answer

/-- The steps of operations. -/
def FirmwareExchange.app? : FirmwareExchange → Option AppExchange
  | ⟨.app op, answer⟩ => some ⟨op, answer⟩
  | _ => none

/-- The application with the record of the steps of operations. -/
def appRecord : Part firmware.recorded bridge.recorded :=
  appPart.recorded FirmwareExchange.app? fun _ _ => rfl

/-- Only the steps of operations change the application. All others leave its record as it is. -/
theorem silent_of_isApp {op : FirmwareOp} (h : op.isApp = false) : appRecord.Silent op := by
  apply Part.Silent.recorded
  · constructor
    · intro choice s s' calls
      cases op with
      | app op => cases h
      | _ => cases calls
    · intro choice s result s' calls
      cases op with
      | app op => cases h
      | _ =>
          cases calls
          rfl
  · intro result
    cases op with
    | app op => cases h
    | _ => rfl

/-- Code that takes no step of an operation and does not touch `g_op_lock`. -/
def FirmwareCode.Aside {α : Type} (code : FirmwareCode α) : Prop :=
  code.Makes fun
    | .call op => op.isApp = false
    | .lock m => m ≠ .opLock
    | .unlock m => m ≠ .opLock

theorem FirmwareCode.Aside.serves {α : Type} {code : FirmwareCode α} (h : code.Aside)
    (left : Option (AppCode Response)) :
    appRecord.Serves .opLock Request.body (fun _ left' => left' = left) code left :=
  Part.serves_of_makes h (fun _ => silent_of_isApp) (fun _ => id) (fun _ => id) left

theorem FirmwareCode.Aside.servesAll {α : Type} {code : FirmwareCode α} (h : code.Aside) :
    appRecord.ServesAll .opLock Request.body code :=
  h.serves none

/-- Writing the cache is no part of an operation's calls, so it may happen beside any of them. -/
theorem aside_storeCache (state : KeyturnerState) : (storeCache state).Aside :=
  ⟨nofun, fun _ => ⟨rfl, fun _ => ⟨rfl, fun _ => ⟨rfl, fun _ => ⟨rfl, fun _ => ⟨rfl, fun _ =>
    ⟨nofun, fun _ => trivial⟩⟩⟩⟩⟩⟩⟩

theorem aside_nukiAppGetCachedState : nukiAppGetCachedState.Aside := by
  refine ⟨rfl, fun left => ⟨nofun, fun _ => ⟨rfl, fun valid => ?_⟩⟩⟩
  cases valid with
  | false => exact ⟨rfl, fun _ => ⟨nofun, fun _ => trivial⟩⟩
  | true => exact ⟨rfl, fun _ => ⟨rfl, fun _ => ⟨rfl, fun _ => ⟨rfl, fun _ => ⟨nofun, fun _ => trivial⟩⟩⟩⟩⟩

theorem aside_nukiAppIsReady : nukiAppIsReady.Aside := by
  refine ⟨rfl, fun conn => ?_⟩
  cases conn with
  | none => exact trivial
  | some id => exact ⟨rfl, fun _ => trivial⟩

/-- Each step of an operation is one step of the application, whatever it does besides. -/
theorem serves_firmwareOp (op : AppOp) (left : op.Answer → AppCode Response) :
    appRecord.Serves .opLock Request.body (fun result left' => left' = some (left result))
      (firmwareOp op) (some (.call op left)) := by
  cases op with
  | updateCache state =>
      apply Part.Serves.bind ((aside_storeCache state).serves _)
      rintro _ _ rfl
      exact .act fun _ => .done rfl
  | _ => exact .act fun _ => .done rfl

/-- An operation performs its calls under `g_op_lock`, from the first to the last, and all of them
are those of its request. -/
theorem servesAll_nukiApp (operation : Operation) :
    appRecord.ServesAll .opLock Request.body (nukiApp operation) :=
  .silent (silent_of_isApp rfl) fun stack =>
    Part.servesAll_section serves_firmwareOp ⟨operation, stack⟩

theorem servesAll_result {α β : Type} {code : FirmwareCode α}
    (h : appRecord.ServesAll .opLock Request.body code) (f : α → β) :
    appRecord.ServesAll .opLock Request.body (code.bind fun result => .done (f result)) :=
  h.bind fun _ => .done rfl

theorem servesAll_nukiAppGetState : appRecord.ServesAll .opLock Request.body nukiAppGetState :=
  .silent (silent_of_isApp rfl) fun _ => servesAll_result (servesAll_nukiApp .getState) _

theorem servesAll_pollCall (c : PollCall) : appRecord.ServesAll .opLock Request.body (pollCall c) := by
  cases c with
  | isPaired => exact FirmwareCode.Aside.servesAll ⟨rfl, fun _ => trivial⟩
  | getState => exact servesAll_nukiAppGetState
  | storeCache state => exact (aside_storeCache state).servesAll
  | sleep sec => exact FirmwareCode.Aside.servesAll ⟨rfl, fun _ => trivial⟩

theorem servesAll_uartCall (c : UartCall) : appRecord.ServesAll .opLock Request.body (uartCall c) := by
  cases c with
  | isPaired => exact FirmwareCode.Aside.servesAll ⟨rfl, fun _ => trivial⟩
  | isConnected => exact FirmwareCode.Aside.servesAll ⟨rfl, fun _ => trivial⟩
  | isReady => exact aside_nukiAppIsReady.servesAll
  | pair => exact servesAll_result (servesAll_nukiApp .pair) _
  | lockAction action => exact servesAll_result (servesAll_nukiApp (.lockAction action)) _
  | calibrate securityPin => exact servesAll_result (servesAll_nukiApp (.calibrate securityPin)) _
  | getCachedState => exact aside_nukiAppGetCachedState.servesAll
  | pollOut byte => exact FirmwareCode.Aside.servesAll ⟨rfl, fun _ => trivial⟩

theorem servesAll_shellCall (c : ShellCall) :
    appRecord.ServesAll .opLock Request.body (shellCall c) := by
  cases c with
  | write level format args => exact FirmwareCode.Aside.servesAll ⟨rfl, fun _ => trivial⟩
  | isPaired => exact FirmwareCode.Aside.servesAll ⟨rfl, fun _ => trivial⟩
  | isConnected => exact FirmwareCode.Aside.servesAll ⟨rfl, fun _ => trivial⟩
  | isReady => exact aside_nukiAppIsReady.servesAll
  | pair => exact servesAll_result (servesAll_nukiApp .pair) _
  | getState => exact servesAll_nukiAppGetState
  | lockAction action => exact servesAll_result (servesAll_nukiApp (.lockAction action)) _
  | calibrate securityPin => exact servesAll_result (servesAll_nukiApp (.calibrate securityPin)) _

/-- So every thread performs the calls of the application only as whole operations under the
mutex. -/
theorem servesAll_code (work : Workload) (t : FirmwareThread) :
    appRecord.ServesAll .opLock Request.body (work.code t) := by
  cases t with
  | poller => exact servesAll_result (Part.ServesAll.inline servesAll_pollCall _) _
  | uart => exact Part.ServesAll.inline servesAll_uartCall _
  | shell => exact servesAll_result (Part.ServesAll.inline servesAll_shellCall _) _

abbrev FirmwareLog := List (FirmwareThread × FirmwareExchange)

/-- The steps of operations in a log, of whichever thread. -/
def operationCalls (log : FirmwareLog) : List AppExchange :=
  (log.map Prod.snd).filterMap FirmwareExchange.app?

/-- The runs of the firmware, with their logs. -/
abbrev FirmwareLogs (stored : Option PairingData) (uptime : Int) (work : Workload)
    (log : FirmwareLog) (S : Threads AppMutex FirmwareOp.Answer Firmware FirmwareThread) : Prop :=
  Threads.Logs firmware (.start (.boot stored uptime) work.code) log S

/-- How far the operation has come that is carried out, if any. -/
def Unfinished (part : List AppExchange) : AppStage → Prop
  | .idle _ => part = []
  | .busy req c => ∀ rest response, c.thread.Traces rest response →
      req.body.Traces (part ++ rest) response

/-- Whatever the three threads are given to do, and however their steps and the callbacks are
interleaved: the state of the application is one that the bridge reaches by serving one
operation after the other, and the calls so far are those of operations that were carried
out one after the other, and of the one that is under way. -/
theorem operations_serialised {stored : Option PairingData} {uptime : Int} {work : Workload}
    {log : FirmwareLog} {S : Threads AppMutex FirmwareOp.Answer Firmware FirmwareThread}
    (logs : FirmwareLogs stored uptime work log S) :
    ∃ stage history part, Reached .free stored stage ∧ stage.state = S.state.app ∧
      operationCalls log = calls history ++ part ∧ Unfinished part stage := by
  obtain ⟨stage, completed, hReached, hRecord, hState⟩ := Part.logs_serial (servesAll_code work) logs
  let history : List Performed := completed.map fun c => ⟨c.request, c.trace, c.result, c.traces⟩
  have hCalls : calls history = completed.flatMap Server.Completed.trace := List.flatMap_map ..
  have hView : stage.unobserved.state = S.state.app := by
    rw [Stage.unobserved_state, hState]
    rfl
  have hLog : stage.state.2 = operationCalls log := by rw [hState]; rfl
  cases stage with
  | idle s =>
      refine ⟨_, history, [], hReached, hView, ?_, rfl⟩
      rw [← hLog, hCalls, List.append_nil]
      exact hRecord
  | busy req c =>
      obtain ⟨part, hPart, hTraces⟩ := hRecord
      refine ⟨_, history, part, hReached, hView, ?_, hTraces⟩
      rw [← hLog, hCalls]
      exact hPart

/-- After a poll, a request and a line were carried out. -/
theorem operations_serialised_small :
    ∃ log S stage history part, FirmwareLogs none 0 .small log S ∧ (∀ t, S.Returned t) ∧
      Reached .free none stage ∧ stage.state = S.state.app ∧
      operationCalls log = calls history ++ part ∧ Unfinished part stage := by
  obtain ⟨S, hReaches, hReturned⟩ := firmware_returns (.refl : FirmwareReaches none 0 .small _)
  obtain ⟨log, hLogs⟩ := Threads.exists_logs hReaches
  obtain ⟨stage, history, part, hStage⟩ := operations_serialised hLogs
  exact ⟨log, S, stage, history, part, hLogs, hReturned, hStage⟩

end NukiBridge

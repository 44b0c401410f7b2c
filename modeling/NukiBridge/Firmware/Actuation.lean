import NukiBridge.App.Told
import NukiBridge.Firmware.Serial
import NukiBridge.Firmware.Smooth

/-! From a request to the motor. Each thread carries out the operations that its requests
name, and an operation tells the lock what it is for: so however the threads are
interleaved, the lock is told to move only where that was asked, and only as often. -/
namespace NukiBridge

open Interaction

abbrev ThreadTrace := List (Exchange (Locked AppMutex FirmwareOp) (Locked.Answer FirmwareOp.Answer))

/-- The steps of operations in a trace of a thread. -/
def appCalls (trace : ThreadTrace) : List AppExchange :=
  (Threads.unlocked trace).filterMap FirmwareExchange.app?

theorem appCalls_append (trace trace' : ThreadTrace) :
    appCalls (trace ++ trace') = appCalls trace ++ appCalls trace' := by
  simp [appCalls, Threads.unlocked]

/-- The operations that were carried out, with their results as a caller gets them. -/
def reported {β : Type} (f : Int → β) (history : List Performed) : List (Operation × β) :=
  history.map fun p => (p.request.operation, f p.response.err)

/-- The code carries out operations, and none otherwise. -/
def FirmwareCode.Performs {α β : Type} (f : Int → β) (post : α → List (Operation × β) → Prop)
    (code : FirmwareCode α) : Prop :=
  ∀ trace result, code.Traces trace result →
    ∃ history, appCalls trace = calls history ∧ post result (reported f history)

section Rules

variable {α β γ : Type} {f : Int → β} {post : α → List (Operation × β) → Prop}

theorem performs_done {result : α} (h : post result []) :
    FirmwareCode.Performs f post (.done result) := by
  intro trace result' hTraces
  obtain ⟨rfl, rfl⟩ := hTraces.of_done
  exact ⟨[], rfl, h⟩

theorem FirmwareCode.Performs.bind {code : FirmwareCode γ} {more : γ → FirmwareCode α}
    {mid : γ → List (Operation × β) → Prop} (first : code.Performs f mid)
    (rest : ∀ middle reports, mid middle reports →
      (more middle).Performs f fun result reports' => post result (reports ++ reports')) :
    FirmwareCode.Performs f post (code.bind more) := by
  intro trace result hTraces
  obtain ⟨early, late, middle, rfl, hEarly, hLate⟩ := Program.Traces.of_bind hTraces
  obtain ⟨history, hCalls, hMid⟩ := first early middle hEarly
  obtain ⟨history', hCalls', hPost⟩ := rest middle _ hMid late result hLate
  refine ⟨history ++ history', ?_, ?_⟩
  · rw [appCalls_append, hCalls, hCalls', calls, calls, calls, List.flatMap_append]
  · rw [reported, List.map_append]
    exact hPost

/-- Code that performs no operation makes none of the calls of the application. -/
theorem appCalls_aside {code : FirmwareCode α} (h : code.Aside) {trace : ThreadTrace} {result : α}
    (traces : code.Traces trace result) : appCalls trace = [] := by
  have hMakes := traces.makes h
  clear traces
  induction trace with
  | nil => rfl
  | cons e rest ih =>
      have hRest := ih fun e' he' => hMakes e' (List.mem_cons_of_mem e he')
      have hHere := hMakes e List.mem_cons_self
      obtain ⟨op, answer⟩ := e
      cases op with
      | lock m => exact hRest
      | unlock m => exact hRest
      | call op =>
          cases op with
          | app op => cases hHere
          | _ => exact hRest

/-- Code that takes no step of an operation carries out none. -/
theorem FirmwareCode.Aside.performs {code : FirmwareCode α} (h : code.Aside) :
    code.Performs f fun _ reports => reports = [] := by
  intro trace result traces
  exact ⟨[], appCalls_aside h traces, rfl⟩

/-- Procedures, inlined: what they carry out is reported call by call. -/
theorem performs_inline {C : Type} {Res : C → Type} {procedure : (c : C) → FirmwareCode (Res c)}
    {report : List (Exchange C Res) → List (Operation × β)} (nothing : report [] = [])
    (adds : ∀ e rest, report (e :: rest) = report [e] ++ report rest)
    (each : ∀ c, (procedure c).Performs f fun answer reports => reports = report [⟨c, answer⟩])
    (p : Program C Res α) :
    FirmwareCode.Performs f
      (fun result reports => ∃ trace, p.Traces trace result ∧ reports = report trace)
      (p.inline procedure) := by
  induction p with
  | done result => exact performs_done ⟨[], .done result, nothing.symm⟩
  | call c next ih =>
      apply (each c).bind
      rintro answer _ rfl trace result hTraces
      obtain ⟨history, hCalls, later, hLater, hReports⟩ := ih answer trace result hTraces
      refine ⟨history, hCalls, ⟨c, answer⟩ :: later, .call answer hLater, ?_⟩
      rw [hReports]
      exact (adds ⟨c, answer⟩ later).symm

end Rules

/-- The steps of an operation are those of its body. -/
theorem traces_firmwareOp {α : Type} {p : AppCode α} {trace : ThreadTrace} {result : α}
    (h : (p.inline firmwareOp).Traces trace result) :
    p.Traces (appCalls trace) result := by
  induction p generalizing trace with
  | done middle =>
      obtain ⟨rfl, rfl⟩ := h.of_done
      exact .done result
  | call op next ih =>
      obtain ⟨first, rest, answer, rfl, hFirst, hRest⟩ := Program.Traces.of_bind h
      have hStep : appCalls first = [⟨op, answer⟩] := by
        cases op with
        | updateCache state =>
            obtain ⟨stored, last, _, rfl, hStored, hLast⟩ := Program.Traces.of_bind hFirst
            obtain ⟨_, _, rfl, hDone⟩ := hLast.of_call
            obtain ⟨rfl, rfl⟩ := hDone.of_done
            rw [appCalls_append, appCalls_aside (aside_storeCache state) hStored]
            rfl
        | _ =>
            obtain ⟨_, _, rfl, hDone⟩ := hFirst.of_call
            obtain ⟨rfl, rfl⟩ := hDone.of_done
            rfl
      rw [appCalls_append, hStep]
      exact .call answer (ih answer hRest)

/-- Whatever thread asks for it, an operation is carried out once, and the result that it is
reported with is the one it returned. -/
theorem performs_nukiApp {β : Type} (f : Int → β) (operation : Operation) :
    (nukiApp operation).Performs f fun response reports =>
      reports = [(operation, f response.err)] := by
  intro trace response hTraces
  obtain ⟨stack, rest, rfl, hLocks⟩ := hTraces.of_perform
  obtain ⟨_, rest, rfl, hBody⟩ := hLocks.of_perform
  obtain ⟨served, rest, response', rfl, hServed, hUnlocks⟩ := Program.Traces.of_bind hBody
  obtain ⟨_, rest, rfl, hDone⟩ := hUnlocks.of_perform
  obtain ⟨rfl, rfl⟩ := hDone.of_done
  refine ⟨[⟨⟨operation, stack⟩, appCalls served, response, traces_firmwareOp hServed⟩], ?_, rfl⟩
  have hCalls : calls [⟨⟨operation, stack⟩, appCalls served, response, traces_firmwareOp hServed⟩] =
      appCalls served := List.flatMap_singleton ..
  rw [hCalls]
  show appCalls (served ++ _) = _
  rw [appCalls_append]
  exact List.append_nil _

/-- A procedure around one operation reports it once, with the result in the form in which the
procedure returns it. -/
theorem performs_result {α β : Type} {f : Int → β} {operation : Operation} {result : Response → α}
    {report : α → List (Operation × β)}
    (same : ∀ response, report (result response) = [(operation, f response.err)]) :
    FirmwareCode.Performs f (fun answer reports => reports = report answer)
      ((nukiApp operation).bind fun response => .done (result response)) := by
  apply (performs_nukiApp f operation).bind
  rintro response _ rfl
  exact performs_done (same response).symm

theorem performs_nukiAppGetState :
    nukiAppGetState.Performs id fun answer reports => reports = [(.getState, answer.1)] := by
  intro trace answer hTraces
  obtain ⟨stack, rest, rfl, hRest⟩ := hTraces.of_perform
  have hGet : FirmwareCode.Performs id (fun answer reports => reports = [(.getState, answer.1)])
      ((nukiApp .getState).bind fun response =>
        .done (response.err, response.state.getD stack.state)) := performs_result fun _ => rfl
  exact hGet rest answer hRest

/-- What the poller invokes. -/
def polled (trace : List PollExchange) : List (Operation × Int) :=
  trace.filterMap fun
    | ⟨.getState, answer⟩ => some (.getState, answer.1)
    | _ => none

theorem performs_pollCall (c : PollCall) :
    (pollCall c).Performs id fun answer reports => reports = polled [⟨c, answer⟩] := by
  cases c with
  | isPaired => exact FirmwareCode.Aside.performs ⟨rfl, fun _ => trivial⟩
  | getState => exact performs_nukiAppGetState
  | storeCache state => exact (aside_storeCache state).performs
  | sleep sec => exact FirmwareCode.Aside.performs ⟨rfl, fun _ => trivial⟩

/-- The UART reports the result as the 32 bits that it puts into its response. -/
theorem performs_uartCall (c : UartCall) :
    (uartCall c).Performs Int32.ofInt fun answer reports => reports = invoked [⟨c, answer⟩] := by
  cases c with
  | isPaired => exact FirmwareCode.Aside.performs ⟨rfl, fun _ => trivial⟩
  | isConnected => exact FirmwareCode.Aside.performs ⟨rfl, fun _ => trivial⟩
  | isReady => exact aside_nukiAppIsReady.performs
  | pair => exact performs_result fun _ => rfl
  | lockAction action => exact performs_result fun _ => rfl
  | calibrate securityPin => exact performs_result fun _ => rfl
  | getCachedState => exact aside_nukiAppGetCachedState.performs
  | pollOut byte => exact FirmwareCode.Aside.performs ⟨rfl, fun _ => trivial⟩

theorem performs_shellCall (c : ShellCall) :
    (shellCall c).Performs id fun answer reports => reports = shellInvoked [⟨c, answer⟩] := by
  cases c with
  | write level format args => exact FirmwareCode.Aside.performs ⟨rfl, fun _ => trivial⟩
  | isPaired => exact FirmwareCode.Aside.performs ⟨rfl, fun _ => trivial⟩
  | isConnected => exact FirmwareCode.Aside.performs ⟨rfl, fun _ => trivial⟩
  | isReady => exact aside_nukiAppIsReady.performs
  | pair => exact performs_result fun _ => rfl
  | getState => exact performs_nukiAppGetState
  | lockAction action => exact performs_result fun _ => rfl
  | calibrate securityPin => exact performs_result fun _ => rfl

/-- What a thread is asked to do with the motor. The poller only reads the state. -/
def Workload.motions (work : Workload) : FirmwareThread → List Intent
  | .poller => []
  | .uart => (work.frames.filterMap RxFrame.operation?).flatMap Operation.motions
  | .shell => (work.lines.filterMap ShellLine.operation?).flatMap Operation.motions

/-- What the motor was asked for can be read off the reports: each names its operation, whatever
came of it. -/
theorem motions_reported {β : Type} (f : Int → β) (history : List Performed) :
    (history.flatMap fun p => p.request.operation.motions) =
      ((reported f history).map Prod.fst).flatMap Operation.motions := by
  simp [reported, List.flatMap_map]

/-- A thread carries out what it is asked, operation by operation. -/
theorem motions_code {work : Workload} {t : FirmwareThread} {trace : ThreadTrace}
    (h : (work.code t).Traces trace ()) :
    ∃ history, appCalls trace = calls history ∧
      (history.flatMap fun p => p.request.operation.motions) = work.motions t := by
  cases t with
  | poller =>
      obtain ⟨polls, rest, last, rfl, hPolls, hRest⟩ := Program.Traces.of_bind h
      obtain ⟨rfl, -⟩ := hRest.of_done
      obtain ⟨history, hCalls, later, -, hReports⟩ :=
        performs_inline rfl (fun _ _ => List.filterMap_append (l := [_])) performs_pollCall _ polls
          last hPolls
      refine ⟨history, by rw [List.append_nil, hCalls], ?_⟩
      rw [motions_reported id, hReports]
      apply List.flatMap_eq_nil_iff.mpr
      intro operation hOperation
      obtain ⟨⟨operation', rc⟩, hMem, rfl⟩ := List.mem_map.mp hOperation
      obtain ⟨⟨c, answer⟩, -, hPolled⟩ := List.mem_filterMap.mp hMem
      cases c <;> cases hPolled
      rfl
  | uart =>
      obtain ⟨history, hCalls, later, hLater, hReports⟩ :=
        performs_inline rfl (fun e rest => invoked_append [e] rest) performs_uartCall _ trace () h
      obtain ⟨served, hFrames, rfl⟩ := traces_nukiUartThreadFn hLater
      refine ⟨history, hCalls, ?_⟩
      rw [motions_reported Int32.ofInt, hReports, Served.invoked_trace, Workload.motions, ← hFrames,
        List.map_filterMap, List.filterMap_map]
      congr 2
      funext e
      cases hOperation : e.frame.operation? <;> simp [Served.invoked?, hOperation]
  | shell =>
      obtain ⟨entered, rest, rcs, rfl, hEntered, hRest⟩ := Program.Traces.of_bind h
      obtain ⟨rfl, -⟩ := hRest.of_done
      obtain ⟨history, hCalls, later, hLater, hReports⟩ :=
        performs_inline rfl (fun e rest => shellInvoked_append [e] rest) performs_shellCall _
          entered rcs hEntered
      obtain ⟨entries, hLines, rfl, -⟩ := traces_shellThread hLater
      refine ⟨history, by rw [List.append_nil, hCalls], ?_⟩
      rw [motions_reported id, hReports, shellInvoked_entries, Workload.motions, ← hLines,
        List.map_filterMap, List.filterMap_map]
      congr 2
      funext e
      cases hOperation : e.line.operation? <;> simp [hOperation]

instance (op : Locked AppMutex FirmwareOp) : Nonempty (Locked.Answer FirmwareOp.Answer op) := by
  cases op with
  | lock m => exact ⟨()⟩
  | unlock m => exact ⟨()⟩
  | call op =>
      obtain ⟨choice, reply, hReply⟩ := firmware_answers op (.boot none 0)
      cases reply with
      | stay s => exact absurd hReply (firmware_leaves _ _ _ _)
      | answer result s => exact ⟨result⟩

/-- The steps of operations that a thread has taken. -/
def threadCalls (t : FirmwareThread) (log : FirmwareLog) : List AppExchange :=
  (Threads.callsOf t log).filterMap FirmwareExchange.app?

/-- What a thread has told the motor. -/
def motionsOf (t : FirmwareThread) (log : FirmwareLog) : List Intent :=
  motions (told none (threadCalls t log))

/-- What was told stays told. -/
theorem motionsOf_append (t : FirmwareThread) (log later : FirmwareLog) :
    motionsOf t log <+: motionsOf t (log ++ later) := by
  have hCalls : threadCalls t (log ++ later) = threadCalls t log ++ threadCalls t later := by
    rw [threadCalls, Threads.callsOf_append, List.filterMap_append]
    rfl
  rw [motionsOf, motionsOf, hCalls, told_append, motions_append]
  exact List.prefix_append _ _

section Firmware

variable {stored : Option PairingData} {uptime : Int} {work : Workload} {log : FirmwareLog}
  {S : Threads AppMutex FirmwareOp.Answer Firmware FirmwareThread}

/-- The operations of a thread are those that it is asked for, up to some point. -/
theorem threadCalls_extend (logs : FirmwareLogs stored uptime work log S) (t : FirmwareThread) :
    ∃ history rest, calls history = threadCalls t log ++ rest ∧
      (history.flatMap fun p => p.request.operation.motions) = work.motions t ∧
      (S.Returned t → rest = []) := by
  obtain ⟨trace, hTrace, hCode⟩ := logs.hasCalled t
  have hCalls : appCalls trace = threadCalls t log := congrArg _ hTrace
  by_cases hReturned : S.Returned t
  · have hDone : (S.code t).Traces [] () := hReturned ▸ .done ()
    obtain ⟨history, hHistory, hMotions⟩ := motions_code (hCode [] hDone)
    refine ⟨history, [], ?_, hMotions, fun _ => rfl⟩
    rw [← hHistory, List.append_nil, List.append_nil, hCalls]
  · obtain ⟨rest, _, hRest⟩ := (S.code t).exists_traces
    obtain ⟨history, hHistory, hMotions⟩ := motions_code (hCode rest hRest)
    refine ⟨history, appCalls rest, ?_, hMotions, fun h => absurd h hReturned⟩
    rw [← hHistory, appCalls_append, hCalls]

/-- However the threads are interleaved and whatever goes wrong: what a thread tells the lock
to do with its motor are things that its requests ask for, in their order and each at most
once; and of the operations of a thread that has returned, all that succeeded have told
theirs. -/
theorem actuations_requested (logs : FirmwareLogs stored uptime work log S) (t : FirmwareThread) :
    (motionsOf t log).Sublist (work.motions t) ∧
      (S.Returned t → ∃ history, threadCalls t log = calls history ∧
        (history.flatMap fun p => p.request.operation.motions) = work.motions t ∧
        ((succeeded history).flatMap fun p => p.request.operation.motions).Sublist
          (motionsOf t log)) := by
  obtain ⟨history, rest, hCalls, hMotions, hAll⟩ := threadCalls_extend logs t
  obtain ⟨hAsked, hDone⟩ := motions_calls history none
  constructor
  · rw [hCalls, told_append, motions_append, hMotions] at hAsked
    exact (List.sublist_append_left _ _).trans hAsked
  · intro hReturned
    rw [hAll hReturned, List.append_nil] at hCalls
    rw [hCalls] at hDone
    exact ⟨history, hCalls.symm, hMotions, hDone⟩

end Firmware

/-- The UART thread is to lock first. -/
theorem code_small_uart : ∃ more : Response → FirmwareCode Unit,
    Workload.small.code .uart = (nukiApp (.lockAction LockAction.lock)).bind more := by
  obtain ⟨rest, hFirst⟩ : ∃ rest, nukiUartThreadFn Workload.small.frames =
      .call (.lockAction LockAction.lock) rest := ⟨_, rfl⟩
  refine ⟨fun response => (rest (.ofInt response.err)).inline uartCall, ?_⟩
  show (nukiUartThreadFn Workload.small.frames).inline uartCall = _
  rw [hFirst]
  exact Program.bind_assoc _ _ _

/-- The UART thread of a paired bridge goes first, and the lock plays along. -/
theorem exists_locked :
    ∃ log S, FirmwareLogs (some default) 0 .small log S ∧
      List.Sublist [.lockAction LockAction.lock] (motionsOf .uart log) := by
  obtain ⟨app, hRuns⟩ := runs_lockActionLocked .zero LockAction.lock
  have hLocks := @runs_nukiApp .uart (fun _ => none) (.lockAction LockAction.lock) .zero _ _ _
    hRuns (Firmware.boot (some default) 0).cell rfl
  obtain ⟨more, hCode⟩ := code_small_uart
  have hStart : FirmwareLogs (some default) 0 .small [] _ := .start
  obtain ⟨trace, hTraces, hLogs⟩ := hStart.alone hLocks rfl hCode
  have hTrace := hTraces [] _ (.done _)
  rw [List.append_nil] at hTrace
  obtain ⟨history, hCalls, hReports⟩ :=
    performs_nukiApp id (.lockAction LockAction.lock) trace _ hTrace
  obtain ⟨p, rfl, hPerformed⟩ := List.map_eq_singleton_iff.mp hReports
  have hOperation : p.request.operation = .lockAction LockAction.lock :=
    congrArg Prod.fst hPerformed
  have hErr : p.response.err = 0 := congrArg Prod.snd hPerformed
  have hThread : threadCalls .uart ((Threads.unlocked trace).map (Prod.mk .uart)) = calls [p] := by
    rw [threadCalls, Threads.callsOf_map]
    exact hCalls
  have hTold := (motions_calls [p] none).2
  have hAsked : ((succeeded [p]).flatMap fun p => p.request.operation.motions) =
      [.lockAction LockAction.lock] := by
    rw [succeeded, List.filter_singleton, hErr]
    show p.request.operation.motions ++ [] = _
    rw [hOperation]
    rfl
  rw [hAsked, ← hThread] at hTold
  exact ⟨_, _, hLogs, hTold⟩

/-- A frame asks to lock, which is told, and a line for the state only. -/
theorem actuations_requested_small :
    ∃ log S, FirmwareLogs (some default) 0 .small log S ∧ (∀ t, S.Returned t) ∧
      motionsOf .uart log = [.lockAction LockAction.lock] ∧ motionsOf .shell log = [] := by
  obtain ⟨log, S, hLocked, hTold⟩ := exists_locked
  obtain ⟨S', hReaches, hReturned⟩ := firmware_returns hLocked.reaches
  obtain ⟨later, hLater⟩ := Threads.exists_logs hReaches
  have hLogs := hLocked.trans hLater
  refine ⟨_, S', hLogs, hReturned, ?_, ?_⟩
  · have hStill := hTold.trans (motionsOf_append .uart log later).sublist
    exact (actuations_requested hLogs .uart).1.antisymm hStill
  · exact List.sublist_nil.mp (actuations_requested hLogs .shell).1

end NukiBridge

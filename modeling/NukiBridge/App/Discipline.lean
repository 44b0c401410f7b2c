import Mathlib.Algebra.Ring.Int.Defs
import NukiBridge.App.Conduct

/-! What every operation keeps to, whatever the kernel, the host and the lock answer: it
stops at the first failure and returns its error, its waits are bounded, no key stays
behind in PSA, and no nonce is used twice. -/
namespace NukiBridge

open Buffer Interaction

namespace AppOp

/-- The calls that may follow a failure: they end the attempt and leave the lock. -/
def Cleans : AppOp → Prop
  | .transport _ c => c.Cleans
  | .setConnecting connecting => connecting = false
  | .connectEnd _ | .leScanStop | .loadConn | .disconnectConn | .resetDisconnectedSem
  | .takeDisconnectedSem => True
  | _ => False

/-- `CONNECT_TIMEOUT`, `DISCONNECT_TIMEOUT` and those of the transport, in seconds. Only these
waits for a semaphore have a timeout: how long a mutex, the host or the flash keeps its caller
is not counted. -/
def waits : AppOp → Nat
  | .takeReadySem => 20
  | .takeDisconnectedSem => 5
  | .transport _ c => c.waits
  | _ => 0

/-- The failures and their errors. The clean-up calls whose results the source leaves alone
have none: `bt_le_scan_stop`, `bt_conn_disconnect`, the wait for `g_disconnected_sem`, and
`psa_destroy_key` in the code over a transport. -/
def fault : (op : AppOp) → op.Answer → Option Int
  | .leScanStart, err => if err ≠ (0 : Int) then some err else none
  | .takeReadySem, err => if err ≠ (0 : Int) then some (-etimedout) else none
  | .loadConnectErr, err => errOf err
  | .loadGdioReady, ready => if ready = false then some (-enotsup) else none
  | .getPairing, paired => if paired = (none : Option PairingData) then some (-enoent) else none
  | .savePairing _, err => errOf err
  | .transport _ c, answer => c.fault answer
  | _, _ => none

/-- The calls that leave the lock have no failure that an operation would have to report. -/
theorem fault_of_cleans {op : AppOp} (cleans : op.Cleans) (answer : op.Answer) :
    op.fault answer = none := by
  cases op with
  | transport svc c => exact Call.fault_of_cleans cleans answer
  | _ => first | exact cleans.elim | rfl

end AppOp

def appDiscipline : Discipline AppOp AppOp.Answer Int where
  fault := AppOp.fault
  cleans := AppOp.Cleans
  waits := AppOp.waits
  refuses := Refusal
  fault_of_cleans := AppOp.fault_of_cleans

def appHolding : Typestate AppOp AppOp.Answer Holding where
  admits
    | .transport svc c, h => h.Admits svc c
    | _, _ => True
  next
    | .transport _ c, answer, h => h.next c answer
    | _, _, h => h

def AppCode.Stops {α : Type} (err : α → Option Int) (bound : Nat) (fault : Option Int)
    (p : AppCode α) : Prop :=
  ∀ h : Holding, h.Rests →
    appDiscipline.Stops appHolding Holding.Rests err bound fault h p

def errOfResponse (response : Response) : Option Int := errOf response.err

/-- A call of another kind than those of a transport. -/
def AppOp.Local : AppOp → Prop
  | .transport _ _ => False
  | _ => True

section Rules

variable {α β : Type} {err : α → Option Int} {err' : β → Option Int} {bound bound' : Nat}
  {fault : Option Int}

/-- An operation may return at rest, with a result that explains what happened on the way. -/
theorem stops_appReturn {result : α} (explained : appDiscipline.Explains fault (err result)) :
    AppCode.Stops err bound fault (.done result) := fun _ resting =>
  Discipline.stops_done resting explained

theorem AppCode.Stops.mono {p : AppCode α} (h : p.Stops err bound fault) (le : bound ≤ bound') :
    p.Stops err bound' fault := fun held resting =>
  (h held resting).mono le

/-- A call outside the transport, in front of code whose fault so far takes its answer into
account. -/
theorem stops_appCall {op : AppOp} {more : op.Answer → AppCode α} (own : op.Local)
    (cleans : fault ≠ none → op.Cleans)
    (rest : ∀ answer, (more answer).Stops err bound (fault.or (op.fault answer))) :
    AppCode.Stops err (op.waits + bound) fault ((AppCode.of op).bind more) := by
  intro h resting
  have hLocal : appHolding.admits op h ∧ ∀ answer, appHolding.next op answer h = h := by
    cases op with
    | transport svc c => exact own.elim
    | _ => exact ⟨trivial, fun _ => rfl⟩
  apply Discipline.stops_call cleans hLocal.1
  intro answer
  rw [hLocal.2]
  exact rest answer h resting

/-- A call that cannot fail, in front of code in which nothing has failed so far. -/
theorem stops_appStep {op : AppOp} {more : op.Answer → AppCode α} (own : op.Local)
    (never : ∀ answer, op.fault answer = none)
    (rest : ∀ answer, (more answer).Stops err bound none) :
    AppCode.Stops err (op.waits + bound) none ((AppCode.of op).bind more) := by
  apply stops_appCall own fun hNone => absurd rfl hNone
  intro answer
  rw [never]
  exact rest answer

/-- A call that cleans up. -/
theorem stops_appCleaning {op : AppOp} {more : op.Answer → AppCode α} (own : op.Local)
    (cleans : op.Cleans) (rest : ∀ answer, (more answer).Stops err bound fault) :
    AppCode.Stops err (op.waits + bound) fault ((AppCode.of op).bind more) := by
  apply stops_appCall own fun _ => cleans
  intro answer
  rw [AppOp.fault_of_cleans cleans, Option.or_none]
  exact rest answer

/-- A call that is checked at once: where its answer is bad, its error is what the early return must
explain. -/
theorem stops_appChecked {op : AppOp} {bad : op.Answer → Prop} [DecidablePred bad]
    {code : op.Answer → Int} {early more : op.Answer → AppCode α} (own : op.Local)
    (checks : ∀ answer, op.fault answer = if bad answer then some (code answer) else none)
    (gives : ∀ answer, bad answer → (early answer).Stops err bound (some (code answer)))
    (goes : ∀ answer, ¬bad answer → (more answer).Stops err bound none) :
    AppCode.Stops err (op.waits + bound) none
      ((AppCode.of op).bind fun answer => if bad answer then early answer else more answer) := by
  apply stops_appCall own fun hNone => absurd rfl hNone
  intro answer
  rw [Option.none_or, checks]
  by_cases hBad : bad answer
  · rw [if_pos hBad, if_pos hBad]
    exact gives answer hBad
  · rw [if_neg hBad, if_neg hBad]
    exact goes answer hBad

/-- Functions of the application in sequence, with the same rules as those over a transport. -/
theorem AppCode.Stops.bind {p : AppCode β} {more : β → AppCode α}
    (first : p.Stops err' bound' fault)
    (goes : ∀ result, err' result = none → (more result).Stops err bound none)
    (gives : ∀ result error, err' result = some error →
      (more result).Stops err bound (some error)) :
    AppCode.Stops err (bound' + bound) fault (p.bind more) := by
  intro h resting
  apply Discipline.Stops.bind (first h resting)
  · intro h' result resting' hNone
    exact goes result hNone h' resting'
  · intro h' result error resting' hError
    exact gives result error hError h' resting'

/-- The code over a transport, run on that of the service. -/
theorem stops_over {svc : Service} {code : Code α} (h : code.Stops svc err bound none) :
    (AppCode.over svc code).Stops err bound none := by
  intro held resting waited
  have hFollows := h held resting waited
  generalize (⟨held, none, waited⟩ : Ledger Holding Int) = l at hFollows ⊢
  generalize waited + bound = limit at hFollows ⊢
  clear h
  induction code generalizing l with
  | done result => exact ⟨hFollows.resting, hFollows.within, hFollows.explained⟩
  | call c next ih => exact ⟨hFollows.1, fun answer => ih answer _ (hFollows.2 answer)⟩

end Rules

/-- Connecting waits for `g_ready_sem` alone. Every other call of it is checked, or cleans up after
the check before it. -/
theorem stops_connectToLock (needGdio : Bool) : (connectToLock needGdio).Stops errOf 20 none := by
  have hBody : (connectToLockBody needGdio).Stops errOf 20 none := by
    show AppCode.Stops _ (0 + (0 + (0 + (0 + (0 + (0 + (20 + (0 + 0)))))))) _ _
    apply stops_appStep (by trivial) fun _ => rfl
    intro _
    apply stops_appStep (by trivial) fun _ => rfl
    intro _
    apply stops_appStep (by trivial) fun _ => rfl
    intro _
    apply stops_appStep (by trivial) fun _ => rfl
    intro _
    apply stops_appChecked (by trivial) fun _ => rfl
    · intro err hErr
      exact stops_appReturn (explains_fault hErr)
    intro _ _
    apply stops_appStep (by trivial) fun _ => rfl
    intro _
    apply stops_appChecked (by trivial) fun _ => rfl
    · intro taken _
      show AppCode.Stops _ (0 + (0 + (0 + (0 + 0)))) _ _
      have hTimeout {bound : Nat} :
          AppCode.Stops errOf bound (some (-etimedout)) (.done (-etimedout)) :=
        stops_appReturn (explains_fault (by decide))
      apply stops_appCleaning (by trivial) (by rfl)
      intro _
      apply stops_appCleaning (by trivial) (by trivial)
      intro _
      apply stops_appCleaning (by trivial) (by trivial)
      intro conn
      split
      · apply stops_appCleaning (by trivial) (by trivial)
        intro _
        exact hTimeout
      · exact hTimeout
    intro _ _
    apply stops_appCall (by trivial) fun hNone => absurd rfl hNone
    intro err
    exact stops_appReturn (explains_answer rfl)
  show AppCode.Stops _ (0 + (20 + (0 + 0))) _ _
  apply stops_appStep (by trivial) fun _ => rfl
  intro _
  apply hBody.bind
  · intro rc hNone
    apply stops_appStep (by trivial) fun _ => rfl
    intro _
    exact stops_appReturn (explains_answer hNone.symm)
  · intro rc error hError
    apply stops_appCleaning (by trivial) (by trivial)
    intro _
    exact stops_appReturn (explains_same hError)

/-- Leaving the lock is possible at any time and never fails. -/
theorem stops_leave {α : Type} {err : α → Option Int} {bound : Nat} {fault : Option Int}
    {more : Unit → AppCode α} (rest : (more ()).Stops err bound fault) :
    AppCode.Stops err (5 + bound) fault (disconnectFromLock.bind more) := by
  have hLeave : AppCode.Stops err (0 + (0 + (0 + (5 + bound)))) fault
      (disconnectFromLock.bind more) := by
    apply stops_appCleaning (by trivial) (by trivial)
    intro conn
    dsimp only [Program.done_bind]
    by_cases hConn : conn = (none : Option Nat)
    · rw [if_pos hConn]
      exact rest.mono (by omega)
    rw [if_neg hConn]
    apply stops_appCleaning (by trivial) (by trivial)
    intro _
    apply stops_appCleaning (by trivial) (by trivial)
    intro _
    apply stops_appCleaning (by trivial) (by trivial)
    intro _
    exact rest
  exact hLeave.mono (by omega)

/-- An operation leaves the lock and returns: the two calls of the disconnect come after the result
is decided, and neither changes it. -/
theorem stops_leaveWith {err : Int} {fault : Option Int}
    (explained : appDiscipline.Explains fault (errOf err)) :
    AppCode.Stops errOfResponse 5 fault (disconnectFromLock.bind fun _ => .done ⟨err, none⟩) := by
  show AppCode.Stops _ (5 + 0) _ _
  apply stops_leave
  exact stops_appReturn explained

/-- The data of a handshake that succeeded is stored. An error of the save is returned, after the
disconnect. -/
theorem stops_storePaired {data : PairingData} :
    (storePaired 0 data).Stops errOfResponse 5 none := by
  show AppCode.Stops _ (0 + (0 + 5)) _ _
  apply stops_appStep (by trivial) fun _ => rfl
  intro addr
  apply stops_appCall (by trivial) fun hNone => absurd rfl hNone
  intro saved
  exact stops_leaveWith (explains_answer rfl)

/-- Connecting, the pairing and the disconnect: 20 + 175 + 5 seconds. Each check in between leaves
through the disconnect. -/
theorem stops_pairLocked (stack : Leftover) :
    (pairLocked stack).Stops errOfResponse 200 none := by
  show AppCode.Stops _ (20 + (0 + (175 + 5))) _ _
  apply (stops_connectToLock true).bind
  · intro err hNone
    rw [if_neg (not_not.mpr (errOf_eq_none.mp hNone))]
    apply stops_appChecked (by trivial) fun _ => rfl
    · intro ready _
      exact (stops_leaveWith (explains_fault (by decide))).mono (by decide)
    intro ready _
    apply (stops_over (stops_nukiPairingRun stack.bytes stack.data)).bind
    · intro result hNone
      rw [errOf_eq_none.mp hNone]
      exact stops_storePaired
    · intro result error hError
      rw [storePaired, if_pos (errOf_eq_some.mp hError).1]
      exact stops_leaveWith (explains_same hError)
  · intro err error hError
    rw [if_pos (errOf_eq_some.mp hError).1]
    exact stops_appReturn (explains_same hError)

/-- An operation over USDIO: its command, and what is made of the result. -/
theorem stops_withPairing {α : Type} {command : PairingData → Code α}
    {finish : α → AppCode Response} {err : α → Option Int} {bound : Nat}
    (first : ∀ p, (command p).Stops .keyturner err bound none)
    (goes : ∀ result, err result = none → (finish result).Stops errOfResponse 0 none)
    (gives : ∀ result error, err result = some error →
      (finish result).Stops errOfResponse 0 (some error)) :
    (withPairing command finish).Stops errOfResponse (25 + bound) none := by
  rw [show 25 + bound = 0 + (20 + (bound + (5 + 0))) by omega]
  apply stops_appCall (by trivial) fun hNone => absurd rfl hNone
  intro paired
  cases paired with
  | none => exact stops_appReturn (explains_fault (by decide))
  | some p =>
      apply (stops_connectToLock false).bind
      · intro err hNone
        rw [if_neg (not_not.mpr (errOf_eq_none.mp hNone))]
        apply (stops_over (first p)).bind
        · intro result hGood
          exact stops_leave (goes result hGood)
        · intro result error hBad
          exact stops_leave (gives result error hBad)
      · intro err error hError
        rw [if_pos (errOf_eq_some.mp hError).1]
        exact stops_appReturn (explains_same hError)

/-- Connecting, the command and the disconnect: 20 + 25 + 5 seconds. -/
theorem stops_getStateLocked (stack : Leftover) :
    (getStateLocked stack).Stops errOfResponse 50 none := by
  show AppCode.Stops _ (25 + 25) _ _
  apply stops_withPairing
  · intro p
    exact stops_nukiCommandGetState _ _
  · intro result hNone
    exact stops_appReturn (explains_answer hNone.symm)
  · intro result error hError
    exact stops_appReturn (explains_same hError)

/-- A lock action puts the state that was told into the cache after the disconnect, and only where
it succeeded. -/
theorem stops_cachePushed {err : Int} {out : Captured} {fault : Option Int}
    (explained : appDiscipline.Explains fault (errOf err)) (zero : err = 0 → fault = none) :
    AppCode.Stops errOfResponse 0 fault
      ((cachePushed err out).bind fun _ => .done ⟨err, none⟩) := by
  have hReturn : AppCode.Stops errOfResponse 0 fault (.done ⟨err, none⟩) :=
    stops_appReturn explained
  obtain ⟨_ | state, _ | _ | _⟩ := out
  case some.some.true =>
    rw [cachePushed]
    by_cases hErr : err = 0
    · rw [if_pos hErr, zero hErr]
      show AppCode.Stops _ (0 + 0) _ _
      apply stops_appStep (by trivial) fun _ => rfl
      intro _
      exact stops_appReturn (hErr ▸ explains_zero)
    · rw [if_neg hErr]
      exact hReturn
  all_goals exact hReturn

/-- Connecting, the command and the disconnect: 20 + 230 + 5 seconds. -/
theorem stops_lockActionLocked (stack : Leftover) (action : UInt8) :
    (lockActionLocked stack action).Stops errOfResponse 255 none := by
  show AppCode.Stops _ (25 + 230) _ _
  apply stops_withPairing
  · intro p
    exact stops_nukiCommandLockAction _ _ _ _ _
  · intro result hNone
    exact stops_cachePushed (explains_answer hNone.symm) fun _ => rfl
  · intro result error hError
    apply stops_cachePushed (explains_same hError)
    exact fun hErr => absurd hErr (errOf_eq_some.mp hError).1

theorem stops_calibrateLocked (stack : Leftover) (securityPin : UInt16) :
    (calibrateLocked stack securityPin).Stops errOfResponse 255 none := by
  show AppCode.Stops _ (25 + 230) _ _
  apply stops_withPairing
  · intro p
    exact stops_nukiCommandCalibrate _ _ _
  · intro err hNone
    exact stops_appReturn (explains_answer hNone.symm)
  · intro err error hError
    exact stops_appReturn (explains_same hError)

/-- The longest that an operation may wait, in seconds. -/
def Operation.limit : Operation → Nat
  | .pair => 200
  | .getState => 50
  | .lockAction _ => 255
  | .calibrate _ => 255

/-- Every operation keeps to the discipline, with the fault that it returns and with its own limit
on the waiting. -/
theorem stops_body (request : Request) :
    request.body.Stops errOfResponse request.operation.limit none := by
  obtain ⟨operation, stack⟩ := request
  cases operation with
  | pair => exact stops_pairLocked stack
  | getState => exact stops_getStateLocked stack
  | lockAction action => exact stops_lockActionLocked stack action
  | calibrate securityPin => exact stops_calibrateLocked stack securityPin

/-- An operation as it was carried out. -/
structure Performed where
  request : Request
  trace : List AppExchange
  response : Response
  traces : request.body.Traces trace response

/-- Each of the four operations keeps to the discipline within its limit, however it was carried
out. -/
theorem Performed.stops (p : Performed) (h : Holding) (resting : h.Rests) :
    appDiscipline.Stops appHolding Holding.Rests errOfResponse p.request.operation.limit none h
      p.request.body :=
  stops_body p.request h resting

/-- The first failure ends an operation: what it returns is the error of this failure, and
what it still calls cleans up. Without a failure it returns no error, or refuses what the
lock has sent. What the clean-up calls return is no failure. -/
theorem operation_error_exact (p : Performed) :
    (∀ error, appDiscipline.firstFault p.trace = some error → p.response.err = error) ∧
      (appDiscipline.firstFault p.trace = none →
        p.response.err = 0 ∨ Refusal p.response.err) ∧
      ∀ before e later, p.trace = before ++ e :: later → e.op.fault e.answer ≠ none →
        ∀ e' ∈ later, e'.op.Cleans := by
  have hStops := p.stops _ Holding.rests_start
  have hExplained := hStops.explains p.traces
  refine ⟨?_, ?_, ?_⟩
  · intro error hFault
    rw [hFault] at hExplained
    exact (errOf_eq_some.mp hExplained).2
  · intro hFault
    rw [hFault] at hExplained
    by_cases hErr : p.response.err = 0
    · exact .inl hErr
    · exact .inr (hExplained _ (if_neg hErr))
  · intro before e later hTrace hFails
    have hTraces : p.request.body.Traces (before ++ e :: later) p.response := hTrace ▸ p.traces
    exact hStops.cleans_after hTraces hFails

/-- No lock is found within 20 seconds. -/
theorem operation_error_exact_unreachable :
    ∃ p : Performed, appDiscipline.firstFault p.trace = some (-etimedout) ∧
      p.response.err = -etimedout := by
  have hTraces : (Request.mk .getState .zero).body.Traces
      [⟨.getPairing, some default⟩, ⟨.connectBegin, ()⟩, ⟨.resetReadySem, ()⟩,
        ⟨.setConnectErr 0, ()⟩, ⟨.setNeedGdio false, ()⟩, ⟨.setConnecting true, ()⟩,
        ⟨.leScanStart, (0 : Int)⟩, ⟨.scheduleScanTimeout, ()⟩, ⟨.takeReadySem, -eagain⟩,
        ⟨.setConnecting false, ()⟩, ⟨.leScanStop, (0 : Int)⟩, ⟨.loadConn, (none : Option Nat)⟩,
        ⟨.connectEnd (-etimedout), ()⟩]
      ⟨-etimedout, none⟩ :=
    .call _ (.call _ (.call _ (.call _ (.call _ (.call _ (.call _ (.call _ (.call _ (.call _
      (.call _ (.call _ (.call _ (.done _)))))))))))))
  exact ⟨⟨_, _, _, hTraces⟩, rfl, (operation_error_exact ⟨_, _, _, hTraces⟩).1 _ rfl⟩

/-- The calls of one operation after the other. -/
def calls (history : List Performed) : List AppExchange := history.flatMap Performed.trace

/-- From one operation to the next, no key stays behind. -/
theorem calls_conform (history : List Performed) (h : Holding) (resting : h.Rests) :
    appHolding.Admits (calls history) h ∧ (appHolding.after (calls history) h).Rests := by
  induction history generalizing h with
  | nil => exact ⟨trivial, resting⟩
  | cons p rest ih =>
      obtain ⟨hAdmits, hRests⟩ := (p.stops h resting).conforms p.traces
      obtain ⟨hLater, hEnd⟩ := ih _ hRests
      have hCalls : calls (p :: rest) = p.trace ++ calls rest := List.flatMap_cons
      rw [hCalls, Typestate.admits_append, Typestate.after_append]
      exact ⟨⟨hAdmits, hLater⟩, hEnd⟩

/-- The place tells how many keys there are, apart from those that PSA kept. -/
def Holding.keys (h : Holding) : Int := if h.key = true then 1 else 0

/-- The messages that were written to USDIO. -/
def usdioWrites (trace : List AppExchange) : List (List UInt8) :=
  trace.filterMap fun
    | ⟨.transport .keyturner (.btGattWrite data), _⟩ => some data
    | _ => none

/-- What was drawn from the random source. -/
def draws (trace : List AppExchange) : List (List UInt8) :=
  trace.filterMap fun
    | ⟨.transport _ (.sysRandGet _), drawn⟩ => some drawn.val
    | _ => none

/-- The messages of a trace are sealed with what is still unused and what it draws. -/
theorem sealings_of_admits {trace : List AppExchange} {h : Holding}
    (admitted : appHolding.Admits trace h) :
    ∃ messages : List Sealing, usdioWrites trace = messages.map Sealing.wire ∧
      (messages.map fun m => m.nonce.val).Sublist (h.nonce.toList ++ draws trace) := by
  induction trace generalizing h with
  | nil => exact ⟨[], rfl, List.nil_sublist _⟩
  | cons e rest ih =>
      obtain ⟨op, answer⟩ := e
      obtain ⟨messages, hWrites, hNonces⟩ := ih admitted.2
      cases op with
      | transport svc c =>
          cases c with
          | sysRandGet len =>
              -- what was drawn before and is still unused is not used any more
              have hDrawn : usdioWrites (⟨.transport svc (.sysRandGet len), answer⟩ :: rest) =
                  usdioWrites rest := by
                cases svc <;> rfl
              refine ⟨messages, hDrawn.trans hWrites, hNonces.trans ?_⟩
              exact List.sublist_append_right _ _
          | btGattWrite data =>
              have hUnused : (messages.map fun m => m.nonce.val).Sublist (draws rest) := hNonces
              cases svc with
              | pairing =>
                  exact ⟨messages, hWrites, hUnused.trans (List.sublist_append_right _ _)⟩
              | keyturner =>
                  obtain ⟨m, rfl, hNonce⟩ := admitted.1.2.2 rfl
                  refine ⟨m :: messages, congrArg (m.wire :: ·) hWrites, ?_⟩
                  rw [hNonce]
                  exact hUnused.cons_cons _
          | _ => cases svc <;> exact ⟨messages, hWrites, hNonces⟩
      | _ => exact ⟨messages, hWrites, hNonces⟩

/-- Every message that is ever written to USDIO is sealed with a nonce that was drawn for
it alone: unless the random source repeats itself, no nonce is used twice. -/
theorem messages_sealed (history : List Performed) :
    ∃ messages : List Sealing, usdioWrites (calls history) = messages.map Sealing.wire ∧
      (messages.map fun m => m.nonce.val).Sublist (draws (calls history)) := by
  exact sealings_of_admits (calls_conform history _ Holding.rests_start).1

/-- The data of every write. -/
def gattWrites (trace : List AppExchange) : List (List UInt8) :=
  trace.filterMap fun
    | ⟨.transport _ (.btGattWrite data), _⟩ => some data
    | _ => none

/-- Every message that is ever written fits into a single write, by the lengths of the frames and of
the sealed messages. -/
theorem writes_fit (history : List Performed) :
    (gattWrites (calls history)).all fun data => data.length ≤ writeMaxLen := by
  simp only [List.all_eq_true, decide_eq_true_eq]
  have hAdmits := (calls_conform history _ Holding.rests_start).1
  generalize calls history = trace at hAdmits ⊢
  generalize (⟨false, none, .idle⟩ : Holding) = h at hAdmits
  induction trace generalizing h with
  | nil => exact fun data hData => absurd hData List.not_mem_nil
  | cons e rest ih =>
      intro data hData
      obtain ⟨op, answer⟩ := e
      have hRest := ih _ hAdmits.2
      cases op with
      | transport svc c =>
          cases c with
          | btGattWrite written =>
              rcases List.mem_cons.mp hData with rfl | hLater
              · exact hAdmits.1.2.1
              · exact hRest data hLater
          | _ => exact hRest data hData
      | _ => exact hRest data hData

end NukiBridge

import NukiBridge.Firmware.Model
import NukiBridge.Interaction.Alone
import Mathlib.Data.Fintype.Basic

/-! The two mutexes of the firmware. `g_cache_lock` is taken inside of `g_op_lock` and never
the other way round, and neither is taken twice; so the threads cannot block one another for
good, and every shared variable is accessed only by the owner of its mutex. -/
namespace NukiBridge

open Interaction Typestate

/-- The steps of operations, which need `g_op_lock`. -/
def FirmwareOp.isApp : FirmwareOp → Bool
  | .app _ => true
  | _ => false

/-- The accesses to the cache, which need `g_cache_lock`. -/
def FirmwareOp.isCache : FirmwareOp → Bool
  | .loadCacheValid | .loadCachedState | .loadCacheUptimeMs | .storeCachedState _
  | .storeCacheValid _ | .storeCacheUptimeMs _ | .uptimeGet | .cacheStored _ _ | .cacheRead _ => true
  | _ => false

def AppMutex.rank : AppMutex → Nat
  | .opLock => 0
  | .cacheLock => 1

/-- What a step needs is held. -/
def FirmwareOp.Allowed (op : FirmwareOp) (held : List AppMutex) : Prop :=
  (op.isApp = true → .opLock ∈ held) ∧ (op.isCache = true → .cacheLock ∈ held)

abbrev firmwareOrder : Typestate (Locked AppMutex FirmwareOp) (Locked.Answer FirmwareOp.Answer)
    (List AppMutex) :=
  lockOrder AppMutex.rank FirmwareOp.Allowed

/-- Code in this order that holds the same mutexes before and after. -/
def FirmwareCode.InOrder {α : Type} (code : FirmwareCode α) (held : List AppMutex) : Prop :=
  firmwareOrder.Follows (fun _ held' => held' = held) code held

section Code

variable {α β : Type} {held : List AppMutex}

theorem FirmwareCode.InOrder.bind {code : FirmwareCode α} {more : α → FirmwareCode β}
    (first : code.InOrder held) (rest : ∀ result, (more result).InOrder held) :
    FirmwareCode.InOrder (code.bind more) held := by
  apply Follows.bind first
  rintro result _ rfl
  exact rest result

theorem allowed_free {op : FirmwareOp} (app : op.isApp = false) (cache : op.isCache = false) :
    op.Allowed held :=
  ⟨fun h => absurd (app.symm.trans h) nofun, fun h => absurd (cache.symm.trans h) nofun⟩

/-- The owner of `g_op_lock` may make the calls of an operation, whichever it is. -/
theorem allowed_app (op : AppOp) : (FirmwareOp.app op).Allowed [.opLock] :=
  ⟨fun _ => List.mem_cons_self, nofun⟩

theorem allowed_cache {op : FirmwareOp} (app : op.isApp = false) :
    op.Allowed (.cacheLock :: held) :=
  ⟨fun h => absurd (app.symm.trans h) nofun, fun _ => List.mem_cons_self⟩

/-- A step that needs no mutex. -/
theorem inOrder_of {op : FirmwareOp} (app : op.isApp = false) (cache : op.isCache = false) :
    (FirmwareCode.of op).InOrder held :=
  ⟨allowed_free app cache, fun _ => rfl⟩

/-- The cache may be written while `g_op_lock` is held, because its mutex has the higher rank, and
it is given back before anything else is taken. -/
theorem inOrder_storeCache (above : ∀ m ∈ held, m.rank < AppMutex.cacheLock.rank)
    (state : KeyturnerState) : (storeCache state).InOrder held :=
  ⟨above, fun _ => ⟨allowed_cache rfl, fun _ => ⟨allowed_cache rfl, fun _ => ⟨allowed_cache rfl,
    fun _ => ⟨allowed_cache rfl, fun _ => ⟨allowed_cache rfl, fun _ => ⟨rfl, fun _ => rfl⟩⟩⟩⟩⟩⟩⟩

/-- Reading the cache takes its mutex alone, so a reader never waits for an operation while it holds
it. -/
theorem inOrder_nukiAppGetCachedState : nukiAppGetCachedState.InOrder [] := by
  refine ⟨allowed_free rfl rfl, fun left => ⟨nofun, fun _ => ⟨allowed_cache rfl, fun valid => ?_⟩⟩⟩
  cases valid with
  | false => exact ⟨allowed_cache rfl, fun _ => ⟨rfl, fun _ => rfl⟩⟩
  | true =>
      exact ⟨allowed_cache rfl, fun _ => ⟨allowed_cache rfl, fun _ => ⟨allowed_cache rfl, fun _ =>
        ⟨allowed_cache rfl, fun _ => ⟨rfl, fun _ => rfl⟩⟩⟩⟩⟩

/-- The cache is written inside of an operation, under both mutexes. This is the only place where
two of them are held. -/
theorem inOrder_firmwareOp (op : AppOp) : (firmwareOp op).InOrder [.opLock] := by
  cases op with
  | updateCache state =>
      apply FirmwareCode.InOrder.bind (inOrder_storeCache _ state)
      · exact fun _ => ⟨allowed_app _, fun _ => rfl⟩
      · intro m hMem
        obtain rfl := List.mem_singleton.mp hMem
        exact Nat.zero_lt_one
  | _ => exact ⟨allowed_app _, fun _ => rfl⟩

/-- An operation takes `g_op_lock` first. Inside of it only the mutex of the cache is taken, which
is the order the rank demands. -/
theorem inOrder_nukiApp (operation : Operation) : (nukiApp operation).InOrder [] := by
  refine ⟨allowed_free rfl rfl, fun stack => ⟨nofun, fun _ => ?_⟩⟩
  apply Follows.bind (follows_inline inOrder_firmwareOp _)
  rintro response _ rfl
  exact ⟨rfl, fun _ => rfl⟩

theorem inOrder_result {code : FirmwareCode α} (h : code.InOrder held) (f : α → β) :
    FirmwareCode.InOrder (code.bind fun result => .done (f result)) held :=
  h.bind fun _ => rfl

theorem inOrder_nukiAppGetState : nukiAppGetState.InOrder [] :=
  ⟨allowed_free rfl rfl, fun _ => inOrder_result (inOrder_nukiApp .getState) _⟩

theorem inOrder_nukiAppIsReady : nukiAppIsReady.InOrder [] := by
  refine ⟨allowed_free rfl rfl, fun conn => ?_⟩
  cases conn with
  | none => rfl
  | some id => exact ⟨allowed_free rfl rfl, fun _ => rfl⟩

/-- The poller takes both mutexes in its pass, one after the other and never together. -/
theorem inOrder_pollCall (c : PollCall) : (pollCall c).InOrder [] := by
  cases c with
  | isPaired => exact inOrder_of rfl rfl
  | getState => exact inOrder_nukiAppGetState
  | storeCache state => exact inOrder_storeCache (fun _ h => absurd h List.not_mem_nil) state
  | sleep sec => exact inOrder_of rfl rfl

theorem inOrder_uartCall (c : UartCall) : (uartCall c).InOrder [] := by
  cases c with
  | isPaired => exact inOrder_of rfl rfl
  | isConnected => exact inOrder_result (inOrder_of rfl rfl) _
  | isReady => exact inOrder_nukiAppIsReady
  | pair => exact inOrder_result (inOrder_nukiApp .pair) _
  | lockAction action => exact inOrder_result (inOrder_nukiApp (.lockAction action)) _
  | calibrate securityPin => exact inOrder_result (inOrder_nukiApp (.calibrate securityPin)) _
  | getCachedState => exact inOrder_nukiAppGetCachedState
  | pollOut byte => exact inOrder_of rfl rfl

theorem inOrder_shellCall (c : ShellCall) : (shellCall c).InOrder [] := by
  cases c with
  | write level format args => exact inOrder_of rfl rfl
  | isPaired => exact inOrder_of rfl rfl
  | isConnected => exact inOrder_result (inOrder_of rfl rfl) _
  | isReady => exact inOrder_nukiAppIsReady
  | pair => exact inOrder_result (inOrder_nukiApp .pair) _
  | getState => exact inOrder_nukiAppGetState
  | lockAction action => exact inOrder_result (inOrder_nukiApp (.lockAction action)) _
  | calibrate securityPin => exact inOrder_result (inOrder_nukiApp (.calibrate securityPin)) _

/-- Every thread is written in the order of the mutexes. -/
theorem locksInOrder_code (work : Workload) (t : FirmwareThread) :
    LocksInOrder AppMutex.rank FirmwareOp.Allowed (work.code t) := by
  have hResult {α : Type} {code : FirmwareCode α} (h : code.InOrder []) (f : α → Unit) :
      LocksInOrder AppMutex.rank FirmwareOp.Allowed (code.bind fun result => .done (f result)) :=
    inOrder_result h f
  cases t with
  | poller => exact hResult (follows_inline inOrder_pollCall _) _
  | uart => exact follows_inline inOrder_uartCall _
  | shell => exact hResult (follows_inline inOrder_shellCall _) _

end Code

/-- A choice under which no call fails to come back: every wait expires. -/
def AppChoice.expired : AppChoice := ⟨-eio, true, default, 0, fun _ => default⟩

/-- Every call has an answer in every state, since a wait may always time out. Nothing but a mutex
can stop a thread. -/
theorem AppState.exists_answer (op : AppOp) (s : AppState) :
    ∃ reply, s.call op .expired = some reply := by
  cases op with
  | leScanStart =>
      have hErr : AppChoice.expired.err ≠ 0 := by decide
      rw [call, if_pos hErr]
      exact ⟨_, rfl⟩
  | takeReadySem =>
      by_cases hReady : s.readySem = true
      · exact ⟨_, if_pos hReady⟩
      · exact ⟨_, (if_neg hReady).trans (if_pos rfl)⟩
  | takeDisconnectedSem =>
      by_cases hGiven : s.disconnectedSem = true
      · exact ⟨_, if_pos hGiven⟩
      · exact ⟨_, (if_neg hGiven).trans (if_pos rfl)⟩
  | transport svc c => cases svc <;> cases c <;> exact ⟨_, rfl⟩
  | _ => exact ⟨_, rfl⟩

/-- No call blocks for good: a wait ends at its timeout at the latest. -/
theorem firmware_answers (op : FirmwareOp) (s : Firmware) :
    ∃ choice reply, firmware.call op choice s = some reply := by
  refine ⟨⟨.expired, 0, .zero, ⟨0, default, 0⟩⟩, ?_⟩
  cases op with
  | app op =>
      obtain ⟨reply, hReply⟩ := AppState.exists_answer op s.app
      exact ⟨_, Option.map_eq_some_iff.mpr ⟨reply, hReply, rfl⟩⟩
  | _ => exact ⟨_, rfl⟩

/-- No call of the application is left pending by the model: what a thread waits for is a mutex, and
nothing else. -/
theorem firmware_leaves (op : FirmwareOp) (choice : FirmwareChoice) (s s' : Firmware) :
    firmware.call op choice s ≠ some (.stay s') := by
  intro hStay
  cases op with
  | app op =>
      obtain ⟨reply, hCalls, hReply⟩ := Option.map_eq_some_iff.mp hStay
      cases reply with
      | stay app => exact AppState.call_ne_stay op choice.app _ app hCalls
      | answer result app => cases hReply
  | _ => cases hStay

instance : Fintype FirmwareThread where
  elems := {.poller, .uart, .shell}
  complete := by
    intro t
    cases t <;> simp

theorem AppMutex.rank_lt (m : AppMutex) : m.rank < 2 := by
  cases m <;> decide

section Reached

variable {stored : Option PairingData} {uptime : Int} {work : Workload}
  {S : Threads AppMutex FirmwareOp.Answer Firmware FirmwareThread}

/-- Every step of the firmware keeps the order of the mutexes. -/
theorem firmware_ordered (reaches : FirmwareReaches stored uptime work S) :
    ∃ held, Ordered AppMutex.rank FirmwareOp.Allowed S held := by
  induction reaches with
  | refl => exact ⟨_, ordered_start _ (locksInOrder_code work)⟩
  | tail _ last ih =>
      obtain ⟨held, h⟩ := ih
      exact h.step last

/-- All threads can come to their end, with nothing that has to happen outside. -/
theorem firmware_returns (reaches : FirmwareReaches stored uptime work S) :
    ∃ S', Threads.Reaches firmware S S' ∧ ∀ t, S'.Returned t :=
  Ordered.exists_returned (firmware_ordered reaches) AppMutex.rank_lt firmware_answers
    firmware_leaves

/-- In every state that the firmware can get into, whatever the threads are given to do: each
thread that has not returned waits in the end for one that can take its step; all threads can
still come to their end, with nothing that has to happen outside; and a step of an operation
is taken by the owner of `g_op_lock` only, an access to the cache by the owner of
`g_cache_lock` only, a mutex given back by its owner only and never taken twice. -/
theorem firmware_progress (reaches : FirmwareReaches stored uptime work S) :
    (∀ t, ¬S.Returned t → ∃ t' S', Relation.ReflTransGen S.WaitsFor t t' ∧
      Threads.ThreadStep firmware t' S S') ∧
    (∃ S', Threads.Reaches firmware S S' ∧ ∀ t, S'.Returned t) ∧
    (∀ t op next, S.code t = .call (.call op) next →
      (op.isApp = true → S.owner .opLock = some t) ∧
        (op.isCache = true → S.owner .cacheLock = some t)) ∧
    (∀ t m next, S.code t = .call (.unlock m) next → S.owner m = some t) ∧
    ∀ t m next, S.code t = .call (.lock m) next → S.owner m ≠ some t := by
  obtain ⟨held, hOrdered⟩ := firmware_ordered reaches
  refine ⟨?_, firmware_returns reaches, ?_, ?_, ?_⟩
  · intro t hRunning
    exact hOrdered.exists_step AppMutex.rank_lt firmware_answers hRunning
  · intro t op next here
    obtain ⟨hApp, hCache⟩ := hOrdered.admits here
    exact ⟨fun h => (hOrdered.owner _ t).mpr (hApp h), fun h => (hOrdered.owner _ t).mpr (hCache h)⟩
  · intro t m next here
    exact (hOrdered.owner m t).mpr (List.mem_of_mem_head? (hOrdered.admits here))
  · intro t m next here hTwice
    exact Nat.lt_irrefl _ (hOrdered.rank_lt here hTwice)

end Reached

/-- A poll, a request to lock and a line of the shell. -/
def Workload.small : Workload := ⟨1, [⟨UartCmd.lock, 0, .zero 32⟩], [⟨.state, []⟩]⟩

/-- The choice under which calls succeed, and a step finds this on its stack. -/
def FirmwareChoice.finding (stack : Leftover) : FirmwareChoice :=
  ⟨.plain, 0, stack, ⟨0, default, 0⟩⟩

/-- The poller comes to `g_op_lock` when the UART thread is in the middle of its operation. -/
theorem exists_waiting :
    ∃ S, FirmwareReaches (some default) 0 .small S ∧ S.WaitsFor .poller .uart := by
  let step : Label AppEvent FirmwareChoice := .thread (.finding .zero)
  let held : AppMutex → Option FirmwareThread :=
    Function.update (fun _ => none) .opLock (some .uart)
  obtain ⟨next, hPoller⟩ : ∃ next, (Threads.alone firmware FirmwareThread.poller).Runs .free
      ⟨(.boot (some default) 0, fun _ => none), Workload.small.code .poller⟩
      ⟨(.boot (some default) 0, fun _ => none), .call (.lock .opLock) next⟩ :=
    ⟨_, Machine.runs_of_replay (List.replicate 3 step) (Machine.meets_free _ _) rfl⟩
  obtain ⟨s, code, hUart⟩ : ∃ s code, (Threads.alone firmware FirmwareThread.uart).Runs .free
      ⟨(.boot (some default) 0, fun _ => none), Workload.small.code .uart⟩ ⟨(s, held), code⟩ :=
    ⟨_, _, Machine.runs_of_replay (List.replicate 5 step) (Machine.meets_free _ _) rfl⟩
  have hStart : Threads.Logs firmware (.start (.boot (some default) 0) Workload.small.code) [] _ :=
    .start
  obtain ⟨_, -, hAsks⟩ := hStart.alone hPoller rfl (Program.bind_done _).symm
  obtain ⟨_, -, hHolds⟩ := hAsks.alone hUart rfl (Program.bind_done _).symm
  exact ⟨_, hHolds.reaches, .opLock, _, rfl, rfl⟩

/-- The poller waits for the UART thread, which can take its step; and both can be carried
out, and the line of the shell. -/
theorem firmware_progress_small :
    ∃ S, FirmwareReaches (some default) 0 .small S ∧ S.WaitsFor .poller .uart ∧
      (∃ t S', Relation.ReflTransGen S.WaitsFor .poller t ∧
        Threads.ThreadStep firmware t S S') ∧
      ∃ S', Threads.Reaches firmware S S' ∧ ∀ t, S'.Returned t := by
  obtain ⟨S, hReaches, hWaits⟩ := exists_waiting
  have hRunning : ¬S.Returned .poller := by
    obtain ⟨m, next, hHere, -⟩ := hWaits
    rw [Threads.Returned, hHere]
    nofun
  obtain ⟨hSteps, hEnds, -⟩ := firmware_progress hReaches
  exact ⟨S, hReaches, hWaits, hSteps .poller hRunning, hEnds⟩

end NukiBridge

import NukiBridge.App.Smooth
import NukiBridge.Uart.Dispatch

/-! The state cache of `nuki_app.c`: the poller and the lock actions write it, the UART
reads it. An operation holds `g_op_lock` and touches the cache once at most, so that it is
a single step among those of the three threads, at the point where it does. -/
namespace NukiBridge

open Interaction Framing

/-- An operation as it was carried out. -/
structure Session where
  request : Request
  trace : List AppExchange
  response : Response
  rc : Int32
  traces : request.body.Traces trace response
  returns : response.err = rc.toInt

/-- The cache with the time at which it was written, in milliseconds, and what
`state_poll_thread_fn` has received but not stored yet. The rest is an account of the
operations, of the states that were in the cache, and of the calls of the UART. -/
structure Hub where
  uptime : Nat
  cache : Option (KeyturnerState × Nat)
  polled : Option KeyturnerState
  sessions : List Session
  cached : List (KeyturnerState × Nat)
  log : List (Nat × UartExchange)

/-- The other threads: time passes, the shell runs an operation, and the poller runs
`nuki_app_get_state` or stores what it returned. -/
inductive HubEvent where
  | tick (ms : Nat)
  | shell (session : Session)
  | poll (session : Session)
  | store

/-- How an operation goes, what the flags of the connection are, and what is in the
variables of a caller. -/
structure HubChoice where
  session : Session
  flag : Bool
  left : CachedState

namespace Hub

def boot : Hub := ⟨0, none, none, [], [], []⟩

def store (s : Hub) (state : KeyturnerState) : Hub :=
  { s with
    cache := some (state, s.uptime)
    cached := s.cached ++ [(state, s.uptime)] }

/-- An operation, with what it does to the cache. -/
def perform (s : Hub) (session : Session) : Hub :=
  (cacheWrites session.trace).foldl store { s with sessions := s.sessions ++ [session] }

/-- `nuki_app_get_cached_state`. -/
def getCachedState (s : Hub) (left : CachedState) : CachedState :=
  match s.cache with
  | some (state, cachedAt) => ⟨0, state, .ofInt (((s.uptime : Int) - cachedAt).tdiv 1000)⟩
  | none => { left with err := .ofInt (-enodata) }

def logged (s : Hub) (e : UartExchange) : Hub := { s with log := s.log ++ [(s.uptime, e)] }

def event : HubEvent → Hub → Option Hub
  | .tick ms, s => some { s with uptime := s.uptime + ms }
  | .shell session, s => some (s.perform session)
  | .poll session, s =>
      if session.request.operation = .getState ∧ s.polled = none then
        some { s.perform session with
          polled := if session.rc = 0 then session.response.state else none }
      else none
  | .store, s => s.polled.map fun state => { s.store state with polled := none }

def call : (op : UartCall) → HubChoice → Hub → Option (Reply op.Answer Hub)
  | .isPaired, choice, s => some (.answer choice.flag (s.logged ⟨.isPaired, choice.flag⟩))
  | .isConnected, choice, s => some (.answer choice.flag (s.logged ⟨.isConnected, choice.flag⟩))
  | .isReady, choice, s => some (.answer choice.flag (s.logged ⟨.isReady, choice.flag⟩))
  | .pair, choice, s =>
      if choice.session.request.operation = .pair then
        some (.answer choice.session.rc
          ((s.perform choice.session).logged ⟨.pair, choice.session.rc⟩))
      else none
  | .lockAction action, choice, s =>
      if choice.session.request.operation = .lockAction action then
        some (.answer choice.session.rc
          ((s.perform choice.session).logged ⟨.lockAction action, choice.session.rc⟩))
      else none
  | .calibrate securityPin, choice, s =>
      if choice.session.request.operation = .calibrate securityPin then
        some (.answer choice.session.rc
          ((s.perform choice.session).logged ⟨.calibrate securityPin, choice.session.rc⟩))
      else none
  | .getCachedState, choice, s =>
      some (.answer (s.getCachedState choice.left)
        (s.logged ⟨.getCachedState, s.getCachedState choice.left⟩))
  | .pollOut byte, _, s => some (.answer () (s.logged ⟨.pollOut byte, ()⟩))

/-- The last call of the UART was a lock action that succeeded. -/
def Acted (log : List (Nat × UartExchange)) : Prop :=
  ∃ actedAt action, log.getLast? = some (actedAt, ⟨.lockAction action, (0 : Int32)⟩)

end Hub

/-- The UART thread among the others. -/
def hub : Machine UartCall UartCall.Answer HubEvent HubChoice Hub where
  event := Hub.event
  call := Hub.call

def UartCall.readsCache : UartCall → Bool
  | .getCachedState => true
  | _ => false

/-- The cache is not empty when it is read after a lock action that succeeded, and what it
holds is not older than a 32-bit count of seconds. -/
def cacheAnswers : Condition UartCall HubEvent HubChoice Hub where
  event := fun _ _ => True
  call := fun op _ s => op.readsCache = true →
    (Hub.Acted s.log → s.cache ≠ none) ∧
      ∀ state cachedAt, s.cache = some (state, cachedAt) → s.uptime < cachedAt + 1000 * 2 ^ 31

/-- The answer is that of a state in the cache, and its age is the time since then. -/
def FromCache (cached : List (KeyturnerState × Nat)) (readAt : Nat) (answer : CachedState) : Prop :=
  ∃ cachedAt, (answer.state, cachedAt) ∈ cached ∧ cachedAt ≤ readAt ∧
    answer.ageSec.toInt = ((readAt : Int) - cachedAt) / 1000

theorem FromCache.mono {cached cached' : List (KeyturnerState × Nat)} {readAt : Nat}
    {answer : CachedState} (h : FromCache cached readAt answer) (more : cached ⊆ cached') :
    FromCache cached' readAt answer := by
  obtain ⟨cachedAt, hMem, hAge⟩ := h
  exact ⟨cachedAt, more hMem, hAge⟩

namespace Hub

/-- Some operation heard this state from the lock. -/
def Origin (s : Hub) (state : KeyturnerState) : Prop :=
  ∃ session ∈ s.sessions, Heard session.trace state

/-- What the UART was told at some point of its log. -/
structure Reading (cached : List (KeyturnerState × Nat)) (before : List (Nat × UartExchange))
    (readAt : Nat) (answer : CachedState) : Prop where
  fromCache : answer.err = 0 → FromCache cached readAt answer
  acted : Acted before → answer.err = 0

/-- States in the cache, or on their way to it, were heard from the lock, and the UART was
told nothing else. -/
structure Grounded (s : Hub) : Prop where
  cached : ∀ state cachedAt, (state, cachedAt) ∈ s.cached → s.Origin state
  cache : ∀ state cachedAt, s.cache = some (state, cachedAt) →
    (state, cachedAt) ∈ s.cached ∧ cachedAt ≤ s.uptime
  polled : ∀ state, s.polled = some state → s.Origin state
  log : ∀ before readAt answer, before ++ [(readAt, ⟨.getCachedState, answer⟩)] <+: s.log →
    Reading s.cached before readAt answer

theorem grounded_boot : boot.Grounded where
  cached := fun _ _ h => absurd h List.not_mem_nil
  cache := fun _ _ h => by cases h
  polled := fun _ h => by cases h
  log := fun before readAt answer h => by
    have hLast := List.prefix_nil.mp h
    exact absurd hLast (List.append_ne_nil_of_right_ne_nil before (List.cons_ne_nil _ _))

theorem Grounded.store {s : Hub} (h : s.Grounded) {state : KeyturnerState}
    (origin : s.Origin state) : (s.store state).Grounded where
  cached := by
    intro other cachedAt hMem
    rcases List.mem_append.mp hMem with hBefore | hNew
    · exact h.cached other cachedAt hBefore
    · cases List.mem_singleton.mp hNew
      exact origin
  cache := by
    intro other cachedAt hCache
    cases hCache
    exact ⟨List.mem_append_right _ List.mem_cons_self, Nat.le_refl _⟩
  polled := h.polled
  log := by
    intro before readAt answer hLog
    obtain ⟨hFrom, hActed⟩ := h.log before readAt answer hLog
    exact ⟨fun hZero => (hFrom hZero).mono (List.subset_append_left _ _), hActed⟩

/-- The states of an operation go into the cache one after the other, and each of them came from the
lock. -/
theorem Grounded.foldl_store {s : Hub} (h : s.Grounded) {states : List KeyturnerState}
    (origin : ∀ state ∈ states, s.Origin state) : (states.foldl Hub.store s).Grounded := by
  induction states generalizing s with
  | nil => exact h
  | cons state states ih =>
      apply ih (h.store (origin state List.mem_cons_self))
      intro other hOther
      exact origin other (List.mem_cons_of_mem _ hOther)

theorem foldl_store_frame (s : Hub) (states : List KeyturnerState) :
    (states.foldl Hub.store s).log = s.log ∧ (states.foldl Hub.store s).sessions = s.sessions := by
  induction states generalizing s with
  | nil => exact ⟨rfl, rfl⟩
  | cons state states ih => exact ih (s.store state)

theorem Origin.mono {s s' : Hub} {state : KeyturnerState} (h : s.Origin state)
    (more : s.sessions ⊆ s'.sessions) : s'.Origin state := by
  obtain ⟨session, hMem, hHeard⟩ := h
  exact ⟨session, more hMem, hHeard⟩

theorem Grounded.perform {s : Hub} (h : s.Grounded) (session : Session) :
    (s.perform session).Grounded := by
  have hMore : s.sessions ⊆ s.sessions ++ [session] := List.subset_append_left _ _
  have hSession : Grounded { s with sessions := s.sessions ++ [session] } :=
    ⟨fun state cachedAt hMem => (h.cached state cachedAt hMem).mono hMore, h.cache,
      fun state hPolled => (h.polled state hPolled).mono hMore,
      h.log⟩
  apply hSession.foldl_store
  intro state hState
  exact ⟨session, List.mem_append_right _ List.mem_cons_self,
    (heard_of_traces session.traces).1 state hState⟩

theorem Grounded.logged {s : Hub} (h : s.Grounded) {e : UartExchange}
    (reading : ∀ answer, e = ⟨.getCachedState, answer⟩ → Reading s.cached s.log s.uptime answer) :
    (s.logged e).Grounded where
  cached := h.cached
  cache := h.cache
  polled := h.polled
  log := by
    intro before readAt answer hLog
    rcases List.prefix_concat_iff.mp hLog with hNew | hBefore
    · obtain ⟨rfl, hLast⟩ := List.append_inj' hNew rfl
      cases hLast
      exact reading answer rfl
    · exact h.log before readAt answer hBefore

/-- What the cache answers where the condition is met: the state that was stored last, with an age
that fits the clock. -/
theorem Grounded.reading {s : Hub} (h : s.Grounded) (left : CachedState)
    (filled : Acted s.log → s.cache ≠ none)
    (recent : ∀ state cachedAt, s.cache = some (state, cachedAt) →
      s.uptime < cachedAt + 1000 * 2 ^ 31) :
    Reading s.cached s.log s.uptime (s.getCachedState left) := by
  cases hCache : s.cache with
  | none =>
      have hErr : (s.getCachedState left).err = .ofInt (-enodata) := by
        rw [getCachedState, hCache]
      constructor
      · intro hZero
        rw [hErr] at hZero
        exact absurd hZero (by decide)
      · exact fun hActed => absurd hCache (filled hActed)
  | some entry =>
      obtain ⟨state, cachedAt⟩ := entry
      have hAnswer : s.getCachedState left =
          ⟨0, state, .ofInt (((s.uptime : Int) - cachedAt).tdiv 1000)⟩ := by
        rw [getCachedState, hCache]
      obtain ⟨hMem, hBefore⟩ := h.cache state cachedAt hCache
      have hRecent := recent state cachedAt hCache
      have hDiv : ((s.uptime : Int) - cachedAt).tdiv 1000 = ((s.uptime : Int) - cachedAt) / 1000 :=
        Int.tdiv_eq_ediv_of_nonneg (by omega)
      rw [hAnswer]
      refine ⟨fun _ => ⟨cachedAt, hMem, hBefore, ?_⟩, fun _ => rfl⟩
      dsimp only
      rw [hDiv]
      apply Int32.toInt_ofInt_of_le
      · omega
      · omega

/-- Nothing that happens beside the UART, an operation or the passing of time, breaks what its
answers rest on. -/
theorem Grounded.event {s s' : Hub} {e : HubEvent} (h : s.Grounded)
    (fires : s.event e = some s') : s'.Grounded := by
  cases e with
  | tick ms =>
      cases fires
      refine ⟨h.cached, ?_, h.polled, h.log⟩
      intro state cachedAt hCache
      obtain ⟨hMem, hBefore⟩ := h.cache state cachedAt hCache
      exact ⟨hMem, Nat.le_trans hBefore (Nat.le_add_right _ _)⟩
  | shell session =>
      cases fires
      exact h.perform session
  | poll session =>
      rw [Hub.event] at fires
      split at fires
      · rename_i hPoll
        cases fires
        have hPerformed := h.perform session
        refine ⟨hPerformed.cached, hPerformed.cache, ?_, hPerformed.log⟩
        intro state hState
        change (if session.rc = 0 then session.response.state else none) = some state at hState
        split at hState
        · rename_i hZero
          have hErr : session.response.err = 0 := by
            rw [session.returns, hZero]
            rfl
          have hMem : session ∈ (s.perform session).sessions := by
            rw [Hub.perform, (foldl_store_frame _ _).2]
            exact List.mem_append_right _ List.mem_cons_self
          exact ⟨session, hMem, (heard_of_traces session.traces).2 hPoll.1 hErr state hState⟩
        · cases hState
      · cases fires
  | store =>
      obtain ⟨state, hState, rfl⟩ := Option.map_eq_some_iff.mp fires
      have hStored := h.store (h.polled state hState)
      exact ⟨hStored.cached, hStored.cache, fun _ hNone => (by cases hNone), hStored.log⟩

/-- A call answers at once: an operation as it was carried out, or from the state as it is. -/
theorem answer_of_call {op : UartCall} {choice : HubChoice} {s : Hub}
    {reply : Reply op.Answer Hub} (calls : s.call op choice = some reply) :
    ∃ answer middle, reply = .answer answer (middle.logged ⟨op, answer⟩) ∧
      (middle = s ∧ (∀ cached, (⟨op, answer⟩ : UartExchange) = ⟨.getCachedState, cached⟩ →
        cached = s.getCachedState choice.left) ∨
      middle = s.perform choice.session ∧ op.readsCache = false) := by
  have hOperation {operation : Operation} {reply' : Reply op.Answer Hub}
      (performed : (if choice.session.request.operation = operation then some reply'
        else none) = some reply) : reply' = reply := by
    split at performed
    · exact Option.some.inj performed
    · cases performed
  cases op with
  | pair =>
      exact ⟨_, _, (hOperation calls).symm, Or.inr ⟨rfl, rfl⟩⟩
  | lockAction action =>
      exact ⟨_, _, (hOperation calls).symm, Or.inr ⟨rfl, rfl⟩⟩
  | calibrate securityPin =>
      exact ⟨_, _, (hOperation calls).symm, Or.inr ⟨rfl, rfl⟩⟩
  | getCachedState =>
      refine ⟨_, s, (Option.some.inj calls).symm, Or.inl ⟨rfl, fun cached hSame => ?_⟩⟩
      cases hSame
      rfl
  | _ => exact ⟨_, s, (Option.some.inj calls).symm, Or.inl ⟨rfl, fun _ hOther => by cases hOther⟩⟩

/-- A call of the UART adds itself to the log. An answer about the state is one from the cache of
this moment. -/
theorem Grounded.call {op : UartCall} {choice : HubChoice} {s s' : Hub} {answer : op.Answer}
    (h : s.Grounded) (meets : cacheAnswers.call op choice s)
    (calls : s.call op choice = some (.answer answer s')) : s'.Grounded := by
  obtain ⟨answer', middle, hReply, hMiddle⟩ := answer_of_call calls
  cases hReply
  rcases hMiddle with ⟨rfl, hCached⟩ | ⟨rfl, hOther⟩
  · apply h.logged
    intro cached hSame
    rw [hCached cached hSame]
    have hReads : op.readsCache = true := by
      rw [show op = .getCachedState from congrArg Exchange.op hSame]
      rfl
    obtain ⟨hFilled, hRecent⟩ := meets hReads
    exact h.reading choice.left hFilled hRecent
  · apply (h.perform choice.session).logged
    intro cached hSame
    rw [show op = .getCachedState from congrArg Exchange.op hSame] at hOther
    cases hOther

end Hub

theorem hub_records : hub.Records fun s => s.log.map Prod.snd where
  event := by
    intro e s s' fires
    cases e with
    | tick ms =>
        cases fires
        rfl
    | shell session =>
        cases fires
        exact congrArg (List.map Prod.snd) (Hub.foldl_store_frame _ _).1
    | poll session =>
        change (if _ then _ else _) = some s' at fires
        split at fires
        · cases fires
          exact congrArg (List.map Prod.snd) (Hub.foldl_store_frame _ _).1
        · cases fires
    | store =>
        obtain ⟨state, -, rfl⟩ := Option.map_eq_some_iff.mp fires
        rfl
  stay := by
    intro op choice s s' calls
    obtain ⟨_, _, hReply, -⟩ := Hub.answer_of_call calls
    cases hReply
  answer := by
    intro op choice s answer s' calls
    obtain ⟨answer', middle, hReply, hMiddle⟩ := Hub.answer_of_call calls
    cases hReply
    have hLog : middle.log = s.log := by
      rcases hMiddle with ⟨rfl, -⟩ | ⟨rfl, -⟩
      · rfl
      · exact (Hub.foldl_store_frame _ _).1
    change (middle.log ++ [(middle.uptime, _)]).map Prod.snd = _
    rw [hLog, List.map_append]
    rfl

/-- By induction on the run, under the condition that the cache answers from what it holds. -/
theorem grounded_of_runs {α : Type} {p : UartCode α} {c : Config UartCall UartCall.Answer Hub α}
    (run : hub.Runs cacheAnswers ⟨.boot, p⟩ c) : c.state.Grounded := by
  apply run.keeps _ _ _ Hub.grounded_boot
  · intro e s s' h _ fires
    exact h.event fires
  · intro op choice s s' _ _ calls
    obtain ⟨_, _, hReply, -⟩ := Hub.answer_of_call calls
    cases hReply
  · intro op choice s answer s' h meets calls
    exact h.call meets calls

/-- The commands that are answered with a state. -/
def AnswersState (cmd : UInt8) : Prop :=
  cmd = UartCmd.state ∨ cmd = UartCmd.lock ∨ cmd = UartCmd.unlock ∨ cmd = UartCmd.unlatch

theorem AnswersState.responseLen {cmd : UInt8} (h : AnswersState cmd) : responseLen cmd = 21 := by
  rcases h with rfl | rfl | rfl | rfl <;> rfl

/-- The response tells a state that was heard from the lock and cached, and how many
seconds before it was read that was. -/
def Hub.Tells (s : Hub) (packet : Packet) : Prop :=
  ∃ state cachedAt readAt ageSec, s.Origin state ∧ (state, cachedAt) ∈ s.cached ∧
    (readAt, ⟨.getCachedState, ⟨0, state, ageSec⟩⟩) ∈ s.log ∧ cachedAt ≤ readAt ∧
    ageSec.toInt = ((readAt : Int) - cachedAt) / 1000 ∧
    packet.payload = (fillStateFields (.zero 0) state ageSec).bytes

/-- An entry that shows in the bytes on the line can be traced back to the place in the log it comes
from. -/
theorem exists_prefix_of_map {α β : Type} {f : α → β} {log : List α} {before : List β} {x : β}
    (h : before ++ [x] <+: log.map f) :
    ∃ before' y, before' ++ [y] <+: log ∧ before'.map f = before ∧ f y = x := by
  obtain ⟨rest, hRest⟩ := h
  obtain ⟨first, last, rfl, hFirst, -⟩ := List.map_eq_append_iff.mp hRest.symm
  obtain ⟨before', single, rfl, hBefore, hSingle⟩ := List.map_eq_append_iff.mp hFirst
  obtain ⟨y, rfl, rfl⟩ := List.map_eq_singleton_iff.mp hSingle
  exact ⟨before', y, List.prefix_append _ _, hBefore, rfl⟩

theorem rc_zero {rc : Int32} (h : sysPutLe32 rc.toUInt32 = sysPutLe32 0) : rc = 0 := by
  have hGet := congrArg (fun bytes => sysGetLe32 (bytes ++ [])) h
  simp only [sysGetLe32_sysPutLe32] at hGet
  exact congrArg Int32.ofUInt32 hGet

instance (op : UartCall) : Nonempty op.Answer := by
  cases op with
  | getCachedState => exact ⟨⟨0, default, 0⟩⟩
  | _ => exact ⟨default⟩

/-- A cached state that was read without an error, and the fields it fills. -/
theorem Hub.Grounded.tells {s : Hub} (h : s.Grounded) {before : List UartExchange}
    {cached : CachedState} {packet : Packet}
    (read : before ++ [⟨.getCachedState, cached⟩] <+: s.log.map Prod.snd)
    (zero : cached.err = 0 ∨ ∃ action, before.getLast? = some ⟨.lockAction action, (0 : Int32)⟩)
    (payload : cached.err = 0 →
      packet.payload = (fillStateFields (.zero 0) cached.state cached.ageSec).bytes) :
    s.Tells packet := by
  obtain ⟨before', ⟨readAt, e⟩, hRead, rfl, rfl⟩ := exists_prefix_of_map read
  have hReading := h.log before' readAt cached hRead
  have hZero : cached.err = 0 := by
    rcases zero with hZero | ⟨action, hLast⟩
    · exact hZero
    · rw [List.getLast?_map] at hLast
      obtain ⟨⟨actedAt, e⟩, hActed, rfl⟩ := Option.map_eq_some_iff.mp hLast
      exact hReading.acted ⟨actedAt, action, hActed⟩
  obtain ⟨cachedAt, hMem, hBefore, hAge⟩ := hReading.fromCache hZero
  refine ⟨cached.state, cachedAt, readAt, cached.ageSec, h.cached _ _ hMem, hMem, ?_, hBefore, hAge,
    payload hZero⟩
  rw [← hZero]
  exact hRead.subset (List.mem_append_right _ List.mem_cons_self)

/-- In every run in which the cache is not empty when it is read after a lock action that
succeeded, and is never older than a 32-bit count of seconds, a response with a state that
reports success tells one that was heard from the lock, with the time since it was cached. -/
theorem responses_tell {frames : List RxFrame} {c : Config UartCall UartCall.Answer Hub Unit}
    (run : hub.Runs cacheAnswers ⟨.boot, nukiUartThreadFn frames⟩ c) :
    ∀ packet ∈ packets uartFrameSofResp uartMaxPayload (written (c.state.log.map Prod.snd)),
      AnswersState packet.cmd → packet.payload.take 4 = sysPutLe32 0 → c.state.Tells packet := by
  have hGrounded := grounded_of_runs run
  obtain ⟨part, hLog, hTraces⟩ := hub_records.runs run
  obtain ⟨rest, result, hRest⟩ := c.thread.exists_traces
  obtain ⟨served, -, hServed⟩ := traces_nukiUartThreadFn (hTraces rest result hRest)
  obtain ⟨complete, later, rfl, hComplete, hPackets⟩ :=
    Served.packets_prefix ⟨rest, hServed⟩
  have hRecord : c.state.log.map Prod.snd = part := hLog
  rw [hRecord, hPackets]
  intro packet hPacket hCmd hCode
  obtain ⟨e, hMem, rfl⟩ := List.mem_map.mp hPacket
  obtain ⟨earlier, after, rfl⟩ := List.append_of_mem hMem
  have hCalls : earlier.flatMap Served.trace ++ e.calls <+: c.state.log.map Prod.snd := by
    rw [hRecord]
    apply List.IsPrefix.trans _ hComplete
    rw [List.flatMap_append, List.prefix_append_right_inj, List.flatMap_cons, Served.trace,
      List.append_assoc]
    exact List.prefix_append _ _
  have hAnswered := e.handled.answeredBy
  have hZero : e.rc = 0 := rc_zero (hAnswered.code.symm.trans hCode)
  rw [hAnswered.cmd] at hCmd
  have hLen := hCmd.responseLen
  obtain ⟨frame, calls, rc, packet, hHandled⟩ := e
  dsimp only at hZero hLen hCmd hCalls ⊢
  cases hHandled with
  | status paired connected ready hOther =>
      rw [hOther] at hLen
      cases hLen
  | pair rc hOther =>
      rw [hOther] at hLen
      cases hLen
  | state cached hState =>
      apply hGrounded.tells hCalls (Or.inl hZero)
      intro hErr
      rw [hErr, filled, if_pos hErr]
  | refusedAction action rc hAction hError => exact absurd hZero hError
  | lockAction action cached hAction =>
      rw [List.append_cons] at hCalls
      apply hGrounded.tells hCalls
      · exact Or.inr ⟨action, List.getLast?_concat⟩
      · intro hErr
        rw [filled, if_pos hErr]
  | calibrate rc hOther hTwo =>
      rw [hOther] at hLen
      cases hLen
  | invalid hNone hStatus hState =>
      rw [RxFrame.responseLen_of_invalid hNone hStatus hState] at hLen
      cases hLen

/-- The state after the UART wrote these bytes. -/
def Hub.wrote (s : Hub) (bytes : List UInt8) : Hub :=
  { s with log := s.log ++ (sent bytes).map fun e => (s.uptime, e) }

/-- Nothing that the condition asks concerns writing. -/
theorem runs_pollOut {cond : Condition UartCall HubEvent HubChoice Hub} {α : Type}
    (choice : HubChoice) (meets : ∀ byte s, cond.call (.pollOut byte) choice s)
    (bytes : List UInt8) (s : Hub) (more : Unit → UartCode α) :
    hub.Runs cond ⟨s, (pollOut bytes).bind more⟩ ⟨s.wrote bytes, more ()⟩ := by
  induction bytes generalizing s with
  | nil =>
      have hSame : s.wrote [] = s := by
        rw [Hub.wrote, sent, List.map_nil, List.map_nil, List.append_nil]
      rw [hSame]
      exact .refl _
  | cons byte bytes ih =>
      have hRest := ih (s.logged ⟨.pollOut byte, ()⟩)
      have hWrote : (s.logged ⟨.pollOut byte, ()⟩).wrote bytes = s.wrote (byte :: bytes) := by
        simp only [Hub.wrote, Hub.logged, sent, List.map_cons, List.append_assoc,
          List.cons_append, List.nil_append]
      rw [hWrote] at hRest
      exact .head (.answer choice () (meets byte s) rfl) hRest

theorem written_wrote (s : Hub) (bytes : List UInt8) :
    written ((s.wrote bytes).log.map Prod.snd) = written (s.log.map Prod.snd) ++ bytes := by
  rw [Hub.wrote, List.map_append, List.map_map, written_append]
  congr 1
  exact (congrArg written (List.map_id _)).trans (written_sent bytes)

/-- A state response is written, and a reader finds it. -/
theorem runs_respond {cond : Condition UartCall HubEvent HubChoice Hub} (choice : HubChoice)
    (meets : ∀ byte s, cond.call (.pollOut byte) choice s) (cmd : UInt8) (resp : RespState)
    {s : Hub} (silent : written (s.log.map Prod.snd) = []) :
    ∃ s', hub.Runs cond ⟨s, (sendFrame cmd resp.bytes 21).bind fun _ => .done ()⟩ ⟨s', .done ()⟩ ∧
      s'.cached = s.cached ∧
      packets uartFrameSofResp uartMaxPayload (written (s'.log.map Prod.snd)) =
        [⟨cmd, resp.bytes⟩] := by
  refine ⟨_, runs_pollOut choice meets _ s _, rfl, ?_⟩
  have hBytes : uartFrameSofResp :: cmd :: 21 :: resp.bytes.take (21 : UInt8).toNat =
      (Packet.mk cmd resp.bytes).bytes uartFrameSofResp ++ [] := by
    have hTake : resp.bytes.take (21 : UInt8).toNat = resp.bytes :=
      List.take_of_length_le (Nat.le_of_eq resp.length_bytes)
    rw [hTake, List.append_nil]
    rfl
  rw [written_wrote, silent, List.nil_append, hBytes, packets_bytes, packets_nil]
  · rw [resp.length_bytes]
    decide
  · decide

/-- A request without a payload. -/
def RxFrame.plain (cmd : UInt8) : RxFrame := ⟨cmd, 0, .zero 32⟩

/-- The lock sent its state before the first request, and the response tells it. -/
theorem responses_tell_polled :
    ∃ frames c packet, hub.Runs cacheAnswers ⟨.boot, nukiUartThreadFn frames⟩ c ∧
      packet ∈ packets uartFrameSofResp uartMaxPayload (written (c.state.log.map Prod.snd)) ∧
      c.state.Tells packet := by
  let payload : List UInt8 := List.replicate 13 1
  obtain ⟨trace, hTrace, hWrites⟩ := exists_getStateLocked .zero
    (by decide : 13 ≤ payload.length) (by decide)
  let session : Session := ⟨⟨.getState, .zero⟩, trace, _, 0, hTrace, rfl⟩
  let choice : HubChoice := ⟨session, false, ⟨0, default, 0⟩⟩
  have hPerform : Hub.boot.perform session = ⟨0, none, none, [session], [], []⟩ := by
    rw [Hub.perform, hWrites]
    rfl
  have hPolled : Hub.boot.event (.poll session) =
      some ⟨0, none, some (.ofPayload payload), [session], [], []⟩ := by
    rw [Hub.event, if_pos ⟨rfl, rfl⟩, hPerform]
    rfl
  let s : Hub := ⟨0, some (.ofPayload payload, 0), none, [session], [(.ofPayload payload, 0)], []⟩
  have hMeets : cacheAnswers.call .getCachedState choice s := by
    intro _
    refine ⟨fun _ => Option.some_ne_none _, ?_⟩
    intro state cachedAt hCache
    cases hCache
    exact (by decide : 0 < 0 + 1000 * 2 ^ 31)
  have hWriting (byte : UInt8) (s : Hub) : cacheAnswers.call (.pollOut byte) choice s := nofun
  obtain ⟨s', hResponds, -, hPackets⟩ := runs_respond choice hWriting UartCmd.state
    (filled (.zero (s.getCachedState choice.left).err) (s.getCachedState choice.left))
    (rfl : written ((s.logged ⟨.getCachedState, s.getCachedState choice.left⟩).log.map Prod.snd) = [])
  have hRuns : hub.Runs cacheAnswers ⟨.boot, nukiUartThreadFn [.plain UartCmd.state]⟩
      ⟨s', .done ()⟩ :=
    .head (.event (.poll session) trivial hPolled)
      (.head (.event .store trivial rfl) (.head (.answer choice _ hMeets rfl) hResponds))
  refine ⟨_, _, _, hRuns, hPackets ▸ List.mem_cons_self, ?_⟩
  apply responses_tell hRuns _ (hPackets ▸ List.mem_cons_self)
  · exact Or.inl rfl
  · rw [RespState.take_bytes, filled_rc]
    rfl

/-- The first request is LOCK, and the lock reports success but no state: so does the
response, with zeros for the state. -/
theorem response_without_state :
    ∃ frames c packet, hub.Runs .free ⟨.boot, nukiUartThreadFn frames⟩ c ∧
      packet ∈ packets uartFrameSofResp uartMaxPayload (written (c.state.log.map Prod.snd)) ∧
      AnswersState packet.cmd ∧ packet.payload.take 4 = sysPutLe32 0 ∧
      packet.payload.drop 4 = List.replicate 17 0 ∧ ¬c.state.Tells packet := by
  obtain ⟨trace, hTrace, hWrites⟩ := exists_lockActionLocked .zero LockAction.lock
  let session : Session := ⟨⟨.lockAction LockAction.lock, .zero⟩, trace, _, 0, hTrace, rfl⟩
  let choice : HubChoice := ⟨session, false, ⟨0, default, 0⟩⟩
  have hPerform : Hub.boot.perform session = ⟨0, none, none, [session], [], []⟩ := by
    rw [Hub.perform, hWrites]
    rfl
  let s : Hub := Hub.logged ⟨0, none, none, [session], [], []⟩
    ⟨.lockAction LockAction.lock, (0 : Int32)⟩
  have hActed : Hub.boot.call (.lockAction LockAction.lock) choice =
      some (.answer (0 : Int32) s) := by
    rw [Hub.call, if_pos rfl, hPerform]
  have hWriting (byte : UInt8) (s : Hub) :
      (Condition.free : Condition UartCall HubEvent HubChoice Hub).call (.pollOut byte) choice s :=
    trivial
  obtain ⟨s', hResponds, hCached, hPackets⟩ := runs_respond choice hWriting UartCmd.lock (.zero 0)
    (rfl : written ((s.logged ⟨.getCachedState, s.getCachedState choice.left⟩).log.map Prod.snd) = [])
  have hRuns : hub.Runs .free ⟨.boot, nukiUartThreadFn [.plain UartCmd.lock]⟩ ⟨s', .done ()⟩ :=
    .head (.answer choice _ trivial hActed) (.head (.answer choice _ trivial rfl) hResponds)
  refine ⟨_, _, _, hRuns, hPackets ▸ List.mem_cons_self, Or.inr (Or.inl rfl), rfl,
    RespState.drop_bytes_zero 0, ?_⟩
  rintro ⟨state, cachedAt, readAt, ageSec, -, hMem, -⟩
  change (state, cachedAt) ∈ s'.cached at hMem
  rw [hCached] at hMem
  exact absurd hMem List.not_mem_nil

end NukiBridge

import NukiBridge.App.Order
import NukiBridge.Command.Linked

/-! Where the states come from that the operations hand out. A state that is returned or
put into the cache is that of a KeyturnerStates message which was read from the lock in
the same operation, sealed under the key of the pairing. -/
namespace NukiBridge

open Buffer Interaction Crypto Typestate

/-- The state of a KeyturnerStates message that is long enough to be parsed. -/
def StateRead (sharedKey : Bytes 32) (reads : Reads) (state : KeyturnerState) : Prop :=
  ∃ payload, ReadMessage sharedKey reads Cmd.keyturnerStates payload ∧ 13 ≤ payload.length ∧
    state = .ofPayload payload

/-- What was read in a part of the trace was read in the trace. -/
theorem StateRead.mono {sharedKey : Bytes 32} {reads reads' : Reads} {state : KeyturnerState}
    (h : StateRead sharedKey reads state) (more : ∀ len bytes, reads len bytes → reads' len bytes) :
    StateRead sharedKey reads' state := by
  obtain ⟨payload, hRead, hLen, rfl⟩ := h
  exact ⟨payload, hRead.mono more, hLen, rfl⟩

abbrev CommandExchange := Exchange CommandCall CommandCall.Answer

/-- A KeyturnerStates message that was received in a command, and what parsing it gave. -/
def StateReceived (sharedKey : Bytes 32) (calls : List CommandExchange)
    (state : KeyturnerState) : Prop :=
  ∃ (out got : Received) (before : KeyturnerState),
    ⟨.recvEncrypted sharedKey out maxPlaintext, (0, got)⟩ ∈ calls ∧
      got.cmd = Cmd.keyturnerStates ∧
      nukiKeyturnerStateParse before got.payload got.payloadLen = (0, state)

theorem StateReceived.mono {sharedKey : Bytes 32} {calls calls' : List CommandExchange}
    {state : KeyturnerState} (h : StateReceived sharedKey calls state) (more : calls ⊆ calls') :
    StateReceived sharedKey calls' state := by
  obtain ⟨out, got, before, hMem, hParsed⟩ := h
  exact ⟨out, got, before, more hMem, hParsed⟩

/-- What a command received was read from its transport: the message authenticated under the shared
key of the pairing. -/
theorem StateReceived.read {α : Type} {sharedKey : Bytes 32} {code : CommandCode α}
    {trace : List CallExchange} {result : α} {state : KeyturnerState}
    (h : code.link.Traces trace result)
    (received : ∀ calls, code.Traces calls result → StateReceived sharedKey calls state) :
    StateRead sharedKey (peeked trace) state := by
  obtain ⟨calls, hCalls, hPieces⟩ := Program.Traces.of_inline h
  obtain ⟨out, got, before, hMem, hCmd, hParsed⟩ := received calls hCalls
  obtain ⟨piece, hPiece, hTraces⟩ := hPieces _ hMem
  obtain ⟨cmd, payload, hRead, -, rfl⟩ := traces_recvEncrypted hTraces
  obtain rfl : cmd = Cmd.keyturnerStates := hCmd
  rw [memcpy_zero, nukiKeyturnerStateParse_eq] at hParsed
  split at hParsed
  · rename_i hLen
    have hState : StateRead sharedKey (peeked piece) state :=
      ⟨payload, hRead, hLen, (congrArg Prod.snd hParsed).symm⟩
    exact hState.mono (peeked_subset hPiece)
  · cases congrArg Prod.fst hParsed

/-- A state that the command returns with 0 was in the one message that it received: the error is
checked before the parser's result is used. -/
theorem traces_nukiCommandGetState {stack : Received} {authId : UInt32} {sharedKey : Bytes 32}
    {before state : KeyturnerState} {calls : List CommandExchange}
    (h : (nukiCommandGetState stack authId sharedKey before).Traces calls (0, state)) :
    StateReceived sharedKey calls state := by
  obtain ⟨sending, received, err, rfl, -, hSent⟩ := Program.Traces.of_bind h
  split at hSent
  · rename_i hErr
    exact absurd (zero_of_done hSent) hErr
  obtain ⟨⟨err, got⟩, rest, rfl, hReceived⟩ := hSent.of_perform
  dsimp only at hReceived
  split at hReceived
  · rename_i hErr
    exact absurd (zero_of_done hReceived) hErr
  rename_i hErr
  obtain rfl : err = 0 := not_not.mp hErr
  split at hReceived
  · obtain ⟨_, _, rfl, hLogged⟩ := hReceived.of_perform
    exact absurd (zero_of_done hLogged) (by decide)
  · rename_i hCmd
    obtain ⟨-, hParsed⟩ := hReceived.of_done
    refine ⟨stack, got, before, ?_, not_not.mp hCmd, hParsed.symm⟩
    exact List.mem_append_right _ List.mem_cons_self

/-- A payload that does not parse leaves the variable alone. -/
theorem nukiKeyturnerStateParse_kept {before : KeyturnerState} {payload : List UInt8} {len : Nat}
    (h : (nukiKeyturnerStateParse before payload len).1 ≠ 0) :
    (nukiKeyturnerStateParse before payload len).2 = before := by
  rw [nukiKeyturnerStateParse] at h ⊢
  split at h
  · rename_i hShort
    rw [if_pos hShort]
  · exact absurd rfl h

/-- A KeyturnerStates update is captured whole, or leaves the variables alone. -/
theorem Captured.capture_cases (out : Captured) (got : Received) :
    out.capture got = out ∨
      ∃ before state, nukiKeyturnerStateParse before got.payload got.payloadLen = (0, state) ∧
        out.capture got = ⟨some state, some true⟩ := by
  match out with
  | ⟨none, _⟩ => exact Or.inl rfl
  | ⟨some before, none⟩ => exact Or.inl rfl
  | ⟨some before, some flag⟩ =>
      obtain ⟨parsed, hParse⟩ :
          ∃ parsed, nukiKeyturnerStateParse before got.payload got.payloadLen = parsed := ⟨_, rfl⟩
      have hCapture : (Captured.mk (some before) (some flag)).capture got =
          ⟨some parsed.2, some (if parsed.1 = 0 then true else flag)⟩ := by
        rw [← hParse]
        rfl
      rw [hCapture]
      by_cases hErr : parsed.1 = 0
      · rw [if_pos hErr]
        exact Or.inr ⟨before, parsed.2, hParse.trans (Prod.ext hErr rfl), rfl⟩
      · have hKept : parsed.2 = before := by
          rw [← hParse] at hErr ⊢
          exact nukiKeyturnerStateParse_kept hErr
        rw [if_neg hErr, hKept]
        exact Or.inl rfl

/-- The variables of the caller stay as they are, or tell the state of a message that was
received. -/
def Told (sharedKey : Bytes 32) (calls : List CommandExchange) (out out' : Captured) : Prop :=
  out' = out ∨ ∃ state, StateReceived sharedKey calls state ∧ out' = ⟨some state, some true⟩

/-- By induction on the rounds: each round leaves the captured state, or replaces it by the one that
it received. -/
theorem traces_drainLoop {stack : Nat → Received} {sharedKey : Bytes 32} {left : Nat}
    {out : Captured} {err : Int} {out' : Captured} {calls : List CommandExchange}
    (h : (drainLoop stack sharedKey left out).Traces calls (err, out')) :
    Told sharedKey calls out out' := by
  induction left generalizing out calls with
  | zero =>
      obtain ⟨_, _, rfl, hLogged⟩ := h.of_perform
      exact Or.inl (congrArg Prod.snd hLogged.of_done.2)
  | succ left ih =>
      obtain ⟨⟨error, got⟩, rest, rfl, hReceived⟩ := h.of_perform
      dsimp only at hReceived
      split at hReceived
      · exact Or.inl (congrArg Prod.snd hReceived.of_done.2)
      rename_i hError
      obtain rfl : error = 0 := not_not.mp hError
      split at hReceived
      · obtain ⟨_, _, rfl, hLogged⟩ := hReceived.of_perform
        exact Or.inl (congrArg Prod.snd hLogged.of_done.2)
      have hRest {next : Captured}
          (later : (drainLoop stack sharedKey left next).Traces rest (err, out'))
          (told : Told sharedKey (⟨.recvEncrypted sharedKey (stack left) maxPlaintext, (0, got)⟩ ::
            rest) out next) :
          Told sharedKey (⟨.recvEncrypted sharedKey (stack left) maxPlaintext, (0, got)⟩ :: rest)
            out out' := by
        rcases ih later with rfl | ⟨state, hState, rfl⟩
        · exact told
        · exact Or.inr ⟨state, hState.mono (List.subset_cons_self _ _), rfl⟩
      split at hReceived
      · split at hReceived
        · exact Or.inl (congrArg Prod.snd hReceived.of_done.2)
        split at hReceived
        · exact Or.inl (congrArg Prod.snd hReceived.of_done.2)
        · exact hRest hReceived (Or.inl rfl)
      · apply hRest hReceived
        split
        · rename_i hCmd
          rcases out.capture_cases got with hSame | ⟨before, state, hParsed, hCaptured⟩
          · exact Or.inl hSame
          · exact Or.inr ⟨state, ⟨stack left, got, before, List.mem_cons_self, hCmd, hParsed⟩,
              hCaptured⟩
        · exact Or.inl rfl

/-- Where the flag is set, the state stems from a message of this call, since the flag is cleared
before the drain. -/
theorem traces_nukiCommandLockAction {stack : Nat → Received} {nonceStack : Bytes 32}
    {authId appId : UInt32} {sharedKey : Bytes 32} {action : UInt8} {before : KeyturnerState}
    {flag : Bool} {state : KeyturnerState} {calls : List CommandExchange}
    (h : (nukiCommandLockAction stack nonceStack authId appId sharedKey action
      ⟨some before, some flag⟩).Traces calls (0, ⟨some state, some true⟩)) :
    StateReceived sharedKey calls state := by
  obtain ⟨challenge, rest, ⟨err, nonceK⟩, rfl, -, hChallenged⟩ := Program.Traces.of_bind h
  dsimp only at hChallenged
  split at hChallenged
  · rename_i hErr
    exact absurd (zero_of_done hChallenged) hErr
  obtain ⟨sending, drain, err, rfl, -, hSent⟩ := Program.Traces.of_bind hChallenged
  split at hSent
  · rename_i hErr
    exact absurd (zero_of_done hSent) hErr
  rcases traces_drainLoop hSent with hSame | ⟨state', hState, hTold⟩
  · cases hSame
  · obtain rfl : state = state' := by
      cases hTold
      rfl
    exact (hState.mono (List.subset_append_right _ _)).mono (List.subset_append_right _ _)

abbrev AppExchange := Exchange AppOp AppOp.Answer

/-- What a trace of an operation read over USDIO. -/
def usdioRead (trace : List AppExchange) : Reads :=
  fun len bytes => ⟨.transport .keyturner (.peek len), bytes⟩ ∈ trace

/-- The operation received this state from the lock that it is paired with. -/
def Heard (trace : List AppExchange) (state : KeyturnerState) : Prop :=
  ∃ p : PairingData, ⟨.getPairing, some p⟩ ∈ trace ∧
    StateRead p.sharedKey (usdioRead trace) state

/-- The states that a trace puts into the cache. -/
def cacheWrites (trace : List AppExchange) : List KeyturnerState :=
  trace.filterMap fun
    | ⟨.updateCache state, _⟩ => some state
    | _ => none

theorem cacheWrites_append (trace trace' : List AppExchange) :
    cacheWrites (trace ++ trace') = cacheWrites trace ++ cacheWrites trace' :=
  List.filterMap_append

/-- A trace of code over USDIO is a trace of this code, and what it looked at was read over
USDIO. -/
theorem traces_over {α : Type} {code : Code α} {trace : List AppExchange} {result : α}
    (h : (AppCode.over .keyturner code).Traces trace result) :
    ∃ inner, code.Traces inner result ∧
      ∀ len bytes, peeked inner len bytes → usdioRead trace len bytes := by
  obtain ⟨inner, hInner, hPieces⟩ := Program.Traces.of_inline h
  refine ⟨inner, hInner, ?_⟩
  intro len bytes hRead
  obtain ⟨piece, hPiece, hTraces⟩ := hPieces _ hRead
  obtain ⟨answer, rest, rfl, hDone⟩ := hTraces.of_call
  obtain ⟨rfl, hAnswer⟩ := hDone.of_done
  cases hAnswer
  exact hPiece List.mem_cons_self

def AppOp.caches : AppOp → Bool
  | .updateCache _ => true
  | _ => false

/-- Code that leaves the cache alone. -/
def uncached : Typestate AppOp AppOp.Answer Unit where
  admits := fun op _ => op.caches = false
  next := fun _ _ _ => ()

section Uncached

variable {α : Type} {post : α → Unit → Prop}

theorem uncached_step {op : AppOp} {more : op.Answer → AppCode α} (other : op.caches = false)
    (rest : ∀ result, uncached.Follows post (more result) ()) :
    uncached.Follows post ((AppCode.of op).bind more) () :=
  ⟨other, rest⟩

/-- Connecting and disconnecting leave the cache alone. -/
theorem uncached_connects {code : AppCode α} (h : code.Connects) :
    uncached.Follows (fun _ _ => True) code () := by
  apply (follows_of_makes h ?_ fun _ _ _ => rfl).weaken
  · exact fun _ _ _ => trivial
  · intro op hConnects
    cases op with
    | updateCache state => cases hConnects
    | _ => rfl

/-- So does all code over a transport, which does not even know of the cache. -/
theorem uncached_over (svc : Service) (code : Code α) :
    uncached.Follows (fun _ place => place = ()) (AppCode.over svc code) () := by
  apply follows_inline
  intro c
  exact ⟨rfl, fun _ => rfl⟩

theorem uncached_leave (response : Response) :
    uncached.Follows (fun _ _ => True) (disconnectFromLock.bind fun _ => .done response) () := by
  apply Follows.bind (uncached_connects connects_disconnectFromLock)
  intro _ _ _
  trivial

/-- So does pairing: a fresh pairing is no reading of the lock. -/
theorem uncached_pairLocked (stack : Leftover) :
    uncached.Follows (fun _ _ => True) (pairLocked stack) () := by
  apply Follows.bind (uncached_connects (connects_connectToLock true))
  intro rc _ _
  split
  · trivial
  · apply uncached_step rfl
    intro ready
    split
    · exact uncached_leave _
    · apply Follows.bind (uncached_over .pairing _)
      intro result _ _
      unfold storePaired
      split
      · exact uncached_leave _
      · apply uncached_step rfl
        intro addr
        apply uncached_step rfl
        intro err
        exact uncached_leave _

/-- Code that leaves the cache alone has no write to it in any trace. -/
theorem cacheWrites_of_uncached {code : AppCode α} {trace : List AppExchange} {result : α}
    (h : uncached.Follows post code ()) (traces : code.Traces trace result) :
    cacheWrites trace = [] := by
  apply List.filterMap_eq_nil_iff.mpr
  intro e he
  obtain ⟨_, hOther⟩ := h.admits traces e he
  obtain ⟨op, answer⟩ := e
  cases op with
  | updateCache state => cases hOther
  | _ => rfl

end Uncached

/-- An operation over USDIO fails before its command, or its command reads what it needs
and only the end of the operation writes to the cache. -/
theorem traces_withPairing {α : Type} {command : PairingData → Code α}
    {finish : α → AppCode Response} {trace : List AppExchange} {response : Response}
    (h : (withPairing command finish).Traces trace response) :
    (response.err ≠ 0 ∧ cacheWrites trace = []) ∨
      ∃ p inner result last, ⟨.getPairing, some p⟩ ∈ trace ∧ (command p).Traces inner result ∧
        (∀ len bytes, peeked inner len bytes → usdioRead trace len bytes) ∧
        (finish result).Traces last response ∧ cacheWrites trace = cacheWrites last := by
  obtain ⟨paired, afterPairing, rfl, hPaired⟩ := h.of_perform
  cases paired with
  | none =>
      obtain ⟨rfl, rfl⟩ := hPaired.of_done
      exact Or.inl ⟨by decide, rfl⟩
  | some p =>
      obtain ⟨connect, rest, rc, rfl, hConnect, hConnected⟩ := Program.Traces.of_bind hPaired
      have hNone :=
        cacheWrites_of_uncached (uncached_connects (connects_connectToLock false)) hConnect
      split at hConnected
      · rename_i hErr
        obtain ⟨rfl, rfl⟩ := hConnected.of_done
        refine Or.inl ⟨hErr, ?_⟩
        rw [List.append_nil]
        exact hNone
      · obtain ⟨used, rest, result, rfl, hUsed, hLeft⟩ := Program.Traces.of_bind hConnected
        obtain ⟨left, last, _, rfl, hDisconnect, hFinish⟩ := Program.Traces.of_bind hLeft
        obtain ⟨inner, hInner, hReads⟩ := traces_over hUsed
        refine Or.inr ⟨p, inner, result, last, List.mem_cons_self, hInner, ?_, hFinish, ?_⟩
        · intro len bytes hRead
          apply List.mem_cons_of_mem
          apply List.mem_append_right
          exact List.mem_append_left _ (hReads len bytes hRead)
        · have hUsedNone := cacheWrites_of_uncached (uncached_over .keyturner (command p)) hUsed
          have hLeftNone :=
            cacheWrites_of_uncached (uncached_connects connects_disconnectFromLock) hDisconnect
          change cacheWrites (connect ++ (used ++ (left ++ last))) = _
          rw [cacheWrites_append, cacheWrites_append, cacheWrites_append, hNone, hUsedNone,
            hLeftNone]
          rfl

/-- Where each operation gets the states from that it hands out or puts into the cache. -/
theorem heard_of_traces {req : Request} {trace : List AppExchange} {response : Response}
    (h : req.body.Traces trace response) :
    (∀ state ∈ cacheWrites trace, Heard trace state) ∧
      (req.operation = .getState → response.err = 0 → ∀ state ∈ response.state,
        Heard trace state) := by
  obtain ⟨operation, stack⟩ := req
  cases operation with
  | pair =>
      have hNone : cacheWrites trace = [] :=
        cacheWrites_of_uncached (uncached_pairLocked stack) h
      rw [hNone]
      exact ⟨fun _ hState => absurd hState List.not_mem_nil, fun hOther => by cases hOther⟩
  | getState =>
      rcases traces_withPairing h with ⟨hErr, hNone⟩ |
        ⟨p, inner, ⟨err, state⟩, last, hPaired, hInner, hReads, hFinish, hWrites⟩
      · rw [hNone]
        exact ⟨fun _ hState => absurd hState List.not_mem_nil, fun _ hZero => absurd hZero hErr⟩
      · obtain ⟨rfl, rfl⟩ := hFinish.of_done
        rw [hWrites]
        refine ⟨fun _ hState => absurd hState List.not_mem_nil, ?_⟩
        rintro - hZero state' hState
        obtain rfl : err = 0 := hZero
        obtain rfl : state = state' := Option.some.inj hState
        have hRead := StateReceived.read hInner fun calls => traces_nukiCommandGetState
        exact ⟨p, hPaired, hRead.mono hReads⟩
  | lockAction action =>
      refine ⟨?_, fun hOther => by cases hOther⟩
      rcases traces_withPairing h with ⟨-, hNone⟩ |
        ⟨p, inner, ⟨err, out⟩, last, hPaired, hInner, hReads, hFinish, hWrites⟩
      · rw [hNone]
        exact fun _ hState => absurd hState List.not_mem_nil
      · rw [hWrites]
        intro state hState
        obtain ⟨push, rest, _, rfl, hPush, hReturn⟩ := Program.Traces.of_bind hFinish
        obtain ⟨rfl, -⟩ := hReturn.of_done
        rw [List.append_nil] at hState
        unfold cachePushed at hPush
        split at hPush
        · split at hPush
          · rename_i hErr
            obtain ⟨_, rest, rfl, hDone⟩ := hPush.of_call
            obtain ⟨rfl, -⟩ := hDone.of_done
            obtain rfl := List.mem_singleton.mp hState
            subst hErr
            have hRead := StateReceived.read hInner fun calls => traces_nukiCommandLockAction
            exact ⟨p, hPaired, hRead.mono hReads⟩
          · obtain ⟨rfl, -⟩ := hPush.of_done
            exact absurd hState List.not_mem_nil
        · obtain ⟨rfl, -⟩ := hPush.of_done
          exact absurd hState List.not_mem_nil
  | calibrate securityPin =>
      refine ⟨?_, fun hOther => by cases hOther⟩
      have hNone : cacheWrites trace = [] := by
        rcases traces_withPairing h with ⟨-, hNone⟩ | ⟨_, _, _, last, -, -, -, hFinish, hWrites⟩
        · exact hNone
        · rw [hWrites, hFinish.of_done.1]
          rfl
      rw [hNone]
      exact fun _ hState => absurd hState List.not_mem_nil

end NukiBridge

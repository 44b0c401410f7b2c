import NukiBridge.Command.Script
import NukiBridge.Interaction.Trace

/-! What the commands read of a received message. Their buffers are larger than the message
in them, and what is behind it is left over on the stack. Seen as code over messages, a
command should not depend on that. -/
namespace NukiBridge

open Buffer Interaction

/-- A call of the environment, or the next message from the lock. -/
inductive MessageCall where
  | base (c : Call)
  | receive (sharedKey : Bytes 32)

@[reducible] def MessageCall.Answer : MessageCall → Type
  | .base c => c.Answer
  | .receive _ => Outcome

/-- Code whose environment hands out messages. -/
abbrev MessageCode (α : Type) := Program MessageCall MessageCall.Answer α

/-- A command as code over messages: each one is copied over what its buffer held before. -/
def CommandCode.overMessages {α : Type} (code : CommandCode α) : MessageCode α :=
  code.inline fun
    | .base c => @Program.perform MessageCall MessageCall.Answer (.base c)
    | .recvEncrypted sharedKey out _ =>
        (@Program.perform MessageCall MessageCall.Answer (.receive sharedKey)).bind fun outcome =>
          .done (outcome.found out)

section

variable {α β : Type}

theorem overMessages_bind (code : CommandCode β) (more : β → CommandCode α) :
    CommandCode.overMessages (code.bind more) =
      code.overMessages.bind fun result => (more result).overMessages :=
  Program.inline_bind _ code more

theorem overMessages_ite (c : Prop) [Decidable c] (p q : CommandCode α) :
    CommandCode.overMessages (if c then p else q) =
      if c then p.overMessages else q.overMessages := by
  split <;> rfl

/-- Receiving, and the code after it. -/
theorem overMessages_recvMessage (sharedKey : Bytes 32) (out : Received)
    (more : Int × Received → CommandCode α) :
    CommandCode.overMessages ((recvMessage sharedKey out).bind more) =
      .call (.receive sharedKey) fun outcome => (more (outcome.found out)).overMessages := by
  rw [overMessages_bind]
  rfl

/-- The first byte of a buffer that a message was copied to. -/
theorem getD_memcpy (buffer payload : List UInt8) :
    (memcpy buffer 0 payload).getD 0 0 = payload.headD (buffer.getD 0 0) := by
  rw [memcpy_zero]
  cases payload with
  | nil => rfl
  | cons byte rest => rfl

/-- A request and its answer do not depend on the buffer if the code after it does not. -/
theorem request_overMessages {send : CommandCode Int} {sharedKey : Bytes 32}
    {stack stack' : Received} {early : Int → CommandCode α}
    {more : Int × Received → CommandCode α}
    (same : ∀ outcome : Outcome, (more (outcome.found stack)).overMessages =
      (more (outcome.found stack')).overMessages) :
    CommandCode.overMessages (send.bind fun err =>
        if err ≠ 0 then early err else (recvMessage sharedKey stack).bind more) =
      CommandCode.overMessages (send.bind fun err =>
        if err ≠ 0 then early err else (recvMessage sharedKey stack').bind more) := by
  rw [overMessages_bind, overMessages_bind]
  congr 1
  funext err
  rw [overMessages_ite, overMessages_ite, overMessages_recvMessage, overMessages_recvMessage]
  congr 2
  funext outcome
  exact same outcome

/-- `nuki_command_get_state` reads nothing that was left over: its code over messages does not
mention the stack. -/
theorem getState_overMessages (stack stack' : Received) (authId : UInt32) (sharedKey : Bytes 32)
    (state : KeyturnerState) :
    (nukiCommandGetState stack authId sharedKey state).overMessages =
      (nukiCommandGetState stack' authId sharedKey state).overMessages := by
  apply request_overMessages
  intro outcome
  cases outcome with
  | error err nonzero left => rfl
  | message cmd payload fits =>
      simp only [Outcome.found, memcpy_zero, nukiKeyturnerStateParse_eq]

/-- Neither does `request_challenge`. -/
theorem requestChallenge_overMessages (stack stack' : Received) (authId : UInt32)
    (sharedKey nonceK : Bytes 32) :
    (requestChallenge stack authId sharedKey nonceK).overMessages =
      (requestChallenge stack' authId sharedKey nonceK).overMessages := by
  apply request_overMessages
  intro outcome
  cases outcome with
  | error err nonzero left => rfl
  | message cmd payload fits =>
      change CommandCode.overMessages (if cmd ≠ Cmd.challenge ∨ payload.length ≠ 32 then _
          else .done (0, Bytes.ofList 32 (memcpy stack.payload 0 payload))) =
        CommandCode.overMessages (if cmd ≠ Cmd.challenge ∨ payload.length ≠ 32 then _
          else .done (0, Bytes.ofList 32 (memcpy stack'.payload 0 payload)))
      by_cases hChallenge : cmd ≠ Cmd.challenge ∨ payload.length ≠ 32
      · rw [if_pos hChallenge, if_pos hChallenge]
      · have hLen : payload.length = 32 := not_not.mp (not_or.mp hChallenge).2
        have hNonce (buffer : List UInt8) :
            Bytes.ofList 32 (memcpy buffer 0 payload) = ⟨payload, hLen⟩ := by
          apply Subtype.ext
          change (memcpy buffer 0 payload ++ List.replicate 32 0).take 32 = payload
          rw [memcpy_zero, List.append_assoc, ← hLen]
          exact List.take_left
        rw [if_neg hChallenge, if_neg hChallenge, hNonce, hNonce]

end

/-- How `drain_until_complete` returns after an ErrorReport. -/
def reportError (code : UInt8) (out : Captured) : MessageCode (Int × Captured) :=
  .call (.base (.log "lock returned ErrorReport (code %d)" [code.toInt8.toInt])) fun _ =>
    .done (-eio, out)

/-- After an ErrorReport the code is logged and `-EIO` returned. -/
theorem reportError_log (code : UInt8) (out : Captured) :
    (reportError code out).Traces
      [⟨.base (.log "lock returned ErrorReport (code %d)" [code.toInt8.toInt]), ()⟩]
      (-eio, out) := by
  apply Program.Traces.call
  exact .done _

/-- The log line tells which code was read, so a stale byte would be visible in it. -/
theorem reportError_traces {code code' : UInt8} {out : Captured} {result : Int × Captured}
    {trace : List (Exchange MessageCall MessageCall.Answer)}
    (h : (reportError code out).Traces trace result)
    (h' : (reportError code' out).Traces trace result) : code = code' := by
  obtain ⟨_, _, hTrace, -⟩ := h.of_call
  obtain ⟨_, _, hTrace', -⟩ := h'.of_call
  have hLog := hTrace.symm.trans hTrace'
  simp only [List.cons.injEq, Exchange.mk.injEq, MessageCall.base.injEq, Call.log.injEq] at hLog
  exact congrArg Int8.toUInt8 (Int8.toInt_inj.mp hLog.1.1.2.1)

/-- What `drain_until_complete` does with one message, and where it goes on. Of what its
buffer held before, it can only read the first byte, where an ErrorReport is empty. -/
def drainMessage (stale : UInt8) (more : Captured → MessageCode (Int × Captured))
    (out : Captured) : Outcome → MessageCode (Int × Captured)
  | .error err _ _ => .done (err, out)
  | .message cmd payload fits =>
      if cmd = Cmd.errorReport then reportError (payload.headD stale) out
      else if cmd = Cmd.status then
        if payload.length ≠ 1 then .done (-ebadmsg, out)
        else if payload.headD stale = statusComplete then .done (0, out)
        else more out
      else more ((Outcome.message cmd payload fits).update out)

/-- `drain_until_complete` over messages. -/
def drainMessages (stale : Nat → UInt8) (sharedKey : Bytes 32) :
    Nat → Captured → MessageCode (Int × Captured)
  | 0, out =>
      .call (.base (.log "gave up waiting for Status COMPLETE" [])) fun _ => .done (-etimedout, out)
  | left + 1, out =>
      .call (.receive sharedKey)
        (drainMessage (stale left) (drainMessages stale sharedKey left) out)

/-- The drain reads of its buffer what the message put there, and the first stale byte where an
ErrorReport is empty. -/
theorem drainLoop_overMessages (stack : Nat → Received) (sharedKey : Bytes 32) (left : Nat)
    (out : Captured) :
    (drainLoop stack sharedKey left out).overMessages =
      drainMessages (fun n => (stack n).payload.getD 0 0) sharedKey left out := by
  induction left generalizing out with
  | zero => rfl
  | succ left ih =>
      rw [drainLoop, Program.bind_eq, overMessages_recvMessage, drainMessages]
      congr 1
      funext outcome
      cases outcome with
      | error err nonzero rest =>
          change CommandCode.overMessages (if err ≠ 0 then _ else _) = _
          rw [if_pos nonzero]
          rfl
      | message cmd payload fits =>
          simp only [Outcome.found, ne_eq, not_true, if_false, getD_memcpy]
          rw [drainMessage]
          by_cases hReport : cmd = Cmd.errorReport
          · rw [if_pos hReport, if_pos hReport]
            rfl
          · rw [if_neg hReport, if_neg hReport]
            by_cases hStatus : cmd = Cmd.status
            · rw [if_pos hStatus, if_pos hStatus]
              by_cases hLen : payload.length ≠ 1
              · rw [if_pos hLen, if_pos hLen]
                rfl
              · rw [if_neg hLen, if_neg hLen, overMessages_ite, ih out]
                rfl
            · rw [if_neg hStatus, if_neg hStatus, ← Script.capture_eq_update]
              exact ih _

/-- An ErrorReport without payload. -/
def Outcome.EmptyReport : Outcome → Prop
  | .error _ _ _ => False
  | .message cmd payload _ => cmd = Cmd.errorReport ∧ payload = []

/-- Code that has nothing more to receive. -/
def LastMessage (code : MessageCode (Int × Captured)) : Prop :=
  ∀ trace result, code.Traces trace result → ∀ e ∈ trace, ∃ c, e.op = .base c

theorem lastMessage_done (result : Int × Captured) : LastMessage (.done result) := by
  intro trace result' h
  obtain ⟨rfl, -⟩ := h.of_done
  exact fun e he => absurd he List.not_mem_nil

/-- After an ErrorReport nothing more is received. -/
theorem lastMessage_reportError (code : UInt8) (out : Captured) :
    LastMessage (reportError code out) := by
  intro trace result h
  obtain ⟨answer, rest, rfl, hRest⟩ := h.of_call
  exact List.forall_mem_cons.mpr ⟨⟨_, rfl⟩, lastMessage_done _ _ _ hRest⟩

/-- Any message but an empty ErrorReport is read without what was left over: the loop
returns, or goes on. -/
theorem drainMessage_cases {outcome : Outcome} (h : ¬outcome.EmptyReport) (out : Captured) :
    (∃ code, LastMessage code ∧ ∀ stale more, drainMessage stale more out outcome = code) ∨
      ∃ out', ∀ stale more, drainMessage stale more out outcome = more out' := by
  cases outcome with
  | error err nonzero got => exact Or.inl ⟨.done (err, out), lastMessage_done _, fun _ _ => rfl⟩
  | message cmd payload fits =>
      by_cases hReport : cmd = Cmd.errorReport
      · obtain ⟨byte, rest, rfl⟩ := List.exists_cons_of_ne_nil fun hNil => h ⟨hReport, hNil⟩
        exact Or.inl ⟨_, lastMessage_reportError byte out, fun _ _ => if_pos hReport⟩
      · by_cases hStatus : cmd = Cmd.status
        · by_cases hLen : payload.length ≠ 1
          · refine Or.inl ⟨.done (-ebadmsg, out), lastMessage_done _, fun stale more => ?_⟩
            rw [drainMessage, if_neg hReport, if_pos hStatus, if_pos hLen]
          · obtain ⟨byte, rfl⟩ := List.length_eq_one_iff.mp (not_not.mp hLen)
            by_cases hComplete : byte = statusComplete
            · refine Or.inl ⟨.done (0, out), lastMessage_done _, fun stale more => ?_⟩
              rw [drainMessage, if_neg hReport, if_pos hStatus, if_neg hLen]
              exact if_pos hComplete
            · refine Or.inr ⟨out, fun stale more => ?_⟩
              rw [drainMessage, if_neg hReport, if_pos hStatus, if_neg hLen]
              exact if_neg hComplete
        · refine Or.inr ⟨(Outcome.message cmd payload fits).update out, fun stale more => ?_⟩
          rw [drainMessage, if_neg hReport, if_neg hStatus]

/-- An empty ErrorReport shows the leftover byte in the log. -/
theorem drainMessage_emptyReport {outcome : Outcome} (h : outcome.EmptyReport) (stale : UInt8)
    (more : Captured → MessageCode (Int × Captured)) (out : Captured) :
    drainMessage stale more out outcome = reportError stale out := by
  cases outcome with
  | error err nonzero got => exact h.elim
  | message cmd payload fits =>
      obtain ⟨hCmd, rfl⟩ := h
      exact if_pos hCmd

/-- A run of the loop is the same with every leftover byte exactly if none of its messages
is an empty ErrorReport. -/
theorem drainMessages_traces {stale : Nat → UInt8} {sharedKey : Bytes 32} {left : Nat}
    {out : Captured} {trace : List (Exchange MessageCall MessageCall.Answer)}
    {result : Int × Captured} (h : (drainMessages stale sharedKey left out).Traces trace result) :
    (∀ stale', (drainMessages stale' sharedKey left out).Traces trace result) ↔
      ∀ key outcome, ⟨.receive key, outcome⟩ ∈ trace → ¬outcome.EmptyReport := by
  induction left generalizing out trace with
  | zero =>
      obtain ⟨_, rest, rfl, hRest⟩ := h.of_call
      obtain ⟨rfl, -⟩ := hRest.of_done
      constructor
      · intro _ key outcome hMem
        cases List.mem_singleton.mp hMem
      · exact fun _ _ => h
  | succ left ih =>
      obtain ⟨first, rest, rfl, hRest⟩ := h.of_call
      simp only [drainMessages, Program.traces_call_iff]
      by_cases hEmpty : first.EmptyReport
      · rw [drainMessage_emptyReport hEmpty] at hRest
        constructor
        · intro hAll
          -- another byte would have been logged
          have hOther := hAll fun n => stale n + 1
          rw [drainMessage_emptyReport hEmpty] at hOther
          have hSame : stale left + 0 = stale left + 1 :=
            (UInt8.add_zero _).trans (reportError_traces hRest hOther)
          cases (UInt8.add_right_inj _).mp hSame
        · intro hNone
          exact absurd hEmpty (hNone sharedKey first List.mem_cons_self)
      · rcases drainMessage_cases hEmpty out with ⟨code, hLast, hCode⟩ | ⟨out', hMore⟩
        · rw [hCode] at hRest
          simp only [hCode]
          constructor
          · intro _ key outcome hMem
            rcases List.mem_cons.mp hMem with hHead | hTail
            · cases hHead
              exact hEmpty
            · obtain ⟨c, hOp⟩ := hLast _ _ hRest _ hTail
              cases hOp
          · exact fun _ _ => hRest
        · rw [hMore] at hRest
          simp only [hMore, ih hRest]
          constructor
          · intro hNone key outcome hMem
            rcases List.mem_cons.mp hMem with hHead | hTail
            · cases hHead
              exact hEmpty
            · exact hNone key outcome hTail
          · exact fun hNone key outcome hMem => hNone key outcome (List.mem_cons_of_mem _ hMem)

/-- A buffer of a command that holds only this byte. -/
def leftover (byte : UInt8) : Received := ⟨0, List.replicate maxPlaintext byte, 0⟩

/-- The bytes that a message did not contain are seen exactly where `drain_until_complete`
takes an empty ErrorReport: everything else the commands read, they were sent. -/
theorem leftovers_unseen (authId : UInt32) (sharedKey : Bytes 32) :
    (∀ (state : KeyturnerState) (payload rest rest' : List UInt8),
        nukiKeyturnerStateParse state (payload ++ rest) payload.length =
          nukiKeyturnerStateParse state (payload ++ rest') payload.length) ∧
      (∀ (stack stack' : Received) (state : KeyturnerState),
        (nukiCommandGetState stack authId sharedKey state).overMessages =
          (nukiCommandGetState stack' authId sharedKey state).overMessages) ∧
      (∀ (stack stack' : Received) (nonceK : Bytes 32),
        (requestChallenge stack authId sharedKey nonceK).overMessages =
          (requestChallenge stack' authId sharedKey nonceK).overMessages) ∧
      ∀ (stack : Nat → Received) (out : Captured)
        (trace : List (Exchange MessageCall MessageCall.Answer)) (result : Int × Captured),
        (drainUntilComplete stack sharedKey out).overMessages.Traces trace result →
          ((∀ stack' : Nat → Received, (∀ n, (stack' n).payload.length = maxPlaintext) →
              (drainUntilComplete stack' sharedKey out).overMessages.Traces trace result) ↔
            ∀ key outcome, ⟨.receive key, outcome⟩ ∈ trace → ¬outcome.EmptyReport) := by
  refine ⟨?_, ?_, ?_, ?_⟩
  · intro state payload rest rest'
    rw [nukiKeyturnerStateParse_eq, nukiKeyturnerStateParse_eq]
  · exact fun stack stack' => getState_overMessages stack stack' authId sharedKey
  · exact fun stack stack' => requestChallenge_overMessages stack stack' authId sharedKey
  · intro stack out trace result h
    simp only [drainUntilComplete, drainLoop_overMessages] at h ⊢
    rw [← drainMessages_traces h]
    constructor
    · intro hBuffers stale'
      exact hBuffers (fun n => leftover (stale' n)) fun _ => List.length_replicate
    · exact fun hAll stack' _ => hAll _

/-- The lock reports COMPLETE: what follows is the same whatever was left over. -/
theorem leftovers_unseen_complete :
    (drainUntilComplete (fun _ => leftover 69) default ⟨none, none⟩).overMessages.Traces
      [⟨.receive default, .message Cmd.status [statusComplete] (by decide)⟩]
      (0, ⟨none, none⟩) := by
  have hRun : (drainUntilComplete (fun _ => leftover 0) default ⟨none, none⟩).overMessages.Traces
      [⟨.receive default, .message Cmd.status [statusComplete] (by decide)⟩]
      (0, ⟨none, none⟩) := by
    rw [drainUntilComplete, drainLoop_overMessages]
    exact .call _ (.done _)
  obtain ⟨-, -, -, hDrain⟩ := leftovers_unseen 0 default
  apply (hDrain _ _ _ _ hRun).mpr
  · intro key outcome hMem hEmpty
    cases List.mem_singleton.mp hMem
    exact absurd hEmpty.1 (by decide)
  · exact fun _ => List.length_replicate

/-- `drain_until_complete` takes an empty ErrorReport and logs this code. -/
def emptyReported (sharedKey : Bytes 32) (code : Int) :
    List (Exchange MessageCall MessageCall.Answer) :=
  [⟨.receive sharedKey, .message Cmd.errorReport [] (Nat.zero_le _)⟩,
    ⟨.base (.log "lock returned ErrorReport (code %d)" [code]), ()⟩]

/-- The code that is logged was left in the buffer: with 69 there, 69 is logged, and with
0 there, it cannot be. -/
theorem leftover_logged :
    ∃ sharedKey : Bytes 32,
      (drainUntilComplete (fun _ => leftover 69) sharedKey ⟨none, none⟩).overMessages.Traces
        (emptyReported sharedKey 69) (-eio, ⟨none, none⟩) ∧
      ¬(drainUntilComplete (fun _ => leftover 0) sharedKey ⟨none, none⟩).overMessages.Traces
        (emptyReported sharedKey 69) (-eio, ⟨none, none⟩) := by
  have hLogged := reportError_log 69 ⟨none, none⟩
  refine ⟨⟨List.replicate 32 0, rfl⟩, ?_, ?_⟩
  · rw [drainUntilComplete, drainLoop_overMessages]
    exact .call _ hLogged
  · rw [drainUntilComplete, drainLoop_overMessages]
    intro h
    cases reportError_traces hLogged (Program.traces_call_iff.mp h)

end NukiBridge

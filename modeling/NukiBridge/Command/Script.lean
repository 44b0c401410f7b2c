import NukiBridge.Command.Operations

/-! The commands against an arbitrary script of write results and received
messages. A command that moves the motor is written at most once, under a
challenge of the same call, and success means that the lock reported it. -/
namespace NukiBridge

open Buffer Interaction Crypto

/-- One result of `recv_encrypted`; an error may leave anything in the variables. -/
inductive Outcome where
  | error (err : Int) (nonzero : err ≠ 0) (left : Received)
  | message (cmd : UInt16) (payload : List UInt8) (fits : payload.length ≤ maxPlaintext)

namespace Outcome

/-- What the caller of `recv_encrypted` finds. -/
def found (out : Received) : Outcome → Int × Received
  | .error err _ left => (err, left)
  | .message cmd payload _ => (0, ⟨cmd, memcpy out.payload 0 payload, payload.length⟩)

/-- The nonce of a Challenge with exactly 32 bytes. -/
def challengeNonce : Outcome → Option (Bytes 32)
  | .error _ _ _ => none
  | .message cmd payload _ =>
      if h : cmd = Cmd.challenge ∧ payload.length = 32 then some ⟨payload, h.2⟩ else none

/-- A Status with exactly the byte COMPLETE. -/
def Completes : Outcome → Prop
  | .error _ _ _ => False
  | .message cmd payload _ => cmd = Cmd.status ∧ payload = [statusComplete]

/-- A message that is neither an ErrorReport nor a Status of another length than one. -/
def Harmless : Outcome → Prop
  | .error _ _ _ => False
  | .message cmd payload _ => cmd ≠ Cmd.errorReport ∧ (cmd = Cmd.status → payload.length = 1)

/-- COMPLETE is a Status of one byte, so it never counts as one of the messages that end the loop
with an error. -/
theorem Completes.harmless {o : Outcome} (h : o.Completes) : o.Harmless := by
  cases o with
  | error err nonzero left => exact h.elim
  | message cmd payload fits =>
      obtain ⟨rfl, rfl⟩ := h
      exact ⟨by decide, fun _ => rfl⟩

/-- The state in a KeyturnerStates message that is long enough. -/
def state? : Outcome → Option KeyturnerState
  | .error _ _ _ => none
  | .message cmd payload _ =>
      if cmd = Cmd.keyturnerStates ∧ 13 ≤ payload.length then some (.ofPayload payload) else none

/-- What a message does to the variables of the caller. -/
def update (out : Captured) (o : Outcome) : Captured :=
  match o.state?, out.stateOut, out.gotState with
  | some state, some _, some _ => ⟨some state, some true⟩
  | _, _, _ => out

end Outcome

/-- The environment of one command: what the random source yields, how each write
goes and what each `recv_encrypted` returns. -/
structure Script where
  rand : Nat → (len : Nat) → Bytes len
  write : Nat → WriteOutcome
  recv : Nat → Outcome
  other : (c : Call) → c.Answer

/-- How far a script has been played, and the messages written so far. -/
structure Progress where
  drawn : Nat
  sent : List (List UInt8)
  received : Nat

/-- The progress after one more message was received. -/
def Progress.next (p : Progress) : Progress := { p with received := p.received + 1 }

/-- Receiving is counted one message at a time, and the loop of the drain advances by one in each
round. -/
@[simp] theorem Progress.next_received (p : Progress) : p.next.received = p.received + 1 := rfl

namespace Script

variable (script : Script)

def answerCall : (c : Call) → Progress → c.Answer × Progress
  | .sysRandGet len, p => (script.rand p.drawn len, { p with drawn := p.drawn + 1 })
  | .btGattWrite data, p =>
      ((script.write p.sent.length).gatt, { p with sent := p.sent ++ [data] })
  | .takeWriteSem, p => ((script.write (p.sent.length - 1)).taken, p)
  | .loadWriteErr, p => ((script.write (p.sent.length - 1)).err, p)
  | c, p => (script.other c, p)

def answer : (op : CommandCall) → Progress → op.Answer × Progress
  | .base c, p => script.answerCall c p
  | .recvEncrypted _ out _, p =>
      ((script.recv p.received).found out, { p with received := p.received + 1 })

/-- A script answers lifted code as it answers the code itself, so what is known about the transport
is used for the commands as it stands. -/
theorem run_lift {α : Type} (code : Code α) (p : Progress) :
    (CommandCode.lift code).run script.answer p = code.run script.answerCall p :=
  Program.run_inline _ code p

/-- Receiving plays the next message of the script, whatever the receive buffer held before. -/
theorem run_recvMessage (sharedKey : Bytes 32) (out : Received) (p : Progress) :
    (recvMessage sharedKey out).run script.answer p =
      ((script.recv p.received).found out, p.next) := by
  rw [recvMessage, Program.run_perform, answer, Progress.next]

/-- Writing plays the next write of the script. The bytes count as sent also where the write fails
later, since they were handed to the stack. -/
theorem run_nukiTransportWrite (data : List UInt8) (p : Progress) :
    (nukiTransportWrite data).run script.answerCall p =
      ((script.write p.sent.length).result, { p with sent := p.sent ++ [data] }) := by
  have hLast : (p.sent ++ [data]).length - 1 = p.sent.length := by simp
  apply run_write (script.write p.sent.length) rfl rfl
  · exact congrArg (fun i => ((script.write i).taken, _)) hLast
  · exact congrArg (fun i => ((script.write i).err, _)) hLast

/-- Sending draws one nonce, seals the frame under it and writes it once. The frames of this driver
are all short enough for the length check. -/
theorem run_sendEncrypted (authId : UInt32) (sharedKey : Bytes 32) (cmd : UInt16)
    {payload : List UInt8} (h : payload.length ≤ payloadMaxLen) (p : Progress) :
    (CommandCode.lift (sendEncrypted authId sharedKey cmd payload)).run script.answer p =
      ((script.write p.sent.length).result, { p with
        drawn := p.drawn + 1
        sent := p.sent ++
          [wireMessage (script.rand p.drawn nukiNonceLen) sharedKey authId cmd payload] }) := by
  rw [run_lift, sendEncrypted_eq authId sharedKey cmd h, Program.run_bind, Code.of,
    Program.run_perform, run_nukiTransportWrite]
  rfl

/-- The nonce that `request_challenge` obtains when it starts from `p`. -/
def challengeAt (p : Progress) : Option (Bytes 32) :=
  if (script.write p.sent.length).result = 0 then (script.recv p.received).challengeNonce else none

/-- The request for a Challenge, as it is written. -/
def challengeRequest (authId : UInt32) (sharedKey : Bytes 32) (p : Progress) : List UInt8 :=
  wireMessage (script.rand p.drawn nukiNonceLen) sharedKey authId Cmd.requestData
    (sysPutLe16 Cmd.challenge)

/-- Where the script holds a Challenge of 32 bytes, the caller finds no error, this command, this
length, and the nonce at the start of its buffer. -/
theorem challengeNonce_eq_some {o : Outcome} (out : Received) {nonce : Bytes 32}
    (h : o.challengeNonce = some nonce) :
    (o.found out).1 = 0 ∧ (o.found out).2.cmd = Cmd.challenge ∧
      (o.found out).2.payloadLen = 32 ∧ Bytes.ofList 32 (o.found out).2.payload = nonce := by
  cases o with
  | error err nonzero left => cases h
  | message cmd payload fits =>
      rw [Outcome.challengeNonce] at h
      split at h
      · rename_i hShape
        obtain rfl := Option.some.inj h
        refine ⟨rfl, hShape.1, hShape.2, Subtype.ext ?_⟩
        have hTake := take_memcpy_zero out.payload payload
        rw [hShape.2] at hTake
        have hLen : 32 ≤ (memcpy out.payload 0 payload).length := by
          rw [memcpy_zero, List.length_append, hShape.2]
          exact Nat.le_add_right _ _
        exact (Bytes.ofList_val hLen).trans hTake
      · cases h

/-- Where a message is no Challenge of 32 bytes, one of the two checks of `request_challenge` fails,
whatever else it is. -/
theorem challengeNonce_eq_none {o : Outcome} (out : Received) (h : o.challengeNonce = none)
    (hErr : (o.found out).1 = 0) :
    (o.found out).2.cmd ≠ Cmd.challenge ∨ (o.found out).2.payloadLen ≠ 32 := by
  cases o with
  | error err nonzero left => exact absurd hErr nonzero
  | message cmd payload fits =>
      rw [Outcome.challengeNonce] at h
      split at h
      · cases h
      · rename_i hShape
        exact not_and_or.mp hShape

section Challenge

variable (stack : Received) (authId : UInt32) (sharedKey nonceK : Bytes 32) (p : Progress)

/-- The progress after the request for a Challenge was written. -/
def requested (received : Nat) : Progress where
  drawn := p.drawn + 1
  sent := p.sent ++ [script.challengeRequest authId sharedKey p]
  received := received

/-- With a Challenge as the answer the nonce is handed out, and one message was written and one
received. -/
theorem run_requestChallenge_some {nonce : Bytes 32} (h : script.challengeAt p = some nonce) :
    (requestChallenge stack authId sharedKey nonceK).run script.answer p =
      ((0, nonce), script.requested authId sharedKey p (p.received + 1)) := by
  have hPayload : (sysPutLe16 Cmd.challenge).length ≤ payloadMaxLen := by decide
  rw [challengeAt] at h
  split at h
  · rename_i hWrite
    obtain ⟨hErr, hCmd, hLen, hNonce⟩ := challengeNonce_eq_some stack h
    simp only [requestChallenge, Program.bind_eq, Program.run_bind, run_recvMessage, hWrite, hErr,
      hCmd, hLen, hNonce, run_sendEncrypted script authId sharedKey Cmd.requestData hPayload,
      ne_eq, not_true, or_self, if_false]
    rfl
  · cases h

/-- Without it the call fails and the nonce of the caller keeps its bytes. Only the request was
written. -/
theorem run_requestChallenge_none (h : script.challengeAt p = none) :
    ∃ err received, err ≠ 0 ∧
      (requestChallenge stack authId sharedKey nonceK).run script.answer p =
        ((err, nonceK), script.requested authId sharedKey p received) := by
  have hPayload : (sysPutLe16 Cmd.challenge).length ≤ payloadMaxLen := by decide
  simp only [requestChallenge, Program.bind_eq, Program.run_bind,
    run_sendEncrypted script authId sharedKey Cmd.requestData hPayload]
  rw [challengeAt] at h
  by_cases hWrite : (script.write p.sent.length).result = 0
  · rw [if_pos hWrite] at h
    simp only [hWrite, ne_eq, not_true, if_false, Program.run_bind, run_recvMessage]
    by_cases hErr : ((script.recv p.received).found stack).1 = 0
    · have hRefused := challengeNonce_eq_none stack h hErr
      rw [if_neg (not_not.mpr hErr), if_pos hRefused]
      exact ⟨-ebadmsg, p.received + 1, by decide, rfl⟩
    · rw [if_pos hErr]
      exact ⟨_, p.received + 1, hErr, rfl⟩
  · rw [if_pos hWrite]
    exact ⟨_, p.received, hWrite, rfl⟩

end Challenge

section Drain

variable (stack : Nat → Received) (sharedKey : Bytes 32) (left : Nat) (out : Captured)
  (p : Progress)

private theorem run_recvMessage_error {p : Progress} {err : Int} {nonzero : err ≠ 0}
    {rest : Received} (got : Received) (h : script.recv p.received = .error err nonzero rest) :
    (recvMessage sharedKey got).run script.answer p = ((err, rest), p.next) := by
  rw [run_recvMessage, h, Outcome.found, Progress.next]

private theorem run_recvMessage_message {p : Progress} {cmd : UInt16} {payload : List UInt8}
    {fits : payload.length ≤ maxPlaintext} (got : Received)
    (h : script.recv p.received = .message cmd payload fits) :
    (recvMessage sharedKey got).run script.answer p =
      ((0, ⟨cmd, memcpy got.payload 0 payload, payload.length⟩), p.next) := by
  rw [run_recvMessage, h, Outcome.found, Progress.next]

/-- The status byte of a Status message of one byte is the byte at offset 0 that the loop reads. -/
private theorem memcpy_singleton (buffer : List UInt8) (byte : UInt8) :
    (memcpy buffer 0 [byte]).getD 0 0 = byte := by
  rw [memcpy_zero]
  rfl

/-- Capturing from the receive buffer is the update by the message in it. -/
theorem capture_eq_update (buffer : List UInt8) {cmd : UInt16} {payload : List UInt8}
    (fits : payload.length ≤ maxPlaintext) :
    (if cmd = Cmd.keyturnerStates then
      out.capture ⟨cmd, memcpy buffer 0 payload, payload.length⟩ else out) =
      (Outcome.message cmd payload fits).update out := by
  obtain ⟨stateOut, gotState⟩ := out
  by_cases hCmd : cmd = Cmd.keyturnerStates
  · by_cases hLen : 13 ≤ payload.length
    · cases stateOut <;> cases gotState <;>
        simp [Captured.capture, Outcome.update, Outcome.state?, memcpy_zero,
          nukiKeyturnerStateParse_eq, hCmd, hLen]
    · cases stateOut <;> cases gotState <;>
        simp [Captured.capture, Outcome.update, Outcome.state?, memcpy_zero,
          nukiKeyturnerStateParse_eq, hCmd, hLen, einval]
  · simp [Outcome.update, Outcome.state?, hCmd]

/-- A round that receives COMPLETE ends the loop with 0 and leaves the captured state alone. -/
theorem run_drainLoop_completes (h : (script.recv p.received).Completes) :
    (drainLoop stack sharedKey (left + 1) out).run script.answer p = ((0, out), p.next) := by
  cases hMsg : script.recv p.received with
  | error err nonzero rest =>
      rw [hMsg] at h
      exact h.elim
  | message cmd payload fits =>
      rw [hMsg] at h
      obtain ⟨rfl, rfl⟩ := h
      rw [drainLoop, Program.bind_eq, Program.run_bind,
        run_recvMessage_message script sharedKey (stack left) hMsg]
      simp only [ne_eq, not_true, if_false, memcpy_singleton, List.length_singleton, if_true]
      rfl

/-- A round that receives any other harmless message updates the captured state and goes on with one
round less. -/
theorem run_drainLoop_continues (harmless : (script.recv p.received).Harmless)
    (incomplete : ¬(script.recv p.received).Completes) :
    (drainLoop stack sharedKey (left + 1) out).run script.answer p =
      (drainLoop stack sharedKey left ((script.recv p.received).update out)).run script.answer
        p.next := by
  cases hMsg : script.recv p.received with
  | error err nonzero rest =>
      rw [hMsg] at harmless
      exact harmless.elim
  | message cmd payload fits =>
      rw [hMsg] at harmless incomplete
      obtain ⟨noError, hLen⟩ := harmless
      rw [drainLoop, Program.bind_eq, Program.run_bind,
        run_recvMessage_message script sharedKey (stack left) hMsg]
      simp only [ne_eq, not_true, if_false, noError]
      split
      · rename_i hStatus
        obtain ⟨byte, rfl⟩ := List.length_eq_one_iff.mp (hLen hStatus)
        have hByte : byte ≠ statusComplete := fun h => incomplete ⟨hStatus, by rw [h]⟩
        simp only [memcpy_singleton, List.length_singleton, not_true, if_false, hByte]
        subst hStatus
        rfl
      · rw [capture_eq_update out _ fits]

/-- A round that receives anything else, an error among it, ends the loop with an error, and the
captured state is what it was. -/
theorem run_drainLoop_stops (h : ¬(script.recv p.received).Harmless) :
    ∃ err, err ≠ 0 ∧
      (drainLoop stack sharedKey (left + 1) out).run script.answer p = ((err, out), p.next) := by
  cases hMsg : script.recv p.received with
  | error err nonzero rest =>
      rw [drainLoop, Program.bind_eq, Program.run_bind,
        run_recvMessage_error script sharedKey (stack left) hMsg]
      exact ⟨err, nonzero, by simp only [if_pos nonzero]; rfl⟩
  | message cmd payload fits =>
      rw [hMsg] at h
      rw [drainLoop, Program.bind_eq, Program.run_bind,
        run_recvMessage_message script sharedKey (stack left) hMsg]
      simp only [ne_eq, not_true, if_false]
      split
      · exact ⟨-eio, by decide, rfl⟩
      · rename_i noError
        have hStatus : cmd = Cmd.status ∧ payload.length ≠ 1 := by
          by_contra hOther
          exact h ⟨noError, fun hStatus => not_not.mp fun hLen => hOther ⟨hStatus, hLen⟩⟩
        rw [if_pos hStatus.1, if_pos hStatus.2]
        exact ⟨-ebadmsg, by decide, rfl⟩

/-- The message `last` is the first Status COMPLETE from `first` on, and no
message before it ends the exchange. -/
def CompletesAt (first last : Nat) : Prop :=
  first ≤ last ∧ (script.recv last).Completes ∧
    ∀ i, first ≤ i → i < last → (script.recv i).Harmless ∧ ¬(script.recv i).Completes

/-- The messages from `first` up to but excluding `last`. -/
def between (first last : Nat) : List Outcome :=
  (List.range' first (last - first)).map script.recv

theorem between_succ {first last : Nat} (h : first < last) :
    script.between first last = script.recv first :: script.between (first + 1) last := by
  obtain ⟨count, rfl⟩ := Nat.exists_eq_add_of_lt h
  have hCount : first + count + 1 - first = count + 1 := by omega
  have hRest : first + count + 1 - (first + 1) = count := by omega
  rw [between, between, hCount, hRest, List.range'_succ, List.map_cons]

/-- An exchange is completed by one message, because the messages before it must not complete it. -/
theorem completesAt_unique {first last last' : Nat} (h : script.CompletesAt first last)
    (h' : script.CompletesAt first last') : last = last' := by
  rcases Nat.lt_trichotomy last last' with hLt | hEq | hGt
  · exact absurd h.2.1 (h'.2.2 last h.1 hLt).2
  · exact hEq
  · exact absurd h'.2.1 (h.2.2 last' h'.1 hGt).2

/-- A round that goes on does not move the end of the exchange: it is the same message, seen from
one message further. -/
theorem completesAt_succ {first last : Nat} (harmless : (script.recv first).Harmless)
    (incomplete : ¬(script.recv first).Completes) :
    script.CompletesAt first last ↔ script.CompletesAt (first + 1) last := by
  constructor
  · rintro ⟨hFirst, hLast, hBefore⟩
    have hNe : first ≠ last := fun h => incomplete (h ▸ hLast)
    exact ⟨by omega, hLast, fun i hi => hBefore i (by omega)⟩
  · rintro ⟨hFirst, hLast, hBefore⟩
    refine ⟨by omega, hLast, fun i hi hLt => ?_⟩
    rcases Nat.eq_or_lt_of_le hi with rfl | hGt
    · exact ⟨harmless, incomplete⟩
    · exact hBefore i hGt hLt

/-- The loop succeeds exactly if one of the next messages completes the exchange,
the variables then hold what the messages before it told, and nothing is written. -/
theorem run_drainLoop :
    (∀ last, script.CompletesAt p.received last → last < p.received + left →
      ((drainLoop stack sharedKey left out).run script.answer p).1 =
        (0, (script.between p.received last).foldl Outcome.update out)) ∧
    (((drainLoop stack sharedKey left out).run script.answer p).1.1 = 0 →
      ∃ last, script.CompletesAt p.received last ∧ last < p.received + left) ∧
    ((drainLoop stack sharedKey left out).run script.answer p).2.sent = p.sent := by
  induction left generalizing out p with
  | zero =>
      refine ⟨fun last h hLt => absurd h.1 (by omega), fun h => ?_, rfl⟩
      exact absurd h (by decide : -etimedout ≠ 0)
  | succ left ih =>
      by_cases harmless : (script.recv p.received).Harmless
      · by_cases complete : (script.recv p.received).Completes
        · have hAt : script.CompletesAt p.received p.received :=
            ⟨le_rfl, complete, fun i hi hLt => absurd hi (by omega)⟩
          rw [run_drainLoop_completes script stack sharedKey left out p complete]
          refine ⟨fun last h _ => ?_, fun _ => ⟨p.received, hAt, by omega⟩, rfl⟩
          rw [← completesAt_unique script hAt h, between, Nat.sub_self]
          rfl
        · rw [run_drainLoop_continues script stack sharedKey left out p harmless complete]
          obtain ⟨completes, succeeds, sent⟩ := ih ((script.recv p.received).update out) p.next
          refine ⟨fun last h hLt => ?_, fun h => ?_, sent⟩
          · rw [completesAt_succ script harmless complete] at h
            rw [completes last h (by rw [Progress.next_received]; omega), Progress.next_received,
              script.between_succ h.1]
            rfl
          · obtain ⟨last, hAt, hLt⟩ := succeeds h
            refine ⟨last, (completesAt_succ script harmless complete).mpr hAt, ?_⟩
            rw [Progress.next_received] at hLt
            omega
      · obtain ⟨err, nonzero, hRun⟩ :=
          run_drainLoop_stops script stack sharedKey left out p harmless
        rw [hRun]
        refine ⟨fun last h _ => absurd ?_ harmless, fun h => absurd h nonzero, rfl⟩
        rcases Nat.eq_or_lt_of_le h.1 with hEq | hLt
        · exact hEq ▸ h.2.1.harmless
        · exact (h.2.2 _ le_rfl hLt).1

end Drain

/-- The last state that the messages told, if any, and whether there was one. -/
theorem foldl_update (messages : List Outcome) (state : KeyturnerState) (got : Bool) :
    messages.foldl Outcome.update ⟨some state, some got⟩ =
      ⟨some ((messages.filterMap Outcome.state?).getLastD state),
        some (got || !(messages.filterMap Outcome.state?).isEmpty)⟩ := by
  induction messages generalizing state got with
  | nil => simp
  | cons o rest ih =>
      rw [List.foldl_cons, Outcome.update]
      cases hState : o.state? with
      | none =>
          rw [List.filterMap_cons_none hState]
          exact ih state got
      | some told =>
          rw [List.filterMap_cons_some hState, List.getLastD_cons]
          simpa using ih told true

section Challenged

variable (stack : Nat → Received) (nonceStack : Bytes 32) (authId : UInt32)
  (sharedKey : Bytes 32) (cmd : UInt16) (payload : Bytes 32 → List UInt8) (out : Captured)

/-- A command under a challenge: the code that the two motor commands share. -/
def challenged : CommandCode (Int × Captured) := do
  let (err, nonceK) ← requestChallenge (stack 10) authId sharedKey nonceStack
  if err ≠ 0 then return (err, out)
  let err ← CommandCode.lift (sendEncrypted authId sharedKey cmd (payload nonceK))
  if err ≠ 0 then return (err, out)
  drainUntilComplete stack sharedKey out

/-- Before the first call. -/
def start : Progress := ⟨0, [], 0⟩

/-- The progress after the command itself was written. -/
def commanded (nonce : Bytes 32) : Progress where
  drawn := 2
  sent := [script.challengeRequest authId sharedKey start,
    wireMessage (script.rand 1 nukiNonceLen) sharedKey authId cmd (payload nonce)]
  received := 1

/-- With a Challenge at hand the command is written under its nonce, and the drain runs exactly if
this write succeeds. -/
theorem run_challenged_some {nonce : Bytes 32} (h : (payload nonce).length ≤ payloadMaxLen)
    (hNonce : script.challengeAt start = some nonce) :
    (challenged stack nonceStack authId sharedKey cmd payload out).run script.answer start =
      if (script.write 1).result = 0 then
        (drainUntilComplete stack sharedKey out).run script.answer
          (script.commanded authId sharedKey cmd payload nonce)
      else (((script.write 1).result, out), script.commanded authId sharedKey cmd payload nonce) := by
  have hRun := script.run_requestChallenge_some (stack 10) authId sharedKey nonceStack start hNonce
  have hSend : (CommandCode.lift (sendEncrypted authId sharedKey cmd (payload nonce))).run
      script.answer (script.requested authId sharedKey start 1) =
        ((script.write 1).result, script.commanded authId sharedKey cmd payload nonce) :=
    script.run_sendEncrypted authId sharedKey cmd h (script.requested authId sharedKey start 1)
  rw [challenged, Program.bind_eq, Program.run_bind, hRun]
  simp only [ne_eq, not_true, if_false, Program.bind_eq, Program.run_bind, start, Nat.zero_add]
  rw [← start, hSend]
  by_cases hWrite : (script.write 1).result = 0
  · simp only [hWrite, not_true, if_false, if_true]
  · simp only [hWrite, not_false_eq_true, if_true, if_false, Program.pure_eq, Program.run_done]

/-- What both motor commands do over any script: the frames they write, the condition of success,
and the state that was captured. They differ only in their payload. -/
theorem run_challenged (h : ∀ nonce, (payload nonce).length ≤ payloadMaxLen)
    {run : (Int × Captured) × Progress} (hRun : run =
      (challenged stack nonceStack authId sharedKey cmd payload out).run script.answer start) :
    run.2.sent = script.challengeRequest authId sharedKey start ::
        ((script.challengeAt start).map fun nonce =>
          wireMessage (script.rand 1 nukiNonceLen) sharedKey authId cmd (payload nonce)).toList ∧
      (run.1.1 = 0 ↔ (script.challengeAt start).isSome ∧ (script.write 1).result = 0 ∧
        ∃ last, script.CompletesAt 1 last ∧ last ≤ 10) ∧
      (run.1.1 = 0 → ∀ last, script.CompletesAt 1 last →
        run.1.2 = (script.between 1 last).foldl Outcome.update
          { out with gotState := out.gotState.map fun _ => false }) := by
  subst hRun
  cases hChallenge : script.challengeAt start with
  | none =>
      obtain ⟨err, received, nonzero, hRun⟩ := script.run_requestChallenge_none (stack 10) authId
        sharedKey nonceStack start hChallenge
      have hFail : (challenged stack nonceStack authId sharedKey cmd payload out).run
          script.answer start = ((err, out), script.requested authId sharedKey start received) := by
        rw [challenged, Program.bind_eq, Program.run_bind, hRun]
        exact congrArg (fun code => Program.run script.answer code _) (if_pos nonzero)
      rw [hFail]
      refine ⟨rfl, ⟨fun h => absurd h nonzero, fun h => ?_⟩, fun h => absurd h nonzero⟩
      exact absurd h.1 (by decide)
  | some nonce =>
      have hRun := script.run_challenged_some stack nonceStack authId sharedKey cmd payload out
        (h nonce) hChallenge
      by_cases hWrite : (script.write 1).result = 0
      · obtain ⟨completes, succeeds, sent⟩ := script.run_drainLoop stack sharedKey 10
          { out with gotState := out.gotState.map fun _ => false }
          (script.commanded authId sharedKey cmd payload nonce)
        rw [hRun, if_pos hWrite, drainUntilComplete]
        refine ⟨sent, ⟨fun hZero => ?_, fun ⟨_, _, last, hAt, hLast⟩ => ?_⟩,
          fun hZero last hAt => ?_⟩
        · obtain ⟨last, hAt, hLt⟩ := succeeds hZero
          exact ⟨rfl, hWrite, last, hAt, Nat.le_of_lt_succ hLt⟩
        · rw [completes last hAt (Nat.lt_succ_of_le hLast)]
        · obtain ⟨last', hAt', hLt⟩ := succeeds hZero
          obtain rfl := script.completesAt_unique hAt hAt'
          rw [completes last hAt hLt]
          rfl
      · rw [hRun, if_neg hWrite]
        exact ⟨rfl, ⟨fun h => absurd h hWrite, fun h => absurd h.2.1 hWrite⟩,
          fun h => absurd h hWrite⟩

/-- A lock action is such a command. Its payload is the action, the application's id, the flags and
the nonce. -/
theorem nukiCommandLockAction_eq (appId : UInt32) (action : UInt8) :
    nukiCommandLockAction stack nonceStack authId appId sharedKey action out =
      challenged stack nonceStack authId sharedKey Cmd.lockAction
        (fun nonceK => action :: sysPutLe32 appId ++ 0 :: nonceK.val) out := rfl

/-- A calibration is such a command too. Its payload is the nonce and the PIN, and it captures no
state. -/
theorem nukiCommandCalibrate_eq (securityPin : UInt16) :
    nukiCommandCalibrate stack nonceStack authId sharedKey securityPin =
      (challenged stack nonceStack authId sharedKey Cmd.requestCalibration
        (fun nonceK => nonceK.val ++ sysPutLe16 securityPin) ⟨none, none⟩).bind
          fun result => .done result.1 := by
  simp only [nukiCommandCalibrate, challenged, Program.bind_eq, Program.bind_assoc,
    Program.ite_bind, Program.pure_eq, Program.done_bind]

end Challenged

end Script

/-- Whatever the writes and the received messages come to, a motor command is
written at most once, after the request for a Challenge and under the nonce of
the Challenge that answered it. The call succeeds exactly if both writes do and
one of the next ten messages is a Status COMPLETE that no other end of the
exchange precedes. A lock action then reports the last state told before it. -/
theorem motorCommands_challenged (script : Script) (stack : Nat → Received)
    (nonceStack : Bytes 32) (authId appId : UInt32) (sharedKey : Bytes 32) (action : UInt8)
    (securityPin : UInt16) (state : KeyturnerState) (got : Bool) :
    let nonceK := script.challengeAt Script.start
    let message := wireMessage (script.rand 1 nukiNonceLen) sharedKey authId
    let succeeds := nonceK.isSome ∧ (script.write 1).result = 0 ∧
      ∃ last, script.CompletesAt 1 last ∧ last ≤ 10
    let lockAction := (nukiCommandLockAction stack nonceStack authId appId sharedKey action
      ⟨some state, some got⟩).run script.answer Script.start
    let calibrate := (nukiCommandCalibrate stack nonceStack authId sharedKey securityPin).run
      script.answer Script.start
    (lockAction.2.sent = script.challengeRequest authId sharedKey Script.start ::
        (nonceK.map fun nonce => message Cmd.lockAction
          (action :: sysPutLe32 appId ++ 0 :: nonce.val)).toList ∧
      (lockAction.1.1 = 0 ↔ succeeds) ∧
      (lockAction.1.1 = 0 → ∀ last, script.CompletesAt 1 last →
        let told := (script.between 1 last).filterMap Outcome.state?
        (lockAction.1.2.gotState = some true ↔ told ≠ []) ∧
          lockAction.1.2.stateOut = some (told.getLastD state))) ∧
    calibrate.2.sent = script.challengeRequest authId sharedKey Script.start ::
        (nonceK.map fun nonce => message Cmd.requestCalibration
          (nonce.val ++ sysPutLe16 securityPin)).toList ∧
      (calibrate.1 = 0 ↔ succeeds) := by
  intro nonceK message succeeds lockAction calibrate
  have hRunLock : lockAction = (Script.challenged stack nonceStack authId sharedKey
      Cmd.lockAction (fun nonce => action :: sysPutLe32 appId ++ 0 :: nonce.val)
      ⟨some state, some got⟩).run script.answer Script.start := by
    rw [← Script.nukiCommandLockAction_eq]
  have hLock := script.run_challenged stack nonceStack authId sharedKey Cmd.lockAction
    (fun nonce => action :: sysPutLe32 appId ++ 0 :: nonce.val) ⟨some state, some got⟩
    (fun nonce => by simp [payloadMaxLen]) hRunLock
  obtain ⟨run, hRun⟩ : ∃ run, run = (Script.challenged stack nonceStack authId sharedKey
      Cmd.requestCalibration (fun nonce => nonce.val ++ sysPutLe16 securityPin)
      ⟨none, none⟩).run script.answer Script.start := ⟨_, rfl⟩
  have hCalibrate := script.run_challenged stack nonceStack authId sharedKey
    Cmd.requestCalibration (fun nonce => nonce.val ++ sysPutLe16 securityPin) ⟨none, none⟩
    (fun nonce => by simp [payloadMaxLen]) hRun
  have hResult : calibrate = (run.1.1, run.2) := by
    simp only [calibrate, Script.nukiCommandCalibrate_eq, Program.run_bind, Program.run_done, hRun]
  obtain ⟨lockSent, lockZero, lockState⟩ := hLock
  obtain ⟨calibrateSent, calibrateZero, -⟩ := hCalibrate
  refine ⟨⟨lockSent, lockZero, fun hZero last hAt => ?_⟩, ?_, ?_⟩
  · have hState := lockState hZero last hAt
    simp only [Option.map_some, Script.foldl_update, Bool.false_or] at hState
    rw [hState]
    simp
  · rw [hResult]
    exact calibrateSent
  · rw [hResult]
    exact calibrateZero

end NukiBridge

import NukiBridge.Command.Script
import NukiBridge.Command.Sealed
import NukiBridge.Interaction.Trace

/-! The commands with the code of `recv_encrypted` in place, over a transport that answers as
it likes. A message that is handed out was read from the transport, and each trace of a motor
command is a run of it against a script; so what holds for all scripts holds for the code. -/
namespace NukiBridge

open Buffer Interaction Crypto

section Link

variable {α β : Type}

/-- Linking in a sequence. -/
theorem link_bind (code : CommandCode α) (more : α → CommandCode β) :
    CommandCode.link (code.bind more) = code.link.bind fun result => (more result).link :=
  Program.inline_bind _ code more

/-- Lifted code comes back when it is linked. -/
theorem link_lift (code : Code α) : (CommandCode.lift code).link = code := by
  induction code with
  | done result => rfl
  | call c next ih =>
      change Program.call c _ = Program.call c next
      congr 1
      funext answer
      exact ih answer

/-- The call that a command makes stands for the code of `recv_encrypted`. -/
theorem link_recvMessage (sharedKey : Bytes 32) (out : Received) :
    (recvMessage sharedKey out).link = recvEncrypted sharedKey out maxPlaintext :=
  Program.bind_done _

end Link

/-- What was read from a transport: a relation between lengths and bytes. -/
abbrev Reads := (len : Nat) → Bytes len → Prop

/-- The nonce is at the start of the header that is taken out first, so the later reading of the
whole message agrees with it. -/
theorem nonce_inside : 0 + 24 ≤ adataHdrLen := by decide

/-- A message under the key is among what was read. Its header is read first. -/
def ReadMessage (sharedKey : Bytes 32) (reads : Reads) (cmd : UInt16) (payload : List UInt8) :
    Prop :=
  ∃ (header : Bytes adataHdrLen) (len : Nat) (wire : Bytes len) (authId : UInt32),
    reads adataHdrLen header ∧ reads len wire ∧
      wire.val.drop adataHdrLen =
        secretbox (header.slice 0 24 nonce_inside) sharedKey (authFrame authId cmd payload)

/-- What was read in a part of the trace was read in the trace. -/
theorem ReadMessage.mono {sharedKey : Bytes 32} {reads reads' : Reads} {cmd : UInt16}
    {payload : List UInt8} (h : ReadMessage sharedKey reads cmd payload)
    (more : ∀ len bytes, reads len bytes → reads' len bytes) :
    ReadMessage sharedKey reads' cmd payload := by
  obtain ⟨header, len, wire, authId, hHeader, hWire, hSealed⟩ := h
  exact ⟨header, len, wire, authId, more _ _ hHeader, more _ _ hWire, hSealed⟩

abbrev CallExchange := Exchange Call Call.Answer

/-- What a trace of code over one transport read. -/
def peeked (trace : List CallExchange) : Reads := fun len bytes => ⟨.peek len, bytes⟩ ∈ trace

theorem peeked_subset {trace trace' : List CallExchange} (h : trace ⊆ trace') (len : Nat)
    (bytes : Bytes len) (hRead : peeked trace len bytes) : peeked trace' len bytes :=
  h hRead

/-- Code that returns 0 where it returns `err`: the early return was taken only for an error. -/
theorem zero_of_done {Op : Type} {Res : Op → Type} {α : Type} {err : Int} {out out' : α}
    {trace : List (Exchange Op Res)}
    (h : (Program.done (err, out) : Program Op Res (Int × α)).Traces trace (0, out')) : err = 0 :=
  (congrArg Prod.fst h.of_done.2).symm

/-- A message that `recv_encrypted` hands out was read, and it fits. -/
theorem traces_recvEncrypted {sharedKey : Bytes 32} {out got : Received}
    {trace : List CallExchange}
    (h : (recvEncrypted sharedKey out maxPlaintext).Traces trace (0, got)) :
    ∃ cmd payload, ReadMessage sharedKey (peeked trace) cmd payload ∧
      payload.length ≤ maxPlaintext ∧
        got = ⟨cmd, memcpy out.payload 0 payload, payload.length⟩ := by
  obtain ⟨err, afterErr, rfl, hWaited⟩ := h.of_perform
  split at hWaited
  · rename_i hErr
    exact absurd (zero_of_done hWaited) hErr
  obtain ⟨header, afterHeader, rfl, hHeader⟩ := hWaited.of_perform
  dsimp only at hHeader
  split at hHeader
  · obtain ⟨_, _, rfl, hLogged⟩ := hHeader.of_perform
    obtain ⟨_, _, rfl, hReset⟩ := hLogged.of_perform
    exact absurd (zero_of_done hReset) (by decide)
  rename_i hPlausible
  rw [not_or, Nat.not_lt, Nat.not_lt] at hPlausible
  obtain ⟨err, afterErr, rfl, hComplete⟩ := hHeader.of_perform
  split at hComplete
  · rename_i hErr
    exact absurd (zero_of_done hComplete) hErr
  obtain ⟨wire, afterWire, rfl, hWire⟩ := hComplete.of_perform
  obtain ⟨_, afterReset, rfl, hOpen⟩ := hWire.of_perform
  have hMax : (sysGetLe16 (header.val.drop 28)).toNat - nukiTagLen ≤ maxPlaintext := by omega
  have hWireLen : (wire.val.drop adataHdrLen).length =
      16 + ((sysGetLe16 (header.val.drop 28)).toNat - nukiTagLen) := by
    rw [List.length_drop, Bytes.length]
    simp only [adataHdrLen, nukiTagLen] at hPlausible ⊢
    omega
  rcases openReceived_cases sharedKey out _ wire.val hMax hWireLen with
    ⟨authId, cmd, payload, hSealed, hPayload, hDone⟩ | ⟨_, err, text, hErr, hLogged⟩
  · rw [hDone] at hOpen
    refine ⟨cmd, payload, ⟨header, _, wire, authId, ?_, ?_, hSealed⟩, hPayload,
      congrArg Prod.snd hOpen.of_done.2⟩
    · exact List.mem_cons_of_mem _ List.mem_cons_self
    · exact .tail _ (.tail _ (.tail _ (.head _)))
  · rw [hLogged] at hOpen
    obtain ⟨_, _, rfl, hReturn⟩ := hOpen.of_call
    exact absurd (zero_of_done hReturn) hErr

/-- Whatever the transport answers, `recv_encrypted` has one of the outcomes of a script, and a
message among these was read from the transport. -/
theorem recvEncrypted_outcome {sharedKey : Bytes 32} {out : Received} {result : Int × Received}
    {trace : List CallExchange}
    (h : (recvEncrypted sharedKey out maxPlaintext).Traces trace result) :
    ∃ o : Outcome, result = o.found out ∧ ∀ cmd payload fits, o = .message cmd payload fits →
      ReadMessage sharedKey (peeked trace) cmd payload := by
  obtain ⟨err, got⟩ := result
  by_cases hErr : err = 0
  · subst hErr
    obtain ⟨cmd, payload, hRead, hFits, rfl⟩ := traces_recvEncrypted h
    refine ⟨.message cmd payload hFits, rfl, ?_⟩
    intro cmd' payload' _ hSame
    cases hSame
    exact hRead
  · exact ⟨.error err hErr got, rfl, fun _ _ _ hSame => by cases hSame⟩

/-- What a trace writes. -/
def writes (trace : List CallExchange) : List (List UInt8) :=
  trace.filterMap fun
    | ⟨.btGattWrite data, _⟩ => some data
    | _ => none

theorem writes_append (trace trace' : List CallExchange) :
    writes (trace ++ trace') = writes trace ++ writes trace' :=
  List.filterMap_append

/-- A call that writes nothing. -/
def Call.Unwritten : Call → Prop
  | .btGattWrite _ => False
  | _ => True

/-- Code that cannot write has no write in any trace. -/
theorem writes_of_unwritten {α : Type} {code : Code α} {trace : List CallExchange} {result : α}
    (h : code.Traces trace result) (unwritten : code.Makes Call.Unwritten) :
    writes trace = [] := by
  apply List.filterMap_eq_nil_iff.mpr
  intro e he
  have hCall := h.makes unwritten e he
  obtain ⟨c, answer⟩ := e
  cases c with
  | btGattWrite data => exact hCall.elim
  | _ => rfl

/-- Receiving writes nothing, so all writes of a command are its own messages. -/
theorem writes_recvEncrypted {sharedKey : Bytes 32} {out : Received} {result : Int × Received}
    {trace : List CallExchange}
    (h : (recvEncrypted sharedKey out maxPlaintext).Traces trace result) : writes trace = [] :=
  writes_of_unwritten h
    (makes_recvEncrypted (fun _ _ => trivial) (fun _ => trivial) trivial (fun _ _ => trivial) _ _ _)

/-- A write is made whatever comes of it, and its result is that of an outcome. -/
theorem traces_nukiTransportWrite {data : List UInt8} {result : Int} {trace : List CallExchange}
    (h : (nukiTransportWrite data).Traces trace result) :
    ∃ w : WriteOutcome, result = w.result ∧ writes trace = [data] := by
  obtain ⟨_, _, rfl, hReset⟩ := h.of_perform
  obtain ⟨gatt, _, rfl, hGatt⟩ := hReset.of_perform
  split at hGatt
  · rename_i hErr
    obtain ⟨rfl, hResult⟩ := hGatt.of_done
    exact ⟨⟨gatt, 0, 0⟩, hResult.trans (if_pos hErr).symm, rfl⟩
  · rename_i hWritten
    obtain ⟨taken, _, rfl, hTaken⟩ := hGatt.of_perform
    split at hTaken
    · rename_i hErr
      obtain ⟨rfl, rfl⟩ := hTaken.of_done
      exact ⟨⟨gatt, taken, 0⟩, ((if_neg hWritten).trans (if_pos hErr)).symm, rfl⟩
    · rename_i hAcknowledged
      obtain ⟨err, _, rfl, hErr⟩ := hTaken.of_perform
      obtain ⟨rfl, rfl⟩ := hErr.of_done
      exact ⟨⟨gatt, taken, err⟩, ((if_neg hWritten).trans (if_neg hAcknowledged)).symm, rfl⟩

namespace Script

/-- What is left of a script when so much of it has been played. -/
def after (script : Script) (p : Progress) : Script where
  rand := fun i => script.rand (p.drawn + i)
  write := fun i => script.write (p.sent.length + i)
  recv := fun i => script.recv (p.received + i)
  other := script.other

/-- The script with one more message to be sent first. -/
def sending (nonce : Bytes nukiNonceLen) (w : WriteOutcome) (script : Script) : Script where
  rand
    | 0 => fun len => .ofList len nonce.val
    | i + 1 => script.rand i
  write
    | 0 => w
    | i + 1 => script.write i
  recv := script.recv
  other := script.other

/-- The script with one more outcome of `recv_encrypted` first. -/
def receiving (o : Outcome) (script : Script) : Script where
  rand := script.rand
  write := script.write
  recv
    | 0 => o
    | i + 1 => script.recv i
  other := script.other

/-- Before the first call the whole script is still to be played. -/
theorem after_start (script : Script) : script.after start = script := by
  simp [after, start]

/-- Against what is left of a script, the code returns this and writes these messages. -/
def Plays {α : Type} (script : Script) (code : CommandCode α) (result : α)
    (sent : List (List UInt8)) : Prop :=
  ∀ whole p, Script.after whole p = script →
    (code.run whole.answer p).1 = result ∧ (code.run whole.answer p).2.sent = p.sent ++ sent

section Plays

variable {α : Type} {script : Script} {result : α} {sent : List (List UInt8)}

theorem plays_done : Plays script (.done result) result [] :=
  fun _ p _ => ⟨rfl, (List.append_nil p.sent).symm⟩

theorem plays_log {text : String} {args : List Int} {more : Unit → CommandCode α}
    (h : Plays script (more ()) result sent) :
    Plays script ((logErr text args).bind more) result sent :=
  h

/-- The next outcome is that of the message that is received. -/
theorem plays_recv {sharedKey : Bytes 32} {out : Received} {o : Outcome}
    {more : Int × Received → CommandCode α} (h : Plays script (more (o.found out)) result sent) :
    Plays (script.receiving o) ((recvMessage sharedKey out).bind more) result sent := by
  intro whole p hWhole
  have hOutcome : whole.recv p.received = o := congrFun (congrArg Script.recv hWhole) 0
  have hRest : whole.after p.next = script := by
    obtain ⟨rand, write, recv, other⟩ := script
    have hRecv (i : Nat) : whole.recv (p.received + 1 + i) = recv i := by
      rw [Nat.add_assoc, Nat.add_comm 1]
      exact congrFun (congrArg Script.recv hWhole) (i + 1)
    rw [after, Script.mk.injEq]
    exact ⟨congrArg Script.rand hWhole, congrArg Script.write hWhole, funext hRecv,
      congrArg Script.other hWhole⟩
  rw [Program.run_bind, run_recvMessage, hOutcome]
  exact h whole p.next hRest

/-- The next nonce is drawn for the message that is sent, and the next write is its. -/
theorem plays_send {authId : UInt32} {sharedKey : Bytes 32} {cmd : UInt16}
    {payload : List UInt8} {nonce : Bytes nukiNonceLen} {w : WriteOutcome}
    {more : Int → CommandCode α} (fits : payload.length ≤ payloadMaxLen)
    (h : Plays script (more w.result) result sent) :
    Plays (script.sending nonce w)
      ((CommandCode.lift (sendEncrypted authId sharedKey cmd payload)).bind more) result
      (wireMessage nonce sharedKey authId cmd payload :: sent) := by
  intro whole p hWhole
  have hNonce : whole.rand p.drawn nukiNonceLen = nonce := by
    have hDrawn := congrFun (congrFun (congrArg Script.rand hWhole) 0) nukiNonceLen
    exact hDrawn.trans (Bytes.ofList_self nonce)
  have hOutcome : whole.write p.sent.length = w := congrFun (congrArg Script.write hWhole) 0
  rw [Program.run_bind, run_sendEncrypted whole authId sharedKey cmd fits, hNonce, hOutcome]
  have hRest : whole.after { p with
      drawn := p.drawn + 1
      sent := p.sent ++ [wireMessage nonce sharedKey authId cmd payload] } = script := by
    obtain ⟨rand, write, recv, other⟩ := script
    have hRand (i : Nat) : whole.rand (p.drawn + 1 + i) = rand i := by
      rw [Nat.add_assoc, Nat.add_comm 1]
      exact congrFun (congrArg Script.rand hWhole) (i + 1)
    have hWrite (i : Nat) : whole.write (p.sent.length + 1 + i) = write i := by
      rw [Nat.add_assoc, Nat.add_comm 1]
      exact congrFun (congrArg Script.write hWhole) (i + 1)
    rw [after, Script.mk.injEq, List.length_append]
    exact ⟨funext hRand, funext hWrite, congrArg Script.recv hWhole, congrArg Script.other hWhole⟩
  obtain ⟨hResult, hSent⟩ := h whole _ hRest
  exact ⟨hResult, hSent.trans (List.append_assoc _ _ _)⟩

end Plays
end Script

/-- The messages of the script were read in this trace. -/
def Script.ReadIn (script : Script) (sharedKey : Bytes 32) (trace : List CallExchange) : Prop :=
  ∀ i cmd payload fits, script.recv i = .message cmd payload fits →
    ReadMessage sharedKey (peeked trace) cmd payload

/-- A script after whose messages nothing more is received. -/
def Script.silent : Script where
  rand := fun _ _ => default
  write := fun _ => ⟨0, 0, 0⟩
  recv := fun _ => .error (-eagain) (by decide) ⟨0, [], 0⟩
  other := fun _ => default

/-- Each trace of the linked code is a run of the code against a script, whose messages it
reads and whose nonces it draws. -/
def CommandCode.Scripted {α : Type} (sharedKey : Bytes 32) (code : CommandCode α) : Prop :=
  ∀ trace result, code.link.Traces trace result → ∃ script : Script,
    script.Plays code result (writes trace) ∧ script.ReadIn sharedKey trace

section Scripted

variable {α : Type} {sharedKey : Bytes 32}

/-- A script whose messages were read in a part of a trace was read in all of it. -/
theorem readIn_subset {script : Script} {trace trace' : List CallExchange}
    (h : script.ReadIn sharedKey trace) (more : trace ⊆ trace') :
    script.ReadIn sharedKey trace' :=
  fun i cmd payload fits hRecv => (h i cmd payload fits hRecv).mono (peeked_subset more)

theorem scripted_done (result : α) : CommandCode.Scripted sharedKey (.done result) := by
  intro trace result' h
  obtain ⟨rfl, rfl⟩ := h.of_done
  exact ⟨.silent, Script.plays_done, fun _ _ _ _ hRecv => by cases hRecv⟩

theorem scripted_ite {c : Prop} [Decidable c] {code code' : CommandCode α}
    (first : code.Scripted sharedKey) (second : code'.Scripted sharedKey) :
    CommandCode.Scripted sharedKey (if c then code else code') := by
  split
  · exact first
  · exact second

theorem scripted_log {text : String} {args : List Int} {more : Unit → CommandCode α}
    (rest : (more ()).Scripted sharedKey) :
    CommandCode.Scripted sharedKey ((logErr text args).bind more) := by
  intro trace result h
  obtain ⟨_, last, rfl, hLast⟩ := h.of_call
  obtain ⟨script, hPlays, hRead⟩ := rest last result hLast
  exact ⟨script, Script.plays_log hPlays, readIn_subset hRead (List.subset_cons_self _ _)⟩

/-- A message that was received, whatever its outcome, is put in front of the script of the rest. -/
theorem scripted_recv {out : Received} {more : Int × Received → CommandCode α}
    (rest : ∀ got, (more got).Scripted sharedKey) :
    CommandCode.Scripted sharedKey ((recvMessage sharedKey out).bind more) := by
  intro trace result h
  rw [link_bind, link_recvMessage] at h
  obtain ⟨first, last, got, rfl, hReceived, hRest⟩ := Program.Traces.of_bind h
  obtain ⟨o, rfl, hMessage⟩ := recvEncrypted_outcome hReceived
  obtain ⟨script, hPlays, hRead⟩ := rest _ last result hRest
  rw [writes_append, writes_recvEncrypted hReceived]
  refine ⟨script.receiving o, Script.plays_recv hPlays, ?_⟩
  intro i cmd payload fits hRecv
  cases i with
  | zero =>
      apply (hMessage cmd payload fits hRecv).mono
      exact peeked_subset (List.subset_append_left _ _)
  | succ i => exact readIn_subset hRead (List.subset_append_right _ _) i cmd payload fits hRecv

/-- So is a write, with the nonce that was drawn for it. -/
theorem scripted_send {authId : UInt32} {cmd : UInt16} {payload : List UInt8}
    {more : Int → CommandCode α} (fits : payload.length ≤ payloadMaxLen)
    (rest : ∀ err, (more err).Scripted sharedKey) :
    CommandCode.Scripted sharedKey
      ((CommandCode.lift (sendEncrypted authId sharedKey cmd payload)).bind more) := by
  intro trace result h
  rw [link_bind, link_lift, sendEncrypted_eq authId sharedKey cmd fits, Program.bind_assoc] at h
  obtain ⟨nonce, drawn, rfl, hDrawn⟩ := h.of_perform
  obtain ⟨written, last, err, rfl, hWritten, hRest⟩ := Program.Traces.of_bind hDrawn
  obtain ⟨w, rfl, hWrites⟩ := traces_nukiTransportWrite hWritten
  obtain ⟨script, hPlays, hRead⟩ := rest _ last result hRest
  have hSent : writes (⟨.sysRandGet nukiNonceLen, nonce⟩ :: (written ++ last)) =
      wireMessage nonce sharedKey authId cmd payload :: writes last := by
    show writes (written ++ last) = _
    rw [writes_append, hWrites]
    rfl
  rw [hSent]
  refine ⟨script.sending nonce w, Script.plays_send fits hPlays, ?_⟩
  apply readIn_subset hRead
  exact fun e he => List.mem_cons_of_mem _ (List.mem_append_right _ he)

/-- The request for the Challenge is put together from these steps. -/
theorem scripted_requestChallenge {stack : Received} {authId : UInt32} {nonceK : Bytes 32}
    {more : Int × Bytes 32 → CommandCode α} (rest : ∀ result, (more result).Scripted sharedKey) :
    CommandCode.Scripted sharedKey
      ((requestChallenge stack authId sharedKey nonceK).bind more) := by
  simp only [requestChallenge, Program.bind_eq, Program.bind_assoc, Program.ite_bind,
    Program.pure_eq, Program.done_bind]
  refine scripted_send (by decide) fun err => scripted_ite (rest _) ?_
  refine scripted_recv fun got => ?_
  exact scripted_ite (rest _) (scripted_ite (scripted_log (rest _)) (rest _))

/-- So is the drain: by induction on its rounds, each of which receives one message. -/
theorem scripted_drainLoop {stack : Nat → Received} {left : Nat} {out : Captured}
    {more : Int × Captured → CommandCode α} (rest : ∀ result, (more result).Scripted sharedKey) :
    CommandCode.Scripted sharedKey ((drainLoop stack sharedKey left out).bind more) := by
  induction left generalizing out with
  | zero => exact scripted_log (rest _)
  | succ left ih =>
      simp only [drainLoop, Program.bind_eq, Program.bind_assoc, Program.ite_bind,
        Program.pure_eq, Program.done_bind]
      refine scripted_recv fun got => ?_
      refine scripted_ite (rest _) (scripted_ite (scripted_log (rest _)) ?_)
      exact scripted_ite (scripted_ite (rest _) (scripted_ite (rest _) ih)) ih

/-- So is a whole motor command. -/
theorem scripted_challenged {stack : Nat → Received} {nonceStack : Bytes 32} {authId : UInt32}
    {cmd : UInt16} {payload : Bytes 32 → List UInt8} {out : Captured}
    (fits : ∀ nonceK, (payload nonceK).length ≤ payloadMaxLen) :
    CommandCode.Scripted sharedKey
      (Script.challenged stack nonceStack authId sharedKey cmd payload out) := by
  refine scripted_requestChallenge fun challenge => scripted_ite (scripted_done _) ?_
  refine scripted_send (fits _) fun err => scripted_ite (scripted_done _) ?_
  have hDrain (left : Nat) (out : Captured) : CommandCode.Scripted sharedKey
      ((drainLoop stack sharedKey left out).bind .done) := scripted_drainLoop scripted_done
  simp only [Program.bind_done] at hDrain
  exact hDrain 10 _

/-- What a motor command comes to in a trace of its code, as a script tells it. -/
structure Script.Explains (script : Script) (authId : UInt32) (sharedKey : Bytes 32)
    (cmd : UInt16) (payload : Bytes 32 → List UInt8) (trace : List CallExchange) (err : Int) :
    Prop where
  read : script.ReadIn sharedKey trace
  written : writes trace = script.challengeRequest authId sharedKey Script.start ::
    ((script.challengeAt Script.start).map fun nonce =>
      wireMessage (script.rand 1 nukiNonceLen) sharedKey authId cmd (payload nonce)).toList
  success : err = 0 ↔ (script.challengeAt Script.start).isSome ∧ (script.write 1).result = 0 ∧
    ∃ last, script.CompletesAt 1 last ∧ last ≤ 10

/-- For each trace of a motor command over the linked code there is a script that it plays, with the
same result and the same writes. -/
theorem explains_challenged {stack : Nat → Received} {nonceStack : Bytes 32} {authId : UInt32}
    {cmd : UInt16} {payload : Bytes 32 → List UInt8} {out : Captured} {trace : List CallExchange}
    {result : Int × Captured} (fits : ∀ nonceK, (payload nonceK).length ≤ payloadMaxLen)
    (h : (Script.challenged stack nonceStack authId sharedKey cmd payload out).link.Traces trace
      result) :
    ∃ script : Script, script.Explains authId sharedKey cmd payload trace result.1 := by
  obtain ⟨script, hPlays, hRead⟩ := scripted_challenged fits trace result h
  obtain ⟨hResult, hSent⟩ := hPlays script Script.start (Script.after_start script)
  obtain ⟨hWritten, hZero, -⟩ :=
    script.run_challenged stack nonceStack authId sharedKey cmd payload out fits rfl
  rw [hResult] at hZero
  exact ⟨script, hRead, hSent.symm.trans hWritten, hZero⟩

/-- The motor commands with the code of `recv_encrypted` in place, in any of their traces: the
request for a Challenge is written, and at most one command after it, under the nonce of a
Challenge that was read from the transport in the same call; and 0 is returned exactly if both
writes succeed and one of the next ten messages that are read completes the exchange. -/
theorem motorCommands_linked (stack : Nat → Received) (nonceStack : Bytes 32)
    (authId appId : UInt32) (action : UInt8) (securityPin : UInt16) (out : Captured) :
    (∀ trace result, (nukiCommandLockAction stack nonceStack authId appId sharedKey action
        out).link.Traces trace result →
      ∃ script : Script, script.Explains authId sharedKey Cmd.lockAction
        (fun nonce => action :: sysPutLe32 appId ++ 0 :: nonce.val) trace result.1) ∧
      ∀ trace err, (nukiCommandCalibrate stack nonceStack authId sharedKey
          securityPin).link.Traces trace err →
        ∃ script : Script, script.Explains authId sharedKey Cmd.requestCalibration
          (fun nonce => nonce.val ++ sysPutLe16 securityPin) trace err := by
  constructor
  · intro trace result h
    exact explains_challenged (fun nonce => by simp [payloadMaxLen]) h
  · intro trace err h
    rw [Script.nukiCommandCalibrate_eq, link_bind] at h
    obtain ⟨first, last, result, rfl, hFirst, hLast⟩ := Program.Traces.of_bind h
    obtain ⟨rfl, rfl⟩ := hLast.of_done
    rw [List.append_nil]
    exact explains_challenged (fun nonce => by simp [payloadMaxLen]) hFirst

end Scripted
end NukiBridge

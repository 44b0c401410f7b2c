import NukiBridge.App.Attempt
import NukiBridge.App.Heard
import NukiBridge.Command.Receive
import NukiBridge.Command.Script

/-! What the operations over USDIO can come to when the lock plays along: any message that
fits can be received, a state is fetched, and a lock action succeeds although the lock has
told no state in the course of it. -/
namespace NukiBridge

open Buffer Interaction Crypto Typestate

/-- One answer and the way on from it, when a run is put together in which everything succeeds. -/
theorem yields_step {α : Type} {c : Call} {more : c.Answer → Code α} {result : α}
    (answer : c.Answer) (rest : (more answer).Yields result) :
    ((Code.of c).bind more).Yields result :=
  .call answer rest

/-- Any message that fits can be received: there are bytes that the transport may hold for which it
is what comes out. -/
theorem yields_recvEncrypted (sharedKey : Bytes 32) (out : Received) (cmd : UInt16)
    {payload : List UInt8} (fits : 8 + payload.length ≤ maxPlaintext) :
    (recvEncrypted sharedKey out maxPlaintext).Yields
      (0, ⟨cmd, memcpy out.payload 0 payload, payload.length⟩) := by
  let sealed := secretbox default sharedKey (authFrame 0 cmd payload)
  have hSealed : sealed.length = 16 + (8 + payload.length) := by
    rw [length_secretbox, length_authFrame]
    omega
  let header : Bytes adataHdrLen :=
    ⟨List.replicate 28 0 ++ sysPutLe16 (UInt16.ofNat sealed.length), by simp [adataHdrLen]⟩
  have hField : (sysGetLe16 (header.val.drop 28)).toNat = sealed.length := by
    have hDrop : header.val.drop 28 = sysPutLe16 (UInt16.ofNat sealed.length) ++ [] := by
      rw [List.append_nil]
      exact List.drop_left' List.length_replicate
    rw [hDrop, sysGetLe16_sysPutLe16, UInt16.toNat_ofNat']
    apply Nat.mod_eq_of_lt
    rw [hSealed]
    simp only [maxPlaintext] at fits
    omega
  have hNonce : header.slice 0 24 (by decide) = (default : Bytes 24) := by
    apply Subtype.ext
    rfl
  have hOpen (wire : List UInt8) (h : wire.drop adataHdrLen = sealed) :
      openReceived sharedKey out maxPlaintext default wire (8 + payload.length) =
        .done (0, ⟨cmd, memcpy out.payload 0 payload, payload.length⟩) := by
    rcases openReceived_cases sharedKey out default wire fits (h ▸ hSealed) with
      ⟨authId', cmd', payload', hOther, -, hDone⟩ | ⟨hNone, -⟩
    · obtain ⟨rfl, rfl⟩ := authFrame_inj (secretbox_injective _ _ (hOther.symm.trans h))
      exact hDone
    · exact absurd h (hNone 0 cmd payload)
  have hPlausible : ¬((sysGetLe16 (header.val.drop 28)).toNat < nukiTagLen ∨
      (sysGetLe16 (header.val.drop 28)).toNat > nukiTagLen + maxPlaintext) := by
    rw [hField, hSealed, nukiTagLen]
    omega
  let wire : Bytes (adataHdrLen + (sysGetLe16 (header.val.drop 28)).toNat) :=
    ⟨header.val ++ sealed, by rw [List.length_append, header.length, hField]⟩
  have hPlain : (sysGetLe16 (header.val.drop 28)).toNat - nukiTagLen = 8 + payload.length := by
    rw [hField, hSealed, nukiTagLen]
    omega
  apply yields_step (0 : Int)
  rw [if_neg (not_not.mpr rfl)]
  apply yields_step header
  dsimp only
  rw [if_neg hPlausible]
  apply yields_step (0 : Int)
  rw [if_neg (not_not.mpr rfl)]
  apply yields_step wire
  apply yields_step ()
  rw [hNonce, hPlain, hOpen _ (List.drop_left' header.length)]
  exact .done _

/-- A write succeeds when the host accepts it, the callback comes in time, and it reports no
error. -/
theorem yields_nukiTransportWrite (data : List UInt8) : (nukiTransportWrite data).Yields 0 := by
  apply yields_step ()
  apply yields_step (0 : Int)
  rw [if_neg (not_not.mpr rfl)]
  apply yields_step (0 : Int)
  rw [if_neg (not_not.mpr rfl)]
  apply yields_step (0 : UInt8)
  exact .done 0

/-- A message is sent when its write succeeds, whichever nonce was drawn. -/
theorem yields_sendEncrypted (authId : UInt32) (sharedKey : Bytes 32) (cmd : UInt16)
    {payload : List UInt8} (h : payload.length ≤ payloadMaxLen) :
    (sendEncrypted authId sharedKey cmd payload).Yields 0 := by
  rw [sendEncrypted_eq authId sharedKey cmd h]
  exact .call default (yields_nukiTransportWrite _)

section Link

variable {α β : Type}

/-- A command goes on after what its first part can return. -/
theorem yields_link {code : CommandCode α} {more : α → CommandCode β} {middle : α} {result : β}
    (first : code.link.Yields middle) (rest : (more middle).link.Yields result) :
    (CommandCode.link (code.bind more)).Yields result := by
  rw [link_bind]
  exact first.bind rest

end Link

/-- The lock may answer with any state: there are bytes on USDIO for which the command returns
exactly this one. -/
theorem yields_nukiCommandGetState (stack : Received) (authId : UInt32) (sharedKey : Bytes 32)
    (before : KeyturnerState) {payload : List UInt8} (long : 13 ≤ payload.length)
    (fits : 8 + payload.length ≤ maxPlaintext) :
    (nukiCommandGetState stack authId sharedKey before).link.Yields (0, .ofPayload payload) := by
  have hSend := yields_sendEncrypted authId sharedKey Cmd.requestData
    (by decide : (sysPutLe16 Cmd.keyturnerStates).length ≤ payloadMaxLen)
  have hReceive := yields_recvEncrypted sharedKey stack Cmd.keyturnerStates fits
  rw [← link_lift (sendEncrypted _ _ _ _)] at hSend
  rw [← link_recvMessage] at hReceive
  apply yields_link hSend
  rw [if_neg (by decide)]
  apply yields_link hReceive
  dsimp only
  rw [if_neg (by decide), if_neg (by decide), memcpy_zero, nukiKeyturnerStateParse_eq, if_pos long]
  exact .done _

/-- And with any Challenge. -/
theorem yields_requestChallenge (stack : Received) (authId : UInt32) (sharedKey nonceK : Bytes 32)
    (nonce : Bytes 32) :
    (requestChallenge stack authId sharedKey nonceK).link.Yields (0, nonce) := by
  have hSend := yields_sendEncrypted authId sharedKey Cmd.requestData
    (by decide : (sysPutLe16 Cmd.challenge).length ≤ payloadMaxLen)
  have hFits : 8 + nonce.val.length ≤ maxPlaintext := by
    rw [nonce.length]
    decide
  have hReceive := yields_recvEncrypted sharedKey stack Cmd.challenge hFits
  rw [← link_lift (sendEncrypted _ _ _ _)] at hSend
  rw [← link_recvMessage] at hReceive
  have hNonce : Bytes.ofList 32 (memcpy stack.payload 0 nonce.val) = nonce := by
    have hTake := take_memcpy_zero stack.payload nonce.val
    rw [nonce.length] at hTake
    have hLong : 32 ≤ (memcpy stack.payload 0 nonce.val).length := by
      rw [memcpy_zero, List.length_append, nonce.length]
      exact Nat.le_add_right _ _
    exact Subtype.ext ((Bytes.ofList_val hLong).trans hTake)
  apply yields_link hSend
  rw [if_neg (by decide)]
  apply yields_link hReceive
  dsimp only
  rw [if_neg (by decide), if_neg, hNonce]
  · exact .done _
  · simp

/-- The lock may report COMPLETE right away, and then the command succeeds without a state. -/
theorem yields_nukiCommandLockAction (stack : Nat → Received) (nonceStack : Bytes 32)
    (authId appId : UInt32) (sharedKey : Bytes 32) (action : UInt8) (out : Captured) :
    (nukiCommandLockAction stack nonceStack authId appId sharedKey action out).link.Yields
      (0, { out with gotState := out.gotState.map fun _ => false }) := by
  have hChallenge := yields_requestChallenge (stack 10) authId sharedKey nonceStack default
  have hSend := yields_sendEncrypted authId sharedKey Cmd.lockAction
    (by simp [payloadMaxLen] :
      (action :: sysPutLe32 appId ++ 0 :: (default : Bytes 32).val).length ≤ payloadMaxLen)
  have hReceive := yields_recvEncrypted sharedKey (stack 9) Cmd.status
    (by decide : 8 + [statusComplete].length ≤ maxPlaintext)
  rw [← link_lift (sendEncrypted _ _ _ _)] at hSend
  rw [← link_recvMessage] at hReceive
  apply yields_link hChallenge
  dsimp only
  rw [if_neg (not_not.mpr rfl)]
  apply yields_link hSend
  rw [if_neg (not_not.mpr rfl)]
  apply yields_link hReceive
  dsimp only
  rw [if_neg (not_not.mpr rfl), if_neg (by decide), if_pos rfl, if_neg (by decide), if_pos]
  · exact .done _
  · rw [memcpy_zero]
    rfl

theorem yields_appStep {α : Type} {op : AppOp} {more : op.Answer → AppCode α} {result : α}
    (answer : op.Answer) (rest : (more answer).Yields result) :
    ((AppCode.of op).bind more).Yields result :=
  .call answer rest

/-- The lock is found, connected and discovered, so that connecting can succeed. -/
theorem yields_connectToLock (needGdio : Bool) : (connectToLock needGdio).Yields 0 := by
  have hBody : (connectToLockBody needGdio).Yields 0 := by
    apply yields_appStep ()
    apply yields_appStep ()
    apply yields_appStep ()
    apply yields_appStep ()
    apply yields_appStep (0 : Int)
    rw [if_neg (not_not.mpr rfl)]
    apply yields_appStep ()
    apply yields_appStep (0 : Int)
    rw [if_neg (not_not.mpr rfl)]
    exact .call (0 : Int) (.done 0)
  apply yields_appStep ()
  apply hBody.bind
  exact yields_appStep () (.done 0)

/-- The disconnect goes through when the host takes the request and the semaphore is given. -/
theorem yields_disconnectFromLock : disconnectFromLock.Yields () := by
  apply yields_appStep (none : Option Nat)
  rw [if_pos rfl]
  exact .done ()

theorem yields_over {α : Type} (svc : Service) {code : Code α} {result : α}
    (h : code.Yields result) : (AppCode.over svc code).Yields result := by
  induction h with
  | done result => exact .done result
  | call answer _ ih => exact .call answer ih

theorem traces_appStep {α : Type} {op : AppOp} {more : op.Answer → AppCode α}
    {trace : List AppExchange} {result : α} (answer : op.Answer)
    (rest : (more answer).Traces trace result) :
    ((AppCode.of op).bind more).Traces (⟨op, answer⟩ :: trace) result :=
  .call answer rest

/-- An operation over USDIO returns what its command yields, when connecting and disconnecting go
well. -/
theorem exists_withPairing {α : Type} {command : PairingData → Code α}
    {finish : α → AppCode Response} {result : α} {response : Response} (p : PairingData)
    (h : (command p).Yields result) (ends : finish result = .done response) :
    ∃ trace, (withPairing command finish).Traces trace response ∧ cacheWrites trace = [] := by
  obtain ⟨connect, hConnect⟩ := (yields_connectToLock false).exists_trace
  obtain ⟨used, hUsed⟩ := (yields_over .keyturner h).exists_trace
  obtain ⟨left, hLeft⟩ := yields_disconnectFromLock.exists_trace
  have hEnd : (finish result).Traces [] response := ends ▸ .done response
  refine ⟨⟨.getPairing, some p⟩ :: (connect ++ (used ++ (left ++ []))), ?_, ?_⟩
  · apply @traces_appStep _ .getPairing _ _ _ (some p)
    apply hConnect.bind
    rw [if_neg (not_not.mpr rfl)]
    exact hUsed.bind (hLeft.bind hEnd)
  · change cacheWrites (connect ++ (used ++ (left ++ []))) = []
    rw [cacheWrites_append, cacheWrites_append, cacheWrites_append,
      cacheWrites_of_uncached (uncached_connects (connects_connectToLock false)) hConnect,
      cacheWrites_of_uncached (uncached_over .keyturner (command p)) hUsed,
      cacheWrites_of_uncached (uncached_connects connects_disconnectFromLock) hLeft]
    rfl

/-- `nuki_app_get_state` can return any state that the lock sends. -/
theorem exists_getStateLocked (stack : Leftover) {payload : List UInt8}
    (long : 13 ≤ payload.length) (fits : 8 + payload.length ≤ maxPlaintext) :
    ∃ trace, (getStateLocked stack).Traces trace ⟨0, some (.ofPayload payload)⟩ ∧
      cacheWrites trace = [] :=
  exists_withPairing default
    (yields_nukiCommandGetState (stack.received 0) _ _ stack.state long fits) rfl

/-- `nuki_app_lock_action` can return 0 and leave the cache as it is. -/
theorem exists_lockActionLocked (stack : Leftover) (action : UInt8) :
    ∃ trace, (lockActionLocked stack action).Traces trace ⟨0, none⟩ ∧ cacheWrites trace = [] :=
  exists_withPairing default
    (yields_nukiCommandLockAction stack.received (stack.bytes 32) _ _ _ action
      ⟨some stack.state, some stack.gotState⟩) rfl

end NukiBridge

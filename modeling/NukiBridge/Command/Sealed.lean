import NukiBridge.Command.Operations

/-! The calls of the commands. What a command writes is sealed with the key of its
authorization, and what it reads, it reads through `recv_encrypted`. -/
namespace NukiBridge

open Buffer Interaction Crypto

/-- A call that neither waits for received bytes nor looks at them. -/
def Call.Quiet : Call → Prop
  | .waitMin _ _ | .peek _ | .reset | .rxLen => False
  | _ => True

/-- A message of this authorization. -/
def SealedWith (authId : UInt32) (sharedKey : Bytes 32) (wire : List UInt8) : Prop :=
  ∃ (nonce : Bytes 24) (cmd : UInt16) (payload : List UInt8),
    wire = wireMessage nonce sharedKey authId cmd payload

/-- A call that writes nothing, or a message of this authorization. -/
def Call.Seals (authId : UInt32) (sharedKey : Bytes 32) : Call → Prop
  | .btGattWrite data => SealedWith authId sharedKey data
  | _ => True

section

variable {kind : Call → Prop} {α : Type}

theorem makes_log (logs : ∀ text args, kind (.log text args)) (text : String) (args : List Int)
    (result : α) : Program.Makes kind ((Code.log text args).bind fun _ => .done result) :=
  Program.makes_perform (logs text args) fun _ => Program.makes_done result

/-- The write of the transport makes four kinds of call at most. Each early return leaves out the
later ones. -/
theorem makes_nukiTransportWrite {data : List UInt8} (reset : kind .resetWriteSem)
    (write : kind (.btGattWrite data)) (take : kind .takeWriteSem) (load : kind .loadWriteErr) :
    (nukiTransportWrite data).Makes kind := by
  apply Program.makes_perform reset
  intro _
  apply Program.makes_perform write
  intro gatt
  split
  · exact Program.makes_done _
  · apply Program.makes_perform take
    intro taken
    split
    · exact Program.makes_done _
    · exact Program.makes_perform load fun _ => Program.makes_done _

/-- Opening a message that was received calls nothing but the log: decryption and parsing are
pure. -/
theorem makes_openReceived (logs : ∀ text args, kind (.log text args)) (sharedKey : Bytes 32)
    (out : Received) (payloadMax : Nat) (nonce : Bytes 24) (wire : List UInt8) (plainLen : Nat) :
    (openReceived sharedKey out payloadMax nonce wire plainLen).Makes kind := by
  rw [openReceived]
  dsimp only
  split
  · exact makes_log logs _ _ _
  · split
    · exact makes_log logs _ _ _
    · split <;> exact Program.makes_done _

/-- Receiving waits, looks, resets and logs. Stated for any property of calls, so that it serves the
buffers as well as the seals. -/
theorem makes_recvEncrypted (waits : ∀ len sec, kind (.waitMin len sec))
    (peeks : ∀ len, kind (.peek len)) (resets : kind .reset)
    (logs : ∀ text args, kind (.log text args)) (sharedKey : Bytes 32) (out : Received)
    (payloadMax : Nat) : (recvEncrypted sharedKey out payloadMax).Makes kind := by
  apply Program.makes_perform (waits _ _)
  intro err
  dsimp only
  split
  · exact Program.makes_done _
  · apply Program.makes_perform (peeks _)
    intro header
    split
    · apply Program.makes_perform (logs _ _)
      intro _
      exact Program.makes_perform resets fun _ => Program.makes_done _
    · apply Program.makes_perform (waits _ _)
      intro err
      split
      · exact Program.makes_done _
      · apply Program.makes_perform (peeks _)
        intro wire
        apply Program.makes_perform resets
        intro _
        exact makes_openReceived logs _ _ _ _ _ _

end

/-- Receiving writes nothing, so it seals nothing under any key. -/
theorem seals_recvEncrypted (authId : UInt32) (key sharedKey : Bytes 32) (out : Received)
    (payloadMax : Nat) :
    (recvEncrypted sharedKey out payloadMax).Makes (Call.Seals authId key) :=
  makes_recvEncrypted (fun _ _ => trivial) (fun _ => trivial) trivial (fun _ _ => trivial) _ _ _

/-- The calls of a command: it sends messages of its authorization, and receives into
buffers of `MAX_PLAINTEXT` bytes. -/
def CommandCall.Orderly (authId : UInt32) (sharedKey : Bytes 32) : CommandCall → Prop
  | .base c => c.Quiet ∧ c.Seals authId sharedKey
  | .recvEncrypted _ _ payloadMax => payloadMax = maxPlaintext

def CommandCode.Orderly {α : Type} (authId : UInt32) (sharedKey : Bytes 32)
    (code : CommandCode α) : Prop :=
  code.Makes (CommandCall.Orderly authId sharedKey)

section

variable {α : Type} {authId : UInt32} {sharedKey : Bytes 32}

theorem orderly_done (result : α) :
    CommandCode.Orderly authId sharedKey (.done result) := trivial

/-- Code in sequence is orderly if both parts are. All commands below are put together with it. -/
theorem CommandCode.Orderly.bind {β : Type} {code : CommandCode β} {more : β → CommandCode α}
    (first : code.Orderly authId sharedKey)
    (rest : ∀ result, (more result).Orderly authId sharedKey) :
    CommandCode.Orderly authId sharedKey (code.bind more) :=
  Program.Makes.bind first rest

theorem orderly_logErr (text : String) (args : List Int) :
    (logErr text args).Orderly authId sharedKey :=
  ⟨⟨trivial, trivial⟩, fun _ => trivial⟩

/-- The commands receive into a buffer of `MAX_PLAINTEXT` bytes and pass that size on. -/
theorem orderly_recvMessage (out : Received) :
    (recvMessage sharedKey out).Orderly authId sharedKey :=
  ⟨rfl, fun _ => trivial⟩

/-- What is sent is the frame, sealed with the key and under a nonce that was drawn for it. A frame
that would not fit is not sent at all. -/
theorem orderly_sendEncrypted (cmd : UInt16) (payload : List UInt8) :
    (CommandCode.lift (sendEncrypted authId sharedKey cmd payload)).Orderly authId sharedKey := by
  have hSends : (sendEncrypted authId sharedKey cmd payload).Makes
      fun c => c.Quiet ∧ c.Seals authId sharedKey := by
    by_cases hFits : payload.length ≤ payloadMaxLen
    · rw [sendEncrypted_eq authId sharedKey cmd hFits]
      apply Program.makes_perform ⟨trivial, trivial⟩
      intro nonce
      exact makes_nukiTransportWrite ⟨trivial, trivial⟩ ⟨trivial, nonce, cmd, payload, rfl⟩
        ⟨trivial, trivial⟩ ⟨trivial, trivial⟩
    · have hTooLong : ¬(authFrame authId cmd payload).length ≤ frameMaxLen := by
        rw [length_authFrame]
        simp only [payloadMaxLen, frameMaxLen] at hFits ⊢
        omega
      rw [sendEncrypted, nukiFrameBuildAuth_eq, if_neg hTooLong]
      exact Program.makes_done _
  exact hSends.inline fun c hCall => ⟨hCall, fun _ => trivial⟩

/-- Sending, and what follows once it was sent. An error of the write returns early, and this is
orderly as well. -/
theorem orderly_sent {cmd : UInt16} {payload : List UInt8} {early : Int → α}
    {more : CommandCode α} (rest : more.Orderly authId sharedKey) :
    CommandCode.Orderly authId sharedKey
      ((CommandCode.lift (sendEncrypted authId sharedKey cmd payload)).bind fun err =>
        if err ≠ 0 then .done (early err) else more) := by
  apply (orderly_sendEncrypted cmd payload).bind
  intro err
  split
  · exact orderly_done _
  · exact rest

/-- The state is asked for with one message, and one message is received. -/
theorem orderly_nukiCommandGetState (stack : Received) (state : KeyturnerState) :
    (nukiCommandGetState stack authId sharedKey state).Orderly authId sharedKey := by
  apply orderly_sent
  apply (orderly_recvMessage stack).bind
  intro got
  dsimp only
  split
  · exact orderly_done _
  · split
    · exact (orderly_logErr _ _).bind fun _ => orderly_done _
    · exact orderly_done _

/-- The Challenge is asked for with one message, and one message is received. -/
theorem orderly_requestChallenge (stack : Received) (nonceK : Bytes 32) :
    (requestChallenge stack authId sharedKey nonceK).Orderly authId sharedKey := by
  apply orderly_sent
  apply (orderly_recvMessage stack).bind
  intro got
  dsimp only
  split
  · exact orderly_done _
  · split
    · exact (orderly_logErr _ _).bind fun _ => orderly_done _
    · exact orderly_done _

/-- The drain only receives, however many rounds it is given: by induction on the rounds, one case
for each kind of message. -/
theorem orderly_drainLoop (stack : Nat → Received) (left : Nat) (out : Captured) :
    (drainLoop stack sharedKey left out).Orderly authId sharedKey := by
  induction left generalizing out with
  | zero => exact (orderly_logErr _ _).bind fun _ => orderly_done _
  | succ left ih =>
      apply (orderly_recvMessage (stack left)).bind
      intro got
      dsimp only
      split
      · exact orderly_done _
      · split
        · exact (orderly_logErr _ _).bind fun _ => orderly_done _
        · split
          · split
            · exact orderly_done _
            · split
              · exact orderly_done _
              · exact ih out
          · exact ih _

/-- A lock action sends the request for the Challenge and the command. Both are of this
authorization. -/
theorem orderly_nukiCommandLockAction (stack : Nat → Received) (nonceStack : Bytes 32)
    (appId : UInt32) (action : UInt8) (out : Captured) :
    (nukiCommandLockAction stack nonceStack authId appId sharedKey action out).Orderly authId
      sharedKey := by
  apply (orderly_requestChallenge (stack 10) nonceStack).bind
  intro challenge
  dsimp only
  split
  · exact orderly_done _
  · apply orderly_sent
    exact orderly_drainLoop stack 10 _

/-- A calibration sends the request for the Challenge and the command. Both are of this
authorization. -/
theorem orderly_nukiCommandCalibrate (stack : Nat → Received) (nonceStack : Bytes 32)
    (securityPin : UInt16) :
    (nukiCommandCalibrate stack nonceStack authId sharedKey securityPin).Orderly authId
      sharedKey := by
  apply (orderly_requestChallenge (stack 10) nonceStack).bind
  intro challenge
  dsimp only
  split
  · exact orderly_done _
  · apply orderly_sent
    apply (orderly_drainLoop stack 10 _).bind
    intro _
    exact orderly_done _

/-- With the code of `recv_encrypted` in place, a command writes only what is sealed. -/
theorem CommandCode.Orderly.seals {code : CommandCode α} (h : code.Orderly authId sharedKey) :
    code.link.Makes (Call.Seals authId sharedKey) := by
  apply Program.Makes.inline h
  intro op hOp
  cases op with
  | base c => exact ⟨hOp.2, fun _ => trivial⟩
  | recvEncrypted key out payloadMax =>
      exact seals_recvEncrypted authId sharedKey key out payloadMax

end
end NukiBridge

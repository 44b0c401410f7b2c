import NukiBridge.Pairing.Handshake

/-! The handshake against arbitrary writes, received bytes and crypto results: it
succeeds exactly on the transcripts of a lock that knows the shared secret. -/
namespace NukiBridge

open Buffer Interaction Crypto

/-- The environment of one pairing. `rx i` is what the lock indicates for the
`i`-th frame; the results of PSA Crypto may fail in each of its calls. -/
structure Ceremony where
  rand : Nat → (len : Nat) → Bytes len
  write : Nat → WriteOutcome
  rx : Nat → List UInt8
  init : Int
  generate : Int
  privKey : PsaOutput
  pubKey : PsaOutput
  importKey : Nat → Int
  dh : Bytes 32 → Bytes 32 → Bytes 32
  agreed : Int × Nat
  hmac : Bytes 32 → List UInt8 → Bytes 32
  mac : Nat → Int × Nat
  destroy : Nat → Int

/-- How often the environment was called so far, and the frames written. -/
structure Ceremony.Stage where
  sent : List (List UInt8)
  drawn : Nat
  received : Nat
  imported : Nat
  macs : Nat

namespace Ceremony

variable (env : Ceremony)

def answer : (c : Call) → Stage → c.Answer × Stage
  | .sysRandGet len, s => (env.rand s.drawn len, { s with drawn := s.drawn + 1 })
  | .resetWriteSem, s => ((), s)
  | .btGattWrite data, s =>
      ((env.write s.sent.length).gatt, { s with sent := s.sent ++ [data] })
  | .takeWriteSem, s => ((env.write (s.sent.length - 1)).taken, s)
  | .loadWriteErr, s => ((env.write (s.sent.length - 1)).err, s)
  | .waitMin minLen _, s =>
      (if minLen ≤ (env.rx s.received).length then 0 else -eagain, s)
  | .peek len, s => (Bytes.ofList len (env.rx s.received), s)
  | .reset, s => ((), { s with received := s.received + 1 })
  | .rxLen, s => ((env.rx s.received).length, s)
  | .psaCryptoInit, s => (env.init, s)
  | .psaGenerateKey, s => (env.generate, s)
  | .psaExportKey, s => (env.privKey, s)
  | .psaExportPublicKey, s => (env.pubKey, s)
  | .psaImportKey _, s => (env.importKey s.imported, { s with imported := s.imported + 1 })
  | .psaRawKeyAgreement priv pub, s => (⟨env.agreed.1, env.dh priv pub, env.agreed.2⟩, s)
  | .psaMacCompute key data, s =>
      (⟨(env.mac s.macs).1, env.hmac key data, (env.mac s.macs).2⟩, { s with macs := s.macs + 1 })
  | .psaDestroyKey, s => (env.destroy s.imported, s)
  | .log _ _, s => ((), s)
  | .logHexdump _ _, s => ((), s)

/-- What an attempt does from a stage on; its failures are nonzero. -/
abbrev Does {α : Type} (code : Attempt Call Call.Answer Int α) (s : Stage) (works : Prop)
    (frames : List (List UInt8)) (value : α) (s' : Stage) : Prop :=
  Settles env.answer Stage.sent (· ≠ 0) code s works frames value s'

/-- A function that stores an output settles as it returns. -/
theorem does_orReturn {α : Type} {code : Code (Int × α)} {s s' : Stage} {works : Prop} {value : α}
    {frames : List (List UInt8)} (succeeds : works → code.run env.answer s = ((0, value), s'))
    (records : s'.sent = s.sent ++ frames)
    (fails : ¬works → ∃ err out s'', code.run env.answer s = ((err, out), s'') ∧ err ≠ 0 ∧
      ∃ sent, sent <+: frames ∧ s''.sent = s.sent ++ sent) :
    env.Does (orReturn code) s works frames value s' where
  succeeds := by
    intro hWorks
    rw [orReturn, ExceptT.run_mk, Program.run_bind, succeeds hWorks]
    rfl
  records := records
  fails := by
    intro hFails
    obtain ⟨err, out, s'', hRun, hErr, sent, hSent, hRecord⟩ := fails hFails
    refine ⟨err, s'', sent, ?_, hErr, hSent, hRecord⟩
    rw [orReturn, ExceptT.run_mk, Program.run_bind, hRun]
    simp only [if_pos hErr, Program.run_done]

theorem does_orReturnErr {code : Code Int} {s s' : Stage} {works : Prop}
    {frames : List (List UInt8)} (succeeds : works → code.run env.answer s = (0, s'))
    (records : s'.sent = s.sent ++ frames)
    (fails : ¬works → ∃ err s'', code.run env.answer s = (err, s'') ∧ err ≠ 0 ∧
      ∃ sent, sent <+: frames ∧ s''.sent = s.sent ++ sent) :
    env.Does (orReturnErr code) s works frames () s' := by
  apply env.does_orReturn
  · intro hWorks
    rw [Program.run_bind, succeeds hWorks]
    rfl
  · exact records
  · intro hFails
    obtain ⟨err, s'', hRun, hRest⟩ := fails hFails
    refine ⟨err, (), s'', ?_, hRest⟩
    rw [Program.run_bind, hRun]
    rfl

section Psa

variable (s : Stage)

/-- A PSA function stored an output of the expected length. -/
def Stored (status : Int) (outLen : Nat) : Prop := status = psaSuccess ∧ outLen = 32

theorem stored_iff {status : Int} {outLen : Nat} :
    Stored status outLen ↔ ¬(status ≠ psaSuccess ∨ outLen ≠ nukiKeyLen) := by
  rw [Stored, not_or, not_not, not_not]

theorem does_nukiCryptoInit :
    env.Does (orReturnErr nukiCryptoInit) s (env.init = psaSuccess) [] () s := by
  have hRun : nukiCryptoInit.run env.answer s = (if env.init = psaSuccess then 0 else -eio, s) :=
    rfl
  apply env.does_orReturnErr
  · intro h
    rw [hRun, if_pos h]
  · exact (List.append_nil _).symm
  · intro h
    rw [hRun, if_neg h]
    exact ⟨-eio, s, rfl, by decide, [], List.nil_prefix, (List.append_nil _).symm⟩

/-- A function that writes no frame, as a step: it succeeds under its condition and leaves the
frames as they are. -/
theorem does_quiet {α : Type} {code : Code (Int × α)} {s s' : Stage} {works : Prop} {value : α}
    (succeeds : works → code.run env.answer s = ((0, value), s')) (quiet : s'.sent = s.sent)
    (fails : ¬works → ∃ err out s'', code.run env.answer s = ((err, out), s'') ∧ err ≠ 0 ∧
      s''.sent = s.sent) :
    env.Does (orReturn code) s works [] value s' := by
  apply env.does_orReturn succeeds
  · rw [quiet, List.append_nil]
  · intro hFails
    obtain ⟨err, out, s'', hRun, hErr, hSent⟩ := fails hFails
    exact ⟨err, out, s'', hRun, hErr, [], List.nil_prefix, by rw [hSent, List.append_nil]⟩

/-- The key pair is there exactly if PSA generated it and exported both halves with the expected
length. -/
theorem does_nukiCryptoKeypair (pub priv : Bytes 32) :
    env.Does (orReturn (nukiCryptoKeypair pub priv)) s
      (env.generate = psaSuccess ∧ Stored env.privKey.status env.privKey.outLen ∧
        Stored env.pubKey.status env.pubKey.outLen) [] (env.pubKey.out, env.privKey.out) s := by
  simp only [stored_iff]
  apply env.does_quiet
  · intro h
    simp only [nukiCryptoKeypair, Code.of, Program.perform, Program.bind_eq, Program.call_bind,
      Program.done_bind, Program.run_call, Program.run_ite]
    exact (if_neg (not_not.mpr h.1)).trans ((if_neg h.2.1).trans (if_neg h.2.2))
  · rfl
  · intro h
    simp only [nukiCryptoKeypair, Code.of, Program.perform, Program.bind_eq, Program.call_bind,
      Program.done_bind, Program.run_call, Program.run_ite]
    by_cases hGenerate : env.generate ≠ psaSuccess
    · exact ⟨-eio, (pub, priv), s, if_pos hGenerate, by decide, rfl⟩
    · by_cases hPriv : env.privKey.status ≠ psaSuccess ∨ env.privKey.outLen ≠ nukiKeyLen
      · exact ⟨-eio, (pub, env.privKey.out), s, (if_neg hGenerate).trans (if_pos hPriv),
          by decide, rfl⟩
      · have hPub : env.pubKey.status ≠ psaSuccess ∨ env.pubKey.outLen ≠ nukiKeyLen :=
          not_not.mp fun hPub => h ⟨not_not.mp hGenerate, hPriv, hPub⟩
        exact ⟨-eio, (env.pubKey.out, env.privKey.out), s,
          (if_neg hGenerate).trans ((if_neg hPriv).trans (if_pos hPub)), by decide, rfl⟩

/-- The shared secret goes through HSalsa20. The call succeeds exactly if the import and the
agreement do. -/
theorem does_nukiCryptoDh1 (out priv pub : Bytes 32) :
    env.Does (orReturn (nukiCryptoDh1 out priv pub)) s
      (env.importKey s.imported = psaSuccess ∧ Stored env.agreed.1 env.agreed.2) []
      (env.dh priv pub) { s with imported := s.imported + 1 } := by
  simp only [stored_iff]
  apply env.does_quiet
  · intro h
    simp only [nukiCryptoDh1, Code.of, Program.perform, Program.bind_eq, Program.call_bind,
      Program.done_bind, Program.run_call, Program.run_ite]
    exact (if_neg (not_not.mpr h.1)).trans (if_neg h.2)
  · rfl
  · intro h
    simp only [nukiCryptoDh1, Code.of, Program.perform, Program.bind_eq, Program.call_bind,
      Program.done_bind, Program.run_call, Program.run_ite]
    by_cases hImport : env.importKey s.imported ≠ psaSuccess
    · exact ⟨-eio, out, _, if_pos hImport, by decide, rfl⟩
    · have hAgreed : env.agreed.1 ≠ psaSuccess ∨ env.agreed.2 ≠ nukiKeyLen :=
        not_not.mp fun hAgreed => h ⟨not_not.mp hImport, hAgreed⟩
      exact ⟨-eio, env.dh priv pub, _, (if_neg hImport).trans (if_pos hAgreed), by decide, rfl⟩

/-- A MAC needs an import and a computation. Which of them it was is told by the two counters of the
stage. -/
theorem does_nukiCryptoH1 (out key : Bytes 32) (data : List UInt8) :
    env.Does (orReturn (nukiCryptoH1 out key data)) s
      (env.importKey s.imported = psaSuccess ∧ Stored (env.mac s.macs).1 (env.mac s.macs).2) []
      (env.hmac key data) { s with imported := s.imported + 1, macs := s.macs + 1 } := by
  simp only [stored_iff]
  apply env.does_quiet
  · intro h
    simp only [nukiCryptoH1, Code.of, Program.perform, Program.bind_eq, Program.call_bind,
      Program.done_bind, Program.run_call, Program.run_ite]
    exact (if_neg (not_not.mpr h.1)).trans (if_neg h.2)
  · rfl
  · intro h
    simp only [nukiCryptoH1, Code.of, Program.perform, Program.bind_eq, Program.call_bind,
      Program.done_bind, Program.run_call, Program.run_ite]
    by_cases hImport : env.importKey s.imported ≠ psaSuccess
    · exact ⟨-eio, out, _, if_pos hImport, by decide, rfl⟩
    · have hMac : (env.mac s.macs).1 ≠ psaSuccess ∨ (env.mac s.macs).2 ≠ nukiKeyLen :=
        not_not.mp fun hMac => h ⟨not_not.mp hImport, hMac⟩
      exact ⟨-eio, env.hmac key data, _, (if_neg hImport).trans (if_pos hMac), by decide, rfl⟩

end Psa

section Frames

variable (s : Stage)

theorem run_nukiTransportWrite (data : List UInt8) :
    (nukiTransportWrite data).run env.answer s =
      ((env.write s.sent.length).result, { s with sent := s.sent ++ [data] }) := by
  have hLast : (s.sent ++ [data]).length - 1 = s.sent.length := by simp
  apply run_write (env.write s.sent.length) rfl rfl
  · exact congrArg (fun i => ((env.write i).taken, _)) hLast
  · exact congrArg (fun i => ((env.write i).err, _)) hLast

/-- A frame counts as sent once it was handed to the stack, and the step succeeds if the write
did. -/
theorem does_sendPlain {cmd : UInt16} {payload : List UInt8} (h : payload.length ≤ 156) :
    env.Does (orReturnErr (sendPlain cmd payload)) s ((env.write s.sent.length).result = 0)
      [plainFrame cmd payload] () { s with sent := s.sent ++ [plainFrame cmd payload] } := by
  apply env.does_orReturnErr
  · intro hWrite
    rw [sendPlain_eq h, run_nukiTransportWrite, hWrite]
  · rfl
  · intro hWrite
    rw [sendPlain_eq h, run_nukiTransportWrite]
    exact ⟨_, _, rfl, hWrite, [plainFrame cmd payload], List.prefix_rfl, rfl⟩

/-- The payload of the `i`-th received frame, if it has length `len`. -/
def payload (i len : Nat) : Bytes len := Bytes.ofList len ((env.rx i).drop 2)

/-- The command of the `i`-th received frame. -/
def command (i : Nat) : UInt16 := sysGetLe16 (Bytes.ofList 2 (env.rx i)).val

/-- A frame of the length that its command calls for was received. -/
def Complete (i payloadLen : Nat) : Prop :=
  2 ≤ (env.rx i).length ∧ expectedLen (env.command i) payloadLen ≤ (env.rx i).length

/-- Where the expected frame has arrived completely, receiving comes down to the checks of this
frame. -/
theorem run_recvPlain_complete {payloadLen : Nat} (expectCmd : UInt16) (out : Bytes payloadLen)
    (h : env.Complete s.received payloadLen) :
    (recvPlain expectCmd out).run env.answer s =
      (openPlain expectCmd out (env.command s.received)
        ((env.rx s.received).take (expectedLen (env.command s.received) payloadLen))).run env.answer
          { s with received := s.received + 1 } := by
  have hWait {minLen : Nat} (seconds : Nat) (hLen : minLen ≤ (env.rx s.received).length) :
      (env.answer (.waitMin minLen seconds) s).1 = (0 : Int) := if_pos hLen
  simp only [recvPlain, Code.of, Program.perform, Program.bind_eq, Program.call_bind,
    Program.done_bind, Program.run_call, Program.run_ite]
  rw [← Bytes.ofList_val h.2]
  exact (if_neg (not_not.mpr (hWait _ h.1))).trans (if_neg (not_not.mpr (hWait _ h.2)))

/-- Where it has not, receiving ends with the timeout and the stage of the handshake is as it
was. -/
theorem run_recvPlain_incomplete {payloadLen : Nat} (expectCmd : UInt16) (out : Bytes payloadLen)
    (h : ¬env.Complete s.received payloadLen) :
    (recvPlain expectCmd out).run env.answer s = ((-eagain, out), s) := by
  have hFail {minLen : Nat} (seconds : Nat) (hLen : ¬minLen ≤ (env.rx s.received).length) :
      (env.answer (.waitMin minLen seconds) s).1 = -eagain := if_neg hLen
  have hWait {minLen : Nat} (seconds : Nat) (hLen : minLen ≤ (env.rx s.received).length) :
      (env.answer (.waitMin minLen seconds) s).1 = (0 : Int) := if_pos hLen
  have hNonzero : -eagain ≠ 0 := by decide
  simp only [recvPlain, Code.of, Program.perform, Program.bind_eq, Program.call_bind,
    Program.done_bind, Program.run_call, Program.run_ite]
  by_cases hHeader : 2 ≤ (env.rx s.received).length
  · have hFrame := not_and.mp h hHeader
    have hResult := hFail pairingRecvTimeout hFrame
    refine (if_neg (not_not.mpr (hWait _ hHeader))).trans ((if_pos ?_).trans ?_)
    · rw [← hResult] at hNonzero
      exact hNonzero
    · exact Prod.ext (Prod.ext hResult rfl) rfl
  · have hResult := hFail pairingRecvTimeout hHeader
    refine (if_pos ?_).trans ?_
    · rw [← hResult] at hNonzero
      exact hNonzero
    · exact Prod.ext (Prod.ext hResult rfl) rfl

variable {s}

/-- A received frame starts with its command and then its payload. -/
theorem command_eq {i : Nat} {cmd : UInt16} {payload : List UInt8}
    (h : plainFrame cmd payload <+: env.rx i) : env.command i = cmd := by
  have hLen : 2 ≤ (env.rx i).length := by
    have hFrame := h.length_le
    rw [length_plainFrame] at hFrame
    omega
  have hTake : 2 ≤ ((env.rx i).take 2).length := by
    rw [List.length_take, Nat.min_eq_left hLen]
  rw [command, Bytes.ofList_val hLen, ← sysGetLe16_append ((env.rx i).drop 2) hTake,
    List.take_append_drop, command_of_prefix h]

theorem payload_eq {i len : Nat} {cmd : UInt16} {payload : Bytes len}
    (h : plainFrame cmd payload.val <+: env.rx i) : env.payload i len = payload := by
  obtain ⟨rest, hRx⟩ := h
  have hDrop : (env.rx i).drop 2 =
      payload.val ++ (sysPutLe16 (nukiCrc16 (sysPutLe16 cmd ++ payload.val)) ++ rest) := by
    rw [← hRx, plainFrame, withCrc, List.append_assoc, List.append_assoc]
    rfl
  have hLen : payload.val.length = len := payload.property
  apply Subtype.ext
  rw [Ceremony.payload, hDrop, Bytes.ofList_val (by rw [List.length_append, hLen]; omega),
    List.take_append_of_le_length hLen.ge, List.take_of_length_le hLen.le]

/-- Receiving succeeds exactly if the stream starts with the expected frame and a right checksum. -/
theorem does_recvPlain {payloadLen : Nat} {expectCmd : UInt16} (out : Bytes payloadLen)
    (noReport : expectCmd ≠ Cmd.errorReport) (status : expectCmd = Cmd.status → payloadLen = 1) :
    env.Does (orReturn (recvPlain expectCmd out)) s
      (plainFrame expectCmd (env.payload s.received payloadLen).val <+: env.rx s.received) []
      (env.payload s.received payloadLen) { s with received := s.received + 1 } := by
  let frame := (env.rx s.received).take (expectedLen (env.command s.received) payloadLen)
  have hOpen := openPlain_cases out (env.command s.received) frame noReport
  have hPrefix (payload : Bytes payloadLen) (hFrame : frame = plainFrame expectCmd payload.val) :
      plainFrame expectCmd payload.val <+: env.rx s.received :=
    hFrame ▸ List.take_prefix _ _
  apply env.does_quiet
  · intro h
    have hExpected : expectedLen (env.command s.received) payloadLen = 2 + payloadLen + 2 := by
      rw [env.command_eq h, expectedLen_eq noReport status]
    have hLen := h.length_le
    have hFrame := List.prefix_iff_eq_take.mp h
    rw [length_plainFrame, Bytes.length, ← hExpected] at hLen hFrame
    have hHeader : 2 ≤ (env.rx s.received).length := by omega
    rw [env.run_recvPlain_complete s expectCmd out ⟨hHeader, hLen⟩]
    rcases hOpen with ⟨payload, hSame, hRun⟩ | ⟨hRefused, -⟩
    · rw [hRun, env.payload_eq (hPrefix payload hSame), Program.run_done]
    · exact absurd hFrame.symm (hRefused _)
  · rfl
  · intro h
    by_cases hComplete : env.Complete s.received payloadLen
    · rw [env.run_recvPlain_complete s expectCmd out hComplete]
      rcases hOpen with ⟨payload, hFrame, -⟩ | ⟨-, err, text, args, hErr, hRun⟩
      · rw [env.payload_eq (hPrefix payload hFrame)] at h
        exact absurd (hPrefix payload hFrame) h
      · rw [hRun]
        exact ⟨err, out, _, rfl, hErr, rfl⟩
    · rw [env.run_recvPlain_incomplete s expectCmd out hComplete]
      exact ⟨-eagain, out, s, rfl, by decide, rfl⟩

end Frames

/-! What a successful pairing agrees on. -/

/-- The public key that the lock sends. -/
def slPub : Bytes 32 := env.payload 0 32

def clPub : Bytes 32 := env.pubKey.out

/-- The long-term secret. -/
def sharedKey : Bytes 32 := nukiCryptoKdf1 (env.dh env.privKey.out env.slPub)

def challenge1 : Bytes 32 := env.payload 1 32

def challenge2 : Bytes 32 := env.payload 2 32

def appId : UInt32 := sysGetLe32 (env.rand 0 4).val

def nonceAbf : Bytes 32 := env.rand 1 32

/-- The fields of the AuthorizationData, with the name padded by zeros. -/
def body : List UInt8 :=
  idTypeApp :: sysPutLe32 env.appId ++ (nukiAppName ++ List.replicate 16 0) ++ env.nonceAbf.val

theorem length_body : env.body.length = 69 := by
  rw [body, List.length_append, List.length_append, List.length_cons, List.length_append,
    length_nukiAppName, List.length_replicate, length_sysPutLe32, Bytes.length]

def authIdPayload : Bytes 84 := env.payload 3 84

def authId : UInt32 := sysGetLe32 (env.authIdPayload.val.drop 32)

theorem lockUuid_inside : 36 + 16 ≤ 84 := by decide

def lockUuid : Bytes 16 := env.authIdPayload.slice 36 16 lockUuid_inside

theorem nonceK_inside : 52 + 32 ≤ 84 := by decide

def nonceK : Bytes 32 := env.authIdPayload.slice 52 32 nonceK_inside

/-- The fields after the authenticator. -/
theorem authIdPayload_drop :
    env.authIdPayload.val.drop 32 =
      sysPutLe32 env.authId ++ env.lockUuid.val ++ env.nonceK.val := by
  have hLen : (env.authIdPayload.val.drop 32).length = 52 := by
    rw [List.length_drop, Bytes.length]
  have hNonce : env.nonceK.val = ((env.authIdPayload.val.drop 32).drop 4).drop 16 := by
    rw [nonceK, Bytes.slice_val, List.drop_drop, List.drop_drop, List.take_of_length_le]
    rw [List.length_drop, Bytes.length]
  have hUuid : env.lockUuid.val = ((env.authIdPayload.val.drop 32).drop 4).take 16 := by
    rw [lockUuid, Bytes.slice_val, List.drop_drop]
  rw [authId, sysPutLe32_sysGetLe32 (by rw [hLen]; decide), hUuid, hNonce, List.append_assoc,
    List.take_append_drop, List.take_append_drop]

/-- What the authenticator of the AuthorizationId is over. -/
def authIdInput : List UInt8 :=
  sysPutLe32 env.authId ++ env.lockUuid.val ++ env.nonceK.val ++ env.nonceAbf.val

theorem length_authIdInput : env.authIdInput.length = 84 := by
  simp [authIdInput]

/-! The frames of a pairing, in the order in which they are written. -/

def requestFrame : List UInt8 := plainFrame Cmd.requestData (sysPutLe16 Cmd.publicKey)

def keyFrame : List UInt8 := plainFrame Cmd.publicKey env.clPub.val

def authenticatorFrame : List UInt8 :=
  plainFrame Cmd.authAuthenticator
    (env.hmac env.sharedKey (env.clPub.val ++ env.slPub.val ++ env.challenge1.val)).val

def dataFrame : List UInt8 :=
  plainFrame Cmd.authData
    ((env.hmac env.sharedKey (env.body ++ env.challenge2.val)).val ++ env.body)

def confirmationFrame : List UInt8 :=
  plainFrame Cmd.authIdConfirmation
    ((env.hmac env.sharedKey (sysPutLe32 env.authId ++ env.nonceK.val)).val ++
      sysPutLe32 env.authId)

section Parts

variable (stack : (n : Nat) → Bytes n)

/-- Before the first call. -/
def start : Stage := ⟨[], 0, 0, 0, 0⟩

/-- The first stage: both public keys are known, and two frames were sent. All conditions of success
are collected on the way. -/
theorem does_exchangeKeys :
    env.Does (exchangeKeys stack) start (env.init = psaSuccess ∧ (env.write 0).result = 0 ∧
        plainFrame Cmd.publicKey env.slPub.val <+: env.rx 0 ∧
        (env.generate = psaSuccess ∧ Stored env.privKey.status env.privKey.outLen ∧
          Stored env.pubKey.status env.pubKey.outLen) ∧
        (env.write 1).result = 0 ∧ True)
      [requestFrame, env.keyFrame] (env.slPub, env.clPub, env.privKey.out)
      ⟨[requestFrame, env.keyFrame], 0, 1, 0, 0⟩ := by
  apply Settles.bind (env.does_nukiCryptoInit start)
  apply Settles.bind (env.does_sendPlain start (by decide))
  apply Settles.bind (env.does_recvPlain _ (by decide) (by decide))
  apply Settles.bind (env.does_nukiCryptoKeypair _ _ _)
  apply Settles.bind (env.does_sendPlain _ (by rw [Bytes.length]; decide))
  exact Settles.pure _ _

/-- A call that cannot fail and writes nothing. -/
theorem does_lift {α : Type} {code : Code α} {s s' : Stage} {value : α}
    (runs : code.run env.answer s = (value, s')) (quiet : s'.sent = s.sent) :
    env.Does (ExceptT.lift code) s True [] value s' where
  succeeds := by
    intro _
    have hLift : (ExceptT.lift code : Attempt Call Call.Answer Int α).run =
        code.bind fun result => .done (.ok result) := rfl
    rw [hLift, Program.run_bind, runs, Program.run_done]
  records := by rw [quiet, List.append_nil]
  fails := fun h => absurd trivial h

/-- A check that is logged and ends the attempt when it is not met. -/
theorem does_check {α : Type} {c : Prop} [Decidable c] (text : String) (args : List Int)
    {next : Unit → Attempt Call Call.Answer Int α} {s s' : Stage} {works : Prop} {value : α}
    {frames : List (List UInt8)} (h : env.Does (next ()) s works frames value s') :
    env.Does (if c then do
        ExceptT.lift (Code.log text args)
        let done ← throw (-ebadmsg)
        next done
      else next ()) s (¬c ∧ works) frames value s' where
  succeeds := by
    intro hWorks
    rw [if_neg hWorks.1]
    exact h.succeeds hWorks.2
  records := h.records
  fails := by
    intro hFails
    by_cases hCheck : c
    · rw [if_pos hCheck]
      exact ⟨-ebadmsg, s, [], rfl, by decide, List.nil_prefix, (List.append_nil _).symm⟩
    · rw [if_neg hCheck]
      exact h.fails fun hWorks => hFails ⟨hCheck, hWorks⟩

/-- The second stage: the shared key is agreed on, and the first challenge is answered with an
authenticator. -/
theorem does_answerChallenge :
    env.Does (answerChallenge stack env.slPub env.clPub env.privKey.out)
      ⟨[requestFrame, env.keyFrame], 0, 1, 0, 0⟩
      ((env.importKey 0 = psaSuccess ∧ Stored env.agreed.1 env.agreed.2) ∧
        plainFrame Cmd.challenge env.challenge1.val <+: env.rx 1 ∧
        (env.importKey 1 = psaSuccess ∧ Stored (env.mac 0).1 (env.mac 0).2) ∧
        (env.write 2).result = 0 ∧ True)
      [env.authenticatorFrame]
      (env.sharedKey, env.challenge1,
        memcpy (stack 128).val 0 (env.clPub.val ++ env.slPub.val ++ env.challenge1.val),
        env.hmac env.sharedKey (env.clPub.val ++ env.slPub.val ++ env.challenge1.val))
      ⟨[requestFrame, env.keyFrame, env.authenticatorFrame], 0, 2, 2, 1⟩ := by
  have hInput : memcpy (memcpy (memcpy (stack 128).val 0 env.clPub.val) 32 env.slPub.val) 64
      env.challenge1.val = memcpy (stack 128).val 0
        (env.clPub.val ++ env.slPub.val ++ env.challenge1.val) := by
    rw [memcpy_memcpy (by simp), memcpy_memcpy (by simp)]
  have hLen : (env.clPub.val ++ env.slPub.val ++ env.challenge1.val).length = 96 := by simp
  have hTake := take_memcpy_zero (stack 128).val
    (env.clPub.val ++ env.slPub.val ++ env.challenge1.val)
  rw [hLen] at hTake
  have hChallenge : env.Does (orReturn (recvPlain Cmd.challenge (stack 32)))
      ⟨[requestFrame, env.keyFrame], 0, 1, 1, 0⟩
      (plainFrame Cmd.challenge env.challenge1.val <+: env.rx 1) [] env.challenge1
      ⟨[requestFrame, env.keyFrame], 0, 2, 1, 0⟩ :=
    env.does_recvPlain _ (by decide) (by decide)
  apply Settles.bind (env.does_nukiCryptoDh1 _ _ _ _)
  apply Settles.bind hChallenge
  dsimp only
  rw [hInput, hTake]
  apply Settles.bind (env.does_nukiCryptoH1 _ _ _ _)
  apply Settles.bind (env.does_sendPlain _ (by rw [Bytes.length]; decide))
  exact Settles.pure _ _

/-- The third stage: the data of the application goes to the lock under a second authenticator. -/
theorem does_authorizeApp (hmacInput : List UInt8) (authenticator : Bytes 32) :
    env.Does (authorizeApp env.sharedKey env.challenge1 hmacInput authenticator)
      ⟨[requestFrame, env.keyFrame, env.authenticatorFrame], 0, 2, 2, 1⟩
      (plainFrame Cmd.challenge env.challenge2.val <+: env.rx 2 ∧ True ∧ True ∧
        (env.importKey 2 = psaSuccess ∧ Stored (env.mac 1).1 (env.mac 1).2) ∧
        (env.write 3).result = 0 ∧ True)
      [env.dataFrame]
      (env.appId, env.nonceAbf, memcpy hmacInput 0 (env.body ++ env.challenge2.val),
        env.hmac env.sharedKey (env.body ++ env.challenge2.val))
      ⟨[requestFrame, env.keyFrame, env.authenticatorFrame, env.dataFrame], 2, 3, 3, 2⟩ := by
  have hInput : memcpy (memcpy hmacInput 0 env.body) env.body.length env.challenge2.val =
      memcpy hmacInput 0 (env.body ++ env.challenge2.val) := memcpy_memcpy rfl
  have hTake := take_memcpy_zero hmacInput (env.body ++ env.challenge2.val)
  rw [List.length_append, Bytes.length] at hTake
  have hChallenge : env.Does (orReturn (recvPlain Cmd.challenge env.challenge1))
      ⟨[requestFrame, env.keyFrame, env.authenticatorFrame], 0, 2, 2, 1⟩
      (plainFrame Cmd.challenge env.challenge2.val <+: env.rx 2) [] env.challenge2
      ⟨[requestFrame, env.keyFrame, env.authenticatorFrame], 0, 3, 2, 1⟩ :=
    env.does_recvPlain _ (by decide) (by decide)
  have hAppId : env.Does (ExceptT.lift (Code.of (.sysRandGet 4)))
      ⟨[requestFrame, env.keyFrame, env.authenticatorFrame], 0, 3, 2, 1⟩ True []
      (env.rand 0 4) ⟨[requestFrame, env.keyFrame, env.authenticatorFrame], 1, 3, 2, 1⟩ :=
    env.does_lift rfl rfl
  have hNonce : env.Does (ExceptT.lift (Code.of (.sysRandGet 32)))
      ⟨[requestFrame, env.keyFrame, env.authenticatorFrame], 1, 3, 2, 1⟩ True []
      env.nonceAbf ⟨[requestFrame, env.keyFrame, env.authenticatorFrame], 2, 3, 2, 1⟩ :=
    env.does_lift rfl rfl
  apply Settles.bind hChallenge
  apply Settles.bind hAppId
  apply Settles.bind hNonce
  dsimp only
  rw [memcpy_nukiAppName, ← appId, ← body, hInput, hTake]
  apply Settles.bind (env.does_nukiCryptoH1 _ _ _ _)
  apply Settles.bind (env.does_sendPlain _ ?_)
  · exact Settles.pure _ _
  · rw [List.length_append, Bytes.length, length_body]
    decide

/-- The fourth stage: the authenticator of the lock is compared before the Authorization-ID is used
and confirmed. -/
theorem does_confirmAuthorization (hmacInput : List UInt8) (authenticator : Bytes 32) :
    env.Does (confirmAuthorization stack env.sharedKey env.nonceAbf hmacInput authenticator)
      ⟨[requestFrame, env.keyFrame, env.authenticatorFrame, env.dataFrame], 2, 3, 3, 2⟩
      (plainFrame Cmd.authId env.authIdPayload.val <+: env.rx 3 ∧
        (env.importKey 3 = psaSuccess ∧ Stored (env.mac 2).1 (env.mac 2).2) ∧
        ¬(env.hmac env.sharedKey env.authIdInput).val ≠ env.authIdPayload.val.take 32 ∧
        (env.importKey 4 = psaSuccess ∧ Stored (env.mac 3).1 (env.mac 3).2) ∧
        (env.write 4).result = 0 ∧ True)
      [env.confirmationFrame] (env.authId, env.lockUuid)
      ⟨[requestFrame, env.keyFrame, env.authenticatorFrame, env.dataFrame,
        env.confirmationFrame], 2, 4, 5, 4⟩ := by
  have hInput : memcpy (memcpy hmacInput 0 (env.authIdPayload.val.drop 32)) (84 - 32)
      env.nonceAbf.val = memcpy hmacInput 0 env.authIdInput := by
    rw [memcpy_memcpy (by rw [List.length_drop, Bytes.length]), authIdPayload_drop, authIdInput]
  have hTake := take_memcpy_zero hmacInput env.authIdInput
  rw [length_authIdInput] at hTake
  have hPayload : env.Does (orReturn (recvPlain Cmd.authId (stack 84)))
      ⟨[requestFrame, env.keyFrame, env.authenticatorFrame, env.dataFrame], 2, 3, 3, 2⟩
      (plainFrame Cmd.authId env.authIdPayload.val <+: env.rx 3) [] env.authIdPayload
      ⟨[requestFrame, env.keyFrame, env.authenticatorFrame, env.dataFrame], 2, 4, 3, 2⟩ :=
    env.does_recvPlain _ (by decide) (by decide)
  apply Settles.bind hPayload
  dsimp only
  rw [hInput, hTake]
  apply Settles.bind (env.does_nukiCryptoH1 _ _ _ _)
  apply env.does_check
  apply Settles.bind (env.does_nukiCryptoH1 _ _ _ _)
  apply Settles.bind (env.does_sendPlain _ ?_)
  · exact Settles.pure _ _
  · rw [List.length_append, Bytes.length, length_sysPutLe32]
    decide

/-- The last stage sends nothing. Only a Status COMPLETE ends the pairing with success. -/
theorem does_awaitComplete {sent : List (List UInt8)} :
    env.Does (awaitComplete stack) ⟨sent, 2, 4, 5, 4⟩
      (plainFrame Cmd.status (env.payload 4 1).val <+: env.rx 4 ∧
        ¬(env.payload 4 1).val.getD 0 0 ≠ statusComplete ∧ True) [] ()
      ⟨sent, 2, 5, 5, 4⟩ := by
  apply Settles.bind (env.does_recvPlain _ (by decide) (by decide))
  apply env.does_check
  exact Settles.pure _ _

/-- The frames of a pairing. -/
def frames : List (List UInt8) :=
  [requestFrame, env.keyFrame, env.authenticatorFrame, env.dataFrame, env.confirmationFrame]

/-- What a successful pairing stores. -/
def agreement : PairingData where
  addr := default
  authId := env.authId
  appId := env.appId
  sharedKey := env.sharedKey
  lockUuid := env.lockUuid

/-- Every call of PSA Crypto succeeds and stores an output of the length asked for. Nothing
is asked of `psa_destroy_key`, whose status the code leaves alone. -/
def CryptoSucceeds : Prop :=
  env.init = psaSuccess ∧ env.generate = psaSuccess ∧
    Stored env.privKey.status env.privKey.outLen ∧ Stored env.pubKey.status env.pubKey.outLen ∧
    (∀ i < 5, env.importKey i = psaSuccess) ∧ Stored env.agreed.1 env.agreed.2 ∧
    ∀ i < 4, Stored (env.mac i).1 (env.mac i).2

theorem completes_iff :
    plainFrame Cmd.status (env.payload 4 1).val <+: env.rx 4 ∧
      ¬(env.payload 4 1).val.getD 0 0 ≠ statusComplete ↔
        plainFrame Cmd.status [statusComplete] <+: env.rx 4 := by
  constructor
  · intro h
    obtain ⟨byte, hByte⟩ := List.length_eq_one_iff.mp (env.payload 4 1).property
    have hComplete := not_not.mp h.2
    rw [hByte, List.getD_cons_zero] at hComplete
    rw [← hComplete, ← hByte]
    exact h.1
  · intro h
    have hPayload : env.payload 4 1 = ⟨[statusComplete], rfl⟩ := env.payload_eq h
    rw [hPayload]
    exact ⟨h, not_not.mpr rfl⟩

/-- The five stages in sequence. The frames that were sent are those of the stages that were
reached, in their order. -/
theorem does_pairingSteps :
    ∃ s', env.Does (pairingSteps stack) start ((∀ i < 5, (env.write i).result = 0) ∧
        env.CryptoSucceeds ∧
        plainFrame Cmd.publicKey env.slPub.val <+: env.rx 0 ∧
        plainFrame Cmd.challenge env.challenge1.val <+: env.rx 1 ∧
        plainFrame Cmd.challenge env.challenge2.val <+: env.rx 2 ∧
        (plainFrame Cmd.authId env.authIdPayload.val <+: env.rx 3 ∧
          env.authIdPayload.val.take 32 = (env.hmac env.sharedKey env.authIdInput).val) ∧
        plainFrame Cmd.status [statusComplete] <+: env.rx 4)
      env.frames env.agreement s' := by
  refine ⟨⟨env.frames, 2, 5, 5, 4⟩, ?_⟩
  apply Settles.congr
  · apply Settles.bind (env.does_exchangeKeys stack)
    apply Settles.bind (env.does_answerChallenge stack)
    apply Settles.bind (env.does_authorizeApp _ _)
    apply Settles.bind (env.does_confirmAuthorization stack _ _)
    apply Settles.bind (env.does_awaitComplete stack)
    apply Settles.bind (env.does_lift rfl rfl)
    exact Settles.pure _ _
  · have hAuthenticator := @eq_comm _ (env.authIdPayload.val.take 32)
      (env.hmac env.sharedKey env.authIdInput).val
    rw [← completes_iff, CryptoSucceeds, hAuthenticator]
    simp only [Nat.forall_lt_succ_right, Nat.not_lt_zero, IsEmpty.forall_iff, implies_true, ne_eq,
      not_not, and_true, true_and]
    tauto

/-- `nuki_pairing_run` stores what its steps settle on, and stores nothing where one of them
fails. -/
theorem run_nukiPairingRun {s s' : Stage} {works : Prop} {frames : List (List UInt8)}
    {value : PairingData} (out : PairingData) {result : (Int × PairingData) × Stage}
    (hResult : result = (nukiPairingRun stack out).run env.answer s)
    (h : env.Does (pairingSteps stack) s works frames value s') :
    (result.1.1 = 0 ↔ works) ∧ (∃ sent, sent <+: frames ∧ result.2.sent = s.sent ++ sent) ∧
      (result.1.1 = 0 → result.2.sent = s.sent ++ frames ∧ result.1.2 = value) ∧
      (result.1.1 ≠ 0 → result.1.2 = out) := by
  rw [nukiPairingRun, Program.bind_eq, Program.run_bind] at hResult
  by_cases hWorks : works
  · rw [h.succeeds hWorks] at hResult
    subst hResult
    exact ⟨⟨fun _ => hWorks, fun _ => rfl⟩, ⟨frames, List.prefix_rfl, h.records⟩,
      fun _ => ⟨h.records, rfl⟩, fun hErr => absurd rfl hErr⟩
  · obtain ⟨err, s'', sent, hRun, hErr, hSent, hRecord⟩ := h.fails hWorks
    rw [hRun] at hResult
    subst hResult
    exact ⟨⟨fun hZero => absurd hZero hErr, fun h => absurd h hWorks⟩, ⟨sent, hSent, hRecord⟩,
      fun hZero => absurd hZero hErr, fun _ => rfl⟩

end Parts

end Ceremony

/-- A pairing succeeds exactly if every write and every call of PSA Crypto does, but for
the destruction of keys, which may fail, and the lock sends the expected frames, with an
AuthorizationId whose authenticator is that of its fields and our nonce, and a Status
COMPLETE at the end. What it has written is always an initial part of its five frames.
Success stores what was agreed on, and failure leaves the output alone. -/
theorem nukiPairingRun_exact (env : Ceremony) (stack : (n : Nat) → Bytes n) (out : PairingData) :
    let result := (nukiPairingRun stack out).run env.answer Ceremony.start
    (result.1.1 = 0 ↔ (∀ i < 5, (env.write i).result = 0) ∧ env.CryptoSucceeds ∧
      plainFrame Cmd.publicKey env.slPub.val <+: env.rx 0 ∧
      plainFrame Cmd.challenge env.challenge1.val <+: env.rx 1 ∧
      plainFrame Cmd.challenge env.challenge2.val <+: env.rx 2 ∧
      (plainFrame Cmd.authId env.authIdPayload.val <+: env.rx 3 ∧
        env.authIdPayload.val.take 32 = (env.hmac env.sharedKey env.authIdInput).val) ∧
      plainFrame Cmd.status [statusComplete] <+: env.rx 4) ∧
    result.2.sent <+: env.frames ∧
    (result.1.1 = 0 → result.2.sent = env.frames ∧ result.1.2 = env.agreement) ∧
    (result.1.1 ≠ 0 → result.1.2 = out) := by
  intro result
  obtain ⟨s', h⟩ := env.does_pairingSteps stack
  obtain ⟨hZero, ⟨sent, hSent, hRecord⟩, hSuccess⟩ := env.run_nukiPairingRun stack out rfl h
  refine ⟨hZero, ?_, hSuccess⟩
  exact hRecord ▸ hSent

end NukiBridge

import NukiBridge.App.Smooth
import NukiBridge.Interaction.FailStop
import NukiBridge.Transport.Bounds

/-! How the code over one transport conducts itself on every path: it stops at the first
call that fails and returns the error that stands for it, destroys each key that it handed
to PSA, and seals each message with a nonce of its own. All of it is walked through once. -/
namespace NukiBridge

open Buffer Interaction Crypto

namespace Call

/-- The calls that may follow a failure: they look at what has arrived, report and
clean up. -/
def Cleans : Call → Prop
  | .peek _ | .reset | .rxLen | .psaDestroyKey | .log _ _ | .logHexdump _ _ => True
  | _ => False

/-- The timeout of a call, in seconds. -/
def waits : Call → Nat
  | .takeWriteSem => 5
  | .waitMin _ timeoutSec => timeoutSec
  | _ => 0

end Call

/-- The error that a function returns for what PSA reports. -/
def psaFault (status : Int) : Option Int := if status ≠ psaSuccess then some (-eio) else none

/-- The same where an output of 32 bytes is expected. -/
def PsaOutput.fault (o : PsaOutput) : Option Int :=
  if o.status ≠ psaSuccess ∨ o.outLen ≠ nukiKeyLen then some (-eio) else none

/-- The answers that are failures, each with the error that the code makes of it. -/
def Call.fault : (c : Call) → c.Answer → Option Int
  | .btGattWrite _, err => if err ≠ (0 : Int) then some err else none
  | .takeWriteSem, err => if err ≠ (0 : Int) then some (-etimedout) else none
  | .loadWriteErr, err => if err ≠ (0 : UInt8) then some (-eio) else none
  | .waitMin _ _, err => if err ≠ (0 : Int) then some err else none
  | .psaCryptoInit, status => psaFault status
  | .psaGenerateKey, status => psaFault status
  | .psaImportKey _, status => psaFault status
  | .psaExportKey, o => o.fault
  | .psaExportPublicKey, o => o.fault
  | .psaRawKeyAgreement _ _, o => o.fault
  | .psaMacCompute _ _, o => o.fault
  | _, _ => none

/-- The errors for what the lock sends although no call failed. -/
def Refusal (err : Int) : Prop :=
  err = -eio ∨ err = -einval ∨ err = -ebadmsg ∨ err = -etimedout

instance (err : Int) : Decidable (Refusal err) := instDecidableOr

/-- The calls of the clean-up have no failure that the code would have to report, so none is lost by
making them after one. -/
theorem Call.fault_of_cleans {c : Call} (cleans : c.Cleans) (answer : c.Answer) :
    c.fault answer = none := by
  cases c <;> first | exact cleans.elim | rfl

def callDiscipline : Discipline Call Call.Answer Int where
  fault := Call.fault
  cleans := Call.Cleans
  waits := Call.waits
  refuses := Refusal
  fault_of_cleans := Call.fault_of_cleans

/-- A message and what it is sealed with. -/
structure Sealing where
  nonce : Bytes 24
  sharedKey : Bytes 32
  authId : UInt32
  cmd : UInt16
  payload : List UInt8

def Sealing.wire (m : Sealing) : List UInt8 :=
  wireMessage m.nonce m.sharedKey m.authId m.cmd m.payload

/-- What fits into one write: `CONFIG_BT_L2CAP_TX_MTU` less the opcode and the handle. -/
def writeMaxLen : Nat := 251 - 3

/-- How far `nuki_transport_write` has come. -/
inductive WritePhase where
  | idle
  | reset
  | written
  | taken
  deriving DecidableEq

/-- Whether PSA holds a key for us, the random bytes drawn last, if no message was written
since, and how far a write has come. -/
structure Holding where
  key : Bool
  nonce : Option (List UInt8)
  write : WritePhase

namespace Holding

def Admits (svc : Service) : Call → Holding → Prop
  | .psaGenerateKey, h | .psaImportKey _, h => h.key = false
  | .psaExportKey, h | .psaExportPublicKey, h | .psaRawKeyAgreement _ _, h
  | .psaMacCompute _ _, h | .psaDestroyKey, h => h.key = true
  | .resetWriteSem, h => h.write = .idle
  | .btGattWrite data, h => h.write = .reset ∧ data.length ≤ writeMaxLen ∧
      (svc = .keyturner → ∃ m : Sealing, data = m.wire ∧ h.nonce = some m.nonce.val)
  | .takeWriteSem, h => h.write = .written
  | .loadWriteErr, h => h.write = .taken
  | _, _ => True

def next : (c : Call) → c.Answer → Holding → Holding
  | .psaGenerateKey, status, h => { h with key := status = psaSuccess }
  | .psaImportKey _, status, h => { h with key := status = psaSuccess }
  | .psaDestroyKey, _, h => { h with key := false }
  | .sysRandGet _, drawn, h => { h with nonce := some drawn.val }
  | .resetWriteSem, _, h => { h with write := .reset }
  | .btGattWrite _, err, h =>
      { h with nonce := none, write := if err = (0 : Int) then .written else .idle }
  | .takeWriteSem, err, h => { h with write := if err = (0 : Int) then .taken else .idle }
  | .loadWriteErr, _, h => { h with write := .idle }
  | _, _, h => h

/-- Between the functions that use keys and write messages. -/
structure Rests (h : Holding) : Prop where
  key : h.key = false
  write : h.write = .idle

theorem rests_start : Rests ⟨false, none, .idle⟩ := ⟨rfl, rfl⟩

end Holding

/-- A call that is no part of using a key or of writing a message. -/
def Call.Plain : Call → Prop
  | .psaGenerateKey | .psaExportKey | .psaExportPublicKey | .psaImportKey _
  | .psaRawKeyAgreement _ _ | .psaMacCompute _ _ | .psaDestroyKey
  | .resetWriteSem | .btGattWrite _ | .takeWriteSem | .loadWriteErr => False
  | _ => True

namespace Holding

/-- A call that is no part of the two protocols may be made at any place of them. -/
theorem admits_of_plain {svc : Service} {c : Call} (plain : c.Plain) (h : Holding) :
    Admits svc c h := by
  cases c <;> first | exact plain.elim | trivial

theorem Rests.of_plain {c : Call} {h : Holding} (resting : h.Rests) (plain : c.Plain)
    (answer : c.Answer) : (next c answer h).Rests := by
  cases c <;> first | exact plain.elim | exact ⟨resting.key, resting.write⟩

end Holding

def holding (svc : Service) : Typestate Call Call.Answer Holding where
  admits := Holding.Admits svc
  next := Holding.next

/-- Code that starts and ends without a key and with no write under way. -/
def Code.Stops {α : Type} (svc : Service) (err : α → Option Int) (bound : Nat)
    (fault : Option Int) (p : Code α) : Prop :=
  ∀ h : Holding, h.Rests →
    callDiscipline.Stops (holding svc) Holding.Rests err bound fault h p

/-- The error of a function that returns zero where there is none. -/
def errOf (err : Int) : Option Int := if err = 0 then none else some err

def errOfPair {α : Type} (result : Int × α) : Option Int := errOf result.1

theorem errOf_eq_none {err : Int} : errOf err = none ↔ err = 0 := by
  simp [errOf]

theorem errOf_eq_some {err error : Int} : errOf err = some error ↔ err ≠ 0 ∧ err = error := by
  simp [errOf]

section Explains

variable {Op : Type} {Res : Op → Type} {D : Discipline Op Res Int} {err error : Int}

theorem explains_zero : D.Explains none (errOf 0) := by
  intro error hError
  exact absurd rfl (errOf_eq_some.mp hError).1

/-- Where no call failed, an error must be one of those that the code has for what the lock sent. -/
theorem explains_refusal (refusal : err ≠ 0 → D.refuses err) : D.Explains none (errOf err) := by
  intro error hError
  obtain ⟨hErr, rfl⟩ := errOf_eq_some.mp hError
  exact refusal hErr

/-- Where a call failed, exactly its error is the explanation. -/
theorem explains_fault (h : err ≠ 0) : D.Explains (some err) (errOf err) := if_neg h

/-- A call fails exactly if its answer is an error, and this is returned. -/
theorem explains_answer {fault : Option Int} (h : fault = errOf err) :
    D.Explains fault (errOf err) := by
  rw [h]
  by_cases hErr : err = 0
  · rw [hErr]
    exact explains_zero
  · rw [errOf, if_neg hErr]
    exact rfl

/-- An error is passed on. -/
theorem explains_same (h : errOf err = some error) : D.Explains (some error) (errOf err) := h

end Explains

section Rules

variable {α β : Type} {svc : Service} {err : α → Option Int} {err' : β → Option Int}
  {bound bound' : Nat} {fault : Option Int}

/-- A function may return when it is at rest and its result explains what happened on the way. -/
theorem stops_return {result : α} (explained : callDiscipline.Explains fault (err result)) :
    Code.Stops svc err bound fault (.done result) := fun _ resting =>
  Discipline.stops_done resting explained

/-- A call outside the two protocols, in front of code whose fault so far takes its answer into
account. Its timeout is added to the bound. -/
theorem stops_plain {c : Call} {more : c.Answer → Code α} (plain : c.Plain)
    (cleans : fault ≠ none → c.Cleans)
    (rest : ∀ answer, (more answer).Stops svc err bound (fault.or (c.fault answer))) :
    Code.Stops svc err (c.waits + bound) fault ((Code.of c).bind more) := by
  intro h resting
  apply Discipline.stops_call cleans (Holding.admits_of_plain plain h)
  intro answer
  exact rest answer _ (resting.of_plain plain answer)

/-- A call that can be made at any time, also after a failure. The fault so far stays what it was,
since such a call has none. -/
theorem stops_cleaning {c : Call} {more : c.Answer → Code α} (plain : c.Plain) (cleans : c.Cleans)
    (rest : ∀ answer, (more answer).Stops svc err bound fault) :
    Code.Stops svc err (c.waits + bound) fault ((Code.of c).bind more) := by
  apply stops_plain plain fun _ => cleans
  intro answer
  rw [Call.fault_of_cleans cleans, Option.or_none]
  exact rest answer

/-- A bound on the waiting may be raised, so that branches of different length get the same one. -/
theorem Code.Stops.mono {p : Code α} (h : p.Stops svc err bound fault) (le : bound ≤ bound') :
    p.Stops svc err bound' fault := fun held resting =>
  (h held resting).mono le

/-- Functions in sequence: without an error the second one starts afresh, and with one it may only
clean up and pass it on. The bounds add up. -/
theorem Code.Stops.bind {p : Code β} {more : β → Code α}
    (first : p.Stops svc err' bound' fault)
    (goes : ∀ result, err' result = none → (more result).Stops svc err bound none)
    (gives : ∀ result error, err' result = some error →
      (more result).Stops svc err bound (some error)) :
    Code.Stops svc err (bound' + bound) fault (p.bind more) := by
  intro h resting
  apply Discipline.Stops.bind (first h resting)
  · intro h' result resting' hNone
    exact goes result hNone h' resting'
  · intro h' result error resting' hError
    exact gives result error hError h' resting'

/-- A message is logged. -/
theorem stops_log {text : String} {args : List Int} {more : Unit → Code α}
    (rest : (more ()).Stops svc err bound fault) :
    Code.Stops svc err bound fault ((Code.log text args).bind more) := by
  have hCall : Code.Stops svc err (Call.waits (.log text args) + bound) fault
      ((Code.of (.log text args)).bind more) := by
    apply stops_cleaning
    · trivial
    · trivial
    · exact fun _ => rest
  exact hCall.mono (by simp [Call.waits])

/-- An error is logged and returned. -/
theorem stops_report {text : String} {args : List Int} {result : α}
    (explained : callDiscipline.Explains fault (err result)) :
    Code.Stops svc err bound fault ((Code.log text args).bind fun _ => .done result) :=
  stops_log (stops_return explained)

/-- A call that is checked at once, as in `if (err) return err;`. A bad answer is the fault that the
early return must explain. -/
theorem stops_checkedCall {c : Call} {bad : c.Answer → Prop} [DecidablePred bad]
    {code : c.Answer → Int} {early more : c.Answer → Code α} (plain : c.Plain)
    (checks : ∀ answer, c.fault answer = if bad answer then some (code answer) else none)
    (gives : ∀ answer, bad answer → (early answer).Stops svc err bound (some (code answer)))
    (goes : ∀ answer, ¬bad answer → (more answer).Stops svc err bound none) :
    Code.Stops svc err (c.waits + bound) none
      ((Code.of c).bind fun answer => if bad answer then early answer else more answer) := by
  intro h resting
  apply Discipline.stops_checked (Holding.admits_of_plain plain h) checks
  · intro answer hBad
    exact gives answer hBad _ (resting.of_plain plain answer)
  · intro answer hGood
    exact goes answer hGood _ (resting.of_plain plain answer)

end Rules

section Transport

variable {svc : Service}

/-- A write of what fits, sealed with the bytes that were just drawn. -/
theorem stops_nukiTransportWrite {data : List UInt8} {h : Holding} (resting : h.Rests)
    (fits : data.length ≤ writeMaxLen)
    (sealed : svc = .keyturner → ∃ m : Sealing, data = m.wire ∧ h.nonce = some m.nonce.val) :
    callDiscipline.Stops (holding svc) Holding.Rests errOf 5 none h (nukiTransportWrite data) := by
  show Discipline.Stops _ _ _ _ (0 + (0 + (5 + (0 + 0)))) _ _ _
  apply Discipline.stops_call
  · exact fun hNone => absurd rfl hNone
  · exact resting.write
  intro _
  have hReset : (holding svc).admits (.btGattWrite data) (h.next .resetWriteSem ()) :=
    ⟨rfl, fits, sealed⟩
  apply Discipline.stops_checked hReset fun _ => rfl
  · intro gatt hGatt
    exact Discipline.stops_done ⟨resting.key, if_neg hGatt⟩ (explains_fault hGatt)
  intro gatt hGatt
  apply Discipline.stops_checked (if_pos (not_not.mp hGatt)) fun _ => rfl
  · intro taken hTaken
    exact Discipline.stops_done ⟨resting.key, if_neg hTaken⟩ (explains_fault (by decide))
  intro taken hTaken
  apply Discipline.stops_call
  · exact fun hNone => absurd rfl hNone
  · exact if_pos (not_not.mp hTaken)
  intro writeErr
  apply Discipline.stops_done ⟨resting.key, rfl⟩
  show callDiscipline.Explains (if writeErr ≠ (0 : UInt8) then some (-eio) else none)
    (errOf (if writeErr ≠ (0 : UInt8) then -eio else 0))
  split
  · exact explains_fault (by decide)
  · exact explains_zero

/-- A plain frame is sent with one write, and its timeout of five seconds is all that sending waits
for. -/
theorem stops_sendPlain {cmd : UInt16} {payload : List UInt8} (fits : payload.length ≤ 156) :
    (sendPlain cmd payload).Stops .pairing errOf 5 none := by
  intro h resting
  rw [sendPlain_eq fits]
  have hFits : (plainFrame cmd payload).length ≤ writeMaxLen := by
    rw [length_plainFrame, writeMaxLen]
    omega
  exact stops_nukiTransportWrite resting hFits nofun

/-- A message is sealed with a nonce that was drawn for it. -/
theorem stops_sendEncrypted {authId : UInt32} {sharedKey : Bytes 32} {cmd : UInt16}
    {payload : List UInt8} (fits : payload.length ≤ payloadMaxLen) :
    (sendEncrypted authId sharedKey cmd payload).Stops .keyturner errOf 5 none := by
  intro h resting
  rw [sendEncrypted_eq authId sharedKey cmd fits]
  show Discipline.Stops _ _ _ _ (0 + 5) _ _ _
  apply Discipline.stops_call
  · exact fun hNone => absurd rfl hNone
  · trivial
  intro nonce
  have hDrawn : (Holding.next (.sysRandGet nukiNonceLen) nonce h).Rests :=
    ⟨resting.key, resting.write⟩
  apply stops_nukiTransportWrite hDrawn
  · rw [length_wireMessage, writeMaxLen, adataHdrLen, nukiTagLen]
    rw [payloadMaxLen] at fits
    omega
  · intro _
    exact ⟨⟨nonce, sharedKey, authId, cmd, payload⟩, rfl, rfl⟩

/-- What the parser of plain frames returns is an error of its own and stands for what the lock
sent. -/
theorem nukiFrameParsePlain_refusal (frame : List UInt8) (out : PlainFrame)
    (h : (nukiFrameParsePlain frame out).1 ≠ 0) : Refusal (nukiFrameParsePlain frame out).1 := by
  rcases nukiFrameParsePlain_cases frame out with ⟨body, hBody, rfl⟩ | ⟨hParse, -⟩ | ⟨hParse, -⟩
  · rw [nukiFrameParsePlain_withCrc hBody] at h
    exact absurd rfl h
  · rw [hParse]
    exact (by decide : Refusal (-einval))
  · rw [hParse]
    exact (by decide : Refusal (-ebadmsg))

/-- The checks of a plain frame wait for nothing. Each that fails is logged and returns an error of
its own. -/
theorem stops_openPlain {n : Nat} (expectCmd : UInt16) (out : Bytes n) (cmd : UInt16)
    (frame : List UInt8) : (openPlain expectCmd out cmd frame).Stops svc errOfPair 0 none := by
  have hRefused {text : String} {args : List Int} {err : Int} (h : Refusal err) :
      Code.Stops svc errOfPair 0 none
        ((Code.log text args).bind fun _ => .done (err, out)) :=
    stops_report (explains_refusal fun _ => h)
  rw [openPlain]
  dsimp only
  split
  · rename_i hErr
    exact hRefused (nukiFrameParsePlain_refusal _ _ hErr)
  · split
    · exact hRefused (by decide)
    · split
      · exact hRefused (by decide)
      · split
        · exact hRefused (by decide)
        · exact stops_return explains_zero

/-- Receiving a plain frame waits twice, fifteen seconds each. A timeout is logged with what has
arrived and passed on. -/
theorem stops_recvPlain {n : Nat} (expectCmd : UInt16) (out : Bytes n) :
    (recvPlain expectCmd out).Stops svc errOfPair 30 none := by
  show Code.Stops _ _ (15 + (0 + (15 + (0 + (0 + 0))))) _ _
  apply stops_checkedCall (by trivial) fun _ => rfl
  · intro err hErr
    exact stops_report (explains_fault hErr)
  intro _ _
  apply stops_cleaning (by trivial) (by trivial)
  intro hdr
  apply stops_checkedCall (by trivial) fun _ => rfl
  · intro err hErr
    apply stops_cleaning (by trivial) (by trivial)
    intro rxLen
    apply stops_cleaning (by trivial) (by trivial)
    intro seen
    apply stops_log
    show Code.Stops _ _ (0 + 0) _ _
    apply stops_cleaning (by trivial) (by trivial)
    intro _
    exact stops_return (explains_fault hErr)
  intro _ _
  apply stops_cleaning (by trivial) (by trivial)
  intro frame
  apply stops_cleaning (by trivial) (by trivial)
  intro _
  exact stops_openPlain _ _ _ _

/-- A message that does not authenticate is the fault of the lock, or of the way to it, and not of a
call. -/
theorem nukiCryptoD1_refusal {out inp : List UInt8} {plainLen : Nat} {nonce : Bytes 24}
    {sharedKey : Bytes 32} (h : (nukiCryptoD1 out inp plainLen nonce sharedKey).1 ≠ 0) :
    Refusal (nukiCryptoD1 out inp plainLen nonce sharedKey).1 := by
  revert h
  rw [nukiCryptoD1]
  split
  · exact fun _ => (by decide : Refusal (-einval))
  · dsimp only
    split
    · exact fun _ => (by decide : Refusal (-ebadmsg))
    · exact fun hZero => absurd rfl hZero

/-- Neither is a frame that is too short or whose checksum is wrong. -/
theorem nukiFrameParseAuth_refusal {frame : List UInt8} {cmd : UInt16}
    (h : (nukiFrameParseAuth frame ⟨0, cmd, []⟩).1 ≠ 0) :
    Refusal (nukiFrameParseAuth frame ⟨0, cmd, []⟩).1 := by
  obtain ⟨hErr, -⟩ := nukiFrameParseAuth_within frame cmd
  rcases hErr.resolve_left h with hErr | hErr
  · exact .inr (.inl hErr)
  · exact .inr (.inr (.inl hErr))

/-- What does not fit the caller's buffer does not get this far. -/
theorem stops_openReceived (sharedKey : Bytes 32) (out : Received) (nonce : Bytes 24)
    (wire : List UInt8) {plainLen : Nat} (fits : plainLen ≤ maxPlaintext) :
    (openReceived sharedKey out maxPlaintext nonce wire plainLen).Stops svc errOfPair 0 none := by
  rw [openReceived]
  dsimp only
  split
  · rename_i hErr
    exact stops_report (explains_refusal fun _ => nukiCryptoD1_refusal hErr)
  · split
    · rename_i hErr
      exact stops_report (explains_refusal fun _ => nukiFrameParseAuth_refusal hErr)
    · have hRoom : ¬(nukiFrameParseAuth
          ((nukiCryptoD1 (List.replicate (nukiTagLen + maxPlaintext) 0)
          (wire.drop adataHdrLen) plainLen nonce sharedKey).2.take plainLen)
            ⟨0, out.cmd, []⟩).2.payload.length > maxPlaintext := by
        obtain ⟨-, hPayload⟩ := nukiFrameParseAuth_within ((nukiCryptoD1
          (List.replicate (nukiTagLen + maxPlaintext) 0) (wire.drop adataHdrLen) plainLen nonce
            sharedKey).2.take plainLen) out.cmd
        have hTake := List.length_take_le plainLen (nukiCryptoD1
          (List.replicate (nukiTagLen + maxPlaintext) 0) (wire.drop adataHdrLen) plainLen nonce
            sharedKey).2
        omega
      rw [if_neg hRoom]
      exact stops_return explains_zero

/-- Receiving a message waits twice, ten seconds each, for the header and for the rest of it. -/
theorem stops_recvEncrypted (sharedKey : Bytes 32) (out : Received) :
    (recvEncrypted sharedKey out maxPlaintext).Stops svc errOfPair 20 none := by
  show Code.Stops _ _ (10 + (0 + (10 + (0 + (0 + 0))))) _ _
  apply stops_checkedCall (by trivial) fun _ => rfl
  · intro err hErr
    exact stops_return (explains_fault hErr)
  intro _ _
  apply stops_cleaning (by trivial) (by trivial)
  intro header
  dsimp only
  split
  · apply stops_log
    show Code.Stops _ _ (0 + 10) _ _
    apply stops_cleaning (by trivial) (by trivial)
    intro _
    exact stops_return (explains_refusal fun _ => (by decide : Refusal (-ebadmsg)))
  rename_i hLen
  apply stops_checkedCall (by trivial) fun _ => rfl
  · intro err hErr
    exact stops_return (explains_fault hErr)
  intro _ _
  apply stops_cleaning (by trivial) (by trivial)
  intro wire
  apply stops_cleaning (by trivial) (by trivial)
  intro _
  apply stops_openReceived
  omega

end Transport

section Crypto

variable {svc : Service}

/-- The first call to PSA, whose status becomes `-EIO`. -/
theorem stops_nukiCryptoInit : nukiCryptoInit.Stops svc errOf 0 none := by
  show Code.Stops _ _ (0 + 0) _ _
  apply stops_plain (by trivial) fun hNone => absurd rfl hNone
  intro status
  apply stops_return
  show callDiscipline.Explains (psaFault status) (errOf (if status = psaSuccess then 0 else -eio))
  rw [psaFault]
  by_cases hStatus : status = psaSuccess
  · rw [if_neg (not_not.mpr hStatus), if_pos hStatus]
    exact explains_zero
  · rw [if_pos hStatus, if_neg hStatus]
    exact explains_fault (by decide)

/-- The key is destroyed, whatever happened while PSA held it. What comes of that is not
looked at, so the code goes on in the same way. -/
theorem stops_psaDestroyKey {α : Type} {err : α → Option Int} {bound : Nat} {fault : Option Int}
    {h : Holding} {more : Int → Code α} (held : h.key = true) (idle : h.write = .idle)
    (rest : ∀ status, (more status).Stops svc err bound fault) :
    callDiscipline.Stops (holding svc) Holding.Rests err bound fault h
      ((Code.of .psaDestroyKey).bind more) := by
  rw [← Nat.zero_add bound]
  apply Discipline.stops_call
  · intro _
    trivial
  · exact held
  intro status
  have hFault : fault.or (callDiscipline.fault .psaDestroyKey status) = fault := Option.or_none
  rw [hFault]
  exact rest status _ ⟨rfl, idle⟩

/-- The last use of a key: it is destroyed before the output is looked at. -/
theorem stops_lastUse {α : Type} {err : α → Option Int} {c : Call} {bad : c.Answer → Prop}
    [DecidablePred bad] {early more : c.Answer → α} {h : Holding} (held : h.key = true)
    (idle : h.write = .idle) (admitted : Holding.Admits svc c h)
    (keeps : ∀ answer, Holding.next c answer h = h)
    (checks : ∀ answer, c.fault answer = if bad answer then some (-eio) else none)
    (error : ∀ answer, err (early answer) = some (-eio))
    (success : ∀ answer, err (more answer) = none) :
    callDiscipline.Stops (holding svc) Holding.Rests err (c.waits + 0) none h
      ((Code.of c).bind fun answer => (Code.of .psaDestroyKey).bind fun _ =>
        if bad answer then .done (early answer) else .done (more answer)) := by
  apply Discipline.stops_call
  · exact fun hNone => absurd rfl hNone
  · exact admitted
  intro answer
  have hHeld : (Holding.next c answer h).key = true := by rw [keeps, held]
  have hIdle : (Holding.next c answer h).write = .idle := by rw [keeps, idle]
  apply stops_psaDestroyKey hHeld hIdle
  have hFault : callDiscipline.fault c answer = if bad answer then some (-eio) else none :=
    checks answer
  intro status
  rw [Option.none_or, hFault]
  by_cases hBad : bad answer
  · rw [if_pos hBad, if_pos hBad]
    exact stops_return (error answer)
  · rw [if_neg hBad, if_neg hBad]
    apply stops_return
    intro returned hReturned
    rw [success] at hReturned
    cases hReturned

/-- A key is there once the call that makes it reported success. -/
theorem key_of_status {status : Int} (h : ¬status ≠ psaSuccess) :
    decide (status = psaSuccess) = true :=
  decide_eq_true (not_not.mp h)

/-- The key lives from its import to its destruction, which comes before the status of the agreement
is looked at: no early return lies in between. -/
theorem stops_nukiCryptoDh1 (out priv pub : Bytes 32) :
    (nukiCryptoDh1 out priv pub).Stops svc errOfPair 0 none := by
  intro h resting
  show Discipline.Stops _ _ _ _ (0 + 0) _ _ _
  apply Discipline.stops_checked resting.key fun _ => rfl
  · intro status hStatus
    exact Discipline.stops_done ⟨decide_eq_false hStatus, resting.write⟩
      (explains_fault (by decide))
  intro status hStatus
  apply stops_lastUse
  · exact key_of_status hStatus
  · exact resting.write
  · exact key_of_status hStatus
  all_goals exact fun _ => rfl

theorem stops_nukiCryptoH1 (out key : Bytes 32) (data : List UInt8) :
    (nukiCryptoH1 out key data).Stops svc errOfPair 0 none := by
  intro h resting
  show Discipline.Stops _ _ _ _ (0 + 0) _ _ _
  apply Discipline.stops_checked resting.key fun _ => rfl
  · intro status hStatus
    exact Discipline.stops_done ⟨decide_eq_false hStatus, resting.write⟩
      (explains_fault (by decide))
  intro status hStatus
  apply stops_lastUse
  · exact key_of_status hStatus
  · exact resting.write
  · exact key_of_status hStatus
  all_goals exact fun _ => rfl

/-- The key pair is exported twice. The early return after the first export destroys the key as
well. -/
theorem stops_nukiCryptoKeypair (pub priv : Bytes 32) :
    (nukiCryptoKeypair pub priv).Stops svc errOfPair 0 none := by
  intro h resting
  show Discipline.Stops _ _ _ _ (0 + (0 + 0)) _ _ _
  apply Discipline.stops_checked resting.key fun _ => rfl
  · intro status hStatus
    exact Discipline.stops_done ⟨decide_eq_false hStatus, resting.write⟩
      (explains_fault (by decide))
  intro status hStatus
  apply Discipline.stops_checked (key_of_status hStatus) fun _ => rfl
  · intro exported _
    apply stops_psaDestroyKey
    · exact key_of_status hStatus
    · exact resting.write
    exact fun _ => stops_return (explains_fault (by decide))
  intro exported _
  apply stops_lastUse
  · exact key_of_status hStatus
  · exact resting.write
  · exact key_of_status hStatus
  all_goals exact fun _ => rfl

end Crypto

section Handshake

variable {α β : Type} {bound bound' : Nat}

/-- The error of an attempt. -/
def errOfAttempt : Except Int α → Option Int
  | .ok _ => none
  | .error err => errOf err

/-- An attempt of the handshake that stops at its first error. -/
def Tries (bound : Nat) (attempt : Attempt Call Call.Answer Int α) : Prop :=
  Code.Stops .pairing errOfAttempt bound none attempt.run

theorem explains_ok {value : α} :
    callDiscipline.Explains none (errOfAttempt (.ok value)) := nofun

theorem tries_pure (result : α) : Tries 0 (pure result) := stops_return explains_ok

/-- Steps of the pairing in sequence, each with its own bound. -/
theorem Tries.bind {first : Attempt Call Call.Answer Int β}
    {next : β → Attempt Call Call.Answer Int α} (h : Tries bound' first)
    (rest : ∀ result, Tries bound (next result)) : Tries (bound' + bound) (first >>= next) := by
  rw [Tries, ExceptT.run_bind, Program.bind_eq]
  apply Code.Stops.bind h
  · intro result hNone
    cases result with
    | ok value => exact rest value
    | error err =>
        have hErr : err = 0 := errOf_eq_none.mp hNone
        exact stops_return (hErr ▸ explains_zero)
  · intro result error hError
    cases result with
    | ok value => cases hError
    | error err => exact stops_return (explains_same hError)

/-- A function with an output, as a step: its error ends the pairing. -/
theorem tries_orReturn {code : Code (Int × α)} (h : code.Stops .pairing errOfPair bound none) :
    Tries bound (orReturn code) := by
  show Code.Stops _ _ (bound + 0) _ _
  apply Code.Stops.bind h
  · intro result hNone
    have hErr : result.1 = 0 := errOf_eq_none.mp hNone
    rw [if_neg (not_not.mpr hErr)]
    exact stops_return explains_ok
  · intro result error hError
    have hErr : result.1 ≠ 0 := (errOf_eq_some.mp hError).1
    rw [if_pos hErr]
    exact stops_return (explains_same hError)

theorem tries_orReturnErr {code : Code Int} (h : code.Stops .pairing errOf bound none) :
    Tries bound (orReturnErr code) := by
  apply tries_orReturn
  show Code.Stops _ _ (bound + 0) _ _
  apply Code.Stops.bind h
  · intro err hNone
    exact stops_return (errOf_eq_none.mp hNone ▸ explains_zero)
  · intro err error hError
    exact stops_return (explains_same hError)

theorem tries_sysRandGet (len : Nat) :
    Tries 0 (ExceptT.lift (Code.of (.sysRandGet len)) : Attempt Call Call.Answer Int _) := by
  show Code.Stops _ _ (0 + 0) _ _
  apply stops_plain (by trivial) fun hNone => absurd rfl hNone
  intro drawn
  exact stops_return explains_ok

theorem tries_log (text : String) (args : List Int) :
    Tries 0 (ExceptT.lift (Code.log text args) : Attempt Call Call.Answer Int Unit) :=
  stops_log (stops_return explains_ok)

/-- What the handshake refuses is logged. -/
theorem tries_refuse (text : String) (args : List Int) :
    Tries bound (ExceptT.lift (Code.log text args) >>= fun _ =>
      (throw (-ebadmsg) : Attempt Call Call.Answer Int α)) :=
  stops_log (stops_return (explains_refusal fun _ => (by decide : Refusal (-ebadmsg))))

/-- Two writes and one frame: 5 + 30 + 5 seconds. -/
theorem tries_exchangeKeys (stack : (n : Nat) → Bytes n) : Tries 40 (exchangeKeys stack) := by
  show Tries (0 + (5 + (30 + (0 + (5 + 0))))) _
  apply (tries_orReturnErr stops_nukiCryptoInit).bind
  intro _
  apply (tries_orReturnErr (stops_sendPlain (by decide))).bind
  intro _
  apply (tries_orReturn (stops_recvPlain _ _)).bind
  intro slPub
  apply (tries_orReturn (stops_nukiCryptoKeypair _ _)).bind
  intro keys
  apply (tries_orReturnErr (stops_sendPlain (by simp))).bind
  intro _
  exact tries_pure _

/-- One frame and one write. -/
theorem tries_answerChallenge (stack : (n : Nat) → Bytes n) (slPub clPub clPriv : Bytes 32) :
    Tries 35 (answerChallenge stack slPub clPub clPriv) := by
  show Tries (0 + (30 + (0 + (5 + 0)))) _
  apply (tries_orReturn (stops_nukiCryptoDh1 _ _ _)).bind
  intro dhResult
  apply (tries_orReturn (stops_recvPlain _ _)).bind
  intro challenge
  apply (tries_orReturn (stops_nukiCryptoH1 _ _ _)).bind
  intro authenticator
  apply (tries_orReturnErr (stops_sendPlain (by simp))).bind
  intro _
  exact tries_pure _

theorem tries_authorizeApp (sharedKey challenge : Bytes 32) (hmacInput : List UInt8)
    (authenticator : Bytes 32) :
    Tries 35 (authorizeApp sharedKey challenge hmacInput authenticator) := by
  show Tries (30 + (0 + (0 + (0 + (5 + 0))))) _
  apply (tries_orReturn (stops_recvPlain _ _)).bind
  intro challenge
  apply (tries_sysRandGet 4).bind
  intro appId
  apply (tries_sysRandGet 32).bind
  intro nonceAbf
  apply (tries_orReturn (stops_nukiCryptoH1 _ _ _)).bind
  intro authenticator
  apply (tries_orReturnErr (stops_sendPlain _)).bind
  · intro _
    exact tries_pure _
  · rw [memcpy_nukiAppName]
    simp [length_nukiAppName]

/-- One frame and one write. An authenticator that is wrong ends the step with an error of its
own. -/
theorem tries_confirmAuthorization (stack : (n : Nat) → Bytes n) (sharedKey nonceAbf : Bytes 32)
    (hmacInput : List UInt8) (authenticator : Bytes 32) :
    Tries 35 (confirmAuthorization stack sharedKey nonceAbf hmacInput authenticator) := by
  show Tries (30 + (0 + (0 + (5 + 0)))) _
  apply (tries_orReturn (stops_recvPlain _ _)).bind
  intro payload
  apply (tries_orReturn (stops_nukiCryptoH1 _ _ _)).bind
  intro expected
  split
  · exact tries_refuse _ _
  apply (tries_orReturn (stops_nukiCryptoH1 _ _ _)).bind
  intro authenticator
  apply (tries_orReturnErr (stops_sendPlain (by simp))).bind
  intro _
  exact tries_pure _

/-- One frame. A Status other than COMPLETE is an error of its own too. -/
theorem tries_awaitComplete (stack : (n : Nat) → Bytes n) : Tries 30 (awaitComplete stack) := by
  show Tries (30 + 0) _
  apply (tries_orReturn (stops_recvPlain _ _)).bind
  intro payload
  split
  · exact tries_refuse _ _
  · exact tries_pure _

/-- All stages, with the sum of their bounds. -/
theorem tries_pairingSteps (stack : (n : Nat) → Bytes n) : Tries 175 (pairingSteps stack) := by
  show Tries (40 + (35 + (35 + (35 + (30 + (0 + 0)))))) _
  apply (tries_exchangeKeys stack).bind
  intro keys
  apply (tries_answerChallenge _ _ _ _).bind
  intro answered
  apply (tries_authorizeApp _ _ _ _).bind
  intro authorized
  apply (tries_confirmAuthorization _ _ _ _ _).bind
  intro confirmed
  apply (tries_awaitComplete stack).bind
  intro _
  apply (tries_log _ _).bind
  intro _
  exact tries_pure _

/-- The pairing as it is called: its error is what the stage that failed returned. -/
theorem stops_nukiPairingRun (stack : (n : Nat) → Bytes n) (out : PairingData) :
    (nukiPairingRun stack out).Stops .pairing errOfPair 175 none := by
  show Code.Stops _ _ (175 + 0) _ _
  apply Code.Stops.bind (tries_pairingSteps stack)
  · intro result hNone
    cases result with
    | ok data => exact stops_return explains_zero
    | error err =>
        have hErr : err = 0 := errOf_eq_none.mp hNone
        exact stops_return (hErr ▸ explains_zero)
  · intro result error hError
    cases result with
    | ok data => cases hError
    | error err => exact stops_return (explains_same hError)

end Handshake

section Commands

variable {α : Type} {err : α → Option Int} {bound : Nat} {authId : UInt32} {sharedKey : Bytes 32}

/-- A message is sent or the command gives up, with the error of the write as its result. -/
theorem stops_sent {cmd : UInt16} {payload : List UInt8} {early : Int → α}
    {more : CommandCode α} (fits : payload.length ≤ payloadMaxLen)
    (error : ∀ code, err (early code) = errOf code)
    (rest : more.link.Stops .keyturner err bound none) :
    Code.Stops .keyturner err (5 + bound) none (CommandCode.link
      ((CommandCode.lift (sendEncrypted authId sharedKey cmd payload)).bind fun code =>
        if code ≠ 0 then .done (early code) else more)) := by
  rw [link_bind, link_lift]
  apply (stops_sendEncrypted fits).bind
  · intro code hNone
    have hZero : code = 0 := errOf_eq_none.mp hNone
    simpa [hZero] using rest
  · intro code returned hError
    have hErr : code ≠ 0 := (errOf_eq_some.mp hError).1
    rw [if_pos hErr]
    exact stops_return ((error code).trans hError)

/-- A part of a command succeeds, or the command gives up. -/
theorem stops_part {β : Type} {bound' : Nat} {part : CommandCode (Int × β)}
    {more : Int × β → CommandCode α} (first : part.link.Stops .keyturner errOfPair bound' none)
    (gives : ∀ code value, code ≠ 0 →
      ∃ result, more (code, value) = .done result ∧ err result = errOf code)
    (goes : ∀ value, (more (0, value)).link.Stops .keyturner err bound none) :
    Code.Stops .keyturner err (bound' + bound) none (CommandCode.link (part.bind more)) := by
  rw [link_bind]
  apply first.bind
  · rintro ⟨code, value⟩ hNone
    obtain rfl : code = 0 := errOf_eq_none.mp hNone
    exact goes value
  · rintro ⟨code, value⟩ returned hError
    obtain ⟨result, hDone, hResult⟩ := gives code value (errOf_eq_some.mp hError).1
    rw [hDone]
    exact stops_return (hResult.trans hError)

theorem stops_recvMessage (out : Received) :
    (recvMessage sharedKey out).link.Stops .keyturner errOfPair 20 none := by
  rw [link_recvMessage]
  exact stops_recvEncrypted _ _

/-- What a command refuses is logged. -/
theorem stops_refuse {text : String} {args : List Int} {result : α}
    (explained : callDiscipline.Explains none (err result)) :
    Code.Stops .keyturner err bound none
      (CommandCode.link ((logErr text args).bind fun _ => .done result)) :=
  stops_log (stops_return explained)

/-- A function without calls whose error is for what the lock sent explains itself. -/
theorem explains_refused {β : Type} {code : Int} {value : β} (h : Refusal code) :
    callDiscipline.Explains none (errOfPair (code, value)) :=
  explains_refusal fun _ => h

/-- A KeyturnerStates payload that is too short is refused with an error for what the lock sent. -/
theorem nukiKeyturnerStateParse_refusal {state : KeyturnerState} {payload : List UInt8} {len : Nat}
    (h : (nukiKeyturnerStateParse state payload len).1 ≠ 0) :
    Refusal (nukiKeyturnerStateParse state payload len).1 := by
  revert h
  rw [nukiKeyturnerStateParse]
  split
  · exact fun _ => (by decide : Refusal (-einval))
  · exact fun hZero => absurd rfl hZero

/-- One message is sent and one received: 5 + 20 seconds. -/
theorem stops_nukiCommandGetState (stack : Received) (state : KeyturnerState) :
    (nukiCommandGetState stack authId sharedKey state).link.Stops .keyturner errOfPair 25
      none := by
  show Code.Stops _ _ (5 + (20 + 0)) _ _
  apply stops_sent (by decide) (fun _ => by rfl)
  apply stops_part (stops_recvMessage stack)
  · intro code got hErr
    exact ⟨_, if_pos hErr, rfl⟩
  intro got
  dsimp only
  rw [if_neg (not_not.mpr rfl)]
  split
  · exact stops_refuse (explains_refused (by decide))
  · exact stops_return (explains_refusal nukiKeyturnerStateParse_refusal)

theorem stops_requestChallenge (stack : Received) (nonceK : Bytes 32) :
    (requestChallenge stack authId sharedKey nonceK).link.Stops .keyturner errOfPair 25 none := by
  show Code.Stops _ _ (5 + (20 + 0)) _ _
  apply stops_sent (by decide) (fun _ => by rfl)
  apply stops_part (stops_recvMessage stack)
  · intro code got hErr
    exact ⟨_, if_pos hErr, rfl⟩
  intro got
  dsimp only
  rw [if_neg (not_not.mpr rfl)]
  split
  · exact stops_refuse (explains_refused (by decide))
  · exact stops_return explains_zero

/-- Each round of the loop waits for one message, so the bound is a multiple of the rounds.
Induction on the rounds. -/
theorem stops_drainLoop (stack : Nat → Received) (left : Nat) (out : Captured) :
    (drainLoop stack sharedKey left out).link.Stops .keyturner errOfPair (20 * left) none := by
  induction left generalizing out with
  | zero => exact stops_refuse (explains_refused (by decide))
  | succ left ih =>
      rw [Nat.mul_succ, Nat.add_comm]
      apply stops_part (stops_recvMessage (stack left))
      · intro code got hErr
        exact ⟨_, if_pos hErr, rfl⟩
      intro got
      dsimp only
      rw [if_neg (not_not.mpr rfl)]
      split
      · exact stops_refuse (explains_refused (by decide))
      · split
        · split
          · exact stops_return (explains_refused (by decide))
          · split
            · exact stops_return explains_zero
            · exact ih _
        · exact ih _

/-- The Challenge, the command, and a drain of ten messages at most: 25 + 5 + 200 seconds. -/
theorem stops_nukiCommandLockAction (stack : Nat → Received) (nonceStack : Bytes 32)
    (appId : UInt32) (action : UInt8) (out : Captured) :
    (nukiCommandLockAction stack nonceStack authId appId sharedKey action out).link.Stops
      .keyturner errOfPair 230 none := by
  show Code.Stops _ _ (25 + (5 + 20 * 10)) _ _
  apply stops_part (stops_requestChallenge _ _)
  · intro code nonceK hErr
    exact ⟨_, if_pos hErr, rfl⟩
  intro nonceK
  dsimp only
  rw [if_neg (not_not.mpr rfl)]
  apply stops_sent (by simp [payloadMaxLen]) (fun _ => by rfl)
  exact stops_drainLoop _ _ _

/-- A calibration runs through the same three parts. -/
theorem stops_nukiCommandCalibrate (stack : Nat → Received) (nonceStack : Bytes 32)
    (securityPin : UInt16) :
    (nukiCommandCalibrate stack nonceStack authId sharedKey securityPin).link.Stops
      .keyturner errOf 230 none := by
  show Code.Stops _ _ (25 + (5 + (20 * 10 + 0))) _ _
  apply stops_part (stops_requestChallenge _ _)
  · intro code nonceK hErr
    exact ⟨_, if_pos hErr, rfl⟩
  intro nonceK
  dsimp only
  rw [if_neg (not_not.mpr rfl)]
  apply stops_sent (by simp [payloadMaxLen]) (fun _ => by rfl)
  apply stops_part (stops_drainLoop _ _ _)
  · intro code out hErr
    exact ⟨_, rfl, rfl⟩
  intro out
  exact stops_return explains_zero

end Commands

end NukiBridge

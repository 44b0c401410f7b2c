import NukiBridge.Command.Sealed
import NukiBridge.Interaction.Trace
import NukiBridge.Pairing.Handshake
import NukiBridge.Transport.Overlap

/-! The buffers behind the transport. All code that reads from a transport does so through
`recv_encrypted` and `recv_plain`; these wait for no more than the accumulator can hold,
take out no more than has arrived, and no more than fits where they put it. -/
namespace NukiBridge

open Buffer Interaction Crypto

/-- Code that receives nothing. -/
def Code.Quiet {α : Type} (p : Code α) : Prop := p.Makes Call.Quiet

/-- Code that receives by whole messages only: encrypted ones into a buffer of
`MAX_PLAINTEXT` bytes, and plain ones whose frame fits into `NUKI_FRAME_MAX_LEN`. -/
inductive Receives {α : Type} : Code α → Prop where
  | done (result : α) : Receives (.done result)
  | quiet {c : Call} {next : c.Answer → Code α} (quiet : c.Quiet)
      (rest : ∀ answer, Receives (next answer)) : Receives (.call c next)
  | encrypted (sharedKey : Bytes 32) (out : Received) {more : Int × Received → Code α}
      (rest : ∀ result, Receives (more result)) :
      Receives ((recvEncrypted sharedKey out maxPlaintext).bind more)
  | plain {n : Nat} (fits : 2 + n + 2 ≤ frameMaxLen) (expectCmd : UInt16) (out : Bytes n)
      {more : Int × Bytes n → Code α} (rest : ∀ result, Receives (more result)) :
      Receives ((recvPlain expectCmd out).bind more)

section Code

variable {α β : Type}

/-- Code that never looks at the accumulator is no danger to it. -/
theorem Receives.of_quiet {p : Code α} (h : p.Quiet) : Receives p := by
  induction p with
  | done result => exact .done result
  | call c next ih => exact .quiet h.1 fun answer => ih answer (h.2 answer)

/-- Code in sequence receives by whole messages if both parts do. The receiving functions stay
whole: their code is never taken apart here. -/
theorem Receives.bind {p : Code β} {more : β → Code α} (first : Receives p)
    (rest : ∀ result, Receives (more result)) : Receives (p.bind more) := by
  induction first with
  | done result => exact rest result
  | quiet quiet _ ih => exact .quiet quiet ih
  | encrypted sharedKey out _ ih =>
      rw [Program.bind_assoc]
      exact .encrypted sharedKey out ih
  | plain fits expectCmd out _ ih =>
      rw [Program.bind_assoc]
      exact .plain fits expectCmd out ih

theorem quiet_log (text : String) (args : List Int) : (Code.log text args).Quiet :=
  ⟨trivial, fun _ => trivial⟩

/-- A timeout is logged with what was received until then. -/
theorem quiet_logPartial (text : String) (args : List Int) (title : String) (data : List UInt8)
    (result : α) : Code.Quiet ((Code.log text args).bind fun _ =>
      (Code.of (.logHexdump title data)).bind fun _ => .done result) :=
  ⟨trivial, fun _ => ⟨trivial, fun _ => trivial⟩⟩

/-- An error is logged and returned. -/
theorem quiet_report (text : String) (args : List Int) (result : α) :
    Code.Quiet ((Code.log text args).bind fun _ => .done result) :=
  ⟨trivial, fun _ => trivial⟩

/-- Writing has its own semaphore and does not touch the accumulator. -/
theorem quiet_nukiTransportWrite (data : List UInt8) : (nukiTransportWrite data).Quiet :=
  makes_nukiTransportWrite trivial trivial trivial trivial

/-- Once a message was taken out and the accumulator was reset, opening it works on the copy. -/
theorem quiet_openReceived (sharedKey : Bytes 32) (out : Received) (payloadMax : Nat)
    (nonce : Bytes 24) (wire : List UInt8) (plainLen : Nat) :
    (openReceived sharedKey out payloadMax nonce wire plainLen).Quiet :=
  makes_openReceived (fun _ _ => trivial) sharedKey out payloadMax nonce wire plainLen

/-- A plain frame is built on the stack and written. This receives nothing, also where the frame
does not fit. -/
theorem quiet_sendPlain (cmd : UInt16) (payload : List UInt8) : (sendPlain cmd payload).Quiet := by
  rw [sendPlain]
  dsimp only
  split
  · trivial
  · exact quiet_nukiTransportWrite _

/-- The checks of a plain frame run on the copy that was taken out. -/
theorem quiet_openPlain {n : Nat} (expectCmd : UInt16) (out : Bytes n) (cmd : UInt16)
    (frame : List UInt8) : (openPlain expectCmd out cmd frame).Quiet := by
  rw [openPlain]
  dsimp only
  split
  · exact quiet_report _ _ _
  · split
    · exact quiet_report _ _ _
    · split
      · exact quiet_report _ _ _
      · split
        · exact quiet_report _ _ _
        · trivial

end Code

section Outlines

/-- `wait_min` asks for what fits the accumulator, `peek` for what has arrived. -/
def Within : Call → Overlap → Prop
  | .waitMin minLen _, _ => minLen ≤ wireMaxLen
  | .peek len, s => len ≤ s.rx.rxLen
  | _, _ => True

/-- Code that stays within the accumulator, however much has already arrived. -/
def Confined {α : Type} (p : Code α) : Prop :=
  ∀ held, (Overlap.rules Within).Outline (fun _ => Overlap.Ready 0) p (Overlap.Ready held)

variable {α β : Type}

/-- Code that has returned leaves the accumulator within its bounds, and the next operation may rely
on it. -/
theorem confined_done (result : α) : Confined (.done result) := fun held =>
  .done (Overlap.stable_ready held) fun _ _ ready => ⟨ready.1, Nat.zero_le _⟩

/-- Each part starts without knowing how much has arrived, so what the first part left behind does
not matter to the second. -/
theorem Confined.bind {p : Code β} {more : β → Code α} (first : Confined p)
    (rest : ∀ result, Confined (more result)) : Confined (p.bind more) := fun held =>
  .bind (fun _ => Overlap.Ready 0) (first held) fun result => rest result 0

/-- A quiet call neither waits nor looks, and the bounds say nothing about any other call. -/
theorem confined_quiet {c : Call} {next : c.Answer → Code α} (quiet : c.Quiet)
    (rest : ∀ answer, Confined (next answer)) : Confined (.call c next) := by
  intro held
  refine Overlap.outline_call ?_ fun answer => rest answer _
  intro s _ _
  cases c with
  | waitMin minLen timeoutSec => cases quiet
  | peek len => cases quiet
  | _ => trivial

/-- By induction on the code: none of its calls can leave the bounds. -/
theorem Code.Quiet.confined {p : Code α} (h : p.Quiet) : Confined p := by
  induction p with
  | done result => exact confined_done result
  | call c next ih => exact confined_quiet h.1 fun answer => ih answer (h.2 answer)

/-- After a reset nothing is known to have arrived, and the rest of the code starts from there. -/
theorem confined_reset {next : Unit → Code α} (rest : Confined (next ())) :
    Confined (.call .reset next) := fun _ =>
  Overlap.outline_call (fun _ _ _ => trivial) fun _ => rest 0

/-- A wait, and a look at what it granted. The look asks for no more than was waited for, which has
then arrived. -/
theorem confined_wait {len timeoutSec : Nat} {early : Int → Code α} {more : Bytes len → Code α}
    (fits : len ≤ wireMaxLen) (gives : ∀ err, Confined (early err))
    (looks : ∀ seen, Confined (more seen)) :
    Confined ((Code.of (.waitMin len timeoutSec)).bind fun err : Int =>
      if err ≠ 0 then early err else (Code.of (.peek len)).bind more) := by
  intro held
  refine Overlap.outline_call (fun _ _ _ => fits) ?_
  intro err
  rw [Program.done_bind]
  by_cases hErr : err = (0 : Int)
  · subst hErr
    rw [if_neg (not_not.mpr rfl)]
    refine Overlap.outline_call ?_ fun seen => looks seen _
    intro s _ ready
    exact (Nat.le_max_right held len).trans ready.2
  · rw [if_pos hErr]
    exact gives err _

/-- The length in the header is checked against `MAX_PLAINTEXT` before it is waited for. This check
is what keeps the second wait within the accumulator. -/
theorem confined_recvEncrypted (sharedKey : Bytes 32) (out : Received) (payloadMax : Nat) :
    Confined (recvEncrypted sharedKey out payloadMax) := by
  rw [recvEncrypted]
  refine confined_wait (by decide) (fun err => confined_done _) ?_
  intro header
  dsimp only
  split
  · exact (quiet_log _ _).confined.bind fun _ => confined_reset (confined_done _)
  · rename_i hLen
    rw [not_or, Nat.not_lt, Nat.not_lt] at hLen
    refine confined_wait ?_ (fun err => confined_done _) ?_
    · have hMax := hLen.2
      simp only [nukiTagLen, maxPlaintext, adataHdrLen, wireMaxLen] at hMax ⊢
      omega
    · intro wire
      exact confined_reset (quiet_openReceived _ _ _ _ _ _).confined

/-- The expected length depends on the received command, but both of its special cases are short. -/
theorem expectedLen_le {cmd : UInt16} {n : Nat} (fits : 2 + n + 2 ≤ frameMaxLen) :
    expectedLen cmd n ≤ frameMaxLen := by
  rw [expectedLen]
  split
  · decide
  · split
    · decide
    · exact fits

/-- The waits are bounded by the expected length. After a timeout the length that has arrived is
read first, and no more than that is logged. -/
theorem confined_recvPlain {n : Nat} (fits : 2 + n + 2 ≤ frameMaxLen) (expectCmd : UInt16)
    (out : Bytes n) : Confined (recvPlain expectCmd out) := by
  have hFrame (cmd : UInt16) : expectedLen cmd n ≤ wireMaxLen :=
    (expectedLen_le fits).trans (by decide)
  rw [recvPlain]
  refine confined_wait (by decide) ?_ ?_
  · exact fun err => (quiet_report _ _ _).confined
  · intro hdr
    refine confined_wait (hFrame _) ?_ ?_
    · intro err held
      refine Overlap.outline_call (fun _ _ _ => trivial) fun rxLen => ?_
      refine Overlap.outline_call ?_ fun seen => ?_
      · intro s _ ready
        exact (Nat.min_le_left rxLen frameMaxLen).trans
          ((Nat.le_max_right held rxLen).trans ready.2)
      · exact (quiet_logPartial _ _ _ _ _).confined _
    · exact fun frame => confined_reset (quiet_openPlain _ _ _ _).confined

/-- Receiving by whole messages stays within the accumulator. -/
theorem Receives.confined {p : Code α} (h : Receives p) : Confined p := by
  induction h with
  | done result => exact confined_done result
  | quiet quiet _ ih => exact confined_quiet quiet ih
  | encrypted sharedKey out _ ih => exact (confined_recvEncrypted _ _ _).bind ih
  | plain fits expectCmd out _ ih => exact (confined_recvPlain fits expectCmd out).bind ih

end Outlines

section Operations

variable {α : Type}

/-- With the code of `recv_encrypted` in place, a command receives by whole messages. -/
theorem CommandCode.Orderly.receives {authId : UInt32} {sharedKey : Bytes 32}
    {code : CommandCode α} (h : code.Orderly authId sharedKey) : Receives code.link := by
  induction code with
  | done result => exact .done result
  | call op next ih =>
      cases op with
      | base c => exact .quiet h.1.1 fun answer => ih answer (h.2 answer)
      | recvEncrypted sharedKey out payloadMax =>
          obtain rfl : payloadMax = maxPlaintext := h.1
          exact .encrypted sharedKey out fun result => ih result (h.2 result)

/-- An attempt that receives by whole messages. -/
def Attempts (attempt : Attempt Call Call.Answer Int α) : Prop := Receives attempt.run

theorem attempts_pure (result : α) :
    Attempts (pure result : Attempt Call Call.Answer Int α) := .done _

/-- Steps in sequence. A step that fails ends the attempt, and then nothing more is received. -/
theorem Attempts.bind {β : Type} {first : Attempt Call Call.Answer Int β}
    {next : β → Attempt Call Call.Answer Int α} (h : Attempts first)
    (rest : ∀ result, Attempts (next result)) : Attempts (first >>= next) := by
  rw [Attempts, ExceptT.run_bind, Program.bind_eq]
  refine Receives.bind h fun result => ?_
  cases result with
  | ok value => exact rest value
  | error err => exact .done _

theorem attempts_lift {code : Code α} (h : code.Quiet) :
    Attempts (ExceptT.lift code : Attempt Call Call.Answer Int α) :=
  Receives.bind (.of_quiet h) fun _ => .done _

/-- A step of the form `err = f(&out); if (err) return err;`. -/
theorem attempts_orReturn {code : Code (Int × α)} (h : Receives code) :
    Attempts (orReturn code) :=
  Receives.bind h fun _ => .done _

theorem attempts_quiet {code : Code (Int × α)} (h : code.Quiet) : Attempts (orReturn code) :=
  attempts_orReturn (.of_quiet h)

theorem attempts_orReturnErr {code : Code Int} (h : code.Quiet) : Attempts (orReturnErr code) :=
  attempts_quiet (h.bind fun _ => trivial)

/-- A step that receives one plain frame, which must fit into the buffer of `recv_plain`. -/
theorem attempts_recvPlain {n : Nat} (fits : 2 + n + 2 ≤ frameMaxLen) (expectCmd : UInt16)
    (out : Bytes n) : Attempts (orReturn (recvPlain expectCmd out)) :=
  .plain fits expectCmd out fun _ => .done _

/-- The functions of the crypto module call PSA and nothing of the transport. Each of them is run
through once, along its early returns. -/
theorem quiet_nukiCryptoInit : nukiCryptoInit.Quiet := ⟨trivial, fun _ => trivial⟩

/-- The key is generated, exported twice and destroyed, with an early return after each call that
may fail. -/
theorem quiet_nukiCryptoKeypair (pub priv : Bytes 32) : (nukiCryptoKeypair pub priv).Quiet := by
  refine ⟨trivial, fun status => ?_⟩
  dsimp only [Program.bind_eq, Program.done_bind]
  split
  · trivial
  · refine ⟨trivial, fun exported => ?_⟩
    dsimp only [Program.bind_eq, Program.done_bind]
    split
    · exact ⟨trivial, fun _ => trivial⟩
    · refine ⟨trivial, fun exported => ⟨trivial, fun _ => ?_⟩⟩
      dsimp only [Program.bind_eq, Program.done_bind]
      split <;> trivial

/-- The key is imported, used and destroyed. HSalsa20 over the shared secret is pure. -/
theorem quiet_nukiCryptoDh1 (out priv pub : Bytes 32) : (nukiCryptoDh1 out priv pub).Quiet := by
  refine ⟨trivial, fun status => ?_⟩
  dsimp only [Program.bind_eq, Program.done_bind]
  split
  · trivial
  · refine ⟨trivial, fun agreed => ⟨trivial, fun _ => ?_⟩⟩
    dsimp only [Program.bind_eq, Program.done_bind]
    split <;> trivial

theorem quiet_nukiCryptoH1 (out key : Bytes 32) (data : List UInt8) :
    (nukiCryptoH1 out key data).Quiet := by
  refine ⟨trivial, fun status => ?_⟩
  dsimp only [Program.bind_eq, Program.done_bind]
  split
  · trivial
  · refine ⟨trivial, fun mac => ⟨trivial, fun _ => ?_⟩⟩
    dsimp only [Program.bind_eq, Program.done_bind]
    split <;> trivial

theorem quiet_sysRandGet (len : Nat) : (Code.of (.sysRandGet len)).Quiet :=
  ⟨trivial, fun _ => trivial⟩

/-- The first stage of pairing receives one frame, the public key of the lock. -/
theorem attempts_exchangeKeys (stack : (n : Nat) → Bytes n) : Attempts (exchangeKeys stack) := by
  refine (attempts_orReturnErr quiet_nukiCryptoInit).bind fun _ => ?_
  refine (attempts_orReturnErr (quiet_sendPlain _ _)).bind fun _ => ?_
  refine (attempts_recvPlain (by decide) _ _).bind fun _ => ?_
  refine (attempts_quiet (quiet_nukiCryptoKeypair _ _)).bind fun _ => ?_
  exact (attempts_orReturnErr (quiet_sendPlain _ _)).bind fun _ => attempts_pure _

/-- The second stage receives one frame, the first challenge. -/
theorem attempts_answerChallenge (stack : (n : Nat) → Bytes n) (slPub clPub clPriv : Bytes 32) :
    Attempts (answerChallenge stack slPub clPub clPriv) := by
  refine (attempts_quiet (quiet_nukiCryptoDh1 _ _ _)).bind fun _ => ?_
  refine (attempts_recvPlain (by decide) _ _).bind fun _ => ?_
  refine (attempts_quiet (quiet_nukiCryptoH1 _ _ _)).bind fun _ => ?_
  exact (attempts_orReturnErr (quiet_sendPlain _ _)).bind fun _ => attempts_pure _

theorem attempts_authorizeApp (sharedKey challenge : Bytes 32) (hmacInput : List UInt8)
    (authenticator : Bytes 32) :
    Attempts (authorizeApp sharedKey challenge hmacInput authenticator) := by
  refine (attempts_recvPlain (by decide) _ _).bind fun _ => ?_
  refine (attempts_lift (quiet_sysRandGet _)).bind fun _ => ?_
  refine (attempts_lift (quiet_sysRandGet _)).bind fun _ => ?_
  refine (attempts_quiet (quiet_nukiCryptoH1 _ _ _)).bind fun _ => ?_
  exact (attempts_orReturnErr (quiet_sendPlain _ _)).bind fun _ => attempts_pure _

/-- The fourth stage receives one frame, the Authorization-ID. Where its authenticator is wrong,
nothing more is sent. -/
theorem attempts_confirmAuthorization (stack : (n : Nat) → Bytes n) (sharedKey nonceAbf : Bytes 32)
    (hmacInput : List UInt8) (authenticator : Bytes 32) :
    Attempts (confirmAuthorization stack sharedKey nonceAbf hmacInput authenticator) := by
  refine (attempts_recvPlain (by decide) _ _).bind fun payload => ?_
  refine (attempts_quiet (quiet_nukiCryptoH1 _ _ _)).bind fun expected => ?_
  split
  · exact (attempts_lift (quiet_log _ _)).bind fun _ => .done _
  · refine (attempts_quiet (quiet_nukiCryptoH1 _ _ _)).bind fun _ => ?_
    exact (attempts_orReturnErr (quiet_sendPlain _ _)).bind fun _ => attempts_pure _

/-- The last stage receives one frame, the final Status. -/
theorem attempts_awaitComplete (stack : (n : Nat) → Bytes n) : Attempts (awaitComplete stack) := by
  refine (attempts_recvPlain (by decide) _ _).bind fun payload => ?_
  split
  · exact (attempts_lift (quiet_log _ _)).bind fun _ => .done _
  · exact attempts_pure _

/-- Pairing receives five plain frames, each of which fits into the buffer of `recv_plain`. -/
theorem receives_nukiPairingRun (stack : (n : Nat) → Bytes n) (out : PairingData) :
    Receives (nukiPairingRun stack out) := by
  have steps : Attempts (pairingSteps stack) := by
    refine (attempts_exchangeKeys _).bind fun keys => ?_
    refine (attempts_answerChallenge _ _ _ _).bind fun answered => ?_
    refine (attempts_authorizeApp _ _ _ _).bind fun authorized => ?_
    refine (attempts_confirmAuthorization _ _ _ _ _).bind fun confirmed => ?_
    refine (attempts_awaitComplete _).bind fun _ => ?_
    exact (attempts_lift (quiet_log _ _)).bind fun _ => attempts_pure _
  refine Receives.bind steps fun result => ?_
  cases result with
  | ok data => exact .done _
  | error err => exact .done _

end Operations

section Traces

/-- How much a trace copies out of the accumulator, one `peek` after the other. -/
def peeks (trace : List (Exchange Call Call.Answer)) : List Nat :=
  trace.filterMap fun e => match e.op with
    | .peek len => some len
    | _ => none

/-- What is copied fits the buffers that it is copied to, in their order. -/
def Fits : List Nat → List Nat → Prop
  | [], _ => True
  | _ :: _, [] => False
  | len :: lens, size :: sizes => len ≤ size ∧ Fits lens sizes

variable {α : Type} {trace : List (Exchange Call Call.Answer)}

/-- A trace of quiet code copies nothing out of the accumulator. -/
theorem peeks_of_quiet {p : Code α} {result : α} (h : p.Quiet) (traces : p.Traces trace result) :
    peeks trace = [] := by
  induction traces with
  | done result => rfl
  | @call c next trace result answer rest ih =>
      have hRest := ih (h.2 answer)
      have hQuiet := h.1
      cases c with
      | waitMin minLen timeoutSec => cases hQuiet
      | peek len => cases hQuiet
      | _ => exact hRest

/-- A wait, and a look at what it granted, leave these exchanges. -/
theorem traces_wait {len timeoutSec : Nat} {early : Int → Code α} {more : Bytes len → Code α}
    {result : α} (h : ((Code.of (.waitMin len timeoutSec)).bind fun err : Int =>
      if err ≠ 0 then early err else (Code.of (.peek len)).bind more).Traces trace result) :
    (∃ err rest, trace = ⟨.waitMin len timeoutSec, err⟩ :: rest ∧
        (early err).Traces rest result) ∨
      ∃ granted seen rest, trace = ⟨.waitMin len timeoutSec, granted⟩ :: ⟨.peek len, seen⟩ :: rest ∧
        (more seen).Traces rest result := by
  obtain ⟨err, rest, rfl, hRest⟩ := Program.Traces.of_perform h
  by_cases hErr : err ≠ (0 : Int)
  · rw [if_pos hErr] at hRest
    exact Or.inl ⟨err, rest, rfl, hRest⟩
  · rw [if_neg hErr] at hRest
    obtain ⟨seen, last, rfl, hLast⟩ := Program.Traces.of_perform hRest
    exact Or.inr ⟨err, seen, last, rfl, hLast⟩

/-- `recv_plain` copies two bytes into `hdr` and no more than `NUKI_FRAME_MAX_LEN` into `frame`, in
every trace, the one of the timeout included. -/
theorem recvPlain_traces {n : Nat} (fits : 2 + n + 2 ≤ frameMaxLen) {expectCmd : UInt16}
    {out : Bytes n} {result : Int × Bytes n}
    (h : (recvPlain expectCmd out).Traces trace result) : Fits (peeks trace) [2, frameMaxLen] := by
  rw [recvPlain] at h
  rcases traces_wait h with ⟨err, rest, rfl, hEnd⟩ | ⟨_, hdr, rest, rfl, hHdr⟩
  · change Fits (peeks rest) _
    rw [peeks_of_quiet (quiet_report _ _ _) hEnd]
    trivial
  · rcases traces_wait hHdr with ⟨err, last, rfl, hShort⟩ | ⟨_, frame, last, rfl, hFrame⟩
    · obtain ⟨rxLen, seen, rfl, hSeen⟩ := Program.Traces.of_perform hShort
      obtain ⟨part, log, rfl, hLog⟩ := Program.Traces.of_perform hSeen
      have hPeeks := peeks_of_quiet (quiet_logPartial _ _ _ _ _) hLog
      change Fits (2 :: _ :: peeks log) _
      rw [hPeeks]
      exact ⟨Nat.le_refl _, Nat.min_le_right _ _, trivial⟩
    · obtain ⟨_, opened, rfl, hOpened⟩ := Program.Traces.of_perform hFrame
      change Fits (2 :: _ :: peeks opened) _
      rw [peeks_of_quiet (quiet_openPlain _ _ _ _) hOpened]
      exact ⟨Nat.le_refl _, expectedLen_le fits, trivial⟩

/-- Decryption into `plain` is never asked for too much, and stays inside. -/
theorem nukiCryptoD1_within (nonce : Bytes 24) (sharedKey : Bytes 32) {inp : List UInt8}
    {plainLen : Nat} (hMax : plainLen ≤ maxPlaintext) (hLen : inp.length = nukiTagLen + plainLen) :
    let plain := nukiCryptoD1 (List.replicate (nukiTagLen + maxPlaintext) 0) inp plainLen nonce
      sharedKey
    (plain.1 = 0 ∨ plain.1 = -ebadmsg) ∧ plain.2.length = nukiTagLen + maxPlaintext := by
  have hMsg : plainLen ≤ maxMsgLen := hMax.trans (by decide)
  rw [nukiCryptoD1_eq nonce sharedKey _ hMsg hLen.ge]
  split
  · refine ⟨Or.inl rfl, ?_⟩
    rw [length_memcpy, List.length_replicate]
    rw [length_masked, List.length_take, List.length_drop, List.length_replicate]
    omega
  · exact ⟨Or.inr rfl, List.length_replicate⟩

/-- The parser fails with one of two errors, and hands out a payload that is no longer than the
frame it came from. -/
theorem nukiFrameParseAuth_within (frame : List UInt8) (cmd : UInt16) :
    let parsed := nukiFrameParseAuth frame ⟨0, cmd, []⟩
    (parsed.1 = 0 ∨ parsed.1 = -einval ∨ parsed.1 = -ebadmsg) ∧
      parsed.2.payload.length ≤ frame.length := by
  rw [nukiFrameParseAuth]
  split
  · exact ⟨Or.inr (Or.inl rfl), Nat.zero_le _⟩
  · dsimp only
    split
    · exact ⟨Or.inr (Or.inr rfl), Nat.zero_le _⟩
    · refine ⟨Or.inl rfl, (List.length_take_le' _ _).trans ?_⟩
      rw [List.length_drop]
      exact Nat.sub_le _ _

/-- Logging an error and returning it leaves this trace. -/
theorem traces_report {text : String} {args : List Int} {reported result : α}
    (h : ((Code.log text args).bind fun _ => .done reported).Traces trace result) :
    (∀ e ∈ trace, e.op = .log text args) ∧ result = reported := by
  obtain ⟨_, rest, rfl, hEnd⟩ := Program.Traces.of_perform h
  obtain ⟨rfl, rfl⟩ := hEnd.of_done
  refine ⟨?_, rfl⟩
  intro e he
  rw [List.mem_singleton.mp he]

/-- The text that `recv_encrypted` logs where decryption fails. -/
def decryptFailed : String := "decrypt/authenticate failed (%d)"

/-- With the length checked before, decryption is never asked for more than it can do, and the final
check for `-ENOMEM` never fires. -/
theorem openReceived_traces {sharedKey : Bytes 32} {out : Received} {nonce : Bytes 24}
    {wire : List UInt8} {plainLen : Nat} {result : Int × Received} (hMax : plainLen ≤ maxPlaintext)
    (hLen : wire.length = adataHdrLen + (nukiTagLen + plainLen))
    (h : (openReceived sharedKey out maxPlaintext nonce wire plainLen).Traces trace result) :
    (∀ e ∈ trace, ∀ args, e.op = .log decryptFailed args → args = [-ebadmsg]) ∧
      result.1 ≠ -enomem ∧
      (out.payload.length = maxPlaintext → result.2.payload.length = maxPlaintext) := by
  have hInp : (wire.drop adataHdrLen).length = nukiTagLen + plainLen := by
    rw [List.length_drop, hLen, Nat.add_sub_cancel_left]
  have hDecrypt := nukiCryptoD1_within nonce sharedKey hMax hInp
  rw [openReceived] at h
  revert h hDecrypt
  generalize nukiCryptoD1 _ _ _ _ _ = decrypted
  obtain ⟨failed, plain⟩ := decrypted
  rintro h ⟨hFailed, -⟩
  dsimp only at h hFailed
  split at h
  · rename_i hRefused
    obtain ⟨hLogged, rfl⟩ := traces_report h
    obtain rfl := hFailed.resolve_left hRefused
    refine ⟨fun e he args hArgs => ?_, (by decide : -ebadmsg ≠ -enomem), id⟩
    rw [hLogged e he, Call.log.injEq] at hArgs
    exact hArgs.2.symm
  · obtain ⟨hParse, hPayload⟩ := nukiFrameParseAuth_within (plain.take plainLen) out.cmd
    have hRoom := hPayload.trans ((List.length_take_le _ _).trans hMax)
    revert h hParse hRoom
    generalize nukiFrameParseAuth _ _ = parsed
    obtain ⟨err, frame⟩ := parsed
    intro h hParse hRoom
    dsimp only at h hParse hRoom
    split at h
    · rename_i hRefused
      obtain ⟨hLogged, rfl⟩ := traces_report h
      refine ⟨fun e he args hArgs => ?_, ?_, id⟩
      · rw [hLogged e he, Call.log.injEq] at hArgs
        exact absurd hArgs.1 (by decide)
      · rcases hParse.resolve_left hRefused with rfl | rfl
        · exact (by decide : -einval ≠ -enomem)
        · exact (by decide : -ebadmsg ≠ -enomem)
    · rw [if_neg (Nat.not_lt.mpr hRoom)] at h
      obtain ⟨rfl, rfl⟩ := h.of_done
      refine ⟨fun e he => absurd he List.not_mem_nil, (by decide : 0 ≠ -enomem), fun hOut => ?_⟩
      rw [length_memcpy]
      · exact hOut
      · rw [Nat.zero_add, hOut]
        exact hRoom

/-- A call that logs nothing. -/
def Call.silent : Call → Bool
  | .log _ _ => false
  | _ => true

theorem unlogged_cons {c : Call} {answer : c.Answer} (silent : c.silent = true)
    (rest : ∀ e ∈ trace, ∀ args, e.op = .log decryptFailed args → args = [-ebadmsg]) :
    ∀ e ∈ ⟨c, answer⟩ :: trace, ∀ args, e.op = .log decryptFailed args → args = [-ebadmsg] := by
  refine List.forall_mem_cons.mpr ⟨?_, rest⟩
  intro args logs
  rw [show c = .log decryptFailed args from logs] at silent
  cases silent

/-- What `recv_encrypted` does in any trace: what it takes out fits `header` and `wire`, it
never reports a decryption that was asked for too much, and what it hands out fits the
buffer of the caller. -/
theorem recvEncrypted_traces {sharedKey : Bytes 32} {out : Received} {result : Int × Received}
    (h : (recvEncrypted sharedKey out maxPlaintext).Traces trace result) :
    Fits (peeks trace) [adataHdrLen, adataHdrLen + (nukiTagLen + maxPlaintext)] ∧
      (∀ e ∈ trace, ∀ args, e.op = .log decryptFailed args → args = [-ebadmsg]) ∧
      (result.1 = -enomem → ∃ minLen timeoutSec, ⟨.waitMin minLen timeoutSec, result.1⟩ ∈ trace) ∧
      (out.payload.length = maxPlaintext → result.2.payload.length = maxPlaintext) := by
  rw [recvEncrypted] at h
  rcases traces_wait h with ⟨err, rest, rfl, hEnd⟩ | ⟨_, header, rest, rfl, hHeader⟩
  · obtain ⟨rfl, rfl⟩ := hEnd.of_done
    exact ⟨trivial, unlogged_cons rfl (List.forall_mem_nil _),
      fun _ => ⟨_, _, List.mem_cons_self⟩, id⟩
  · dsimp only at hHeader
    split at hHeader
    · obtain ⟨logged, trace, _, rfl, hLog, hReset⟩ := Program.Traces.of_bind hHeader
      obtain ⟨_, last, rfl, hEnd⟩ := Program.Traces.of_perform hReset
      obtain ⟨rfl, rfl⟩ := hEnd.of_done
      obtain ⟨_, none, rfl, hNone⟩ := Program.Traces.of_call hLog
      obtain ⟨rfl, -⟩ := hNone.of_done
      refine ⟨⟨Nat.le_refl _, trivial⟩, ?_,
        fun hErr => absurd hErr (by decide : -ebadmsg ≠ -enomem), id⟩
      apply unlogged_cons rfl (unlogged_cons rfl (List.forall_mem_cons.mpr
        ⟨?_, unlogged_cons rfl (List.forall_mem_nil _)⟩))
      intro args hArgs
      rw [Call.log.injEq] at hArgs
      exact absurd hArgs.1 (by decide)
    · rename_i hLen
      rw [not_or, Nat.not_lt, Nat.not_lt] at hLen
      rcases traces_wait hHeader with ⟨err, last, rfl, hEnd⟩ | ⟨_, wire, last, rfl, hWire⟩
      · obtain ⟨rfl, rfl⟩ := hEnd.of_done
        exact ⟨⟨Nat.le_refl _, trivial⟩,
          unlogged_cons rfl (unlogged_cons rfl (unlogged_cons rfl (List.forall_mem_nil _))),
          fun _ => ⟨_, _, List.mem_cons_of_mem _ (List.mem_cons_of_mem _ List.mem_cons_self)⟩, id⟩
      · obtain ⟨_, opened, rfl, hOpened⟩ := Program.Traces.of_perform hWire
        have hPeeks := peeks_of_quiet (quiet_openReceived _ _ _ _ _ _) hOpened
        have hMax := Nat.sub_le_iff_le_add'.mpr hLen.2
        obtain ⟨hLogs, hErr, hPayload⟩ := openReceived_traces hMax
          (by rw [wire.property, Nat.add_sub_cancel' hLen.1]) hOpened
        refine ⟨?_, ?_, fun h => absurd h hErr, hPayload⟩
        · change Fits (adataHdrLen :: _ :: peeks opened) _
          rw [hPeeks]
          exact ⟨Nat.le_refl _, Nat.add_le_add_left hLen.2 _, trivial⟩
        · exact unlogged_cons rfl (unlogged_cons rfl (unlogged_cons rfl (unlogged_cons rfl
            (unlogged_cons rfl hLogs))))

/-- In every run `recv_encrypted` ends without `-ENOMEM`, and its output stays inside the
buffer of the caller. -/
theorem recvEncrypted_runs {sharedKey : Bytes 32} {out : Received} {s s' : Overlap}
    {result : Int × Received}
    (run : overlap.Runs .free ⟨s, recvEncrypted sharedKey out maxPlaintext⟩ ⟨s', .done result⟩) :
    result.1 ≠ -enomem ∧
      (out.payload.length = maxPlaintext → result.2.payload.length = maxPlaintext) := by
  obtain ⟨trace, hAnswers, hTraces⟩ := run.traces
  have hTrace := hTraces [] result (.done result)
  rw [List.append_nil] at hTrace
  obtain ⟨-, -, hErr, hPayload⟩ := recvEncrypted_traces hTrace
  refine ⟨fun hResult => ?_, hPayload⟩
  obtain ⟨minLen, timeoutSec, hWait⟩ := hErr hResult
  obtain ⟨choice, before, after, hCall⟩ := hAnswers _ hWait
  have hAnswer : result.1 = 0 ∨ result.1 = -eagain := Overlap.waitMin_answers hCall
  rw [hResult] at hAnswer
  exact absurd hAnswer (by decide)

end Traces

/-- Whenever the frame fits, encryption is not asked for too much and stays inside `wire`. -/
theorem sendEncrypted_within (authId : UInt32) (sharedKey : Bytes 32) (cmd : UInt16)
    (payload : List UInt8) (nonce : Bytes 24) :
    let plain := nukiFrameBuildAuth (List.replicate frameMaxLen 0) frameMaxLen authId cmd payload
    let sealed := nukiCryptoE1 (List.replicate (nukiTagLen + frameMaxLen) 0)
      (plain.2.take plain.1) nonce sharedKey
    plain.1 ≠ 0 → plain.1 ≤ frameMaxLen ∧ plain.2.length = frameMaxLen ∧ sealed.1 = 0 ∧
      sealed.2.length = nukiTagLen + frameMaxLen := by
  intro plain sealed built
  have hPlain : plain = _ := nukiFrameBuildAuth_eq _ _ authId cmd payload
  by_cases hFits : (authFrame authId cmd payload).length ≤ frameMaxLen
  · rw [if_pos hFits] at hPlain
    have hLen : plain.1 ≤ frameMaxLen := by rw [hPlain]; exact hFits
    have hBuffer : plain.2.length = frameMaxLen := by
      rw [hPlain]
      exact (length_memcpy (by rw [Nat.zero_add, List.length_replicate]; exact hFits)).trans
        List.length_replicate
    have hMsg : (plain.2.take plain.1).length = plain.1 := by
      rw [List.length_take, hBuffer, Nat.min_eq_left hLen]
    have hSealed : sealed = _ := nukiCryptoE1_eq nonce sharedKey _
      (hMsg.trans_le (hLen.trans (by decide)) : (plain.2.take plain.1).length ≤ maxMsgLen)
    refine ⟨hLen, hBuffer, by rw [hSealed], ?_⟩
    rw [hSealed, length_memcpy, List.length_replicate]
    rw [length_secretbox, hMsg, List.length_replicate, Nat.zero_add]
    exact Nat.add_le_add_left hLen 16
  · rw [if_neg hFits] at hPlain
    exact absurd (congrArg Prod.fst hPlain) built

/-- The operations that use a transport, with what they find on the stack. -/
inductive TransportOp where
  | getState (stack : Received) (authId : UInt32) (sharedKey : Bytes 32) (state : KeyturnerState)
  | lockAction (stack : Nat → Received) (nonceStack : Bytes 32) (authId appId : UInt32)
      (sharedKey : Bytes 32) (action : UInt8) (out : Captured)
  | calibrate (stack : Nat → Received) (nonceStack : Bytes 32) (authId : UInt32)
      (sharedKey : Bytes 32) (securityPin : UInt16)
  | pair (stack : (n : Nat) → Bytes n) (out : PairingData)

/-- The code of an operation, up to its error. -/
def TransportOp.body : TransportOp → Code Int
  | .getState stack authId sharedKey state =>
      (nukiCommandGetState stack authId sharedKey state).link.bind fun result => .done result.1
  | .lockAction stack nonceStack authId appId sharedKey action out =>
      (nukiCommandLockAction stack nonceStack authId appId sharedKey action out).link.bind
        fun result => .done result.1
  | .calibrate stack nonceStack authId sharedKey securityPin =>
      (nukiCommandCalibrate stack nonceStack authId sharedKey securityPin).link
  | .pair stack out => (nukiPairingRun stack out).bind fun result => .done result.1

/-- Every operation over a transport receives by whole messages, so the bounds for these are the
bounds for all of them. -/
theorem TransportOp.receives (op : TransportOp) : Receives op.body := by
  cases op with
  | getState stack authId sharedKey state =>
      exact (orderly_nukiCommandGetState _ _).receives.bind fun _ => .done _
  | lockAction stack nonceStack authId appId sharedKey action out =>
      exact (orderly_nukiCommandLockAction _ _ _ _ _).receives.bind fun _ => .done _
  | calibrate stack nonceStack authId sharedKey securityPin =>
      exact (orderly_nukiCommandCalibrate _ _ _).receives
  | pair stack out => exact (receives_nukiPairingRun _ _).bind fun _ => .done _

/-- Any sequence of operations over one transport. -/
def transportServer : Server Call Call.Answer Notification RxChoice Overlap TransportOp Int where
  machine := overlap
  body := TransportOp.body

/-- Whatever is indicated and whenever, the accumulator holds what was indicated since the
last reset, cut to its size, and no operation waits for more than it can hold or takes out
more than has arrived. -/
theorem transportServer_within {stage : Stage Call Call.Answer Overlap TransportOp Int}
    (reached : transportServer.Reaches .free .init stage) :
    stage.state.rx.rxLen ≤ wireMaxLen ∧
      stage.state.rx.bytes = stage.state.since.take wireMaxLen ∧
      ∀ op s c next, stage = .busy op ⟨s, .call c next⟩ → Within c s := by
  have covered := Rules.covered_of_reaches (Overlap.rules_sound Within) (Overlap.stable_ready 0)
    (fun op => op.receives.confined 0) ⟨Overlap.kept_init, rfl, Nat.zero_le _⟩ reached
  have kept : stage.state.Kept := by
    cases stage with
    | idle s => exact covered.1
    | busy op c => exact covered.1
  refine ⟨stage.state.rx.fits, kept.since, ?_⟩
  rintro op s c next rfl
  exact Rules.Covered.safe covered

/-- The receive and send paths stay inside their buffers: over any sequence of operations
and any indications; in each message that is received, whichever code receives it; and in
each message that is sent. -/
theorem transport_buffers :
    (∀ stage, transportServer.Reaches .free .init stage →
      stage.state.rx.rxLen ≤ wireMaxLen ∧
        stage.state.rx.bytes = stage.state.since.take wireMaxLen ∧
        (∀ op s minLen timeoutSec next,
          stage = .busy op ⟨s, .call (.waitMin minLen timeoutSec) next⟩ → minLen ≤ wireMaxLen) ∧
        ∀ op s len next, stage = .busy op ⟨s, .call (.peek len) next⟩ → len ≤ s.rx.rxLen) ∧
      (∀ op : TransportOp, Receives op.body) ∧
      (∀ n expectCmd (out : Bytes n) trace result, 2 + n + 2 ≤ frameMaxLen →
        (recvPlain expectCmd out).Traces trace result → Fits (peeks trace) [2, frameMaxLen]) ∧
      (∀ sharedKey out trace result,
        (recvEncrypted sharedKey out maxPlaintext).Traces trace result →
          Fits (peeks trace) [adataHdrLen, adataHdrLen + (nukiTagLen + maxPlaintext)] ∧
            ∀ e ∈ trace, ∀ args, e.op = .log decryptFailed args → args = [-ebadmsg]) ∧
      (∀ (nonce : Bytes 24) sharedKey (inp : List UInt8) plainLen, plainLen ≤ maxPlaintext →
        inp.length = nukiTagLen + plainLen →
          let plain := nukiCryptoD1 (List.replicate (nukiTagLen + maxPlaintext) 0) inp plainLen
            nonce sharedKey
          (plain.1 = 0 ∨ plain.1 = -ebadmsg) ∧ plain.2.length = nukiTagLen + maxPlaintext) ∧
      (∀ sharedKey out s s' result,
        overlap.Runs .free ⟨s, recvEncrypted sharedKey out maxPlaintext⟩ ⟨s', .done result⟩ →
          result.1 ≠ -enomem ∧
            (out.payload.length = maxPlaintext → result.2.payload.length = maxPlaintext)) ∧
      ∀ authId sharedKey cmd payload nonce,
        let plain :=
          nukiFrameBuildAuth (List.replicate frameMaxLen 0) frameMaxLen authId cmd payload
        let sealed := nukiCryptoE1 (List.replicate (nukiTagLen + frameMaxLen) 0)
          (plain.2.take plain.1) nonce sharedKey
        plain.1 ≠ 0 → plain.1 ≤ frameMaxLen ∧ plain.2.length = frameMaxLen ∧ sealed.1 = 0 ∧
          sealed.2.length = nukiTagLen + frameMaxLen := by
  refine ⟨?_, TransportOp.receives, ?_, ?_, ?_, ?_, sendEncrypted_within⟩
  · intro stage reached
    obtain ⟨hLen, hBytes, hCalls⟩ := transportServer_within reached
    exact ⟨hLen, hBytes, fun op s minLen timeoutSec next => hCalls op s _ next,
      fun op s len next => hCalls op s _ next⟩
  · exact fun n expectCmd out trace result fits => recvPlain_traces fits
  · intro sharedKey out trace result traces
    obtain ⟨hFits, hLogs, -⟩ := recvEncrypted_traces traces
    exact ⟨hFits, hLogs⟩
  · exact fun nonce sharedKey inp plainLen => nukiCryptoD1_within nonce sharedKey
  · exact fun sharedKey out s s' result => recvEncrypted_runs

end NukiBridge

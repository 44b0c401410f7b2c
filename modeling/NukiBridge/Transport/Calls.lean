import NukiBridge.Interaction.Program
import NukiBridge.Protocol.Frame

/-! The calls that leave the protocol code: those of one GATT transport, of the
random source, of PSA Crypto and of the log. `nuki_transport_write` is code
over the GATT calls; the reading side is one call each, and is opened up where
it is interleaved with the indications. -/
namespace NukiBridge

open Buffer Interaction

/-- A result of a PSA function that stores an output of at most 32 bytes. -/
structure PsaOutput where
  status : Int
  out : Bytes 32
  outLen : Nat

/-- The calls of the code that runs over one transport. -/
inductive Call where
  | sysRandGet (len : Nat)
  | resetWriteSem
  | btGattWrite (data : List UInt8)
  | takeWriteSem
  | loadWriteErr
  | waitMin (minLen : Nat) (timeoutSec : Nat)
  | peek (len : Nat)
  | reset
  | rxLen
  | psaCryptoInit
  | psaGenerateKey
  | psaExportKey
  | psaExportPublicKey
  | psaImportKey (key : Bytes 32)
  | psaRawKeyAgreement (priv pub : Bytes 32)
  | psaMacCompute (key : Bytes 32) (data : List UInt8)
  | psaDestroyKey
  | log (text : String) (args : List Int)
  | logHexdump (text : String) (data : List UInt8)

/-- What each call returns. -/
@[reducible] def Call.Answer : Call → Type
  | .sysRandGet len => Bytes len
  | .resetWriteSem => Unit
  | .btGattWrite _ => Int
  | .takeWriteSem => Int
  | .loadWriteErr => UInt8
  | .waitMin _ _ => Int
  | .peek len => Bytes len
  | .reset => Unit
  | .rxLen => Nat
  | .psaCryptoInit => Int
  | .psaGenerateKey => Int
  | .psaExportKey => PsaOutput
  | .psaExportPublicKey => PsaOutput
  | .psaImportKey _ => Int
  | .psaRawKeyAgreement _ _ => PsaOutput
  | .psaMacCompute _ _ => PsaOutput
  | .psaDestroyKey => Int
  | .log _ _ => Unit
  | .logHexdump _ _ => Unit

instance : Inhabited PsaOutput := ⟨⟨0, default, 0⟩⟩

instance (c : Call) : Inhabited c.Answer := by
  cases c <;> exact ⟨default⟩

/-- Code over one transport. -/
abbrev Code (α : Type) := Program Call Call.Answer α

/-- A call whose answer is the result. -/
abbrev Code.of (c : Call) : Code c.Answer := Program.perform c

/-- `LOG_ERR`. -/
def Code.log (text : String) (args : List Int) : Code Unit :=
  @Program.perform Call Call.Answer (.log text args)

/-- `PSA_SUCCESS`. -/
def psaSuccess : Int := 0

/-- Blocking write of one complete frame. -/
def nukiTransportWrite (data : List UInt8) : Code Int := do
  let _ ← Code.of .resetWriteSem
  let err ← Code.of (.btGattWrite data)
  if err ≠ (0 : Int) then return err
  let err ← Code.of .takeWriteSem
  if err ≠ (0 : Int) then return -etimedout
  let writeErr ← Code.of .loadWriteErr
  return if writeErr ≠ (0 : UInt8) then -eio else 0

/-- How a write went: what `bt_gatt_write` returned, whether its callback came in
time, and the error the callback stored. -/
structure WriteOutcome where
  gatt : Int
  taken : Int
  err : UInt8

/-- The result of `nuki_transport_write` for an outcome. -/
def WriteOutcome.result (w : WriteOutcome) : Int :=
  if w.gatt ≠ 0 then w.gatt
  else if w.taken ≠ 0 then -etimedout
  else if w.err ≠ 0 then -eio
  else 0

/-- A write whose calls are answered according to the outcome. -/
theorem run_write {σ : Type} {answer : (c : Call) → σ → c.Answer × σ} {data : List UInt8}
    {s s' : σ} (w : WriteOutcome) (reset : (answer .resetWriteSem s).2 = s)
    (gatt : answer (.btGattWrite data) s = (w.gatt, s'))
    (taken : answer .takeWriteSem s' = (w.taken, s'))
    (err : answer .loadWriteErr s' = (w.err, s')) :
    (nukiTransportWrite data).run answer s = (w.result, s') := by
  simp only [nukiTransportWrite, Code.of, Program.perform, Program.bind_eq, Program.call_bind,
    Program.done_bind, Program.run_call, reset, gatt]
  rw [WriteOutcome.result]
  by_cases hGatt : w.gatt ≠ 0
  · rw [if_pos hGatt, if_pos hGatt]
    rfl
  · rw [if_neg hGatt, if_neg hGatt]
    simp only [Program.run_call, taken]
    by_cases hTaken : w.taken ≠ 0
    · rw [if_pos hTaken, if_pos hTaken]
      rfl
    · rw [if_neg hTaken, if_neg hTaken, Program.run_call, err]
      rfl

end NukiBridge

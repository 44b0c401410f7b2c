import NukiBridge.Protocol.ByteOrder

/-! The Keyturner state and its parser. The prefix of thirteen bytes is common to
all locks; the door sensor is read only when the payload reaches that far. -/
namespace NukiBridge

structure KeyturnerState where
  nukiState : UInt8
  lockState : UInt8
  trigger : UInt8
  year : UInt16
  month : UInt8
  day : UInt8
  hour : UInt8
  minute : UInt8
  second : UInt8
  timezoneOffsetMin : Int16
  criticalBattery : Bool
  batteryPercent : UInt8
  doorSensorState : UInt8
  deriving DecidableEq

/-- The record that a payload describes; missing bytes are never looked at. -/
def KeyturnerState.ofPayload (payload : List UInt8) : KeyturnerState where
  nukiState := payload.getD 0 0
  lockState := payload.getD 1 0
  trigger := payload.getD 2 0
  year := sysGetLe16 (payload.drop 3)
  month := payload.getD 5 0
  day := payload.getD 6 0
  hour := payload.getD 7 0
  minute := payload.getD 8 0
  second := payload.getD 9 0
  timezoneOffsetMin := (sysGetLe16 (payload.drop 10)).toInt16
  criticalBattery := payload.getD 12 0 &&& 0x01 ≠ 0
  batteryPercent := (payload.getD 12 0 >>> 2) * 2
  doorSensorState := if payload.length ≥ 19 then payload.getD 18 0 else 0xFF

/-- `payload` is the caller's buffer, of which `len` bytes were received. -/
def nukiKeyturnerStateParse (state : KeyturnerState) (payload : List UInt8) (len : Nat) :
    Int × KeyturnerState :=
  if len < 13 then (-einval, state)
  else
    let state : KeyturnerState :=
      { nukiState := payload.getD 0 0
        lockState := payload.getD 1 0
        trigger := payload.getD 2 0
        year := sysGetLe16 (payload.drop 3)
        month := payload.getD 5 0
        day := payload.getD 6 0
        hour := payload.getD 7 0
        minute := payload.getD 8 0
        second := payload.getD 9 0
        timezoneOffsetMin := (sysGetLe16 (payload.drop 10)).toInt16
        criticalBattery := payload.getD 12 0 &&& 0x01 ≠ 0
        batteryPercent := (payload.getD 12 0 >>> 2) * 2
        doorSensorState := 0xFF }
    (0, if len ≥ 19 then { state with doorSensorState := payload.getD 18 0 } else state)

private theorem getD_append_left {payload : List UInt8} (rest : List UInt8) {i : Nat}
    (h : i < payload.length) : (payload ++ rest).getD i 0 = payload.getD i 0 := by
  simp [List.getD_eq_getElem?_getD, List.getElem?_append_left h]

private theorem sysGetLe16_drop_append {payload : List UInt8} (rest : List UInt8) {off : Nat}
    (h : off + 2 ≤ payload.length) :
    sysGetLe16 ((payload ++ rest).drop off) = sysGetLe16 (payload.drop off) := by
  rw [List.drop_append_of_le_length (by omega),
    sysGetLe16_append _ (by rw [List.length_drop]; omega)]

/-- What parsing does with a received payload, whatever else is in the buffer. -/
theorem nukiKeyturnerStateParse_eq (state : KeyturnerState) (payload rest : List UInt8) :
    nukiKeyturnerStateParse state (payload ++ rest) payload.length =
      if 13 ≤ payload.length then (0, .ofPayload payload) else (-einval, state) := by
  rw [nukiKeyturnerStateParse]
  split
  · rw [if_neg (by omega)]
  · rename_i hLen
    rw [if_pos (by omega), Prod.mk.injEq]
    refine ⟨rfl, ?_⟩
    have hByte : ∀ i < 13, (payload ++ rest).getD i 0 = payload.getD i 0 :=
      fun i hi => getD_append_left rest (by omega)
    have hYear : sysGetLe16 ((payload ++ rest).drop 3) = sysGetLe16 (payload.drop 3) :=
      sysGetLe16_drop_append rest (by omega)
    have hZone : sysGetLe16 ((payload ++ rest).drop 10) = sysGetLe16 (payload.drop 10) :=
      sysGetLe16_drop_append rest (by omega)
    simp only [KeyturnerState.ofPayload, hByte, hYear, hZone, Nat.reduceLT]
    split
    · rename_i hDoor
      rw [getD_append_left rest (i := 18) (by omega)]
    · rfl

end NukiBridge

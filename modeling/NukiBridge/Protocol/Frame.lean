import NukiBridge.Crypto.Crc16
import NukiBridge.Protocol.ByteOrder

/-! The two frame codecs of `nuki_protocol.c`. Both end a body with its CRC; the
authenticated one puts the authorization id in front of the command. Parsing
accepts exactly what building writes. -/
namespace NukiBridge

open Buffer Crypto

namespace Cmd

/-! `enum nuki_command_id`, as far as the firmware uses it. -/

def requestData : UInt16 := 0x0001
def publicKey : UInt16 := 0x0003
def challenge : UInt16 := 0x0004
def authAuthenticator : UInt16 := 0x0005
def authData : UInt16 := 0x0006
def authId : UInt16 := 0x0007
def keyturnerStates : UInt16 := 0x000C
def lockAction : UInt16 := 0x000D
def status : UInt16 := 0x000E
def errorReport : UInt16 := 0x0012
def requestCalibration : UInt16 := 0x001A
def authIdConfirmation : UInt16 := 0x001E

end Cmd

/-- `NUKI_STATUS_COMPLETE`. -/
def statusComplete : UInt8 := 0x00

/-- `NUKI_FRAME_MAX_LEN`. -/
def frameMaxLen : Nat := 160

/-- `NUKI_WIRE_MAX_LEN`. -/
def wireMaxLen : Nat := 256

/-- What `nuki_frame_parse_plain` stores through its output pointers. -/
structure PlainFrame where
  commandId : UInt16
  payload : List UInt8
  deriving DecidableEq, Repr

/-- What `nuki_frame_parse_auth` stores through its output pointers. -/
structure AuthFrame where
  authId : UInt32
  commandId : UInt16
  payload : List UInt8
  deriving DecidableEq, Repr

/-- Returns the frame length, or zero if the frame does not fit, and the buffer. -/
def nukiFrameBuildPlain (out : List UInt8) (outSize : Nat) (commandId : UInt16)
    (payload : List UInt8) : Nat × List UInt8 :=
  let total := 2 + payload.length + 2
  if total > outSize then (0, out)
  else
    let out := memcpy out 0 (sysPutLe16 commandId)
    let out := if payload.length ≠ 0 then memcpy out 2 payload else out
    let crc := nukiCrc16 (out.take (2 + payload.length))
    (total, memcpy out (2 + payload.length) (sysPutLe16 crc))

/-- Returns the error and the outputs, which keep their values on an error. -/
def nukiFrameParsePlain (frame : List UInt8) (out : PlainFrame) : Int × PlainFrame :=
  if frame.length < 4 then (-einval, out)
  else
    let bodyLen := frame.length - 2
    let expectedCrc := nukiCrc16 (frame.take bodyLen)
    let gotCrc := sysGetLe16 (frame.drop bodyLen)
    if expectedCrc ≠ gotCrc then (-ebadmsg, out)
    else (0, ⟨sysGetLe16 frame, (frame.drop 2).take (bodyLen - 2)⟩)

def nukiFrameBuildAuth (out : List UInt8) (outSize : Nat) (authId : UInt32)
    (commandId : UInt16) (payload : List UInt8) : Nat × List UInt8 :=
  let total := 4 + 2 + payload.length + 2
  if total > outSize then (0, out)
  else
    let out := memcpy out 0 (sysPutLe32 authId)
    let out := memcpy out 4 (sysPutLe16 commandId)
    let out := if payload.length ≠ 0 then memcpy out 6 payload else out
    let crc := nukiCrc16 (out.take (6 + payload.length))
    (total, memcpy out (6 + payload.length) (sysPutLe16 crc))

def nukiFrameParseAuth (frame : List UInt8) (out : AuthFrame) : Int × AuthFrame :=
  if frame.length < 8 then (-einval, out)
  else
    let bodyLen := frame.length - 2
    let expectedCrc := nukiCrc16 (frame.take bodyLen)
    let gotCrc := sysGetLe16 (frame.drop bodyLen)
    if expectedCrc ≠ gotCrc then (-ebadmsg, out)
    else (0, ⟨sysGetLe32 frame, sysGetLe16 (frame.drop 4), (frame.drop 6).take (bodyLen - 6)⟩)

/-- A body followed by its CRC. -/
def withCrc (body : List UInt8) : List UInt8 := body ++ sysPutLe16 (nukiCrc16 body)

/-- The wire format of a plain frame. -/
def plainFrame (commandId : UInt16) (payload : List UInt8) : List UInt8 :=
  withCrc (sysPutLe16 commandId ++ payload)

/-- The wire format of an authenticated frame before encryption. -/
def authFrame (authId : UInt32) (commandId : UInt16) (payload : List UInt8) : List UInt8 :=
  withCrc (sysPutLe32 authId ++ sysPutLe16 commandId ++ payload)

@[simp] theorem length_withCrc (body : List UInt8) : (withCrc body).length = body.length + 2 := by
  simp [withCrc]

@[simp] theorem length_plainFrame (commandId : UInt16) (payload : List UInt8) :
    (plainFrame commandId payload).length = 2 + payload.length + 2 := by
  simp [plainFrame]

@[simp] theorem length_authFrame (authId : UInt32) (commandId : UInt16) (payload : List UInt8) :
    (authFrame authId commandId payload).length = 4 + 2 + payload.length + 2 := by
  simp only [authFrame, length_withCrc, List.length_append, length_sysPutLe32,
    length_sysPutLe16]

/-- Cutting the last two bytes off a frame gives back what the checksum was computed over. -/
theorem take_withCrc (body : List UInt8) :
    (withCrc body).take ((withCrc body).length - 2) = body := by
  rw [length_withCrc, Nat.add_sub_cancel, withCrc, List.take_append_of_le_length (Nat.le_refl _),
    List.take_length]

theorem sysGetLe16_withCrc (body : List UInt8) :
    sysGetLe16 ((withCrc body).drop ((withCrc body).length - 2)) = nukiCrc16 body := by
  have hGet := sysGetLe16_sysPutLe16 (nukiCrc16 body) []
  rw [List.append_nil] at hGet
  rw [length_withCrc, Nat.add_sub_cancel, withCrc, List.drop_append_of_le_length (Nat.le_refl _),
    List.drop_length, List.nil_append, hGet]

/-- A frame whose last two bytes are the CRC of the others. -/
theorem eq_withCrc_of_match {frame : List UInt8} (h : 2 ≤ frame.length)
    (hCrc : nukiCrc16 (frame.take (frame.length - 2)) =
      sysGetLe16 (frame.drop (frame.length - 2))) :
    frame = withCrc (frame.take (frame.length - 2)) := by
  have hLen : (frame.drop (frame.length - 2)).length = 2 := by
    rw [List.length_drop]
    omega
  rw [withCrc, hCrc, sysPutLe16_sysGetLe16 hLen.ge, List.take_of_length_le hLen.le,
    List.take_append_drop]

private theorem memcpy_if_payload (out : List UInt8) (off : Nat) (payload : List UInt8) :
    (if payload.length ≠ 0 then memcpy out off payload else out) = memcpy out off payload := by
  split
  · rfl
  · rename_i hEmpty
    rw [List.eq_nil_of_length_eq_zero (not_not.mp hEmpty), memcpy_nil]

/-- Building stores the wire format if it fits, and nothing otherwise. -/
theorem nukiFrameBuildPlain_eq (out : List UInt8) (outSize : Nat) (commandId : UInt16)
    (payload : List UInt8) :
    nukiFrameBuildPlain out outSize commandId payload =
      if (plainFrame commandId payload).length ≤ outSize then
        ((plainFrame commandId payload).length, memcpy out 0 (plainFrame commandId payload))
      else (0, out) := by
  have hBody : (sysPutLe16 commandId ++ payload).length = 2 + payload.length := by simp
  rw [nukiFrameBuildPlain]
  simp only [memcpy_if_payload, length_plainFrame]
  rw [memcpy_memcpy (by simp), ← hBody, take_memcpy_zero, memcpy_memcpy rfl]
  split
  · rw [if_neg (by omega)]
  · rw [if_pos (by omega)]
    rfl

/-- Building succeeds exactly if the frame fits, and writes it to the start of the buffer. The
length zero reports that it does not fit. -/
theorem nukiFrameBuildAuth_eq (out : List UInt8) (outSize : Nat) (authId : UInt32)
    (commandId : UInt16) (payload : List UInt8) :
    nukiFrameBuildAuth out outSize authId commandId payload =
      if (authFrame authId commandId payload).length ≤ outSize then
        ((authFrame authId commandId payload).length,
          memcpy out 0 (authFrame authId commandId payload))
      else (0, out) := by
  have hBody : (sysPutLe32 authId ++ sysPutLe16 commandId ++ payload).length =
      6 + payload.length := by simp; omega
  rw [nukiFrameBuildAuth]
  simp only [memcpy_if_payload, length_authFrame]
  rw [memcpy_memcpy (by simp), memcpy_memcpy (by simp), ← hBody, take_memcpy_zero,
    memcpy_memcpy rfl]
  split
  · rw [if_neg (by omega)]
  · rw [if_pos (by omega)]
    rfl

/-- Parsing a body that carries its CRC succeeds and takes the two fields off the front. -/
theorem nukiFrameParsePlain_withCrc {body : List UInt8} (h : 2 ≤ body.length)
    (out : PlainFrame) :
    nukiFrameParsePlain (withCrc body) out = (0, ⟨sysGetLe16 body, body.drop 2⟩) := by
  rw [nukiFrameParsePlain, if_neg (by rw [length_withCrc]; omega)]
  simp only [take_withCrc, sysGetLe16_withCrc, ne_eq, not_true, if_false, ← List.drop_take]
  rw [withCrc, sysGetLe16_append _ h]

theorem nukiFrameParseAuth_withCrc {body : List UInt8} (h : 6 ≤ body.length) (out : AuthFrame) :
    nukiFrameParseAuth (withCrc body) out =
      (0, ⟨sysGetLe32 body, sysGetLe16 (body.drop 4), body.drop 6⟩) := by
  rw [nukiFrameParseAuth, if_neg (by rw [length_withCrc]; omega)]
  simp only [take_withCrc, sysGetLe16_withCrc, ne_eq, not_true, if_false, ← List.drop_take]
  rw [withCrc, sysGetLe32_append _ (by omega), List.drop_append_of_le_length (by omega),
    sysGetLe16_append _ (by rw [List.length_drop]; omega)]

/-- Parsing either finds a body with its CRC or keeps the outputs. -/
theorem nukiFrameParsePlain_cases (frame : List UInt8) (out : PlainFrame) :
    (∃ body, 2 ≤ body.length ∧ frame = withCrc body) ∨
      nukiFrameParsePlain frame out = (-einval, out) ∧ frame.length < 4 ∨
      nukiFrameParsePlain frame out = (-ebadmsg, out) ∧ 4 ≤ frame.length := by
  rw [nukiFrameParsePlain]
  split
  · rename_i hShort
    exact Or.inr (Or.inl ⟨rfl, hShort⟩)
  · rename_i hLen
    simp only
    split
    · exact Or.inr (Or.inr ⟨rfl, by omega⟩)
    · rename_i hCrc
      refine Or.inl ⟨_, ?_, eq_withCrc_of_match (by omega) (not_not.mp hCrc)⟩
      rw [List.length_take]
      omega

/-- A frame is a body with its checksum, or too short, or its checksum is wrong. The parser tells
these three apart. -/
theorem nukiFrameParseAuth_cases (frame : List UInt8) (out : AuthFrame) :
    (∃ body, 6 ≤ body.length ∧ frame = withCrc body) ∨
      nukiFrameParseAuth frame out = (-einval, out) ∧ frame.length < 8 ∨
      nukiFrameParseAuth frame out = (-ebadmsg, out) ∧ 8 ≤ frame.length := by
  rw [nukiFrameParseAuth]
  split
  · rename_i hShort
    exact Or.inr (Or.inl ⟨rfl, hShort⟩)
  · rename_i hLen
    simp only
    split
    · exact Or.inr (Or.inr ⟨rfl, by omega⟩)
    · rename_i hCrc
      refine Or.inl ⟨_, ?_, eq_withCrc_of_match (by omega) (not_not.mp hCrc)⟩
      rw [List.length_take]
      omega

theorem plainBody_eq {body : List UInt8} (h : 2 ≤ body.length) :
    sysPutLe16 (sysGetLe16 body) ++ body.drop 2 = body := by
  rw [sysPutLe16_sysGetLe16 h, List.take_append_drop]

theorem authBody_eq {body : List UInt8} (h : 6 ≤ body.length) :
    sysPutLe32 (sysGetLe32 body) ++ sysPutLe16 (sysGetLe16 (body.drop 4)) ++ body.drop 6 =
      body := by
  have hRest : sysPutLe16 (sysGetLe16 (body.drop 4)) ++ (body.drop 4).drop 2 = body.drop 4 :=
    plainBody_eq (by rw [List.length_drop]; omega)
  rw [List.drop_drop] at hRest
  rw [sysPutLe32_sysGetLe32 (by omega), List.append_assoc, hRest, List.take_append_drop]

/-- Parsing restores what building was given, for every command and payload. -/
theorem nukiFrameParsePlain_plainFrame (commandId : UInt16) (payload : List UInt8)
    (out : PlainFrame) :
    nukiFrameParsePlain (plainFrame commandId payload) out = (0, ⟨commandId, payload⟩) := by
  rw [plainFrame, nukiFrameParsePlain_withCrc (by simp), sysGetLe16_sysPutLe16]
  rfl

theorem nukiFrameParseAuth_authFrame (authId : UInt32) (commandId : UInt16)
    (payload : List UInt8) (out : AuthFrame) :
    nukiFrameParseAuth (authFrame authId commandId payload) out =
      (0, ⟨authId, commandId, payload⟩) := by
  have hDrop : (sysPutLe32 authId ++ sysPutLe16 commandId ++ payload).drop 4 =
      sysPutLe16 commandId ++ payload := rfl
  rw [authFrame, nukiFrameParseAuth_withCrc (by simp; omega), hDrop, List.append_assoc,
    sysGetLe32_sysPutLe32, sysGetLe16_sysPutLe16]
  rfl

/-- A frame has one command and one payload, so a receiver that accepts it knows what was sent. -/
theorem plainFrame_inj {cmd cmd' : UInt16} {payload payload' : List UInt8}
    (h : plainFrame cmd payload = plainFrame cmd' payload') : cmd = cmd' ∧ payload = payload' := by
  have hParse := nukiFrameParsePlain_plainFrame cmd payload ⟨0, []⟩
  rw [h, nukiFrameParsePlain_plainFrame] at hParse
  simp only [Prod.mk.injEq, PlainFrame.mk.injEq, true_and] at hParse
  exact ⟨hParse.1.symm, hParse.2.symm⟩

/-- Different commands or payloads give different frames. -/
theorem authFrame_inj {authId authId' : UInt32} {cmd cmd' : UInt16} {payload payload' : List UInt8}
    (h : authFrame authId cmd payload = authFrame authId' cmd' payload') :
    cmd = cmd' ∧ payload = payload' := by
  have hParse := nukiFrameParseAuth_authFrame authId cmd payload ⟨0, 0, []⟩
  rw [h, nukiFrameParseAuth_authFrame] at hParse
  simp only [Prod.mk.injEq, AuthFrame.mk.injEq, true_and] at hParse
  exact ⟨hParse.2.1.symm, hParse.2.2.symm⟩

/-- Parsing accepts the wire format of what it returns, and nothing else. -/
theorem nukiFrameParsePlain_eq_zero_iff (frame : List UInt8) (out f : PlainFrame) :
    nukiFrameParsePlain frame out = (0, f) ↔ frame = plainFrame f.commandId f.payload := by
  constructor
  · intro accepts
    rcases nukiFrameParsePlain_cases frame out with ⟨body, hLen, rfl⟩ | ⟨h, -⟩ | ⟨h, -⟩
    · rw [nukiFrameParsePlain_withCrc hLen, Prod.mk.injEq] at accepts
      rw [← accepts.2, plainFrame, plainBody_eq hLen]
    · exact absurd (congrArg Prod.fst (accepts.symm.trans h)) (by simp [einval])
    · exact absurd (congrArg Prod.fst (accepts.symm.trans h)) (by simp [ebadmsg])
  · rintro rfl
    exact nukiFrameParsePlain_plainFrame _ _ out

/-- The parser accepts exactly the frames that the builder makes. Nothing else has a right checksum
and all its fields. -/
theorem nukiFrameParseAuth_eq_zero_iff (frame : List UInt8) (out f : AuthFrame) :
    nukiFrameParseAuth frame out = (0, f) ↔
      frame = authFrame f.authId f.commandId f.payload := by
  constructor
  · intro accepts
    rcases nukiFrameParseAuth_cases frame out with ⟨body, hLen, rfl⟩ | ⟨h, -⟩ | ⟨h, -⟩
    · rw [nukiFrameParseAuth_withCrc hLen, Prod.mk.injEq] at accepts
      rw [← accepts.2, authFrame, authBody_eq hLen]
    · exact absurd (congrArg Prod.fst (accepts.symm.trans h)) (by simp [einval])
    · exact absurd (congrArg Prod.fst (accepts.symm.trans h)) (by simp [ebadmsg])
  · rintro rfl
    exact nukiFrameParseAuth_authFrame _ _ _ out

/-- An encoder into a buffer of a given size and a decoder that undo each other
exactly. `size` is the length of an encoded value. -/
structure ExactCodec {Value : Type} (size : Value → Nat)
    (build : List UInt8 → Nat → Value → Nat × List UInt8)
    (parse : List UInt8 → Value → Int × Value) : Prop where
  /-- What was written parses to what it was written from. -/
  parse_build : ∀ (out : List UInt8) (outSize : Nat) (value kept : Value), size value ≤ outSize →
    (build out outSize value).1 = size value ∧
      parse ((build out outSize value).2.take (size value)) kept = (0, value) ∧
      (build out outSize value).2.drop (size value) = out.drop (size value)
  /-- What is accepted is written again, byte for byte. -/
  build_parse : ∀ (frame out : List UInt8) (outSize : Nat) (value kept : Value),
    parse frame kept = (0, value) → frame.length ≤ outSize →
    build out outSize value = (frame.length, frame ++ out.drop frame.length)
  /-- Nothing is written exactly when the encoded value does not fit. -/
  build_refuses : ∀ (out : List UInt8) (outSize : Nat) (value : Value),
    ((build out outSize value).1 = 0 ↔ outSize < size value) ∧
      (outSize < size value → build out outSize value = (0, out))
  /-- What is rejected leaves the outputs as they were. -/
  parse_rejects : ∀ (frame : List UInt8) (kept : Value),
    (parse frame kept).1 ≠ 0 → (parse frame kept).2 = kept

/-- Two functions that agree with one wire format on every input. -/
theorem ExactCodec.of_wire {Value : Type} {wire : Value → List UInt8}
    {build : List UInt8 → Nat → Value → Nat × List UInt8}
    {parse : List UInt8 → Value → Int × Value} (hSize : ∀ value, 0 < (wire value).length)
    (hBuild : ∀ out outSize value, build out outSize value =
      if (wire value).length ≤ outSize then ((wire value).length, memcpy out 0 (wire value))
      else (0, out))
    (hParse : ∀ frame kept value, parse frame kept = (0, value) ↔ frame = wire value)
    (hRejects : ∀ frame kept, (parse frame kept).1 ≠ 0 → (parse frame kept).2 = kept) :
    ExactCodec (fun value => (wire value).length) build parse where
  parse_build := by
    intro out outSize value kept hFits
    rw [hBuild, if_pos hFits]
    refine ⟨rfl, ?_, ?_⟩
    · rw [hParse, take_memcpy_zero]
    · rw [memcpy_zero, List.drop_append_of_le_length (Nat.le_refl _), List.drop_length,
        List.nil_append]
  build_parse := by
    intro frame out outSize value kept accepts hFits
    obtain rfl := (hParse frame kept value).mp accepts
    rw [hBuild, if_pos hFits, memcpy_zero]
  build_refuses := by
    intro out outSize value
    have hPositive := hSize value
    rw [hBuild]
    split
    · rename_i hFits
      exact ⟨⟨fun hZero => absurd hZero hPositive.ne', fun h => absurd hFits h.not_ge⟩,
        fun h => absurd hFits h.not_ge⟩
    · rename_i hLong
      exact ⟨⟨fun _ => Nat.lt_of_not_le hLong, fun _ => rfl⟩, fun _ => rfl⟩
  parse_rejects := hRejects

theorem nukiFrameParsePlain_rejects (frame : List UInt8) (out : PlainFrame)
    (rejects : (nukiFrameParsePlain frame out).1 ≠ 0) :
    (nukiFrameParsePlain frame out).2 = out := by
  rcases nukiFrameParsePlain_cases frame out with ⟨body, hLen, rfl⟩ | ⟨h, -⟩ | ⟨h, -⟩
  · rw [nukiFrameParsePlain_withCrc hLen] at rejects
    exact absurd rfl rejects
  · rw [h]
  · rw [h]

/-- A frame that is refused leaves the fields of the caller as they were. -/
theorem nukiFrameParseAuth_rejects (frame : List UInt8) (out : AuthFrame)
    (rejects : (nukiFrameParseAuth frame out).1 ≠ 0) :
    (nukiFrameParseAuth frame out).2 = out := by
  rcases nukiFrameParseAuth_cases frame out with ⟨body, hLen, rfl⟩ | ⟨h, -⟩ | ⟨h, -⟩
  · rw [nukiFrameParseAuth_withCrc hLen] at rejects
    exact absurd rfl rejects
  · rw [h]
  · rw [h]

/-- Both codecs are exact inverses, for every identifier, payload and byte string. -/
theorem frameCodecs_exact :
    ExactCodec (fun frame : PlainFrame => 2 + frame.payload.length + 2)
        (fun out outSize frame => nukiFrameBuildPlain out outSize frame.commandId frame.payload)
        nukiFrameParsePlain ∧
      ExactCodec (fun frame : AuthFrame => 4 + 2 + frame.payload.length + 2)
        (fun out outSize frame =>
          nukiFrameBuildAuth out outSize frame.authId frame.commandId frame.payload)
        nukiFrameParseAuth := by
  constructor
  · have codec := @ExactCodec.of_wire PlainFrame
      (fun frame => plainFrame frame.commandId frame.payload) _ _
      (fun frame => by rw [length_plainFrame]; omega)
      (fun out outSize frame => nukiFrameBuildPlain_eq out outSize frame.commandId frame.payload)
      nukiFrameParsePlain_eq_zero_iff nukiFrameParsePlain_rejects
    simpa only [length_plainFrame] using codec
  · have codec := @ExactCodec.of_wire AuthFrame
      (fun frame => authFrame frame.authId frame.commandId frame.payload) _ _
      (fun frame => by rw [length_authFrame]; omega)
      (fun out outSize frame =>
        nukiFrameBuildAuth_eq out outSize frame.authId frame.commandId frame.payload)
      nukiFrameParseAuth_eq_zero_iff nukiFrameParseAuth_rejects
    simpa only [length_authFrame] using codec

end NukiBridge

import NukiBridge.Command.Encrypted
import NukiBridge.Transport.Reader

/-! What `recv_encrypted` makes of a byte stream, however it is cut into
indications: the five layers meet in the wire format of one message. -/
namespace NukiBridge

open Buffer Interaction Crypto

/-- The frame of `nuki_frame_build_auth` in a buffer of `MAX_PLAINTEXT` bytes. -/
def builtAuth (authId : UInt32) (cmd : UInt16) (payload : List UInt8) : Option (List UInt8) :=
  let (len, out) :=
    nukiFrameBuildAuth (List.replicate maxPlaintext 0) maxPlaintext authId cmd payload
  if len = 0 then none else some (out.take len)

/-- The stream starts with a message that carries the command and the payload:
nonce, any four bytes, the length, and as many bytes, sealed by `e1`. -/
def StartsWith (sharedKey : Bytes 32) (stream : List UInt8) (cmd : UInt16)
    (payload : List UInt8) : Prop :=
  ∃ (nonce : Bytes 24) (any : Bytes 4) (sealed rest : List UInt8) (authId : UInt32)
    (frame : List UInt8),
    stream = nonce.val ++ any.val ++ sysPutLe16 (UInt16.ofNat sealed.length) ++ sealed ++ rest ∧
      16 ≤ sealed.length ∧ sealed.length ≤ 216 ∧
      builtAuth authId cmd payload = some frame ∧
      nukiCryptoE1 [] frame nonce sharedKey = (0, sealed)

/-- The length field of a header. -/
def lengthField (text : List UInt8) : Nat := (sysGetLe16 (text.drop 28)).toNat

/-- The length of the message that starts with this header. -/
def messageLen (text : List UInt8) : Nat := adataHdrLen + lengthField text

/-- The bytes that follow the header, as many as it announces. -/
def sealedPart (text : List UInt8) : List UInt8 := (text.drop adataHdrLen).take (lengthField text)

/-- Up to 192 bytes of payload a frame can be built, and beyond none. -/
theorem builtAuth_eq (authId : UInt32) (cmd : UInt16) (payload : List UInt8) :
    builtAuth authId cmd payload =
      if payload.length ≤ 192 then some (authFrame authId cmd payload) else none := by
  rw [builtAuth, nukiFrameBuildAuth_eq]
  by_cases h : payload.length ≤ 192
  · have hFits : (authFrame authId cmd payload).length ≤ maxPlaintext := by
      rw [length_authFrame, maxPlaintext]
      omega
    have hTake := take_memcpy_zero (List.replicate maxPlaintext 0) (authFrame authId cmd payload)
    rw [if_pos hFits, if_pos h]
    simp only [hTake]
    exact if_neg (by rw [length_authFrame]; omega)
  · have hFits : ¬(authFrame authId cmd payload).length ≤ maxPlaintext := by
      rw [length_authFrame, maxPlaintext]
      omega
    rw [if_neg hFits, if_neg h]
    rfl

section Layout

variable (nonce : Bytes 24) (any : Bytes 4) (len : UInt16) (body : List UInt8)

private def layout : List UInt8 := nonce.val ++ any.val ++ sysPutLe16 len ++ body

/-- The parts of a header, nested to the right for the lemmas about lists. -/
private theorem layout_eq :
    layout nonce any len body = nonce.val ++ (any.val ++ (sysPutLe16 len ++ body)) := by
  simp only [layout, List.append_assoc]

private theorem ofList_layout : Bytes.ofList 24 (layout nonce any len body) = nonce := by
  apply Subtype.ext
  rw [Bytes.ofList_val (by simp [layout]), layout_eq]
  exact List.take_left' nonce.property

/-- Behind the nonce and the Authorization-ID comes the length, at offset 28. -/
private theorem drop_layout : (layout nonce any len body).drop 28 = sysPutLe16 len ++ body := by
  rw [layout_eq, ← List.append_assoc]
  exact List.drop_left' (by simp)

/-- The length field says what was put there. -/
private theorem lengthField_layout : lengthField (layout nonce any len body) = len.toNat := by
  rw [lengthField, drop_layout, sysGetLe16_sysPutLe16]

private theorem sealedPart_layout :
    sealedPart (layout nonce any len body) = body.take len.toNat := by
  have hBody : (layout nonce any len body).drop adataHdrLen = body := by
    rw [show adataHdrLen = 28 + 2 from rfl, ← List.drop_drop, drop_layout]
    exact List.drop_left' rfl
  rw [sealedPart, lengthField_layout, hBody]

/-- Every text that is long enough has this layout. -/
private theorem layout_of_text {text : List UInt8} (h : adataHdrLen ≤ text.length) :
    text = layout (Bytes.ofList 24 text) (Bytes.ofList 4 (text.drop 24))
      (sysGetLe16 (text.drop 28)) (text.drop adataHdrLen) := by
  have hLen : 30 ≤ text.length := h
  have hDrop24 : 4 ≤ (text.drop 24).length := by rw [List.length_drop]; omega
  have hDrop28 : 2 ≤ (text.drop 28).length := by rw [List.length_drop]; omega
  have hRest : (text.drop 28).take 2 ++ text.drop adataHdrLen = text.drop 28 := by
    rw [show adataHdrLen = 28 + 2 from rfl, ← List.drop_drop, List.take_append_drop]
  have hMid : (text.drop 24).take 4 ++ text.drop 28 = text.drop 24 := by
    rw [show 28 = 24 + 4 from rfl, ← List.drop_drop, List.take_append_drop]
  rw [layout_eq, Bytes.ofList_val (by omega), Bytes.ofList_val hDrop24,
    sysPutLe16_sysGetLe16 hDrop28, hRest, hMid, List.take_append_drop]

end Layout

/-- A message is read off its header: this is how `recv_encrypted` looks at it. -/
theorem startsWith_iff (sharedKey : Bytes 32) (text : List UInt8) (cmd : UInt16)
    (payload : List UInt8) :
    StartsWith sharedKey text cmd payload ↔
      adataHdrLen ≤ text.length ∧ 16 ≤ lengthField text ∧ lengthField text ≤ 216 ∧
        messageLen text ≤ text.length ∧
        ∃ authId, sealedPart text =
          secretbox (Bytes.ofList 24 text) sharedKey (authFrame authId cmd payload) := by
  constructor
  · rintro ⟨nonce, any, sealed, rest, authId, frame, hText, hMin, hMax, hFrame, hSealed⟩
    rw [List.append_assoc _ sealed rest] at hText
    change text = layout nonce any _ (sealed ++ rest) at hText
    have hLen : (UInt16.ofNat sealed.length).toNat = sealed.length :=
      UInt16.toNat_ofNat_of_lt' (by rw [UInt16.size]; omega)
    have hField : lengthField text = sealed.length := by
      rw [hText, lengthField_layout, hLen]
    have hTotal : text.length = 30 + (sealed.length + rest.length) := by
      rw [hText, layout]
      simp
      omega
    rw [builtAuth_eq] at hFrame
    split at hFrame
    · rename_i hPayload
      obtain rfl := Option.some.inj hFrame
      have hMsg : (authFrame authId cmd payload).length ≤ maxMsgLen := by
        rw [length_authFrame, maxMsgLen]
        omega
      rw [nukiCryptoE1_eq nonce sharedKey [] hMsg, memcpy_zero, List.drop_nil, List.append_nil,
        Prod.mk.injEq] at hSealed
      refine ⟨hTotal ▸ Nat.le_add_right 30 _, hField ▸ hMin, hField ▸ hMax, ?_, authId, ?_⟩
      · rw [messageLen, hField, hTotal]
        exact Nat.add_le_add_left (Nat.le_add_right _ _) 30
      · rw [hText, sealedPart_layout, hLen, ofList_layout, hSealed.2]
        exact List.take_left' rfl
    · cases hFrame
  · rintro ⟨hHeader, hMin, hMax, hTotal, authId, hSealed⟩
    have hLen : (sealedPart text).length = lengthField text := by
      rw [messageLen] at hTotal
      rw [sealedPart, List.length_take, List.length_drop]
      omega
    have hFrame : (authFrame authId cmd payload).length + 16 = lengthField text := by
      rw [← hLen, hSealed, length_secretbox, Nat.add_comm]
    have hPayload : payload.length ≤ 192 := by
      rw [length_authFrame] at hFrame
      omega
    have hMsg : (authFrame authId cmd payload).length ≤ maxMsgLen := by
      rw [maxMsgLen]
      omega
    refine ⟨Bytes.ofList 24 text, Bytes.ofList 4 (text.drop 24), sealedPart text,
      text.drop (messageLen text), authId, authFrame authId cmd payload, ?_, by omega, by omega,
      ?_, ?_⟩
    · have hField : UInt16.ofNat (sealedPart text).length = sysGetLe16 (text.drop 28) := by
        rw [hLen, lengthField, UInt16.ofNat_toNat]
      have hBody : sealedPart text ++ text.drop (messageLen text) = text.drop adataHdrLen := by
        rw [sealedPart, messageLen, ← List.drop_drop, List.take_append_drop]
      rw [hField, List.append_assoc _ (sealedPart text), hBody]
      exact layout_of_text hHeader
    · rw [builtAuth_eq, if_pos hPayload]
    · rw [nukiCryptoE1_eq _ sharedKey [] hMsg, memcpy_zero, List.drop_nil, List.append_nil, hSealed]

/-- What `recv_encrypted` returns for a stream: the message it starts with, or an
error that leaves the variables of the caller alone. -/
def Decodes (sharedKey : Bytes 32) (out : Received) (text : List UInt8)
    (result : Int × Received) : Prop :=
  (∃ cmd payload, StartsWith sharedKey text cmd payload ∧
      result = (0, ⟨cmd, memcpy out.payload 0 payload, payload.length⟩)) ∨
    (∀ cmd payload, ¬StartsWith sharedKey text cmd payload) ∧ result.1 ≠ 0 ∧ result.2 = out

section Outline

variable {allowed P Q : Feed → Prop} {text : List UInt8}

/-- Where `recv_encrypted` stands when it returns: after a message was accepted,
the buffer has been cleared. -/
def Returned (sharedKey : Bytes 32) (out : Received) (text : List UInt8) (Q : Feed → Prop)
    (result : Int × Received) (s : RxState) : Prop :=
  Decodes sharedKey out text result ∧ (result.1 = 0 → Holds Q 0 s)

/-- An error decodes a stream that starts with no message, since it leaves the variables alone. -/
private theorem decodes_error {sharedKey : Bytes 32} {out : Received} {err : Int}
    (hErr : err ≠ 0) (refused : ∀ cmd payload, ¬StartsWith sharedKey text cmd payload) :
    Decodes sharedKey out text (err, out) := Or.inr ⟨refused, hErr, rfl⟩

/-- The last part of `recv_encrypted`. Nothing is waited for any more, so the result depends on the
bytes that were taken out only. -/
theorem outline_openReceived (sharedKey : Bytes 32) (out : Received)
    (stable : ∀ f f', Q f → allowed f → f.indicate = some f' → Q f')
    (hHeader : adataHdrLen ≤ text.length) (hMin : 16 ≤ lengthField text)
    (hMax : lengthField text ≤ 216) (hTotal : messageLen text ≤ text.length) :
    (readerRules allowed).Outline (Returned sharedKey out text Q)
      (openReceived sharedKey out maxPlaintext (Bytes.ofList 24 text)
        (text.take (messageLen text)) (lengthField text - nukiTagLen)) (Holds Q 0) := by
  have hDrop : (text.take (messageLen text)).drop adataHdrLen = sealedPart text := by
    rw [List.drop_take, messageLen, Nat.add_sub_cancel_left, sealedPart]
  have hLen : ((text.take (messageLen text)).drop adataHdrLen).length =
      16 + (lengthField text - nukiTagLen) := by
    have hEnough : adataHdrLen + lengthField text ≤ text.length := hTotal
    have hTag : nukiTagLen = 16 := rfl
    rw [hDrop, sealedPart, List.length_take, List.length_drop]
    omega
  rcases openReceived_cases sharedKey out (Bytes.ofList 24 text) (text.take (messageLen text))
      (show lengthField text - 16 ≤ 200 by omega) hLen with
    ⟨authId, cmd, payload, hSealed, -, hOpen⟩ | ⟨refused, err, format, hErr, hOpen⟩
  · rw [hOpen]
    refine outline_done stable fun s h => ⟨Or.inl ⟨cmd, payload, ?_, rfl⟩, fun _ => h⟩
    rw [hDrop] at hSealed
    exact (startsWith_iff sharedKey text cmd payload).mpr
      ⟨hHeader, hMin, hMax, hTotal, authId, hSealed⟩
  · rw [hOpen]
    refine outline_log stable (outline_done stable fun s h =>
      ⟨decodes_error hErr fun cmd payload hStarts => ?_, fun h => absurd h hErr⟩)
    obtain ⟨-, -, -, -, authId, hSealed⟩ :=
      (startsWith_iff sharedKey text cmd payload).mp hStarts
    exact refused authId cmd payload (hDrop.trans hSealed)

/-- `recv_encrypted` decodes the text that arrives, and clears the buffer once the
whole message is in it. -/
theorem outline_recvEncrypted (view : View allowed P text)
    (stable : ∀ f f', Q f → allowed f → f.indicate = some f' → Q f')
    (full : adataHdrLen ≤ text.length ∧ messageLen text ≤ text.length ∨ ∀ f, P f → allowed f)
    (clears : ∀ f, P f → messageLen text ≤ f.rx.rxLen → Q { f with rx := f.rx.clear })
    (sharedKey : Bytes 32) (out : Received) :
    (readerRules allowed).Outline (Returned sharedKey out text Q)
      (recvEncrypted sharedKey out maxPlaintext) (Holds P 0) := by
  have refusedShort (h : text.length < adataHdrLen ∨ text.length < messageLen text) :
      ∀ cmd payload, ¬StartsWith sharedKey text cmd payload := by
    intro cmd payload hStarts
    obtain ⟨hHeader, -, -, hTotal, -⟩ := (startsWith_iff sharedKey text cmd payload).mp hStarts
    omega
  have hTimeout : -eagain ≠ 0 := by decide
  simp only [recvEncrypted, Code.of, Program.perform, Program.bind_eq, Program.call_bind,
    Program.done_bind]
  refine outline_waitMin view (full.imp_left And.left) (fun hHeader => ?_) fun hShort => ?_
  · rw [if_neg (not_not.mpr rfl)]
    refine outline_peek view (by decide) fun header hVal => ?_
    have hNonce : header.slice 0 24 (by decide) = Bytes.ofList 24 text := by
      apply Subtype.ext
      rw [Bytes.slice_val, Bytes.ofList_val (Nat.le_trans (by decide) hHeader), hVal,
        List.drop_zero, List.take_take]
      rfl
    have hField : (sysGetLe16 (header.val.drop 28)).toNat = lengthField text := by
      have hSplit : header.val.drop 28 ++ text.drop adataHdrLen = text.drop 28 := by
        rw [hVal, ← List.drop_append_of_le_length, List.take_append_drop]
        rw [List.length_take, Nat.min_eq_left hHeader]
        decide
      rw [lengthField, ← hSplit, sysGetLe16_append _ (by rw [List.length_drop, Bytes.length]; decide)]
    generalize header.slice 0 24 _ = nonce at hNonce ⊢
    generalize (sysGetLe16 (header.val.drop 28)).toNat = ctLen at hField ⊢
    subst hNonce hField
    split
    · rename_i hImplausible
      have refused : ∀ cmd payload, ¬StartsWith sharedKey text cmd payload := by
        intro cmd payload hStarts
        obtain ⟨-, hMin, hMax, -⟩ := (startsWith_iff sharedKey text cmd payload).mp hStarts
        exact hImplausible.elim (Nat.not_lt.mpr hMin) (Nat.not_lt.mpr hMax)
      refine outline_log view.stable (outline_reset (Q := fun _ => True) view.stable
        (fun _ _ _ _ _ => trivial) (fun _ _ _ => trivial) ?_)
      exact outline_done (fun _ _ _ _ _ => trivial) fun s _ =>
        ⟨decodes_error (show -ebadmsg ≠ 0 by decide) refused,
          fun h => absurd h (show -ebadmsg ≠ 0 by decide)⟩
    · rename_i hPlausible
      rw [not_or, Nat.not_lt, Nat.not_lt] at hPlausible
      refine outline_waitMin view (full.imp_left And.right) (fun hTotal => ?_) fun hShort => ?_
      · rw [if_neg (not_not.mpr rfl)]
        refine outline_peek view ?_ fun wire hWire => ?_
        · have hMax : lengthField text ≤ 216 := hPlausible.2
          have hTag : nukiTagLen = 16 := rfl
          change 0 + (30 + lengthField text) ≤ 256
          omega
        · rw [hWire]
          exact outline_reset view.stable stable clears
            (outline_openReceived sharedKey out stable hHeader hPlausible.1 hPlausible.2 hTotal)
      · rw [if_pos hTimeout]
        exact outline_done view.stable fun s _ =>
          ⟨decodes_error hTimeout (refusedShort (Or.inr hShort)), fun h => absurd h hTimeout⟩
  · rw [if_pos hTimeout]
    exact outline_done view.stable fun s _ =>
      ⟨decodes_error hTimeout (refusedShort (Or.inl hShort)), fun h => absurd h hTimeout⟩

end Outline

/-- A stream starts with at most one message, because the header fixes its length and the key its
content. -/
theorem startsWith_unique {sharedKey : Bytes 32} {text : List UInt8} {cmd cmd' : UInt16}
    {payload payload' : List UInt8} (h : StartsWith sharedKey text cmd payload)
    (h' : StartsWith sharedKey text cmd' payload') : cmd = cmd' ∧ payload = payload' := by
  obtain ⟨-, -, -, -, authId, hSealed⟩ := (startsWith_iff sharedKey text cmd payload).mp h
  obtain ⟨-, -, -, -, authId', hSealed'⟩ := (startsWith_iff sharedKey text cmd' payload').mp h'
  exact authFrame_inj (secretbox_injective _ sharedKey (hSealed.symm.trans hSealed'))

/-- Only what fits into the receive buffer matters: every message ends before the buffer does. -/
theorem startsWith_take (sharedKey : Bytes 32) (stream : List UInt8) (cmd : UInt16)
    (payload : List UInt8) :
    StartsWith sharedKey (stream.take wireMaxLen) cmd payload ↔
      StartsWith sharedKey stream cmd payload := by
  constructor
  · rintro ⟨nonce, any, sealed, rest, authId, frame, hText, hRest⟩
    refine ⟨nonce, any, sealed, rest ++ stream.drop wireMaxLen, authId, frame, ?_, hRest⟩
    rw [← List.append_assoc, ← hText, List.take_append_drop]
  · rintro ⟨nonce, any, sealed, rest, authId, frame, hText, hMin, hMax, hRest⟩
    refine ⟨nonce, any, sealed, rest.take (wireMaxLen - (30 + sealed.length)), authId, frame, ?_,
      hMin, hMax, hRest⟩
    have hLen : (nonce.val ++ any.val ++ sysPutLe16 (UInt16.ofNat sealed.length) ++
        sealed).length = 30 + sealed.length := by
      simp
      omega
    rw [hText, List.take_append, hLen, List.take_of_length_le]
    rw [hLen, wireMaxLen]
    omega

/-- The wire format of a message starts with that message, whatever follows. -/
theorem startsWith_wireMessage (nonce : Bytes 24) (sharedKey : Bytes 32) (authId : UInt32)
    (cmd : UInt16) {payload : List UInt8} (h : payload.length ≤ 192) (rest : List UInt8) :
    StartsWith sharedKey (wireMessage nonce sharedKey authId cmd payload ++ rest) cmd payload := by
  have hFrame : (authFrame authId cmd payload).length = 8 + payload.length := by
    rw [length_authFrame]
    omega
  have hMsg : (authFrame authId cmd payload).length ≤ maxMsgLen := by
    rw [hFrame, maxMsgLen]
    omega
  refine ⟨nonce, ⟨sysPutLe32 authId, rfl⟩, secretbox nonce sharedKey (authFrame authId cmd payload),
    rest, authId, authFrame authId cmd payload, ?_, ?_, ?_, ?_, ?_⟩
  · rw [length_secretbox, hFrame, wireMessage]
  · rw [length_secretbox]
    omega
  · rw [length_secretbox, hFrame]
    omega
  · rw [builtAuth_eq, if_pos h]
  · rw [nukiCryptoE1_eq nonce sharedKey [] hMsg, memcpy_zero, List.drop_nil, List.append_nil]

/-- The header of a message announces the length that the message has. -/
theorem messageLen_wireMessage (nonce : Bytes 24) (sharedKey : Bytes 32) (authId : UInt32)
    (cmd : UInt16) {payload : List UInt8} (h : payload.length ≤ 192) :
    messageLen (wireMessage nonce sharedKey authId cmd payload) =
      (wireMessage nonce sharedKey authId cmd payload).length := by
  have hField : lengthField (wireMessage nonce sharedKey authId cmd payload) =
      (UInt16.ofNat (nukiTagLen + (8 + payload.length))).toNat :=
    lengthField_layout nonce ⟨sysPutLe32 authId, rfl⟩ _ _
  have hLen : (UInt16.ofNat (nukiTagLen + (8 + payload.length))).toNat =
      nukiTagLen + (8 + payload.length) := by
    apply UInt16.toNat_ofNat_of_lt'
    rw [UInt16.size, nukiTagLen]
    omega
  rw [messageLen, hField, hLen, length_wireMessage, Nat.add_assoc]

/-- A transport that holds no bytes, before the chunks are indicated. -/
def RxState.emptied (rxBuf : Bytes wireMaxLen) (rxSem : Nat) (giving : Bool)
    (chunks : List (List UInt8)) : RxState where
  feed := ⟨⟨rxBuf, 0, Nat.zero_le _⟩, chunks, []⟩
  rxSem := rxSem
  giving := giving
  phase := .outside

/-- A part of the stream has been delivered. -/
def Streams (stream : List UInt8) (f : Feed) : Prop :=
  ∃ delivered, stream = delivered ++ f.current.flatten ∧ f.later = [] ∧
    f.rx.bytes = delivered.take wireMaxLen

/-- What a reader sees of a stream is a part of it, cut to the size of the accumulator. -/
theorem view_streams (stream : List UInt8) :
    View (fun _ => True) (Streams stream) (stream.take wireMaxLen) where
  stable := by
    rintro ⟨rx, current, later⟩ f' ⟨delivered, hStream, hLater, hBytes⟩ - hFeed
    subst hLater
    cases current with
    | nil => cases hFeed
    | cons data rest =>
        cases hFeed
        refine ⟨delivered ++ data, by simpa using hStream, rfl, ?_⟩
        rw [Reassembly.bytes_notify, hBytes, List.take_append, List.take_append, List.take_take,
          Nat.min_self, List.length_take]
        congr 2
        omega
  begins := by
    rintro f ⟨delivered, hStream, -, hBytes⟩
    rw [hBytes, hStream]
    exact List.prefix_take_iff.mpr
      ⟨(List.take_prefix _ _).trans (List.prefix_append _ _), List.length_take_le _ _⟩
  complete := by
    rintro f ⟨delivered, hStream, -, hBytes⟩ ⟨hCurrent, -⟩
    rw [hBytes, hStream, hCurrent, List.flatten_nil, List.append_nil]
  permits := fun _ _ _ _ => trivial

/-- Whatever is indicated to an empty transport, in whatever pieces, `recv_encrypted`
returns; it returns zero with a command and a payload exactly if the stream starts
with a message that carries them, and otherwise leaves its outputs alone. What
`send_encrypted` writes is such a message. -/
theorem recvEncrypted_exact (sharedKey : Bytes 32) (out : Received) :
    (∀ (rxBuf : Bytes wireMaxLen) (rxSem : Nat) (giving : Bool) (chunks : List (List UInt8)),
      (transport RxState.timely).Returns .free
        ⟨.emptied rxBuf rxSem giving chunks, recvEncrypted sharedKey out maxPlaintext⟩
        fun result =>
          (∀ cmd payload, StartsWith sharedKey chunks.flatten cmd payload →
            result = (0, ⟨cmd, memcpy out.payload 0 payload, payload.length⟩)) ∧
          (result.1 = 0 → ∃ cmd payload, StartsWith sharedKey chunks.flatten cmd payload) ∧
          (result.1 ≠ 0 → result.2 = out)) ∧
    ∀ (authId : UInt32) (cmd : UInt16) (payload : List UInt8), payload.length ≤ payloadMaxLen →
      (sendEncrypted authId sharedKey cmd payload =
        (Code.of (.sysRandGet nukiNonceLen)).bind fun nonce =>
          nukiTransportWrite (wireMessage nonce sharedKey authId cmd payload)) ∧
      ∀ nonce rest, StartsWith sharedKey (wireMessage nonce sharedKey authId cmd payload ++ rest)
        cmd payload := by
  refine ⟨fun rxBuf rxSem giving chunks => ?_, fun authId cmd payload h =>
    ⟨sendEncrypted_eq authId sharedKey cmd h, fun nonce rest =>
      startsWith_wireMessage nonce sharedKey authId cmd (h.trans (by decide)) rest⟩⟩
  have outline := outline_recvEncrypted (Q := fun _ => True) (view_streams chunks.flatten)
    (fun _ _ _ _ _ => trivial) (Or.inr fun _ _ => trivial) (fun _ _ _ => trivial) sharedKey out
  rw [← arrivals_true]
  refine returns_of_outline outline ⟨rfl, ⟨[], rfl, rfl, rfl⟩, Nat.zero_le _⟩ ?_
  rintro result s ⟨⟨cmd, payload, hStarts, rfl⟩ | ⟨refused, hErr, hOut⟩, -⟩
  · rw [startsWith_take] at hStarts
    refine ⟨fun cmd' payload' hStarts' => ?_, fun _ => ⟨cmd, payload, hStarts⟩,
      fun h => absurd rfl h⟩
    obtain ⟨rfl, rfl⟩ := startsWith_unique hStarts hStarts'
    rfl
  · simp only [startsWith_take] at refused
    exact ⟨fun cmd payload hStarts => absurd hStarts (refused cmd payload),
      fun h => absurd h hErr, fun _ => hOut⟩

end NukiBridge

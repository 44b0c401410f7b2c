import NukiBridge.Command.Receive
import NukiBridge.Pairing.Handshake

/-! What `recv_plain` makes of a byte stream, however it is cut into indications. The
length that it waits for is guessed from the first two bytes, and the guess is right
for each of the frames that it tells apart. -/
namespace NukiBridge

open Buffer Interaction Crypto

/-- The commands that the pairing waits for, with the lengths of their payloads. -/
def awaitedReplies : List (UInt16 × Nat) :=
  [(Cmd.publicKey, 32), (Cmd.challenge, 32), (Cmd.authId, 84), (Cmd.status, 1)]

theorem awaitedReplies_fit {expectCmd : UInt16} {payloadLen : Nat}
    (awaited : (expectCmd, payloadLen) ∈ awaitedReplies) :
    expectCmd ≠ Cmd.errorReport ∧ (expectCmd = Cmd.status → payloadLen = 1) ∧
      2 + payloadLen + 2 ≤ frameMaxLen := by
  simp only [awaitedReplies, List.mem_cons, Prod.mk.injEq, List.not_mem_nil, or_false] at awaited
  rcases awaited with ⟨rfl, rfl⟩ | ⟨rfl, rfl⟩ | ⟨rfl, rfl⟩ | ⟨rfl, rfl⟩ <;> decide

/-- What `recv_plain` returns for a stream: the payload of the expected frame that the
stream starts with, or an error that leaves the buffer of the caller alone. -/
structure ReceivesPlain {payloadLen : Nat} (expectCmd : UInt16) (payloadOut : Bytes payloadLen)
    (stream : List UInt8) (result : Int × Bytes payloadLen) : Prop where
  expected : ∀ payload : Bytes payloadLen,
    result = (0, payload) ↔ plainFrame expectCmd payload.val <+: stream
  report : ∀ report : Bytes 3, plainFrame Cmd.errorReport report.val <+: stream →
    result.1 = -eio
  status : ∀ status : Bytes 1, expectCmd ≠ Cmd.status →
    plainFrame Cmd.status status.val <+: stream → result.1 = -ebadmsg
  unchanged : result.1 ≠ 0 → result.2 = payloadOut

/-- The frames that `recv_plain` tells apart. -/
inductive Foreseen (expectCmd : UInt16) (payloadLen : Nat) : UInt16 → List UInt8 → Prop where
  | expected (payload : Bytes payloadLen) : Foreseen expectCmd payloadLen expectCmd payload.val
  | report (report : Bytes 3) : Foreseen expectCmd payloadLen Cmd.errorReport report.val
  | status (status : Bytes 1) : Foreseen expectCmd payloadLen Cmd.status status.val

/-- The length that is waited for, once the first two bytes are there. -/
def guessedLen (payloadLen : Nat) (text : List UInt8) : Nat :=
  expectedLen (sysGetLe16 text) payloadLen

section Frames

variable {payloadLen : Nat} {expectCmd cmd cmd' : UInt16} {payload payload' text : List UInt8}
  (noReport : expectCmd ≠ Cmd.errorReport) (oneByte : expectCmd = Cmd.status → payloadLen = 1)

include noReport oneByte

theorem Foreseen.length_eq (h : Foreseen expectCmd payloadLen cmd payload) :
    (plainFrame cmd payload).length = expectedLen cmd payloadLen := by
  rw [length_plainFrame]
  cases h with
  | expected payload => rw [expectedLen_eq noReport oneByte, Bytes.length]
  | report report => rw [Bytes.length, expectedLen, if_pos rfl]
  | status status => rw [Bytes.length, expectedLen, if_neg (by decide), if_pos rfl]

/-- A text starts with such a frame exactly if the guessed part of it is the frame. -/
theorem Foreseen.prefix_iff (h : Foreseen expectCmd payloadLen cmd payload) :
    plainFrame cmd payload <+: text ↔
      2 ≤ text.length ∧ guessedLen payloadLen text ≤ text.length ∧
        text.take (guessedLen payloadLen text) = plainFrame cmd payload := by
  have hLen := h.length_eq noReport oneByte
  constructor
  · intro hText
    have hGuess : guessedLen payloadLen text = (plainFrame cmd payload).length := by
      rw [guessedLen, command_of_prefix hText, hLen]
    have hFits := hText.length_le
    rw [hGuess]
    refine ⟨?_, hFits, (List.prefix_iff_eq_take.mp hText).symm⟩
    rw [length_plainFrame] at hFits
    omega
  · rintro ⟨-, -, hTake⟩
    exact hTake ▸ List.take_prefix _ _

/-- A text starts with at most one of the frames that may come, so the cases of the specification
exclude each other. -/
theorem Foreseen.unique (h : Foreseen expectCmd payloadLen cmd payload)
    (h' : Foreseen expectCmd payloadLen cmd' payload') (hText : plainFrame cmd payload <+: text)
    (hText' : plainFrame cmd' payload' <+: text) : cmd = cmd' ∧ payload = payload' := by
  have hTake := ((h.prefix_iff noReport oneByte).mp hText).2.2
  have hTake' := ((h'.prefix_iff noReport oneByte).mp hText').2.2
  exact plainFrame_inj (hTake.symm.trans hTake')

end Frames

section Opening

variable {payloadLen : Nat} {expectCmd cmd : UInt16} {out : Bytes payloadLen} {text : List UInt8}

/-- An ErrorReport in the place of the awaited frame is logged and ends the pairing with `-EIO`. -/
theorem openPlain_report (report : Bytes 3) :
    ∃ format args, openPlain expectCmd out cmd (plainFrame Cmd.errorReport report.val) =
      (Code.log format args).bind fun _ => .done (-eio, out) := by
  rw [openPlain, nukiFrameParsePlain_plainFrame]
  dsimp only
  rw [if_neg (not_not.mpr rfl), if_pos ⟨rfl, report.property⟩]
  exact ⟨_, _, rfl⟩

/-- A Status in the place of another frame is logged and ends it with `-EBADMSG`. -/
theorem openPlain_status (status : Bytes 1) (other : expectCmd ≠ Cmd.status) :
    ∃ format args, openPlain expectCmd out cmd (plainFrame Cmd.status status.val) =
      (Code.log format args).bind fun _ => .done (-ebadmsg, out) := by
  have noReport : ¬(Cmd.status = Cmd.errorReport ∧ status.val.length = 3) :=
    fun h => absurd h.1 (by decide)
  rw [openPlain, nukiFrameParsePlain_plainFrame]
  dsimp only
  rw [if_neg (not_not.mpr rfl), if_neg noReport, if_pos ⟨rfl, status.property, other⟩]
  exact ⟨_, _, rfl⟩

theorem receivesPlain_error {err : Int} (hErr : err ≠ 0)
    (expected : ∀ payload : Bytes payloadLen, ¬plainFrame expectCmd payload.val <+: text)
    (report : ∀ report : Bytes 3, plainFrame Cmd.errorReport report.val <+: text → err = -eio)
    (status : ∀ status : Bytes 1, expectCmd ≠ Cmd.status →
      plainFrame Cmd.status status.val <+: text → err = -ebadmsg) :
    ReceivesPlain expectCmd out text (err, out) where
  expected := fun payload =>
    ⟨fun h => absurd (congrArg Prod.fst h) hErr, fun h => absurd h (expected payload)⟩
  report := report
  status := status
  unchanged := fun _ => rfl

variable (noReport : expectCmd ≠ Cmd.errorReport)
  (oneByte : expectCmd = Cmd.status → payloadLen = 1)

include noReport oneByte

/-- A text that is too short for its own command starts with no frame. -/
theorem receivesPlain_short
    (short : ¬(2 ≤ text.length ∧ guessedLen payloadLen text ≤ text.length)) :
    ReceivesPlain expectCmd out text (-eagain, out) := by
  have refused {cmd : UInt16} {payload : List UInt8}
      (h : Foreseen expectCmd payloadLen cmd payload) : ¬plainFrame cmd payload <+: text := by
    intro hText
    obtain ⟨hHeader, hLen, -⟩ := (h.prefix_iff noReport oneByte).mp hText
    exact short ⟨hHeader, hLen⟩
  exact receivesPlain_error (by decide) (fun payload => refused (.expected payload))
    (fun report h => absurd h (refused (.report report)))
    fun status _ h => absurd h (refused (.status status))

theorem receivesPlain_report (report : Bytes 3)
    (hText : plainFrame Cmd.errorReport report.val <+: text) :
    ReceivesPlain expectCmd out text (-eio, out) := by
  have single {cmd : UInt16} {payload : List UInt8} (h : Foreseen expectCmd payloadLen cmd payload)
      (hOther : plainFrame cmd payload <+: text) : cmd = Cmd.errorReport :=
    (h.unique noReport oneByte (.report report) hOther hText).1
  exact receivesPlain_error (by decide)
    (fun payload hOther => noReport (single (.expected payload) hOther)) (fun _ _ => rfl)
    fun status _ hOther => absurd (single (.status status) hOther) (by decide)

theorem receivesPlain_status (other : expectCmd ≠ Cmd.status) (status : Bytes 1)
    (hText : plainFrame Cmd.status status.val <+: text) :
    ReceivesPlain expectCmd out text (-ebadmsg, out) := by
  have single {cmd : UInt16} {payload : List UInt8} (h : Foreseen expectCmd payloadLen cmd payload)
      (hOther : plainFrame cmd payload <+: text) : cmd = Cmd.status :=
    (h.unique noReport oneByte (.status status) hOther hText).1
  exact receivesPlain_error (by decide)
    (fun payload hOther => other (single (.expected payload) hOther))
    (fun report hOther => absurd (single (.report report) hOther) (by decide)) fun _ _ _ => rfl

/-- The awaited frame, with a right checksum, is the one thing that is handed out. -/
theorem receivesPlain_expected (payload : Bytes payloadLen)
    (hText : plainFrame expectCmd payload.val <+: text) :
    ReceivesPlain expectCmd out text (0, payload) where
  expected := by
    intro payload'
    constructor
    · intro hSame
      rwa [(Prod.mk.inj hSame).2] at hText
    · intro hOther
      have hSame := Foreseen.unique noReport oneByte (.expected payload) (.expected payload')
        hText hOther
      rw [Subtype.ext hSame.2]
  report := by
    intro report hOther
    have hSame := Foreseen.unique noReport oneByte (.expected payload) (.report report) hText hOther
    exact absurd hSame.1 noReport
  status := by
    intro status other hOther
    have hSame := Foreseen.unique noReport oneByte (.expected payload) (.status status) hText hOther
    exact absurd hSame.1 other
  unchanged := fun h => absurd rfl h

/-- The part of the text that was waited for decides. -/
theorem openPlain_receives (hHeader : 2 ≤ text.length)
    (hLen : guessedLen payloadLen text ≤ text.length) :
    ∃ result, ReceivesPlain expectCmd out text result ∧
      (openPlain expectCmd out cmd (text.take (guessedLen payloadLen text)) = .done result ∨
        ∃ format args, openPlain expectCmd out cmd (text.take (guessedLen payloadLen text)) =
          (Code.log format args).bind fun _ => .done result) := by
  have starts {cmd : UInt16} {payload : List UInt8}
      (h : Foreseen expectCmd payloadLen cmd payload) :
      plainFrame cmd payload <+: text ↔
        text.take (guessedLen payloadLen text) = plainFrame cmd payload :=
    (h.prefix_iff noReport oneByte).trans
      ⟨fun hText => hText.2.2, fun hTake => ⟨hHeader, hLen, hTake⟩⟩
  by_cases hReport : ∃ report : Bytes 3, plainFrame Cmd.errorReport report.val <+: text
  · obtain ⟨report, hText⟩ := hReport
    rw [(starts (.report report)).mp hText]
    exact ⟨_, receivesPlain_report noReport oneByte report hText, Or.inr (openPlain_report report)⟩
  by_cases hStatus : expectCmd ≠ Cmd.status ∧
      ∃ status : Bytes 1, plainFrame Cmd.status status.val <+: text
  · obtain ⟨other, status, hText⟩ := hStatus
    rw [(starts (.status status)).mp hText]
    exact ⟨_, receivesPlain_status noReport oneByte other status hText,
      Or.inr (openPlain_status status other)⟩
  -- Neither of the two short frames: it is the expected one, or it is refused.
  rcases openPlain_cases out cmd (text.take (guessedLen payloadLen text)) noReport with
    ⟨payload, hFrame, hOpen⟩ | ⟨refused, err, format, args, hErr, hOpen⟩
  · have hText := (starts (.expected payload)).mpr hFrame
    exact ⟨_, receivesPlain_expected noReport oneByte payload hText, Or.inl hOpen⟩
  · refine ⟨(err, out), receivesPlain_error hErr ?_ ?_ ?_, Or.inr ⟨format, args, hOpen⟩⟩
    · exact fun payload hOther => refused payload ((starts (.expected payload)).mp hOther)
    · exact fun report hOther => absurd ⟨report, hOther⟩ hReport
    · exact fun status other hOther => absurd ⟨other, status, hOther⟩ hStatus

end Opening

section Outline

variable {allowed P : Feed → Prop} {text : List UInt8} {payloadLen : Nat} {expectCmd : UInt16}

/-- `recv_plain` receives from the text that arrives: each of its two waits grants a part of it, and
the second one the whole frame. -/
theorem outline_recvPlain (view : View allowed P text)
    (full : 2 ≤ text.length ∧ guessedLen payloadLen text ≤ text.length ∨ ∀ f, P f → allowed f)
    (noReport : expectCmd ≠ Cmd.errorReport) (oneByte : expectCmd = Cmd.status → payloadLen = 1)
    (fits : 2 + payloadLen + 2 ≤ frameMaxLen) (out : Bytes payloadLen) :
    (readerRules allowed).Outline (fun result _ => ReceivesPlain expectCmd out text result)
      (recvPlain expectCmd out) (Holds P 0) := by
  have hTimeout : -eagain ≠ 0 := by decide
  have anyStable : ∀ f f' : Feed, True → allowed f → f.indicate = some f' → True :=
    fun _ _ _ _ _ => trivial
  simp only [recvPlain, Code.of, Program.perform, Program.bind_eq, Program.call_bind,
    Program.done_bind]
  refine outline_waitMin view (full.imp_left And.left) (fun hHeader => ?_) fun hShort => ?_
  · rw [if_neg (not_not.mpr rfl)]
    refine outline_peek view (by decide) fun hdr hVal => ?_
    have hCmd : sysGetLe16 hdr.val = sysGetLe16 text := by
      have hLen : 2 ≤ hdr.val.length := by rw [Bytes.length]
      rw [← sysGetLe16_append (text.drop 2) hLen, hVal, List.take_append_drop]
    generalize sysGetLe16 hdr.val = cmd at hCmd ⊢
    subst hCmd
    have hGuess : guessedLen payloadLen text ≤ frameMaxLen := by
      rw [guessedLen, expectedLen]
      split
      · decide
      · split
        · decide
        · exact fits
    have hBuffer : frameMaxLen ≤ wireMaxLen := by decide
    refine outline_waitMin view (full.imp_left And.right) (fun hLen => ?_) fun hShort => ?_
    · rw [if_neg (not_not.mpr rfl)]
      refine outline_peek view (by rw [Nat.zero_add]; exact hGuess.trans hBuffer)
        fun frame hFrame => ?_
      refine outline_reset (Q := fun _ => True) view.stable anyStable (fun _ _ _ => trivial) ?_
      obtain ⟨result, hReceives, hOpen | ⟨format, args, hOpen⟩⟩ :=
        @openPlain_receives payloadLen expectCmd (sysGetLe16 text) out text noReport oneByte
          hHeader hLen
      · rw [hFrame, ← guessedLen, hOpen]
        exact outline_done anyStable fun s _ => hReceives
      · rw [hFrame, ← guessedLen, hOpen]
        exact outline_log anyStable (outline_done anyStable fun s _ => hReceives)
    · rw [if_pos hTimeout]
      refine outline_rxLen view.stable fun got => ?_
      refine Rules.Outline.mono (outline_peek view ?_ fun seen _ => ?_)
        fun s _ h => ⟨h.1, h.2.1, (Nat.min_le_left got frameMaxLen).trans h.2.2⟩
      · rw [Nat.zero_add]
        exact (Nat.min_le_right _ _).trans hBuffer
      · refine outline_log view.stable (outline_logHexdump view.stable ?_)
        exact outline_done view.stable fun s _ =>
          receivesPlain_short noReport oneByte fun h => absurd hShort (Nat.not_lt.mpr h.2)
  · rw [if_pos hTimeout]
    exact outline_log view.stable (outline_done view.stable fun s _ =>
      receivesPlain_short noReport oneByte fun h => absurd hShort (Nat.not_lt.mpr h.1))

/-- The indications that arrive while fewer than `n` bytes are there. -/
def arriving (n : Nat) : List (List UInt8) → List UInt8
  | [] => []
  | data :: rest => if n = 0 then [] else data ++ arriving (n - data.length) rest

theorem arriving_zero (chunks : List (List UInt8)) : arriving 0 chunks = [] := by
  cases chunks <;> rfl

theorem arriving_cons {n : Nat} (h : n ≠ 0) (data : List UInt8) (rest : List (List UInt8)) :
    arriving n (data :: rest) = data ++ arriving (n - data.length) rest := if_neg h

/-- They hold as many bytes as the whole stream, up to `n`. -/
theorem take_arriving (n : Nat) (chunks : List (List UInt8)) :
    (arriving n chunks).take n = chunks.flatten.take n := by
  induction chunks generalizing n with
  | nil => rfl
  | cons data rest ih =>
      by_cases h : n = 0
      · rw [h, List.take_zero, List.take_zero]
      · rw [arriving_cons h, List.flatten_cons, List.take_append, List.take_append, ih]

/-- Of the indications that arrive while fewer than `n` bytes are there, a part has been
delivered. -/
def Arriving (n : Nat) (text : List UInt8) (f : Feed) : Prop :=
  ∃ delivered, text = (delivered ++ arriving (n - delivered.length) f.current).take wireMaxLen ∧
    f.later = [] ∧ f.rx.bytes = delivered.take wireMaxLen

/-- While the awaited bytes are not complete, the reader sees a part of them. It looks at the whole
once it is there. -/
theorem view_arriving {n : Nat} (hn : n ≤ wireMaxLen) (text : List UInt8) :
    View (fun f => f.rx.rxLen < n) (Arriving n text) text where
  stable := by
    rintro ⟨rx, current, later⟩ f' ⟨delivered, hText, hLater, hBytes⟩ hPartial hFeed
    subst hLater
    have hLen := congrArg List.length hBytes
    rw [Reassembly.length_bytes, List.length_take] at hLen
    have hMore : n - delivered.length ≠ 0 := by
      simp only at hPartial hLen
      omega
    cases current with
    | nil => cases hFeed
    | cons data rest =>
        cases hFeed
        refine ⟨delivered ++ data, ?_, rfl, ?_⟩
        · rw [hText, arriving_cons hMore, List.append_assoc, List.length_append, Nat.sub_sub]
        · rw [Reassembly.bytes_notify, hBytes, List.take_append, List.take_append, List.take_take,
            Nat.min_self, List.length_take]
          congr 2
          omega
  begins := by
    rintro f ⟨delivered, hText, -, hBytes⟩
    rw [hBytes, hText]
    exact List.prefix_take_iff.mpr
      ⟨(List.take_prefix _ _).trans (List.prefix_append _ _), List.length_take_le _ _⟩
  complete := by
    rintro f ⟨delivered, hText, -, hBytes⟩ ⟨hCurrent, -⟩
    rw [hBytes, hText, hCurrent, arriving, List.append_nil]
  permits := by
    rintro f ⟨delivered, hText, -, hBytes⟩ hPartial -
    by_contra hEnough
    have hLen := congrArg List.length hBytes
    rw [Reassembly.length_bytes, List.length_take] at hLen
    have hNone : n - delivered.length = 0 := by omega
    rw [hNone, arriving_zero, List.append_nil] at hText
    exact hPartial (hBytes.trans hText.symm)

end Outline

section Streams

variable {payloadLen : Nat} {expectCmd : UInt16} (noReport : expectCmd ≠ Cmd.errorReport)
  (oneByte : expectCmd = Cmd.status → payloadLen = 1) (fits : 2 + payloadLen + 2 ≤ frameMaxLen)

include noReport oneByte fits

/-- All frames that may come in the place of an awaited one fit into the buffer, so none is cut
while it is received. -/
theorem Foreseen.length_le {cmd : UInt16} {payload : List UInt8}
    (h : Foreseen expectCmd payloadLen cmd payload) :
    (plainFrame cmd payload).length ≤ frameMaxLen := by
  rw [h.length_eq noReport oneByte, expectedLen]
  split
  · decide
  · split
    · decide
    · exact fits

/-- Only what fits into the receive buffer matters, since each of the frames is shorter than the
buffer. -/
theorem receivesPlain_take {out : Bytes payloadLen} {stream : List UInt8}
    {result : Int × Bytes payloadLen}
    (h : ReceivesPlain expectCmd out (stream.take wireMaxLen) result) :
    ReceivesPlain expectCmd out stream result := by
  have same {cmd : UInt16} {payload : List UInt8} (h : Foreseen expectCmd payloadLen cmd payload) :
      plainFrame cmd payload <+: stream.take wireMaxLen ↔ plainFrame cmd payload <+: stream := by
    have hLen := h.length_le noReport oneByte fits
    rw [List.prefix_take_iff]
    exact and_iff_left (hLen.trans (by decide))
  exact
    { expected := fun payload => (h.expected payload).trans (same (.expected payload))
      report := fun report hText => h.report report ((same (.report report)).mpr hText)
      status := fun status other hText => h.status status other ((same (.status status)).mpr hText)
      unchanged := h.unchanged }

/-- A frame that the stream starts with is received although nothing is indicated any
more once it is there. -/
theorem receives_arriving {cmd : UInt16} {payload : List UInt8}
    (h : Foreseen expectCmd payloadLen cmd payload) (out : Bytes payloadLen)
    (rxBuf : Bytes wireMaxLen) (rxSem : Nat) (giving : Bool) {chunks : List (List UInt8)}
    (hStream : plainFrame cmd payload <+: chunks.flatten) :
    ∃ text, plainFrame cmd payload <+: text ∧
      (transport RxState.timely).Returns
        (arrivals fun f => f.rx.rxLen < (plainFrame cmd payload).length)
        ⟨.emptied rxBuf rxSem giving chunks, recvPlain expectCmd out⟩
        (ReceivesPlain expectCmd out text) := by
  let n := (plainFrame cmd payload).length
  let text := (arriving n chunks).take wireMaxLen
  have hLen : n ≤ wireMaxLen := (h.length_le noReport oneByte fits).trans (by decide)
  have hText : plainFrame cmd payload <+: text := by
    refine List.prefix_take_iff.mpr ⟨?_, hLen⟩
    rw [List.prefix_iff_eq_take.mp hStream, ← take_arriving]
    exact List.take_prefix _ _
  obtain ⟨hHeader, hGuess, -⟩ := (h.prefix_iff noReport oneByte).mp hText
  have outline := outline_recvPlain (view_arriving hLen text) (Or.inl ⟨hHeader, hGuess⟩) noReport
    oneByte fits out
  refine ⟨text, hText, returns_of_outline outline ⟨rfl, ⟨[], ?_, rfl, rfl⟩, Nat.zero_le _⟩
    fun result s received => received⟩
  rw [List.length_nil, Nat.sub_zero, List.nil_append]
  rfl

end Streams

/-- Whatever is indicated to an empty transport, in whatever pieces, `recv_plain`
returns, and what it returns depends on the frame that the stream starts with: zero
with the payload exactly for the expected frame, an error of its own for an ErrorReport
and for a Status. For these two it does not wait for more than the frame: it returns
although nothing is indicated any more once the frame is there. -/
theorem recvPlain_exact {expectCmd : UInt16} {payloadLen : Nat}
    (awaited : (expectCmd, payloadLen) ∈ awaitedReplies) (out : Bytes payloadLen)
    (rxBuf : Bytes wireMaxLen) (rxSem : Nat) (giving : Bool) (chunks : List (List UInt8)) :
    (transport RxState.timely).Returns .free
        ⟨.emptied rxBuf rxSem giving chunks, recvPlain expectCmd out⟩
        (ReceivesPlain expectCmd out chunks.flatten) ∧
      (∀ report : Bytes 3, plainFrame Cmd.errorReport report.val <+: chunks.flatten →
        (transport RxState.timely).Returns
          (arrivals fun f => f.rx.rxLen < (plainFrame Cmd.errorReport report.val).length)
          ⟨.emptied rxBuf rxSem giving chunks, recvPlain expectCmd out⟩
          fun result => result = (-eio, out)) ∧
      ∀ status : Bytes 1, expectCmd ≠ Cmd.status →
        plainFrame Cmd.status status.val <+: chunks.flatten →
        (transport RxState.timely).Returns
          (arrivals fun f => f.rx.rxLen < (plainFrame Cmd.status status.val).length)
          ⟨.emptied rxBuf rxSem giving chunks, recvPlain expectCmd out⟩
          fun result => result = (-ebadmsg, out) := by
  obtain ⟨noReport, oneByte, fits⟩ := awaitedReplies_fit awaited
  have settled {err : Int} (hErr : err ≠ 0) {text : List UInt8} {result : Int × Bytes payloadLen}
      (received : ReceivesPlain expectCmd out text result) (h : result.1 = err) :
      result = (err, out) :=
    Prod.ext h (received.unchanged (h.symm ▸ hErr))
  refine ⟨?_, fun report hStream => ?_, fun status other hStream => ?_⟩
  · have outline := outline_recvPlain (view_streams chunks.flatten) (Or.inr fun _ _ => trivial)
      noReport oneByte fits out
    rw [← arrivals_true]
    exact returns_of_outline outline ⟨rfl, ⟨[], rfl, rfl, rfl⟩, Nat.zero_le _⟩
      fun result s received => receivesPlain_take noReport oneByte fits received
  · obtain ⟨text, hText, returns⟩ := receives_arriving noReport oneByte fits (.report report) out
      rxBuf rxSem giving hStream
    exact returns.mono fun result received =>
      settled (by decide) received (received.report report hText)
  · obtain ⟨text, hText, returns⟩ := receives_arriving noReport oneByte fits (.status status) out
      rxBuf rxSem giving hStream
    exact returns.mono fun result received =>
      settled (by decide) received (received.status status other hText)

/-- A Status COMPLETE that arrives in two pieces. -/
theorem recvPlain_exact_status :
    ∃ s, (transport RxState.timely).Runs .free
      ⟨.emptied default 0 false [[0x0E], [0x00, 0x00, 0x9D, 0xD7]],
        recvPlain Cmd.status (⟨[0xFF], rfl⟩ : Bytes 1)⟩
      ⟨s, .done (0, ⟨[statusComplete], rfl⟩)⟩ := by
  have received := recvPlain_exact (by decide : (Cmd.status, 1) ∈ awaitedReplies) ⟨[0xFF], rfl⟩
    default 0 false [[0x0E], [0x00, 0x00, 0x9D, 0xD7]]
  obtain ⟨s, result, run, receives⟩ := received.1.exists_result
  obtain rfl := (receives.expected ⟨[statusComplete], rfl⟩).mpr (by decide +kernel)
  exact ⟨s, run⟩

end NukiBridge

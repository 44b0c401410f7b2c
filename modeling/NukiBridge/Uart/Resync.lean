import NukiBridge.Uart.Receive

/-! How `serial_cb` finds its way back. Without a timeout only the bytes themselves end
a frame that was cut off. So many bytes without a start byte always end it; a byte that
is rejected as a length is gone, also where it starts the next frame. -/
namespace NukiBridge

open Buffer Framing

/-- How many bytes without a start byte end the frame that is being collected. -/
def UartRx.missing (s : UartRx) : Nat :=
  match s.rxState with
  | .waitSof => 0
  | .waitCmd => uartMaxPayload + 2
  | .waitLen => uartMaxPayload + 1
  | .waitPayload => s.rxFrame.len.toNat - s.rxPayloadPos.toNat

/-- The frames that the bytes received so far can still bring without a start byte. -/
def UartRx.started (s : UartRx) : Nat := if s.rxState = .waitSof then 0 else 1

/-- However a header was forged, it swallows no more than the largest payload and the two bytes of
the header behind the start byte. -/
theorem UartRx.missing_le {s : UartRx} (inside : s.Inside) : s.missing ≤ uartMaxPayload + 2 := by
  obtain ⟨state, frame, pos⟩ := s
  cases state with
  | waitSof => exact Nat.zero_le _
  | waitCmd => exact Nat.le_refl _
  | waitLen => exact Nat.le_succ _
  | waitPayload =>
      have hLen : frame.len.toNat ≤ 32 := (inside rfl).2
      change frame.len.toNat - pos.toNat ≤ 34
      omega

theorem UartRx.waitSof_of_missing {s : UartRx} (inside : s.Inside) (h : s.missing = 0) :
    s.rxState = .waitSof := by
  obtain ⟨state, frame, pos⟩ := s
  cases state with
  | waitSof => rfl
  | waitCmd => cases h
  | waitLen => cases h
  | waitPayload =>
      have hPos : pos.toNat < frame.len.toNat := (inside rfl).1
      change frame.len.toNat - pos.toNat = 0 at h
      omega

/-- A byte that is no start byte brings the end of the frame nearer. -/
theorem serialByte_missing {s : UartRx} (inside : s.Inside) {c : UInt8}
    (other : c ≠ uartFrameSofReq) :
    (serialByte s c).1.missing ≤ s.missing - 1 ∧
      (serialByte s c).2.toList.length + (serialByte s c).1.started ≤ s.started := by
  obtain ⟨state, frame, pos⟩ := s
  cases state with
  | waitSof =>
      simp only [serialByte, if_neg other]
      exact ⟨Nat.zero_le _, Nat.le_refl _⟩
  | waitCmd => exact ⟨Nat.le_refl _, Nat.le_refl _⟩
  | waitLen =>
      by_cases hLong : uartMaxPayload < c.toNat
      · simp only [serialByte, if_pos hLong]
        exact ⟨Nat.zero_le _, Nat.zero_le _⟩
      · by_cases hEmpty : c = 0
        · simp only [serialByte, if_neg hLong, if_pos hEmpty]
          exact ⟨Nat.zero_le _, Nat.le_refl _⟩
        · simp only [serialByte, if_neg hLong, if_neg hEmpty]
          exact ⟨Nat.le_of_not_lt hLong, Nat.le_refl _⟩
  | waitPayload =>
      obtain ⟨hPos, hLen, hNext⟩ := inside.next
      by_cases hFull : pos + 1 = frame.len
      · simp only [serialByte, if_pos hFull]
        exact ⟨Nat.zero_le _, Nat.le_refl _⟩
      · simp only [serialByte, if_neg hFull]
        refine ⟨?_, Nat.le_refl _⟩
        change frame.len.toNat - (pos + 1).toNat ≤ frame.len.toNat - pos.toNat - 1
        omega

/-- What a stretch of `n` bytes without a start byte leaves: nothing is collected that
was not begun before it, and at most the frame begun before it is put into the queue. -/
structure Uart.Settles (u v : Uart) (n : Nat) : Prop where
  missing : v.rx.missing ≤ u.rx.missing - n
  offered : v.offered.length + v.rx.started ≤ u.offered.length + u.rx.started

namespace Uart.Settles

theorem refl (u : Uart) : u.Settles u 0 := ⟨Nat.le_refl _, Nat.le_refl _⟩

theorem trans {u v w : Uart} {m n : Nat} (first : u.Settles v m) (second : v.Settles w n) :
    u.Settles w (m + n) where
  missing := by
    have := first.missing
    have := second.missing
    omega
  offered := Nat.le_trans second.offered first.offered

theorem byte {u : Uart} (inside : u.rx.Inside) {c : UInt8} (other : c ≠ uartFrameSofReq) :
    u.Settles (u.byte c) 1 := by
  obtain ⟨hMissing, hStarted⟩ := serialByte_missing inside other
  rw [Uart.byte]
  generalize serialByte u.rx c = result at hMissing hStarted
  obtain ⟨rx, out⟩ := result
  cases out with
  | none =>
      refine ⟨hMissing, ?_⟩
      change 0 + rx.started ≤ u.rx.started at hStarted
      change u.offered.length + rx.started ≤ _
      omega
  | some frame =>
      refine ⟨hMissing, ?_⟩
      change 1 + rx.started ≤ u.rx.started at hStarted
      simp only [List.length_append, List.length_singleton]
      omega

/-- Bytes without a start byte use up what is missing. Once nothing is missing the state machine
waits for a start byte. -/
theorem serialCb {bytes burst : List UInt8} {u : Uart} (parsed : u.Parsed bytes)
    (quiet : ∀ c ∈ burst, c ≠ uartFrameSofReq) : u.Settles (u.serialCb burst) burst.length := by
  induction burst generalizing u bytes with
  | nil => exact .refl u
  | cons c burst ih =>
      have first := byte parsed.inside (quiet c List.mem_cons_self)
      have rest := ih (parsed.byte c) fun other h => quiet other (List.mem_cons_of_mem _ h)
      rw [List.length_cons, Nat.add_comm]
      exact first.trans rest

theorem takeFrame (u : Uart) : u.Settles u.takeFrame 0 := by
  rw [Uart.takeFrame]
  split
  · exact .refl u
  · exact ⟨Nat.le_refl _, Nat.le_refl _⟩

theorem run {actions : List UartAction} {bytes : List UInt8} {u : Uart} (parsed : u.Parsed bytes)
    (quiet : ∀ c ∈ actions.flatMap UartAction.bytes, c ≠ uartFrameSofReq) :
    u.Settles (u.run actions) (actions.flatMap UartAction.bytes).length := by
  induction actions generalizing u bytes with
  | nil => exact .refl u
  | cons action actions ih =>
      have hRest : ∀ c ∈ actions.flatMap UartAction.bytes, c ≠ uartFrameSofReq := fun c h =>
        quiet c (by rw [List.flatMap_cons]; exact List.mem_append_right _ h)
      rw [List.flatMap_cons, List.length_append]
      cases action with
      | burst burst =>
          have hBurst : ∀ c ∈ burst, c ≠ uartFrameSofReq := fun c h =>
            quiet c (by rw [List.flatMap_cons]; exact List.mem_append_left _ h)
          exact (serialCb parsed hBurst).trans (ih (parsed.serialCb burst) hRest)
      | take => exact (takeFrame u).trans (ih parsed.takeFrame hRest)

end Uart.Settles

namespace Uart

/-- The frames that were put into the queue stay on record. -/
theorem offered_byte (u : Uart) (c : UInt8) : u.offered <+: (u.byte c).offered := by
  rw [byte]
  split
  · exact List.prefix_refl _
  · exact List.prefix_append _ _

theorem offered_serialCb (u : Uart) (burst : List UInt8) :
    u.offered <+: (u.serialCb burst).offered := by
  induction burst generalizing u with
  | nil => exact List.prefix_refl _
  | cons c burst ih => exact (u.offered_byte c).trans (ih (u.byte c))

theorem offered_takeFrame (u : Uart) : u.takeFrame.offered = u.offered := by
  rw [takeFrame]
  split <;> rfl

/-- Frames that were offered stay offered: the later bytes never take one back. -/
theorem offered_run (u : Uart) (actions : List UartAction) :
    u.offered <+: (u.run actions).offered := by
  induction actions generalizing u with
  | nil => exact List.prefix_refl _
  | cons action actions ih =>
      cases action with
      | burst burst => exact (u.offered_serialCb burst).trans (ih (u.serialCb burst))
      | take =>
          have hRest := ih u.takeFrame
          rwa [offered_takeFrame] at hRest

end Uart

/-- Behind a receiver that waits for a start byte, a whole request brings one frame. -/
theorem offered_request {v : Uart} {bytes : List UInt8} (parsed : v.Parsed bytes)
    (idle : v.rx.rxState = .waitSof) {request : List UartAction} {packet : Packet}
    (fits : packet.payload.length ≤ uartMaxPayload)
    (next : request.flatMap UartAction.bytes = packet.bytes uartFrameSofReq) :
    ∃ offer, (v.run request).offered = v.offered ++ [offer] ∧ offer.frame.packet = packet := by
  have hPending : v.rx.pending = [] := by rw [UartRx.pending, idle]
  have done := parsed.run request
  have hBefore := parsed.grammar (packet.bytes uartFrameSofReq)
  have hAfter := done.grammar []
  have hPacket := @packets_bytes uartFrameSofReq uartMaxPayload packet [] fits (by decide)
  rw [List.append_nil, packets_nil] at hPacket
  rw [hPending, List.nil_append, hPacket] at hBefore
  rw [next, List.append_nil, List.append_nil, Uart.Parsed.packets_pending done.inside,
    List.append_nil, hBefore] at hAfter
  obtain ⟨late, hLate⟩ := v.offered_run request
  rw [← hLate, List.map_append, List.append_cancel_left_eq] at hAfter
  match late with
  | [] => cases hAfter
  | [offer] =>
      refine ⟨offer, hLate.symm, ?_⟩
      rw [List.map_singleton, List.cons.injEq] at hAfter
      exact hAfter.1.symm
  | first :: second :: late => cases hAfter

/-- After any history, 34 bytes without a start byte leave the receiver waiting for one and
bring at most one frame. The next request then arrives as it was sent: it is put into the
queue, and taken from there unless four frames are waiting. -/
theorem resync_bounded (history quiet request : List UartAction) (packet : Packet)
    (long : 34 ≤ (quiet.flatMap UartAction.bytes).length)
    (noSof : ∀ c ∈ quiet.flatMap UartAction.bytes, c ≠ uartFrameSofReq)
    (fits : packet.payload.length ≤ uartMaxPayload)
    (next : request.flatMap UartAction.bytes = packet.bytes uartFrameSofReq) :
    let u := Uart.boot.run history
    let v := u.run quiet
    let w := v.run request
    v.rx.rxState = .waitSof ∧
      (∃ late, v.offered = u.offered ++ late ∧ late.length ≤ 1) ∧
      ∃ offer, w.offered = v.offered ++ [offer] ∧ offer.frame.packet = packet ∧
        offer.frame.len.toNat = packet.payload.length ∧
        (offer.waiting < 4 → w.taken ++ w.nukiUartMsgq.waiting =
          v.taken ++ v.nukiUartMsgq.waiting ++ [offer.frame]) := by
  intro u v w
  have before := Uart.Parsed.boot.run history
  have parsed := before.run quiet
  have done := parsed.run request
  have settles := Uart.Settles.run before noSof
  have idle : v.rx.rxState = .waitSof := by
    apply UartRx.waitSof_of_missing parsed.inside
    have hStart : u.rx.missing ≤ 34 := UartRx.missing_le before.inside
    have hMissing := settles.missing
    change v.rx.missing ≤ u.rx.missing - _ at hMissing
    change v.rx.missing = 0
    omega
  obtain ⟨offer, hOffered, hPacket⟩ := offered_request parsed idle fits next
  have hFits : offer.frame.len.toNat ≤ uartMaxPayload :=
    done.fits offer (by rw [hOffered]; exact List.mem_append_right _ List.mem_cons_self)
  refine ⟨idle, ?_, offer, hOffered, hPacket, ?_, ?_⟩
  · obtain ⟨late, hLate⟩ := u.offered_run quiet
    refine ⟨late, hLate.symm, ?_⟩
    have hCount : v.offered.length + v.rx.started ≤ u.offered.length + u.rx.started :=
      settles.offered
    have hStarted : u.rx.started ≤ 1 := by
      rw [UartRx.started]
      split <;> omega
    have hLength := congrArg List.length hLate
    rw [List.length_append] at hLength
    change _ = v.offered.length at hLength
    omega
  · rw [← hPacket, RxFrame.length_packet hFits]
  · intro hRoom
    have hQueued := done.queued
    rw [hOffered, List.filter_append, List.map_append, ← parsed.queued] at hQueued
    rw [List.filter_cons_of_pos (by simpa using hRoom)] at hQueued
    exact hQueued

/-- A LOCK request cut off after its length, 34 zero bytes, and a STATUS request. -/
theorem resync_bounded_truncated :
    (Uart.boot.run [.burst [0xA5, 4, 3], .burst (List.replicate 34 0)]).rx.rxState = .waitSof := by
  have hQuiet : [UartAction.burst (List.replicate 34 0)].flatMap UartAction.bytes =
      List.replicate 34 0 := rfl
  have hNoSof : ∀ c ∈ [UartAction.burst (List.replicate 34 0)].flatMap UartAction.bytes,
      c ≠ uartFrameSofReq := by
    intro c hMem
    rw [hQuiet] at hMem
    rw [List.eq_of_mem_replicate hMem]
    decide
  have h := resync_bounded [.burst [0xA5, 4, 3]] [.burst (List.replicate 34 0)]
    [.take, .burst [0xA5, 1, 0]] ⟨1, []⟩ (by decide) hNoSof (by decide) rfl
  exact h.1

namespace UartRx

/-- The loop for some bytes: what it leaves, and the frames that it puts into the queue. -/
def feed (s : UartRx) : List UInt8 → UartRx × List RxFrame
  | [] => (s, [])
  | c :: rest =>
      let (s', out) := serialByte s c
      let (last, more) := s'.feed rest
      (last, out.toList ++ more)

theorem feed_cons (s : UartRx) (c : UInt8) (rest : List UInt8) :
    s.feed (c :: rest) = (((serialByte s c).1.feed rest).1,
      (serialByte s c).2.toList ++ ((serialByte s c).1.feed rest).2) := rfl

/-- Waiting for a start byte again. -/
def hunting (s : UartRx) : UartRx := { s with rxState := .waitSof }

/-- A length that is too large ends the frame at once, and the length byte itself is not looked at
again. -/
theorem feed_rejected {s : UartRx} (h : s.rxState = .waitLen) {c : UInt8}
    (long : uartMaxPayload < c.toNat) (rest : List UInt8) :
    s.feed (c :: rest) = s.hunting.feed rest := by
  have hStep : serialByte s c = (s.hunting, none) := by
    rw [serialByte, h]
    exact if_pos long
  rw [feed_cons, hStep]
  rfl

end UartRx

/-- Wherever the receiver abandons a frame on this stream, it goes on as one that waits for
a start byte and has yet to see the rejected byte: at every point of the rest it is in the
same state and has put the same frames into the queue. -/
def Resynchronises (stream : List UInt8) : Prop :=
  ∀ before c after, stream = before ++ c :: after →
    (UartRx.boot.feed before).1.rxState = .waitLen → uartMaxPayload < c.toNat →
      ∀ part, part <+: after → (UartRx.boot.feed before).1.feed (c :: part) =
        (UartRx.boot.feed before).1.hunting.feed (c :: part)

/-- A start byte of the stream is rejected as a length. -/
def SofRejected (stream : List UInt8) : Prop :=
  ∃ before after, stream = before ++ uartFrameSofReq :: after ∧
    (UartRx.boot.feed before).1.rxState = .waitLen

/-- A stream is resynchronised exactly if no start byte of it is rejected as a length. -/
theorem resynchronises_iff (stream : List UInt8) :
    Resynchronises stream ↔ ¬SofRejected stream := by
  constructor
  · rintro resync ⟨before, after, hStream, hState⟩
    have hLong : uartMaxPayload < uartFrameSofReq.toNat := by decide
    have hSame := resync before _ after hStream hState hLong [] List.nil_prefix
    rw [UartRx.feed_rejected hState hLong] at hSame
    have hStates := congrArg (fun result => result.1.rxState) hSame
    cases hStates
  · intro clean before c after hStream hState hLong part _
    have hOther : c ≠ uartFrameSofReq := by
      rintro rfl
      exact clean ⟨before, after, hStream, hState⟩
    have hSkip : serialByte (UartRx.boot.feed before).1.hunting c =
        ((UartRx.boot.feed before).1.hunting, none) := if_neg hOther
    rw [UartRx.feed_rejected hState hLong, UartRx.feed_cons, hSkip]
    rfl

/-- A LOCK request cut off after its command costs the STATUS request behind it. -/
theorem not_resynchronises_truncated :
    ¬Resynchronises [0xA5, 4, 0xA5, 1, 0] ∧
      (UartRx.boot.feed [0xA5, 4, 0xA5, 1, 0]).2 = [] ∧
      (UartRx.boot.feed [0xA5, 4]).1.rxState = .waitLen ∧
      (UartRx.boot.feed [0xA5, 4]).1.hunting.feed [0xA5, 1, 0] =
        (⟨.waitSof, ⟨1, 0, .zero 32⟩, 0⟩, [⟨1, 0, .zero 32⟩]) := by
  refine ⟨?_, rfl, rfl, rfl⟩
  intro resync
  have hSame := resync [0xA5, 4] 0xA5 [1, 0] rfl rfl (by decide) [1, 0] (List.prefix_refl _)
  have hFrames := congrArg Prod.snd hSame
  cases hFrames

end NukiBridge

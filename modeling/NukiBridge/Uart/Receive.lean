import NukiBridge.Buffer.Memory
import NukiBridge.Framing.Grammar

/-! `serial_cb` of `nuki_uart_proto.c`: the interrupt handler collects request frames
byte by byte and hands them to a queue of four. What it collects is what the frame
grammar finds in the bytes received so far, however they are cut into bursts. -/
namespace NukiBridge

open Buffer Framing

/-- `NUKI_UART_FRAME_SOF_REQ`. -/
def uartFrameSofReq : UInt8 := 0xA5

/-- `NUKI_UART_FRAME_SOF_RESP`. -/
def uartFrameSofResp : UInt8 := 0x5A

/-- `NUKI_UART_MAX_PAYLOAD`. -/
abbrev uartMaxPayload : Nat := 32

/-- `struct rx_frame`. -/
structure RxFrame where
  cmd : UInt8
  len : UInt8
  payload : Bytes uartMaxPayload
  deriving DecidableEq

/-- `enum rx_state`. -/
inductive UartRxState where
  | waitSof
  | waitCmd
  | waitLen
  | waitPayload
  deriving DecidableEq, Repr

/-- What the interrupt handler keeps between two bursts. -/
structure UartRx where
  rxState : UartRxState
  rxFrame : RxFrame
  rxPayloadPos : UInt8

/-- The static initial values. -/
def UartRx.boot : UartRx := ⟨.waitSof, ⟨0, 0, .zero 32⟩, 0⟩

/-- The loop body for the byte `c`, and the frame that it puts into the queue. -/
def serialByte (s : UartRx) (c : UInt8) : UartRx × Option RxFrame :=
  match s.rxState with
  | .waitSof => if c = uartFrameSofReq then ({ s with rxState := .waitCmd }, none) else (s, none)
  | .waitCmd => ({ s with rxFrame := { s.rxFrame with cmd := c }, rxState := .waitLen }, none)
  | .waitLen =>
      if uartMaxPayload < c.toNat then ({ s with rxState := .waitSof }, none)
      else
        let frame := { s.rxFrame with len := c }
        if frame.len = 0 then (⟨.waitSof, frame, 0⟩, some frame)
        else (⟨.waitPayload, frame, 0⟩, none)
  | .waitPayload =>
      let frame := { s.rxFrame with payload := s.rxFrame.payload.set s.rxPayloadPos.toNat c }
      let pos := s.rxPayloadPos + 1
      if pos = frame.len then (⟨.waitSof, frame, pos⟩, some frame)
      else (⟨.waitPayload, frame, pos⟩, none)

/-- The request that a frame stands for: bytes behind its length are left over from
earlier ones. -/
def RxFrame.packet (frame : RxFrame) : Packet :=
  ⟨frame.cmd, frame.payload.val.take frame.len.toNat⟩

/-- The part of a frame that has arrived. -/
def UartRx.pending (s : UartRx) : List UInt8 :=
  match s.rxState with
  | .waitSof => []
  | .waitCmd => [uartFrameSofReq]
  | .waitLen => [uartFrameSofReq, s.rxFrame.cmd]
  | .waitPayload => uartFrameSofReq :: s.rxFrame.cmd :: s.rxFrame.len ::
      s.rxFrame.payload.val.take s.rxPayloadPos.toNat

/-- Payload bytes are written below the length of the frame, which fits the buffer. -/
def UartRx.Inside (s : UartRx) : Prop :=
  s.rxState = .waitPayload →
    s.rxPayloadPos.toNat < s.rxFrame.len.toNat ∧ s.rxFrame.len.toNat ≤ uartMaxPayload

/-- The next position does not wrap around, since the payload ends before the index does. -/
theorem UartRx.Inside.next {frame : RxFrame} {pos : UInt8}
    (inside : UartRx.Inside ⟨.waitPayload, frame, pos⟩) :
    pos.toNat < frame.len.toNat ∧ frame.len.toNat ≤ uartMaxPayload ∧
      (pos + 1).toNat = pos.toNat + 1 := by
  obtain ⟨hPos, hLen⟩ := inside rfl
  change pos.toNat < frame.len.toNat at hPos
  change frame.len.toNat ≤ 32 at hLen
  refine ⟨hPos, hLen, ?_⟩
  rw [UInt8.toNat_add]
  exact Nat.mod_eq_of_lt (by omega : pos.toNat + 1 < 256)

/-- What one byte does: the handler stays inside the buffer, a frame that it hands over
fits, and the grammar finds that frame at the front of what was pending. -/
theorem serialByte_step {s : UartRx} (inside : s.Inside) (c : UInt8) (rest : List UInt8) :
    (serialByte s c).1.Inside ∧
      (∀ frame ∈ (serialByte s c).2, frame.len.toNat ≤ uartMaxPayload) ∧
      packets uartFrameSofReq uartMaxPayload (s.pending ++ c :: rest) =
        (serialByte s c).2.toList.map RxFrame.packet ++
          packets uartFrameSofReq uartMaxPayload ((serialByte s c).1.pending ++ rest) := by
  obtain ⟨state, frame, pos⟩ := s
  cases state with
  | waitSof =>
      by_cases hSof : c = uartFrameSofReq
      · subst hSof
        exact ⟨fun h => (by cases h), fun _ h => (by cases h), rfl⟩
      · simp only [serialByte, if_neg hSof]
        exact ⟨inside, fun _ h => (by cases h), packets_skip rest hSof⟩
  | waitCmd => exact ⟨fun h => (by cases h), fun _ h => (by cases h), rfl⟩
  | waitLen =>
      by_cases hLong : uartMaxPayload < c.toNat
      · simp only [serialByte, if_pos hLong]
        exact ⟨fun h => (by cases h), fun _ h => (by cases h), packets_reject rest hLong⟩
      · by_cases hEmpty : c = 0
        · subst hEmpty
          simp only [serialByte, if_neg hLong, if_true]
          refine ⟨fun h => (by cases h), ?_, ?_⟩
          · intro out h
            cases h
            exact Nat.zero_le _
          · exact @packets_complete _ _ frame.cmd 0 [] rest rfl (Nat.zero_le _)
        · have hPositive : 0 < c.toNat := by
            apply Nat.pos_of_ne_zero
            intro hZero
            exact hEmpty (UInt8.toNat_inj.mp hZero)
          simp only [serialByte, if_neg hLong, if_neg hEmpty]
          exact ⟨fun _ => ⟨hPositive, Nat.le_of_not_lt hLong⟩, fun _ h => (by cases h), rfl⟩
  | waitPayload =>
      obtain ⟨hPos, hLen, hNext⟩ := inside.next
      have hStored : (frame.payload.set pos.toNat c).val.take (pos + 1).toNat =
          frame.payload.val.take pos.toNat ++ [c] := by
        rw [hNext]
        exact frame.payload.take_set c (Nat.lt_of_lt_of_le hPos hLen)
      have hPending : frame.payload.val.take pos.toNat ++ c :: rest =
          (frame.payload.set pos.toNat c).val.take (pos + 1).toNat ++ rest := by
        rw [hStored, List.append_assoc]
        rfl
      by_cases hFull : pos + 1 = frame.len
      · have hTaken : ((frame.payload.set pos.toNat c).val.take (pos + 1).toNat).length =
            frame.len.toNat := by
          rw [List.length_take, Bytes.length, hFull]
          exact Nat.min_eq_left hLen
        simp only [serialByte, if_pos hFull]
        refine ⟨fun h => (by cases h), ?_, ?_⟩
        · intro out h
          cases h
          exact hLen
        · change packets _ _ (_ :: _ :: _ :: (_ ++ c :: rest)) = _
          rw [hPending, packets_complete rest hTaken hLen, hFull]
          rfl
      · simp only [serialByte, if_neg hFull]
        refine ⟨fun _ => ⟨?_, hLen⟩, fun _ h => (by cases h), ?_⟩
        · have hOther : (pos + 1).toNat ≠ frame.len.toNat := fun h =>
            hFull (UInt8.toNat_inj.mp h)
          change (pos + 1).toNat < frame.len.toNat
          omega
        · change packets _ _ (_ :: _ :: _ :: (_ ++ c :: rest)) = _
          rw [hPending]
          rfl

/-- `k_msgq`: a queue of at most `maxMsgs` messages. -/
structure Msgq (Msg : Type) (maxMsgs : Nat) where
  waiting : List Msg
  bound : waiting.length ≤ maxMsgs

namespace Msgq

variable {Msg : Type} {maxMsgs : Nat}

def empty : Msgq Msg maxMsgs := ⟨[], Nat.zero_le _⟩

/-- `k_msgq_put` with `K_NO_WAIT`: a full queue stays as it is. -/
def put (q : Msgq Msg maxMsgs) (msg : Msg) : Msgq Msg maxMsgs :=
  if h : q.waiting.length < maxMsgs then
    ⟨q.waiting ++ [msg], by rw [List.length_append]; exact h⟩
  else q

/-- `k_msgq_get`, if a message waits. -/
def get (q : Msgq Msg maxMsgs) : Option (Msg × Msgq Msg maxMsgs) :=
  match h : q.waiting with
  | [] => none
  | msg :: rest => some (msg, ⟨rest, by have := q.bound; rw [h, List.length_cons] at this; omega⟩)

theorem waiting_put (q : Msgq Msg maxMsgs) (msg : Msg) :
    (q.put msg).waiting = if q.waiting.length < maxMsgs then q.waiting ++ [msg] else q.waiting := by
  rw [put]
  split <;> rfl

theorem waiting_get {q q' : Msgq Msg maxMsgs} {msg : Msg} (h : q.get = some (msg, q')) :
    q.waiting = msg :: q'.waiting := by
  rw [get] at h
  split at h
  · cases h
  · rename_i first rest hWaiting
    cases h
    exact hWaiting

end Msgq

/-- A frame that the handler put, and how many frames waited then. -/
structure Offer where
  frame : RxFrame
  waiting : Nat

/-- The handler, its queue, and as ghosts the frames that were put into the queue and
those that the thread took out. -/
structure Uart where
  rx : UartRx
  nukiUartMsgq : Msgq RxFrame 4
  offered : List Offer
  taken : List RxFrame

namespace Uart

def boot : Uart := ⟨.boot, .empty, [], []⟩

/-- One pass of the loop of `serial_cb`. -/
def byte (u : Uart) (c : UInt8) : Uart :=
  match serialByte u.rx c with
  | (rx, none) => { u with rx }
  | (rx, some frame) =>
      { u with
        rx
        nukiUartMsgq := u.nukiUartMsgq.put frame
        offered := u.offered ++ [⟨frame, u.nukiUartMsgq.waiting.length⟩] }

/-- `serial_cb` for the bytes that one interrupt finds in the FIFO. -/
def serialCb (u : Uart) (burst : List UInt8) : Uart := burst.foldl byte u

/-- `nuki_uart_thread_fn` takes the next frame, if one waits. -/
def takeFrame (u : Uart) : Uart :=
  match u.nukiUartMsgq.get with
  | none => u
  | some (frame, q) => { u with nukiUartMsgq := q, taken := u.taken ++ [frame] }

end Uart

/-- What happens at the queue: an interrupt with its bytes, or the thread at its head. -/
inductive UartAction where
  | burst (bytes : List UInt8)
  | take

def UartAction.bytes : UartAction → List UInt8
  | .burst bytes => bytes
  | .take => []

def Uart.step (u : Uart) : UartAction → Uart
  | .burst bytes => u.serialCb bytes
  | .take => u.takeFrame

def Uart.run (u : Uart) (actions : List UartAction) : Uart := actions.foldl step u

/-- What holds after the bytes `bytes` in every interleaving. -/
structure Uart.Parsed (bytes : List UInt8) (u : Uart) : Prop where
  inside : u.rx.Inside
  parser : u.rx = bytes.foldl (fun rx c => (serialByte rx c).1) .boot
  grammar : ∀ rest, packets uartFrameSofReq uartMaxPayload (bytes ++ rest) =
    u.offered.map (fun offer => offer.frame.packet) ++
      packets uartFrameSofReq uartMaxPayload (u.rx.pending ++ rest)
  fits : ∀ offer ∈ u.offered, offer.frame.len.toNat ≤ uartMaxPayload
  queued : u.taken ++ u.nukiUartMsgq.waiting =
    (u.offered.filter fun offer => offer.waiting < 4).map Offer.frame

namespace Uart.Parsed

theorem boot : Uart.boot.Parsed [] where
  inside := fun h => by cases h
  parser := rfl
  grammar := fun _ => rfl
  fits := fun _ h => by cases h
  queued := rfl

/-- One byte extends what was parsed. -/
theorem byte {bytes : List UInt8} {u : Uart} (parsed : u.Parsed bytes) (c : UInt8) :
    (u.byte c).Parsed (bytes ++ [c]) := by
  have hStep := serialByte_step parsed.inside c
  have hParser : (serialByte u.rx c).1 =
      (bytes ++ [c]).foldl (fun rx c => (serialByte rx c).1) .boot := by
    rw [List.foldl_append, ← parsed.parser]
    rfl
  have hGrammar : ∀ rest, packets uartFrameSofReq uartMaxPayload (bytes ++ [c] ++ rest) =
      u.offered.map (fun offer => offer.frame.packet) ++
        ((serialByte u.rx c).2.toList.map RxFrame.packet ++
          packets uartFrameSofReq uartMaxPayload ((serialByte u.rx c).1.pending ++ rest)) := by
    intro rest
    rw [← (hStep rest).2.2, List.append_assoc]
    exact parsed.grammar (c :: rest)
  have hInside := (hStep []).1
  have hFits := (hStep []).2.1
  rw [Uart.byte]
  generalize serialByte u.rx c = result at hParser hGrammar hInside hFits
  obtain ⟨rx, out⟩ := result
  cases out with
  | none => exact ⟨hInside, hParser, hGrammar, parsed.fits, parsed.queued⟩
  | some frame =>
      refine ⟨hInside, hParser, ?_, ?_, ?_⟩
      · intro rest
        rw [hGrammar, List.map_append, List.append_assoc]
        rfl
      · intro offer hOffer
        rcases List.mem_append.mp hOffer with hBefore | hNew
        · exact parsed.fits offer hBefore
        · obtain rfl := List.mem_singleton.mp hNew
          exact hFits frame rfl
      · simp only [Msgq.waiting_put, List.filter_append, List.map_append, ← parsed.queued]
        by_cases hRoom : u.nukiUartMsgq.waiting.length < 4
        · simp [hRoom]
        · simp [hRoom]

/-- A burst extends it byte by byte. -/
theorem serialCb {u : Uart} (burst : List UInt8) {bytes : List UInt8} (parsed : u.Parsed bytes) :
    (u.serialCb burst).Parsed (bytes ++ burst) := by
  induction burst generalizing u bytes with
  | nil => rwa [List.append_nil]
  | cons c burst ih =>
      have hRest := ih (parsed.byte c)
      rwa [List.append_assoc] at hRest

/-- The thread changes what waits and what is taken, not what was parsed. -/
theorem takeFrame {bytes : List UInt8} {u : Uart} (parsed : u.Parsed bytes) :
    u.takeFrame.Parsed bytes := by
  rw [Uart.takeFrame]
  split
  · exact parsed
  · rename_i frame q hGet
    refine ⟨parsed.inside, parsed.parser, parsed.grammar, parsed.fits, ?_⟩
    rw [← parsed.queued, Msgq.waiting_get hGet, List.append_assoc]
    rfl

/-- Over any sequence of bursts and takes, the state machine has read the bytes as the grammar
does. -/
theorem run (actions : List UartAction) {bytes : List UInt8} {u : Uart}
    (parsed : u.Parsed bytes) :
    (u.run actions).Parsed (bytes ++ actions.flatMap UartAction.bytes) := by
  induction actions generalizing u bytes with
  | nil => rwa [List.flatMap_nil, List.append_nil]
  | cons action actions ih =>
      rw [List.flatMap_cons, ← List.append_assoc]
      cases action with
      | burst burst => exact ih (parsed.serialCb burst)
      | take =>
          have hRest := ih parsed.takeFrame
          rwa [UartAction.bytes, List.append_nil]

/-- Of a frame that is not complete the grammar finds nothing. -/
theorem packets_pending {s : UartRx} (inside : s.Inside) :
    packets uartFrameSofReq uartMaxPayload s.pending = [] := by
  obtain ⟨state, frame, pos⟩ := s
  cases state with
  | waitSof => exact packets_nil
  | waitCmd => exact packets_sof
  | waitLen => exact packets_sof_cmd frame.cmd
  | waitPayload =>
      obtain ⟨hPos, hLen⟩ := inside rfl
      apply packets_short _ hLen
      exact Nat.lt_of_le_of_lt (List.length_take_le _ _) hPos

end Uart.Parsed

theorem RxFrame.length_packet {frame : RxFrame} (h : frame.len.toNat ≤ uartMaxPayload) :
    frame.packet.payload.length = frame.len.toNat := by
  rw [RxFrame.packet, List.length_take, Bytes.length]
  exact Nat.min_eq_left h

/-- For every cut into bursts and every interleaving with the thread, the frames put into
the queue are those of the grammar over all bytes received; requests between noise arrive
as they were sent; and a frame is lost only where four are waiting. -/
theorem serialCb_grammar (actions : List UartAction) :
    let u := Uart.boot.run actions
    let bytes := actions.flatMap UartAction.bytes
    u.offered.map (fun offer => offer.frame.packet) =
        packets uartFrameSofReq uartMaxPayload bytes ∧
      (∀ offer ∈ u.offered, offer.frame.packet.payload.length = offer.frame.len.toNat) ∧
      (∀ (segments : List (List UInt8 × Packet)) (last : List UInt8),
        (∀ segment ∈ segments, (∀ byte ∈ segment.1, byte ≠ uartFrameSofReq) ∧
          segment.2.payload.length ≤ uartMaxPayload) →
        (∀ byte ∈ last, byte ≠ uartFrameSofReq) → bytes = stream uartFrameSofReq segments last →
        u.offered.map (fun offer => offer.frame.packet) = segments.map Prod.snd) ∧
      (u.rx.rxState = .waitPayload → u.rx.rxPayloadPos.toNat < uartMaxPayload) ∧
      u.taken ++ u.nukiUartMsgq.waiting =
        (u.offered.filter fun offer => offer.waiting < 4).map Offer.frame ∧
      u.rx = bytes.foldl (fun rx c => (serialByte rx c).1) .boot := by
  intro u bytes
  have parsed : u.Parsed bytes := Uart.Parsed.boot.run actions
  have hOffered : u.offered.map (fun offer => offer.frame.packet) =
      packets uartFrameSofReq uartMaxPayload bytes := by
    have hGrammar := parsed.grammar []
    rw [List.append_nil, List.append_nil, Uart.Parsed.packets_pending parsed.inside,
      List.append_nil] at hGrammar
    exact hGrammar.symm
  refine ⟨hOffered, ?_, ?_, ?_, parsed.queued, parsed.parser⟩
  · intro offer hOffer
    exact RxFrame.length_packet (parsed.fits offer hOffer)
  · intro segments last hSegments hLast hBytes
    rw [hOffered, hBytes]
    exact packets_stream (by decide) hSegments hLast
  · intro hState
    obtain ⟨hPos, hLen⟩ := parsed.inside hState
    exact Nat.lt_of_lt_of_le hPos hLen

end NukiBridge

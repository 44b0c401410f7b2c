import Mathlib.Logic.Relation
import Mathlib.Order.WellFounded
import NukiBridge.Uart.Cache
import NukiBridge.Uart.Resync

/-! A client at the UART: its requests go through the interrupt handler, the queue of four
and the thread, and it counts the responses that it has read. As long as it leaves no more
than four requests unanswered, none is lost and all are answered in order. -/
namespace NukiBridge

open Framing Interaction

/-- The requests of the client, their bytes that are still on the line, the handler with its
queue, the thread with the rest of its code for the frame that it took last and with what
it has done, and what the client has read. -/
structure Dialogue where
  requests : List Packet
  line : List UInt8
  uart : Uart
  thread : UartCode Unit
  log : List UartExchange
  heard : List UInt8

namespace Dialogue

def boot : Dialogue := ⟨[], [], .boot, .done (), [], []⟩

/-- The responses that the client has recognised. -/
def answers (d : Dialogue) : List Packet := packets uartFrameSofResp uartMaxPayload d.heard

/-- What happens without the client sending anything. -/
inductive Works : Dialogue → Dialogue → Prop where
  | arrive {d : Dialogue} {burst rest : List UInt8} (some : burst ≠ [])
      (line : d.line = burst ++ rest) :
      Works d { d with line := rest, uart := d.uart.serialCb burst }
  | take {d : Dialogue} {frame : RxFrame} {rest : List RxFrame} (idle : d.thread = .done ())
      (waits : d.uart.nukiUartMsgq.waiting = frame :: rest) :
      Works d { d with uart := d.uart.takeFrame, thread := dispatchFrame frame }
  | call {d : Dialogue} {c : UartCall} {next : c.Answer → UartCode Unit}
      (running : d.thread = .call c next) (answer : c.Answer) :
      Works d { d with thread := next answer, log := d.log ++ [⟨c, answer⟩] }
  | hear {d : Dialogue} {bytes : List UInt8} (some : bytes ≠ [])
      (written : d.heard ++ bytes <+: written d.log) :
      Works d { d with heard := d.heard ++ bytes }

/-- A client that leaves no more than `window` requests unanswered. -/
inductive Step (window : Nat) : Dialogue → Dialogue → Prop where
  | send {d : Dialogue} (request : Packet) (fits : request.payload.length ≤ uartMaxPayload)
      (allowed : d.requests.length < d.answers.length + window) :
      Step window d { d with
        requests := d.requests ++ [request]
        line := d.line ++ request.bytes uartFrameSofReq }
  | works {d d' : Dialogue} (step : Works d d') : Step window d d'

def Reached (window : Nat) (d : Dialogue) : Prop := Relation.ReflTransGen (Step window) boot d

/-- No request was refused by the queue. -/
def Lossless (d : Dialogue) : Prop := ∀ offer ∈ d.uart.offered, offer.waiting < 4

instance (d : Dialogue) : Decidable d.Lossless :=
  inferInstanceAs (Decidable (∀ offer ∈ d.uart.offered, offer.waiting < 4))

end Dialogue

section Bytes

variable {u : Uart} {received rest : List UInt8} {requests : List Packet}

/-- The frames that were put are the first of the requests. -/
theorem offered_first (parsed : u.Parsed received)
    (fits : ∀ request ∈ requests, request.payload.length ≤ uartMaxPayload)
    (sent : received ++ rest = requests.flatMap (Packet.bytes uartFrameSofReq)) :
    u.offered.map (fun offer => offer.frame.packet) <+: requests := by
  have hGrammar := parsed.grammar rest
  rw [sent, packets_flatMap (by decide) fits] at hGrammar
  exact ⟨_, hGrammar.symm⟩

/-- While the queue never overflows, what was taken and what still waits are all the frames that
were offered. -/
theorem taken_append (parsed : u.Parsed received) (kept : ∀ offer ∈ u.offered, offer.waiting < 4) :
    u.taken ++ u.nukiUartMsgq.waiting = u.offered.map Offer.frame := by
  rw [parsed.queued, List.filter_eq_self.mpr fun offer h => decide_eq_true (kept offer h)]

/-- Where no more than four requests are not taken yet, the next frame finds room. -/
theorem kept_byte {c : UInt8} (parsed : u.Parsed received)
    (fits : ∀ request ∈ requests, request.payload.length ≤ uartMaxPayload)
    (sent : received ++ c :: rest = requests.flatMap (Packet.bytes uartFrameSofReq))
    (room : requests.length ≤ u.taken.length + 4) (kept : ∀ offer ∈ u.offered, offer.waiting < 4) :
    ∀ offer ∈ (u.byte c).offered, offer.waiting < 4 := by
  have hParsed := parsed.byte c
  have hSent : received ++ [c] ++ rest = requests.flatMap (Packet.bytes uartFrameSofReq) := by
    rw [List.append_assoc]
    exact sent
  have hCount := (offered_first hParsed fits hSent).length_le
  have hQueue := congrArg List.length (taken_append parsed kept)
  rw [Uart.byte] at hCount ⊢
  generalize serialByte u.rx c = result at hCount ⊢
  obtain ⟨rx, _ | frame⟩ := result
  · exact kept
  · simp only [List.length_map, List.length_append, List.length_singleton] at hCount hQueue
    rw [List.forall_mem_append]
    refine ⟨kept, ?_⟩
    rw [List.forall_mem_singleton]
    show u.nukiUartMsgq.waiting.length < 4
    omega

theorem taken_byte (u : Uart) (c : UInt8) : (u.byte c).taken = u.taken := by
  rw [Uart.byte]
  split <;> rfl

theorem taken_serialCb (u : Uart) (burst : List UInt8) : (u.serialCb burst).taken = u.taken := by
  induction burst generalizing u with
  | nil => rfl
  | cons c burst ih => exact (ih (u.byte c)).trans (taken_byte u c)

/-- With at most four requests under way the queue has room for each of them when it is offered. -/
theorem kept_serialCb {burst : List UInt8} (parsed : u.Parsed received)
    (fits : ∀ request ∈ requests, request.payload.length ≤ uartMaxPayload)
    (sent : received ++ (burst ++ rest) = requests.flatMap (Packet.bytes uartFrameSofReq))
    (room : requests.length ≤ u.taken.length + 4) (kept : ∀ offer ∈ u.offered, offer.waiting < 4) :
    ∀ offer ∈ (u.serialCb burst).offered, offer.waiting < 4 := by
  induction burst generalizing u received with
  | nil => exact kept
  | cons c burst ih =>
      apply ih (parsed.byte c)
      · rw [List.append_assoc]
        exact sent
      · rw [taken_byte]
        exact room
      · exact kept_byte parsed fits sent room kept

end Bytes

theorem takeFrame_waiting {u : Uart} {frame : RxFrame} {rest : List RxFrame}
    (h : u.nukiUartMsgq.waiting = frame :: rest) :
    u.takeFrame.taken = u.taken ++ [frame] ∧ u.takeFrame.nukiUartMsgq.waiting = rest := by
  cases hGet : u.nukiUartMsgq.get with
  | none =>
      rw [Msgq.get] at hGet
      split at hGet
      · rename_i hWaiting
        rw [h] at hWaiting
        cases hWaiting
      · cases hGet
  | some got =>
      obtain ⟨first, q⟩ := got
      have hWaiting := Msgq.waiting_get hGet
      rw [h] at hWaiting
      cases hWaiting
      rw [Uart.takeFrame, hGet]
      exact ⟨rfl, rfl⟩

/-- The thread goes on with the frame that it takes next. -/
theorem traces_nukiUartThreadFn_append {frames : List RxFrame} {frame : RxFrame}
    {trace last : List UartExchange} (h : (nukiUartThreadFn frames).Traces trace ())
    (next : (dispatchFrame frame).Traces last ()) :
    (nukiUartThreadFn (frames ++ [frame])).Traces (trace ++ last) () := by
  induction frames generalizing trace with
  | nil =>
      obtain ⟨rfl, -⟩ := h.of_done
      rw [List.nil_append, ← List.append_nil last]
      exact next.bind (.done ())
  | cons first frames ih =>
      obtain ⟨served, rest, _, rfl, hFirst, hRest⟩ := Program.Traces.of_bind h
      rw [List.append_assoc]
      exact hFirst.bind (ih hRest)

namespace Dialogue

/-- The account of a dialogue in which no request has been lost. -/
structure Accounted (d : Dialogue) : Prop where
  sent : ∃ received, d.uart.Parsed received ∧
    received ++ d.line = d.requests.flatMap (Packet.bytes uartFrameSofReq)
  fits : ∀ request ∈ d.requests, request.payload.length ≤ uartMaxPayload
  lossless : d.Lossless
  thread : ∀ later, d.thread.Traces later () →
    (nukiUartThreadFn d.uart.taken).Traces (d.log ++ later) ()
  heard : d.heard <+: written d.log
  window : d.requests.length ≤ d.answers.length + 4

theorem accounted_boot : boot.Accounted where
  sent := ⟨[], .boot, rfl⟩
  fits := fun _ h => absurd h List.not_mem_nil
  lossless := fun _ h => absurd h List.not_mem_nil
  thread := fun _ h => h
  heard := List.nil_prefix
  window := Nat.zero_le _

namespace Accounted

variable {d d' : Dialogue}

/-- The frames that were taken, as they are served: the first of them have been answered. -/
theorem served (h : d.Accounted) : ∃ complete rest : List Served,
    (complete ++ rest).map Served.frame = d.uart.taken ∧
      d.answers = complete.map Served.packet := by
  obtain ⟨later, _, hLater⟩ := d.thread.exists_traces
  obtain ⟨served, hFrames, hTrace⟩ := traces_nukiUartThreadFn (h.thread later hLater)
  obtain ⟨part, hPart, hHeard⟩ := List.prefix_filterMap_iff.mp h.heard
  have hPrefix : part <+: served.flatMap Served.trace :=
    hTrace ▸ hPart.trans (List.prefix_append _ _)
  obtain ⟨complete, rest, rfl, -, hPackets⟩ := Served.packets_prefix hPrefix
  refine ⟨complete, rest, hFrames, ?_⟩
  rw [← hPackets, answers, hHeard]
  rfl

theorem answers_le (h : d.Accounted) : d.answers.length ≤ d.uart.taken.length := by
  obtain ⟨complete, rest, hFrames, hAnswers⟩ := h.served
  rw [← hFrames, hAnswers, List.length_map, List.length_map, List.length_append]
  exact Nat.le_add_right _ _

theorem works (h : d.Accounted) (step : Works d d') : d'.Accounted := by
  obtain ⟨received, hParsed, hSent⟩ := h.sent
  cases step with
  | @arrive burst rest hSome hLine =>
      have hRoom : d.requests.length ≤ d.uart.taken.length + 4 :=
        h.window.trans (Nat.add_le_add_right h.answers_le 4)
      rw [hLine] at hSent
      refine ⟨⟨received ++ burst, hParsed.serialCb burst, ?_⟩, h.fits, ?_, ?_, h.heard, h.window⟩
      · rw [List.append_assoc]
        exact hSent
      · exact kept_serialCb hParsed h.fits hSent hRoom h.lossless
      · show ∀ later, _ → (nukiUartThreadFn (d.uart.serialCb burst).taken).Traces _ _
        rw [taken_serialCb]
        exact h.thread
  | @take frame rest hIdle hWaits =>
      have hTaken := (takeFrame_waiting hWaits).1
      refine ⟨⟨received, hParsed.takeFrame, hSent⟩, h.fits, ?_, ?_, h.heard, h.window⟩
      · show ∀ offer ∈ d.uart.takeFrame.offered, offer.waiting < 4
        rw [Uart.offered_takeFrame]
        exact h.lossless
      · intro later hLater
        have hBefore := h.thread [] (hIdle ▸ .done ())
        rw [List.append_nil] at hBefore
        show (nukiUartThreadFn d.uart.takeFrame.taken).Traces (d.log ++ later) ()
        rw [hTaken]
        exact traces_nukiUartThreadFn_append hBefore hLater
  | @call c next hRunning answer =>
      refine ⟨h.sent, h.fits, h.lossless, ?_, ?_, h.window⟩
      · intro later hLater
        rw [List.append_assoc]
        apply h.thread
        rw [hRunning]
        exact .call answer hLater
      · exact h.heard.trans (by rw [written_append]; exact List.prefix_append _ _)
  | @hear bytes hSome hWritten =>
      refine ⟨h.sent, h.fits, h.lossless, h.thread, hWritten, h.window.trans ?_⟩
      exact Nat.add_le_add_right (packets_prefix_append d.heard bytes).length_le 4

/-- One step of either side, the host or the bridge, keeps the account of requests and answers. -/
theorem step {window : Nat} (h : d.Accounted) (le : window ≤ 4) (step : Step window d d') :
    d'.Accounted := by
  cases step with
  | works step => exact h.works step
  | send request fits allowed =>
      obtain ⟨received, hParsed, hSent⟩ := h.sent
      refine ⟨⟨received, hParsed, ?_⟩, ?_, h.lossless, h.thread, h.heard, ?_⟩
      · rw [← List.append_assoc, hSent, List.flatMap_append, List.flatMap_singleton]
      · exact List.forall_mem_append.mpr ⟨h.fits, List.forall_mem_singleton.mpr fits⟩
      · show (d.requests ++ [request]).length ≤ d.answers.length + 4
        rw [List.length_append, List.length_singleton]
        omega

theorem reached {window : Nat} (le : window ≤ 4) (reached : Reached window d) : d.Accounted := by
  induction reached with
  | refl => exact accounted_boot
  | tail _ last ih => exact ih.step le last

end Accounted

/-- The client has sent so many requests, and nothing has arrived yet. -/
def polled (n : Nat) : Dialogue where
  requests := List.replicate n ⟨UartCmd.status, []⟩
  line := (List.replicate n ⟨UartCmd.status, []⟩).flatMap (Packet.bytes uartFrameSofReq)
  uart := .boot
  thread := .done ()
  log := []
  heard := []

theorem reached_polled {window n : Nat} (h : n ≤ window) : Reached window (polled n) := by
  induction n with
  | zero => exact .refl
  | succ n ih =>
      have hStep : Step window (polled n) (polled (n + 1)) := by
        have hAllowed : (polled n).requests.length < (polled n).answers.length + window := by
          show (List.replicate n _).length < (packets _ _ []).length + window
          rw [List.length_replicate, packets_nil]
          exact Nat.lt_of_lt_of_le (Nat.lt_succ_self n) (h.trans (Nat.le_add_left _ _))
        have hNext : polled (n + 1) = { polled n with
            requests := (polled n).requests ++ [⟨UartCmd.status, []⟩]
            line := (polled n).line ++ Packet.bytes uartFrameSofReq ⟨UartCmd.status, []⟩ } := by
          simp [polled, List.replicate_succ', List.flatMap_append]
        rw [hNext]
        exact .send _ (Nat.zero_le _) hAllowed
      exact .tail (ih (Nat.le_of_succ_le h)) hStep

/-- All of them arrive before the thread takes the first. -/
def flooded (n : Nat) : Dialogue :=
  { polled n with line := [], uart := Uart.boot.serialCb (polled n).line }

theorem reached_flooded {window n : Nat} (some : 0 < n) (h : n ≤ window) :
    Reached window (flooded n) := by
  obtain ⟨n, rfl⟩ := Nat.exists_eq_add_one_of_ne_zero (Nat.ne_of_gt some)
  have hLine : (polled (n + 1)).line ≠ [] := List.cons_ne_nil _ _
  exact .tail (reached_polled h) (.works (.arrive hLine (List.append_nil _).symm))

end Dialogue

/-- The queue refuses no request, in whatever order things happen, exactly if the client
leaves no more than four requests unanswered. -/
theorem window_exact (window : Nat) :
    (∀ d, Dialogue.Reached window d → d.Lossless) ↔ window ≤ 4 := by
  constructor
  · intro lossless
    by_contra hWindow
    have hLossless := lossless _ (Dialogue.reached_flooded (by decide) (Nat.lt_of_not_le hWindow))
    exact absurd hLossless (by decide)
  · intro le d reached
    exact (Dialogue.Accounted.reached le reached).lossless

namespace Dialogue

variable {d : Dialogue}

/-- Nothing is left to do: what was sent has been served, and read by the client. -/
structure Quiet (d : Dialogue) : Prop where
  line : d.line = []
  queue : d.uart.nukiUartMsgq.waiting = []
  thread : d.thread = .done ()
  heard : d.heard = written d.log

/-- Once nothing is left to do, every request has its response. -/
theorem Quiet.answered (quiet : d.Quiet) (accounted : d.Accounted) :
    d.answers.length = d.requests.length := by
  obtain ⟨received, hParsed, hSent⟩ := accounted.sent
  have hRequests : d.uart.offered.map (fun offer => offer.frame.packet) = d.requests := by
    have hGrammar := hParsed.grammar []
    rw [quiet.line] at hSent
    rw [hSent, packets_flatMap (by decide) accounted.fits, List.append_nil,
      Uart.Parsed.packets_pending hParsed.inside, List.append_nil] at hGrammar
    exact hGrammar.symm
  have hTaken : d.uart.taken = d.uart.offered.map Offer.frame := by
    have hAll := taken_append hParsed accounted.lossless
    rwa [quiet.queue, List.append_nil] at hAll
  have hTraces := accounted.thread [] (quiet.thread ▸ .done ())
  rw [List.append_nil] at hTraces
  obtain ⟨served, hFrames, hTrace⟩ := traces_nukiUartThreadFn hTraces
  have hAnswers : d.answers = served.map Served.packet := by
    rw [answers, quiet.heard, hTrace, Served.written_trace, Served.packets_response]
  rw [hAnswers, ← hRequests, List.length_map, List.length_map,
    ← List.length_map (f := Offer.frame), ← hTaken, ← hFrames, List.length_map]

end Dialogue

end NukiBridge

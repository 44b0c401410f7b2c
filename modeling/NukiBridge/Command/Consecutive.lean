import NukiBridge.Command.Receive

/-! Several messages after one another. The reset after a message clears the whole
accumulator, so what arrived of the next message by then is lost; messages
that keep apart are all received. -/
namespace NukiBridge

open Buffer Interaction Crypto

/-- A valid message and a split of it into indications. -/
structure Message (sharedKey : Bytes 32) where
  fragments : Fragments
  cmd : UInt16
  payload : List UInt8
  starts : StartsWith sharedKey fragments.bytes cmd payload
  whole : fragments.bytes.length = messageLen fragments.bytes

namespace Message

/-- What `send_encrypted` would write, as one indication. -/
def ofWire (nonce : Bytes 24) (sharedKey : Bytes 32) (authId : UInt32) (cmd : UInt16)
    (payload : List UInt8) (h : payload.length ≤ 192) : Message sharedKey where
  fragments := ⟨wireMessage nonce sharedKey authId cmd payload, []⟩
  cmd := cmd
  payload := payload
  starts := startsWith_wireMessage nonce sharedKey authId cmd h []
  whole := by
    rw [Fragments.bytes, List.flatten_nil, List.append_nil,
      messageLen_wireMessage nonce sharedKey authId cmd h]

variable {sharedKey : Bytes 32} (message : Message sharedKey)

def bytes : List UInt8 := message.fragments.bytes

/-- As one indication, the message arrives as it was written. -/
theorem bytes_ofWire (nonce : Bytes 24) (sharedKey : Bytes 32) (authId : UInt32) (cmd : UInt16)
    (payload : List UInt8) (h : payload.length ≤ 192) :
    (ofWire nonce sharedKey authId cmd payload h).bytes =
      wireMessage nonce sharedKey authId cmd payload := List.append_nil _

theorem fragments_ofWire (nonce : Bytes 24) (sharedKey : Bytes 32) (authId : UInt32)
    (cmd : UInt16) (payload : List UInt8) (h : payload.length ≤ 192) :
    (ofWire nonce sharedKey authId cmd payload h).fragments =
      ⟨(ofWire nonce sharedKey authId cmd payload h).bytes, []⟩ := by
  rw [bytes_ofWire, ofWire]

/-- What a call of `recv_encrypted` returns for the message. -/
def received (out : Received) : Int × Received :=
  (0, ⟨message.cmd, memcpy out.payload 0 message.payload, message.payload.length⟩)

/-- A message has a header, and all of it fits into the accumulator. This is why a message that
arrives alone is never cut. -/
theorem length_bytes : 30 ≤ message.bytes.length ∧ message.bytes.length ≤ wireMaxLen := by
  obtain ⟨hHeader, -, hMax, -⟩ := (startsWith_iff _ _ _ _).mp message.starts
  have hWhole := message.whole
  rw [messageLen] at hWhole
  refine ⟨hHeader, ?_⟩
  rw [bytes, hWhole, wireMaxLen]
  exact Nat.add_le_add_left (hMax.trans (by decide : 216 ≤ 226)) 30

end Message

/-- Consecutive calls of `recv_encrypted`, each with its own variables. -/
def recvMessages (sharedKey : Bytes 32) : List Received → Code (List (Int × Received))
  | [] => return []
  | out :: outs => do
      let result ← recvEncrypted sharedKey out maxPlaintext
      let results ← recvMessages sharedKey outs
      return result :: results

/-- The first fragment of a message may arrive only while the buffer is empty. -/
def Feed.Separated (f : Feed) : Prop := f.current = [] → f.rx.rxLen = 0

/-- The messages of the queue are still to be read; the first may be in progress. -/
def Reading (queue : List (List UInt8)) (f : Feed) : Prop :=
  f.rx.bytes = [] ∧ f.current.flatten = [] ∧ f.later.map Fragments.bytes = queue ∨
    ∃ first rest, queue = first :: rest ∧ f.rx.bytes ++ f.current.flatten = first ∧
      f.later.map Fragments.bytes = rest

/-- An indication that fits is appended whole. -/
private theorem bytes_notify_of_le (rx : Reassembly) (data : List UInt8)
    (h : (rx.bytes ++ data).length ≤ wireMaxLen) : (rx.notify data).bytes = rx.bytes ++ data := by
  rw [Reassembly.bytes_notify, List.take_of_length_le h]

/-- While the first fragment of the next message waits for an empty buffer, the buffer holds a part
of the first message and nothing else. -/
theorem stable_reading {queue : List (List UInt8)}
    (sizes : ∀ text ∈ queue, 30 ≤ text.length ∧ text.length ≤ wireMaxLen) (f f' : Feed)
    (h : Reading queue f) (separated : f.Separated) (hFeed : f.indicate = some f') :
    Reading queue f' := by
  obtain ⟨rx, current, later⟩ := f
  rcases h with ⟨hBytes, hCurrent, hLater⟩ | ⟨first, rest, rfl, hFirst, hLater⟩
  · cases current with
    | cons data others =>
        cases hFeed
        simp only [List.flatten_cons, List.append_eq_nil_iff] at hCurrent
        refine Or.inl ⟨?_, hCurrent.2, hLater⟩
        simp only at hBytes
        simp only [hCurrent.1, Reassembly.bytes_notify, hBytes, List.append_nil, List.take_nil]
    | nil =>
        cases later with
        | nil => cases hFeed
        | cons message others =>
            cases hFeed
            simp only at hBytes
            have hSize := (sizes message.bytes (by rw [← hLater]; simp)).2
            rw [Fragments.bytes, List.length_append] at hSize
            refine Or.inr ⟨message.bytes, others.map Fragments.bytes, hLater.symm, ?_, rfl⟩
            simp only [bytes_notify_of_le rx message.first
              (by rw [hBytes, List.nil_append]; omega), hBytes, List.nil_append]
            rfl
  · have hSize := sizes first List.mem_cons_self
    cases current with
    | cons data others =>
        cases hFeed
        simp only [List.flatten_cons, ← List.append_assoc] at hFirst
        rw [← hFirst, List.length_append] at hSize
        refine Or.inr ⟨first, rest, rfl, ?_, hLater⟩
        simp only [bytes_notify_of_le rx data (by omega)]
        exact hFirst
    | nil =>
        have hEmpty : rx.bytes = [] :=
          List.eq_nil_of_length_eq_zero (rx.length_bytes.trans (separated rfl))
        simp only [hEmpty, List.flatten_nil, List.append_nil] at hFirst
        rw [← hFirst] at hSize
        exact absurd hSize.1 (by decide)

/-- What a reader sees meanwhile is a part of the first message, and all of it once everything has
arrived. -/
theorem view_reading {text : List UInt8} {rest : List (List UInt8)}
    (sizes : ∀ other ∈ text :: rest, 30 ≤ other.length ∧ other.length ≤ wireMaxLen) :
    View Feed.Separated (Reading (text :: rest)) text where
  stable := stable_reading sizes
  begins := by
    rintro f (⟨hBytes, -⟩ | ⟨first, others, hQueue, hFirst, -⟩)
    · rw [hBytes]
      exact List.nil_prefix
    · cases hQueue
      exact ⟨_, hFirst⟩
  complete := by
    rintro f (⟨-, -, hLater⟩ | ⟨first, others, hQueue, hFirst, -⟩) ⟨hCurrent, hNone⟩
    · rw [hNone] at hLater
      cases hLater
    · cases hQueue
      rw [← hFirst, hCurrent, List.flatten_nil, List.append_nil]
  permits := by
    rintro f (⟨hBytes, -⟩ | ⟨first, others, hQueue, hFirst, -⟩) hPartial - hCurrent
    · rw [← f.rx.length_bytes, hBytes, List.length_nil]
    · cases hQueue
      rw [hCurrent, List.flatten_nil, List.append_nil] at hFirst
      exact absurd hFirst hPartial

/-- Clearing the buffer once the whole message is in it ends that message. -/
theorem reading_clear {text : List UInt8} {rest : List (List UInt8)}
    (hPos : 0 < text.length) (f : Feed) (h : Reading (text :: rest) f)
    (hAll : text.length ≤ f.rx.rxLen) : Reading rest { f with rx := f.rx.clear } := by
  rcases h with ⟨hBytes, -⟩ | ⟨first, others, hQueue, hFirst, hLater⟩
  · rw [← f.rx.length_bytes, hBytes, List.length_nil] at hAll
    omega
  · cases hQueue
    have hLen := congrArg List.length hFirst
    rw [List.length_append, Reassembly.length_bytes] at hLen
    refine Or.inl ⟨rfl, List.eq_nil_of_length_eq_zero ?_, hLater⟩
    simp only at hLen ⊢
    omega

private theorem sizes_of_inbox {sharedKey : Bytes 32}
    (inbox : List (Message sharedKey × Received)) :
    ∀ text ∈ inbox.map (fun entry => entry.1.bytes),
      30 ≤ text.length ∧ text.length ≤ wireMaxLen := by
  intro text hText
  obtain ⟨entry, -, rfl⟩ := List.mem_map.mp hText
  exact entry.1.length_bytes

/-- Messages that keep apart are received one after the other. -/
theorem outline_recvMessages {sharedKey : Bytes 32} (inbox : List (Message sharedKey × Received)) :
    (readerRules Feed.Separated).Outline
      (fun results _ => results = inbox.map fun entry => entry.1.received entry.2)
      (recvMessages sharedKey (inbox.map Prod.snd))
      (Holds (Reading (inbox.map fun entry => entry.1.bytes)) 0) := by
  have sizes := sizes_of_inbox inbox
  induction inbox with
  | nil => exact outline_done (stable_reading sizes) fun s _ => rfl
  | cons entry inbox ih =>
      obtain ⟨message, out⟩ := entry
      have sizes' := sizes_of_inbox inbox
      have hPos : 0 < message.bytes.length := Nat.lt_of_lt_of_le (by decide) message.length_bytes.1
      refine Rules.Outline.bind (Returned sharedKey out message.bytes
        (Reading (inbox.map fun entry => entry.1.bytes))) ?_ fun result => ?_
      · refine outline_recvEncrypted (view_reading sizes) (stable_reading sizes')
          (Or.inl ⟨message.length_bytes.1, message.whole.ge⟩) ?_ sharedKey out
        exact fun f h hAll => reading_clear hPos f h (message.whole.le.trans hAll)
      · by_cases hResult : result = message.received out
        · subst hResult
          refine Rules.Outline.bind _ ((ih sizes').mono fun s _ h => h.2 rfl) fun results => ?_
          exact .done (fun _ _ _ _ _ h _ _ => h) fun s _ h => congrArg (List.cons _) h
        · refine .absurd _ fun s _ h => ?_
          rcases h.1 with ⟨cmd, payload, hStarts, rfl⟩ | ⟨refused, -⟩
          · obtain ⟨rfl, rfl⟩ := startsWith_unique message.starts hStarts
            exact hResult rfl
          · exact refused _ _ message.starts

/-- A transport that holds no bytes, before the messages are indicated. -/
def RxState.queued (rxBuf : Bytes wireMaxLen) (rxSem : Nat) (giving : Bool)
    (messages : List Fragments) : RxState where
  feed := ⟨⟨rxBuf, 0, Nat.zero_le _⟩, [], messages⟩
  rxSem := rxSem
  giving := giving
  phase := .outside

/-- However the messages are split and whenever the indications arrive: as long as
no message begins to arrive before the one in front of it was cleared from the
buffer, every call returns its message. -/
theorem recvMessages_separated (sharedKey : Bytes 32) (rxBuf : Bytes wireMaxLen) (rxSem : Nat)
    (giving : Bool) (inbox : List (Message sharedKey × Received)) :
    (transport RxState.timely).Returns (arrivals Feed.Separated)
      ⟨.queued rxBuf rxSem giving (inbox.map fun entry => entry.1.fragments),
        recvMessages sharedKey (inbox.map Prod.snd)⟩
      fun results => results = inbox.map fun entry => entry.1.received entry.2 := by
  refine returns_of_outline (outline_recvMessages inbox) ⟨rfl, Or.inl ⟨rfl, rfl, ?_⟩, le_rfl⟩
    fun results s h => h
  rw [RxState.queued, List.map_map]
  rfl

/-- Everything has arrived, and this is what the buffer holds. -/
def Settled (text : List UInt8) (f : Feed) : Prop := f.Exhausted ∧ f.rx.bytes = text

/-- With nothing left to arrive, a reader sees what the buffer holds. -/
theorem view_settled (text : List UInt8) : View (fun _ => True) (Settled text) text where
  stable := fun _ _ h _ hFeed => absurd hFeed h.1.indicate_ne
  begins := fun _ h => h.2 ▸ List.prefix_rfl
  complete := fun _ h _ => h.2
  permits := fun _ _ _ _ => trivial

/-- A call that finds an empty buffer, with nothing left to arrive, fails. -/
theorem outline_recvMessages_nothing (sharedKey : Bytes 32) (out : Received) :
    (readerRules fun _ => True).Outline
      (fun results _ => ∃ result, results = [result] ∧ result.1 ≠ 0)
      (recvMessages sharedKey [out]) (Holds (Settled []) 0) := by
  refine Rules.Outline.bind _ (outline_recvEncrypted (Q := Settled []) (view_settled [])
    (view_settled []).stable (Or.inr fun _ _ => trivial) (fun f h _ => ⟨h.1, rfl⟩)
    sharedKey out) fun result => ?_
  by_cases hErr : result.1 = 0
  · refine .absurd _ fun s _ h => ?_
    rcases h.1 with ⟨cmd, payload, hStarts, -⟩ | ⟨-, nonzero, -⟩
    · exact absurd ((startsWith_iff _ _ _ _).mp hStarts).1 (by decide)
    · exact nonzero hErr
  · exact ⟨fun _ => True, fun _ _ _ => trivial, fun _ _ _ _ _ _ _ _ => trivial,
      fun _ _ _ => ⟨result, rfl, hErr⟩⟩

/-- Where two messages are in the buffer at once, the second call finds nothing. -/
theorem outline_recvMessages_glued {sharedKey : Bytes 32} (first : Message sharedKey)
    {rest : List UInt8}
    (starts : StartsWith sharedKey (first.bytes ++ rest) first.cmd first.payload)
    (out out' : Received) :
    (readerRules fun _ => True).Outline
      (fun results _ => ∃ result result', results = [result, result'] ∧ result'.1 ≠ 0)
      (recvMessages sharedKey [out, out']) (Holds (Settled (first.bytes ++ rest)) 0) := by
  refine Rules.Outline.bind _ (outline_recvEncrypted (Q := Settled [])
    (view_settled (first.bytes ++ rest)) (view_settled []).stable (Or.inr fun _ _ => trivial)
    (fun f h _ => ⟨h.1, rfl⟩) sharedKey out) fun result => ?_
  by_cases hErr : result.1 = 0
  · refine Rules.Outline.bind _ ((outline_recvMessages_nothing sharedKey out').mono
      fun s _ h => h.2 hErr) fun results => ?_
    refine .done (fun _ _ _ _ _ h _ _ => h) ?_
    rintro s - ⟨result', rfl, nonzero⟩
    exact ⟨result, result', rfl, nonzero⟩
  · refine .absurd _ fun s _ h => ?_
    rcases h.1 with ⟨cmd, payload, -, rfl⟩ | ⟨refused, -⟩
    · exact hErr rfl
    · exact refused _ _ starts

/-- Both messages may arrive before the thread takes a step. -/
theorem runs_glued {α : Type} (first second : List UInt8) (code : Code α)
    (hFits : first.length + second.length ≤ wireMaxLen) :
    ∃ s, (transport RxState.timely).Runs .free
        ⟨.queued (Bytes.zero _) 0 false [⟨first, []⟩, ⟨second, []⟩], code⟩ ⟨s, code⟩ ∧
      Holds (Settled (first ++ second)) 0 s := by
  let empty : Reassembly := ⟨Bytes.zero _, 0, Nat.zero_le _⟩
  have hFirst : (empty.notify first).bytes = first :=
    bytes_notify_of_le empty first ((Nat.le_add_right _ _).trans hFits)
  have hBoth : ((empty.notify first).notify second).bytes = first ++ second := by
    rw [bytes_notify_of_le _ _ (by rwa [hFirst, List.length_append]), hFirst]
  refine ⟨⟨⟨(empty.notify first).notify second, [], []⟩, 2, false, .outside⟩, ?_,
    rfl, ⟨⟨rfl, rfl⟩, hBoth⟩, Nat.zero_le _⟩
  exact Machine.runs_of_replay [.event .indicate, .event .give, .event .indicate, .event .give]
    (Machine.meets_free _ _) rfl

/-- Status ACCEPTED under the zero key, and Status COMPLETE. -/
def statusAccepted : Message (Bytes.zero 32) :=
  .ofWire (Bytes.zero 24) (Bytes.zero 32) 1 Cmd.status [0x01] (by decide)

def statusCompleted : Message (Bytes.zero 32) :=
  .ofWire (Bytes.zero 24) (Bytes.zero 32) 1 Cmd.status [statusComplete] (by decide)

/-- Zeroed variables of a caller. -/
def blank : Received := ⟨0, List.replicate maxPlaintext 0, 0⟩

/-- Two short messages that fit into the buffer together: both arrive before the
first call reads, and the reset after the first takes the second with it. -/
theorem recvMessages_loses_message :
    statusAccepted.bytes.length + statusCompleted.bytes.length ≤ wireMaxLen ∧
      ¬(transport RxState.timely).Returns .free
        ⟨.queued (Bytes.zero _) 0 false [statusAccepted.fragments, statusCompleted.fragments],
          recvMessages (Bytes.zero 32) [blank, blank]⟩
        fun results => results = [statusAccepted.received blank, statusCompleted.received blank] := by
  have hFits : statusAccepted.bytes.length + statusCompleted.bytes.length ≤ wireMaxLen := by
    rw [statusAccepted, statusCompleted, Message.bytes_ofWire, Message.bytes_ofWire,
      length_wireMessage, length_wireMessage]
    decide
  refine ⟨hFits, fun claim => ?_⟩
  have hStarts : StartsWith (Bytes.zero 32) (statusAccepted.bytes ++ statusCompleted.bytes)
      statusAccepted.cmd statusAccepted.payload := by
    rw [statusAccepted, Message.bytes_ofWire]
    exact startsWith_wireMessage _ _ _ _ (by decide) _
  have outline := outline_recvMessages_glued statusAccepted hStarts blank blank
  obtain ⟨glued, hRun, hGlued⟩ := runs_glued statusAccepted.bytes statusCompleted.bytes
    (recvMessages (Bytes.zero 32) [blank, blank]) hFits
  have fails := returns_of_outline outline hGlued fun _ _ h => h
  rw [arrivals_true] at fails
  rw [show statusAccepted.fragments = _ from Message.fragments_ofWire ..,
    show statusCompleted.fragments = _ from Message.fragments_ofWire ..] at claim
  obtain ⟨s, results, run, hResults⟩ := (claim.of_runs hRun).exists_result
  obtain ⟨result, result', hPair, hErr⟩ := (fails.2 _ run).1 results rfl
  rw [hResults] at hPair
  simp only [List.cons.injEq, and_true] at hPair
  exact hErr (congrArg Prod.fst hPair.2.symm)

end NukiBridge

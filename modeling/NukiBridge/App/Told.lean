import Mathlib.Data.List.ReduceOption
import NukiBridge.App.Discipline
import NukiBridge.Command.Intent

/-! What an operation tells the lock, as the lock reads it: the messages of its script from
the first one on, as far as it gets. The motor moves for what was asked, and once. -/
namespace NukiBridge

open Buffer Interaction Crypto Typestate

/-- What the operation has to tell the lock. -/
def Operation.intents : Operation → List Intent
  | .pair => []
  | .getState => [.requestState]
  | .lockAction action => [.requestChallenge, .lockAction action]
  | .calibrate securityPin => [.requestChallenge, .calibrate securityPin]

/-- What it asks of the motor. -/
def Operation.motions (operation : Operation) : List Intent :=
  operation.intents.filter Intent.moves

/-- The record that was looked up last, and what is left to tell. -/
structure Agenda where
  record : Option PairingData
  left : List Intent

/-- A message tells what comes next, to the lock of the record. -/
def agendaOrder : Typestate AppOp AppOp.Answer Agenda where
  admits
    | .transport .keyturner (.btGattWrite data), a => ∃ p intent rest,
        a.record = some p ∧ a.left = intent :: rest ∧ Intent.read p data = some intent
    | _, _ => True
  next
    | .getPairing, paired, a => { a with record := paired }
    | .transport .keyturner (.btGattWrite _), _, a => { a with left := a.left.tail }
    | _, _, a => a

def Call.Writes : Call → Prop
  | .btGattWrite _ => True
  | _ => False

section Rules

variable {α β : Type} {a : Agenda}

/-- Connecting and disconnecting tell the lock nothing. -/
theorem agenda_connects {code : AppCode α} (h : code.Connects) :
    agendaOrder.Follows (fun _ a' => a' = a) code a := by
  apply follows_of_makes h
  · intro op hConnects
    cases op with
    | transport svc c => cases hConnects
    | _ => trivial
  · intro op result hConnects
    cases op with
    | getPairing => cases hConnects
    | transport svc c => cases hConnects
    | _ => rfl

/-- What goes over GDIO is no message of a paired operation. -/
theorem agenda_pairing (code : Code α) :
    agendaOrder.Follows (fun _ a' => a' = a) (AppCode.over .pairing code) a := by
  apply follows_inline
  intro c
  exact ⟨trivial, fun _ => rfl⟩

/-- Code over USDIO that writes nothing tells nothing, so its place in the agenda does not
matter. -/
theorem agenda_silent {code : Code α} (h : code.Makes fun c => ¬c.Writes) :
    agendaOrder.Follows (fun _ a' => a' = a) (AppCode.over .keyturner code) a := by
  induction code with
  | done result => rfl
  | call c next ih =>
      have hNext : ∀ answer, agendaOrder.Follows (fun _ a' => a' = a)
          (AppCode.over .keyturner (next answer)) a := fun answer => ih answer (h.2 answer)
      cases c with
      | btGattWrite data => exact absurd trivial h.1
      | _ => exact ⟨trivial, hNext⟩

/-- The code over USDIO gets from what is left to tell to what is left then. -/
def CommandCode.Tells (p : PairingData) (before : List Intent) (post : α → List Intent → Prop)
    (code : CommandCode α) : Prop :=
  agendaOrder.Follows (fun result a => a.record = some p ∧ post result a.left)
    (AppCode.over .keyturner code.link) ⟨some p, before⟩

variable {p : PairingData} {before : List Intent} {post : α → List Intent → Prop}

theorem tells_done {result : α} (h : post result before) :
    CommandCode.Tells p before post (.done result) := ⟨rfl, h⟩

/-- Parts of a command tell one after the other. -/
theorem CommandCode.Tells.bind {code : CommandCode β} {more : β → CommandCode α}
    {mid : β → List Intent → Prop} (first : code.Tells p before mid)
    (rest : ∀ result left, mid result left → (more result).Tells p left post) :
    CommandCode.Tells p before post (code.bind more) := by
  have hOver : AppCode.over .keyturner (CommandCode.link (code.bind more)) =
      (AppCode.over .keyturner code.link).bind fun result =>
        AppCode.over .keyturner (more result).link := by
    rw [link_bind]
    exact Program.inline_bind _ _ _
  rw [CommandCode.Tells, hOver]
  apply Follows.bind first
  rintro result ⟨record, left⟩ ⟨hRecord, hMid⟩
  obtain rfl : record = some p := hRecord
  exact rest result left hMid

/-- A part of a command that writes nothing leaves to be told what was left before it. -/
theorem tells_silent {code : CommandCode α} (h : code.link.Makes fun c => ¬c.Writes) :
    code.Tells p before fun _ left => left = before := by
  apply (agenda_silent h).weaken
  rintro result a rfl
  exact ⟨rfl, rfl⟩

theorem tells_logErr (text : String) (args : List Int) :
    (logErr text args).Tells p before fun _ left => left = before :=
  tells_silent ⟨id, fun _ => trivial⟩

/-- Receiving tells nothing. -/
theorem tells_recvMessage (sharedKey : Bytes 32) (out : Received) :
    (recvMessage sharedKey out).Tells p before fun _ left => left = before := by
  apply tells_silent
  rw [link_recvMessage]
  exact makes_recvEncrypted (fun _ _ => id) (fun _ => id) id (fun _ _ => id) _ _ _

/-- `send_encrypted` tells one thing, whether or not it succeeds: once the bytes are handed over,
the lock may have them. -/
theorem tells_send (nonceK : Bytes 32) (intent : Intent) (rest : List Intent) :
    (CommandCode.lift (sendEncrypted p.authId p.sharedKey intent.cmd
      (intent.payload p.appId nonceK))).Tells p (intent :: rest) fun _ left => left = rest := by
  rw [CommandCode.Tells, link_lift,
    sendEncrypted_eq _ _ _ (Intent.length_payload_le p.appId nonceK intent)]
  have hKeeps {code : Code Int} (h : code.Makes fun c => ¬c.Writes) :
      agendaOrder.Follows (fun _ a => a.record = some p ∧ a.left = rest)
        (AppCode.over .keyturner code) ⟨some p, rest⟩ := by
    apply (agenda_silent h).weaken
    rintro result a rfl
    exact ⟨rfl, rfl⟩
  refine ⟨trivial, fun nonce => ⟨trivial, fun _ => ?_⟩⟩
  refine ⟨⟨p, intent, rest, rfl, rfl, Intent.read_wireMessage p nonce nonceK intent⟩, ?_⟩
  intro err
  apply hKeeps
  show Program.Makes _ (if err ≠ (0 : Int) then _ else _)
  split
  · exact Program.makes_done _
  · apply Program.makes_perform id
    intro taken
    split
    · exact Program.makes_done _
    · exact Program.makes_perform id fun _ => Program.makes_done _

end Rules

section Commands

variable {p : PairingData}

/-- The request for the state is told on success. On an error it may or may not have been. -/
theorem tells_nukiCommandGetState (stack : Received) (state : KeyturnerState) :
    (nukiCommandGetState stack p.authId p.sharedKey state).Tells p [.requestState]
      fun result left => result.1 = 0 → left = [] := by
  apply (tells_send default .requestState []).bind
  rintro err left rfl
  split
  · exact tells_done fun _ => rfl
  · apply (tells_recvMessage p.sharedKey stack).bind
    rintro ⟨err, got⟩ left rfl
    dsimp only
    split
    · exact tells_done fun _ => rfl
    · split
      · apply (tells_logErr _ _).bind
        rintro _ left rfl
        exact tells_done fun _ => rfl
      · exact tells_done fun _ => rfl

/-- A challenge is requested, and the command that it is for is still to be told. -/
theorem tells_requestChallenge (stack : Received) (nonceK : Bytes 32) (intent : Intent) :
    (requestChallenge stack p.authId p.sharedKey nonceK).Tells p [.requestChallenge, intent]
      fun _ left => left = [intent] := by
  apply (tells_send default .requestChallenge [intent]).bind
  rintro err left rfl
  split
  · exact tells_done rfl
  · apply (tells_recvMessage p.sharedKey stack).bind
    rintro ⟨err, got⟩ left rfl
    dsimp only
    split
    · exact tells_done rfl
    · split
      · apply (tells_logErr _ _).bind
        rintro _ left rfl
        exact tells_done rfl
      · exact tells_done rfl

/-- The drain tells nothing, however long it waits: by induction on its rounds. -/
theorem tells_drainLoop (stack : Nat → Received) (left : Nat) (out : Captured) :
    (drainLoop stack p.sharedKey left out).Tells p [] fun _ left => left = [] := by
  induction left generalizing out with
  | zero =>
      apply (tells_logErr _ _).bind
      rintro _ left rfl
      exact tells_done rfl
  | succ left ih =>
      apply (tells_recvMessage p.sharedKey (stack left)).bind
      rintro ⟨err, got⟩ left rfl
      dsimp only
      split
      · exact tells_done rfl
      · split
        · apply (tells_logErr _ _).bind
          rintro _ left rfl
          exact tells_done rfl
        · split
          · split
            · exact tells_done rfl
            · split
              · exact tells_done rfl
              · exact ih out
          · exact ih _

/-- The request for the Challenge is told before the action. Without the Challenge the action is not
told at all. -/
theorem tells_nukiCommandLockAction (stack : Nat → Received) (nonceStack : Bytes 32)
    (action : UInt8) (out : Captured) :
    (nukiCommandLockAction stack nonceStack p.authId p.appId p.sharedKey action out).Tells p
      [.requestChallenge, .lockAction action] fun result left => result.1 = 0 → left = [] := by
  apply (tells_requestChallenge (stack 10) nonceStack (.lockAction action)).bind
  rintro ⟨err, nonceK⟩ left rfl
  dsimp only
  split
  · rename_i hErr
    exact tells_done fun hZero => absurd hZero hErr
  · apply (tells_send nonceK (.lockAction action) []).bind
    rintro err left rfl
    split
    · exact tells_done fun _ => rfl
    · exact (tells_drainLoop stack 10 _).weaken fun _ _ h => ⟨h.1, fun _ => h.2⟩

theorem tells_nukiCommandCalibrate (stack : Nat → Received) (nonceStack : Bytes 32)
    (securityPin : UInt16) :
    (nukiCommandCalibrate stack nonceStack p.authId p.sharedKey securityPin).Tells p
      [.requestChallenge, .calibrate securityPin] fun err left => err = 0 → left = [] := by
  apply (tells_requestChallenge (stack 10) nonceStack (.calibrate securityPin)).bind
  rintro ⟨err, nonceK⟩ left rfl
  dsimp only
  split
  · rename_i hErr
    exact tells_done fun hZero => absurd hZero hErr
  · apply (tells_send nonceK (.calibrate securityPin) []).bind
    rintro err left rfl
    split
    · exact tells_done fun _ => rfl
    · apply (tells_drainLoop stack 10 _).bind
      rintro ⟨err, out⟩ left rfl
      exact tells_done fun _ => rfl

end Commands

section Operations

/-- An operation ends with everything told, or with an error. -/
def Finished (response : Response) (a : Agenda) : Prop := response.err = 0 → a.left = []

/-- An operation that returns an error owes nothing more. -/
theorem agenda_refused {response : Response} (h : response.err ≠ 0) (a : Agenda) :
    agendaOrder.Follows Finished (.done response) a := fun hZero => absurd hZero h

/-- The calls that have no part in it: those that connect, and those of the cache and the
storage that look nothing up. -/
theorem agenda_step {op : AppOp} {more : op.Answer → AppCode Response} {a : Agenda}
    (keeps : ∀ answer, agendaOrder.next op answer a = a) (admitted : agendaOrder.admits op a)
    (rest : ∀ answer, agendaOrder.Follows Finished (more answer) a) :
    agendaOrder.Follows Finished ((AppCode.of op).bind more) a :=
  .goto a admitted keeps rest

/-- The way out after the command: its result was decided before the disconnect. -/
theorem agenda_leave {response : Response} {a : Agenda} (h : Finished response a) :
    agendaOrder.Follows Finished (disconnectFromLock.bind fun _ => .done response) a := by
  apply Follows.bind (agenda_connects connects_disconnectFromLock)
  rintro _ _ rfl
  exact h

/-- A pairing has nothing to tell over USDIO. -/
theorem agenda_storePaired {record : Option PairingData} (err : Int) (data : PairingData) :
    agendaOrder.Follows Finished (storePaired err data) ⟨record, []⟩ := by
  rw [storePaired]
  split
  · exact agenda_leave fun _ => rfl
  · apply agenda_step (fun _ => rfl) (by trivial)
    intro addr
    apply agenda_step (fun _ => rfl) (by trivial)
    intro err
    exact agenda_leave fun _ => rfl

/-- The pairing has nothing to tell over USDIO. -/
theorem agenda_pairLocked (stack : Leftover) (record : Option PairingData) :
    agendaOrder.Follows Finished (pairLocked stack) ⟨record, []⟩ := by
  apply Follows.bind (agenda_connects (connects_connectToLock true))
  rintro err _ rfl
  split
  · rename_i hErr
    exact agenda_refused hErr _
  · apply agenda_step (fun _ => rfl) (by trivial)
    intro ready
    split
    · exact agenda_leave fun _ => rfl
    · apply Follows.bind (agenda_pairing _)
      rintro ⟨err, data⟩ _ rfl
      exact agenda_storePaired err data

/-- The common course of the operations on a paired lock, with what their command has to tell. -/
theorem agenda_withPairing {α : Type} {command : PairingData → CommandCode α}
    {finish : α → AppCode Response} {intents : List Intent} {good : α → Prop}
    (tells : ∀ p, (command p).Tells p intents fun result left => good result → left = [])
    (finishes : ∀ result a, (good result → a.left = []) →
      agendaOrder.Follows Finished (finish result) a) (record : Option PairingData) :
    agendaOrder.Follows Finished (withPairing (fun p => (command p).link) finish)
      ⟨record, intents⟩ := by
  refine ⟨trivial, fun paired => ?_⟩
  cases paired with
  | none => exact agenda_refused (by decide) _
  | some p =>
      apply Follows.bind (agenda_connects (connects_connectToLock false))
      rintro err _ rfl
      split
      · rename_i hErr
        exact agenda_refused hErr _
      · apply Follows.bind (tells p)
        rintro result a ⟨-, hTold⟩
        apply Follows.bind (agenda_connects connects_disconnectFromLock)
        rintro _ _ rfl
        exact finishes result _ hTold

/-- The same with the cache in between. -/
theorem agenda_cachePushed (err : Int) (out : Captured) {a : Agenda}
    (told : err = 0 → a.left = []) :
    agendaOrder.Follows Finished ((cachePushed err out).bind fun _ => .done ⟨err, none⟩) a := by
  obtain ⟨_ | state, _ | _ | _⟩ := out
  case some.some.true =>
    rw [cachePushed]
    split
    · exact ⟨trivial, fun _ => told⟩
    · exact told
  all_goals exact told

/-- Each operation starts with its own agenda and ends with it told, or with an error. -/
theorem agenda_body (request : Request) (record : Option PairingData) :
    agendaOrder.Follows Finished request.body ⟨record, request.operation.intents⟩ := by
  obtain ⟨operation, stack⟩ := request
  cases operation with
  | pair => exact agenda_pairLocked stack record
  | getState =>
      apply agenda_withPairing fun p => tells_nukiCommandGetState (stack.received 0) stack.state
      rintro ⟨err, state⟩ a hTold
      exact hTold
  | lockAction action =>
      apply agenda_withPairing fun p =>
        tells_nukiCommandLockAction stack.received (stack.bytes 32) action _
      rintro ⟨err, out⟩ a hTold
      exact agenda_cachePushed err out hTold
  | calibrate securityPin =>
      apply agenda_withPairing fun p =>
        tells_nukiCommandCalibrate stack.received (stack.bytes 32) securityPin
      intro err a hTold
      exact hTold

end Operations

/-- The record that was looked up last. -/
def lookedUp : AppExchange → Option PairingData → Option PairingData
  | ⟨.getPairing, paired⟩, _ => paired
  | _, record => record

/-- What the lock is told in a trace: each message as the lock of the record reads it that
was looked up last. -/
def told : Option PairingData → List AppExchange → List (Option Intent)
  | _, [] => []
  | record, e :: rest =>
      (usdioWrites [e]).map (fun data => record.bind fun p => Intent.read p data) ++
        told (lookedUp e record) rest

/-- What the motor is told to do. -/
def motions (said : List (Option Intent)) : List Intent := said.reduceOption.filter Intent.moves

/-- The motor is told things in the order of the messages. -/
theorem motions_append (said said' : List (Option Intent)) :
    motions (said ++ said') = motions said ++ motions said' := by
  simp [motions, List.reduceOption_append]

theorem motions_some (intents : List Intent) :
    motions (intents.map some) = intents.filter Intent.moves := by
  simp [motions, List.reduceOption]

/-- A trace can be cut anywhere: the second part is read with the record that the first part looked
up last. -/
theorem told_append (record : Option PairingData) (trace trace' : List AppExchange) :
    told record (trace ++ trace') =
      told record trace ++
        told (trace.foldl (fun record e => lookedUp e record) record) trace' := by
  induction trace generalizing record with
  | nil => rfl
  | cons e rest ih => simp [told, ih]

/-- One call tells what comes next on the agenda, or nothing. -/
theorem told_step {e : AppExchange} {a : Agenda} (admitted : agendaOrder.admits e.op a) :
    (agendaOrder.next e.op e.answer a).record = lookedUp e a.record ∧
      ∃ said, told a.record [e] = said.map some ∧
        said ++ (agendaOrder.next e.op e.answer a).left = a.left := by
  obtain ⟨op, answer⟩ := e
  cases op with
  | transport svc c =>
      cases c with
      | btGattWrite data =>
          cases svc with
          | pairing => exact ⟨rfl, [], rfl, rfl⟩
          | keyturner =>
              obtain ⟨p, intent, rest, hRecord, hLeft, hRead⟩ := admitted
              refine ⟨rfl, [intent], ?_, ?_⟩
              · simp [told, usdioWrites, hRecord, hRead]
              · simp [agendaOrder, hLeft]
      | _ => cases svc <;> exact ⟨rfl, [], rfl, rfl⟩
  | _ => exact ⟨rfl, [], rfl, rfl⟩

/-- A trace tells the agenda up to what is left of it. -/
theorem told_of_admits {trace : List AppExchange} {a : Agenda}
    (admitted : agendaOrder.Admits trace a) :
    ∃ said, told a.record trace = said.map some ∧
      said ++ (agendaOrder.after trace a).left = a.left := by
  induction trace generalizing a with
  | nil => exact ⟨[], rfl, rfl⟩
  | cons e rest ih =>
      obtain ⟨hRecord, said, hSaid, hLeft⟩ := told_step admitted.1
      obtain ⟨later, hLater, hEnd⟩ := ih admitted.2
      refine ⟨said ++ later, ?_, ?_⟩
      · have hSplit : told a.record (e :: rest) =
            told a.record [e] ++ told (lookedUp e a.record) rest :=
          told_append a.record [e] rest
        rw [hSplit, hSaid, ← hRecord, hLater, List.map_append]
      · rw [List.append_assoc, Typestate.after_cons, hEnd, hLeft]

/-- An operation tells its script up to some point, and the whole of it if it returns no
error. -/
theorem told_performed (p : Performed) (record : Option PairingData) :
    ∃ said, told record p.trace = said.map some ∧ said <+: p.request.operation.intents ∧
      (p.response.err = 0 → said = p.request.operation.intents) := by
  obtain ⟨hAdmits, hFinished⟩ := (agenda_body p.request record).traced p.traces
  obtain ⟨said, hSaid, hLeft⟩ := told_of_admits hAdmits
  refine ⟨said, hSaid, ⟨_, hLeft⟩, ?_⟩
  intro hErr
  rw [hFinished hErr, List.append_nil] at hLeft
  exact hLeft

/-- The operations that returned no error, for the part of what was asked that was done. -/
def succeeded (history : List Performed) : List Performed :=
  history.filter fun p => p.response.err = 0

/-- Over any sequence of operations the motor is told nothing but what is asked, in that
order and never twice, and no less than what was asked by the operations that succeed. -/
theorem motions_calls (history : List Performed) (record : Option PairingData) :
    (motions (told record (calls history))).Sublist
        (history.flatMap fun p => p.request.operation.motions) ∧
      ((succeeded history).flatMap fun p => p.request.operation.motions).Sublist
        (motions (told record (calls history))) := by
  induction history generalizing record with
  | nil => exact ⟨.slnil, .slnil⟩
  | cons p rest ih =>
      obtain ⟨said, hSaid, hPart, hAll⟩ := told_performed p record
      have hCalls : calls (p :: rest) = p.trace ++ calls rest := List.flatMap_cons
      obtain ⟨hAsked, hDone⟩ := ih (p.trace.foldl (fun record e => lookedUp e record) record)
      rw [hCalls, told_append, hSaid, motions_append, motions_some, List.flatMap_cons]
      have hHere : (said.filter Intent.moves).Sublist p.request.operation.motions :=
        hPart.sublist.filter _
      refine ⟨hHere.append hAsked, ?_⟩
      by_cases hErr : p.response.err = 0
      · have hSucceeded : succeeded (p :: rest) = p :: succeeded rest := by simp [succeeded, hErr]
        rw [hSucceeded, List.flatMap_cons, hAll hErr]
        exact (List.Sublist.refl _).append hDone
      · have hFailed : succeeded (p :: rest) = succeeded rest := by simp [succeeded, hErr]
        rw [hFailed]
        exact hDone.trans (List.sublist_append_right _ _)

end NukiBridge

import NukiBridge.App.Conduct

/-! The writing side of a transport: `nuki_transport_write` waits for `write_cb`, which the
host runs once for each write that it accepted, in their order. The callback stores the
error and gives the semaphore in two steps, and may come after the writer gave up. -/
namespace NukiBridge

open Buffer Interaction

/-- `write_sem` and `write_err`; the writes that the host has accepted and not reported on;
whether `write_cb` has still to give the semaphore. The rest is an account: how many writes
were accepted, the errors that the host reported, and those that were read. -/
structure WriteLink where
  writeSem : Bool
  writeErr : UInt8
  outstanding : Nat
  giving : Bool
  issued : Nat
  reported : List UInt8
  loaded : List UInt8

/-- The two steps of `write_cb`. -/
inductive WriteEvent where
  | store (err : UInt8)
  | give

/-- What `bt_gatt_write` returns, whether a wait times out, and all other answers. -/
structure WriteChoice where
  err : Int
  expire : Bool
  answer : (c : Call) → c.Answer

namespace WriteLink

/-- After `nuki_transport_init`. -/
def init : WriteLink := ⟨false, 0, 0, false, 0, [], []⟩

def event : WriteEvent → WriteLink → Option WriteLink
  | .store err, s =>
      if 0 < s.outstanding ∧ s.giving = false then
        some { s with
          writeErr := err
          outstanding := s.outstanding - 1
          giving := true
          reported := s.reported ++ [err] }
      else none
  | .give, s =>
      if s.giving = true then some { s with writeSem := true, giving := false } else none

def call : (c : Call) → WriteChoice → WriteLink → Option (Reply c.Answer WriteLink)
  | .resetWriteSem, _, s => some (.answer () { s with writeSem := false })
  | .btGattWrite _, choice, s =>
      if choice.err ≠ 0 then some (.answer choice.err s)
      else some (.answer 0 { s with outstanding := s.outstanding + 1, issued := s.issued + 1 })
  | .takeWriteSem, choice, s =>
      if s.writeSem = true then some (.answer 0 { s with writeSem := false })
      else if choice.expire = true then some (.answer (-eagain) s)
      else none
  | .loadWriteErr, _, s =>
      some (.answer s.writeErr { s with loaded := s.loaded ++ [s.writeErr] })
  | c, choice, s => some (.answer (choice.answer c) s)

/-- What holds at each phase of a write as long as nothing has failed. -/
def InPhase : WritePhase → WriteLink → Prop
  | .idle, s => s.outstanding = 0 ∧ s.giving = false ∧ s.reported = s.loaded
  | .reset, s =>
      s.outstanding = 0 ∧ s.giving = false ∧ s.reported = s.loaded ∧ s.writeSem = false
  | .written, s =>
      (s.outstanding = 1 ∧ s.giving = false ∧ s.reported = s.loaded ∧ s.writeSem = false) ∨
      (s.outstanding = 0 ∧ s.giving = !s.writeSem ∧ s.reported = s.loaded ++ [s.writeErr])
  | .taken, s =>
      s.outstanding = 0 ∧ s.giving = false ∧ s.reported = s.loaded ++ [s.writeErr]

/-- What the writer reads is what the host reported, in the same order. -/
structure Credited (l : Ledger Holding Int) (s : WriteLink) : Prop where
  count : s.reported.length + s.outstanding = s.issued
  order : s.loaded <+: s.reported
  sound : l.fault = none → (∀ err ∈ s.loaded, err = 0) ∧ InPhase l.place.write s

end WriteLink

/-- One transport while an operation writes to it. -/
def writeLink : Machine Call Call.Answer WriteEvent WriteChoice WriteLink where
  event := WriteLink.event
  call := WriteLink.call

namespace WriteLink

/-- The two steps of `write_cb`, at any moment: the stored error is the one reported last, and the
semaphore follows. -/
theorem credited_event {l : Ledger Holding Int} {e : WriteEvent} {s s' : WriteLink}
    (inv : Credited l s) (fires : event e s = some s') : Credited l s' := by
  cases e with
  | store err =>
      simp only [event, Option.ite_none_right_eq_some, Option.some.injEq] at fires
      obtain ⟨⟨hOutstanding, hGiving⟩, rfl⟩ := fires
      refine ⟨?_, inv.order.trans (List.prefix_append _ _), ?_⟩
      · have hCount := inv.count
        simp only [List.length_append, List.length_singleton]
        omega
      · intro hFailed
        obtain ⟨hZero, hPhase⟩ := inv.sound hFailed
        refine ⟨hZero, ?_⟩
        -- only the write that is waited for is outstanding
        cases hWrite : l.place.write <;> rw [hWrite] at hPhase
        case written =>
          rcases hPhase with ⟨hOne, -, hReported, hSem⟩ | ⟨hNone, -⟩
          · exact .inr ⟨by simp [hOne], by simp [hSem], by simp [hReported]⟩
          · omega
        all_goals
          have hNone : s.outstanding = 0 := hPhase.1
          omega
  | give =>
      simp only [event, Option.ite_none_right_eq_some, Option.some.injEq] at fires
      obtain ⟨hGiving, rfl⟩ := fires
      refine ⟨inv.count, inv.order, ?_⟩
      intro hFailed
      obtain ⟨hZero, hPhase⟩ := inv.sound hFailed
      refine ⟨hZero, ?_⟩
      cases hWrite : l.place.write <;> rw [hWrite] at hPhase
      case written =>
        rcases hPhase with ⟨-, hNot, -⟩ | ⟨hNone, -, hReported⟩
        · rw [hGiving] at hNot
          cases hNot
        · exact .inr ⟨hNone, rfl, hReported⟩
      all_goals
        have hNot : s.giving = false := hPhase.2.1
        rw [hGiving] at hNot
        cases hNot

/-- Calls that are no part of a write leave it where it is. -/
theorem Credited.of_unchanged {svc : Service} {l : Ledger Holding Int} {c : Call} {answer : c.Answer}
    {s : WriteLink} (inv : Credited l s)
    (same : (Holding.next c answer l.place).write = l.place.write) :
    Credited ((callDiscipline.ledger (holding svc)).next c answer l) s := by
  refine ⟨inv.count, inv.order, ?_⟩
  intro hFailed
  have hBefore : l.fault = none := (Option.or_eq_none_iff.mp hFailed).1
  obtain ⟨hZero, hPhase⟩ := inv.sound hBefore
  refine ⟨hZero, ?_⟩
  show InPhase (Holding.next c answer l.place).write s
  rw [same]
  exact hPhase

/-- A step of the writer. A timeout leaves a callback outstanding, so from then on only the order is
kept and not the phase. -/
theorem credited_answer {svc : Service} {l : Ledger Holding Int} {c : Call} {choice : WriteChoice}
    {s s' : WriteLink} {answer : c.Answer} (inv : Credited l s)
    (admitted : (callDiscipline.ledger (holding svc)).admits c l)
    (calls : call c choice s = some (.answer answer s')) :
    Credited ((callDiscipline.ledger (holding svc)).next c answer l) s' := by
  have unfailed (dirty : ¬c.Cleans) : l.fault = none :=
    not_not.mp fun hFailed => dirty (admitted.1 hFailed)
  cases c with
  | resetWriteSem =>
      cases calls
      have hIdle : l.place.write = .idle := admitted.2
      obtain ⟨hZero, hPhase⟩ := inv.sound (unfailed not_false)
      rw [hIdle] at hPhase
      exact ⟨inv.count, inv.order, fun _ => ⟨hZero, hPhase.1, hPhase.2.1, hPhase.2.2, rfl⟩⟩
  | btGattWrite data =>
      have hReset : l.place.write = .reset := admitted.2.1
      obtain ⟨hZero, hPhase⟩ := inv.sound (unfailed not_false)
      rw [hReset] at hPhase
      obtain ⟨hNone, hGiving, hReported, hSem⟩ := hPhase
      by_cases hErr : choice.err ≠ 0
      · rw [call, if_pos hErr] at calls
        cases calls
        refine ⟨inv.count, inv.order, ?_⟩
        simp [callDiscipline, Call.fault, hErr]
      · rw [call, if_neg hErr] at calls
        cases calls
        have hCount := inv.count
        refine ⟨by dsimp only; omega, inv.order, ?_⟩
        intro _
        refine ⟨hZero, ?_⟩
        show InPhase (if (0 : Int) = 0 then .written else .idle) _
        rw [if_pos rfl]
        exact .inl ⟨by simp [hNone], hGiving, hReported, hSem⟩
  | takeWriteSem =>
      have hWritten : l.place.write = .written := admitted.2
      obtain ⟨hZero, hPhase⟩ := inv.sound (unfailed not_false)
      rw [hWritten] at hPhase
      by_cases hSem : s.writeSem = true
      · rw [call, if_pos hSem] at calls
        cases calls
        refine ⟨inv.count, inv.order, ?_⟩
        intro _
        refine ⟨hZero, ?_⟩
        show InPhase (if (0 : Int) = 0 then .taken else .idle) _
        rw [if_pos rfl]
        rcases hPhase with ⟨-, -, -, hNot⟩ | ⟨hNone, hGiving, hReported⟩
        · rw [hSem] at hNot
          cases hNot
        · exact ⟨hNone, by simp [hGiving, hSem], hReported⟩
      · rw [call, if_neg hSem] at calls
        split at calls
        · cases calls
          refine ⟨inv.count, inv.order, ?_⟩
          simp [callDiscipline, Call.fault, eagain]
        · cases calls
  | loadWriteErr =>
      cases calls
      have hTaken : l.place.write = .taken := admitted.2
      obtain ⟨hZero, hPhase⟩ := inv.sound (unfailed not_false)
      rw [hTaken] at hPhase
      obtain ⟨hNone, hGiving, hReported⟩ := hPhase
      refine ⟨inv.count, ?_, ?_⟩
      · simp only [hReported, List.prefix_rfl]
      · intro hFailed
        have hLoaded : (if s.writeErr ≠ 0 then some (-eio) else none) = none :=
          (Option.or_eq_none_iff.mp hFailed).2
        have hErr : s.writeErr = 0 := by simpa using hLoaded
        refine ⟨?_, hNone, hGiving, hReported⟩
        simpa [hErr, or_imp, forall_and] using hZero
  | _ =>
      cases calls
      exact inv.of_unchanged rfl

/-- The one step that stays inside a call does not exist here. -/
theorem call_ne_stay {c : Call} {choice : WriteChoice} {s s' : WriteLink} :
    call c choice s ≠ some (.stay s') := by
  cases c <;> rw [call] <;> (try split) <;> (try split) <;> simp

/-- Both together, in every run of code that keeps to the discipline. -/
theorem credited_inductive (svc : Service) :
    (callDiscipline.ledger (holding svc)).Inductive writeLink .free Credited where
  event := fun _ _ _ _ inv _ fires => credited_event inv fires
  stay := fun _ _ _ _ _ _ _ _ calls => absurd calls call_ne_stay
  answer := fun _ _ _ _ _ _ inv admitted _ calls => credited_answer inv admitted calls

end WriteLink

/-- The service whose transport an operation uses. -/
def TransportOp.service : TransportOp → Service
  | .pair _ _ => .pairing
  | _ => .keyturner

/-- The error of a part is what the operation returns. -/
theorem stops_error {α : Type} {svc : Service} {bound : Nat} {code : Code (Int × α)}
    (h : code.Stops svc errOfPair bound none) (le : bound ≤ 230) :
    Code.Stops svc errOf 230 none (code.bind fun result => .done result.1) := by
  have hBound : Code.Stops svc errOf (bound + 0) none (code.bind fun result => .done result.1) := by
    apply h.bind
    · intro result hNone
      exact stops_return (explains_answer hNone.symm)
    · intro result error hError
      exact stops_return (explains_same hError)
  exact hBound.mono le

/-- The four operations over one transport keep to the discipline, with the longest of their
bounds. -/
theorem TransportOp.stops (op : TransportOp) : op.body.Stops op.service errOf 230 none := by
  cases op with
  | getState stack authId sharedKey state =>
      exact stops_error (stops_nukiCommandGetState _ _) (by decide)
  | lockAction stack nonceStack authId appId sharedKey action out =>
      exact stops_error (stops_nukiCommandLockAction _ _ _ _ _) (by decide)
  | calibrate stack nonceStack authId sharedKey securityPin =>
      exact stops_nukiCommandCalibrate _ _ _
  | pair stack out => exact stops_error (stops_nukiPairingRun _ _) (by decide)

/-- Whenever `write_cb` runs, each acknowledgement is credited to the write that it is of,
and an operation that returns no error has had every message acknowledged. -/
theorem writes_acknowledged (op : TransportOp) {c : Config Call Call.Answer WriteLink Int}
    (run : writeLink.Runs .free ⟨.init, op.body⟩ c) :
    c.state.reported.length + c.state.outstanding = c.state.issued ∧
      c.state.loaded <+: c.state.reported ∧
      (c.thread = .done 0 → c.state.reported = List.replicate c.state.issued 0 ∧
        c.state.loaded = c.state.reported) := by
  have hInit : WriteLink.Credited ⟨⟨false, none, .idle⟩, none, 0⟩ .init :=
    ⟨rfl, List.prefix_rfl, fun _ => ⟨by simp [WriteLink.init], rfl, rfl, rfl⟩⟩
  have hStops := op.stops _ Holding.rests_start 0
  obtain ⟨l, hCredited, hFollows⟩ :=
    (WriteLink.credited_inductive op.service).runs run hInit hStops
  refine ⟨hCredited.count, hCredited.order, ?_⟩
  intro hDone
  rw [hDone] at hFollows
  obtain ⟨hRests, -, hError⟩ := hFollows
  have hFailed : l.fault = none := by
    cases hFault : l.fault with
    | none => rfl
    | some error =>
        rw [hFault] at hError
        cases (hError : none = some error)
  obtain ⟨hZero, hPhase⟩ := hCredited.sound hFailed
  rw [hRests.write] at hPhase
  obtain ⟨hNone, -, hReported⟩ := hPhase
  have hCount := hCredited.count
  rw [hNone, Nat.add_zero] at hCount
  refine ⟨?_, hReported.symm⟩
  rw [List.eq_replicate_iff]
  exact ⟨hCount, hReported ▸ hZero⟩

/-- The first message of the handshake is acknowledged. -/
theorem writes_acknowledged_first :
    ∃ c, writeLink.Runs .free ⟨.init, (TransportOp.pair (fun _ => default) default).body⟩ c ∧
      c.state.loaded = [0] ∧ c.state.loaded <+: c.state.reported := by
  let choice : WriteChoice := ⟨0, false, fun _ => default⟩
  have hRun : writeLink.Runs .free
      ⟨.init, (TransportOp.pair (fun _ => default) default).body⟩ _ :=
    Machine.runs_of_replay [.thread choice, .thread choice, .thread choice, .event (.store 0),
      .event .give, .thread choice, .thread choice] (Machine.meets_free _ _) rfl
  exact ⟨_, hRun, rfl, (writes_acknowledged _ hRun).2.1⟩

end NukiBridge

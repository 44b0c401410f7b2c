import NukiBridge.App.Steps

/-! Which event decides what `connect_to_lock` returns. The scanner, the scan timeout
and the connection belong to the call that started them; if nothing is left of the
calls before it, an attempt is ended only by what belongs to it. -/
namespace NukiBridge

open Interaction Typestate

namespace AppState

/-- Something that can end an attempt was started by this call of `connect_to_lock`. -/
def Belongs (s : AppState) (owner : Nat) : Prop :=
  s.scanner = some owner ∨ s.scanTimer = some owner ∨ ∃ l, s.link = some l ∧ l.owner = owner

/-- Nothing is left that could end an attempt. -/
def Quiet (s : AppState) : Prop := s.gConn = none ∧ s.scanner = none ∧ s.scanTimer = none

instance (s : AppState) : Decidable s.Quiet := instDecidableAnd

/-- What a callback does to the attempt: nothing, or it ends it. -/
inductive Outcome (s s' : AppState) : Prop where
  | kept (connecting : s'.connecting = s.connecting) (connectErr : s'.connectErr = s.connectErr)
      (readySem : s'.readySem = s.readySem) (verdict : s'.verdict = s.verdict)
  | ended (owner : Nat) (err : Int) (belongs : s.Belongs owner) (pending : s.connecting = true)
      (connecting : s'.connecting = false) (connectErr : s'.connectErr = err)
      (readySem : s'.readySem = true) (verdict : s'.verdict = some (owner, err))

/-- Every path on which a callback calls `finish_connect_attempt`: the guard on `connecting` decides
between the two outcomes. -/
theorem Outcome.finish {s s' : AppState} {owner : Nat} (err : Int) (belongs : s.Belongs owner)
    (connecting : s'.connecting = s.connecting) (connectErr : s'.connectErr = s.connectErr)
    (readySem : s'.readySem = s.readySem) (verdict : s'.verdict = s.verdict) :
    Outcome s (s'.finishConnectAttempt owner err) := by
  unfold finishConnectAttempt
  split
  · exact .kept connecting connectErr readySem verdict
  · rename_i hConnecting
    rw [Bool.not_eq_false, connecting] at hConnecting
    exact .ended owner err belongs hConnecting rfl rfl rfl rfl

end AppState

namespace Effect

variable {e : AppEvent} {s s' : AppState}

/-- An attempt is ended by something that belongs to its owner. -/
theorem outcome (effect : Effect s e s') : AppState.Outcome s s' := by
  cases effect with
  | refused scans free error => exact .finish _ (Or.inl scans) rfl rfl rfl rfl
  | scanEnded scheduled => exact .finish _ (Or.inr (Or.inl scheduled)) rfl rfl rfl rfl
  | unconnected l link _ _ => exact .finish _ (Or.inr (Or.inr ⟨l, link, rfl⟩)) rfl rfl rfl rfl
  | unstarted l link _ _ => exact .finish _ (Or.inr (Or.inr ⟨l, link, rfl⟩)) rfl rfl rfl rfl
  | dropped l _ _ link _ => exact .finish _ (Or.inr (Or.inr ⟨l, link, rfl⟩)) rfl rfl rfl rfl
  | gdioBroken l link _ _ _ _ => exact .finish _ (Or.inr (Or.inr ⟨l, link, rfl⟩)) rfl rfl rfl rfl
  | usdioDone l link _ _ => exact .finish _ (Or.inr (Or.inr ⟨l, link, rfl⟩)) rfl rfl rfl rfl
  | usdioBroken l _ link _ _ _ _ =>
      exact .finish _ (Or.inr (Or.inr ⟨l, link, rfl⟩)) rfl rfl rfl rfl
  | usdioFailed l link _ _ _ => exact .finish _ (Or.inr (Or.inr ⟨l, link, rfl⟩)) rfl rfl rfl rfl
  | _ => exact .kept rfl rfl rfl rfl

/-- No callback starts anything for another call: the timer, the scanner and the link that it leaves
belong to whom they belonged before. -/
theorem belongs (effect : Effect s e s') {owner : Nat} (h : s'.Belongs owner) :
    s.Belongs owner := by
  cases effect <;>
    simp_all [AppState.Belongs, AppState.finishConnectAttempt_eq, AppState.scanTimeoutHandler] <;>
    grind

/-- What no callback writes: the count of the calls, the verdict of a finished attempt, and what
only the operation thread sets. -/
theorem frame (effect : Effect s e s') :
    s'.calls = s.calls ∧ s'.inside = s.inside ∧ s'.timedOut = s.timedOut ∧
      s'.scanErr = s.scanErr ∧ s'.gdioFrames = s.gdioFrames := by
  cases effect <;>
    simp only [AppState.finishConnectAttempt_eq, AppState.scanTimeoutHandler, and_self]

/-- No callback touches the pairing, its stored copy or the cache. -/
theorem stores (effect : Effect s e s') :
    s'.pairing = s.pairing ∧ s'.settings = s.settings ∧ s'.cache = s.cache := by
  cases effect <;>
    simp only [AppState.finishConnectAttempt_eq, AppState.scanTimeoutHandler, and_self]

end Effect

namespace AppState

/-- Everything there is belongs to the last call. -/
structure Ours (s : AppState) : Prop where
  belongs : ∀ owner, s.Belongs owner → owner = s.calls
  verdict : ∀ owner err, s.verdict = some (owner, err) → owner = s.calls

/-- The attempt is over, with a result of its own. -/
def Decided (s : AppState) (err : Int) : Prop :=
  s.connecting = false ∧ s.verdict = some (s.calls, err)

/-- Why `connect_to_lock` returns `rc`: an event of its own scan or connection, its own
timeout, or its own failure to scan. -/
def Explained (s : AppState) (rc : Int) : Prop :=
  s.verdict = some (s.calls, rc) ∨ s.timedOut = true ∧ rc = -etimedout ∨
    s.scanErr = some rc ∧ rc ≠ 0

/-- How far the attempt is, at each place of the operation thread. -/
def Stands (s : AppState) : Place → Prop
  | .idle => True
  | .preparing done =>
      (∀ owner, ¬s.Belongs owner) ∧ s.verdict = none ∧ (1 ≤ done → s.readySem = false) ∧
        (done = 4 → s.connecting = true)
  | .scanning => s.connecting = true ∧ s.readySem = false ∨ s.Decided s.connectErr
  | .waiting => s.connecting = true ∧ s.readySem = false ∨ s.Decided s.connectErr
  | .woken => s.Decided s.connectErr
  | .expired => s.timedOut = true
  | .abandoned => s.timedOut = true
  | .stopped => s.timedOut = true
  | .found => s.timedOut = true
  | .deciding rc =>
      s.Decided rc ∨ s.timedOut = true ∧ rc = -etimedout ∨ s.scanErr = some rc ∧ rc ≠ 0
  | .failed _ => True
  | _ => s.Decided 0

/-- Once it is decided, an attempt keeps its result. The callbacks that still come find `connecting`
cleared. -/
theorem Decided.of_outcome {s s' : AppState} {err : Int} (h : s.Decided err)
    (outcome : Outcome s s') (calls : s'.calls = s.calls) : s'.Decided err := by
  cases outcome with
  | kept connecting connectErr readySem verdict =>
      rw [Decided, connecting, verdict, calls]
      exact h
  | ended owner err' belongs pending => exact absurd (pending.symm.trans h.1) (by decide)

/-- While the thread waits, a callback may decide the attempt. -/
theorem waits_of_outcome {s s' : AppState}
    (h : s.connecting = true ∧ s.readySem = false ∨ s.Decided s.connectErr) (ours : s.Ours)
    (outcome : Outcome s s') (calls : s'.calls = s.calls) :
    s'.connecting = true ∧ s'.readySem = false ∨ s'.Decided s'.connectErr := by
  cases outcome with
  | kept connecting connectErr readySem verdict =>
      rw [Decided, connecting, connectErr, readySem, verdict, calls]
      exact h
  | ended owner err belongs pending connecting connectErr readySem verdict =>
      rw [connectErr, Decided, connecting, verdict, calls, ours.belongs owner belongs]
      exact Or.inr ⟨rfl, rfl⟩

/-- A callback starts nothing in the name of another call: what it leaves behind was there
before. -/
theorem Ours.of_effect {e : AppEvent} {s s' : AppState} (h : s.Ours) (effect : Effect s e s') :
    s'.Ours where
  belongs := by
    intro owner hBelongs
    rw [effect.frame.1]
    exact h.belongs owner (effect.belongs hBelongs)
  verdict := by
    intro owner err hVerdict
    rw [effect.frame.1]
    cases effect.outcome with
    | kept _ _ _ verdict => exact h.verdict owner err (verdict.symm.trans hVerdict)
    | ended owner' err' belongs _ _ _ _ verdict =>
        cases verdict.symm.trans hVerdict
        exact h.belongs owner belongs

/-- A callback leaves the attempt where it is, or decides it. -/
theorem Stands.of_effect {place : Place} {e : AppEvent} {s s' : AppState} (h : s.Stands place)
    (ours : s.Ours) (effect : Effect s e s') : s'.Stands place := by
  have hOutcome := effect.outcome
  obtain ⟨hCalls, -, hTimedOut, hScanErr, -⟩ := effect.frame
  cases place with
  | idle => trivial
  | preparing done =>
      obtain ⟨hNone, hVerdict, hSem, hConnecting⟩ := h
      cases hOutcome with
      | kept connecting connectErr readySem verdict =>
          rw [Stands, connecting, readySem, verdict]
          exact ⟨fun owner hBelongs => hNone owner (effect.belongs hBelongs), hVerdict, hSem,
            hConnecting⟩
      | ended owner err belongs => exact absurd belongs (hNone owner)
  | scanning => exact waits_of_outcome h ours hOutcome hCalls
  | waiting => exact waits_of_outcome h ours hOutcome hCalls
  | woken =>
      have hDecided : s'.Decided s.connectErr := Decided.of_outcome h hOutcome hCalls
      cases hOutcome with
      | kept _ connectErr =>
          rw [Stands, connectErr]
          exact hDecided
      | ended _ _ _ pending => exact absurd (pending.symm.trans h.1) (by decide)
  | expired => exact hTimedOut.trans h
  | abandoned => exact hTimedOut.trans h
  | stopped => exact hTimedOut.trans h
  | found => exact hTimedOut.trans h
  | deciding rc =>
      rw [Stands, hTimedOut, hScanErr]
      exact h.imp_left fun hDecided => Decided.of_outcome hDecided hOutcome hCalls
  | failed rc => trivial
  | _ => exact Decided.of_outcome h hOutcome hCalls

/-- A new attempt has nothing that could end it, if everything is quiet. -/
theorem Quiet.not_belongs {s : AppState} (h : s.Quiet) (coherent : s.Coherent) (owner : Nat) :
    ¬s.Belongs owner := by
  intro hBelongs
  rcases hBelongs with hScanner | hTimer | ⟨l, hLink, -⟩
  · exact absurd (h.2.1.symm.trans hScanner) nofun
  · exact absurd (h.2.2.symm.trans hTimer) nofun
  · exact absurd (h.1.symm.trans (coherent.present l hLink).conn) nofun

end AppState

/-- Every call of `connect_to_lock` starts when nothing is left of the ones before it. -/
def quietStarts : Condition AppOp AppEvent AppChoice AppState where
  event := fun _ _ => True
  call := fun op _ s => op = .connectBegin → s.Quiet

instance (op : AppOp) : Decidable (op = .connectBegin) := by
  cases op <;> first | exact isTrue rfl | exact isFalse nofun

instance (e : AppEvent) (s : AppState) : Decidable (quietStarts.event e s) := isTrue trivial

instance (op : AppOp) (choice : AppChoice) (s : AppState) :
    Decidable (quietStarts.call op choice s) :=
  inferInstanceAs (Decidable (op = .connectBegin → s.Quiet))

/-- The connection that is dropped belongs to whom it belonged before. -/
theorem AppState.belongs_btConnDisconnect {s : AppState} {conn : Option Nat} {rc : Int}
    {owner : Nat} (h : (s.btConnDisconnect conn rc).Belongs owner) : s.Belongs owner := by
  rcases h with hScanner | hTimer | ⟨k, hLink, hOwner⟩
  · exact Or.inl hScanner
  · exact Or.inr (Or.inl hTimer)
  · cases hBefore : s.link with
    | none => simp [AppState.btConnDisconnect, hBefore] at hLink
    | some l =>
        rw [AppState.btConnDisconnect_link conn rc hBefore] at hLink
        cases hLink
        exact Or.inr (Or.inr ⟨l, hBefore, hOwner⟩)

/-- Enough for a step of the thread: the count of calls and the verdict stay, and only this call may
have started something new. -/
theorem AppState.Ours.of_belongs {s s' : AppState} (h : s.Ours) (calls : s'.calls = s.calls)
    (verdict : s'.verdict = s.verdict)
    (belongs : ∀ owner, s'.Belongs owner → s.Belongs owner ∨ owner = s.calls) : s'.Ours where
  belongs := by
    intro owner hBelongs
    rw [calls]
    exact (belongs owner hBelongs).elim (h.belongs owner) id
  verdict := by
    rw [calls, verdict]
    exact h.verdict

/-- A step of the thread starts things for its own call only. -/
theorem AppState.Ours.of_move {op : AppOp} {choice : AppChoice} {place place' : Place}
    {s s' : AppState} (h : s.Ours) (coherent : s.Coherent)
    (quiet : op = .connectBegin → s.Quiet) (move : Move s op choice place place' s') :
    s'.Ours := by
  cases move with
  | begin =>
      constructor
      · intro owner hBelongs
        exact absurd hBelongs ((quiet rfl).not_belongs coherent owner)
      · intro owner err hVerdict
        exact absurd hVerdict nofun
  | scan off =>
      refine h.of_belongs rfl rfl ?_
      intro owner hBelongs
      rcases hBelongs with hScanner | hRest
      · exact Or.inr (Option.some.inj hScanner).symm
      · exact Or.inl (Or.inr hRest)
  | schedule =>
      refine h.of_belongs rfl rfl ?_
      intro owner hBelongs
      rcases hBelongs with hScanner | hTimer | hLink
      · exact Or.inl (Or.inl hScanner)
      · cases hBefore : s.scanTimer with
        | none =>
            simp only [hBefore, Option.none_or, Option.some.injEq] at hTimer
            exact Or.inr hTimer.symm
        | some before =>
            simp only [hBefore, Option.some_or] at hTimer
            exact Or.inl (Or.inr (Or.inl (hBefore.trans hTimer)))
      · exact Or.inl (Or.inr (Or.inr hLink))
  | stop =>
      refine h.of_belongs rfl rfl ?_
      intro owner hBelongs
      rcases hBelongs with hScanner | hRest
      · simp only at hScanner
        split at hScanner
        · cases hScanner
        · exact Or.inl (Or.inl hScanner)
      · exact Or.inl (Or.inr hRest)
  | cancel =>
      exact h.of_belongs rfl rfl fun _ hBelongs => Or.inl (belongs_btConnDisconnect hBelongs)
  | disconnect =>
      exact h.of_belongs rfl rfl fun _ hBelongs => Or.inl (belongs_btConnDisconnect hBelongs)
  | _ => exact h.of_belongs rfl rfl fun _ hBelongs => Or.inl hBelongs

/-- Each step of the thread takes the attempt to the next place. -/
theorem AppState.Stands.of_move {op : AppOp} {choice : AppChoice} {place place' : Place}
    {s s' : AppState} (h : s.Stands place) (coherent : s.Coherent)
    (quiet : op = .connectBegin → s.Quiet) (move : Move s op choice place place' s') :
    s'.Stands place' := by
  cases move with
  | begin => exact ⟨(quiet rfl).not_belongs coherent, rfl, by simp, by simp⟩
  | lookUp => trivial
  | resetSem => exact ⟨h.1, h.2.1, fun _ => rfl, by simp⟩
  | resetErr => exact ⟨h.1, h.2.1, fun _ => h.2.2.1 le_rfl, by simp⟩
  | setNeed need => exact ⟨h.1, h.2.1, fun _ => h.2.2.1 (by decide), by simp⟩
  | start => exact ⟨h.1, h.2.1, fun _ => h.2.2.1 (by decide), fun _ => rfl⟩
  | refused error => exact Or.inr (Or.inr ⟨rfl, error⟩)
  | scan off => exact Or.inl ⟨h.2.2.2 rfl, h.2.2.1 (by decide)⟩
  | schedule => exact h
  | woken given =>
      rcases h with ⟨-, hSem⟩ | hDecided
      · exact absurd (hSem.symm.trans given) (by decide)
      · exact hDecided
  | expired taken => rfl
  | result => exact Or.inl h
  | abandon => exact h
  | stop => exact h
  | unheld free => exact Or.inr (Or.inl ⟨h, rfl⟩)
  | held conn => exact h
  | cancel => exact Or.inr (Or.inl ⟨h, rfl⟩)
  | failed rc error => trivial
  | opened =>
      rcases h with hDecided | ⟨-, hErr⟩ | ⟨-, hErr⟩
      · exact hDecided
      · exact absurd hErr (by decide)
      · exact absurd rfl hErr
  | closed free used =>
      rcases used with rfl | rfl | rfl <;> exact h
  | leave conn used =>
      rcases used with rfl | rfl | rfl <;> exact h
  | _ => exact h

/-- The invariant is kept by every callback and by every step of the thread, each looked at by
itself. -/
theorem attempt_inductive :
    appOrder.Inductive bridge quietStarts fun place s =>
      s.Coherent ∧ s.Ours ∧ s.Stands place := by
  apply inductive_over coherent_inductive fun _ _ coherent => coherent
  · intro place e s s' coherent inv meets effect
    exact ⟨inv.1.of_effect effect, inv.2.of_effect inv.1 effect⟩
  · intro op choice place place' s s' coherent inv meets move
    exact ⟨inv.1.of_move coherent meets move, inv.2.of_move coherent meets move⟩

/-- In every run in which each call of `connect_to_lock` starts with nothing left of the
ones before it, an attempt is ended only by what belongs to it, and the call returns
what its own events, its own timeout or its own failure to scan decided. -/
theorem connectToLock_decided {stored : Option PairingData} {req : Request} {s : AppState}
    {code : AppCode Response} (reached : Reached quietStarts stored (.busy req ⟨s, code⟩)) :
    (∀ owner err, s.verdict = some (owner, err) → owner = s.calls) ∧
      ∀ rc next, code = .call (.connectEnd rc) next → s.Explained rc := by
  have hBoot : (AppState.boot stored).Ours := by
    constructor
    · intro owner hBelongs
      rcases hBelongs with hNone | hNone | ⟨l, hNone, -⟩ <;> cases hNone
    · intro owner err hNone
      cases hNone
  obtain ⟨place, ⟨-, ours, stands⟩, order⟩ := located_of_reached attempt_inductive
    ⟨AppState.coherent_boot stored, hBoot, trivial⟩
    (fun _ _ _ _ inv => ⟨inv.1, inv.2.1, trivial⟩) reached
  refine ⟨ours.verdict, ?_⟩
  intro rc next hCode
  subst hCode
  cases order.1 with
  | finish => exact stands.imp_left And.right

/-! A run of two operations, in which everything but the discovery goes well. -/

instance : Inhabited PairingData := ⟨⟨default, 0, 0, default, default⟩⟩

instance : Inhabited KeyturnerState := ⟨⟨0, 0, 0, 0, 0, 0, 0, 0, 0, 0, false, 0, 0⟩⟩

/-- A stack of zeros. -/
def Leftover.zero : Leftover :=
  ⟨fun _ => default, default, fun _ => ⟨0, [], 0⟩, default, false⟩

/-- Calls succeed, and a wait that has nothing to wait for times out. -/
def AppChoice.plain : AppChoice := ⟨0, true, default, 0, fun _ => default⟩

/-- A lock is found by its name. -/
def AppEvent.findsLock (addr : BtAddrLe) : AppEvent :=
  .deviceFound addr [⟨btDataNameComplete, nukiNamePrefix⟩] 0 0

/-- `connect_to_lock` up to its wait for `g_ready_sem`, after the pairing was looked up. -/
def connecting : List (Label AppEvent AppChoice) := List.replicate 8 (.thread .plain)

/-- The lock is found and connected, but its services are never discovered: the wait
times out and the connection is asked to end. -/
def stalled : List (Label AppEvent AppChoice) :=
  connecting ++ [.event (.deviceFound default [] 0 0), .event (.connected 0 0)] ++
    List.replicate 6 (.thread .plain)

/-- The first call after boot starts quietly and returns its own timeout. -/
theorem connectToLock_decided_stalled :
    ∃ req s next,
      Reached quietStarts (some default) (.busy req ⟨s, .call (.connectEnd (-etimedout)) next⟩) ∧
        s.Explained (-etimedout) := by
  let req : Request := ⟨.getState, .zero⟩
  have hReached : Reached quietStarts (some default)
      (.busy req ⟨_, .call (.connectEnd (-etimedout)) _⟩) :=
    (Server.Reaches.start.request req).runs
      (Machine.runs_of_replay stalled.dropLast (by decide) rfl)
  exact ⟨req, _, _, hReached, (connectToLock_decided hReached).2 _ _ rfl⟩

/-- The connection of the call that timed out ends only while the next call is waiting,
and that call returns the error. -/
theorem connectToLock_ended_by_earlier :
    ∃ req s next,
      Reached .free (some default) (.busy req ⟨s, .call (.connectEnd (-enotconn)) next⟩) ∧
      s.calls = 2 ∧ s.verdict = some (1, -enotconn) ∧ ¬s.Explained (-enotconn) := by
  let req : Request := ⟨.getState, .zero⟩
  have hFirst : Reached .free (some default) (.busy req ⟨_, .done ⟨-etimedout, none⟩⟩) :=
    (Server.Reaches.start.request req).runs
      (Machine.runs_of_replay stalled (Machine.meets_free _ _) rfl)
  have hSecond := (hFirst.finish.request req).runs
    (Machine.runs_of_replay
      (connecting ++ [.event .disconnected] ++ List.replicate 2 (.thread .plain))
      (Machine.meets_free _ _) rfl)
  refine ⟨req, _, _, hSecond, rfl, rfl, ?_⟩
  intro h
  rcases h with hVerdict | ⟨hTimedOut, -⟩ | ⟨hScanErr, -⟩
  · cases hVerdict
  · cases hTimedOut
  · cases hScanErr

end NukiBridge

import NukiBridge.App.Connection

/-! The scanner runs on demand. Each event that ends an attempt stops the scanner first,
or is about a link whose making stopped it; so it runs only inside of `connect_to_lock`. -/
namespace NukiBridge

open Interaction Typestate

/-- The result of the `bt_le_scan_stop` in `scan_timeout_handler`. -/
def AppEvent.timeoutStop : AppEvent → Int
  | .scanTimeout stop => stop
  | _ => 0

/-- `bt_le_scan_stop` succeeds when the scanner is running. -/
def scanStops : Condition AppOp AppEvent AppChoice AppState where
  event := fun e s => s.scanner ≠ none → e.timeoutStop = 0
  call := fun op choice s => op = .leScanStop → s.scanner ≠ none → choice.err = 0

instance (op : AppOp) : Decidable (op = .leScanStop) :=
  decidable_of_iff (op.ctorIdx = AppOp.leScanStop.ctorIdx) <| by
    constructor
    · intro h
      cases op <;> first | rfl | cases h
    · exact fun h => h ▸ rfl

instance (e : AppEvent) (s : AppState) : Decidable (scanStops.event e s) :=
  inferInstanceAs (Decidable (s.scanner ≠ none → e.timeoutStop = 0))

instance (op : AppOp) (choice : AppChoice) (s : AppState) :
    Decidable (scanStops.call op choice s) :=
  inferInstanceAs (Decidable (op = .leScanStop → s.scanner ≠ none → choice.err = 0))

/-- The places inside of `connect_to_lock`. -/
def Place.connects : Place → Bool
  | .preparing _ => true
  | .scanning => true
  | .waiting => true
  | .woken => true
  | .expired => true
  | .abandoned => true
  | .stopped => true
  | .found => true
  | .deciding _ => true
  | _ => false

namespace AppState

/-- Where the scanner may be running. -/
def Scans (s : AppState) : Place → Prop
  | .scanning => s.scanner ≠ none → s.connecting = true
  | .waiting => s.scanner ≠ none → s.connecting = true
  | .expired => True
  | .abandoned => True
  | _ => s.scanner = none

/-- A callback leaves the scanner running only if it does not end the attempt. -/
theorem scans_of_effect {e : AppEvent} {s s' : AppState} (wired : s.Wired)
    (stops : scanStops.event e s) (effect : Effect s e s') (scans : s'.scanner ≠ none) :
    s.scanner ≠ none ∧ s'.connecting = s.connecting := by
  have hLink {l : Link} (link : s.link = some l) : s.scanner = none :=
    wired.single (link ▸ Option.some_ne_none l)
  cases effect with
  | ignored => exact ⟨scans, rfl⟩
  | refused _ _ _ => simp [finishConnectAttempt_eq] at scans
  | created _ _ _ => exact absurd rfl scans
  | @scanEnded stop owner scheduled =>
      simp only [scanTimeoutHandler, finishConnectAttempt_eq] at scans
      split at scans
      · exact absurd rfl scans
      · rename_i hStop
        exact absurd (stops scans) hStop
  | started l _ link _ => exact absurd (hLink link) scans
  | gdioDone l link _ _ _ _ => exact absurd (hLink link) scans
  | unconnected l link _ _ => simp [finishConnectAttempt_eq, hLink link] at scans
  | unstarted l link _ _ => simp [finishConnectAttempt_eq, hLink link] at scans
  | dropped l _ _ link _ => simp [finishConnectAttempt_eq, hLink link] at scans
  | gdioBroken l link _ _ _ _ => simp [finishConnectAttempt_eq, hLink link] at scans
  | usdioDone l link _ _ => simp [finishConnectAttempt_eq, hLink link] at scans
  | usdioBroken l _ link _ _ _ _ => simp [finishConnectAttempt_eq, hLink link] at scans
  | usdioFailed l link _ _ _ => simp [finishConnectAttempt_eq, hLink link] at scans

/-- A callback stops the scanner or leaves it, and one that ends the attempt has stopped it before,
since the stop succeeds. -/
theorem Scans.of_effect {place : Place} {e : AppEvent} {s s' : AppState} (h : s.Scans place)
    (wired : s.Wired) (stops : scanStops.event e s) (effect : Effect s e s') :
    s'.Scans place := by
  have hScans := scans_of_effect wired stops effect
  have hNone (off : s.scanner = none) : s'.scanner = none := by
    by_contra hOn
    exact (hScans hOn).1 off
  have hPending (waits : s.scanner ≠ none → s.connecting = true) (hOn : s'.scanner ≠ none) :
      s'.connecting = true :=
    (hScans hOn).2.trans (waits (hScans hOn).1)
  cases place with
  | scanning => exact hPending h
  | waiting => exact hPending h
  | expired => trivial
  | abandoned => trivial
  | _ => exact hNone h

/-- The thread starts the scanner inside of `connect_to_lock` alone, and stops it on the ways out on
which it may still be running. -/
theorem Scans.of_move {op : AppOp} {choice : AppChoice} {place place' : Place}
    {s s' : AppState} (h : s.Scans place) (stands : s.Stands place)
    (quiet : op = .connectBegin → s.Quiet) (stops : scanStops.call op choice s)
    (move : Move s op choice place place' s') : s'.Scans place' := by
  cases move with
  | begin => exact (quiet rfl).2.1
  | scan off => exact fun _ => stands.2.2.2 rfl
  | schedule => exact h
  | woken given =>
      rcases stands with ⟨-, hSem⟩ | hDecided
      · exact absurd (hSem.symm.trans given) (by decide)
      · by_contra hOn
        exact absurd (hDecided.1.symm.trans (h hOn)) (by decide)
  | expired taken => trivial
  | abandon => trivial
  | stop =>
      by_cases hOn : s.scanner = none
      · simp only [Scans, hOn, ite_self]
      · simp only [Scans, if_pos (stops rfl hOn)]
  | closed free used =>
      rcases used with rfl | rfl | rfl <;> exact h
  | leave conn used =>
      rcases used with rfl | rfl | rfl <;> exact h
  | _ => exact h

/-- The markers around `connect_to_lock` follow the places of the thread, so being inside can be
read off either of them. -/
theorem inside_of_move {op : AppOp} {choice : AppChoice} {place place' : Place}
    {s s' : AppState} (h : s.inside = place.connects)
    (move : Move s op choice place place' s') : s'.inside = place'.connects := by
  cases move with
  | begin => rfl
  | failed rc error => rfl
  | opened => rfl
  | closed free used =>
      rcases used with rfl | rfl | rfl <;> exact h
  | leave conn used =>
      rcases used with rfl | rfl | rfl <;> exact h
  | _ => exact h

end AppState

/-- The invariant of an attempt and its scanner. -/
def Scanned (place : Place) (s : AppState) : Prop :=
  Connected place s ∧ s.Scans place ∧ s.inside = place.connects

/-- The scanner runs only inside of `connect_to_lock`, in every run with quiet starts in which it
can be stopped. -/
theorem scanned_inductive :
    appOrder.Inductive bridge (quietStarts.and scanStops) Scanned := by
  have hConnected : appOrder.Inductive bridge (quietStarts.and scanStops) Connected :=
    connected_inductive.mono (fun _ _ => And.left) (fun _ _ _ => And.left)
  apply inductive_over hConnected fun _ _ base => base.1.1
  · intro place e s s' base inv meets effect
    exact ⟨inv.1.of_effect base.2.1 meets.2 effect, effect.frame.2.1.trans inv.2⟩
  · intro op choice place place' s s' base inv meets move
    exact ⟨inv.1.of_move base.1.2.2 meets.1 meets.2 move, AppState.inside_of_move inv.2 move⟩

/-- Between operations nothing is scanned for, whatever the operation before came to. -/
theorem Scanned.idle {place : Place} {s : AppState} {response : Response}
    (h : Scanned place s) (returns : place.Returns response) : Scanned .idle s := by
  refine ⟨h.1.idle, ?_, ?_⟩
  · rcases returns with rfl | ⟨-, rfl | rfl⟩ <;> exact h.2.1
  · rcases returns with rfl | ⟨-, rfl | rfl⟩ <;> exact h.2.2

theorem scanned_boot (stored : Option PairingData) : Scanned .idle (.boot stored) :=
  ⟨connected_boot stored, rfl, rfl⟩

/-- Wherever the scanner runs, `connect_to_lock` is in progress. This is the property that was asked
for. -/
theorem Scanned.inside {place : Place} {s : AppState} (h : Scanned place s)
    (scans : s.scanner ≠ none) : s.inside = true := by
  rw [h.2.2]
  have hScans := h.2.1
  cases place with
  | idle => exact absurd hScans scans
  | failed rc => exact absurd hScans scans
  | inUse => exact absurd hScans scans
  | onGdio => exact absurd hScans scans
  | addressed addr => exact absurd hScans scans
  | saved => exact absurd hScans scans
  | leaving => exact absurd hScans scans
  | dropping => exact absurd hScans scans
  | dropped => exact absurd hScans scans
  | finished => exact absurd hScans scans
  | _ => rfl

/-- In every run in which each call of `connect_to_lock` starts quietly and the scanner
can be stopped, it runs only during such a call, and a connection is made only then;
between operations no call is in progress. -/
theorem scans_on_demand {stored : Option PairingData} {stage : AppStage}
    (reached : Reached (quietStarts.and scanStops) stored stage) :
    (stage.state.scanner ≠ none → stage.state.inside = true) ∧
      (∀ addr ad stop create s', stage.state.event (.deviceFound addr ad stop create) = some s' →
        stage.state.Takes addr ad stop → stage.state.inside = true) ∧
      ∀ s, stage = .idle s → s.inside = false := by
  have hLocated := located_of_reached scanned_inductive (scanned_boot stored)
    (fun _ _ _ returns inv => inv.idle returns) reached
  have hScanned : ∃ place, Scanned place stage.state := by
    cases stage with
    | idle s => exact ⟨.idle, hLocated⟩
    | busy req c => exact hLocated.imp fun _ => And.left
  obtain ⟨place, scanned⟩ := hScanned
  refine ⟨scanned.inside, ?_, ?_⟩
  · intro addr ad stop create s' fires _
    apply scanned.inside
    intro hNone
    simp [AppState.event, hNone] at fires
  · intro s hIdle
    subst hIdle
    exact hLocated.2.2

/-- The scan of the first call after boot, while it waits. -/
theorem scans_on_demand_connecting :
    ∃ stage : AppStage, Reached (quietStarts.and scanStops) (some default) stage ∧
      stage.state.scanner ≠ none ∧ stage.state.inside = true := by
  let req : Request := ⟨.getState, .zero⟩
  have hReached : Reached (quietStarts.and scanStops) (some default) (.busy req ⟨_, _⟩) :=
    (Server.Reaches.start.request req).runs
      (Machine.runs_of_replay connecting (by decide) rfl)
  have hScans : (Option.some 1 : Option Nat) ≠ none := nofun
  exact ⟨_, hReached, hScans, (scans_on_demand hReached).1 hScans⟩

/-- The connection of a call that timed out ends while the next call scans: that call
returns, the scanner runs on, and a connection is made although no call is in progress. -/
theorem scan_outlives_call :
    ∃ s addr, Reached scanStops (some default) (.idle s) ∧ s.inside = false ∧
      s.scanner ≠ none ∧ s.Takes addr [] 0 ∧
      ∃ s' l, s.event (.deviceFound addr [] 0 0) = some s' ∧ s'.link = some l := by
  let req : Request := ⟨.getState, .zero⟩
  have hFirst : Reached scanStops (some default) (.busy req ⟨_, .done ⟨-etimedout, none⟩⟩) :=
    (Server.Reaches.start.request req).runs
      (Machine.runs_of_replay stalled (by decide) rfl)
  have hSecond : Reached scanStops (some default) (.busy req ⟨_, .done ⟨-enotconn, none⟩⟩) :=
    (hFirst.finish.request req).runs
      (Machine.runs_of_replay
        (connecting ++ [.event .disconnected] ++ List.replicate 3 (.thread .plain))
        (by decide) rfl)
  exact ⟨_, default, hSecond.finish, rfl, nofun, by decide, _, _, rfl, rfl⟩

end NukiBridge

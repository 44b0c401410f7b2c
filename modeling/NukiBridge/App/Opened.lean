import NukiBridge.App.ScanOnDemand

/-! How often the bridge connects: a call of `connect_to_lock` starts at most one scan, and
a scan ends in at most one call of `bt_conn_le_create`, also where it outlives its call. -/
namespace NukiBridge

open Interaction

/-- One scan that this call may still start. -/
def Place.mayScan : Place → Nat
  | .preparing _ => 1
  | _ => 0

namespace AppState

/-- The calls of `bt_conn_le_create`, a scan that may still lead to one, and a scan that may
still be started: there is a call of `connect_to_lock` for each of them. -/
def Paid (s : AppState) (place : Place) : Prop :=
  s.creates + s.scanner.toList.length + place.mayScan ≤ s.calls

/-- The end of an attempt neither connects nor scans, on any of the paths that lead to it. -/
theorem finishConnectAttempt_counts (s : AppState) (owner : Nat) (err : Int) :
    (s.finishConnectAttempt owner err).creates = s.creates ∧
      (s.finishConnectAttempt owner err).scanner = s.scanner ∧
      (s.finishConnectAttempt owner err).calls = s.calls := by
  rw [finishConnectAttempt_eq]
  exact ⟨rfl, rfl, rfl⟩

/-- A callback calls `bt_conn_le_create` only at the expense of the scan, also where the call
fails. -/
theorem counts_of_effect {e : AppEvent} {s s' : AppState} (effect : Effect s e s') :
    s'.creates + s'.scanner.toList.length ≤ s.creates + s.scanner.toList.length ∧
      s'.calls = s.calls := by
  cases effect with
  | refused scans free error => simp [finishConnectAttempt_counts, scans]
  | created scans free lock => simp [scans]
  | @scanEnded stop owner scheduled =>
      simp only [scanTimeoutHandler, finishConnectAttempt_counts]
      split <;> simp
  | _ => simp [finishConnectAttempt_counts]

/-- A callback calls `bt_conn_le_create` only where it stops the scanner, so the scan pays for the
call. The result of the call does not matter. -/
theorem Paid.of_effect {place : Place} {e : AppEvent} {s s' : AppState} (h : s.Paid place)
    (effect : Effect s e s') : s'.Paid place := by
  obtain ⟨hLess, hCalls⟩ := counts_of_effect effect
  rw [Paid, hCalls]
  exact (Nat.add_le_add_right hLess _).trans h

/-- A step of the thread starts a scan only where this call of `connect_to_lock` may still start
one. -/
theorem Paid.of_move {op : AppOp} {choice : AppChoice} {place place' : Place} {s s' : AppState}
    (h : s.Paid place) (move : Move s op choice place place' s') : s'.Paid place' := by
  have hCounts : s.creates + s.scanner.toList.length + place.mayScan ≤ s.calls := h
  cases move with
  | begin => exact Nat.succ_le_succ h
  | refused error => exact (Nat.le_of_succ_le hCounts : _ + 0 ≤ _)
  | scan off =>
      rw [off] at hCounts
      exact hCounts
  | stop =>
      show s.creates + (if choice.err = 0 then none else s.scanner).toList.length + 0 ≤ s.calls
      split
      · exact (Nat.le_add_right _ _).trans hCounts
      · exact hCounts
  | closed free used => rcases used with rfl | rfl | rfl <;> exact h
  | leave conn used => rcases used with rfl | rfl | rfl <;> exact h
  | _ => exact h

end AppState

/-- The account is kept in every run, under no condition on the callbacks. -/
theorem paid_inductive {cond : Condition AppOp AppEvent AppChoice AppState} :
    appOrder.Inductive bridge cond fun place s => s.Coherent ∧ s.Paid place := by
  apply inductive_over coherent_inductive fun _ _ coherent => coherent
  · exact fun _ _ _ _ _ paid _ effect => paid.of_effect effect
  · exact fun _ _ _ _ _ _ _ paid _ move => paid.of_move move

/-- Whatever the callbacks do and in whatever order they come, `bt_conn_le_create` is never
called more often than `connect_to_lock`, whether its calls succeed or fail, and not even
counting the call that a running scan may still lead to. -/
theorem connections_le_calls {cond : Condition AppOp AppEvent AppChoice AppState}
    {stored : Option PairingData} {stage : AppStage} (reached : Reached cond stored stage) :
    stage.state.creates + stage.state.scanner.toList.length ≤ stage.state.calls := by
  have hLocated := located_of_reached paid_inductive
    ⟨AppState.coherent_boot stored, Nat.zero_le _⟩ ?_ reached
  · have hPaid : ∃ place, stage.state.Paid place := by
      cases stage with
      | idle s => exact ⟨.idle, hLocated.2⟩
      | busy req c => exact hLocated.imp fun _ inv => inv.1.2
    obtain ⟨place, paid⟩ := hPaid
    exact (Nat.le_add_right _ place.mayScan).trans paid
  · rintro response place s returns ⟨coherent, paid⟩
    exact ⟨coherent, (Nat.le_add_right _ _).trans paid⟩

/-- The first call has scanned, and its call of `bt_conn_le_create` has failed. -/
theorem connections_le_calls_refused :
    ∃ stage : AppStage, Reached .free (some default) stage ∧ stage.state.creates = 1 ∧
      stage.state.created = 0 ∧
      stage.state.creates + stage.state.scanner.toList.length ≤ stage.state.calls := by
  let req : Request := ⟨.getState, .zero⟩
  have hReached : Reached .free (some default) (.busy req ⟨_, .done ⟨-enomem, none⟩⟩) :=
    (Server.Reaches.start.request req).runs
      (Machine.runs_of_replay
        (connecting ++ [.event (.deviceFound default [] 0 (-enomem))] ++
          List.replicate 3 (.thread .plain))
        (Machine.meets_free _ _) rfl)
  exact ⟨_, hReached, rfl, rfl, connections_le_calls hReached⟩

end NukiBridge

import NukiBridge.App.ScanOnDemand

/-! What an operation leaves behind when it returns. An attempt that fails is to end
without a link or with one that was asked to end; some of the callbacks that end an
attempt do neither, and nobody looks at whether `bt_conn_disconnect` succeeded. -/
namespace NukiBridge

open Interaction Typestate

/-- Ending an attempt, this callback leaves the link as it is, or asks in vain for its end. -/
def AppEvent.LeavesLink : AppEvent → AppState → Prop
  | .scanTimeout _, s => s.gConn ≠ none
  | .usdioDiscovered chrc subscribe, _ => ¬(chrc = true ∧ subscribe = 0)
  | .usdioNotFound disconnect, _ => ¬disconnect = 0
  | .usdioDiscoveryError disconnect, _ => ¬disconnect = 0
  | e, _ => e.dmStart ≠ 0

/-- Where the next discovery could not be started, the callback ends the attempt and leaves the link
as it is. -/
theorem AppEvent.leavesLink_of_dmStart {e : AppEvent} {s : AppState} (h : e.dmStart ≠ 0) :
    e.LeavesLink s := by
  cases e with
  | scanTimeout _ => exact absurd rfl h
  | usdioDiscovered _ _ => exact absurd rfl h
  | usdioNotFound _ => exact absurd rfl h
  | usdioDiscoveryError _ => exact absurd rfl h
  | _ => exact h

/-- Where the host refused the request to end the link, it stays as well. -/
theorem AppEvent.leavesLink_of_disconnect {e : AppEvent} {s : AppState} (h : e.disconnect ≠ 0) :
    e.LeavesLink s := by
  cases e with
  | usdioNotFound _ => exact h
  | usdioDiscoveryError _ => exact h
  | _ => exact absurd rfl h

instance (e : AppEvent) (s : AppState) : Decidable (e.LeavesLink s) := by
  cases e <;> exact instDecidableNot

/-- No attempt is ended by a callback that leaves the link, and the host takes the request of
the operation thread to end one. -/
def endsReleased : Condition AppOp AppEvent AppChoice AppState where
  event := fun e s => s.connecting = true → ¬e.LeavesLink s
  call := fun op choice s => op = .disconnectConn →
    choice.err = 0 ∨ s.link.all Link.discReq = true

instance (op : AppOp) : Decidable (op = .disconnectConn) :=
  decidable_of_iff (op.ctorIdx = AppOp.disconnectConn.ctorIdx) <| by
    constructor
    · intro h
      cases op <;> first | rfl | cases h
    · exact fun h => h ▸ rfl

instance (e : AppEvent) (s : AppState) : Decidable (endsReleased.event e s) :=
  inferInstanceAs (Decidable (s.connecting = true → ¬e.LeavesLink s))

instance (op : AppOp) (choice : AppChoice) (s : AppState) :
    Decidable (endsReleased.call op choice s) :=
  inferInstanceAs (Decidable (op = .disconnectConn →
    choice.err = 0 ∨ s.link.all Link.discReq = true))

namespace AppState

/-- There is no link, or it was asked to end. -/
def Released (s : AppState) : Prop := ∀ l, s.link = some l → l.discReq = true

/-- The places at which nothing may be left. -/
def Leaves (s : AppState) : Place → Prop
  | .idle => s.Released
  | .scanning => s.connecting = false → s.connectErr ≠ 0 → s.Released
  | .waiting => s.connecting = false → s.connectErr ≠ 0 → s.Released
  | .woken => s.connectErr ≠ 0 → s.Released
  | .deciding rc => rc ≠ 0 → s.Released
  | .failed _ => s.Released
  | .dropped => s.Released
  | .finished => s.Released
  | _ => True

/-- Without a link there is nothing to release. -/
theorem released_of_link_none {s : AppState} (h : s.link = none) : s.Released := by
  intro l hLink
  exact absurd (h.symm.trans hLink) nofun

/-- No callback takes a request back, and without a scan none makes a link. -/
theorem Released.of_effect {e : AppEvent} {s s' : AppState} (h : s.Released)
    (off : s.scanner = none) (effect : Effect s e s') : s'.Released := by
  cases effect with
  | ignored => exact h
  | refused scans _ _ => exact absurd (off.symm.trans scans) nofun
  | created scans _ _ => exact absurd (off.symm.trans scans) nofun
  | scanEnded _ => simpa only [scanTimeoutHandler, finishConnectAttempt_eq, Released] using h
  | _ => simp_all [Released, finishConnectAttempt_eq]

/-- A callback that ends an attempt with an error releases the link, or is one of those
that leave it. -/
theorem released_of_ended {e : AppEvent} {s s' : AppState} (coherent : s.Coherent)
    (pending : s.connecting = true) (ends : endsReleased.event e s) (effect : Effect s e s')
    (ended : s'.connecting = false) (error : s'.connectErr ≠ 0) : s'.Released := by
  have hEnds := ends pending
  cases effect with
  | ignored => exact absurd (pending.symm.trans ended) (by decide)
  | created _ _ _ => exact absurd (pending.symm.trans ended) (by decide)
  | started _ _ _ _ => exact absurd (pending.symm.trans ended) (by decide)
  | gdioDone _ _ _ _ _ _ => exact absurd (pending.symm.trans ended) (by decide)
  | refused _ free _ =>
      apply released_of_link_none
      rw [finishConnectAttempt_eq]
      exact free
  | scanEnded _ =>
      apply released_of_link_none
      simp only [scanTimeoutHandler, finishConnectAttempt_eq]
      by_contra hLink
      obtain ⟨l, hLink⟩ := Option.ne_none_iff_exists'.mp hLink
      have hConn : s.gConn ≠ none := by
        rw [(coherent.present l hLink).conn]
        exact Option.some_ne_none _
      exact hEnds hConn
  | unconnected _ _ _ _ =>
      apply released_of_link_none
      rw [finishConnectAttempt_eq]
  | unstarted _ _ _ failed => exact absurd failed hEnds
  | dropped _ _ _ _ _ =>
      apply released_of_link_none
      rw [finishConnectAttempt_eq]
  | gdioBroken _ _ _ _ _ failed => exact absurd (AppEvent.leavesLink_of_dmStart failed) hEnds
  | usdioDone _ _ _ _ => simp [finishConnectAttempt_eq, pending] at error
  | usdioBroken _ _ _ _ _ _ broken => exact absurd broken hEnds
  | usdioFailed _ _ _ _ _ =>
      have hTaken : e.disconnect = 0 := by
        by_contra hRefused
        exact hEnds (AppEvent.leavesLink_of_disconnect hRefused)
      intro l hLink
      simp only [finishConnectAttempt_eq, Option.some.injEq] at hLink
      rw [← hLink]
      simp only [hTaken, decide_true, Bool.or_true]

/-- A callback that ends an attempt has either lost the link or asked for its end, unless it is one
of those that leave it. -/
theorem Leaves.of_effect {place : Place} {e : AppEvent} {s s' : AppState} (h : s.Leaves place)
    (scanned : Scanned place s) (ends : endsReleased.event e s) (effect : Effect s e s') :
    s'.Leaves place := by
  have stands := scanned.1.1.2.2
  have hScans := scanned.2.1
  have hWaits (waits : s.connecting = false → s.connectErr ≠ 0 → s.Released)
      (off : s.scanner ≠ none → s.connecting = true) :
      s'.connecting = false → s'.connectErr ≠ 0 → s'.Released := by
    intro hEnded hError
    by_cases hPending : s.connecting = true
    · exact released_of_ended scanned.1.1.1 hPending ends effect hEnded hError
    · have hOff : s.scanner = none := by
        by_contra hOn
        exact hPending (off hOn)
      cases effect.outcome with
      | kept _ connectErr =>
          rw [connectErr] at hError
          exact (waits (Bool.eq_false_iff.mpr hPending) hError).of_effect hOff effect
      | ended _ _ _ pending => exact absurd pending hPending
  cases place with
  | idle => exact Released.of_effect h hScans effect
  | scanning => exact hWaits h hScans
  | waiting => exact hWaits h hScans
  | woken =>
      intro hError
      cases effect.outcome with
      | kept _ connectErr =>
          rw [connectErr] at hError
          exact (h hError).of_effect hScans effect
      | ended _ _ _ pending => exact absurd (pending.symm.trans stands.1) (by decide)
  | deciding rc => exact fun hError => (h hError).of_effect hScans effect
  | failed rc => exact Released.of_effect h hScans effect
  | dropped => exact Released.of_effect h hScans effect
  | finished => exact Released.of_effect h hScans effect
  | _ => trivial

/-- Asking `g_conn` to end releases the link, if the host takes the request or has taken one
before. -/
theorem Coherent.released_btConnDisconnect {s : AppState} (h : s.Coherent) {rc : Int}
    (taken : rc = 0 ∨ s.link.all Link.discReq = true) :
    (s.btConnDisconnect s.gConn rc).Released := by
  intro k hLink
  cases hBefore : s.link with
  | none =>
      rw [btConnDisconnect_eq_none.mpr hBefore] at hLink
      cases hLink
  | some l =>
      rw [btConnDisconnect_link s.gConn rc hBefore] at hLink
      cases hLink
      rcases taken with hTaken | hRequested
      · simp only [hTaken, (h.present l hBefore).conn, and_self, decide_true, Bool.or_true]
      · rw [hBefore, Option.all_some] at hRequested
        simp only [hRequested, Bool.true_or]

/-- The thread asks for the end of the link on both of its ways out: at the timeout of an attempt,
and after the command. -/
theorem Leaves.of_move {op : AppOp} {choice : AppChoice} {place place' : Place}
    {s s' : AppState} (h : s.Leaves place) (coherent : s.Coherent) (stands : s.Stands place)
    (ends : endsReleased.call op choice s) (move : Move s op choice place place' s') :
    s'.Leaves place' := by
  have hFree (free : s.gConn = none) : s.link = none := by
    by_contra hLink
    obtain ⟨l, hLink⟩ := Option.ne_none_iff_exists'.mp hLink
    exact absurd (free.symm.trans (coherent.present l hLink).conn) nofun
  cases move with
  | lookUp => exact h
  | refused _ =>
      intro _ l hLink
      exact absurd (Or.inr (Or.inr ⟨l, hLink, rfl⟩)) (stands.1 l.owner)
  | scan _ => exact fun hEnded => absurd (hEnded.symm.trans (stands.2.2.2 rfl)) (by decide)
  | schedule => exact h
  | woken given =>
      rcases stands with ⟨-, hSem⟩ | hDecided
      · exact absurd (hSem.symm.trans given) (by decide)
      · exact h hDecided.1
  | result => exact h
  | unheld free => exact fun _ => released_of_link_none (hFree free)
  | cancel => exact fun _ => coherent.released_btConnDisconnect (ends rfl)
  | failed rc error => exact h error
  | closed free _ => exact released_of_link_none (hFree free)
  | disconnect => exact coherent.released_btConnDisconnect (ends rfl)
  | disconnected _ => exact h
  | cache _ => exact h
  | leave _ _ => trivial
  | _ => trivial

end AppState

/-- The conditions under which operations clean up. -/
def cleansUp : Condition AppOp AppEvent AppChoice AppState :=
  (quietStarts.and scanStops).and endsReleased

instance (e : AppEvent) (s : AppState) : Decidable (cleansUp.event e s) :=
  inferInstanceAs (Decidable (((quietStarts.and scanStops).and endsReleased).event e s))

instance (op : AppOp) (choice : AppChoice) (s : AppState) :
    Decidable (cleansUp.call op choice s) :=
  inferInstanceAs (Decidable (((quietStarts.and scanStops).and endsReleased).call op choice s))

/-- In every run that meets the conditions no link is left behind at the places where the operation
may return. -/
theorem released_inductive :
    appOrder.Inductive bridge cleansUp fun place s => Scanned place s ∧ s.Leaves place := by
  have hScanned : appOrder.Inductive bridge cleansUp Scanned :=
    scanned_inductive.mono (fun _ _ => And.left) (fun _ _ _ => And.left)
  apply inductive_over hScanned fun _ _ base => base.1.1.1
  · intro place e s s' base inv meets effect
    exact inv.of_effect base meets.2 effect
  · intro op choice place place' s s' base inv meets move
    exact inv.of_move base.1.1.1 base.1.1.2.2 meets.2 move

/-- In every run in which each call of `connect_to_lock` starts quietly, the scanner can be
stopped, no attempt is ended by a callback that leaves the link, and `bt_conn_disconnect`
succeeds on a link that was not yet asked to end, every operation returns without a
connection or with one that was asked to end and is not yet gone. -/
theorem operations_release {stored : Option PairingData} {req : Request} {s : AppState}
    {response : Response} (reached : Reached cleansUp stored (.busy req ⟨s, .done response⟩)) :
    s.gConn = none ∨ ∃ l, s.link = some l ∧ s.gConn = some l.id ∧ l.discReq = true := by
  have hBoot : (AppState.boot stored).Released := nofun
  have hReturns (response : Response) (place : Place) (s : AppState)
      (returns : place.Returns response) (leaves : s.Leaves place) : s.Leaves .idle := by
    rcases returns with rfl | ⟨-, rfl | rfl⟩ <;> exact leaves
  obtain ⟨place, ⟨scanned, leaves⟩, returns⟩ := located_of_reached released_inductive
    ⟨scanned_boot stored, hBoot⟩
    (fun response place s returns inv =>
      ⟨inv.1.idle returns, hReturns response place s returns inv.2⟩) reached
  have hReleased := hReturns response place s returns leaves
  have coherent := scanned.1.1.1
  cases hLink : s.link with
  | none => exact Or.inl (coherent.absent hLink).1
  | some l => exact Or.inr ⟨l, rfl, (coherent.present l hLink).conn, hReleased l hLink⟩

/-- The connection that timed out was asked to end when the operation returns. -/
theorem operations_release_stalled :
    ∃ req s l, Reached cleansUp (some default) (.busy req ⟨s, .done ⟨-etimedout, none⟩⟩) ∧
      s.link = some l ∧ s.gConn = some l.id ∧ l.discReq = true := by
  let req : Request := ⟨.getState, .zero⟩
  have hReached : Reached cleansUp (some default) (.busy req ⟨_, .done ⟨-etimedout, none⟩⟩) :=
    (Server.Reaches.start.request req).runs
      (Machine.runs_of_replay stalled (by decide) rfl)
  rcases operations_release hReached with hNone | ⟨l, hLink, hConn, hRequested⟩
  · cases hNone
  · exact ⟨req, _, l, hReached, hLink, hConn, hRequested⟩

/-- The service has no USDIO characteristic: the operation returns with the link up, and
nobody asked it to end. -/
theorem operation_leaves_link :
    ∃ req s l, Reached (quietStarts.and scanStops) (some default)
        (.busy req ⟨s, .done ⟨-enotsup, none⟩⟩) ∧
      s.gConn = some l.id ∧ s.link = some l ∧ l.established = true ∧ l.discReq = false := by
  let req : Request := ⟨.getState, .zero⟩
  have hReached : Reached (quietStarts.and scanStops) (some default)
      (.busy req ⟨_, .done ⟨-enotsup, none⟩⟩) :=
    (Server.Reaches.start.request req).runs
      (Machine.runs_of_replay
        (connecting ++ [.event (.deviceFound default [] 0 0), .event (.connected 0 0),
          .event (.usdioDiscovered false 0)] ++ List.replicate 3 (.thread .plain))
        (by decide) rfl)
  exact ⟨req, _, _, hReached, rfl, rfl, rfl, rfl⟩

end NukiBridge

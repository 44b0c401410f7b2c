import NukiBridge.App.Attempt
import NukiBridge.Interaction.Observer
import NukiBridge.References.Account

/-! The references of the application on the connection objects, counted at the calls that
take and give them back. Each one is kept in `g_conn` or in a transport that is ready. -/
namespace NukiBridge

open Interaction References

/-- The reference of a transport. -/
def Side.holder (side : Side) : Option Nat := if side.ready = true then side.conn else none

/-- `bt_conn_ref` and `bt_conn_unref` in `nuki_transport_init`. -/
def transportInitRefs (l : Link) (subscribe : Int) : List (RefCall Nat) :=
  .ref l.id :: if subscribe ≠ 0 then [.unref (some l.id)] else []

/-- `bt_conn_unref` in `nuki_transport_release`, for a transport that is ready. -/
def releaseReadyRefs (side : Side) : List (RefCall Nat) :=
  if side.ready = true ∧ side.conn ≠ none then [.unref side.conn] else []

/-- `disconnected`, and `connected` with an error. -/
def AppEvent.Ends : AppEvent → Prop
  | .disconnected => True
  | .connected err _ => err ≠ 0
  | _ => False

namespace AppState

/-- The references in `gdio_discovered` and in `usdio_discovered`. -/
def discoveredRefs (chrc : Bool) (subscribe : Int) (l : Link) : List (RefCall Nat) :=
  if chrc = false then [] else transportInitRefs l subscribe

def disconnectedRefs (s : AppState) (l : Link) : List (RefCall Nat) :=
  if s.gConn ≠ some l.id then []
  else releaseReadyRefs s.gdio ++ releaseReadyRefs s.usdio ++ [.unref s.gConn]

/-- The calls of a callback that take a reference or give one back, in its order. -/
def refCalls (s : AppState) : AppEvent → List (RefCall Nat)
  | .deviceFound addr ad stop create =>
      -- `bt_conn_le_create` stores a reference only if it succeeds
      if s.Takes addr ad stop ∧ create = 0 then [.ref s.created] else []
  | .connected err _ => if err ≠ 0 then [.unref s.gConn] else []
  | .disconnected => s.link.elim [] s.disconnectedRefs
  | .gdioDiscovered chrc subscribe _ => s.link.elim [] (discoveredRefs chrc subscribe)
  | .usdioDiscovered chrc subscribe => s.link.elim [] (discoveredRefs chrc subscribe)
  | _ => []

/-- The pointers that keep the references. -/
def holders (s : AppState) : List (Option Nat) := [s.gdio.holder, s.usdio.holder, s.gConn]

/-- The end of an attempt wakes the thread and keeps every pointer. -/
@[simp] theorem holders_finish (owner : Nat) (err : Int) (s : AppState) :
    (s.finishConnectAttempt owner err).holders = s.holders := by
  rw [finishConnectAttempt_eq]
  rfl

/-- Starting a discovery keeps every pointer, whether it succeeds or not. -/
@[simp] theorem holders_startService (svc : Service) (l : Link) (dmStart : Int) (s : AppState) :
    (s.startService svc l dmStart).holders = s.holders := by
  unfold startService
  split
  · exact holders_finish _ _ _
  · rfl

@[simp] theorem holders_startDiscovery (l : Link) (dmStart : Int) (s : AppState) :
    (s.startDiscovery l dmStart).holders = s.holders := by
  unfold startDiscovery discoverKeyturnerService
  split <;> exact holders_startService _ _ _ _

/-- A transport that is set up takes a reference and keeps it, or gives it back. -/
theorem perform_transportInit (l : Link) (subscribe : Int) (rest : List (Option Nat)) :
    perform (transportInitRefs l subscribe) (counted rest) =
      some (counted ((if subscribe = 0 then some l.id else none) :: rest)) := by
  unfold transportInitRefs
  rw [perform_cons, perform_ref]
  by_cases h : subscribe = 0
  · rw [if_neg (not_not.mpr h), if_pos h]
    rfl
  · rw [if_pos h, if_neg h, counted_none]
    exact (perform_single _ _).trans (perform_unref l.id rest)

/-- A transport that is ready gives back what it keeps. -/
theorem perform_releaseReady {side : Side} (conn : side.ready = true → side.conn ≠ none)
    (rest : List (Option Nat)) :
    perform (releaseReadyRefs side) (counted (side.holder :: rest)) = some (counted rest) := by
  obtain ⟨ptr, ready⟩ := side
  cases ready with
  | false => exact congrArg some (counted_none rest)
  | true =>
      cases ptr with
      | none => exact absurd rfl (conn rfl)
      | some id => exact (perform_single _ _).trans (perform_unref id rest)

/-- `disconnected` gives back what the pointers keep, each once, in the order of the source. -/
theorem Bound.perform_disconnected {s : AppState} {l : Link} (h : s.Bound l) :
    perform (s.disconnectedRefs l) (counted s.holders) = some fun _ => 0 := by
  have hGdio : s.gdio.ready = true → s.gdio.conn ≠ none := by
    intro hReady
    rw [(h.gdio hReady).1]
    exact Option.some_ne_none l.id
  have hUsdio : s.usdio.ready = true → s.usdio.conn ≠ none := by
    intro hReady
    rw [h.usdio hReady]
    exact Option.some_ne_none l.id
  have hConn : perform [.unref s.gConn] (counted [s.gConn]) = some (counted []) := by
    rw [perform_single, h.conn]
    exact perform_unref l.id []
  rw [disconnectedRefs, if_neg (not_not.mpr h.conn), List.append_assoc, holders,
    perform_append (perform_releaseReady hGdio _), perform_append (perform_releaseReady hUsdio _)]
  exact hConn

/-- A transport that is not ready holds no reference: its pointer may be stale. -/
theorem holder_unready {side : Side} (unready : side.ready = false) : side.holder = none := by
  rw [Side.holder, unready]
  rfl

/-- The reference that setting up a transport leaves behind. -/
def setUp (chrc : Bool) (subscribe : Int) (l : Link) : Option Nat :=
  if chrc = true ∧ subscribe = 0 then some l.id else none

/-- Setting up a transport takes one reference, and a subscription that fails gives it back at
once. -/
theorem perform_discoveredRefs (chrc : Bool) (subscribe : Int) (l : Link)
    (rest : List (Option Nat)) :
    perform (discoveredRefs chrc subscribe l) (counted rest) =
      some (counted (setUp chrc subscribe l :: rest)) := by
  cases chrc with
  | false => exact congrArg some (counted_none rest).symm
  | true =>
      unfold setUp
      simp only [true_and]
      exact perform_transportInit l subscribe rest

/-- After the callback for GDIO its pointer is the reference that setting up left behind, and the
other two are as before. -/
theorem holders_gdioDiscovered {chrc : Bool} {subscribe dmStart : Int} {l : Link} {s : AppState}
    (unready : s.gdio.ready = false) :
    (s.gdioDiscovered chrc subscribe dmStart l).holders =
      [setUp chrc subscribe l, s.usdio.holder, s.gConn] := by
  rw [gdioDiscovered, discoverKeyturnerService, holders_startService]
  cases chrc with
  | false =>
      show [s.gdio.holder, _, _] = [none, _, _]
      rw [holder_unready unready]
      rfl
  | true =>
      by_cases h : subscribe = 0
      · simp [transportInit, withSide, holders, Side.holder, setUp, h]
      · simp [transportInit, withSide, side, btConnUnref, holders, Side.holder, setUp, h, unready]

/-- The same for USDIO. -/
theorem holders_usdioDiscovered {chrc : Bool} {subscribe : Int} {l : Link} {s : AppState}
    (unready : s.usdio.ready = false) :
    (s.usdioDiscovered chrc subscribe l).holders =
      [s.gdio.holder, setUp chrc subscribe l, s.gConn] := by
  cases chrc with
  | false =>
      rw [usdioDiscovered, if_pos rfl, holders_finish]
      show [_, s.usdio.holder, _] = [_, none, _]
      rw [holder_unready unready]
  | true =>
      by_cases h : subscribe = 0
      · simp [usdioDiscovered, transportInit, withSide, holders, Side.holder, setUp, h,
          finishConnectAttempt_eq]
      · simp [usdioDiscovered, transportInit, withSide, side, btConnUnref, holders, Side.holder,
          setUp, h, unready, finishConnectAttempt_eq]

/-- In a state without a connection no pointer keeps a reference, so nothing can leak into the next
attempt. -/
theorem Coherent.counted_absent {s : AppState} (h : s.Coherent) (free : s.link = none) :
    counted s.holders = fun _ => 0 := by
  obtain ⟨hConn, -, hGdio, hUsdio⟩ := h.absent free
  rw [holders, holder_unready hGdio, holder_unready hUsdio, hConn]
  simp

/-- A connection that is not established yet is kept by `g_conn` alone. -/
theorem Bound.counted_pending {s : AppState} {l : Link} (h : s.Bound l)
    (pending : l.established = false) : counted s.holders = counted [some l.id] := by
  obtain ⟨-, hGdio, hUsdio⟩ := h.pending pending
  rw [holders, holder_unready hGdio, holder_unready hUsdio, h.conn]
  simp

/-- After `disconnected`, or `connected` with an error, there is no link any more. -/
theorem link_of_ends {e : AppEvent} {s s' : AppState} (ends : e.Ends)
    (fires : s.event e = some s') : s'.link = none := by
  cases e with
  | connected err dmStart =>
      rw [AppState.event] at fires
      obtain ⟨l, -, -, rfl⟩ := reports_eq_some fires
      have hErr : err ≠ 0 := ends
      rw [AppState.connected, if_pos hErr, finishConnectAttempt_eq]
  | disconnected =>
      rw [AppState.event] at fires
      obtain ⟨l, -, -, rfl⟩ := reports_eq_some fires
      rw [AppState.disconnected]
      split
      · rfl
      · simp only [finishConnectAttempt_eq]
  | _ => exact ends.elim

/-- The calls of a callback lead from what the pointers keep before it to what they keep
after it, and give nothing back that is not held. -/
theorem Coherent.perform_refCalls {e : AppEvent} {s s' : AppState} (h : s.Coherent)
    (fires : s.event e = some s') :
    perform (s.refCalls e) (counted s.holders) = some (counted s'.holders) := by
  have hAfter := h.of_effect (h.effect fires)
  cases e with
  | deviceFound addr ad stop create =>
      obtain ⟨owner, -, hFound⟩ := Option.bind_eq_some_iff.mp fires
      unfold AppState.deviceFound at hFound
      by_cases hTakes : s.Takes addr ad stop
      · rw [if_pos hTakes] at hFound
        unfold leCreate at hFound
        by_cases hCreate : create = 0
        · rw [if_neg (not_not.mpr hCreate)] at hFound
          split at hFound
          · rename_i hFree
            cases hFound
            rw [refCalls, if_pos ⟨hTakes, hCreate⟩, h.counted_absent hFree, perform_single]
            refine (perform_ref s.created []).trans (congrArg some ?_)
            exact (Bound.counted_pending (hAfter.present _ rfl) rfl).symm
          · cases hFound
        · rw [if_pos hCreate] at hFound
          cases hFound
          rw [refCalls, if_neg fun hBoth => hCreate hBoth.2, holders_finish]
          rfl
      · rw [if_neg hTakes] at hFound
        cases hFound
        rw [refCalls, if_neg fun hBoth => hTakes hBoth.1]
        rfl
  | scanTimeout stop =>
      obtain ⟨owner, -, rfl⟩ := Option.map_eq_some_iff.mp fires
      rw [scanTimeoutHandler, holders_finish]
      rfl
  | connected err dmStart =>
      have hFree (hErr : err ≠ 0) : s'.link = none :=
        link_of_ends (e := .connected err dmStart) hErr fires
      rw [AppState.event] at fires
      obtain ⟨l, hLink, hPending, rfl⟩ := reports_eq_some fires
      have bound := h.present l hLink
      by_cases hErr : err ≠ 0
      · rw [refCalls, if_pos hErr, hAfter.counted_absent (hFree hErr),
          bound.counted_pending hPending, perform_single, bound.conn]
        exact perform_unref l.id []
      · have hConn : ¬s.gConn ≠ some l.id := not_not.mpr bound.conn
        rw [refCalls, if_neg hErr, AppState.connected, if_neg hErr, if_neg hConn,
          holders_startDiscovery]
        rfl
  | disconnected =>
      have hFree := link_of_ends (e := .disconnected) trivial fires
      rw [AppState.event] at fires
      obtain ⟨l, hLink, -, rfl⟩ := reports_eq_some fires
      rw [refCalls, hLink, hAfter.counted_absent hFree]
      exact (h.present l hLink).perform_disconnected
  | gdioDiscovered chrc subscribe dmStart =>
      rw [AppState.event] at fires
      obtain ⟨l, hLink, -, hDiscovery, rfl⟩ := completes_eq_some fires
      have hUnready := ((h.present l hLink).discovery _ hDiscovery).2 rfl
      have hHolders := @holders_gdioDiscovered chrc subscribe dmStart { l with discovery := none }
        { s with link := some { l with discovery := none } } hUnready
      rw [hHolders, refCalls, hLink, holders, holder_unready hUnready,
        counted_none]
      exact perform_discoveredRefs chrc subscribe l _
  | usdioDiscovered chrc subscribe =>
      rw [AppState.event] at fires
      obtain ⟨l, hLink, -, hDiscovery, rfl⟩ := completes_eq_some fires
      have hUnready := ((h.present l hLink).discovery _ hDiscovery).1
      have hHolders := @holders_usdioDiscovered chrc subscribe { l with discovery := none }
        { s with link := some { l with discovery := none } } hUnready
      rw [hHolders, refCalls, hLink, holders, holder_unready hUnready, counted_swap, counted_none]
      exact (perform_discoveredRefs chrc subscribe l _).trans
        (congrArg some (counted_swap _ _ [s.gConn]))
  | gdioNotFound dmStart =>
      rw [AppState.event] at fires
      obtain ⟨l, -, -, -, rfl⟩ := completes_eq_some fires
      rw [discoverKeyturnerService, holders_startService]
      rfl
  | gdioDiscoveryError dmStart =>
      rw [AppState.event] at fires
      obtain ⟨l, -, -, -, rfl⟩ := completes_eq_some fires
      rw [discoverKeyturnerService, holders_startService]
      rfl
  | usdioNotFound =>
      rw [AppState.event] at fires
      obtain ⟨l, -, -, -, rfl⟩ := completes_eq_some fires
      rw [AppState.usdioFailed, holders_finish]
      rfl
  | usdioDiscoveryError =>
      rw [AppState.event] at fires
      obtain ⟨l, -, -, -, rfl⟩ := completes_eq_some fires
      rw [AppState.usdioFailed, holders_finish]
      rfl

/-- The operation thread takes no reference and gives none back. -/
theorem holders_of_call {op : AppOp} {choice : AppChoice} {s s' : AppState} {result : op.Answer}
    (calls : s.call op choice = some (.answer result s')) : s'.holders = s.holders := by
  cases called_of_call calls with
  | saved data => rfl
  | requested => rfl
  | other conn gdio usdio _ _ _ _ _ => rw [holders, conn, gdio, usdio, holders]

/-- The counts are what the globals say: one reference on `g_conn` for itself and one for
each transport that is ready, which is set up over the same connection. -/
structure Balanced (s : AppState) (counts : Nat → Nat) : Prop where
  counts : ∀ conn, counts conn =
    if s.gConn = some conn then 1 + s.gdio.ready.toNat + s.usdio.ready.toNat else 0
  gdio : s.gdio.ready = true → s.gConn ≠ none ∧ s.gdio.conn = s.gConn
  usdio : s.usdio.ready = true → s.gConn ≠ none ∧ s.usdio.conn = s.gConn

/-- With a link, all three pointers that hold a reference point to it. -/
theorem Bound.balanced {s : AppState} {l : Link} (h : s.Bound l) :
    s.Balanced (counted s.holders) where
  counts := by
    have hHolder {side : Side} (conn : side.ready = true → side.conn = some l.id) :
        side.holder = if side.ready = true then some l.id else none := by
      rw [Side.holder]
      split
      · rename_i hReady
        exact conn hReady
      · rfl
    intro conn
    rw [holders, hHolder fun hReady => (h.gdio hReady).1, hHolder h.usdio, h.conn]
    by_cases hConn : l.id = conn
    · subst hConn
      cases s.gdio.ready <;> cases s.usdio.ready <;> simp [counted]
    · cases s.gdio.ready <;> cases s.usdio.ready <;> simp [counted, hConn]
  gdio := by
    intro hReady
    rw [h.conn]
    exact ⟨Option.some_ne_none l.id, (h.gdio hReady).1⟩
  usdio := by
    intro hReady
    rw [h.conn]
    exact ⟨Option.some_ne_none l.id, h.usdio hReady⟩

/-- In both cases, with a link and without one, the counts are what the pointers say. -/
theorem Coherent.balanced {s : AppState} (h : s.Coherent) : s.Balanced (counted s.holders) := by
  cases hLink : s.link with
  | none =>
      obtain ⟨hConn, -, hGdio, hUsdio⟩ := h.absent hLink
      rw [h.counted_absent hLink]
      constructor
      · intro conn
        rw [hConn, if_neg nofun]
      · exact fun hReady => absurd (hGdio.symm.trans hReady) Bool.false_ne_true
      · exact fun hReady => absurd (hUsdio.symm.trans hReady) Bool.false_ne_true
  | some l => exact (h.present l hLink).balanced

end AppState

/-- Counts the references on each connection, until one is given back that is not held. -/
def refCounter : Observer AppOp AppEvent AppChoice AppState (Option (Nat → Nat)) where
  event := fun e s counts => counts.bind (perform (s.refCalls e))
  call := fun _ _ _ counts => counts

/-- The counter never meets a reference that is not held, and always agrees with the pointers: one
call of the counter for each step. -/
theorem counted_inductive :
    appOrder.Inductive (bridge.observed refCounter) Condition.free.observed
      fun _ s => s.1.Coherent ∧ s.2 = some (counted s.1.holders) := by
  apply coherent_inductive.observed.and
  · intro _ e s s' coherent _ hCounts _ fires
    obtain ⟨hFires, hNote⟩ := Machine.observed_event.mp fires
    rw [← hNote, hCounts]
    exact coherent.perform_refCalls hFires
  · intro _ op choice s s' _ _ _ _ _ calls
    exact absurd (Machine.observed_stay.mp calls).1 (AppState.call_ne_stay op choice s.1 s'.1)
  · intro _ op choice s result s' _ _ hCounts _ _ calls
    obtain ⟨hCalls, hNote⟩ := Machine.observed_answer.mp calls
    rw [← hNote, AppState.holders_of_call hCalls]
    exact hCounts

/-- In every run the application holds exactly the references that its globals say, and
none once the connection is reported as gone or as not established; no reference is given
back that is not held. -/
theorem references_balanced {stored : Option PairingData}
    {stage : Stage AppOp AppOp.Answer (AppState × Option (Nat → Nat)) Request Response}
    (reached : (bridgeServer.observed refCounter).Reaches Condition.free.observed
      (.boot stored, some fun _ => 0) stage) :
    (∃ counts, stage.state.2 = some counts ∧ stage.state.1.Balanced counts) ∧
      ∀ e next, e.Ends → (bridge.observed refCounter).event e stage.state = some next →
        next.1.gConn = none ∧ next.2 = some fun _ => 0 := by
  have hLocated := Typestate.located_of_reaches counted_inductive follows_body
    (fun _ _ _ _ _ inv => inv)
    ⟨AppState.coherent_boot stored, congrArg some
      ((AppState.coherent_boot stored).counted_absent rfl).symm⟩ reached
  obtain ⟨place, hInv⟩ := hLocated.holds
  refine ⟨⟨_, hInv.2, hInv.1.balanced⟩, ?_⟩
  intro e next ends fires
  obtain ⟨coherent, hCounts⟩ := counted_inductive.event .idle e _ next hInv trivial fires
  have hFree := AppState.link_of_ends ends (Machine.observed_event.mp fires).1
  exact ⟨(coherent.absent hFree).1, hCounts.trans (congrArg some (coherent.counted_absent hFree))⟩

/-- The first operation is a pairing: with both services discovered, there are three
references on the connection. -/
theorem references_balanced_discovered :
    ∃ stage counts, (bridgeServer.observed refCounter).Reaches Condition.free.observed
        (.boot none, some fun _ => 0) stage ∧
      stage.state.2 = some counts ∧ stage.state.1.gConn = some 0 ∧ counts 0 = 3 := by
  let req : Request := ⟨.pair, .zero⟩
  obtain ⟨s, hRuns, hConn, hGdio, hUsdio⟩ : ∃ c, bridge.Runs .free ⟨.boot none, req.body⟩ c ∧
      c.state.gConn = some 0 ∧ c.state.gdio.ready = true ∧ c.state.usdio.ready = true :=
    ⟨_, Machine.runs_of_replay
      (List.replicate 7 (.thread .plain) ++
        [.event (.findsLock default),
          .event (.connected 0 0), .event (.gdioDiscovered true 0 0),
          .event (.usdioDiscovered true 0)])
      (Machine.meets_free _ _) rfl, rfl, rfl, rfl⟩
  have hReached : Reached .free none (.busy req s) :=
    (Server.Reaches.start.request req).runs hRuns
  obtain ⟨stage, hStage, hObserved⟩ := Server.Reaches.observed hReached
  obtain ⟨⟨counts, hCounts, balanced⟩, -⟩ := references_balanced hObserved
  have hState : stage.state.1 = s.state := by
    rw [← Stage.unobserved_state, hStage]
    rfl
  rw [hState] at balanced
  refine ⟨stage, counts, hObserved, hCounts, hState ▸ hConn, ?_⟩
  rw [balanced.counts, if_pos hConn, hGdio, hUsdio]
  rfl

end NukiBridge

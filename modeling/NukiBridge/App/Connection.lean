import NukiBridge.App.Attempt

/-! Which connections the operation thread passes to the host, and what it makes of a link
that drops. Nothing tells the thread that a link is lost: until it is, what it passes is the
connection of this attempt, and afterwards it is a null pointer or one that was given back.
Only up to the success of the discovery does the loss of the link end the attempt. -/
namespace NukiBridge

open Interaction Typestate

namespace AppState

/-- The connection is the one that the host knows, and the application holds a reference. -/
def Holds (s : AppState) (conn : Option Nat) : Prop :=
  ∃ l, s.link = some l ∧ conn = some l.id ∧ 1 ≤ s.refs

end AppState

/-- The connection that a step passes to the host: `t->conn` in `nuki_transport_write`,
and `g_conn` where the link is dropped or its peer is asked for. -/
def AppOp.passes : AppOp → AppState → Option (Option Nat)
  | .transport svc (.btGattWrite _), s => some (s.side svc).conn
  | .disconnectConn, s => some s.gConn
  | .connGetDst, s => some s.gConn
  | _, _ => none

namespace AppState

/-- How a step treats the link: it may be made while the scanner runs, and once it is
lost it stays so. -/
structure Drift (s s' : AppState) : Prop where
  scanner : s.scanner = none → s'.scanner = none
  made : s'.link ≠ none → s.link ≠ none ∨ s.scanner ≠ none ∧ s'.scanner = none
  kept : s.link ≠ none → s'.lost = true ∨ s'.link ≠ none
  lost : s.lost = true → s'.lost = true
  loss : s'.lost = true → s.lost = true ∨ s.link ≠ none ∧ s'.link = none
  gdio : s.gdio.ready = true → s'.lost = true ∨ s'.gdio.ready = true
  usdio : s.usdio.ready = true → s'.lost = true ∨ s'.usdio.ready = true
  success : ∀ owner, s'.verdict = some (owner, 0) →
    s.verdict = some (owner, 0) ∨ s'.lost = true ∨ s'.usdio.ready = true

theorem Drift.refl (s : AppState) : Drift s s :=
  ⟨id, Or.inl, Or.inr, id, Or.inl, Or.inr, Or.inr, fun _ => Or.inl⟩

/-- An attempt that ends in another way than with success. -/
theorem Drift.finish {s s' : AppState} (h : Drift s s') {owner : Nat} {err : Int}
    (failure : err = 0 → s'.lost = true ∨ s'.usdio.ready = true) :
    Drift s (s'.finishConnectAttempt owner err) := by
  unfold finishConnectAttempt
  split
  · exact h
  · refine { h with success := ?_ }
    intro owner' hVerdict
    simp only [Option.some.injEq, Prod.mk.injEq] at hVerdict
    exact Or.inr (failure hVerdict.2)

end AppState

/-- What every callback does to the link, read off its effect: one case for each. Only here are the
callbacks looked at one by one. -/
theorem Effect.drift {e : AppEvent} {s s' : AppState} (coherent : s.Coherent)
    (effect : Effect s e s') : AppState.Drift s s' := by
  cases effect with
  | ignored => exact .refl s
  | refused scans free error =>
      apply AppState.Drift.finish
      · constructor <;> simp_all
      · exact fun hErr => absurd hErr error
  | created scans free lock => constructor <;> simp_all
  | scanEnded scheduled =>
      apply AppState.Drift.finish
      · constructor <;> simp_all
      · exact fun hErr => absurd hErr (by decide)
  | unconnected l link pending error =>
      apply AppState.Drift.finish
      · constructor <;> simp_all
      · exact fun _ => Or.inl rfl
  | started l svc link pending => constructor <;> simp_all
  | unstarted l link pending error =>
      apply AppState.Drift.finish
      · constructor <;> simp_all
      · exact fun hErr => absurd hErr error
  | dropped l gdioConn usdioConn link established =>
      apply AppState.Drift.finish
      · constructor <;> simp_all
      · exact fun _ => Or.inl rfl
  | gdioDone l link established discovery set starts =>
      have hReady := ((coherent.present l link).discovery _ discovery).2 rfl
      cases set <;> constructor <;> simp_all
  | gdioBroken l link established discovery set error =>
      have hReady := ((coherent.present l link).discovery _ discovery).2 rfl
      apply AppState.Drift.finish
      · cases set <;> constructor <;> simp_all
      · exact fun hErr => absurd hErr error
  | usdioDone l link established discovery =>
      apply AppState.Drift.finish
      · constructor <;> simp_all
      · exact fun _ => Or.inr rfl
  | usdioBroken l conn link established discovery error broken =>
      have hReady := ((coherent.present l link).discovery _ discovery).1
      apply AppState.Drift.finish
      · constructor <;> simp_all
      · exact fun hErr => absurd hErr error
  | usdioFailed l link established discovery error =>
      apply AppState.Drift.finish
      · constructor <;> simp_all
      · exact fun hErr => absurd hErr error

namespace AppState

/-- The link of an attempt: it stops the scanner, its loss leaves nothing, and an attempt
succeeds only with USDIO set up over it. -/
structure Wired (s : AppState) : Prop where
  single : s.link ≠ none → s.scanner = none
  loss : s.lost = true → s.link = none ∧ s.scanner = none
  success : ∀ owner, s.verdict = some (owner, 0) → s.lost = true ∨ s.usdio.ready = true

/-- What the thread knows of the link at some of its places. -/
def Tied (s : AppState) : Place → Prop
  | .preparing _ => s.lost = false
  | .found => s.lost = true ∨ s.link ≠ none
  | .onGdio => s.lost = true ∨ s.gdio.ready = true
  | _ => True

/-- A callback keeps the three facts about the link of an attempt. -/
theorem Wired.of_drift {s s' : AppState} (h : s.Wired) (drift : Drift s s') : s'.Wired where
  single := by
    intro hLink
    rcases drift.made hLink with hBefore | ⟨-, hScanner⟩
    · exact drift.scanner (h.single hBefore)
    · exact hScanner
  loss := by
    intro hLost
    rcases drift.loss hLost with hBefore | ⟨hLink, hNone⟩
    · obtain ⟨hLink, hScanner⟩ := h.loss hBefore
      constructor
      · by_contra hMade
        rcases drift.made hMade with hSome | ⟨hSome, -⟩
        · exact hSome hLink
        · exact hSome hScanner
      · exact drift.scanner hScanner
    · exact ⟨hNone, drift.scanner (h.single hLink)⟩
  success := by
    intro owner hVerdict
    rcases drift.success owner hVerdict with hBefore | hAfter
    · rcases h.success owner hBefore with hLost | hReady
      · exact Or.inl (drift.lost hLost)
      · exact drift.usdio hReady
    · exact hAfter

/-- What the thread knows of the link survives the callbacks that come between its steps, because it
allows for the loss. -/
theorem Tied.of_drift {s s' : AppState} {place : Place} (h : s.Tied place)
    (stands : s.Stands place) (drift : Drift s s') : s'.Tied place := by
  cases place with
  | preparing done =>
      by_contra hLost
      rcases drift.loss (Bool.not_eq_false _ ▸ hLost) with hBefore | ⟨hLink, -⟩
      · exact absurd (h.symm.trans hBefore) (by decide)
      · obtain ⟨l, hLink⟩ := Option.ne_none_iff_exists'.mp hLink
        exact stands.1 l.owner (Or.inr (Or.inr ⟨l, hLink, rfl⟩))
  | found =>
      rcases h with hLost | hLink
      · exact Or.inl (drift.lost hLost)
      · exact drift.kept hLink
  | onGdio =>
      rcases h with hLost | hReady
      · exact Or.inl (drift.lost hLost)
      · exact drift.gdio hReady
  | _ => trivial

/-- Asking for a link to end does not end it. It is gone when `disconnected` runs. -/
theorem btConnDisconnect_eq_none {s : AppState} {conn : Option Nat} {rc : Int} :
    (s.btConnDisconnect conn rc).link = none ↔ s.link = none := by
  rw [btConnDisconnect, Option.map_eq_none_iff]

/-- A step of the thread keeps them too. It starts the scanner only where no link is left, which
quiet starts guarantee. -/
theorem Wired.of_move {op : AppOp} {choice : AppChoice} {place place' : Place} {s s' : AppState}
    (h : s.Wired) (stands : s.Stands place) (tied : s.Tied place)
    (quiet : op = .connectBegin → s.Quiet) (move : Move s op choice place place' s') :
    s'.Wired := by
  cases move with
  | begin => exact ⟨fun _ => (quiet rfl).2.1, nofun, nofun⟩
  | scan off =>
      refine ⟨?_, ?_, h.success⟩
      · intro hLink
        obtain ⟨l, hLink⟩ := Option.ne_none_iff_exists'.mp hLink
        exact absurd (Or.inr (Or.inr ⟨l, hLink, rfl⟩)) (stands.1 l.owner)
      · intro hLost
        exact absurd (hLost.symm.trans tied) (by decide)
  | stop =>
      refine ⟨?_, ?_, h.success⟩
      · intro hLink
        simp only [h.single hLink, ite_self]
      · intro hLost
        simp only [h.loss hLost, ite_self, and_self]
  | cancel =>
      refine ⟨?_, ?_, h.success⟩
      · exact fun hLink => h.single fun hNone => hLink (btConnDisconnect_eq_none.mpr hNone)
      · exact fun hLost => (h.loss hLost).imp_left btConnDisconnect_eq_none.mpr
  | disconnect =>
      refine ⟨?_, ?_, h.success⟩
      · exact fun hLink => h.single fun hNone => hLink (btConnDisconnect_eq_none.mpr hNone)
      · exact fun hLost => (h.loss hLost).imp_left btConnDisconnect_eq_none.mpr
  | _ => exact ⟨h.single, h.loss, h.success⟩

/-- What the thread knows where a step has led it: the wait for `g_ready_sem` tells it of a link,
and the check of `ready` of a transport. -/
theorem Tied.of_move {op : AppOp} {choice : AppChoice} {place place' : Place} {s s' : AppState}
    (h : s.Tied place) (coherent : s.Coherent) (move : Move s op choice place place' s') :
    s'.Tied place' := by
  cases move with
  | begin => rfl
  | resetSem => exact h
  | resetErr => exact h
  | setNeed need => exact h
  | start => exact h
  | held conn =>
      apply Or.inr
      intro hLink
      exact conn (coherent.absent hLink).1
  | ready ready => exact Or.inr ready
  | handshake c peers exchanged => exact h
  | closed free used => trivial
  | leave conn used => trivial
  | _ => trivial

end AppState

/-- The invariant of an attempt and its link. -/
def Connected (place : Place) (s : AppState) : Prop :=
  (s.Coherent ∧ s.Ours ∧ s.Stands place) ∧ s.Wired ∧ s.Tied place

/-- Both parts are kept in every run with quiet starts, on top of the invariant of the attempt. -/
theorem connected_inductive : appOrder.Inductive bridge quietStarts Connected := by
  apply inductive_over attempt_inductive fun _ _ base => base.1
  · intro place e s s' base inv meets effect
    have hDrift := effect.drift base.1
    exact ⟨inv.1.of_drift hDrift, inv.2.of_drift base.2.2 hDrift⟩
  · intro op choice place place' s s' base inv meets move
    exact ⟨inv.1.of_move base.2.2 inv.2 meets move, inv.2.of_move base.1 move⟩

/-- At boot there is neither a link nor anything that could bring one. -/
theorem connected_boot (stored : Option PairingData) : Connected .idle (.boot stored) := by
  refine ⟨⟨AppState.coherent_boot stored, ⟨?_, nofun⟩, trivial⟩, ⟨nofun, nofun, nofun⟩, trivial⟩
  intro owner hBelongs
  rcases hBelongs with hNone | hNone | ⟨l, hNone, -⟩ <;> cases hNone

/-- Between two operations the thread knows nothing of the link, and the rest of the invariant
stays. -/
theorem Connected.idle {place : Place} {s : AppState} (h : Connected place s) :
    Connected .idle s :=
  ⟨⟨h.1.1, h.1.2.1, trivial⟩, h.2.1, trivial⟩

namespace AppState

/-- The connection that the thread passes is valid exactly until the link is lost, because only the
loss takes away the reference. -/
theorem holds_iff {s : AppState} {conn : Option Nat} (wired : s.Wired)
    (h : s.lost = true ∨ ∃ l, s.link = some l ∧ conn = some l.id ∧ 1 ≤ s.refs) :
    s.Holds conn ↔ s.lost = false := by
  constructor
  · intro hHolds
    obtain ⟨l, hLink, -⟩ := hHolds
    by_contra hLost
    exact absurd ((wired.loss (Bool.not_eq_false _ ▸ hLost)).1.symm.trans hLink) nofun
  · intro hLost
    rcases h with hLost' | hHolds
    · exact absurd (hLost.symm.trans hLost') (by decide)
    · exact hHolds

theorem Bound.one_le_refs {s : AppState} {l : Link} (h : s.Bound l) : 1 ≤ s.refs := by
  rw [h.refs]
  omega

/-- While there is a link, `g_conn` is that link and holds a reference on it. -/
theorem Coherent.holds_gConn {s : AppState} (h : s.Coherent)
    (link : s.lost = true ∨ s.link ≠ none) :
    s.lost = true ∨ ∃ l, s.link = some l ∧ s.gConn = some l.id ∧ 1 ≤ s.refs := by
  rcases link with hLost | hLink
  · exact Or.inl hLost
  · obtain ⟨l, hLink⟩ := Option.ne_none_iff_exists'.mp hLink
    exact Or.inr ⟨l, hLink, (h.present l hLink).conn, (h.present l hLink).one_le_refs⟩

/-- A transport that is ready is set up over the link. -/
theorem Coherent.holds_side {s : AppState} (h : s.Coherent) {svc : Service}
    (ready : s.lost = true ∨ (s.side svc).ready = true) :
    s.lost = true ∨ ∃ l, s.link = some l ∧ (s.side svc).conn = some l.id ∧ 1 ≤ s.refs := by
  rcases ready with hLost | hReady
  · exact Or.inl hLost
  · cases hLink : s.link with
    | none =>
        obtain ⟨-, -, hGdio, hUsdio⟩ := h.absent hLink
        cases svc with
        | pairing => exact absurd (hGdio.symm.trans hReady) (by decide)
        | keyturner => exact absurd (hUsdio.symm.trans hReady) (by decide)
    | some l =>
        have bound := h.present l hLink
        refine Or.inr ⟨l, rfl, ?_, bound.one_le_refs⟩
        cases svc with
        | pairing => exact (bound.gdio hReady).1
        | keyturner => exact bound.usdio hReady

/-- A transport is ready only over a link, since `disconnected` releases both transports before it
clears `g_conn`. -/
theorem Coherent.link_of_ready {s : AppState} (h : s.Coherent)
    (ready : s.lost = true ∨ s.usdio.ready = true) : s.lost = true ∨ s.link ≠ none := by
  rcases ready with hLost | hReady
  · exact Or.inl hLost
  · apply Or.inr
    intro hNone
    exact absurd ((h.absent hNone).2.2.2.symm.trans hReady) (by decide)

end AppState

/-- No link is lost between the success of its discovery and the request of the operation
to end it. Before that, a loss ends the attempt; after it, the loss is what was asked for. -/
def keptInUse : Condition AppOp AppEvent AppChoice AppState where
  event := fun e s => e = .disconnected → s.verdict = some (s.calls, 0) →
    s.link.all Link.discReq = true
  call := fun _ _ _ => True

instance (e : AppEvent) (s : AppState) : Decidable (keptInUse.event e s) :=
  inferInstanceAs (Decidable (e = .disconnected → s.verdict = some (s.calls, 0) →
    s.link.all Link.discReq = true))

instance (op : AppOp) (choice : AppChoice) (s : AppState) :
    Decidable (keptInUse.call op choice s) := isTrue trivial

namespace AppState

/-- A link that was dropped is gone, and the attempt has not succeeded. -/
def Noticed (s : AppState) : Prop :=
  s.dropped = true → s.lost = true ∧ s.verdict ≠ some (s.calls, 0)

/-- An attempt that ends with an error does not succeed. -/
theorem Noticed.finish {s : AppState} (h : s.Noticed) {owner : Nat} {err : Int}
    (error : err ≠ 0) : (s.finishConnectAttempt owner err).Noticed := by
  unfold finishConnectAttempt
  split
  · exact h
  · intro hDropped
    refine ⟨(h hDropped).1, ?_⟩
    intro hVerdict
    exact error (Prod.mk.inj (Option.some.inj hVerdict)).2

/-- What drops the link before the attempt has succeeded ends it with an error, and without
a link it cannot succeed any more. -/
theorem Noticed.of_effect {e : AppEvent} {s s' : AppState} (h : s.Noticed) (wired : s.Wired)
    (kept : keptInUse.event e s) (effect : Effect s e s') : s'.Noticed := by
  cases effect with
  | refused scans free error =>
      apply Noticed.finish _ error
      exact h
  | scanEnded scheduled =>
      apply Noticed.finish _ (by decide)
      exact h
  | unconnected l link pending error =>
      apply Noticed.finish _ (by decide)
      exact fun hDropped => ⟨rfl, (h hDropped).2⟩
  | unstarted l link pending error =>
      apply Noticed.finish _ error
      exact h
  | dropped l gdioConn usdioConn link established =>
      apply Noticed.finish _ (by decide)
      intro hDropped
      refine ⟨rfl, ?_⟩
      intro hVerdict
      have hRequested := kept rfl hVerdict
      rw [link, Option.all_some] at hRequested
      rw [hRequested, Bool.not_true, Bool.or_false] at hDropped
      exact (h hDropped).2 hVerdict
  | gdioBroken l link established discovery set error =>
      apply Noticed.finish _ error
      exact h
  | usdioDone l link established discovery =>
      have hKept : s.dropped = false := by
        by_contra hDropped
        have hLost := (h (Bool.not_eq_false _ ▸ hDropped)).1
        exact absurd ((wired.loss hLost).1.symm.trans link) nofun
      intro hDropped
      rw [finishConnectAttempt_eq] at hDropped
      exact absurd (hKept.symm.trans hDropped) (by decide)
  | usdioBroken l conn link established discovery error broken =>
      apply Noticed.finish _ error
      exact h
  | usdioFailed l link established discovery error =>
      apply Noticed.finish _ error
      exact h
  | _ => exact h

/-- A step of the thread drops no link. At most it starts an attempt, with nothing dropped yet. -/
theorem Noticed.of_move {op : AppOp} {choice : AppChoice} {place place' : Place}
    {s s' : AppState} (h : s.Noticed) (move : Move s op choice place place' s') :
    s'.Noticed := by
  cases move with
  | begin => exact nofun
  | _ => exact h

end AppState

/-- The invariant of an attempt whose link is not dropped while it is in use. -/
theorem noticed_inductive :
    appOrder.Inductive bridge (quietStarts.and keptInUse) fun place s =>
      Connected place s ∧ s.Noticed := by
  have hConnected : appOrder.Inductive bridge (quietStarts.and keptInUse) Connected :=
    connected_inductive.mono (fun _ _ => And.left) (fun _ _ _ => And.left)
  apply inductive_over hConnected fun _ _ base => base.1.1
  · exact fun _ _ _ _ base noticed meets effect => noticed.of_effect base.2.1 meets.2 effect
  · exact fun _ _ _ _ _ _ _ noticed _ move => noticed.of_move move

/-- An operation that returns 0 had its services discovered in this attempt. -/
theorem Connected.verdict_of_returns {place : Place} {s : AppState} {response : Response}
    (h : Connected place s) (returns : place.Returns response) (success : response.err = 0) :
    s.verdict = some (s.calls, 0) := by
  rcases returns with hOver | ⟨hFailed, -⟩
  · subst hOver
    exact h.1.2.2.2
  · exact absurd success hFailed

/-- What a step passes to the host is held exactly until the link is lost. -/
theorem Connected.holds_iff_of_passes {place : Place} {s : AppState} {op : AppOp}
    {conn : Option Nat} (h : Connected place s) (admitted : Place.Admits op place)
    (passes : op.passes s = some conn) : s.Holds conn ↔ s.lost = false := by
  obtain ⟨⟨coherent, ours, stands⟩, wired, tied⟩ := h
  have hReady (hDecided : s.Decided 0) : s.lost = true ∨ s.usdio.ready = true :=
    wired.success _ hDecided.2
  cases admitted with
  | cancel =>
      cases passes
      exact AppState.holds_iff wired (coherent.holds_gConn tied)
  | command c =>
      cases c with
      | btGattWrite data =>
          cases passes
          exact AppState.holds_iff wired (coherent.holds_side (hReady stands))
      | _ => cases passes
  | handshake c =>
      cases c with
      | btGattWrite data =>
          cases passes
          exact AppState.holds_iff wired (coherent.holds_side tied)
      | _ => cases passes
  | address =>
      cases passes
      have hLink := coherent.link_of_ready (hReady stands)
      exact AppState.holds_iff wired (coherent.holds_gConn hLink)
  | disconnect =>
      cases passes
      have hLink := coherent.link_of_ready (hReady stands)
      exact AppState.holds_iff wired (coherent.holds_gConn hLink)
  | _ => cases passes

/-- In every run in which each call of `connect_to_lock` starts quietly, every connection
that the operation thread passes to the host is one that the application holds, exactly
until the link is lost; and if no link is lost between the success of its discovery and
the request to end it, an operation whose link was dropped returns an error. -/
theorem connections_held_until_lost {stored : Option PairingData} {req : Request} {s : AppState}
    {code : AppCode Response} (reached : Reached quietStarts stored (.busy req ⟨s, code⟩)) :
    (∀ op next conn, code = .call op next → op.passes s = some conn →
      (s.Holds conn ↔ s.lost = false)) ∧
      (∀ response, code = .done response → response.err = 0 → s.verdict = some (s.calls, 0)) ∧
      (Reached (quietStarts.and keptInUse) stored (.busy req ⟨s, code⟩) → s.dropped = true →
        ∀ response, code = .done response → response.err ≠ 0) := by
  obtain ⟨place, inv, order⟩ :=
    located_of_reached connected_inductive (connected_boot stored)
      (fun _ _ _ _ inv => inv.idle) reached
  refine ⟨?_, ?_, ?_⟩
  · intro op next conn hCode hPasses
    subst hCode
    exact inv.holds_iff_of_passes order.1 hPasses
  · intro response hCode hErr
    subst hCode
    exact inv.verdict_of_returns order hErr
  · intro hKept hDropped response hCode hErr
    subst hCode
    obtain ⟨place, ⟨inv, noticed⟩, returns⟩ := located_of_reached noticed_inductive
      ⟨connected_boot stored, nofun⟩ (fun _ _ _ _ inv => ⟨inv.1.idle, inv.2⟩) hKept
    exact (noticed hDropped).2 (inv.verdict_of_returns returns hErr)

/-- The lock drops the link during its discovery, and the operation returns. -/
def droppedEarly : List (Label AppEvent AppChoice) :=
  connecting ++ [.event (.deviceFound default [] 0 0), .event (.connected 0 0),
    .event .disconnected] ++ List.replicate 3 (.thread .plain)

/-- The connection that timed out is held when it is asked to end, and an operation whose
link is dropped during its discovery returns an error. -/
theorem connections_held_until_lost_stalled :
    (∃ req s next, Reached quietStarts (some default)
        (.busy req ⟨s, .call .disconnectConn next⟩) ∧ s.lost = false ∧ s.Holds s.gConn) ∧
      ∃ req s response, Reached (quietStarts.and keptInUse) (some default)
        (.busy req ⟨s, .done response⟩) ∧ s.dropped = true ∧ response.err ≠ 0 := by
  let req : Request := ⟨.getState, .zero⟩
  have hStalled : Reached quietStarts (some default) (.busy req ⟨_, .call .disconnectConn _⟩) :=
    (Server.Reaches.start.request req).runs
      (Machine.runs_of_replay (stalled.take 14) (by decide) rfl)
  have hDropped : Reached quietStarts (some default) (.busy req ⟨_, .done _⟩) :=
    (Server.Reaches.start.request req).runs (Machine.runs_of_replay droppedEarly (by decide) rfl)
  have hKept : Reached (quietStarts.and keptInUse) (some default) (.busy req ⟨_, .done _⟩) :=
    (Server.Reaches.start.request req).runs (Machine.runs_of_replay droppedEarly (by decide) rfl)
  exact ⟨⟨req, _, _, hStalled, rfl,
      ((connections_held_until_lost hStalled).1 _ _ _ rfl rfl).mpr rfl⟩,
    ⟨req, _, _, hKept, rfl, (connections_held_until_lost hDropped).2.2 hKept rfl _ rfl⟩⟩

/-- The lock drops the link after `g_conn` was found to be set and before it is asked to
end: the request is for a null connection. -/
theorem disconnect_of_null :
    ∃ req s next, Reached .free (some default) (.busy req ⟨s, .call .disconnectConn next⟩) ∧
      AppOp.passes .disconnectConn s = some none := by
  let req : Request := ⟨.getState, .zero⟩
  have hReached : Reached .free (some default) (.busy req ⟨_, .call .disconnectConn _⟩) :=
    (Server.Reaches.start.request req).runs
      (Machine.runs_of_replay (stalled.take 14 ++ [.event .disconnected])
        (Machine.meets_free _ _) rfl)
  exact ⟨req, _, _, hReached, rfl⟩

end NukiBridge

import NukiBridge.App.Order

/-! What a callback and a step of the operation thread can do, said once. The globals
and the host agree on the connection; with this, each callback has one of a few effects
and each step is one move from place to place. -/
namespace NukiBridge

open Buffer Interaction

namespace AppState

/-- The end of an attempt in one piece: nothing after the first call, and the result of the first
call otherwise. -/
theorem finishConnectAttempt_eq (owner : Nat) (err : Int) (s : AppState) :
    s.finishConnectAttempt owner err = { s with
      connecting := false
      connectErr := if s.connecting then err else s.connectErr
      scanTimer := if s.connecting then none else s.scanTimer
      readySem := s.connecting || s.readySem
      verdict := if s.connecting then some (owner, err) else s.verdict } := by
  obtain ⟨gConn, gdio, usdio, needGdio, readySem, connectErr, connecting⟩ := s
  unfold finishConnectAttempt
  cases connecting <;> rfl

/-- The globals hold exactly this connection, one reference for it and one for each
transport that is ready. -/
structure Bound (s : AppState) (l : Link) : Prop where
  conn : s.gConn = some l.id
  refs : s.refs = 1 + s.gdio.ready.toNat + s.usdio.ready.toNat
  gdio : s.gdio.ready = true → s.gdio.conn = some l.id ∧ s.gdioPeer = some l.addr
  usdio : s.usdio.ready = true → s.usdio.conn = some l.id
  pending : l.established = false →
    l.discovery = none ∧ s.gdio.ready = false ∧ s.usdio.ready = false
  discovery : ∀ svc, l.discovery = some svc →
    s.usdio.ready = false ∧ (svc = .pairing → s.gdio.ready = false)

/-- The globals agree with the host. -/
structure Coherent (s : AppState) : Prop where
  absent : s.link = none →
    s.gConn = none ∧ s.refs = 0 ∧ s.gdio.ready = false ∧ s.usdio.ready = false
  present : ∀ l, s.link = some l → s.Bound l

end AppState

/-- The result of the `bt_gatt_dm_start` that a callback calls. -/
def AppEvent.dmStart : AppEvent → Int
  | .connected err dmStart => if err = 0 then dmStart else 0
  | .gdioDiscovered _ _ dmStart => dmStart
  | .gdioNotFound dmStart => dmStart
  | .gdioDiscoveryError dmStart => dmStart
  | _ => 0

/-- The result of the `bt_conn_disconnect` that a callback calls. -/
def AppEvent.disconnect : AppEvent → Int
  | .usdioNotFound disconnect => disconnect
  | .usdioDiscoveryError disconnect => disconnect
  | _ => 0

/-- GDIO is set up over the link, or left as it was. -/
inductive GdioSet (s : AppState) (l : Link) : Side → Option BtAddrLe → Int → Prop where
  | ready : GdioSet s l ⟨some l.id, true⟩ (some l.addr) (s.refs + 1)
  | absent (conn : Option Nat) : GdioSet s l ⟨conn, false⟩ s.gdioPeer s.refs

/-- What each callback does to a coherent state. -/
inductive Effect (s : AppState) : AppEvent → AppState → Prop where
  | ignored {addr : BtAddrLe} {ad : List BtData} {stop create : Int} :
      Effect s (.deviceFound addr ad stop create) s
  | refused {addr : BtAddrLe} {ad : List BtData} {stop create : Int} {owner : Nat}
      (scans : s.scanner = some owner) (free : s.link = none) (error : create ≠ 0) :
      Effect s (.deviceFound addr ad stop create)
        ({ s with scanner := none, scanTimer := none, creates := s.creates + 1
          }.finishConnectAttempt owner create)
  | created {addr : BtAddrLe} {ad : List BtData} {stop : Int} {owner : Nat}
      (scans : s.scanner = some owner) (free : s.link = none)
      (lock : isLock s.pairing addr ad = true) :
      Effect s (.deviceFound addr ad stop 0) { s with
        scanner := none
        scanTimer := none
        gConn := some s.created
        link := some ⟨s.created, addr, false, false, none, owner⟩
        created := s.created + 1
        creates := s.creates + 1
        refs := s.refs + 1 }
  | scanEnded {stop : Int} {owner : Nat} (scheduled : s.scanTimer = some owner) :
      Effect s (.scanTimeout stop) (s.scanTimeoutHandler stop owner)
  | unconnected {err : UInt8} {dmStart : Int} (l : Link) (link : s.link = some l)
      (pending : l.established = false) (error : err ≠ 0) :
      Effect s (.connected err dmStart)
        ({ s with refs := s.refs - 1, gConn := none, link := none, lost := true
          }.finishConnectAttempt l.owner (-eio))
  | started (l : Link) (svc : Service) (link : s.link = some l)
      (pending : l.established = false) :
      Effect s (.connected 0 0)
        { s with link := some { l with established := true, discovery := some svc } }
  | unstarted {dmStart : Int} (l : Link) (link : s.link = some l)
      (pending : l.established = false) (error : dmStart ≠ 0) :
      Effect s (.connected 0 dmStart)
        ({ s with link := some { l with established := true } }.finishConnectAttempt l.owner
          dmStart)
  | dropped (l : Link) (gdioConn usdioConn : Option Nat) (link : s.link = some l)
      (established : l.established = true) :
      Effect s .disconnected ({ s with
        gdio := ⟨gdioConn, false⟩
        usdio := ⟨usdioConn, false⟩
        refs := 0
        gConn := none
        link := none
        lost := true
        dropped := s.dropped || !l.discReq
        disconnectedSem := true }.finishConnectAttempt l.owner (-enotconn))
  | gdioDone {e : AppEvent} (l : Link) {side : Side} {peer : Option BtAddrLe} {refs : Int}
      (link : s.link = some l) (established : l.established = true)
      (discovery : l.discovery = some .pairing) (set : GdioSet s l side peer refs)
      (starts : e.dmStart = 0) :
      Effect s e { s with
        gdio := side
        gdioPeer := peer
        refs := refs
        link := some { l with discovery := some .keyturner } }
  | gdioBroken {e : AppEvent} (l : Link) {side : Side} {peer : Option BtAddrLe} {refs : Int}
      (link : s.link = some l) (established : l.established = true)
      (discovery : l.discovery = some .pairing) (set : GdioSet s l side peer refs)
      (error : e.dmStart ≠ 0) :
      Effect s e ({ s with
        gdio := side
        gdioPeer := peer
        refs := refs
        link := some { l with discovery := none } }.finishConnectAttempt l.owner e.dmStart)
  | usdioDone (l : Link) (link : s.link = some l) (established : l.established = true)
      (discovery : l.discovery = some .keyturner) :
      Effect s (.usdioDiscovered true 0) ({ s with
        usdio := ⟨some l.id, true⟩
        refs := s.refs + 1
        link := some { l with discovery := none } }.finishConnectAttempt l.owner 0)
  | usdioBroken {chrc : Bool} {subscribe err : Int} (l : Link) (conn : Option Nat)
      (link : s.link = some l) (established : l.established = true)
      (discovery : l.discovery = some .keyturner) (error : err ≠ 0)
      (broken : ¬(chrc = true ∧ subscribe = 0)) :
      Effect s (.usdioDiscovered chrc subscribe) ({ s with
        usdio := ⟨conn, false⟩
        link := some { l with discovery := none } }.finishConnectAttempt l.owner err)
  | usdioFailed {e : AppEvent} {err : Int} (l : Link) (link : s.link = some l)
      (established : l.established = true) (discovery : l.discovery = some .keyturner)
      (error : err ≠ 0) :
      Effect s e ({ s with
        link := some { l with
          discovery := none
          discReq := l.discReq || decide (e.disconnect = 0) } }.finishConnectAttempt l.owner err)

namespace AppState

/-- A callback that reports on a connection needs one, in the state in which the host reports it. -/
theorem reports_eq_some {established : Bool} {callback : Link → AppState → AppState}
    {s s' : AppState} (h : s.reports established callback = some s') :
    ∃ l, s.link = some l ∧ l.established = established ∧ s' = callback l s := by
  unfold reports at h
  split at h
  · rename_i l hLink
    split at h
    · rename_i hEstablished
      cases h
      exact ⟨l, hLink, hEstablished, rfl⟩
    · cases h
  · cases h

/-- A callback of a discovery runs over the link that is being discovered. -/
theorem completes_eq_some {svc : Service} {callback : Link → AppState → AppState}
    {s s' : AppState} (h : s.completes svc callback = some s') :
    ∃ l, s.link = some l ∧ l.established = true ∧ l.discovery = some svc ∧
      s' = callback { l with discovery := none }
        { s with link := some { l with discovery := none } } := by
  unfold completes at h
  split at h
  · rename_i l hLink
    split at h
    · rename_i hDiscovery
      cases h
      exact ⟨l, hLink, hDiscovery.1, hDiscovery.2, rfl⟩
    · cases h
  · cases h

/-- Going on to the keyturner service, once GDIO is dealt with. -/
theorem effect_gdio {e : AppEvent} {s : AppState} {l : Link} {side : Side}
    {peer : Option BtAddrLe} {refs : Int} (link : s.link = some l)
    (established : l.established = true) (discovery : l.discovery = some .pairing)
    (set : GdioSet s l side peer refs) :
    Effect s e (discoverKeyturnerService { l with discovery := none } e.dmStart { s with
      gdio := side
      gdioPeer := peer
      refs := refs
      link := some { l with discovery := none } }) := by
  unfold discoverKeyturnerService startService
  split
  · rename_i hError
    exact .gdioBroken l link established discovery set hError
  · rename_i hStarts
    exact .gdioDone l link established discovery set (not_not.mp hStarts)

/-- A connection that was made starts the discovery of the service that the operation needs, or
fails in the attempt. -/
theorem effect_startDiscovery {dmStart : Int} {s : AppState} {l : Link} (link : s.link = some l)
    (pending : l.established = false) :
    Effect s (.connected 0 dmStart) (startDiscovery { l with established := true } dmStart
      { s with link := some { l with established := true } }) := by
  unfold startDiscovery discoverKeyturnerService startService
  by_cases hError : dmStart ≠ 0
  · simp only [if_pos hError, ite_self]
    exact .unstarted l link pending hError
  · simp only [if_neg hError]
    rw [not_not] at hError
    subst hError
    split
    · exact .started l .keyturner link pending
    · exact .started l .pairing link pending

/-- Where USDIO is not found the attempt ends with an error and the host is asked to end the
link. -/
theorem effect_usdioFailed {e : AppEvent} {err : Int} {s : AppState} {l : Link}
    (link : s.link = some l) (established : l.established = true)
    (discovery : l.discovery = some .keyturner) (error : err ≠ 0) :
    Effect s e (usdioFailed err e.disconnect { l with discovery := none }
      { s with link := some { l with discovery := none } }) := by
  have hEffect := Effect.usdioFailed (e := e) l link established discovery error
  unfold usdioFailed btConnDisconnect
  by_cases hDisconnect : e.disconnect = 0
  · simpa [hDisconnect] using hEffect
  · simpa [hDisconnect] using hEffect

/-- Releasing a transport gives its reference back, if it was ready. -/
theorem releaseReady_pairing {s : AppState} {id : Nat}
    (ready : s.gdio.ready = true → s.gdio.conn = some id) :
    ∃ conn, s.releaseReady .pairing =
      { s with gdio := ⟨conn, false⟩, refs := s.refs - s.gdio.ready.toNat } := by
  obtain ⟨gConn, ⟨conn, isReady⟩⟩ := s
  cases isReady with
  | false => exact ⟨conn, by simp [releaseReady, side]⟩
  | true =>
      have hConn : conn = some id := ready rfl
      subst hConn
      exact ⟨none, by simp [releaseReady, transportRelease, side, withSide, btConnUnref]⟩

/-- Releasing USDIO gives back its reference if it had one, and leaves the transport not ready. -/
theorem releaseReady_keyturner {s : AppState} {id : Nat}
    (ready : s.usdio.ready = true → s.usdio.conn = some id) :
    ∃ conn, s.releaseReady .keyturner =
      { s with usdio := ⟨conn, false⟩, refs := s.refs - s.usdio.ready.toNat } := by
  obtain ⟨gConn, gdio, ⟨conn, isReady⟩⟩ := s
  cases isReady with
  | false => exact ⟨conn, by simp [releaseReady, side]⟩
  | true =>
      have hConn : conn = some id := ready rfl
      subst hConn
      exact ⟨none, by simp [releaseReady, transportRelease, side, withSide, btConnUnref]⟩

/-- A link that drops takes `g_conn` and both transports with it, each with its reference. -/
theorem Coherent.effect_disconnected {s : AppState} {l : Link} (h : s.Coherent)
    (link : s.link = some l) (established : l.established = true) :
    Effect s .disconnected (s.disconnected l) := by
  have bound := h.present l link
  obtain ⟨gdioConn, hGdio⟩ := releaseReady_pairing fun hReady => (bound.gdio hReady).1
  obtain ⟨usdioConn, hUsdio⟩ := releaseReady_keyturner
    (s := { s with gdio := ⟨gdioConn, false⟩, refs := s.refs - s.gdio.ready.toNat })
    fun hReady => bound.usdio hReady
  have hRefs : s.refs - s.gdio.ready.toNat - s.usdio.ready.toNat - 1 = 0 := by
    rw [bound.refs]
    omega
  unfold disconnected
  rw [if_neg (not_not.mpr bound.conn), hGdio, hUsdio]
  simp only [btConnUnref, hRefs, finishConnectAttempt_eq]
  have hDropped := Effect.dropped l gdioConn usdioConn link established
  rwa [finishConnectAttempt_eq] at hDropped

/-- A lock without the pairing service is no error here: the discovery goes on with the Keyturner
Service. -/
theorem Coherent.effect_gdioSkipped {e : AppEvent} {s : AppState} {l : Link} (h : s.Coherent)
    (link : s.link = some l) (established : l.established = true)
    (discovery : l.discovery = some .pairing) :
    Effect s e (discoverKeyturnerService { l with discovery := none } e.dmStart
      { s with link := some { l with discovery := none } }) := by
  have hReady := ((h.present l link).discovery _ discovery).2 rfl
  obtain ⟨gConn, ⟨conn, isReady⟩⟩ := s
  simp only at hReady
  subst hReady
  exact effect_gdio link established discovery (.absent conn)

/-- GDIO is set up or fails to subscribe, and in both cases the discovery goes on. -/
theorem Coherent.effect_gdioDiscovered {chrc : Bool} {subscribe dmStart : Int} {s : AppState}
    {l : Link} (h : s.Coherent) (link : s.link = some l) (established : l.established = true)
    (discovery : l.discovery = some .pairing) :
    Effect s (.gdioDiscovered chrc subscribe dmStart)
      (gdioDiscovered chrc subscribe dmStart { l with discovery := none }
        { s with link := some { l with discovery := none } }) := by
  have hReady := ((h.present l link).discovery _ discovery).2 rfl
  obtain ⟨gConn, ⟨conn, isReady⟩⟩ := s
  simp only at hReady
  subst hReady
  cases chrc with
  | false => exact effect_gdio link established discovery (.absent conn)
  | true =>
      by_cases hSubscribe : subscribe = 0
      · subst hSubscribe
        exact effect_gdio link established discovery .ready
      · have hEffect := effect_gdio (e := .gdioDiscovered true subscribe dmStart) link established
          discovery (.absent (some l.id))
        simpa [gdioDiscovered, transportInit, withSide, side, btConnUnref, hSubscribe,
          AppEvent.dmStart] using hEffect

/-- USDIO is set up and the attempt succeeds, or it fails with an error of its own. -/
theorem Coherent.effect_usdioDiscovered {chrc : Bool} {subscribe : Int} {s : AppState}
    {l : Link} (h : s.Coherent) (link : s.link = some l) (established : l.established = true)
    (discovery : l.discovery = some .keyturner) :
    Effect s (.usdioDiscovered chrc subscribe)
      (usdioDiscovered chrc subscribe { l with discovery := none }
        { s with link := some { l with discovery := none } }) := by
  have hReady := ((h.present l link).discovery _ discovery).1
  obtain ⟨gConn, gdio, ⟨conn, isReady⟩⟩ := s
  simp only at hReady
  subst hReady
  cases chrc with
  | false =>
      exact .usdioBroken l conn link established discovery (by decide : -enotsup ≠ 0) (by simp)
  | true =>
      by_cases hSubscribe : subscribe = 0
      · subst hSubscribe
        exact .usdioDone l link established discovery
      · have hEffect : Effect _ (.usdioDiscovered true subscribe) _ :=
          .usdioBroken l (some l.id) link established discovery hSubscribe
            fun h => hSubscribe h.2
        simpa [usdioDiscovered, transportInit, withSide, side, btConnUnref, hSubscribe]
          using hEffect

/-- Every event that fires has one of the effects, in states whose globals agree with the host. What
follows never unfolds a callback again. -/
theorem Coherent.effect {e : AppEvent} {s s' : AppState} (h : s.Coherent)
    (fires : s.event e = some s') : Effect s e s' := by
  cases e with
  | deviceFound addr ad stop create =>
      obtain ⟨owner, hScans, hFound⟩ := Option.bind_eq_some_iff.mp fires
      unfold AppState.deviceFound at hFound
      split at hFound
      · rename_i hTakes
        have hFree : s.link = none := by
          cases hLink : s.link with
          | none => rfl
          | some l => exact absurd ((h.present l hLink).conn.symm.trans hTakes.1) (by simp)
        unfold leCreate at hFound
        split at hFound
        · rename_i hError
          cases hFound
          exact .refused hScans hFree hError
        · rename_i hCreate
          rw [not_not] at hCreate
          subst hCreate
          cases hFound
          exact .created hScans hFree hTakes.2.1
      · cases hFound
        exact .ignored
  | scanTimeout stop =>
      obtain ⟨owner, hScheduled, rfl⟩ := Option.map_eq_some_iff.mp fires
      exact .scanEnded hScheduled
  | connected err dmStart =>
      rw [AppState.event] at fires
      obtain ⟨l, hLink, hPending, rfl⟩ := reports_eq_some fires
      unfold AppState.connected
      split
      · rename_i hErr
        exact .unconnected l hLink hPending hErr
      · rename_i hErr
        rw [not_not] at hErr
        subst hErr
        have hConn : ¬s.gConn ≠ some l.id := not_not.mpr (h.present l hLink).conn
        simp only [if_neg hConn]
        exact effect_startDiscovery hLink hPending
  | disconnected =>
      rw [AppState.event] at fires
      obtain ⟨l, hLink, hEstablished, rfl⟩ := reports_eq_some fires
      exact h.effect_disconnected hLink hEstablished
  | gdioDiscovered chrc subscribe dmStart =>
      rw [AppState.event] at fires
      obtain ⟨l, hLink, hEstablished, hDiscovery, rfl⟩ := completes_eq_some fires
      exact h.effect_gdioDiscovered hLink hEstablished hDiscovery
  | gdioNotFound dmStart =>
      rw [AppState.event] at fires
      obtain ⟨l, hLink, hEstablished, hDiscovery, rfl⟩ := completes_eq_some fires
      exact h.effect_gdioSkipped hLink hEstablished hDiscovery
  | gdioDiscoveryError dmStart =>
      rw [AppState.event] at fires
      obtain ⟨l, hLink, hEstablished, hDiscovery, rfl⟩ := completes_eq_some fires
      exact h.effect_gdioSkipped hLink hEstablished hDiscovery
  | usdioDiscovered chrc subscribe =>
      rw [AppState.event] at fires
      obtain ⟨l, hLink, hEstablished, hDiscovery, rfl⟩ := completes_eq_some fires
      exact h.effect_usdioDiscovered hLink hEstablished hDiscovery
  | usdioNotFound disconnect =>
      rw [AppState.event] at fires
      obtain ⟨l, hLink, hEstablished, hDiscovery, rfl⟩ := completes_eq_some fires
      exact effect_usdioFailed hLink hEstablished hDiscovery (by decide)
  | usdioDiscoveryError disconnect =>
      rw [AppState.event] at fires
      obtain ⟨l, hLink, hEstablished, hDiscovery, rfl⟩ := completes_eq_some fires
      exact effect_usdioFailed hLink hEstablished hDiscovery (by decide)

/-- Coherence is about the connection and the pointers to it only. A step that leaves these alone
keeps it. -/
theorem Coherent.congr {s s' : AppState} (h : s.Coherent) (conn : s'.gConn = s.gConn)
    (gdio : s'.gdio = s.gdio) (usdio : s'.usdio = s.usdio) (refs : s'.refs = s.refs)
    (link : s'.link = s.link) (peer : s'.gdioPeer = s.gdioPeer) : s'.Coherent where
  absent := by
    rw [conn, gdio, usdio, refs, link]
    exact h.absent
  present := by
    intro l hLink
    rw [link] at hLink
    have bound := h.present l hLink
    constructor
    · rw [conn, bound.conn]
    · rw [refs, gdio, usdio, bound.refs]
    · rw [gdio, peer]
      exact bound.gdio
    · rw [usdio]
      exact bound.usdio
    · rw [gdio, usdio]
      exact bound.pending
    · rw [gdio, usdio]
      exact bound.discovery

/-- The end of an attempt touches none of the globals that the invariant is about. -/
theorem Coherent.finish {s : AppState} (h : s.Coherent) (owner : Nat) (err : Int) :
    (s.finishConnectAttempt owner err).Coherent := by
  rw [finishConnectAttempt_eq]
  exact h.congr rfl rfl rfl rfl rfl rfl

/-- A state with one connection is coherent when the pointers are bound to this connection. -/
theorem Bound.coherent {s : AppState} {l : Link} (link : s.link = some l) (h : s.Bound l) :
    s.Coherent where
  absent := fun hNone => absurd (link.symm.trans hNone) (Option.some_ne_none l)
  present := by
    intro k hLink
    obtain rfl := Option.some.inj (link.symm.trans hLink)
    exact h

/-- After GDIO was set up the counts and pointers agree again, wherever the discovery goes on. -/
theorem Bound.gdioSet {s : AppState} {l : Link} {side : Side} {peer : Option BtAddrLe}
    {refs : Int} (h : s.Bound l) (established : l.established = true)
    (discovery : l.discovery = some .pairing) (set : GdioSet s l side peer refs)
    {next : Option Service} (goesOn : ∀ svc, next = some svc → svc ≠ .pairing) :
    Coherent { s with
      gdio := side
      gdioPeer := peer
      refs := refs
      link := some { l with discovery := next } } := by
  obtain ⟨hConn, hRefs, hGdio, hUsdio, hPending, hDiscovery⟩ := h
  obtain ⟨hNone, hReady⟩ := hDiscovery _ discovery
  apply Bound.coherent rfl
  cases set with
  | ready => constructor <;> simp_all
  | absent conn => constructor <;> simp_all

/-- Every callback leaves the globals in agreement with the host. -/
theorem Coherent.of_effect {e : AppEvent} {s s' : AppState} (h : s.Coherent)
    (effect : Effect s e s') : s'.Coherent := by
  cases effect with
  | ignored => exact h
  | refused scans free error =>
      apply Coherent.finish
      exact h.congr rfl rfl rfl rfl rfl rfl
  | created scans free lock =>
      obtain ⟨-, hRefs, hGdio, hUsdio⟩ := h.absent free
      apply Bound.coherent rfl
      constructor <;> simp_all
  | scanEnded scheduled =>
      apply Coherent.finish
      exact h.congr rfl rfl rfl rfl rfl rfl
  | unconnected l link pending error =>
      obtain ⟨-, hRefs, -, -, hPending, -⟩ := h.present l link
      obtain ⟨-, hGdio, hUsdio⟩ := hPending pending
      apply Coherent.finish
      constructor <;> simp_all
  | started l svc link pending =>
      obtain ⟨hConn, hRefs, hGdio, hUsdio, hPending, -⟩ := h.present l link
      apply Bound.coherent rfl
      constructor <;> simp_all
  | unstarted l link pending error =>
      obtain ⟨hConn, hRefs, hGdio, hUsdio, hPending, -⟩ := h.present l link
      apply Coherent.finish
      apply Bound.coherent rfl
      constructor <;> simp_all
  | dropped l gdioConn usdioConn link established =>
      rw [finishConnectAttempt_eq]
      constructor <;> simp
  | gdioDone l link established discovery set starts =>
      exact (h.present l link).gdioSet established discovery set (by simp)
  | gdioBroken l link established discovery set error =>
      apply Coherent.finish
      exact (h.present l link).gdioSet established discovery set (by simp)
  | usdioDone l link established discovery =>
      obtain ⟨hConn, hRefs, hGdio, -, -, hDiscovery⟩ := h.present l link
      obtain ⟨hUsdio, -⟩ := hDiscovery _ discovery
      apply Coherent.finish
      apply Bound.coherent rfl
      constructor <;> simp_all
  | usdioBroken l conn link established discovery error broken =>
      obtain ⟨hConn, hRefs, hGdio, -, -, hDiscovery⟩ := h.present l link
      obtain ⟨hUsdio, -⟩ := hDiscovery _ discovery
      apply Coherent.finish
      apply Bound.coherent rfl
      constructor <;> simp_all
  | usdioFailed l link established discovery error =>
      obtain ⟨hConn, hRefs, hGdio, hUsdio, hPending, -⟩ := h.present l link
      apply Coherent.finish
      apply Bound.coherent rfl
      constructor <;> simp_all

end AppState

/-- Each step of the operation thread, from place to place. -/
inductive Move (s : AppState) : AppOp → AppChoice → Place → Place → AppState → Prop where
  | begin {choice : AppChoice} :
      Move s .connectBegin choice .idle (.preparing 0) { s with
        calls := s.calls + 1
        inside := true
        verdict := none
        timedOut := false
        scanErr := none
        lost := false
        dropped := false
        gdioFrames := [] }
  | lookUp {choice : AppChoice} : Move s .getPairing choice .idle .idle s
  | resetSem {choice : AppChoice} :
      Move s .resetReadySem choice (.preparing 0) (.preparing 1) { s with readySem := false }
  | resetErr {choice : AppChoice} :
      Move s (.setConnectErr 0) choice (.preparing 1) (.preparing 2) { s with connectErr := 0 }
  | setNeed {choice : AppChoice} (need : Bool) :
      Move s (.setNeedGdio need) choice (.preparing 2) (.preparing 3) { s with needGdio := need }
  | start {choice : AppChoice} :
      Move s (.setConnecting true) choice (.preparing 3) (.preparing 4)
        { s with connecting := true }
  | refused {choice : AppChoice} (error : choice.err ≠ 0) :
      Move s .leScanStart choice (.preparing 4) (.deciding choice.err)
        { s with scanErr := some choice.err }
  | scan {choice : AppChoice} (off : s.scanner = none) :
      Move s .leScanStart choice (.preparing 4) .scanning { s with scanner := some s.calls }
  | schedule {choice : AppChoice} :
      Move s .scheduleScanTimeout choice .scanning .waiting
        { s with scanTimer := s.scanTimer.or (some s.calls) }
  | woken {choice : AppChoice} (given : s.readySem = true) :
      Move s .takeReadySem choice .waiting .woken { s with readySem := false }
  | expired {choice : AppChoice} (taken : s.readySem = false) :
      Move s .takeReadySem choice .waiting .expired { s with timedOut := true }
  | result {choice : AppChoice} :
      Move s .loadConnectErr choice .woken (.deciding s.connectErr) s
  | abandon {choice : AppChoice} :
      Move s (.setConnecting false) choice .expired .abandoned { s with connecting := false }
  | stop {choice : AppChoice} :
      Move s .leScanStop choice .abandoned .stopped
        { s with scanner := if choice.err = 0 then none else s.scanner }
  | unheld {choice : AppChoice} (free : s.gConn = none) :
      Move s .loadConn choice .stopped (.deciding (-etimedout)) s
  | held {choice : AppChoice} (conn : s.gConn ≠ none) :
      Move s .loadConn choice .stopped .found s
  | cancel {choice : AppChoice} :
      Move s .disconnectConn choice .found (.deciding (-etimedout))
        (s.btConnDisconnect s.gConn choice.err)
  | failed {choice : AppChoice} (rc : Int) (error : rc ≠ 0) :
      Move s (.connectEnd rc) choice (.deciding rc) (.failed rc) { s with inside := false }
  | opened {choice : AppChoice} :
      Move s (.connectEnd 0) choice (.deciding 0) .inUse { s with inside := false }
  | unready {choice : AppChoice} : Move s .loadGdioReady choice .inUse .inUse s
  | ready {choice : AppChoice} (ready : s.gdio.ready = true) :
      Move s .loadGdioReady choice .inUse .onGdio s
  | command {choice : AppChoice} (c : Call) :
      Move s (.transport .keyturner c) choice .inUse .inUse s
  | handshake {choice : AppChoice} (c : Call) (peers : List (Option BtAddrLe))
      (exchanged : ∀ peer ∈ peers, peer = s.peer s.gdio.conn ∨ peer = s.gdioPeer) :
      Move s (.transport .pairing c) choice .onGdio .onGdio
        { s with gdioFrames := s.gdioFrames ++ peers }
  | address {choice : AppChoice} :
      Move s .connGetDst choice .onGdio (.addressed ((s.peer s.gConn).getD choice.addr)) s
  | save {choice : AppChoice} (data : PairingData) :
      Move s (.savePairing data) choice (.addressed data.addr) .saved { s with
        pairing := some data
        settings := if choice.err = 0 then some data else s.settings }
  | closed {choice : AppChoice} {place : Place} (free : s.gConn = none)
      (used : place = .inUse ∨ place = .onGdio ∨ place = .saved) :
      Move s .loadConn choice place .finished s
  | leave {choice : AppChoice} {place : Place} (conn : s.gConn ≠ none)
      (used : place = .inUse ∨ place = .onGdio ∨ place = .saved) :
      Move s .loadConn choice place .leaving s
  | resetDisconnected {choice : AppChoice} :
      Move s .resetDisconnectedSem choice .leaving .dropping { s with disconnectedSem := false }
  | disconnect {choice : AppChoice} :
      Move s .disconnectConn choice .dropping .dropped (s.btConnDisconnect s.gConn choice.err)
  | disconnected {choice : AppChoice} (sem : Bool) :
      Move s .takeDisconnectedSem choice .dropped .finished { s with disconnectedSem := sem }
  | cache {choice : AppChoice} (state : KeyturnerState) :
      Move s (.updateCache state) choice .finished .finished
        { s with cache := some (state, choice.now) }

namespace AppState

/-- Reading `g_conn` is a move at the three places where the thread uses the connection. -/
theorem move_loadConn {choice : AppChoice} {s : AppState} {place : Place}
    (used : place = .inUse ∨ place = .onGdio ∨ place = .saved) :
    Move s .loadConn choice place (Place.next .loadConn s.gConn place) s := by
  have hNext : Place.next .loadConn s.gConn place =
      if s.gConn = none then .finished else .leaving := by
    rcases used with rfl | rfl | rfl <;> rfl
  rw [hNext]
  split
  · rename_i hConn
    exact .closed hConn used
  · rename_i hConn
    exact .leave hConn used

/-- Calls are answered in one step, and an admitted one is one of these moves. -/
theorem move_of_call {op : AppOp} {choice : AppChoice} {place : Place} {s s' : AppState}
    {result : op.Answer} (admitted : Place.Admits op place)
    (calls : s.call op choice = some (.answer result s')) :
    Move s op choice place (Place.next op result place) s' := by
  cases admitted with
  | begin =>
      cases calls
      exact .begin
  | lookUp =>
      cases calls
      exact .lookUp
  | resetSem =>
      cases calls
      exact .resetSem
  | resetErr =>
      cases calls
      exact .resetErr
  | setNeed need =>
      cases calls
      exact .setNeed need
  | start =>
      cases calls
      exact .start
  | scan =>
      rw [AppState.call] at calls
      split at calls
      · rename_i hErr
        cases calls
        have hNext : Place.next .leScanStart choice.err (.preparing 4) = .deciding choice.err :=
          if_pos hErr
        rw [hNext]
        exact .refused hErr
      · split at calls
        · rename_i hOff
          cases calls
          exact .scan hOff
        · cases calls
  | schedule =>
      cases calls
      exact .schedule
  | wait =>
      rw [AppState.call] at calls
      split at calls
      · rename_i hGiven
        cases calls
        exact .woken hGiven
      · rename_i hTaken
        split at calls
        · cases calls
          exact .expired (Bool.eq_false_iff.mpr hTaken)
        · cases calls
  | result =>
      cases calls
      exact .result
  | abandon =>
      cases calls
      exact .abandon
  | stop =>
      cases calls
      exact .stop
  | check =>
      cases calls
      have hNext : Place.next .loadConn s.gConn .stopped =
          if s.gConn ≠ none then .found else .deciding (-etimedout) := rfl
      rw [hNext]
      split
      · rename_i hConn
        exact .held hConn
      · rename_i hConn
        exact .unheld (not_not.mp hConn)
  | cancel =>
      cases calls
      exact .cancel
  | finish rc =>
      cases calls
      by_cases hErr : rc ≠ 0
      · have hNext : Place.next (.connectEnd rc) () (.deciding rc) = .failed rc := if_pos hErr
        rw [hNext]
        exact .failed rc hErr
      · rw [not_not] at hErr
        subst hErr
        exact .opened
  | ready =>
      cases calls
      have hNext : Place.next .loadGdioReady s.gdio.ready .inUse =
          if s.gdio.ready = false then .inUse else .onGdio := rfl
      rw [hNext]
      split
      · exact .unready
      · rename_i hReady
        exact .ready (Bool.not_eq_false _ ▸ hReady)
  | command c =>
      cases c <;> cases calls <;> exact .command _
  | handshake c =>
      have hQuiet : Move s (.transport .pairing c) choice .onGdio .onGdio s := by
        have hMove : Move s _ choice _ _ _ := .handshake c [] (by simp)
        rwa [List.append_nil] at hMove
      cases c with
      | btGattWrite data =>
          cases calls
          exact .handshake _ [s.peer s.gdio.conn] (by simp)
      | peek len =>
          cases calls
          exact .handshake _ [s.gdioPeer] (by simp)
      | _ =>
          cases calls
          exact hQuiet
  | address =>
      cases calls
      exact .address
  | save data =>
      cases calls
      exact .save data
  | leave =>
      cases calls
      exact move_loadConn (Or.inl rfl)
  | leaveGdio =>
      cases calls
      exact move_loadConn (Or.inr (Or.inl rfl))
  | leaveSaved =>
      cases calls
      exact move_loadConn (Or.inr (Or.inr rfl))
  | resetDisconnected =>
      cases calls
      exact .resetDisconnected
  | disconnect =>
      cases calls
      exact .disconnect
  | disconnected =>
      rw [AppState.call] at calls
      split at calls
      · cases calls
        exact .disconnected false
      · split at calls
        · cases calls
          exact .disconnected s.disconnectedSem
        · cases calls
  | cache state =>
      cases calls
      exact .cache state

/-- No call of the thread ever waits in the model: each is answered in one step, a timeout
included. -/
theorem call_ne_stay (op : AppOp) (choice : AppChoice) (s after : AppState) :
    s.call op choice ≠ some (.stay after) := by
  intro calls
  cases op with
  | leScanStart =>
      rw [AppState.call] at calls
      split at calls
      · cases calls
      · split at calls <;> cases calls
  | takeReadySem =>
      rw [AppState.call] at calls
      split at calls
      · cases calls
      · split at calls <;> cases calls
  | takeDisconnectedSem =>
      rw [AppState.call] at calls
      split at calls
      · cases calls
      · split at calls <;> cases calls
  | transport svc c => cases svc <;> cases c <;> cases calls
  | _ => cases calls

/-- Asking a connection to end marks the link it is of, if the host takes the request. -/
theorem btConnDisconnect_link {s : AppState} {l : Link} (conn : Option Nat) (rc : Int)
    (link : s.link = some l) : (s.btConnDisconnect conn rc).link =
      some { l with discReq := l.discReq || decide (rc = 0 ∧ conn = some l.id) } := by
  simp only [btConnDisconnect, link, Option.map_some]
  by_cases hTaken : rc = 0 ∧ conn = some l.id
  · simp only [hTaken, and_self, if_true, decide_true, Bool.or_true]
  · simp only [hTaken, if_false, decide_false, Bool.or_false]

/-- Asking for the end of a link leaves all counts and pointers as they are. -/
theorem Coherent.btConnDisconnect {s : AppState} (h : s.Coherent) (conn : Option Nat)
    (rc : Int) : (s.btConnDisconnect conn rc).Coherent := by
  cases hLink : s.link with
  | none =>
      have hSame : (s.btConnDisconnect conn rc).link = s.link := by
        simp only [AppState.btConnDisconnect, hLink, Option.map_none]
      exact Coherent.congr h rfl rfl rfl rfl hSame rfl
  | some l =>
      obtain ⟨hConn, hRefs, hGdio, hUsdio, hPending, hDiscovery⟩ := h.present l hLink
      apply Bound.coherent (btConnDisconnect_link conn rc hLink)
      constructor <;> assumption

/-- What any call does to the connection and to the two copies of the pairing. -/
inductive Called (s : AppState) (choice : AppChoice) : AppOp → AppState → Prop where
  | saved (data : PairingData) :
      Called s choice (.savePairing data) { s with
        pairing := some data
        settings := if choice.err = 0 then some data else s.settings }
  | requested : Called s choice .disconnectConn (s.btConnDisconnect s.gConn choice.err)
  | other {op : AppOp} {s' : AppState} (conn : s'.gConn = s.gConn) (gdio : s'.gdio = s.gdio)
      (usdio : s'.usdio = s.usdio) (refs : s'.refs = s.refs) (link : s'.link = s.link)
      (peer : s'.gdioPeer = s.gdioPeer) (pairing : s'.pairing = s.pairing)
      (settings : s'.settings = s.settings) : Called s choice op s'

/-- Every step of the thread is one of the listed ones, with what it may change. The counterpart of
the effects of callbacks. -/
theorem called_of_call {op : AppOp} {choice : AppChoice} {s s' : AppState} {result : op.Answer}
    (calls : s.call op choice = some (.answer result s')) : Called s choice op s' := by
  cases op with
  | savePairing data =>
      cases calls
      exact .saved data
  | disconnectConn =>
      cases calls
      exact .requested
  | leScanStart =>
      rw [call] at calls
      split at calls
      · cases calls
        exact .other rfl rfl rfl rfl rfl rfl rfl rfl
      · split at calls
        · cases calls
          exact .other rfl rfl rfl rfl rfl rfl rfl rfl
        · cases calls
  | takeReadySem =>
      rw [call] at calls
      split at calls
      · cases calls
        exact .other rfl rfl rfl rfl rfl rfl rfl rfl
      · split at calls
        · cases calls
          exact .other rfl rfl rfl rfl rfl rfl rfl rfl
        · cases calls
  | takeDisconnectedSem =>
      rw [call] at calls
      split at calls
      · cases calls
        exact .other rfl rfl rfl rfl rfl rfl rfl rfl
      · split at calls
        · cases calls
          exact .other rfl rfl rfl rfl rfl rfl rfl rfl
        · cases calls
  | transport svc c =>
      cases svc <;> cases c <;> cases calls <;> exact .other rfl rfl rfl rfl rfl rfl rfl rfl
  | _ =>
      cases calls
      exact .other rfl rfl rfl rfl rfl rfl rfl rfl

/-- Every step of the operation thread leaves the globals in agreement with the host. -/
theorem Coherent.of_call {op : AppOp} {choice : AppChoice} {s s' : AppState}
    {result : op.Answer} (h : s.Coherent) (calls : s.call op choice = some (.answer result s')) :
    s'.Coherent := by
  cases called_of_call calls with
  | saved data => exact h.congr rfl rfl rfl rfl rfl rfl
  | requested => exact h.btConnDisconnect s.gConn choice.err
  | other conn gdio usdio refs link peer => exact h.congr conn gdio usdio refs link peer

end AppState

section Rules

variable {cond : Condition AppOp AppEvent AppChoice AppState} {base Inv : Place → AppState → Prop}

/-- The globals agree with the host in every run, under any condition on the events. -/
theorem coherent_inductive : appOrder.Inductive bridge cond fun _ s => s.Coherent where
  event := fun _ _ _ _ coherent _ fires => coherent.of_effect (coherent.effect fires)
  stay := fun _ op choice s s' _ _ _ calls => absurd calls (AppState.call_ne_stay op choice s s')
  answer := fun _ _ _ _ _ _ coherent _ _ calls => coherent.of_call calls

/-- An invariant over a base of coherent states is proved by cases over effects and
moves. -/
theorem inductive_over (h : appOrder.Inductive bridge cond base)
    (coherent : ∀ place s, base place s → s.Coherent)
    (event : ∀ place e s s', base place s → Inv place s → cond.event e s → Effect s e s' →
      Inv place s')
    (move : ∀ op choice place place' s s', base place s → Inv place s → cond.call op choice s →
      Move s op choice place place' s' → Inv place' s') :
    appOrder.Inductive bridge cond fun place s => base place s ∧ Inv place s := by
  apply h.and
  · intro place e s s' before after inv meets fires
    exact event place e s s' before inv meets ((coherent place s before).effect fires)
  · intro place op choice s s' before after inv admitted meets calls
    exact absurd calls (AppState.call_ne_stay op choice s s')
  · intro place op choice s result s' before after inv admitted meets calls
    exact move op choice place _ s s' before inv meets (AppState.move_of_call admitted calls)

/-- At boot no connection is held and no transport is ready. -/
theorem AppState.coherent_boot (stored : Option PairingData) : (AppState.boot stored).Coherent where
  absent := fun _ => ⟨rfl, rfl, rfl, rfl⟩
  present := fun _ h => absurd h nofun

variable {stored : Option PairingData} {stage : AppStage}

/-- What holds at the places of the operation thread in every run. -/
theorem located_of_reached (h : appOrder.Inductive bridge cond Inv)
    (initial : Inv .idle (.boot stored))
    (returns : ∀ response place s, place.Returns response → Inv place s → Inv .idle s)
    (reached : Reached cond stored stage) :
    appOrder.Located Inv .idle (fun _ response place => place.Returns response) stage :=
  Typestate.located_of_reaches h follows_body (fun _ => returns) initial reached

end Rules

end NukiBridge

import NukiBridge.App.PairingAddress
import NukiBridge.Command.Sealed
import NukiBridge.Interaction.Observer

/-! The lock that the stored pairing belongs to. `device_found` connects to the stored
address; a connection may still be older than the record. Where the record is stored for
the connection that is open, every command goes to the lock that its key was agreed with. -/
namespace NukiBridge

open Buffer Interaction Crypto Typestate

/-- The place of an operation is the record that it has looked up. Only then it uses USDIO,
with the key of that record. -/
def recordOrder : Typestate AppOp AppOp.Answer (Option PairingData) where
  admits
    | .transport .keyturner c, record => ∃ p, record = some p ∧ c.Seals p.authId p.sharedKey
    | _, _ => True
  next
    | .getPairing, paired, _ => paired
    | .savePairing _, _, _ => none
    | _, _, record => record

section Record

variable {α : Type} {record : Option PairingData} {post : α → Option PairingData → Prop}

/-- Connecting and disconnecting keep the record that was looked up. -/
theorem record_connects {code : AppCode α} (h : code.Connects) :
    recordOrder.Follows (fun _ record' => record' = record) code record := by
  apply follows_of_makes h
  · intro op hConnects
    cases op with
    | transport svc c => cases hConnects
    | _ => trivial
  · intro op result hConnects
    cases op with
    | getPairing => cases hConnects
    | savePairing data => cases hConnects
    | _ => rfl

/-- Code over USDIO that seals with the key of the record uses it as the order asks. -/
theorem record_over {code : Code α} {p : PairingData}
    (h : code.Makes (Call.Seals p.authId p.sharedKey)) :
    recordOrder.Follows (fun _ record => record = some p) (AppCode.over .keyturner code)
      (some p) := by
  have hOver : (AppCode.over .keyturner code).Makes fun op =>
      ∃ c, op = .transport .keyturner c ∧ c.Seals p.authId p.sharedKey :=
    h.inline fun c hSeals => ⟨⟨c, rfl, hSeals⟩, fun _ => trivial⟩
  apply follows_of_makes hOver
  · rintro op ⟨c, rfl, hSeals⟩
    exact ⟨p, rfl, hSeals⟩
  · rintro op result ⟨c, rfl, -⟩
    rfl

/-- Code over GDIO has nothing to do with the record. -/
theorem record_pairing (code : Code α) :
    recordOrder.Follows (fun _ record' => record' = record) (AppCode.over .pairing code)
      record := by
  apply follows_inline
  intro c
  exact ⟨trivial, fun _ => rfl⟩

theorem record_cachePushed (err : Int) (out : Captured) :
    recordOrder.Follows (fun _ _ => True) (cachePushed err out) record := by
  unfold cachePushed
  split
  · split
    · exact ⟨trivial, fun _ => trivial⟩
    · trivial
  · trivial

theorem record_leave (response : Response) :
    recordOrder.Follows (fun _ _ => True) (disconnectFromLock.bind fun _ => .done response)
      record :=
  Follows.bind (record_connects connects_disconnectFromLock) fun _ _ _ => trivial

/-- A pairing does not use USDIO, so it may be made without having looked up a record. -/
theorem record_pairLocked (stack : Leftover) :
    recordOrder.Follows (fun _ _ => True) (pairLocked stack) none := by
  apply Follows.bind (record_connects (connects_connectToLock true))
  intro rc _ hRecord
  subst hRecord
  split
  · trivial
  · apply Follows.goto none trivial fun _ => rfl
    intro ready
    split
    · exact record_leave _
    · apply Follows.bind (record_pairing _)
      intro result _ hRecord
      subst hRecord
      unfold storePaired
      split
      · exact record_leave _
      · apply Follows.goto none trivial fun _ => rfl
        intro addr
        apply Follows.goto none trivial fun _ => rfl
        intro err
        exact record_leave _

/-- The record is looked up before the connection, and the command seals with its key and no
other. -/
theorem record_withPairing {command : PairingData → Code α} {finish : α → AppCode Response}
    (seals : ∀ p, (command p).Makes (Call.Seals p.authId p.sharedKey))
    (finishes : ∀ result record, recordOrder.Follows (fun _ _ => True) (finish result) record) :
    recordOrder.Follows (fun _ _ => True) (withPairing command finish) none := by
  apply Follows.step trivial
  intro paired
  change recordOrder.Follows _ _ paired
  cases paired with
  | none => trivial
  | some p =>
      apply Follows.bind (record_connects (connects_connectToLock false))
      intro rc _ hRecord
      subst hRecord
      split
      · trivial
      · apply Follows.bind (record_over (seals p))
        intro result _ hRecord
        subst hRecord
        apply Follows.bind (record_connects connects_disconnectFromLock)
        intro _ record _
        exact finishes result record

/-- Every operation uses USDIO with the record that it has looked up. -/
theorem record_body (req : Request) :
    recordOrder.Follows (fun _ _ => True) req.body none := by
  obtain ⟨operation, stack⟩ := req
  cases operation with
  | pair => exact record_pairLocked stack
  | getState =>
      apply record_withPairing
      · exact fun p => (orderly_nukiCommandGetState _ _).seals
      · exact fun _ _ => trivial
  | lockAction action =>
      apply record_withPairing
      · exact fun p => (orderly_nukiCommandLockAction _ _ _ _ _).seals
      · intro result record
        apply Follows.bind (record_cachePushed result.1 result.2)
        exact fun _ _ _ => trivial
  | calibrate securityPin =>
      apply record_withPairing
      · exact fun p => (orderly_nukiCommandCalibrate _ _ _).seals
      · exact fun _ _ => trivial

end Record

/-- The record that an operation has looked up stays the one that is stored: only a pairing
replaces it. -/
theorem record_inductive {cond : Condition AppOp AppEvent AppChoice AppState} :
    recordOrder.Inductive bridge cond fun record s =>
      s.Coherent ∧ ∀ p, record = some p → s.pairing = some p where
  event := by
    intro record e s s' inv _ fires
    have effect := inv.1.effect fires
    refine ⟨inv.1.of_effect effect, ?_⟩
    rw [effect.stores.1]
    exact inv.2
  stay := fun _ op choice s s' _ _ _ calls => absurd calls (AppState.call_ne_stay op choice s s')
  answer := by
    intro record op choice s result s' inv _ _ calls
    refine ⟨inv.1.of_call calls, ?_⟩
    cases AppState.called_of_call calls with
    | saved data => exact fun p hRecord => absurd hRecord nofun
    | requested => exact inv.2
    | other _ _ _ _ _ _ pairing _ =>
        rw [pairing]
        cases op with
        | getPairing =>
            cases calls
            exact fun p hRecord => hRecord
        | savePairing data => exact fun p hRecord => absurd hRecord nofun
        | _ => exact inv.2

/-- Whatever is written to USDIO is sealed with the key of the stored record. -/
theorem usdio_sealed {cond : Condition AppOp AppEvent AppChoice AppState}
    {stored : Option PairingData} {req : Request} {s : AppState} {c : Call}
    {next : c.Answer → AppCode Response}
    (reached : Reached cond stored (.busy req ⟨s, .call (.transport .keyturner c) next⟩)) :
    ∃ p, s.pairing = some p ∧ c.Seals p.authId p.sharedKey := by
  obtain ⟨record, ⟨-, hRecord⟩, hOrder, -⟩ := located_of_reaches record_inductive record_body
    (fun _ _ _ _ _ inv => ⟨inv.1, nofun⟩) ⟨AppState.coherent_boot stored, nofun⟩ reached
  obtain ⟨p, hUsed, hSeals⟩ := hOrder
  exact ⟨p, hRecord p hUsed, hSeals⟩

/-- The connection is the one that was there, or a new one to the lock that is looked for. -/
inductive Linked (s s' : AppState) : Prop where
  | gone (link : s'.link = none) (created : s'.created = s.created)
  | same (l l' : Link) (before : s.link = some l) (after : s'.link = some l') (id : l'.id = l.id)
      (addr : l'.addr = l.addr) (created : s'.created = s.created)
  | new (l : Link) (after : s'.link = some l) (id : l.id = s.created)
      (lock : ∀ p, s.pairing = some p → l.addr = p.addr) (created : s'.created = s.created + 1)

/-- Where nothing touches the link, the connection is the one that was there. -/
theorem linked_of_eq {s s' : AppState} (link : s'.link = s.link)
    (created : s'.created = s.created) : Linked s s' := by
  cases hLink : s.link with
  | none => exact .gone (link.trans hLink) created
  | some l => exact .same l l hLink (link.trans hLink) rfl rfl created

/-- A callback makes a new connection only to the lock that is looked for, which is the stored one
if there is one. -/
theorem linked_of_effect {e : AppEvent} {s s' : AppState} (effect : Effect s e s') :
    Linked s s' := by
  cases effect with
  | ignored => exact linked_of_eq rfl rfl
  | refused => simp only [AppState.finishConnectAttempt_eq]; exact linked_of_eq rfl rfl
  | @created addr ad stop owner scans free lock =>
      refine .new _ rfl rfl ?_ rfl
      intro p hPairing
      rw [hPairing] at lock
      exact of_decide_eq_true lock
  | scanEnded =>
      simp only [AppState.scanTimeoutHandler, AppState.finishConnectAttempt_eq]
      exact linked_of_eq rfl rfl
  | unconnected => rw [AppState.finishConnectAttempt_eq]; exact .gone rfl rfl
  | dropped => rw [AppState.finishConnectAttempt_eq]; exact .gone rfl rfl
  | started l svc link => exact .same l _ link rfl rfl rfl rfl
  | gdioDone l link => exact .same l _ link rfl rfl rfl rfl
  | unstarted l link => rw [AppState.finishConnectAttempt_eq]; exact .same l _ link rfl rfl rfl rfl
  | gdioBroken l link => rw [AppState.finishConnectAttempt_eq]; exact .same l _ link rfl rfl rfl rfl
  | usdioDone l link => rw [AppState.finishConnectAttempt_eq]; exact .same l _ link rfl rfl rfl rfl
  | usdioBroken l conn link =>
      rw [AppState.finishConnectAttempt_eq]
      exact .same l _ link rfl rfl rfl rfl
  | usdioFailed l link =>
      rw [AppState.finishConnectAttempt_eq]
      exact .same l _ link rfl rfl rfl rfl

theorem linked_btConnDisconnect (s : AppState) (conn : Option Nat) (rc : Int) :
    Linked s (s.btConnDisconnect conn rc) := by
  cases hLink : s.link with
  | none =>
      have hGone : (s.btConnDisconnect conn rc).link = none := by
        rw [AppState.btConnDisconnect, hLink]
        rfl
      exact .gone hGone rfl
  | some l => exact .same l _ hLink (AppState.btConnDisconnect_link conn rc hLink) rfl rfl rfl

/-- The thread makes no connections. -/
theorem linked_of_move {op : AppOp} {choice : AppChoice} {place place' : Place} {s s' : AppState}
    (move : Move s op choice place place' s') : Linked s s' := by
  cases move with
  | cancel => exact linked_btConnDisconnect s s.gConn _
  | disconnect => exact linked_btConnDisconnect s s.gConn _
  | _ => exact linked_of_eq rfl rfl

/-- An account of the pairings: `g_conn` when the last handshake began, and the peers of all
frames of the handshake that the stored record is from. -/
structure Handshake where
  conn : Option Nat
  peers : List (Option BtAddrLe)

/-- A record that is loaded at boot is one of the lock at its address. -/
def Handshake.loaded (stored : Option PairingData) : Handshake where
  conn := none
  peers := stored.elim [] fun data => [some data.addr]

def handshakes : Observer AppOp AppEvent AppChoice AppState Handshake where
  event := fun _ _ note => note
  call
    | .loadGdioReady, _, s, note => { note with conn := s.gConn }
    | .savePairing _, _, s, note => { note with peers := s.gdioFrames }
    | _, _, _, note => note

/-- The address is read from the connection that the handshake began on, and where the
record is stored, no connection to another address is open. -/
def keptPeer : Condition AppOp AppEvent AppChoice (AppState × Handshake) where
  event := fun _ _ => True
  call
    | .connGetDst, _, s => s.1.gConn = s.2.conn
    | .savePairing data, _, s => ∀ l, s.1.link = some l → l.addr = data.addr
    | _, _, _ => True

/-- An open connection is one to the stored address, which is that of the lock. -/
structure Stored (s : AppState) (note : Handshake) : Prop where
  earlier : ∀ l, s.link = some l → l.id < s.created
  peer : ∀ l p, s.link = some l → s.pairing = some p → l.addr = p.addr
  agreed : ∀ p, s.pairing = some p → ∀ peer ∈ note.peers, peer = some p.addr

/-- The frames of an operation: those of a handshake are all of the peer of `g_conn`, as
long as this is the connection that it began on. -/
def Framed (s : AppState) (note : Handshake) : Place → Prop
  | .onGdio => ∃ id, note.conn = some id ∧ id < s.created ∧ (s.gConn = some id →
      s.gdio.ready = true ∧ ∀ l, s.link = some l → ∀ peer ∈ s.gdioFrames, peer = some l.addr)
  | .addressed addr => ∀ peer ∈ s.gdioFrames, peer = some addr
  | .preparing _ | .scanning | .waiting | .woken | .inUse => s.gdioFrames = []
  | .deciding rc => rc = 0 → s.gdioFrames = []
  | _ => True

/-- At boot there is no connection, and a loaded record counts as one of the lock at its address. -/
theorem stored_boot (stored : Option PairingData) : Stored (.boot stored) (.loaded stored) where
  earlier := nofun
  peer := nofun
  agreed := by
    rintro p hPairing peer hPeer
    obtain rfl : stored = some p := hPairing
    exact List.mem_singleton.mp hPeer

section Handshake

variable {s s' : AppState} {note : Handshake} {place place' : Place}

/-- The stored address stays the address of every open connection while the record stays. -/
theorem Stored.of_linked (h : Stored s note) (linked : Linked s s')
    (pairing : s'.pairing = s.pairing) : Stored s' note where
  earlier := by
    intro l hLink
    cases linked with
    | gone link created => exact absurd (link.symm.trans hLink) nofun
    | same k k' before after id addr created =>
        obtain rfl := Option.some.inj (after.symm.trans hLink)
        rw [id, created]
        exact h.earlier k before
    | new k after id lock created =>
        obtain rfl := Option.some.inj (after.symm.trans hLink)
        rw [id, created]
        exact Nat.lt_succ_self _
  peer := by
    intro l p hLink hPairing
    rw [pairing] at hPairing
    cases linked with
    | gone link created => exact absurd (link.symm.trans hLink) nofun
    | same k k' before after id addr created =>
        obtain rfl := Option.some.inj (after.symm.trans hLink)
        rw [addr]
        exact h.peer k p before hPairing
    | new k after id lock created =>
        obtain rfl := Option.some.inj (after.symm.trans hLink)
        exact lock p hPairing
  agreed := by
    rw [pairing]
    exact h.agreed

/-- Where the record changes, the condition says that no other connection is open, and the frames of
the handshake went to its address. -/
theorem Stored.of_move {op : AppOp} {choice : AppChoice} (h : Stored s note)
    (framed : Framed s note place) (meets : keptPeer.call op choice (s, note))
    (move : Move s op choice place place' s') :
    Stored s' (handshakes.call op choice s note) := by
  have linked := linked_of_move move
  cases move with
  | save data =>
      refine ⟨h.earlier, ?_, ?_⟩
      · intro l p hLink hPairing
        obtain rfl := Option.some.inj hPairing
        exact meets l hLink
      · intro p hPairing
        obtain rfl := Option.some.inj hPairing
        exact framed
  | unready => exact ⟨h.earlier, h.peer, h.agreed⟩
  | ready _ => exact ⟨h.earlier, h.peer, h.agreed⟩
  | _ => exact h.of_linked linked rfl

/-- GDIO stays set up while its connection is there. A callback can only take both away together. -/
theorem gdio_of_effect {e : AppEvent} (coherent : s.Coherent) (effect : Effect s e s')
    (ready : s.gdio.ready = true) : s'.link = none ∨ s'.gdio.ready = true := by
  have hDiscovered {l : Link} (link : s.link = some l) (discovery : l.discovery = some .pairing) :
      s.gdio.ready = false := ((coherent.present l link).discovery _ discovery).2 rfl
  cases effect with
  | gdioDone l link established discovery =>
      exact absurd (ready.symm.trans (hDiscovered link discovery)) (by decide)
  | gdioBroken l link established discovery =>
      exact absurd (ready.symm.trans (hDiscovered link discovery)) (by decide)
  | unconnected => exact Or.inl (by rw [AppState.finishConnectAttempt_eq])
  | dropped => exact Or.inl (by rw [AppState.finishConnectAttempt_eq])
  | _ =>
      apply Or.inr
      simpa only [AppState.scanTimeoutHandler, AppState.finishConnectAttempt_eq]

/-- Frames are sent by the thread alone. A callback can only take away the connection they went
over. -/
theorem Framed.of_effect {e : AppEvent} (h : Framed s note place) (coherent : s.Coherent)
    (effect : Effect s e s') : Framed s' note place := by
  have hFrames : s'.gdioFrames = s.gdioFrames := effect.frame.2.2.2.2
  have coherent' := coherent.of_effect effect
  cases place with
  | onGdio =>
      obtain ⟨id, hNote, hEarlier, hKept⟩ := h
      have hGone (hLink : s'.link = none) : s'.gConn ≠ some id := by
        rw [(coherent'.absent hLink).1]
        exact nofun
      cases linked_of_effect effect with
      | gone link created =>
          exact ⟨id, hNote, created ▸ hEarlier, fun hConn => absurd hConn (hGone link)⟩
      | new l after hId lock created =>
          refine ⟨id, hNote, created ▸ Nat.lt_succ_of_lt hEarlier, fun hConn => ?_⟩
          -- a new connection has a new object
          have hSame : l.id = id :=
            Option.some.inj ((coherent'.present l after).conn.symm.trans hConn)
          exact absurd (hId.symm.trans hSame) hEarlier.ne'
      | same l l' before after hId addr created =>
          refine ⟨id, hNote, created ▸ hEarlier, fun hConn => ?_⟩
          have hBefore : s.gConn = some id := by
            rw [(coherent.present l before).conn, ← hId, ← (coherent'.present l' after).conn]
            exact hConn
          obtain ⟨hReady, hPeers⟩ := hKept hBefore
          refine ⟨(gdio_of_effect coherent effect hReady).resolve_left ?_, ?_⟩
          · rw [after]
            exact nofun
          · intro k hLink
            obtain rfl := Option.some.inj (after.symm.trans hLink)
            rw [hFrames, addr]
            exact hPeers l before
  | addressed addr =>
      rw [Framed, hFrames]
      exact h
  | preparing done => exact hFrames.trans h
  | scanning => exact hFrames.trans h
  | waiting => exact hFrames.trans h
  | woken => exact hFrames.trans h
  | deciding rc => exact fun hErr => hFrames.trans (h hErr)
  | inUse => exact hFrames.trans h
  | _ => trivial

/-- Each frame goes over `g_conn`, so its peer is that of the connection the handshake began on, as
long as this has not been replaced. -/
theorem Framed.of_move {op : AppOp} {choice : AppChoice} (h : Framed s note place)
    (coherent : s.Coherent) (stored : Stored s note)
    (meets : keptPeer.call op choice (s, note)) (move : Move s op choice place place' s') :
    Framed s' (handshakes.call op choice s note) place' := by
  cases move with
  | begin => rfl
  | resetSem => exact h
  | resetErr => exact h
  | setNeed _ => exact h
  | start => exact h
  | refused error => exact fun hErr => absurd hErr error
  | scan _ => exact h
  | schedule => exact h
  | woken _ => exact h
  | result => exact fun _ => h
  | unheld _ => exact fun hErr => absurd hErr (by decide)
  | cancel => exact fun hErr => absurd hErr (by decide)
  | opened => exact h rfl
  | unready => exact h
  | ready ready =>
      have hNone : s.gdioFrames = [] := h
      cases hLink : s.link with
      | none => exact absurd ((coherent.absent hLink).2.2.1.symm.trans ready) (by decide)
      | some l =>
          refine ⟨l.id, (coherent.present l hLink).conn, stored.earlier l hLink, fun _ => ?_⟩
          refine ⟨ready, fun k _ peer hPeer => ?_⟩
          rw [hNone] at hPeer
          exact absurd hPeer List.not_mem_nil
  | command _ => exact h
  | handshake c peers exchanged =>
      obtain ⟨id, hNote, hEarlier, hKept⟩ := h
      refine ⟨id, hNote, hEarlier, fun hConn => ?_⟩
      obtain ⟨hReady, hPeers⟩ := hKept hConn
      refine ⟨hReady, fun l hLink => ?_⟩
      exact coherent.peers_exchanged hLink hReady (hPeers l hLink) exchanged
  | address =>
      obtain ⟨id, hNote, -, hKept⟩ := h
      have hConn : s.gConn = some id := meets.trans hNote
      cases hLink : s.link with
      | none =>
          exact absurd (hConn.symm.trans (coherent.absent hLink).1) (Option.some_ne_none id)
      | some l =>
          rw [coherent.peer_gConn hLink]
          exact (hKept hConn).2 l hLink
  | save _ => trivial
  | closed _ _ => trivial
  | leave _ _ => trivial
  | _ => trivial

end Handshake

/-- The invariant of all three parts, in every run under the condition. -/
theorem kept_inductive :
    appOrder.Inductive (bridge.observed handshakes) keptPeer fun place s =>
      s.1.Coherent ∧ Stored s.1 s.2 ∧ Framed s.1 s.2 place := by
  have hCoherent : appOrder.Inductive (bridge.observed handshakes) keptPeer fun _ s =>
      s.1.Coherent :=
    (@coherent_inductive .free).observed.mono (fun _ _ _ => trivial) fun _ _ _ _ => trivial
  apply hCoherent.and
  · intro place e s s' coherent _ inv _ fires
    obtain ⟨hFires, hNote⟩ := Machine.observed_event.mp fires
    have effect := coherent.effect hFires
    rw [← hNote]
    exact ⟨inv.1.of_linked (linked_of_effect effect) effect.stores.1,
      inv.2.of_effect coherent effect⟩
  · intro place op choice s s' _ _ _ _ _ calls
    exact absurd (Machine.observed_stay.mp calls).1 (AppState.call_ne_stay op choice s.1 s'.1)
  · intro place op choice s result s' coherent _ inv admitted meets calls
    obtain ⟨hCalls, hNote⟩ := Machine.observed_answer.mp calls
    have move := AppState.move_of_call admitted hCalls
    rw [← hNote]
    exact ⟨inv.1.of_move inv.2 meets move, inv.2.of_move coherent inv.1 meets move⟩

/-- A peer that is known is the peer of the link. -/
theorem link_of_peer {s : AppState} {conn : Option Nat} {addr : BtAddrLe}
    (h : s.peer conn = some addr) : ∃ l, s.link = some l ∧ addr = l.addr := by
  rw [AppState.peer] at h
  split at h
  · rename_i l hLink
    split at h
    · exact ⟨l, hLink, (Option.some.inj h).symm⟩
    · cases h
  · cases h

/-- In every run in which the record is stored for the connection of its handshake, an open
connection has the stored address, which is that of every frame of this handshake; and what
is written to USDIO is sealed with the key of the stored record and goes to that lock. -/
theorem commands_reach_lock {stored : Option PairingData}
    {stage : Stage AppOp AppOp.Answer (AppState × Handshake) Request Response}
    (reached : (bridgeServer.observed handshakes).Reaches keptPeer
      (.boot stored, .loaded stored) stage) :
    (∀ p, stage.state.1.pairing = some p →
      (∀ conn, stage.state.1.gConn = some conn → stage.state.1.peer (some conn) = some p.addr) ∧
        ∀ peer ∈ stage.state.2.peers, peer = some p.addr) ∧
      ∀ req c data next, stage = .busy req c →
        c.thread = .call (.transport .keyturner (.btGattWrite data)) next →
        ∃ p, c.state.1.pairing = some p ∧ SealedWith p.authId p.sharedKey data ∧
          ∀ addr, c.state.1.peer c.state.1.usdio.conn = some addr → addr = p.addr := by
  obtain ⟨place, coherent, hStored, -⟩ := (located_of_reaches kept_inductive follows_body
    (fun _ _ _ _ _ inv => ⟨inv.1, inv.2.1, trivial⟩)
    ⟨AppState.coherent_boot stored, stored_boot stored, trivial⟩ reached).holds
  constructor
  · intro p hPairing
    refine ⟨?_, hStored.agreed p hPairing⟩
    intro conn hConn
    cases hLink : stage.state.1.link with
    | none => exact absurd ((coherent.absent hLink).1.symm.trans hConn) nofun
    | some l => rw [← hConn, coherent.peer_gConn hLink, hStored.peer l p hLink hPairing]
  · rintro req ⟨s, thread⟩ data next rfl rfl
    have hReached : Reached .free stored (.busy req ⟨s.1, _⟩) :=
      (reached.mono (fun _ _ _ => trivial) fun _ _ _ _ => trivial).unobserved
    obtain ⟨p, hPairing, hSeals⟩ := usdio_sealed hReached
    refine ⟨p, hPairing, hSeals, ?_⟩
    intro addr hPeer
    obtain ⟨l, hLink, rfl⟩ := link_of_peer hPeer
    exact hStored.peer l p hLink hPairing

/-- A bridge that is paired connects for an operation over USDIO. -/
theorem runs_withPairing {α : Type} (command : PairingData → Code α)
    (finish : α → AppCode Response) :
    ∃ s more, bridge.Runs untilHandshake ⟨.boot (some default), withPairing command finish⟩
        ⟨s, (AppCode.over .keyturner (command default)).bind more⟩ ∧
      s.pairing = some default ∧ s.gConn = some 0 ∧
        s.peer s.usdio.conn = some (default : PairingData).addr := by
  let connected : Int → AppCode Response := fun err =>
    if err ≠ 0 then .done ⟨err, none⟩
    else (AppCode.over .keyturner (command default)).bind fun result =>
      disconnectFromLock.bind fun _ => finish result
  obtain ⟨s, hConnects, hState⟩ :
      ∃ s, bridge.Runs untilHandshake
          ⟨.boot (some default), (connectToLock false).bind connected⟩ ⟨s, connected 0⟩ ∧
        s.pairing = some default ∧ s.gConn = some 0 ∧
          s.peer s.usdio.conn = some (default : PairingData).addr :=
    ⟨_, Machine.runs_of_replay
      (List.replicate 7 (.thread .plain) ++ [.event (.findsLock default),
        .event (.connected 0 0), .event (.usdioDiscovered true 0)] ++
          List.replicate 3 (.thread .plain))
      (of_decide_eq_true rfl) rfl, rfl, rfl, rfl⟩
  exact ⟨s, _, .head (.answer AppChoice.plain _ rfl rfl) hConnects, hState⟩

/-- The linked code up to what the command writes first, which is enough to compare its bytes. -/
theorem link_nukiCommandGetState (stack : Received) (authId : UInt32) (sharedKey : Bytes 32)
    (before : KeyturnerState) :
    ∃ next : Bytes 24 → Int → Code (Int × KeyturnerState),
      (nukiCommandGetState stack authId sharedKey before).link =
        .call (.sysRandGet nukiNonceLen) fun nonce => .call .resetWriteSem fun _ =>
          .call (.btGattWrite (wireMessage nonce sharedKey authId Cmd.requestData
            (sysPutLe16 Cmd.keyturnerStates))) (next nonce) := by
  rw [nukiCommandGetState, sendEncrypted_eq authId sharedKey Cmd.requestData (by decide)]
  exact ⟨_, rfl⟩

/-- The bridge is paired at boot and fetches a state: the request is sealed with the key of
the stored record, and goes to the stored address. -/
theorem commands_reach_lock_paired :
    ∃ req s note data next, (bridgeServer.observed handshakes).Reaches keptPeer
        (.boot (some default), .loaded (some default))
        (.busy req ⟨(s, note), .call (.transport .keyturner (.btGattWrite data)) next⟩) ∧
      s.pairing = some default ∧ s.gConn = some 0 ∧
      s.peer (some 0) = some (default : PairingData).addr ∧
      s.peer s.usdio.conn = some (default : PairingData).addr ∧
      SealedWith (default : PairingData).authId (default : PairingData).sharedKey data := by
  let req : Request := ⟨.getState, .zero⟩
  obtain ⟨s, more, hConnects, hPairing, hConn, hPeer⟩ := runs_withPairing
    (fun p => (nukiCommandGetState (Leftover.zero.received 0) p.authId p.sharedKey
      Leftover.zero.state).link)
    fun result => .done ⟨result.1, some result.2⟩
  obtain ⟨next, hLink⟩ := link_nukiCommandGetState (Leftover.zero.received 0)
    (default : PairingData).authId (default : PairingData).sharedKey Leftover.zero.state
  rw [hLink] at hConnects
  have hStart : Reached untilHandshake (some default)
      (.busy req ⟨.boot (some default), getStateLocked .zero⟩) := .request .start req
  have hWrites := ((hStart.runs hConnects).step (.answer AppChoice.plain _ rfl rfl)).step
    (.answer AppChoice.plain _ rfl rfl)
  obtain ⟨stage, hStage, hObserved⟩ : ∃ stage, Stage.unobserved stage = _ ∧
      (bridgeServer.observed handshakes).Reaches untilHandshake.observed
        (.boot (some default), .loaded (some default)) stage := Server.Reaches.observed hWrites
  have hMeets (op : AppOp) (choice : AppChoice) (s : AppState × Handshake)
      (h : untilHandshake.observed.call op choice s) : keptPeer.call op choice s := by
    cases op with
    | connGetDst => cases h
    | savePairing data => cases h
    | _ => trivial
  have hReached := hObserved.mono (fun _ _ _ => trivial) hMeets
  cases stage with
  | idle s => cases hStage
  | busy _ c =>
      obtain ⟨⟨_, note⟩, _⟩ := c
      cases hStage
      obtain ⟨hOpen, hUsed⟩ := commands_reach_lock hReached
      obtain ⟨p, hStored, hSeals, -⟩ := hUsed _ _ _ _ rfl rfl
      obtain rfl := Option.some.inj (hStored.symm.trans hPairing)
      have hKnown := (hOpen default hStored).1 0 hConn
      exact ⟨_, _, _, _, _, hReached, hStored, hConn, hKnown, hPeer, hSeals⟩

/-- Two pairings with two locks in reach, up to the handshake of the second, and its end. The
first gives up while the services of the first lock are discovered, and leaves that link
behind; the second ends when they are, with the scanner still on. The link is lost when the
address has been read, and the scanner finds the other lock. -/
theorem runs_inherited (more : Int → AppCode Response) :
    ∃ s t, bridge.Runs .free ⟨.boot none, pairLocked .zero⟩ ⟨s, .done ⟨-etimedout, none⟩⟩ ∧
      bridge.Runs .free ⟨s, (connectToLock true).bind more⟩ ⟨t, more 0⟩ ∧
      t.gdio.ready = true ∧ t.peer t.gdio.conn = some default ∧ t.gdioPeer = some default ∧
      ∀ frames data, ∃ u code,
        bridge.Runs .free ⟨{ t with gdioFrames := frames }, storePaired 0 data⟩ ⟨u, code⟩ ∧
          u.pairing = some { data with addr := default } ∧ u.gConn = some 1 ∧
          u.peer (some 1) = some ⟨1, default⟩ :=
  ⟨_, _, Machine.runs_of_replay
    (List.replicate 6 (.thread .plain) ++ [.event (.findsLock default), .thread .plain,
      .event (.connected 0 0), .event (.scanTimeout (-120))] ++ List.replicate 3 (.thread .plain))
    (Machine.meets_free _ _) rfl,
    Machine.runs_of_replay
      (List.replicate 7 (.thread .plain) ++ [.event (.gdioDiscovered true 0 0),
        .event (.usdioDiscovered true 0)] ++ List.replicate 3 (.thread .plain))
      (Machine.meets_free _ _) rfl,
    rfl, rfl, rfl, fun _ _ => ⟨_, _, Machine.runs_of_replay
      [.thread .plain, .event .disconnected, .event (.findsLock ⟨1, default⟩), .thread .plain]
      (Machine.meets_free _ _) rfl, rfl, rfl, rfl⟩⟩

/-- The record of one lock is stored while the connection is one to another lock. -/
theorem other_lock_connected :
    ∃ stage p conn, Reached .free none stage ∧ stage.state.pairing = some p ∧
      stage.state.gConn = some conn ∧ stage.state.peer (some conn) ≠ some p.addr := by
  let req : Request := ⟨.pair, .zero⟩
  obtain ⟨more, hCode, -, hMore⟩ := pairLocked_connects .zero
  obtain ⟨s, t, hFirst, hConnects, hReady, hPeer, hGdioPeer, hStores⟩ := runs_inherited more
  rw [← hCode, hMore] at hConnects
  obtain ⟨count, data, -, hExchanges⟩ := runs_pairConnected hReady hPeer hGdioPeer
  obtain ⟨u, code, hSaves, hPairing, hConn, hOther⟩ :=
    hStores (t.gdioFrames ++ List.replicate count (some default)) data
  have hStart : Reached .free none (.busy req ⟨.boot none, pairLocked .zero⟩) :=
    .request .start req
  have hSecond : Reached .free none (.busy req ⟨s, pairLocked .zero⟩) :=
    .request (.finish (hStart.runs hFirst)) req
  have hPaired := (hSecond.runs hConnects).runs
    (hExchanges.mono (fun _ _ _ => trivial) fun _ _ _ _ => trivial)
  refine ⟨_, _, 1, hPaired.runs hSaves, hPairing, hConn, ?_⟩
  show u.peer (some 1) ≠ some default
  rw [hOther]
  decide

end NukiBridge

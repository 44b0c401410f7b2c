import NukiBridge.App.Connection
import NukiBridge.Pairing.Ceremony

/-! The address in the pairing record. It is read from `g_conn` after the handshake; if
the link was not lost in between, it is that of the peer of every frame. -/
namespace NukiBridge

open Buffer Interaction Typestate

/-- The link is not lost when the address is read. -/
def linkedAddress : Condition AppOp AppEvent AppChoice AppState where
  event := fun _ _ => True
  call := fun op _ s => op = .connGetDst → s.lost = false

namespace AppState

/-- The peer of the handshake: of its frames so far, and of the address. -/
def Exchanged (s : AppState) : Place → Prop
  | .onGdio => s.lost = true ∨ ∃ l, s.link = some l ∧ s.gdio.ready = true ∧
      ∀ peer ∈ s.gdioFrames, peer = some l.addr
  | .addressed addr => ∀ peer ∈ s.gdioFrames, peer = some addr
  | .preparing _ => s.gdioFrames = []
  | .scanning => s.gdioFrames = []
  | .waiting => s.gdioFrames = []
  | .woken => s.gdioFrames = []
  | .deciding rc => rc = 0 → s.gdioFrames = []
  | .inUse => s.gdioFrames = []
  | _ => True

/-- A link that is there stays with its peer until it is lost. -/
theorem link_of_effect {e : AppEvent} {s s' : AppState} {l : Link} (link : s.link = some l)
    (effect : Effect s e s') : s'.lost = true ∨ ∃ l', s'.link = some l' ∧ l'.addr = l.addr := by
  cases effect with
  | refused _ free _ => exact absurd (free.symm.trans link) nofun
  | created _ free _ => exact absurd (free.symm.trans link) nofun
  | _ => simp_all [scanTimeoutHandler, finishConnectAttempt_eq]

/-- A callback leaves the frames of the handshake alone. It may take the link away, but it cannot
put another one in its place during the attempt. -/
theorem Exchanged.of_effect {place : Place} {e : AppEvent} {s s' : AppState}
    (h : s.Exchanged place) (coherent : s.Coherent) (effect : Effect s e s') :
    s'.Exchanged place := by
  have hFrames : s'.gdioFrames = s.gdioFrames := effect.frame.2.2.2.2
  have hDrift := effect.drift coherent
  cases place with
  | onGdio =>
      rcases h with hLost | ⟨l, hLink, hReady, hPeers⟩
      · exact Or.inl (hDrift.lost hLost)
      · rcases link_of_effect hLink effect with hLost | ⟨l', hLink', hAddr⟩
        · exact Or.inl hLost
        · rcases hDrift.gdio hReady with hLost | hReady'
          · exact Or.inl hLost
          · refine Or.inr ⟨l', hLink', hReady', ?_⟩
            rw [hFrames, hAddr]
            exact hPeers
  | addressed addr =>
      rw [Exchanged, hFrames]
      exact h
  | preparing done => exact hFrames.trans h
  | scanning => exact hFrames.trans h
  | waiting => exact hFrames.trans h
  | woken => exact hFrames.trans h
  | deciding rc => exact fun hErr => hFrames.trans (h hErr)
  | inUse => exact hFrames.trans h
  | _ => trivial

/-- `g_conn` is a connection to the peer of the link. -/
theorem Coherent.peer_gConn {s : AppState} {l : Link} (coherent : s.Coherent)
    (link : s.link = some l) : s.peer s.gConn = some l.addr := by
  rw [peer, link]
  exact if_pos (coherent.present l link).conn

/-- So is everything that is exchanged over GDIO once it is set up. -/
theorem Coherent.peers_exchanged {s : AppState} {l : Link} {before peers : List (Option BtAddrLe)}
    (coherent : s.Coherent) (link : s.link = some l) (ready : s.gdio.ready = true)
    (known : ∀ peer ∈ before, peer = some l.addr)
    (exchanged : ∀ peer ∈ peers, peer = s.peer s.gdio.conn ∨ peer = s.gdioPeer) :
    ∀ peer ∈ before ++ peers, peer = some l.addr := by
  obtain ⟨hConn, hPeer⟩ := (coherent.present l link).gdio ready
  have hKnown : s.peer s.gdio.conn = some l.addr := by
    rw [hConn, ← (coherent.present l link).conn, coherent.peer_gConn link]
  intro peer hMem
  rcases List.mem_append.mp hMem with hBefore | hNow
  · exact known peer hBefore
  · rcases exchanged peer hNow with hWritten | hRead
    · exact hWritten.trans hKnown
    · exact hRead.trans hPeer

/-- Each frame of the handshake goes to the peer of the link, and so does the question for its
address, as long as the link is there. -/
theorem Exchanged.of_move {op : AppOp} {choice : AppChoice} {place place' : Place}
    {s s' : AppState} (h : s.Exchanged place) (coherent : s.Coherent)
    (linked : linkedAddress.call op choice s) (move : Move s op choice place place' s') :
    s'.Exchanged place' := by
  cases move with
  | begin => rfl
  | resetSem => exact h
  | resetErr => exact h
  | setNeed _ => exact h
  | start => exact h
  | refused error => exact fun hErr => absurd hErr error
  | scan _ => exact h
  | schedule => exact h
  | woken _ => exact h
  | result => exact fun _ => h
  | unheld _ => exact fun hErr => absurd hErr (by decide)
  | cancel => exact fun hErr => absurd hErr (by decide)
  | opened => exact h rfl
  | unready => exact h
  | ready ready =>
      cases hLink : s.link with
      | none => exact absurd ((coherent.absent hLink).2.2.1.symm.trans ready) (by decide)
      | some l =>
          refine Or.inr ⟨l, hLink, ready, ?_⟩
          intro peer hPeer
          rw [show s.gdioFrames = [] from h] at hPeer
          exact absurd hPeer List.not_mem_nil
  | command _ => exact h
  | handshake c peers exchanged =>
      rcases h with hLost | ⟨l, hLink, hReady, hPeers⟩
      · exact Or.inl hLost
      · refine Or.inr ⟨l, hLink, hReady, ?_⟩
        exact coherent.peers_exchanged hLink hReady hPeers exchanged
  | address =>
      rcases h with hLost | ⟨l, hLink, -, hPeers⟩
      · exact absurd ((linked rfl).symm.trans hLost) (by decide)
      · rw [coherent.peer_gConn hLink]
        exact hPeers
  | save _ => trivial
  | closed _ _ => trivial
  | leave _ _ => trivial
  | _ => trivial

end AppState

/-- The frames so far and the address have one peer, in every run in which the link is there when
the address is read. -/
theorem exchanged_inductive :
    appOrder.Inductive bridge linkedAddress fun place s => s.Coherent ∧ s.Exchanged place := by
  apply inductive_over coherent_inductive fun _ _ coherent => coherent
  · intro place e s s' coherent inv meets effect
    exact inv.of_effect coherent effect
  · intro op choice place place' s s' coherent inv meets move
    exact inv.of_move coherent meets move

/-- In every run in which the link is not lost when the address is read, a pairing record
that is stored has the address of the peer of every frame of its handshake. -/
theorem pairing_address {stored : Option PairingData} {req : Request} {s : AppState}
    {data : PairingData} {next : Int → AppCode Response}
    (reached : Reached linkedAddress stored (.busy req ⟨s, .call (.savePairing data) next⟩)) :
    ∀ peer ∈ s.gdioFrames, peer = some data.addr := by
  obtain ⟨place, ⟨-, exchanged⟩, order⟩ := located_of_reached exchanged_inductive
    ⟨AppState.coherent_boot stored, trivial⟩
    (fun _ _ _ _ inv => ⟨inv.1, trivial⟩) reached
  cases order.1 with
  | save => exact exchanged

/-! A pairing in which everything succeeds, up to the end of the handshake. -/

/-- The steps that come after the handshake. -/
def AppOp.storesPairing : AppOp → Bool
  | .connGetDst => true
  | .savePairing _ => true
  | _ => false

def untilHandshake : Condition AppOp AppEvent AppChoice AppState where
  event := fun _ _ => True
  call := fun op _ _ => op.storesPairing = false

instance (e : AppEvent) (s : AppState) : Decidable (untilHandshake.event e s) := isTrue trivial

instance (op : AppOp) (choice : AppChoice) (s : AppState) :
    Decidable (untilHandshake.call op choice s) :=
  inferInstanceAs (Decidable (op.storesPairing = false))

/-- The lock answers with zeros, which is also what PSA Crypto computes. -/
def Ceremony.smooth : Ceremony where
  rand := fun _ _ => default
  write := fun _ => ⟨0, 0, 0⟩
  rx
    | 0 => plainFrame Cmd.publicKey (default : Bytes 32).val
    | 1 => plainFrame Cmd.challenge (default : Bytes 32).val
    | 2 => plainFrame Cmd.challenge (default : Bytes 32).val
    | 3 => plainFrame Cmd.authId (default : Bytes 84).val
    | _ => plainFrame Cmd.status [statusComplete]
  init := psaSuccess
  generate := psaSuccess
  privKey := ⟨psaSuccess, default, 32⟩
  pubKey := ⟨psaSuccess, default, 32⟩
  importKey := fun _ => psaSuccess
  dh := fun _ _ => default
  agreed := (psaSuccess, 32)
  hmac := fun _ _ => default
  mac := fun _ => (psaSuccess, 32)
  destroy := fun _ => psaSuccess

/-- This pairing returns 0 after its five frames. -/
theorem Ceremony.run_smooth (stack : (n : Nat) → Bytes n) (out : PairingData) :
    ∃ data t, (nukiPairingRun stack out).run smooth.answer start = ((0, data), t) ∧
      t.sent = smooth.frames := by
  obtain ⟨⟨⟨err, data⟩, t⟩, hRun⟩ :
      ∃ result, result = (nukiPairingRun stack out).run smooth.answer start := ⟨_, rfl⟩
  obtain ⟨s', h⟩ := smooth.does_pairingSteps stack
  obtain ⟨hZero, -, hSuccess, -⟩ := smooth.run_nukiPairingRun stack out hRun h
  have hPub : smooth.payload 0 32 = default := smooth.payload_eq List.prefix_rfl
  have hChallenge1 : smooth.payload 1 32 = default := smooth.payload_eq List.prefix_rfl
  have hChallenge2 : smooth.payload 2 32 = default := smooth.payload_eq List.prefix_rfl
  have hAuthId : smooth.payload 3 84 = default := smooth.payload_eq List.prefix_rfl
  have hWorks : err = 0 := by
    apply hZero.mpr
    refine ⟨fun _ _ => rfl, ?_, ?_, ?_, ?_, ⟨?_, ?_⟩, List.prefix_rfl⟩
    · exact ⟨rfl, rfl, ⟨rfl, rfl⟩, ⟨rfl, rfl⟩, fun _ _ => rfl, ⟨rfl, rfl⟩, fun _ _ => ⟨rfl, rfl⟩⟩
    · rw [slPub, hPub]
      exact List.prefix_rfl
    · rw [challenge1, hChallenge1]
      exact List.prefix_rfl
    · rw [challenge2, hChallenge2]
      exact List.prefix_rfl
    · rw [authIdPayload, hAuthId]
      exact List.prefix_rfl
    · rw [authIdPayload, hAuthId]
      rfl
  subst hWorks
  exact ⟨data, t, hRun.symm, (hSuccess rfl).1⟩

/-- Code over GDIO runs against any environment that answers its calls; every frame is
one of the peer that GDIO is set up with. -/
theorem runs_over_gdio {α β : Type} (env : Ceremony) (code : Code α) {t t' : Ceremony.Stage}
    {result : α} (runs : code.run env.answer t = (result, t')) {s : AppState} {addr : BtAddrLe}
    (conn : s.peer s.gdio.conn = some addr) (peer : s.gdioPeer = some addr)
    (more : α → AppCode β) :
    ∃ count, t'.sent.length ≤ t.sent.length + count ∧
      bridge.Runs untilHandshake ⟨s, (AppCode.over .pairing code).bind more⟩
        ⟨{ s with gdioFrames := s.gdioFrames ++ List.replicate count (some addr) },
          more result⟩ := by
  induction code generalizing t s with
  | done result =>
      cases runs
      refine ⟨0, le_rfl, ?_⟩
      rw [List.replicate_zero, List.append_nil]
      exact .refl _
  | call c next ih =>
      let choice : AppChoice := { AppChoice.plain with answer := fun c => (env.answer c t).1 }
      have hRest (count : Nat) (grows : (env.answer c t).2.sent.length ≤ t.sent.length + count)
          (h : s.call (.transport .pairing c) choice = some (.answer (env.answer c t).1
            { s with gdioFrames := s.gdioFrames ++ List.replicate count (some addr) })) :
          ∃ count, t'.sent.length ≤ t.sent.length + count ∧
            bridge.Runs untilHandshake ⟨s, (AppCode.over .pairing (.call c next)).bind more⟩
              ⟨{ s with gdioFrames := s.gdioFrames ++ List.replicate count (some addr) },
                more result⟩ := by
        obtain ⟨later, hCount, hRuns⟩ := ih (env.answer c t).1 runs
          (s := { s with gdioFrames := s.gdioFrames ++ List.replicate count (some addr) })
          conn peer
        simp only [List.append_assoc, List.replicate_append_replicate] at hRuns
        refine ⟨count + later, by omega, .head (.answer choice _ rfl h) hRuns⟩
      have hNone : { s with gdioFrames := s.gdioFrames ++ List.replicate 0 (some addr) } = s := by
        rw [List.replicate_zero, List.append_nil]
      cases c with
      | btGattWrite data =>
          apply hRest 1
          · simp [Ceremony.answer]
          · simp only [AppState.call, conn]
            rfl
      | peek len =>
          apply hRest 1
          · simp [Ceremony.answer]
          · simp only [AppState.call, peer]
            rfl
      | _ =>
          apply hRest 0
          · simp [Ceremony.answer]
          · rw [hNone]
            rfl

/-- A call of `connect_to_lock` from boot that succeeds: the lock is found by its name and
both services are discovered. -/
theorem runs_connectToLock (more : Int → AppCode Response) :
    ∃ s, bridge.Runs untilHandshake ⟨.boot none, (connectToLock true).bind more⟩ ⟨s, more 0⟩ ∧
      s.gdio = ⟨some 0, true⟩ ∧ s.gdioPeer = some default ∧ s.gConn = some 0 ∧
      s.link = some ⟨0, default, true, false, none, 1⟩ ∧ s.lost = false ∧ s.settings = none :=
  ⟨_, Machine.runs_of_replay
    (List.replicate 7 (.thread .plain) ++
      [.event (.findsLock default),
        .event (.connected 0 0), .event (.gdioDiscovered true 0 0),
        .event (.usdioDiscovered true 0)] ++ List.replicate 3 (.thread .plain))
    (of_decide_eq_true rfl) rfl, rfl, rfl, rfl, rfl, rfl, rfl⟩

/-- What `pair_locked` does once it is connected. -/
def pairConnected (stack : Leftover) : AppCode Response :=
  (AppCode.of .loadGdioReady).bind fun ready =>
    if ready = false then disconnectFromLock.bind fun _ => .done ⟨-enotsup, none⟩
    else (AppCode.over .pairing (nukiPairingRun stack.bytes stack.data)).bind fun result =>
      storePaired result.1 result.2

/-- What `pair_locked` does with the result of `connect_to_lock`. -/
theorem pairLocked_connects (stack : Leftover) :
    ∃ more, pairLocked stack = (connectToLock true).bind more ∧
      (∀ err, err ≠ 0 → more err = .done ⟨err, none⟩) ∧ more 0 = pairConnected stack :=
  ⟨_, rfl, fun _ hErr => if_pos hErr, if_neg (by decide)⟩

/-- With GDIO set up over the connection, the handshake succeeds. -/
theorem runs_pairConnected {s : AppState} {addr : BtAddrLe} (ready : s.gdio.ready = true)
    (conn : s.peer s.gdio.conn = some addr) (peer : s.gdioPeer = some addr) :
    ∃ count data, 0 < count ∧ bridge.Runs untilHandshake ⟨s, pairConnected .zero⟩
      ⟨{ s with gdioFrames := s.gdioFrames ++ List.replicate count (some addr) },
        storePaired 0 data⟩ := by
  obtain ⟨data, t, hRun, hSent⟩ := Ceremony.run_smooth Leftover.zero.bytes Leftover.zero.data
  obtain ⟨count, hCount, hRuns⟩ := runs_over_gdio .smooth _ hRun conn peer fun result =>
    storePaired result.1 result.2
  refine ⟨count, data, ?_, .head (.answer AppChoice.plain _ rfl rfl) ?_⟩
  · rw [hSent] at hCount
    exact Nat.lt_of_lt_of_le (by decide : 0 < 5) (hCount.trans_eq (Nat.zero_add count))
  · rw [ready]
    exact hRuns

/-- The first operation is a pairing, and its handshake succeeds with the link still up. -/
theorem runs_handshake :
    ∃ s data, bridge.Runs untilHandshake ⟨.boot none, pairLocked .zero⟩ ⟨s, storePaired 0 data⟩ ∧
      s.gConn = some 0 ∧ s.link = some ⟨0, default, true, false, none, 1⟩ ∧ s.lost = false ∧
      some default ∈ s.gdioFrames ∧ s.settings = none := by
  obtain ⟨more, hCode, -, hMore⟩ := pairLocked_connects .zero
  obtain ⟨s, hConnects, hGdio, hGdioPeer, hConn, hLink, hLost, hSettings⟩ :=
    runs_connectToLock more
  rw [← hCode, hMore] at hConnects
  have hReady : s.gdio.ready = true := by rw [hGdio]
  have hPeer : s.peer s.gdio.conn = some default := by
    rw [AppState.peer, hLink, hGdio]
    rfl
  obtain ⟨count, data, hFrames, hRuns⟩ := runs_pairConnected hReady hPeer hGdioPeer
  refine ⟨_, data, hConnects.trans hRuns, hConn, hLink, hLost, ?_, hSettings⟩
  exact List.mem_append_right _ (List.mem_replicate.mpr ⟨hFrames.ne', rfl⟩)

/-- With the link up, the record that is stored has the address of its peer. -/
theorem pairing_address_default :
    ∃ req s data next,
      Reached linkedAddress none (.busy req ⟨s, .call (.savePairing data) next⟩) ∧
        some default ∈ s.gdioFrames ∧ some default = some data.addr := by
  obtain ⟨s, data, hRuns, -, -, hLost, hFrame, -⟩ := runs_handshake
  have hStart : Reached linkedAddress none (.busy ⟨.pair, .zero⟩ ⟨.boot none, pairLocked .zero⟩) :=
    .request .start _
  have hMeets (op : AppOp) (choice : AppChoice) (s : AppState)
      (h : untilHandshake.call op choice s) : linkedAddress.call op choice s := by
    intro hOp
    subst hOp
    cases h
  have hReached := hStart.runs (hRuns.mono (fun _ _ _ => trivial) hMeets)
  have hSaves := hReached.step (.answer AppChoice.plain _ (fun _ => hLost) rfl)
  exact ⟨_, s, _, _, hSaves, hFrame, pairing_address hSaves _ hFrame⟩

/-- A null pointer has no peer. `bt_conn_get_dst` on it is what the condition excludes. -/
theorem AppState.peer_none (s : AppState) : s.peer none = none := by
  unfold peer
  split
  · exact if_neg nofun
  · rfl

/-- The lock closes the link after the handshake: the address is read through a null
pointer, and the record that is stored has whatever stands there. -/
theorem pairing_address_of_null :
    ∃ req s data next, Reached .free none (.busy req ⟨s, .call (.savePairing data) next⟩) ∧
      ∃ peer ∈ s.gdioFrames, peer ≠ some data.addr := by
  obtain ⟨s, data, hRuns, hConn, hLink, -, hFrame, -⟩ := runs_handshake
  let garbage : BtAddrLe := ⟨1, default⟩
  let link : Link := ⟨0, default, true, false, none, 1⟩
  have hStart : Reached .free none (.busy ⟨.pair, .zero⟩ ⟨.boot none, pairLocked .zero⟩) :=
    .request .start _
  have hReached := hStart.runs (hRuns.mono (fun _ _ _ => trivial) fun _ _ _ _ => trivial)
  have hFires : bridge.event .disconnected s = some (s.disconnected link) := by
    show s.event .disconnected = _
    rw [AppState.event, AppState.reports, hLink]
    rfl
  have hDropped := hReached.step (.event .disconnected trivial hFires)
  have hNull : (s.disconnected link).gConn = none := by
    simp only [AppState.disconnected, hConn, AppState.finishConnectAttempt_eq, link, ne_eq,
      not_true, if_false]
  have hFrames : (s.disconnected link).gdioFrames = s.gdioFrames := by
    obtain ⟨-, coherent, order⟩ := located_of_reached coherent_inductive
      (AppState.coherent_boot none) (fun _ _ _ _ h => h) hReached
    exact (coherent.effect_disconnected hLink rfl).frame.2.2.2.2
  have hSaves := hDropped.step
    (.answer { AppChoice.plain with addr := garbage } _ trivial rfl)
  refine ⟨_, _, _, _, hSaves, some default, hFrames ▸ hFrame, ?_⟩
  rw [hNull, AppState.peer_none]
  show some default ≠ some garbage
  decide

end NukiBridge

import NukiBridge.App.Operations
import NukiBridge.Interaction.Typestate

/-! Where the operation thread can be, and that every operation is written in this
order. Nothing here is about states: the invariants of the bridge are stated for each
of these places. -/
namespace NukiBridge

open Buffer Interaction Typestate

/-- The calls of `connect_to_lock` and `disconnect_from_lock`. -/
def AppOp.connects : AppOp → Bool
  | .connectBegin | .connectEnd _ | .resetReadySem | .setConnectErr _ | .setNeedGdio _
  | .setConnecting _ | .leScanStart | .scheduleScanTimeout | .takeReadySem | .leScanStop
  | .loadConn | .disconnectConn | .loadConnectErr | .resetDisconnectedSem
  | .takeDisconnectedSem => true
  | _ => false

/-- Code that makes no other calls. -/
def AppCode.Connects {α : Type} (code : AppCode α) : Prop :=
  code.Makes fun op => op.connects = true

theorem connects_step {α : Type} {op : AppOp} {more : op.Answer → AppCode α}
    (first : op.connects = true) (rest : ∀ answer, (more answer).Connects) :
    AppCode.Connects ((AppCode.of op).bind more) :=
  ⟨first, rest⟩

theorem connects_done {α : Type} (result : α) : AppCode.Connects (.done result) := trivial

/-- All that connecting calls is in the list, along each of its early returns. -/
theorem connects_connectToLock (needGdio : Bool) : (connectToLock needGdio).Connects := by
  have hBody : (connectToLockBody needGdio).Connects := by
    apply connects_step rfl
    intro _
    apply connects_step rfl
    intro _
    apply connects_step rfl
    intro _
    apply connects_step rfl
    intro _
    apply connects_step rfl
    intro err
    split
    · exact connects_done _
    · apply connects_step rfl
      intro _
      apply connects_step rfl
      intro taken
      split
      · apply connects_step rfl
        intro _
        apply connects_step rfl
        intro _
        apply connects_step rfl
        intro conn
        split
        · exact connects_step rfl fun _ => connects_done _
        · exact connects_done _
      · exact connects_step rfl fun _ => connects_done _
  apply connects_step rfl
  intro _
  apply Program.Makes.bind hBody
  intro rc
  exact connects_step rfl fun _ => connects_done rc

theorem connects_disconnectFromLock : disconnectFromLock.Connects := by
  apply connects_step rfl
  intro conn
  split
  · exact connects_done _
  · apply connects_step rfl
    intro _
    apply connects_step rfl
    intro _
    exact connects_step rfl fun _ => connects_done _

/-- The places of an operation, from `connect_to_lock` to `disconnect_from_lock`. -/
inductive Place where
  | idle
  -- before the scan, after so many assignments
  | preparing (done : Nat)
  | scanning
  | waiting
  | woken
  -- after its own timeout
  | expired
  | abandoned
  | stopped
  | found
  -- `connect_to_lock` returns
  | deciding (rc : Int)
  | failed (rc : Int)
  -- over the connection
  | inUse
  | onGdio
  | addressed (addr : BtAddrLe)
  | saved
  -- `disconnect_from_lock`
  | leaving
  | dropping
  | dropped
  | finished
  deriving DecidableEq

namespace Place

/-- Where each step may be taken. -/
inductive Admits : AppOp → Place → Prop where
  | begin : Admits .connectBegin .idle
  | lookUp : Admits .getPairing .idle
  | resetSem : Admits .resetReadySem (.preparing 0)
  | resetErr : Admits (.setConnectErr 0) (.preparing 1)
  | setNeed (need : Bool) : Admits (.setNeedGdio need) (.preparing 2)
  | start : Admits (.setConnecting true) (.preparing 3)
  | scan : Admits .leScanStart (.preparing 4)
  | schedule : Admits .scheduleScanTimeout .scanning
  | wait : Admits .takeReadySem .waiting
  | result : Admits .loadConnectErr .woken
  | abandon : Admits (.setConnecting false) .expired
  | stop : Admits .leScanStop .abandoned
  | check : Admits .loadConn .stopped
  | cancel : Admits .disconnectConn .found
  | finish (rc : Int) : Admits (.connectEnd rc) (.deciding rc)
  | ready : Admits .loadGdioReady .inUse
  | command (c : Call) : Admits (.transport .keyturner c) .inUse
  | handshake (c : Call) : Admits (.transport .pairing c) .onGdio
  | address : Admits .connGetDst .onGdio
  | save (data : PairingData) : Admits (.savePairing data) (.addressed data.addr)
  | leave : Admits .loadConn .inUse
  | leaveGdio : Admits .loadConn .onGdio
  | leaveSaved : Admits .loadConn .saved
  | resetDisconnected : Admits .resetDisconnectedSem .leaving
  | disconnect : Admits .disconnectConn .dropping
  | disconnected : Admits .takeDisconnectedSem .dropped
  | cache (state : KeyturnerState) : Admits (.updateCache state) .finished

/-- Where a step leads. -/
def next : (op : AppOp) → op.Answer → Place → Place
  | .connectBegin, _, _ => .preparing 0
  | .resetReadySem, _, _ => .preparing 1
  | .setConnectErr _, _, _ => .preparing 2
  | .setNeedGdio _, _, _ => .preparing 3
  | .setConnecting connecting, _, _ => if connecting = true then .preparing 4 else .abandoned
  | .leScanStart, err, _ => if err ≠ 0 then .deciding err else .scanning
  | .scheduleScanTimeout, _, _ => .waiting
  | .takeReadySem, err, _ => if err ≠ 0 then .expired else .woken
  | .loadConnectErr, err, _ => .deciding err
  | .leScanStop, _, _ => .stopped
  | .loadConn, conn, .stopped => if conn ≠ none then .found else .deciding (-etimedout)
  | .loadConn, conn, _ => if conn = none then .finished else .leaving
  | .disconnectConn, _, .found => .deciding (-etimedout)
  | .disconnectConn, _, _ => .dropped
  | .connectEnd rc, _, _ => if rc ≠ 0 then .failed rc else .inUse
  | .loadGdioReady, ready, _ => if ready = false then .inUse else .onGdio
  | .connGetDst, addr, _ => .addressed addr
  | .savePairing _, _, _ => .saved
  | .resetDisconnectedSem, _, _ => .dropping
  | .takeDisconnectedSem, _, _ => .finished
  | .getPairing, _, place => place
  | .updateCache _, _, place => place
  | .transport _ _, _, place => place

/-- Where an operation returns: after it disconnected, or with an error before it
was connected. -/
def Returns (place : Place) (response : Response) : Prop :=
  place = .finished ∨ response.err ≠ 0 ∧ (place = .idle ∨ place = .failed response.err)

end Place

/-- The order of the operation thread. -/
def appOrder : Typestate AppOp AppOp.Answer Place := ⟨Place.Admits, Place.next⟩

open Place

/-- Connecting goes through its places in order, and returns with its result decided. -/
theorem follows_connectToLockBody (needGdio : Bool) :
    appOrder.Follows (fun rc place => place = .deciding rc) (connectToLockBody needGdio)
      (.preparing 0) := by
  apply Follows.goto (.preparing 1) Admits.resetSem fun _ => rfl
  intro _
  apply Follows.goto (.preparing 2) Admits.resetErr fun _ => rfl
  intro _
  apply Follows.goto (.preparing 3) (Admits.setNeed needGdio) fun _ => rfl
  intro _
  apply Follows.goto (.preparing 4) Admits.start fun _ => rfl
  intro _
  apply Follows.step Admits.scan
  intro err
  by_cases hErr : err ≠ 0
  · rw [if_pos hErr]
    exact if_pos hErr
  · have hNext : appOrder.next .leScanStart err (.preparing 4) = .scanning := if_neg hErr
    rw [if_neg hErr, hNext]
    apply Follows.goto .waiting Admits.schedule fun _ => rfl
    intro _
    apply Follows.step Admits.wait
    intro taken
    by_cases hTaken : taken ≠ 0
    · have hNext : appOrder.next .takeReadySem taken .waiting = .expired := if_pos hTaken
      rw [if_pos hTaken, hNext]
      apply Follows.goto .abandoned Admits.abandon fun _ => rfl
      intro _
      apply Follows.goto .stopped Admits.stop fun _ => rfl
      intro _
      apply Follows.step Admits.check
      intro conn
      by_cases hConn : conn ≠ none
      · have hNext : appOrder.next .loadConn conn .stopped = .found := if_pos hConn
        rw [if_pos hConn, hNext]
        exact ⟨Admits.cancel, fun _ => rfl⟩
      · rw [if_neg hConn]
        exact if_neg hConn
    · have hNext : appOrder.next .takeReadySem taken .waiting = .woken := if_neg hTaken
      rw [if_neg hTaken, hNext]
      exact ⟨Admits.result, fun _ => rfl⟩

/-- After connecting the lock is in use, or the call has failed and returned its error.
There is no third place to go on from. -/
theorem follows_connectToLock (needGdio : Bool) :
    appOrder.Follows (fun rc place => place = if rc ≠ 0 then .failed rc else .inUse)
      (connectToLock needGdio) .idle := by
  apply Follows.goto (.preparing 0) Admits.begin fun _ => rfl
  intro _
  apply Follows.bind (follows_connectToLockBody needGdio)
  intro rc place hPlace
  subst hPlace
  exact ⟨Admits.finish rc, fun _ => rfl⟩

/-- Disconnecting leads to the end, wherever the connection was used. -/
theorem follows_disconnectFromLock {place : Place}
    (h : place = .inUse ∨ place = .onGdio ∨ place = .saved) :
    appOrder.Follows (fun _ place => place = .finished) disconnectFromLock place := by
  have hLoad (conn : Option Nat) : appOrder.admits .loadConn place ∧
      appOrder.next .loadConn conn place = if conn = none then .finished else .leaving := by
    rcases h with rfl | rfl | rfl
    · exact ⟨Admits.leave, rfl⟩
    · exact ⟨Admits.leaveGdio, rfl⟩
    · exact ⟨Admits.leaveSaved, rfl⟩
  apply Follows.step (hLoad none).1
  intro conn
  rw [(hLoad conn).2]
  by_cases hConn : conn = none
  · rw [if_pos hConn, if_pos hConn]
    exact rfl
  · rw [if_neg hConn, if_neg hConn]
    apply Follows.goto .dropping Admits.resetDisconnected fun _ => rfl
    intro _
    apply Follows.goto .dropped Admits.disconnect fun _ => rfl
    intro _
    exact ⟨Admits.disconnected, fun _ => rfl⟩

/-- Code over a transport stays where that transport may be used. -/
theorem follows_over {α : Type} (svc : Service) (place : Place)
    (admitted : ∀ c, appOrder.admits (.transport svc c) place) (code : Code α) :
    appOrder.Follows (fun _ place' => place' = place) (AppCode.over svc code) place := by
  apply follows_inline
  intro c
  exact ⟨admitted c, fun _ => rfl⟩

/-- Every way out of an operation disconnects, and then there is nothing more to do than to
return. -/
theorem follows_leave {place : Place} (h : place = .inUse ∨ place = .onGdio ∨ place = .saved)
    (err : Int) :
    appOrder.Follows (fun response place => place.Returns response)
      (disconnectFromLock.bind fun _ => .done ⟨err, none⟩) place := by
  apply Follows.bind (follows_disconnectFromLock h)
  intro _ place hPlace
  exact Or.inl hPlace

/-- The address is read and the pairing saved while the lock is still connected. The disconnect is
the last step. -/
theorem follows_storePaired (err : Int) (data : PairingData) :
    appOrder.Follows (fun response place => place.Returns response) (storePaired err data)
      .onGdio := by
  unfold storePaired
  by_cases hErr : err ≠ 0
  · rw [if_pos hErr]
    exact follows_leave (Or.inr (Or.inl rfl)) err
  · rw [if_neg hErr]
    apply Follows.step Admits.address
    intro addr
    apply Follows.goto .saved (Admits.save { data with addr }) fun _ => rfl
    intro err
    exact follows_leave (Or.inr (Or.inr rfl)) err

/-- Pairing returns after its disconnect, or with an error before it was connected. -/
theorem follows_pairLocked (stack : Leftover) :
    appOrder.Follows (fun response place => place.Returns response) (pairLocked stack) .idle := by
  apply Follows.bind (follows_connectToLock true)
  intro rc place hPlace
  by_cases hErr : rc ≠ 0
  · rw [if_pos hErr] at hPlace ⊢
    exact Or.inr ⟨hErr, Or.inr hPlace⟩
  · rw [if_neg hErr] at hPlace ⊢
    subst hPlace
    apply Follows.step Admits.ready
    intro ready
    by_cases hReady : ready = false
    · have hNext : appOrder.next .loadGdioReady ready .inUse = .inUse := if_pos hReady
      rw [if_pos hReady, hNext]
      exact follows_leave (Or.inl rfl) (-enotsup)
    · have hNext : appOrder.next .loadGdioReady ready .inUse = .onGdio := if_neg hReady
      rw [if_neg hReady, hNext]
      apply Follows.bind (follows_over .pairing .onGdio Admits.handshake _)
      intro result place hPlace
      subst hPlace
      exact follows_storePaired result.1 result.2

/-- The three operations on a paired lock share this course: look up the pairing, connect, run the
command, disconnect, finish. -/
theorem follows_withPairing {α : Type} (command : PairingData → Code α)
    {finish : α → AppCode Response}
    (h : ∀ result,
      appOrder.Follows (fun response place => place.Returns response) (finish result) .finished) :
    appOrder.Follows (fun response place => place.Returns response) (withPairing command finish)
      .idle := by
  apply Follows.goto .idle Admits.lookUp fun _ => rfl
  intro paired
  cases paired with
  | none => exact Or.inr ⟨by decide, Or.inl rfl⟩
  | some p =>
      apply Follows.bind (follows_connectToLock false)
      intro rc place hPlace
      by_cases hErr : rc ≠ 0
      · rw [if_pos hErr] at hPlace ⊢
        exact Or.inr ⟨hErr, Or.inr hPlace⟩
      · rw [if_neg hErr] at hPlace ⊢
        subst hPlace
        apply Follows.bind (follows_over .keyturner .inUse Admits.command _)
        intro result place hPlace
        subst hPlace
        apply Follows.bind (follows_disconnectFromLock (Or.inl rfl))
        intro _ place hPlace
        subst hPlace
        exact h result

/-- The cache is written after the disconnect, where nothing but the mutex of the cache is
needed. -/
theorem follows_cachePushed (err : Int) (out : Captured) :
    appOrder.Follows (fun _ place => place = .finished) (cachePushed err out) .finished := by
  unfold cachePushed
  split
  · by_cases hErr : err = 0
    · rw [if_pos hErr]
      exact ⟨Admits.cache _, fun _ => rfl⟩
    · rw [if_neg hErr]
      exact rfl
  · exact rfl

/-- Every operation is written in this order, whatever its answers are. From here on the places
stand for the code. -/
theorem follows_body (req : Request) :
    appOrder.Follows (fun response place => place.Returns response) req.body .idle := by
  obtain ⟨operation, stack⟩ := req
  cases operation with
  | pair => exact follows_pairLocked stack
  | getState => exact follows_withPairing _ fun _ => Or.inl rfl
  | lockAction action =>
      apply follows_withPairing
      intro result
      exact Follows.bind (follows_cachePushed result.1 result.2) fun _ _ hPlace => Or.inl hPlace
  | calibrate securityPin => exact follows_withPairing _ fun _ => Or.inl rfl

end NukiBridge

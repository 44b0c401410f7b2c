import NukiBridge.App.Smooth
import NukiBridge.Firmware.Order

/-! One operation from its beginning to its end, by one thread of a paired bridge while the
others stand still and the lock plays along: the lock is found, connected and discovered,
the command returns 0, and the link is ended. -/
namespace NukiBridge

open Interaction

/-- Steps of an operation that leave the cache alone. -/
def leavesCache : Condition AppOp AppEvent AppChoice AppState where
  event := fun _ _ => True
  call := fun op _ _ => op.caches = false

instance (e : AppEvent) (s : AppState) : Decidable (leavesCache.event e s) := isTrue trivial

instance (op : AppOp) (choice : AppChoice) (s : AppState) :
    Decidable (leavesCache.call op choice s) :=
  inferInstanceAs (Decidable (op.caches = false))

/-- What code can return over USDIO, it returns in some run, and nothing else changes. -/
theorem runs_over_keyturner {α : Type} {code : Code α} {result : α} (h : code.Yields result)
    (s : AppState) :
    bridge.Runs leavesCache ⟨s, AppCode.over .keyturner code⟩ ⟨s, .done result⟩ := by
  classical
  induction h with
  | done result => exact .refl _
  | @call c next result answer rest ih =>
      let choice : AppChoice :=
        { AppChoice.plain with answer := Function.update AppChoice.plain.answer c answer }
      have hAnswer : choice.answer c = answer :=
        Function.update_self c answer AppChoice.plain.answer
      have hCalls : bridge.call (.transport .keyturner c) choice s = some (.answer answer s) :=
        congrArg (fun answer => some (Reply.answer answer s)) hAnswer
      have hStep : bridge.Step leavesCache ⟨s, AppCode.over .keyturner (.call c next)⟩
          ⟨s, AppCode.over .keyturner (next answer)⟩ :=
        @Machine.Step.answer _ _ _ _ _ _ _ _ s s (.transport .keyturner c)
          (fun answer => AppCode.over .keyturner (next answer)) choice answer rfl hCalls
      exact .head hStep ih

/-- An operation over USDIO returns what its command yields. -/
theorem runs_operation {α : Type} {command : PairingData → Code α}
    {finish : α → AppCode Response} {result : α} {response : Response}
    (h : (command default).Yields result) (ends : finish result = .done response) :
    ∃ s, bridge.Runs leavesCache ⟨.boot (some default), withPairing command finish⟩
      ⟨s, .done response⟩ := by
  let left : Unit → AppCode Response := fun _ => finish result
  let connected : Int → AppCode Response := fun err =>
    if err ≠ 0 then .done ⟨err, none⟩
    else (AppCode.over .keyturner (command default)).bind fun result =>
      disconnectFromLock.bind fun _ => finish result
  obtain ⟨s, t, hConnects, hLeaves⟩ :
      ∃ s t, bridge.Runs leavesCache
          ⟨.boot (some default), (connectToLock false).bind connected⟩ ⟨s, connected 0⟩ ∧
        bridge.Runs leavesCache ⟨s, disconnectFromLock.bind left⟩ ⟨t, left ()⟩ :=
    ⟨_, _, Machine.runs_of_replay
      (List.replicate 7 (.thread .plain) ++ [.event (.findsLock default),
        .event (.connected 0 0), .event (.usdioDiscovered true 0)] ++
          List.replicate 3 (.thread .plain))
      (of_decide_eq_true rfl) rfl,
      Machine.runs_of_replay
        (List.replicate 3 (.thread .plain) ++ [.event .disconnected, .thread .plain])
        (of_decide_eq_true rfl) rfl⟩
  have hCommand := (runs_over_keyturner h s).bind fun result =>
    disconnectFromLock.bind fun _ => finish result
  refine ⟨t, .head (.answer AppChoice.plain _ rfl rfl) (hConnects.trans (hCommand.trans ?_))⟩
  rw [← ends]
  exact hLeaves

/-- `nuki_app_get_state` on a bridge that was just started returns what the lock sends. -/
theorem runs_getStateLocked (stack : Leftover) {payload : List UInt8}
    (long : 13 ≤ payload.length) (fits : 8 + payload.length ≤ maxPlaintext) :
    ∃ s, bridge.Runs leavesCache ⟨.boot (some default), getStateLocked stack⟩
      ⟨s, .done ⟨0, some (.ofPayload payload)⟩⟩ :=
  runs_operation (yields_nukiCommandGetState (stack.received 0) _ _ stack.state long fits) rfl

/-- So does `nuki_app_lock_action` return 0. -/
theorem runs_lockActionLocked (stack : Leftover) (action : UInt8) :
    ∃ s, bridge.Runs leavesCache ⟨.boot (some default), lockActionLocked stack action⟩
      ⟨s, .done ⟨0, none⟩⟩ :=
  runs_operation (yields_nukiCommandLockAction stack.received (stack.bytes 32) _ _ _ action
    ⟨some stack.state, some stack.gotState⟩) rfl

section Thread

variable {t : FirmwareThread} {owner : AppMutex → Option FirmwareThread}

theorem firmwareOp_eq {op : AppOp} (h : op.caches = false) :
    firmwareOp op = FirmwareCode.of (.app op) := by
  cases op with
  | updateCache state => cases h
  | _ => rfl

/-- The body of an operation, as a thread carries it out. -/
theorem runs_inline {α : Type} {p p' : AppCode α} {app app' : AppState}
    (run : bridge.Runs leavesCache ⟨app, p⟩ ⟨app', p'⟩) (cell : CacheCell) :
    (Threads.alone firmware t).Runs .free ⟨(⟨app, cell⟩, owner), p.inline firmwareOp⟩
      ⟨(⟨app', cell⟩, owner), p'.inline firmwareOp⟩ := by
  apply Machine.Runs.inline (fun app => (Firmware.mk app cell, owner)) _ _ _ run
  · intro e a a' _ fires
    refine ⟨e, trivial, ?_⟩
    show ((a.event e).map _).map _ = _
    rw [show a.event e = some a' from fires]
    rfl
  · intro op choice a a' _ calls
    exact absurd calls (AppState.call_ne_stay op choice a a')
  · intro op choice a result a' meets calls
    rw [firmwareOp_eq meets]
    apply Machine.Runs.head
      (Threads.alone_call { FirmwareChoice.finding .zero with app := choice } _)
    · exact .refl _
    · show (a.call op choice).map _ = _
      rw [show a.call op choice = some (.answer result a') from calls]
      rfl

/-- A thread that finds `g_op_lock` free carries out an operation. -/
theorem runs_nukiApp {operation : Operation} {stack : Leftover} {app app' : AppState}
    {response : Response}
    (run : bridge.Runs leavesCache ⟨app, Request.body ⟨operation, stack⟩⟩ ⟨app', .done response⟩)
    (cell : CacheCell) (free : owner .opLock = none) :
    (Threads.alone firmware t).Runs .free ⟨(⟨app, cell⟩, owner), nukiApp operation⟩
      ⟨(⟨app', cell⟩, owner), .done response⟩ := by
  let held := Function.update owner .opLock (some t)
  have hFree : Function.update held .opLock none = owner := by
    rw [Function.update_idem, ← free, Function.update_eq_self]
  have hHeld : held .opLock = some t := Function.update_self _ _ _
  let choice : FirmwareChoice := .finding stack
  apply Machine.Runs.head (Threads.alone_call choice rfl)
  apply Machine.Runs.head (Threads.alone_lock choice free)
  apply ((runs_inline run cell).bind _).trans
  apply Machine.Runs.head (Threads.alone_unlock choice hHeld)
  rw [hFree]
  exact .refl _

end Thread
end NukiBridge

import NukiBridge.App.Discipline
import NukiBridge.App.PairingStore
import NukiBridge.Storage.Settings

/-! The pairing over the life of the device: operations, and resets at any moment. A record
is stored only by an operation that pairs, after a handshake that was complete. -/
namespace NukiBridge

open Buffer Durable Interaction Program

/-- What a trace saves, and what comes of it. -/
def saves (trace : List AppExchange) : List (PairingData × Int) :=
  trace.filterMap fun
    | ⟨.savePairing data, err⟩ => some (data, err)
    | _ => none

theorem saves_append (trace trace' : List AppExchange) :
    saves (trace ++ trace') = saves trace ++ saves trace' :=
  List.filterMap_append

theorem saves_eq_nil {trace : List AppExchange} (h : ∀ e ∈ trace, e.op.saves = false) :
    saves trace = [] := by
  apply List.filterMap_eq_nil_iff.mpr
  intro e he
  have hOther := h e he
  obtain ⟨op, answer⟩ := e
  cases op with
  | savePairing data => cases hOther
  | _ => rfl

/-- A call of code over a transport. -/
def callOver (svc : Service) (e : Exchange Call Call.Answer) : AppExchange :=
  ⟨.transport svc e.op, e.answer⟩

/-- The operation paired: its handshake was complete, and the record is what was agreed on
with the address of the peer. -/
structure Pairs (p : Performed) (record : PairingData) : Prop where
  operation : p.request.operation = .pair
  handshake : ∃ data addr calls,
    (nukiPairingRun p.request.stack.bytes p.request.stack.data).Traces calls (0, data) ∧
      calls.map (callOver .pairing) ++ [⟨.connGetDst, addr⟩] <:+: p.trace ∧
      record = { data with addr }

section Traces

variable {α : Type} {trace : List AppExchange} {response : Response}

theorem saves_connects {code : AppCode α} {result : α} (connects : code.Connects)
    (h : code.Traces trace result) : saves trace = [] := by
  apply saves_eq_nil
  intro e he
  have hConnects := h.makes connects e he
  cases hOp : e.op with
  | savePairing data => rw [hOp] at hConnects; cases hConnects
  | _ => rfl

theorem saves_map_callOver (svc : Service) (calls : List (Exchange Call Call.Answer)) :
    saves (calls.map (callOver svc)) = [] := by
  apply saves_eq_nil
  intro e he
  obtain ⟨_, _, rfl⟩ := List.mem_map.mp he
  rfl

theorem traces_callOver {svc : Service} {code : Code α} {result : α}
    (h : (AppCode.over svc code).Traces trace result) :
    ∃ calls, trace = calls.map (callOver svc) ∧ code.Traces calls result := by
  induction code generalizing trace with
  | done middle =>
      obtain ⟨rfl, rfl⟩ := h.of_done
      exact ⟨[], rfl, .done _⟩
  | call c next ih =>
      obtain ⟨answer, rest, rfl, hRest⟩ := h.of_call
      obtain ⟨calls, rfl, hCalls⟩ := ih answer hRest
      exact ⟨⟨c, answer⟩ :: calls, rfl, traces_call_iff.mpr hCalls⟩

theorem saves_over {svc : Service} {code : Code α} {result : α}
    (h : (AppCode.over svc code).Traces trace result) : saves trace = [] := by
  obtain ⟨calls, rfl, -⟩ := traces_callOver h
  exact saves_map_callOver svc calls

theorem saves_leave {err : Int}
    (h : (disconnectFromLock.bind fun _ => .done ⟨err, none⟩ : AppCode Response).Traces trace
      response) : saves trace = [] ∧ response.err = err := by
  obtain ⟨left, rest, _, rfl, hLeft, hRest⟩ := Traces.of_bind h
  obtain ⟨rfl, rfl⟩ := hRest.of_done
  rw [List.append_nil]
  exact ⟨saves_connects connects_disconnectFromLock hLeft, rfl⟩

/-- The end of `pair_locked` saves once, if the handshake was complete. -/
theorem saves_storePaired {err : Int} {data : PairingData}
    (h : (storePaired err data).Traces trace response) :
    saves trace = [] ∨ ∃ addr later, err = 0 ∧ trace = ⟨.connGetDst, addr⟩ :: later ∧
      saves trace = [({ data with addr }, response.err)] := by
  rw [storePaired] at h
  split at h
  · exact .inl (saves_leave h).1
  · rename_i hErr
    obtain ⟨addr, rest, rfl, hAddr⟩ := h.of_perform
    obtain ⟨saved, rest, rfl, hSaved⟩ := hAddr.of_perform
    obtain ⟨hNone, hSame⟩ := saves_leave hSaved
    refine .inr ⟨addr, _, not_not.mp hErr, rfl, ?_⟩
    rw [hSame]
    exact congrArg _ hNone

/-- An operation saves at most one pairing, and this is the record of its own handshake with the
address that was read afterwards. -/
theorem saves_pairLocked {stack : Leftover} (h : (pairLocked stack).Traces trace response) :
    saves trace = [] ∨ ∃ data addr calls,
      (nukiPairingRun stack.bytes stack.data).Traces calls (0, data) ∧
        calls.map (callOver .pairing) ++ [⟨.connGetDst, addr⟩] <:+: trace ∧
        saves trace = [({ data with addr }, response.err)] := by
  obtain ⟨connect, rest, rc, rfl, hConnect, hConnected⟩ := Traces.of_bind h
  have hNone := saves_connects (connects_connectToLock true) hConnect
  rw [saves_append, hNone, List.nil_append]
  split at hConnected
  · obtain ⟨rfl, -⟩ := hConnected.of_done
    exact .inl rfl
  · obtain ⟨ready, rest, rfl, hReady⟩ := hConnected.of_perform
    split at hReady
    · exact .inl (saves_leave hReady).1
    · obtain ⟨ran, last, ⟨err, data⟩, rfl, hRan, hStored⟩ := Traces.of_bind hReady
      obtain ⟨calls, rfl, hCalls⟩ := traces_callOver hRan
      have hSaves : saves (⟨.loadGdioReady, ready⟩ :: (calls.map (callOver .pairing) ++ last)) =
          saves last := by
        show saves (calls.map (callOver .pairing) ++ last) = _
        rw [saves_append, saves_map_callOver, List.nil_append]
      rw [hSaves]
      rcases saves_storePaired hStored with hNone | ⟨addr, later, rfl, rfl, hSaved⟩
      · exact .inl hNone
      · refine .inr ⟨data, addr, calls, hCalls, ?_, hSaved⟩
        exact ⟨connect ++ [⟨.loadGdioReady, ready⟩], later, by simp⟩

theorem saves_withPairing {command : PairingData → Code α} {finish : α → AppCode Response}
    (finishes : ∀ result last, (finish result).Traces last response → saves last = [])
    (h : (withPairing command finish).Traces trace response) : saves trace = [] := by
  obtain ⟨paired, rest, rfl, hPaired⟩ := h.of_perform
  cases paired with
  | none =>
      obtain ⟨rfl, -⟩ := hPaired.of_done
      rfl
  | some p =>
      obtain ⟨connect, rest, rc, rfl, hConnect, hConnected⟩ := Traces.of_bind hPaired
      show saves (connect ++ rest) = []
      rw [saves_append, saves_connects (connects_connectToLock false) hConnect]
      split at hConnected
      · obtain ⟨rfl, -⟩ := hConnected.of_done
        rfl
      · obtain ⟨used, rest, result, rfl, hUsed, hLeft⟩ := Traces.of_bind hConnected
        obtain ⟨left, last, _, rfl, hDisconnect, hFinish⟩ := Traces.of_bind hLeft
        rw [saves_append, saves_append, saves_over hUsed,
          saves_connects connects_disconnectFromLock hDisconnect, finishes result last hFinish]
        rfl

theorem saves_cachePushed {err : Int} {out : Captured} {response' : Response}
    (h : ((cachePushed err out).bind fun _ => .done response' : AppCode Response).Traces trace
      response) : saves trace = [] := by
  have hReturn {rest : List AppExchange}
      (hRest : (Program.done response' : AppCode Response).Traces rest response) :
      saves rest = [] := by
    obtain ⟨rfl, -⟩ := hRest.of_done
    rfl
  obtain ⟨_ | state, _ | _ | _⟩ := out
  case some.some.true =>
    rw [cachePushed] at h
    split at h
    · obtain ⟨_, rest, rfl, hRest⟩ := h.of_perform
      show saves rest = []
      exact hReturn hRest
    · exact hReturn h
  all_goals exact hReturn h

end Traces

/-- Of the four operations only pairing saves anything, and what it reports is the result of the
save. -/
theorem saves_follow (p : Performed) :
    saves p.trace = [] ∨
      ∃ record, Pairs p record ∧ saves p.trace = [(record, p.response.err)] := by
  obtain ⟨⟨operation, stack⟩, trace, response, h⟩ := p
  cases operation with
  | pair =>
      rcases saves_pairLocked h with hNone | ⟨data, addr, calls, hCalls, hInside, hSaves⟩
      · exact .inl hNone
      · exact .inr ⟨_, ⟨rfl, data, addr, calls, hCalls, hInside, rfl⟩, hSaves⟩
  | getState =>
      refine .inl (saves_withPairing ?_ h)
      intro result last hLast
      obtain ⟨rfl, -⟩ := hLast.of_done
      rfl
  | lockAction action =>
      refine .inl (saves_withPairing ?_ h)
      intro result last hLast
      exact saves_cachePushed hLast
  | calibrate securityPin =>
      refine .inl (saves_withPairing ?_ h)
      intro result last hLast
      obtain ⟨rfl, -⟩ := hLast.of_done
      rfl

/-- The storage answers the calls of a trace. What it returns for a save is what the flash
returned. -/
inductive Storage.Serves : Storage → List AppExchange → Storage → Prop where
  | done (s : Storage) : Serves s [] s
  | save {s s' : Storage} {rest : List AppExchange} (data : PairingData) (padding : UInt8)
      (written : FlashWrite)
      (later : Serves (s.nukiStorageSavePairing data padding written).2 rest s') :
      Serves s (⟨.savePairing data, (s.nukiStorageSavePairing data padding written).1⟩ :: rest) s'
  | get {s s' : Storage} {rest : List AppExchange} (later : Serves s rest s') :
      Serves s (⟨.getPairing, s.nukiStorageGetPairing⟩ :: rest) s'
  | other {s s' : Storage} {e : AppExchange} {rest : List AppExchange}
      (other : e.op.saves = false) (asks : e.op ≠ .getPairing) (later : Serves s rest s') :
      Serves s (e :: rest) s'

/-- From one reset to the next: operations one after the other, of which the last ones may
not have been begun and the one before them not finished. -/
structure Period where
  readings : List Char → ReadBack
  history : List Performed
  trace : List AppExchange
  cut : trace <+: calls history

/-- The life of a device, from one content of the flash to another. -/
inductive Lives : Flash → List Period → Flash → Prop where
  | new (flash : Flash) : Lives flash [] flash
  | period {flash flash' : Flash} {s : Storage} {past : List Period} (period : Period)
      (before : Lives flash past flash')
      (serves : (Storage.boot period.readings flash').Serves period.trace s) :
      Lives flash (past ++ [period]) s.flash

theorem mem_saves_calls {history : List Performed} {record : PairingData} {err : Int}
    (h : (record, err) ∈ saves (calls history)) : ∃ p ∈ history, Pairs p record := by
  induction history with
  | nil => cases h
  | cons p rest ih =>
      have hCalls : calls (p :: rest) = p.trace ++ calls rest := List.flatMap_cons
      rw [hCalls, saves_append, List.mem_append] at h
      rcases h with hHere | hLater
      · rcases saves_follow p with hNone | ⟨paired, hPairs, hSaves⟩
        · rw [hNone] at hHere
          cases hHere
        · rw [hSaves, List.mem_singleton] at hHere
          cases hHere
          exact ⟨p, List.mem_cons_self, hPairs⟩
      · obtain ⟨p', hMem, hPairs⟩ := ih hLater
        exact ⟨p', List.mem_cons_of_mem _ hMem, hPairs⟩

/-- A record that is saved, and what comes of it. -/
abbrev Saved := PairingData × FlashWrite

def Saved.change (saved : Saved) : Change PairingData := .write (some saved.1) saved.2.took

/-- Serving a trace changes the copies by what it saves. -/
theorem Storage.Serves.copies {s s' : Storage} {trace : List AppExchange}
    (h : s.Serves trace s') :
    ∃ written : List Saved, saves trace = written.map (fun w => (w.1, w.2.err)) ∧
      s'.copies = replay (written.map Saved.change) s.copies := by
  induction h with
  | done s => exact ⟨[], rfl, rfl⟩
  | @save s s' rest data padding written _ ih =>
      obtain ⟨later, hSaves, hCopies⟩ := ih
      have hFirst := copies_perform (.save data padding written) s
      refine ⟨(data, written) :: later, congrArg _ hSaves, ?_⟩
      rw [hCopies, List.map_cons, replay_cons]
      exact congrArg (replay _) hFirst
  | get _ ih => exact ih
  | @other s s' e rest hOther _ _ ih =>
      have hSaves : saves (e :: rest) = saves rest := by
        obtain ⟨op, answer⟩ := e
        cases op with
        | savePairing data => cases hOther
        | _ => rfl
      rw [hSaves]
      exact ih

/-- What a period finds was in the flash or is paired in it. -/
theorem Storage.Serves.provenance {period : Period} {flash : Flash} {s : Storage}
    {record : PairingData} (serves : (Storage.boot period.readings flash).Serves period.trace s)
    (has : s.copies.Has record) :
    flash.stored = some record ∨ ∃ p ∈ period.history, Pairs p record := by
  obtain ⟨written, hSaves, hCopies⟩ := serves.copies
  rw [hCopies, Storage.copies_boot] at has
  rcases has_replay has with hBefore | ⟨takes, hWritten⟩
  · rcases hBefore with hVolatile | hDurable
    · dsimp only at hVolatile
      split at hVolatile
      · exact .inl hVolatile
      · cases hVolatile
    · exact .inl hDurable
  · right
    obtain ⟨⟨data, flashWrite⟩, hMem, hChange⟩ := List.mem_map.mp hWritten
    cases hChange
    obtain ⟨later, hCalls⟩ := period.cut
    apply mem_saves_calls
    rw [← hCalls, saves_append, hSaves]
    exact List.mem_append_left _ (List.mem_map_of_mem hMem)

/-- By induction on the periods: a record in the flash was there at the beginning, or it was paired
in one of them. -/
theorem Lives.provenance {flash flash' : Flash} {periods : List Period} {record : PairingData}
    (life : Lives flash periods flash') (stored : flash'.stored = some record) :
    flash.stored = some record ∨
      ∃ period ∈ periods, ∃ p ∈ period.history, Pairs p record := by
  induction life with
  | new => exact .inl stored
  | period last before serves ih =>
      rcases serves.provenance (.inr stored) with hBefore | hPaired
      · rcases ih hBefore with hFirst | ⟨period, hMem, hPaired⟩
        · exact .inl hFirst
        · exact .inr ⟨period, List.mem_append_left _ hMem, hPaired⟩
      · exact .inr ⟨last, List.mem_append_right _ List.mem_cons_self, hPaired⟩

/-- In this period nothing goes wrong with the flash. -/
structure Period.Works (period : Period) : Prop where
  reads : (period.readings nukiPairingName).works = true
  saves : ∀ save ∈ NukiBridge.saves period.trace, save.2 = 0

/-- Within one period, with a flash that works, both copies are the record that was saved last. -/
theorem Storage.Serves.latest {period : Period} {flash : Flash} {s : Storage}
    (serves : (Storage.boot period.readings flash).Serves period.trace s)
    (works : period.Works) :
    s.copies = ⟨((saves period.trace).getLast?.map Prod.fst).or flash.stored,
      ((saves period.trace).getLast?.map Prod.fst).or flash.stored⟩ := by
  obtain ⟨written, hSaves, hCopies⟩ := serves.copies
  have hWorks : ∀ change ∈ written.map Saved.change, change.works = true := by
    intro change hChange
    obtain ⟨w, hMem, rfl⟩ := List.mem_map.mp hChange
    apply w.2.sound
    apply works.saves (w.1, w.2.err)
    rw [hSaves]
    exact List.mem_map_of_mem hMem
  have hLatest : Durable.latest (written.map Saved.change) flash.stored =
      (written.getLast?.map Prod.fst).or flash.stored :=
    latest_writes Prod.fst (fun w : Saved => w.2.took) written flash.stored
  have hLast : (saves period.trace).getLast?.map Prod.fst = written.getLast?.map Prod.fst := by
    rw [hSaves, List.getLast?_map, Option.map_map]
    rfl
  rw [hCopies, Storage.copies_boot, if_pos works.reads, replay_works hWorks, hLatest, hLast]

/-- The same across resets, where only the copy in the flash survives and is loaded at the next
boot. -/
theorem Lives.latest {flash flash' : Flash} {periods : List Period}
    (life : Lives flash periods flash') (works : ∀ period ∈ periods, period.Works) :
    flash'.stored =
      ((periods.flatMap fun period => saves period.trace).getLast?.map Prod.fst).or
        flash.stored := by
  induction life with
  | new => rfl
  | period last before serves ih =>
      obtain ⟨hBefore, hLast⟩ := List.forall_mem_append.mp works
      have hStored := congrArg Copies.durable (serves.latest (hLast last List.mem_cons_self))
      rw [ih hBefore] at hStored
      rw [List.flatMap_append, List.flatMap_singleton, List.getLast?_append, Option.map_or,
        Option.or_assoc]
      exact hStored

section Pairing

/-- The flash of a device that was never paired. -/
def Flash.blank : Flash := ⟨[], none, [], fun _ h => absurd h List.not_mem_nil⟩

/-- A period without an operation. -/
def Period.quiet : Period := ⟨fun _ => .complete, [], [], List.prefix_rfl⟩

/-- The handshake can succeed: there are answers of the lock and of PSA with which it returns a
record. -/
theorem yields_nukiPairingRun (stack : (n : Nat) → Bytes n) (out : PairingData) :
    ∃ data, (nukiPairingRun stack out).Yields (0, data) := by
  obtain ⟨data, t, hRun, -⟩ := Ceremony.run_smooth stack out
  have hYields := yields_run Ceremony.smooth.answer (nukiPairingRun stack out) Ceremony.start
  rw [hRun] at hYields
  exact ⟨data, hYields⟩

theorem asks_map_callOver {svc : Service} {calls : List (Exchange Call Call.Answer)} :
    ∀ e ∈ calls.map (callOver svc), e.op ≠ .getPairing := by
  intro e he
  obtain ⟨_, _, rfl⟩ := List.mem_map.mp he
  nofun

theorem asks_connects {α : Type} {code : AppCode α} {trace : List AppExchange} {result : α}
    (connects : code.Connects) (h : code.Traces trace result) :
    ∀ e ∈ trace, e.op ≠ .getPairing := by
  intro e he hAsks
  have hConnects := h.makes connects e he
  rw [hAsks] at hConnects
  cases hConnects

/-- A pairing can succeed. It saves one record, and does not ask for the one before. -/
theorem exists_pairLocked (stack : Leftover) :
    ∃ trace record, (pairLocked stack).Traces trace ⟨0, none⟩ ∧ saves trace = [(record, 0)] ∧
      ∀ e ∈ trace, e.op ≠ .getPairing := by
  obtain ⟨data, hYields⟩ := yields_nukiPairingRun stack.bytes stack.data
  obtain ⟨connect, hConnect⟩ := (yields_connectToLock true).exists_trace
  obtain ⟨used, hUsed⟩ := (yields_over .pairing hYields).exists_trace
  obtain ⟨left, hLeft⟩ := yields_disconnectFromLock.exists_trace
  obtain ⟨calls, rfl, -⟩ := traces_callOver hUsed
  let record : PairingData := { data with addr := default }
  refine ⟨connect ++ ⟨.loadGdioReady, true⟩ :: (calls.map (callOver .pairing) ++
    ⟨.connGetDst, (default : BtAddrLe)⟩ :: ⟨.savePairing record, (0 : Int)⟩ :: (left ++ [])),
    record, ?_, ?_, ?_⟩
  · apply hConnect.bind
    apply @traces_appStep _ .loadGdioReady _ _ _ true
    apply hUsed.bind
    apply @traces_appStep _ .connGetDst _ _ _ (default : BtAddrLe)
    apply @traces_appStep _ (.savePairing _) _ _ _ (0 : Int)
    exact hLeft.bind (.done _)
  · rw [saves_append, saves_connects (connects_connectToLock true) hConnect, List.nil_append]
    show saves (calls.map (callOver .pairing) ++ _) = _
    rw [saves_append, saves_map_callOver, List.nil_append]
    show (record, 0) :: saves (left ++ []) = _
    rw [saves_append, saves_connects connects_disconnectFromLock hLeft]
    rfl
  · rw [List.forall_mem_append]
    refine ⟨asks_connects (connects_connectToLock true) hConnect, ?_⟩
    refine List.forall_mem_cons.mpr ⟨nofun, List.forall_mem_append.mpr ⟨asks_map_callOver, ?_⟩⟩
    refine List.forall_mem_cons.mpr ⟨nofun, List.forall_mem_cons.mpr ⟨nofun, ?_⟩⟩
    rw [List.append_nil]
    exact asks_connects connects_disconnectFromLock hLeft

/-- A trace in which the flash works is served, unless it asks for the record. -/
theorem exists_serves {trace : List AppExchange} (works : ∀ save ∈ saves trace, save.2 = 0)
    (asks : ∀ e ∈ trace, e.op ≠ .getPairing) (s : Storage) : ∃ s', s.Serves trace s' := by
  induction trace generalizing s with
  | nil => exact ⟨s, .done s⟩
  | cons e rest ih =>
      obtain ⟨hAsks, hRest⟩ := List.forall_mem_cons.mp asks
      by_cases hSaves : e.op.saves = false
      · have hNone : saves (e :: rest) = saves rest := by
          rw [← List.singleton_append, saves_append]
          rw [saves_eq_nil (List.forall_mem_singleton.mpr hSaves), List.nil_append]
        rw [hNone] at works
        obtain ⟨s', hServes⟩ := ih works hRest s
        exact ⟨s', .other hSaves hAsks hServes⟩
      · obtain ⟨op, answer⟩ := e
        cases op with
        | savePairing data =>
            obtain ⟨hZero, hLater⟩ := List.forall_mem_cons.mp works
            obtain rfl : answer = 0 := hZero
            obtain ⟨s', hServes⟩ := ih hLater hRest _
            exact ⟨s', .save data 0 ⟨0, true, fun _ => rfl⟩ hServes⟩
        | _ => exact absurd rfl hSaves

/-- A device is paired, and the record is in its flash. -/
theorem exists_paired :
    ∃ period record s, Lives .blank [period] s ∧ saves period.trace = [(record, 0)] ∧
      period.Works ∧ s.stored = some record := by
  obtain ⟨trace, record, hTraces, hSaves, hAsks⟩ := exists_pairLocked .zero
  let paired : Performed := ⟨⟨.pair, .zero⟩, trace, ⟨0, none⟩, hTraces⟩
  let period : Period :=
    ⟨fun _ => .complete, [paired], trace, ⟨[], by simp [calls, paired]⟩⟩
  have hWorks : period.Works := ⟨rfl, by simp [period, hSaves]⟩
  obtain ⟨s, hServes⟩ :=
    exists_serves hWorks.saves hAsks (Storage.boot period.readings .blank)
  have hLife : Lives .blank [period] s.flash := .period period (.new _) hServes
  refine ⟨period, record, s.flash, hLife, hSaves, hWorks, ?_⟩
  rw [hLife.latest (by simpa using hWorks)]
  simp [period, hSaves]

end Pairing

/-- Every record that is ever found, in RAM or in the flash, was there at first or comes
from an operation that paired: no reset and no failure of the flash makes another one. -/
theorem pairing_provenance {flash flash' : Flash} {periods : List Period} (period : Period)
    {s : Storage} {record : PairingData} (life : Lives flash periods flash')
    (serves : (Storage.boot period.readings flash').Serves period.trace s)
    (has : s.copies.Has record) :
    flash.stored = some record ∨
      ∃ period' ∈ periods ++ [period], ∃ p ∈ period'.history, Pairs p record := by
  rcases serves.provenance has with hBefore | hPaired
  · rcases life.provenance hBefore with hFirst | ⟨period', hMem, hPaired⟩
    · exact .inl hFirst
    · exact .inr ⟨period', List.mem_append_left _ hMem, hPaired⟩
  · exact .inr ⟨period, List.mem_append_right _ List.mem_cons_self, hPaired⟩

/-- A device is paired and then reset: the record that it finds is from the operation. -/
theorem pairing_provenance_reset :
    ∃ period record flash, Lives .blank [period] flash ∧ saves period.trace = [(record, 0)] ∧
      ((Flash.blank.stored = some record) ∨
        ∃ period' ∈ [period] ++ [Period.quiet], ∃ p ∈ period'.history, Pairs p record) := by
  obtain ⟨period, record, flash, hLife, hSaves, -, hStored⟩ := exists_paired
  refine ⟨period, record, flash, hLife, hSaves, ?_⟩
  apply pairing_provenance Period.quiet hLife (.done _)
  right
  rw [Storage.copies_boot]
  exact hStored

/-- As long as nothing goes wrong with the flash, it is enough to pair once: resets make no
difference to which record is used. -/
theorem pairing_lasts {flash flash' : Flash} {periods : List Period} (period : Period)
    {s : Storage} (life : Lives flash periods flash')
    (serves : (Storage.boot period.readings flash').Serves period.trace s)
    (works : ∀ period' ∈ periods ++ [period], period'.Works) :
    s.nukiStorageGetPairing =
      (((periods ++ [period]).flatMap fun period => saves period.trace).getLast?.map
        Prod.fst).or flash.stored := by
  have hLives : Lives flash (periods ++ [period]) s.flash := .period period life serves
  have hLast : period.Works := works period (by simp)
  have hSame : s.copies.volatile = s.copies.durable := by rw [serves.latest hLast]
  rw [← hLives.latest works]
  exact hSame

/-- A device is paired and then reset: it still uses the record that was saved. -/
theorem pairing_lasts_reset :
    ∃ period record flash, Lives .blank [period] flash ∧ saves period.trace = [(record, 0)] ∧
      (Storage.boot (fun _ => .complete) flash).nukiStorageGetPairing = some record := by
  obtain ⟨period, record, flash, hLife, hSaves, hWorks, -⟩ := exists_paired
  have hAll : ∀ period' ∈ [period] ++ [Period.quiet], period'.Works := by
    simpa using ⟨hWorks, (⟨rfl, fun _ h => absurd h List.not_mem_nil⟩ : Period.quiet.Works)⟩
  refine ⟨period, record, flash, hLife, hSaves, ?_⟩
  have hLast := pairing_lasts Period.quiet hLife (.done _) hAll
  rw [List.flatMap_append, List.flatMap_singleton, hSaves] at hLast
  exact hLast

end NukiBridge

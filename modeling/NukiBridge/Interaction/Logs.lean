import NukiBridge.Interaction.Observer
import NukiBridge.Interaction.Serial
import NukiBridge.Interaction.Trace

/-! The log of a run of several threads: who called what, and what was answered. Each thread
finds a trace of its own code in it. Seen from a part with a mutex around it, the log is that
of a server: the calls of one request after the other, the last of which may be unfinished. -/
namespace Interaction

variable {Mutex Op Op' : Type} {Res : Op → Type} {Res' : Op' → Type}
  {Event Event' Choice Choice' State State' Tid Req α : Type}

namespace Machine

/-- The observer that keeps a record of the calls. -/
def recorder (M : Machine Op Res Event Choice State) :
    Observer Op Event Choice State (List (Exchange Op Res)) where
  event := fun _ _ log => log
  call := fun op choice s log =>
    match M.call op choice s with
    | some (.answer result _) => log ++ [⟨op, result⟩]
    | _ => log

/-- The machine with a record of its calls. -/
abbrev recorded (M : Machine Op Res Event Choice State) :
    Machine Op Res Event Choice (State × List (Exchange Op Res)) :=
  M.observed M.recorder

theorem recorded_answer {M : Machine Op Res Event Choice State} {op : Op} {choice : Choice}
    {s s' : State × List (Exchange Op Res)} {result : Res op} :
    M.recorded.call op choice s = some (.answer result s') ↔
      M.call op choice s.1 = some (.answer result s'.1) ∧ s.2 ++ [⟨op, result⟩] = s'.2 := by
  rw [observed_answer]
  constructor
  · rintro ⟨hCall, hNote⟩
    simp only [recorder, hCall] at hNote
    exact ⟨hCall, hNote⟩
  · rintro ⟨hCall, hNote⟩
    refine ⟨hCall, ?_⟩
    simp only [recorder, hCall]
    exact hNote

theorem recorded_records (M : Machine Op Res Event Choice State) : M.recorded.Records Prod.snd where
  event := fun _ _ _ fires => (observed_event.mp fires).2.symm
  stay := fun _ _ _ _ calls => (observed_stay.mp calls).2.symm
  answer := fun _ _ _ _ _ calls => (recorded_answer.mp calls).2.symm

end Machine

namespace Server

/-- A request that was carried out. -/
structure Completed (S : Server Op Res Event Choice State Req α) where
  request : Req
  trace : List (Exchange Op Res)
  result : α
  traces : (S.body request).Traces trace result

/-- The record of a server: the traces of requests that were completed, and the trace of
the one it is at so far. -/
def RecordedAs (S : Server Op Res Event Choice State Req α) (history : List S.Completed) :
    Stage Op Res (State × List (Exchange Op Res)) Req α → Prop
  | .idle s => s.2 = history.flatMap Completed.trace
  | .busy req c => ∃ part, c.state.2 = history.flatMap Completed.trace ++ part ∧
      ∀ rest result, c.thread.Traces rest result → (S.body req).Traces (part ++ rest) result

theorem Reaches.recordedAs {S : Server Op Res Event Choice State Req α}
    {cond : Condition Op Event Choice (State × List (Exchange Op Res))} {start : State}
    {stage : Stage Op Res (State × List (Exchange Op Res)) Req α}
    (h : (S.observed S.machine.recorder).Reaches cond (start, []) stage) :
    ∃ history, S.RecordedAs history stage := by
  have hRecords := S.machine.recorded_records
  induction h with
  | start => exact ⟨[], rfl⟩
  | request prior req ih =>
      obtain ⟨history, hRecord⟩ := ih
      exact ⟨history, [], hRecord.trans (List.append_nil _).symm, fun _ _ hRest => hRest⟩
  | event prior e meets fires ih =>
      obtain ⟨history, hRecord⟩ := ih
      exact ⟨history, (hRecords.event e _ _ fires).trans hRecord⟩
  | @step req c d prior last ih =>
      obtain ⟨history, part, hRecord, hTraces⟩ := ih
      obtain ⟨trace, hLater, hAll⟩ := hRecords.runs (.tail (.refl c) last)
      refine ⟨history, part ++ trace, ?_, ?_⟩
      · rw [hLater, hRecord, List.append_assoc]
      · intro rest result hRest
        rw [List.append_assoc]
        exact hTraces _ _ (hAll rest result hRest)
  | @finish req s result prior ih =>
      obtain ⟨history, part, hRecord, hTraces⟩ := ih
      have hDone := hTraces [] result (.done result)
      rw [List.append_nil] at hDone
      refine ⟨history ++ [⟨req, part, result, hDone⟩], ?_⟩
      show s.2 = _
      rw [List.flatMap_append, List.flatMap_singleton]
      exact hRecord

end Server

namespace Threads

/-- The calls of code that locks and unlocks. -/
def unlocked (trace : List (Exchange (Locked Mutex Op) (Locked.Answer Res))) :
    List (Exchange Op Res) :=
  trace.filterMap fun
    | ⟨.call op, result⟩ => some ⟨op, result⟩
    | ⟨.lock _, _⟩ => none
    | ⟨.unlock _, _⟩ => none

variable [DecidableEq Tid]

/-- The calls of one thread. -/
def callsOf (t : Tid) (log : List (Tid × Exchange Op Res)) : List (Exchange Op Res) :=
  log.filterMap fun entry => if entry.1 = t then some entry.2 else none

theorem callsOf_append (t : Tid) (log log' : List (Tid × Exchange Op Res)) :
    callsOf t (log ++ log') = callsOf t log ++ callsOf t log' :=
  List.filterMap_append

theorem callsOf_map (t : Tid) (calls : List (Exchange Op Res)) :
    callsOf t (calls.map (Prod.mk t)) = calls := by
  simp [callsOf, List.filterMap_map]

/-- What a thread has called, followed by a trace of what is left of it, is a trace of its
code. -/
def HasCalled (code : Tid → LockedCode Mutex Res Unit) (log : List (Tid × Exchange Op Res))
    (code' : Tid → LockedCode Mutex Res Unit) (t : Tid) : Prop :=
  ∃ trace, unlocked trace = callsOf t log ∧
    ∀ rest, (code' t).Traces rest () → (code t).Traces (trace ++ rest) ()

/-- One thread goes on. -/
theorem HasCalled.goTo {log : List (Tid × Exchange Op Res)}
    {code code' : Tid → LockedCode Mutex Res Unit} {t t' : Tid}
    {op : Locked Mutex Op} {next : Locked.Answer Res op → LockedCode Mutex Res Unit}
    (h : HasCalled code log code' t) (result : Locked.Answer Res op)
    (here : code' t' = .call op next) (step : List (Tid × Exchange Op Res))
    (own : t' = t → unlocked [(⟨op, result⟩ : Exchange _ _)] = callsOf t step)
    (other : t' ≠ t → callsOf t step = []) :
    HasCalled code (log ++ step) (Function.update code' t' (next result)) t := by
  obtain ⟨trace, hCalls, hTraces⟩ := h
  have hLog := callsOf_append t log step
  by_cases hSame : t' = t
  · subst hSame
    refine ⟨trace ++ [⟨op, result⟩], ?_, ?_⟩
    · rw [hLog, ← hCalls, ← own rfl]
      exact List.filterMap_append
    · intro rest hRest
      rw [Function.update_self] at hRest
      rw [List.append_assoc]
      apply hTraces
      rw [here]
      exact .call result hRest
  · refine ⟨trace, ?_, ?_⟩
    · rw [hLog, other hSame, List.append_nil, hCalls]
    · intro rest hRest
      rw [Function.update_of_ne (Ne.symm hSame)] at hRest
      exact hTraces rest hRest

variable [DecidableEq Mutex]

/-- A run of the threads, and its log. -/
inductive Logs (M : Machine Op Res Event Choice State) (S : Threads Mutex Res State Tid) :
    List (Tid × Exchange Op Res) → Threads Mutex Res State Tid → Prop where
  | start : Logs M S [] S
  | event {log : List (Tid × Exchange Op Res)} {S' : Threads Mutex Res State Tid} {s' : State}
      (prior : Logs M S log S') (e : Event) (fires : M.event e S'.state = some s') :
      Logs M S log { S' with state := s' }
  | stay {log : List (Tid × Exchange Op Res)} {S' : Threads Mutex Res State Tid} {t : Tid}
      {op : Op} {next : Res op → LockedCode Mutex Res Unit} {s' : State}
      (prior : Logs M S log S') (choice : Choice) (here : S'.code t = .call (.call op) next)
      (calls : M.call op choice S'.state = some (.stay s')) : Logs M S log { S' with state := s' }
  | answer {log : List (Tid × Exchange Op Res)} {S' : Threads Mutex Res State Tid} {t : Tid}
      {op : Op} {next : Res op → LockedCode Mutex Res Unit} {s' : State}
      (prior : Logs M S log S') (choice : Choice) (result : Res op)
      (here : S'.code t = .call (.call op) next)
      (calls : M.call op choice S'.state = some (.answer result s')) :
      Logs M S (log ++ [(t, ⟨op, result⟩)]) ({ S' with state := s' }.goTo t (next result))
  | lock {log : List (Tid × Exchange Op Res)} {S' : Threads Mutex Res State Tid} {t : Tid}
      {m : Mutex} {next : Unit → LockedCode Mutex Res Unit} (prior : Logs M S log S')
      (here : S'.code t = .call (.lock m) next) (free : S'.owner m = none) :
      Logs M S log ({ S' with owner := Function.update S'.owner m (some t) }.goTo t (next ()))
  | unlock {log : List (Tid × Exchange Op Res)} {S' : Threads Mutex Res State Tid} {t : Tid}
      {m : Mutex} {next : Unit → LockedCode Mutex Res Unit} (prior : Logs M S log S')
      (here : S'.code t = .call (.unlock m) next) :
      Logs M S log ((S'.released t m).goTo t (next ()))

variable {M : Machine Op Res Event Choice State} {S S' : Threads Mutex Res State Tid}
  {log : List (Tid × Exchange Op Res)}

/-- One run after the other, with one log behind the other. -/
theorem Logs.trans {S₀ : Threads Mutex Res State Tid} {later : List (Tid × Exchange Op Res)}
    (first : Logs M S₀ log S) (rest : Logs M S later S') : Logs M S₀ (log ++ later) S' := by
  induction rest with
  | start =>
      rw [List.append_nil]
      exact first
  | event _ e fires ih => exact ih.event e fires
  | stay _ choice here calls ih => exact ih.stay choice here calls
  | answer _ choice result here calls ih =>
      rw [← List.append_assoc]
      exact ih.answer choice result here calls
  | lock _ here free ih => exact ih.lock here free
  | unlock _ here ih => exact ih.unlock here

/-- Every run has a log. It is built along the run and need not be part of the state. -/
theorem exists_logs (run : Reaches M S S') : ∃ log, Logs M S log S' := by
  induction run with
  | refl => exact ⟨[], .start⟩
  | tail _ last ih =>
      obtain ⟨log, hLogs⟩ := ih
      cases last with
      | event e fires => exact ⟨log, .event hLogs e fires⟩
      | thread t step =>
          cases step with
          | stay choice here calls => exact ⟨log, .stay hLogs choice here calls⟩
          | answer choice result here calls => exact ⟨_, .answer hLogs choice result here calls⟩
          | lock here free => exact ⟨log, .lock hLogs here free⟩
          | unlock here => exact ⟨log, .unlock hLogs here⟩

theorem Logs.hasCalled (h : Logs M S log S') (t : Tid) : HasCalled S.code log S'.code t := by
  induction h with
  | start => exact ⟨[], rfl, fun _ hRest => hRest⟩
  | event _ _ _ ih => exact ih
  | stay _ _ _ _ ih => exact ih
  | @answer log S'' t' op next s' prior choice result here calls ih =>
      apply ih.goTo result here [(t', ⟨op, result⟩)]
      · intro hSame
        simp [unlocked, callsOf, hSame]
      · intro hOther
        simp [callsOf, hOther]
  | lock prior here free ih =>
      have hStep := ih.goTo () here [] (fun _ => rfl) (fun _ => rfl)
      rwa [List.append_nil] at hStep
  | unlock prior here ih =>
      have hStep := ih.goTo () here [] (fun _ => rfl) (fun _ => rfl)
      rwa [List.append_nil] at hStep

/-- The threads over the machine with a record. -/
def withRecord (S : Threads Mutex Res State Tid) (record : List (Exchange Op Res)) :
    Threads Mutex Res (State × List (Exchange Op Res)) Tid :=
  ⟨(S.state, record), S.owner, S.code⟩

/-- The record that an observer keeps is the log of the run. -/
theorem Logs.recorded (h : Logs M S log S') :
    Reaches M.recorded (S.withRecord []) (S'.withRecord (log.map Prod.snd)) := by
  induction h with
  | start => exact .refl
  | event prior e fires ih =>
      exact ih.tail (.event e (Machine.observed_event.mpr ⟨fires, rfl⟩))
  | stay prior choice here calls ih =>
      exact ih.tail (.thread _ (.stay choice here (Machine.observed_stay.mpr ⟨calls, rfl⟩)))
  | answer prior choice result here calls ih =>
      rw [List.map_append]
      exact ih.tail (.thread _ (.answer choice result here
        (Machine.recorded_answer.mpr ⟨calls, rfl⟩)))
  | lock prior here free ih => exact ih.tail (.thread _ (.lock here free))
  | unlock prior here ih => exact ih.tail (.thread _ (.unlock here))

end Threads

namespace Part

variable {M : Machine Op Res Event Choice State} {N : Machine Op' Res' Event' Choice' State'}

/-- The part with the record of its calls, which is the part of the whole record. -/
def recorded (P : Part M N) (exchange? : Exchange Op Res → Option (Exchange Op' Res'))
    (own : ∀ op result, exchange? ⟨P.embed op, result⟩ = some ⟨op, P.answerOf op result⟩) :
    Part M.recorded N.recorded where
  view := fun s => (P.view s.1, s.2.filterMap exchange?)
  embed := P.embed
  answerOf := P.answerOf
  event := by
    intro e s s' fires
    obtain ⟨hFires, hRecord⟩ := Machine.observed_event.mp fires
    rw [← hRecord]
    rcases P.event e _ _ hFires with hSame | ⟨e', hFires'⟩
    · exact .inl (Prod.ext hSame rfl)
    · exact .inr ⟨e', Machine.observed_event.mpr ⟨hFires', rfl⟩⟩
  stay := by
    intro op choice s s' calls
    obtain ⟨hCalls, hRecord⟩ := Machine.observed_stay.mp calls
    obtain ⟨choice', hCalls'⟩ := P.stay op choice _ _ hCalls
    rw [← hRecord]
    exact ⟨choice', Machine.observed_stay.mpr ⟨hCalls', rfl⟩⟩
  answer := by
    intro op choice s result s' calls
    obtain ⟨hCalls, hRecord⟩ := Machine.recorded_answer.mp calls
    obtain ⟨choice', hCalls'⟩ := P.answer op choice _ _ _ hCalls
    refine ⟨choice', Machine.recorded_answer.mpr ⟨hCalls', ?_⟩⟩
    rw [← hRecord, List.filterMap_append]
    simp [own]

variable {P : Part M N} {exchange? : Exchange Op Res → Option (Exchange Op' Res')}
  {own : ∀ op result, exchange? ⟨P.embed op, result⟩ = some ⟨op, P.answerOf op result⟩}

/-- A call that is none of the part and leaves it alone. -/
theorem Silent.recorded {op : Op} (h : P.Silent op)
    (none : ∀ result, exchange? ⟨op, result⟩ = none) : (P.recorded exchange? own).Silent op where
  stay := by
    intro choice s s' calls
    obtain ⟨hCalls, hRecord⟩ := Machine.observed_stay.mp calls
    exact Prod.ext (h.stay choice _ _ hCalls) (congrArg (List.filterMap exchange?) hRecord.symm)
  answer := by
    intro choice s result s' calls
    obtain ⟨hCalls, hRecord⟩ := Machine.recorded_answer.mp calls
    refine Prod.ext (h.answer choice _ _ _ hCalls) ?_
    show s'.2.filterMap exchange? = _
    rw [← hRecord, List.filterMap_append]
    simp [Part.recorded, none]

variable [DecidableEq Mutex] [DecidableEq Tid]

/-- Whatever the order of the steps, what the threads call of the part is the record of a
server that serves one request after the other. -/
theorem logs_serial {mutex : Mutex} {body : Req → Program Op' Res' α} {s : State}
    {code : Tid → LockedCode Mutex Res Unit} {log : List (Tid × Exchange Op Res)}
    {S : Threads Mutex Res State Tid}
    (each : ∀ t, (P.recorded exchange? own).ServesAll mutex body (code t))
    (run : Threads.Logs M (.start s code) log S) :
    ∃ stage history, (server N body).Reaches .free (P.view s) (Stage.unobserved stage) ∧
      (server N body).RecordedAs history stage ∧
      stage.state = (P.view S.state, (log.map Prod.snd).filterMap exchange?) := by
  obtain ⟨stage, hServed, hState⟩ := reaches_serial each run.recorded
  have hReaches : ((server N body).observed N.recorder).Reaches .free (P.view s, []) stage :=
    hServed
  obtain ⟨history, hRecord⟩ := hReaches.recordedAs
  exact ⟨stage, history, Server.Reaches.unobserved hReaches, hRecord, hState⟩

end Part
end Interaction

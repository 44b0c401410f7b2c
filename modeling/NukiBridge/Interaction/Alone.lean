import NukiBridge.Interaction.Logs

/-! One thread by itself. While the others stand still a thread runs as if the machine were
its own, with the mutexes as a part of it, and code that calls procedures runs as they do.
A run that is put together in this way is one of all the threads. -/
namespace Interaction

variable {Mutex Op Op' : Type} {Res : Op → Type} {Res' : Op' → Type}
  {Event Event' Choice Choice' State State' Tid α β : Type}

namespace Machine

variable {M : Machine Op Res Event Choice State} {cond : Condition Op Event Choice State}

/-- What comes after code has no part in a run of it. -/
theorem Runs.bind {c d : Config Op Res State α} (run : M.Runs cond c d)
    (more : α → Program Op Res β) :
    M.Runs cond ⟨c.state, c.thread.bind more⟩ ⟨d.state, d.thread.bind more⟩ := by
  induction run with
  | refl => exact .refl _
  | tail _ last ih =>
      cases last with
      | event e meets fires => exact ih.tail (.event e meets fires)
      | stay choice meets calls => exact ih.tail (.stay choice meets calls)
      | answer choice result meets calls => exact ih.tail (.answer choice result meets calls)

/-- The procedure of the next call runs, and then what comes after the call. -/
theorem Runs.inline_call {body : (op : Op') → Program Op Res (Res' op)} {op : Op'}
    {answer : Res' op} {next : Res' op → Program Op' Res' α} {s s' : State}
    {d : Config Op Res State α} (first : M.Runs cond ⟨s, body op⟩ ⟨s', .done answer⟩)
    (rest : M.Runs cond ⟨s', (next answer).inline body⟩ d) :
    M.Runs cond ⟨s, (Program.call op next).inline body⟩ d :=
  (first.bind _).trans rest

/-- Where each call of one machine is carried out by a procedure over another one, and each
event is seen there too, so is each run of code. -/
theorem Runs.inline {N : Machine Op' Res' Event' Choice' State'}
    {cond' : Condition Op' Event' Choice' State'} {body : (op : Op') → Program Op Res (Res' op)}
    (lift : State' → State)
    (event : ∀ e a a', cond'.event e a → N.event e a = some a' →
      ∃ e', cond.event e' (lift a) ∧ M.event e' (lift a) = some (lift a'))
    (stay : ∀ op choice a a', cond'.call op choice a → N.call op choice a = some (.stay a') →
      M.Runs cond ⟨lift a, body op⟩ ⟨lift a', body op⟩)
    (answer : ∀ op choice a result a', cond'.call op choice a →
      N.call op choice a = some (.answer result a') →
        M.Runs cond ⟨lift a, body op⟩ ⟨lift a', .done result⟩)
    {c d : Config Op' Res' State' α} (run : N.Runs cond' c d) :
    M.Runs cond ⟨lift c.state, c.thread.inline body⟩ ⟨lift d.state, d.thread.inline body⟩ := by
  induction run with
  | refl => exact .refl _
  | tail _ last ih =>
      cases last with
      | event e meets fires =>
          obtain ⟨e', hMeets, hFires⟩ := event e _ _ meets fires
          exact ih.tail (.event e' hMeets hFires)
      | stay choice meets calls => exact ih.trans ((stay _ choice _ _ meets calls).bind _)
      | answer choice result meets calls =>
          exact ih.trans ((answer _ choice _ result _ meets calls).bind _)

end Machine

namespace Threads

variable [DecidableEq Mutex] [DecidableEq Tid]

/-- The machine as one thread has it, and with it the mutexes. -/
def alone (M : Machine Op Res Event Choice State) (t : Tid) :
    Machine (Locked Mutex Op) (Locked.Answer Res) Event Choice (State × (Mutex → Option Tid)) where
  event := fun e s => (M.event e s.1).map fun s' => (s', s.2)
  call
    | .lock m, _, s =>
        if s.2 m = none then some (.answer () (s.1, Function.update s.2 m (some t))) else none
    | .unlock m, _, s =>
        some (.answer () (s.1, Function.update s.2 m (if s.2 m = some t then none else s.2 m)))
    | .call op, choice, s =>
        (M.call op choice s.1).map fun
          | .stay s' => .stay (s', s.2)
          | .answer result s' => .answer result (s', s.2)

variable {M : Machine Op Res Event Choice State} {S S' : Threads Mutex Res State Tid}
  {log : List (Tid × Exchange Op Res)}

section Steps

variable {t : Tid} {s s' : State} {owner : Mutex → Option Tid} {m : Mutex}

theorem alone_call (choice : Choice) {op : Op} {next : Res op → LockedCode Mutex Res α}
    {result : Res op} (calls : M.call op choice s = some (.answer result s')) :
    (alone M t).Step .free ⟨(s, owner), .call (.call op) next⟩ ⟨(s', owner), next result⟩ := by
  have hCalls : (alone M t).call (.call op) choice (s, owner) =
      some (.answer result (s', owner)) := by simp [alone, calls]
  exact @Machine.Step.answer _ (Locked.Answer Res) _ _ _ _ _ _ _ _ (Locked.call op) next choice
    result trivial hCalls

theorem alone_lock (choice : Choice) {next : Unit → LockedCode Mutex Res α}
    (free : owner m = none) :
    (alone M t).Step .free ⟨(s, owner), .call (.lock m) next⟩
      ⟨(s, Function.update owner m (some t)), next ()⟩ :=
  @Machine.Step.answer _ (Locked.Answer Res) _ _ _ _ _ _ _ _ (Locked.lock m) next choice ()
    trivial (if_pos free)

theorem alone_unlock (choice : Choice) {next : Unit → LockedCode Mutex Res α}
    (holds : owner m = some t) :
    (alone M t).Step .free ⟨(s, owner), .call (.unlock m) next⟩
      ⟨(s, Function.update owner m none), next ()⟩ := by
  have hCalls : (alone M t).call (.unlock m) choice (s, owner) =
      some (.answer () (s, Function.update owner m none)) := by simp [alone, holds]
  exact @Machine.Step.answer _ (Locked.Answer Res) _ _ _ _ _ _ _ _ (Locked.unlock m) next choice
    () trivial hCalls

end Steps

section Logs

variable {t : Tid} {op : Locked Mutex Op} {choice : Choice} {s' : State × (Mutex → Option Tid)}

/-- A call of the thread that is not yet answered: only the machine keeps a thread waiting so, and
nothing is logged. -/
theorem Logs.alone_stay (logs : Logs M S log S')
    {next : Locked.Answer Res op → LockedCode Mutex Res Unit} (here : S'.code t = .call op next)
    (calls : (Threads.alone M t).call op choice (S'.state, S'.owner) = some (.stay s')) :
    Logs M S log ⟨s'.1, s'.2, S'.code⟩ := by
  cases op with
  | lock m =>
      simp only [Threads.alone] at calls
      split at calls <;> cases calls
  | unlock m => cases calls
  | call op =>
      obtain ⟨reply, hCalls, hReply⟩ := Option.map_eq_some_iff.mp calls
      cases reply with
      | answer result s' => cases hReply
      | stay s' =>
          cases hReply
          exact logs.stay choice here hCalls

/-- A step of the thread by itself is a step of the run, and an entry of the log where it is a call
of the machine. -/
theorem Logs.alone_answer (logs : Logs M S log S') {result : Locked.Answer Res op}
    {next : Locked.Answer Res op → LockedCode Mutex Res Unit} (here : S'.code t = .call op next)
    (calls : (Threads.alone M t).call op choice (S'.state, S'.owner) = some (.answer result s')) :
    Logs M S (log ++ (unlocked [⟨op, result⟩]).map (Prod.mk t))
      ⟨s'.1, s'.2, Function.update S'.code t (next result)⟩ := by
  cases op with
  | lock m =>
      simp only [Threads.alone] at calls
      split at calls
      · rename_i hFree
        cases calls
        simpa [goTo, unlocked] using logs.lock here hFree
      · cases calls
  | unlock m =>
      cases calls
      simpa [goTo, released, unlocked] using logs.unlock here
  | call op =>
      obtain ⟨reply, hCalls, hReply⟩ := Option.map_eq_some_iff.mp calls
      cases reply with
      | stay s' => cases hReply
      | answer result s' =>
          cases hReply
          exact logs.answer choice result here hCalls

end Logs

/-- What one thread does by itself it does in a run of all, whose log is the trace of it. -/
theorem Logs.alone (logs : Logs M S log S') {t : Tid} {c d : Config (Locked Mutex Op)
      (Locked.Answer Res) (State × (Mutex → Option Tid)) α}
    {more : α → LockedCode Mutex Res Unit} (run : (alone M t).Runs .free c d)
    (state : c.state = (S'.state, S'.owner)) (here : S'.code t = c.thread.bind more) :
    ∃ trace, (∀ rest result, d.thread.Traces rest result → c.thread.Traces (trace ++ rest) result) ∧
      Logs M S (log ++ (unlocked trace).map (Prod.mk t))
        ⟨d.state.1, d.state.2, Function.update S'.code t (d.thread.bind more)⟩ := by
  induction run with
  | refl =>
      refine ⟨[], fun _ _ h => h, ?_⟩
      rw [state, ← here, Function.update_eq_self, unlocked, List.filterMap_nil, List.map_nil,
        List.append_nil]
      exact logs
  | tail _ last ih =>
      obtain ⟨trace, hTraces, hLogs⟩ := ih
      cases last with
      | event e _ fires =>
          obtain ⟨s', hFires, rfl⟩ := Option.map_eq_some_iff.mp fires
          exact ⟨trace, hTraces, hLogs.event e hFires⟩
      | stay choice _ calls =>
          exact ⟨trace, hTraces, hLogs.alone_stay (Function.update_self _ _ _) calls⟩
      | @answer s₁ _ op next choice result _ calls =>
          refine ⟨trace ++ [⟨op, result⟩], ?_, ?_⟩
          · intro rest last hRest
            rw [List.append_assoc]
            exact hTraces _ _ (.call result hRest)
          · have hStep := hLogs.alone_answer (Function.update_self _ _ _) calls
            rw [Function.update_idem] at hStep
            rw [unlocked, List.filterMap_append, List.map_append, ← List.append_assoc]
            exact hStep

/-- A run with a log is a run. -/
theorem Logs.reaches (logs : Logs M S log S') : Reaches M S S' := by
  induction logs with
  | start => exact .refl
  | event _ e fires ih => exact ih.tail (.event e fires)
  | stay _ choice here calls ih => exact ih.tail (.thread _ (.stay choice here calls))
  | answer _ choice result here calls ih =>
      exact ih.tail (.thread _ (.answer choice result here calls))
  | lock _ here free ih => exact ih.tail (.thread _ (.lock here free))
  | unlock _ here ih => exact ih.tail (.thread _ (.unlock here))

end Threads
end Interaction

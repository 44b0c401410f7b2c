import NukiBridge.Interaction.Program

/-! A thread of code interleaved with events of its environment. A machine says
what one event does to the shared state and what one call of the thread does;
a call may first change the state from inside, as a blocking call does, before
it answers. All freedom of the environment is in the event and in the choice
that labels a step, so a run can also be replayed from its labels. -/
namespace Interaction

/-- A call either stays inside itself or returns to the code with an answer. -/
inductive Reply (Answer State : Type) where
  | stay (after : State)
  | answer (result : Answer) (after : State)

structure Machine (Op : Type) (Res : Op → Type) (Event Choice State : Type) where
  event : Event → State → Option State
  call : (op : Op) → Choice → State → Option (Reply (Res op) State)

/-- The shared state together with what is left of the thread's code. -/
structure Config (Op : Type) (Res : Op → Type) (State α : Type) where
  state : State
  thread : Program Op Res α

/-- One step is an event or a step of the thread under a choice of the environment. -/
inductive Label (Event Choice : Type) where
  | event (e : Event)
  | thread (choice : Choice)

/-- A condition on the steps of a run: it speaks of the label and of the state before
the step. -/
structure Condition (Op Event Choice State : Type) where
  event : Event → State → Prop
  call : Op → Choice → State → Prop

variable {Op : Type} {Res : Op → Type} {Event Choice State Req α : Type}

/-- The condition that every step meets. -/
def Condition.free : Condition Op Event Choice State :=
  ⟨fun _ _ => True, fun _ _ _ => True⟩

/-- The condition on the step that a label takes. -/
def Condition.Allows (cond : Condition Op Event Choice State) :
    Label Event Choice → Config Op Res State α → Prop
  | .event e, ⟨s, _⟩ => cond.event e s
  | .thread choice, ⟨s, .call op _⟩ => cond.call op choice s
  | .thread _, ⟨_, .done _⟩ => True

/-- Two conditions at once. -/
def Condition.and (cond cond' : Condition Op Event Choice State) :
    Condition Op Event Choice State where
  event := fun e s => cond.event e s ∧ cond'.event e s
  call := fun op choice s => cond.call op choice s ∧ cond'.call op choice s

instance decidableAndEvent (cond cond' : Condition Op Event Choice State) (e : Event) (s : State)
    [Decidable (cond.event e s)] [Decidable (cond'.event e s)] :
    Decidable ((cond.and cond').event e s) :=
  inferInstanceAs (Decidable (_ ∧ _))

instance decidableAndCall (cond cond' : Condition Op Event Choice State) (op : Op)
    (choice : Choice) (s : State) [Decidable (cond.call op choice s)]
    [Decidable (cond'.call op choice s)] : Decidable ((cond.and cond').call op choice s) :=
  inferInstanceAs (Decidable (_ ∧ _))

namespace Machine

variable (M : Machine Op Res Event Choice State) (cond : Condition Op Event Choice State)

/-- One step that meets the condition. -/
inductive Step : Config Op Res State α → Config Op Res State α → Prop where
  | event {s s' : State} {p : Program Op Res α} (e : Event)
      (meets : cond.event e s) (fires : M.event e s = some s') : Step ⟨s, p⟩ ⟨s', p⟩
  | stay {s s' : State} {op : Op} {next : Res op → Program Op Res α} (choice : Choice)
      (meets : cond.call op choice s) (calls : M.call op choice s = some (.stay s')) :
      Step ⟨s, .call op next⟩ ⟨s', .call op next⟩
  | answer {s s' : State} {op : Op} {next : Res op → Program Op Res α} (choice : Choice)
      (result : Res op) (meets : cond.call op choice s)
      (calls : M.call op choice s = some (.answer result s')) :
      Step ⟨s, .call op next⟩ ⟨s', next result⟩

/-- Finitely many steps that all meet the condition. -/
inductive Runs : Config Op Res State α → Config Op Res State α → Prop where
  | refl (c : Config Op Res State α) : Runs c c
  | tail {c d e : Config Op Res State α} (prior : Runs c d) (last : M.Step cond d e) : Runs c e

/-- Replay one label. -/
def replayStep : Label Event Choice → Config Op Res State α → Option (Config Op Res State α)
  | .event e, ⟨s, p⟩ => (M.event e s).map fun s' => ⟨s', p⟩
  | .thread _, ⟨_, .done _⟩ => none
  | .thread choice, ⟨s, .call op next⟩ =>
      match M.call op choice s with
      | none => none
      | some (.stay s') => some ⟨s', .call op next⟩
      | some (.answer result s') => some ⟨s', next result⟩

/-- Replay a schedule, given as the list of its labels. -/
def replay : List (Label Event Choice) → Config Op Res State α → Option (Config Op Res State α)
  | [], c => some c
  | label :: rest, c => (M.replayStep label c).bind (replay rest)

/-- Every step of a schedule meets the condition where it is replayed. -/
def Meets : List (Label Event Choice) → Config Op Res State α → Prop
  | [], _ => True
  | label :: rest, c => cond.Allows label c ∧
      match M.replayStep label c with
      | none => True
      | some d => Meets rest d

instance decidableAllows [∀ e s, Decidable (cond.event e s)]
    [∀ op choice s, Decidable (cond.call op choice s)] :
    (label : Label Event Choice) → (c : Config Op Res State α) → Decidable (cond.Allows label c)
  | .event e, ⟨s, _⟩ => inferInstanceAs (Decidable (cond.event e s))
  | .thread choice, ⟨s, .call op _⟩ => inferInstanceAs (Decidable (cond.call op choice s))
  | .thread _, ⟨_, .done _⟩ => isTrue trivial

instance decidableMeets [∀ e s, Decidable (cond.event e s)]
    [∀ op choice s, Decidable (cond.call op choice s)] :
    (labels : List (Label Event Choice)) → (c : Config Op Res State α) →
      Decidable (M.Meets cond labels c)
  | [], _ => isTrue trivial
  | label :: rest, c =>
      let _later : Decidable (match M.replayStep label c with
          | none => True
          | some d => M.Meets cond rest d) :=
        match M.replayStep label c with
        | none => isTrue trivial
        | some d => decidableMeets rest d
      instDecidableAnd

variable {M cond}

/-- A step that meets a condition meets a weaker one. -/
theorem Step.mono {cond' : Condition Op Event Choice State} {c d : Config Op Res State α}
    (h : M.Step cond c d) (event : ∀ e s, cond.event e s → cond'.event e s)
    (call : ∀ op choice s, cond.call op choice s → cond'.call op choice s) :
    M.Step cond' c d := by
  cases h with
  | event e meets fires => exact .event e (event e _ meets) fires
  | stay choice meets calls => exact .stay choice (call _ choice _ meets) calls
  | answer choice result meets calls => exact .answer choice result (call _ choice _ meets) calls

theorem Runs.mono {cond' : Condition Op Event Choice State} {c d : Config Op Res State α}
    (h : M.Runs cond c d) (event : ∀ e s, cond.event e s → cond'.event e s)
    (call : ∀ op choice s, cond.call op choice s → cond'.call op choice s) :
    M.Runs cond' c d := by
  induction h with
  | refl => exact .refl _
  | tail prior last ih => exact .tail ih (last.mono event call)

/-- What every step keeps, every run keeps: the induction on runs, done once. -/
theorem Runs.keeps {I : State → Prop}
    (event : ∀ e s s', I s → cond.event e s → M.event e s = some s' → I s')
    (stay : ∀ op choice s s', I s → cond.call op choice s →
      M.call op choice s = some (.stay s') → I s')
    (answer : ∀ op choice s result s', I s → cond.call op choice s →
      M.call op choice s = some (.answer result s') → I s')
    {c d : Config Op Res State α} (run : M.Runs cond c d) (initial : I c.state) : I d.state := by
  induction run with
  | refl => exact initial
  | tail _ last ih =>
      cases last with
      | event e meets fires => exact event e _ _ ih meets fires
      | stay choice meets calls => exact stay _ choice _ _ ih meets calls
      | answer choice result meets calls => exact answer _ choice _ result _ ih meets calls

theorem Runs.trans {c d e : Config Op Res State α} (left : M.Runs cond c d)
    (right : M.Runs cond d e) : M.Runs cond c e := by
  induction right with
  | refl => exact left
  | tail prior last ih => exact .tail ih last

theorem Runs.head {c d e : Config Op Res State α} (first : M.Step cond c d)
    (rest : M.Runs cond d e) : M.Runs cond c e :=
  Runs.trans (.tail (.refl _) first) rest

/-- Replaying a list of labels is taking steps. This turns a computed run on a fixed input into a
run of the machine. -/
theorem step_of_replayStep {label : Label Event Choice} {c d : Config Op Res State α}
    (allowed : cond.Allows label c) (h : M.replayStep label c = some d) : M.Step cond c d := by
  obtain ⟨s, p⟩ := c
  cases label with
  | event e =>
      obtain ⟨s', fires, rfl⟩ := Option.map_eq_some_iff.mp h
      exact .event e allowed fires
  | thread choice =>
      cases p with
      | done result => cases h
      | call op next =>
          simp only [replayStep] at h
          split at h
          · cases h
          · cases h
            exact .stay choice allowed (by assumption)
          · cases h
            exact .answer choice _ allowed (by assumption)

/-- A schedule that replays, with every step as the condition asks, is a run. -/
theorem runs_of_replay (labels : List (Label Event Choice)) {c d : Config Op Res State α}
    (meets : M.Meets cond labels c) (h : M.replay labels c = some d) : M.Runs cond c d := by
  induction labels generalizing c with
  | nil =>
      cases h
      exact .refl _
  | cons label rest ih =>
      obtain ⟨middle, first, tail⟩ := Option.bind_eq_some_iff.mp h
      obtain ⟨allowed, later⟩ := meets
      rw [first] at later
      exact .head (step_of_replayStep allowed first) (ih later tail)

/-- Every schedule meets the condition that is always met. -/
theorem meets_free (labels : List (Label Event Choice)) (c : Config Op Res State α) :
    M.Meets .free labels c := by
  induction labels generalizing c with
  | nil => trivial
  | cons label rest ih =>
      obtain ⟨s, p⟩ := c
      constructor
      · cases label with
        | event e => trivial
        | thread choice => cases p <;> trivial
      · split
        · trivial
        · exact ih _

variable (M cond)

/-- Something can happen while the thread is at a call. -/
def Live (op : Op) (s : State) : Prop :=
  (∃ choice reply, cond.call op choice s ∧ M.call op choice s = some reply) ∨
    ∃ e s', cond.event e s ∧ M.event e s = some s'

variable {M cond}

theorem Live.step {op : Op} {s : State} (h : M.Live cond op s)
    (next : Res op → Program Op Res α) : ∃ d, M.Step cond ⟨s, .call op next⟩ d := by
  rcases h with ⟨choice, reply, meets, calls⟩ | ⟨e, s', meets, fires⟩
  · cases reply with
    | stay s' => exact ⟨_, .stay choice meets calls⟩
    | answer result s' => exact ⟨_, .answer choice result meets calls⟩
  · exact ⟨_, .event e meets fires⟩

/-- No run goes on forever if events and the steps inside calls use up a measure:
the code itself is a finite tree. -/
theorem terminates (measure : State → Nat)
    (events : ∀ e s s', M.event e s = some s' → measure s' < measure s)
    (stays : ∀ op choice s s', M.call op choice s = some (.stay s') → measure s' < measure s)
    (c : Config Op Res State α) : Acc (fun d c => M.Step cond c d) c := by
  obtain ⟨s, p⟩ := c
  induction p generalizing s with
  | done result =>
      induction hm : measure s using Nat.strongRecOn generalizing s with
      | ind n ih =>
          refine ⟨_, fun d step => ?_⟩
          cases step with
          | event e meets fires => exact ih _ (hm ▸ events _ _ _ fires) _ rfl
  | call op next ihNext =>
      induction hm : measure s using Nat.strongRecOn generalizing s with
      | ind n ih =>
          refine ⟨_, fun d step => ?_⟩
          cases step with
          | event e meets fires => exact ih _ (hm ▸ events _ _ _ fires) _ rfl
          | stay choice meets calls => exact ih _ (hm ▸ stays _ _ _ _ calls) _ rfl
          | answer choice result meets calls => exact ihNext result _

variable (M cond)

/-- Every run comes to an end, and it ends where the code returns one of these results. -/
def Returns (start : Config Op Res State α) (results : α → Prop) : Prop :=
  Acc (fun d c => M.Step cond c d) start ∧
    ∀ c, M.Runs cond start c →
      (∀ result, c.thread = .done result → results result) ∧
        ∀ op next, c.thread = .call op next → ∃ d, M.Step cond c d

variable {M cond}

/-- A promise to return is kept along every run: whatever has happened so far, the results are still
those promised. -/
theorem Returns.of_runs {c d : Config Op Res State α} {results : α → Prop}
    (h : M.Returns cond c results) (run : M.Runs cond c d) : M.Returns cond d results := by
  refine ⟨?_, fun e rest => h.2 e (run.trans rest)⟩
  induction run with
  | refl => exact h.1
  | tail prior last ih => exact ih.inv last

theorem Returns.mono {c : Config Op Res State α} {results results' : α → Prop}
    (h : M.Returns cond c results) (weaker : ∀ result, results result → results' result) :
    M.Returns cond c results' :=
  ⟨h.1, fun d run => ⟨fun result returned => weaker result ((h.2 d run).1 result returned),
    (h.2 d run).2⟩⟩

/-- Code that returns in every run returns in some run, so the promise is never an empty one. -/
theorem Returns.exists_result {c : Config Op Res State α} {results : α → Prop}
    (h : M.Returns cond c results) :
    ∃ s result, M.Runs cond c ⟨s, .done result⟩ ∧ results result := by
  obtain ⟨acc, ends⟩ := h
  induction acc with
  | intro c _ ih =>
      obtain ⟨s, p⟩ := c
      cases p with
      | done result => exact ⟨s, result, .refl _, (ends _ (.refl _)).1 result rfl⟩
      | call op next =>
          obtain ⟨d, step⟩ := (ends _ (.refl _)).2 op next rfl
          obtain ⟨s', result, run, holds⟩ := ih d step fun e rest => ends e (.head step rest)
          exact ⟨s', result, .head step run, holds⟩

end Machine

/-- A machine that serves one request at a time: `body` is the code of a request. -/
structure Server (Op : Type) (Res : Op → Type) (Event Choice State Req α : Type) where
  machine : Machine Op Res Event Choice State
  body : Req → Program Op Res α

/-- Between requests, or in the middle of one. -/
inductive Stage (Op : Type) (Res : Op → Type) (State Req α : Type) where
  | idle (state : State)
  | busy (req : Req) (config : Config Op Res State α)

/-- The shared state. -/
def Stage.state : Stage Op Res State Req α → State
  | .idle s => s
  | .busy _ c => c.state

namespace Server

variable (S : Server Op Res Event Choice State Req α) (cond : Condition Op Event Choice State)

/-- Everything that any sequence of requests can lead to, with events at any
time, also between two requests. -/
inductive Reaches (start : State) : Stage Op Res State Req α → Prop where
  | start : Reaches start (.idle start)
  | request {s : State} (prior : Reaches start (.idle s)) (req : Req) :
      Reaches start (.busy req ⟨s, S.body req⟩)
  | event {s s' : State} (prior : Reaches start (.idle s)) (e : Event)
      (meets : cond.event e s) (fires : S.machine.event e s = some s') :
      Reaches start (.idle s')
  | step {req : Req} {c d : Config Op Res State α} (prior : Reaches start (.busy req c))
      (last : S.machine.Step cond c d) : Reaches start (.busy req d)
  | finish {req : Req} {s : State} {result : α}
      (prior : Reaches start (.busy req ⟨s, .done result⟩)) : Reaches start (.idle s)

variable {S cond}

/-- What can be reached under a condition can be reached under a weaker one. -/
theorem Reaches.mono {cond' : Condition Op Event Choice State} {start : State}
    {stage : Stage Op Res State Req α} (h : S.Reaches cond start stage)
    (event : ∀ e s, cond.event e s → cond'.event e s)
    (call : ∀ op choice s, cond.call op choice s → cond'.call op choice s) :
    S.Reaches cond' start stage := by
  induction h with
  | start => exact .start
  | request prior req ih => exact .request ih req
  | event prior e meets fires ih => exact .event ih e (event e _ meets) fires
  | step prior last ih => exact .step ih (last.mono event call)
  | finish prior ih => exact .finish ih

/-- A request that is under way may be followed through any part of its run. -/
theorem Reaches.runs {start : State} {req : Req} {c d : Config Op Res State α}
    (prior : S.Reaches cond start (.busy req c)) (run : S.machine.Runs cond c d) :
    S.Reaches cond start (.busy req d) := by
  induction run with
  | refl => exact prior
  | tail _ last ih => exact .step ih last

end Server
end Interaction

import NukiBridge.Interaction.Typestate

/-! An observer of a machine: it notes down what happens and takes no part in it. What its
notes say in every run is then true of every run of the machine. -/
namespace Interaction

/-- What is noted down of an event, and of a call that answers. -/
structure Observer (Op Event Choice State Note : Type) where
  event : Event → State → Note → Note
  call : Op → Choice → State → Note → Note

variable {Op Place : Type} {Res : Op → Type} {Event Choice State Note Req α : Type}

/-- A condition on the machine, where it is observed. -/
def Condition.observed (cond : Condition Op Event Choice State) :
    Condition Op Event Choice (State × Note) where
  event := fun e s => cond.event e s.1
  call := fun op choice s => cond.call op choice s.1

namespace Machine

/-- The machine together with the notes of the observer. -/
def observed (M : Machine Op Res Event Choice State)
    (O : Observer Op Event Choice State Note) : Machine Op Res Event Choice (State × Note) where
  event := fun e s => (M.event e s.1).map fun s' => (s', O.event e s.1 s.2)
  call := fun op choice s =>
    match M.call op choice s.1 with
    | none => none
    | some (.stay s') => some (.stay (s', s.2))
    | some (.answer result s') => some (.answer result (s', O.call op choice s.1 s.2))

end Machine

/-- A configuration without the notes. -/
def Config.unobserved (c : Config Op Res (State × Note) α) : Config Op Res State α :=
  ⟨c.state.1, c.thread⟩

def Stage.unobserved : Stage Op Res (State × Note) Req α → Stage Op Res State Req α
  | .idle s => .idle s.1
  | .busy req c => .busy req c.unobserved

@[simp] theorem Stage.unobserved_state (stage : Stage Op Res (State × Note) Req α) :
    stage.unobserved.state = stage.state.1 := by
  cases stage <;> rfl

def Server.observed (S : Server Op Res Event Choice State Req α)
    (O : Observer Op Event Choice State Note) :
    Server Op Res Event Choice (State × Note) Req α where
  machine := S.machine.observed O
  body := S.body

section

variable {M : Machine Op Res Event Choice State} {O : Observer Op Event Choice State Note}
  {cond : Condition Op Event Choice State}

/-- The account is kept beside the state and never looked at by the machine. -/
theorem Machine.observed_event {e : Event} {s s' : State × Note} :
    (M.observed O).event e s = some s' ↔
      M.event e s.1 = some s'.1 ∧ O.event e s.1 s.2 = s'.2 := by
  obtain ⟨s', note'⟩ := s'
  simp only [Machine.observed, Option.map_eq_some_iff, Prod.mk.injEq]
  constructor
  · rintro ⟨t, fires, rfl, notes⟩
    exact ⟨fires, notes⟩
  · exact fun h => ⟨s', h.1, rfl, h.2⟩

theorem Machine.observed_stay {op : Op} {choice : Choice} {s s' : State × Note} :
    (M.observed O).call op choice s = some (.stay s') ↔
      M.call op choice s.1 = some (.stay s'.1) ∧ s.2 = s'.2 := by
  obtain ⟨s', note'⟩ := s'
  simp only [Machine.observed]
  split <;> simp_all

theorem Machine.observed_answer {op : Op} {choice : Choice} {s s' : State × Note}
    {result : Res op} :
    (M.observed O).call op choice s = some (.answer result s') ↔
      M.call op choice s.1 = some (.answer result s'.1) ∧ O.call op choice s.1 s.2 = s'.2 := by
  obtain ⟨s', note'⟩ := s'
  simp only [Machine.observed]
  split <;> simp_all [and_assoc]

theorem Machine.Step.unobserved {c d : Config Op Res (State × Note) α}
    (h : (M.observed O).Step cond.observed c d) : M.Step cond c.unobserved d.unobserved := by
  cases h with
  | event e meets fires => exact .event e meets (Machine.observed_event.mp fires).1
  | stay choice meets calls => exact .stay choice meets (Machine.observed_stay.mp calls).1
  | answer choice result meets calls =>
      exact .answer choice result meets (Machine.observed_answer.mp calls).1

/-- The observer is in the way of no step: every step of the machine is one with the account brought
up to date. -/
theorem Machine.Step.observed {c d : Config Op Res State α} (h : M.Step cond c d) (note : Note) :
    ∃ note', (M.observed O).Step cond.observed ⟨(c.state, note), c.thread⟩
      ⟨(d.state, note'), d.thread⟩ := by
  cases h with
  | event e meets fires =>
      exact ⟨_, .event e meets (Machine.observed_event.mpr ⟨fires, rfl⟩)⟩
  | stay choice meets calls =>
      exact ⟨_, .stay choice meets (Machine.observed_stay.mpr ⟨calls, rfl⟩)⟩
  | answer choice result meets calls =>
      exact ⟨_, .answer choice result meets (Machine.observed_answer.mpr ⟨calls, rfl⟩)⟩

variable {S : Server Op Res Event Choice State Req α} {start : State} {note : Note}

/-- Forgetting the account gives a run of the server itself, so what is proved with an account is
proved without it. -/
theorem Server.Reaches.unobserved {stage : Stage Op Res (State × Note) Req α}
    (h : (S.observed O).Reaches cond.observed (start, note) stage) :
    S.Reaches cond start stage.unobserved := by
  induction h with
  | start => exact .start
  | request prior req ih => exact .request ih req
  | event prior e meets fires ih => exact .event ih e meets (Machine.observed_event.mp fires).1
  | step prior last ih => exact .step ih last.unobserved
  | finish prior ih => exact .finish ih

/-- Everything that can be reached is reached under observation as well. -/
theorem Server.Reaches.observed {stage : Stage Op Res State Req α}
    (h : S.Reaches cond start stage) :
    ∃ stage', stage'.unobserved = stage ∧
      (S.observed O).Reaches cond.observed (start, note) stage' := by
  induction h with
  | start => exact ⟨.idle (start, note), rfl, .start⟩
  | request prior req ih =>
      obtain ⟨stage', hStage, hReached⟩ := ih
      cases stage' with
      | idle s =>
          cases hStage
          exact ⟨_, rfl, .request hReached req⟩
      | busy _ c => cases hStage
  | @event s s' prior e meets fires ih =>
      obtain ⟨stage', hStage, hReached⟩ := ih
      cases stage' with
      | idle t =>
          cases hStage
          exact ⟨.idle (s', O.event e t.1 t.2), rfl,
            .event hReached e meets (Machine.observed_event.mpr ⟨fires, rfl⟩)⟩
      | busy _ c => cases hStage
  | @step req c d prior last ih =>
      obtain ⟨stage', hStage, hReached⟩ := ih
      cases stage' with
      | idle s => cases hStage
      | busy _ c' =>
          cases hStage
          obtain ⟨note', hStep⟩ := Machine.Step.observed (O := O) last c'.state.2
          exact ⟨.busy req ⟨(d.state, note'), d.thread⟩, rfl, .step hReached hStep⟩
  | finish prior ih =>
      obtain ⟨stage', hStage, hReached⟩ := ih
      cases stage' with
      | idle s => cases hStage
      | busy _ c =>
          obtain ⟨⟨s, note'⟩, thread⟩ := c
          cases hStage
          exact ⟨.idle (s, note'), rfl, .finish hReached⟩

/-- An invariant of the machine is one of the observed machine. -/
theorem Typestate.Inductive.observed {T : Typestate Op Res Place} {Inv : Place → State → Prop}
    (h : T.Inductive M cond Inv) :
    T.Inductive (M.observed O) cond.observed fun place s => Inv place s.1 where
  event := fun place e s s' inv meets fires =>
    h.event place e s.1 s'.1 inv meets (Machine.observed_event.mp fires).1
  stay := fun place op choice s s' inv admitted meets calls =>
    h.stay place op choice s.1 s'.1 inv admitted meets (Machine.observed_stay.mp calls).1
  answer := fun place op choice s result s' inv admitted meets calls =>
    h.answer place op choice s.1 result s'.1 inv admitted meets (Machine.observed_answer.mp calls).1

end
end Interaction

import NukiBridge.Interaction.Machine

/-! The places of a thread. The order in which code makes its calls is read off its
text, apart from any state: a call is admitted in some places and leads to others.
An invariant may then depend on the place of the thread, and it is proved by cases
over events and calls, not along the code. -/
namespace Interaction

/-- Where each call may be made, and where its answer leads. -/
structure Typestate (Op : Type) (Res : Op → Type) (Place : Type) where
  admits : Op → Place → Prop
  next : (op : Op) → Res op → Place → Place

namespace Typestate

variable {Op Op' Place : Type} {Res : Op → Type} {Res' : Op' → Type}
  {Event Choice State Req α β : Type} (T : Typestate Op Res Place)

/-- The code makes only admitted calls and returns only results that fit its place. -/
def Follows (post : α → Place → Prop) : Program Op Res α → Place → Prop
  | .done result, place => post result place
  | .call op more, place =>
      T.admits op place ∧ ∀ result, Follows post (more result) (T.next op result place)

variable {T} {post : α → Place → Prop}

/-- One call, and the code after it. -/
theorem Follows.step {op : Op} {more : Res op → Program Op Res α} {place : Place}
    (admitted : T.admits op place)
    (rest : ∀ result, T.Follows post (more result) (T.next op result place)) :
    T.Follows post ((Program.perform op).bind more) place :=
  ⟨admitted, rest⟩

/-- One call that leads to the same place whatever it answers. -/
theorem Follows.goto {op : Op} {more : Res op → Program Op Res α} {place : Place} (place' : Place)
    (admitted : T.admits op place) (leads : ∀ result, T.next op result place = place')
    (rest : ∀ result, T.Follows post (more result) place') :
    T.Follows post ((Program.perform op).bind more) place :=
  ⟨admitted, fun result => leads result ▸ rest result⟩

theorem Follows.weaken {p : Program Op Res α} {post' : α → Place → Prop} {place : Place}
    (h : T.Follows post p place) (weaker : ∀ result place, post result place → post' result place) :
    T.Follows post' p place := by
  induction p generalizing place with
  | done result => exact weaker result place h
  | call op next ih => exact ⟨h.1, fun result => ih result (h.2 result)⟩

/-- Code in sequence: the second part starts at each of the places where the first one may end. -/
theorem Follows.bind {p : Program Op Res β} {more : β → Program Op Res α}
    {mid : β → Place → Prop} {place : Place} (first : T.Follows mid p place)
    (rest : ∀ result place', mid result place' → T.Follows post (more result) place') :
    T.Follows post (p.bind more) place := by
  induction p generalizing place with
  | done result => exact rest result place first
  | call op next ih => exact ⟨first.1, fun result => ih result (first.2 result)⟩

/-- Procedures that keep the place may be put in for calls, and the code keeps its order. -/
theorem follows_inline {body : (op : Op') → Program Op Res (Res' op)} {place : Place}
    (each : ∀ op, T.Follows (fun _ place' => place' = place) (body op) place)
    (p : Program Op' Res' α) :
    T.Follows (fun _ place' => place' = place) (p.inline body) place := by
  induction p with
  | done result => rfl
  | call op next ih =>
      apply Follows.bind (each op)
      intro result place' hPlace
      exact hPlace ▸ ih result

/-- Calls that are admitted in a place and do not leave it. -/
theorem follows_of_makes {kind : Op → Prop} {p : Program Op Res α} {place : Place}
    (h : p.Makes kind) (admitted : ∀ op, kind op → T.admits op place)
    (stays : ∀ op result, kind op → T.next op result place = place) :
    T.Follows (fun _ place' => place' = place) p place := by
  induction p with
  | done result => rfl
  | call op next ih =>
      refine ⟨admitted op h.1, ?_⟩
      intro result
      rw [stays op result h.1]
      exact ih result (h.2 result)

variable (T) (M : Machine Op Res Event Choice State) (cond : Condition Op Event Choice State)

/-- An invariant of the place and the state survives every step that meets the
condition. -/
structure Inductive (Inv : Place → State → Prop) : Prop where
  event : ∀ place e s s', Inv place s → cond.event e s → M.event e s = some s' → Inv place s'
  stay : ∀ place op choice s s', Inv place s → T.admits op place → cond.call op choice s →
    M.call op choice s = some (.stay s') → Inv place s'
  answer : ∀ place op choice s result s', Inv place s → T.admits op place →
    cond.call op choice s → M.call op choice s = some (.answer result s') →
    Inv (T.next op result place) s'

variable {T M cond} {Inv base : Place → State → Prop}

/-- An invariant may rely on another one, before and after each step. -/
theorem Inductive.and (h : T.Inductive M cond base)
    (event : ∀ place e s s', base place s → base place s' → Inv place s → cond.event e s →
      M.event e s = some s' → Inv place s')
    (stay : ∀ place op choice s s', base place s → base place s' → Inv place s →
      T.admits op place → cond.call op choice s → M.call op choice s = some (.stay s') →
      Inv place s')
    (answer : ∀ place op choice s result s', base place s → base (T.next op result place) s' →
      Inv place s → T.admits op place → cond.call op choice s →
      M.call op choice s = some (.answer result s') → Inv (T.next op result place) s') :
    T.Inductive M cond fun place s => base place s ∧ Inv place s where
  event := by
    intro place e s s' inv meets fires
    have hBase := h.event place e s s' inv.1 meets fires
    exact ⟨hBase, event place e s s' inv.1 hBase inv.2 meets fires⟩
  stay := by
    intro place op choice s s' inv admitted meets calls
    have hBase := h.stay place op choice s s' inv.1 admitted meets calls
    exact ⟨hBase, stay place op choice s s' inv.1 hBase inv.2 admitted meets calls⟩
  answer := by
    intro place op choice s result s' inv admitted meets calls
    have hBase := h.answer place op choice s result s' inv.1 admitted meets calls
    exact ⟨hBase, answer place op choice s result s' inv.1 hBase inv.2 admitted meets calls⟩

/-- An invariant holds in the runs of a stronger condition as well. -/
theorem Inductive.mono (h : T.Inductive M cond Inv) {cond' : Condition Op Event Choice State}
    (event : ∀ e s, cond'.event e s → cond.event e s)
    (call : ∀ op choice s, cond'.call op choice s → cond.call op choice s) :
    T.Inductive M cond' Inv where
  event := fun place e s s' inv meets => h.event place e s s' inv (event e s meets)
  stay := fun place op choice s s' inv admitted meets =>
    h.stay place op choice s s' inv admitted (call op choice s meets)
  answer := fun place op choice s result s' inv admitted meets =>
    h.answer place op choice s result s' inv admitted (call op choice s meets)

section Server

variable {S : Server Op Res Event Choice State Req α} {rest : Place}
  {results : Req → α → Place → Prop}

/-- The invariant at the place of the thread, which rests between requests. -/
def Located (T : Typestate Op Res Place) (Inv : Place → State → Prop) (rest : Place)
    (results : Req → α → Place → Prop) : Stage Op Res State Req α → Prop
  | .idle s => Inv rest s
  | .busy req c => ∃ place, Inv place c.state ∧ T.Follows (results req) c.thread place

/-- Wherever the thread is, the invariant holds of its place. -/
theorem Located.holds {stage : Stage Op Res State Req α} (h : T.Located Inv rest results stage) :
    ∃ place, Inv place stage.state := by
  cases stage with
  | idle s => exact ⟨rest, h⟩
  | busy req c =>
      obtain ⟨place, inv, -⟩ := h
      exact ⟨place, inv⟩

/-- The run rule: requests whose code is in order keep an invariant of the places. -/
theorem located_of_reaches (h : T.Inductive S.machine cond Inv)
    (follows : ∀ req, T.Follows (results req) (S.body req) rest)
    (returns : ∀ req result place s, results req result place → Inv place s → Inv rest s)
    {start : State} (initial : Inv rest start) {stage : Stage Op Res State Req α}
    (reaches : S.Reaches cond start stage) : T.Located Inv rest results stage := by
  induction reaches with
  | start => exact initial
  | request prior req ih => exact ⟨rest, ih, follows req⟩
  | event prior e meets fires ih => exact h.event rest e _ _ ih meets fires
  | step prior last ih =>
      obtain ⟨place, inv, order⟩ := ih
      cases last with
      | event e meets fires => exact ⟨place, h.event place e _ _ inv meets fires, order⟩
      | @stay s s' op next choice meets calls =>
          exact ⟨place, h.stay place op choice s s' inv order.1 meets calls, order⟩
      | @answer s s' op next choice result meets calls =>
          exact ⟨T.next op result place,
            h.answer place op choice s result s' inv order.1 meets calls, order.2 result⟩
  | finish prior ih =>
      obtain ⟨place, inv, returned⟩ := ih
      exact returns _ _ place _ returned inv

end Server
end Typestate
end Interaction

import NukiBridge.Interaction.Machine

/-! Proof outlines for a thread under interference. Each call of the code gets an
assertion that the events of the environment cannot falsify; the rules below
build an outline along the code, and its soundness carries the assertions to
every configuration of every run. A global invariant, proved once for all
steps, may be used in each of them. -/
namespace Interaction

variable {Op : Type} {Res : Op → Type} {Event Choice State α β : Type}

/-- The setting of a group of outlines: the steps that are considered, an
invariant of all of them, and what must hold whenever the thread makes a call. -/
structure Rules (Op : Type) (Res : Op → Type) (Event Choice State : Type) where
  machine : Machine Op Res Event Choice State
  condition : Condition Op Event Choice State
  invariant : State → Prop
  safe : Op → State → Prop

namespace Rules

variable (R : Rules Op Res Event Choice State)

/-- The global invariant survives every step that meets the condition. -/
structure Sound : Prop where
  event : ∀ e s s', R.invariant s → R.condition.event e s → R.machine.event e s = some s' →
    R.invariant s'
  stay : ∀ op choice s s', R.invariant s → R.condition.call op choice s →
    R.machine.call op choice s = some (.stay s') → R.invariant s'
  answer : ∀ op choice s result s', R.invariant s → R.condition.call op choice s →
    R.machine.call op choice s = some (.answer result s') → R.invariant s'

/-- No event falsifies the assertion. -/
def Stable (I : State → Prop) : Prop :=
  ∀ e s s', R.invariant s → R.invariant s' → I s → R.condition.event e s →
    R.machine.event e s = some s' → I s'

/-- The assertion survives the steps that stay inside a call. -/
def Stays (op : Op) (I : State → Prop) : Prop :=
  ∀ choice s s', R.invariant s → R.invariant s' → I s → R.condition.call op choice s →
    R.machine.call op choice s = some (.stay s') → I s'

/-- What is known right after `op` was called under `I` and answered `result`. -/
def After (op : Op) (I : State → Prop) (result : Res op) (s' : State) : Prop :=
  ∃ choice s, R.invariant s ∧ I s ∧ R.condition.call op choice s ∧
    R.machine.call op choice s = some (.answer result s')

/-- The code, started where `pre` holds, keeps every call safe and returns only
where `post` holds. -/
def Outline (post : α → State → Prop) : Program Op Res α → (State → Prop) → Prop
  | .done result, pre => ∃ I, (∀ s, R.invariant s → pre s → I s) ∧ R.Stable I ∧
      ∀ s, R.invariant s → I s → post result s
  | .call op next, pre => ∃ I, (∀ s, R.invariant s → pre s → I s) ∧ R.Stable I ∧
      R.Stays op I ∧ (∀ s, R.invariant s → I s → R.safe op s) ∧
      ∀ result, Outline post (next result) (R.After op I result)

variable {R} {post : α → State → Prop} {pre : State → Prop}

/-- An outline may be used where more is known. -/
theorem Outline.mono {p : Program Op Res α} {pre' : State → Prop} (h : R.Outline post p pre)
    (stronger : ∀ s, R.invariant s → pre' s → pre s) : R.Outline post p pre' := by
  cases p with
  | done result =>
      obtain ⟨I, entails, rest⟩ := h
      exact ⟨I, fun s inv hs => entails s inv (stronger s inv hs), rest⟩
  | call op next =>
      obtain ⟨I, entails, rest⟩ := h
      exact ⟨I, fun s inv hs => entails s inv (stronger s inv hs), rest⟩

/-- An outline also proves everything that its postcondition entails. -/
theorem Outline.weaken {p : Program Op Res α} {post' : α → State → Prop}
    (h : R.Outline post p pre)
    (weaker : ∀ result s, R.invariant s → post result s → post' result s) :
    R.Outline post' p pre := by
  induction p generalizing pre with
  | done result =>
      obtain ⟨I, entails, stable, returns⟩ := h
      exact ⟨I, entails, stable, fun s inv hs => weaker _ s inv (returns s inv hs)⟩
  | call op next ih =>
      obtain ⟨I, entails, stable, stays, safe, rest⟩ := h
      exact ⟨I, entails, stable, stays, safe, fun result => ih result (rest result)⟩

theorem Outline.done {result : α} (stable : R.Stable pre)
    (returns : ∀ s, R.invariant s → pre s → post result s) :
    R.Outline post (.done result) pre :=
  ⟨pre, fun _ _ h => h, stable, returns⟩

/-- Where nothing can be, everything is outlined. -/
theorem Outline.absurd (p : Program Op Res α) (never : ∀ s, R.invariant s → ¬pre s) :
    R.Outline post p pre := by
  have entails : ∀ s, R.invariant s → pre s → False := never
  induction p generalizing pre with
  | done result => exact ⟨fun _ => False, entails, fun _ _ _ _ _ h => h.elim, fun _ _ h => h.elim⟩
  | call op next ih =>
      refine ⟨fun _ => False, entails, fun _ _ _ _ _ h => h.elim, fun _ _ _ _ _ h => h.elim,
        fun _ _ h => h.elim, fun result => ih result ?_ ?_⟩
      all_goals
        rintro s' inv ⟨choice, s, -, h, -⟩
        exact h

/-- A call under a stable assertion, followed by what its answer leaves. -/
theorem Outline.call {op : Op} {next : Res op → Program Op Res α} (stable : R.Stable pre)
    (stays : R.Stays op pre) (safe : ∀ s, R.invariant s → pre s → R.safe op s)
    (mid : Res op → State → Prop)
    (answers : ∀ choice s result s', R.invariant s → R.invariant s' → pre s →
      R.condition.call op choice s → R.machine.call op choice s = some (.answer result s') →
      mid result s')
    (rest : ∀ result, R.Outline post (next result) (mid result)) :
    R.Outline post (.call op next) pre := by
  refine ⟨pre, fun _ _ h => h, stable, stays, safe, fun result => (rest result).mono ?_⟩
  rintro s' inv' ⟨choice, s, inv, hs, meets, calls⟩
  exact answers choice s result s' inv inv' hs meets calls

/-- Code that runs in sequence is outlined in sequence, with an assertion in between for each
result. -/
theorem Outline.bind {p : Program Op Res β} {more : β → Program Op Res α}
    (mid : β → State → Prop) (first : R.Outline mid p pre)
    (rest : ∀ result, R.Outline post (more result) (mid result)) :
    R.Outline post (p.bind more) pre := by
  induction p generalizing pre with
  | done result =>
      obtain ⟨I, entails, stable, returns⟩ := first
      exact (rest result).mono fun s inv hs => returns s inv (entails s inv hs)
  | call op next ih =>
      obtain ⟨I, entails, stable, stays, safe, tail⟩ := first
      exact ⟨I, entails, stable, stays, safe, fun result => ih result (tail result)⟩

/-- Inlined procedures that each keep an assertion keep it in sequence, and return what the
code can return. -/
theorem Outline.inline {Op' : Type} {Res' : Op' → Type} {I : State → Prop}
    {body : (op : Op') → Program Op Res (Res' op)} (stable : R.Stable I)
    (each : ∀ op, R.Outline (fun _ => I) (body op) I) (p : Program Op' Res' α) :
    R.Outline (fun result s => p.Yields result ∧ I s) (p.inline body) I := by
  induction p with
  | done result => exact .done stable fun _ _ h => ⟨.done result, h⟩
  | call op next ih =>
      apply Outline.bind (fun _ => I) (each op)
      intro answer
      apply (ih answer).weaken
      intro result s _ h
      exact ⟨.call answer h.1, h.2⟩

/-- A configuration from which an outline still runs. -/
def Covered (R : Rules Op Res Event Choice State) (post : α → State → Prop)
    (c : Config Op Res State α) : Prop :=
  R.invariant c.state ∧ ∃ pre, pre c.state ∧ R.Outline post c.thread pre

theorem Covered.step (sound : R.Sound) {c d : Config Op Res State α} (h : R.Covered post c)
    (step : R.machine.Step R.condition c d) : R.Covered post d := by
  obtain ⟨inv, pre, hpre, outline⟩ := h
  cases step with
  | @event s s' p e meets fires =>
      have inv' := sound.event e s s' inv meets fires
      refine ⟨inv', ?_⟩
      cases p with
      | done result =>
          obtain ⟨I, entails, stable, returns⟩ := outline
          exact ⟨I, stable e s s' inv inv' (entails s inv hpre) meets fires,
            .done stable returns⟩
      | call op next =>
          obtain ⟨I, entails, stable, stays, safe, rest⟩ := outline
          exact ⟨I, stable e s s' inv inv' (entails s inv hpre) meets fires,
            I, fun _ _ h => h, stable, stays, safe, rest⟩
  | @stay s s' op next choice meets calls =>
      have inv' := sound.stay op choice s s' inv meets calls
      obtain ⟨I, entails, stable, stays, safe, rest⟩ := outline
      exact ⟨inv', I, stays choice s s' inv inv' (entails s inv hpre) meets calls,
        I, fun _ _ h => h, stable, stays, safe, rest⟩
  | @answer s s' op next choice result meets calls =>
      have inv' := sound.answer op choice s result s' inv meets calls
      obtain ⟨I, entails, stable, stays, safe, rest⟩ := outline
      exact ⟨inv', R.After op I result, ⟨choice, s, inv, entails s inv hpre, meets, calls⟩,
        rest result⟩

/-- By induction on the run: an outline that covers its start covers every configuration it
reaches. -/
theorem Covered.runs (sound : R.Sound) {c d : Config Op Res State α} (h : R.Covered post c)
    (run : R.machine.Runs R.condition c d) : R.Covered post d := by
  induction run with
  | refl => exact h
  | tail prior last ih => exact ih.step sound last

/-- In a covered configuration the next call is safe. This is where outlines give what they were
made for. -/
theorem Covered.safe {s : State} {op : Op} {next : Res op → Program Op Res α}
    (h : R.Covered post ⟨s, .call op next⟩) : R.safe op s := by
  obtain ⟨inv, pre, hpre, I, entails, -, -, safe, -⟩ := h
  exact safe s inv (entails s inv hpre)

/-- In a covered configuration that has returned, the postcondition holds of the result and the
state. -/
theorem Covered.returned {s : State} {result : α}
    (h : R.Covered post ⟨s, .done result⟩) : post result s := by
  obtain ⟨inv, pre, hpre, I, entails, -, returns⟩ := h
  exact returns s inv (entails s inv hpre)

/-- Requests whose code is outlined between states where `rest` holds meet an outline in
everything that can be reached. -/
theorem covered_of_reaches {Req : Type} {body : Req → Program Op Res α} {rest : State → Prop}
    (sound : R.Sound) (stable : R.Stable rest)
    (outlines : ∀ req, R.Outline (fun _ => rest) (body req) rest) {start : State}
    (initial : R.invariant start ∧ rest start) {stage : Stage Op Res State Req α}
    (reaches : (⟨R.machine, body⟩ : Server Op Res Event Choice State Req α).Reaches
      R.condition start stage) :
    match stage with
    | .idle s => R.invariant s ∧ rest s
    | .busy _ c => R.Covered (fun _ => rest) c := by
  induction reaches with
  | start => exact initial
  | request prior req ih => exact ⟨ih.1, rest, ih.2, outlines req⟩
  | event prior e meets fires ih =>
      have inv := sound.event e _ _ ih.1 meets fires
      exact ⟨inv, stable e _ _ ih.1 inv ih.2 meets fires⟩
  | step prior last ih => exact ih.step sound last
  | finish prior ih => exact ⟨ih.1, ih.returned⟩

end Rules
end Interaction

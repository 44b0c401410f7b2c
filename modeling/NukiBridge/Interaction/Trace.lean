import NukiBridge.Interaction.Typestate

/-! What code does, as seen from its environment: the calls it makes, each with the
answer it got. The traces of code are all it can do, whatever is answered; a run that
keeps a record of its calls records one of them. -/
namespace Interaction

/-- A call and its answer. -/
structure Exchange (Op : Type) (Res : Op → Type) where
  op : Op
  answer : Res op

variable {Op Op' : Type} {Res : Op → Type} {Res' : Op' → Type} {α β : Type}

namespace Program

/-- The code makes these calls, is answered so, and returns this result. -/
inductive Traces : Program Op Res α → List (Exchange Op Res) → α → Prop where
  | done (result : α) : Traces (.done result) [] result
  | call {op : Op} {next : Res op → Program Op Res α} {trace : List (Exchange Op Res)}
      {result : α} (answer : Res op) (rest : Traces (next answer) trace result) :
      Traces (.call op next) (⟨op, answer⟩ :: trace) result

variable {trace trace' : List (Exchange Op Res)} {result result' : α}

theorem Traces.of_done (h : (Program.done result : Program Op Res α).Traces trace result') :
    trace = [] ∧ result' = result := by
  cases h
  exact ⟨rfl, rfl⟩

/-- A trace of a call begins with the call and some answer to it. -/
theorem Traces.of_call {op : Op} {next : Res op → Program Op Res α}
    (h : (Program.call op next).Traces trace result) :
    ∃ answer rest, trace = ⟨op, answer⟩ :: rest ∧ (next answer).Traces rest result := by
  cases h with
  | call answer rest => exact ⟨answer, _, rfl, rest⟩

theorem traces_call_iff {op : Op} {next : Res op → Program Op Res α} {answer : Res op} :
    (Program.call op next).Traces (⟨op, answer⟩ :: trace) result ↔
      (next answer).Traces trace result := by
  constructor
  · intro h
    cases h with
    | call answer rest => exact rest
  · exact .call answer

/-- A single call and the code after it. -/
theorem Traces.of_perform {op : Op} {more : Res op → Program Op Res α}
    (h : ((perform op).bind more).Traces trace result) :
    ∃ answer rest, trace = ⟨op, answer⟩ :: rest ∧ (more answer).Traces rest result :=
  h.of_call

/-- Code in sequence has its traces in sequence, for each result the first part can have. -/
theorem Traces.bind {p : Program Op Res β} {more : β → Program Op Res α} {middle : β}
    (first : p.Traces trace middle) (rest : (more middle).Traces trace' result) :
    (p.bind more).Traces (trace ++ trace') result := by
  induction first with
  | done middle => exact rest
  | call answer _ ih => exact .call answer (ih rest)

/-- A trace of a sequence is cut where the first part returned. Nearly all facts about traces of the
modelled code start with this. -/
theorem Traces.of_bind {p : Program Op Res β} {more : β → Program Op Res α}
    (h : (p.bind more).Traces trace result) :
    ∃ first rest middle, trace = first ++ rest ∧ p.Traces first middle ∧
      (more middle).Traces rest result := by
  induction p generalizing trace with
  | done middle => exact ⟨[], trace, middle, rfl, .done middle, h⟩
  | call op next ih =>
      obtain ⟨answer, tail, rfl, hTail⟩ := h.of_call
      obtain ⟨first, rest, middle, rfl, hFirst, hRest⟩ := ih answer hTail
      exact ⟨⟨op, answer⟩ :: first, rest, middle, rfl, .call answer hFirst, hRest⟩

/-- With procedures inlined, each call of the code is a trace of its procedure. -/
theorem Traces.of_inline {body : (op : Op') → Program Op Res (Res' op)} {p : Program Op' Res' α}
    (h : (p.inline body).Traces trace result) :
    ∃ calls, p.Traces calls result ∧
      ∀ e ∈ calls, ∃ piece, piece ⊆ trace ∧ (body e.op).Traces piece e.answer := by
  induction p generalizing trace with
  | done middle =>
      obtain ⟨-, rfl⟩ := h.of_done
      exact ⟨[], .done result, fun e he => absurd he List.not_mem_nil⟩
  | call op next ih =>
      obtain ⟨first, rest, answer, rfl, hFirst, hRest⟩ := Traces.of_bind h
      obtain ⟨calls, hCalls, hPieces⟩ := ih answer hRest
      refine ⟨⟨op, answer⟩ :: calls, .call answer hCalls, ?_⟩
      intro e he
      rcases List.mem_cons.mp he with rfl | he
      · exact ⟨first, List.subset_append_left _ _, hFirst⟩
      · obtain ⟨piece, hPiece, hTraces⟩ := hPieces e he
        exact ⟨piece, List.subset_append_of_subset_right _ hPiece, hTraces⟩

/-- What code can return, it returns in some trace. -/
theorem Yields.exists_trace {p : Program Op Res α} {result : α} (h : p.Yields result) :
    ∃ trace, p.Traces trace result := by
  induction h with
  | done result => exact ⟨[], .done result⟩
  | call answer _ ih =>
      obtain ⟨trace, hTrace⟩ := ih
      exact ⟨_, .call answer hTrace⟩

/-- The trace against an environment that answers the calls by their number. -/
def transcript (answers : Nat → (op : Op) → Res op) :
    Program Op Res α → Nat → List (Exchange Op Res) × α
  | .done result, _ => ([], result)
  | .call op next, n =>
      let (rest, result) := (next (answers n op)).transcript answers (n + 1)
      (⟨op, answers n op⟩ :: rest, result)

/-- Whatever the environment answers, there is a trace: the one that is written down while running
against it. -/
theorem traces_transcript (answers : Nat → (op : Op) → Res op) (p : Program Op Res α) (n : Nat) :
    p.Traces (p.transcript answers n).1 (p.transcript answers n).2 := by
  induction p generalizing n with
  | done result => exact .done result
  | call op next ih => exact .call _ (ih _ (n + 1))

/-- Code makes only calls of its kind. -/
theorem Traces.makes {kind : Op → Prop} {p : Program Op Res α} (h : p.Traces trace result)
    (makes : p.Makes kind) : ∀ e ∈ trace, kind e.op := by
  induction h with
  | done result => exact fun e he => absurd he List.not_mem_nil
  | call answer _ ih => exact List.forall_mem_cons.mpr ⟨makes.1, ih (makes.2 answer)⟩

/-- Code whose calls all have answers has a trace, by induction on the code. -/
theorem exists_traces [∀ op, Nonempty (Res op)] (p : Program Op Res α) :
    ∃ trace result, p.Traces trace result :=
  ⟨_, _, p.traces_transcript (fun _ op => Classical.choice (inferInstance : Nonempty (Res op))) 0⟩

end Program

/-- Code that is in order makes only calls that are admitted at their place, in each of its
traces. -/
theorem Typestate.Follows.admits {Place : Type} {T : Typestate Op Res Place}
    {post : α → Place → Prop} {p : Program Op Res α} {place : Place}
    {trace : List (Exchange Op Res)} {result : α} (h : T.Follows post p place)
    (traces : p.Traces trace result) : ∀ e ∈ trace, ∃ place', T.admits e.op place' := by
  induction traces generalizing place with
  | done result => exact fun e he => absurd he List.not_mem_nil
  | call answer rest ih =>
      intro e he
      rcases List.mem_cons.mp he with rfl | he
      · exact ⟨place, h.1⟩
      · exact ih (h.2 answer) e he

namespace Machine

variable {Event Choice State : Type} {M : Machine Op Res Event Choice State}
  {cond : Condition Op Event Choice State} {record : State → List (Exchange Op Res)}

/-- A run leaves a trace of answers that the machine gave. -/
theorem Runs.traces {c d : Config Op Res State α} (run : M.Runs cond c d) :
    ∃ trace : List (Exchange Op Res),
      (∀ e ∈ trace, ∃ choice s s', M.call e.op choice s = some (.answer e.answer s')) ∧
      ∀ rest result, d.thread.Traces rest result → c.thread.Traces (trace ++ rest) result := by
  induction run with
  | refl => exact ⟨[], fun _ he => absurd he List.not_mem_nil, fun _ _ hRest => hRest⟩
  | tail _ last ih =>
      obtain ⟨trace, hAnswers, hTraces⟩ := ih
      cases last with
      | event => exact ⟨trace, hAnswers, hTraces⟩
      | stay => exact ⟨trace, hAnswers, hTraces⟩
      | @answer s s' op next choice result _ calls =>
          refine ⟨trace ++ [⟨op, result⟩], ?_, ?_⟩
          · intro e he
            rcases List.mem_append.mp he with hEarlier | hLast
            · exact hAnswers e hEarlier
            · obtain rfl := List.mem_singleton.mp hLast
              exact ⟨choice, s, s', calls⟩
          · intro rest final hRest
            rw [List.append_assoc]
            exact hTraces (⟨op, result⟩ :: rest) final (.call result hRest)

/-- The state keeps a record of the calls of the thread. -/
structure Records (M : Machine Op Res Event Choice State)
    (record : State → List (Exchange Op Res)) : Prop where
  event : ∀ e s s', M.event e s = some s' → record s' = record s
  stay : ∀ op choice s s', M.call op choice s = some (.stay s') → record s' = record s
  answer : ∀ op choice s result s', M.call op choice s = some (.answer result s') →
    record s' = record s ++ [⟨op, result⟩]

/-- What a run adds to the record, followed by a trace of the code that is left, is a
trace of the code it began with. -/
theorem Records.runs (h : M.Records record) {c d : Config Op Res State α}
    (run : M.Runs cond c d) :
    ∃ trace, record d.state = record c.state ++ trace ∧
      ∀ rest result, d.thread.Traces rest result → c.thread.Traces (trace ++ rest) result := by
  induction run with
  | refl => exact ⟨[], (List.append_nil _).symm, fun _ _ hRest => hRest⟩
  | tail _ last ih =>
      obtain ⟨trace, hRecord, hTraces⟩ := ih
      cases last with
      | event e _ fires => exact ⟨trace, (h.event e _ _ fires).trans hRecord, hTraces⟩
      | stay choice _ calls => exact ⟨trace, (h.stay _ choice _ _ calls).trans hRecord, hTraces⟩
      | @answer s s' op next choice result _ calls =>
          refine ⟨trace ++ [⟨op, result⟩], ?_, ?_⟩
          · rw [h.answer op choice s result s' calls, hRecord, List.append_assoc]
          · intro rest final hRest
            rw [List.append_assoc]
            exact hTraces (⟨op, result⟩ :: rest) final (.call result hRest)

end Machine
end Interaction

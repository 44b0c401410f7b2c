import Mathlib.Data.List.Basic
import NukiBridge.Interaction.Program

/-! Code that gives up at its first error, run against an environment that keeps
a record of what the code has sent. A sequence of attempts succeeds exactly if
each of them does, and what it has sent by the time it gives up is an initial
part of what it sends when it succeeds. -/
namespace Interaction

variable {Op : Type} {Res : Op → Type} {α β σ ε μ : Type}

/-- Code whose result is an error or a value. -/
abbrev Attempt (Op : Type) (Res : Op → Type) (ε : Type) := ExceptT ε (Program Op Res)

/-- From the state `s` the attempt succeeds exactly if `works`, with this value and
state; it sends `messages`, or an initial part of them if it fails. -/
structure Settles (answer : (op : Op) → σ → Res op × σ) (record : σ → List μ)
    (failure : ε → Prop) (code : Attempt Op Res ε α) (s : σ) (works : Prop) (messages : List μ)
    (value : α) (s' : σ) : Prop where
  succeeds : works → code.run.run answer s = (.ok value, s')
  records : record s' = record s ++ messages
  fails : ¬works → ∃ error s'' sent, code.run.run answer s = (.error error, s'') ∧
    failure error ∧ sent <+: messages ∧ record s'' = record s ++ sent

namespace Settles

variable {answer : (op : Op) → σ → Res op × σ} {record : σ → List μ} {failure : ε → Prop}

theorem pure (value : α) (s : σ) :
    Settles answer record failure (Pure.pure value) s True [] value s where
  succeeds := fun _ => rfl
  records := (List.append_nil _).symm
  fails := fun h => absurd trivial h

/-- Attempts in sequence: the second one runs where the first one succeeds, and its conditions are
added. -/
theorem bind {first : Attempt Op Res ε α} {next : α → Attempt Op Res ε β} {s s' s'' : σ}
    {works works' : Prop} {messages messages' : List μ} {value : α} {value' : β}
    (h : Settles answer record failure first s works messages value s')
    (h' : Settles answer record failure (next value) s' works' messages' value' s'') :
    Settles answer record failure (first >>= next) s (works ∧ works') (messages ++ messages')
      value' s'' where
  succeeds := by
    intro hWorks
    rw [ExceptT.run_bind, Program.bind_eq, Program.run_bind, h.succeeds hWorks.1]
    exact h'.succeeds hWorks.2
  records := by
    rw [h'.records, h.records, List.append_assoc]
  fails := by
    intro hFails
    rw [ExceptT.run_bind, Program.bind_eq, Program.run_bind]
    by_cases hFirst : works
    · obtain ⟨error, final, sent, hRun, hError, hSent, hRecord⟩ :=
        h'.fails fun hNext => hFails ⟨hFirst, hNext⟩
      rw [h.succeeds hFirst]
      refine ⟨error, final, messages ++ sent, hRun, hError, ?_, ?_⟩
      · exact (List.prefix_append_right_inj messages).mpr hSent
      · rw [hRecord, h.records, List.append_assoc]
    · obtain ⟨error, final, sent, hRun, hError, hSent, hRecord⟩ := h.fails hFirst
      rw [hRun]
      exact ⟨error, final, sent, rfl, hError, hSent.trans (List.prefix_append _ _), hRecord⟩

/-- The condition may be put in other words. -/
theorem congr {code : Attempt Op Res ε α} {s s' : σ} {works works' : Prop} {messages : List μ}
    {value : α} (h : Settles answer record failure code s works messages value s')
    (same : works ↔ works') :
    Settles answer record failure code s works' messages value s' :=
  propext same ▸ h

end Settles
end Interaction

import Mathlib.Logic.Basic

/-! Sequential code as a tree of calls to its environment. A call names an
operation and the code continues with whatever the environment answers, so one
program text can be run against a scripted environment or interleaved with
other threads. Every branch of the tree is finite. -/
namespace Interaction

/-- Code over the operations `Op`, where `Res op` is the type of the answer to `op`. -/
inductive Program (Op : Type) (Res : Op → Type) (α : Type) where
  | done (result : α)
  | call (op : Op) (next : Res op → Program Op Res α)

variable {Op Op' : Type} {Res : Op → Type} {Res' : Op' → Type} {α β γ σ : Type}

namespace Program

/-- Continue with `more` where the program returns. -/
def bind : Program Op Res α → (α → Program Op Res β) → Program Op Res β
  | .done result, more => more result
  | .call op next, more => .call op (fun answer => (next answer).bind more)

/-- A single call whose answer is returned. -/
def perform (op : Op) : Program Op Res (Res op) := .call op .done

instance : Monad (Program Op Res) where
  pure := .done
  bind := bind

@[simp] theorem pure_eq (result : α) : (pure result : Program Op Res α) = .done result := rfl

@[simp] theorem bind_eq (p : Program Op Res α) (more : α → Program Op Res β) :
    p >>= more = p.bind more := rfl

@[simp] theorem done_bind (result : α) (more : α → Program Op Res β) :
    (Program.done result).bind more = more result := rfl

@[simp] theorem call_bind (op : Op) (next : Res op → Program Op Res α)
    (more : α → Program Op Res β) :
    (Program.call op next).bind more = .call op (fun answer => (next answer).bind more) := rfl

theorem bind_done (p : Program Op Res α) : p.bind .done = p := by
  induction p with
  | done result => rfl
  | call op next ih => rw [call_bind, funext ih]

theorem bind_assoc (p : Program Op Res α) (f : α → Program Op Res β) (g : β → Program Op Res γ) :
    (p.bind f).bind g = p.bind (fun result => (f result).bind g) := by
  induction p with
  | done result => rfl
  | call op next ih =>
      simp only [call_bind]
      congr 1
      funext answer
      exact ih answer

theorem ite_bind (c : Prop) [Decidable c] (p q : Program Op Res α)
    (more : α → Program Op Res β) :
    (if c then p else q).bind more = if c then p.bind more else q.bind more := by
  split <;> rfl

/-- Replace every call by a program over other operations: inline the bodies of
the procedures that the code calls. -/
def inline (body : (op : Op) → Program Op' Res' (Res op)) :
    Program Op Res α → Program Op' Res' α
  | .done result => .done result
  | .call op next => (body op).bind (fun answer => (next answer).inline body)

/-- Putting code in the place of calls goes through sequences, so a program may be linked function
by function. -/
theorem inline_bind (body : (op : Op) → Program Op' Res' (Res op)) (p : Program Op Res α)
    (more : α → Program Op Res β) :
    (p.bind more).inline body = (p.inline body).bind (fun result => (more result).inline body) := by
  induction p with
  | done result => rfl
  | call op next ih =>
      simp only [call_bind, inline, bind_assoc]
      congr 1
      funext answer
      exact ih answer

/-- What the code can return, over all answers of its environment. -/
inductive Yields : Program Op Res α → α → Prop where
  | done (result : α) : Yields (.done result) result
  | call {op : Op} {next : Res op → Program Op Res α} {result : α} (answer : Res op)
      (rest : Yields (next answer) result) : Yields (.call op next) result

/-- A result that the first part can return, and one that the rest can return after it. -/
theorem Yields.bind {p : Program Op Res α} {more : α → Program Op Res β} {middle : α} {result : β}
    (first : p.Yields middle) (rest : (more middle).Yields result) :
    (p.bind more).Yields result := by
  induction first with
  | done middle => exact rest
  | call answer _ ih => exact .call answer (ih rest)

/-- Every call that the code can make is of this kind. -/
def Makes (kind : Op → Prop) : Program Op Res α → Prop
  | .done _ => True
  | .call op next => kind op ∧ ∀ answer, (next answer).Makes kind

theorem makes_done {kind : Op → Prop} (result : α) :
    (Program.done result : Program Op Res α).Makes kind := trivial

/-- One call of this kind, and code after it that makes no others. -/
theorem makes_perform {kind : Op → Prop} {op : Op} {more : Res op → Program Op Res α}
    (first : kind op) (rest : ∀ answer, (more answer).Makes kind) :
    ((perform op).bind more).Makes kind :=
  ⟨first, rest⟩

/-- What a sequence calls is what its parts call. -/
theorem Makes.bind {kind : Op → Prop} {p : Program Op Res α} {more : α → Program Op Res β}
    (first : p.Makes kind) (rest : ∀ result, (more result).Makes kind) :
    (p.bind more).Makes kind := by
  induction p with
  | done result => exact rest result
  | call op next ih => exact ⟨first.1, fun answer => ih answer (first.2 answer)⟩

/-- With procedures inlined, the code makes the calls that they make. -/
theorem Makes.inline {kind : Op → Prop} {kind' : Op' → Prop}
    {body : (op : Op) → Program Op' Res' (Res op)} {p : Program Op Res α} (h : p.Makes kind)
    (each : ∀ op, kind op → (body op).Makes kind') : (p.inline body).Makes kind' := by
  induction p with
  | done result => trivial
  | call op next ih => exact (each op h.1).bind fun answer => ih answer (h.2 answer)

/-- What is left of code after its next call, whatever that answers. -/
inductive Remains : Program Op Res α → Program Op Res α → Prop where
  | next {op : Op} {next : Res op → Program Op Res α} (answer : Res op) :
      Remains (next answer) (.call op next)

/-- What remains of a program gets smaller with every answer, whichever it is. Termination arguments
rest on this. -/
theorem wellFounded_remains : WellFounded (@Remains Op Res α) := by
  constructor
  intro p
  induction p with
  | done result => exact ⟨_, nofun⟩
  | call op next ih =>
      constructor
      intro q hRest
      cases hRest with
      | next answer => exact ih answer

/-- Run against an environment that answers every call from its own state. -/
def run (answer : (op : Op) → σ → Res op × σ) : Program Op Res α → σ → α × σ
  | .done result, s => (result, s)
  | .call op next, s => (next (answer op s).1).run answer (answer op s).2

variable (answer : (op : Op) → σ → Res op × σ)

/-- What code returns against an environment is among what it can return. -/
theorem yields_run (p : Program Op Res α) (s : σ) : p.Yields (p.run answer s).1 := by
  induction p generalizing s with
  | done result => exact .done result
  | call op next ih => exact .call _ (ih _ _)

@[simp] theorem run_done (result : α) (s : σ) :
    (Program.done result : Program Op Res α).run answer s = (result, s) := rfl

@[simp] theorem run_call (op : Op) (next : Res op → Program Op Res α) (s : σ) :
    (Program.call op next).run answer s = (next (answer op s).1).run answer (answer op s).2 := rfl

@[simp] theorem run_perform (op : Op) (s : σ) :
    (perform op : Program Op Res (Res op)).run answer s = answer op s := rfl

/-- Running code in sequence against an environment: the second part starts in the state in which
the first one left it. -/
@[simp] theorem run_bind (p : Program Op Res α) (more : α → Program Op Res β) (s : σ) :
    (p.bind more).run answer s = (more (p.run answer s).1).run answer (p.run answer s).2 := by
  induction p generalizing s with
  | done result => rfl
  | call op next ih => exact ih _ _

theorem run_ite (c : Prop) [Decidable c] (p q : Program Op Res α) (s : σ) :
    (if c then p else q).run answer s = if c then p.run answer s else q.run answer s := by
  split <;> rfl

/-- Inlined procedures run as if their callers' environment answered with their results. -/
theorem run_inline {answer : (op : Op') → σ → Res' op × σ}
    (body : (op : Op) → Program Op' Res' (Res op)) (p : Program Op Res α) (s : σ) :
    (p.inline body).run answer s = p.run (fun op s => (body op).run answer s) s := by
  induction p generalizing s with
  | done result => rfl
  | call op next ih =>
      rw [inline, run_bind, run_call]
      exact ih _ _

end Program
end Interaction

import Mathlib.Algebra.GroupWithZero.Nat
import NukiBridge.Interaction.Trace

/-! Code that stops at its first error. Some answers of calls are failures; after one of
them the code only cleans up, and what it returns is an error. Beside that, what its calls
may have to wait is added up, and a typestate says which of them belong together. -/
namespace Interaction

variable {Op : Type} {Res : Op → Type} {Place α β : Type}

namespace Typestate

/-- Where a trace leads. -/
def after (T : Typestate Op Res Place) : List (Exchange Op Res) → Place → Place
  | [], place => place
  | e :: rest, place => T.after rest (T.next e.op e.answer place)

/-- Every call of the trace is admitted where it is made. -/
def Admits (T : Typestate Op Res Place) : List (Exchange Op Res) → Place → Prop
  | [], _ => True
  | e :: rest, place => T.admits e.op place ∧ T.Admits rest (T.next e.op e.answer place)

variable {T : Typestate Op Res Place} {trace trace' : List (Exchange Op Res)} {place : Place}

@[simp] theorem after_nil : T.after [] place = place := rfl

@[simp] theorem after_cons (e : Exchange Op Res) :
    T.after (e :: trace) place = T.after trace (T.next e.op e.answer place) := rfl

theorem after_append : T.after (trace ++ trace') place = T.after trace' (T.after trace place) := by
  induction trace generalizing place with
  | nil => rfl
  | cons e rest ih => simp [ih]

theorem admits_append : T.Admits (trace ++ trace') place ↔
    T.Admits trace place ∧ T.Admits trace' (T.after trace place) := by
  induction trace generalizing place with
  | nil => simp [Admits]
  | cons e rest ih => simp [Admits, ih, and_assoc]

/-- Code that is in order leaves traces that are, and ends where they lead. -/
theorem Follows.traced {post : α → Place → Prop} {p : Program Op Res α} {result : α}
    (h : T.Follows post p place) (traces : p.Traces trace result) :
    T.Admits trace place ∧ post result (T.after trace place) := by
  induction traces generalizing place with
  | done result => exact ⟨trivial, h⟩
  | call answer _ ih =>
      obtain ⟨hRest, hPost⟩ := ih (h.2 answer)
      exact ⟨⟨h.1, hRest⟩, hPost⟩

/-- An invariant of the places holds along a run of code that is in order. -/
theorem Inductive.runs {Event Choice State : Type} {M : Machine Op Res Event Choice State}
    {cond : Condition Op Event Choice State} {Inv : Place → State → Prop}
    (h : T.Inductive M cond Inv) {post : α → Place → Prop} {c d : Config Op Res State α}
    (run : M.Runs cond c d) (inv : Inv place c.state) (follows : T.Follows post c.thread place) :
    ∃ place', Inv place' d.state ∧ T.Follows post d.thread place' := by
  induction run with
  | refl => exact ⟨place, inv, follows⟩
  | tail _ last ih =>
      obtain ⟨place', hInv, hFollows⟩ := ih
      cases last with
      | event e meets fires => exact ⟨place', h.event place' e _ _ hInv meets fires, hFollows⟩
      | @stay s s' op next choice meets calls =>
          exact ⟨place', h.stay place' op choice s s' hInv hFollows.1 meets calls, hFollows⟩
      | @answer s s' op next choice result meets calls =>
          exact ⟨T.next op result place',
            h.answer place' op choice s result s' hInv hFollows.1 meets calls, hFollows.2 result⟩

end Typestate

/-- Which answers are failures, and the error that each stands for; which calls may follow
a failure; what each call may take; and the errors that need no failure. -/
structure Discipline (Op : Type) (Res : Op → Type) (Error : Type) where
  fault : (op : Op) → Res op → Option Error
  cleans : Op → Prop
  waits : Op → Nat
  refuses : Error → Prop
  fault_of_cleans : ∀ {op}, cleans op → ∀ answer, fault op answer = none

/-- The place of the code, the error of the first call that failed, and what its calls
took. -/
structure Ledger (Place Error : Type) where
  place : Place
  fault : Option Error
  waited : Nat

namespace Discipline

variable {Error : Type} (D : Discipline Op Res Error) (T : Typestate Op Res Place)
  (rest : Place → Prop)

def ledger : Typestate Op Res (Ledger Place Error) where
  admits op l := (l.fault ≠ none → D.cleans op) ∧ T.admits op l.place
  next op answer l :=
    ⟨T.next op answer l.place, l.fault.or (D.fault op answer), l.waited + D.waits op⟩

@[simp] theorem ledger_next (op : Op) (answer : Res op) (l : Ledger Place Error) :
    (D.ledger T).next op answer l =
      ⟨T.next op answer l.place, l.fault.or (D.fault op answer), l.waited + D.waits op⟩ := rfl

/-- The error of the first failure is the one that is returned. Without a failure there is
a refusal or no error. -/
def Explains : Option Error → Option Error → Prop
  | some error, returned => returned = some error
  | none, returned => ∀ error, returned = some error → D.refuses error

/-- How code ends: in a place of rest, within its time, with the error that it met. -/
structure Ends (err : α → Option Error) (limit : Nat) (result : α) (l : Ledger Place Error) :
    Prop where
  resting : rest l.place
  within : l.waited ≤ limit
  explained : D.Explains l.fault (err result)

/-- Code that stops at its first error, run where a call may already have failed. -/
def Stops (err : α → Option Error) (bound : Nat) (fault : Option Error) (place : Place)
    (p : Program Op Res α) : Prop :=
  ∀ waited, (D.ledger T).Follows (D.Ends rest err (waited + bound)) p ⟨place, fault, waited⟩

variable {D T rest} {err : α → Option Error} {err' : β → Option Error} {bound bound' : Nat}
  {fault : Option Error} {place : Place}

theorem stops_done {result : α} (resting : rest place) (explained : D.Explains fault (err result)) :
    D.Stops T rest err bound fault place (.done result) := by
  intro waited
  exact ⟨resting, Nat.le_add_right waited bound, explained⟩

/-- One call and the code after it. After a fault it must be a cleaning call, and its timeout is
added to the bound. -/
theorem stops_call {op : Op} {more : Res op → Program Op Res α}
    (cleans : fault ≠ none → D.cleans op) (admitted : T.admits op place)
    (more_stops : ∀ answer, D.Stops T rest err bound (fault.or (D.fault op answer))
      (T.next op answer place) (more answer)) :
    D.Stops T rest err (D.waits op + bound) fault place ((Program.perform op).bind more) := by
  intro waited
  have hAdmits : (D.ledger T).admits op ⟨place, fault, waited⟩ := ⟨cleans, admitted⟩
  apply Typestate.Follows.step hAdmits
  intro answer
  rw [← Nat.add_assoc]
  exact more_stops answer _

/-- One call whose failure is checked for. The early return has this failure to explain, and the
rest has none. -/
theorem stops_checked {op : Op} {bad : Res op → Prop} [DecidablePred bad]
    {code : Res op → Error} {early more : Res op → Program Op Res α}
    (admitted : T.admits op place)
    (checks : ∀ answer, D.fault op answer = if bad answer then some (code answer) else none)
    (gives : ∀ answer, bad answer →
      D.Stops T rest err bound (some (code answer)) (T.next op answer place) (early answer))
    (goes : ∀ answer, ¬bad answer →
      D.Stops T rest err bound none (T.next op answer place) (more answer)) :
    D.Stops T rest err (D.waits op + bound) none place
      ((Program.perform op).bind fun answer =>
        if bad answer then early answer else more answer) := by
  apply stops_call
  · exact fun hNone => absurd rfl hNone
  · exact admitted
  intro answer
  rw [Option.none_or, checks]
  by_cases hBad : bad answer
  · rw [if_pos hBad, if_pos hBad]
    exact gives answer hBad
  · rw [if_neg hBad, if_neg hBad]
    exact goes answer hBad

theorem Stops.mono {p : Program Op Res α} (h : D.Stops T rest err bound fault place p)
    (le : bound ≤ bound') : D.Stops T rest err bound' fault place p := by
  intro waited
  apply (h waited).weaken
  intro result l ends
  exact ⟨ends.resting, Nat.le_trans ends.within (Nat.add_le_add_left le waited), ends.explained⟩

/-- What is done after a failure is done the same way after a refusal. -/
theorem Stops.refused {p : Program Op Res α} {error : Error}
    (h : D.Stops T rest err bound (some error) place p) (refusal : D.refuses error) :
    D.Stops T rest err bound none place p := by
  intro waited
  have hFollows := h waited
  generalize waited + bound = limit at hFollows ⊢
  clear h
  induction p generalizing place waited with
  | done result =>
      refine ⟨hFollows.resting, hFollows.within, ?_⟩
      intro returned hReturned
      have hError : err result = some error := hFollows.explained
      rw [hError] at hReturned
      exact Option.some.inj hReturned ▸ refusal
  | call op next ih =>
      have hCleans : D.cleans op := hFollows.1.1 (Option.some_ne_none error)
      refine ⟨⟨fun _ => hCleans, hFollows.1.2⟩, ?_⟩
      intro answer
      have hNext := ih answer _ (hFollows.2 answer)
      rwa [ledger_next, Option.none_or, D.fault_of_cleans hCleans]

/-- Code in sequence: it goes on after a success, and gives up after an error. -/
theorem Stops.bind {p : Program Op Res β} {more : β → Program Op Res α}
    (first : D.Stops T rest err' bound' fault place p)
    (goes : ∀ place' result, rest place' → err' result = none →
      D.Stops T rest err bound none place' (more result))
    (gives : ∀ place' result error, rest place' → err' result = some error →
      D.Stops T rest err bound (some error) place' (more result)) :
    D.Stops T rest err (bound' + bound) fault place (p.bind more) := by
  intro waited
  apply (first waited).bind
  rintro result ⟨place', fault', waited'⟩ ⟨resting, within, explained⟩
  have hMore : D.Stops T rest err bound fault' place' (more result) := by
    cases hErr : err' result with
    | none =>
        cases fault' with
        | none => exact goes place' result resting hErr
        | some error =>
            have hSome : err' result = some error := explained
            rw [hErr] at hSome
            cases hSome
    | some error =>
        have hGives := gives place' result error resting hErr
        cases fault' with
        | none => exact hGives.refused (explained error hErr)
        | some met =>
            have hSome : err' result = some met := explained
            rw [hErr] at hSome
            exact Option.some.inj hSome ▸ hGives
  apply (hMore waited').weaken
  intro final l ends
  refine ⟨ends.resting, ?_, ends.explained⟩
  have hWaited := ends.within
  have hWithin : waited' ≤ waited + bound' := within
  omega

section Traces

variable {p : Program Op Res α} {result : α}

variable (D) in
/-- The error of the first call of a trace that failed. -/
def firstFault (trace : List (Exchange Op Res)) : Option Error :=
  trace.findSome? fun e => D.fault e.op e.answer

/-- The ledger keeps the first failure of a trace. Later ones do not replace it. -/
theorem after_fault (trace : List (Exchange Op Res)) (l : Ledger Place Error) :
    ((D.ledger T).after trace l).fault = l.fault.or (D.firstFault trace) := by
  induction trace generalizing l with
  | nil => simp [firstFault]
  | cons e trace ih =>
      rw [Typestate.after_cons, ih, ledger_next, firstFault, firstFault, List.findSome?_cons,
        Option.or_assoc]
      congr 1
      cases D.fault e.op e.answer <;> rfl

theorem after_place (trace : List (Exchange Op Res)) (l : Ledger Place Error) :
    ((D.ledger T).after trace l).place = T.after trace l.place := by
  induction trace generalizing l with
  | nil => rfl
  | cons e trace ih => simp [ih]

/-- The calls of the code belong together as the typestate says. -/
theorem admits_of_ledger {trace : List (Exchange Op Res)} {l : Ledger Place Error}
    (h : (D.ledger T).Admits trace l) : T.Admits trace l.place := by
  induction trace generalizing l with
  | nil => trivial
  | cons e trace ih => exact ⟨h.1.2, ih h.2⟩

/-- After a failure there are only calls that clean up. -/
theorem cleans_of_fault {trace : List (Exchange Op Res)} {l : Ledger Place Error}
    (h : (D.ledger T).Admits trace l) (failed : l.fault ≠ none) :
    ∀ e ∈ trace, D.cleans e.op := by
  induction trace generalizing l with
  | nil => simp
  | cons e trace ih =>
      have hNext : ((D.ledger T).next e.op e.answer l).fault ≠ none := by simp [failed]
      intro e' he'
      rcases List.mem_cons.mp he' with rfl | he'
      · exact h.1.1 failed
      · exact ih h.2 hNext e' he'

/-- Every trace of such code keeps to the protocol of its calls and ends at rest, whatever the
answers were. -/
theorem Stops.conforms {trace : List (Exchange Op Res)}
    (h : D.Stops T rest err bound none place p) (traces : p.Traces trace result) :
    T.Admits trace place ∧ rest (T.after trace place) := by
  obtain ⟨hAdmits, hEnds⟩ := (h 0).traced traces
  have hRest := hEnds.resting
  rw [after_place] at hRest
  exact ⟨admits_of_ledger hAdmits, hRest⟩

/-- What is returned is the error of the first failure. -/
theorem Stops.explains {trace : List (Exchange Op Res)}
    (h : D.Stops T rest err bound none place p) (traces : p.Traces trace result) :
    D.Explains (D.firstFault trace) (err result) := by
  have hExplained := ((h 0).traced traces).2.explained
  rwa [after_fault, Option.none_or] at hExplained

/-- A call that fails is followed by calls that clean up. -/
theorem Stops.cleans_after {before later : List (Exchange Op Res)} {e : Exchange Op Res}
    (h : D.Stops T rest err bound none place p)
    (traces : p.Traces (before ++ e :: later) result) (failed : D.fault e.op e.answer ≠ none) :
    ∀ e' ∈ later, D.cleans e'.op := by
  have hAdmits := ((h 0).traced traces).1
  have hLater := (Typestate.admits_append.mp hAdmits).2.2
  apply cleans_of_fault hLater
  simp [failed]

end Traces

end Discipline
end Interaction

import Mathlib.Data.List.Basic

/-! A value that is kept twice: a volatile copy, which is the one that is used, and a
durable one, from which a restart takes the volatile copy again. A write changes the
volatile copy at once, and the durable one only if it does not fail. -/
namespace Durable

variable {α : Type}

structure Copies (α : Type) where
  volatile : Option α
  durable : Option α

/-- A write of a value or of none, and a restart. Each can fail on the durable copy. -/
inductive Change (α : Type) where
  | write (value : Option α) (takes : Bool)
  | restart (reads : Bool)

namespace Change

def apply : Change α → Copies α → Copies α
  | .write value takes, c => ⟨value, if takes = true then value else c.durable⟩
  | .restart reads, c => ⟨if reads = true then c.durable else none, c.durable⟩

/-- The durable copy was written or read as it should be. -/
def works : Change α → Bool
  | .write _ takes => takes
  | .restart reads => reads

end Change

def replay (changes : List (Change α)) (c : Copies α) : Copies α :=
  changes.foldl (fun c change => change.apply c) c

/-- What was written last. -/
def latest : List (Change α) → Option α → Option α
  | [], value => value
  | .write value _ :: rest, _ => latest rest value
  | .restart _ :: rest, value => latest rest value

@[simp] theorem replay_nil (c : Copies α) : replay [] c = c := rfl

@[simp] theorem replay_cons (change : Change α) (rest : List (Change α)) (c : Copies α) :
    replay (change :: rest) c = replay rest (change.apply c) := rfl

/-- One of the copies is this value. -/
def Copies.Has (c : Copies α) (value : α) : Prop := c.volatile = some value ∨ c.durable = some value

theorem Change.has_apply {change : Change α} {c : Copies α} {value : α}
    (h : (change.apply c).Has value) :
    c.Has value ∨ ∃ takes, change = .write (some value) takes := by
  cases change with
  | write written takes =>
      rcases h with hVolatile | hDurable
      · obtain rfl : written = some value := hVolatile
        exact .inr ⟨takes, rfl⟩
      · cases takes with
        | false => exact .inl (.inr hDurable)
        | true =>
            obtain rfl : written = some value := hDurable
            exact .inr ⟨true, rfl⟩
  | restart reads =>
      rcases h with hVolatile | hDurable
      · cases reads with
        | false => cases hVolatile
        | true => exact .inl (.inr hVolatile)
      · exact .inl (.inr hDurable)

/-- Every value that is found was there before or was written. -/
theorem has_replay {changes : List (Change α)} {c : Copies α} {value : α}
    (h : (replay changes c).Has value) :
    c.Has value ∨ ∃ takes, .write (some value) takes ∈ changes := by
  induction changes generalizing c with
  | nil => exact .inl h
  | cons change rest ih =>
      rcases ih h with hHas | ⟨takes, hWritten⟩
      · rcases Change.has_apply hHas with hBefore | ⟨takes, rfl⟩
        · exact .inl hBefore
        · exact .inr ⟨takes, List.mem_cons_self⟩
      · exact .inr ⟨takes, List.mem_cons_of_mem _ hWritten⟩

/-- If no access to the durable copy fails, restarts make no difference: both copies are what was
written last. -/
theorem replay_works {changes : List (Change α)} (works : ∀ change ∈ changes, change.works = true)
    (value : Option α) :
    replay changes ⟨value, value⟩ = ⟨latest changes value, latest changes value⟩ := by
  induction changes generalizing value with
  | nil => rfl
  | cons change rest ih =>
      obtain ⟨hWorks, hRest⟩ := List.forall_mem_cons.mp works
      cases change with
      | write written takes =>
          obtain rfl : takes = true := hWorks
          exact ih hRest written
      | restart reads =>
          obtain rfl : reads = true := hWorks
          exact ih hRest value

/-- Where only values are written, the last of them counts. -/
theorem latest_writes {β : Type} (written : β → α) (takes : β → Bool) (writes : List β)
    (value : Option α) :
    latest (writes.map fun w => .write (some (written w)) (takes w)) value =
      (writes.getLast?.map written).or value := by
  induction writes generalizing value with
  | nil => rfl
  | cons w rest ih =>
      rw [List.map_cons, latest, ih, List.getLast?_cons]
      cases rest.getLast? <;> rfl

/-- A system whose steps each make one change replays these changes, so its copies can be computed
from the list. -/
theorem replay_of_steps {State Event : Type} {step : Event → State → State}
    {copies : State → Copies α} {change : Event → Change α}
    (steps : ∀ e s, copies (step e s) = (change e).apply (copies s)) (events : List Event)
    (s : State) :
    copies (events.foldl (fun s e => step e s) s) = replay (events.map change) (copies s) := by
  induction events generalizing s with
  | nil => rfl
  | cons e rest ih => rw [List.foldl_cons, ih, steps, List.map_cons, replay_cons]

end Durable

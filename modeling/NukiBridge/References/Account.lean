import Mathlib.Logic.Function.Basic
import Mathlib.Data.List.Basic

/-! Reference counting. Each object has a count; a reference that is given back must be
held. If every reference is kept in a pointer of its own, the counts can be read off the
pointers. -/
namespace References

/-- A reference on an object is taken, or the one behind a pointer is given back. -/
inductive RefCall (Obj : Type) where
  | ref (obj : Obj)
  | unref (ptr : Option Obj)

variable {Obj : Type} [DecidableEq Obj]

/-- What a call does to the counts. A null pointer and an object without references
must not be given back. -/
def RefCall.perform : RefCall Obj → (Obj → Nat) → Option (Obj → Nat)
  | .ref obj, counts => some (Function.update counts obj (counts obj + 1))
  | .unref none, _ => none
  | .unref (some obj), counts =>
      if counts obj = 0 then none else some (Function.update counts obj (counts obj - 1))

/-- Calls in sequence. -/
def perform (calls : List (RefCall Obj)) (counts : Obj → Nat) : Option (Obj → Nat) :=
  calls.foldlM (fun counts call => call.perform counts) counts

/-- The counts, if exactly these pointers hold a reference each. -/
def counted (holders : List (Option Obj)) (obj : Obj) : Nat := holders.count (some obj)

theorem perform_cons (call : RefCall Obj) (calls : List (RefCall Obj)) (counts : Obj → Nat) :
    perform (call :: calls) counts = (call.perform counts).bind (perform calls) := rfl

theorem perform_single (call : RefCall Obj) (counts : Obj → Nat) :
    perform [call] counts = call.perform counts :=
  Option.bind_fun_some (call.perform counts)

/-- An account can be kept call by call or in pieces. A call that fails ends it in both. -/
theorem perform_append {calls calls' : List (RefCall Obj)} {counts middle : Obj → Nat}
    (h : perform calls counts = some middle) :
    perform (calls ++ calls') counts = perform calls' middle := by
  rw [perform, List.foldlM_append]
  exact congrArg (·.bind (perform calls')) h

@[simp] theorem counted_nil : counted ([] : List (Option Obj)) = fun _ => 0 := rfl

/-- A null pointer holds nothing. -/
@[simp] theorem counted_none (holders : List (Option Obj)) :
    counted (none :: holders) = counted holders := by
  funext obj
  exact List.count_cons_of_ne (Option.some_ne_none obj).symm

/-- Only how many pointers hold a connection counts, and not which of them. -/
theorem counted_swap (ptr ptr' : Option Obj) (holders : List (Option Obj)) :
    counted (ptr :: ptr' :: holders) = counted (ptr' :: ptr :: holders) := by
  funext obj
  exact (List.Perm.swap ptr' ptr holders).count_eq (some obj)

theorem counted_some (obj : Obj) (holders : List (Option Obj)) :
    counted (some obj :: holders) =
      Function.update (counted holders) obj (counted holders obj + 1) := by
  funext other
  by_cases h : other = obj
  · subst h
    rw [Function.update_self]
    exact List.count_cons_self
  · rw [Function.update_of_ne h]
    exact List.count_cons_of_ne fun hSome => h (Option.some.inj hSome).symm

/-- A reference that is taken goes into a pointer, and then the counts are those of one more
pointer. -/
theorem perform_ref (obj : Obj) (holders : List (Option Obj)) :
    (RefCall.ref obj).perform (counted holders) = some (counted (some obj :: holders)) := by
  rw [counted_some]
  rfl

/-- A pointer that holds a reference can give it back. -/
theorem perform_unref (obj : Obj) (holders : List (Option Obj)) :
    (RefCall.unref (some obj)).perform (counted (some obj :: holders)) =
      some (counted holders) := by
  rw [counted_some, RefCall.perform, Function.update_self, if_neg (Nat.succ_ne_zero _),
    Function.update_idem, Nat.add_sub_cancel, Function.update_eq_self]

end References

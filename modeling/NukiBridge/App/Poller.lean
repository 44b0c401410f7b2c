import Mathlib.Algebra.Order.BigOperators.Group.List
import Mathlib.Algebra.Order.Group.Nat
import NukiBridge.Interaction.Trace
import NukiBridge.Protocol.KeyturnerState

/-! The background poll of `nuki_app.c`. A poll that failed is tried again soon, but only
so often in a row; after that the poller waits for the whole interval, as it does after a
success and while nothing is paired. -/
namespace NukiBridge

open Interaction

/-- The calls of the poller. `nuki_app_get_state` returns its result and leaves a state in
the variable of its caller. -/
inductive PollCall where
  | isPaired
  | getState
  | storeCache (state : KeyturnerState)
  | sleep (sec : Nat)

@[reducible] def PollCall.Answer : PollCall → Type
  | .isPaired => Bool
  | .getState => Int × KeyturnerState
  | .storeCache _ => Unit
  | .sleep _ => Unit

abbrev PollCode (α : Type) := Program PollCall PollCall.Answer α

abbrev PollCode.of (c : PollCall) : PollCode c.Answer := Program.perform c

abbrev PollExchange := Exchange PollCall PollCall.Answer

def statePollIntervalSec : Nat := 15 * 60

def statePollRetrySec : Nat := 3

def statePollMaxRetries : UInt8 := 3

/-- One pass of the loop. `g_state_poll_retries` belongs to this thread alone: it is passed
along. -/
def statePollRound (retries : UInt8) : PollCode UInt8 := do
  let paired ← PollCode.of .isPaired
  if paired = false then
    let _ ← PollCode.of (.sleep statePollIntervalSec)
    return retries
  let polled ← PollCode.of .getState
  if polled.1 = 0 then
    let _ ← PollCode.of (.storeCache polled.2)
    let _ ← PollCode.of (.sleep statePollIntervalSec)
    return 0
  if retries < statePollMaxRetries then
    let _ ← PollCode.of (.sleep statePollRetrySec)
    return retries + 1
  let _ ← PollCode.of (.sleep statePollIntervalSec)
  return 0

/-- `state_poll_thread_fn` for so many passes of its loop. -/
def statePollThreadFn : Nat → UInt8 → PollCode UInt8
  | 0, retries => return retries
  | n + 1, retries => do
      let retries ← statePollRound retries
      statePollThreadFn n retries

/-- What a pass comes to. -/
inductive PollRound where
  | unpaired
  | polled (err : Int) (state : KeyturnerState)

namespace PollRound

def Failed : PollRound → Prop
  | .unpaired => False
  | .polled err _ => err ≠ 0

instance : DecidablePred Failed
  | .unpaired => isFalse id
  | .polled err _ => inferInstanceAs (Decidable (err ≠ 0))

/-- The state that a pass received. -/
def received : PollRound → Option KeyturnerState
  | .unpaired => none
  | .polled err state => if err = 0 then some state else none

/-- Count the failures since the last success. -/
def extend (failures : Nat) : PollRound → Nat
  | .unpaired => failures
  | .polled err _ => if err = 0 then 0 else failures + 1

/-- How long the poller sleeps after a pass, given the failures up to and with it. -/
def pause (failures : Nat) (round : PollRound) : Nat :=
  if round.Failed ∧ failures % (statePollMaxRetries.toNat + 1) ≠ 0 then statePollRetrySec
  else statePollIntervalSec

def trace (failures : Nat) : PollRound → List PollExchange
  | .unpaired => [⟨.isPaired, false⟩, ⟨.sleep statePollIntervalSec, ()⟩]
  | .polled err state =>
      [⟨.isPaired, true⟩, ⟨.getState, (err, state)⟩] ++
        (if err = 0 then [⟨.storeCache state, ()⟩] else []) ++
        [⟨.sleep ((polled err state).pause failures), ()⟩]

end PollRound

/-- The failures since the last success, of passes that come after so many. -/
def streak (failures : Nat) (rounds : List PollRound) : Nat := rounds.foldl PollRound.extend failures

/-- The trace of passes that come after so many failures. -/
def pollTrace : Nat → List PollRound → List PollExchange
  | _, [] => []
  | failures, round :: rest =>
      round.trace (round.extend failures) ++ pollTrace (round.extend failures) rest

def pauses : Nat → List PollRound → List Nat
  | _, [] => []
  | failures, round :: rest =>
      round.pause (round.extend failures) :: pauses (round.extend failures) rest

/-- The sleeps of a trace, in seconds. -/
def slept (trace : List PollExchange) : List Nat :=
  trace.filterMap fun
    | ⟨.sleep sec, _⟩ => some sec
    | _ => none

/-- The states that a trace stores in the cache. -/
def storedStates (trace : List PollExchange) : List KeyturnerState :=
  trace.filterMap fun
    | ⟨.storeCache state, _⟩ => some state
    | _ => none

@[simp] theorem streak_cons (failures : Nat) (round : PollRound) (rounds : List PollRound) :
    streak failures (round :: rounds) = streak (round.extend failures) rounds := rfl

/-- Passes can be cut anywhere: the failures of the first part are what the second one starts
from. -/
@[simp] theorem streak_append (failures : Nat) (rounds rounds' : List PollRound) :
    streak failures (rounds ++ rounds') = streak (streak failures rounds) rounds' := by
  simp [streak]

@[simp] theorem slept_append (trace trace' : List PollExchange) :
    slept (trace ++ trace') = slept trace ++ slept trace' := List.filterMap_append

@[simp] theorem storedStates_append (trace trace' : List PollExchange) :
    storedStates (trace ++ trace') = storedStates trace ++ storedStates trace' :=
  List.filterMap_append

@[simp] theorem length_pauses (failures : Nat) (rounds : List PollRound) :
    (pauses failures rounds).length = rounds.length := by
  induction rounds generalizing failures with
  | nil => rfl
  | cons round rounds ih => simp [pauses, ih]

/-- While nothing is paired the poller sleeps for its full interval, whatever went wrong before. -/
theorem PollRound.pause_unpaired (failures : Nat) :
    unpaired.pause failures = statePollIntervalSec := by
  simp [pause, Failed]

theorem PollRound.pause_succeeded (failures : Nat) (state : KeyturnerState) :
    (polled 0 state).pause failures = statePollIntervalSec := by
  simp [pause, Failed]

/-- The sleeps that the trace of some passes shows are the pauses of these passes. -/
theorem slept_pollTrace (failures : Nat) (rounds : List PollRound) :
    slept (pollTrace failures rounds) = pauses failures rounds := by
  induction rounds generalizing failures with
  | nil => rfl
  | cons round rounds ih =>
      rw [pollTrace, slept_append, ih, pauses]
      cases round with
      | unpaired => simp [PollRound.trace, slept, PollRound.pause_unpaired]
      | polled err state =>
          by_cases hErr : err = 0 <;> simp [PollRound.trace, slept, hErr]

/-- The states that go into the cache are those of the passes that succeeded, each once. -/
theorem storedStates_pollTrace (failures : Nat) (rounds : List PollRound) :
    storedStates (pollTrace failures rounds) = rounds.filterMap PollRound.received := by
  induction rounds generalizing failures with
  | nil => rfl
  | cons round rounds ih =>
      rw [pollTrace, storedStates_append, ih]
      cases round with
      | unpaired => rfl
      | polled err state =>
          by_cases hErr : err = 0 <;> simp [PollRound.trace, storedStates, PollRound.received, hErr]

/-- One pass: its calls are those of a round, and the retries count the failures. -/
theorem traces_statePollRound {retries last : UInt8} {failures : Nat} {trace : List PollExchange}
    (counts : retries.toNat = failures % 4)
    (traces : (statePollRound retries).Traces trace last) :
    ∃ round : PollRound, trace = round.trace (round.extend failures) ∧
      last.toNat = round.extend failures % 4 := by
  obtain ⟨paired, rest, rfl, hPolled⟩ := traces.of_perform
  cases paired with
  | false =>
      obtain ⟨_, rest, rfl, hDone⟩ := hPolled.of_perform
      obtain ⟨rfl, rfl⟩ := hDone.of_done
      exact ⟨.unpaired, rfl, counts⟩
  | true =>
      obtain ⟨⟨err, state⟩, rest, rfl, hResult⟩ := hPolled.of_perform
      refine ⟨.polled err state, ?_⟩
      by_cases hErr : err = 0
      · subst hErr
        obtain ⟨_, rest, rfl, hSleep⟩ := hResult.of_perform
        obtain ⟨_, rest, rfl, hDone⟩ := hSleep.of_perform
        obtain ⟨rfl, rfl⟩ := hDone.of_done
        simp [PollRound.trace, PollRound.extend, PollRound.pause_succeeded]
      · change Program.Traces (if err = 0 then _ else _) rest last at hResult
        rw [if_neg hErr] at hResult
        have hExtend : (PollRound.polled err state).extend failures = failures + 1 := if_neg hErr
        have hTrace (rest : List PollExchange) :
            (⟨.isPaired, true⟩ :: ⟨.getState, (err, state)⟩ :: rest : List PollExchange) =
              [⟨.isPaired, true⟩, ⟨.getState, (err, state)⟩] ++ (if err = 0 then
                [⟨.storeCache state, ()⟩] else []) ++ rest := by
          simp [hErr]
        rw [hExtend, PollRound.trace, hTrace]
        by_cases hMore : retries < statePollMaxRetries
        · rw [if_pos hMore] at hResult
          obtain ⟨_, rest, rfl, hDone⟩ := hResult.of_perform
          obtain ⟨rfl, rfl⟩ := hDone.of_done
          have hLess : failures % 4 < 3 := by
            rw [← counts]
            exact hMore
          have hPause : (PollRound.polled err state).pause (failures + 1) = statePollRetrySec :=
            if_pos ⟨hErr, by change (failures + 1) % 4 ≠ 0; omega⟩
          have hLast : (retries + 1).toNat = (failures + 1) % 4 := by
            rw [UInt8.toNat_add, counts]
            change (failures % 4 + 1) % 256 = _
            omega
          exact ⟨by rw [hPause], hLast⟩
        · rw [if_neg hMore] at hResult
          obtain ⟨_, rest, rfl, hDone⟩ := hResult.of_perform
          obtain ⟨rfl, rfl⟩ := hDone.of_done
          have hFull : ¬failures % 4 < 3 := by
            rw [← counts]
            exact hMore
          have hPause : (PollRound.polled err state).pause (failures + 1) = statePollIntervalSec :=
            if_neg fun h => h.2 (by change (failures + 1) % 4 = 0; omega)
          refine ⟨by rw [hPause], ?_⟩
          change 0 = (failures + 1) % 4
          omega

/-- By induction on the passes. The counter of the source is the number of failures since the last
success, modulo four: the fourth one resets it. -/
theorem traces_statePollThreadFn {n : Nat} {retries last : UInt8} {failures : Nat}
    {trace : List PollExchange} (counts : retries.toNat = failures % 4)
    (traces : (statePollThreadFn n retries).Traces trace last) :
    ∃ rounds : List PollRound, rounds.length = n ∧ trace = pollTrace failures rounds ∧
      last.toNat = streak failures rounds % 4 := by
  induction n generalizing retries failures trace with
  | zero =>
      obtain ⟨rfl, rfl⟩ := traces.of_done
      exact ⟨[], rfl, rfl, counts⟩
  | succ n ih =>
      obtain ⟨first, rest, middle, rfl, hFirst, hRest⟩ := Program.Traces.of_bind traces
      obtain ⟨round, rfl, hMiddle⟩ := traces_statePollRound counts hFirst
      obtain ⟨rounds, rfl, rfl, hLast⟩ := ih hMiddle hRest
      exact ⟨round :: rounds, rfl, rfl, hLast⟩

/-- What the poller sleeps after a pass depends on that pass and the failures before. -/
theorem getElem?_pauses (failures : Nat) (before after : List PollRound) (round : PollRound) :
    (pauses failures (before ++ round :: after))[before.length]? =
      some (round.pause (streak failures (before ++ [round]))) := by
  induction before generalizing failures with
  | nil => rfl
  | cons first before ih =>
      rw [List.cons_append, pauses, List.length_cons, List.getElem?_cons_succ]
      exact ih (first.extend failures)

/-- The pauses after some passes are those of the later passes, counted on from where the first ones
stopped. -/
theorem drop_pauses (failures n : Nat) (rounds : List PollRound) :
    (pauses failures rounds).drop n = pauses (streak failures (rounds.take n)) (rounds.drop n) := by
  induction rounds generalizing failures n with
  | nil => simp [pauses]
  | cons round rounds ih =>
      cases n with
      | zero => rfl
      | succ n => exact ih (round.extend failures) n

/-- A short sleep follows a failure, and there are no four of them in a row. -/
theorem long_of_four {failures : Nat} {rounds : List PollRound} (h : 4 ≤ rounds.length) :
    statePollIntervalSec ∈ (pauses failures rounds).take 4 := by
  have hShort {failures : Nat} {round : PollRound}
      (h : round.pause (round.extend failures) ≠ statePollIntervalSec) :
      round.extend failures = failures + 1 ∧ (failures + 1) % 4 ≠ 0 := by
    cases round with
    | unpaired => exact absurd (PollRound.pause_unpaired _) h
    | polled err state =>
        by_cases hErr : err = 0
        · subst hErr
          exact absurd (PollRound.pause_succeeded _ _) h
        · have hExtend : (PollRound.polled err state).extend failures = failures + 1 := if_neg hErr
          rw [hExtend] at h ⊢
          exact ⟨rfl, fun hZero => h (if_neg fun hRetry => hRetry.2 hZero)⟩
  obtain ⟨first, second, third, fourth, rest, rfl⟩ : ∃ first second third fourth rest,
      rounds = first :: second :: third :: fourth :: rest := by
    match rounds, h with
    | first :: second :: third :: fourth :: rest, _ => exact ⟨_, _, _, _, _, rfl⟩
  by_contra hNone
  simp only [pauses, List.take_succ_cons, List.take_zero, List.mem_cons, List.not_mem_nil, or_false,
    not_or] at hNone
  obtain ⟨hFirst, hSecond, hThird, hFourth⟩ := hNone
  obtain ⟨hExtend, hMod⟩ := hShort (Ne.symm hFirst)
  rw [hExtend] at hSecond hThird hFourth
  obtain ⟨hExtend, hMod'⟩ := hShort (Ne.symm hSecond)
  rw [hExtend] at hThird hFourth
  obtain ⟨hExtend, hMod''⟩ := hShort (Ne.symm hThird)
  rw [hExtend] at hFourth
  obtain ⟨-, hMod'''⟩ := hShort (Ne.symm hFourth)
  omega

/-- Of any four passes in a row at least one is followed by the full interval, which bounds how
often the lock is polled. -/
theorem sum_pauses (failures : Nat) (rounds : List PollRound) :
    statePollIntervalSec * (rounds.length / 4) ≤ (pauses failures rounds).sum := by
  induction hLength : rounds.length using Nat.strongRecOn generalizing failures rounds with
  | ind n ih =>
      by_cases hFour : 4 ≤ n
      · have hHead : statePollIntervalSec ≤ ((pauses failures rounds).take 4).sum :=
          List.le_sum_of_mem (long_of_four (hLength ▸ hFour))
        have hTail := ih (n - 4) (by omega) (streak failures (rounds.take 4)) (rounds.drop 4)
          (by rw [List.length_drop, hLength])
        have hSplit : ((pauses failures rounds).take 4).sum + ((pauses failures rounds).drop 4).sum =
            (pauses failures rounds).sum := List.sum_take_add_sum_drop _ 4
        rw [drop_pauses] at hSplit
        have hDiv : n / 4 = (n - 4) / 4 + 1 := by omega
        rw [hDiv, Nat.mul_succ]
        omega
      · rw [Nat.div_eq_of_lt (by omega)]
        exact Nat.zero_le _

/-- Whatever the polls return, for any number of passes: a pass that is the k-th failure
since the last success is followed by a short sleep unless four divides k, every other pass
by the whole interval; so among any four passes in a row one is followed by the whole
interval. Exactly the states that were received are stored, in order. -/
theorem statePollThreadFn_retries (n : Nat) (answers : Nat → (c : PollCall) → c.Answer) :
    let trace := ((statePollThreadFn n 0).transcript answers 0).1
    let retries := ((statePollThreadFn n 0).transcript answers 0).2
    ∃ rounds : List PollRound, rounds.length = n ∧
      trace = pollTrace 0 rounds ∧
      storedStates trace = rounds.filterMap PollRound.received ∧
      retries.toNat = streak 0 rounds % 4 ∧
      (slept trace).length = n ∧
      (∀ before round after, rounds = before ++ round :: after →
        (slept trace)[before.length]? = some (round.pause (streak 0 (before ++ [round])))) ∧
      (∀ k, k + 4 ≤ n → statePollIntervalSec ∈ ((slept trace).drop k).take 4) ∧
      statePollIntervalSec * (n / 4) ≤ (slept trace).sum := by
  intro trace retries
  have hTraces : (statePollThreadFn n 0).Traces trace retries :=
    (statePollThreadFn n 0).traces_transcript answers 0
  clear_value trace retries
  obtain ⟨rounds, rfl, rfl, hLast⟩ :=
    traces_statePollThreadFn (by rfl : (0 : UInt8).toNat = 0 % 4) hTraces
  rw [slept_pollTrace]
  refine ⟨rounds, rfl, rfl, storedStates_pollTrace 0 rounds, hLast, length_pauses 0 rounds, ?_, ?_,
    sum_pauses 0 rounds⟩
  · rintro before round after rfl
    exact getElem?_pauses 0 before after round
  · intro k hWindow
    rw [drop_pauses]
    apply long_of_four
    rw [List.length_drop]
    omega

end NukiBridge

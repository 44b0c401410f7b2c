import Mathlib.Data.DFinsupp.WellFounded
import Mathlib.Logic.Relation
import NukiBridge.Interaction.Typestate

/-! Several threads over one machine, and mutexes that let one of them through. A thread
that asks for a mutex waits until it is free. Mutexes are ranked and taken in the order of
their ranks; that order is read off the text of each thread, and it keeps the threads from
waiting for one another in a circle. -/
namespace Interaction

/-- A call of the machine or of a mutex. -/
inductive Locked (Mutex Op : Type) where
  | lock (m : Mutex)
  | unlock (m : Mutex)
  | call (op : Op)

@[reducible] def Locked.Answer {Mutex Op : Type} (Res : Op → Type) : Locked Mutex Op → Type
  | .lock _ => Unit
  | .unlock _ => Unit
  | .call op => Res op

abbrev LockedCode (Mutex : Type) {Op : Type} (Res : Op → Type) (α : Type) :=
  Program (Locked Mutex Op) (Locked.Answer Res) α

/-- The state of the machine, who holds each mutex, and what is left of each thread. -/
structure Threads (Mutex : Type) {Op : Type} (Res : Op → Type) (State Tid : Type) where
  state : State
  owner : Mutex → Option Tid
  code : Tid → LockedCode Mutex Res Unit

variable {Mutex Op : Type} {Res : Op → Type} {Event Choice State Tid : Type}

namespace Threads

/-- Before the first step: no mutex is held. -/
def start (state : State) (code : Tid → LockedCode Mutex Res Unit) :
    Threads Mutex Res State Tid :=
  ⟨state, fun _ => none, code⟩

section Steps

variable [DecidableEq Tid]

/-- The thread goes on with this code. -/
def goTo (S : Threads Mutex Res State Tid) (t : Tid) (code : LockedCode Mutex Res Unit) :
    Threads Mutex Res State Tid :=
  { S with code := Function.update S.code t code }

@[simp] theorem goTo_state (S : Threads Mutex Res State Tid) (t : Tid)
    (code : LockedCode Mutex Res Unit) : (S.goTo t code).state = S.state := rfl

@[simp] theorem goTo_owner (S : Threads Mutex Res State Tid) (t : Tid)
    (code : LockedCode Mutex Res Unit) : (S.goTo t code).owner = S.owner := rfl

@[simp] theorem goTo_code_self (S : Threads Mutex Res State Tid) (t : Tid)
    (code : LockedCode Mutex Res Unit) : (S.goTo t code).code t = code := by
  simp [goTo]

theorem goTo_code_of_ne (S : Threads Mutex Res State Tid) {t t' : Tid}
    (code : LockedCode Mutex Res Unit) (h : t' ≠ t) : (S.goTo t code).code t' = S.code t' := by
  simp [goTo, h]

variable [DecidableEq Mutex]

/-- Only its owner can give a mutex back. -/
def released (S : Threads Mutex Res State Tid) (t : Tid) (m : Mutex) :
    Threads Mutex Res State Tid :=
  { S with owner := Function.update S.owner m (if S.owner m = some t then none else S.owner m) }

variable (M : Machine Op Res Event Choice State)

/-- One step of a thread. -/
inductive ThreadStep (t : Tid) :
    Threads Mutex Res State Tid → Threads Mutex Res State Tid → Prop where
  | stay {S : Threads Mutex Res State Tid} {op : Op} {next : Res op → LockedCode Mutex Res Unit}
      {s' : State} (choice : Choice) (here : S.code t = .call (.call op) next)
      (calls : M.call op choice S.state = some (.stay s')) :
      ThreadStep t S { S with state := s' }
  | answer {S : Threads Mutex Res State Tid} {op : Op}
      {next : Res op → LockedCode Mutex Res Unit} {s' : State} (choice : Choice) (result : Res op)
      (here : S.code t = .call (.call op) next)
      (calls : M.call op choice S.state = some (.answer result s')) :
      ThreadStep t S ({ S with state := s' }.goTo t (next result))
  | lock {S : Threads Mutex Res State Tid} {m : Mutex} {next : Unit → LockedCode Mutex Res Unit}
      (here : S.code t = .call (.lock m) next) (free : S.owner m = none) :
      ThreadStep t S ({ S with owner := Function.update S.owner m (some t) }.goTo t (next ()))
  | unlock {S : Threads Mutex Res State Tid} {m : Mutex}
      {next : Unit → LockedCode Mutex Res Unit} (here : S.code t = .call (.unlock m) next) :
      ThreadStep t S ((S.released t m).goTo t (next ()))

/-- One step of the system: a thread takes one, or something happens outside. -/
inductive Step : Threads Mutex Res State Tid → Threads Mutex Res State Tid → Prop where
  | event {S : Threads Mutex Res State Tid} {s' : State} (e : Event)
      (fires : M.event e S.state = some s') : Step S { S with state := s' }
  | thread {S S' : Threads Mutex Res State Tid} (t : Tid) (step : ThreadStep M t S S') : Step S S'

/-- Any order of the steps of all threads and of the events. -/
abbrev Reaches (S S' : Threads Mutex Res State Tid) : Prop := Relation.ReflTransGen (Step M) S S'

variable {M}

@[simp] theorem released_state (S : Threads Mutex Res State Tid) (t : Tid) (m : Mutex) :
    (S.released t m).state = S.state := rfl

@[simp] theorem released_code (S : Threads Mutex Res State Tid) (t : Tid) (m : Mutex) :
    (S.released t m).code = S.code := rfl

theorem released_owner {S : Threads Mutex Res State Tid} {t : Tid} {m : Mutex}
    (h : S.owner m = some t) : (S.released t m).owner = Function.update S.owner m none := by
  simp [released, h]

/-- The other threads stay where they are. -/
theorem ThreadStep.code_of_ne {S S' : Threads Mutex Res State Tid} {t t' : Tid}
    (step : ThreadStep M t S S') (h : t' ≠ t) : S'.code t' = S.code t' := by
  cases step with
  | stay => rfl
  | answer choice result here calls => exact goTo_code_of_ne _ _ h
  | lock here free => exact goTo_code_of_ne _ _ h
  | unlock here => exact goTo_code_of_ne _ _ h

end Steps

/-- Threads that never stay inside a call cannot go on forever. -/
theorem wellFounded_threadStep [DecidableEq Mutex] [DecidableEq Tid] [Finite Tid]
    {M : Machine Op Res Event Choice State}
    (answers : ∀ op choice s s', M.call op choice s ≠ some (.stay s')) :
    WellFounded fun S' S : Threads Mutex Res State Tid => ∃ t, ThreadStep M t S S' := by
  have hCode : WellFounded (Pi.Lex (β := fun _ : Tid => LockedCode Mutex Res Unit)
      WellOrderingRel fun {_} => Program.Remains) :=
    Pi.Lex.wellFounded _ fun _ => Program.wellFounded_remains
  apply Subrelation.wf _ (InvImage.wf Threads.code hCode)
  intro S' S hStep
  obtain ⟨t, step⟩ := hStep
  have hOthers (t' : Tid) (h : WellOrderingRel t' t) : S'.code t' = S.code t' := by
    apply step.code_of_ne
    rintro rfl
    exact irrefl t' h
  refine ⟨t, hOthers, ?_⟩
  cases step with
  | stay choice here calls => exact absurd calls (answers _ _ _ _)
  | answer choice result here calls =>
      rw [here, goTo_code_self]
      exact @Program.Remains.next _ (Locked.Answer Res) _ (.call _) _ result
  | lock here free =>
      rw [here, goTo_code_self]
      exact @Program.Remains.next _ (Locked.Answer Res) _ (.lock _) _ ()
  | unlock here =>
      rw [here, goTo_code_self]
      exact @Program.Remains.next _ (Locked.Answer Res) _ (.unlock _) _ ()

/-- The thread asks for a mutex that this thread holds. -/
def WaitsFor (S : Threads Mutex Res State Tid) (t t' : Tid) : Prop :=
  ∃ m next, S.code t = .call (.lock m) next ∧ S.owner m = some t'

/-- The thread has returned. -/
def Returned (S : Threads Mutex Res State Tid) (t : Tid) : Prop := S.code t = .done ()

/-- A thread that neither waits nor has returned can take a step. -/
theorem can_step [DecidableEq Mutex] [DecidableEq Tid] {M : Machine Op Res Event Choice State}
    (answers : ∀ op s, ∃ choice reply, M.call op choice s = some reply)
    {S : Threads Mutex Res State Tid} {t : Tid} (running : ¬S.Returned t)
    (free : ∀ t', ¬S.WaitsFor t t') : ∃ S', ThreadStep M t S S' := by
  cases hCode : S.code t with
  | done result => exact absurd hCode running
  | call op next =>
      cases op with
      | lock m =>
          cases hOwner : S.owner m with
          | none => exact ⟨_, .lock hCode hOwner⟩
          | some t' => exact absurd ⟨m, next, hCode, hOwner⟩ (free t')
      | unlock m => exact ⟨_, .unlock hCode⟩
      | call op =>
          obtain ⟨choice, reply, hReply⟩ := answers op S.state
          cases reply with
          | stay s' => exact ⟨_, .stay choice hCode hReply⟩
          | answer result s' => exact ⟨_, .answer choice result hCode hReply⟩

end Threads

section Order

variable (rank : Mutex → Nat) (allowed : Op → List Mutex → Prop)

/-- The order of locking, over the mutexes that a thread holds, the last one first: a
mutex is taken only above those, the last one is given back first, and what a call needs is
held. -/
def lockOrder : Typestate (Locked Mutex Op) (Locked.Answer Res) (List Mutex) where
  admits
    | .lock m, held => ∀ m' ∈ held, rank m' < rank m
    | .unlock m, held => held.head? = some m
    | .call op, held => allowed op held
  next
    | .lock m, _, held => m :: held
    | .unlock _, _, held => held.tail
    | .call _, _, held => held

/-- Code in this order that holds nothing before and after. -/
def LocksInOrder {α : Type} (code : LockedCode Mutex Res α) : Prop :=
  (lockOrder rank allowed).Follows (fun _ held => held = []) code []

/-- Each thread is in order where it is, and owns the mutexes that it holds there. -/
structure Ordered (S : Threads Mutex Res State Tid) (held : Tid → List Mutex) : Prop where
  follows : ∀ t, (lockOrder rank allowed).Follows (fun _ held => held = []) (S.code t) (held t)
  owner : ∀ m t, S.owner m = some t ↔ m ∈ held t
  sorted : ∀ t, (held t).Pairwise fun m m' => rank m' < rank m

variable {rank allowed} {S S' : Threads Mutex Res State Tid} {held : Tid → List Mutex}

/-- At the start no mutex is held, and every thread has its own order still before it. -/
theorem ordered_start (state : State) {code : Tid → LockedCode Mutex Res Unit}
    (inOrder : ∀ t, LocksInOrder rank allowed (code t)) :
    Ordered rank allowed (.start state code) fun _ => [] where
  follows := inOrder
  owner := by simp [Threads.start]
  sorted := by simp

namespace Ordered

/-- What a thread is about to do is admitted where it is. -/
theorem admits (h : Ordered rank allowed S held) {t : Tid} {op : Locked Mutex Op}
    {next : Locked.Answer Res op → LockedCode Mutex Res Unit} (here : S.code t = .call op next) :
    (lockOrder rank allowed : Typestate _ (Locked.Answer Res) _).admits op (held t) := by
  have hFollows := h.follows t
  rw [here] at hFollows
  exact hFollows.1

/-- A thread that takes a step keeps to its order with what remains of its code. The other threads
are not touched. -/
theorem follows_next (h : Ordered rank allowed S held) {t : Tid} {op : Locked Mutex Op}
    {next : Locked.Answer Res op → LockedCode Mutex Res Unit} (here : S.code t = .call op next)
    (result : Locked.Answer Res op) :
    (lockOrder rank allowed).Follows (fun _ held => held = []) (next result)
      ((lockOrder rank allowed).next op result (held t)) := by
  have hFollows := h.follows t
  rw [here] at hFollows
  exact hFollows.2 result

/-- A thread that waits asks for a mutex above all that it holds. -/
theorem rank_lt (h : Ordered rank allowed S held) {t : Tid} {m m' : Mutex}
    {next : Unit → LockedCode Mutex Res Unit} (here : S.code t = .call (.lock m) next)
    (owns : S.owner m' = some t) : rank m' < rank m := by
  rw [h.owner] at owns
  exact h.admits here m' owns

/-- Whoever waits, waits in the end for a thread that does not: the ranks of the mutexes
that are asked for grow along the way. -/
theorem exists_not_waiting (h : Ordered rank allowed S held) {bound : Nat}
    (ranked : ∀ m, rank m < bound) (t : Tid) :
    ∃ t', Relation.ReflTransGen S.WaitsFor t t' ∧ ∀ t'', ¬S.WaitsFor t' t'' := by
  by_cases hFree : ∀ t', ¬S.WaitsFor t t'
  · exact ⟨t, .refl, hFree⟩
  · obtain ⟨t', m, next, hHere, hOwner⟩ := not_forall_not.mp hFree
    clear hFree
    induction hGap : bound - rank m using Nat.strongRecOn generalizing t t' m next with
    | ind gap ih =>
        have hWaits : S.WaitsFor t t' := ⟨m, next, hHere, hOwner⟩
        by_cases hFree : ∀ t'', ¬S.WaitsFor t' t''
        · exact ⟨t', .single hWaits, hFree⟩
        · obtain ⟨t'', m', next', hHere', hOwner'⟩ := not_forall_not.mp hFree
          have hRank := h.rank_lt hHere' hOwner
          have hBound := ranked m'
          obtain ⟨last, hChain, hLast⟩ :=
            ih (bound - rank m') (by omega) t' t'' m' next' hHere' hOwner' rfl
          exact ⟨last, .head hWaits hChain, hLast⟩

/-- A thread that others wait for has not returned: it holds a mutex. -/
theorem not_returned (h : Ordered rank allowed S held) {t t' : Tid} (waits : S.WaitsFor t t') :
    ¬S.Returned t' := by
  obtain ⟨m, next, -, hOwner⟩ := waits
  intro hReturned
  have hFollows := h.follows t'
  rw [hReturned] at hFollows
  have hNone : held t' = [] := hFollows
  rw [h.owner, hNone] at hOwner
  exact List.not_mem_nil hOwner

variable [DecidableEq Tid]

/-- Where the code of one thread is replaced, the order is that of the new code. -/
theorem follows_goTo (h : Ordered rank allowed S held) {t : Tid}
    {code : LockedCode Mutex Res Unit} {mutexes : List Mutex}
    (inOrder : (lockOrder rank allowed).Follows (fun _ held => held = []) code mutexes) (t' : Tid) :
    (lockOrder rank allowed).Follows (fun _ held => held = []) (Function.update S.code t code t')
      (Function.update held t mutexes t') := by
  by_cases hSame : t' = t
  · subst hSame
    simpa using inOrder
  · simpa [hSame] using h.follows t'

/-- A call of the machine changes no mutex, so the order of the locks is not concerned. -/
theorem call (h : Ordered rank allowed S held) {t : Tid} {op : Op}
    {next : Res op → LockedCode Mutex Res Unit} (here : S.code t = .call (.call op) next)
    (result : Res op) (s' : State) :
    Ordered rank allowed ({ S with state := s' }.goTo t (next result)) held where
  follows := by
    intro t'
    have hRest := h.follows_goTo (t := t) (h.follows_next here result) t'
    rwa [show Function.update held t ((lockOrder rank allowed).next (.call op) result (held t)) =
      held from Function.update_eq_self t held] at hRest
  owner := h.owner
  sorted := h.sorted

variable [DecidableEq Mutex] {M : Machine Op Res Event Choice State}

/-- A mutex that was free is held by the thread that took it. -/
theorem lock (h : Ordered rank allowed S held) {t : Tid} {m : Mutex}
    {next : Unit → LockedCode Mutex Res Unit} (here : S.code t = .call (.lock m) next)
    (free : S.owner m = none) :
    Ordered rank allowed ({ S with owner := Function.update S.owner m (some t) }.goTo t (next ()))
      (Function.update held t (m :: held t)) where
  follows := h.follows_goTo (h.follows_next here ())
  owner := by
    intro m' t'
    have hNobody (t'' : Tid) : m ∉ held t'' := by
      rw [← h.owner, free]
      exact nofun
    by_cases hMutex : m' = m
    · subst hMutex
      by_cases hThread : t' = t
      · subst hThread
        simp
      · simp [hThread, hNobody t', Ne.symm hThread]
    · by_cases hThread : t' = t
      · subst hThread
        simpa [hMutex] using h.owner m' t'
      · simpa [hMutex, hThread] using h.owner m' t'
  sorted := by
    intro t'
    by_cases hThread : t' = t
    · subst hThread
      simpa using ⟨h.admits here, h.sorted t'⟩
    · simpa [hThread] using h.sorted t'

/-- The mutex that was taken last is free after it was given back. -/
theorem unlock (h : Ordered rank allowed S held) {t : Tid} {m : Mutex}
    {next : Unit → LockedCode Mutex Res Unit} (here : S.code t = .call (.unlock m) next) :
    Ordered rank allowed ((S.released t m).goTo t (next ()))
      (Function.update held t (held t).tail) := by
  obtain ⟨rest, hHeld⟩ : ∃ rest, held t = m :: rest :=
    ⟨(held t).tail, List.eq_cons_of_mem_head? (h.admits here)⟩
  have hOwner : S.owner m = some t := by
    rw [h.owner, hHeld]
    exact List.mem_cons_self
  have hSorted := h.sorted t
  rw [hHeld, List.pairwise_cons] at hSorted
  constructor
  · exact h.follows_goTo (h.follows_next here ())
  · intro m' t'
    rw [Threads.goTo_owner, Threads.released_owner hOwner]
    by_cases hMutex : m' = m
    · subst hMutex
      by_cases hThread : t' = t
      · subst hThread
        -- it is below itself in no rank, so it is not held twice
        have hGone : m' ∉ rest := fun hMem => Nat.lt_irrefl _ (hSorted.1 m' hMem)
        simp [hHeld, hGone]
      · have hOther : m' ∉ held t' := by
          rw [← h.owner, hOwner]
          exact fun hSame => hThread (Option.some.inj hSame).symm
        simp [hThread, hOther]
    · by_cases hThread : t' = t
      · subst hThread
        simpa [hMutex, hHeld] using h.owner m' t'
      · simpa [hMutex, hThread] using h.owner m' t'
  · intro t'
    by_cases hThread : t' = t
    · subst hThread
      simpa [hHeld] using hSorted.2
    · simpa [hThread] using h.sorted t'

/-- Every step of a thread that keeps to the order itself keeps the order of all of them. -/
theorem step (h : Ordered rank allowed S held) (step : Threads.Step M S S') :
    ∃ held', Ordered rank allowed S' held' := by
  cases step with
  | event e fires => exact ⟨held, h.follows, h.owner, h.sorted⟩
  | thread t step =>
      cases step with
      | stay choice here calls => exact ⟨held, h.follows, h.owner, h.sorted⟩
      | answer choice result here calls => exact ⟨held, h.call here result _⟩
      | lock here free => exact ⟨_, h.lock here free⟩
      | unlock here => exact ⟨_, h.unlock here⟩

/-- No deadlock: behind each thread that has not returned there is one that can step. -/
theorem exists_step (h : Ordered rank allowed S held) {bound : Nat} (ranked : ∀ m, rank m < bound)
    (answers : ∀ op s, ∃ choice reply, M.call op choice s = some reply) {t : Tid}
    (running : ¬S.Returned t) :
    ∃ t' S', Relation.ReflTransGen S.WaitsFor t t' ∧ Threads.ThreadStep M t' S S' := by
  obtain ⟨t', hChain, hFree⟩ := h.exists_not_waiting ranked t
  have hRunning : ¬S.Returned t' := by
    rcases hChain.cases_tail with rfl | ⟨before, -, hWaits⟩
    · exact running
    · exact h.not_returned hWaits
  obtain ⟨S', hStep⟩ := Threads.can_step answers hRunning hFree
  exact ⟨t', S', hChain, hStep⟩

/-- Threads in order all come to their end, with nothing that has to happen outside. -/
theorem exists_returned [Finite Tid] (h : ∃ held, Ordered rank allowed S held) {bound : Nat}
    (ranked : ∀ m, rank m < bound)
    (answers : ∀ op s, ∃ choice reply, M.call op choice s = some reply)
    (leaves : ∀ op choice s s', M.call op choice s ≠ some (.stay s')) :
    ∃ S', Threads.Reaches M S S' ∧ ∀ t, S'.Returned t := by
  have hEnds : WellFounded fun S' S : Threads Mutex Res State Tid =>
      ∃ t, Threads.ThreadStep M t S S' := Threads.wellFounded_threadStep leaves
  induction S using hEnds.induction with
  | h S ih =>
      by_cases hAll : ∀ t, S.Returned t
      · exact ⟨S, .refl, hAll⟩
      · obtain ⟨t, hRunning⟩ := not_forall.mp hAll
        obtain ⟨held, hOrdered⟩ := h
        obtain ⟨t', S', -, hStep⟩ := hOrdered.exists_step ranked answers hRunning
        obtain ⟨last, hRun, hLast⟩ := ih S' ⟨t', hStep⟩ (hOrdered.step (.thread t' hStep))
        exact ⟨last, .head (.thread t' hStep) hRun, hLast⟩

end Ordered
end Order
end Interaction

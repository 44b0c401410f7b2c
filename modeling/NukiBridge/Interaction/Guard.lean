import NukiBridge.Interaction.Threads

/-! A mutex guards a resource: a part of the state that is changed only by whoever holds the
mutex. Outside of the critical sections an invariant of the resource holds, and each section
restores it; so a section may be read on its own, from any value that the invariant allows. -/
namespace Interaction

variable {Mutex Op Op' : Type} {Res : Op → Type} {Res' : Op' → Type}
  {Event Choice State Tid V α β : Type}

/-- A part of the state that changes only when a call answers. -/
structure Resource (M : Machine Op Res Event Choice State) (V : Type) where
  view : State → V
  event : ∀ e s s', M.event e s = some s' → view s' = view s
  stay : ∀ op choice s s', M.call op choice s = some (.stay s') → view s' = view s

namespace Resource

variable {M : Machine Op Res Event Choice State} (R : Resource M V)

/-- What the answer of a call may be, and what the call does to the resource. -/
def Effect (op : Op) (v : V) (result : Res op) (v' : V) : Prop :=
  ∃ choice s s', R.view s = v ∧ M.call op choice s = some (.answer result s') ∧ R.view s' = v'

/-- A call that leaves the resource alone. -/
def Quiet (op : Op) : Prop := ∀ v result v', R.Effect op v result v' → v' = v

variable (mutex : Mutex) (free always : V → Prop)

/-- Code that changes the resource only while it holds the mutex, finds it there in any
state that is allowed while it is free, and leaves it in one. It is read at the value that
the resource has for it, or outside at `none`. -/
inductive Guards (post : α → Option V → Prop) : LockedCode Mutex Res α → Option V → Prop where
  | done {result : α} {held : Option V} (returns : post result held) :
      Guards post (.done result) held
  | outside {op : Op} {next : Res op → LockedCode Mutex Res α} (quiet : R.Quiet op)
      (rest : ∀ result, Guards post (next result) none) :
      Guards post (.call (.call op) next) none
  | inside {op : Op} {next : Res op → LockedCode Mutex Res α} {v : V}
      (keeps : ∀ result v', R.Effect op v result v' → always v')
      (rest : ∀ result v', R.Effect op v result v' → Guards post (next result) (some v')) :
      Guards post (.call (.call op) next) (some v)
  | lockOther {m : Mutex} {next : Unit → LockedCode Mutex Res α} {held : Option V}
      (other : m ≠ mutex) (rest : Guards post (next ()) held) :
      Guards post (.call (.lock m) next) held
  | unlockOther {m : Mutex} {next : Unit → LockedCode Mutex Res α} {held : Option V}
      (other : m ≠ mutex) (rest : Guards post (next ()) held) :
      Guards post (.call (.unlock m) next) held
  | lock {next : Unit → LockedCode Mutex Res α}
      (rest : ∀ v, free v → Guards post (next ()) (some v)) :
      Guards post (.call (.lock mutex) next) none
  | unlock {next : Unit → LockedCode Mutex Res α} {v : V} (restored : free v)
      (rest : Guards post (next ()) none) :
      Guards post (.call (.unlock mutex) next) (some v)

/-- Code that is outside before and after. -/
def GuardsAll (code : LockedCode Mutex Res α) : Prop :=
  R.Guards mutex free always (fun _ held => held = none) code none

variable {R mutex free always}

/-- One call inside of a section, and the code after it. -/
theorem Guards.step {post : α → Option V → Prop} {op : Op} {next : Res op → LockedCode Mutex Res α}
    {v : V} (each : ∀ result v', R.Effect op v result v' →
      always v' ∧ R.Guards mutex free always post (next result) (some v')) :
    R.Guards mutex free always post (.call (.call op) next) (some v) :=
  .inside (fun result v' h => (each result v' h).1) fun result v' h => (each result v' h).2

/-- Code in sequence. -/
theorem Guards.bind {mid : α → Option V → Prop} {post : β → Option V → Prop}
    {code : LockedCode Mutex Res α} {more : α → LockedCode Mutex Res β} {held : Option V}
    (first : R.Guards mutex free always mid code held)
    (rest : ∀ result held, mid result held → R.Guards mutex free always post (more result) held) :
    R.Guards mutex free always post (code.bind more) held := by
  induction first with
  | done returns => exact rest _ _ returns
  | outside quiet _ ih => exact .outside quiet ih
  | inside keeps _ ih => exact .inside keeps ih
  | lockOther other _ ih => exact .lockOther other ih
  | unlockOther other _ ih => exact .unlockOther other ih
  | lock _ ih => exact .lock ih
  | unlock restored _ ih => exact .unlock restored ih

theorem GuardsAll.bind {code : LockedCode Mutex Res α} {more : α → LockedCode Mutex Res β}
    (first : R.GuardsAll mutex free always code)
    (rest : ∀ result, R.GuardsAll mutex free always (more result)) :
    R.GuardsAll mutex free always (code.bind more) := by
  apply Guards.bind first
  rintro result held rfl
  exact rest result

/-- Procedures that use the resource this way, inlined. -/
theorem GuardsAll.inline {procedure : (op : Op') → LockedCode Mutex Res (Res' op)}
    (each : ∀ op, R.GuardsAll mutex free always (procedure op)) (code : Program Op' Res' α) :
    R.GuardsAll mutex free always (code.inline procedure) := by
  induction code with
  | done result => exact .done rfl
  | call op next ih => exact (each op).bind ih

variable (R mutex free always) in
/-- The resource is free, or it is as the section that its owner is in expects it. -/
structure Guarded (S : Threads Mutex Res State Tid) (held : Tid → Option V) : Prop where
  each : ∀ t, R.Guards mutex free always (fun _ held => held = none) (S.code t) (held t)
  owner : ∀ t v, held t = some v → S.owner mutex = some t ∧ v = R.view S.state
  free : S.owner mutex = none → free (R.view S.state)
  always : always (R.view S.state)

namespace Guarded

variable {S S' : Threads Mutex Res State Tid} {held : Tid → Option V}

/-- Whoever does not own the mutex is outside of the guarded part, so at any time at most one thread
is inside. -/
theorem outside (h : R.Guarded mutex free always S held) {t : Tid}
    (other : S.owner mutex ≠ some t) : held t = none := by
  cases hHeld : held t with
  | none => rfl
  | some v => exact absurd (h.owner t v hHeld).1 other

/-- What leaves the resource alone leaves the account alone. -/
theorem same (h : R.Guarded mutex free always S held) {s' : State}
    (view : R.view s' = R.view S.state) :
    R.Guarded mutex free always { S with state := s' } held where
  each := h.each
  owner := by simpa [view] using h.owner
  free := by simpa [view] using h.free
  always := by simpa [view] using h.always

variable [DecidableEq Tid]

theorem each_goTo (h : R.Guarded mutex free always S held) {t : Tid}
    {code : LockedCode Mutex Res Unit} {here : Option V}
    (rest : R.Guards mutex free always (fun _ held => held = none) code here) (t' : Tid) :
    R.Guards mutex free always (fun _ held => held = none) (Function.update S.code t code t')
      (Function.update held t here t') := by
  by_cases hSame : t' = t
  · subst hSame
    simpa using rest
  · simpa [hSame] using h.each t'

/-- The only thread inside is the one that owns the mutex. -/
theorem owner_goTo {t : Tid} {here : Option V} {owner : Option Tid} {state : V}
    (outside : ∀ t', t' ≠ t → held t' = none)
    (inside : ∀ v, here = some v → owner = some t ∧ v = state) (t' : Tid) (v : V)
    (h : Function.update held t here t' = some v) : owner = some t' ∧ v = state := by
  by_cases hSame : t' = t
  · subst hSame
    exact inside v (by simpa using h)
  · rw [Function.update_of_ne hSame, outside t' hSame] at h
    cases h

/-- A step that does not touch the resource or its mutex. -/
theorem other (h : R.Guarded mutex free always S held) {t : Tid}
    {code : LockedCode Mutex Res Unit}
    (rest : R.Guards mutex free always (fun _ held => held = none) code (held t))
    (owner : S'.owner mutex = S.owner mutex) (state : R.view S'.state = R.view S.state)
    (here : S'.code = S.code) : R.Guarded mutex free always (S'.goTo t code) held where
  each := by
    intro t'
    have hEach := h.each_goTo (t := t) rest t'
    rwa [Function.update_eq_self, ← here] at hEach
  owner := by simpa [owner, state] using h.owner
  free := by simpa [owner, state] using h.free
  always := by simpa [state] using h.always

/-- A call has its effect on the resource, if it is made by the owner. -/
theorem answer (h : R.Guarded mutex free always S held) {t : Tid} {op : Op}
    {next : Res op → LockedCode Mutex Res Unit} {choice : Choice} {result : Res op} {s' : State}
    (here : S.code t = .call (.call op) next)
    (calls : M.call op choice S.state = some (.answer result s')) :
    ∃ held', R.Guarded mutex free always ({ S with state := s' }.goTo t (next result)) held' := by
  have hEffect : R.Effect op (R.view S.state) result (R.view s') :=
    ⟨choice, S.state, s', rfl, calls, rfl⟩
  have hEach := h.each t
  rw [here] at hEach
  generalize hHeld : held t = inside at hEach
  cases hEach with
  | outside quiet rest =>
      exact ⟨held, h.other (hHeld ▸ rest result) rfl (quiet _ _ _ hEffect) rfl⟩
  | @inside _ _ v keeps rest =>
      obtain ⟨hOwner, rfl⟩ := h.owner t v hHeld
      refine ⟨_, h.each_goTo (rest result _ hEffect), owner_goTo ?_ ?_, ?_, keeps result _ hEffect⟩
      · exact fun t' hOther => h.outside (hOwner ▸ fun hSame => hOther (Option.some.inj hSame).symm)
      · exact fun v' hInside => ⟨hOwner, (Option.some.inj hInside).symm⟩
      · intro hFree
        rw [Threads.goTo_owner, hOwner] at hFree
        cases hFree

variable [DecidableEq Mutex]

/-- Taking the mutex lends the value to the thread. From here on the thread alone answers for it. -/
theorem lock (h : R.Guarded mutex free always S held) {t : Tid} {m : Mutex}
    {next : Unit → LockedCode Mutex Res Unit} (here : S.code t = .call (.lock m) next)
    (unowned : S.owner m = none) :
    ∃ held', R.Guarded mutex free always
      ({ S with owner := Function.update S.owner m (some t) }.goTo t (next ())) held' := by
  have hEach := h.each t
  rw [here] at hEach
  generalize hHeld : held t = inside at hEach
  cases hEach with
  | lockOther other rest =>
      exact ⟨held, h.other (hHeld ▸ rest) (Function.update_of_ne (Ne.symm other) ..) rfl rfl⟩
  | lock rest =>
      refine ⟨_, h.each_goTo (rest _ (h.free unowned)), owner_goTo ?_ ?_, ?_, h.always⟩
      · exact fun t' _ => h.outside (by simp [unowned])
      · exact fun v hInside => ⟨Function.update_self .., (Option.some.inj hInside).symm⟩
      · simp

/-- Giving the mutex back returns a value that satisfies the invariant again, which is all the next
owner relies on. -/
theorem unlock (h : R.Guarded mutex free always S held) {t : Tid} {m : Mutex}
    {next : Unit → LockedCode Mutex Res Unit} (here : S.code t = .call (.unlock m) next) :
    ∃ held', R.Guarded mutex free always ((S.released t m).goTo t (next ())) held' := by
  have hEach := h.each t
  rw [here] at hEach
  generalize hHeld : held t = inside at hEach
  cases hEach with
  | unlockOther other rest =>
      exact ⟨held, h.other (hHeld ▸ rest) (Function.update_of_ne (Ne.symm other) ..) rfl rfl⟩
  | @unlock _ v restored rest =>
      obtain ⟨hOwner, rfl⟩ := h.owner t v hHeld
      refine ⟨_, h.each_goTo rest, owner_goTo ?_ nofun, fun _ => restored, h.always⟩
      exact fun t' hOther => h.outside (hOwner ▸ fun hSame => hOther (Option.some.inj hSame).symm)

/-- Every step of every thread keeps the account of the resource: one case for each kind of call. -/
theorem step (h : R.Guarded mutex free always S held) (step : Threads.Step M S S') :
    ∃ held', R.Guarded mutex free always S' held' := by
  cases step with
  | event e fires => exact ⟨held, h.same (R.event e _ _ fires)⟩
  | thread t step =>
      cases step with
      | stay choice here calls => exact ⟨held, h.same (R.stay _ choice _ _ calls)⟩
      | answer choice result here calls => exact h.answer here calls
      | lock here unowned => exact h.lock here unowned
      | unlock here => exact h.unlock here

end Guarded

variable [DecidableEq Mutex] [DecidableEq Tid]

/-- Whatever the order of the steps, the resource is as it should be: in every state, and
with the invariant restored whenever the mutex is free. -/
theorem guarded_of_reaches {s : State} {code : Tid → LockedCode Mutex Res Unit}
    {S : Threads Mutex Res State Tid} (each : ∀ t, R.GuardsAll mutex free always (code t))
    (initial : free (R.view s)) (initially : always (R.view s))
    (run : Threads.Reaches M (.start s code) S) :
    (S.owner mutex = none → free (R.view S.state)) ∧ always (R.view S.state) := by
  obtain ⟨held, h⟩ : ∃ held, R.Guarded mutex free always S held := by
    induction run with
    | refl => exact ⟨fun _ => none, each, nofun, fun _ => initial, initially⟩
    | tail _ last ih =>
        obtain ⟨held, h⟩ := ih
        exact h.step last
  exact ⟨h.free, h.always⟩

end Resource
end Interaction

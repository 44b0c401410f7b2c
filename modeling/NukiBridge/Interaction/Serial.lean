import NukiBridge.Interaction.Threads

/-! One mutex around every use of a part of the state makes a server of that part. The
threads may be interleaved in any way: seen from the part, requests are served one after
the other, as if there were a single thread. -/
namespace Interaction

variable {Mutex Op Op' : Type} {Res : Op → Type} {Res' : Op' → Type}
  {Event Event' Choice Choice' State State' Tid Req α β γ : Type}

/-- A part of the state on which some calls of the machine `M` act as those of `N` do. -/
structure Part (M : Machine Op Res Event Choice State)
    (N : Machine Op' Res' Event' Choice' State') where
  view : State → State'
  embed : Op' → Op
  answerOf : (op : Op') → Res (embed op) → Res' op
  event : ∀ e s s', M.event e s = some s' →
    view s' = view s ∨ ∃ e', N.event e' (view s) = some (view s')
  stay : ∀ op choice s s', M.call (embed op) choice s = some (.stay s') →
    ∃ choice', N.call op choice' (view s) = some (.stay (view s'))
  answer : ∀ op choice s result s', M.call (embed op) choice s = some (.answer result s') →
    ∃ choice', N.call op choice' (view s) = some (.answer (answerOf op result) (view s'))

namespace Part

variable {M : Machine Op Res Event Choice State} {N : Machine Op' Res' Event' Choice' State'}
  (P : Part M N)

/-- A call that leaves the part alone. -/
structure Silent (op : Op) : Prop where
  stay : ∀ choice s s', M.call op choice s = some (.stay s') → P.view s' = P.view s
  answer : ∀ choice s result s', M.call op choice s = some (.answer result s') →
    P.view s' = P.view s

variable (mutex : Mutex) (body : Req → Program Op' Res' α)

/-- Code that acts on the part only while it holds the mutex, and then as the body of one
request does. It is read at the body that is left, or outside at `none`. -/
inductive Serves (post : β → Option (Program Op' Res' α) → Prop) :
    LockedCode Mutex Res β → Option (Program Op' Res' α) → Prop where
  | done {result : β} {left : Option (Program Op' Res' α)} (returns : post result left) :
      Serves post (.done result) left
  | silent {op : Op} {next : Res op → LockedCode Mutex Res β}
      {left : Option (Program Op' Res' α)} (quiet : P.Silent op)
      (rest : ∀ result, Serves post (next result) left) :
      Serves post (.call (.call op) next) left
  | act {op : Op'} {next : Res (P.embed op) → LockedCode Mutex Res β}
      {left : Res' op → Program Op' Res' α}
      (rest : ∀ result, Serves post (next result) (some (left (P.answerOf op result)))) :
      Serves post (.call (.call (P.embed op)) next) (some (.call op left))
  | lockOther {m : Mutex} {next : Unit → LockedCode Mutex Res β}
      {left : Option (Program Op' Res' α)} (other : m ≠ mutex)
      (rest : Serves post (next ()) left) : Serves post (.call (.lock m) next) left
  | unlockOther {m : Mutex} {next : Unit → LockedCode Mutex Res β}
      {left : Option (Program Op' Res' α)} (other : m ≠ mutex)
      (rest : Serves post (next ()) left) : Serves post (.call (.unlock m) next) left
  | enter {next : Unit → LockedCode Mutex Res β} (req : Req)
      (rest : Serves post (next ()) (some (body req))) :
      Serves post (.call (.lock mutex) next) none
  | leave {next : Unit → LockedCode Mutex Res β} {result : α}
      (rest : Serves post (next ()) none) :
      Serves post (.call (.unlock mutex) next) (some (.done result))

/-- Code of a thread that is outside before and after. -/
def ServesAll (code : LockedCode Mutex Res β) : Prop :=
  P.Serves mutex body (fun _ left => left = none) code none

variable {P mutex body}

/-- Code in sequence. -/
theorem Serves.bind {mid : β → Option (Program Op' Res' α) → Prop}
    {post : γ → Option (Program Op' Res' α) → Prop} {code : LockedCode Mutex Res β}
    {more : β → LockedCode Mutex Res γ} {left : Option (Program Op' Res' α)}
    (first : P.Serves mutex body mid code left)
    (rest : ∀ result left, mid result left → P.Serves mutex body post (more result) left) :
    P.Serves mutex body post (code.bind more) left := by
  induction first with
  | done returns => exact rest _ _ returns
  | silent quiet _ ih => exact .silent quiet ih
  | act _ ih => exact .act ih
  | lockOther other _ ih => exact .lockOther other ih
  | unlockOther other _ ih => exact .unlockOther other ih
  | enter req _ ih => exact .enter req ih
  | leave _ ih => exact .leave ih

theorem ServesAll.bind {code : LockedCode Mutex Res β} {more : β → LockedCode Mutex Res γ}
    (first : P.ServesAll mutex body code) (rest : ∀ result, P.ServesAll mutex body (more result)) :
    P.ServesAll mutex body (code.bind more) := by
  apply Serves.bind first
  rintro result left rfl
  exact rest result

/-- Procedures in which the part is used this way, inlined. -/
theorem ServesAll.inline {Op'' : Type} {Res'' : Op'' → Type}
    {procedure : (op : Op'') → LockedCode Mutex Res (Res'' op)}
    (each : ∀ op, P.ServesAll mutex body (procedure op)) (code : Program Op'' Res'' β) :
    P.ServesAll mutex body (code.inline procedure) := by
  induction code with
  | done result => exact .done rfl
  | call op next ih => exact (each op).bind ih

/-- Calls that leave the part and its mutex alone, anywhere. -/
theorem serves_of_makes {kind : Locked Mutex Op → Prop} {code : LockedCode Mutex Res β}
    (h : code.Makes kind) (call : ∀ op, kind (.call op) → P.Silent op)
    (lock : ∀ m, kind (.lock m) → m ≠ mutex) (unlock : ∀ m, kind (.unlock m) → m ≠ mutex)
    (left : Option (Program Op' Res' α)) :
    P.Serves mutex body (fun _ left' => left' = left) code left := by
  induction code with
  | done result => exact .done rfl
  | call op next ih =>
      obtain ⟨hCall, hRest⟩ := h
      cases op with
      | lock m => exact .lockOther (lock m hCall) (ih () (hRest ()))
      | unlock m => exact .unlockOther (unlock m hCall) (ih () (hRest ()))
      | call op => exact .silent (call op hCall) fun result => ih result (hRest result)

/-- The body of a request, each of whose calls is carried out by a procedure. -/
theorem serves_inline {procedure : (op : Op') → LockedCode Mutex Res (Res' op)}
    (each : ∀ (op : Op') (left : Res' op → Program Op' Res' α),
      P.Serves mutex body (fun result left' => left' = some (left result)) (procedure op)
        (some (.call op left)))
    (p : Program Op' Res' α) :
    P.Serves mutex body (fun result left => left = some (.done result)) (p.inline procedure)
      (some p) := by
  induction p with
  | done result => exact .done rfl
  | call op next ih =>
      apply Serves.bind (each op next)
      rintro result left rfl
      exact ih result

/-- A request is served in one critical section: all its calls lie between taking and giving the
mutex. -/
theorem servesAll_section {procedure : (op : Op') → LockedCode Mutex Res (Res' op)}
    (each : ∀ (op : Op') (left : Res' op → Program Op' Res' α),
      P.Serves mutex body (fun result left' => left' = some (left result)) (procedure op)
        (some (.call op left)))
    (req : Req) :
    P.ServesAll mutex body ((Program.perform (.lock mutex)).bind fun _ =>
      ((body req).inline procedure).bind fun result =>
        (Program.perform (.unlock mutex)).bind fun _ => .done result) := by
  apply Serves.enter req
  apply Serves.bind (serves_inline each (body req))
  rintro result left rfl
  exact .leave (.done rfl)

variable (N body) in
/-- The server of the part. -/
abbrev server : Server Op' Res' Event' Choice' State' Req α := ⟨N, body⟩

/-- The stage of the server, given who owns the mutex and what is left to each thread. -/
inductive Serving (owner : Option Tid) (s : State') (left : Tid → Option (Program Op' Res' α)) :
    Stage Op' Res' State' Req α → Prop where
  | idle (free : owner = none) (outside : ∀ t, left t = none) : Serving owner s left (.idle s)
  | busy {t : Tid} {p : Program Op' Res' α} (req : Req) (taken : owner = some t)
      (inside : left t = some p) (outside : ∀ t', t' ≠ t → left t' = none) :
      Serving owner s left (.busy req ⟨s, p⟩)

variable (P mutex body) in
/-- The threads are where they are in their sections, and the server gets there too. -/
structure Accounts (start : State') (S : Threads Mutex Res State Tid)
    (left : Tid → Option (Program Op' Res' α)) : Prop where
  each : ∀ t, P.Serves mutex body (fun _ left => left = none) (S.code t) (left t)
  served : ∃ stage, Serving (S.owner mutex) (P.view S.state) left stage ∧
    (server N body).Reaches .free start stage

namespace Accounts

variable {start : State'} {S S' : Threads Mutex Res State Tid}
  {left : Tid → Option (Program Op' Res' α)}

/-- The request that a thread is in. -/
theorem busy (h : P.Accounts mutex body start S left) {t : Tid} {p : Program Op' Res' α}
    (here : left t = some p) :
    S.owner mutex = some t ∧ (∀ t', t' ≠ t → left t' = none) ∧
      ∃ req, (server N body).Reaches .free start (.busy req ⟨P.view S.state, p⟩) := by
  obtain ⟨stage, hServing, hReaches⟩ := h.served
  cases hServing with
  | idle free outside =>
      rw [outside t] at here
      cases here
  | @busy t' p' req taken inside outside =>
      by_cases hSame : t = t'
      · subst hSame
        obtain rfl : p' = p := Option.some.inj (inside.symm.trans here)
        exact ⟨taken, outside, req, hReaches⟩
      · rw [outside t hSame] at here
        cases here

/-- An event is none of the part, or one of its own. -/
theorem event (h : P.Accounts mutex body start S left) {e : Event} {s' : State}
    (fires : M.event e S.state = some s') :
    P.Accounts mutex body start { S with state := s' } left where
  each := h.each
  served := by
    obtain ⟨stage, hServing, hReaches⟩ := h.served
    rcases P.event e _ s' fires with hSame | ⟨e', hFires⟩
    · exact ⟨stage, hSame ▸ hServing, hReaches⟩
    · cases hServing with
      | idle free outside =>
          exact ⟨_, .idle free outside, .event hReaches e' trivial hFires⟩
      | busy req taken inside outside =>
          exact ⟨_, .busy req taken inside outside, .step hReaches (.event e' trivial hFires)⟩

/-- A step inside a call is none of the part, or one of the request that is served. -/
theorem stay (h : P.Accounts mutex body start S left) {t : Tid} {op : Op}
    {next : Res op → LockedCode Mutex Res Unit} {choice : Choice} {s' : State}
    (here : S.code t = .call (.call op) next)
    (calls : M.call op choice S.state = some (.stay s')) :
    P.Accounts mutex body start { S with state := s' } left where
  each := h.each
  served := by
    have hEach := h.each t
    rw [here] at hEach
    generalize hLeft : left t = inside at hEach
    cases hEach with
    | silent quiet rest => simpa [quiet.stay choice _ _ calls] using h.served
    | act rest =>
        obtain ⟨taken, outside, req, hReaches⟩ := h.busy hLeft
        obtain ⟨choice', hCalls⟩ := P.stay _ choice _ _ calls
        exact ⟨_, .busy req taken hLeft outside, .step hReaches (.stay choice' trivial hCalls)⟩

variable [DecidableEq Tid]

/-- Where the code of one thread is replaced, it is read at what is left to that thread. -/
theorem each_goTo (h : P.Accounts mutex body start S left) {t : Tid}
    {code : LockedCode Mutex Res Unit} {here : Option (Program Op' Res' α)}
    (rest : P.Serves mutex body (fun _ left => left = none) code here) (t' : Tid) :
    P.Serves mutex body (fun _ left => left = none) (Function.update S.code t code t')
      (Function.update left t here t') := by
  by_cases hSame : t' = t
  · subst hSame
    simpa using rest
  · simpa [hSame] using h.each t'

/-- A step that is none of the part: the owner of the mutex and what the record shows of the state
are as they were. -/
theorem other (h : P.Accounts mutex body start S left) {t : Tid}
    {code : LockedCode Mutex Res Unit}
    (rest : P.Serves mutex body (fun _ left => left = none) code (left t))
    (owner : S'.owner mutex = S.owner mutex) (view : P.view S'.state = P.view S.state)
    (here : S'.code = S.code) : P.Accounts mutex body start (S'.goTo t code) left where
  each := by
    intro t'
    have hEach := h.each_goTo (t := t) rest t'
    rwa [Function.update_eq_self, ← here] at hEach
  served := by
    simpa [owner, view] using h.served

/-- The answer of a call is none of the part, or one of the request that is served. -/
theorem answer (h : P.Accounts mutex body start S left) {t : Tid} {op : Op}
    {next : Res op → LockedCode Mutex Res Unit} {choice : Choice} {result : Res op} {s' : State}
    (here : S.code t = .call (.call op) next)
    (calls : M.call op choice S.state = some (.answer result s')) :
    ∃ left', P.Accounts mutex body start ({ S with state := s' }.goTo t (next result)) left' := by
  have hEach := h.each t
  rw [here] at hEach
  generalize hLeft : left t = inside at hEach
  cases hEach with
  | silent quiet rest =>
      subst hLeft
      exact ⟨left, h.other (rest result) rfl (quiet.answer choice _ _ _ calls) rfl⟩
  | act rest =>
      obtain ⟨taken, outside, req, hReaches⟩ := h.busy hLeft
      obtain ⟨choice', hCalls⟩ := P.answer _ choice _ _ _ calls
      refine ⟨_, h.each_goTo (rest result), _, .busy req taken (Function.update_self ..) ?_,
        .step hReaches (.answer choice' _ trivial hCalls)⟩
      intro t' hOther
      simpa [hOther] using outside t' hOther

variable [DecidableEq Mutex]

/-- Taking the mutex begins a request. From here on the calls of the thread are those of its
body. -/
theorem lock (h : P.Accounts mutex body start S left) {t : Tid} {m : Mutex}
    {next : Unit → LockedCode Mutex Res Unit} (here : S.code t = .call (.lock m) next)
    (free : S.owner m = none) :
    ∃ left', P.Accounts mutex body start
      ({ S with owner := Function.update S.owner m (some t) }.goTo t (next ())) left' := by
  have hEach := h.each t
  rw [here] at hEach
  generalize hLeft : left t = inside at hEach
  cases hEach with
  | lockOther other rest =>
      subst hLeft
      exact ⟨left, h.other rest (Function.update_of_ne (Ne.symm other) ..) rfl rfl⟩
  | enter req rest =>
      obtain ⟨stage, hServing, hReaches⟩ := h.served
      cases hServing with
      | idle _ outside =>
          refine ⟨_, h.each_goTo rest, _, .busy req (Function.update_self ..)
            (Function.update_self ..) ?_, .request hReaches req⟩
          intro t' hOther
          simpa [hOther] using outside t'
      | busy _ taken _ _ =>
          rw [free] at taken
          cases taken

/-- Giving the mutex back ends the request, which at this point has made all its calls. -/
theorem unlock (h : P.Accounts mutex body start S left) {t : Tid} {m : Mutex}
    {next : Unit → LockedCode Mutex Res Unit} (here : S.code t = .call (.unlock m) next) :
    ∃ left', P.Accounts mutex body start ((S.released t m).goTo t (next ())) left' := by
  have hEach := h.each t
  rw [here] at hEach
  generalize hLeft : left t = inside at hEach
  cases hEach with
  | unlockOther other rest =>
      subst hLeft
      exact ⟨left, h.other rest (Function.update_of_ne (Ne.symm other) ..) rfl rfl⟩
  | leave rest =>
      obtain ⟨taken, outside, req, hReaches⟩ := h.busy hLeft
      refine ⟨_, h.each_goTo rest, _, .idle ?_ ?_, .finish hReaches⟩
      · simp [Threads.released, taken]
      · intro t'
        by_cases hSame : t' = t
        · simp [hSame]
        · simpa [hSame] using outside t' hSame

/-- Every step of every thread keeps account of who is in which request, and how far it is. -/
theorem step (h : P.Accounts mutex body start S left) (step : Threads.Step M S S') :
    ∃ left', P.Accounts mutex body start S' left' := by
  cases step with
  | event e fires => exact ⟨left, h.event fires⟩
  | thread t step =>
      cases step with
      | stay choice here calls => exact ⟨left, h.stay here calls⟩
      | answer choice result here calls => exact h.answer here calls
      | lock here free => exact h.lock here free
      | unlock here => exact h.unlock here

end Accounts

variable [DecidableEq Mutex] [DecidableEq Tid]

/-- Whatever the order of the steps, the part gets where a server takes it that serves one
request after the other. -/
theorem reaches_serial {s : State} {code : Tid → LockedCode Mutex Res Unit}
    {S : Threads Mutex Res State Tid} (each : ∀ t, P.ServesAll mutex body (code t))
    (run : Threads.Reaches M (.start s code) S) :
    ∃ stage, (server N body).Reaches .free (P.view s) stage ∧ stage.state = P.view S.state := by
  obtain ⟨left, -, stage, hServing, hReaches⟩ :
      ∃ left, P.Accounts mutex body (P.view s) S left := by
    induction run with
    | refl => exact ⟨fun _ => none, each, _, .idle rfl fun _ => rfl, .start⟩
    | tail _ last ih =>
        obtain ⟨left, h⟩ := ih
        exact h.step last
  refine ⟨stage, hReaches, ?_⟩
  cases hServing <;> rfl

end Part
end Interaction

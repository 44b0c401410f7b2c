import NukiBridge.Interaction.Outline
import NukiBridge.Transport.Calls
import NukiBridge.Transport.Reassembly

/-! The reading side of one transport, interleaved with `notify_cb`. An
indication is appended under `rx_lock` and its semaphore is given afterwards,
each in a step of its own; `nuki_transport_wait_min` and `nuki_transport_reset`
take several steps as well. When a deadline may pass is a parameter. -/
namespace NukiBridge

open Buffer Interaction

/-- Where the reader stands inside a call: at the top of the loop of `wait_min`,
before the remaining time is computed, in `k_sem_take`, or between the two parts
of `reset`. -/
inductive Phase where
  | outside
  | checking (expired : Bool)
  | timing (expired : Bool)
  | blocked
  | cleared
  deriving DecidableEq

/-- `giving` is set while `notify_cb` has appended but not yet given the semaphore. -/
structure RxState where
  feed : Feed
  rxSem : Nat
  giving : Bool
  phase : Phase

inductive RxEvent where
  | indicate
  | give

/-- What the environment decides in a step of the reader: whether its deadline
passes, and the result of a call that is not about received bytes. -/
structure RxChoice where
  expire : Bool
  answer : (c : Call) → c.Answer

/-- `K_SEM_MAX_LIMIT`. -/
def kSemMaxLimit : Nat := 4294967295

namespace RxState

def event : RxEvent → RxState → Option RxState
  | .indicate, s =>
      if s.giving then none
      else s.feed.indicate.map fun f => { s with feed := f, giving := true }
  | .give, s =>
      if s.giving then
        some { s with giving := false, rxSem := min (s.rxSem + 1) kSemMaxLimit }
      else none

/-- One step of `nuki_transport_wait_min`. -/
def waitMin (mayExpire : RxState → Bool) (minLen : Nat) (expire : Bool) (s : RxState) :
    Option (Reply Int RxState) :=
  match s.phase with
  | .outside => some (.stay { s with phase := .checking false })
  | .checking expired =>
      if s.feed.rx.rxLen ≥ minLen then some (.answer 0 { s with phase := .outside })
      else some (.stay { s with phase := .timing expired })
  | .timing expired =>
      if expired || (expire && mayExpire s) then
        some (.answer (-eagain) { s with phase := .outside })
      else some (.stay { s with phase := .blocked })
  | .blocked =>
      if s.rxSem > 0 then
        some (.stay { s with rxSem := s.rxSem - 1, phase := .checking false })
      else if expire && mayExpire s then some (.stay { s with phase := .checking true })
      else none
  | .cleared => none

/-- `nuki_transport_peek`. -/
def peek (len : Nat) (s : RxState) : Option (Reply (Bytes len) RxState) :=
  if h : s.phase = .outside ∧ 0 + len ≤ wireMaxLen then
    some (.answer (s.feed.rx.rxBuf.slice 0 len h.2) s)
  else none

/-- One step of `nuki_transport_reset`. -/
def reset (s : RxState) : Option (Reply Unit RxState) :=
  match s.phase with
  | .outside =>
      some (.stay { s with feed := { s.feed with rx := s.feed.rx.clear }, phase := .cleared })
  | .cleared => some (.answer () { s with rxSem := 0, phase := .outside })
  | _ => none

def call (mayExpire : RxState → Bool) :
    (c : Call) → RxChoice → RxState → Option (Reply c.Answer RxState)
  | .waitMin minLen _, choice, s => s.waitMin mayExpire minLen choice.expire
  | .peek len, _, s => s.peek len
  | .reset, _, s => s.reset
  | .rxLen, _, s => some (.answer s.feed.rx.rxLen s)
  | c, choice, s => some (.answer (choice.answer c) s)

/-- No deadline passes before everything has arrived, and none while the reader
is running and not asleep. -/
def timely (s : RxState) : Bool := s.phase = .blocked ∧ s.feed.Exhausted

/-- The steps that are left without a step of the code. -/
def measure (s : RxState) : Nat :=
  5 * s.feed.outstanding + 4 * s.giving.toNat + 3 * s.rxSem +
    match s.phase with
    | .outside => 6
    | .checking false => 5
    | .timing false => 4
    | .blocked => 3
    | .checking true => 2
    | .timing true => 1
    | .cleared => 0

end RxState

/-- The reader and its environment. -/
def transport (mayExpire : RxState → Bool) : Machine Call Call.Answer RxEvent RxChoice RxState where
  event := RxState.event
  call := RxState.call mayExpire

/-- Each indication and each give uses up something that is finite. A reader is not kept waiting for
ever. -/
theorem measure_event {e : RxEvent} {s s' : RxState} (h : s.event e = some s') :
    s'.measure < s.measure := by
  cases e with
  | indicate =>
      rw [RxState.event] at h
      split at h
      · cases h
      · rename_i hGiving
        obtain ⟨f, hFeed, rfl⟩ := Option.map_eq_some_iff.mp h
        have hCount := Feed.outstanding_indicate hFeed
        simp only [RxState.measure, hCount, Bool.eq_false_iff.mpr hGiving, Bool.toNat_true,
          Bool.toNat_false]
        omega
  | give =>
      rw [RxState.event] at h
      split at h
      · rename_i hGiving
        cases h
        simp only [RxState.measure, hGiving, Bool.toNat_true, Bool.toNat_false]
        omega
      · cases h

theorem measure_waitMin {mayExpire : RxState → Bool} {minLen : Nat} {expire : Bool}
    {s s' : RxState} (h : s.waitMin mayExpire minLen expire = some (.stay s')) :
    s'.measure < s.measure := by
  obtain ⟨feed, rxSem, giving, phase⟩ := s
  rw [RxState.waitMin] at h
  cases phase with
  | outside =>
      cases h
      exact Nat.lt_succ_self _
  | checking expired =>
      simp only at h
      split at h
      · cases h
      · cases h
        cases expired <;> exact Nat.lt_succ_self _
  | timing expired =>
      simp only at h
      split at h
      · cases h
      · rename_i hExpired
        cases h
        cases expired with
        | false => exact Nat.lt_succ_self _
        | true => exact absurd rfl hExpired
  | blocked =>
      simp only at h
      split at h
      · cases h
        simp only [RxState.measure]
        omega
      · split at h
        · cases h
          exact Nat.lt_succ_self _
        · cases h
  | cleared => cases h

/-- The same for a call that has to be made again, as a wait does when it was woken too early. -/
theorem measure_stay {mayExpire : RxState → Bool} {c : Call} {choice : RxChoice}
    {s s' : RxState} (h : s.call mayExpire c choice = some (.stay s')) :
    s'.measure < s.measure := by
  cases c with
  | waitMin minLen timeoutSec => exact measure_waitMin h
  | reset =>
      obtain ⟨feed, rxSem, giving, phase⟩ := s
      cases phase with
      | outside =>
          cases h
          simp [RxState.measure, Feed.outstanding]
      | _ => cases h
  | peek len =>
      simp only [RxState.call, RxState.peek] at h
      split at h <;> cases h
  | _ => cases h

/-- The reader and the indications come to an end in every run. -/
theorem transport_terminates {α : Type} (mayExpire : RxState → Bool)
    (cond : Condition Call RxEvent RxChoice RxState) (c : Config Call Call.Answer RxState α) :
    Acc (fun d c => (transport mayExpire).Step cond c d) c :=
  Machine.terminates RxState.measure (fun _ _ _ => measure_event) (fun _ _ _ _ => measure_stay) c

section Outlines

variable (allowed : Feed → Prop)

/-- Runs in which the next indication arrives only when it is allowed to. -/
def arrivals : Condition Call RxEvent RxChoice RxState where
  event := fun e s => e = .indicate → allowed s.feed
  call := fun _ _ _ => True

theorem arrivals_true : arrivals (fun _ => True) = .free := by
  simp only [arrivals, Condition.free, implies_true]

/-- Deadlines are met, and the reader is never stuck. -/
def readerRules : Rules Call Call.Answer RxEvent RxChoice RxState where
  machine := transport RxState.timely
  condition := arrivals allowed
  invariant := fun _ => True
  safe := fun c s => (transport RxState.timely).Live (arrivals allowed) c s

theorem readerRules_sound : (readerRules allowed).Sound :=
  ⟨fun _ _ _ _ _ _ => trivial, fun _ _ _ _ _ _ _ => trivial, fun _ _ _ _ _ _ _ _ => trivial⟩

/-- What the feed holds is the beginning of `text`, and all of it once everything
has arrived, for as long as only allowed indications arrive. -/
structure View (P : Feed → Prop) (text : List UInt8) : Prop where
  stable : ∀ f f', P f → allowed f → f.indicate = some f' → P f'
  begins : ∀ f, P f → f.rx.bytes <+: text
  complete : ∀ f, P f → f.Exhausted → f.rx.bytes = text
  permits : ∀ f, P f → f.rx.bytes ≠ text → ¬f.Exhausted → allowed f

variable {allowed} {P Q : Feed → Prop} {text : List UInt8}

/-- Between calls, with at least `len` bytes accumulated. -/
def Holds (P : Feed → Prop) (len : Nat) (s : RxState) : Prop :=
  s.phase = .outside ∧ P s.feed ∧ len ≤ s.feed.rx.rxLen

/-- The two steps of an indication: the bytes are appended, and the semaphore is given
afterwards. -/
theorem event_cases {e : RxEvent} {s s' : RxState} (h : s.event e = some s') :
    s'.phase = s.phase ∧
      (e = .indicate ∧ s.giving = false ∧ s'.giving = true ∧ s'.rxSem = s.rxSem ∧
          s.feed.indicate = some s'.feed ∨
        e = .give ∧ s.giving = true ∧ s'.giving = false ∧ 0 < s'.rxSem ∧ s'.feed = s.feed) := by
  cases e with
  | indicate =>
      rw [RxState.event] at h
      split at h
      · cases h
      · rename_i hGiving
        obtain ⟨f, hFeed, rfl⟩ := Option.map_eq_some_iff.mp h
        exact ⟨rfl, Or.inl ⟨rfl, Bool.eq_false_iff.mpr hGiving, rfl, rfl, hFeed⟩⟩
  | give =>
      rw [RxState.event] at h
      split at h
      · rename_i hGiving
        cases h
        exact ⟨rfl, Or.inr ⟨rfl, hGiving, rfl, Nat.lt_min.mpr ⟨Nat.succ_pos _, by decide⟩, rfl⟩⟩
      · cases h

/-- An assertion about the feed that indications keep is stable between calls. -/
theorem stable_holds (stable : ∀ f f', P f → allowed f → f.indicate = some f' → P f')
    (len : Nat) : (readerRules allowed).Stable (Holds P len) := by
  rintro e s s' - - ⟨hPhase, hP, hLen⟩ meets fires
  obtain ⟨hSame, ⟨rfl, -, -, -, hFeed⟩ | ⟨rfl, -, -, -, hFeed⟩⟩ := event_cases fires
  · exact ⟨hSame.trans hPhase, stable _ _ hP (meets rfl) hFeed,
      hLen.trans (Feed.rxLen_indicate hFeed)⟩
  · exact ⟨hSame.trans hPhase, hFeed ▸ hP, hFeed ▸ hLen⟩

/-- Inside `wait_min`: a reader about to sleep has too little, or a wake-up is due. -/
def Awaits (P : Feed → Prop) (minLen : Nat) (s : RxState) : Prop :=
  P s.feed ∧
    match s.phase with
    | .outside => True
    | .checking expired => expired = true → s.feed.Exhausted
    | .timing false | .blocked =>
        s.feed.rx.rxLen < minLen ∨ s.giving = true ∨ 0 < s.rxSem
    | .timing true => s.feed.Exhausted ∧ s.feed.rx.rxLen < minLen
    | .cleared => False

/-- What a wait knows of the bytes so far survives the indications that come during the wait. -/
theorem stable_awaits (stable : ∀ f f', P f → allowed f → f.indicate = some f' → P f')
    (minLen : Nat) : (readerRules allowed).Stable (Awaits P minLen) := by
  rintro e s s' - - ⟨hP, hPhase⟩ meets fires
  obtain ⟨hSame, ⟨rfl, -, hGiving, -, hFeed⟩ | ⟨rfl, -, -, hSem, hFeed⟩⟩ := event_cases fires
  · have noMore : ¬s.feed.Exhausted := fun h => h.indicate_ne hFeed
    refine ⟨stable _ _ hP (meets rfl) hFeed, ?_⟩
    rw [hSame]
    revert hPhase
    rcases s.phase with - | expired | (_ | _) | - | -
    · exact id
    · exact fun h hExpired => absurd (h hExpired) noMore
    · exact fun _ => Or.inr (Or.inl hGiving)
    · exact fun h => absurd h.1 noMore
    · exact fun _ => Or.inr (Or.inl hGiving)
    · exact id
  · rw [Awaits, hFeed, hSame]
    refine ⟨hP, ?_⟩
    revert hPhase
    rcases s.phase with - | expired | (_ | _) | - | -
    · exact id
    · exact id
    · exact fun _ => Or.inr (Or.inr hSem)
    · exact id
    · exact fun _ => Or.inr (Or.inr hSem)
    · exact id

theorem stays_awaits (minLen timeoutSec : Nat) :
    (readerRules allowed).Stays (.waitMin minLen timeoutSec) (Awaits P minLen) := by
  rintro choice ⟨feed, rxSem, giving, phase⟩ s' - - ⟨hP, hPhase⟩ - calls
  change RxState.waitMin _ _ _ _ = _ at calls
  rw [RxState.waitMin] at calls
  rcases phase with - | expired | (_ | _) | - | -
  · cases calls
    exact ⟨hP, fun h => Bool.noConfusion h⟩
  · simp only at calls
    split at calls
    · cases calls
    · rename_i hShort
      cases calls
      cases expired with
      | false => exact ⟨hP, Or.inl (Nat.not_le.mp hShort)⟩
      | true => exact ⟨hP, hPhase rfl, Nat.not_le.mp hShort⟩
  · simp [RxState.timely] at calls
    cases calls
    exact ⟨hP, hPhase⟩
  · cases calls
  · simp only at calls
    split at calls
    · cases calls
      exact ⟨hP, fun h => Bool.noConfusion h⟩
    · split at calls
      · rename_i hExpire
        cases calls
        simp [RxState.timely] at hExpire
        exact ⟨hP, fun _ => hExpire.2⟩
      · cases calls
  · cases calls

/-- The choice in which time passes. -/
def RxChoice.late : RxChoice := ⟨true, fun _ => default⟩

/-- A waiting reader can always go on: a wake-up is never lost. -/
theorem live_awaits (view : View allowed P text) {minLen timeoutSec : Nat} {s : RxState}
    (full : minLen ≤ text.length ∨ ∀ f, P f → allowed f) (h : Awaits P minLen s) :
    (readerRules allowed).safe (.waitMin minLen timeoutSec) s := by
  obtain ⟨feed, rxSem, giving, phase⟩ := s
  obtain ⟨hP, hPhase⟩ := h
  have thread (reply : Reply Int RxState)
      (h : RxState.waitMin RxState.timely minLen true ⟨feed, rxSem, giving, phase⟩ = some reply) :
      (readerRules allowed).safe (.waitMin minLen timeoutSec) ⟨feed, rxSem, giving, phase⟩ :=
    Or.inl ⟨.late, reply, trivial, h⟩
  rcases phase with - | expired | expired | - | -
  · exact thread _ rfl
  · by_cases hLen : feed.rx.rxLen ≥ minLen
    · exact thread _ (if_pos hLen)
    · exact thread _ (if_neg hLen)
  · cases expired with
    | false =>
        exact thread (.stay ⟨feed, rxSem, giving, .blocked⟩)
          (by simp [RxState.waitMin, RxState.timely])
    | true => exact thread _ rfl
  · by_cases hSem : 0 < rxSem
    · exact thread _ (if_pos hSem)
    · by_cases hGiving : giving = true
      · exact Or.inr ⟨.give, ⟨feed, min (rxSem + 1) kSemMaxLimit, false, .blocked⟩, nofun,
          if_pos hGiving⟩
      · have hShort : feed.rx.rxLen < minLen := (hPhase.resolve_right (by simp [hGiving, hSem]))
        by_cases hAll : feed.Exhausted
        · exact thread (.stay ⟨feed, rxSem, giving, .checking true⟩)
            (by simp [RxState.waitMin, RxState.timely, hSem, hAll])
        · obtain ⟨f, hFeed⟩ := Option.ne_none_iff_exists'.mp
            (mt feed.indicate_eq_none_iff.mp hAll)
          have hAllowed : allowed feed := by
            rcases full with hFull | hFree
            · refine view.permits feed hP (fun hText => ?_) hAll
              rw [← hText, Reassembly.length_bytes] at hFull
              exact absurd hShort (Nat.not_lt.mpr hFull)
            · exact hFree feed hP
          refine Or.inr ⟨.indicate, ⟨f, rxSem, true, .blocked⟩, fun _ => hAllowed, ?_⟩
          exact (if_neg hGiving).trans (congrArg (Option.map _) hFeed)
  · exact hPhase.elim

variable {α : Type} {post : α → RxState → Prop}

/-- `wait_min` returns zero once there is enough, and a timeout only if there never is. -/
theorem outline_waitMin (view : View allowed P text) {len minLen timeoutSec : Nat}
    {next : Int → Code α} (full : minLen ≤ text.length ∨ ∀ f, P f → allowed f)
    (enough : minLen ≤ text.length → (readerRules allowed).Outline post (next 0) (Holds P minLen))
    (short : text.length < minLen → (readerRules allowed).Outline post (next (-eagain))
      (Holds P 0)) :
    (readerRules allowed).Outline post (.call (.waitMin minLen timeoutSec) next) (Holds P len) := by
  let mid (result : Int) (s : RxState) : Prop :=
    result = 0 ∧ minLen ≤ text.length ∧ Holds P minLen s ∨
      result = -eagain ∧ text.length < minLen ∧ Holds P 0 s
  have rest (result : Int) :
      (readerRules allowed).Outline post (next result) (mid result) := by
    by_cases hEnough : result = 0 ∧ minLen ≤ text.length
    · obtain ⟨rfl, hText⟩ := hEnough
      refine (enough hText).mono fun s _ h => ?_
      exact h.elim (fun h => h.2.2) (fun h => absurd h.1 (by decide))
    · by_cases hShort : result = -eagain ∧ text.length < minLen
      · obtain ⟨rfl, hText⟩ := hShort
        refine (short hText).mono fun s _ h => ?_
        exact h.elim (fun h => absurd h.1 (by decide)) (fun h => h.2.2)
      · exact .absurd _ fun s _ h => h.elim (fun h => hEnough ⟨h.1, h.2.1⟩)
          (fun h => hShort ⟨h.1, h.2.1⟩)
  refine Rules.Outline.mono (.call (stable_awaits view.stable minLen)
    (stays_awaits minLen timeoutSec) (fun s _ h => live_awaits view full h) mid ?_ rest)
    fun s _ h => ⟨h.2.1, by rw [h.1]; trivial⟩
  rintro choice ⟨feed, rxSem, giving, phase⟩ result s' - - ⟨hP, hPhase⟩ - calls
  change RxState.waitMin _ _ _ _ = _ at calls
  rw [RxState.waitMin] at calls
  rcases phase with - | expired | (_ | _) | - | -
  · cases calls
  · simp only at calls
    split at calls
    · rename_i hLen
      cases calls
      refine Or.inl ⟨rfl, hLen.trans ?_, rfl, hP, hLen⟩
      simpa using (view.begins feed hP).length_le
    · cases calls
  · simp [RxState.timely] at calls
  · cases calls
    refine Or.inr ⟨rfl, ?_, rfl, hP, Nat.zero_le _⟩
    rw [← view.complete feed hP hPhase.1, Reassembly.length_bytes]
    exact hPhase.2
  · simp only at calls
    split at calls
    · cases calls
    · split at calls <;> cases calls
  · cases calls

/-- `peek` copies out the beginning of the text, as long as no more is asked for than has
arrived. -/
theorem outline_peek (view : View allowed P text) {len : Nat} {next : Bytes len → Code α}
    (fits : 0 + len ≤ wireMaxLen)
    (rest : ∀ out : Bytes len, out.val = text.take len →
      (readerRules allowed).Outline post (next out) (Holds P len)) :
    (readerRules allowed).Outline post (.call (.peek len) next) (Holds P len) := by
  refine .call (stable_holds view.stable len) ?_ ?_
    (fun out s => out.val = text.take len ∧ Holds P len s) ?_ fun out => ?_
  · rintro choice s s' - - - - calls
    change RxState.peek len s = _ at calls
    rw [RxState.peek] at calls
    split at calls <;> cases calls
  · exact fun s _ h => Or.inl ⟨.late, _, trivial, dif_pos ⟨h.1, fits⟩⟩
  · rintro choice s out s' - - h - calls
    change RxState.peek len s = _ at calls
    rw [RxState.peek, dif_pos ⟨h.1, fits⟩] at calls
    cases calls
    refine ⟨?_, h⟩
    obtain ⟨tail, hText⟩ := view.begins s.feed h.2.1
    rw [← hText, List.take_append_of_le_length (by rw [Reassembly.length_bytes]; exact h.2.2),
      Reassembly.bytes, List.take_take, Nat.min_eq_left h.2.2]
    rfl
  · by_cases hOut : out.val = text.take len
    · exact (rest out hOut).mono fun s _ h => h.2
    · exact .absurd _ fun s _ h => hOut h.1

private theorem reset_outside {s : RxState} (h : s.phase = .outside) : s.reset =
    some (.stay { s with feed := { s.feed with rx := s.feed.rx.clear }, phase := .cleared }) := by
  rw [RxState.reset, h]

private theorem reset_cleared {s : RxState} (h : s.phase = .cleared) :
    s.reset = some (.answer () { s with rxSem := 0, phase := .outside }) := by
  rw [RxState.reset, h]

/-- `reset` leads from one assertion about the feed to the next. -/
theorem outline_reset {len : Nat} {next : Unit → Code α}
    (stable : ∀ f f', P f → allowed f → f.indicate = some f' → P f')
    (stable' : ∀ f f', Q f → allowed f → f.indicate = some f' → Q f')
    (clears : ∀ f, P f → len ≤ f.rx.rxLen → Q { f with rx := f.rx.clear })
    (rest : (readerRules allowed).Outline post (next ()) (Holds Q 0)) :
    (readerRules allowed).Outline post (.call .reset next) (Holds P len) := by
  let inside (s : RxState) : Prop := Holds P len s ∨ s.phase = .cleared ∧ Q s.feed
  suffices outline : (readerRules allowed).Outline post (.call .reset next) inside from
    outline.mono fun s _ h => Or.inl h
  refine .call ?_ ?_ ?_ (fun _ => Holds Q 0) ?_ fun _ => rest
  · rintro e s s' inv inv' (h | ⟨hPhase, hQ⟩) meets fires
    · exact Or.inl (stable_holds stable len e s s' inv inv' h meets fires)
    · obtain ⟨hSame, ⟨rfl, -, -, -, hFeed⟩ | ⟨rfl, -, -, -, hFeed⟩⟩ := event_cases fires
      · exact Or.inr ⟨hSame.trans hPhase, stable' _ _ hQ (meets rfl) hFeed⟩
      · exact Or.inr ⟨hSame.trans hPhase, hFeed ▸ hQ⟩
  · rintro choice s s' - - (⟨hPhase, hP, hLen⟩ | ⟨hPhase, -⟩) - calls
    · cases (reset_outside hPhase).symm.trans calls
      exact Or.inr ⟨rfl, clears _ hP hLen⟩
    · cases (reset_cleared hPhase).symm.trans calls
  · rintro s - (⟨hPhase, -⟩ | ⟨hPhase, -⟩)
    · exact Or.inl ⟨.late, _, trivial, reset_outside hPhase⟩
    · exact Or.inl ⟨.late, _, trivial, reset_cleared hPhase⟩
  · rintro choice s result s' - - (⟨hPhase, -⟩ | ⟨hPhase, hQ⟩) - calls
    · cases (reset_outside hPhase).symm.trans calls
    · cases (reset_cleared hPhase).symm.trans calls
      exact ⟨rfl, hQ, Nat.zero_le _⟩

/-- A call that answers at once and changes nothing. -/
private theorem outline_answer {c : Call} {len : Nat} {next : c.Answer → Code α}
    (value : RxChoice → RxState → c.Answer)
    (answers : ∀ choice s,
      RxState.call RxState.timely c choice s = some (.answer (value choice s) s))
    (stable : ∀ f f', P f → allowed f → f.indicate = some f' → P f')
    (rest : ∀ result, (readerRules allowed).Outline post (next result)
      fun s => Holds P len s ∧ ∃ choice, result = value choice s) :
    (readerRules allowed).Outline post (.call c next) (Holds P len) := by
  refine .call (stable_holds stable len) ?_ ?_
    (fun result s => Holds P len s ∧ ∃ choice, result = value choice s) ?_ rest
  · rintro choice s s' - - - - calls
    cases (answers choice s).symm.trans calls
  · exact fun s _ _ => Or.inl ⟨.late, _, trivial, answers _ s⟩
  · rintro choice s result s' - - h - calls
    cases (answers choice s).symm.trans calls
    exact ⟨h, choice, rfl⟩

theorem outline_log {len : Nat} {format : String} {args : List Int} {next : Unit → Code α}
    (stable : ∀ f f', P f → allowed f → f.indicate = some f' → P f')
    (rest : (readerRules allowed).Outline post (next ()) (Holds P len)) :
    (readerRules allowed).Outline post (.call (.log format args) next) (Holds P len) :=
  outline_answer (fun choice _ => choice.answer (.log format args)) (fun _ _ => rfl) stable
    fun _ => rest.mono fun _ _ h => h.1

theorem outline_logHexdump {len : Nat} {text : String} {data : List UInt8} {next : Unit → Code α}
    (stable : ∀ f f', P f → allowed f → f.indicate = some f' → P f')
    (rest : (readerRules allowed).Outline post (next ()) (Holds P len)) :
    (readerRules allowed).Outline post (.call (.logHexdump text data) next) (Holds P len) :=
  outline_answer (fun choice _ => choice.answer (.logHexdump text data)) (fun _ _ => rfl) stable
    fun _ => rest.mono fun _ _ h => h.1

/-- As many bytes as `rx_len` tells stay in the buffer. -/
theorem outline_rxLen {len : Nat} {next : Nat → Code α}
    (stable : ∀ f f', P f → allowed f → f.indicate = some f' → P f')
    (rest : ∀ got, (readerRules allowed).Outline post (next got) (Holds P got)) :
    (readerRules allowed).Outline post (.call .rxLen next) (Holds P len) := by
  apply outline_answer (fun _ s => s.feed.rx.rxLen) (fun _ _ => rfl) stable
  intro got
  apply (rest got).mono
  rintro s - ⟨⟨hPhase, hP, -⟩, choice, rfl⟩
  exact ⟨hPhase, hP, Nat.le_refl _⟩

theorem outline_done {len : Nat} {result : α}
    (stable : ∀ f f', P f → allowed f → f.indicate = some f' → P f')
    (returns : ∀ s, Holds P len s → post result s) :
    (readerRules allowed).Outline post (.done result) (Holds P len) :=
  .done (stable_holds stable len) fun s _ h => returns s h

/-- An outlined reader returns in every run, because its waits use up what is left to arrive. -/
theorem returns_of_outline {p : Code α} {pre : RxState → Prop} {results : α → Prop} {s : RxState}
    (outline : (readerRules allowed).Outline post p pre) (hPre : pre s)
    (returns : ∀ result s, post result s → results result) :
    (transport RxState.timely).Returns (arrivals allowed) ⟨s, p⟩ results := by
  refine ⟨transport_terminates _ _ _, fun c run => ?_⟩
  have covered : (readerRules allowed).Covered post c :=
    Rules.Covered.runs (readerRules_sound allowed) ⟨trivial, pre, hPre, outline⟩ run
  obtain ⟨s', p'⟩ := c
  constructor
  · rintro result rfl
    exact returns result s' covered.returned
  · rintro c next rfl
    exact Machine.Live.step covered.safe next

end Outlines

end NukiBridge

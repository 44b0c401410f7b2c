import NukiBridge.Transport.Reader

/-! One transport under any number of `notify_cb` at once, with data of any size, and
deadlines that may pass at any time. The reader takes the steps of its calls; each
`notify_cb` appends in one step and gives the semaphore in a later one. -/
namespace NukiBridge

open Buffer Interaction

/-- The reader's side, and how many `notify_cb` have appended but not yet given. As ghosts,
what was indicated since the last reset, and how much `wait_min` last granted after it. -/
structure Overlap where
  reader : RxState
  giving : Nat
  since : List UInt8
  granted : Nat

/-- The two steps of `notify_cb`. -/
inductive Notification where
  | append (data : List UInt8)
  | give

namespace Overlap

/-- `rx_buf` and `rx_len`. -/
abbrev rx (s : Overlap) : Reassembly := s.reader.feed.rx

/-- What `nuki_transport_init` leaves. -/
def init : Overlap := ⟨⟨⟨.empty, [], []⟩, 0, false, .outside⟩, 0, [], 0⟩

def event : Notification → Overlap → Option Overlap
  | .append data, s =>
      some { s with
        reader.feed.rx := s.rx.notify data
        giving := s.giving + 1
        since := s.since ++ data }
  | .give, s =>
      match s.giving with
      | 0 => none
      | giving + 1 =>
          some { s with reader.rxSem := min (s.reader.rxSem + 1) kSemMaxLimit, giving }

/-- A step inside a call: `reset` forgets the indications where it clears `rx_len`. -/
def stay (s : Overlap) (c : Call) (reader : RxState) : Overlap :=
  match c with
  | .reset => { s with reader, since := [], granted := 0 }
  | _ => { s with reader }

/-- A call that answers: `wait_min` may grant what it was asked for. -/
def answer (s : Overlap) : (c : Call) → c.Answer → RxState → Overlap
  | .waitMin minLen _, result, reader =>
      { s with reader, granted := if result = (0 : Int) then minLen else s.granted }
  | _, _, reader => { s with reader }

def call (c : Call) (choice : RxChoice) (s : Overlap) : Option (Reply c.Answer Overlap) :=
  match s.reader.call (fun _ => true) c choice with
  | none => none
  | some (.stay reader) => some (.stay (s.stay c reader))
  | some (.answer result reader) => some (.answer result (s.answer c result reader))

end Overlap

/-- The reader and any number of `notify_cb`. -/
def overlap : Machine Call Call.Answer Notification RxChoice Overlap where
  event := Overlap.event
  call := Overlap.call

/-- A step inside `wait_min` keeps what was received; the reader gets ready to sleep only
after it has seen too little. -/
theorem waitMin_stay {mayExpire : RxState → Bool} {minLen : Nat} {expire : Bool}
    {r r' : RxState} (h : r.waitMin mayExpire minLen expire = some (.stay r')) :
    r'.feed = r.feed ∧
      ((∃ expired, r'.phase = .checking expired) ∨
        r'.rxSem = r.rxSem ∧ ((∃ expired, r'.phase = .timing expired) ∧ r.feed.rx.rxLen < minLen ∨
          r'.phase = .blocked ∧ ∃ expired, r.phase = .timing expired)) := by
  obtain ⟨feed, rxSem, giving, phase⟩ := r
  rw [RxState.waitMin] at h
  cases phase with
  | outside =>
      cases h
      exact ⟨rfl, Or.inl ⟨false, rfl⟩⟩
  | checking expired =>
      simp only at h
      split at h
      · cases h
      · rename_i hShort
        cases h
        exact ⟨rfl, Or.inr ⟨rfl, Or.inl ⟨⟨expired, rfl⟩, Nat.not_le.mp hShort⟩⟩⟩
  | timing expired =>
      simp only at h
      split at h
      · cases h
      · cases h
        exact ⟨rfl, Or.inr ⟨rfl, Or.inr ⟨rfl, expired, rfl⟩⟩⟩
  | blocked =>
      simp only at h
      split at h
      · cases h
        exact ⟨rfl, Or.inl ⟨false, rfl⟩⟩
      · split at h
        · cases h
          exact ⟨rfl, Or.inl ⟨true, rfl⟩⟩
        · cases h
  | cleared => cases h

/-- `wait_min` answers zero only where enough has arrived. A timeout answers `-EAGAIN` whatever
has. -/
theorem waitMin_answer {mayExpire : RxState → Bool} {minLen : Nat} {expire : Bool}
    {r r' : RxState} {result : Int}
    (h : r.waitMin mayExpire minLen expire = some (.answer result r')) :
    r' = { r with phase := .outside } ∧
      (result = 0 ∧ minLen ≤ r.feed.rx.rxLen ∨ result = -eagain) := by
  obtain ⟨feed, rxSem, giving, phase⟩ := r
  rw [RxState.waitMin] at h
  cases phase with
  | outside => cases h
  | checking expired =>
      simp only at h
      split at h
      · rename_i hEnough
        cases h
        exact ⟨rfl, Or.inl ⟨rfl, hEnough⟩⟩
      · cases h
  | timing expired =>
      simp only at h
      split at h
      · cases h
        exact ⟨rfl, Or.inr rfl⟩
      · cases h
  | blocked =>
      simp only at h
      split at h
      · cases h
      · split at h <;> cases h
  | cleared => cases h

/-- The two steps of `reset`, the length and the semaphore. A notification may come in between. -/
theorem reset_cases {r : RxState} {reply : Reply Unit RxState} (h : r.reset = some reply) :
    (r.phase = .outside ∧
        reply = .stay { r with feed := { r.feed with rx := r.feed.rx.clear }, phase := .cleared }) ∨
      r.phase = .cleared ∧ reply = .answer () { r with rxSem := 0, phase := .outside } := by
  obtain ⟨feed, rxSem, giving, phase⟩ := r
  cases phase with
  | outside => exact Or.inl ⟨rfl, (Option.some.inj h).symm⟩
  | cleared => exact Or.inr ⟨rfl, (Option.some.inj h).symm⟩
  | _ => cases h

/-- `peek` only looks. -/
theorem peek_answer {len : Nat} {r r' : RxState} {result : Bytes len}
    (h : r.peek len = some (.answer result r')) : r' = r := by
  rw [RxState.peek] at h
  split at h
  · cases h
    rfl
  · cases h

namespace Overlap

/-- What holds in every state: the accumulator is what was indicated since the last reset,
cut to its size, and what `wait_min` granted is still there. -/
structure Kept (s : Overlap) : Prop where
  since : s.rx.bytes = s.since.take wireMaxLen
  granted : s.granted ≤ s.rx.rxLen

theorem kept_init : init.Kept := ⟨rfl, Nat.zero_le _⟩

/-- The rules for one transport, with what is to be shown of each call. -/
def rules (safe : Call → Overlap → Prop) :
    Rules Call Call.Answer Notification RxChoice Overlap where
  machine := overlap
  condition := .free
  invariant := Kept
  safe := safe

/-- What a notification can do to the reader: bytes arrive, or the semaphore is given for bytes that
arrived before. -/
theorem event_cases {e : Notification} {s s' : Overlap} (h : overlap.event e s = some s') :
    s'.reader.phase = s.reader.phase ∧ s'.granted = s.granted ∧
      ((∃ data, s'.rx = s.rx.notify data ∧ s'.since = s.since ++ data ∧ 0 < s'.giving) ∨
        s'.rx = s.rx ∧ s'.since = s.since ∧ 0 < s'.reader.rxSem) := by
  cases e with
  | append data =>
      cases h
      exact ⟨rfl, rfl, Or.inl ⟨data, rfl, rfl, Nat.succ_pos _⟩⟩
  | give =>
      change (match s.giving with | 0 => none | giving + 1 => _) = _ at h
      split at h
      · cases h
      · cases h
        exact ⟨rfl, rfl, Or.inr ⟨rfl, rfl, Nat.lt_min.mpr ⟨Nat.succ_pos _, by decide⟩⟩⟩

/-- A step inside a call is one of `wait_min`, or the clearing of `reset`. -/
theorem stay_cases {c : Call} {choice : RxChoice} {s s' : Overlap}
    (h : overlap.call c choice s = some (.stay s')) :
    (∃ minLen timeoutSec, c = .waitMin minLen timeoutSec ∧
        s.reader.waitMin (fun _ => true) minLen choice.expire = some (.stay s'.reader) ∧
        s' = { s with reader := s'.reader }) ∨
      c = .reset ∧ s'.reader.phase = .cleared ∧ s'.rx = s.rx.clear ∧ s'.since = [] ∧
        s'.granted = 0 := by
  change call c choice s = _ at h
  rw [call] at h
  split at h
  · cases h
  · rename_i reader hCall
    cases h
    cases c with
    | waitMin minLen timeoutSec => exact Or.inl ⟨minLen, timeoutSec, rfl, hCall, rfl⟩
    | reset =>
        rcases reset_cases hCall with ⟨-, hReply⟩ | ⟨-, hReply⟩
        · cases hReply
          exact Or.inr ⟨rfl, rfl, rfl, rfl, rfl⟩
        · cases hReply
    | peek len =>
        change s.reader.peek len = _ at hCall
        rw [RxState.peek] at hCall
        split at hCall <;> cases hCall
    | _ => cases hCall
  · cases h

/-- An answer is one of the reader's side. -/
theorem call_answer {c : Call} {choice : RxChoice} {s s' : Overlap} {result : c.Answer}
    (h : overlap.call c choice s = some (.answer result s')) :
    ∃ reader, s.reader.call (fun _ => true) c choice = some (.answer result reader) ∧
      s' = s.answer c result reader := by
  change call c choice s = _ at h
  rw [call] at h
  split at h
  · cases h
  · cases h
  · rename_i answered reader hCall
    cases h
    exact ⟨reader, hCall, rfl⟩

/-- An answer leaves the accumulator as it is, and grants what has arrived. -/
theorem answer_keeps {c : Call} {choice : RxChoice} {s s' : Overlap} {result : c.Answer}
    (h : overlap.call c choice s = some (.answer result s')) :
    s'.rx = s.rx ∧ s'.since = s.since ∧ (s'.granted = s.granted ∨ s'.granted ≤ s.rx.rxLen) := by
  obtain ⟨reader, hCall, rfl⟩ := call_answer h
  cases c with
  | waitMin minLen timeoutSec =>
      change s.reader.waitMin (fun _ => true) minLen choice.expire =
        some (.answer result reader) at hCall
      obtain ⟨rfl, hResult⟩ := waitMin_answer hCall
      refine ⟨rfl, rfl, ?_⟩
      rcases hResult with ⟨rfl, hEnough⟩ | rfl
      · exact Or.inr hEnough
      · exact Or.inl rfl
  | reset =>
      rcases reset_cases hCall with ⟨-, hReply⟩ | ⟨-, hReply⟩
      · cases hReply
      · cases hReply
        exact ⟨rfl, rfl, Or.inl rfl⟩
  | peek len =>
      obtain rfl := peek_answer hCall
      exact ⟨rfl, rfl, Or.inl rfl⟩
  | _ =>
      cases hCall
      exact ⟨rfl, rfl, Or.inl rfl⟩

/-- `wait_min` answers zero or `-EAGAIN`. -/
theorem waitMin_answers {minLen timeoutSec : Nat} {choice : RxChoice} {s s' : Overlap}
    {result : Int}
    (h : overlap.call (.waitMin minLen timeoutSec) choice s = some (.answer result s')) :
    result = 0 ∨ result = -eagain := by
  obtain ⟨reader, hCall, rfl⟩ := call_answer h
  change s.reader.waitMin (fun _ => true) minLen choice.expire =
    some (.answer result reader) at hCall
  exact (waitMin_answer hCall).2.imp And.left id

/-- Every step keeps what holds in every state, and each assertion is used only at calls and
notifications that keep it. -/
theorem rules_sound (safe : Call → Overlap → Prop) : (rules safe).Sound where
  event := by
    intro e s s' kept _ fires
    obtain ⟨-, hGranted, ⟨data, hRx, hSince, -⟩ | ⟨hRx, hSince, -⟩⟩ := event_cases fires
    · refine ⟨?_, ?_⟩
      · have hSpace : wireMaxLen - min wireMaxLen s.since.length =
            wireMaxLen - s.since.length := by omega
        rw [hRx, Reassembly.bytes_notify, kept.since, hSince, List.take_append, List.take_append,
          List.take_take, Nat.min_self, List.length_take, hSpace]
      · rw [hGranted, hRx]
        exact kept.granted.trans (s.rx.rxLen_notify data)
    · exact ⟨by rw [hRx, hSince, kept.since], by rw [hGranted, hRx]; exact kept.granted⟩
  stay := by
    intro c choice s s' kept _ calls
    rcases stay_cases calls with ⟨_, _, -, hWait, hState⟩ | ⟨-, -, hRx, hSince, hGranted⟩
    · have hRx : s'.rx = s.rx := congrArg Feed.rx (waitMin_stay hWait).1
      have hSince : s'.since = s.since := by rw [hState]
      have hGranted : s'.granted = s.granted := by rw [hState]
      exact ⟨by rw [hRx, hSince, kept.since], by rw [hRx, hGranted]; exact kept.granted⟩
    · exact ⟨by rw [hRx, hSince]; rfl, by rw [hGranted]; exact Nat.zero_le _⟩
  answer := by
    intro c choice s result s' kept _ calls
    obtain ⟨hRx, hSince, hGranted⟩ := answer_keeps calls
    refine ⟨by rw [hRx, hSince, kept.since], ?_⟩
    rw [hRx]
    exact hGranted.elim (fun h => h ▸ kept.granted) id

/-- Between two calls, with at least `held` bytes accumulated. -/
def Ready (held : Nat) (s : Overlap) : Prop :=
  s.reader.phase = .outside ∧ held ≤ s.rx.rxLen

/-- Inside `wait_min`: a reader that goes to sleep has too little, or a wake-up is due. -/
def Waiting (minLen : Nat) (s : Overlap) : Prop :=
  match s.reader.phase with
  | .outside | .checking _ => True
  | .timing _ | .blocked => s.rx.rxLen < minLen ∨ 0 < s.giving ∨ 0 < s.reader.rxSem
  | .cleared => False

/-- What holds during a call that was made with `held` bytes accumulated. -/
def During (held : Nat) : Call → Overlap → Prop
  | .waitMin minLen _, s => held ≤ s.rx.rxLen ∧ s.Waiting minLen
  | .reset, s => s.Ready held ∨ s.reader.phase = .cleared
  | _, s => s.Ready held

/-- How much is known to be there once the call has answered. -/
def left (held : Nat) : (c : Call) → c.Answer → Nat
  | .waitMin minLen _, result => if result = (0 : Int) then max held minLen else held
  | .rxLen, result => max held result
  | .reset, _ => 0
  | _, _ => held

variable {safe : Call → Overlap → Prop}

theorem stable_ready (held : Nat) : (rules safe).Stable (Ready held) := by
  rintro e s s' - - ⟨hPhase, hHeld⟩ - fires
  obtain ⟨hSame, -, ⟨data, hRx, -⟩ | ⟨hRx, -⟩⟩ := event_cases fires
  · exact ⟨hSame.trans hPhase, by rw [hRx]; exact hHeld.trans (s.rx.rxLen_notify data)⟩
  · exact ⟨hSame.trans hPhase, by rwa [hRx]⟩

/-- Bytes that were granted stay granted: a notification only adds to them. -/
theorem stable_waiting (minLen : Nat) : (rules safe).Stable (Waiting minLen) := by
  intro e s s' _ _ waiting _ fires
  obtain ⟨hSame, -, hEvent⟩ := event_cases fires
  have hWake : 0 < s'.giving ∨ 0 < s'.reader.rxSem :=
    hEvent.imp (fun ⟨_, _, _, h⟩ => h) fun h => h.2.2
  rw [Waiting] at waiting ⊢
  rw [hSame]
  revert waiting
  cases s.reader.phase with
  | outside => exact id
  | checking expired => exact id
  | timing expired => exact fun _ => Or.inr hWake
  | blocked => exact fun _ => Or.inr hWake
  | cleared => exact id

theorem stable_during (held : Nat) (c : Call) : (rules safe).Stable (During held c) := by
  intro e s s' kept kept' during meets fires
  cases c with
  | waitMin minLen timeoutSec =>
      obtain ⟨hHeld, hWaiting⟩ := during
      refine ⟨?_, stable_waiting minLen e s s' kept kept' hWaiting meets fires⟩
      obtain ⟨-, -, ⟨data, hRx, -⟩ | ⟨hRx, -⟩⟩ := event_cases fires
      · rw [hRx]
        exact hHeld.trans (s.rx.rxLen_notify data)
      · rwa [hRx]
  | reset =>
      rcases during with hReady | hCleared
      · exact Or.inl (stable_ready held e s s' kept kept' hReady meets fires)
      · exact Or.inr ((event_cases fires).1.trans hCleared)
  | _ => exact stable_ready held e s s' kept kept' during meets fires

theorem stays_during (held : Nat) (c : Call) : (rules safe).Stays c (During held c) := by
  intro choice s s' _ _ during _ calls
  rcases stay_cases calls with ⟨minLen, timeoutSec, rfl, hWait, hState⟩ | ⟨rfl, hCleared, -⟩
  · obtain ⟨hHeld, hWaiting⟩ := during
    obtain ⟨hFeed, hPhase⟩ := waitMin_stay hWait
    have hRx : s'.rx = s.rx := congrArg Feed.rx hFeed
    have hGiving : s'.giving = s.giving := by rw [hState]
    refine ⟨by rwa [hRx], ?_⟩
    rw [Waiting]
    rcases hPhase with ⟨expired, hChecking⟩ |
      ⟨hSem, ⟨⟨expired, hTiming⟩, hShort⟩ | ⟨hBlocked, hTiming⟩⟩
    · rw [hChecking]
      trivial
    · rw [hTiming, hRx]
      exact Or.inl hShort
    · obtain ⟨expired, hTiming⟩ := hTiming
      rw [Waiting, hTiming] at hWaiting
      rw [hBlocked, hRx, hGiving, hSem]
      exact hWaiting
  · exact Or.inr hCleared

/-- After any call the reader may rely on what this call has left it, however the notifications were
interleaved with it. -/
theorem ready_of_answer {held : Nat} {c : Call} {choice : RxChoice} {s s' : Overlap}
    {result : c.Answer} (during : s.During held c)
    (h : overlap.call c choice s = some (.answer result s')) : s'.Ready (left held c result) := by
  have hRx := (answer_keeps h).1
  rw [Ready, hRx]
  obtain ⟨reader, hCall, rfl⟩ := call_answer h
  cases c with
  | waitMin minLen timeoutSec =>
      change s.reader.waitMin (fun _ => true) minLen choice.expire =
        some (.answer result reader) at hCall
      obtain ⟨rfl, hResult⟩ := waitMin_answer hCall
      refine ⟨rfl, ?_⟩
      rcases hResult with ⟨rfl, hEnough⟩ | rfl
      · exact Nat.max_le.mpr ⟨during.1, hEnough⟩
      · exact during.1
  | reset =>
      rcases reset_cases hCall with ⟨-, hReply⟩ | ⟨-, hReply⟩
      · cases hReply
      · cases hReply
        exact ⟨rfl, Nat.zero_le _⟩
  | peek len =>
      obtain rfl := peek_answer hCall
      exact during
  | rxLen =>
      cases hCall
      exact ⟨during.1, Nat.max_le.mpr ⟨during.2, Nat.le_refl _⟩⟩
  | _ =>
      cases hCall
      exact during

variable {α : Type} {post : α → Overlap → Prop}

/-- One call of the code, and what is known after it. -/
theorem outline_call {held : Nat} {c : Call} {next : c.Answer → Code α}
    (guarded : ∀ s, s.Kept → s.During held c → safe c s)
    (rest : ∀ result, (rules safe).Outline post (next result) (Ready (left held c result))) :
    (rules safe).Outline post (.call c next) (Ready held) := by
  have outline : (rules safe).Outline post (.call c next) (During held c) :=
    .call (stable_during held c) (stays_during held c) guarded
      (fun result => Ready (left held c result))
      (fun choice s result s' _ _ during _ calls => ready_of_answer during calls) rest
  refine outline.mono fun s _ ready => ?_
  cases c with
  | waitMin minLen timeoutSec =>
      refine ⟨ready.2, ?_⟩
      rw [Waiting, ready.1]
      trivial
  | reset => exact Or.inl ready
  | _ => exact ready

end Overlap

/-- In any code, a reader that is blocked with nothing to wake it has too little, and what
`wait_min` granted is still there where the reader takes a look. -/
def Wakes : Call → Overlap → Prop
  | .waitMin minLen _, s => s.reader.phase = .blocked → s.reader.rxSem = 0 → s.giving = 0 →
      s.rx.rxLen < minLen
  | .peek _, s => s.granted ≤ s.rx.rxLen
  | _, _ => True

/-- Whatever the code of the reader is, no wait of it can sleep on bytes that are there without the
semaphore given or about to be. -/
theorem outline_wakes {α : Type} (p : Code α) (held : Nat) :
    (Overlap.rules Wakes).Outline (fun _ => Overlap.Ready 0) p (Overlap.Ready held) := by
  induction p generalizing held with
  | done result =>
      exact .done (Overlap.stable_ready held) fun s _ ready => ⟨ready.1, Nat.zero_le _⟩
  | call c next ih =>
      refine Overlap.outline_call ?_ fun result => ih result _
      intro s kept during
      cases c with
      | waitMin minLen timeoutSec =>
          intro hBlocked hSem hGiving
          have waiting := during.2
          rw [Overlap.Waiting, hBlocked, hSem, hGiving] at waiting
          exact waiting.resolve_right (by simp)
      | peek len => exact kept.granted
      | _ => trivial

/-- No wake-up is lost: for any code of the reader and every interleaving with any number
of `notify_cb`, a reader that is blocked while no semaphore is to be given has too little,
and at a `peek` all that `wait_min` granted since the last reset is still there. -/
theorem no_lost_wakeup {α : Type} (p : Code α) {s : Overlap} {c : Call}
    {next : c.Answer → Code α} (run : overlap.Runs .free ⟨.init, p⟩ ⟨s, .call c next⟩) :
    (∀ minLen timeoutSec, c = .waitMin minLen timeoutSec → s.reader.phase = .blocked →
      s.reader.rxSem = 0 → s.giving = 0 → s.rx.rxLen < minLen) ∧
      ∀ len, c = .peek len → s.granted ≤ s.rx.rxLen := by
  have start : (Overlap.rules Wakes).Covered (fun _ => Overlap.Ready 0) ⟨.init, p⟩ :=
    ⟨Overlap.kept_init, _, ⟨rfl, Nat.zero_le _⟩, outline_wakes p 0⟩
  have safe : Wakes c s := (start.runs (Overlap.rules_sound Wakes) run).safe
  constructor
  · rintro minLen timeoutSec rfl
    exact safe
  · rintro len rfl
    exact safe

/-- A message is read, and the next one waited for. -/
def readsTwice : Code Unit := do
  let _ ← Code.of (.waitMin 4 10)
  let _ ← Code.of (.peek 4)
  let _ ← Code.of .reset
  let _ ← Code.of (.waitMin 30 10)
  return ()

/-- Four bytes wake the reader, which is about to look at them. -/
def untilPeek : List (Label Notification RxChoice) :=
  let going := .thread ⟨false, fun _ => default⟩
  List.replicate 3 going ++ [.event (.append [1, 2, 3, 4]), .event .give] ++ List.replicate 2 going

/-- Two more arrive between the two steps of the reset, and are given after it. -/
def untilAsleep : List (Label Notification RxChoice) :=
  let going := .thread ⟨false, fun _ => default⟩
  untilPeek ++ List.replicate 2 going ++ [.event (.append [5, 6]), going, .event .give] ++
    List.replicate 6 going

/-- The reader finds what it was woken for. It is asleep again after a `notify_cb` that ran
around its reset, whose semaphore it has taken, and which has not brought enough. -/
theorem no_lost_wakeup_asleep :
    (∃ s next, overlap.Runs .free ⟨.init, readsTwice⟩ ⟨s, .call (.peek 4) next⟩ ∧
      s.granted = 4 ∧ s.granted ≤ s.rx.rxLen) ∧
    ∃ s next, overlap.Runs .free ⟨.init, readsTwice⟩ ⟨s, .call (.waitMin 30 10) next⟩ ∧
      s.reader.phase = .blocked ∧ s.since = [5, 6] ∧ s.rx.rxLen < 30 := by
  have hReads := @Machine.runs_of_replay _ _ _ _ _ _ overlap .free untilPeek ⟨.init, readsTwice⟩
    ⟨_, .call (.peek 4) _⟩ (Machine.meets_free _ _) rfl
  have hSleeps := @Machine.runs_of_replay _ _ _ _ _ _ overlap .free untilAsleep
    ⟨.init, readsTwice⟩ ⟨_, .call (.waitMin 30 10) _⟩ (Machine.meets_free _ _) rfl
  exact ⟨⟨_, _, hReads, rfl, (no_lost_wakeup _ hReads).2 4 rfl⟩,
    ⟨_, _, hSleeps, rfl, rfl, (no_lost_wakeup _ hSleeps).1 30 10 rfl rfl rfl rfl⟩⟩

end NukiBridge

import NukiBridge.Firmware.Smooth
import NukiBridge.Interaction.Guard

/-! The state cache, of which each variable is read and written on its own. Its mutex makes
it one register: the accesses happen one after the other, each between the call and the
return of its thread, and each read finds what was stored last. -/
namespace NukiBridge

open Interaction

namespace CacheAccess

def storedValue : CacheAccess → Option (KeyturnerState × Int)
  | .stored state storedAt => some (state, storedAt)
  | .read _ => none

/-- The time of an access, where it looks at the clock. -/
def time : CacheAccess → Option Int
  | .stored _ storedAt => some storedAt
  | .read seen => seen.map fun (_, _, now) => now

end CacheAccess

/-- What was stored last, with its time. -/
def lastStored (log : List CacheAccess) : Option (KeyturnerState × Int) :=
  (log.filterMap CacheAccess.storedValue).getLast?

def accessTimes (log : List CacheAccess) : List Int := log.filterMap CacheAccess.time

/-- The accesses of one register: a read sees what was stored last, with the time of that,
or nothing if nothing was stored; and their times do not go back. -/
structure OneRegister (log : List CacheAccess) : Prop where
  reads : ∀ before seen, before ++ [.read seen] <+: log →
    (seen.map fun (state, storedAt, _) => (state, storedAt)) = lastStored before
  times : (accessTimes log).Pairwise (· ≤ ·)

/-- The newest write is the last one stored, and a read, in the lemma below, leaves it so. -/
@[simp] theorem lastStored_stored (log : List CacheAccess) (state : KeyturnerState)
    (storedAt : Int) : lastStored (log ++ [.stored state storedAt]) = some (state, storedAt) := by
  simp [lastStored, CacheAccess.storedValue]

@[simp] theorem lastStored_read (log : List CacheAccess)
    (seen : Option (KeyturnerState × Int × Int)) :
    lastStored (log ++ [.read seen]) = lastStored log := by
  simp [lastStored, CacheAccess.storedValue]

@[simp] theorem accessTimes_append (log log' : List CacheAccess) :
    accessTimes (log ++ log') = accessTimes log ++ accessTimes log' := List.filterMap_append

/-- An access is put behind a log: it must show what was stored last, and its time must not lie
before the earlier ones. -/
theorem OneRegister.concat {log : List CacheAccess} (h : OneRegister log) {access : CacheAccess}
    (reads : ∀ seen, access = .read seen →
      (seen.map fun (state, storedAt, _) => (state, storedAt)) = lastStored log)
    (later : ∀ time, access.time = some time → ∀ earlier ∈ accessTimes log, earlier ≤ time) :
    OneRegister (log ++ [access]) where
  reads := by
    intro before seen hPrefix
    rcases List.prefix_concat_iff.mp hPrefix with hLast | hBefore
    · obtain ⟨rfl, hAccess⟩ := List.append_inj' hLast rfl
      exact reads seen (List.singleton_inj.mp hAccess).symm
    · exact h.reads before seen hBefore
  times := by
    rw [accessTimes_append, List.pairwise_append]
    refine ⟨h.times, ?_, ?_⟩
    · cases hTime : access.time <;> simp [accessTimes, hTime]
    · intro earlier hEarlier time hTime
      have hAccess : access.time = some time := by
        simpa [accessTimes, eq_comm] using hTime
      exact later time hAccess earlier hEarlier

namespace CacheCell

/-- In every state: the accesses so far are those of one register, and the clock is not
behind them. -/
structure Sound (c : CacheCell) : Prop where
  register : OneRegister c.log
  clock : ∀ time ∈ accessTimes c.log, time ≤ c.uptime

/-- The three variables together. -/
def content (c : CacheCell) : Option (KeyturnerState × Int) :=
  if c.cacheValid = true then some (c.cachedState, c.cacheUptimeMs) else none

/-- Between the critical sections the variables hold what was stored last. -/
structure Settled (c : CacheCell) : Prop where
  sound : c.Sound
  content : c.content = lastStored c.log

/-- Time passes. -/
theorem Sound.tick {c : CacheCell} (h : c.Sound) (ms : Nat) :
    Sound { c with uptime := c.uptime + ms } where
  register := h.register
  clock := by
    intro time hTime
    have hBefore := h.clock time hTime
    change time ≤ c.uptime + ms
    omega

/-- The owner of the mutex appends its access to the log. At that moment the globals and the log
agree, and the clock has not gone back. -/
theorem Sound.access {c : CacheCell} (h : c.Sound) (access : CacheAccess)
    (reads : ∀ seen, access = .read seen →
      (seen.map fun (state, storedAt, _) => (state, storedAt)) = lastStored c.log)
    (now : ∀ time, access.time = some time → time = c.uptime) :
    Sound { c with log := c.log ++ [access] } where
  register := by
    apply h.register.concat reads
    intro time hTime earlier hEarlier
    rw [now time hTime]
    exact h.clock earlier hEarlier
  clock := by
    intro time hTime
    rw [accessTimes_append, List.mem_append] at hTime
    rcases hTime with hBefore | hLast
    · exact h.clock time hBefore
    · have hAccess : access.time = some time := by
        simpa [accessTimes, eq_comm] using hLast
      exact le_of_eq (now time hAccess)

end CacheCell

/-- The cache as a resource of the firmware. -/
def cacheResource : Resource firmware CacheCell where
  view := Firmware.cell
  event := by
    intro e s s' fires
    obtain ⟨app, -, rfl⟩ := Option.map_eq_some_iff.mp fires
    rfl
  stay := fun op choice s s' calls => absurd calls (firmware_leaves op choice s s')

abbrev FirmwareCode.GuardsAll {α : Type} (code : FirmwareCode α) : Prop :=
  cacheResource.GuardsAll .cacheLock CacheCell.Settled CacheCell.Sound code

/-- Whatever is no access to the cache leaves it alone. -/
theorem quiet_of_isCache {op : FirmwareOp} (h : op.isCache = false) : cacheResource.Quiet op := by
  rintro v result v' ⟨choice, s, s', rfl, calls, rfl⟩
  cases op with
  | app op =>
      obtain ⟨reply, -, hReply⟩ := Option.map_eq_some_iff.mp calls
      cases reply with
      | stay app => cases hReply
      | answer result app =>
          cases hReply
          rfl
  | leftover | callerVars | sleep | pollOut | shellWrite | loadHavePairing | loadConn
  | loadUsdioReady =>
      cases calls
      rfl
  | _ => cases h

section Effects

variable {c c' : CacheCell}

theorem effect_loadCacheValid {valid : Bool}
    (h : cacheResource.Effect .loadCacheValid c valid c') : valid = c.cacheValid ∧ c = c' := by
  obtain ⟨choice, s, s', rfl, calls, rfl⟩ := h
  cases calls
  exact ⟨rfl, rfl⟩

theorem effect_loadCachedState {state : KeyturnerState}
    (h : cacheResource.Effect .loadCachedState c state c') : state = c.cachedState ∧ c = c' := by
  obtain ⟨choice, s, s', rfl, calls, rfl⟩ := h
  cases calls
  exact ⟨rfl, rfl⟩

theorem effect_loadCacheUptimeMs {ms : Int}
    (h : cacheResource.Effect .loadCacheUptimeMs c ms c') : ms = c.cacheUptimeMs ∧ c = c' := by
  obtain ⟨choice, s, s', rfl, calls, rfl⟩ := h
  cases calls
  exact ⟨rfl, rfl⟩

theorem effect_storeCachedState {state : KeyturnerState} {result : Unit}
    (h : cacheResource.Effect (.storeCachedState state) c result c') :
    c' = { c with cachedState := state } := by
  obtain ⟨choice, s, s', rfl, calls, rfl⟩ := h
  cases calls
  rfl

theorem effect_storeCacheValid {valid : Bool} {result : Unit}
    (h : cacheResource.Effect (.storeCacheValid valid) c result c') :
    c' = { c with cacheValid := valid } := by
  obtain ⟨choice, s, s', rfl, calls, rfl⟩ := h
  cases calls
  rfl

theorem effect_storeCacheUptimeMs {ms : Int} {result : Unit}
    (h : cacheResource.Effect (.storeCacheUptimeMs ms) c result c') :
    c' = { c with cacheUptimeMs := ms } := by
  obtain ⟨choice, s, s', rfl, calls, rfl⟩ := h
  cases calls
  rfl

/-- The clock may have advanced by any amount when it is read, but it has not gone back. -/
theorem effect_uptimeGet {now : Int} (h : cacheResource.Effect .uptimeGet c now c') :
    ∃ ms : Nat, now = c.uptime + ms ∧ c' = { c with uptime := c.uptime + ms } := by
  obtain ⟨choice, s, s', rfl, calls, rfl⟩ := h
  cases calls
  exact ⟨choice.ms, rfl, rfl⟩

theorem effect_cacheStored {state : KeyturnerState} {storedAt : Int} {result : Unit}
    (h : cacheResource.Effect (.cacheStored state storedAt) c result c') :
    c' = { c with log := c.log ++ [.stored state storedAt] } := by
  obtain ⟨choice, s, s', rfl, calls, rfl⟩ := h
  cases calls
  rfl

theorem effect_cacheRead {seen : Option (KeyturnerState × Int × Int)} {result : Unit}
    (h : cacheResource.Effect (.cacheRead seen) c result c') :
    c' = { c with log := c.log ++ [.read seen] } := by
  obtain ⟨choice, s, s', rfl, calls, rfl⟩ := h
  cases calls
  rfl

end Effects

/-- A state is stored as a whole, with its time, while the mutex is held from before the first store
until after the last. -/
theorem guardsAll_storeCache (state : KeyturnerState) : (storeCache state).GuardsAll := by
  refine .lock fun c settled => .step fun _ _ hState => ?_
  obtain rfl := effect_storeCachedState hState
  refine ⟨⟨settled.sound.register, settled.sound.clock⟩, .step fun _ _ hValid => ?_⟩
  obtain rfl := effect_storeCacheValid hValid
  refine ⟨⟨settled.sound.register, settled.sound.clock⟩, .step fun _ _ hNow => ?_⟩
  obtain ⟨ms, rfl, rfl⟩ := effect_uptimeGet hNow
  have hTick := settled.sound.tick ms
  refine ⟨⟨hTick.register, hTick.clock⟩, .step fun _ _ hUptime => ?_⟩
  obtain rfl := effect_storeCacheUptimeMs hUptime
  refine ⟨⟨hTick.register, hTick.clock⟩, .step fun _ _ hStored => ?_⟩
  obtain rfl := effect_cacheStored hStored
  have hSound := hTick.access (.stored state (c.uptime + ms)) nofun
    fun time hTime => (Option.some.inj hTime).symm
  refine ⟨⟨hSound.register, hSound.clock⟩, .unlock ⟨⟨hSound.register, hSound.clock⟩, ?_⟩ (.done rfl)⟩
  simp [CacheCell.content]

/-- What was stored last is read as a whole: all the loads happen under the mutex. -/
theorem guardsAll_nukiAppGetCachedState : nukiAppGetCachedState.GuardsAll := by
  refine .outside (quiet_of_isCache rfl) fun left => ?_
  refine .lock fun c settled => .step fun valid _ hValid => ?_
  obtain ⟨rfl, rfl⟩ := effect_loadCacheValid hValid
  refine ⟨settled.sound, ?_⟩
  have hContent := settled.content
  cases hCache : c.cacheValid with
  | false =>
      rw [CacheCell.content, hCache, if_neg Bool.false_ne_true] at hContent
      refine .step fun _ _ hRead => ?_
      obtain rfl := effect_cacheRead hRead
      have hSound := settled.sound.access (.read none)
        (fun seen hSeen => by cases hSeen; exact hContent) nofun
      refine ⟨hSound, .unlock ⟨hSound, ?_⟩ (.done rfl)⟩
      rw [lastStored_read, ← hContent, CacheCell.content, hCache]
      rfl
  | true =>
      rw [CacheCell.content, hCache, if_pos rfl] at hContent
      refine .step fun state _ hState => ?_
      obtain ⟨rfl, rfl⟩ := effect_loadCachedState hState
      refine ⟨settled.sound, .step fun now _ hNow => ?_⟩
      obtain ⟨ms, rfl, rfl⟩ := effect_uptimeGet hNow
      have hTick := settled.sound.tick ms
      refine ⟨hTick, .step fun storedAt _ hUptime => ?_⟩
      obtain ⟨rfl, rfl⟩ := effect_loadCacheUptimeMs hUptime
      refine ⟨hTick, .step fun _ _ hRead => ?_⟩
      obtain rfl := effect_cacheRead hRead
      have hSound := hTick.access
        (.read (some (c.cachedState, c.cacheUptimeMs, c.uptime + ms)))
        (fun seen hSeen => by cases hSeen; exact hContent)
        fun time hTime => (Option.some.inj hTime).symm
      refine ⟨hSound, .unlock ⟨hSound, ?_⟩ (.done rfl)⟩
      rw [lastStored_read]
      change (if c.cacheValid = true then some (c.cachedState, c.cacheUptimeMs) else none) = _
      rw [hCache]
      exact hContent

/-- A step that is no access to the cache. -/
theorem guardsAll_of {op : FirmwareOp} (h : op.isCache = false) : (FirmwareCode.of op).GuardsAll :=
  .outside (quiet_of_isCache h) fun _ => .done rfl

theorem guardsAll_app (op : AppOp) : (FirmwareCode.of (.app op)).GuardsAll :=
  @guardsAll_of (.app op) rfl

/-- Of the calls of an operation only `update_cache` goes to the cache. It is the one that brings
its own mutex. -/
theorem guardsAll_firmwareOp (op : AppOp) : (firmwareOp op).GuardsAll := by
  cases op with
  | updateCache state => exact (guardsAll_storeCache state).bind fun _ => guardsAll_app _
  | _ => exact guardsAll_app _

theorem guardsAll_nukiApp (operation : Operation) : (nukiApp operation).GuardsAll := by
  refine .outside (quiet_of_isCache rfl) fun stack => .lockOther nofun ?_
  apply (Resource.GuardsAll.inline guardsAll_firmwareOp _).bind
  exact fun response => .unlockOther nofun (.done rfl)

theorem guardsAll_result {α β : Type} {code : FirmwareCode α} (h : code.GuardsAll) (f : α → β) :
    FirmwareCode.GuardsAll (code.bind fun result => .done (f result)) :=
  h.bind fun _ => .done rfl

theorem guardsAll_nukiAppGetState : nukiAppGetState.GuardsAll :=
  .outside (quiet_of_isCache rfl) fun _ => guardsAll_result (guardsAll_nukiApp .getState) _

theorem guardsAll_nukiAppIsReady : nukiAppIsReady.GuardsAll := by
  refine .outside (quiet_of_isCache rfl) fun conn => ?_
  cases conn with
  | none => exact .done rfl
  | some id => exact @guardsAll_of .loadUsdioReady rfl

theorem guardsAll_pollCall (c : PollCall) : (pollCall c).GuardsAll := by
  cases c with
  | isPaired => exact guardsAll_of rfl
  | getState => exact guardsAll_nukiAppGetState
  | storeCache state => exact guardsAll_storeCache state
  | sleep sec => exact guardsAll_of rfl

theorem guardsAll_uartCall (c : UartCall) : (uartCall c).GuardsAll := by
  cases c with
  | isPaired => exact guardsAll_of rfl
  | isConnected => exact guardsAll_result (guardsAll_of rfl) _
  | isReady => exact guardsAll_nukiAppIsReady
  | pair => exact guardsAll_result (guardsAll_nukiApp .pair) _
  | lockAction action => exact guardsAll_result (guardsAll_nukiApp (.lockAction action)) _
  | calibrate securityPin => exact guardsAll_result (guardsAll_nukiApp (.calibrate securityPin)) _
  | getCachedState => exact guardsAll_nukiAppGetCachedState
  | pollOut byte => exact guardsAll_of rfl

theorem guardsAll_shellCall (c : ShellCall) : (shellCall c).GuardsAll := by
  cases c with
  | write level format args => exact guardsAll_of rfl
  | isPaired => exact guardsAll_of rfl
  | isConnected => exact guardsAll_result (guardsAll_of rfl) _
  | isReady => exact guardsAll_nukiAppIsReady
  | pair => exact guardsAll_result (guardsAll_nukiApp .pair) _
  | getState => exact guardsAll_nukiAppGetState
  | lockAction action => exact guardsAll_result (guardsAll_nukiApp (.lockAction action)) _
  | calibrate securityPin => exact guardsAll_result (guardsAll_nukiApp (.calibrate securityPin)) _

/-- Every thread, whatever it is asked to do, touches the cache only between taking and giving its
mutex, and leaves it consistent. -/
theorem guardsAll_code (work : Workload) (t : FirmwareThread) :
    FirmwareCode.GuardsAll (work.code t) := by
  have hResult {α : Type} {code : FirmwareCode α} (h : code.GuardsAll) (f : α → Unit) :
      FirmwareCode.GuardsAll (code.bind fun result => .done (f result)) := guardsAll_result h f
  cases t with
  | poller => exact hResult (Resource.GuardsAll.inline guardsAll_pollCall _) _
  | uart => exact Resource.GuardsAll.inline guardsAll_uartCall _
  | shell => exact hResult (Resource.GuardsAll.inline guardsAll_shellCall _) _

/-- Whatever the three threads are given to do, and however their steps and the callbacks are
interleaved: the accesses to the cache are those of one register. Each read finds the state
that was stored last and the time of that very state, a read finds nothing only while nothing
was stored, and no access is earlier than one before it. While nobody holds the mutex the
three variables agree with this. -/
theorem cache_register {stored : Option PairingData} {uptime : Int} {work : Workload}
    {S : Threads AppMutex FirmwareOp.Answer Firmware FirmwareThread}
    (reaches : FirmwareReaches stored uptime work S) :
    OneRegister S.state.cell.log ∧
      (S.owner .cacheLock = none → S.state.cell.content = lastStored S.state.cell.log) := by
  have hSound : CacheCell.Sound (Firmware.boot stored uptime).cell :=
    ⟨⟨fun before seen h => absurd (List.prefix_nil.mp h) (by simp), .nil⟩, nofun⟩
  obtain ⟨hFree, hAlways⟩ := Resource.guarded_of_reaches (R := cacheResource)
    (s := .boot stored uptime) (guardsAll_code work) ⟨hSound, rfl⟩ hSound reaches
  exact ⟨hAlways.register, fun h => (hFree h).content⟩

/-- A poll, and a request for the state. -/
def Workload.watching : Workload := ⟨1, [⟨UartCmd.state, 0, .zero 32⟩], []⟩

/-- The poller stores the state that it was sent, and the UART thread reads it later. -/
theorem exists_read :
    ∃ S state, FirmwareReaches (some default) 0 .watching S ∧
      S.state.cell.log = [.stored state 7, .read (some (state, 7, 14))] ∧
      S.owner .cacheLock = none := by
  let step : Label AppEvent FirmwareChoice := .thread { FirmwareChoice.finding .zero with ms := 7 }
  let free : AppMutex → Option FirmwareThread := fun _ => none
  let used (t : FirmwareThread) (owner : AppMutex → Option FirmwareThread) :
      AppMutex → Option FirmwareThread :=
    Function.update (Function.update owner .cacheLock (some t)) .cacheLock none
  let start : Firmware := .boot (some default) 0
  let state : KeyturnerState := .ofPayload (List.replicate 13 0)
  let stored : CacheCell := ⟨state, true, 7, 7, [.stored state 7]⟩
  let read : CacheCell := ⟨state, true, 7, 14, [.stored state 7, .read (some (state, 7, 14))]⟩
  obtain ⟨app, hOperation⟩ :=
    @runs_getStateLocked .zero (List.replicate 13 0) (by decide) (by decide)
  have hPaired : (Threads.alone firmware FirmwareThread.poller).Runs .free
      ⟨(start, free), pollCall .isPaired⟩ ⟨(start, free), .done true⟩ :=
    Machine.runs_of_replay [step] (Machine.meets_free _ _) rfl
  have hGets := (@runs_nukiApp .poller free .getState .zero _ _ _ hOperation start.cell rfl).bind
    fun response => .done (response.err, response.state.getD Leftover.zero.state)
  have hPolls : (Threads.alone firmware FirmwareThread.poller).Runs .free
      ⟨(start, free), pollCall .getState⟩ ⟨(⟨app, start.cell⟩, free), .done (0, state)⟩ :=
    .head (Threads.alone_call (FirmwareChoice.finding .zero) rfl) hGets
  have hStores : (Threads.alone firmware FirmwareThread.poller).Runs .free
      ⟨(⟨app, start.cell⟩, free), pollCall (.storeCache state)⟩
      ⟨(⟨app, stored⟩, used .poller free), .done ()⟩ :=
    Machine.runs_of_replay (List.replicate 7 step) (Machine.meets_free _ _) rfl
  obtain ⟨code, hPoller⟩ : ∃ code, (Threads.alone firmware FirmwareThread.poller).Runs .free
      ⟨(start, free), (statePollThreadFn 1 0).inline pollCall⟩
      ⟨(⟨app, stored⟩, used .poller free), code⟩ :=
    ⟨_, Machine.Runs.inline_call hPaired (Machine.Runs.inline_call hPolls
      (Machine.Runs.inline_call hStores (.refl _)))⟩
  have hReads : (Threads.alone firmware FirmwareThread.uart).Runs .free
      ⟨(⟨app, stored⟩, used .poller free), uartCall .getCachedState⟩
      ⟨(⟨app, read⟩, used .uart (used .poller free)), .done ⟨0, state, 0⟩⟩ :=
    Machine.runs_of_replay (List.replicate 8 step) (Machine.meets_free _ _) rfl
  obtain ⟨code', hUart⟩ : ∃ code', (Threads.alone firmware FirmwareThread.uart).Runs .free
      ⟨(⟨app, stored⟩, used .poller free), Workload.watching.code .uart⟩
      ⟨(⟨app, read⟩, used .uart (used .poller free)), code'⟩ :=
    ⟨_, Machine.Runs.inline_call hReads (.refl _)⟩
  have hStart : Threads.Logs firmware (.start start Workload.watching.code) [] _ := .start
  obtain ⟨_, -, hStored⟩ := hStart.alone hPoller rfl rfl
  obtain ⟨_, -, hRead⟩ := hStored.alone hUart rfl (Program.bind_done _).symm
  exact ⟨_, state, hRead.reaches, rfl, rfl⟩

/-- After a state was stored and read. -/
theorem cache_register_small :
    ∃ S state, FirmwareReaches (some default) 0 .watching S ∧
      S.state.cell.log = [.stored state 7, .read (some (state, 7, 14))] ∧
      OneRegister S.state.cell.log ∧ S.state.cell.content = some (state, 7) := by
  obtain ⟨S, state, hReaches, hLog, hFree⟩ := exists_read
  obtain ⟨hRegister, hContent⟩ := cache_register hReaches
  have hLast := hContent hFree
  rw [hLog] at hLast
  exact ⟨S, state, hReaches, hLog, hRegister, hLast⟩

end NukiBridge

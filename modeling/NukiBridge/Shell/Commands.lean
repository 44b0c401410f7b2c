import NukiBridge.App.Operations
import NukiBridge.Interaction.Trace
import NukiBridge.Shell.SecurityPin
import NukiBridge.Uart.Dispatch

/-! The commands of `nuki_shell.c`. Each prints what it is about to do, calls the
application once at most, and prints how that went. -/
namespace NukiBridge

open Interaction

/-- An argument of a line of output. -/
inductive ShellArg where
  | int (value : Int)
  | str (text : String)
  | bytes (text : List UInt8)
  deriving DecidableEq

/-- `shell_print`, `shell_warn` and `shell_error`. -/
inductive ShellLevel where
  | print
  | warn
  | error
  deriving DecidableEq

/-- The calls of a command. `nuki_app_get_state` returns its result and leaves a state in the
variable of its caller. -/
inductive ShellCall where
  | write (level : ShellLevel) (format : String) (args : List ShellArg)
  | isPaired
  | isConnected
  | isReady
  | pair
  | getState
  | lockAction (action : UInt8)
  | calibrate (securityPin : UInt16)

@[reducible] def ShellCall.Answer : ShellCall → Type
  | .write _ _ _ => Unit
  | .isPaired => Bool
  | .isConnected => Bool
  | .isReady => Bool
  | .pair => Int
  | .getState => Int × KeyturnerState
  | .lockAction _ => Int
  | .calibrate _ => Int

abbrev ShellCode (α : Type) := Program ShellCall ShellCall.Answer α

abbrev ShellCode.of (c : ShellCall) : ShellCode c.Answer := Program.perform c

abbrev ShellExchange := Exchange ShellCall ShellCall.Answer

def shellWrite (level : ShellLevel) (format : String) (args : List ShellArg) : ShellCode Unit :=
  @Program.perform ShellCall ShellCall.Answer (.write level format args)

def nukiLockStateToStr (lockState : UInt8) : String :=
  match lockState with
  | 0x00 => "uncalibrated"
  | 0x01 => "locked"
  | 0x02 => "unlocking"
  | 0x03 => "unlocked"
  | 0x04 => "locking"
  | 0x05 => "unlatched"
  | 0x06 => "unlocked (lock'n'go active)"
  | 0x07 => "unlatching"
  | 0xFC => "calibration"
  | 0xFD => "boot run"
  | 0xFE => "motor blocked"
  | _ => "undefined"

def nukiDoorSensorStateToStr (state : UInt8) : String :=
  match state with
  | 0x00 => "unavailable"
  | 0x01 => "deactivated"
  | 0x02 => "door closed"
  | 0x03 => "door opened"
  | 0x04 => "door state unknown"
  | 0x05 => "calibrating"
  | 0x10 => "uncalibrated"
  | 0xF0 => "tampered"
  | _ => "unknown"

def errToStr (err : Int) : String :=
  if err = -enotconn then "not connected/discovered yet"
  else if err = -enoent then "not paired yet - run 'nuki pair' first"
  else if err = -etimedout ∨ err = -eagain then "timed out"
  else if err = -ebadmsg then "authentication/CRC check failed"
  else if err = -enotsup then "lock did not offer its Pairing Service on this connection"
  else "error"

def cmdNukiPair : ShellCode Int := do
  shellWrite .print "pairing - make sure the lock's button is held for 5s (pairing mode)..." []
  let err ← ShellCode.of .pair
  if err ≠ (0 : Int) then
    shellWrite .error "pairing failed: %s (%d)" [.str (errToStr err), .int err]
    return err
  shellWrite .print "paired successfully" []
  return 0

/-- What is printed of a state. -/
def printState (state : KeyturnerState) : ShellCode Unit := do
  shellWrite .print "lock state:      %s (0x%02x)"
    [.str (nukiLockStateToStr state.lockState), .int state.lockState.toNat]
  shellWrite .print "door sensor:     %s" [.str (nukiDoorSensorStateToStr state.doorSensorState)]
  shellWrite .print "battery:         %u%% %s"
    [.int state.batteryPercent.toNat, .str (if state.criticalBattery then "(CRITICAL)" else "")]
  shellWrite .print "lock time:       %04u-%02u-%02u %02u:%02u:%02u (tz offset %d min)"
    [.int state.year.toNat, .int state.month.toNat, .int state.day.toNat, .int state.hour.toNat,
      .int state.minute.toNat, .int state.second.toNat, .int state.timezoneOffsetMin.toInt]

def cmdNukiState : ShellCode Int := do
  let got ← ShellCode.of .getState
  if got.1 ≠ 0 then
    shellWrite .error "failed to read state: %s (%d)" [.str (errToStr got.1), .int got.1]
    return got.1
  printState got.2
  return 0

def doLockAction (action : UInt8) (name : String) : ShellCode Int := do
  shellWrite .print "%s..." [.str name]
  let err ← ShellCode.of (.lockAction action)
  if err ≠ (0 : Int) then
    shellWrite .error "%s failed: %s (%d)" [.str name, .str (errToStr err), .int err]
    return err
  shellWrite .print "%s complete" [.str name]
  return 0

def cmdNukiLock : ShellCode Int := doLockAction LockAction.lock "lock"

def cmdNukiUnlock : ShellCode Int := doLockAction LockAction.unlock "unlock"

def cmdNukiUnlatch : ShellCode Int := doLockAction LockAction.unlatch "unlatch"

def cmdNukiCalibrate (argv : List (List UInt8)) : ShellCode Int :=
  match argv with
  | [_, arg] =>
      match securityPin arg with
      | none => do
          shellWrite .error "invalid PIN '%s' (expected a 4-digit number, e.g. 0000-9999)"
            [.bytes arg]
          return -einval
      | some pin => do
          shellWrite .warn "calibrating - the lock will rotate through its full range now..." []
          let err ← ShellCode.of (.calibrate pin)
          if err ≠ (0 : Int) then
            shellWrite .error "calibration failed: %s (%d)" [.str (errToStr err), .int err]
            return err
          shellWrite .print "calibration complete" []
          return 0
  | _ => do
      shellWrite .error "usage: nuki calibrate <security-pin>" []
      return -einval

def yesNo (flag : Bool) : String := if flag then "yes" else "no"

def cmdNukiStatus : ShellCode Int := do
  let paired ← ShellCode.of .isPaired
  shellWrite .print "paired: %s" [.str (yesNo paired)]
  let connected ← ShellCode.of .isConnected
  let ready ← ShellCode.of .isReady
  shellWrite .print "connected right now: %s (ready: %s)" [.str (yesNo connected), .str (yesNo ready)]
  shellWrite .print ("(each command connects on demand and disconnects afterwards, so this " ++
    "is usually 'no' between commands - that's expected, it leaves the " ++
    "lock's BLE connection free for the Nuki app)") []
  return 0

/-- `nuki_cmds`. -/
inductive NukiCmd where
  | status
  | pair
  | state
  | lock
  | unlock
  | unlatch
  | calibrate
  deriving DecidableEq

/-- A line that was entered: a command and its arguments, with its own name as the first. -/
structure ShellLine where
  cmd : NukiCmd
  argv : List (List UInt8)

def ShellLine.handler : ShellLine → ShellCode Int
  | ⟨.status, _⟩ => cmdNukiStatus
  | ⟨.pair, _⟩ => cmdNukiPair
  | ⟨.state, _⟩ => cmdNukiState
  | ⟨.lock, _⟩ => cmdNukiLock
  | ⟨.unlock, _⟩ => cmdNukiUnlock
  | ⟨.unlatch, _⟩ => cmdNukiUnlatch
  | ⟨.calibrate, argv⟩ => cmdNukiCalibrate argv

/-- The shell carries out one line after the other. -/
def shellThread : List ShellLine → ShellCode (List Int)
  | [] => return []
  | line :: rest => do
      let rc ← line.handler
      let rcs ← shellThread rest
      return rc :: rcs

/-- The operation that a line names. -/
def ShellLine.operation? : ShellLine → Option Operation
  | ⟨.status, _⟩ => none
  | ⟨.pair, _⟩ => some .pair
  | ⟨.state, _⟩ => some .getState
  | ⟨.lock, _⟩ => some (.lockAction LockAction.lock)
  | ⟨.unlock, _⟩ => some (.lockAction LockAction.unlock)
  | ⟨.unlatch, _⟩ => some (.lockAction LockAction.unlatch)
  | ⟨.calibrate, [_, arg]⟩ => (securityPin arg).map .calibrate
  | ⟨.calibrate, _⟩ => none

/-- The operations that a trace invokes, with their results. -/
def shellInvoked (trace : List ShellExchange) : List (Operation × Int) :=
  trace.filterMap fun
    | ⟨.pair, rc⟩ => some (.pair, rc)
    | ⟨.getState, got⟩ => some (.getState, got.1)
    | ⟨.lockAction action, rc⟩ => some (.lockAction action, rc)
    | ⟨.calibrate pin, rc⟩ => some (.calibrate pin, rc)
    | _ => none

/-- The lines of output at a level, with their arguments. -/
def shellLines (level : ShellLevel) (trace : List ShellExchange) : List (List ShellArg) :=
  trace.filterMap fun
    | ⟨.write level' _ args, _⟩ => if level' = level then some args else none
    | _ => none

@[simp] theorem shellInvoked_append (trace trace' : List ShellExchange) :
    shellInvoked (trace ++ trace') = shellInvoked trace ++ shellInvoked trace' :=
  List.filterMap_append

/-- What carrying out a line comes to. A result that is no success is reported with one
line, the last; success is not reported as an error. -/
structure ShellLine.CarriedOut (line : ShellLine) (trace : List ShellExchange) (rc : Int) : Prop where
  invoked : shellInvoked trace = line.operation?.toList.map fun op => (op, rc)
  refused : line.operation? = none → rc = if line.cmd = .status then 0 else -einval
  success : rc = 0 → shellLines .error trace = []
  failure : rc ≠ 0 → ∃ before format args, trace = before ++ [⟨.write .error format args, ()⟩] ∧
    shellLines .error before = [] ∧
    (line.operation? ≠ none → .str (errToStr rc) ∈ args ∧ .int rc ∈ args)

section Handlers

variable {line : ShellLine} {trace : List ShellExchange} {rc : Int}

theorem traces_shellWrite {α : Type} {level : ShellLevel} {format : String} {args : List ShellArg}
    {more : Unit → ShellCode α} {result : α}
    (h : ((shellWrite level format args).bind more).Traces trace result) :
    ∃ rest, trace = ⟨.write level format args, ()⟩ :: rest ∧ (more ()).Traces rest result := by
  obtain ⟨_, rest, rfl, hRest⟩ := h.of_perform
  exact ⟨rest, rfl, hRest⟩

/-- A command that reports the result of its operation and nothing else as an error. -/
theorem carriedOut_of_report {op : Operation} (before : List ShellExchange) {format : String}
    {args : List ShellArg} {report : ShellCode Int} (named : line.operation? = some op)
    (invoked : shellInvoked before = [(op, rc)]) (silent : shellLines .error before = [])
    (args_eq : .str (errToStr rc) ∈ args ∧ .int rc ∈ args) {after : List ShellExchange} {last : Int}
    (success : rc = 0 → report.Traces after last →
      last = 0 ∧ shellInvoked after = [] ∧ shellLines .error after = [])
    (h : (if rc ≠ 0 then (shellWrite .error format args).bind fun _ => .done rc else report).Traces
      after last) : line.CarriedOut (before ++ after) last := by
  by_cases hZero : rc = 0
  · rw [if_neg (not_not.mpr hZero)] at h
    obtain ⟨rfl, hInvoked, hSilent⟩ := success hZero h
    refine ⟨?_, ?_, ?_, fun hFailed => absurd rfl hFailed⟩
    · rw [shellInvoked_append, invoked, hInvoked, named, hZero]
      rfl
    · exact fun hNone => absurd (named.symm.trans hNone) nofun
    · intro _
      rw [shellLines, List.filterMap_append]
      exact List.append_eq_nil_iff.mpr ⟨silent, hSilent⟩
  · rw [if_pos hZero] at h
    obtain ⟨rest, rfl, hDone⟩ := traces_shellWrite h
    obtain ⟨rfl, rfl⟩ := hDone.of_done
    refine ⟨?_, ?_, fun hSuccess => absurd hSuccess hZero, ?_⟩
    · rw [shellInvoked_append, invoked, named]
      rfl
    · exact fun hNone => absurd (named.symm.trans hNone) nofun
    · exact fun _ => ⟨before, format, args, rfl, silent, fun _ => args_eq⟩

/-- The three lock actions differ in their action and in the name they print. The rest is one
function. -/
theorem traces_doLockAction {action : UInt8} {name : String}
    (named : line.operation? = some (.lockAction action))
    (h : (doLockAction action name).Traces trace rc) : line.CarriedOut trace rc := by
  obtain ⟨rest, rfl, hAction⟩ := traces_shellWrite h
  obtain ⟨err, rest, rfl, hReport⟩ := hAction.of_perform
  refine carriedOut_of_report [⟨.write .print "%s..." [.str name], ()⟩, ⟨.lockAction action, err⟩]
    named rfl rfl (by simp) ?_ hReport
  intro _ hPrinted
  obtain ⟨rest, rfl, hDone⟩ := traces_shellWrite hPrinted
  obtain ⟨rfl, rfl⟩ := hDone.of_done
  exact ⟨rfl, rfl, rfl⟩

theorem traces_cmdNukiPair (named : line.operation? = some .pair)
    (h : cmdNukiPair.Traces trace rc) : line.CarriedOut trace rc := by
  obtain ⟨rest, rfl, hPair⟩ := traces_shellWrite h
  obtain ⟨err, rest, rfl, hReport⟩ := hPair.of_perform
  refine carriedOut_of_report [_, ⟨.pair, err⟩] named rfl rfl (by simp) ?_ hReport
  intro _ hPrinted
  obtain ⟨rest, rfl, hDone⟩ := traces_shellWrite hPrinted
  obtain ⟨rfl, rfl⟩ := hDone.of_done
  exact ⟨rfl, rfl, rfl⟩

theorem traces_cmdNukiState (named : line.operation? = some .getState)
    (h : cmdNukiState.Traces trace rc) : line.CarriedOut trace rc := by
  obtain ⟨⟨err, state⟩, rest, rfl, hReport⟩ := h.of_perform
  refine carriedOut_of_report [⟨.getState, (err, state)⟩] named rfl rfl (by simp) ?_ hReport
  intro _ hState
  obtain ⟨rest, rfl, hDoor⟩ := traces_shellWrite hState
  obtain ⟨rest, rfl, hBattery⟩ := traces_shellWrite hDoor
  obtain ⟨rest, rfl, hTime⟩ := traces_shellWrite hBattery
  obtain ⟨rest, rfl, hDone⟩ := traces_shellWrite hTime
  obtain ⟨rfl, rfl⟩ := hDone.of_done
  exact ⟨rfl, rfl, rfl⟩

theorem traces_cmdNukiStatus (cmd : line.cmd = .status) (named : line.operation? = none)
    (h : cmdNukiStatus.Traces trace rc) : line.CarriedOut trace rc := by
  obtain ⟨paired, rest, rfl, hPaired⟩ := h.of_perform
  obtain ⟨rest, rfl, hConnected⟩ := traces_shellWrite hPaired
  obtain ⟨connected, rest, rfl, hReady⟩ := hConnected.of_perform
  obtain ⟨ready, rest, rfl, hLine⟩ := hReady.of_perform
  obtain ⟨rest, rfl, hHint⟩ := traces_shellWrite hLine
  obtain ⟨rest, rfl, hDone⟩ := traces_shellWrite hHint
  obtain ⟨rfl, rfl⟩ := hDone.of_done
  exact ⟨by rw [named]; rfl, fun _ => (if_pos cmd).symm, fun _ => rfl, fun h => absurd rfl h⟩

/-- A line that is refused is answered with one error. -/
theorem carriedOut_of_refused {format : String} {args : List ShellArg}
    (cmd : line.cmd ≠ .status) (named : line.operation? = none)
    (h : ((shellWrite .error format args).bind fun _ => .done (-einval)).Traces trace rc) :
    line.CarriedOut trace rc := by
  obtain ⟨rest, rfl, hDone⟩ := traces_shellWrite h
  obtain ⟨rfl, rfl⟩ := hDone.of_done
  refine ⟨by rw [named]; rfl, fun _ => (if_neg cmd).symm, fun h => absurd h (by decide), ?_⟩
  exact fun _ => ⟨[], format, args, rfl, rfl, fun h => absurd named h⟩

/-- The two branches on the argument: it is no PIN, and nothing is called, or the PIN goes to the
application. -/
theorem traces_cmdNukiCalibrate {argv : List (List UInt8)}
    (h : (cmdNukiCalibrate argv).Traces trace rc) :
    ShellLine.CarriedOut ⟨.calibrate, argv⟩ trace rc := by
  match argv with
  | [] => exact carriedOut_of_refused nofun rfl h
  | [_] => exact carriedOut_of_refused nofun rfl h
  | [name, arg] =>
      cases hPin : securityPin arg with
      | none =>
          simp only [cmdNukiCalibrate, hPin] at h
          exact carriedOut_of_refused nofun (by simp [ShellLine.operation?, hPin]) h
      | some pin =>
          simp only [cmdNukiCalibrate, hPin] at h
          obtain ⟨rest, rfl, hCalibrate⟩ := traces_shellWrite h
          obtain ⟨err, rest, rfl, hReport⟩ := hCalibrate.of_perform
          refine carriedOut_of_report [_, ⟨.calibrate pin, err⟩]
            (by simp [ShellLine.operation?, hPin]) rfl rfl (by simp) ?_ hReport
          intro _ hPrinted
          obtain ⟨rest, rfl, hDone⟩ := traces_shellWrite hPrinted
          obtain ⟨rfl, rfl⟩ := hDone.of_done
          exact ⟨rfl, rfl, rfl⟩
  | _ :: _ :: _ :: _ => exact carriedOut_of_refused nofun rfl h

/-- Every command of the shell calls at most the operation that its line names, returns its result,
and prints an error line exactly where it is one. -/
theorem traces_handler (h : line.handler.Traces trace rc) : line.CarriedOut trace rc := by
  obtain ⟨cmd, argv⟩ := line
  cases cmd with
  | status => exact traces_cmdNukiStatus rfl rfl h
  | pair => exact traces_cmdNukiPair rfl h
  | state => exact traces_cmdNukiState rfl h
  | lock => exact traces_doLockAction rfl h
  | unlock => exact traces_doLockAction rfl h
  | unlatch => exact traces_doLockAction rfl h
  | calibrate => exact traces_cmdNukiCalibrate h

end Handlers

/-- One line and how it was carried out. -/
structure ShellEntry where
  line : ShellLine
  trace : List ShellExchange
  rc : Int
  carriedOut : line.CarriedOut trace rc

/-- By induction on the lines: they are carried out one after the other, each with its own trace. -/
theorem traces_shellThread {lines : List ShellLine} {trace : List ShellExchange} {rcs : List Int}
    (h : (shellThread lines).Traces trace rcs) :
    ∃ entries : List ShellEntry, entries.map ShellEntry.line = lines ∧
      trace = entries.flatMap ShellEntry.trace ∧ rcs = entries.map ShellEntry.rc := by
  induction lines generalizing trace rcs with
  | nil =>
      obtain ⟨rfl, rfl⟩ := h.of_done
      exact ⟨[], rfl, rfl, rfl⟩
  | cons line lines ih =>
      obtain ⟨first, rest, rc, rfl, hFirst, hRest⟩ := Program.Traces.of_bind h
      obtain ⟨later, last, rcs, rfl, hLater, hDone⟩ := Program.Traces.of_bind hRest
      obtain ⟨rfl, rfl⟩ := hDone.of_done
      obtain ⟨entries, rfl, rfl, rfl⟩ := ih hLater
      refine ⟨⟨line, first, rc, traces_handler hFirst⟩ :: entries, rfl, ?_, rfl⟩
      rw [List.append_nil, List.flatMap_cons]

theorem shellInvoked_entries (entries : List ShellEntry) :
    shellInvoked (entries.flatMap ShellEntry.trace) =
      entries.filterMap fun e => e.line.operation?.map fun op => (op, e.rc) := by
  induction entries with
  | nil => rfl
  | cons e entries ih =>
      rw [List.flatMap_cons, shellInvoked_append, ih, e.carriedOut.invoked, List.filterMap_cons]
      cases e.line.operation? <;> rfl

/-- Whatever lines are entered and whatever the application returns: the operations that the
lines name are invoked, in their order and each once, and nothing else is. A line returns the
result of its operation; if that is an error, the last thing it prints is one error that
names it, and otherwise it prints none. -/
theorem shell_exact (lines : List ShellLine) (answers : Nat → (c : ShellCall) → c.Answer) :
    let trace := ((shellThread lines).transcript answers 0).1
    let rcs := ((shellThread lines).transcript answers 0).2
    ∃ entries : List ShellEntry,
      entries.map ShellEntry.line = lines ∧
      trace = entries.flatMap ShellEntry.trace ∧
      rcs = entries.map ShellEntry.rc ∧
      (∀ e ∈ entries, e.line.CarriedOut e.trace e.rc) ∧
      shellInvoked trace =
        (entries.filterMap fun e => e.line.operation?.map fun op => (op, e.rc)) ∧
      (shellInvoked trace).map Prod.fst = lines.filterMap ShellLine.operation? := by
  intro trace rcs
  have hTraces : (shellThread lines).Traces trace rcs :=
    (shellThread lines).traces_transcript answers 0
  clear_value trace rcs
  obtain ⟨entries, rfl, rfl, rfl⟩ := traces_shellThread hTraces
  refine ⟨entries, rfl, rfl, rfl, fun e _ => e.carriedOut, shellInvoked_entries entries, ?_⟩
  rw [shellInvoked_entries, List.map_filterMap, List.filterMap_map]
  congr 1
  funext e
  simp [Function.comp_def]

end NukiBridge

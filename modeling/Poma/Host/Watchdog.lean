import Mathlib.Data.Rat.Defs
import Mathlib.Algebra.Order.Ring.Rat
import Poma.Models.Types

/-!
# The gateway watchdog

A root timer probes the broker's authentication and restarts the gateway after
several failures in a row. The policy and its limits are in `decide`, its state is
saved before the restart it allows, and a tick that cannot probe decides nothing.
-/

namespace Poma

namespace Watchdog

/-- `FAILURE_THRESHOLD`. -/
def failureThreshold : Nat := 3

/-- `STARTUP_GRACE_SECONDS`. -/
def startupGraceSeconds : ℚ := 360

/-- `RESTART_COOLDOWN_SECONDS`. -/
def restartCooldownSeconds : ℚ := 900

/-- `RESTART_WINDOW_SECONDS`. -/
def restartWindowSeconds : ℚ := 3600

/-- `MAX_RESTARTS_PER_WINDOW`. -/
def maxRestartsPerWindow : Nat := 2

/-- `ALERT_INTERVAL_SECONDS`. -/
def alertIntervalSeconds : ℚ := 900

/-- What a probe of the authentication comes to. -/
inductive Status where
  | authenticated
  | disabled
  | configurationError
  | unavailable
  | probeError
  deriving DecidableEq

/-- The messages the watchdog sends. -/
inductive Notice where
  | recovered
  | configuration
  | waiting
  | restart
  | restartFailed
  deriving DecidableEq

/-- `State`. -/
structure State where
  failures : Nat := 0
  incident : Bool := false
  lastAlert : ℚ := 0
  restarts : List ℚ := []
  deriving DecidableEq

/-- What `decide` returns beside the state it leaves. -/
structure Decision where
  state : State
  restart : Bool
  notice : Option Notice
  deriving DecidableEq

/-- A notice that is due again, and the time of the alert that goes with it. -/
def alertDue (state : State) (now : ℚ) : Bool := now - state.lastAlert ≥ alertIntervalSeconds

/-- The branch of `decide` for the threshold's failure and those after it. -/
def decideFailing (state : State) (now : ℚ) : Decision :=
  let cooldown := state.restarts.getLast?.any fun stamp => now - stamp < restartCooldownSeconds
  if cooldown = true ∨ state.restarts.length ≥ maxRestartsPerWindow then
    if alertDue state now = true then
      ⟨{ state with lastAlert := now }, false, some .waiting⟩
    else ⟨state, false, none⟩
  else
    ⟨{ state with
        restarts := state.restarts ++ [now], failures := 0, incident := true, lastAlert := now },
      true, some .restart⟩

/-- `decide`. -/
def decideRestart (before : State) (status : Status) (now : ℚ) : Except Exn Decision :=
  let state := { before with
    restarts := before.restarts.filter fun stamp => now - stamp < restartWindowSeconds }
  match status with
  | .authenticated => .ok
      ⟨{ state with failures := 0, incident := false }, false,
        if state.incident then some .recovered else none⟩
  | .disabled => .ok ⟨{ state with failures := 0, incident := false }, false, none⟩
  | .configurationError =>
    let counted := { state with failures := 0, incident := true }
    .ok (if state.incident = false ∨ alertDue state now = true then
        ⟨{ counted with lastAlert := now }, false, some .configuration⟩
      else ⟨counted, false, none⟩)
  | .unavailable =>
    let counted := { state with failures := state.failures + 1 }
    .ok (if counted.failures < failureThreshold then ⟨counted, false, none⟩
      else decideFailing { counted with incident := true } now)
  | .probeError => .error (.valueError "unknown authentication status")

/-- An inode and its device. -/
structure FileId where
  inode : Int
  device : Int
  deriving DecidableEq

/-- What the probe prints: a status and the state directory it saw. -/
structure ProbePayload where
  status : String
  stateInode : Option Int := none
  stateDevice : Option Int := none
  deriving DecidableEq

/-- The exit code that belongs to each status. -/
def expectedCode : String → Option (Status × Int)
  | "authenticated" => some (.authenticated, 0)
  | "disabled" => some (.disabled, 0)
  | "unavailable" => some (.unavailable, 10)
  | "configuration_error" => some (.configurationError, 20)
  | _ => none

/-- `authentication_status`, from the exit code, the printed payload when there is one, and the
state directory now and when it was locked. -/
def authenticationStatus (returncode : Int) (payload : Option ProbePayload) (mounted : FileId)
    (expected : Option FileId) : Status :=
  match payload.bind fun printed => (expectedCode printed.status).map (printed, ·) with
  | none => .probeError
  | some (printed, status, code) =>
    if returncode ≠ code then .probeError
    else if status = .configurationError then status
    else if expected.any (mounted ≠ ·) then .configurationError
    else if (printed.stateInode, printed.stateDevice) ≠
        (some mounted.inode, some mounted.device) then .configurationError
    else status

/-- What a tick finds before it may probe. -/
inductive Readiness where
  | notInstalled
  | gatewayNotActive
  | ageUnknown
  | active (age : ℚ)

/-- What a tick does to the outside, in order. -/
inductive Effect where
  | save (state : State)
  | restartGateway
  | notify (notice : Notice)
  deriving DecidableEq

/-- The effects of a tick, and its exit code. -/
structure TickResult where
  effects : List Effect
  exitCode : Nat

/-- The part of `tick` under the command locks: the probe's status, the stored state and the
clock; `restarted` is whether the gateway's service restarts. -/
def tickLocked (stored : Except Exn State) (status : Status) (now : ℚ) (restarted : Bool) :
    Except Exn TickResult :=
  stored.bind fun state =>
  match status with
  | .probeError => .ok ⟨[.save { state with failures := 0 }], 1⟩
  | status => (decideRestart state status now).bind fun decision =>
    let notice := if decision.restart = true ∧ restarted = false then some .restartFailed
      else decision.notice
    .ok ⟨[.save decision.state] ++ (if decision.restart then [.restartGateway] else []) ++
      (notice.map Effect.notify).toList, 0⟩

/-- `tick` without `--check-only`, under `main`: what it raises is reported and changes nothing. -/
def tick (readiness : Readiness) (locked : Bool) (stored : Except Exn State) (status : Status)
    (now : ℚ) (restarted : Bool) : TickResult :=
  match readiness with
  | .notInstalled => ⟨[], 0⟩
  | .gatewayNotActive => ⟨[], 0⟩
  | .ageUnknown => ⟨[], 1⟩
  | .active age =>
    if age < startupGraceSeconds then ⟨[], 0⟩
    else if locked = false then ⟨[], 0⟩
    else match tickLocked stored status now restarted with
      | .ok result => result
      | .error _ => ⟨[], 1⟩

/-- One status and the time it is decided at. -/
structure Observation where
  status : Status
  now : ℚ
  deriving DecidableEq

/-- What a tick makes of its observation: the state it saves, and whether it restarts. -/
def observe (state : State) (seen : Observation) : State × Bool :=
  match seen.status with
  | .probeError => ({ state with failures := 0 }, false)
  | status => match decideRestart state status seen.now with
    | .ok decision => (decision.state, decision.restart)
    | .error _ => (state, false)

/-- An observation and whether the gateway was restarted on it. -/
structure Turn where
  seen : Observation
  restarted : Bool
  deriving DecidableEq

/-- The turns of a run, from a state on. -/
def turns (state : State) : List Observation → List Turn
  | [] => []
  | seen :: rest => ⟨seen, (observe state seen).2⟩ :: turns (observe state seen).1 rest

/-- The times of the restarts of a run. -/
def restartTimes (run : List Turn) : List ℚ :=
  (run.filter (·.restarted)).map (·.seen.now)

end Watchdog

end Poma

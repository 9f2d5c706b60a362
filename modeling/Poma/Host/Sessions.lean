import Poma.Engine.Rebalance
import Poma.Engine.RebalanceQuality

/-!
# The durable state of a market session

One file holds the last session, its run and its status. Every method reads the
file as it is at that moment and writes it whole. The commands of the host are
programs over that file and over everything else they ask for.
-/

namespace Poma

open Interaction

/-- `RETRY_WAIT_STATUS`. -/
def retryWaitStatus : String := "retry_wait"

/-- The status of an attempt that has begun. -/
def runningStatus : String := "running"

/-- `ORDERS_PENDING_STATUS`: fills are tracked by the reconciliation. -/
def ordersPendingStatus : String := "orders_pending"

/-- `TERMINAL_STATUSES`. -/
def terminalStatuses : List String :=
  ["completed", "completed_with_order_issues", ordersPendingStatus, "no_orders_accepted", "dry_run",
    "blocked", "failed"]

/-- The payload of the state file; a file that does not exist has no field. -/
structure SessionState where
  lastRebalanceSession : Option String := none
  lastRebalanceRunId : Option String := none
  lastRebalanceStatus : Option String := none
  lastRebalanceAttemptCount : Option Nat := none
  lastRebalanceStartedAt : Option String := none
  lastRebalanceAttemptStartedAt : Option String := none
  lastRebalanceRetryReason : Option String := none
  lastRebalanceFinishedAt : Option String := none
  lastRebalanceReportPath : Option String := none
  lastRebalanceError : Option String := none
  deriving DecidableEq

namespace SessionState

/-- No state file has been written. -/
def absent : SessionState := {}

/-- `session_status`, on a payload. -/
def status (payload : SessionState) (sessionDate : String) : Option String :=
  if payload.lastRebalanceSession ≠ some sessionDate then none
  else payload.lastRebalanceStatus.filter (· ≠ "")

/-- `session_run_id`, on a payload. -/
def runId (payload : SessionState) (sessionDate : String) : Option String :=
  if payload.lastRebalanceSession ≠ some sessionDate then none
  else payload.lastRebalanceRunId.filter (· ≠ "")

/-- `session_attempt_count`, on a payload. -/
def attemptCount (payload : SessionState) (sessionDate : String) : Nat :=
  if payload.lastRebalanceSession ≠ some sessionDate then 0
  else payload.lastRebalanceAttemptCount.getD 0

/-- `pending_rebalance_run_id`, on a payload. -/
def pendingRunId (payload : SessionState) : Option String :=
  if payload.lastRebalanceStatus ≠ some ordersPendingStatus then none
  else payload.lastRebalanceRunId.filter (· ≠ "")

/-- Whether the file is about this run of this session. -/
def SameRun (payload : SessionState) (sessionDate runId : String) : Prop :=
  payload.lastRebalanceSession = some sessionDate ∧ payload.lastRebalanceRunId = some runId

instance (payload : SessionState) (sessionDate runId : String) :
    Decidable (payload.SameRun sessionDate runId) := inferInstanceAs (Decidable (_ ∧ _))

/-- What `begin_session` writes: an attempt of the run is running. -/
def begun (payload : SessionState) (sessionDate runId : String) (attempts : Nat)
    (startedAt attemptStartedAt : String) : SessionState :=
  { payload with
    lastRebalanceSession := some sessionDate
    lastRebalanceRunId := some runId
    lastRebalanceStatus := some runningStatus
    lastRebalanceAttemptCount := some attempts
    lastRebalanceStartedAt :=
      if ¬payload.SameRun sessionDate runId ∨ payload.lastRebalanceStartedAt.all (· = "") then
        some startedAt
      else payload.lastRebalanceStartedAt
    lastRebalanceAttemptStartedAt := some attemptStartedAt }

/-- A non-empty text replaces what was stored. -/
def overwrite (given stored : Option String) : Option String :=
  given.filter (· ≠ "") <|> stored

/-- What `mark_retry_wait` writes. -/
def retryWaiting (payload : SessionState) (sessionDate runId reason : String)
    (reportPath : Option String) (finishedAt : String) : SessionState :=
  { payload with
    lastRebalanceSession := some sessionDate
    lastRebalanceRunId := some runId
    lastRebalanceStatus := some retryWaitStatus
    lastRebalanceRetryReason := some reason
    lastRebalanceFinishedAt := some finishedAt
    lastRebalanceReportPath := overwrite reportPath payload.lastRebalanceReportPath }

/-- What `mark_session` writes. -/
def marked (payload : SessionState) (sessionDate runId status : String)
    (reportPath error : Option String) (finishedAt : String) : SessionState :=
  { payload with
    lastRebalanceSession := some sessionDate
    lastRebalanceRunId := some runId
    lastRebalanceStatus := some status
    lastRebalanceRetryReason := none
    lastRebalanceFinishedAt := some finishedAt
    lastRebalanceReportPath := overwrite reportPath payload.lastRebalanceReportPath
    lastRebalanceError := overwrite error payload.lastRebalanceError }

end SessionState

/-- `MarketDecision`. -/
structure MarketDecision where
  shouldRun : Bool
  sessionDate : Option String
  reason : String
  deriving DecidableEq

/-- The statuses `_run_rebalance` gives its outcome. -/
def outcomeStatuses : List String :=
  ["dry_run", "blocked", ExecutionStatus.completed.value,
    ExecutionStatus.completedWithOrderIssues.value, ExecutionStatus.noOrdersAccepted.value,
    ExecutionStatus.ordersPending.value]

/-- An outcome with a status `_run_rebalance` can give it. -/
abbrev GradedOutcome : Type := { outcome : RebalanceOutcome // outcome.status ∈ outcomeStatuses }

/-- Every outcome of the engine has one of these statuses. -/
theorem RebalanceEngine.runRebalance_graded (engine : RebalanceEngine)
    (sessionDate runId : String) (allow : Bool) :
    (engine.runRebalance sessionDate runId allow).Meets (S := sig) (fun _ _ => True)
      (fun _ => True) fun outcome => outcome.status ∈ outcomeStatuses := by
  have hany : ∀ {α : Type} (p : M α), p.Meets (S := sig) (fun _ _ => True) (fun _ => True)
      fun _ => True := fun p => p.uses_all
  have hgraded : ∀ status : ExecutionStatus, status.value ∈ outcomeStatuses := by
    intro status
    cases status <;> decide
  unfold RebalanceEngine.runRebalance
  refine Prog.meets_bind (hany _) fun _ _ => Prog.meets_bind (hany _) fun plan _ => ?_
  refine Prog.meets_bind (hany _) fun _ _ => Prog.meets_bind (hany _) fun _ _ => ?_
  dsimp only
  split
  · refine Prog.meets_bind (hany _) fun _ _ => ?_
    show (if decide (engine.settings.tradingMode = .dryRun) = true then "dry_run" else "blocked") ∈
      outcomeStatuses
    split <;> decide
  · unfold RebalanceEngine.executePlan
    refine Prog.meets_bind (hany _) fun _ _ => Prog.meets_bind (hany _) fun executed _ => ?_
    refine Prog.meets_bind (hany _) fun _ _ => Prog.meets_bind (hany _) fun _ _ => ?_
    refine Prog.meets_bind (hany _) fun _ _ => Prog.meets_bind (hany _) fun _ _ => ?_
    exact hgraded _

/-- The part of a saved plan the reconciliation reads itself. -/
structure SavedPlanHead where
  sessionDate : String
  /-- The plan holds its original targets and its value. -/
  certifiable : Bool
  deriving DecidableEq

/-- What a command of the host does to its outside. -/
inductive CommandOp where
  | readState
  | writeState (payload : SessionState)
  | shouldRebalanceNow
  | utcRunId
  | utcNow
  /-- `_run_rebalance` is called. -/
  | startRebalance (sessionDate runId : String) (forceDryRun : Bool)
  /-- What the call comes back with. -/
  | rebalanceOutcome
  | sendAlert (text : String)
  | reconcile
  | planExists (runId : String)
  | accountSnapshot
  | loadLatestEntries
  | readPlan (runId : String)
  | assessSavedRun (runId : String)
  | savedQuality (runId : String)
  | recordQuality (runId : String) (quality : QualityStatus)
  | verifyBrokerRecovery
  deriving DecidableEq

/-- The answer each of these expects. -/
def CommandOp.Ans : CommandOp → Type
  | .readState => SessionState
  | .shouldRebalanceNow => MarketDecision
  | .utcRunId => String
  | .utcNow => String
  | .rebalanceOutcome => GradedOutcome × String
  | .reconcile => ReconcileSummary
  | .planExists _ => Bool
  | .accountSnapshot => AccountSnapshot
  | .loadLatestEntries => OrderStore
  | .readPlan _ => SavedPlanHead
  | .assessSavedRun _ => QualityStatus
  | .savedQuality _ => Option QualityStatus
  | _ => Unit

/-- The signature of the host's commands. -/
def commandSig : Signature := ⟨CommandOp, CommandOp.Ans, Exn⟩

/-- A command of the host. -/
abbrev C (α : Type) : Type := Prog commandSig α

/-- One operation of a command. -/
def askOutside (o : CommandOp) : C o.Ans := Prog.perform (S := commandSig) o

/-- `_read`. -/
def readState : C SessionState := askOutside .readState

/-- `_write`. -/
def writeState (payload : SessionState) : C Unit := askOutside (.writeState payload)

/-- `_utc_now`. -/
def stateClock : C String := askOutside .utcNow

namespace LocalState

/-- `session_status`. -/
def sessionStatus (sessionDate : String) : C (Option String) :=
  readState.bind fun payload => .ret (payload.status sessionDate)

/-- `pending_rebalance_run_id`. -/
def pendingRebalanceRunId : C (Option String) :=
  readState.bind fun payload => .ret payload.pendingRunId

/-- `session_run_id`. -/
def sessionRunId (sessionDate : String) : C (Option String) :=
  readState.bind fun payload => .ret (payload.runId sessionDate)

/-- `session_attempt_count`. -/
def sessionAttemptCount (sessionDate : String) : C Nat :=
  readState.bind fun payload => .ret (payload.attemptCount sessionDate)

/-- `begin_session`. -/
def beginSession (sessionDate runId : String) : C Nat :=
  readState.bind fun payload =>
  (if payload.SameRun sessionDate runId then sessionAttemptCount sessionDate else .ret 0).bind
    fun previous =>
  stateClock.bind fun startedAt =>
  stateClock.bind fun attemptStartedAt =>
  (writeState (payload.begun sessionDate runId (previous + 1) startedAt attemptStartedAt)).bind
    fun _ => .ret (previous + 1)

/-- `mark_retry_wait`. -/
def markRetryWait (sessionDate runId reason : String) (reportPath : Option String) : C Unit :=
  readState.bind fun payload =>
  stateClock.bind fun finishedAt =>
  writeState (payload.retryWaiting sessionDate runId reason reportPath finishedAt)

/-- `mark_session`. -/
def markSession (sessionDate runId status : String) (reportPath error : Option String) : C Unit :=
  readState.bind fun payload =>
  stateClock.bind fun finishedAt =>
  writeState (payload.marked sessionDate runId status reportPath error finishedAt)

end LocalState

end Poma

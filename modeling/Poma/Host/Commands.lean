import Poma.Host.Sessions

/-!
# The commands of the host

The monitor decides on every tick whether to attempt the session, and under
which run; the reconciliation follows up the orders and upgrades a session whose
orders were pending. Both hold the runtime lock, so their processes follow one
another.
-/

namespace Poma

open Interaction

/-- `_MAX_REBALANCE_RETRY_ATTEMPTS`. -/
def maxRebalanceRetryAttempts : Nat := 12

/-- `_RETRYABLE_PRE_ACCEPTANCE_STATUSES`, of the command line. -/
def retryableOutcomeStatuses : List String :=
  [executionQuoteBlockedStatus, buyingPowerBlockedStatus, brokerUnavailableStatus,
    orderNotAcceptedStatus]

/-- `_RETRYABLE_BLOCK_WARNING_MARKERS`. -/
def retryableBlockWarningMarkers : List String :=
  ["unable to read broker cash and portfolio balances before rebalancing",
    "unable to refresh local open orders against IBKR before planning"]

/-- The loop of `_retryable_outcome_reason`: the retryable results, unless one is not safe. -/
def retryableResults : List OrderResult → Option (List OrderResult)
  | [] => some []
  | result :: rest =>
    -- a symbol the broker cannot resolve is final for this run
    if result.status ∈ [idempotentReplayStatus, contractUnresolvedStatus] then retryableResults rest
    else if result.status ∈ acceptedStatuses ∧ result.hasMessage = false then retryableResults rest
    else if result.status ∈ retryableOutcomeStatuses ∧ result.orderId = none ∧
        result.filled ≤ fillTolerance then
      (retryableResults rest).map (result :: ·)
    else none

/-- How one retryable result is named. -/
def retryableText (result : OrderResult) : String :=
  result.ticker ++ " " ++ result.status ++ ": " ++
    (result.message.filter (· ≠ "")).getD "retryable pre-acceptance outcome"

/-- `_retryable_outcome_reason`. -/
def retryableOutcomeReason (outcome : RebalanceOutcome) : Option String :=
  if outcome.blocked then
    let blocking := outcome.plan.warnings.filter (containsText · blockMarker)
    if blocking ≠ [] && blocking.all fun warning =>
        retryableBlockWarningMarkers.any (containsText warning ·) then
      some ("; ".intercalate blocking)
    else none
  else
    match retryableResults outcome.plan.executionResults with
    | none => none
    | some [] => none
    | some retryable => some ("; ".intercalate (retryable.map retryableText))

/-- `_retryable_exception_reason`. -/
def retryableExceptionReason : Exn → Option String
  | .brokerUnavailable message => some (if message ≠ "" then message else "BrokerUnavailable")
  | .timeout message => some (if message ≠ "" then message else "TimeoutError")
  | .connection message => some (if message ≠ "" then message else "ConnectionError")
  | _ => none

/-- `send_alert`. -/
def sendAlert (text : String) : C Unit := askOutside (.sendAlert text)

/-- `_run_rebalance`, as its caller sees it: it starts, and comes back with an outcome. -/
def attemptRebalance (sessionDate runId : String) (forceDryRun : Bool) :
    C (GradedOutcome × String) :=
  (askOutside (.startRebalance sessionDate runId forceDryRun)).bind fun _ =>
  askOutside .rebalanceOutcome

/-- The alert of an exhausted retry budget. -/
def exhaustedAlert (sessionDate : String) (attempt : Nat) (status detail : String) : String :=
  "\n".intercalate ["🛑 Rebalance retry budget exhausted", s!"Session: {sessionDate}",
    s!"Attempts: {attempt.repr}", s!"Final status: {status}", s!"Detail: {detail}"]

/-- The alert of the first retryable exception. -/
def willRetryAlert (sessionDate : String) (attempt : Nat) (reason : String) : String :=
  "\n".intercalate ["⏳ Rebalance will retry", s!"Session: {sessionDate}",
    s!"Attempt: {attempt.repr}/{maxRebalanceRetryAttempts.repr}", s!"Reason: {reason}"]

/-- The alert of a failed attempt. -/
def failedAlert (sessionDate : String) (e : Exn) : String :=
  "\n".intercalate ["🚨 Rebalance run failed", s!"Session: {sessionDate}", s!"Error: {e.message}"]

/-- The attempt of a tick, and the mark its outcome leaves. -/
def attemptSession (sessionDate runId : String) (forceDryRun : Bool) (attempt : Nat) : C Unit :=
  (attemptRebalance sessionDate runId forceDryRun).bind fun result =>
  let outcome := result.1.1
  match retryableOutcomeReason outcome with
  | some reason =>
    if attempt < maxRebalanceRetryAttempts then
      LocalState.markRetryWait sessionDate runId reason (some result.2)
    else
      (LocalState.markSession sessionDate runId outcome.status (some result.2) none).bind fun _ =>
      sendAlert (exhaustedAlert sessionDate attempt outcome.status reason)
  | none => LocalState.markSession sessionDate runId outcome.status (some result.2) none

/-- The final mark of a failed attempt, whose exception is raised again. -/
def markFailed (sessionDate runId : String) (e : Exn) : C Unit :=
  (LocalState.markSession sessionDate runId "failed" none (some e.message)).bind fun _ =>
  (sendAlert (failedAlert sessionDate e)).bind fun _ => .throw (S := commandSig) e

/-- The exception handler of a tick. -/
def attemptRaised (sessionDate runId : String) (attempt : Nat) (e : Exn) : C Unit :=
  match retryableExceptionReason e with
  | some reason =>
    if attempt < maxRebalanceRetryAttempts then
      (LocalState.markRetryWait sessionDate runId reason none).bind fun _ =>
      if attempt = 1 then sendAlert (willRetryAlert sessionDate attempt reason) else .ret ()
    else markFailed sessionDate runId e
  | none => markFailed sessionDate runId e

/-- The run of a tick: the stored one, or else a new one from the clock. -/
def chooseRunId : Option String → C String
  | some runId => .ret runId
  | none => (askOutside .utcRunId).bind fun (stamp : String) => .ret ("rebalance-" ++ stamp)

/-- The tick once the session is known to be attempted. -/
def monitorSession (sessionDate : String) (resuming forceDryRun : Bool) : C Unit :=
  (if resuming then LocalState.sessionRunId sessionDate else .ret none).bind fun stored =>
  (chooseRunId stored).bind fun runId =>
  (LocalState.beginSession sessionDate runId).bind fun attempt =>
  (attemptSession sessionDate runId forceDryRun attempt).catching
    (attemptRaised sessionDate runId attempt)

/-- `monitor`. -/
def monitor (forceDryRun : Bool) : C Unit :=
  (askOutside .shouldRebalanceNow).bind fun (decision : MarketDecision) =>
  match decision.sessionDate.filter (· ≠ "") with
  | none => .ret ()
  | some sessionDate =>
    (LocalState.sessionStatus sessionDate).bind fun status =>
    if status.any (· ∈ terminalStatuses) then .ret ()
    else
      let resuming := status.any (· ∈ [runningStatus, retryWaitStatus])
      if !resuming && !decision.shouldRun then .ret ()
      else monitorSession sessionDate resuming forceDryRun

/-- The exit of a command with a code. -/
def exitWith (code : Nat) : Exn := .other s!"exit {code.repr}"

/-- Upgrade the session of a run whose quality is known. -/
def upgradeSession (runId sessionDate : String) (quality : QualityStatus) : C Unit :=
  (LocalState.sessionRunId sessionDate).bind fun current =>
  if current ≠ some runId then .ret ()
  else
    (LocalState.sessionStatus sessionDate).bind fun status =>
    if status ≠ some ordersPendingStatus then .ret ()
    else
      match quality with
      | .targetReached => LocalState.markSession sessionDate runId "completed" none none
      | .incomplete =>
        LocalState.markSession sessionDate runId "completed_with_order_issues" none none
      | _ => .ret ()

/-- The assessment of one run with a saved plan. -/
def assessRun (runId : String) : C Unit :=
  (askOutside (.readPlan runId)).bind fun (plan : SavedPlanHead) =>
  if plan.certifiable = false then .ret ()
  else
    (askOutside (.assessSavedRun runId)).bind fun (quality : QualityStatus) =>
    (askOutside (.savedQuality runId)).bind fun (previous : Option QualityStatus) =>
    (askOutside (.recordQuality runId quality)).bind fun _ =>
    (upgradeSession runId plan.sessionDate quality).bind fun _ =>
    if (quality = .targetReached ∨ quality = .incomplete) ∧ some quality ≠ previous then
      sendAlert s!"Rebalance {runId}"
    else .ret ()

/-- The runs a reconciliation may assess, in order. -/
def assessableRuns (summary : ReconcileSummary) (pending : Option String) : List String :=
  ((summary.updates.map (·.entry.runId) ++ pending.toList).dedup).mergeSort

/-- Whether an update leaves its order unverified. -/
def ReconcileUpdate.failed (update : ReconcileUpdate) : Bool :=
  update.action = some .error || update.action = some .unverified ||
    update.entry.lifecycleState = .unknown

/-- `reconcile_orders`. -/
def reconcileOrders (tradingMode : TradingMode) (verifyRecovery : Bool) : C Unit :=
  if tradingMode = .dryRun then
    if verifyRecovery then .throw (S := commandSig) (exitWith 1) else .ret ()
  else
    (askOutside .reconcile).bind fun (summary : ReconcileSummary) =>
    (Prog.forEach (fun update : ReconcileUpdate =>
      if update.action.isSome || update.entry.isTerminal then sendAlert update.entry.ticker
      else .ret ()) summary.updates).bind fun _ =>
    LocalState.pendingRebalanceRunId.bind fun pending =>
    (Prog.collect (fun runId => (askOutside (.planExists runId)).bind fun (found : Bool) =>
      .ret (runId, found)) (assessableRuns summary pending)).bind fun runs =>
    let assessable := (runs.filter (·.2)).map (·.1)
    (if assessable = [] then .ret ()
      else
        -- no false claim of completion when the portfolio cannot be read
        (askOutside .accountSnapshot).attempt.bind fun _ =>
        (askOutside .loadLatestEntries).bind fun _ =>
        Prog.forEach assessRun assessable).bind fun _ =>
    (askOutside .loadLatestEntries).bind fun (store : OrderStore) =>
    if summary.updates.any ReconcileUpdate.failed ||
        store.loadOpenOrders.any (·.lifecycleState = .unknown) then
      .throw (S := commandSig) (exitWith 1)
    else if verifyRecovery then askOutside .verifyBrokerRecovery
    else .ret ()

end Poma

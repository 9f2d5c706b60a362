import Poma.Manager.StaleOrders

/-!
# One rebalance

The engine checks stale orders before it plans, refuses a plan with a blocking
warning, hands the others to the execution manager and grades the results. The
host's gates, reports and alerts around it are operations of their own.
-/

namespace Poma

open Interaction

/-- `ACCEPTED_STATUSES`, which are the `SUCCESS_STATUSES`. -/
def acceptedStatuses : List String := ["PreSubmitted", "Submitted", "Filled"]

/-- `_is_idempotent_replay`. -/
def OrderResult.isIdempotentReplay (result : OrderResult) : Bool :=
  result.status = idempotentReplayStatus

/-- A message that is present and not empty. -/
def OrderResult.hasMessage (result : OrderResult) : Bool := result.message.any (· ≠ "")

/-- `order_results_have_issues`. -/
def orderResultsHaveIssues (results : List OrderResult) : Bool :=
  results.any fun result =>
    !result.isIdempotentReplay && (result.status ∉ acceptedStatuses || result.hasMessage)

/-- `order_results_have_no_accepted_orders`. -/
def orderResultsHaveNoAcceptedOrders (results : List OrderResult) : Bool :=
  results ≠ [] && results.all fun result =>
    !result.isIdempotentReplay && result.filled ≤ 0 && result.status ∉ acceptedStatuses

/-- The graded outcome of an executed rebalance. -/
inductive ExecutionStatus where
  | completed
  | completedWithOrderIssues
  | noOrdersAccepted
  | ordersPending
  deriving DecidableEq

/-- The status as the source writes it. -/
def ExecutionStatus.value : ExecutionStatus → String
  | .completed => "completed"
  | .completedWithOrderIssues => "completed_with_order_issues"
  | .noOrdersAccepted => "no_orders_accepted"
  | .ordersPending => "orders_pending"

/-- A result that says its order is fully filled, up to the fill tolerance. -/
def OrderResult.FullyFilled (result : OrderResult) : Prop :=
  result.quantity ≤ result.filled + fillTolerance

instance (result : OrderResult) : Decidable result.FullyFilled :=
  inferInstanceAs (Decidable (_ ≤ _))

/-- `execution_status`. -/
def executionStatus (results : List OrderResult) : ExecutionStatus :=
  if orderResultsHaveNoAcceptedOrders results then .noOrdersAccepted
  else if orderResultsHaveIssues results then .completedWithOrderIssues
  else if results.any fun result =>
      result.status ∈ ["Submitted", "PreSubmitted"] &&
        result.filled + fillTolerance < result.quantity then .ordersPending
  else .completed

/-- `is_blocked`. -/
def RebalancePlan.isBlocked (plan : RebalancePlan) : Bool :=
  plan.warnings.any (containsText · blockMarker)

/-- What a rebalance leaves for its caller. -/
structure RebalanceOutcome where
  plan : RebalancePlan
  executed : Bool
  blocked : Bool
  status : String
  deriving DecidableEq

/-- The engine of one process: its broker, its settings and its order store. -/
structure RebalanceEngine where
  broker : Broker
  settings : Settings

namespace RebalanceEngine

variable (self : RebalanceEngine)

/-- The manager the engine builds on its broker and settings. -/
def manager : ExecutionManager := ⟨self.broker, self.settings⟩

/-- `build_plan`: the stale-order check first, then everything the plan is computed from. -/
def buildPlan (sessionDate runId : String) : M RebalancePlan :=
  (if self.settings.tradingMode ≠ .dryRun then
    (self.manager.checkStaleOrders sessionDate runId).bind fun check => .ret check.warnings
    else .ret []).bind fun stale =>
  (askHost (.planTrades sessionDate runId)).bind fun (planned : PlannedTrades) => .ret {
    runId := runId
    sessionDate := sessionDate
    trades := planned.trades
    warnings := stale ++ planned.warnings
    targets := planned.targets
    portfolioValueUsd := planned.portfolioValueUsd
    brokerTotalValueUsd := planned.brokerTotalValueUsd }

/-- `execute`, on an engine with an order store. -/
def execute (plan : RebalancePlan) (statusCallback : Option StatusCallback) : M RebalancePlan :=
  (self.manager.submitPlan plan statusCallback).bind fun results =>
  .ret { plan with executionResults := results }

/-- The gates of the host before anything is planned. -/
def gates (allowOutsideMarketHours : Bool) : M Unit :=
  (if self.settings.tradingMode ≠ .dryRun then askHost .assertTradingRecoveryReady
    else .ret ()).bind fun _ =>
  if allowOutsideMarketHours ∨ self.settings.tradingMode = .dryRun then .ret ()
  else askHost .assertRebalanceMarketWindow

/-- The part of `_run_rebalance` that executes a plan which is not blocked. -/
def executePlan (plan : RebalancePlan) : M RebalanceOutcome :=
  (askHost (.sendAlert s!"🚀 Execution starting\nSession: {plan.sessionDate}\nOrders: {plan.trades.length.repr}")).bind
    fun _ =>
  (self.execute plan (some observe)).bind fun plan =>
  let status := executionStatus plan.executionResults
  (askHost (.writeReport plan)).bind fun _ =>
  self.broker.accountSnapshot.attempt.bind fun _ =>
  (askHost (.recordReconciliation plan)).bind fun _ =>
  (askHost (.sendAlert status.value)).bind fun _ => .ret {
    plan := plan
    executed := true
    blocked := false
    status := status.value }

/-- `_run_rebalance`. -/
def runRebalance (sessionDate runId : String) (allowOutsideMarketHours : Bool) :
    M RebalanceOutcome :=
  (self.gates allowOutsideMarketHours).bind fun _ =>
  (self.buildPlan sessionDate runId).bind fun plan =>
  (askHost (.writeReport plan)).bind fun _ =>
  (askHost (.recordPlanned plan)).bind fun _ =>
  let isDryRun : Bool := self.settings.tradingMode = .dryRun
  if isDryRun || plan.isBlocked then
    let status := if isDryRun then "dry_run" else "blocked"
    (askHost (.sendAlert status)).bind fun _ => .ret {
      plan := plan
      executed := false
      blocked := plan.isBlocked
      status := status }
  else self.executePlan plan

end RebalanceEngine

end Poma

import Poma.Models.Lifecycle
import Poma.Numeric.Reported

/-!
# Assessing a confirmed rebalance

The holdings of the account are compared with the original target weights at the
latest broker value. Only a comparison within the tolerance, with every order of
the run terminal and nothing outside a cap, certifies that the targets are
reached.
-/

namespace Poma

/-- `_resolve_account_total_value`: cash plus positions when available, net liquidation when not. -/
def resolveAccountTotalValue (cashUsd positionsMarketValueUsd : Reported)
    (netLiquidationUsd : Option Reported) : Reported :=
  let cashAndPositions := cashUsd.add positionsMarketValueUsd
  if (Reported.finite 0).lt cashAndPositions then cashAndPositions
  else netLiquidationUsd.getD cashAndPositions

/-- `total_value_usd`. -/
def AccountSnapshot.totalValueUsd (snapshot : AccountSnapshot) : Reported :=
  resolveAccountTotalValue snapshot.cashUsd snapshot.positionsMarketValueUsd
    snapshot.netLiquidationUsd

/-- What an assessment comes to. -/
inductive QualityStatus where
  | unknown
  | pending
  | incomplete
  | targetReached
  deriving DecidableEq

/-- The status as the source writes it. -/
def QualityStatus.value : QualityStatus → String
  | .unknown => "unknown"
  | .pending => "pending"
  | .incomplete => "incomplete"
  | .targetReached => "target_reached"

/-- The report of an assessment. -/
structure QualityReport where
  status : QualityStatus := .unknown
  orderCount : Nat
  workingOrders : Nat
  unverifiedOrders : Nat
  requestedShares : ℚ
  filledShares : ℚ
  fillRatio : ℚ
  targetErrorUsd : Reported := .finite 0
  targetErrorPct : Reported := .finite 0
  maxTickerDriftUsd : Reported := .finite 0
  cashDriftUsd : Option Reported := none
  targetCashUsd : Option Reported := none
  observedCashUsd : Option Reported := none
  snapshotAvailable : Bool
  warning : String := ""

/-- The weight of a ticker: that of its last target. -/
def targetWeight (targets : List TargetPosition) (ticker : String) : Option Reported :=
  ((targets.filter fun target => target.ticker = ticker).getLast?).map (·.targetWeight)

/-- `target_values`, read at one ticker. -/
def targetValue (targets : List TargetPosition) (referenceTotal : ℚ) (ticker : String) :
    Option Reported :=
  (targetWeight targets ticker).map (·.scale referenceTotal)

/-- `target_values.keys()`. -/
def targetTickers (targets : List TargetPosition) : List String :=
  (targets.map (·.ticker)).dedup

/-- `actual_values`, read at one ticker. -/
def actualValue (positions : List ReportedPosition) (ticker : String) : Reported :=
  Reported.sum ((positions.filter fun position => position.ticker = ticker).map (·.marketValue))

/-- The tickers held or targeted. -/
def comparedTickers (targets : List TargetPosition) (positions : List ReportedPosition) :
    List String :=
  (targets.map (·.ticker) ++ positions.map (·.ticker)).dedup

/-- What a ticker is worth, less what it should be worth. -/
def tickerGap (targets : List TargetPosition) (positions : List ReportedPosition)
    (referenceTotal : ℚ) (ticker : String) : Reported :=
  (actualValue positions ticker).sub ((targetValue targets referenceTotal ticker).getD (.finite 0))

/-- `drift_by_ticker.values()`. -/
def tickerDrifts (targets : List TargetPosition) (positions : List ReportedPosition)
    (referenceTotal : ℚ) : List Reported :=
  (comparedTickers targets positions).map fun ticker =>
    (tickerGap targets positions referenceTotal ticker).abs

/-- `desired_cash`. -/
def desiredCash (targets : List TargetPosition) (referenceTotal : ℚ) : Reported :=
  (Reported.finite referenceTotal).sub
    (Reported.sum ((targetTickers targets).map fun ticker =>
      (targetValue targets referenceTotal ticker).getD (.finite 0)))

/-- `capped`: the account was worth more than the value planned for. -/
def capLimited (plannedValueUsd : Reported) (originalBrokerValueUsd : Option Reported) : Bool :=
  originalBrokerValueUsd.any fun original => (plannedValueUsd.scale (1001 / 1000)).lt original

/-- `tolerance`. -/
def qualityTolerance (minTradeNotionalUsd referenceTotal minWeightDeltaPct : ℚ) : ℚ :=
  max minTradeNotionalUsd (referenceTotal * minWeightDeltaPct)

/-- `assess_rebalance`. -/
def assessRebalance (targets : List TargetPosition) (plannedValueUsd : Reported)
    (snapshot : Option AccountSnapshot) (orders : List OrderLedgerEntry)
    (originalBrokerValueUsd : Option Reported) (minTradeNotionalUsd minWeightDeltaPct : ℚ) :
    QualityReport :=
  let requested := (orders.map fun entry => max entry.quantity 0).sum
  let filled := (orders.map fun entry => min (max entry.filledQty 0) (max entry.quantity 0)).sum
  let working := orders.countP fun entry => !entry.isTerminal
  let unverified := orders.countP fun entry => entry.lifecycleState = .unknown
  let report : QualityReport := {
    orderCount := orders.length
    workingOrders := working
    unverifiedOrders := unverified
    requestedShares := requested
    filledShares := filled
    fillRatio := if requested > 0 then min 1 (filled / requested) else 1
    snapshotAvailable := snapshot.isSome }
  match snapshot with
  | none => { report with
      warning := "no confirmed post-execution portfolio snapshot; cannot certify rebalance" }
  | some snapshot =>
    if plannedValueUsd.le (.finite 0) then { report with
      warning := "no confirmed post-execution portfolio snapshot; cannot certify rebalance" }
    else match snapshot.totalValueUsd with
      | .finite actualTotal =>
        if actualTotal ≤ 0 then { report with
          warning := "invalid broker portfolio value; cannot certify rebalance" }
        else
          let capped := capLimited plannedValueUsd originalBrokerValueUsd
          -- a capped plan has a number for its value
          let referenceTotal :=
            if capped then min ((plannedValueUsd.value?).getD actualTotal) actualTotal
            else actualTotal
          let drifts := tickerDrifts targets snapshot.positions referenceTotal
          let drift := Reported.sum drifts
          let desired := desiredCash targets referenceTotal
          let cashDrift := snapshot.cashUsd.sub desired
          let tolerance :=
            Reported.finite (qualityTolerance minTradeNotionalUsd referenceTotal minWeightDeltaPct)
          let status : QualityStatus :=
            if unverified > 0 then .unknown
            else if working > 0 then .pending
            else if tolerance.lt drift || tolerance.lt cashDrift.abs then .incomplete
            else .targetReached
          { report with
            status := if capped then .unknown else status
            targetErrorUsd := drift
            targetErrorPct := drift.scale (1 / referenceTotal)
            maxTickerDriftUsd := Reported.maximum drifts
            cashDriftUsd := some cashDrift
            targetCashUsd := some desired
            observedCashUsd := some snapshot.cashUsd
            warning :=
              if capped then "broker equity exceeds the planned managed cap; outside-cap assets and cash may affect this exposure comparison"
              else "" }
      | _ => { report with
          warning := "invalid broker portfolio value; cannot certify rebalance" }

end Poma

import Poma.Execution.Pricing

/-!
# Trades for target values

Planning compares what each ticker is worth with what it should be worth and
proposes the trades that close the gaps worth closing, sized off the snapshot
prices. A sell never exceeds the position. The net cash a plan needs is checked
against the cash the account has.
-/

namespace Poma

/-- A held position. -/
structure CurrentPosition where
  ticker : String
  quantity : ℚ
  marketValue : ℚ
  deriving DecidableEq

/-- A ticker and the value it should have. -/
structure TargetValue where
  ticker : String
  targetNotional : ℚ
  deriving DecidableEq

/-- What planning compares and by which thresholds. -/
structure PlanningInputs where
  targets : List TargetValue
  currentPositions : List CurrentPosition
  latestPrices : List (String × Reported)
  portfolioValueUsd : ℚ
  minTradeNotionalUsd : ℚ
  minWeightDeltaPct : ℚ
  limitOffsetBps : ℚ

/-- `{p.ticker: p for p in current_positions}`, read at one ticker. -/
def currentByTicker (positions : List CurrentPosition) (ticker : String) : Option CurrentPosition :=
  (positions.filter fun p => p.ticker = ticker).getLast?

/-- `{t.ticker: t.target_notional for t in targets}`, read at one ticker. -/
def targetByTicker (targets : List TargetValue) (ticker : String) : Option ℚ :=
  ((targets.filter fun t => t.ticker = ticker).getLast?).map (·.targetNotional)

/-- `_position_reference_price`. -/
def positionReferencePrice (position : Option CurrentPosition) : Option ℚ :=
  position.bind fun position =>
    if position.quantity ≤ 0 ∨ position.marketValue ≤ 0 then none
    else some (position.marketValue / position.quantity)

/-- A price that can be used: present, a number, and positive. -/
def usablePrice : Option Reported → Option ℚ
  | some (.finite price) => if price > 0 then some price else none
  | _ => none

/-- The trade of one ticker at a price, unless there is nothing to trade. -/
def sizeTrade (limitOffsetBps : ℚ) (ticker : String) (side : OrderSide)
    (current : Option CurrentPosition) (gap price : ℚ) : Option ProposedTrade :=
  let wanted := gap / price
  let quantity := match side, current with
    | .sell, some position => min wanted |position.quantity|
    | _, _ => wanted
  if quantity ≤ 0 then none
  else some {
    ticker := ticker
    side := side
    quantity := quantity
    notional := gap
    referencePrice := price
    limitPrice := some (buildLimitPrice side price limitOffsetBps)
    reason := "rebalance_to_target_weight" }

/-- One ticker of `generate_trades`: its trade, if any, and its warnings. -/
def generateTrade (inputs : PlanningInputs) (ticker : String) :
    Except Exn (Option ProposedTrade × List String) :=
  let current := currentByTicker inputs.currentPositions ticker
  let currentValue := (current.map (·.marketValue)).getD 0
  let targetValue := (targetByTicker inputs.targets ticker).getD 0
  let delta := targetValue - currentValue
  if |delta| < inputs.minTradeNotionalUsd then .ok (none, [])
  else if inputs.portfolioValueUsd = 0 then .error (.other "float division by zero")
  else if |delta| / inputs.portfolioValueUsd < inputs.minWeightDeltaPct then .ok (none, [])
  else
    let side : OrderSide := if delta > 0 then .buy else .sell
    let sized := sizeTrade inputs.limitOffsetBps ticker side current |delta|
    match inputs.latestPrices.lookup ticker with
    -- at an infinite price every quantity is zero
    | some (.infinite false) => .ok (none, [])
    | price => match usablePrice price with
      | some price => .ok (sized price, [])
      | none =>
        match side, positionReferencePrice current with
        | .sell, some price => .ok (sized price,
            [s!"missing valid latest price for held {ticker}; using broker position market value for risk-reducing sell planning"])
        | _, _ => .ok (none, [s!"missing valid latest price for {ticker}; skipping trade"])

/-- The tickers held or targeted, in order. -/
def planningTickers (inputs : PlanningInputs) : List String :=
  ((inputs.currentPositions.map (·.ticker) ++ inputs.targets.map (·.ticker)).dedup).insertionSort
    (· ≤ ·)

/-- `generate_trades`. -/
def generateTrades (inputs : PlanningInputs) : Except Exn (List ProposedTrade × List String) :=
  ((planningTickers inputs).mapM (generateTrade inputs)).map fun planned =>
    (planned.filterMap (·.1), planned.flatMap (·.2))

/-- `filter_trades_by_estimated_transaction_cost`. -/
def filterTradesByEstimatedTransactionCost (trades : List ProposedTrade)
    (minTradeNotionalUsd estimatedTransactionCostBps estimatedTransactionCostFixedUsd : ℚ) :
    List ProposedTrade × List String :=
  if estimatedTransactionCostBps ≤ 0 ∧ estimatedTransactionCostFixedUsd ≤ 0 then (trades, [])
  else
    let cost (trade : ProposedTrade) : ℚ :=
      estimatedTransactionCostFixedUsd + trade.notional * estimatedTransactionCostBps / 10000
    let kept (trade : ProposedTrade) : Bool := trade.notional - cost trade ≥ minTradeNotionalUsd
    (trades.filter kept, (trades.filter fun trade => !kept trade).map fun trade =>
      s!"{trade.ticker}: estimated transaction cost ${formatDollars (cost trade)} leaves ${formatDollars (trade.notional - cost trade)} of rebalance benefit, below MIN_TRADE_NOTIONAL_USD=${formatDollars minTradeNotionalUsd}; skipping trade")

/-- `enforce_buying_power`. -/
def enforceBuyingPower (trades : List ProposedTrade) (availableCashUsd : ℚ) : List String :=
  let netOutflow := netCashOutflow trades
  if netOutflow > availableCashUsd + cashTolerance then
    [s!"planned net buy cash requirement (${formatDollars netOutflow}) exceeds available cash (${formatDollars availableCashUsd}); block execution"]
  else []

end Poma

import Poma.Core.Numerals
import Poma.Engine.Rebalance
import Poma.Engine.RebalanceQuality
import Poma.Engine.Strategies
import Poma.Execution.Risk

/-!
# Building a plan

Everything `build_plan` computes once the stale orders are checked: the account
and what of it is managed, the sleeves and the books of their strategies, the
combined targets, the trades that reach them, what the trades cost and what the
instruments can execute, and the checks that block a plan. What it reads from the
broker, the market data and the saved snapshots is given.
-/

namespace Poma

/-- `ManagedCapMode`. -/
inductive ManagedCapMode where
  | brokerTotal
  | minOfBrokerTotalAndCap
  deriving DecidableEq

/-- The settings that planning reads, after validation. -/
structure PlanSettings extends StrategySettings where
  execution : Settings := .unset
  allocations : List (String × Reported)
  dryRunPortfolioValueUsd : ℚ := 10000
  managedCapMode : ManagedCapMode := .brokerTotal
  managedCapUsd : ℚ := 0
  maxTurnoverPct : ℚ := 1
  minTradeNotionalUsd : ℚ := 25
  minWeightDeltaPct : ℚ := 1 / 400
  estimatedTransactionCostBps : ℚ := 0
  estimatedTransactionCostFixedUsd : ℚ := 0
  maxDailyTrades : Nat := 100
  dryRunValue_pos : 0 < dryRunPortfolioValueUsd := by decide +kernel
  managedCap_nonneg : 0 ≤ managedCapUsd := by decide +kernel
  maxTurnover_nonneg : 0 ≤ maxTurnoverPct := by decide +kernel
  minTradeNotional_pos : 0 < minTradeNotionalUsd := by decide +kernel
  minWeightDelta_nonneg : 0 ≤ minWeightDeltaPct := by decide +kernel
  costBps_nonneg : 0 ≤ estimatedTransactionCostBps := by decide +kernel
  costFixed_nonneg : 0 ≤ estimatedTransactionCostFixedUsd := by decide +kernel

/-- The account as `rebalance_account_snapshot` reads it, where all its figures are finite. -/
structure AccountReading where
  cashUsd : ℚ
  positions : List CurrentPosition
  positionsMarketValueUsd : ℚ
  netLiquidationUsd : Option ℚ := none
  warnings : List String := []
  deriving DecidableEq

/-- `total_value_usd`. -/
def AccountReading.totalValueUsd (account : AccountReading) : ℚ :=
  if 0 < account.cashUsd + account.positionsMarketValueUsd then
    account.cashUsd + account.positionsMarketValueUsd
  else account.netLiquidationUsd.getD (account.cashUsd + account.positionsMarketValueUsd)

/-- What a plan is computed from. -/
structure PlanReads where
  /-- The account, or why it could not be read. -/
  account : Except Exn AccountReading
  /-- `current_universe_snapshot`. -/
  currentUniverse : Except Exn Snapshot
  /-- `history.load_asof`, where there is a history. -/
  historical : Option Snapshot := none
  /-- `close_price_history`, where the provider has it. -/
  priceHistory : Option (List String → ℤ → Except Exn PriceHistory) := none

/-- `_exception_detail`; the name of the class stands for an empty text. -/
def exceptionDetail (className : Exn → String) (e : Exn) : String :=
  let detail := strip e.message
  if detail = "" then className e else detail

/-- `_account_snapshot`, with the warnings it adds. -/
def planAccount (className : Exn → String) (settings : PlanSettings)
    (reading : Except Exn AccountReading) : AccountReading × List String :=
  let fallback : AccountReading := {
    cashUsd := settings.dryRunPortfolioValueUsd
    positions := []
    positionsMarketValueUsd := 0
    netLiquidationUsd := some settings.dryRunPortfolioValueUsd }
  if settings.execution.tradingMode = .dryRun then (fallback, [])
  else match reading with
    | .error e => (fallback, [s!"unable to read broker cash and portfolio balances before rebalancing; {blockMarker}: {exceptionDetail className e}"])
    | .ok account =>
      if account.totalValueUsd ≤ 0 then (fallback, account.warnings ++
        [s!"broker cash and portfolio balances produced a non-positive portfolio value; {blockMarker}"])
      else (account, account.warnings)

/-- `_resolve_portfolio_value_usd`. -/
def resolvePortfolioValueUsd (settings : PlanSettings) (account : AccountReading) : ℚ :=
  if settings.execution.tradingMode = .dryRun ∨ settings.managedCapMode = .brokerTotal then
    account.totalValueUsd
  else min account.totalValueUsd settings.managedCapUsd

/-- The warning of capital that no sleeve has. -/
def unallocatedWarning (plan : PortfolioCapitalPlan) : List String :=
  let unallocated := max 0 (1 - (plan.allocations.map (·.allocationPct)).sum)
  if unallocated > 1 / 1000000000 then
    [s!"{formatFixed 2 (unallocated * 100)}% of portfolio value is not allocated to any strategy sleeve"]
  else []

/-- The numbers of a column of closes. -/
def validCloses (format : CellFormat) (history : PriceHistory) (ticker : String) :
    List Reported :=
  ((history.closes ticker).map fun row => format.toNumeric row.value).filter (· ≠ .nan)

/-- `_price_history`, with the warnings it adds. -/
def planPriceHistory (className : Exn → String) (format : CellFormat)
    (loader : Option (List String → ℤ → Except Exn PriceHistory))
    (requirements : List StrategyDataRequirements) : Option PriceHistory × List String :=
  let tickers := ((requirements.flatMap (·.priceHistoryTickers)).dedup).insertionSort (· ≤ ·)
  let names := String.intercalate ", " tickers
  if tickers = [] then (none, [])
  else
    let days := ((requirements.filter (·.priceHistoryTickers ≠ [])).map (·.priceHistoryDays)).foldl
      max 0
    match loader with
    | none => (none, [s!"data provider cannot load price history for {names}; {blockMarker}"])
    | some load => match load tickers days with
      | .error e => (none, [s!"unable to load price history for {names}; {blockMarker}: {exceptionDetail className e}"])
      | .ok history =>
        let missing := tickers.filter fun ticker =>
          ticker ∉ history.columns ∨ validCloses format history ticker = []
        let names := String.intercalate ", " missing
        (some history, if missing = [] then []
          else [s!"no price history returned for {names}; {blockMarker}"])

/-- `float(row.price)`, of a row that has a price. -/
def rowPrice (format : CellFormat) (row : String → Cell) :
    Except Exn (Option (String × Reported)) :=
  match row "price" with
  | .none => .ok none
  | .nan => .ok (some (format.str (row "ticker"), .nan))
  | .number price => .ok (some (format.str (row "ticker"), price))
  | .text text => match readFloat text with
    | some price => .ok (some (format.str (row "ticker"), price))
    | none => .error (.valueError s!"could not convert string to float: {reprText text}")

/-- `prices`: the universe's, later rows first, and the last closes of the other tickers. -/
def latestPrices (format : CellFormat) (current : Snapshot) (history : Option PriceHistory) :
    Except Exn (List (String × Reported)) := do
  let prices ←
    if "price" ∈ current.columns then current.rows.mapM (rowPrice format) else .ok []
  let listed := prices.reduceOption.reverse
  .ok <| match history with
  | none => listed
  | some history => listed ++ history.columns.filterMap fun ticker =>
      if listed.any (·.1 = ticker) then none
      else ((validCloses format history ticker).getLast?).map fun close => (ticker, close)

/-- The books of the sleeves, each by its strategy. -/
def sleeveBooks (library : FrameLibrary) (settings : PlanSettings) (current : Snapshot)
    (historical : Option Snapshot) (history : Option PriceHistory) :
    List (StrategyCapital × Strategy) → Except Exn (List SleeveBook)
  | [] => .ok []
  | (sleeve, strategy) :: rest => do
    let requirement := strategy.dataRequirements settings.toStrategySettings
    let book ← strategy.buildTargets library {
      strategyName := sleeve.name
      allocationPct := sleeve.allocationPct
      capitalUsd := sleeve.capitalUsd
      currentUniverse := current
      historicalUniverse := historical
      settings := settings.toStrategySettings
      priceHistory := history.bind fun history =>
        if requirement.priceHistoryTickers = [] then none
        else some (history.reindex requirement.priceHistoryTickers) }
    let books ← sleeveBooks library settings current historical history rest
    .ok (book :: books)

/-- The notional of the trades of one side. -/
def sideNotional (trades : List ProposedTrade) (side : OrderSide) : ℚ :=
  ((trades.filter (·.side = side)).map (·.notional)).sum

/-- One-sided turnover: the larger of the buys and the sells, as a part of the portfolio. -/
def oneSidedTurnover (trades : List ProposedTrade) (portfolioValueUsd : ℚ) : ℚ :=
  if portfolioValueUsd = 0 then 0
  else max (sideNotional trades .buy) (sideNotional trades .sell) / portfolioValueUsd

/-- `enforce_turnover_limit`. -/
def enforceTurnoverLimit (trades : List ProposedTrade) (portfolioValueUsd maxTurnoverPct : ℚ) :
    List String :=
  let turnover := oneSidedTurnover trades portfolioValueUsd
  if turnover > maxTurnoverPct then
    [s!"turnover {formatFixed 2 (turnover * 100)}% exceeds limit {formatFixed 2 (maxTurnoverPct * 100)}%; block execution"]
  else []

/-- `enforce_order_limits`. -/
def enforceOrderLimits (trades : List ProposedTrade) (maxOrderNotionalUsd : ℚ)
    (maxDailyTrades : Nat) : List String :=
  let oversized := trades.filter (·.notional > maxOrderNotionalUsd)
  let names := String.intercalate ", " (oversized.map (·.ticker))
  (if trades.length > maxDailyTrades then
    [s!"trade count {trades.length.repr} exceeds limit {maxDailyTrades.repr}; block execution"]
    else []) ++
  if oversized = [] then []
  else [s!"orders exceed max notional {formatFixed 2 maxOrderNotionalUsd}: {names}; block execution"]

/-- What the planning inputs are for combined targets. -/
def planningInputs (settings : PlanSettings) (account : AccountReading) (portfolioValueUsd : ℚ)
    (combined : List CombinedTargetPosition) (prices : List (String × Reported)) :
    PlanningInputs where
  targets := combined.map fun position => ⟨position.ticker, position.targetNotional⟩
  currentPositions := account.positions
  latestPrices := prices
  portfolioValueUsd := portfolioValueUsd
  minTradeNotionalUsd := settings.minTradeNotionalUsd
  minWeightDeltaPct := settings.minWeightDeltaPct
  limitOffsetBps := settings.execution.limitOffsetBps

/-- The trades for combined targets, with the warnings of each stage. -/
structure SizedTrades where
  trades : List ProposedTrade
  tradeWarnings : List String
  costWarnings : List String
  executionPolicyWarnings : List String

/-- `generate_trades`, then the cost filter, then the execution policy. -/
def sizeTrades (settings : PlanSettings) (account : AccountReading) (inputs : PlanningInputs) :
    Except Exn SizedTrades :=
  (generateTrades inputs).map fun (generated, tradeWarnings) =>
    let (kept, costWarnings) := filterTradesByEstimatedTransactionCost generated
      settings.minTradeNotionalUsd settings.estimatedTransactionCostBps
      settings.estimatedTransactionCostFixedUsd
    let (trades, executionPolicyWarnings) :=
      applyExecutionPolicy kept settings.execution.executionRules (some account.cashUsd)
    ⟨trades, tradeWarnings, costWarnings, executionPolicyWarnings⟩

/-- The checks on the trades of a plan; net cash is checked only where no order store stages it. -/
def tradeChecks (settings : PlanSettings) (stores : Bool) (account : AccountReading)
    (portfolioValueUsd : ℚ) (trades : List ProposedTrade) : List String :=
  enforceTurnoverLimit trades portfolioValueUsd settings.maxTurnoverPct ++
    (enforceOrderLimits trades settings.execution.maxOrderNotionalUsd settings.maxDailyTrades ++
      if !stores ∨ settings.execution.tradingMode = .dryRun then
        enforceBuyingPower trades account.cashUsd
      else [])

/-- The sleeves that are traded, each with its strategy. -/
def tradedSleeves (plan : PortfolioCapitalPlan) : Except Exn (List (StrategyCapital × Strategy)) :=
  plan.tradeableSleeves.mapM fun sleeve =>
    (registryGet sleeve.name).map fun strategy => (sleeve, strategy)

/-- The universe snapshot, loaded only where a strategy needs it, with its saved history. -/
def planUniverse (reads : PlanReads) (requirements : List StrategyDataRequirements) :
    Except Exn (Snapshot × Option Snapshot) :=
  if requirements.any (·.usesUniverse) then
    reads.currentUniverse.map fun current => (current, reads.historical)
  else .ok (⟨["ticker", "market_cap", "price"], []⟩, none)

/-- `build_plan`, from the account read on. -/
def planTrades (library : FrameLibrary) (settings : PlanSettings) (stores : Bool)
    (reads : PlanReads) : Except Exn PlannedTrades := do
  let (account, accountWarnings) := planAccount library.className settings reads.account
  let portfolioValueUsd := resolvePortfolioValueUsd settings account
  let capitalPlan ← (buildStrategyCapitalPlan (.finite portfolioValueUsd)
    settings.allocations).mapError .valueError
  let sleeves ← tradedSleeves capitalPlan
  let requirements := sleeves.map fun sleeve =>
    sleeve.2.dataRequirements settings.toStrategySettings
  let (current, historical) ← planUniverse reads requirements
  let (history, historyWarnings) :=
    planPriceHistory library.className library.format reads.priceHistory requirements
  let books ← sleeveBooks library settings current historical history sleeves
  let (combined, combineWarnings) :=
    combineStrategyTargetBooks (books.map (·.toStrategyTargetBook)) portfolioValueUsd
  let targets := combined.map CombinedTargetPosition.toTargetPosition
  let prices ← latestPrices library.format current history
  let sized ← sizeTrades settings account
    (planningInputs settings account portfolioValueUsd combined prices)
  let fundTickers := books.flatMap (·.diversifiedFundTickers)
  .ok {
    trades := sized.trades
    warnings := accountWarnings ++ unallocatedWarning capitalPlan ++ historyWarnings ++
      books.flatMap (·.warnings) ++ combineWarnings ++
      validateTargets targets settings.maxPositionPct fundTickers ++ sized.tradeWarnings ++
      sized.costWarnings ++ sized.executionPolicyWarnings ++
      tradeChecks settings stores account portfolioValueUsd sized.trades
    targets := targets
    portfolioValueUsd := .finite portfolioValueUsd
    brokerTotalValueUsd := .finite account.totalValueUsd }

end Poma

import Poma.Broker.Venues
import Poma.Engine.Portfolio
import Poma.Engine.Selection
import Poma.Engine.Trend

/-!
# The registered strategies

A strategy says which market data it needs and turns the capital of its sleeve
into targets: the equity strategy spreads it over selected companies, the core
strategy holds one fund unless its trend is down, and a direct strategy holds the
fund it is named after.
-/

namespace Poma

/-- The settings that strategies read, after validation. -/
structure StrategySettings where
  maxHoldings : ℤ := 50
  maxPositionPct : ℚ := 1 / 10
  coreEtfTrendFilter : Bool := false
  coreEtfTrendSmaMonths : ℤ := 10
  coreEtfSafeAsset : String := "cash"
  /-- The case mapping of the interpreter, which is none of the source's settings. -/
  textCase : TextCase := {}
  maxHoldings_pos : 0 < maxHoldings := by decide
  maxPosition_nonneg : 0 ≤ maxPositionPct := by decide +kernel
  maxPosition_le_one : maxPositionPct ≤ 1 := by decide +kernel
  smaMonths_pos : 0 < coreEtfTrendSmaMonths := by decide

/-- Daily closes by date, one column for each ticker. -/
structure PriceHistory where
  columns : List String
  rows : List (CoreEtf.Timestamp × (String → Cell))

/-- `price_history.reindex(columns=...)`. -/
def PriceHistory.reindex (history : PriceHistory) (tickers : List String) : PriceHistory where
  columns := tickers
  rows := history.rows.map fun (time, cells) =>
    (time, fun ticker => if ticker ∈ history.columns then cells ticker else .nan)

/-- The closes of one ticker. -/
def PriceHistory.closes (history : PriceHistory) (ticker : String) : List (CoreEtf.Row Cell) :=
  history.rows.map fun (time, cells) => ⟨time, cells ticker⟩

/-- `_history_for`. -/
def historyFor (history : Option PriceHistory) (ticker : String) : List (CoreEtf.Row Cell) :=
  match history with
  | some history => if ticker ∈ history.columns then history.closes ticker else []
  | none => []

/-- `StrategyContext`. -/
structure StrategyContext where
  strategyName : String
  allocationPct : ℚ
  capitalUsd : ℚ
  currentUniverse : Snapshot
  historicalUniverse : Option Snapshot
  settings : StrategySettings
  priceHistory : Option PriceHistory := none

/-- `StrategyDataRequirements`. -/
structure StrategyDataRequirements where
  usesUniverse : Bool := true
  priceHistoryTickers : List String := []
  priceHistoryDays : ℤ := 0
  deriving DecidableEq

/-- The targets of one sleeve, with what its strategy says about them. -/
structure SleeveBook extends StrategyTargetBook where
  allocationPct : ℚ
  capitalUsd : ℚ
  warnings : List String := []
  diversifiedFundTickers : List String := []
  deriving DecidableEq

/-- What planning uses of the frame library, and what the interpreter calls the exceptions. -/
structure FrameLibrary where
  format : CellFormat
  /-- `values.std(ddof=0)`. -/
  deviation : List ℚ → ℚ
  /-- `values.mean()`. -/
  mean : List Reported → Reported := CoreEtf.exactMean
  /-- `exc.__class__.__name__`. -/
  className : Exn → String := Exn.className

/-- A target for some weight of a sleeve. -/
def StrategyContext.target (context : StrategyContext) (strategyName ticker : String)
    (weight : ℚ) : StrategyTarget where
  strategyName := strategyName
  ticker := ticker
  sleeveWeight := weight
  portfolioWeight := weight * context.allocationPct
  targetNotional := weight * context.capitalUsd

/-- `build_targets` of the equity strategy. -/
def rankVelocityTargets (library : FrameLibrary) (context : StrategyContext) :
    Except Exn SleeveBook :=
  let name := "rank_velocity_size_equal_weight"
  let selected : Except String (List String × List String) :=
    match context.historicalUniverse with
    | none =>
      (selectTopMarketCap library.format context.currentUniverse context.settings.maxHoldings).map
        fun rows => (rows.map (·.ticker), ["no historical market-cap snapshot found for lookback window; falling back to current market-cap selection"])
    | some historical =>
      (selectByCombinedFactor library.format library.deviation context.currentUniverse historical
        context.settings.maxHoldings).map fun rows => (rows.map (·.current.ticker), [])
  (selected.bind fun (tickers, warnings) =>
    (buildEqualWeightTargets tickers context.capitalUsd context.settings.maxPositionPct).map
      fun targets => {
        strategyName := name
        targets := targets.map fun target => {
          strategyName := name
          ticker := target.ticker
          sleeveWeight := target.targetWeight
          portfolioWeight := target.targetWeight * context.allocationPct
          targetNotional := target.targetNotional }
        allocationPct := context.allocationPct
        capitalUsd := context.capitalUsd
        warnings := warnings }).mapError .valueError

/-- `CORE_ETF_TICKER`. -/
def coreEtfTicker : String := "USMC"

/-- `_LATEST_PRICE_DAYS`. -/
def latestPriceDays : ℤ := 10

/-- `safe_asset`. -/
def safeAsset (settings : StrategySettings) : Option String :=
  let ticker := settings.textCase.upper (strip settings.coreEtfSafeAsset)
  if ticker ∈ ["", "CASH", "NONE"] then none else some ticker

/-- Whether the core fund is held, and what is said about its trend. -/
def coreEtfInvested (library : FrameLibrary) (context : StrategyContext) :
    Except Exn (Bool × List String) :=
  if context.settings.coreEtfTrendFilter then
    (CoreEtf.trendIsUp library.format.toNumeric library.mean
      (historyFor context.priceHistory coreEtfTicker) context.settings.coreEtfTrendSmaMonths).map fun
    | none => (true, [s!"{coreEtfTicker}: fewer than {context.settings.coreEtfTrendSmaMonths.repr} completed months of price history for the trend filter; holding the ETF"])
    | some up => (up, [])
  else .ok (true, [])

/-- `build_targets` of the core strategy. -/
def coreEtfTargets (library : FrameLibrary) (context : StrategyContext) : Except Exn SleeveBook :=
  (coreEtfInvested library context).map fun (invested, warnings) =>
    let safe := safeAsset context.settings
    let (holding, moved) : Option String × List String :=
      if invested then (some coreEtfTicker, [])
      else match safe with
        | some asset => (some asset,
            [s!"{coreEtfTicker}: below its trend average; moving its weight to {asset}"])
        | none => (none, [s!"{coreEtfTicker}: below its trend average; holding its weight in cash"])
    { strategyName := "core_etf"
      targets := holding.toList.map fun ticker => context.target "core_etf" ticker 1
      allocationPct := context.allocationPct
      capitalUsd := context.capitalUsd
      warnings := warnings ++ moved
      diversifiedFundTickers := (coreEtfTicker :: safe.toList).dedup.insertionSort (· ≤ ·) }

/-- `build_targets` of a direct strategy. -/
def directEtfTargets (ticker : String) (context : StrategyContext) : SleeveBook where
  strategyName := ticker
  targets := [{
    strategyName := ticker
    ticker := ticker
    sleeveWeight := 1
    portfolioWeight := context.allocationPct
    targetNotional := context.capitalUsd }]
  allocationPct := context.allocationPct
  capitalUsd := context.capitalUsd
  diversifiedFundTickers := [ticker]

/-- A registered strategy; a direct one is named after a supported fund. -/
inductive Strategy where
  | coreEtf
  | directEtf (ticker : {ticker : String // ticker ∈ usdLseUcits})
  | rankVelocity
  deriving DecidableEq

namespace Strategy

/-- `name`. -/
def name : Strategy → String
  | .coreEtf => "core_etf"
  | .directEtf ticker => ticker.val
  | .rankVelocity => "rank_velocity_size_equal_weight"

/-- `strategy_data_requirements`. -/
def dataRequirements (settings : StrategySettings) : Strategy → StrategyDataRequirements
  | .coreEtf => {
      usesUniverse := false
      priceHistoryTickers := coreEtfTicker ::
        ((safeAsset settings).filter (· ≠ coreEtfTicker)).toList
      priceHistoryDays :=
        if settings.coreEtfTrendFilter then
          (settings.coreEtfTrendSmaMonths + 2) * 31 + latestPriceDays
        else latestPriceDays }
  | .directEtf ticker => {
      usesUniverse := false
      priceHistoryTickers := [ticker.val]
      priceHistoryDays := 10 }
  | .rankVelocity => {}

/-- `build_targets`. -/
def buildTargets (library : FrameLibrary) (context : StrategyContext) :
    Strategy → Except Exn SleeveBook
  | .coreEtf => coreEtfTargets library context
  | .directEtf ticker => .ok (directEtfTargets ticker.val context)
  | .rankVelocity => rankVelocityTargets library context

end Strategy

/-- `default_registry`, in the order of registration. -/
def defaultRegistry : List Strategy :=
  .coreEtf :: (usdLseUcits.attach.map .directEtf ++ [.rankVelocity])

/-- `registry.get`. -/
def registryGet (name : String) : Except Exn Strategy :=
  match defaultRegistry.find? (·.name = name) with
  | some strategy => .ok strategy
  | none => .error (.other
      s!"strategy '{name}' is not registered; available strategies: {joinSorted (defaultRegistry.map Strategy.name)}")

end Poma

import Poma.Core.Text
import Poma.Models.Types

/-!
# Validated settings

The settings the modelled code reads. The bounds the configuration model checks
when it is built are fields, so settings that violate them do not exist.
-/

namespace Poma

/-- How orders leave the process: simulated, on paper, or live. -/
inductive TradingMode where
  | dryRun
  | paper
  | live
  deriving DecidableEq

/-- The order type every order of a run uses. -/
inductive OrderType where
  | limit
  | market
  deriving DecidableEq

/-- What to do with unresolved open orders of another session or run. -/
inductive StaleOrderPolicy where
  | block
  | cancel
  deriving DecidableEq

/-- Where order pricing reads its execution-time reference quote from. -/
inductive ExecutionPriceSource where
  | ibkr
  | snapshot
  deriving DecidableEq

/-- The price source as the source writes it. -/
def ExecutionPriceSource.value : ExecutionPriceSource → String
  | .ibkr => "ibkr"
  | .snapshot => "snapshot"

/-- Which part of the quote the reference price is selected from. -/
inductive ExecutionPriceBasis where
  | sideOfMarket
  | midpoint
  | last
  deriving DecidableEq

/-- The price basis as the source writes it. -/
def ExecutionPriceBasis.value : ExecutionPriceBasis → String
  | .sideOfMarket => "side_of_market"
  | .midpoint => "midpoint"
  | .last => "last"

/-- The settings of one process, after validation. -/
structure Settings where
  tradingMode : TradingMode := .dryRun
  orderType : OrderType := .limit
  limitOffsetBps : ℚ := 10
  maxOrderNotionalUsd : ℚ := 25000
  fractionalShares : Bool := false
  nonFractionalTickers : String := ""
  orderStatusTimeoutSeconds : Nat := 60
  cancelStaleOrders : Bool := true
  maxConsecutiveOrderAcceptanceFailures : Nat := 3
  orderTimeInForce : String := "DAY"
  autoReplaceUnfilledOrders : Bool := true
  replaceAfterSeconds : Nat := 120
  cancelAfterSeconds : Nat := 300
  replacePriceImprovementBps : ℚ := 15
  maxRepriceAdverseBps : ℚ := 50
  staleOrderPolicy : StaleOrderPolicy := .block
  executionPriceSource : ExecutionPriceSource := .ibkr
  executionPriceBasis : ExecutionPriceBasis := .sideOfMarket
  executionQuoteMaxAgeSeconds : Nat := 60
  executionMaxSpreadBps : ℚ := 50
  executionWideSpreadMaxBps : ℚ := 150
  executionLimitAggression : ℚ := 1 / 2
  allowDelayedExecutionQuotes : Bool := true
  ibkrHost : String := "127.0.0.1"
  ibkrPort : Nat := 7497
  ibkrAccount : Option String := none
  /-- The case mapping of the interpreter, which is none of the source's settings. -/
  textCase : TextCase := {}
  limitOffset_nonneg : 0 ≤ limitOffsetBps := by decide +kernel
  maxOrderNotional_pos : 0 < maxOrderNotionalUsd := by decide +kernel
  orderStatusTimeout_pos : 0 < orderStatusTimeoutSeconds := by decide
  acceptanceFailures_pos : 0 < maxConsecutiveOrderAcceptanceFailures := by decide
  replaceAfter_pos : 0 < replaceAfterSeconds := by decide
  replaceAfter_lt_cancelAfter : replaceAfterSeconds < cancelAfterSeconds := by decide
  replaceImprovement_nonneg : 0 ≤ replacePriceImprovementBps := by decide +kernel
  maxRepriceAdverse_nonneg : 0 ≤ maxRepriceAdverseBps := by decide +kernel
  quoteMaxAge_pos : 0 < executionQuoteMaxAgeSeconds := by decide
  maxSpread_pos : 0 < executionMaxSpreadBps := by decide +kernel
  maxSpread_le_wideSpread : executionMaxSpreadBps ≤ executionWideSpreadMaxBps := by
    decide +kernel
  aggression_nonneg : 0 ≤ executionLimitAggression := by decide +kernel
  aggression_le_one : executionLimitAggression ≤ 1 := by decide +kernel

namespace Settings

/-- The settings of an installation that sets none. -/
def unset : Settings := {}

/-- Settings that send orders to the paper account. -/
def onPaper : Settings := { tradingMode := .paper }

/-- Settings that stop a submission at its first refused order. -/
def stoppingAtFirst : Settings := { maxConsecutiveOrderAcceptanceFailures := 1 }

/-- Settings that price orders from the plan's snapshot. -/
def fromSnapshot : Settings := { executionPriceSource := .snapshot }

/-- Settings that send orders priced from the plan's snapshot to the paper account. -/
def onPaperFromSnapshot : Settings := { tradingMode := .paper, executionPriceSource := .snapshot }

end Settings

end Poma

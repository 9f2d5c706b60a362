import Mathlib.Data.Rat.Defs
import Mathlib.Algebra.Order.Ring.Rat

/-!
# Trades, results, quotes and broker snapshots

The records the execution manager passes around. Amounts are exact rationals;
a number the broker reports may also be infinite or not a number, and is checked
where the source checks it.
-/

namespace Poma

/-- A reported floating-point number: finite, infinite, or not a number. -/
inductive Reported where
  | finite (value : ℚ)
  | infinite (negative : Bool)
  | nan
  deriving DecidableEq

/-- The value of a finite number. -/
def Reported.value? : Reported → Option ℚ
  | .finite value => some value
  | _ => none

/-- `math.isfinite`. -/
def Reported.isFinite (x : Reported) : Bool := x.value?.isSome

/-- The exceptions the modelled code tells apart, with their text. -/
inductive Exn where
  | brokerUnavailable (message : String)
  | cancelNotConfirmed (message : String)
  | runtimeError (message : String)
  | valueError (message : String)
  | timeout (message : String)
  | connection (message : String)
  | other (message : String)
  deriving DecidableEq

/-- `str(exc)`. -/
def Exn.message : Exn → String
  | .brokerUnavailable message => message
  | .cancelNotConfirmed message => message
  | .runtimeError message => message
  | .valueError message => message
  | .timeout message => message
  | .connection message => message
  | .other message => message

/-- `exc.__class__.__name__`; what is told apart from nothing else may be of any class. -/
def Exn.className : Exn → String
  | .brokerUnavailable _ => "BrokerUnavailable"
  | .cancelNotConfirmed _ => "CancelNotConfirmed"
  | .runtimeError _ => "RuntimeError"
  | .valueError _ => "ValueError"
  | .timeout _ => "TimeoutError"
  | .connection _ => "ConnectionError"
  | .other _ => "Exception"

/-- The side of a trade or order. -/
inductive OrderSide where
  | buy
  | sell
  deriving DecidableEq

/-- The side as the source writes it. -/
def OrderSide.value : OrderSide → String
  | .buy => "BUY"
  | .sell => "SELL"

/-- A planned trade, and the same trade once tagged and repriced. -/
structure ProposedTrade where
  ticker : String
  side : OrderSide
  quantity : ℚ
  notional : ℚ
  referencePrice : ℚ
  limitPrice : Option ℚ
  reason : String
  orderRef : Option String := none
  referencePriceSource : String := "snapshot"
  referencePriceBasis : String := "snapshot_price"
  referencePriceAsOfUtc : Option String := none
  quoteAgeSeconds : Option ℚ := none
  quoteSpreadBps : Option ℚ := none
  deriving DecidableEq

/-- The amount a limit order can move: its limit when positive, its notional otherwise. -/
def ProposedTrade.limitCash (trade : ProposedTrade) : ℚ :=
  match trade.limitPrice with
  | some limit => if limit > 0 then |trade.quantity| * limit else trade.notional
  | none => trade.notional

/-- Maximum cash this BUY can consume, using the submitted limit when present. -/
def ProposedTrade.buyCashRequiredUsd (trade : ProposedTrade) : ℚ :=
  if trade.side ≠ .buy then 0 else trade.limitCash

/-- Conservative cash credit for a SELL, using the limit as the minimum fill price. -/
def ProposedTrade.sellCashCreditUsd (trade : ProposedTrade) : ℚ :=
  if trade.side ≠ .sell then 0 else trade.limitCash

/-- One broker-side market data read for a ticker. -/
structure ExecutionQuote where
  ticker : String
  source : String
  selectedPriceAsOfUtc : Option String := none
  ageSeconds : Option Reported := none
  bid : Option Reported := none
  ask : Option Reported := none
  last : Option Reported := none
  spreadBps : Option Reported := none
  isDelayed : Bool := false
  brokerError : Option String := none
  contractUnresolved : Bool := false
  deriving DecidableEq

/-- What quantity shape the broker accepts for one ticker. -/
structure InstrumentExecutionRule where
  ticker : String
  allowsFractional : Bool := true
  minQuantity : ℚ := 0
  quantityIncrement : ℚ := 0
  deriving DecidableEq

/-- The outcome of one trade of an attempt. -/
structure OrderResult where
  ticker : String
  side : OrderSide
  quantity : ℚ
  notional : ℚ
  orderId : Option Int
  status : String
  filled : ℚ
  averageFillPrice : Option ℚ
  message : Option String := none
  orderRef : Option String := none
  permId : Option Int := none
  deriving DecidableEq

/-- One broker-reported order, open or completed. -/
structure OpenOrderSnapshot where
  orderRef : Option String
  orderId : Option Int
  permId : Option Int
  ticker : String
  side : OrderSide
  rawStatus : String
  filled : ℚ
  remaining : ℚ
  avgFillPrice : Option ℚ
  deriving DecidableEq

/-- A position as the broker reports it. -/
structure ReportedPosition where
  ticker : String
  quantity : Reported
  marketValue : Reported
  deriving DecidableEq

/-- The cash read that gates the buys, with the equity the plan was sized on. -/
structure AccountSnapshot where
  cashUsd : Reported
  positionsMarketValueUsd : Reported
  netLiquidationUsd : Option Reported := none
  warnings : List String := []
  positions : List ReportedPosition := []
  accountId : Option String := none
  deriving DecidableEq

/-- What one ticker should hold. -/
structure TargetPosition where
  ticker : String
  targetWeight : Reported
  targetNotional : Reported
  deriving DecidableEq

/-- A plan of one attempt and, once executed, its results. -/
structure RebalancePlan where
  runId : String
  sessionDate : String
  trades : List ProposedTrade
  executionResults : List OrderResult := []
  warnings : List String := []
  targets : List TargetPosition := []
  portfolioValueUsd : Reported := .finite 0
  /-- `broker_total_value_usd`. -/
  brokerTotalValueUsd : Reported := .finite 0
  deriving DecidableEq

end Poma

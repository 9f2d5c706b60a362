import Poma.Core.Text
import Poma.Models.Types

/-!
# Order lifecycle and the durable ledger entry

A raw broker status and a fill state map to a small internal lifecycle. A ledger
entry keeps both, under the stable key of its order and the reference of the
order that is live at the broker. Its two updates read an order result and a
broker snapshot.
-/

namespace Poma

/-- `ORDER_REF_PREFIX`. -/
def orderRefPrefix : String := "poma"

/-- `EXECUTION_QUOTE_BLOCKED_STATUS`. -/
def executionQuoteBlockedStatus : String := "QuoteBlocked"

/-- `BUYING_POWER_BLOCKED_STATUS`. -/
def buyingPowerBlockedStatus : String := "BuyingPowerBlocked"

/-- `CONTRACT_UNRESOLVED_STATUS`. -/
def contractUnresolvedStatus : String := "ContractUnresolved"

/-- `IDEMPOTENT_REPLAY_STATUS`. -/
def idempotentReplayStatus : String := "IdempotentReplay"

/-- `BROKER_UNAVAILABLE_STATUS`. -/
def brokerUnavailableStatus : String := "BrokerUnavailable"

/-- `ORDER_NOT_ACCEPTED_STATUS`. -/
def orderNotAcceptedStatus : String := "OrderNotAccepted"

/-- The fill quantities below this are no fill: the source's `1e-9`. -/
def fillTolerance : ℚ := 1 / 1000000000

/-- Internal lifecycle of one order, independent of the broker's raw status. -/
inductive OrderLifecycleState where
  | planned
  | submitted
  | brokerAccepted
  | partiallyFilled
  | filled
  | replacePending
  | cancelPending
  | cancelled
  | rejected
  | expired
  | unknown
  deriving DecidableEq

/-- The state as the source writes it. -/
def OrderLifecycleState.value : OrderLifecycleState → String
  | .planned => "planned"
  | .submitted => "submitted"
  | .brokerAccepted => "broker_accepted"
  | .partiallyFilled => "partially_filled"
  | .filled => "filled"
  | .replacePending => "replace_pending"
  | .cancelPending => "cancel_pending"
  | .cancelled => "cancelled"
  | .rejected => "rejected"
  | .expired => "expired"
  | .unknown => "unknown"

/-- `TERMINAL_LIFECYCLE_STATES`. -/
def terminalLifecycleStates : List OrderLifecycleState := [.filled, .cancelled, .rejected, .expired]

/-- `WORKING_LIFECYCLE_STATES`. -/
def workingLifecycleStates : List OrderLifecycleState := [.brokerAccepted, .partiallyFilled]

/-- `_RAW_TERMINAL_CANCELLED`. -/
def rawTerminalCancelled : List String := ["Cancelled", "ApiCancelled"]

/-- `_RAW_SUBMISSION_FAILURE`. -/
def rawSubmissionFailure : List String :=
  ["Failed", "BrokerUnavailable", "OrderNotAccepted", executionQuoteBlockedStatus,
    buyingPowerBlockedStatus, contractUnresolvedStatus]

/-- Deterministic orderRef of the trade at a position of a run. -/
def buildOrderRef (runId : String) (index : Nat) (ticker : String) (side : OrderSide) : String :=
  orderRefPrefix ++ ":" ++ runId ++ ":" ++ index.repr ++ ":" ++ ticker ++ ":" ++ side.value

/-- Map a broker raw status plus fill state to the internal lifecycle. -/
def classifyLifecycle (rawStatus : String) (filled remaining : ℚ) : OrderLifecycleState :=
  if rawStatus = "Filled" ∨ (filled > 0 ∧ remaining ≤ fillTolerance) then .filled
  else if rawStatus ∈ rawTerminalCancelled then .cancelled
  else if rawStatus = "PendingCancel" then .cancelPending
  else if rawStatus = "Inactive" ∨ rawStatus ∈ rawSubmissionFailure then .rejected
  else if rawStatus = "PreSubmitted" ∨ rawStatus = "Submitted" then
    if filled > 0 then .partiallyFilled else .brokerAccepted
  else if rawStatus = "PendingSubmit" then .submitted
  else .unknown

/-- The lifecycle state a broker report stands for. -/
def OpenOrderSnapshot.lifecycle (snapshot : OpenOrderSnapshot) : OrderLifecycleState :=
  classifyLifecycle snapshot.rawStatus snapshot.filled (max snapshot.remaining 0)

/-- A stored timestamp: an instant in seconds, or text that does not parse. -/
inductive IsoTimestamp where
  | instant (seconds : ℚ)
  | unreadable (text : String)
  deriving DecidableEq

/-- `seconds_since`: nothing for a missing or unreadable timestamp. -/
def secondsSince : Option IsoTimestamp → ℚ → Option ℚ
  | some (.instant seconds), now => some (now - seconds)
  | _, _ => none

/-- A slightly more aggressive limit price, for the single allowed replace attempt. -/
def moreAggressiveLimitPrice (side : OrderSide) (limitPrice improvementBps : ℚ) : ℚ :=
  let multiplier := if side = .buy then 1 + improvementBps / 10000 else 1 - improvementBps / 10000
  roundTo 2 (limitPrice * multiplier)

/-- Durable record of one order's lifecycle, independent of any process run. -/
structure OrderLedgerEntry where
  ledgerKey : String
  orderRef : String
  runId : String
  sessionDate : String
  ticker : String
  side : OrderSide
  quantity : ℚ
  limitPrice : Option ℚ
  strategy : Option String := none
  referencePrice : Option ℚ := none
  referencePriceSource : Option String := none
  referencePriceBasis : Option String := none
  referencePriceAsOfUtc : Option String := none
  quoteAgeSeconds : Option ℚ := none
  quoteSpreadBps : Option ℚ := none
  orderId : Option Int := none
  permId : Option Int := none
  submittedAt : Option IsoTimestamp := none
  lifecycleState : OrderLifecycleState := .planned
  rawStatus : String := ""
  filledQty : ℚ := 0
  remainingQty : ℚ := 0
  avgFillPrice : Option ℚ := none
  lastStatusAt : Option IsoTimestamp := none
  terminalReason : Option String := none
  replaceCount : Nat := 0
  replacementOrderRef : Option String := none
  deriving DecidableEq

namespace OrderLedgerEntry

/-- `is_terminal`. -/
def isTerminal (entry : OrderLedgerEntry) : Bool :=
  entry.lifecycleState ∈ terminalLifecycleStates

/-- The reserved replacement reference, when the entry holds a non-empty one. -/
def reservedRef (entry : OrderLedgerEntry) : Option String :=
  entry.replacementOrderRef.filter (· ≠ "")

/-- Whether the fill quantity counts as no fill. -/
def Unfilled (entry : OrderLedgerEntry) : Prop := entry.filledQty ≤ fillTolerance

instance (entry : OrderLedgerEntry) : Decidable entry.Unfilled :=
  inferInstanceAs (Decidable (_ ≤ _))

/-- `entry.remaining_qty or max(entry.quantity - entry.filled_qty, 0.0)`. -/
def openQuantity (entry : OrderLedgerEntry) : ℚ :=
  if entry.remainingQty ≠ 0 then entry.remainingQty else max (entry.quantity - entry.filledQty) 0

/-- Update the entry from the result of submitting its order. -/
def withOrderResult (entry : OrderLedgerEntry) (result : OrderResult) (now : ℚ) :
    OrderLedgerEntry :=
  let remaining := max (entry.quantity - result.filled) 0
  let lifecycle := classifyLifecycle result.status result.filled remaining
  { entry with
    orderId := result.orderId <|> entry.orderId
    submittedAt := entry.submittedAt <|> some (.instant now)
    lifecycleState := lifecycle
    rawStatus := result.status
    filledQty := result.filled
    remainingQty := remaining
    avgFillPrice := result.averageFillPrice <|> entry.avgFillPrice
    lastStatusAt := some (.instant now)
    terminalReason :=
      if lifecycle ∈ terminalLifecycleStates then result.message else entry.terminalReason }

/-- Update the entry from a broker report of its order. -/
def withSnapshot (entry : OrderLedgerEntry) (snapshot : OpenOrderSnapshot) (now : ℚ) :
    OrderLedgerEntry :=
  let remaining := max snapshot.remaining 0
  let lifecycle := classifyLifecycle snapshot.rawStatus snapshot.filled remaining
  { entry with
    orderId := snapshot.orderId <|> entry.orderId
    permId := snapshot.permId <|> entry.permId
    lifecycleState := lifecycle
    rawStatus := snapshot.rawStatus
    filledQty := snapshot.filled
    remainingQty := remaining
    avgFillPrice := snapshot.avgFillPrice <|> entry.avgFillPrice
    lastStatusAt := some (.instant now)
    terminalReason :=
      if lifecycle ∈ terminalLifecycleStates then some ("broker reported " ++ snapshot.rawStatus)
      else entry.terminalReason }

end OrderLedgerEntry

end Poma

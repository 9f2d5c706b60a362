import Poma.Broker.Ibkr

/-!
# The IBKR broker: queries, cancels and replacements

The open-order query, the completed history with what executions prove, the
cancel request, and the two ways a replacement is placed. A replacement goes out
only after the original reads as cancelled with nothing filled.
-/

namespace Poma

open Interaction

namespace Ibkr

variable (settings : Settings)

/-- Whether a trade belongs to POMA and to the configured account. -/
def isOwn (trade : IbTrade) : Bool :=
  startsWith trade.orderRef (orderRefPrefix ++ ":") &&
    settings.account?.all fun account => trade.account = "" || trade.account = account

/-- The snapshot of an open trade. -/
def openSnapshot (trade : IbTrade) : OpenOrderSnapshot where
  orderRef := some trade.orderRef
  orderId := trade.orderId
  permId := trade.permId
  ticker := settings.textCase.upper trade.symbol
  side := if trade.action = "BUY" then .buy else .sell
  rawStatus := trade.status
  filled := trade.filled
  remaining := trade.remaining
  avgFillPrice := noneIfZero trade.avgFillPrice

/-- The open trades of the session, as the client library knows them after a request. -/
def refreshedOpenTrades : M (List IbTrade) :=
  (askIb .reqAllOpenOrders).bind fun _ =>
  (askIb (.sleep 1)).bind fun _ => askIb .openTrades

/-- `_fetch_open_orders_once`. -/
def fetchOpenOrdersOnce : M (List OpenOrderSnapshot) :=
  withSession settings <|
    (assertConnected settings).bind fun _ =>
    refreshedOpenTrades.bind fun trades =>
    -- an empty cache of a dropped session is not evidence of no open orders
    (assertConnected settings).bind fun _ =>
    .ret ((trades.filter (isOwn settings)).map (openSnapshot settings))

/-- The exception of an open-order query that failed twice or ran out of time. -/
def openQueryFailure (lastError : Option Exn) : Exn :=
  let detail := (lastError.map Exn.message).getD "budget exhausted"
  .brokerUnavailable s!"IBKR open-order query failed after reconnect or time budget: {detail}"

/-- The attempts of `fetch_open_order_snapshots`, the last error so far with them. -/
def fetchOpenAttempts : Nat → Option Exn → M (List OpenOrderSnapshot)
  | 0, lastError => raise (openQueryFailure lastError)
  | attempts + 1, lastError =>
    withinDeadline.bind fun within =>
    if !within then raise (openQueryFailure lastError)
    else (fetchOpenOrdersOnce settings).attempt.bind fun
      | .ok snapshots => .ret snapshots
      | .error (.brokerUnavailable message) => raise (.brokerUnavailable message)
      | .error e =>
        -- the jittered delay before the one retry on a fresh session
        (if attempts = 0 then .ret () else sleepFor 2).bind fun _ =>
        fetchOpenAttempts attempts (some e)

/-- `fetch_open_order_snapshots`. -/
def fetchOpenOrderSnapshots : M (List OpenOrderSnapshot) := fetchOpenAttempts settings 2 none

/-- `_find_open_poma_trade`. -/
def findOpenPomaTrade (orderId : Int) (instrument : Option (String × OrderSide)) :
    M (Option IbTrade) :=
  refreshedOpenTrades.bind fun trades =>
  .ret (trades.find? fun trade =>
    trade.orderId = some orderId && isOwn settings trade &&
      instrument.all fun (ticker, side) =>
        settings.textCase.upper trade.symbol = settings.textCase.upper ticker &&
          trade.action = side.value)

/-- `cancel_order`: a request only; a later reconcile confirms the terminal state. -/
def cancelOrder (orderId : Int) : M Bool :=
  withSession settings <|
    (assertConnected settings).bind fun _ =>
    (findOpenPomaTrade settings orderId none).bind fun
    | none => .ret false
    | some target =>
      (askIb (.cancelOrder target)).bind fun _ =>
      (askIb (.sleep 1)).bind fun _ => .ret true

/-- `_place_limit_order`. -/
def placeLimitOrder (ticker : String) (side : OrderSide) (quantity limitPrice : ℚ)
    (orderRef : String) : M OpenOrderSnapshot :=
  (askIb (.executionOrderContract ticker)).bind fun _ =>
  let order : IbOrder := {
    symbol := ticker
    action := side.value
    totalQuantity := quantity
    limitPrice := some limitPrice
    tif := settings.orderTimeInForce
    orderRef := orderRef
    account := settings.account?.getD "" }
  (askIb (.placeOrder order)).bind fun (placed : IbTrade) =>
  (askIb (.sleep 1)).bind fun _ =>
  (currentTrade placed).bind fun trade => .ret {
    orderRef := some orderRef
    orderId := trade.orderId
    permId := trade.permId
    ticker := ticker
    side := side
    rawStatus := statusOr trade.status "Submitted"
    filled := trade.filled
    remaining := if trade.remaining = 0 then quantity else trade.remaining
    avgFillPrice := noneIfZero trade.avgFillPrice }

/-- The part of `replace_order` after the cancel of the original was requested. -/
def finishReplace (request : ReplaceRequest) (target : IbTrade) : M OpenOrderSnapshot :=
  (awaitTerminalStatus cancelConfirmPolls target).bind fun target =>
  -- never place a second order when the original has already executed shares
  if target.filled > 0 then .ret (snapshotFromTrade target request.ticker request.side)
  else if target.status ∉ cancelledStatuses then
    let status := statusOr target.status "unknown"
    raise (.cancelNotConfirmed
      s!"cannot replace order {request.orderId}: cancel not confirmed after 15s (status={status}); cancel still in flight, replacement not placed")
  else
    let quantity := min |request.quantity| target.remaining
    if quantity ≤ 0 then raise (.runtimeError
      s!"cannot replace order {request.orderId}: no remaining quantity after cancel")
    else placeLimitOrder settings request.ticker request.side quantity request.newLimitPrice
      request.orderRef

/-- `replace_order`. -/
def replaceOrder (request : ReplaceRequest) : M OpenOrderSnapshot :=
  withSession settings <|
    (assertConnected settings).bind fun _ =>
    (findOpenPomaTrade settings request.orderId (some (request.ticker, request.side))).bind fun
    | none => raise (.runtimeError
        s!"cannot replace order {request.orderId}: original order is no longer open")
    | some target =>
      if target.filled > 0 then raise (.runtimeError
        s!"cannot replace partially filled order {request.orderId}: avoiding new commission minimum")
      else (askIb (.cancelOrder target)).bind fun _ => finishReplace settings request target

/-- `submit_replacement`: an open order with the reference is returned, not doubled. -/
def submitReplacement (request : ReplacementRequest) : M OpenOrderSnapshot :=
  withSession settings <|
    (assertConnected settings).bind fun _ =>
    refreshedOpenTrades.bind fun trades =>
    match trades.find? (·.orderRef = request.orderRef) with
    | some trade => .ret (snapshotFromTrade trade request.ticker request.side)
    | none => placeLimitOrder settings request.ticker request.side |request.quantity|
        request.newLimitPrice request.orderRef

/-- `_optional_positive_int`. -/
def optionalPositiveInt (value : Option Int) : Option Int := value.filter (· > 0)

/-- The snapshot of one completed trade, hydrated from the session's own trades. -/
def completedSnapshot (wanted : List String) (hydrated : List IbTrade) (completed : IbTrade) :
    Option OpenOrderSnapshot :=
  let trade := ((optionalPositiveInt completed.permId).bind fun permId =>
    hydrated.reverse.find? (·.permId = some permId)).getD completed
  let status := if completed.status ∈ doneStatuses then completed.status else trade.status
  if !(startsWith completed.orderRef (orderRefPrefix ++ ":")) then none
  else if wanted ≠ [] ∧ completed.orderRef ∉ wanted then none
  else if !isOwn settings completed then none
  else if status ∉ doneStatuses then none
  else
    let side : Option OrderSide :=
      if settings.textCase.upper completed.action = "BUY" then some .buy
      else if settings.textCase.upper completed.action = "SELL" then some .sell else none
    -- a Filled status proves the whole quantity even when the executions are gone
    let filled :=
      if status = "Filled" ∧ trade.filledByExecutions ≤ fillTolerance then completed.totalQuantity
      else trade.filledByExecutions
    side.map fun side => {
      orderRef := some completed.orderRef
      orderId := optionalPositiveInt completed.orderId
      permId := optionalPositiveInt completed.permId
      ticker := settings.textCase.upper trade.symbol
      side := side
      rawStatus := status
      filled := filled
      remaining := max (completed.totalQuantity - filled) 0
      avgFillPrice := trade.executionPrice }

/-- The fills of one execution id each, the first report of an id standing for it. -/
def uniqueFills (fills : List IbFill) : List IbFill :=
  fills.foldl (fun kept fill =>
    if kept.any (·.execId = fill.execId) then kept else kept ++ [fill]) []

/-- One entry of `_execution_proven_fills`. -/
def executionProvenFill (executions : List IbFill) (completedRefs : List (Option String))
    (entry : OrderLedgerEntry) : Option OpenOrderSnapshot :=
  match entry.permId.filter (· ≠ 0) with
  | none => none
  | some permId =>
    let fills := executions.filter fun fill => optionalPositiveInt fill.permId = some permId
    let expected := match entry.side with | .buy => "BOT" | .sell => "SLD"
    let contradicts (fill : IbFill) : Bool :=
      settings.textCase.upper fill.symbol ≠ settings.textCase.upper entry.ticker ||
        settings.textCase.upper fill.side ∉ [expected, entry.side.value] ||
        settings.account?.any (fill.account ≠ ·)
    let unique := uniqueFills fills
    let filled := (unique.map (·.shares)).sum
    if entry.replaceCount ≠ 0 ∨ entry.reservedRef.isSome ∨ some entry.orderRef ∈ completedRefs ∨
        entry.quantity ≤ 0 ∨ fills = [] ∨ fills.any contradicts ∨
        fills.any (·.execId = "") ∨ |filled - entry.quantity| > cashTolerance ∨
        unique.any (·.price ≤ 0) then none
    else some {
      orderRef := some entry.orderRef
      orderId := entry.orderId
      permId := entry.permId
      ticker := entry.ticker
      side := entry.side
      rawStatus := "Filled"
      filled := entry.quantity
      remaining := 0
      avgFillPrice := some ((unique.map fun fill => fill.shares * fill.price).sum / filled) }

/-- `_execution_proven_fills`. -/
def executionProvenFills (unresolved : List OrderLedgerEntry) (executions : List IbFill)
    (completedSnapshots : List OpenOrderSnapshot) : List OpenOrderSnapshot :=
  unresolved.filterMap
    (executionProvenFill settings executions (completedSnapshots.map (·.orderRef)))

/-- `fetch_completed_order_snapshots` of the order history, over an open session. -/
def completedOrders (wanted : List String) (unresolved : List OrderLedgerEntry) :
    M (List OpenOrderSnapshot) :=
  (askIb .reqCompletedOrders).attempt.bind fun completed =>
  (askIb .reqExecutions).attempt.bind fun executions =>
  match completed, executions with
  | .error completedError, .error executionError => raise (.runtimeError
      s!"IBKR completed orders AND execution history unavailable; do not infer terminal order state (completed: {completedError.message}; executions: {executionError.message})")
  | completed, executions =>
    (askIb .trades).bind fun (hydrated : List IbTrade) =>
    let completedTrades : List IbTrade := completed.toOption.getD []
    let fills : List IbFill := executions.toOption.getD []
    let snapshots := completedTrades.filterMap (completedSnapshot settings wanted hydrated)
    .ret (snapshots ++ executionProvenFills settings unresolved fills snapshots)

/-- The history query of the manager: its session has no connection check of its own. -/
def fetchCompletedOrderSnapshots (wanted : List String) (unresolved : List OrderLedgerEntry) :
    M (List OpenOrderSnapshot) :=
  (askIb .connect).bind fun _ =>
  (completedOrders settings wanted unresolved).ensuring (askIb .disconnect)

end Ibkr

/-- The broker of a paper or live process; account and market data are read by the environment. -/
def ibkrBroker (settings : Settings) : Broker where
  isIbkr := true
  accountSnapshot := askBroker .accountSnapshot
  submitTrades := Ibkr.submitTrades settings
  fetchOpenOrderSnapshots := Ibkr.fetchOpenOrderSnapshots settings
  executionQuotes tickers := askBroker (.executionQuotes tickers)
  cancelOrder := Ibkr.cancelOrder settings
  replaceOrder := Ibkr.replaceOrder settings
  submitReplacement := some (Ibkr.submitReplacement settings)
  fetchCompletedOrderSnapshots := none
  fetchIbkrCompletedOrderSnapshots := Ibkr.fetchCompletedOrderSnapshots settings

end Poma

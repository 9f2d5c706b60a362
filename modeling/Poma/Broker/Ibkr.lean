import Poma.Engine.Rebalance

/-!
# The IBKR broker

The adapter's methods as programs over requests to the client library. A
session is opened for each method and closed on every exit. Reading a trade
object is a memory read: it never raises, and it can only change where the
client library gets to process messages.
-/

namespace Poma

open Interaction

/-- `DONE_STATUSES`. -/
def doneStatuses : List String := ["Filled", "Cancelled", "ApiCancelled", "Inactive"]

/-- `CANCELLED_STATUSES`. -/
def cancelledStatuses : List String := ["Cancelled", "ApiCancelled"]

/-- `CANCEL_CONFIRM_POLL_SECONDS`. -/
def cancelConfirmPollSeconds : ℚ := 1 / 2

/-- The polls of `_await_terminal_status`: fifteen seconds of half a second. -/
def cancelConfirmPolls : Nat := 30

/-- `status.status or fallback`. -/
def statusOr (status fallback : String) : String := if status = "" then fallback else status

/-- `_none_if_zero`. -/
def noneIfZero (value : Option ℚ) : Option ℚ := value.filter (· ≠ 0)

/-- The configured account, when one is configured. -/
def Settings.account? (settings : Settings) : Option String := settings.ibkrAccount.filter (· ≠ "")

/-- `_manual_result`. -/
def manualResult (proposed : ProposedTrade) (status : String) (message : Option String) :
    OrderResult where
  ticker := proposed.ticker
  side := proposed.side
  quantity := proposed.quantity
  notional := proposed.notional
  orderId := none
  status := status
  filled := 0
  averageFillPrice := none
  message := message
  orderRef := proposed.orderRef

/-- `_order_result`. -/
def orderResult (proposed : ProposedTrade) (trade : IbTrade) (fallbackStatus : String)
    (message : Option String) : OrderResult :=
  let finalStatus := statusOr trade.status fallbackStatus
  { ticker := proposed.ticker
    side := proposed.side
    quantity := proposed.quantity
    notional := proposed.notional
    orderId := trade.orderId
    status := finalStatus
    filled := trade.filled
    averageFillPrice := noneIfZero trade.avgFillPrice
    message :=
      if message = none ∧ finalStatus ∉ acceptedStatuses then trade.logMessage else message
    orderRef := proposed.orderRef
    permId := trade.permId }

/-- `_snapshot_from_trade`. -/
def snapshotFromTrade (trade : IbTrade) (ticker : String) (side : OrderSide) :
    OpenOrderSnapshot where
  orderRef := if trade.orderRef = "" then none else some trade.orderRef
  orderId := trade.orderId
  permId := trade.permId
  ticker := ticker
  side := side
  rawStatus := trade.status
  filled := trade.filled
  remaining := trade.remaining
  avgFillPrice := noneIfZero trade.avgFillPrice

/-- A list of texts as the source writes it into a message. -/
def quotedList (texts : List String) : String :=
  "[" ++ String.intercalate ", " (texts.map fun text => "'" ++ text ++ "'") ++ "]"

/-- The trade as it reads now. -/
def currentTrade (trade : IbTrade) : M IbTrade :=
  (askIb (.readTrade trade)).attempt.bind fun
  | .ok view => .ret view
  | .error _ => .ret trade

/-- `time.monotonic() < deadline`. -/
def withinDeadline : M Bool :=
  (askIb .withinDeadline).attempt.bind fun
  | .ok within => .ret within
  | .error _ => .ret false

/-- `_emit_status`. -/
def emitStatus (callback : Option StatusCallback) (proposed : ProposedTrade)
    (result : OrderResult) : M Unit := notify callback proposed result

/-- `_unsubmitted_results`. -/
def unsubmittedResults (trades : List ProposedTrade) (callback : Option StatusCallback)
    (message : String) : M (List OrderResult) :=
  let result (trade : ProposedTrade) := manualResult trade brokerUnavailableStatus (some message)
  (Prog.forEach (fun trade => notify callback trade (result trade)) trades).bind fun _ =>
  .ret (trades.map result)

/-- `_await_terminal_status`: the trade as it reads after the last poll. -/
def awaitTerminalStatus : Nat → IbTrade → M IbTrade
  | 0, trade => .ret trade
  | polls + 1, trade =>
    (askIb (.sleep cancelConfirmPollSeconds)).bind fun _ =>
    (currentTrade trade).bind fun trade =>
    if trade.status ∈ doneStatuses then .ret trade else awaitTerminalStatus polls trade

/-- The exceptions `_looks_like_connection_failure` recognizes by their text. -/
def Exn.namesConnection (e : Exn) (textCase : TextCase) : Bool :=
  let message := textCase.lower e.message
  containsText message "not connected" || containsText message "connection"

/-- `_looks_like_connection_failure`. -/
def looksLikeConnectionFailure (settings : Settings) : Exn → M Bool
  | .brokerUnavailable _ => .ret true
  | e => (askIb .isConnected).attempt.bind fun
    | .ok connected => .ret (!(connected : Bool) || e.namesConnection settings.textCase)
    | .error _ => .ret true

namespace Ibkr

variable (settings : Settings)

/-- `_assert_connected`. -/
def assertConnected : M Unit :=
  (askIb .isConnected).bind fun (connected : Bool) =>
  if connected then .ret ()
  else raise (.brokerUnavailable
    s!"IBKR API is not connected at {settings.ibkrHost}:{settings.ibkrPort.repr}")

/-- `_connect`. -/
def connect : M Unit :=
  (askIb .connect).bind fun _ =>
  (assertConnected settings).catching fun e => (askIb .disconnect).bind fun _ => raise e

/-- A session around a body, closed on every exit. -/
def withSession {α : Type} (body : M α) : M α :=
  (connect settings).bind fun _ => body.ensuring (askIb .disconnect)

/-- `_assert_ready_for_orders`. -/
def assertReadyForOrders : M Unit :=
  (assertConnected settings).bind fun _ =>
  (askIb .managedAccounts).bind fun (accounts : List String) =>
  let accounts := accounts.filter (· ≠ "")
  let missing := settings.account?.filter (· ∉ accounts)
  match missing with
  | some account => raise (.brokerUnavailable
      s!"configured IBKR_ACCOUNT={account} not in {quotedList accounts}")
  | none =>
    (askIb .reqCurrentTime).bind fun _ =>
    (askIb .probeTradingPermissions).bind fun (probe : Bool × String) =>
    if probe.1 then assertConnected settings else raise (.brokerUnavailable probe.2)

/-- `_build_order`, with the account of the session. -/
def buildOrder (trade : ProposedTrade) : Except Exn IbOrder :=
  let order (limitPrice : Option ℚ) : IbOrder := {
    symbol := trade.ticker
    action := trade.side.value
    totalQuantity := |trade.quantity|
    limitPrice := limitPrice
    tif := settings.orderTimeInForce
    orderRef := trade.ref
    account := settings.account?.getD "" }
  match settings.orderType, trade.limitPrice with
  | .market, _ => .ok (order none)
  | .limit, some limitPrice => .ok (order (some limitPrice))
  | .limit, none => .error (.valueError s!"missing limit price for {trade.ticker}")

/-- The first loop of `_wait_for_acceptance_or_terminal_status`; nothing when the wait ran out. -/
def waitForAcceptance (proposed : ProposedTrade) (callback : Option StatusCallback) :
    Nat → IbTrade → String → M (Except IbTrade OrderResult)
  | 0, trade, _ => .ret (.error trade)
  | polls + 1, trade, lastStatus =>
    withinDeadline.bind fun within =>
    if !within then .ret (.error trade)
    else
      let status := statusOr trade.status lastStatus
      (if status ≠ lastStatus then
        emitStatus callback proposed (orderResult proposed trade status none)
        else .ret ()).bind fun _ =>
      if status ∈ acceptedStatuses then .ret (.ok (orderResult proposed trade status none))
      else if status ∈ doneStatuses then
        let message :=
          if status ≠ "Filled" ∧ trade.filled = 0 then
            trade.logMessage <|> some "order reached terminal status before acceptance"
          else none
        .ret (.ok (orderResult proposed trade status message))
      else
        (askIb (.sleep 1)).bind fun _ =>
        (currentTrade trade).bind fun trade =>
        waitForAcceptance proposed callback polls trade status

/-- The second loop of the wait, after the cancel was requested. -/
def waitForCancel (proposed : ProposedTrade) (callback : Option StatusCallback)
    (cancelMessage : String) : Nat → IbTrade → String → M (Except IbTrade OrderResult)
  | 0, trade, _ => .ret (.error trade)
  | polls + 1, trade, lastStatus =>
    withinDeadline.bind fun within =>
    if !within then .ret (.error trade)
    else
      let status := statusOr trade.status lastStatus
      (if status ≠ lastStatus then
        emitStatus callback proposed (orderResult proposed trade status none)
        else .ret ()).bind fun _ =>
      if status ∈ doneStatuses then
        .ret (.ok (orderResult proposed trade status (some cancelMessage)))
      else
        (askIb (.sleep 1)).bind fun _ =>
        (currentTrade trade).bind fun trade =>
        waitForCancel proposed callback cancelMessage polls trade status

/-- The text of an order that was not accepted in time. -/
def timeoutMessage : String := "order did not reach broker accepted/working status before timeout"

/-- The part of the wait after the time is up. -/
def afterTimeout (proposed : ProposedTrade) (callback : Option StatusCallback) (trade : IbTrade) :
    M OrderResult :=
  if !settings.cancelStaleOrders then
    .ret (orderResult proposed trade orderNotAcceptedStatus (some timeoutMessage))
  else
    let cancelMessage := timeoutMessage ++ "; cancel requested"
    (askIb (.cancelOrder trade)).bind fun _ =>
    (currentTrade trade).bind fun trade =>
    (emitStatus callback proposed
      (orderResult proposed trade "PendingCancel" (some cancelMessage))).bind fun _ =>
    (waitForCancel proposed callback cancelMessage (min 10 settings.orderStatusTimeoutSeconds)
      trade "PendingCancel").bind fun
    | .ok result => .ret result
    | .error trade =>
      .ret (orderResult proposed trade orderNotAcceptedStatus (some timeoutMessage))

/-- `_wait_for_acceptance_or_terminal_status`. -/
def waitForAcceptanceOrTerminalStatus (proposed : ProposedTrade)
    (callback : Option StatusCallback) (trade : IbTrade) : M OrderResult :=
  (waitForAcceptance proposed callback settings.orderStatusTimeoutSeconds trade
    (statusOr trade.status "Submitted")).bind fun
  | .ok result => .ret result
  | .error trade => afterTimeout settings proposed callback trade

/-- What precedes `placeOrder` in a turn of `submit_trades`: nothing is sent yet. -/
def prepareOrder (proposed : ProposedTrade) : M IbOrder :=
  (assertConnected settings).bind fun _ =>
  (askIb (.executionOrderContract proposed.ticker)).bind fun _ =>
  Prog.ofExcept (S := sig) (buildOrder settings proposed)

/-- The text of an outcome that cannot be known. -/
def uncertainMessage (e : Exn) : String :=
  s!"submission outcome uncertain; reconcile before retry: {e.message}"

/-- The exception path after `placeOrder` was called: preserve identity and fail closed. -/
def uncertainSubmission (proposed : ProposedTrade) (submitted : Option IbTrade)
    (callback : Option StatusCallback) (rest : List ProposedTrade) (e : Exn) :
    M (List OrderResult) :=
  (match submitted with
    | some trade => (currentTrade trade).bind fun trade =>
      .ret (orderResult proposed trade submissionUnconfirmedStatus none)
    | none => .ret (manualResult proposed submissionUnconfirmedStatus none)).bind
      fun (known : OrderResult) =>
  let result : OrderResult := { known with
    status := submissionUnconfirmedStatus
    message := some (uncertainMessage e) }
  (emitStatus callback proposed result).bind fun _ =>
  (unsubmittedResults rest callback
    "stopped after uncertain submission; remaining orders not submitted").bind fun unsubmitted =>
  .ret (result :: unsubmitted)

/-- The exception path before `placeOrder`: stop on a lost connection, else report and go on. -/
def failedPreparation (proposed : ProposedTrade) (callback : Option StatusCallback)
    (rest : List ProposedTrade) (e : Exn) (next : M (List OrderResult)) : M (List OrderResult) :=
  (looksLikeConnectionFailure settings e).bind fun lost =>
  if lost then
    unsubmittedResults (proposed :: rest) callback
      s!"broker connection lost before order acceptance; no further orders submitted: {e.message}"
  else
    let result := manualResult proposed "Failed" (some s!"order not accepted by broker: {e.message}")
    (emitStatus callback proposed result).bind fun _ =>
    next.bind fun results => .ret (result :: results)

/-- What follows an accepted or refused order: go on, or stop after too many refusals. -/
def afterResult (proposed : ProposedTrade) (submitted : IbTrade)
    (callback : Option StatusCallback) (rest : List ProposedTrade) (failures : Nat)
    (result : OrderResult) (next : Nat → M (List OrderResult)) : M (List OrderResult) :=
  if result.status ∈ acceptedStatuses ∨ result.filled > 0 then
    (next 0).bind fun results => .ret (result :: results)
  else if failures + 1 ≥ settings.maxConsecutiveOrderAcceptanceFailures then
    if rest = [] then .ret [result]
    else (unsubmittedResults rest callback
        s!"stopped after {(failures + 1).repr} consecutive orders were not accepted by IBKR; no further orders submitted").attempt.bind
      fun
      | .ok unsubmitted => .ret (result :: unsubmitted)
      | .error e =>
        (uncertainSubmission proposed (some submitted) callback rest e).bind fun results =>
        .ret (result :: results)
  else (next (failures + 1)).bind fun results => .ret (result :: results)

/-- One turn of the loop of `submit_trades` from `placeOrder` on. -/
def placeTrade (proposed : ProposedTrade) (order : IbOrder) (callback : Option StatusCallback)
    (rest : List ProposedTrade) (failures : Nat) (next : Nat → M (List OrderResult)) :
    M (List OrderResult) :=
  (askIb (.placeOrder order)).attempt.bind fun
  | .error e => uncertainSubmission proposed none callback rest e
  | .ok (submitted : IbTrade) =>
    ((emitStatus callback proposed
      (orderResult proposed submitted "Submitted" (some "order submitted"))).bind fun _ =>
      waitForAcceptanceOrTerminalStatus settings proposed callback submitted).attempt.bind fun
    | .error e => uncertainSubmission proposed (some submitted) callback rest e
    | .ok result => afterResult settings proposed submitted callback rest failures result next

/-- The loop of `submit_trades`. -/
def submitLoop (callback : Option StatusCallback) :
    List ProposedTrade → Nat → M (List OrderResult)
  | [], _ => .ret []
  | proposed :: rest, failures =>
    (prepareOrder settings proposed).attempt.bind fun
    | .error e =>
      failedPreparation settings proposed callback rest e (submitLoop callback rest failures)
    | .ok order => placeTrade settings proposed order callback rest failures
        (submitLoop callback rest)

/-- `submit_trades`. -/
def submitTrades (trades : List ProposedTrade) (callback : Option StatusCallback) :
    M (List OrderResult) :=
  let unavailable (e : Exn) : M (List OrderResult) := unsubmittedResults trades callback
    s!"broker unavailable before submitting orders; no orders submitted: {e.message}"
  if trades = [] then .ret []
  else (connect settings).attempt.bind fun
    | .error e => unavailable e
    | .ok _ => (assertReadyForOrders settings).attempt.bind fun
      | .error e => (askIb .disconnect).bind fun _ => unavailable e
      | .ok _ => (submitLoop settings callback trades 0).ensuring (askIb .disconnect)

end Ibkr

end Poma

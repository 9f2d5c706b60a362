import Poma.Broker.Protocol
import Poma.Execution.Pricing

/-!
# Staged submission

Sells go out before buys, every trade under a stable order reference. A trade
whose ledger row may already be at the broker is answered by a replay; the
others are recorded as planned, repriced, recorded as unconfirmed and handed to
the broker. Buys are fitted to the cash the broker reports after the sells.
-/

namespace Poma

open Interaction

/-- A dictionary as the list of its items, the newest value of a key in front. -/
abbrev Dict (α : Type) : Type := List (String × α)

/-- `d[key] = value`. -/
def Dict.put {α : Type} (d : Dict α) (key : String) (value : α) : Dict α :=
  (key, value) :: d.filter (·.1 ≠ key)

/-- `del d[key]`. -/
def Dict.del {α : Type} (d : Dict α) (key : String) : Except Exn (Dict α) :=
  if d.any (·.1 = key) then .ok (d.filter (·.1 ≠ key)) else .error (.other "KeyError")

/-- `_RETRYABLE_PRE_ACCEPTANCE_STATUSES`. -/
def retryablePreAcceptanceStatuses : List String :=
  [executionQuoteBlockedStatus, buyingPowerBlockedStatus, brokerUnavailableStatus,
    orderNotAcceptedStatus]

/-- The durable uncertainty recorded before the network boundary. -/
def submissionUnconfirmedStatus : String := "SubmissionUnconfirmed"

/-- `EXECUTION_QUOTE_RETRY_DELAYS_SECONDS`. -/
def executionQuoteRetryDelaysSeconds : List ℚ := [5, 10, 20]

/-- `EXECUTION_QUOTE_ATTEMPTS`. -/
def executionQuoteAttempts : Nat := executionQuoteRetryDelaysSeconds.length + 1

/-- `MAX_BUY_TRIM_FRACTION`. -/
def maxBuyTrimFraction : ℚ := 1 / 20

/-- The order reference of a tagged trade. -/
def ProposedTrade.ref (trade : ProposedTrade) : String := trade.orderRef.getD ""

/-- The trades of a plan that sell. -/
def RebalancePlan.sells (plan : RebalancePlan) : List ProposedTrade :=
  plan.trades.filter (·.side = .sell)

/-- The trades of a plan that buy. -/
def RebalancePlan.buys (plan : RebalancePlan) : List ProposedTrade :=
  plan.trades.filter (·.side = .buy)

/-- `self`: the broker and the settings; the ledger is read and recorded by operations. -/
structure ExecutionManager where
  broker : Broker
  settings : Settings

/-- The reference of a trade: its first ledger key in the run, or one by its position. -/
def tagRef (store : OrderStore) (runId : String) (index : Nat) (trade : ProposedTrade) : String :=
  match store.getLatestRunTrades runId trade.ticker trade.side with
  | some prior => prior.ledgerKey
  | none => buildOrderRef runId index trade.ticker trade.side

/-- The loop of `_tag` over a ledger already read. -/
def tagTrades (store : OrderStore) (runId : String) (offset : Nat) (trades : List ProposedTrade) :
    List ProposedTrade :=
  trades.mapIdx fun index trade =>
    { trade with orderRef := some (tagRef store runId (offset + index) trade) }

/-- `_tag`. -/
def tag (runId : String) (trades : List ProposedTrade) (offset : Nat) : M (List ProposedTrade) :=
  loadLatest.bind fun store => .ret (tagTrades store runId offset trades)

/-- The row recorded for a trade of a plan before anything is known of its order. -/
def plannedEntry (plan : RebalancePlan) (trade : ProposedTrade) : OrderLedgerEntry where
  ledgerKey := trade.ref
  orderRef := trade.ref
  runId := plan.runId
  sessionDate := plan.sessionDate
  ticker := trade.ticker
  side := trade.side
  quantity := trade.quantity
  limitPrice := trade.limitPrice
  referencePrice := some trade.referencePrice
  referencePriceSource := some trade.referencePriceSource
  referencePriceBasis := some trade.referencePriceBasis
  referencePriceAsOfUtc := trade.referencePriceAsOfUtc
  quoteAgeSeconds := trade.quoteAgeSeconds
  quoteSpreadBps := trade.quoteSpreadBps
  lifecycleState := .planned

/-- `_record_planned`. -/
def recordPlanned (plan : RebalancePlan) (trade : ProposedTrade) : M Unit :=
  upsertEntry (plannedEntry plan trade)

/-- `_record_result`: only an open row is updated, any other result starts a row. -/
def recordResult (plan : RebalancePlan) (trade : ProposedTrade) (result : OrderResult) : M Unit :=
  loadLatest.bind fun store =>
  let entry := (store.get trade.ref).getD (plannedEntry plan trade)
  utcNow.bind fun now => upsertEntry (entry.withOrderResult result now)

/-- `_wrap_callback`. -/
def wrapCallback (plan : RebalancePlan) (statusCallback : Option StatusCallback) :
    StatusCallback := fun trade result =>
  (recordResult plan trade result).bind fun _ =>
  match statusCallback with
  | some callback => callback trade result
  | none => .ret ()

/-- `if status_callback is not None: status_callback(trade, result)`. -/
def notify (statusCallback : Option StatusCallback) (trade : ProposedTrade) (result : OrderResult) :
    M Unit :=
  match statusCallback with
  | some callback => callback trade result
  | none => .ret ()

theorem meets_notify {rely : (o : Op) → Except Exn o.Ans → Prop} {guarantee : Op → Prop}
    {reported : Bool} {trade : ProposedTrade} {result : OrderResult}
    (h : guarantee (.statusCallback trade result)) :
    (notify (callbackOf reported) trade result).Meets (S := sig) rely guarantee fun _ => True := by
  cases reported with
  | false => trivial
  | true => exact (Prog.meets_perform (S := sig) h).mono (fun _ ho => ho) fun _ _ => trivial

/-- Whether a ledger row leaves its trade free to be sent. -/
def OrderLedgerEntry.sendable (entry : OrderLedgerEntry) : Bool :=
  entry.lifecycleState = .planned ∨
    (entry.rawStatus ∈ retryablePreAcceptanceStatuses ∧ entry.orderId = none ∧ entry.Unfilled)

/-- The outcome of an earlier attempt, as a replay repeats it. -/
def OrderLedgerEntry.earlierOutcome (entry : OrderLedgerEntry) : String :=
  let earlier := if entry.rawStatus = "" then entry.lifecycleState.value else entry.rawStatus
  match entry.terminalReason with
  | some reason => if reason = "" then earlier else earlier ++ ": " ++ reason
  | none => earlier

/-- `_idempotent_replay`. -/
def idempotentReplay (trade : ProposedTrade) (latestByRef : List OrderLedgerEntry) :
    Option OrderResult :=
  match latestByRef.find? (·.ledgerKey = trade.ref) with
  | none => none
  | some entry =>
    if entry.sendable then none
    else some {
      ticker := trade.ticker
      side := trade.side
      quantity := trade.quantity
      notional := trade.notional
      orderId := entry.orderId
      status := idempotentReplayStatus
      filled := entry.filledQty
      averageFillPrice := entry.avgFillPrice
      message := some s!"orderRef {trade.ref} already {entry.lifecycleState.value} from an earlier attempt of this run ({entry.earlierOutcome}); not resubmitted"
      orderRef := trade.orderRef
      permId := entry.permId }

/-- `_plan_phase`: the trades left to send, with the replays added to the results. -/
def planPhase (plan : RebalancePlan) (statusCallback : Option StatusCallback)
    (latestByRef : List OrderLedgerEntry) :
    List ProposedTrade → Dict OrderResult → M (List ProposedTrade × Dict OrderResult)
  | [], results => .ret ([], results)
  | trade :: rest, results =>
    match idempotentReplay trade latestByRef with
    | some replay =>
      (notify statusCallback trade replay).bind fun _ =>
      planPhase plan statusCallback latestByRef rest (Dict.put results trade.ticker replay)
    | none =>
      (recordPlanned plan trade).bind fun _ =>
      (planPhase plan statusCallback latestByRef rest results).bind fun (fresh, results) =>
      .ret (trade :: fresh, results)

/-- `_blocked_result`. -/
def blockedResult (trade : ProposedTrade) (status message : String) : OrderResult where
  ticker := trade.ticker
  side := trade.side
  quantity := trade.quantity
  notional := trade.notional
  orderId := none
  status := status
  filled := 0
  averageFillPrice := none
  message := some message
  orderRef := trade.orderRef

/-- The sum of `buy_cash_required_usd` over a list of trades. -/
def buyCashRequired (trades : List ProposedTrade) : ℚ :=
  (trades.map ProposedTrade.buyCashRequiredUsd).sum

/-- Indices of the buys by decreasing cash requirement, earlier buys first among equals. -/
def trimOrder (buys : List ProposedTrade) : List Nat :=
  let cash (i : Nat) : ℚ := (buys[i]?.map ProposedTrade.buyCashRequiredUsd).getD 0
  (List.range buys.length).insertionSort fun i j => cash i ≥ cash j

/-- What one turn of `_trim_buys_to_cash` cuts off a buy, in shares. -/
def trimCut (rule : InstrumentExecutionRule) (quantity unitCash shortfall : ℚ) : ℚ :=
  let cut := min (shortfall / unitCash) quantity
  if rule.quantityIncrement > 0 then
    ⌈cut / rule.quantityIncrement - fillTolerance⌉ * rule.quantityIncrement
  else cut

/-- The loop of `_trim_buys_to_cash`; no result when a buy would fall below its minimum. -/
def trimLoop (rules : ExecutionRules) :
    List Nat → List ProposedTrade → ℚ → Except Exn (Option (List ProposedTrade))
  | [], trimmed, shortfall => .ok (if shortfall ≤ cashTolerance then some trimmed else none)
  | index :: order, trimmed, shortfall =>
    if shortfall ≤ cashTolerance then .ok (some trimmed)
    else match trimmed[index]? with
      | none => .error (.other "IndexError")
      | some trade =>
        let unitCash := trade.buyCashRequiredUsd / trade.quantity
        if trade.quantity = 0 ∨ unitCash = 0 then .error (.other "float division by zero")
        else
          let rule := resolveExecutionRule trade.ticker rules
          let cut := trimCut rule trade.quantity unitCash shortfall
          let quantity := trade.quantity - cut
          if quantity ≤ fillTolerance ∨ quantity < rule.minQuantity then .ok none
          else trimLoop rules order
            (trimmed.set index
              { trade with quantity := quantity, notional := quantity * trade.referencePrice })
            (shortfall - cut * unitCash)

/-- `_trim_buys_to_cash`. -/
def trimBuysToCash (buys : List ProposedTrade) (cash : ℚ) (settings : Settings) :
    Except Exn (Option (List ProposedTrade)) :=
  trimLoop settings.executionRules (trimOrder buys) buys (buyCashRequired buys - cash)

/-- Why buys are held back when the refreshed cash does not cover them. -/
def uncoveredReason (cash required : ℚ) : String :=
  s!"refreshed broker cash (${formatDollars cash}) does not cover planned buy limit cash requirement (${formatDollars required}) after execution repricing; unfilled sells are not assumed to provide buying power"

namespace ExecutionManager

variable (self : ExecutionManager)

/-- `_fit_buys_to_refreshed_cash`: the buys to send, or why none may go. -/
def fitBuysToRefreshedCash (buys : List ProposedTrade) :
    M (List ProposedTrade × Option String) :=
  let required := buyCashRequired buys
  if required ≤ fillTolerance then .ret (buys, none)
  else self.broker.accountSnapshot.attempt.bind fun
    | .error exc => .ret (buys, some s!"unable to refresh broker cash before submitting buys; block buys: {exc.message}")
    | .ok refreshed => match refreshed.cashUsd with
      | .finite cash =>
        if cash + cashTolerance ≥ required then .ret (buys, none)
        else if required - cash > maxBuyTrimFraction * required then
          .ret (buys, some (uncoveredReason cash required))
        else (Prog.ofExcept (S := sig) (trimBuysToCash buys cash self.settings)).bind fun
          | some trimmed =>
            if trimmed = [] then .ret (buys, some (uncoveredReason cash required))
            else .ret (trimmed, none)
          | none => .ret (buys, some (uncoveredReason cash required))
      | _ => .ret (buys, some "broker returned non-finite cash; block buys")

end ExecutionManager

/-- `_note_quote_warnings`. -/
def noteQuoteWarnings (trades : List ProposedTrade) (accepted : Dict ProposedTrade)
    (warnings : List String) (warningByTicker : Dict String) (ending : String) : Dict String :=
  trades.foldl (fun noted trade =>
    if accepted.any (·.1 = trade.ticker) then noted
    else
      let reason := (warnings.find? (mentionsSymbol · trade.ticker)).getD
        "execution quote check failed; block execution"
      Dict.put noted trade.ticker (reason ++ ending)) warningByTicker

/-- What `_reprice_for_execution` keeps between its quote attempts. -/
structure RepriceState where
  pending : List ProposedTrade
  repricedByTicker : Dict ProposedTrade := []
  warningByTicker : Dict String := []
  unresolvedTickers : List String := []
  quotedOnAttempt : Dict Nat := []

/-- What one batch of quotes adds to the state of the repricing. -/
def RepriceState.quoted (state : RepriceState) (attempt : Nat)
    (quotes : List (String × ExecutionQuote)) (repriced : List ProposedTrade)
    (warnings : List String) : RepriceState :=
  let repricedByTicker :=
    repriced.foldl (fun d updated => Dict.put d updated.ticker updated) state.repricedByTicker
  let unresolvedTickers := state.unresolvedTickers ++
    (quotes.filter fun item => item.2.contractUnresolved).map (·.1)
  { pending := state.pending.filter fun trade =>
      !(repricedByTicker.any (·.1 = trade.ticker)) && trade.ticker ∉ unresolvedTickers
    repricedByTicker := repricedByTicker
    warningByTicker :=
      noteQuoteWarnings state.pending repricedByTicker warnings state.warningByTicker ""
    unresolvedTickers := unresolvedTickers
    quotedOnAttempt :=
      repriced.foldl (fun d updated => Dict.put d updated.ticker attempt) state.quotedOnAttempt }

/-- Take the refreshed trades over; a trade the refresh dropped is no longer repriced. -/
def takeRefreshed (originals : List ProposedTrade) (refreshed : Dict ProposedTrade) :
    Dict ProposedTrade → Except Exn (Dict ProposedTrade) :=
  originals.foldlM fun repricedByTicker trade =>
    match refreshed.lookup trade.ticker with
    | some updated => .ok (Dict.put repricedByTicker trade.ticker updated)
    | none => Dict.del repricedByTicker trade.ticker

namespace ExecutionManager

variable (self : ExecutionManager)

/-- The quote attempts of `_reprice_for_execution`; no delay after the final one. -/
def quoteAttempts : List ℚ → Nat → RepriceState → M (RepriceState × Nat)
  | delays, attempt, state =>
    (self.broker.executionQuotes (state.pending.map (·.ticker))).bind fun quotes =>
    (Prog.ofExcept (S := sig) (applyExecutionQuotes state.pending quotes self.settings
      self.settings.executionRules (delays = []))).bind fun (repriced, warnings) =>
    let state := state.quoted attempt quotes repriced warnings
    match delays with
    | [] => .ret (state, attempt)
    | delay :: delays =>
      if state.pending = [] then .ret (state, attempt)
      else (sleepFor delay).bind fun _ => quoteAttempts delays (attempt + 1) state

/-- The pre-submit refresh of the trades whose quote is older than the last attempt. -/
def refreshQuotes (trades : List ProposedTrade) (state : RepriceState) (attempt : Nat) :
    M RepriceState :=
  let originals := trades.filter fun trade =>
    (state.quotedOnAttempt.lookup trade.ticker).getD attempt < attempt
  if originals = [] then .ret state
  else
    (self.broker.executionQuotes (originals.map (·.ticker))).bind fun quotes =>
    (Prog.ofExcept (S := sig) (applyExecutionQuotes originals quotes self.settings
      self.settings.executionRules true)).bind fun (repriced, warnings) =>
    let refreshed : Dict ProposedTrade :=
      repriced.foldl (fun d trade => Dict.put d trade.ticker trade) []
    (Prog.ofExcept (S := sig) (takeRefreshed originals refreshed state.repricedByTicker)).bind
      fun repricedByTicker => .ret { state with
        repricedByTicker := repricedByTicker
        warningByTicker := noteQuoteWarnings originals refreshed warnings state.warningByTicker
          " on pre-submit refresh" }

/-- The last loop of `_reprice_for_execution`: record what may go, and block the rest. -/
def recordRepriced (plan : RebalancePlan) (statusCallback : Option StatusCallback)
    (state : RepriceState) :
    List ProposedTrade → M (List ProposedTrade × List (ProposedTrade × OrderResult))
  | [] => .ret ([], [])
  | trade :: rest =>
    match state.repricedByTicker.lookup trade.ticker with
    | some updated =>
      (recordPlanned plan updated).bind fun _ =>
      (recordRepriced plan statusCallback state rest).bind fun (submittable, blocked) =>
      .ret (updated :: submittable, blocked)
    | none =>
      let reason := (state.warningByTicker.lookup trade.ticker).getD
        "execution quote check failed; block execution"
      let result :=
        if trade.ticker ∈ state.unresolvedTickers then
          blockedResult trade contractUnresolvedStatus reason
        else blockedResult trade executionQuoteBlockedStatus
          s!"{reason} after {executionQuoteAttempts.repr} quote attempts"
      (recordResult plan trade result).bind fun _ =>
      (notify statusCallback trade result).bind fun _ =>
      (recordRepriced plan statusCallback state rest).bind fun (submittable, blocked) =>
      .ret (submittable, (trade, result) :: blocked)

/-- `_reprice_for_execution`. -/
def repriceForExecution (plan : RebalancePlan) (trades : List ProposedTrade)
    (statusCallback : Option StatusCallback) :
    M (List ProposedTrade × List (ProposedTrade × OrderResult)) :=
  if self.settings.executionPriceSource ≠ .ibkr ∨ trades = [] then .ret (trades, [])
  else
    (self.quoteAttempts executionQuoteRetryDelaysSeconds 1 { pending := trades }).bind
      fun (state, attempt) =>
    (self.refreshQuotes trades state attempt).bind fun state =>
    recordRepriced plan statusCallback state trades

/-- Put every blocked result under its ticker. -/
def putResults (results : Dict OrderResult) (blocked : List (ProposedTrade × OrderResult)) :
    Dict OrderResult :=
  blocked.foldl (fun d item => Dict.put d item.1.ticker item.2) results

/-- Hand repriced trades to the broker and record what it answers. -/
def sendTrades (plan : RebalancePlan) (submittable : List ProposedTrade)
    (statusCallback : Option StatusCallback) (results : Dict OrderResult) :
    M (Dict OrderResult) :=
  if submittable = [] then .ret results
  else
    -- the durable uncertainty of every trade precedes the network boundary
    (Prog.forEach (fun trade => recordResult plan trade
      (blockedResult trade submissionUnconfirmedStatus
        "submission started; broker outcome requires reconciliation")) submittable).bind fun _ =>
    (self.broker.submitTrades submittable (some (wrapCallback plan statusCallback))).bind
      fun phaseResults =>
    let pairs := submittable.zip phaseResults
    (Prog.forEach (fun (trade, result) => recordResult plan trade result) pairs).bind fun _ =>
    -- the strict zip raises only once the shorter list is used up
    if submittable.length = phaseResults.length then .ret (putResults results pairs)
    else raise (.valueError "zip() arguments differ in length")

/-- `_submit_phase`. -/
def submitPhase (plan : RebalancePlan) (trades : List ProposedTrade)
    (statusCallback : Option StatusCallback) (reprice : Bool) (results : Dict OrderResult) :
    M (Dict OrderResult) :=
  if trades = [] then .ret results
  else
    (if reprice then self.repriceForExecution plan trades statusCallback
      else .ret (trades, [])).bind fun (submittable, blocked) =>
    self.sendTrades plan submittable statusCallback (putResults results blocked)

/-- Record and report buys that the refreshed cash does not cover. -/
def blockBuys (plan : RebalancePlan) (statusCallback : Option StatusCallback) (reason : String) :
    List ProposedTrade → Dict OrderResult → M (Dict OrderResult)
  | [], results => .ret results
  | trade :: rest, results =>
    let result := blockedResult trade buyingPowerBlockedStatus reason
    (recordResult plan trade result).bind fun _ =>
    (notify statusCallback trade result).bind fun _ =>
    blockBuys plan statusCallback reason rest (Dict.put results trade.ticker result)

/-- The buy phase of `submit_plan`: reprice, fit to the refreshed cash, send or block. -/
def buyPhase (plan : RebalancePlan) (freshBuys : List ProposedTrade)
    (statusCallback : Option StatusCallback) (results : Dict OrderResult) :
    M (Dict OrderResult) :=
  if freshBuys = [] then .ret results
  else
    (self.repriceForExecution plan freshBuys statusCallback).bind fun (repriced, blocked) =>
    let results := putResults results blocked
    (self.fitBuysToRefreshedCash repriced).bind fun
      | (buys, some reason) => blockBuys plan statusCallback reason buys results
      | (buys, none) => self.submitPhase plan buys statusCallback false results

/-- `[results_by_ticker[trade.ticker] for trade in plan.trades]`. -/
def collectResults (results : Dict OrderResult) (trades : List ProposedTrade) :
    Except Exn (List OrderResult) :=
  trades.mapM fun trade => match results.lookup trade.ticker with
    | some result => .ok result
    | none => .error (.other "KeyError")

/-- `submit_plan`. -/
def submitPlan (plan : RebalancePlan) (statusCallback : Option StatusCallback) :
    M (List OrderResult) :=
  (tag plan.runId plan.sells 0).bind fun taggedSells =>
  (tag plan.runId plan.buys plan.sells.length).bind fun taggedBuys =>
  loadLatest.bind fun store =>
  let latestByRef := store.getLatestMany ((taggedSells ++ taggedBuys).map (·.ref))
  (planPhase plan statusCallback latestByRef taggedSells []).bind fun (freshSells, results) =>
  (planPhase plan statusCallback latestByRef taggedBuys results).bind fun (freshBuys, results) =>
  (self.submitPhase plan freshSells statusCallback true results).bind fun results =>
  (self.buyPhase plan freshBuys statusCallback results).bind fun results =>
  Prog.ofExcept (S := sig) (collectResults results plan.trades)

end ExecutionManager

end Poma

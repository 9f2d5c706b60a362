import Poma.Core.Numerals
import Poma.Models.Lifecycle
import Poma.Numeric.Groups

/-!
# The audit of execution costs

Rows of an execution report are read into fills, one for each execution id, the
fills of each order reference are added up, and the orders of each pricing plan
once more. A fee that one fill does not report is unknown for its order and for
the plan of its order.
-/

namespace Poma

/-- A row of the report: the columns that have a value. -/
abbrev ReportRow : Type := List (String × String)

/-- `ExecutionFill`. -/
structure ExecutionFill where
  executionId : String
  orderRef : String
  symbol : String
  side : String
  shares : ℚ
  priceUsd : ℚ
  commissionUsd : Option ℚ
  exchangeFeesUsd : Option ℚ
  pricingPlan : String
  routing : String
  executedAtUtc : String
  deriving DecidableEq

/-- `OrderExecutionCost`. -/
structure OrderExecutionCost where
  orderRef : String
  symbol : String
  side : String
  fills : Nat
  shares : ℚ
  averagePriceUsd : ℚ
  notionalUsd : ℚ
  commissionUsd : Option ℚ
  exchangeFeesUsd : Option ℚ
  reportedBrokerFeesUsd : Option ℚ
  reportedFeeBps : Option ℚ
  capturedQuoteSpreadBps : Option ℚ
  signedPriceSlippageBps : Option ℚ
  signedPriceSlippageUsd : Option ℚ
  pricingPlan : String
  routing : String
  ledgerMatched : Bool
  warning : String
  deriving DecidableEq

/-- What `plan_summary` says of one plan. -/
structure PlanCosts where
  orders : Nat
  reportedFeeBps : Option ℚ
  referenceSlippageBps : Option ℚ
  notionalUsd : ℚ
  reportedCommissionUsd : Option ℚ
  reportedBrokerFeesUsd : Option ℚ
  ordersWithMissingFees : Nat
  deriving DecidableEq

/-- `_column`. -/
def column (row : ReportRow) : List String → String
  | [] => ""
  | name :: names =>
    let value := strip ((row.lookup name).getD "")
    if value = "" then column row names else value

/-- `_number`, without the line its errors begin with. -/
def readNumber (raw field : String) (required : Bool) : Except String (Option ℚ) :=
  if raw = "" then
    if required then .error s!"{field} is required" else .ok none
  else match readFloat raw with
    | none => .error s!"invalid {field}: {reprText raw}"
    | some (.finite number) => .ok (some number)
    | some _ => .error s!"{field} must be finite"

/-- `{"BOT": "BUY", "SLD": "SELL"}.get(side, side)`. -/
def tradeSide (side : String) : String :=
  if side = "BOT" then "BUY" else if side = "SLD" then "SELL" else side

/-- The fill of one row, without the line its errors begin with. -/
def readFill (textCase : TextCase) (row : ReportRow) : Except String ExecutionFill := do
  let executionId := column row ["execution_id"]
  let orderRef := column row ["order_ref"]
  let symbol := textCase.upper (column row ["symbol"])
  let side := tradeSide (textCase.upper (column row ["side"]))
  if executionId = "" ∨ orderRef = "" ∨ symbol = "" ∨ side ∉ ["BUY", "SELL"] then
    throw "execution_id, order_ref, symbol and BUY/SELL side are required"
  let shares := (← readNumber (column row ["shares"]) "shares" true).getD 0
  let price := (← readNumber (column row ["price_usd"]) "price_usd" true).getD 0
  if shares ≤ 0 ∨ price ≤ 0 then throw "shares and price_usd must be positive"
  let commission ← readNumber (column row ["commission_usd"]) "commission_usd" false
  let exchangeFees ← readNumber (column row ["exchange_fees_usd"]) "exchange_fees_usd" false
  let plan := if column row ["pricing_plan"] = "" then "unknown"
    else textCase.lower (column row ["pricing_plan"])
  let routing := if column row ["routing"] = "" then "UNKNOWN"
    else textCase.upper (column row ["routing"])
  if plan ∉ ["fixed", "tiered", "unknown"] then
    throw "pricing_plan must be fixed, tiered or unknown"
  if routing ∉ ["SMART", "DIRECTED", "UNKNOWN"] then
    throw "routing must be SMART, DIRECTED or UNKNOWN"
  return ⟨executionId, orderRef, symbol, side, shares, price, commission, exchangeFees, plan,
    routing, column row ["executed_at_utc"]⟩

/-- Take a fill up, unless its execution id is taken by another one. -/
def takeFill (fills : List ExecutionFill) (fill : ExecutionFill) :
    Except String (List ExecutionFill) :=
  match fills.find? (·.executionId = fill.executionId) with
  | some known =>
    if known = fill then .ok fills
    else .error s!"conflicting duplicate execution_id {reprText fill.executionId}"
  | none => .ok (fills ++ [fill])

/-- The loop of `read_execution_fills`, from a line and with the fills read so far. -/
def readRows (textCase : TextCase) :
    Nat → List ExecutionFill → List ReportRow → Except String (List ExecutionFill)
  | _, fills, [] => .ok fills
  | line, fills, row :: rows =>
    match (readFill textCase row).bind (takeFill fills) with
    | .error message => .error s!"row {line}: {message}"
    | .ok fills => readRows textCase (line + 1) fills rows

/-- The columns a report needs. -/
def requiredColumns : List String :=
  ["execution_id", "order_ref", "price_usd", "shares", "side", "symbol"]

/-- `read_execution_fills`, on the columns and the rows of a file. -/
def readExecutionFills (textCase : TextCase) (fieldnames : List String) (rows : List ReportRow) :
    Except String (List ExecutionFill) :=
  if ∀ name ∈ requiredColumns, name ∈ fieldnames then readRows textCase 2 [] rows
  else .error ("execution CSV requires columns: " ++ String.intercalate ", " requiredColumns)

/-- The references of a ledger entry, in the order they are entered. -/
def entryRefs (entry : OrderLedgerEntry) : List String :=
  [entry.ledgerKey, entry.orderRef] ++ entry.reservedRef.toList

/-- `_ledger_by_ref`, read at one reference: the entry that enters it last. -/
def ledgerByRef (entries : List (String × OrderLedgerEntry)) (ref : String) :
    Option OrderLedgerEntry :=
  ((entries.map (·.2)).filter fun entry => ref ∈ entryRefs entry).getLast?

/-- The sum of what the fills report. -/
def knownSum {α : Type} (value : α → Option ℚ) (items : List α) : ℚ :=
  (items.filterMap value).sum

/-- A total that is known when every part is. -/
def knownTotal {α : Type} (value : α → Option ℚ) (items : List α) : Option ℚ :=
  if ∀ item ∈ items, (value item).isSome then some (knownSum value items) else none

/-- The part of an entry's quote: only of the order that the entry stands for now. -/
def quotedEntry (entry : Option OrderLedgerEntry) (orderRef : String) : Option OrderLedgerEntry :=
  entry.filter fun entry => orderRef = entry.orderRef && entry.referencePriceSource = some "ibkr"

/-- The warnings of one order's report. -/
def costWarnings (commission exchangeFees : Option ℚ) (routing plan : String) (quoted : Bool) :
    List String :=
  (if commission = none then ["commission missing"] else []) ++
    (if exchangeFees = none then ["exchange/third-party fees not separately reported"] else []) ++
    (if routing = "DIRECTED" ∧ plan = "tiered" then
      ["directed API execution is not Tiered-eligible; verify effective IBKR rate"] else []) ++
    (if quoted then [] else ["no matching pre-submit quote for slippage"])

/-- The fields the fills of one order share. -/
def ExecutionFill.terms (fill : ExecutionFill) : String × String × String × String :=
  (fill.symbol, fill.side, fill.pricingPlan, fill.routing)

/-- What `analyze_execution_costs` makes of the fills of one order. -/
def orderCost (entries : List (String × OrderLedgerEntry)) (orderRef : String)
    (rows : List ExecutionFill) : Except String OrderExecutionCost :=
  match rows.head? with
  | none => .error "list index out of range"
  | some first =>
    let shares := (rows.map (·.shares)).sum
    let notional := (rows.map fun fill => fill.shares * fill.priceUsd).sum
    let price := notional / shares
    let commission := knownTotal (·.commissionUsd) rows
    let exchangeFees := knownTotal (·.exchangeFeesUsd) rows
    let brokerFees := commission.bind fun commission => exchangeFees.map (commission + ·)
    let entry := ledgerByRef entries orderRef
    let quoted := quotedEntry entry orderRef
    let reference := (quoted.bind (·.referencePrice)).filter (0 < ·)
    let sign : ℚ := if first.side = "BUY" then 1 else -1
    if rows.any (·.terms ≠ first.terms) then
      .error s!"{orderRef}: fills disagree on symbol, side, plan or routing"
    else if shares = 0 then .error "float division by zero"
    else if brokerFees.isSome ∧ notional = 0 then .error "float division by zero"
    else .ok
      { orderRef := orderRef
        symbol := first.symbol
        side := first.side
        fills := rows.length
        shares := shares
        averagePriceUsd := price
        notionalUsd := notional
        commissionUsd := commission
        exchangeFeesUsd := exchangeFees
        reportedBrokerFeesUsd := brokerFees
        reportedFeeBps := brokerFees.map fun fees => fees / notional * 10000
        capturedQuoteSpreadBps := quoted.bind (·.quoteSpreadBps)
        signedPriceSlippageBps :=
          reference.map fun reference => sign * (price - reference) / reference * 10000
        signedPriceSlippageUsd := reference.map fun reference => sign * (price - reference) * shares
        pricingPlan := first.pricingPlan
        routing := first.routing
        ledgerMatched := entry.isSome
        warning := String.intercalate "; "
          (costWarnings commission exchangeFees first.routing first.pricingPlan quoted.isSome) }

/-- The fills of orders with a reference of this program. -/
def pomaFills (fills : List ExecutionFill) : List ExecutionFill :=
  fills.filter fun fill => startsWith fill.orderRef "poma:"

/-- `analyze_execution_costs`. -/
def analyzeExecutionCosts (fills : List ExecutionFill) (entries : List (String × OrderLedgerEntry)) :
    Except String (List OrderExecutionCost) :=
  (sortedKeys ExecutionFill.orderRef (pomaFills fills)).mapM fun orderRef =>
    orderCost entries orderRef ((pomaFills fills).filter (·.orderRef = orderRef))

/-- A total over the notional, in basis points; none over a notional that is not positive. -/
def overNotional (total : Option ℚ) (notional : ℚ) : Option ℚ :=
  if 0 < notional then total.map fun total => total / notional * 10000 else none

/-- `plan_summary`, of the orders of one plan. -/
def planCosts (items : List OrderExecutionCost) : PlanCosts :=
  let notional := (items.map (·.notionalUsd)).sum
  let brokerFees := knownTotal (·.reportedBrokerFeesUsd) items
  { orders := items.length
    reportedFeeBps := overNotional brokerFees notional
    referenceSlippageBps := overNotional (knownTotal (·.signedPriceSlippageUsd) items) notional
    notionalUsd := notional
    reportedCommissionUsd := knownTotal (·.commissionUsd) items
    reportedBrokerFeesUsd := brokerFees
    ordersWithMissingFees := items.countP (·.reportedBrokerFeesUsd.isNone) }

/-- `plan_summary`. -/
def planSummary (costs : List OrderExecutionCost) : List (String × PlanCosts) :=
  (sortedKeys OrderExecutionCost.pricingPlan costs).map fun plan =>
    (plan, planCosts (costs.filter (·.pricingPlan = plan)))

/-- The report on a file of executions: the fills are read and added up. -/
def executionReport (textCase : TextCase) (fieldnames : List String) (rows : List ReportRow)
    (entries : List (String × OrderLedgerEntry)) : Except String (List OrderExecutionCost) :=
  (readExecutionFills textCase fieldnames rows).bind (analyzeExecutionCosts · entries)

end Poma

import Poma.Broker.Ibkr
import Poma.Core.Numerals
import Poma.Numeric.Reported

/-!
# Account balances of a session

A session exposes balances as rows of a summary and as rows of account values.
Both are read, the rows are put one after the other, and each amount is that of
the first row in dollars that reports it under any of its tags.
-/

namespace Poma

/-- One balance row of an account. -/
structure AccountRow where
  account : String
  tag : String
  currency : String
  value : String
  deriving DecidableEq

/-- One item of the account's portfolio. -/
structure PortfolioItem where
  account : String
  secType : String
  symbol : String
  currency : String
  position : Reported
  marketValue : Reported
  deriving DecidableEq

/-- What a balance source raises. -/
structure ReadFailure where
  isTypeError : Bool
  exn : Exn
  className : String
  deriving DecidableEq

/-- A balance source, asked for an account or without one. -/
abbrev BalanceSource : Type := Option String → Except ReadFailure (List AccountRow)

/-- What an authenticated session exposes; not every client library has account values. -/
structure AccountSession where
  accountSummary : BalanceSource
  accountValues : Option BalanceSource
  portfolio : List PortfolioItem

/-- `USD_CASH_TAGS`. -/
def usdCashTags : List String := ["TotalCashValue", "TotalCashBalance", "CashBalance", "SettledCash"]

/-- `NET_LIQUIDATION_TAGS`. -/
def netLiquidationTags : List String := ["NetLiquidation", "NetLiquidationByCurrency"]

/-- `GROSS_POSITION_VALUE_TAGS`. -/
def grossPositionValueTags : List String := ["GrossPositionValue"]

/-- `USD_CURRENCY`. -/
def usdCurrency : String := "USD"

/-- `_account_summary_queries` and `_account_values_queries`. -/
def accountQueries (account : Option String) : List String :=
  match account with
  | some name => [name, ""]
  | none => [""]

/-- The loop of `_request_account_values` over the queries of one source. -/
def requestRows (source : BalanceSource) : List String → Except Exn (List AccountRow)
  | [] => .ok []
  | account :: rest =>
    match source (some account) with
    | .ok rows => (requestRows source rest).map (rows ++ ·)
    | .error failure =>
      if failure.isTypeError then (source none).mapError (·.exn) else .error failure.exn

/-- `_request_account_values`. -/
def requestAccountValues (session : AccountSession) (account : Option String) :
    Except Exn (List AccountRow) := do
  let summary ← requestRows session.accountSummary (accountQueries account)
  let values ← match session.accountValues with
    | some source => requestRows source (accountQueries account)
    | none => pure []
  return summary ++ values

/-- `_source_failure_message`. -/
def sourceFailureMessage (source account : String) (failure : ReadFailure) : String :=
  let label := if account = "" then "default" else account
  let text := strip failure.exn.message
  let detail := if text = "" then failure.className else text
  s!"IBKR {source}(account={label}) failed while building rebalance snapshot: {detail}"

/-- `_request_rows_from_source`. -/
def requestRowsFromSource (name : String) (source : BalanceSource) :
    List String → List AccountRow × List String
  | [] => ([], [])
  | account :: rest =>
    match source (some account) with
    | .ok rows =>
      let later := requestRowsFromSource name source rest
      (rows ++ later.1, later.2)
    | .error failure =>
      if failure.isTypeError then
        match source none with
        | .ok rows => (rows, [])
        | .error failure => ([], [sourceFailureMessage name account failure])
      else
        let later := requestRowsFromSource name source rest
        (later.1, sourceFailureMessage name account failure :: later.2)

/-- `_request_account_value_rows`. -/
def requestAccountValueRows (session : AccountSession) (account : Option String) :
    List AccountRow × List String :=
  let summary :=
    requestRowsFromSource "accountSummary" session.accountSummary (accountQueries account)
  match session.accountValues with
  | some source =>
    let values := requestRowsFromSource "accountValues" source (accountQueries account)
    (summary.1 ++ values.1, summary.2 ++ values.2)
  | none => summary

/-- `_parse_account_value`. -/
def parseAccountValue (value : String) : Option ℚ :=
  (readFloat (String.ofList (value.toList.filter (· ≠ ',')))).bind Reported.value?

/-- The currency of a row, dollars when it names none. -/
def usdOr (textCase : TextCase) (currency : String) : String :=
  textCase.upper (if currency = "" then usdCurrency else currency)

namespace AccountRow

variable (row : AccountRow)

/-- A row of another account than the configured one is passed over. -/
def Concerns (account : Option String) : Prop :=
  ∀ name, account = some name → row.account = "" ∨ row.account = name

instance (account : Option String) : Decidable (row.Concerns account) :=
  match account with
  | none => isTrue nofun
  | some name => decidable_of_iff (row.account = "" ∨ row.account = name) (by simp [Concerns])

/-- The amount of a row under some tags, in whatever currency it is. -/
def amount (tags : List String) (account : Option String) : Option ℚ :=
  if ¬row.Concerns account then none
  else if row.tag ∉ tags then none
  else parseAccountValue row.value

/-- The amount of a row in dollars. -/
def usdAmount (textCase : TextCase) (tags : List String) (account : Option String) : Option ℚ :=
  if usdOr textCase row.currency ≠ usdCurrency then none else row.amount tags account

/-- The currency of a row that reports an amount in another one. -/
def ignoredCurrency (textCase : TextCase) (account : Option String) : Option String :=
  if usdOr textCase row.currency = usdCurrency then none
  else (row.amount (usdCashTags ++ netLiquidationTags ++ grossPositionValueTags) account).map
    fun _ => usdOr textCase row.currency

end AccountRow

/-- `_find_usd_account_amount`. -/
def findUsdAccountAmount (textCase : TextCase) (rows : List AccountRow) (tags : List String)
    (account : Option String) : Option ℚ :=
  rows.findSome? (·.usdAmount textCase tags account)

/-- `_has_account_amount`. -/
def hasAccountAmount (rows : List AccountRow) (tags : List String) (account : Option String) :
    Bool :=
  rows.any fun row => (row.amount tags account).isSome

/-- `_ignored_account_balance_warnings`. -/
def ignoredAccountBalanceWarnings (textCase : TextCase) (rows : List AccountRow)
    (account : Option String) : List String :=
  let currencies := rows.filterMap (·.ignoredCurrency textCase account)
  if currencies = [] then []
  else ["ignored non-USD/BASE account balance rows while building rebalance snapshot " ++
    s!"(currencies: {joinSorted currencies})"]

/-- `_positions_from_ib`. -/
def positionsFromIb (textCase : TextCase) (portfolio : List PortfolioItem)
    (account : Option String) : List ReportedPosition × List String :=
  let items := portfolio.filter fun item =>
    item.secType = "STK" && account.all (item.account = ·)
  let ignored := (items.map fun item => usdOr textCase item.currency).filter (· ≠ usdCurrency)
  ((items.filter fun item => usdOr textCase item.currency = usdCurrency).map fun item =>
      ⟨textCase.upper item.symbol, item.position, item.marketValue⟩,
    if ignored = [] then []
    else ["ignored non-USD stock positions while building rebalance snapshot " ++
      s!"(currencies: {joinSorted ignored})"])

/-- The warning of a snapshot whose cash is in other currencies only. -/
def noUsdCashWarning : String :=
  "IBKR did not report a USD cash balance; treating available USD cash as $0.00 " ++
    "and ignoring non-USD cash balances"

/-- What both snapshot readers make of the account's rows. -/
def snapshotOfRows (settings : Settings) (portfolio : List PortfolioItem)
    (sourceWarnings : List String) (missingCash : String) (rows : List AccountRow) :
    Except Exn AccountSnapshot :=
  let account := settings.account?
  let (positions, positionWarnings) := positionsFromIb settings.textCase portfolio account
  let warnings := sourceWarnings ++ ignoredAccountBalanceWarnings settings.textCase rows account ++
    positionWarnings
  let amount (tags : List String) : Option ℚ :=
    findUsdAccountAmount settings.textCase rows tags account
  let cash := amount usdCashTags
  if cash = none ∧ hasAccountAmount rows usdCashTags account = false then
    .error (.brokerUnavailable missingCash)
  else .ok
    { cashUsd := .finite (cash.getD 0)
      positionsMarketValueUsd :=
        match (amount grossPositionValueTags).filter (0 < ·) with
        | some total => .finite total
        | none => Reported.sum (positions.map (·.marketValue))
      netLiquidationUsd := (amount netLiquidationTags).map .finite
      warnings := if cash = none then warnings ++ [noUsdCashWarning] else warnings
      positions := positions
      accountId := settings.ibkrAccount }

/-- `_missing_cash_message`. -/
def missingCashMessage (sourceWarnings : List String) : String :=
  if sourceWarnings = [] then "IBKR did not return a cash balance for the configured account"
  else "IBKR did not return a cash balance for the configured account; " ++
    "balance source diagnostics: " ++ String.intercalate "; " sourceWarnings

/-- `IbkrBroker.account_snapshot`, in an authenticated session. -/
def readAccountSnapshot (settings : Settings) (session : AccountSession) :
    Except Exn AccountSnapshot := do
  let rows ← requestAccountValues session settings.account?
  snapshotOfRows settings session.portfolio [] (missingCashMessage []) rows

/-- `_ibkr_rebalance_account_snapshot`, in an authenticated session. -/
def rebalanceAccountSnapshot (settings : Settings) (session : AccountSession) :
    Except Exn AccountSnapshot :=
  let (rows, sourceWarnings) := requestAccountValueRows session settings.account?
  snapshotOfRows settings session.portfolio sourceWarnings (missingCashMessage sourceWarnings) rows

end Poma

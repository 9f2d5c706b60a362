import Poma.Execution.Policy
import Poma.Models.Lifecycle

/-!
# Pricing off an execution quote

A quote is checked for freshness, spread and completeness before a reference
price is selected from it. A first order is priced inside the spread, the
reconcile replace off the reference or the far side. Repricing a batch keeps the
notional of a buy and the shares of a sell.
-/

namespace Poma

/-- `build_limit_price`. -/
def buildLimitPrice (side : OrderSide) (referencePrice offsetBps : ℚ) : ℚ :=
  let multiplier := if side = .buy then 1 + offsetBps / 10000 else 1 - offsetBps / 10000
  roundTo 2 (referencePrice * multiplier)

/-- `price_tick`. -/
def priceTick (price : ℚ) : ℚ := if price ≥ 1 then 1 / 100 else 1 / 10000

/-- `inside_spread_limit_price`. -/
def insideSpreadLimitPrice (side : OrderSide) (bid ask aggression : ℚ) : ℚ :=
  let midpoint := (bid + ask) / 2
  let halfSpread := (ask - bid) / 2
  let tick := priceTick midpoint
  match side with
  | .buy =>
    let raw := midpoint + aggression * halfSpread
    let rounded := ⌊raw / tick + fillTolerance⌋ * tick
    roundTo 4 (min (max rounded bid) ask)
  | .sell =>
    let raw := midpoint - aggression * halfSpread
    let rounded := ⌈raw / tick - fillTolerance⌉ * tick
    roundTo 4 (max (min rounded ask) bid)

/-- `compute_spread_bps`. -/
def computeSpreadBps (bid ask : Option ℚ) : Option ℚ :=
  match bid, ask with
  | some bid, some ask =>
    if bid ≤ 0 ∨ ask ≤ 0 then none
    else
      let midpoint := (bid + ask) / 2
      if midpoint ≤ 0 then none else some ((ask - bid) / midpoint * 10000)
  | _, _ => none

/-- `WIDE_SPREAD_MIDPOINT_BASIS`. -/
def wideSpreadMidpointBasis : String := "midpoint_wide_spread"

/-- The finite numbers of a quote that passed the finiteness check. -/
structure QuoteNumbers where
  ageSeconds : Option ℚ
  bid : Option ℚ
  ask : Option ℚ
  last : Option ℚ
  spreadBps : Option ℚ

/-- The numbers of a quote. -/
def ExecutionQuote.numbers (quote : ExecutionQuote) : QuoteNumbers where
  ageSeconds := quote.ageSeconds.bind Reported.value?
  bid := quote.bid.bind Reported.value?
  ask := quote.ask.bind Reported.value?
  last := quote.last.bind Reported.value?
  spreadBps := quote.spreadBps.bind Reported.value?

/-- The quote's own spread, or the one its two sides give. -/
def QuoteNumbers.spread (numbers : QuoteNumbers) : Option ℚ :=
  numbers.spreadBps <|> computeSpreadBps numbers.bid numbers.ask

/-- Every number present in the quote is finite. -/
def ExecutionQuote.allFinite (quote : ExecutionQuote) : Bool :=
  [quote.bid, quote.ask, quote.last, quote.ageSeconds, quote.spreadBps].all fun value =>
    value.all Reported.isFinite

/-- The reason a broker attached to a quote, in parentheses. -/
def ExecutionQuote.errorSuffix (quote : ExecutionQuote) : String :=
  match quote.brokerError with
  | some error => if error = "" then "" else " (" ++ error ++ ")"
  | none => ""

/-- Why a quote cannot be used at all, before its price is looked at. -/
def quoteFault (quote : ExecutionQuote) (settings : Settings) : Option String :=
  let numbers := quote.numbers
  let ticker := quote.ticker
  if quote.contractUnresolved then
    some s!"IBKR has no US stock contract for {ticker}{quote.errorSuffix}; the symbol may have changed or been delisted; block execution"
  else if !quote.allFinite then some s!"non-finite execution quote for {ticker}; block execution"
  else if numbers.ageSeconds.any (· < 0) then
    some s!"invalid quote age for {ticker}; block execution"
  else if (numbers.bid.any fun bid => numbers.ask.any fun ask => bid > ask) ||
      numbers.spreadBps.any (· < 0) then
    some s!"crossed execution quote for {ticker}; block execution"
  else if quote.isDelayed && !settings.allowDelayedExecutionQuotes then
    some s!"delayed execution quote for {ticker} but ALLOW_DELAYED_EXECUTION_QUOTES=false; block execution"
  else match numbers.ageSeconds with
    | none => some s!"missing quote timestamp for {ticker}{quote.errorSuffix}; block execution"
    | some age =>
      if age > settings.executionQuoteMaxAgeSeconds then
        some s!"stale {quote.source} quote for {ticker} age={formatFixed 0 age}s max={settings.executionQuoteMaxAgeSeconds.repr}s; block execution"
      else none

/-- The selected side of the quote, or which side is missing. -/
def quotePrice (numbers : QuoteNumbers) (side : OrderSide) (basis : ExecutionPriceBasis) :
    Except String ℚ :=
  let positive (price : Option ℚ) (label : String) : Except String ℚ :=
    match price with
    | some price => if price > 0 then .ok price else .error label
    | none => .error label
  match basis with
  | .last => positive numbers.last "last price"
  | .midpoint => do
    let bid ← positive numbers.bid "bid"
    let ask ← positive numbers.ask "ask"
    pure ((bid + ask) / 2)
  | .sideOfMarket =>
    match side with
    | .buy => positive numbers.ask "ask"
    | .sell => positive numbers.bid "bid"

/-- `_select_execution_price`: the price, its basis, and why there is none. -/
def selectExecutionPrice (quote : ExecutionQuote) (side : OrderSide) (settings : Settings)
    (allowWideSpread : Bool) : Option ℚ × String × List String :=
  let numbers := quote.numbers
  let basis := settings.executionPriceBasis
  match quoteFault quote settings with
  | some warning => (none, basis.value, [warning])
  | none =>
    match quotePrice numbers side basis with
    | .error missing => (none, basis.value, [s!"{quote.ticker} missing {missing}; block execution"])
    | .ok price =>
      if basis = .last then (some price, basis.value, [])
      else match numbers.spread with
        | none => (some price, basis.value, [])
        | some spread =>
          if spread > settings.executionMaxSpreadBps then
            let ceiling := settings.executionWideSpreadMaxBps
            match numbers.bid, numbers.ask with
            | some bid, some ask =>
              if allowWideSpread && spread ≤ ceiling then
                (some ((bid + ask) / 2), wideSpreadMidpointBasis, [])
              else (none, basis.value, [wide spread])
            | _, _ => (none, basis.value, [wide spread])
          else (some price, basis.value, [])
where
  wide (spread : ℚ) : String :=
    let limit :=
      if allowWideSpread then settings.executionWideSpreadMaxBps else settings.executionMaxSpreadBps
    s!"wide quote for {quote.ticker} spread={formatFixed 0 spread}bps max={formatFixed 0 limit}bps; block execution"

/-- One trade's execution reference and limit price, or why the quote cannot price it. -/
structure QuotePricing where
  referencePrice : Option ℚ
  limitPrice : Option ℚ
  basis : String
  warnings : List String

/-- `price_from_quote`. -/
def priceFromQuote (quote : ExecutionQuote) (side : OrderSide) (settings : Settings)
    (offsetBps : ℚ) (allowWideSpread : Bool) (aggression : Option ℚ) : QuotePricing :=
  match selectExecutionPrice quote side settings allowWideSpread with
  | (none, basis, warnings) => ⟨none, none, basis, warnings⟩
  | (some price, basis, warnings) =>
    let insideBasis :=
      basis = ExecutionPriceBasis.sideOfMarket.value ∨ basis = wideSpreadMidpointBasis
    match quote.numbers.bid, quote.numbers.ask with
    | some bid, some ask =>
      match aggression with
      | some aggression =>
        if insideBasis then
          ⟨some price, some (insideSpreadLimitPrice side bid ask aggression), basis, warnings⟩
        else ⟨some price, some (buildLimitPrice side price offsetBps), basis, warnings⟩
      | none =>
        if basis = wideSpreadMidpointBasis then
          ⟨some price, some (insideSpreadLimitPrice side bid ask 1), basis, warnings⟩
        else ⟨some price, some (buildLimitPrice side price offsetBps), basis, warnings⟩
    | _, _ => ⟨some price, some (buildLimitPrice side price offsetBps), basis, warnings⟩

/-- One trade of `apply_execution_quotes`: repriced, or why it is dropped. -/
def repriceTrade (trade : ProposedTrade) (quote : ExecutionQuote) (settings : Settings)
    (rules : ExecutionRules) (allowWideSpread : Bool) :
    Except Exn (Except (List String) ProposedTrade) :=
  let pricing := priceFromQuote quote trade.side settings settings.limitOffsetBps allowWideSpread
    (some settings.executionLimitAggression)
  match pricing.referencePrice, pricing.limitPrice with
  | some price, some limitPrice =>
    if trade.side = .buy ∧ price = 0 then .error (.other "float division by zero")
    else
      let rawQuantity := if trade.side = .sell then trade.quantity else trade.notional / price
      let rule := resolveExecutionRule trade.ticker rules
      let quantity := roundedExecutionQuantity rawQuantity trade.side rule
      if quantity ≤ 0 ∨ quantity < rule.minQuantity then
        .ok (.error [s!"{trade.ticker}: repriced quantity {formatFixed 6 rawQuantity} rounds below the tradable minimum for this instrument; skipping trade"])
      else if limitPrice ≤ 0 ∨ quantity * max price limitPrice > settings.maxOrderNotionalUsd then
        .ok (.error [s!"{trade.ticker}: repriced order exceeds price/notional safety limits; block execution"])
      else
        .ok (.ok { trade with
          quantity := quantity
          notional := quantity * price
          referencePrice := price
          limitPrice := some limitPrice
          referencePriceSource := settings.executionPriceSource.value
          referencePriceBasis := pricing.basis
          referencePriceAsOfUtc := quote.selectedPriceAsOfUtc
          quoteAgeSeconds := quote.numbers.ageSeconds
          quoteSpreadBps := quote.numbers.spread })
  | _, _ => .ok (.error pricing.warnings)

/-- `apply_execution_quotes`: the repriced trades and the warnings of the dropped ones. -/
def applyExecutionQuotes (trades : List ProposedTrade) (quotes : List (String × ExecutionQuote))
    (settings : Settings) (rules : ExecutionRules) (allowWideSpread : Bool) :
    Except Exn (List ProposedTrade × List String) :=
  match trades with
  | [] => .ok ([], [])
  | trade :: rest => do
    let head ← match quotes.lookup trade.ticker with
      | none => .ok (.error [s!"missing {settings.executionPriceSource.value} execution quote for {trade.ticker}; block execution"])
      | some quote => repriceTrade trade quote settings rules allowWideSpread
    let (repriced, warnings) ← applyExecutionQuotes rest quotes settings rules allowWideSpread
    match head with
    | .ok updated => pure (updated :: repriced, warnings)
    | .error reasons => pure (repriced, reasons ++ warnings)

end Poma

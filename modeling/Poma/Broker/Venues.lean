import Poma.Execution.Pricing
import Poma.Manager.Submission
import Poma.Numeric.Reported

/-!
# Execution quotes across venues

The venues of a market-data type are asked in order. A ticker is settled on the
first venue that gives a two-sided quote within the spread limit; until then the
best sample seen so far is kept, and the samples without a tick are kept apart.
-/

namespace Poma

/-- `USD_LSE_UCITS`, its tickers. -/
def usdLseUcits : List String := ["SP1", "USMC"]

/-- `ucits_listing(ticker) is not None`. -/
def isUcitsListed (textCase : TextCase) (ticker : String) : Bool :=
  textCase.upper ticker ∈ usdLseUcits

/-- A market-data ticker of the client library, as it reads after the wait. -/
structure MarketData where
  time : Option ℚ
  bid : Option Reported
  ask : Option Reported
  deriving DecidableEq

/-- `_SampledMarketData`. -/
structure SampledMarketData where
  marketData : MarketData
  sampledAt : ℚ
  deriving DecidableEq

/-- One venue of the list, with what it shows for every ticker. -/
structure Venue where
  exchange : String
  marketData : String → MarketData
  sampledAt : ℚ

/-- The sample of a ticker on a venue. -/
def Venue.sample (venue : Venue) (ticker : String) : SampledMarketData :=
  ⟨venue.marketData ticker, venue.sampledAt⟩

/-- A venue that may be asked for a ticker: a listed fund is quoted through `SMART` alone. -/
def Venue.allows (venue : Venue) (textCase : TextCase) (ticker : String) : Bool :=
  !isUcitsListed textCase ticker || venue.exchange = "SMART"

/-- `_valid_price`: a price that is not a number or not positive is no data. -/
def validPrice (value : Option Reported) : Option Reported :=
  value.filter fun price => (Reported.finite 0).lt price

/-- `_has_tick_time`. -/
def MarketData.hasTickTime (data : MarketData) : Bool := data.time.isSome

/-- `_sample_spread_bps`: the spread beside an infinite price is not a number. -/
def MarketData.sampleSpreadBps (data : MarketData) : Option Reported :=
  match validPrice data.bid, validPrice data.ask with
  | some (.finite bid), some (.finite ask) =>
    (computeSpreadBps (some bid) (some ask)).map Reported.finite
  | some _, some _ => some .nan
  | _, _ => none

/-- `_is_better_sample`. -/
def isBetterSample (candidate : MarketData) (current : Option MarketData) : Bool :=
  match current with
  | none => true
  | some current =>
    match candidate.sampleSpreadBps, current.sampleSpreadBps with
    | none, _ => false
    | some _, none => true
    | some spread, some best => spread.lt best

/-- Whether a sample settles its ticker. -/
def MarketData.settles (maxSpreadBps : Option ℚ) (data : MarketData) : Bool :=
  data.hasTickTime && data.sampleSpreadBps.any fun spread =>
    maxSpreadBps.all fun limit => spread.le (.finite limit)

/-- What the loop over the venues keeps. -/
structure VenueState where
  remaining : List String
  ticked : Dict SampledMarketData := []
  lastMissing : Dict SampledMarketData := []

/-- One ticker of the batch of a venue. -/
def VenueState.take (venue : Venue) (state : VenueState) (ticker : String) : VenueState :=
  let sample := venue.sample ticker
  if !sample.marketData.hasTickTime then
    if state.ticked.any (·.1 = ticker) then state
    else { state with lastMissing := Dict.put state.lastMissing ticker sample }
  else if isBetterSample sample.marketData
      ((state.ticked.lookup ticker).map SampledMarketData.marketData) then
    { state with ticked := Dict.put state.ticked ticker sample }
  else state

/-- The turn of a venue: its batch, and the tickers it settles. -/
def VenueState.ask (textCase : TextCase) (maxSpreadBps : Option ℚ) (state : VenueState)
    (venue : Venue) : VenueState :=
  let batch := state.remaining.filter (venue.allows textCase)
  let sampled := batch.foldl (VenueState.take venue) state
  { sampled with
    remaining := state.remaining.filter fun ticker =>
      !(ticker ∈ batch && (venue.marketData ticker).settles maxSpreadBps) }

/-- `_request_execution_quotes_for_type`: the best ticks, and the missing attempts without one. -/
def requestExecutionQuotesForType (textCase : TextCase) (tickers : List String)
    (venues : List Venue) (maxSpreadBps : Option ℚ) : Dict SampledMarketData × Dict SampledMarketData :=
  let state := venues.foldl (VenueState.ask textCase maxSpreadBps) { remaining := tickers }
  (state.ticked, state.lastMissing.filter fun item => !state.ticked.any (·.1 = item.1))

end Poma

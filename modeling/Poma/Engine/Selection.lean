import Poma.Engine.Strategy
import Poma.Numeric.Ranking

/-!
# Ranking and selecting companies

A snapshot is ranked by market capitalisation, one share class for each issuer.
A selection takes the largest companies or, where an earlier snapshot is known,
those with the best sum of two standardised scores: the size, and how many ranks
the company has climbed. The selected companies get equal weights, each at most
the cap. The standard deviation is a parameter.
-/

namespace Poma

/-- A row of `rank_by_market_cap`. -/
structure RankedRow where
  ticker : String
  marketCap : Numeric
  marketCapRank : Nat
  deriving DecidableEq

/-- The required columns that a snapshot lacks, in order. -/
def missingColumns (columns : List String) : List String :=
  ["market_cap", "ticker"].filter (· ∉ columns)

/-- A kept row with its ticker and its capitalisation, unless it lacks one of them. -/
def capitalised (format : CellFormat) (row : String → Cell) : Option (String × Numeric) :=
  (format.asText (row "ticker")).bind fun text =>
    let ticker := strip (format.upper text)
    if h : format.toNumeric (row "market_cap") ≠ .nan then
      if ticker ≠ "" ∧ (Reported.finite 0).lt (format.toNumeric (row "market_cap")) then
        some (ticker, ⟨format.toNumeric (row "market_cap"), h⟩)
      else none
    else none

/-- `rank_by_market_cap`; the ranks are those of `rank(ascending=False, method="first")`. -/
def rankByMarketCap (format : CellFormat) (snapshot : Snapshot) : Except String (List RankedRow) :=
  let missing := missingColumns snapshot.columns
  if missing ≠ [] then
    .error ("snapshot missing required columns: [" ++
      String.intercalate ", " (missing.map fun column => "'" ++ column ++ "'") ++ "]")
  else (deduplicateShareClasses format snapshot).map fun rows =>
    let kept := rows.filterMap (capitalised format)
    let ranked := kept.zipIdx.map fun ((ticker, cap), index) =>
      RankedRow.mk ticker cap (rankFirst (kept.map (·.2)) index cap)
    ranked.insertionSort (·.marketCapRank ≤ ·.marketCapRank)

/-- `select_top_market_cap`. -/
def selectTopMarketCap (format : CellFormat) (current : Snapshot) (maxHoldings : ℤ) :
    Except String (List RankedRow) :=
  if maxHoldings ≤ 0 then .error "max_holdings must be positive"
  else (rankByMarketCap format current).map (·.take maxHoldings.toNat)

/-- The mean of a column. -/
def columnMean (values : List ℚ) : ℚ := values.sum / values.length

/-- `_zscore`, of one value of a column. -/
def zscore (deviation : List ℚ → ℚ) (values : List ℚ) (value : ℚ) : ℚ :=
  if deviation values = 0 then 0 else (value - columnMean values) / deviation values

/-- A row of the merged frame: the company as it ranks now, and its rank before. -/
structure MergedRow where
  current : RankedRow
  previousRank : Nat
  deriving DecidableEq

/-- `rank_improvement_score`. -/
def MergedRow.improvement (row : MergedRow) : ℤ :=
  (row.previousRank : ℤ) - (row.current.marketCapRank : ℤ)

/-- `current_ranked.merge(previous_ranks, on="ticker", how="left")`, ranks that are not known
filled with those of today. -/
def mergeRanks (current historical : List RankedRow) : List MergedRow :=
  current.flatMap fun row =>
    match historical.filter (·.ticker = row.ticker) with
    | [] => [⟨row, row.marketCapRank⟩]
    | known => known.map fun earlier => ⟨row, earlier.marketCapRank⟩

section Scores

variable (deviation : List ℚ → ℚ) (merged : List MergedRow)

/-- `size_score`. -/
def sizeScore (row : MergedRow) : ℚ :=
  zscore deviation (merged.map fun row => -(row.current.marketCapRank : ℚ))
    (-(row.current.marketCapRank : ℚ))

/-- `rank_velocity_score`. -/
def rankVelocityScore (row : MergedRow) : ℚ :=
  zscore deviation (merged.map fun row => (row.improvement : ℚ)) row.improvement

/-- `combined_score`. -/
def combinedScore (row : MergedRow) : ℚ :=
  sizeScore deviation merged row + rankVelocityScore deviation merged row

/-- The order of `sort_values`: greater scores first, then greater improvements, then smaller
ranks. -/
def ScoredBefore (row other : MergedRow) : Prop :=
  combinedScore deviation merged other < combinedScore deviation merged row ∨
    (combinedScore deviation merged row = combinedScore deviation merged other ∧
      (other.improvement < row.improvement ∨ (row.improvement = other.improvement ∧
        row.current.marketCapRank ≤ other.current.marketCapRank)))

instance (row other : MergedRow) : Decidable (ScoredBefore deviation merged row other) :=
  inferInstanceAs (Decidable (_ ∨ _))

end Scores

/-- `select_by_combined_factor`. -/
def selectByCombinedFactor (format : CellFormat) (deviation : List ℚ → ℚ)
    (current historical : Snapshot) (maxHoldings : ℤ) : Except String (List MergedRow) :=
  if maxHoldings ≤ 0 then .error "max_holdings must be positive"
  else (rankByMarketCap format current).bind fun currentRanked =>
    (rankByMarketCap format historical).map fun historicalRanked =>
      let merged := mergeRanks currentRanked historicalRanked
      (merged.insertionSort (ScoredBefore deviation merged)).take maxHoldings.toNat

/-- The loop of `_apply_max_weight_cap`, with the turns it has left. -/
def capWeights (maxWeight : ℚ) : Nat → List ℚ → List ℚ
  | 0, weights => weights
  | turns + 1, weights =>
    let overweight := weights.filter (maxWeight < ·)
    if overweight = [] then weights
    else
      let excess := (overweight.map (· - maxWeight)).sum
      let underweight := weights.filter (· ≤ maxWeight)
      if underweight = [] ∨ excess ≤ 1 / 1000000000000 then weights.map (min · maxWeight)
      else capWeights maxWeight turns <| weights.map fun weight =>
        if maxWeight < weight then maxWeight else weight + excess * weight / underweight.sum

/-- `_apply_max_weight_cap`, of weights that are positive. -/
def applyMaxWeightCap (weights : List ℚ) (maxWeight : ℚ) : Except String (List ℚ) :=
  if weights = [] then .ok weights
  else if maxWeight ≤ 0 then .error "max_weight must be positive"
  else
    let capped := capWeights maxWeight 100 weights
    let total := capped.sum
    if total ≤ 0 then .error "capped weights sum to zero"
    else .ok (if 1 < total then capped.map (· / total) else capped)

/-- A target of the selection: a ticker, its weight and what that is worth. -/
structure WeightTarget where
  ticker : String
  targetWeight : ℚ
  targetNotional : ℚ
  deriving DecidableEq

/-- `build_equal_weight_targets`, of the selected tickers. -/
def buildEqualWeightTargets (tickers : List String) (portfolioValueUsd maxPositionPct : ℚ) :
    Except String (List WeightTarget) :=
  if tickers = [] then .ok []
  else
    let equalWeight : ℚ := 1 / tickers.length
    (applyMaxWeightCap (tickers.map fun _ => equalWeight) maxPositionPct).map fun weights =>
      (tickers.zip weights).map fun (ticker, weight) => ⟨ticker, weight, weight * portfolioValueUsd⟩

end Poma

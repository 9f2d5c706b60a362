import Poma.Core.Text
import Poma.Numeric.Groups
import Poma.Numeric.Reported

/-!
# Sleeves and their combined targets

Configured percentages become sleeves of capital, every strategy answers with
the targets of its sleeve, and the targets of all sleeves are merged into one
position for each ticker. Allocations, merged notionals and merged weights are
each checked against the whole, and each with a tolerance of its own.
-/

namespace Poma

/-- The sleeve that stays in cash. -/
def cashStrategyName : String := "cash"

/-- The capital of one sleeve. -/
structure StrategyCapital where
  name : String
  allocationPct : ℚ
  capitalUsd : ℚ
  deriving DecidableEq

/-- The sleeves of a portfolio. -/
structure PortfolioCapitalPlan where
  portfolioValueUsd : ℚ
  allocations : List StrategyCapital
  deriving DecidableEq

/-- `tradeable_sleeves`. -/
def PortfolioCapitalPlan.tradeableSleeves (plan : PortfolioCapitalPlan) : List StrategyCapital :=
  plan.allocations.filter fun allocation =>
    allocation.name ≠ cashStrategyName && 0 < allocation.capitalUsd

/-- `cash_sleeve_usd` of `build_plan`. -/
def PortfolioCapitalPlan.cashSleeveUsd (plan : PortfolioCapitalPlan) : ℚ :=
  ((plan.allocations.find? (·.name = cashStrategyName)).map (·.capitalUsd)).getD 0

/-- The loop of `_validate_allocations`, with the names taken so far. -/
def cleanAllocations : List (String × Reported) → List (String × ℚ) →
    Except String (List (String × ℚ))
  | [], cleaned => .ok cleaned
  | (rawName, rawPct) :: rest, cleaned =>
    let name := strip rawName
    if name = "" then .error "strategy allocation names must not be empty"
    else if cleaned.any (·.1 = name) then .error s!"duplicate strategy allocation for '{name}'"
    else match rawPct with
      | .finite pct =>
        if pct < 0 ∨ 1 < pct then
          .error s!"strategy allocation for '{name}' must be between 0 and 1"
        else cleanAllocations rest (cleaned ++ [(name, pct)])
      | _ => .error s!"strategy allocation for '{name}' must be finite"

/-- `_validate_allocations`. -/
def validateAllocations (allocations : List (String × Reported)) :
    Except String (List (String × ℚ)) :=
  (cleanAllocations allocations []).bind fun cleaned =>
    if cleaned = [] then .error "at least one strategy allocation is required"
    else
      let total := (cleaned.map (·.2)).sum
      if total > 1000001 / 1000000 then .error
        s!"strategy allocations sum to {formatFixed 2 (total * 100)}%; total allocated capital must not exceed 100%"
      else .ok cleaned

/-- `build_strategy_capital_plan` of an allocation map. -/
def buildStrategyCapitalPlan (portfolioValueUsd : Reported)
    (allocations : List (String × Reported)) : Except String PortfolioCapitalPlan :=
  match portfolioValueUsd with
  | .finite value =>
    if value ≤ 0 then .error "portfolio_value_usd must be positive and finite"
    else (validateAllocations allocations).map fun cleaned => {
      portfolioValueUsd := value
      allocations := cleaned.map fun (name, pct) => ⟨name, pct, value * pct⟩ }
  | _ => .error "portfolio_value_usd must be positive and finite"

/-- A target of one sleeve. -/
structure StrategyTarget where
  strategyName : String
  ticker : String
  sleeveWeight : ℚ
  portfolioWeight : ℚ
  targetNotional : ℚ
  deriving DecidableEq

/-- The targets of one sleeve. -/
structure StrategyTargetBook where
  strategyName : String
  targets : List StrategyTarget
  deriving DecidableEq

/-- A ticker's target in the whole portfolio. -/
structure CombinedTargetPosition where
  ticker : String
  targetWeight : ℚ
  targetNotional : ℚ
  contributions : List StrategyTarget
  deriving DecidableEq

/-- `to_target_position`. -/
def CombinedTargetPosition.toTargetPosition (position : CombinedTargetPosition) : TargetPosition where
  ticker := position.ticker
  targetWeight := .finite position.targetWeight
  targetNotional := .finite position.targetNotional

section Combine

variable (books : List StrategyTargetBook)

/-- `contributions_by_ticker`, read at one ticker. -/
def contributionsTo (ticker : String) : List StrategyTarget :=
  (books.flatMap (·.targets)).filter (·.ticker = ticker)

/-- The tickers of `contributions_by_ticker`, in order. -/
def targetedTickers : List String := sortedKeys StrategyTarget.ticker (books.flatMap (·.targets))

/-- The position of one ticker. -/
def combinedPosition (portfolioValueUsd : ℚ) (ticker : String) : CombinedTargetPosition :=
  let notional := ((contributionsTo books ticker).map (·.targetNotional)).sum
  { ticker := ticker
    targetWeight := if portfolioValueUsd = 0 then 0 else notional / portfolioValueUsd
    targetNotional := notional
    contributions := contributionsTo books ticker }

/-- The warning of a ticker that several strategies want. -/
def overlapWarning (ticker : String) : Option String :=
  let names := ((contributionsTo books ticker).map (·.strategyName)).dedup
  if names.length > 1 then some
    s!"{ticker} target combines overlapping allocations from strategies: {joinSorted names}"
  else none

/-- `combine_strategy_target_books`. -/
def combineStrategyTargetBooks (portfolioValueUsd : ℚ) :
    List CombinedTargetPosition × List String :=
  let combined := (targetedTickers books).map (combinedPosition books portfolioValueUsd)
  let total := (combined.map (·.targetNotional)).sum
  let exceeds :=
    if portfolioValueUsd ≠ 0 ∧ total > portfolioValueUsd + 1 / 1000000 then
      [s!"combined strategy targets (${formatDollars total}) exceed portfolio value (${formatDollars portfolioValueUsd}); block execution"]
    else []
  (combined, (targetedTickers books).filterMap (overlapWarning books) ++ exceeds)

end Combine

/-- `f"{x:.4f}"`. -/
def Reported.formatFixed4 : Reported → String
  | .finite value => formatFixed 4 value
  | .infinite negative => if negative then "-inf" else "inf"
  | .nan => "nan"

/-- `validate_targets`. -/
def validateTargets (targets : List TargetPosition) (maxPositionPct : ℚ)
    (exemptTickers : List String) : List String :=
  let total := Reported.sum (targets.map (·.targetWeight))
  (if (Reported.finite (1000001 / 1000000)).lt total then
    [s!"target weights exceed 100%: {total.formatFixed4}; block execution"] else []) ++
  (if targets.any fun target =>
      (Reported.finite (maxPositionPct + 1 / 1000000000)).lt target.targetWeight &&
        target.ticker ∉ exemptTickers then
    ["one or more target weights exceed max_position_pct; block execution"] else []) ++
  (if targets = [] then ["no target positions generated"] else [])

end Poma

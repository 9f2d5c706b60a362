import Poma.Correctness.Capital
import Poma.Correctness.Selection
import Poma.Correctness.Sleeves
import Poma.Engine.BuildPlan

/-!
# Plans and what they come of

A plan comes of the steps of its construction. The books of its sleeves each fit
their sleeve, so its targets are within the part of the portfolio that is
allocated to strategies.
-/

namespace Poma

open Interaction (bind_eq_ok map_eq_ok mapError_eq_ok)

/-- What a plan is computed from, in the order of `build_plan`. -/
structure PlanSteps (library : FrameLibrary) (settings : PlanSettings) (reads : PlanReads) where
  capitalPlan : PortfolioCapitalPlan
  sleeves : List (StrategyCapital × Strategy)
  current : Snapshot
  historical : Option Snapshot
  books : List SleeveBook
  prices : List (String × Reported)
  sized : SizedTrades
  planned : buildStrategyCapitalPlan (.finite (resolvePortfolioValueUsd settings
    (planAccount library.className settings reads.account).1)) settings.allocations = .ok capitalPlan
  traded : tradedSleeves capitalPlan = .ok sleeves
  loaded : planUniverse reads (sleeves.map fun sleeve =>
    sleeve.2.dataRequirements settings.toStrategySettings) = .ok (current, historical)
  booked : sleeveBooks library settings current historical
    (planPriceHistory library.className library.format reads.priceHistory (sleeves.map fun sleeve =>
      sleeve.2.dataRequirements settings.toStrategySettings)).1 sleeves = .ok books
  priced : latestPrices library.format current
    (planPriceHistory library.className library.format reads.priceHistory (sleeves.map fun sleeve =>
      sleeve.2.dataRequirements settings.toStrategySettings)).1 = .ok prices
  generated : sizeTrades settings (planAccount library.className settings reads.account).1
    (planningInputs settings (planAccount library.className settings reads.account).1
      (resolvePortfolioValueUsd settings (planAccount library.className settings reads.account).1)
      (combineStrategyTargetBooks (books.map (·.toStrategyTargetBook))
        (resolvePortfolioValueUsd settings
          (planAccount library.className settings reads.account).1)).1
      prices) = .ok sized

namespace PlanSteps

variable {library : FrameLibrary} {settings : PlanSettings} {reads : PlanReads}
  (steps : PlanSteps library settings reads)

/-- The account that is planned on. -/
def account (_ : PlanSteps library settings reads) : AccountReading :=
  (planAccount library.className settings reads.account).1

/-- The value that is planned for. -/
def value : ℚ := resolvePortfolioValueUsd settings steps.account

/-- The combined targets and their warnings. -/
def combined : List CombinedTargetPosition × List String :=
  combineStrategyTargetBooks (steps.books.map (·.toStrategyTargetBook)) steps.value

/-- The closes that are loaded. -/
def history : Option PriceHistory × List String :=
  planPriceHistory library.className library.format reads.priceHistory (steps.sleeves.map fun sleeve =>
    sleeve.2.dataRequirements settings.toStrategySettings)

/-- The targets of the plan. -/
def targets : List TargetPosition := steps.combined.1.map CombinedTargetPosition.toTargetPosition

/-- What the trades are generated from. -/
def inputs : PlanningInputs :=
  planningInputs settings steps.account steps.value steps.combined.1 steps.prices

/-- The warnings of everything before the checks on the trades. -/
def warnings : List String :=
  (planAccount library.className settings reads.account).2 ++ unallocatedWarning steps.capitalPlan ++
    steps.history.2 ++ steps.books.flatMap (·.warnings) ++ steps.combined.2 ++
    validateTargets steps.targets settings.maxPositionPct
      (steps.books.flatMap (·.diversifiedFundTickers)) ++
    steps.sized.tradeWarnings ++ steps.sized.costWarnings ++ steps.sized.executionPolicyWarnings

/-- The plan that comes of it. -/
def plan (stores : Bool) : PlannedTrades where
  trades := steps.sized.trades
  warnings := steps.warnings ++
    tradeChecks settings stores steps.account steps.value steps.sized.trades
  targets := steps.targets
  portfolioValueUsd := .finite steps.value
  brokerTotalValueUsd := .finite steps.account.totalValueUsd

end PlanSteps

section Plans

variable {library : FrameLibrary} {settings : PlanSettings} {stores : Bool} {reads : PlanReads}
  {planned : PlannedTrades}

/-- A plan comes of its steps. -/
theorem planTrades_steps (h : planTrades library settings stores reads = .ok planned) :
    ∃ steps : PlanSteps library settings reads, planned = steps.plan stores := by
  unfold planTrades at h
  dsimp only at h
  obtain ⟨capitalPlan, hplanned, h⟩ := bind_eq_ok.mp h
  obtain ⟨sleeves, htraded, h⟩ := bind_eq_ok.mp h
  obtain ⟨⟨current, historical⟩, hloaded, h⟩ := bind_eq_ok.mp h
  obtain ⟨books, hbooked, h⟩ := bind_eq_ok.mp h
  obtain ⟨prices, hpriced, h⟩ := bind_eq_ok.mp h
  obtain ⟨sized, hgenerated, h⟩ := bind_eq_ok.mp h
  obtain rfl := Except.ok.inj h
  exact ⟨⟨capitalPlan, sleeves, current, historical, books, prices, sized,
    mapError_eq_ok.mp hplanned, htraded, hloaded, hbooked, hpriced, hgenerated⟩, rfl⟩

/-- The steps are those of a plan. -/
theorem PlanSteps.planTrades_eq (steps : PlanSteps library settings reads) :
    planTrades library settings stores reads = .ok (steps.plan stores) := by
  unfold planTrades
  dsimp only
  apply bind_eq_ok.mpr
  refine ⟨steps.capitalPlan, mapError_eq_ok.mpr steps.planned, bind_eq_ok.mpr ?_⟩
  refine ⟨steps.sleeves, steps.traded, bind_eq_ok.mpr ?_⟩
  refine ⟨(steps.current, steps.historical), steps.loaded, bind_eq_ok.mpr ?_⟩
  refine ⟨steps.books, steps.booked, bind_eq_ok.mpr ?_⟩
  refine ⟨steps.prices, steps.priced, bind_eq_ok.mpr ?_⟩
  exact ⟨steps.sized, steps.generated, rfl⟩

end Plans

section Books

variable {library : FrameLibrary} {settings : PlanSettings} {current : Snapshot}
  {historical : Option Snapshot} {history : Option PriceHistory} {books : List SleeveBook}
  {sleeves : List (StrategyCapital × Strategy)}

/-- The book of each sleeve fits it. -/
theorem sleeveBooks_fit
    (h : sleeveBooks library settings current historical history sleeves = .ok books) :
    List.Forall₂ (fun sleeve book => SleeveBook.Fits settings.toStrategySettings
      sleeve.1.allocationPct sleeve.1.capitalUsd book) sleeves books := by
  induction sleeves generalizing books with
  | nil =>
    obtain rfl := Except.ok.inj h
    exact .nil
  | cons sleeve sleeves ih =>
    obtain ⟨book, hbook, h⟩ := bind_eq_ok.mp h
    obtain ⟨rest, hrest, h⟩ := bind_eq_ok.mp h
    obtain rfl := Except.ok.inj h
    exact .cons (Strategy.buildTargets_fits hbook) (ih hrest)

/-- A book that fits its sleeve targets no more than the capital of it. -/
theorem SleeveBook.Fits.total_le {settings : StrategySettings} {allocationPct capitalUsd : ℚ}
    {book : SleeveBook} (h : book.Fits settings allocationPct capitalUsd)
    (hcapital : 0 ≤ capitalUsd) : book.toStrategyTargetBook.total ≤ capitalUsd := by
  have htotal : book.toStrategyTargetBook.total =
      (book.targets.map (·.sleeveWeight)).sum * capitalUsd := by
    unfold StrategyTargetBook.total
    rw [← List.sum_map_mul_right]
    exact congrArg List.sum (List.map_congr_left h.notional)
  calc book.toStrategyTargetBook.total
    _ = (book.targets.map (·.sleeveWeight)).sum * capitalUsd := htotal
    _ ≤ 1 * capitalUsd := mul_le_mul_of_nonneg_right h.whole hcapital
    _ = capitalUsd := one_mul _

end Books

namespace PlanSteps

variable {library : FrameLibrary} {settings : PlanSettings} {reads : PlanReads}
  (steps : PlanSteps library settings reads)

theorem value_pos : 0 < steps.value := by
  have hplanned := steps.planned
  unfold buildStrategyCapitalPlan at hplanned
  dsimp only at hplanned
  split at hplanned
  · cases hplanned
  · rename_i hpositive
    exact not_le.mp hpositive

/-- The sleeves that are traded are those that can be. -/
theorem sleeves_eq : steps.sleeves.map (·.1) = steps.capitalPlan.tradeableSleeves := by
  have hpairs : ∀ {tradeable : List StrategyCapital} {sleeves : List (StrategyCapital × Strategy)},
      List.Forall₂ (fun sleeve pair => (registryGet sleeve.name).map
        (fun strategy => (sleeve, strategy)) = .ok pair) tradeable sleeves →
      sleeves.map (·.1) = tradeable := by
    intro tradeable sleeves h
    induction h with
    | nil => rfl
    | cons hfirst _ ih =>
      obtain ⟨strategy, -, rfl⟩ := map_eq_ok.mp hfirst
      rw [List.map_cons, ih]
  exact hpairs (forall₂_of_mapM_ok steps.traded)

theorem capital_nonneg {sleeve : StrategyCapital × Strategy} (h : sleeve ∈ steps.sleeves) :
    0 ≤ sleeve.1.capitalUsd := by
  have hmem : sleeve.1 ∈ steps.capitalPlan.tradeableSleeves := by
    rw [← steps.sleeves_eq]
    exact List.mem_map_of_mem h
  have hchecks := (List.mem_filter.mp hmem).2
  rw [Bool.and_eq_true, decide_eq_true_eq, decide_eq_true_eq] at hchecks
  exact hchecks.2.le

/-- The books are those of the sleeves that can be traded. -/
theorem fromSleeves : FromSleeves steps.capitalPlan (steps.books.map (·.toStrategyTargetBook)) := by
  refine ⟨steps.sleeves.map (·.1), ?_, ?_⟩
  · rw [steps.sleeves_eq]
  · have hfit := sleeveBooks_fit steps.booked
    have hnonneg : ∀ sleeve ∈ steps.sleeves, 0 ≤ sleeve.1.capitalUsd :=
      fun _ => steps.capital_nonneg
    rw [List.forall₂_map_left_iff, List.forall₂_map_right_iff]
    have hboth := (List.forall₂_and_left _ _).mpr ⟨hnonneg, hfit⟩
    exact hboth.imp fun _ _ h => h.2.total_le h.1

end PlanSteps

section Allocated

variable {value : ℚ} {allocations : List (String × Reported)} {plan : PortfolioCapitalPlan}

/-- The capital of a sleeve is its part of the portfolio, and the parts that are traded are within
the tolerance of a whole. -/
theorem allocated_spec (hvalue : 0 < value)
    (h : buildStrategyCapitalPlan (.finite value) allocations = .ok plan) :
    (∀ sleeve ∈ plan.tradeableSleeves, sleeve.capitalUsd = value * sleeve.allocationPct) ∧
      (plan.tradeableSleeves.map (·.allocationPct)).sum ≤ 1000001 / 1000000 := by
  unfold buildStrategyCapitalPlan at h
  dsimp only at h
  rw [if_neg (not_le.mpr hvalue)] at h
  obtain ⟨cleaned, hcleaned, rfl⟩ := map_eq_ok.mp h
  obtain ⟨hnonneg, htotal⟩ := validateAllocations_spec hcleaned
  constructor
  · intro sleeve hsleeve
    obtain ⟨item, -, rfl⟩ := List.mem_map.mp (List.mem_filter.mp hsleeve).1
    rfl
  · refine le_trans ((List.filter_sublist.map _).sum_le_sum ?_) ?_
    · intro pct hpct
      obtain ⟨sleeve, hsleeve, rfl⟩ := List.mem_map.mp hpct
      obtain ⟨item, hitem, rfl⟩ := List.mem_map.mp hsleeve
      exact hnonneg item hitem
    · rw [List.map_map]
      exact htotal

end Allocated

/-- Targets within the part of a portfolio that its sleeves may trade. -/
structure TargetsFit (value : ℚ) (plan : PortfolioCapitalPlan) (targets : List TargetPosition) :
    Prop where
  once : (targets.map (·.ticker)).Nodup
  valued : ∀ target ∈ targets, ∃ weight, 0 ≤ weight ∧ target.targetWeight = .finite weight ∧
    target.targetNotional = .finite (weight * value)
  within : ∃ total, Reported.sum (targets.map (·.targetWeight)) = .finite total ∧
    total ≤ (plan.tradeableSleeves.map (·.allocationPct)).sum
  allocated : (plan.tradeableSleeves.map (·.allocationPct)).sum ≤ 1000001 / 1000000

namespace PlanSteps

variable {library : FrameLibrary} {settings : PlanSettings} {reads : PlanReads}
  (steps : PlanSteps library settings reads)

/-- What the books put on a ticker is not negative. -/
theorem contribution_nonneg {target : StrategyTarget}
    (h : target ∈ (steps.books.map (·.toStrategyTargetBook)).flatMap (·.targets)) :
    0 ≤ target.targetNotional := by
  obtain ⟨_, hmem, htarget⟩ := List.mem_flatMap.mp h
  obtain ⟨book, hbook, rfl⟩ := List.mem_map.mp hmem
  obtain ⟨sleeve, hsleeve, hfit⟩ := exists_of_forall₂ (sleeveBooks_fit steps.booked) hbook
  rw [hfit.notional target htarget]
  exact mul_nonneg (hfit.nonneg target htarget) (steps.capital_nonneg hsleeve)

theorem targetsFit : TargetsFit steps.value steps.capitalPlan steps.targets := by
  have hvalue := steps.value_pos
  obtain ⟨hcapital, hallocated⟩ := allocated_spec hvalue steps.planned
  constructor
  case once =>
    have htickers : steps.targets.map (·.ticker) =
        targetedTickers (steps.books.map (·.toStrategyTargetBook)) := by
      unfold targets
      rw [List.map_map]
      exact combined_tickers _ _
    rw [htickers]
    exact nodup_sortedKeys
  case valued =>
    intro target htarget
    obtain ⟨position, hposition, rfl⟩ := List.mem_map.mp htarget
    obtain ⟨ticker, -, rfl⟩ := List.mem_map.mp hposition
    have hnotional : 0 ≤ ((contributionsTo (steps.books.map (·.toStrategyTargetBook)) ticker).map
        (·.targetNotional)).sum := by
      apply List.sum_nonneg
      intro notional hmem
      obtain ⟨target, htarget, rfl⟩ := List.mem_map.mp hmem
      exact steps.contribution_nonneg (List.mem_filter.mp htarget).1
    refine ⟨_, div_nonneg hnotional hvalue.le, ?_, ?_⟩
    · exact congrArg Reported.finite (if_neg hvalue.ne')
    · rw [div_mul_cancel₀ _ hvalue.ne']
      rfl
  case within =>
    refine ⟨_, combined_weights _ _ hvalue.ne', ?_⟩
    have hsum : (steps.capitalPlan.tradeableSleeves.map (·.capitalUsd)).sum =
        steps.value * (steps.capitalPlan.tradeableSleeves.map (·.allocationPct)).sum := by
      rw [← List.sum_map_mul_left]
      exact congrArg List.sum (List.map_congr_left hcapital)
    rw [div_le_iff₀ hvalue, mul_comm, ← hsum]
    exact steps.fromSleeves.total_le
  case allocated => exact hallocated

end PlanSteps

/-- The targets of every plan are within what its sleeves may trade: one for each ticker, each
worth its weight, and together no more than the strategies are allocated. -/
theorem planned_targets_fit {library : FrameLibrary} {settings : PlanSettings} {stores : Bool}
    {reads : PlanReads} {planned : PlannedTrades}
    (h : planTrades library settings stores reads = .ok planned) :
    ∃ value plan, planned.portfolioValueUsd = .finite value ∧ 0 < value ∧
      buildStrategyCapitalPlan (.finite value) settings.allocations = .ok plan ∧
      TargetsFit value plan planned.targets := by
  obtain ⟨steps, rfl⟩ := planTrades_steps h
  exact ⟨steps.value, steps.capitalPlan, rfl, steps.value_pos, steps.planned, steps.targetsFit⟩

/-- Frames as they are where no text is a number. -/
def plainLibrary : FrameLibrary := { format := plainFormat, deviation := populationDeviation }

/-- Half of a portfolio in one fund, in the paper account. -/
def halfInFund : PlanSettings where
  execution := Settings.onPaper
  allocations := [("SP1", .finite (1 / 2)), ("cash", .finite (1 / 2))]

/-- A portfolio of cash and one position, and the last close of the fund. -/
def fundAt (close : ℚ) : PlanReads where
  account := .ok {
    cashUsd := 4000
    positions := [⟨"OLD", 60, 6000⟩]
    positionsMarketValueUsd := 6000 }
  currentUniverse := .error (.connection "not connected")
  priceHistory := some fun tickers _ => .ok {
    columns := tickers
    rows := [(⟨0, 0⟩, fun _ => .number (.finite close))] }

/-- Half of the portfolio is targeted. -/
theorem planned_targets_fit_halfInFund :
    ∃ planned, planTrades plainLibrary halfInFund true (fundAt 100) = .ok planned ∧
      planned.targets = [⟨"SP1", .finite (1 / 2), .finite 5000⟩] ∧
      ∃ value plan, planned.portfolioValueUsd = .finite value ∧ 0 < value ∧
        buildStrategyCapitalPlan (.finite value) halfInFund.allocations = .ok plan ∧
        TargetsFit value plan planned.targets := by
  have htargets : (planTrades plainLibrary halfInFund true (fundAt 100)).map (·.targets) =
      .ok [⟨"SP1", .finite (1 / 2), .finite 5000⟩] := by decide +kernel
  obtain ⟨planned, hplanned, htargets⟩ := map_eq_ok.mp htargets
  exact ⟨planned, hplanned, htargets, planned_targets_fit hplanned⟩

end Poma

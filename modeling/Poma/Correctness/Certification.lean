import Mathlib.Algebra.Order.BigOperators.Group.List
import Poma.Correctness.Planning
import Poma.Engine.RebalanceQuality

/-!
# What certification certifies

A certified rebalance has every order terminal, no cap, and the holdings and the
cash within the tolerance of the targets, so planning on the same snapshot
proposes no trade above it; all of this provided the weights, the market values
and the cash are numbers. A single one that is not makes a drift that is neither
above the tolerance nor within it, and is certified all the same.
-/

namespace Poma

/-- Planning inputs that stand for a snapshot and target weights at its total. -/
structure PlansSnapshot (inputs : PlanningInputs) (targets : List TargetPosition)
    (account : AccountSnapshot) (total minTradeNotionalUsd minWeightDeltaPct : ℚ) : Prop where
  positions : List.Forall₂ (fun planned reported => planned.ticker = reported.ticker ∧
    reported.quantity = .finite planned.quantity ∧
      reported.marketValue = .finite planned.marketValue)
    inputs.currentPositions account.positions
  targets : List.Forall₂ (fun planned target => planned.ticker = target.ticker ∧
    target.targetWeight.scale total = .finite planned.targetNotional) inputs.targets targets
  total : inputs.portfolioValueUsd = total
  minTradeNotional : inputs.minTradeNotionalUsd = minTradeNotionalUsd
  minWeightDelta : inputs.minWeightDeltaPct = minWeightDeltaPct

/-- Nothing is left to do on a snapshot worth a total. -/
structure NothingLeft (targets : List TargetPosition) (plannedValueUsd : Reported)
    (account : AccountSnapshot) (orders : List OrderLedgerEntry)
    (originalBrokerValueUsd : Option Reported) (minTradeNotionalUsd minWeightDeltaPct total : ℚ) :
    Prop where
  total_eq : account.totalValueUsd = .finite total
  total_pos : 0 < total
  terminal : ∀ entry ∈ orders, entry.isTerminal = true
  uncapped : capLimited plannedValueUsd originalBrokerValueUsd = false
  holdings : (Reported.sum (tickerDrifts targets account.positions total)).le
    (.finite (qualityTolerance minTradeNotionalUsd total minWeightDeltaPct)) = true
  cash : (account.cashUsd.sub (desiredCash targets total)).abs.le
    (.finite (qualityTolerance minTradeNotionalUsd total minWeightDeltaPct)) = true
  no_trade : ∀ inputs trades warnings,
    PlansSnapshot inputs targets account total minTradeNotionalUsd minWeightDeltaPct →
      generateTrades inputs = .ok (trades, warnings) → ∀ trade ∈ trades,
        |valueGap inputs trade.ticker| ≤ qualityTolerance minTradeNotionalUsd total minWeightDeltaPct

/-- A rebalance that is rightly certified. -/
def Certified (targets : List TargetPosition) (plannedValueUsd : Reported)
    (snapshot : Option AccountSnapshot) (orders : List OrderLedgerEntry)
    (originalBrokerValueUsd : Option Reported) (minTradeNotionalUsd minWeightDeltaPct : ℚ) : Prop :=
  ∃ account total, snapshot = some account ∧ NothingLeft targets plannedValueUsd account orders
    originalBrokerValueUsd minTradeNotionalUsd minWeightDeltaPct total

/-- The weights in use, the market values and the cash are finite numbers. -/
structure FiniteReads (targets : List TargetPosition) (account : AccountSnapshot) : Prop where
  cash : account.cashUsd.isFinite = true
  marketValues : ∀ position ∈ account.positions, position.marketValue.isFinite = true
  weights : ∀ ticker weight, targetWeight targets ticker = some weight → weight.isFinite = true

section

variable {targets : List TargetPosition} {plannedValueUsd : Reported}
  {snapshot : Option AccountSnapshot} {account : AccountSnapshot} {orders : List OrderLedgerEntry}
  {originalBrokerValueUsd : Option Reported}
  {minTradeNotionalUsd minWeightDeltaPct total : ℚ}

theorem le_of_not_lt {x : Reported} {bound : ℚ} (hx : x.isFinite = true)
    (h : (Reported.finite bound).lt x = false) : x.le (.finite bound) = true := by
  obtain ⟨value, rfl⟩ := Reported.isFinite_iff.mp hx
  simpa [Reported.lt, Reported.le] using h

/-- What an assessment has checked when it certifies. -/
theorem assessRebalance_targetReached (h : (assessRebalance targets plannedValueUsd snapshot orders
      originalBrokerValueUsd minTradeNotionalUsd minWeightDeltaPct).status = .targetReached) :
    ∃ account total, snapshot = some account ∧ account.totalValueUsd = .finite total ∧ 0 < total ∧
      (∀ entry ∈ orders, entry.isTerminal = true) ∧
      capLimited plannedValueUsd originalBrokerValueUsd = false ∧
      (Reported.finite (qualityTolerance minTradeNotionalUsd total minWeightDeltaPct)).lt
        (Reported.sum (tickerDrifts targets account.positions total)) = false ∧
      (Reported.finite (qualityTolerance minTradeNotionalUsd total minWeightDeltaPct)).lt
        (account.cashUsd.sub (desiredCash targets total)).abs = false := by
  unfold assessRebalance at h
  cases snapshot with
  | none => cases h
  | some account =>
    dsimp only at h
    split at h
    · cases h
    cases htotal : account.totalValueUsd with
    | infinite negative =>
      rw [htotal] at h
      cases h
    | nan =>
      rw [htotal] at h
      cases h
    | finite total =>
      rw [htotal] at h
      dsimp only at h
      split at h
      · cases h
      rename_i hpositive
      cases hcapped : capLimited plannedValueUsd originalBrokerValueUsd with
      | true =>
        rw [hcapped] at h
        cases h
      | false =>
        rw [hcapped] at h
        simp only [Bool.false_eq_true, ite_false] at h
        split at h
        · cases h
        split at h
        · cases h
        rename_i hworking
        split at h
        · cases h
        rename_i hwithin
        rw [Bool.or_eq_true, not_or, Bool.not_eq_true, Bool.not_eq_true] at hwithin
        refine ⟨account, total, rfl, htotal, not_le.mp hpositive, ?_, rfl, hwithin⟩
        intro entry hentry
        by_contra hopen
        apply hworking
        rw [gt_iff_lt, List.countP_pos_iff]
        exact ⟨entry, hentry, by simpa using hopen⟩

theorem mem_comparedTickers {positions : List ReportedPosition} {ticker : String} :
    ticker ∈ comparedTickers targets positions ↔
      (∃ target ∈ targets, target.ticker = ticker) ∨
        ∃ position ∈ positions, position.ticker = ticker := by
  unfold comparedTickers
  rw [List.mem_dedup, List.mem_append, List.mem_map, List.mem_map]

/-- The tickers that the drifts are taken over include those of the weights. -/
theorem mem_comparedTickers_of_targetWeight {positions : List ReportedPosition} {ticker : String}
    {weight : Reported} (h : targetWeight targets ticker = some weight) :
    ticker ∈ comparedTickers targets positions := by
  obtain ⟨target, hlast, -⟩ := Option.map_eq_some_iff.mp h
  have hmem := List.mem_of_getLast? hlast
  obtain ⟨htarget, hticker⟩ := List.mem_filter.mp hmem
  exact mem_comparedTickers.mpr (Or.inl ⟨target, htarget, by simpa using hticker⟩)

/-- What is compared within a tolerance is finite. -/
theorem NothingLeft.finiteReads (h : NothingLeft targets plannedValueUsd account orders
    originalBrokerValueUsd minTradeNotionalUsd minWeightDeltaPct total) :
    FiniteReads targets account := by
  have hgap : ∀ ticker ∈ comparedTickers targets account.positions,
      (actualValue account.positions ticker).isFinite = true ∧
        ((targetValue targets total ticker).getD (.finite 0)).isFinite = true := by
    intro ticker hticker
    have hfinite := Reported.isFinite_of_sum_abs_le h.holdings ticker hticker
    exact Reported.isFinite_sub.mp hfinite
  constructor
  · exact (Reported.isFinite_sub.mp (Reported.isFinite_of_abs_le h.cash)).1
  · intro position hposition
    have hcompared : position.ticker ∈ comparedTickers targets account.positions :=
      mem_comparedTickers.mpr (Or.inr ⟨position, hposition, rfl⟩)
    have hactual := (hgap position.ticker hcompared).1
    apply Reported.isFinite_of_sum hactual
    apply List.mem_map_of_mem
    rw [List.mem_filter]
    exact ⟨hposition, by simp⟩
  · intro ticker weight hweight
    have htarget := (hgap ticker (mem_comparedTickers_of_targetWeight hweight)).2
    rw [targetValue, hweight, Option.map_some, Option.getD_some, Reported.isFinite_scale] at htarget
    exact htarget

theorem FiniteReads.targetValue (h : FiniteReads targets account) (total : ℚ) (ticker : String) :
    ((targetValue targets total ticker).getD (.finite 0)).isFinite = true := by
  unfold Poma.targetValue
  cases hweight : targetWeight targets ticker with
  | none => rfl
  | some weight =>
    rw [Option.map_some, Option.getD_some, Reported.isFinite_scale]
    exact h.weights ticker weight hweight

theorem FiniteReads.tickerGap (h : FiniteReads targets account) (total : ℚ) (ticker : String) :
    (tickerGap targets account.positions total ticker).isFinite = true := by
  apply Reported.isFinite_sub.mpr
  refine ⟨?_, h.targetValue total ticker⟩
  apply Reported.isFinite_sum
  intro x hx
  obtain ⟨position, hposition, rfl⟩ := List.mem_map.mp hx
  exact h.marketValues position (List.mem_filter.mp hposition).1

theorem FiniteReads.desiredCash (h : FiniteReads targets account) (total : ℚ) :
    (desiredCash targets total).isFinite = true := by
  apply Reported.isFinite_sub.mpr
  refine ⟨rfl, ?_⟩
  apply Reported.isFinite_sum
  intro x hx
  obtain ⟨ticker, -, rfl⟩ := List.mem_map.mp hx
  exact h.targetValue total ticker

/-- Related lists have related last elements among those a related test keeps. -/
theorem getLast?_filter_of_forall₂ {α β : Type} {R : α → β → Prop} {p : α → Bool} {q : β → Bool}
    {xs : List α} {ys : List β} (h : List.Forall₂ R xs ys) (hpq : ∀ x y, R x y → p x = q y) :
    Option.Rel R (xs.filter p).getLast? (ys.filter q).getLast? := by
  induction h with
  | nil => exact .none
  | @cons x y xs ys hxy _ ih =>
    rw [List.filter_cons, List.filter_cons, hpq x y hxy]
    split
    · rw [List.getLast?_cons, List.getLast?_cons]
      apply Option.Rel.some
      revert ih
      generalize (xs.filter p).getLast? = a
      generalize (ys.filter q).getLast? = b
      intro ih
      cases ih with
      | some hab => exact hab
      | none => exact hxy
    · exact ih

/-- At most one element has a given key, when the keys are distinct. -/
theorem filter_eq_nil_or_singleton {α : Type} {f : α → String} {xs : List α}
    (h : (xs.map f).Nodup) (key : String) :
    (xs.filter fun x => f x = key) = [] ∨ ∃ x, (xs.filter fun x => f x = key) = [x] := by
  have hkeys : ∀ x ∈ xs.filter (fun x => f x = key), f x = key := by
    intro x hx
    simpa using (List.mem_filter.mp hx).2
  have hnodup : ((xs.filter fun x => f x = key).map f).Nodup :=
    (List.filter_sublist.map f).nodup h
  generalize (xs.filter fun x => f x = key) = kept at hkeys hnodup
  match kept with
  | [] => exact Or.inl rfl
  | [x] => exact Or.inr ⟨x, rfl⟩
  | x :: y :: rest =>
    have hsame : f x = f y := (hkeys x (by simp)).trans (hkeys y (by simp)).symm
    simp [hsame] at hnodup

/-- The planned gap of a ticker is the one that is assessed. -/
theorem PlansSnapshot.tickerGap {inputs : PlanningInputs} (h : PlansSnapshot inputs targets account
      total minTradeNotionalUsd minWeightDeltaPct)
    (hnodup : (account.positions.map (·.ticker)).Nodup) (ticker : String) :
    (tickerGap targets account.positions total ticker).abs =
      .finite |valueGap inputs ticker| := by
  have htarget := getLast?_filter_of_forall₂ (p := fun t => t.ticker = ticker)
    (q := fun t => t.ticker = ticker) h.targets fun x y hxy => by rw [hxy.1]
  have hheld := getLast?_filter_of_forall₂ (p := fun t => t.ticker = ticker)
    (q := fun t => t.ticker = ticker) h.positions fun x y hxy => by rw [hxy.1]
  have hactual : actualValue account.positions ticker =
      .finite (((currentByTicker inputs.currentPositions ticker).map (·.marketValue)).getD 0) := by
    unfold actualValue currentByTicker
    revert hheld
    generalize (inputs.currentPositions.filter fun t => t.ticker = ticker).getLast? = held
    rcases filter_eq_nil_or_singleton hnodup ticker with hkept | ⟨position, hkept⟩
    · rw [hkept]
      intro hheld
      cases hheld
      rfl
    · rw [hkept, List.getLast?_singleton, List.map_singleton]
      intro hheld
      cases hheld with
      | some hsame =>
        rw [hsame.2.2]
        simp [Reported.sum, Reported.add]
  have hwanted : (targetValue targets total ticker).getD (.finite 0) =
      .finite ((targetByTicker inputs.targets ticker).getD 0) := by
    unfold targetValue targetWeight targetByTicker
    revert htarget
    generalize (inputs.targets.filter fun t => t.ticker = ticker).getLast? = planned
    generalize (targets.filter fun t => t.ticker = ticker).getLast? = target
    intro htarget
    cases htarget with
    | none => rfl
    | some hsame => exact hsame.2
  rw [Poma.tickerGap, hactual, hwanted, Reported.sub, Reported.neg, Reported.add, Reported.abs,
    valueGap, ← sub_eq_add_neg, abs_sub_comm]

/-- A ticker's gap is within the sum of the gaps. -/
theorem PlansSnapshot.gap_le {inputs : PlanningInputs} {bound : ℚ}
    (h : PlansSnapshot inputs targets account total minTradeNotionalUsd minWeightDeltaPct)
    (hnodup : (account.positions.map (·.ticker)).Nodup)
    (hbound : (Reported.sum (tickerDrifts targets account.positions total)).le (.finite bound) =
      true) {ticker : String} (hticker : ticker ∈ comparedTickers targets account.positions) :
    |valueGap inputs ticker| ≤ bound := by
  have hdrifts : tickerDrifts targets account.positions total =
      ((comparedTickers targets account.positions).map fun t => |valueGap inputs t|).map
        Reported.finite := by
    unfold tickerDrifts
    rw [List.map_map]
    exact List.map_congr_left fun t _ => h.tickerGap hnodup t
  rw [hdrifts, Reported.sum_finite] at hbound
  have hpart := List.single_le_sum (l := (comparedTickers targets account.positions).map fun t =>
    |valueGap inputs t|) (by simp) _ (List.mem_map_of_mem hticker)
  exact hpart.trans (by simpa [Reported.le] using hbound)

/-- A ticker that is not compared has no gap. -/
theorem PlansSnapshot.gap_of_not_compared {inputs : PlanningInputs}
    (h : PlansSnapshot inputs targets account total minTradeNotionalUsd minWeightDeltaPct)
    (hnodup : (account.positions.map (·.ticker)).Nodup) {ticker : String}
    (hticker : ticker ∉ comparedTickers targets account.positions) :
    valueGap inputs ticker = 0 := by
  obtain ⟨htarget, hposition⟩ := not_or.mp fun hmem => hticker (mem_comparedTickers.mpr hmem)
  have hheld : (account.positions.filter fun p => p.ticker = ticker) = [] := by
    rw [List.filter_eq_nil_iff]
    exact fun p hp hsame => hposition ⟨p, hp, by simpa using hsame⟩
  have hwanted : (targets.filter fun t => t.ticker = ticker) = [] := by
    rw [List.filter_eq_nil_iff]
    exact fun t ht hsame => htarget ⟨t, ht, by simpa using hsame⟩
  have hgap := h.tickerGap hnodup ticker
  simp only [Poma.tickerGap, actualValue, targetValue, targetWeight, hheld, hwanted] at hgap
  have hzero : |valueGap inputs ticker| = 0 := by
    simpa [Reported.sum, Reported.sub, Reported.neg, Reported.add, Reported.abs, eq_comm] using hgap
  exact abs_eq_zero.mp hzero

/-- Of finite numbers, what is certified is within the tolerance, and leaves nothing to trade. -/
theorem FiniteReads.nothingLeft (h : FiniteReads targets account)
    (hnodup : (account.positions.map (·.ticker)).Nodup)
    (htotal : account.totalValueUsd = .finite total) (hpositive : 0 < total)
    (hterminal : ∀ entry ∈ orders, entry.isTerminal = true)
    (huncapped : capLimited plannedValueUsd originalBrokerValueUsd = false)
    (hholdings : (Reported.finite (qualityTolerance minTradeNotionalUsd total
      minWeightDeltaPct)).lt (Reported.sum (tickerDrifts targets account.positions total)) = false)
    (hcash : (Reported.finite (qualityTolerance minTradeNotionalUsd total minWeightDeltaPct)).lt
      (account.cashUsd.sub (Poma.desiredCash targets total)).abs = false) :
    NothingLeft targets plannedValueUsd account orders originalBrokerValueUsd minTradeNotionalUsd
      minWeightDeltaPct total := by
  have hdrift : (Reported.sum (tickerDrifts targets account.positions total)).isFinite = true := by
    apply Reported.isFinite_sum
    intro x hx
    obtain ⟨ticker, -, rfl⟩ := List.mem_map.mp hx
    rw [Reported.isFinite_abs]
    exact h.tickerGap total ticker
  have hwithin := le_of_not_lt hdrift hholdings
  have hcashFinite : (account.cashUsd.sub (Poma.desiredCash targets total)).abs.isFinite = true := by
    rw [Reported.isFinite_abs]
    exact Reported.isFinite_sub.mpr ⟨h.cash, h.desiredCash total⟩
  constructor
  · exact htotal
  · exact hpositive
  · exact hterminal
  · exact huncapped
  · exact hwithin
  · exact le_of_not_lt hcashFinite hcash
  · intro inputs trades warnings hplans hplan trade htrade
    have hproposed := (generateTrades_proposed hplan).1 trade htrade
    by_cases hcompared : trade.ticker ∈ comparedTickers targets account.positions
    · exact hplans.gap_le hnodup hwithin hcompared
    · -- no trade is proposed without a gap
      have hzero := hplans.gap_of_not_compared hnodup hcompared
      have hsized := hproposed.quantity_pos
      have hnotional := hproposed.notional
      rw [hzero, abs_zero] at hnotional
      have hside := hproposed.side
      rw [hzero, if_neg (lt_irrefl _)] at hside
      have hmost := hproposed.quantity_sell hside
      rw [hnotional, zero_div] at hmost
      exact absurd hsized (not_lt.mpr hmost)

/-- A certified rebalance is rightly certified exactly when the weights, the market values and the
cash it was assessed on are finite numbers. -/
theorem assessRebalance_certified_iff
    (hnodup : ∀ account, snapshot = some account → (account.positions.map (·.ticker)).Nodup)
    (h : (assessRebalance targets plannedValueUsd snapshot orders originalBrokerValueUsd
      minTradeNotionalUsd minWeightDeltaPct).status = .targetReached) :
    Certified targets plannedValueUsd snapshot orders originalBrokerValueUsd minTradeNotionalUsd
        minWeightDeltaPct ↔
      ∀ account, snapshot = some account → FiniteReads targets account := by
  constructor
  · intro hcertified account haccount
    obtain ⟨other, total, hother, hleft⟩ := hcertified
    obtain rfl := Option.some.inj (hother.symm.trans haccount)
    exact hleft.finiteReads
  · intro hfinite
    obtain ⟨account, total, haccount, htotal, hpositive, hterminal, huncapped, hholdings, hcash⟩ :=
      assessRebalance_targetReached h
    exact ⟨account, total, haccount, (hfinite account haccount).nothingLeft
      (hnodup account haccount) htotal hpositive hterminal huncapped hholdings hcash⟩

end

/-- Nine tenths in one fund. -/
def fundTargets : List TargetPosition := [⟨"USMC", .finite (9 / 10), .finite 9000⟩]

/-- A thousand in cash and ninety shares of the fund, at a hundred. -/
def fundHeld : AccountSnapshot where
  cashUsd := .finite 1000
  positionsMarketValueUsd := .finite 9000
  netLiquidationUsd := some (.finite 10000)
  positions := [⟨"USMC", .finite 90, .finite 9000⟩]

/-- The same account with a market value that is not a number; the account summary still values the
positions. -/
def fundUnpriced : AccountSnapshot where
  cashUsd := .finite 1000
  positionsMarketValueUsd := .finite 9000
  netLiquidationUsd := some (.finite 10000)
  positions := [⟨"USMC", .finite 90, .nan⟩]

/-- The order for the fund, filled. -/
def fundOrder : OrderLedgerEntry where
  ledgerKey := "poma:run:0:USMC:BUY"
  orderRef := "poma:run:0:USMC:BUY"
  runId := "run"
  sessionDate := "2026-10-16"
  ticker := "USMC"
  side := .buy
  quantity := 90
  limitPrice := some 100
  lifecycleState := .filled
  filledQty := 90

theorem assessRebalance_certified_iff_fundHeld :
    Certified fundTargets (.finite 10000) (some fundHeld) [fundOrder] none 25 (1 / 400) ↔
      ∀ account, some fundHeld = some account → FiniteReads fundTargets account := by
  apply assessRebalance_certified_iff
  · intro account haccount
    obtain rfl := Option.some.inj haccount
    decide
  · decide +kernel

/-- An account with a market value that is not a number is certified. -/
theorem not_certified_fundUnpriced :
    (assessRebalance fundTargets (.finite 10000) (some fundUnpriced) [fundOrder] none 25
      (1 / 400)).status = .targetReached ∧
    ¬Certified fundTargets (.finite 10000) (some fundUnpriced) [fundOrder] none 25 (1 / 400) := by
  constructor
  · decide +kernel
  · rintro ⟨account, total, haccount, hleft⟩
    obtain rfl := Option.some.inj haccount
    have hvalue := hleft.finiteReads.marketValues ⟨"USMC", .finite 90, .nan⟩ List.mem_cons_self
    cases hvalue

end Poma

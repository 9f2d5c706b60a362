import Poma.Correctness.Blocking
import Poma.Correctness.Lifetimes
import Poma.Correctness.Overshoot
import Poma.Correctness.Plans

/-!
# Plans within their limits

Every trade of a plan closes the gap of its ticker: a sell is of a held position
and no more than it, a buy is at most half a share above its target, and no
ticker is traded twice. A plan without a blocking warning was sized on what the
account and the prices were read to be, and keeps every limit.
-/

namespace Poma

open Interaction (map_eq_ok)

section Generated

variable {inputs : PlanningInputs}

/-- The limit of a generated trade is offset from its reference price. -/
def ProposedTrade.LimitOffset (offsetBps : ℚ) (trade : ProposedTrade) : Prop :=
  trade.limitPrice = some (buildLimitPrice trade.side trade.referencePrice offsetBps)

theorem sizeTrade_limitOffset {offsetBps gap price : ℚ} {ticker : String} {side : OrderSide}
    {current : Option CurrentPosition} {trade : ProposedTrade}
    (h : sizeTrade offsetBps ticker side current gap price = some trade) :
    trade.LimitOffset offsetBps := by
  have hsized : ∀ quantity : ℚ, (if quantity ≤ 0 then none else some ({
      ticker := ticker
      side := side
      quantity := quantity
      notional := gap
      referencePrice := price
      limitPrice := some (buildLimitPrice side price offsetBps)
      reason := "rebalance_to_target_weight" } : ProposedTrade)) = some trade →
      trade.LimitOffset offsetBps := by
    intro quantity hquantity
    split at hquantity
    · cases hquantity
    · obtain rfl := Option.some.inj hquantity
      rfl
  exact hsized _ h

theorem generateTrade_limitOffset {ticker : String} {trade : ProposedTrade}
    {warnings : List String} (h : generateTrade inputs ticker = .ok (some trade, warnings)) :
    trade.LimitOffset inputs.limitOffsetBps := by
  unfold generateTrade at h
  dsimp only at h
  split at h
  · cases h
  split at h
  · cases h
  split at h
  · cases h
  split at h
  · cases h
  · split at h
    · exact sizeTrade_limitOffset (Prod.mk.inj (Except.ok.inj h)).1
    · split at h
      · exact sizeTrade_limitOffset (Prod.mk.inj (Except.ok.inj h)).1
      · cases h

theorem generateTrades_limitOffset {trades : List ProposedTrade} {warnings : List String}
    (h : generateTrades inputs = .ok (trades, warnings)) :
    ∀ trade ∈ trades, trade.LimitOffset inputs.limitOffsetBps := by
  obtain ⟨planned, hplanned, hpair⟩ := map_eq_ok.mp h
  obtain ⟨rfl, -⟩ := Prod.mk.inj hpair
  intro trade htrade
  obtain ⟨⟨found, reasons⟩, hmem, rfl⟩ := List.mem_filterMap.mp htrade
  obtain ⟨ticker, -, hticker⟩ := exists_of_forall₂ (forall₂_of_mapM_ok hplanned) hmem
  exact generateTrade_limitOffset hticker

end Generated

/-- A trade that closes the gap of its ticker: a sell of no more than is held of it and of no more
than the gap, a buy of at most half a share more. -/
structure PlanningInputs.ClosedBy (inputs : PlanningInputs) (trade : ProposedTrade) : Prop where
  quantity_pos : 0 < trade.quantity
  price_pos : 0 < trade.referencePrice
  limit : trade.LimitOffset inputs.limitOffsetBps
  notional : trade.quantity * trade.referencePrice ≤ trade.notional
  worth : inputs.minTradeNotionalUsd ≤ |valueGap inputs trade.ticker|
  buy : trade.side = .buy → 0 < valueGap inputs trade.ticker ∧
    trade.quantity * trade.referencePrice ≤
      valueGap inputs trade.ticker + trade.referencePrice / 2
  sell : trade.side = .sell → valueGap inputs trade.ticker ≤ 0 ∧
    trade.quantity * trade.referencePrice ≤ -valueGap inputs trade.ticker
  held : trade.side = .sell → ∀ position,
    currentByTicker inputs.currentPositions trade.ticker = some position →
      trade.quantity ≤ |position.quantity|

section Rounded

variable {inputs : PlanningInputs} {rules : ExecutionRules} {side : OrderSide}
  {trade t : ProposedTrade}

/-- Rounding leaves the limit of a trade. -/
theorem executable_limitPrice (h : executable rules side trade = some t) :
    t.limitPrice = trade.limitPrice := by
  unfold executable at h
  dsimp only at h
  split at h
  · cases h
  · rw [← Option.some.inj h]
    unfold ProposedTrade.withQuantity
    split <;> rfl

/-- Rounding leaves no trade worth more than its notional. -/
theorem executable_notional (hnotional : trade.quantity * trade.referencePrice ≤ trade.notional)
    (h : executable rules side trade = some t) :
    t.quantity * t.referencePrice ≤ t.notional := by
  unfold executable at h
  dsimp only at h
  split at h
  · cases h
  · rw [← Option.some.inj h]
    unfold ProposedTrade.withQuantity
    split
    · exact le_refl _
    · exact hnotional

/-- Rounding gives a positive quantity, within half a share of that of a buy and never above that
of a sell. -/
theorem executable_quantity_le
    (hrule : (resolveExecutionRule trade.ticker rules).Fractional ∨
      (resolveExecutionRule trade.ticker rules).Whole)
    (hside : side = trade.side ∨ side = .sell) (h : executable rules side trade = some t) :
    0 < t.quantity ∧ t.quantity ≤ trade.quantity + 1 / 2 ∧
      (trade.side = .sell → t.quantity ≤ trade.quantity) := by
  unfold executable at h
  dsimp only at h
  split at h
  · cases h
  rename_i hchecks
  obtain ⟨hpositive, -⟩ := not_or.mp hchecks
  have hquantity : t.quantity = roundedExecutionQuantity trade.quantity side
      (resolveExecutionRule trade.ticker rules) := by
    rw [← Option.some.inj h]
    unfold ProposedTrade.withQuantity
    split
    · rfl
    · rename_i hsame
      exact (not_not.mp hsame).symm
  rw [hquantity]
  refine ⟨not_le.mp hpositive, ?_⟩
  rcases hrule with hrule | hrule
  · rw [roundedExecutionQuantity_fractional hrule]
    exact ⟨by linarith, fun _ => le_refl _⟩
  · cases side with
    | buy =>
      have hbuy : trade.side = .buy := by
        rcases hside with h | h
        · exact h.symm
        · cases h
      rw [roundedExecutionQuantity_buy hrule, hbuy]
      exact ⟨Int.floor_le _, nofun⟩
    | sell =>
      rw [roundedExecutionQuantity_sell hrule]
      have hfloor := Int.floor_le trade.quantity
      exact ⟨by linarith, fun _ => hfloor⟩

/-- A generated trade that is rounded closes the gap of its ticker. -/
theorem Proposed.closedBy (h : Proposed inputs trade)
    (hlimit : trade.LimitOffset inputs.limitOffsetBps)
    (hrule : (resolveExecutionRule trade.ticker rules).Fractional ∨
      (resolveExecutionRule trade.ticker rules).Whole)
    (hside : side = trade.side ∨ side = .sell) (ht : executable rules side trade = some t) :
    inputs.ClosedBy t := by
  obtain ⟨hpositive, hnearest, hdown⟩ := executable_quantity_le hrule hside ht
  have hticker := executable_ticker ht
  have hsame := executable_side ht
  have hprice := executable_referencePrice ht
  have hdirection := h.side
  constructor
  case quantity_pos => exact hpositive
  case price_pos => exact hprice ▸ h.price_pos
  case limit =>
    unfold ProposedTrade.LimitOffset
    rw [executable_limitPrice ht, hsame, hprice]
    exact hlimit
  case notional =>
    apply executable_notional _ ht
    rw [← le_div_iff₀ h.price_pos]
    cases hkind : trade.side with
    | buy => exact (h.quantity_buy hkind).le
    | sell => exact h.quantity_sell hkind
  case worth =>
    rw [hticker, ← h.notional]
    exact h.worth_trading
  case buy =>
    intro hbuy
    rw [hsame] at hbuy
    have hgap : 0 < valueGap inputs trade.ticker := by
      by_contra hnot
      rw [if_neg hnot, hbuy] at hdirection
      cases hdirection
    rw [hticker, hprice]
    refine ⟨hgap, ?_⟩
    have hwanted := h.quantity_buy hbuy
    rw [h.notional, abs_of_pos hgap, eq_div_iff h.price_pos.ne'] at hwanted
    have hmore := mul_le_mul_of_nonneg_right hnearest h.price_pos.le
    linarith
  case sell =>
    intro hsell
    rw [hsame] at hsell
    have hgap : valueGap inputs trade.ticker ≤ 0 := by
      by_contra hnot
      rw [if_pos (not_le.mp hnot), hsell] at hdirection
      cases hdirection
    rw [hticker, hprice]
    refine ⟨hgap, ?_⟩
    have hwanted := h.quantity_sell hsell
    rw [h.notional, abs_of_nonpos hgap, le_div_iff₀ h.price_pos] at hwanted
    have hless := mul_le_mul_of_nonneg_right (hdown hsell) h.price_pos.le
    linarith
  case held =>
    intro hsell position hposition
    rw [hsame] at hsell
    rw [hticker] at hposition
    exact (hdown hsell).trans (h.quantity_held hsell position hposition)

/-- Demotions leave some of the trades. -/
theorem nodup_demotedPlan {rounded : List (ProposedTrade × Option ℚ)} {demoted : List Nat}
    (h : (rounded.map (·.1.ticker)).Nodup) :
    ((demotedPlan rules rounded demoted).map (·.ticker)).Nodup := by
  have hsublist : ∀ items : List ((ProposedTrade × Option ℚ) × Nat),
      ((items.filterMap (demoteItem rules demoted)).map (·.ticker)).Sublist
        (items.map (·.1.1.ticker)) := by
    intro items
    induction items with
    | nil => exact List.Sublist.refl _
    | cons item items ih =>
      obtain ⟨⟨trade, floor⟩, index⟩ := item
      rw [List.filterMap_cons, List.map_cons]
      cases hitem : demoteItem rules demoted ((trade, floor), index) with
      | none => exact ih.cons _
      | some t =>
        rw [List.map_cons, demoteItem_ticker hitem]
        exact ih.cons_cons _
  have hrounded := hsublist rounded.zipIdx
  have htickers : rounded.zipIdx.map (·.1.1.ticker) = rounded.map (·.1.ticker) := by
    conv_rhs => rw [← List.zipIdx_map_fst 0 rounded, List.map_map]
    rfl
  rw [htickers] at hrounded
  exact h.sublist hrounded

end Rounded

/-- The cost filter leaves some of the trades. -/
theorem filterTrades_sublist (trades : List ProposedTrade) (minimum bps fixed : ℚ) :
    (filterTradesByEstimatedTransactionCost trades minimum bps fixed).1.Sublist trades := by
  unfold filterTradesByEstimatedTransactionCost
  split
  · exact List.Sublist.refl _
  · exact List.filter_sublist

/-- The trades of a plan close the gaps of their tickers, and trade no ticker twice. -/
theorem sizeTrades_closedBy {settings : PlanSettings} {account : AccountReading}
    {inputs : PlanningInputs} {sized : SizedTrades}
    (h : sizeTrades settings account inputs = .ok sized) :
    (∀ trade ∈ sized.trades, inputs.ClosedBy trade) ∧ (sized.trades.map (·.ticker)).Nodup := by
  obtain ⟨⟨generated, warnings⟩, hgenerated, rfl⟩ := map_eq_ok.mp h
  obtain ⟨hproposed, hnodup⟩ := generateTrades_proposed hgenerated
  have hlimit := generateTrades_limitOffset hgenerated
  have hkept := filterTrades_sublist generated settings.minTradeNotionalUsd
    settings.estimatedTransactionCostBps settings.estimatedTransactionCostFixedUsd
  dsimp only
  generalize (filterTradesByEstimatedTransactionCost generated settings.minTradeNotionalUsd
    settings.estimatedTransactionCostBps settings.estimatedTransactionCostFixedUsd).1 = kept at hkept
  obtain ⟨done, -, -, hplan, -⟩ :=
    applyExecutionPolicy_plan kept settings.execution.executionRules account.cashUsd
  have hplanned := hplan
  rw [hplanned]
  constructor
  · intro t ht
    have hrules : ∀ ticker,
        (resolveExecutionRule ticker settings.execution.executionRules).Fractional ∨
          (resolveExecutionRule ticker settings.execution.executionRules).Whole :=
      resolveExecutionRule_cases _ _ _
    obtain ⟨trade, htrade, hexecutable⟩ := mem_demotedPlan
      (fun trade htrade => (hproposed trade (hkept.subset htrade)).quantity_pos) (hrules _) ht
    have hgood := hproposed trade (hkept.subset htrade)
    have hoffset := hlimit trade (hkept.subset htrade)
    rcases hexecutable with hnearest | hdown
    · exact hgood.closedBy hoffset (hrules _) (Or.inl rfl) hnearest
    · exact hgood.closedBy hoffset (hrules _) (Or.inr rfl) hdown
  · apply nodup_demotedPlan
    exact nodup_roundTrades (hnodup.sublist (hkept.map _))

namespace PlanSteps

variable {library : FrameLibrary} {settings : PlanSettings} {reads : PlanReads}
  (steps : PlanSteps library settings reads) {trade : ProposedTrade}

theorem closedBy (h : trade ∈ steps.sized.trades) : steps.inputs.ClosedBy trade :=
  (sizeTrades_closedBy steps.generated).1 trade h

theorem nodup_tickers : (steps.sized.trades.map (·.ticker)).Nodup :=
  (sizeTrades_closedBy steps.generated).2

/-- No ticker is targeted below nothing. -/
theorem target_nonneg (ticker : String) :
    0 ≤ (targetByTicker steps.inputs.targets ticker).getD 0 := by
  unfold targetByTicker
  cases hfound : (steps.inputs.targets.filter fun t => t.ticker = ticker).getLast? with
  | none => exact le_refl _
  | some target =>
    have hmem := (List.mem_filter.mp (List.mem_of_getLast? hfound)).1
    obtain ⟨position, hposition, rfl⟩ := List.mem_map.mp hmem
    obtain ⟨name, -, rfl⟩ := List.mem_map.mp hposition
    apply List.sum_nonneg
    intro notional hnotional
    obtain ⟨target, htarget, rfl⟩ := List.mem_map.mp hnotional
    exact steps.contribution_nonneg (List.mem_filter.mp htarget).1

/-- What is sold is held. -/
theorem sold_held (h : trade ∈ steps.sized.trades) (hside : trade.side = .sell) :
    ∃ position ∈ steps.account.positions, position.ticker = trade.ticker ∧
      trade.quantity ≤ |position.quantity| ∧
      trade.quantity * trade.referencePrice ≤ position.marketValue := by
  have hcloses := steps.closedBy h
  obtain ⟨hgap, hvalue⟩ := hcloses.sell hside
  have htarget := steps.target_nonneg trade.ticker
  have hworth : valueGap steps.inputs trade.ticker ≠ 0 := by
    intro hzero
    have hminimum := settings.minTradeNotional_pos
    have hleast : settings.minTradeNotionalUsd ≤ |valueGap steps.inputs trade.ticker| :=
      hcloses.worth
    rw [hzero, abs_zero] at hleast
    exact hleast.not_gt hminimum
  have hbelow := lt_of_le_of_ne hgap hworth
  unfold valueGap at hbelow hvalue
  cases hheld : currentByTicker steps.inputs.currentPositions trade.ticker with
  | none =>
    rw [hheld, Option.map_none, Option.getD_none, sub_zero] at hbelow
    exact absurd htarget hbelow.not_ge
  | some position =>
    rw [hheld, Option.map_some, Option.getD_some] at hbelow hvalue
    have hmem := List.mem_filter.mp (List.mem_of_getLast? hheld)
    exact ⟨position, hmem.1, of_decide_eq_true hmem.2, hcloses.held hside position hheld,
      by linarith⟩

end PlanSteps

/-- Every trade of every plan closes the gap between what its ticker should be worth and what it is,
a sell is of a held position and of no more than is held, and no ticker is traded twice. -/
theorem planned_trades_close {library : FrameLibrary} {settings : PlanSettings} {stores : Bool}
    {reads : PlanReads} {planned : PlannedTrades}
    (h : planTrades library settings stores reads = .ok planned) :
    ∃ steps : PlanSteps library settings reads, planned = steps.plan stores ∧
      (planned.trades.map (·.ticker)).Nodup ∧ ∀ trade ∈ planned.trades,
        steps.inputs.ClosedBy trade ∧ (trade.side = .sell →
          ∃ position ∈ steps.account.positions, position.ticker = trade.ticker ∧
            trade.quantity ≤ |position.quantity| ∧
            trade.quantity * trade.referencePrice ≤ position.marketValue) := by
  obtain ⟨steps, rfl⟩ := planTrades_steps h
  refine ⟨steps, rfl, steps.nodup_tickers, fun trade htrade => ?_⟩
  exact ⟨steps.closedBy htrade, steps.sold_held htrade⟩

/-- The old position is sold and the fund is bought. -/
theorem planned_trades_close_halfInFund :
    ∃ planned, planTrades plainLibrary halfInFund true (fundAt 100) = .ok planned ∧
      planned.trades.map (fun trade => (trade.side, trade.ticker, trade.quantity)) =
        [(.sell, "OLD", 60), (.buy, "SP1", 50)] ∧
      ∃ steps : PlanSteps plainLibrary halfInFund (fundAt 100), planned = steps.plan true ∧
        (planned.trades.map (·.ticker)).Nodup ∧ ∀ trade ∈ planned.trades,
          steps.inputs.ClosedBy trade ∧ (trade.side = .sell →
            ∃ position ∈ steps.account.positions, position.ticker = trade.ticker ∧
              trade.quantity ≤ |position.quantity| ∧
              trade.quantity * trade.referencePrice ≤ position.marketValue) := by
  have htrades : (planTrades plainLibrary halfInFund true (fundAt 100)).map
      (fun planned => planned.trades.map fun trade => (trade.side, trade.ticker, trade.quantity)) =
        .ok [(.sell, "OLD", 60), (.buy, "SP1", 50)] := by decide +kernel
  obtain ⟨planned, hplanned, htrades⟩ := map_eq_ok.mp htrades
  exact ⟨planned, hplanned, htrades, planned_trades_close hplanned⟩

section Sound

/-- More than half rounds to a positive number. -/
theorem roundHalfEven_pos {x : ℚ} (h : 1 / 2 < x) : 0 < roundHalfEven x := by
  have hbelow : 0 ≤ ⌊x⌋ := Int.floor_nonneg.mpr (by linarith)
  have hnear : x < ⌊x⌋ + 1 := Int.lt_floor_add_one x
  rcases hbelow.lt_or_eq with hpos | hzero
  · unfold roundHalfEven
    dsimp only
    split_ifs <;> omega
  · have hrest : 1 / 2 < x - (⌊x⌋ : ℚ) := by
      rw [← hzero]
      linarith
    unfold roundHalfEven
    dsimp only
    rw [if_neg (not_lt.mpr hrest.le), if_pos hrest]
    omega

/-- A buy of a share that costs more than half a cent has a positive limit. -/
theorem buildLimitPrice_pos {price offsetBps : ℚ} (hoffset : 0 ≤ offsetBps)
    (hprice : 1 / 200 < price) : 0 < buildLimitPrice .buy price offsetBps := by
  unfold buildLimitPrice roundTo
  have hraised : price ≤ price * (1 + offsetBps / 10000) := by
    have hmore : 0 ≤ offsetBps / 10000 := div_nonneg hoffset (by norm_num)
    nlinarith
  have hcents : 1 / 2 < price * (1 + offsetBps / 10000) * 10 ^ 2 := by
    norm_num
    linarith
  have hrounded := roundHalfEven_pos hcents
  rw [if_pos rfl]
  apply div_pos
  · exact_mod_cast hrounded
  · norm_num

/-- A plan of the engine is one an attempt can rely on, unless it buys something that costs half a
cent or less. -/
theorem PlanSteps.sound {library : FrameLibrary} {settings : PlanSettings} {reads : PlanReads}
    (steps : PlanSteps library settings reads)
    (hprices : ∀ trade ∈ steps.sized.trades, trade.side = .buy → 1 / 200 < trade.referencePrice)
    {plan : RebalancePlan} (hplan : plan.trades = steps.sized.trades) : plan.Sound := by
  constructor
  · unfold RebalancePlan.Distinct
    rw [hplan]
    apply List.Nodup.of_map Prod.fst
    rw [List.map_map]
    exact steps.nodup_tickers
  · intro trade htrade hside
    rw [hplan] at htrade
    have hcloses := steps.closedBy htrade
    have hlimit : trade.limitPrice = some (buildLimitPrice trade.side trade.referencePrice
      settings.execution.limitOffsetBps) := hcloses.limit
    refine ⟨hside, hcloses.quantity_pos, ?_, fun hnone => ?_⟩
    · unfold ProposedTrade.cashPerShare
      rw [hlimit, hside, Option.getD_some]
      exact buildLimitPrice_pos settings.execution.limitOffset_nonneg (hprices trade htrade hside)
    · rw [hlimit] at hnone
      cases hnone

end Sound

section Limits

variable {warnings : List String}

/-- No warning blocks. -/
def Unblocked (warnings : List String) : Prop :=
  ∀ warning ∈ warnings, containsText warning blockMarker = false

theorem Unblocked.nil (h : Unblocked warnings)
    (hmarked : ∀ warning ∈ warnings, containsText warning blockMarker = true) : warnings = [] := by
  apply List.eq_nil_iff_forall_not_mem.mpr
  intro warning hwarning
  have hmark := hmarked warning hwarning
  rw [h warning hwarning] at hmark
  cases hmark

theorem Unblocked.subset {others : List String} (h : Unblocked warnings)
    (hsubset : others ⊆ warnings) : Unblocked others := fun warning hwarning =>
  h warning (hsubset hwarning)

section Marked

variable {trades : List ProposedTrade} {value bound cash : ℚ} {most : Nat} {warning : String}

theorem enforceTurnoverLimit_marked (h : warning ∈ enforceTurnoverLimit trades value bound) :
    containsText warning blockMarker = true := by
  unfold enforceTurnoverLimit at h
  dsimp only at h
  split at h
  · rw [List.mem_singleton.mp h]
    exact containsText_append_right (by decide +kernel) _
  · cases h

theorem enforceOrderLimits_marked (h : warning ∈ enforceOrderLimits trades bound most) :
    containsText warning blockMarker = true := by
  unfold enforceOrderLimits at h
  dsimp only at h
  rcases List.mem_append.mp h with h | h
  · split at h
    · rw [List.mem_singleton.mp h]
      exact containsText_append_right (by decide +kernel) _
    · cases h
  · split at h
    · cases h
    · rw [List.mem_singleton.mp h]
      exact containsText_append_right (by decide +kernel) _

theorem enforceBuyingPower_marked (h : warning ∈ enforceBuyingPower trades cash) :
    containsText warning blockMarker = true := by
  unfold enforceBuyingPower at h
  dsimp only at h
  split at h
  · rw [List.mem_singleton.mp h]
    exact containsText_append_right (by decide +kernel) _
  · cases h

theorem planPriceHistory_marked {className : Exn → String} {format : CellFormat}
    {loader : Option (List String → ℤ → Except Exn PriceHistory)}
    {requirements : List StrategyDataRequirements}
    (h : warning ∈ (planPriceHistory className format loader requirements).2) :
    containsText warning blockMarker = true := by
  unfold planPriceHistory at h
  dsimp only at h
  split at h
  · cases h
  split at h
  · rw [List.mem_singleton.mp h]
    exact containsText_append_right (by decide +kernel) _
  split at h
  · rw [List.mem_singleton.mp h]
    exact containsText_append_left (containsText_append_left
      (containsText_append_right (by decide +kernel) _) _) _
  · dsimp only at h
    split at h
    · cases h
    · rw [List.mem_singleton.mp h]
      exact containsText_append_right (by decide +kernel) _

theorem planAccount_read {className : Exn → String} {settings : PlanSettings}
    {reading : Except Exn AccountReading}
    (h : Unblocked (planAccount className settings reading).2) :
    settings.execution.tradingMode = .dryRun ∨
      reading = .ok (planAccount className settings reading).1 ∧
        0 < (planAccount className settings reading).1.totalValueUsd := by
  by_cases hdry : settings.execution.tradingMode = .dryRun
  · exact Or.inl hdry
  · refine Or.inr ?_
    unfold planAccount at h ⊢
    dsimp only at h ⊢
    rw [if_neg hdry] at h ⊢
    cases reading with
    | error e =>
      have hmarked := h _ List.mem_cons_self
      rw [containsText_append_left (containsText_append_left
        (containsText_append_right (by decide +kernel) _) _) _] at hmarked
      cases hmarked
    | ok account =>
      dsimp only at h ⊢
      by_cases htotal : account.totalValueUsd ≤ 0
      · rw [if_pos htotal] at h
        have hmarked := h _ (List.mem_append_right _ List.mem_cons_self)
        rw [containsText_append_right (by decide +kernel) _] at hmarked
        cases hmarked
      · rw [if_neg htotal]
        exact ⟨rfl, not_le.mp htotal⟩

end Marked

end Limits

/-- A plan that was sized on what was read and keeps the limits of its settings; net cash is limited
where no order store stages it. -/
structure PlanSteps.WithinLimits {library : FrameLibrary} {settings : PlanSettings}
    {reads : PlanReads} (steps : PlanSteps library settings reads) (stores : Bool) : Prop where
  read : settings.execution.tradingMode = .dryRun ∨
    reads.account = .ok steps.account ∧ 0 < steps.account.totalValueUsd
  priced : ∀ sleeve ∈ steps.sleeves,
    ∀ ticker ∈ (sleeve.2.dataRequirements settings.toStrategySettings).priceHistoryTickers,
      ∃ history, steps.history.1 = some history ∧ ticker ∈ history.columns ∧
        validCloses library.format history ticker ≠ []
  combined : (steps.combined.1.map (·.targetNotional)).sum ≤ steps.value + 1 / 1000000
  capped : ∀ position ∈ steps.combined.1,
    position.ticker ∈ steps.books.flatMap (·.diversifiedFundTickers) ∨
      position.targetWeight ≤ settings.maxPositionPct + 1 / 1000000000
  turnover : ∀ side, sideNotional steps.sized.trades side ≤ settings.maxTurnoverPct * steps.value
  orders : ∀ trade ∈ steps.sized.trades, trade.notional ≤ settings.execution.maxOrderNotionalUsd
  count : steps.sized.trades.length ≤ settings.maxDailyTrades
  cash : stores = false ∨ settings.execution.tradingMode = .dryRun →
    netCashOutflow steps.sized.trades - steps.account.cashUsd ≤ cashTolerance

section Checks

variable {trades : List ProposedTrade} {value bound : ℚ} {most : Nat}

theorem sideNotional_le (hvalue : 0 < value) (h : enforceTurnoverLimit trades value bound = [])
    (side : OrderSide) : sideNotional trades side ≤ bound * value := by
  have hturnover : oneSidedTurnover trades value ≤ bound := by
    by_contra hexceeds
    unfold enforceTurnoverLimit at h
    rw [if_pos (not_le.mp hexceeds)] at h
    cases h
  unfold oneSidedTurnover at hturnover
  rw [if_neg hvalue.ne', div_le_iff₀ hvalue] at hturnover
  cases side with
  | buy => exact (le_max_left _ _).trans hturnover
  | sell => exact (le_max_right _ _).trans hturnover

theorem enforceOrderLimits_nil (h : enforceOrderLimits trades bound most = []) :
    (∀ trade ∈ trades, trade.notional ≤ bound) ∧ trades.length ≤ most := by
  unfold enforceOrderLimits at h
  dsimp only at h
  obtain ⟨hcount, horders⟩ := List.append_eq_nil_iff.mp h
  constructor
  · intro trade htrade
    by_contra hover
    split at horders
    · rename_i hnone
      have hmem : trade ∈ trades.filter (·.notional > bound) :=
        List.mem_filter.mpr ⟨htrade, decide_eq_true (not_le.mp hover)⟩
      rw [hnone] at hmem
      cases hmem
    · cases horders
  · by_contra hover
    rw [if_pos (not_le.mp hover)] at hcount
    cases hcount

/-- A ticker whose closes are needed has some, unless a warning blocks. -/
theorem closes_of_unblocked {className : Exn → String} {format : CellFormat}
    {loader : Option (List String → ℤ → Except Exn PriceHistory)}
    {requirements : List StrategyDataRequirements}
    (h : (planPriceHistory className format loader requirements).2 = []) {ticker : String}
    (hticker : ticker ∈ requirements.flatMap (·.priceHistoryTickers)) :
    ∃ history, (planPriceHistory className format loader requirements).1 = some history ∧
      ticker ∈ history.columns ∧ validCloses format history ticker ≠ [] := by
  have hneeded : ticker ∈
      ((requirements.flatMap (·.priceHistoryTickers)).dedup).insertionSort (· ≤ ·) :=
    (List.mem_insertionSort _).mpr (List.mem_dedup.mpr hticker)
  unfold planPriceHistory at h ⊢
  dsimp only at h ⊢
  generalize ((requirements.flatMap (·.priceHistoryTickers)).dedup).insertionSort (· ≤ ·) =
    tickers at h hneeded ⊢
  have hsome : tickers ≠ [] := List.ne_nil_of_mem hneeded
  rw [if_neg hsome] at h ⊢
  cases loader with
  | none => cases h
  | some load =>
    dsimp only at h ⊢
    split at h
    · cases h
    · rename_i history _
      dsimp only at h
      refine ⟨history, rfl, ?_⟩
      by_contra hmissing
      rw [not_and_or, not_not] at hmissing
      split at h
      · rename_i hnone
        have hmem : ticker ∈ tickers.filter fun ticker =>
            ticker ∉ history.columns ∨ validCloses format history ticker = [] :=
          List.mem_filter.mpr ⟨hneeded, decide_eq_true hmissing⟩
        rw [hnone] at hmem
        cases hmem
      · cases h

/-- Weights above the cap that no fund excuses block. -/
theorem weight_le_of_unblocked {targets : List TargetPosition} {maxPositionPct : ℚ}
    {funds : List String} (h : Unblocked (validateTargets targets maxPositionPct funds))
    {target : TargetPosition} (htarget : target ∈ targets) {weight : ℚ}
    (hweight : target.targetWeight = .finite weight) :
    target.ticker ∈ funds ∨ weight ≤ maxPositionPct + 1 / 1000000000 := by
  by_contra hover
  obtain ⟨hfund, hmore⟩ := not_or.mp hover
  have hany : (targets.any fun target =>
      (Reported.finite (maxPositionPct + 1 / 1000000000)).lt target.targetWeight &&
        target.ticker ∉ funds) = true := by
    apply List.any_eq_true.mpr
    refine ⟨target, htarget, ?_⟩
    rw [hweight, Reported.lt_finite]
    simp only [Bool.and_eq_true, decide_eq_true_eq]
    exact ⟨not_le.mp hmore, hfund⟩
  have hwarned : "one or more target weights exceed max_position_pct; block execution" ∈
      validateTargets targets maxPositionPct funds := by
    unfold validateTargets
    dsimp only
    rw [if_pos hany]
    exact List.mem_append_left _ (List.mem_append_right _ List.mem_cons_self)
  have hmarked : containsText "one or more target weights exceed max_position_pct; block execution"
      blockMarker = true := by decide +kernel
  rw [h _ hwarned] at hmarked
  cases hmarked

/-- Targets above the portfolio block. -/
theorem combined_le_of_unblocked {books : List StrategyTargetBook} (hvalue : 0 < value)
    (h : Unblocked (combineStrategyTargetBooks books value).2) :
    ((combineStrategyTargetBooks books value).1.map (·.targetNotional)).sum ≤
      value + 1 / 1000000 := by
  by_contra hover
  unfold combineStrategyTargetBooks at h hover
  dsimp only at h hover
  have hlast := h.subset (List.subset_append_right _ _)
  rw [if_pos ⟨hvalue.ne', not_le.mp hover⟩] at hlast
  have hmarked := hlast _ List.mem_cons_self
  rw [containsText_append_right (by decide +kernel) _] at hmarked
  cases hmarked

end Checks

namespace PlanSteps

variable {library : FrameLibrary} {settings : PlanSettings} {reads : PlanReads}
  (steps : PlanSteps library settings reads)

/-- A plan without a blocking warning keeps every limit. -/
theorem withinLimits {stores : Bool} (h : Unblocked (steps.plan stores).warnings) :
    steps.WithinLimits stores := by
  have hvalue := steps.value_pos
  have hearly : Unblocked steps.warnings := h.subset (List.subset_append_left _ _)
  have hchecks : Unblocked
      (tradeChecks settings stores steps.account steps.value steps.sized.trades) :=
    h.subset (List.subset_append_right _ _)
  unfold tradeChecks at hchecks
  have horders : (∀ trade ∈ steps.sized.trades,
      trade.notional ≤ settings.execution.maxOrderNotionalUsd) ∧
        steps.sized.trades.length ≤ settings.maxDailyTrades := by
    apply enforceOrderLimits_nil
    apply Unblocked.nil _ fun _ => enforceOrderLimits_marked
    exact hchecks.subset (List.Subset.trans (List.subset_append_left _ _) (List.subset_append_right _ _))
  constructor
  case read =>
    apply planAccount_read
    apply hearly.subset
    intro warning hwarning
    simp [warnings, hwarning]
  case priced =>
    intro sleeve hsleeve ticker hticker
    have hnone : steps.history.2 = [] := by
      apply Unblocked.nil
      · apply hearly.subset
        intro warning hwarning
        simp [warnings, hwarning]
      · exact fun _ => planPriceHistory_marked
    apply closes_of_unblocked hnone
    exact List.mem_flatMap.mpr ⟨_, List.mem_map_of_mem hsleeve, hticker⟩
  case combined =>
    apply combined_le_of_unblocked hvalue
    apply hearly.subset
    intro warning hwarning
    simp [warnings, combined, hwarning]
  case capped =>
    intro position hposition
    have hvalid : Unblocked (validateTargets steps.targets settings.maxPositionPct
        (steps.books.flatMap (·.diversifiedFundTickers))) := by
      apply hearly.subset
      intro warning hwarning
      simp [warnings, hwarning]
    exact weight_le_of_unblocked hvalid (List.mem_map_of_mem hposition) rfl
  case turnover =>
    apply sideNotional_le hvalue
    apply Unblocked.nil
    · exact hchecks.subset (List.subset_append_left _ _)
    · exact fun _ => enforceTurnoverLimit_marked
  case orders => exact horders.1
  case count => exact horders.2
  case cash =>
    intro hstaged
    have hcash : enforceBuyingPower steps.sized.trades steps.account.cashUsd = [] := by
      apply Unblocked.nil _ fun _ => enforceBuyingPower_marked
      apply hchecks.subset
      have hrequired : (!stores) = true ∨ settings.execution.tradingMode = .dryRun :=
        hstaged.imp_left (by simp)
      rw [if_pos hrequired]
      exact List.Subset.trans (List.subset_append_right _ _) (List.subset_append_right _ _)
    exact (enforceBuyingPower_eq_nil_iff _ _).mp hcash

end PlanSteps

/-- A plan of the engine without a blocking warning was sized on the account and the prices that
were read, and keeps the limits on its targets, its turnover, the number and the size of its
orders, and its net cash. -/
theorem unblocked_plan_within_limits {library : FrameLibrary} {settings : PlanSettings}
    {stores : Bool} {reads : PlanReads} {planned : PlannedTrades}
    (h : planTrades library settings stores reads = .ok planned)
    (hunblocked : Unblocked planned.warnings) :
    ∃ steps : PlanSteps library settings reads, planned = steps.plan stores ∧
      steps.WithinLimits stores := by
  obtain ⟨steps, rfl⟩ := planTrades_steps h
  exact ⟨steps, rfl, steps.withinLimits hunblocked⟩

/-- The plan of half the portfolio warns of a position's price and is not blocked. -/
theorem unblocked_plan_within_limits_halfInFund :
    ∃ planned, planTrades plainLibrary halfInFund true (fundAt 100) = .ok planned ∧
      planned.trades.length = 2 ∧ planned.warnings.length = 1 ∧
      ∃ steps : PlanSteps plainLibrary halfInFund (fundAt 100), planned = steps.plan true ∧
        steps.WithinLimits true := by
  have hdecided : (planTrades plainLibrary halfInFund true (fundAt 100)).map (fun planned =>
      (planned.trades.length, planned.warnings.length,
        planned.warnings.all fun warning => containsText warning blockMarker = false)) =
          .ok (2, 1, true) := by decide +kernel
  obtain ⟨planned, hplanned, hdecided⟩ := map_eq_ok.mp hdecided
  obtain ⟨htrades, hrest⟩ := Prod.mk.inj hdecided
  obtain ⟨hwarnings, hall⟩ := Prod.mk.inj hrest
  refine ⟨planned, hplanned, htrades, hwarnings, unblocked_plan_within_limits hplanned ?_⟩
  intro warning hwarning
  exact of_decide_eq_true (List.all_eq_true.mp hall warning hwarning)

end Poma

import Poma.Core.Lists
import Poma.Execution.Risk

/-!
# What planning proposes

Every proposed trade closes the gap between what its ticker is worth and what it
should be worth, at a positive price; a sell stays within the position. A plan
has one trade a ticker.
-/

namespace Poma

/-- What a ticker should be worth, less what it is worth. -/
def valueGap (inputs : PlanningInputs) (ticker : String) : ℚ :=
  (targetByTicker inputs.targets ticker).getD 0 -
    ((currentByTicker inputs.currentPositions ticker).map (·.marketValue)).getD 0

/-- A trade that planning proposes. -/
structure Proposed (inputs : PlanningInputs) (trade : ProposedTrade) : Prop where
  side : trade.side = if valueGap inputs trade.ticker > 0 then .buy else .sell
  notional : trade.notional = |valueGap inputs trade.ticker|
  price_pos : 0 < trade.referencePrice
  quantity_pos : 0 < trade.quantity
  quantity_buy : trade.side = .buy → trade.quantity = trade.notional / trade.referencePrice
  quantity_sell : trade.side = .sell → trade.quantity ≤ trade.notional / trade.referencePrice
  quantity_held : trade.side = .sell → ∀ position,
    currentByTicker inputs.currentPositions trade.ticker = some position →
      trade.quantity ≤ |position.quantity|
  worth_trading : inputs.minTradeNotionalUsd ≤ trade.notional

section

variable {inputs : PlanningInputs}

theorem positionReferencePrice_pos {position : Option CurrentPosition} {price : ℚ}
    (h : positionReferencePrice position = some price) : 0 < price := by
  obtain ⟨found, -, hprice⟩ := Option.bind_eq_some_iff.mp h
  split at hprice
  · cases hprice
  · rename_i hpositive
    obtain ⟨hquantity, hvalue⟩ := not_or.mp hpositive
    rw [← Option.some.inj hprice]
    exact div_pos (not_le.mp hvalue) (not_le.mp hquantity)

theorem usablePrice_pos {found : Option Reported} {price : ℚ}
    (h : usablePrice found = some price) : 0 < price := by
  unfold usablePrice at h
  split at h
  · split at h
    · rename_i hpositive
      rwa [← Option.some.inj h]
    · cases h
  · cases h

/-- A sized trade is proposed, when its gap was worth trading. -/
theorem sizeTrade_proposed {ticker : String} {price : ℚ} {trade : ProposedTrade}
    (hprice : 0 < price) (hworth : inputs.minTradeNotionalUsd ≤ |valueGap inputs ticker|)
    (h : sizeTrade inputs.limitOffsetBps ticker
      (if valueGap inputs ticker > 0 then .buy else .sell)
      (currentByTicker inputs.currentPositions ticker) |valueGap inputs ticker| price =
        some trade) : Proposed inputs trade ∧ trade.ticker = ticker := by
  unfold sizeTrade at h
  dsimp only at h
  generalize hside : (if valueGap inputs ticker > 0 then OrderSide.buy else .sell) = side at h
  generalize hheld : currentByTicker inputs.currentPositions ticker = current at h
  cases side with
  | buy =>
    dsimp only at h
    split at h
    · cases h
    rename_i hquantity
    obtain rfl := Option.some.inj h
    exact ⟨⟨hside.symm, rfl, hprice, not_le.mp hquantity, fun _ => rfl, (by simp), (by simp),
      hworth⟩, rfl⟩
  | sell =>
    cases current with
    | none =>
      dsimp only at h
      split at h
      · cases h
      rename_i hquantity
      obtain rfl := Option.some.inj h
      refine ⟨⟨hside.symm, rfl, hprice, not_le.mp hquantity, (by simp), fun _ => le_rfl, ?_,
        hworth⟩, rfl⟩
      intro _ position hposition
      rw [hheld] at hposition
      cases hposition
    | some held =>
      dsimp only at h
      split at h
      · cases h
      rename_i hquantity
      obtain rfl := Option.some.inj h
      refine ⟨⟨hside.symm, rfl, hprice, not_le.mp hquantity, (by simp),
        fun _ => min_le_left _ _, ?_, hworth⟩, rfl⟩
      intro _ position hposition
      rw [hheld] at hposition
      obtain rfl := Option.some.inj hposition
      exact min_le_right _ _

/-- What planning makes of one ticker is proposed for it. -/
theorem generateTrade_proposed {ticker : String} {trade : ProposedTrade} {warnings : List String}
    (h : generateTrade inputs ticker = .ok (some trade, warnings)) :
    Proposed inputs trade ∧ trade.ticker = ticker := by
  unfold generateTrade at h
  dsimp only at h
  change (if |valueGap inputs ticker| < _ then _ else _) = _ at h
  split at h
  · cases h
  rename_i hworth
  split at h
  · cases h
  split at h
  · cases h
  split at h
  · cases h
  · split at h
    · rename_i price hprice
      have hsized := (Prod.mk.inj (Except.ok.inj h)).1
      exact sizeTrade_proposed (usablePrice_pos hprice) (not_lt.mp hworth) hsized
    · split at h
      · rename_i price hside hprice
        have hsized := (Prod.mk.inj (Except.ok.inj h)).1
        apply sizeTrade_proposed (positionReferencePrice_pos hprice) (not_lt.mp hworth)
        rw [← hsized]
        congr 1
      · cases h

theorem mem_planningTickers {ticker : String} : ticker ∈ planningTickers inputs ↔
    (∃ position ∈ inputs.currentPositions, position.ticker = ticker) ∨
      ∃ target ∈ inputs.targets, target.ticker = ticker := by
  unfold planningTickers
  rw [List.mem_insertionSort, List.mem_dedup, List.mem_append, List.mem_map, List.mem_map]

theorem nodup_planningTickers (inputs : PlanningInputs) : (planningTickers inputs).Nodup := by
  unfold planningTickers
  rw [(List.perm_insertionSort _ _).nodup_iff]
  exact List.nodup_dedup _

/-- The trades of a plan are proposed, one a ticker. -/
theorem generateTrades_proposed {trades : List ProposedTrade} {warnings : List String}
    (h : generateTrades inputs = .ok (trades, warnings)) :
    (∀ trade ∈ trades, Proposed inputs trade) ∧ (trades.map (·.ticker)).Nodup := by
  unfold generateTrades at h
  cases hplanned : (planningTickers inputs).mapM (generateTrade inputs) with
  | error e =>
    rw [hplanned] at h
    cases h
  | ok planned =>
    rw [hplanned] at h
    obtain ⟨rfl, -⟩ := Prod.mk.inj (Except.ok.inj h)
    have hforall := forall₂_of_mapM_ok hplanned
    constructor
    · intro trade htrade
      obtain ⟨⟨found, reasons⟩, hmem, hfound⟩ := List.mem_filterMap.mp htrade
      obtain ⟨ticker, -, hticker⟩ := exists_of_forall₂ hforall hmem
      obtain rfl : found = some trade := hfound
      exact (generateTrade_proposed hticker).1
    · have hsublist : ((planned.filterMap (·.1)).map (·.ticker)).Sublist (planningTickers inputs) := by
        clear hplanned h
        generalize planningTickers inputs = tickers at hforall ⊢
        induction hforall with
        | nil => exact List.Sublist.refl _
        | @cons ticker first tickers rest hfirst _ ih =>
          obtain ⟨found, reasons⟩ := first
          cases found with
          | none => exact ih.cons _
          | some trade =>
            have hcons : (((some trade, reasons) :: rest).filterMap (·.1)).map (·.ticker) =
                ticker :: (rest.filterMap (·.1)).map (·.ticker) := by
              rw [← (generateTrade_proposed hfirst).2]
              rfl
            rw [hcons]
            exact ih.cons_cons _
      exact hsublist.nodup (nodup_planningTickers inputs)

end

end Poma

import Poma.Correctness.Planning
import Poma.Numeric.Groups

/-!
# Several rows of one ticker

Planning reads the last row of a ticker, while the assessment of a rebalance adds
the rows of a ticker up. Both agree, and the order of the rows does not matter,
exactly when every row of a ticker with several rows would be acted on as their
total is.
-/

namespace Poma

/-- The rows of a ticker as one, with their quantities and their values added. -/
def mergedRow (positions : List CurrentPosition) (ticker : String) : CurrentPosition where
  ticker := ticker
  quantity := ((positions.filter (·.ticker = ticker)).map (·.quantity)).sum
  marketValue := ((positions.filter (·.ticker = ticker)).map (·.marketValue)).sum

/-- The positions with one row for each ticker. -/
def mergePositions (positions : List CurrentPosition) : List CurrentPosition :=
  (positions.map (·.ticker)).dedup.map (mergedRow positions)

namespace PlanningInputs

variable (inputs : PlanningInputs)

/-- The same inputs with other rows. -/
def holding (positions : List CurrentPosition) : PlanningInputs :=
  { inputs with currentPositions := positions }

/-- What planning does depends on the totals held, and not on the order of the rows. -/
structure DependsOnTotals : Prop where
  merged : (generateTrades (inputs.holding (mergePositions inputs.currentPositions))).map Prod.fst =
    (generateTrades inputs).map Prod.fst
  order : ∀ positions : List CurrentPosition, positions.Perm inputs.currentPositions →
    generateTrades (inputs.holding positions) = generateTrades inputs

/-- What a ticker should be worth, less what a row of it is worth. -/
def gapOf (row : CurrentPosition) : ℚ :=
  (targetByTicker inputs.targets row.ticker).getD 0 - row.marketValue

/-- A gap below the thresholds. -/
def Negligible (row : CurrentPosition) : Prop :=
  |inputs.gapOf row| < inputs.minTradeNotionalUsd ∨
    |inputs.gapOf row| / inputs.portfolioValueUsd < inputs.minWeightDeltaPct

/-- A row with a price of its own that has to be reduced. -/
def Reducible (row : CurrentPosition) : Prop :=
  inputs.gapOf row ≤ 0 ∧ 0 < row.quantity ∧ 0 < row.marketValue

/-- A row that leads to no trade: its gap is negligible, or its price is infinite, or nothing of it
can be sold, or there is no price to trade it at. -/
def Idle (row : CurrentPosition) : Prop :=
  inputs.Negligible row ∨ inputs.gapOf row = 0 ∨
    inputs.latestPrices.lookup row.ticker = some (.infinite false) ∨
    (inputs.gapOf row < 0 ∧ row.quantity = 0) ∨
    (usablePrice (inputs.latestPrices.lookup row.ticker) = none ∧ ¬inputs.Reducible row)

instance (row : CurrentPosition) : Decidable (inputs.Negligible row) :=
  inferInstanceAs (Decidable (_ ∨ _))

instance (row : CurrentPosition) : Decidable (inputs.Reducible row) :=
  inferInstanceAs (Decidable (_ ∧ _))

instance (row : CurrentPosition) : Decidable (inputs.Idle row) :=
  inferInstanceAs (Decidable (_ ∨ _))

/-- Two rows of one value are sold alike: as much of them is held as is sold, or they hold as much;
without a price of the ticker they hold as much. -/
def SoldAlike (row total : CurrentPosition) : Prop :=
  row.quantity = total.quantity ∨
    ∃ price, usablePrice (inputs.latestPrices.lookup row.ticker) = some price ∧
      (|row.quantity| = |total.quantity| ∨
        (|inputs.gapOf row| ≤ price * |row.quantity| ∧
          |inputs.gapOf row| ≤ price * |total.quantity|))

/-- Two rows lead to the same trade, or both to none. -/
def ActedOnAlike (row total : CurrentPosition) : Prop :=
  (inputs.Idle row ∧ inputs.Idle total) ∨
    (¬inputs.Idle row ∧ ¬inputs.Idle total ∧ row.marketValue = total.marketValue ∧
      (inputs.gapOf row < 0 → inputs.SoldAlike row total))

/-- Where the ticker has no usable price, two rows lead to the same warning, or both to none. -/
def WarnedAlike (row other : CurrentPosition) : Prop :=
  inputs.latestPrices.lookup row.ticker ≠ some (.infinite false) →
    usablePrice (inputs.latestPrices.lookup row.ticker) = none →
    (inputs.Negligible row ∧ inputs.Negligible other) ∨
      (¬inputs.Negligible row ∧ ¬inputs.Negligible other ∧
        (inputs.Reducible row ↔ inputs.Reducible other))

/-- Every row of a ticker is acted on as their total is, and warned of as the others are. -/
def RowsAgree : Prop :=
  ∀ row ∈ inputs.currentPositions,
    inputs.ActedOnAlike row (mergedRow inputs.currentPositions row.ticker) ∧
      ∀ other ∈ inputs.currentPositions, other.ticker = row.ticker → inputs.WarnedAlike row other

/-- The trade of a row that is acted on. -/
def actedTrade (row : CurrentPosition) (price : ℚ) : ProposedTrade where
  ticker := row.ticker
  side := if inputs.gapOf row > 0 then .buy else .sell
  quantity := if inputs.gapOf row > 0 then |inputs.gapOf row| / price
    else min (|inputs.gapOf row| / price) |row.quantity|
  notional := |inputs.gapOf row|
  referencePrice := price
  limitPrice := some (buildLimitPrice (if inputs.gapOf row > 0 then .buy else .sell) price
    inputs.limitOffsetBps)
  reason := "rebalance_to_target_weight"

/-- The price a row is traded at. -/
def tradedPrice (row : CurrentPosition) : ℚ :=
  (usablePrice (inputs.latestPrices.lookup row.ticker)).getD (row.marketValue / row.quantity)

/-- The warning about a row without a usable price. -/
def unpricedWarning (ticker : String) (held : Bool) : String :=
  if held then s!"missing valid latest price for held {ticker}; using broker position market value for risk-reducing sell planning"
  else s!"missing valid latest price for {ticker}; skipping trade"

/-- What a row leads to. -/
def rowOutcome (row : CurrentPosition) : Option ProposedTrade × List String :=
  (if inputs.Idle row then none else some (inputs.actedTrade row (inputs.tradedPrice row)),
    if inputs.latestPrices.lookup row.ticker ≠ some (.infinite false) ∧
        usablePrice (inputs.latestPrices.lookup row.ticker) = none ∧ ¬inputs.Negligible row then
      [unpricedWarning row.ticker (inputs.Reducible row)] else [])

theorem unpricedWarning_last (ticker : String) (held : Bool) :
    (unpricedWarning ticker held).toList.getLast? = some (if held then 'g' else 'e') := by
  have hheld : "; using broker position market value for risk-reducing sell planning".toList.getLast? =
      some 'g' := by decide
  have hskipped : "; skipping trade".toList.getLast? = some 'e' := by decide
  cases held with
  | true =>
    change ("missing valid latest price for held " ++ ticker ++
      "; using broker position market value for risk-reducing sell planning").toList.getLast? = some 'g'
    rw [String.toList_append, List.getLast?_append, hheld]
    rfl
  | false =>
    change ("missing valid latest price for " ++ ticker ++ "; skipping trade").toList.getLast? =
      some 'e'
    rw [String.toList_append, List.getLast?_append, hskipped]
    rfl

/-- A warning tells its ticker and its kind. -/
theorem unpricedWarning_inj {ticker other : String} {held held' : Bool}
    (h : unpricedWarning ticker held = unpricedWarning other held') :
    ticker = other ∧ held = held' := by
  have hlast := unpricedWarning_last ticker held
  rw [h, unpricedWarning_last, Option.some_inj] at hlast
  have hkind : held = held' := by
    revert hlast
    cases held <;> cases held' <;> decide
  subst hkind
  refine ⟨?_, rfl⟩
  cases held with
  | true =>
    change "missing valid latest price for held " ++ ticker ++
        "; using broker position market value for risk-reducing sell planning" =
      "missing valid latest price for held " ++ other ++
        "; using broker position market value for risk-reducing sell planning" at h
    rwa [String.append_left_inj, String.append_right_inj] at h
  | false =>
    change "missing valid latest price for " ++ ticker ++ "; skipping trade" =
      "missing valid latest price for " ++ other ++ "; skipping trade" at h
    rwa [String.append_left_inj, String.append_right_inj] at h

section Turn

variable {inputs} {row : CurrentPosition}

theorem positionReferencePrice_of_reducible (h : inputs.Reducible row) :
    positionReferencePrice (some row) = some (row.marketValue / row.quantity) := by
  unfold positionReferencePrice
  have hpositive : ¬(row.quantity ≤ 0 ∨ row.marketValue ≤ 0) := by
    rw [not_or, not_le, not_le]
    exact h.2
  simp only [Option.bind_some, if_neg hpositive]

theorem positionReferencePrice_of_not (h : ¬(0 < row.quantity ∧ 0 < row.marketValue)) :
    positionReferencePrice (some row) = none := by
  unfold positionReferencePrice
  have hnot : row.quantity ≤ 0 ∨ row.marketValue ≤ 0 := by
    rw [not_and_or, not_lt, not_lt] at h
    exact h
  simp only [Option.bind_some, if_pos hnot]

/-- The size of the trade of a row: none when there is nothing to sell. -/
theorem sizeTrade_row {price : ℚ} (hprice : 0 < price) :
    sizeTrade inputs.limitOffsetBps row.ticker (if inputs.gapOf row > 0 then .buy else .sell)
      (some row) |inputs.gapOf row| price =
      if inputs.gapOf row = 0 ∨ (inputs.gapOf row < 0 ∧ row.quantity = 0) then none
      else some (inputs.actedTrade row price) := by
  unfold sizeTrade actedTrade
  by_cases hbuy : inputs.gapOf row > 0
  · have hpositive : ¬|inputs.gapOf row| / price ≤ 0 := by
      rw [not_le]
      exact div_pos (abs_pos.mpr hbuy.ne') hprice
    have hacts : ¬(inputs.gapOf row = 0 ∨ (inputs.gapOf row < 0 ∧ row.quantity = 0)) := by
      rw [not_or, not_and_or]
      exact ⟨hbuy.ne', Or.inl (not_lt.mpr hbuy.le)⟩
    simp only [if_pos hbuy, if_neg hpositive, if_neg hacts]
  · have hempty : min (|inputs.gapOf row| / price) |row.quantity| ≤ 0 ↔
        inputs.gapOf row = 0 ∨ (inputs.gapOf row < 0 ∧ row.quantity = 0) := by
      rw [min_le_iff, div_le_iff₀ hprice, zero_mul, abs_nonpos_iff, abs_nonpos_iff]
      constructor
      · rintro (hzero | hzero)
        · exact Or.inl hzero
        · rcases (not_lt.mp hbuy).lt_or_eq with hneg | hzero'
          · exact Or.inr ⟨hneg, hzero⟩
          · exact Or.inl hzero'
      · rintro (hzero | ⟨-, hzero⟩)
        · exact Or.inl hzero
        · exact Or.inr hzero
    simp only [if_neg hbuy, hempty]

section Held

variable (hvalue : 0 < inputs.portfolioValueUsd)
  (hheld : currentByTicker inputs.currentPositions row.ticker = some row)

include hvalue hheld

theorem generateTrade_negligible (hsmall : inputs.Negligible row) :
    generateTrade inputs row.ticker = .ok (none, []) := by
  have hgap : (targetByTicker inputs.targets row.ticker).getD 0 -
      ((some row).map (·.marketValue)).getD 0 = inputs.gapOf row := rfl
  unfold generateTrade
  simp only [hheld, hgap]
  split
  · rfl
  · rename_i hworth
    rw [if_neg hvalue.ne', if_pos (hsmall.resolve_left hworth)]

/-- The turn of a held ticker that is worth trading, down to its price. -/
theorem generateTrade_worth (hworth : ¬inputs.Negligible row)
    {result : Except Exn (Option ProposedTrade × List String)}
    (hinfinite : inputs.latestPrices.lookup row.ticker = some (.infinite false) →
      result = .ok (none, []))
    (hpriced : ∀ price, usablePrice (inputs.latestPrices.lookup row.ticker) = some price →
      result = .ok (sizeTrade inputs.limitOffsetBps row.ticker
        (if inputs.gapOf row > 0 then .buy else .sell) (some row) |inputs.gapOf row| price, []))
    (hreduced : inputs.latestPrices.lookup row.ticker ≠ some (.infinite false) →
      usablePrice (inputs.latestPrices.lookup row.ticker) = none → inputs.Reducible row →
      result = .ok (sizeTrade inputs.limitOffsetBps row.ticker
        (if inputs.gapOf row > 0 then .buy else .sell) (some row) |inputs.gapOf row|
          (row.marketValue / row.quantity), [unpricedWarning row.ticker true]))
    (hskipped : inputs.latestPrices.lookup row.ticker ≠ some (.infinite false) →
      usablePrice (inputs.latestPrices.lookup row.ticker) = none → ¬inputs.Reducible row →
      result = .ok (none, [unpricedWarning row.ticker false])) :
    generateTrade inputs row.ticker = result := by
  obtain ⟨hnotional, hweight⟩ := not_or.mp hworth
  have hgap : (targetByTicker inputs.targets row.ticker).getD 0 -
      ((some row).map (·.marketValue)).getD 0 = inputs.gapOf row := rfl
  unfold generateTrade
  simp only [hheld, hgap]
  rw [if_neg hnotional, if_neg hvalue.ne', if_neg hweight]
  split
  · rename_i hprice
    exact (hinfinite hprice).symm
  · rename_i hfinite
    split
    · rename_i price hprice
      exact (hpriced price hprice).symm
    · rename_i hprice
      by_cases hbuy : inputs.gapOf row > 0
      · have hnot : ¬inputs.Reducible row := fun h => absurd hbuy (not_lt.mpr h.1)
        rw [hskipped hfinite hprice hnot]
        simp [hbuy, unpricedWarning]
      · by_cases hreducible : inputs.Reducible row
        · rw [hreduced hfinite hprice hreducible]
          simp [hbuy, positionReferencePrice_of_reducible hreducible, unpricedWarning]
        · have hnot : ¬(0 < row.quantity ∧ 0 < row.marketValue) :=
            fun h => hreducible ⟨not_lt.mp hbuy, h⟩
          rw [hskipped hfinite hprice hreducible]
          simp [hbuy, positionReferencePrice_of_not hnot, unpricedWarning]

/-- The turn of a held ticker is what its row leads to. -/
theorem generateTrade_held : generateTrade inputs row.ticker = .ok (inputs.rowOutcome row) := by
  by_cases hsmall : inputs.Negligible row
  · have hidle : inputs.Idle row := Or.inl hsmall
    rw [generateTrade_negligible hvalue hheld hsmall, rowOutcome, if_pos hidle, if_neg]
    exact fun h => h.2.2 hsmall
  apply generateTrade_worth hvalue hheld hsmall
  · intro hinfinite
    have hidle : inputs.Idle row := Or.inr (Or.inr (Or.inl hinfinite))
    rw [rowOutcome, if_pos hidle, if_neg fun h => h.1 hinfinite]
  · intro price hprice
    have hfinite : inputs.latestPrices.lookup row.ticker ≠ some (.infinite false) := by
      intro hinfinite
      rw [hinfinite] at hprice
      cases hprice
    have htraded : inputs.tradedPrice row = price := by rw [tradedPrice, hprice, Option.getD_some]
    have hidle : inputs.Idle row ↔
        inputs.gapOf row = 0 ∨ (inputs.gapOf row < 0 ∧ row.quantity = 0) := by
      unfold Idle
      simp [hsmall, hfinite, hprice]
    have hquiet : usablePrice (inputs.latestPrices.lookup row.ticker) ≠ none := by simp [hprice]
    rw [sizeTrade_row (usablePrice_pos hprice), rowOutcome, htraded, if_congr hidle rfl rfl]
    congr 2
    exact if_neg fun h => hquiet h.2.1
  · intro hfinite hnone hreducible
    have hprice : 0 < row.marketValue / row.quantity := div_pos hreducible.2.2 hreducible.2.1
    have htraded : inputs.tradedPrice row = row.marketValue / row.quantity := by
      rw [tradedPrice, hnone, Option.getD_none]
    have hidle : inputs.Idle row ↔
        inputs.gapOf row = 0 ∨ (inputs.gapOf row < 0 ∧ row.quantity = 0) := by
      unfold Idle
      simp [hsmall, hfinite, hreducible]
    rw [sizeTrade_row hprice, rowOutcome, htraded, if_congr hidle rfl rfl,
      decide_eq_true hreducible]
    congr 2
    exact if_pos ⟨hfinite, hnone, hsmall⟩
  · intro hfinite hnone hreducible
    have hidle : inputs.Idle row := Or.inr (Or.inr (Or.inr (Or.inr ⟨hnone, hreducible⟩)))
    rw [rowOutcome, if_pos hidle, if_pos ⟨hfinite, hnone, hsmall⟩, decide_eq_false hreducible]

end Held

theorem eq_of_abs_of_pos_iff {x y : ℚ} (habs : |x| = |y|) (hpos : x > 0 ↔ y > 0) : x = y := by
  by_cases hx : x > 0
  · rwa [abs_of_pos hx, abs_of_pos (hpos.mp hx)] at habs
  · have hy : ¬y > 0 := fun hy => hx (hpos.mpr hy)
    rw [abs_of_nonpos (not_lt.mp hx), abs_of_nonpos (not_lt.mp hy)] at habs
    exact neg_inj.mp habs

theorem min_eq_min_iff {a x y : ℚ} : min a x = min a y ↔ x = y ∨ (a ≤ x ∧ a ≤ y) := by
  constructor
  · intro h
    rcases le_total a x with hx | hx
    · rw [min_eq_left hx] at h
      exact Or.inr ⟨hx, min_eq_left_iff.mp h.symm⟩
    · rw [min_eq_right hx] at h
      rcases le_total a y with hy | hy
      · rw [min_eq_left hy] at h
        exact Or.inr ⟨h.ge, hy⟩
      · rw [min_eq_right hy] at h
        exact Or.inl h
  · rintro (rfl | ⟨hx, hy⟩)
    · rfl
    · rw [min_eq_left hx, min_eq_left hy]

section Alike

variable {other : CurrentPosition} (hticker : other.ticker = row.ticker)

include hticker

theorem gapOf_eq_iff : inputs.gapOf row = inputs.gapOf other ↔
    row.marketValue = other.marketValue := by
  unfold gapOf
  rw [hticker]
  exact sub_right_inj

/-- The trades of two rows that are acted on are the same when the rows have one value and are sold
alike. -/
theorem actedTrade_eq_iff (hidle : ¬inputs.Idle row) (hother : ¬inputs.Idle other) :
    inputs.actedTrade row (inputs.tradedPrice row) =
        inputs.actedTrade other (inputs.tradedPrice other) ↔
      row.marketValue = other.marketValue ∧ (inputs.gapOf row < 0 → inputs.SoldAlike row other) := by
  have hnonzero : inputs.gapOf row ≠ 0 := fun h => hidle (Or.inr (Or.inl h))
  constructor
  · intro h
    have hsides : (inputs.gapOf row > 0 ↔ inputs.gapOf other > 0) := by
      have hside := congrArg ProposedTrade.side h
      simp only [actedTrade] at hside
      constructor
      · intro hbuy
        by_contra hnot
        rw [if_pos hbuy, if_neg hnot] at hside
        cases hside
      · intro hbuy
        by_contra hnot
        rw [if_neg hnot, if_pos hbuy] at hside
        cases hside
    have hgap : inputs.gapOf row = inputs.gapOf other :=
      eq_of_abs_of_pos_iff (congrArg ProposedTrade.notional h) hsides
    refine ⟨(gapOf_eq_iff hticker).mp hgap, fun hsell => ?_⟩
    have hnotBuy : ¬inputs.gapOf row > 0 := not_lt.mpr hsell.le
    have hquantity := congrArg ProposedTrade.quantity h
    have hprice := congrArg ProposedTrade.referencePrice h
    simp only [actedTrade, ← hgap, if_neg hnotBuy] at hquantity hprice
    cases husable : usablePrice (inputs.latestPrices.lookup row.ticker) with
    | some price =>
      have hpos := usablePrice_pos husable
      have hrow : inputs.tradedPrice row = price := by rw [tradedPrice, husable, Option.getD_some]
      rw [← hprice, hrow] at hquantity
      refine Or.inr ⟨price, husable, ?_⟩
      rw [← div_le_iff₀' hpos, ← div_le_iff₀' hpos]
      exact min_eq_min_iff.mp hquantity
    | none =>
      have hreducible : inputs.Reducible row := by
        by_contra hnot
        exact hidle (Or.inr (Or.inr (Or.inr (Or.inr ⟨husable, hnot⟩))))
      have hreducible' : inputs.Reducible other := by
        by_contra hnot
        exact hother (Or.inr (Or.inr (Or.inr (Or.inr ⟨hticker.symm ▸ husable, hnot⟩))))
      simp only [tradedPrice, hticker, husable, Option.getD_none,
        ← (gapOf_eq_iff hticker).mp hgap] at hprice
      left
      rw [div_eq_div_iff hreducible.2.1.ne' hreducible'.2.1.ne'] at hprice
      exact (mul_left_cancel₀ hreducible.2.2.ne' hprice).symm
  · rintro ⟨hvalue, hsold⟩
    have hgap : inputs.gapOf row = inputs.gapOf other := (gapOf_eq_iff hticker).mpr hvalue
    rcases lt_or_gt_of_ne hnonzero with hsell | hbuy
    · have hnotBuy : ¬inputs.gapOf row > 0 := not_lt.mpr hsell.le
      simp only [actedTrade, ← hgap, if_neg hnotBuy, hticker]
      rcases hsold hsell with hsame | ⟨price, husable, hcaps⟩
      · have hprice : inputs.tradedPrice other = inputs.tradedPrice row := by
          unfold tradedPrice
          rw [hticker, hsame, hvalue]
        rw [hprice, hsame]
      · have hrow : inputs.tradedPrice row = price := by rw [tradedPrice, husable, Option.getD_some]
        have hprice : inputs.tradedPrice other = price := by
          rw [tradedPrice, hticker, husable, Option.getD_some]
        have hpos := usablePrice_pos husable
        rw [← div_le_iff₀' hpos, ← div_le_iff₀' hpos] at hcaps
        rw [hrow, hprice, min_eq_min_iff.mpr hcaps]
    · have husable : usablePrice (inputs.latestPrices.lookup row.ticker) ≠ none := by
        intro hnone
        have hnot : ¬inputs.Reducible row := fun h => absurd hbuy (not_lt.mpr h.1)
        exact hidle (Or.inr (Or.inr (Or.inr (Or.inr ⟨hnone, hnot⟩))))
      obtain ⟨price, hprice⟩ := Option.ne_none_iff_exists'.mp husable
      have hrow : inputs.tradedPrice row = price := by rw [tradedPrice, hprice, Option.getD_some]
      have hsame : inputs.tradedPrice other = price := by
        rw [tradedPrice, hticker, hprice, Option.getD_some]
      simp only [actedTrade, ← hgap, if_pos hbuy, hticker, hrow, hsame]

/-- Two rows are acted on alike when they lead to the same trade. -/
theorem rowOutcome_trade_iff :
    (inputs.rowOutcome row).1 = (inputs.rowOutcome other).1 ↔ inputs.ActedOnAlike row other := by
  unfold rowOutcome ActedOnAlike
  dsimp only
  by_cases hidle : inputs.Idle row
  · by_cases hother : inputs.Idle other
    · simp [hidle, hother]
    · simp [hidle, hother]
  · by_cases hother : inputs.Idle other
    · simp [hidle, hother]
    · rw [if_neg hidle, if_neg hother, Option.some_inj]
      simp only [hidle, hother, false_and, not_false_eq_true, true_and, false_or]
      exact actedTrade_eq_iff hticker hidle hother

/-- Two rows are warned of alike when they lead to the same warnings. -/
theorem rowOutcome_warnings_iff :
    (inputs.rowOutcome row).2 = (inputs.rowOutcome other).2 ↔ inputs.WarnedAlike row other := by
  unfold rowOutcome WarnedAlike
  dsimp only
  rw [hticker]
  by_cases hinfinite : inputs.latestPrices.lookup row.ticker = some (.infinite false)
  · simp [hinfinite]
  by_cases hnone : usablePrice (inputs.latestPrices.lookup row.ticker) = none
  · simp only [ne_eq, hinfinite, not_false_eq_true, hnone, true_and, forall_const]
    by_cases hsmall : inputs.Negligible row
    · by_cases hother : inputs.Negligible other <;> simp [hsmall, hother]
    · by_cases hother : inputs.Negligible other
      · simp [hsmall, hother]
      · simp only [hsmall, hother, not_false_eq_true, ite_true, List.cons.injEq, and_true,
          false_and, true_and, false_or]
        constructor
        · exact fun h => decide_eq_decide.mp (unpricedWarning_inj h).2
        · exact fun h => congrArg _ (decide_eq_decide.mpr h)
  · simp [hnone]

end Alike

theorem rowOutcome_total_iff {positions : List CurrentPosition} :
    (inputs.rowOutcome row).1 = (inputs.rowOutcome (mergedRow positions row.ticker)).1 ↔
      inputs.ActedOnAlike row (mergedRow positions row.ticker) := by
  have hticker : (mergedRow positions row.ticker).ticker = row.ticker := rfl
  exact rowOutcome_trade_iff hticker

end Turn

section Plan

variable {inputs}

/-- A turn looks at no other ticker's rows. -/
theorem generateTrade_congr {positions others : List CurrentPosition} {ticker : String}
    (h : currentByTicker positions ticker = currentByTicker others ticker) :
    generateTrade (inputs.holding positions) ticker =
      generateTrade (inputs.holding others) ticker := by
  unfold generateTrade holding
  simp only [h]

variable (hvalue : 0 < inputs.portfolioValueUsd)

include hvalue

/-- A turn of a portfolio with a value does not raise, and warns of its ticker at most once. -/
theorem generateTrade_ok (ticker : String) : ∃ found warnings,
    generateTrade inputs ticker = .ok (found, warnings) ∧
      (warnings = [] ∨ ∃ held, warnings = [unpricedWarning ticker held]) := by
  unfold generateTrade
  dsimp only
  split
  · exact ⟨_, _, rfl, Or.inl rfl⟩
  rw [if_neg hvalue.ne']
  split
  · exact ⟨_, _, rfl, Or.inl rfl⟩
  split
  · exact ⟨_, _, rfl, Or.inl rfl⟩
  split
  · exact ⟨_, _, rfl, Or.inl rfl⟩
  split
  · exact ⟨_, _, rfl, Or.inr ⟨true, rfl⟩⟩
  · exact ⟨_, _, rfl, Or.inr ⟨false, rfl⟩⟩

omit hvalue in
/-- What planning makes of a ticker with some rows. -/
def outcomeOf (inputs : PlanningInputs) (positions : List CurrentPosition) (ticker : String) :
    Option ProposedTrade × List String :=
  (generateTrade (inputs.holding positions) ticker).toOption.getD (none, [])

theorem generateTrade_outcome (positions : List CurrentPosition) (ticker : String) :
    generateTrade (inputs.holding positions) ticker = .ok (outcomeOf inputs positions ticker) := by
  have hworth : 0 < (inputs.holding positions).portfolioValueUsd := hvalue
  obtain ⟨found, warnings, hok, -⟩ := generateTrade_ok hworth ticker
  rw [outcomeOf, hok]
  rfl

theorem outcomeOf_held {positions : List CurrentPosition} {row : CurrentPosition}
    (hheld : currentByTicker positions row.ticker = some row) :
    outcomeOf inputs positions row.ticker = inputs.rowOutcome row := by
  have hturn : generateTrade (inputs.holding positions) row.ticker =
      .ok ((inputs.holding positions).rowOutcome row) := generateTrade_held hvalue hheld
  rw [outcomeOf, hturn]
  rfl

omit hvalue in
theorem outcomeOf_congr {positions others : List CurrentPosition} {ticker : String}
    (h : currentByTicker positions ticker = currentByTicker others ticker) :
    outcomeOf inputs positions ticker = outcomeOf inputs others ticker := by
  rw [outcomeOf, outcomeOf, generateTrade_congr h]

theorem outcomeOf_names (positions : List CurrentPosition) (ticker : String) :
    (∀ trade, (outcomeOf inputs positions ticker).1 = some trade → trade.ticker = ticker) ∧
      ((outcomeOf inputs positions ticker).2 = [] ∨
        ∃ held, (outcomeOf inputs positions ticker).2 = [unpricedWarning ticker held]) := by
  have hworth : 0 < (inputs.holding positions).portfolioValueUsd := hvalue
  obtain ⟨found, warnings, hok, hwarnings⟩ := generateTrade_ok hworth ticker
  have hsame : outcomeOf inputs positions ticker = (found, warnings) := by
    rw [outcomeOf, hok]
    rfl
  rw [hsame]
  refine ⟨?_, hwarnings⟩
  intro trade htrade
  obtain rfl : found = some trade := htrade
  exact (generateTrade_proposed hok).2

/-- The trades and the warnings of a plan, ticker by ticker. -/
theorem generateTrades_outcomes (positions : List CurrentPosition) :
    generateTrades (inputs.holding positions) =
      .ok ((planningTickers (inputs.holding positions)).filterMap
          (fun ticker => (outcomeOf inputs positions ticker).1),
        (planningTickers (inputs.holding positions)).filterMap
          fun ticker => (outcomeOf inputs positions ticker).2.head?) := by
  have hmapM : ∀ tickers : List String,
      tickers.mapM (generateTrade (inputs.holding positions)) =
        (.ok (tickers.map (outcomeOf inputs positions)) :
          Except Exn (List (Option ProposedTrade × List String))) := by
    intro tickers
    induction tickers with
    | nil => rfl
    | cons ticker tickers ih =>
      rw [List.mapM_cons, generateTrade_outcome hvalue, ih]
      rfl
  have hwarnings : ∀ tickers : List String,
      (tickers.map (outcomeOf inputs positions)).flatMap (·.2) =
        tickers.filterMap fun ticker => (outcomeOf inputs positions ticker).2.head? := by
    intro tickers
    induction tickers with
    | nil => rfl
    | cons ticker tickers ih =>
      rw [List.map_cons, List.flatMap_cons, ih]
      rcases (outcomeOf_names hvalue positions ticker).2 with hnone | ⟨held, hone⟩
      · rw [List.filterMap_cons_none (by rw [hnone]; rfl), hnone, List.nil_append]
      · rw [List.filterMap_cons_some (by rw [hone]; rfl), hone, List.singleton_append]
  unfold generateTrades
  rw [hmapM, ← hwarnings]
  simp only [Except.map, List.filterMap_map, Function.comp_def]

/-- Two plans over the same tickers have the same trades when every ticker has. -/
theorem generateTrades_trades_iff {positions others : List CurrentPosition}
    (hsame : planningTickers (inputs.holding positions) = planningTickers (inputs.holding others)) :
    (generateTrades (inputs.holding positions)).map Prod.fst =
        (generateTrades (inputs.holding others)).map Prod.fst ↔
      ∀ ticker ∈ planningTickers (inputs.holding others),
        (outcomeOf inputs positions ticker).1 = (outcomeOf inputs others ticker).1 := by
  have hunique : ∀ (trade : ProposedTrade) (ticker other : String), trade.ticker = ticker →
      trade.ticker = other → ticker = other := fun _ _ _ h h' => h.symm.trans h'
  rw [generateTrades_outcomes hvalue, generateTrades_outcomes hvalue, hsame]
  simp only [Except.map, Except.ok.injEq]
  apply filterMap_eq_iff hunique
  · exact fun ticker => (outcomeOf_names hvalue positions ticker).1
  · exact fun ticker => (outcomeOf_names hvalue others ticker).1
  · exact nodup_planningTickers _

/-- The warning of an outcome names its ticker. -/
theorem outcomeOf_warning {positions : List CurrentPosition} {ticker warning : String}
    (h : (outcomeOf inputs positions ticker).2.head? = some warning) :
    ∃ held, warning = unpricedWarning ticker held := by
  rcases (outcomeOf_names hvalue positions ticker).2 with hnone | ⟨held, hone⟩
  · rw [hnone] at h
    cases h
  · rw [hone] at h
    exact ⟨held, (Option.some_inj.mp h).symm⟩

/-- Two plans over the same tickers are the same when every ticker has the same outcome. -/
theorem generateTrades_eq_iff {positions others : List CurrentPosition}
    (hsame : planningTickers (inputs.holding positions) = planningTickers (inputs.holding others)) :
    generateTrades (inputs.holding positions) = generateTrades (inputs.holding others) ↔
      ∀ ticker ∈ planningTickers (inputs.holding others),
        outcomeOf inputs positions ticker = outcomeOf inputs others ticker := by
  have hunique : ∀ (warning ticker other : String),
      (∃ held, warning = unpricedWarning ticker held) →
        (∃ held, warning = unpricedWarning other held) → ticker = other := by
    rintro warning ticker other ⟨held, rfl⟩ ⟨held', h⟩
    exact (unpricedWarning_inj h).1
  have hhead : ∀ ticker, (outcomeOf inputs positions ticker).2.head? =
      (outcomeOf inputs others ticker).2.head? →
        (outcomeOf inputs positions ticker).2 = (outcomeOf inputs others ticker).2 := by
    intro ticker h
    rcases (outcomeOf_names hvalue positions ticker).2 with hnone | ⟨held, hone⟩ <;>
      rcases (outcomeOf_names hvalue others ticker).2 with hnone' | ⟨held', hone'⟩ <;>
      simp_all
  constructor
  · intro h ticker hmem
    have htrades := (generateTrades_trades_iff hvalue hsame).mp (congrArg (Except.map Prod.fst) h)
    rw [generateTrades_outcomes hvalue, generateTrades_outcomes hvalue, hsame] at h
    have hwarnings := (filterMap_eq_iff hunique
      (fun ticker warning => outcomeOf_warning hvalue)
      (fun ticker warning => outcomeOf_warning hvalue)
      (nodup_planningTickers _)).mp (Prod.mk.inj (Except.ok.inj h)).2
    exact Prod.ext (htrades ticker hmem) (hhead ticker (hwarnings ticker hmem))
  · intro h
    rw [generateTrades_outcomes hvalue, generateTrades_outcomes hvalue, hsame]
    have htrades : (planningTickers (inputs.holding others)).filterMap
          (fun ticker => (outcomeOf inputs positions ticker).1) =
        (planningTickers (inputs.holding others)).filterMap
          fun ticker => (outcomeOf inputs others ticker).1 :=
      List.filterMap_congr fun ticker hmem => by rw [h ticker hmem]
    have hwarnings : (planningTickers (inputs.holding others)).filterMap
          (fun ticker => (outcomeOf inputs positions ticker).2.head?) =
        (planningTickers (inputs.holding others)).filterMap
          fun ticker => (outcomeOf inputs others ticker).2.head? :=
      List.filterMap_congr fun ticker hmem => by rw [h ticker hmem]
    rw [htrades, hwarnings]

end Plan

section Rows

variable {inputs}

theorem currentByTicker_isSome {positions : List CurrentPosition} {row : CurrentPosition}
    (hrow : row ∈ positions) : ∃ last ∈ positions, last.ticker = row.ticker ∧
      currentByTicker positions row.ticker = some last := by
  have hmem : row ∈ positions.filter fun p => p.ticker = row.ticker := by simp [hrow]
  cases hlast : (positions.filter fun p => p.ticker = row.ticker).getLast? with
  | none =>
    rw [List.getLast?_eq_none_iff] at hlast
    rw [hlast] at hmem
    cases hmem
  | some last =>
    obtain ⟨hin, hticker⟩ := List.mem_filter.mp (List.mem_of_getLast? hlast)
    exact ⟨last, hin, of_decide_eq_true hticker, hlast⟩

theorem currentByTicker_eq_none {positions : List CurrentPosition} {ticker : String}
    (h : ∀ row ∈ positions, row.ticker ≠ ticker) : currentByTicker positions ticker = none := by
  unfold currentByTicker
  rw [List.getLast?_eq_none_iff, List.filter_eq_nil_iff]
  intro row hrow
  simpa using h row hrow

/-- The row put last is the one that is read. -/
theorem currentByTicker_last (positions : List CurrentPosition) (row : CurrentPosition) :
    currentByTicker (positions ++ [row]) row.ticker = some row := by
  simp [currentByTicker]

theorem filter_mergePositions (positions : List CurrentPosition) (row : CurrentPosition)
    (hrow : row ∈ positions) :
    (mergePositions positions).filter (fun p => p.ticker = row.ticker) =
      [mergedRow positions row.ticker] := by
  unfold mergePositions
  have hmem : row.ticker ∈ (positions.map (·.ticker)).dedup :=
    List.mem_dedup.mpr (List.mem_map.mpr ⟨row, hrow, rfl⟩)
  have hkeys : (positions.map (·.ticker)).dedup.filter (fun ticker => ticker = row.ticker) =
      [row.ticker] := by
    have hcount := List.count_eq_one_of_mem (List.nodup_dedup (positions.map (·.ticker))) hmem
    rw [← List.replicate_one, ← hcount, ← List.filter_eq]
  rw [List.filter_map]
  have hcomp : ((fun p : CurrentPosition => decide (p.ticker = row.ticker)) ∘
      mergedRow positions) = fun ticker => decide (ticker = row.ticker) := rfl
  rw [hcomp, hkeys]
  rfl

theorem currentByTicker_mergePositions {positions : List CurrentPosition} {row : CurrentPosition}
    (hrow : row ∈ positions) : currentByTicker (mergePositions positions) row.ticker =
      some (mergedRow positions row.ticker) := by
  unfold currentByTicker
  rw [filter_mergePositions positions row hrow]
  rfl

theorem mem_map_mergePositions {positions : List CurrentPosition} {ticker : String} :
    ticker ∈ (mergePositions positions).map (·.ticker) ↔ ticker ∈ positions.map (·.ticker) := by
  have hnames : (mergePositions positions).map (·.ticker) = (positions.map (·.ticker)).dedup := by
    unfold mergePositions
    rw [List.map_map]
    exact List.map_id _
  rw [hnames, List.mem_dedup]

/-- The tickers that are planned depend on which tickers are held. -/
theorem planningTickers_congr {positions others : List CurrentPosition}
    (h : ∀ ticker, ticker ∈ positions.map (·.ticker) ↔ ticker ∈ others.map (·.ticker)) :
    planningTickers (inputs.holding positions) = planningTickers (inputs.holding others) := by
  unfold planningTickers
  apply insertionSort_dedup_congr
  intro ticker
  rw [List.mem_append, List.mem_append]
  exact or_congr (h ticker) Iff.rfl

end Rows

variable {inputs}

/-- Every row decides what its ticker leads to when it is put last. -/
theorem rowOutcome_of_order (hvalue : 0 < inputs.portfolioValueUsd)
    (horder : ∀ positions : List CurrentPosition, positions.Perm inputs.currentPositions →
      generateTrades (inputs.holding positions) = generateTrades inputs)
    {row : CurrentPosition} (hrow : row ∈ inputs.currentPositions) :
    outcomeOf inputs inputs.currentPositions row.ticker = inputs.rowOutcome row := by
  have hperm : (inputs.currentPositions.erase row ++ [row]).Perm inputs.currentPositions :=
    (List.perm_append_singleton _ _).trans (List.perm_cons_erase hrow).symm
  have hsame : planningTickers (inputs.holding (inputs.currentPositions.erase row ++ [row])) =
      planningTickers (inputs.holding inputs.currentPositions) :=
    planningTickers_congr fun _ => (hperm.map _).mem_iff
  have hplanned : row.ticker ∈ planningTickers (inputs.holding inputs.currentPositions) :=
    mem_planningTickers.mpr (Or.inl ⟨row, hrow, rfl⟩)
  have hall := (generateTrades_eq_iff hvalue hsame).mp (horder _ hperm)
  rw [← hall row.ticker hplanned]
  exact outcomeOf_held hvalue (currentByTicker_last _ _)

theorem outcomeOf_merged (hvalue : 0 < inputs.portfolioValueUsd) {row : CurrentPosition}
    (hrow : row ∈ inputs.currentPositions) :
    outcomeOf inputs (mergePositions inputs.currentPositions) row.ticker =
      inputs.rowOutcome (mergedRow inputs.currentPositions row.ticker) := by
  have hread := currentByTicker_mergePositions hrow
  have hheld : currentByTicker (mergePositions inputs.currentPositions)
      (mergedRow inputs.currentPositions row.ticker).ticker =
        some (mergedRow inputs.currentPositions row.ticker) := hread
  exact outcomeOf_held hvalue hheld

/-- What planning does depends on the totals held, and not on the order of the rows, exactly when
the rows of every ticker agree with one another and with their total. -/
theorem dependsOnTotals_iff (hvalue : 0 < inputs.portfolioValueUsd) :
    inputs.DependsOnTotals ↔ inputs.RowsAgree := by
  have hmerged : planningTickers (inputs.holding (mergePositions inputs.currentPositions)) =
      planningTickers (inputs.holding inputs.currentPositions) :=
    planningTickers_congr fun _ => mem_map_mergePositions
  constructor
  · intro h row hrow
    have hown := rowOutcome_of_order hvalue h.order hrow
    constructor
    · have htotal := (generateTrades_trades_iff hvalue hmerged).mp h.merged row.ticker
        (mem_planningTickers.mpr (Or.inl ⟨row, hrow, rfl⟩))
      rw [outcomeOf_merged hvalue hrow] at htotal
      rw [hown] at htotal
      exact rowOutcome_total_iff.mp htotal.symm
    · intro other hother hticker
      have hsame := rowOutcome_of_order hvalue h.order hother
      rw [hticker, hown] at hsame
      exact (rowOutcome_warnings_iff hticker).mp (congrArg Prod.snd hsame)
  · intro h
    constructor
    · apply (generateTrades_trades_iff hvalue hmerged).mpr
      intro ticker _
      by_cases hheld : ∃ row ∈ inputs.currentPositions, row.ticker = ticker
      · obtain ⟨row, hrow, rfl⟩ := hheld
        obtain ⟨last, hlast, hticker, hread⟩ := currentByTicker_isSome hrow
        rw [← hticker] at hread ⊢
        rw [outcomeOf_merged hvalue hlast, outcomeOf_held hvalue hread]
        exact (rowOutcome_total_iff.mpr (h last hlast).1).symm
      · have hnone : ∀ row ∈ inputs.currentPositions, row.ticker ≠ ticker :=
          fun row hrow hticker => hheld ⟨row, hrow, hticker⟩
        have hnone' : ∀ row ∈ mergePositions inputs.currentPositions, row.ticker ≠ ticker := by
          intro row hrow hticker
          have hmem := mem_map_mergePositions.mp (List.mem_map.mpr ⟨row, hrow, hticker⟩)
          obtain ⟨row, hrow, hticker⟩ := List.mem_map.mp hmem
          exact hnone row hrow hticker
        rw [outcomeOf_congr
          ((currentByTicker_eq_none hnone').trans (currentByTicker_eq_none hnone).symm)]
    · intro positions hperm
      have hsame : planningTickers (inputs.holding positions) =
          planningTickers (inputs.holding inputs.currentPositions) :=
        planningTickers_congr fun _ => (hperm.map _).mem_iff
      apply (generateTrades_eq_iff hvalue hsame).mpr
      intro ticker _
      by_cases hheld : ∃ row ∈ inputs.currentPositions, row.ticker = ticker
      · obtain ⟨row, hrow, rfl⟩ := hheld
        obtain ⟨last, hlast, hticker, hread⟩ := currentByTicker_isSome hrow
        obtain ⟨last', hlast', hticker', hread'⟩ := currentByTicker_isSome (hperm.mem_iff.mpr hrow)
        have hin := hperm.mem_iff.mp hlast'
        have hlasts : last'.ticker = last.ticker := hticker'.trans hticker.symm
        have htrade : (inputs.rowOutcome last').1 = (inputs.rowOutcome last).1 := by
          have htotal := rowOutcome_total_iff.mpr (h last hlast).1
          rw [htotal, ← hlasts]
          exact rowOutcome_total_iff.mpr (h last' hin).1
        have hwarning : (inputs.rowOutcome last').2 = (inputs.rowOutcome last).2 :=
          ((rowOutcome_warnings_iff hlasts).mpr ((h last hlast).2 last' hin hlasts)).symm
        have hfirst : outcomeOf inputs positions row.ticker = inputs.rowOutcome last' := by
          rw [← hticker'] at hread' ⊢
          exact outcomeOf_held hvalue hread'
        have hsecond : outcomeOf inputs inputs.currentPositions row.ticker =
            inputs.rowOutcome last := by
          rw [← hticker] at hread ⊢
          exact outcomeOf_held hvalue hread
        rw [hfirst, hsecond]
        exact Prod.ext htrade hwarning
      · have hnone : ∀ row ∈ inputs.currentPositions, row.ticker ≠ ticker :=
          fun row hrow hticker => hheld ⟨row, hrow, hticker⟩
        have hnone' : ∀ row ∈ positions, row.ticker ≠ ticker :=
          fun row hrow => hnone row (hperm.mem_iff.mp hrow)
        rw [outcomeOf_congr
          ((currentByTicker_eq_none hnone').trans (currentByTicker_eq_none hnone).symm)]

/-- The only row of a ticker is its total. -/
theorem mergedRow_of_distinct {positions : List CurrentPosition}
    (hdistinct : (positions.map (·.ticker)).Nodup) {row : CurrentPosition}
    (hrow : row ∈ positions) : mergedRow positions row.ticker = row := by
  have hone : positions.filter (·.ticker = row.ticker) = [row] := by
    have hsame : positions.filter (·.ticker = row.ticker) = positions.filter (· = row) := by
      apply List.filter_congr
      intro other hother
      rw [decide_eq_decide]
      constructor
      · exact fun hticker => List.inj_on_of_nodup_map hdistinct hother hrow hticker
      · exact fun heq => congrArg CurrentPosition.ticker heq
    rw [hsame, List.filter_eq, List.count_eq_one_of_mem (hdistinct.of_map _) hrow]
    rfl
  unfold mergedRow
  rw [hone]
  simp

/-- The rows agree where each ticker has one. -/
theorem rowsAgree_of_distinct (hdistinct : (inputs.currentPositions.map (·.ticker)).Nodup) :
    inputs.RowsAgree := by
  intro row hrow
  constructor
  · rw [mergedRow_of_distinct hdistinct hrow]
    by_cases hidle : inputs.Idle row
    · exact Or.inl ⟨hidle, hidle⟩
    · exact Or.inr ⟨hidle, hidle, rfl, fun _ => Or.inl rfl⟩
  · intro other hother hticker _ _
    obtain rfl := List.inj_on_of_nodup_map hdistinct hother hrow hticker
    by_cases hnegligible : inputs.Negligible other
    · exact Or.inl ⟨hnegligible, hnegligible⟩
    · exact Or.inr ⟨hnegligible, hnegligible, Iff.rfl⟩

/-- One ticker held in two accounts, with a hundred dollars in each. -/
def twiceHeld : PlanningInputs where
  targets := [⟨"VTI", 500⟩]
  currentPositions := [⟨"VTI", 10, 100⟩, ⟨"VTI", 10, 100⟩]
  latestPrices := [("VTI", .finite 10)]
  portfolioValueUsd := 1000
  minTradeNotionalUsd := 10
  minWeightDeltaPct := 1 / 100
  limitOffsetBps := 0

/-- One ticker held in one account. -/
def heldOnce : PlanningInputs := { twiceHeld with currentPositions := [⟨"VTI", 20, 200⟩] }

/-- The rows of a ticker held once agree, so planning depends on the totals; those of a ticker held
twice do only if it does. -/
theorem dependsOnTotals_iff_twiceHeld :
    (heldOnce.RowsAgree ∧ heldOnce.DependsOnTotals) ∧
      (twiceHeld.DependsOnTotals ↔ twiceHeld.RowsAgree) := by
  have honce : 0 < heldOnce.portfolioValueUsd := by decide +kernel
  have htwice : 0 < twiceHeld.portfolioValueUsd := by decide +kernel
  have hagree : heldOnce.RowsAgree := rowsAgree_of_distinct (by decide)
  exact ⟨⟨hagree, (dependsOnTotals_iff honce).mpr hagree⟩, dependsOnTotals_iff htwice⟩

/-- Planning sees one of the two rows and buys for the other one once more. -/
theorem not_dependsOnTotals_twiceHeld : ¬twiceHeld.DependsOnTotals := by
  intro h
  have hmerged : (generateTrades (twiceHeld.holding (mergePositions twiceHeld.currentPositions))).map
      Prod.fst ≠ (generateTrades twiceHeld).map Prod.fst := by decide +kernel
  exact hmerged h.merged

end PlanningInputs

end Poma

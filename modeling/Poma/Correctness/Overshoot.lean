import Mathlib.Data.List.TakeWhile
import Poma.Correctness.Affordability
import Poma.Correctness.Planning
import Poma.Correctness.Quotes

/-!
# Rounding twice

A buy is rounded to whole shares when it is planned and again when it is
repriced, from the notional of the shares planned. The second rounding is within
half a share of that notional, which the first may have carried above the gap
the trade was to close. So the order overshoots exactly when an odd multiple of
half the execution price lies above the gap and within the planned notional.
-/

namespace Poma

/-- The demotions that come before that of a ticker. -/
def roundUpsBefore (rules : ExecutionRules) (trades : List ProposedTrade) (ticker : String) :
    List RoundUp :=
  (sortRoundUps (roundUps (roundTrades rules trades))).takeWhile fun r =>
    (roundTrades rules trades)[r.index]?.map (·.1.ticker) ≠ some ticker

/-- The cash, where it is given, covers the plan of nearest shares once some of the demotions that
come before that of a ticker are made. -/
def CashCovers (rules : ExecutionRules) (trades : List ProposedTrade) (cash : Option ℚ)
    (ticker : String) : Prop :=
  ∀ available, cash = some available → ∃ done, done <+: roundUpsBefore rules trades ticker ∧
    netCashOutflow (applyExecutionPolicy trades rules none).1 - available -
      (done.map (·.saving)).sum ≤ cashTolerance

/-- No odd multiple of half a price lies above the gap of a trade and within the notional of its
nearest shares. -/
def GapKept (inputs : PlanningInputs) (trade : ProposedTrade) (price : ℚ) : Prop :=
  ∀ k : ℤ, (k - 1 / 2) * price ≤ ⌊trade.quantity + 1 / 2⌋ * trade.referencePrice →
    (k - 1 / 2) * price ≤ valueGap inputs trade.ticker

section

variable {rules : ExecutionRules} {trades : List ProposedTrade} {trade : ProposedTrade}

/-- What is rounded at a place comes of a trade of the list, by its ticker. -/
theorem roundTrades_place (hnodup : (trades.map (·.ticker)).Nodup) (htrade : trade ∈ trades)
    {i : Nat} {t : ProposedTrade} {floor : Option ℚ}
    (hplace : (roundTrades rules trades)[i]? = some (t, floor)) (hticker : t.ticker = trade.ticker) :
    executable rules trade.side trade = some t ∧ floor = floorOf rules trade := by
  obtain ⟨other, hother, hround⟩ := List.mem_filterMap.mp (List.mem_of_getElem? hplace)
  rw [roundTrade_toOption] at hround
  obtain ⟨t', ht', hpair⟩ := Option.map_eq_some_iff.mp hround
  obtain ⟨rfl, rfl⟩ := Prod.mk.inj hpair
  have hsame : other = trade := by
    apply List.inj_on_of_nodup_map hnodup hother htrade
    rw [← hticker, executable_ticker ht']
  rw [← hsame]
  exact ⟨ht', rfl⟩

/-- The rounded trades of a list have the tickers of some of its trades. -/
theorem nodup_roundTrades (hnodup : (trades.map (·.ticker)).Nodup) :
    ((roundTrades rules trades).map (·.1.ticker)).Nodup := by
  have hsublist : ((roundTrades rules trades).map (·.1.ticker)).Sublist (trades.map (·.ticker)) := by
    clear hnodup
    induction trades with
    | nil => exact List.Sublist.refl _
    | cons trade trades ih =>
      unfold roundTrades at ih ⊢
      rw [List.filterMap_cons, List.map_cons, roundTrade_toOption]
      cases hround : executable rules trade.side trade with
      | none => exact ih.cons _
      | some t =>
        have hticker := executable_ticker hround
        simp only [Option.map_some, List.map_cons, hticker]
        exact ih.cons_cons _
  exact hsublist.nodup hnodup

/-- Two places of one ticker are one place. -/
theorem place_unique (hnodup : (trades.map (·.ticker)).Nodup) {i j : Nat}
    {a b : ProposedTrade × Option ℚ} (hi : (roundTrades rules trades)[i]? = some a)
    (hj : (roundTrades rules trades)[j]? = some b) (hticker : a.1.ticker = b.1.ticker) : i = j := by
  have hplaces : ((roundTrades rules trades).map (·.1.ticker)).Nodup := nodup_roundTrades hnodup
  have hread : ((roundTrades rules trades).map (·.1.ticker))[i]? =
      ((roundTrades rules trades).map (·.1.ticker))[j]? := by
    rw [List.getElem?_map, List.getElem?_map, hi, hj, Option.map_some, Option.map_some, hticker]
  apply (List.getElem?_inj _ hplaces).mp hread
  simpa using (List.getElem?_eq_some_iff.mp hi).1

/-- An executable trade has the rounded quantity, and its notional at its reference price. -/
theorem executable_quantity {side : OrderSide} {t : ProposedTrade}
    (h : executable rules side trade = some t)
    (hnotional : trade.notional = trade.quantity * trade.referencePrice) :
    t.quantity = roundedExecutionQuantity trade.quantity side
        (resolveExecutionRule trade.ticker rules) ∧
      0 < t.quantity ∧ t.notional = t.quantity * trade.referencePrice := by
  unfold executable at h
  dsimp only at h
  split at h
  · cases h
  rename_i hquantity
  obtain rfl := Option.some.inj h
  obtain ⟨hpositive, -⟩ := not_or.mp hquantity
  unfold ProposedTrade.withQuantity
  split
  · exact ⟨rfl, not_le.mp hpositive, rfl⟩
  · rename_i hsame
    have hquantity' := not_not.mp hsame
    exact ⟨hquantity'.symm, hquantity' ▸ not_le.mp hpositive, hnotional⟩

theorem executable_referencePrice {side : OrderSide} {t : ProposedTrade}
    (h : executable rules side trade = some t) : t.referencePrice = trade.referencePrice := by
  unfold executable at h
  dsimp only at h
  split at h
  · cases h
  · rw [← Option.some.inj h]
    unfold ProposedTrade.withQuantity
    split <;> rfl

/-- A demotion is made unless the cash covers the plan without it. -/
theorem demoted_iff_not_covers (hnodup : (trades.map (·.ticker)).Nodup) {available : ℚ}
    {done rest : List RoundUp}
    (horder : sortRoundUps (roundUps (roundTrades rules trades)) = done ++ rest)
    (hend : rest = [] ∨ netCashOutflow ((roundTrades rules trades).map (·.1)) - available -
      (done.map (·.saving)).sum ≤ cashTolerance)
    (hneeded : ∀ earlier r later, done = earlier ++ r :: later →
      ¬netCashOutflow ((roundTrades rules trades).map (·.1)) - available -
        (earlier.map (·.saving)).sum ≤ cashTolerance)
    {i : Nat} {t : ProposedTrade} {floored : ℚ}
    (hplace : (roundTrades rules trades)[i]? = some (t, some floored)) :
    i ∈ done.map (·.index) ↔ ¬CashCovers rules trades (some available) t.ticker := by
  let other (r : RoundUp) : Bool :=
    decide ((roundTrades rules trades)[r.index]?.map (·.1.ticker) ≠ some t.ticker)
  have hbefore : roundUpsBefore rules trades t.ticker = (done ++ rest).takeWhile other := by
    rw [← horder]
    rfl
  have hother : ∀ r ∈ done ++ rest, other r = true ↔ r.index ≠ i := by
    intro r hr
    rw [← horder] at hr
    obtain ⟨t', hplace', -⟩ := mem_roundUps.mp ((List.mem_insertionSort _).mp hr)
    rw [decide_eq_true_iff, hplace', Option.map_some, ne_eq, Option.some_inj, not_iff_not]
    constructor
    · exact fun hticker => place_unique hnodup hplace' hplace hticker
    · intro hindex
      rw [hindex, hplace] at hplace'
      rw [(Prod.mk.inj (Option.some.inj hplace')).1]
  constructor
  · intro hmem hcovers
    obtain ⟨part, hpart, hfits⟩ := hcovers available rfl
    obtain ⟨r, hr, hindex⟩ := List.mem_map.mp hmem
    rw [hbefore] at hpart
    -- the demotion of the place is not among those before it
    have hshorter : ¬done <+: part := by
      intro hinitial
      have hr' := List.mem_takeWhile_imp ((hinitial.trans hpart).subset hr)
      exact (hother r (List.mem_append_left _ hr)).mp hr' hindex
    obtain ⟨later, hlater⟩ := (List.prefix_or_prefix_of_prefix
      (hpart.trans (List.takeWhile_prefix other)) (List.prefix_append done rest)).resolve_right
      hshorter
    cases later with
    | nil => exact hshorter ⟨[], by rw [← hlater, List.append_nil, List.append_nil]⟩
    | cons next later => exact hneeded part next later hlater.symm hfits
  · intro hshort
    by_contra hnot
    apply hshort
    intro _ havailable
    obtain rfl := Option.some.inj havailable
    have hdone : ∀ r ∈ done, other r = true := by
      intro r hr
      rw [hother r (List.mem_append_left _ hr)]
      rintro rfl
      exact hnot (List.mem_map_of_mem hr)
    refine ⟨done, ?_, ?_⟩
    · rw [hbefore, List.takeWhile_append_of_pos hdone]
      exact List.prefix_append _ _
    · rcases hend with hrest | hfits
      · -- the place is in the order, so some demotion was left
        obtain ⟨r, hr, hindex⟩ := List.mem_map.mp (mem_demotionOrder hplace)
        rw [horder, hrest, List.append_nil] at hr
        exact absurd (hindex ▸ List.mem_map_of_mem hr) hnot
      · exact hfits

/-- The whole shares a buy is planned at. -/
structure PlannedShares (rules : ExecutionRules) (trades : List ProposedTrade) (cash : Option ℚ)
    (trade planned : ProposedTrade) : Prop where
  side : planned.side = .buy
  quantity_pos : 0 < planned.quantity
  notional : planned.notional = planned.quantity * trade.referencePrice
  covered : CashCovers rules trades cash trade.ticker →
    planned.quantity = ⌊trade.quantity + 1 / 2⌋
  short : ¬CashCovers rules trades cash trade.ticker → planned.quantity = ⌊trade.quantity⌋

/-- A rounded buy is planned at its nearest shares, when its cash is covered. -/
theorem plannedShares_nearest (hside : trade.side = .buy)
    (hwhole : (resolveExecutionRule trade.ticker rules).Whole)
    (hnotional : trade.notional = trade.quantity * trade.referencePrice) {cash : Option ℚ}
    {planned : ProposedTrade} (hexecutable : executable rules trade.side trade = some planned)
    (hcash : ¬CashCovers rules trades cash trade.ticker → floorOf rules trade = none) :
    PlannedShares rules trades cash trade planned := by
  obtain ⟨hquantity, hpositive, hplanned⟩ := executable_quantity hexecutable hnotional
  rw [hside, roundedExecutionQuantity_buy hwhole] at hquantity
  refine ⟨(executable_side hexecutable).trans hside, hpositive, hplanned, fun _ => hquantity, ?_⟩
  intro hshort
  have hfloor := hcash hshort
  unfold floorOf at hfloor
  dsimp only at hfloor
  split at hfloor
  · cases hfloor
  rename_i hup
  rw [hside, roundedExecutionQuantity_buy hwhole, roundedExecutionQuantity_sell hwhole] at hup
  have hle : (⌊trade.quantity + 1 / 2⌋ : ℚ) ≤ ⌊trade.quantity⌋ := by
    apply not_lt.mp
    exact fun hlt => hup ⟨rfl, hlt⟩
  have hge : ⌊trade.quantity⌋ ≤ ⌊trade.quantity + 1 / 2⌋ := Int.floor_mono (by linarith)
  rw [hquantity]
  exact le_antisymm hle (by exact_mod_cast hge)

/-- What the policy makes of a buy under whole shares. -/
theorem applyExecutionPolicy_plannedShares (hnodup : (trades.map (·.ticker)).Nodup)
    (htrade : trade ∈ trades) (hside : trade.side = .buy)
    (hwhole : (resolveExecutionRule trade.ticker rules).Whole)
    (hnotional : trade.notional = trade.quantity * trade.referencePrice) {cash : Option ℚ}
    {planned : ProposedTrade} (hplanned : planned ∈ (applyExecutionPolicy trades rules cash).1)
    (hticker : planned.ticker = trade.ticker) : PlannedShares rules trades cash trade planned := by
  cases cash with
  | none =>
    obtain ⟨⟨t, floor⟩, hmem, rfl⟩ := List.mem_map.mp hplanned
    obtain ⟨i, hplace⟩ := List.mem_iff_getElem?.mp hmem
    have hexecutable := (roundTrades_place hnodup htrade hplace hticker).1
    apply plannedShares_nearest hside hwhole hnotional hexecutable
    intro hshort
    exact absurd (fun available h => by cases h) hshort
  | some available =>
    obtain ⟨done, rest, horder, hplan, hend, hneeded⟩ :=
      applyExecutionPolicy_plan trades rules available
    rw [hplan] at hplanned
    obtain ⟨⟨⟨t, floor⟩, i⟩, hmem, hitem⟩ := List.mem_filterMap.mp hplanned
    have hplace := List.mk_mem_zipIdx_iff_getElem?.mp hmem
    have hticker' := (demoteItem_ticker hitem).symm.trans hticker
    obtain ⟨hexecutable, hfloor⟩ := roundTrades_place hnodup htrade hplace hticker'
    cases floor with
    | none =>
      obtain rfl := Option.some.inj hitem
      exact plannedShares_nearest hside hwhole hnotional hexecutable fun _ => hfloor.symm
    | some floored =>
      have hdemoted := demoted_iff_not_covers hnodup horder hend hneeded hplace
      rw [hticker'] at hdemoted
      simp only [demoteItem] at hitem
      split at hitem
      · rename_i hmade
        have hshort := hdemoted.mp hmade
        split at hitem
        · cases hitem
        rename_i hkept
        obtain rfl := Option.some.inj hitem
        obtain ⟨hpositive, -⟩ := not_or.mp hkept
        have hfloored : floored = ⌊trade.quantity⌋ := by
          unfold floorOf at hfloor
          dsimp only at hfloor
          split at hfloor
          · rw [Option.some.inj hfloor, roundedExecutionQuantity_sell hwhole]
          · cases hfloor
        have hprice : t.referencePrice = trade.referencePrice := executable_referencePrice hexecutable
        exact ⟨(executable_side hexecutable).trans hside, not_le.mp hpositive,
          (by rw [hprice]), fun hcovers => absurd hcovers hshort, fun _ => hfloored⟩
      · rename_i hkept
        obtain rfl := Option.some.inj hitem
        apply plannedShares_nearest hside hwhole hnotional hexecutable
        exact fun hshort => absurd (hdemoted.mpr hshort) hkept

/-- A multiple nearest to an amount is within half a step of a bound, unless an odd multiple of half
the step lies above the bound and within the amount. -/
theorem nearest_le_iff {amount step bound : ℚ} (hstep : 0 < step) :
    (⌊amount / step + 1 / 2⌋ : ℚ) * step ≤ bound + step / 2 ↔
      ∀ k : ℤ, (k - 1 / 2) * step ≤ amount → (k - 1 / 2) * step ≤ bound := by
  have hwithin : ∀ k : ℤ, ((k : ℚ) - 1 / 2) * step ≤ amount ↔ k ≤ ⌊amount / step + 1 / 2⌋ := by
    intro k
    rw [← le_div_iff₀ hstep, sub_le_iff_le_add, Int.le_floor]
  constructor
  · intro hbound k hk
    have hk' : (k : ℚ) ≤ ⌊amount / step + 1 / 2⌋ := by exact_mod_cast (hwithin k).mp hk
    have hmono := mul_le_mul_of_nonneg_right hk' hstep.le
    linarith
  · intro h
    have hlast := h _ ((hwithin _).mpr le_rfl)
    linarith

/-- The buy that leaves planning and repricing is at most half a share above its gap exactly when no
odd multiple of half the execution price lies above the gap and within the notional of the nearest
shares, or the cash did not cover them. -/
theorem applyExecutionQuotes_halfShare_iff {inputs : PlanningInputs} {plan : List ProposedTrade}
    {warnings : List String} (hplan : generateTrades inputs = .ok (plan, warnings))
    (htrades : trades.Sublist plan) (htrade : trade ∈ trades) (hside : trade.side = .buy)
    (hwhole : (resolveExecutionRule trade.ticker rules).Whole) {cash : Option ℚ}
    {pending : List ProposedTrade}
    (hpending : ∀ t ∈ pending, t ∈ (applyExecutionPolicy trades rules cash).1)
    {quotes : List (String × ExecutionQuote)} {settings : Settings} {allowWideSpread : Bool}
    {repriced : List ProposedTrade} {reasons : List String}
    (hquotes : applyExecutionQuotes pending quotes settings rules allowWideSpread =
      .ok (repriced, reasons))
    {updated : ProposedTrade} (hupdated : updated ∈ repriced)
    (hticker : updated.ticker = trade.ticker) {quote : ExecutionQuote}
    (hquote : quotes.lookup trade.ticker = some quote) {price : ℚ}
    (hprice : (selectExecutionPrice quote .buy settings allowWideSpread).1 = some price) :
    updated.referencePrice = price ∧
      (updated.quantity * price ≤ valueGap inputs trade.ticker + price / 2 ↔
        (CashCovers rules trades cash trade.ticker → GapKept inputs trade price)) := by
  obtain ⟨hproposed, hnodup⟩ := generateTrades_proposed hplan
  have htraded := hproposed trade (htrades.subset htrade)
  -- the gap of a buy is the notional its quantity is sized on
  have hgap : trade.notional = valueGap inputs trade.ticker := by
    have hbuy := htraded.side
    rw [hside] at hbuy
    by_cases hpositive : valueGap inputs trade.ticker > 0
    · rw [htraded.notional, abs_of_pos hpositive]
    · rw [if_neg hpositive] at hbuy
      cases hbuy
  have hsized : trade.notional = trade.quantity * trade.referencePrice := by
    rw [htraded.quantity_buy hside, div_mul_cancel₀ _ htraded.price_pos.ne']
  obtain ⟨planned, hplanned, quote', hquote', hkept⟩ :=
    (applyExecutionQuotes_batch hquotes).mem hupdated
  have hplannedTicker : planned.ticker = trade.ticker := hkept.same_order.1.symm.trans hticker
  have hshares := applyExecutionPolicy_plannedShares ((htrades.map _).nodup hnodup) htrade hside
    hwhole hsized (hpending planned hplanned) hplannedTicker
  rw [hplannedTicker, hquote] at hquote'
  obtain rfl := Option.some.inj hquote'
  have hexecution : updated.referencePrice = price := by
    have hselected := hkept.selected
    rw [hshares.side, hprice] at hselected
    exact (Option.some.inj hselected).symm
  have hquantity : updated.quantity = ⌊planned.notional / price + 1 / 2⌋ := by
    rw [hkept.quantity, repricedQuantity, hshares.side, hplannedTicker, hexecution,
      if_neg (by decide), roundedExecutionQuantity_buy hwhole]
  have hnotional : 0 < planned.notional := by
    rw [hshares.notional]
    exact mul_pos hshares.quantity_pos htraded.price_pos
  have hpositive : 0 < price := price_pos_of_shares hnotional (hquantity ▸ hkept.quantity_pos)
  refine ⟨hexecution, ?_⟩
  rw [hquantity, nearest_le_iff hpositive, hshares.notional]
  by_cases hcovers : CashCovers rules trades cash trade.ticker
  · rw [hshares.covered hcovers]
    exact ⟨fun h _ => h, fun h => h hcovers⟩
  · -- floored shares are within the gap
    rw [hshares.short hcovers]
    have hfloored : (⌊trade.quantity⌋ : ℚ) * trade.referencePrice ≤
        valueGap inputs trade.ticker := by
      rw [← hgap, hsized]
      exact mul_le_mul_of_nonneg_right (Int.floor_le _) htraded.price_pos.le
    constructor
    · exact fun _ hcovers' => absurd hcovers' hcovers
    · exact fun _ k hk => hk.trans hfloored

end

/-- A target of 10050 dollars in a stock at 100. -/
def targetOf10050 : PlanningInputs where
  targets := [⟨"AAPL", 10050⟩]
  currentPositions := []
  latestPrices := [("AAPL", .finite 100)]
  portfolioValueUsd := 100000
  minTradeNotionalUsd := 100
  minWeightDeltaPct := 5 / 1000
  limitOffsetBps := 10

/-- The buy generated for it, of half a share more than a hundred. -/
def buyOf10050 : ProposedTrade where
  ticker := "AAPL"
  side := .buy
  quantity := 201 / 2
  notional := 10050
  referencePrice := 100
  limitPrice := some (1001 / 10)
  reason := "rebalance_to_target_weight"

/-- The buy in whole shares. -/
def buyOf101Shares : ProposedTrade := { buyOf10050 with quantity := 101, notional := 10100 }

/-- A quote of 99.48 to 99.50. -/
def quoteBelow : ExecutionQuote where
  ticker := "AAPL"
  source := "ibkr"
  ageSeconds := some (.finite 3)
  bid := some (.finite (9948 / 100))
  ask := some (.finite (9950 / 100))

/-- The buy at that quote. -/
def buyOf102Shares : ProposedTrade :=
  { buyOf10050 with
    quantity := 102
    notional := 10149
    referencePrice := 199 / 2
    limitPrice := some (9949 / 100)
    referencePriceSource := "ibkr"
    referencePriceBasis := "side_of_market"
    quoteAgeSeconds := some 3
    quoteSpreadBps := some (20000 / 9949) }

theorem generateTrades_targetOf10050 : generateTrades targetOf10050 = .ok ([buyOf10050], []) := by
  decide +kernel

theorem applyExecutionPolicy_buyOf10050 :
    applyExecutionPolicy [buyOf10050] Settings.unset.executionRules (some 20000) =
      ([buyOf101Shares], []) := by
  decide +kernel

theorem applyExecutionQuotes_buyOf101Shares :
    applyExecutionQuotes [buyOf101Shares] [("AAPL", quoteBelow)] Settings.unset
      Settings.unset.executionRules false = .ok ([buyOf102Shares], []) := by
  decide +kernel

/-- A quote of 99.96 to 100. -/
def quoteAtPlan : ExecutionQuote where
  ticker := "AAPL"
  source := "ibkr"
  ageSeconds := some (.finite 3)
  bid := some (.finite (9996 / 100))
  ask := some (.finite 100)

/-- The buy at that quote. -/
def buyOf101Quoted : ProposedTrade :=
  { buyOf101Shares with
    limitPrice := some (9999 / 100)
    referencePriceSource := "ibkr"
    referencePriceBasis := "side_of_market"
    quoteAgeSeconds := some 3
    quoteSpreadBps := some (20000 / 4999) }

/-- At the planning price the buy stays within half a share of its gap, and below it it does only if
the gap is kept. -/
theorem applyExecutionQuotes_halfShare_iff_10050 :
    ((CashCovers Settings.unset.executionRules [buyOf10050] (some 20000) "AAPL" →
        GapKept targetOf10050 buyOf10050 100) ∧
      buyOf101Quoted.quantity * 100 ≤ valueGap targetOf10050 "AAPL" + 100 / 2) ∧
    buyOf102Shares.referencePrice = 199 / 2 ∧
      (buyOf102Shares.quantity * (199 / 2) ≤ valueGap targetOf10050 "AAPL" + 199 / 2 / 2 ↔
        (CashCovers Settings.unset.executionRules [buyOf10050] (some 20000) "AAPL" →
          GapKept targetOf10050 buyOf10050 (199 / 2))) := by
  have hpending : ∀ t ∈ [buyOf101Shares],
      t ∈ (applyExecutionPolicy [buyOf10050] Settings.unset.executionRules (some 20000)).1 := by
    intro t ht
    rw [applyExecutionPolicy_buyOf10050]
    exact ht
  have hquoted : applyExecutionQuotes [buyOf101Shares] [("AAPL", quoteAtPlan)] Settings.unset
      Settings.unset.executionRules false = .ok ([buyOf101Quoted], []) := by decide +kernel
  have hgap : valueGap targetOf10050 buyOf10050.ticker = 10050 := by decide +kernel
  have hkept : GapKept targetOf10050 buyOf10050 100 := by
    intro k hk
    have hshares : (⌊buyOf10050.quantity + 1 / 2⌋ : ℚ) * buyOf10050.referencePrice = 10100 := by
      decide +kernel
    rw [hshares] at hk
    have hle : (k : ℚ) < 102 := by linarith
    have hle : k ≤ 101 := Int.lt_add_one_iff.mp (by exact_mod_cast hle)
    have hle : (k : ℚ) ≤ 101 := by exact_mod_cast hle
    rw [hgap]
    linarith
  constructor
  · have hselected : (selectExecutionPrice quoteAtPlan .buy Settings.unset false).1 = some 100 := by
      decide +kernel
    have hiff := applyExecutionQuotes_halfShare_iff generateTrades_targetOf10050
      (List.Sublist.refl _) List.mem_cons_self rfl ⟨rfl, rfl, rfl⟩ hpending hquoted
      List.mem_cons_self rfl rfl hselected
    exact ⟨fun _ => hkept, hiff.2.mpr fun _ => hkept⟩
  · apply applyExecutionQuotes_halfShare_iff generateTrades_targetOf10050 (List.Sublist.refl _)
      List.mem_cons_self rfl ⟨rfl, rfl, rfl⟩ hpending applyExecutionQuotes_buyOf101Shares
      List.mem_cons_self rfl rfl
    decide +kernel

/-- One buy, generated for a gap of 10050, leaves as 102 shares at 99.50. -/
theorem not_halfShare_10050 : generateTrades targetOf10050 = .ok ([buyOf10050], []) ∧
    valueGap targetOf10050 "AAPL" = 10050 ∧
    applyExecutionPolicy [buyOf10050] Settings.unset.executionRules (some 20000) =
      ([buyOf101Shares], []) ∧
    applyExecutionQuotes [buyOf101Shares] [("AAPL", quoteBelow)] Settings.unset
      Settings.unset.executionRules false = .ok ([buyOf102Shares], []) ∧
    ¬buyOf102Shares.quantity * buyOf102Shares.referencePrice ≤
      valueGap targetOf10050 "AAPL" + buyOf102Shares.referencePrice / 2 :=
  ⟨generateTrades_targetOf10050, by decide +kernel, applyExecutionPolicy_buyOf10050,
    applyExecutionQuotes_buyOf101Shares, by decide +kernel⟩

end Poma

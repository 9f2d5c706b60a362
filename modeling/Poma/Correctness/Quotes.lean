import Poma.Correctness.Limits

/-!
# Trades priced off quotes

A trade is only kept by the repricing with a quote that passed every check of its
age, its completeness and its spread, and with a quantity and a limit within the
bounds of its rule and of the settings. The kept trades are the input in its
order, and every dropped one is explained.
-/

namespace Poma

/-- A quote that can be used at all. -/
structure UsableQuote (settings : Settings) (quote : ExecutionQuote) : Prop where
  resolved : quote.contractUnresolved = false
  finite : quote.allFinite = true
  age : ∃ age, quote.ageSeconds = some (.finite age) ∧ 0 ≤ age ∧
    age ≤ settings.executionQuoteMaxAgeSeconds
  sides : ∀ bid ask, quote.bid = some (.finite bid) → quote.ask = some (.finite ask) → bid ≤ ask
  spread_nonneg : ∀ spread, quote.spreadBps = some (.finite spread) → 0 ≤ spread
  timely : quote.isDelayed = true → settings.allowDelayedExecutionQuotes = true

/-- A trade priced off a quote it could be trusted to. -/
structure TrustworthyPrice (settings : Settings) (rules : ExecutionRules) (allowWideSpread : Bool)
    (quote : ExecutionQuote) (trade updated : ProposedTrade) : Prop where
  quote_usable : UsableQuote settings quote
  spread : settings.executionPriceBasis ≠ .last → ∀ spread, quote.numbers.spread = some spread →
    spread ≤ settings.executionMaxSpreadBps ∨
      (allowWideSpread = true ∧ spread ≤ settings.executionWideSpreadMaxBps ∧
        quote.numbers.bid.isSome ∧ quote.numbers.ask.isSome)
  inside : ∀ bid ask, quote.bid = some (.finite bid) → quote.ask = some (.finite ask) →
    Grid.On (1 / 10 ^ 4) bid → Grid.On (1 / 10 ^ 4) ask →
    updated.referencePriceBasis = ExecutionPriceBasis.sideOfMarket.value ∨
      updated.referencePriceBasis = wideSpreadMidpointBasis →
    ∃ limit, updated.limitPrice = some limit ∧ bid ≤ limit ∧ limit ≤ ask
  same_order : updated.ticker = trade.ticker ∧ updated.side = trade.side ∧
    updated.orderRef = trade.orderRef
  quantity_pos : 0 < updated.quantity
  minQuantity_le : (resolveExecutionRule trade.ticker rules).minQuantity ≤ updated.quantity
  increment : 0 < (resolveExecutionRule trade.ticker rules).quantityIncrement →
    Grid.On (resolveExecutionRule trade.ticker rules).quantityIncrement updated.quantity
  notional_le : ∃ limit, updated.limitPrice = some limit ∧ 0 < limit ∧
    updated.quantity * max updated.referencePrice limit ≤ settings.maxOrderNotionalUsd

/-- A batch: each trade is kept, as it is related to its new price, or explained. -/
inductive QuotedBatch (Kept : ProposedTrade → ProposedTrade → Prop) :
    List ProposedTrade → List ProposedTrade → List String → Prop
  | nil : QuotedBatch Kept [] [] []
  | kept {trade updated : ProposedTrade} {trades repriced : List ProposedTrade}
      {warnings : List String} (h : Kept trade updated)
      (hrest : QuotedBatch Kept trades repriced warnings) :
      QuotedBatch Kept (trade :: trades) (updated :: repriced) warnings
  | dropped {trade : ProposedTrade} {trades repriced : List ProposedTrade}
      {reasons warnings : List String} (h : reasons ≠ [])
      (hrest : QuotedBatch Kept trades repriced warnings) :
      QuotedBatch Kept (trade :: trades) repriced (reasons ++ warnings)

section

variable {settings : Settings} {quote : ExecutionQuote}

theorem value?_of_allFinite (h : quote.allFinite = true) {field : Option Reported}
    (hfield : field ∈ [quote.bid, quote.ask, quote.last, quote.ageSeconds, quote.spreadBps])
    {value : Reported} (hvalue : field = some value) : ∃ x, value = .finite x := by
  have hfinite := List.all_eq_true.mp h field hfield
  rw [hvalue] at hfinite
  cases value with
  | finite x => exact ⟨x, rfl⟩
  | infinite negative => cases hfinite
  | nan => cases hfinite

/-- A quote without a fault is usable. -/
theorem usableQuote_of_quoteFault (h : quoteFault quote settings = none) :
    UsableQuote settings quote := by
  unfold quoteFault at h
  dsimp only at h
  split at h
  · cases h
  rename_i hresolved
  split at h
  · cases h
  rename_i hfinite
  split at h
  · cases h
  rename_i hage
  split at h
  · cases h
  rename_i hcrossed
  split at h
  · cases h
  rename_i hdelayed
  have hfinite' : quote.allFinite = true := by simpa using hfinite
  simp only [Bool.or_eq_true, not_or] at hcrossed
  obtain ⟨hsides, hspread⟩ := hcrossed
  constructor
  · simpa using hresolved
  · exact hfinite'
  · cases hquoted : quote.ageSeconds with
    | none => simp [ExecutionQuote.numbers, hquoted] at h
    | some value =>
      obtain ⟨age, rfl⟩ := value?_of_allFinite hfinite' (by simp) hquoted
      have hnumber : quote.numbers.ageSeconds = some age := by
        simp [ExecutionQuote.numbers, hquoted, Reported.value?]
      rw [hnumber] at h hage
      refine ⟨age, rfl, by simpa using hage, ?_⟩
      by_contra hold
      simp [not_le.mp hold] at h
  · intro bid ask hbid hask
    by_contra hcross
    apply hsides
    simp [ExecutionQuote.numbers, hbid, hask, Reported.value?, not_le.mp hcross]
  · intro spread hquoted
    by_contra hneg
    apply hspread
    simp [ExecutionQuote.numbers, hquoted, Reported.value?, not_le.mp hneg]
  · intro hlate
    by_contra hforbidden
    apply hdelayed
    have hoff : settings.allowDelayedExecutionQuotes = false := Bool.eq_false_iff.mpr hforbidden
    simp [hlate, hoff]

/-- What a selected price says about its quote. -/
structure Selected (settings : Settings) (allowWideSpread : Bool) (quote : ExecutionQuote)
    (basis : String) : Prop where
  usable : UsableQuote settings quote
  basis_cases : basis = settings.executionPriceBasis.value ∨
    (basis = wideSpreadMidpointBasis ∧ settings.executionPriceBasis ≠ .last)
  spread : settings.executionPriceBasis ≠ .last → ∀ spread, quote.numbers.spread = some spread →
    spread ≤ settings.executionMaxSpreadBps ∨
      (allowWideSpread = true ∧ spread ≤ settings.executionWideSpreadMaxBps ∧
        quote.numbers.bid.isSome ∧ quote.numbers.ask.isSome)

/-- A price is selected off a checked quote, or its absence is explained. -/
theorem selectExecutionPrice_spec (quote : ExecutionQuote) (side : OrderSide) (settings : Settings)
    (allowWideSpread : Bool) :
    ((selectExecutionPrice quote side settings allowWideSpread).1 = none →
      (selectExecutionPrice quote side settings allowWideSpread).2.2 ≠ []) ∧
    ((selectExecutionPrice quote side settings allowWideSpread).1 ≠ none →
      Selected settings allowWideSpread quote
        (selectExecutionPrice quote side settings allowWideSpread).2.1) := by
  unfold selectExecutionPrice
  dsimp only
  cases hfault : quoteFault quote settings with
  | some warning => simp
  | none =>
    have husable := usableQuote_of_quoteFault hfault
    cases hprice : quotePrice quote.numbers side settings.executionPriceBasis with
    | error missing => simp
    | ok price =>
      dsimp only
      by_cases hlast : settings.executionPriceBasis = .last
      · simp only [hlast, ite_true]
        exact ⟨by simp, fun _ => ⟨husable, Or.inl (by rw [hlast]), fun h => absurd hlast h⟩⟩
      simp only [hlast, ite_false]
      cases hspread : quote.numbers.spread with
      | none => exact ⟨by simp, fun _ => ⟨husable, Or.inl rfl, by simp [hspread]⟩⟩
      | some spread =>
        have hknown : ∀ other, quote.numbers.spread = some other → spread = other :=
          fun other hother => Option.some.inj (hspread.symm.trans hother)
        dsimp only
        by_cases hwide : spread > settings.executionMaxSpreadBps
        · simp only [hwide, ite_true]
          cases hbid : quote.numbers.bid with
          | none => simp
          | some bid =>
            cases hask : quote.numbers.ask with
            | none => simp
            | some ask =>
              dsimp only
              by_cases hallowed :
                  (allowWideSpread && spread ≤ settings.executionWideSpreadMaxBps) = true
              · simp only [hallowed, ite_true]
                refine ⟨by simp, fun _ => ⟨husable, Or.inr ⟨rfl, hlast⟩, fun _ other hother =>
                  Or.inr ?_⟩⟩
                rw [← hknown other hother]
                simp only [Bool.and_eq_true, decide_eq_true_eq] at hallowed
                exact ⟨hallowed.1, hallowed.2, by simp [hbid], by simp [hask]⟩
              · simp [hallowed]
        · simp only [hwide, ite_false]
          refine ⟨by simp, fun _ => ⟨husable, Or.inl rfl, fun _ other hother => Or.inl ?_⟩⟩
          rw [← hknown other hother]
          exact not_lt.mp hwide

/-- What a priced quote says about its limit. -/
structure PricedQuote (settings : Settings) (side : OrderSide) (allowWideSpread : Bool)
    (quote : ExecutionQuote) (aggression limit : ℚ) (basis : String) : Prop where
  selected : Selected settings allowWideSpread quote basis
  inside : ∀ bid ask, quote.bid = some (.finite bid) → quote.ask = some (.finite ask) →
    basis = ExecutionPriceBasis.sideOfMarket.value ∨ basis = wideSpreadMidpointBasis →
    limit = insideSpreadLimitPrice side bid ask aggression

/-- A quote prices a first order, or says why it does not. -/
theorem priceFromQuote_spec (quote : ExecutionQuote) (side : OrderSide) (settings : Settings)
    (offsetBps aggression : ℚ) (allowWideSpread : Bool) {pricing : QuotePricing}
    (h : priceFromQuote quote side settings offsetBps allowWideSpread (some aggression) = pricing) :
    (pricing.referencePrice = none ∧ pricing.limitPrice = none ∧ pricing.warnings ≠ []) ∨
      ∃ price limit, pricing.referencePrice = some price ∧ pricing.limitPrice = some limit ∧
        PricedQuote settings side allowWideSpread quote aggression limit pricing.basis := by
  obtain ⟨hwarnings, hselected⟩ := selectExecutionPrice_spec quote side settings allowWideSpread
  unfold priceFromQuote at h
  cases hselect : selectExecutionPrice quote side settings allowWideSpread with
  | mk price rest =>
    obtain ⟨basis, warnings⟩ := rest
    rw [hselect] at h hwarnings hselected
    cases price with
    | none =>
      rw [← h]
      exact Or.inl ⟨rfl, rfl, hwarnings rfl⟩
    | some price =>
      have hsound := hselected (by simp)
      dsimp only at h hsound
      have hnumber : ∀ (field : Option Reported) (x : ℚ), field = some (.finite x) →
          field.bind Reported.value? = some x := by
        rintro _ x rfl
        rfl
      right
      cases hbid : quote.numbers.bid with
      | none =>
        rw [hbid] at h
        rw [← h]
        refine ⟨price, _, rfl, rfl, hsound, fun bid ask hquoted => ?_⟩
        have hbid' : quote.numbers.bid = some bid := hnumber quote.bid bid hquoted
        rw [hbid] at hbid'
        cases hbid'
      | some bid =>
        cases hask : quote.numbers.ask with
        | none =>
          rw [hbid, hask] at h
          rw [← h]
          refine ⟨price, _, rfl, rfl, hsound, fun bid ask _ hquoted => ?_⟩
          have hask' : quote.numbers.ask = some ask := hnumber quote.ask ask hquoted
          rw [hask] at hask'
          cases hask'
        | some ask =>
          rw [hbid, hask] at h
          dsimp only at h
          by_cases hinside : basis = ExecutionPriceBasis.sideOfMarket.value ∨
              basis = wideSpreadMidpointBasis
          · rw [if_pos hinside] at h
            rw [← h]
            refine ⟨price, _, rfl, rfl, hsound, fun bid' ask' hbid' hask' _ => ?_⟩
            have hbid'' : quote.numbers.bid = some bid' := hnumber quote.bid bid' hbid'
            have hask'' : quote.numbers.ask = some ask' := hnumber quote.ask ask' hask'
            rw [hbid] at hbid''
            rw [hask] at hask''
            obtain rfl := Option.some.inj hbid''
            obtain rfl := Option.some.inj hask''
            rfl
          · rw [if_neg hinside] at h
            rw [← h]
            exact ⟨price, _, rfl, rfl, hsound, fun _ _ _ _ hbasis => absurd hbasis hinside⟩

/-- The price a quote is priced at is the one selected from it. -/
theorem priceFromQuote_referencePrice (quote : ExecutionQuote) (side : OrderSide)
    (settings : Settings) (offsetBps : ℚ) (allowWideSpread : Bool) (aggression : Option ℚ) :
    (priceFromQuote quote side settings offsetBps allowWideSpread aggression).referencePrice =
      (selectExecutionPrice quote side settings allowWideSpread).1 := by
  unfold priceFromQuote
  rcases selectExecutionPrice quote side settings allowWideSpread with ⟨price, basis, warnings⟩
  cases price with
  | none => rfl
  | some price =>
    dsimp only
    split
    · split
      · split <;> rfl
      · split <;> rfl
    · rfl

variable {rules : ExecutionRules} {allowWideSpread : Bool} {trade : ProposedTrade}

/-- The quantity that a price turns a trade into. -/
def repricedQuantity (rules : ExecutionRules) (trade : ProposedTrade) (price : ℚ) : ℚ :=
  roundedExecutionQuantity (if trade.side = .sell then trade.quantity else trade.notional / price)
    trade.side (resolveExecutionRule trade.ticker rules)

/-- A repriced trade: the trade at the price and the limit of its quote. -/
structure AtQuote (settings : Settings) (rules : ExecutionRules) (allowWideSpread : Bool)
    (quote : ExecutionQuote) (trade updated : ProposedTrade) : Prop where
  priced : ∃ limit, updated.limitPrice = some limit ∧
    PricedQuote settings trade.side allowWideSpread quote settings.executionLimitAggression limit
      updated.referencePriceBasis
  selected : (selectExecutionPrice quote trade.side settings allowWideSpread).1 =
    some updated.referencePrice
  same_order : updated.ticker = trade.ticker ∧ updated.side = trade.side ∧
    updated.orderRef = trade.orderRef
  price_ne_zero : trade.side = .buy → updated.referencePrice ≠ 0
  quantity : updated.quantity = repricedQuantity rules trade updated.referencePrice
  notional : updated.notional = updated.quantity * updated.referencePrice
  quantity_pos : 0 < updated.quantity
  minQuantity_le : (resolveExecutionRule trade.ticker rules).minQuantity ≤ updated.quantity
  notional_le : ∃ limit, updated.limitPrice = some limit ∧ 0 < limit ∧
    updated.quantity * max updated.referencePrice limit ≤ settings.maxOrderNotionalUsd

/-- One trade is repriced at its quote, or its drop is explained. -/
theorem repriceTrade_spec {result : Except (List String) ProposedTrade}
    (h : repriceTrade trade quote settings rules allowWideSpread = .ok result) :
    (∃ reasons, result = .error reasons ∧ reasons ≠ []) ∨
      ∃ updated, result = .ok updated ∧
        AtQuote settings rules allowWideSpread quote trade updated := by
  unfold repriceTrade at h
  dsimp only at h
  rcases priceFromQuote_spec quote trade.side settings settings.limitOffsetBps
    settings.executionLimitAggression allowWideSpread rfl with
    ⟨hprice, hlimit, hwarnings⟩ | ⟨price, limit, hprice, hlimit, hpriced⟩
  · rw [hprice, hlimit] at h
    exact Or.inl ⟨_, (Except.ok.inj h).symm, hwarnings⟩
  · rw [hprice, hlimit] at h
    dsimp only at h
    generalize hraw : (if trade.side = .sell then trade.quantity else trade.notional / price) =
      raw at h
    split at h
    · cases h
    rename_i hzero
    split at h
    · exact Or.inl ⟨_, (Except.ok.inj h).symm, by simp⟩
    rename_i hquantity
    split at h
    · exact Or.inl ⟨_, (Except.ok.inj h).symm, by simp⟩
    rename_i hbounds
    obtain ⟨hpositive, hminimum⟩ := not_or.mp hquantity
    obtain ⟨hlimitPos, hnotional⟩ := not_or.mp hbounds
    refine Or.inr ⟨_, (Except.ok.inj h).symm, ?_⟩
    exact {
      priced := ⟨limit, rfl, hpriced⟩
      selected := by
        rw [← hprice, priceFromQuote_referencePrice]
      same_order := ⟨rfl, rfl, rfl⟩
      price_ne_zero := fun hside hprice => hzero ⟨hside, hprice⟩
      quantity := by
        rw [repricedQuantity, hraw]
      notional := rfl
      quantity_pos := not_le.mp hpositive
      minQuantity_le := not_lt.mp hminimum
      notional_le := ⟨limit, rfl, not_le.mp hlimitPos, not_lt.mp hnotional⟩ }

/-- Repricing a batch keeps trades at their quotes, and explains every other. -/
theorem applyExecutionQuotes_batch {quotes : List (String × ExecutionQuote)}
    {trades repriced : List ProposedTrade} {warnings : List String}
    (h : applyExecutionQuotes trades quotes settings rules allowWideSpread =
      .ok (repriced, warnings)) :
    QuotedBatch (fun trade updated => ∃ quote, quotes.lookup trade.ticker = some quote ∧
      AtQuote settings rules allowWideSpread quote trade updated) trades repriced warnings := by
  induction trades generalizing repriced warnings with
  | nil =>
    obtain ⟨rfl, rfl⟩ := Prod.mk.inj (Except.ok.inj h)
    exact .nil
  | cons trade rest ih =>
    rw [applyExecutionQuotes] at h
    cases hlookup : quotes.lookup trade.ticker with
    | none =>
      rw [hlookup] at h
      cases hrest : applyExecutionQuotes rest quotes settings rules allowWideSpread with
      | error e =>
        rw [hrest] at h
        cases h
      | ok later =>
        rw [hrest] at h
        obtain ⟨rfl, rfl⟩ := Prod.mk.inj (Except.ok.inj h)
        exact .dropped (by simp) (ih hrest)
    | some quote =>
      rw [hlookup] at h
      dsimp only at h
      cases hhead : repriceTrade trade quote settings rules allowWideSpread with
      | error e =>
        rw [hhead] at h
        cases h
      | ok head =>
        cases hrest : applyExecutionQuotes rest quotes settings rules allowWideSpread with
        | error e =>
          rw [hhead, hrest] at h
          cases h
        | ok later =>
          rw [hhead, hrest] at h
          rcases repriceTrade_spec hhead with ⟨reasons, rfl, hreasons⟩ | ⟨updated, rfl, hkept⟩
          · obtain ⟨rfl, rfl⟩ := Prod.mk.inj (Except.ok.inj h)
            exact .dropped hreasons (ih hrest)
          · obtain ⟨rfl, rfl⟩ := Prod.mk.inj (Except.ok.inj h)
            exact .kept ⟨quote, hlookup, hkept⟩ (ih hrest)

/-- A rounded quantity is on the increment of its rule. -/
theorem on_increment {rule : InstrumentExecutionRule} (h : 0 < rule.quantityIncrement)
    (quantity : ℚ) (side : OrderSide) :
    Grid.On rule.quantityIncrement (roundedExecutionQuantity quantity side rule) := by
  unfold roundedExecutionQuantity
  dsimp only
  rw [if_pos h]
  exact ⟨_, rfl⟩

/-- A trade at its quote could be trusted to it. -/
theorem AtQuote.trustworthy {updated : ProposedTrade}
    (h : AtQuote settings rules allowWideSpread quote trade updated) :
    TrustworthyPrice settings rules allowWideSpread quote trade updated := by
  obtain ⟨limit, hlimit, hpriced⟩ := h.priced
  constructor
  · exact hpriced.selected.usable
  · exact hpriced.selected.spread
  · intro bid ask hbid hask hbidGrid haskGrid hbasis
    have hle := hpriced.selected.usable.sides bid ask hbid hask
    refine ⟨limit, hlimit, ?_⟩
    rw [hpriced.inside bid ask hbid hask hbasis, insideSpreadLimitPrice_eq hbidGrid haskGrid]
    exact clampedPoint_mem hle trade.side settings.executionLimitAggression
  · exact h.same_order
  · exact h.quantity_pos
  · exact h.minQuantity_le
  · intro hincrement
    rw [h.quantity]
    exact on_increment hincrement _ _
  · exact h.notional_le

theorem QuotedBatch.mono {Kept Weaker : ProposedTrade → ProposedTrade → Prop}
    (hweaker : ∀ trade updated, Kept trade updated → Weaker trade updated)
    {trades repriced : List ProposedTrade} {warnings : List String}
    (h : QuotedBatch Kept trades repriced warnings) :
    QuotedBatch Weaker trades repriced warnings := by
  induction h with
  | nil => exact .nil
  | kept hkept _ ih => exact .kept (hweaker _ _ hkept) ih
  | dropped hreasons _ ih => exact .dropped hreasons ih

theorem QuotedBatch.mem {Kept : ProposedTrade → ProposedTrade → Prop}
    {trades repriced : List ProposedTrade} {warnings : List String}
    (h : QuotedBatch Kept trades repriced warnings) {updated : ProposedTrade}
    (hupdated : updated ∈ repriced) : ∃ trade ∈ trades, Kept trade updated := by
  induction h with
  | nil => cases hupdated
  | kept hkept _ ih =>
    rcases List.mem_cons.mp hupdated with rfl | hrest
    · exact ⟨_, List.mem_cons_self, hkept⟩
    · obtain ⟨trade, htrade, hkept'⟩ := ih hrest
      exact ⟨trade, List.mem_cons_of_mem _ htrade, hkept'⟩
  | dropped _ _ ih =>
    obtain ⟨trade, htrade, hkept⟩ := ih hupdated
    exact ⟨trade, List.mem_cons_of_mem _ htrade, hkept⟩

/-- Only trustworthy quotes price an order. -/
theorem applyExecutionQuotes_trustworthy {quotes : List (String × ExecutionQuote)}
    {trades repriced : List ProposedTrade} {warnings : List String}
    (h : applyExecutionQuotes trades quotes settings rules allowWideSpread =
      .ok (repriced, warnings)) :
    QuotedBatch (fun trade updated => ∃ quote, quotes.lookup trade.ticker = some quote ∧
      TrustworthyPrice settings rules allowWideSpread quote trade updated)
        trades repriced warnings :=
  (applyExecutionQuotes_batch h).mono fun _ _ ⟨quote, hlookup, hkept⟩ =>
    ⟨quote, hlookup, hkept.trustworthy⟩

end

/-- A planned buy of five shares. -/
def buyOfFive : ProposedTrade where
  ticker := "AAPL"
  side := .buy
  quantity := 5
  notional := 50
  referencePrice := 10
  limitPrice := none
  reason := "rebalance_to_target_weight"

/-- A quote of 10.00 to 10.02, three seconds old. -/
def freshQuote : ExecutionQuote where
  ticker := "AAPL"
  source := "ibkr"
  ageSeconds := some (.finite 3)
  bid := some (.finite 10)
  ask := some (.finite (1002 / 100))

/-- The five shares at the offer, limited inside the spread. -/
def buyOfFiveQuoted : ProposedTrade where
  ticker := "AAPL"
  side := .buy
  quantity := 5
  notional := 501 / 10
  referencePrice := 501 / 50
  limitPrice := some (1001 / 100)
  reason := "rebalance_to_target_weight"
  referencePriceSource := "ibkr"
  referencePriceBasis := "side_of_market"
  quoteAgeSeconds := some 3
  quoteSpreadBps := some (20000 / 1001)

theorem applyExecutionQuotes_trustworthy_buyOfFive :
    QuotedBatch (fun trade updated =>
      ∃ quote, List.lookup trade.ticker [("AAPL", freshQuote)] = some quote ∧
        TrustworthyPrice Settings.unset Settings.unset.executionRules false quote trade updated)
      [buyOfFive] [buyOfFiveQuoted] [] := by
  have hquoted : applyExecutionQuotes [buyOfFive] [("AAPL", freshQuote)] Settings.unset
      Settings.unset.executionRules false = .ok ([buyOfFiveQuoted], []) := by
    decide +kernel
  exact applyExecutionQuotes_trustworthy hquoted

end Poma

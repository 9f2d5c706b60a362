import Poma.Broker.World
import Poma.Correctness.Affordability
import Poma.Correctness.Attempts
import Poma.Correctness.Ledgers
import Poma.Correctness.Quotes
import Poma.Manager.Submission
import Poma.Numeric.Reported

/-!
# Repricing before submission

A batch is quoted again and again, with a wait between the attempts, until every
trade is priced or the attempts are used up; the trades priced before the last
attempt are then quoted once more. What is sent was priced off a quote read
after the last wait and from the trade as it was approved; every other trade is
blocked and recorded so. The input is split in two, in its order.
-/

namespace Poma

open Interaction

/-- A read of execution quotes. -/
def Op.quotes : Op → Bool
  | .broker (.executionQuotes _) => true
  | _ => false

/-- A wait. -/
def Op.waits : Op → Bool
  | .sleep _ => true
  | _ => false

theorem Op.waits_of_quotes {o : Op} (h : Op.quotes o = true) : Op.waits o = false := by
  cases o <;> first | rfl | cases h

/-- The reads of quotes in a trace. -/
def quoteReads (τ : List (Event sig)) : Nat := τ.countP fun event => Op.quotes event.op

/-- Trades sent under a new price, and trades blocked with a result, in the order of the batch. -/
inductive Split (Sent : ProposedTrade → ProposedTrade → Prop)
    (Blocked : ProposedTrade → OrderResult → Prop) :
    List ProposedTrade → List ProposedTrade → List (ProposedTrade × OrderResult) → Prop
  | nil : Split Sent Blocked [] [] []
  | sent {trade updated : ProposedTrade} {trades submittable : List ProposedTrade}
      {blocked : List (ProposedTrade × OrderResult)} (h : Sent trade updated)
      (hrest : Split Sent Blocked trades submittable blocked) :
      Split Sent Blocked (trade :: trades) (updated :: submittable) blocked
  | blocked {trade : ProposedTrade} {result : OrderResult} {trades submittable : List ProposedTrade}
      {blocked : List (ProposedTrade × OrderResult)} (h : Blocked trade result)
      (hrest : Split Sent Blocked trades submittable blocked) :
      Split Sent Blocked (trade :: trades) submittable ((trade, result) :: blocked)

/-- The wide spreads are allowed to the last attempt, and to the refresh, which is read right after
an attempt. -/
def WideAllowed (before : List (Event sig)) : Prop :=
  quoteReads before + 1 = executionQuoteAttempts ∨
    ∃ earlier event, before = earlier ++ [event] ∧ Op.quotes event.op = true

/-- A trade priced off a quote that was read after the last wait of a trace. -/
def FreshlyPriced (settings : Settings) (τ : List (Event sig)) (trade updated : ProposedTrade) :
    Prop :=
  ∃ before tickers after quote allowWideSpread, ∃ quotes : List (String × ExecutionQuote),
    τ = before ++ (⟨Op.broker (.executionQuotes tickers), .ok quotes⟩ : Event sig) :: after ∧
    (∀ event ∈ after, Op.waits event.op = false) ∧
    quotes.lookup trade.ticker = some quote ∧
    AtQuote settings settings.executionRules allowWideSpread quote trade updated ∧
    (allowWideSpread = true → WideAllowed before)

/-- A price that keeps to what was approved: a buy to its notional, up to half a share of whole
shares, and a sell to its shares. -/
structure KeepsApproval (settings : Settings) (trade updated : ProposedTrade) : Prop where
  buy : trade.side = .buy → (resolveExecutionRule trade.ticker settings.executionRules).Whole →
    updated.quantity * updated.referencePrice ≤ trade.notional + updated.referencePrice / 2
  sell : trade.side = .sell → updated.quantity ≤ trade.quantity

/-- A trade whose row was recorded as blocked, and still is where the references are distinct. -/
def RecordedBlocked (τ : List (Event sig)) (store : OrderStore) (distinct : Prop)
    (trade : ProposedTrade) (result : OrderResult) : Prop :=
  ∃ entry, (⟨Op.upsert entry, .ok ()⟩ : Event sig) ∈ τ ∧ entry.ledgerKey = trade.ref ∧
    entry.rawStatus = result.status ∧
    (result.status = executionQuoteBlockedStatus ∨ result.status = contractUnresolvedStatus) ∧
    (distinct → store.latest trade.ref = some entry)

/-- Two sides of a quote that cancel, so that their midpoint is zero. -/
def ExecutionQuote.Cancels (quote : ExecutionQuote) : Prop :=
  ∃ bid ask, quote.bid = some (.finite bid) ∧ quote.ask = some (.finite ask) ∧ bid + ask = 0

/-- What explains an exception: one that an operation raised, or a quote whose sides cancel. -/
def Excused (τ : List (Event sig)) : Prop :=
  (∃ event ∈ τ, ∃ e, event.ans = .error e) ∨
    ∃ tickers, ∃ quotes : List (String × ExecutionQuote),
      (⟨Op.broker (.executionQuotes tickers), .ok quotes⟩ : Event sig) ∈ τ ∧
        ∃ item ∈ quotes, item.2.Cancels

/-- What a repricing of a batch comes to. -/
structure CleanRepricing (settings : Settings) (trades : List ProposedTrade)
    (out : Outcome Exn (List ProposedTrade × List (ProposedTrade × OrderResult)))
    (τ : List (Event sig)) (store : OrderStore) : Prop where
  reads : quoteReads τ ≤ executionQuoteAttempts + 1
  raised : ∀ e, out = .raised e → Excused τ
  returned : ∀ submittable blocked, out = .returned (submittable, blocked) →
    Split (fun trade updated => FreshlyPriced settings τ trade updated ∧
        KeepsApproval settings trade updated)
      (RecordedBlocked τ store (trades.map (·.ref)).Nodup) trades submittable blocked

section Dictionaries

variable {α : Type}

theorem Dict.lookup_cons (name ticker : String) (value : α) (d : Dict α) :
    List.lookup ticker ((name, value) :: d) =
      if ticker = name then some value else List.lookup ticker d := by
  rw [List.lookup_cons]
  by_cases hticker : ticker = name
  · simp [hticker]
  · rw [beq_false_of_ne hticker, if_neg hticker]

theorem Dict.lookup_filter (d : Dict α) (key ticker : String) :
    List.lookup ticker (d.filter (·.1 ≠ key)) =
      if ticker = key then none else List.lookup ticker d := by
  induction d with
  | nil => simp
  | cons item d ih =>
    obtain ⟨name, value⟩ := item
    rw [Dict.lookup_cons]
    by_cases hname : name = key
    · rw [List.filter_cons_of_neg (by simp [hname]), ih]
      by_cases hticker : ticker = key
      · rw [if_pos hticker, if_pos hticker]
      · rw [if_neg hticker, if_neg hticker, if_neg (hname ▸ hticker)]
    · rw [List.filter_cons_of_pos (by simpa using hname), Dict.lookup_cons, ih]
      by_cases hticker : ticker = name
      · rw [if_pos hticker, hticker, if_neg hname, if_pos rfl]
      · rw [if_neg hticker, if_neg hticker]

@[simp] theorem Dict.lookup_put (d : Dict α) (key ticker : String) (value : α) :
    List.lookup ticker (Dict.put d key value) =
      if ticker = key then some value else List.lookup ticker d := by
  unfold Dict.put
  rw [Dict.lookup_cons, Dict.lookup_filter]
  by_cases hticker : ticker = key
  · rw [if_pos hticker, if_pos hticker]
  · rw [if_neg hticker, if_neg hticker, if_neg hticker]

/-- What is read after a list of trades was put: the last of a ticker, or what was there. -/
theorem Dict.lookup_foldl_put {trades : List ProposedTrade} {value : ProposedTrade → α}
    (d : Dict α) (ticker : String) :
    List.lookup ticker (trades.foldl (fun d trade => Dict.put d trade.ticker (value trade)) d) =
      (((trades.filter fun trade => trade.ticker = ticker).getLast?).map value).or
        (List.lookup ticker d) := by
  induction trades generalizing d with
  | nil => simp
  | cons trade trades ih =>
    rw [List.foldl_cons, ih, Dict.lookup_put, List.filter_cons]
    by_cases hticker : trade.ticker = ticker
    · simp only [hticker, decide_true, ite_true, List.getLast?_cons]
      cases (trades.filter fun trade => trade.ticker = ticker).getLast? <;> simp
    · simp [hticker, Ne.symm hticker]

theorem Dict.any_iff_lookup {d : Dict α} {key : String} :
    (d.any fun item => item.1 = key) = true ↔ (List.lookup key d).isSome := by
  rw [List.lookup_isSome_iff, List.any_eq_true]
  constructor
  · rintro ⟨item, hitem, hkey⟩
    rw [decide_eq_true_eq] at hkey
    exact ⟨item, hitem, by rw [hkey, beq_self_eq_true]⟩
  · rintro ⟨item, hitem, hkey⟩
    exact ⟨item, hitem, by rw [decide_eq_true_eq, eq_of_beq hkey]⟩

end Dictionaries

/-- Refreshing takes the refreshed trades over and drops the others; a trade that was not refreshed
stays. -/
theorem takeRefreshed_ok {refreshed : Dict ProposedTrade} {originals : List ProposedTrade}
    {d : Dict ProposedTrade} (hnodup : (originals.map (·.ticker)).Nodup)
    (hpriced : ∀ trade ∈ originals, (List.lookup trade.ticker d).isSome) :
    ∃ d', takeRefreshed originals refreshed d = .ok d' ∧
      (∀ trade ∈ originals, List.lookup trade.ticker d' = List.lookup trade.ticker refreshed) ∧
      ∀ ticker, ticker ∉ originals.map (·.ticker) →
        List.lookup ticker d' = List.lookup ticker d := by
  induction originals generalizing d with
  | nil => exact ⟨d, rfl, by simp, fun _ _ => rfl⟩
  | cons trade originals ih =>
    rw [List.map_cons, List.nodup_cons] at hnodup
    -- one turn of the loop, which touches only the trade's ticker
    have hturn : ∃ next, (∀ rest, takeRefreshed (trade :: rest) refreshed d =
          takeRefreshed rest refreshed next) ∧
        List.lookup trade.ticker next = List.lookup trade.ticker refreshed ∧
        ∀ ticker, ticker ≠ trade.ticker → List.lookup ticker next = List.lookup ticker d := by
      cases hlookup : List.lookup trade.ticker refreshed with
      | some updated =>
        refine ⟨Dict.put d trade.ticker updated, ?_, by simp, ?_⟩
        · intro rest
          unfold takeRefreshed
          rw [List.foldlM_cons, hlookup]
          rfl
        · intro ticker hticker
          rw [Dict.lookup_put, if_neg hticker]
      | none =>
        have hany : (d.any fun item => item.1 = trade.ticker) = true :=
          Dict.any_iff_lookup.mpr (hpriced trade List.mem_cons_self)
        have hdel : Dict.del d trade.ticker = .ok (d.filter (·.1 ≠ trade.ticker)) := by
          unfold Dict.del
          rw [if_pos hany]
        refine ⟨d.filter (·.1 ≠ trade.ticker), ?_, ?_, ?_⟩
        · intro rest
          unfold takeRefreshed
          rw [List.foldlM_cons, hlookup]
          dsimp only
          rw [hdel]
          rfl
        · rw [Dict.lookup_filter, if_pos rfl]
        · intro ticker hticker
          rw [Dict.lookup_filter, if_neg hticker]
    obtain ⟨next, hnext, hown, hother⟩ := hturn
    have hrest : ∀ other ∈ originals, (List.lookup other.ticker next).isSome := by
      intro other hmem
      have hne : other.ticker ≠ trade.ticker := by
        intro heq
        exact hnodup.1 (heq ▸ List.mem_map_of_mem hmem)
      rw [hother _ hne]
      exact hpriced other (List.mem_cons_of_mem _ hmem)
    obtain ⟨d', hd', htaken, hkept⟩ := ih hnodup.2 hrest
    refine ⟨d', ?_, ?_, ?_⟩
    · rw [hnext, hd']
    · intro other hmem
      rcases List.mem_cons.mp hmem with rfl | hmem
      · rw [hkept _ hnodup.1, hown]
      · exact htaken other hmem
    · intro ticker hticker
      rw [List.map_cons, List.mem_cons, not_or] at hticker
      rw [hkept _ hticker.2, hother _ hticker.1]

section

variable {settings : Settings} {trades : List ProposedTrade} {trade updated : ProposedTrade}
  {quote : ExecutionQuote} {allowWideSpread : Bool}

/-- A price taken from one side of a quote is positive. -/
theorem sidePrice_pos {numbers : QuoteNumbers} {side : OrderSide} {price : ℚ}
    (h : quotePrice numbers side .sideOfMarket = .ok price) : 0 < price := by
  unfold quotePrice at h
  cases side with
  | buy =>
    dsimp only at h
    cases hask : numbers.ask with
    | none =>
      rw [hask] at h
      cases h
    | some value =>
      rw [hask] at h
      dsimp only at h
      split at h
      · rename_i hvalue
        rwa [← Except.ok.inj h]
      · cases h
  | sell =>
    dsimp only at h
    cases hbid : numbers.bid with
    | none =>
      rw [hbid] at h
      cases h
    | some value =>
      rw [hbid] at h
      dsimp only at h
      split at h
      · rename_i hvalue
        rwa [← Except.ok.inj h]
      · cases h

/-- A price taken from a quote is positive. -/
theorem quotePrice_pos {numbers : QuoteNumbers} {side : OrderSide} {basis : ExecutionPriceBasis}
    {price : ℚ} (h : quotePrice numbers side basis = .ok price) : 0 < price := by
  cases basis with
  | last =>
    unfold quotePrice at h
    dsimp only at h
    cases hlast : numbers.last with
    | none =>
      rw [hlast] at h
      cases h
    | some value =>
      rw [hlast] at h
      dsimp only at h
      split at h
      · rename_i hvalue
        rwa [← Except.ok.inj h]
      · cases h
  | sideOfMarket => exact sidePrice_pos h
  | midpoint =>
    obtain ⟨bid, hbid, hrest⟩ := bind_eq_ok.mp h
    obtain ⟨ask, hask, hmidpoint⟩ := bind_eq_ok.mp hrest
    have hbidPos : 0 < bid := @sidePrice_pos numbers .sell bid hbid
    have haskPos : 0 < ask := @sidePrice_pos numbers .buy ask hask
    rw [← Except.ok.inj hmidpoint]
    linarith

theorem value?_number {field : Option Reported} {x : ℚ} (h : field.bind Reported.value? = some x) :
    field = some (.finite x) := by
  obtain ⟨value, rfl, hvalue⟩ := Option.bind_eq_some_iff.mp h
  rw [Reported.value?_eq_some.mp hvalue]

/-- A price of zero is the midpoint of sides that cancel. -/
theorem cancels_of_zero_price {side : OrderSide}
    (h : (selectExecutionPrice quote side settings allowWideSpread).1 = some 0) :
    quote.Cancels := by
  unfold selectExecutionPrice at h
  dsimp only at h
  cases hfault : quoteFault quote settings with
  | some warning =>
    rw [hfault] at h
    cases h
  | none =>
    rw [hfault] at h
    dsimp only at h
    cases hprice : quotePrice quote.numbers side settings.executionPriceBasis with
    | error missing =>
      rw [hprice] at h
      cases h
    | ok price =>
      rw [hprice] at h
      dsimp only at h
      have hpositive := quotePrice_pos hprice
      split at h
      · obtain rfl := Option.some.inj h
        exact absurd hpositive (lt_irrefl _)
      split at h
      · obtain rfl := Option.some.inj h
        exact absurd hpositive (lt_irrefl _)
      split at h
      · split at h
        · rename_i bid ask hbid hask
          split at h
          · refine ⟨bid, ask, value?_number hbid, value?_number hask, ?_⟩
            have hmidpoint := Option.some.inj h
            linarith
          · cases h
        · cases h
      · obtain rfl := Option.some.inj h
        exact absurd hpositive (lt_irrefl _)

/-- Repricing a trade raises only on a quote whose sides cancel. -/
theorem repriceTrade_error {rules : ExecutionRules} {e : Exn}
    (h : repriceTrade trade quote settings rules allowWideSpread = .error e) : quote.Cancels := by
  unfold repriceTrade at h
  dsimp only at h
  split at h
  · rename_i price limit hprice _
    generalize (if trade.side = .sell then trade.quantity else trade.notional / price) = raw at h
    split at h
    · rename_i hzero
      rw [priceFromQuote_referencePrice, hzero.2] at hprice
      exact cancels_of_zero_price hprice
    · split at h
      · cases h
      · split at h <;> cases h
  · cases h

theorem applyExecutionQuotes_error {rules : ExecutionRules}
    {quotes : List (String × ExecutionQuote)} {e : Exn}
    (h : applyExecutionQuotes trades quotes settings rules allowWideSpread = .error e) :
    ∃ item ∈ quotes, item.2.Cancels := by
  induction trades generalizing e with
  | nil => cases h
  | cons trade rest ih =>
    rw [applyExecutionQuotes] at h
    cases hlookup : quotes.lookup trade.ticker with
    | none =>
      rw [hlookup] at h
      cases hrest : applyExecutionQuotes rest quotes settings rules allowWideSpread with
      | error e' => exact ih hrest
      | ok later =>
        rw [hrest] at h
        cases h
    | some quote =>
      rw [hlookup] at h
      dsimp only at h
      cases hhead : repriceTrade trade quote settings rules allowWideSpread with
      | error e' => exact ⟨_, Dict.mem_of_lookup hlookup, repriceTrade_error hhead⟩
      | ok head =>
        cases hrest : applyExecutionQuotes rest quotes settings rules allowWideSpread with
        | error e' => exact ih hrest
        | ok later =>
          rw [hhead, hrest] at h
          cases head <;> cases h

/-- A trade at its quote keeps to what was approved. -/
theorem AtQuote.keepsApproval (hnotional : trade.side = .buy → 0 ≤ trade.notional)
    (h : AtQuote settings settings.executionRules allowWideSpread quote trade updated) :
    KeepsApproval settings trade updated := by
  have hpositive := h.quantity_pos
  rw [h.quantity, repricedQuantity] at hpositive
  constructor
  · intro hside hwhole
    rw [h.quantity, repricedQuantity]
    rw [hside, if_neg (by simp), roundedExecutionQuantity_buy hwhole] at hpositive ⊢
    have hamount : 0 < trade.notional := by
      apply lt_of_le_of_ne (hnotional hside)
      intro hzero
      have hnone : ⌊(0 : ℚ) / updated.referencePrice + 1 / 2⌋ = 0 := by
        rw [zero_div, Int.floor_eq_iff]
        norm_num
      rw [← hzero, hnone] at hpositive
      exact absurd hpositive (by simp)
    have hprice := price_pos_of_shares hamount hpositive
    have hfloor := mul_le_mul_of_nonneg_right (Int.floor_le (trade.notional / updated.referencePrice
      + 1 / 2)) hprice.le
    rw [add_mul, div_mul_cancel₀ _ hprice.ne'] at hfloor
    linarith
  · intro hside
    rw [h.quantity, repricedQuantity, if_pos hside, hside]
    rcases resolveExecutionRule_cases settings.textCase settings.nonFractionalTickers
      settings.fractionalShares trade.ticker with hrule | hrule
    · exact (roundedExecutionQuantity_fractional hrule _ _).le
    · exact (roundedExecutionQuantity_sell hrule _).trans_le (Int.floor_le _)

/-- A fresh price stays so while nothing waits. -/
theorem FreshlyPriced.append {τ more : List (Event sig)} (h : FreshlyPriced settings τ trade updated)
    (hmore : ∀ event ∈ more, Op.waits event.op = false) :
    FreshlyPriced settings (τ ++ more) trade updated := by
  obtain ⟨before, tickers, after, quote, wide, quotes, rfl, hafter, hlookup, hpriced, hwide⟩ := h
  refine ⟨before, tickers, after ++ more, quote, wide, quotes, by simp, ?_, hlookup, hpriced, hwide⟩
  intro event hevent
  rcases List.mem_append.mp hevent with hevent | hevent
  · exact hafter event hevent
  · exact hmore event hevent

theorem FreshlyPriced.same_order {τ : List (Event sig)}
    (h : FreshlyPriced settings τ trade updated) :
    updated.ticker = trade.ticker ∧ updated.side = trade.side ∧
      updated.orderRef = trade.orderRef := by
  obtain ⟨_, _, _, _, _, _, _, _, _, hpriced, _⟩ := h
  exact hpriced.same_order

theorem Excused.append {τ : List (Event sig)} (h : Excused τ) (more : List (Event sig)) :
    Excused (τ ++ more) := by
  rcases h with ⟨event, hevent, hraised⟩ | ⟨tickers, quotes, hread, hcancels⟩
  · exact Or.inl ⟨event, List.mem_append_left _ hevent, hraised⟩
  · exact Or.inr ⟨tickers, quotes, List.mem_append_left _ hread, hcancels⟩

/-- What the earlier attempts leave to the next one. -/
structure Waiting (trades : List ProposedTrade) (attempt : Nat) (state : RepriceState) :
    Prop where
  pending : state.pending.Sublist trades
  quoted_lt : ∀ ticker k, List.lookup ticker state.quotedOnAttempt = some k → k < attempt
  quoted_iff : ∀ ticker, (List.lookup ticker state.quotedOnAttempt).isSome =
    (List.lookup ticker state.repricedByTicker).isSome

/-- The trades that an attempt has priced are as `Priced` says. -/
def PricedOn (Priced : ProposedTrade → ProposedTrade → Prop) (trades : List ProposedTrade)
    (attempt : Nat) (state : RepriceState) : Prop :=
  ∀ trade ∈ trades, ∀ updated, List.lookup trade.ticker state.quotedOnAttempt = some attempt →
    List.lookup trade.ticker state.repricedByTicker = some updated → Priced trade updated

theorem waiting_start (trades : List ProposedTrade) (attempt : Nat) :
    Waiting trades attempt { pending := trades } where
  pending := List.Sublist.refl trades
  quoted_lt _ _ h := by cases h
  quoted_iff _ := rfl

/-- What is priced under the ticker of a trade in a batch of distinct tickers is that trade. -/
theorem batch_lookup {Priced : ProposedTrade → ProposedTrade → Prop}
    {batch repriced : List ProposedTrade} {warnings : List String}
    (hnodup : (trades.map (·.ticker)).Nodup) (hbatch : batch.Sublist trades)
    (hticker : ∀ trade updated, Priced trade updated → updated.ticker = trade.ticker)
    (h : QuotedBatch Priced batch repriced warnings) (htrade : trade ∈ trades)
    (hlast : (repriced.filter fun updated => updated.ticker = trade.ticker).getLast? =
      some updated) : Priced trade updated := by
  have hmem := List.mem_of_getLast? hlast
  rw [List.mem_filter, decide_eq_true_eq] at hmem
  obtain ⟨other, hother, hpriced⟩ := h.mem hmem.1
  have hsame : other = trade := by
    apply List.inj_on_of_nodup_map hnodup (hbatch.subset hother) htrade
    rw [← hticker other updated hpriced, hmem.2]
  rwa [hsame] at hpriced

/-- One more attempt: what it has priced is as its batch says. -/
theorem Waiting.quoted {Priced : ProposedTrade → ProposedTrade → Prop} {attempt : Nat}
    {state : RepriceState} {quotes : List (String × ExecutionQuote)}
    {repriced : List ProposedTrade} {warnings : List String} (h : Waiting trades attempt state)
    (hnodup : (trades.map (·.ticker)).Nodup)
    (hticker : ∀ trade updated, Priced trade updated → updated.ticker = trade.ticker)
    (hbatch : QuotedBatch Priced state.pending repriced warnings) :
    Waiting trades (attempt + 1) (state.quoted attempt quotes repriced warnings) ∧
      PricedOn Priced trades attempt (state.quoted attempt quotes repriced warnings) := by
  have hquotedOn : ∀ ticker, List.lookup ticker
      (state.quoted attempt quotes repriced warnings).quotedOnAttempt =
        (((repriced.filter fun updated => updated.ticker = ticker).getLast?).map
          fun _ => attempt).or (List.lookup ticker state.quotedOnAttempt) :=
    Dict.lookup_foldl_put _
  have hrepriced : ∀ ticker, List.lookup ticker
      (state.quoted attempt quotes repriced warnings).repricedByTicker =
        (((repriced.filter fun updated => updated.ticker = ticker).getLast?).map
          fun updated => updated).or (List.lookup ticker state.repricedByTicker) :=
    Dict.lookup_foldl_put _
  refine ⟨⟨?_, ?_, ?_⟩, ?_⟩
  · exact List.filter_sublist.trans h.pending
  · intro ticker k hk
    rw [hquotedOn] at hk
    cases hlast : (repriced.filter fun updated => updated.ticker = ticker).getLast? with
    | none =>
      rw [hlast] at hk
      have hlt := h.quoted_lt ticker k hk
      omega
    | some updated =>
      rw [hlast] at hk
      exact Option.some.inj hk ▸ Nat.lt_succ_self attempt
  · intro ticker
    rw [hquotedOn, hrepriced]
    cases (repriced.filter fun updated => updated.ticker = ticker).getLast? with
    | none => exact h.quoted_iff ticker
    | some updated => rfl
  · intro trade htrade updated hk hupdated
    rw [hquotedOn] at hk
    rw [hrepriced] at hupdated
    cases hlast : (repriced.filter fun updated => updated.ticker = trade.ticker).getLast? with
    | none =>
      rw [hlast] at hk
      exact absurd (h.quoted_lt trade.ticker attempt hk) (lt_irrefl _)
    | some last =>
      rw [hlast] at hupdated
      obtain rfl := Option.some.inj hupdated
      exact batch_lookup hnodup h.pending hticker hbatch htrade hlast

end

/-- A question to the broker, which is the last event of the trace with what it was answered. -/
structure Asked (call : BrokerCall) (τ : List (Event sig)) (out : Outcome Exn call.Ans)
    (τ' : List (Event sig)) : Prop where
  returned : ∀ answer : call.Ans, out = .returned answer →
    τ' = τ ++ [(⟨Op.broker call, .ok answer⟩ : Event sig)]
  raised : ∀ e, out = .raised e → τ' = τ ++ [(⟨Op.broker call, .error e⟩ : Event sig)]
  stopped : out = .stopped → τ' = τ

theorem wp_askBroker_asked {W : Type} (E : Environment W) (call : BrokerCall)
    (τ : List (Event sig)) (s : World W) :
    E.system.wp (askBroker call) (fun out τ' _ => Asked call τ out τ') τ s := by
  rw [wp_askBroker]
  refine ⟨⟨by simp, by simp, by simp⟩, fun c => ?_⟩
  cases (E.answer c s.outside (.broker call)).1 with
  | error e =>
    constructor
    · intro answer h
      cases h
    · intro e' h
      rw [Outcome.raised.inj h]
    · intro h
      cases h
  | ok found =>
    constructor
    · intro answer h
      rw [Outcome.returned.inj h]
    · intro e h
      cases h
    · intro h
      cases h

theorem quoteReads_append (τ more : List (Event sig)) :
    quoteReads (τ ++ more) = quoteReads τ + quoteReads more := List.countP_append

theorem quoteReads_quiet {more : List (Event sig)}
    (h : ∀ event ∈ more, Op.quotes event.op = false) : quoteReads more = 0 := by
  apply List.countP_eq_zero.mpr
  intro event hevent
  rw [h event hevent]
  exact Bool.false_ne_true

theorem Excused.of_raised {call : BrokerCall} {e : Exn} (τ : List (Event sig)) :
    Excused (τ ++ [(⟨Op.broker call, .error e⟩ : Event sig)]) :=
  Or.inl ⟨_, List.mem_append_right _ List.mem_cons_self, e, rfl⟩

section Attempts

variable {settings : Settings} {isIbkr hasReplacement hasHistory : Bool}
  {trades : List ProposedTrade}

/-- What a batch of quotes, just read, prices or raises. -/
theorem justQuoted {τ : List (Event sig)} {tickers : List String}
    {quotes : List (String × ExecutionQuote)} {trade updated : ProposedTrade} {wide : Bool}
    (hwide : wide = true → WideAllowed τ)
    (h : ∃ quote, quotes.lookup trade.ticker = some quote ∧
      AtQuote settings settings.executionRules wide quote trade updated) :
    FreshlyPriced settings (τ ++ [(⟨Op.broker (.executionQuotes tickers), .ok quotes⟩ : Event sig)])
      trade updated := by
  obtain ⟨quote, hlookup, hpriced⟩ := h
  exact ⟨τ, tickers, [], quote, wide, quotes, by simp, by simp, hlookup, hpriced, hwide⟩

theorem excused_of_quotes {τ : List (Event sig)} {tickers : List String}
    {quotes : List (String × ExecutionQuote)} {batch : List ProposedTrade} {wide : Bool} {e : Exn}
    (h : applyExecutionQuotes batch quotes settings settings.executionRules wide = .error e) :
    Excused (τ ++ [(⟨Op.broker (.executionQuotes tickers), .ok quotes⟩ : Event sig)]) :=
  Or.inr ⟨tickers, quotes, List.mem_append_right _ List.mem_cons_self,
    applyExecutionQuotes_error h⟩

/-- One read of quotes, and what a batch is priced at off them. -/
theorem wp_quotedBatch {W β : Type} (E : Environment W) {batch : List ProposedTrade} {wide : Bool}
    {f : List (String × ExecutionQuote) → List ProposedTrade × List String → M β}
    {Q : Post sig (World W) β} {τ : List (Event sig)} {s : World W}
    (hwide : wide = true → WideAllowed τ)
    (hpriced : ∀ quotes repriced warnings s' event, Op.quotes event.op = true →
      QuotedBatch (FreshlyPriced settings (τ ++ [event])) batch repriced warnings →
        E.system.wp (f quotes (repriced, warnings)) Q (τ ++ [event]) s')
    (hraised : ∀ e s' event, Op.quotes event.op = true → Excused (τ ++ [event]) →
      Q (.raised e) (τ ++ [event]) s')
    (hstop : ∀ s', Q .stopped τ s') :
    E.system.wp (((protocolManager settings isIbkr hasReplacement hasHistory).broker.executionQuotes
      (batch.map (·.ticker))).bind fun quotes =>
        (Prog.ofExcept (S := sig) (applyExecutionQuotes batch quotes settings
          settings.executionRules wide)).bind (f quotes)) Q τ s := by
  apply System.wp_seq _ (wp_askBroker_asked E (.executionQuotes (batch.map (·.ticker))) τ s)
  · intro (quotes : List (String × ExecutionQuote)) τ₁ s₁ hasked
    obtain rfl := hasked.returned quotes rfl
    cases hquoted : applyExecutionQuotes batch quotes settings settings.executionRules wide with
    | error e => exact hraised e s₁ _ rfl (excused_of_quotes hquoted)
    | ok kept =>
      apply hpriced quotes kept.1 kept.2 s₁ _ rfl
      exact (applyExecutionQuotes_batch hquoted).mono fun _ _ h => justQuoted hwide h
  · intro e τ₁ s₁ hasked
    obtain rfl := hasked.raised e rfl
    exact hraised e s₁ _ rfl (Excused.of_raised τ)
  · intro τ₁ s₁ hasked
    obtain rfl := hasked.stopped rfl
    exact hstop s₁

/-- What the attempts leave: the trades priced on the last attempt were priced right now. -/
structure AttemptedQuotes (settings : Settings) (trades : List ProposedTrade) (τ : List (Event sig))
    (attempt : Nat) (state : RepriceState) : Prop where
  waiting : Waiting trades (attempt + 1) state
  priced : PricedOn (FreshlyPriced settings τ) trades attempt state
  read : ∃ earlier event, τ = earlier ++ [event] ∧ Op.quotes event.op = true

/-- How a part of a repricing ends: within its reads, and with an excuse where it raises. -/
structure PartEnd {α : Type} (bound : Nat) (R : α → Prop) (out : Outcome Exn α)
    (τ : List (Event sig)) : Prop where
  reads : quoteReads τ ≤ bound
  raised : ∀ e, out = .raised e → Excused τ
  returned : ∀ a, out = .returned a → R a

theorem PartEnd.of_stopped {α : Type} {bound : Nat} {R : α → Prop} {τ : List (Event sig)}
    (h : quoteReads τ ≤ bound) : PartEnd bound R .stopped τ where
  reads := h
  raised _ h := by cases h
  returned _ h := by cases h

theorem PartEnd.of_raised {α : Type} {bound : Nat} {R : α → Prop} {τ : List (Event sig)} {e : Exn}
    (h : quoteReads τ ≤ bound) (hexcused : Excused τ) : PartEnd bound R (.raised e) τ where
  reads := h
  raised _ _ := hexcused
  returned _ h := by cases h

theorem PartEnd.of_returned {α : Type} {bound : Nat} {R : α → Prop} {τ : List (Event sig)} {a : α}
    (h : quoteReads τ ≤ bound) (ha : R a) : PartEnd bound R (.returned a) τ where
  reads := h
  raised _ h := by cases h
  returned b hb := by
    rwa [← Outcome.returned.inj hb]

/-- An attempt leaves what it has priced. -/
theorem attempted_of_batch {τ : List (Event sig)} {event : Event sig} {attempt : Nat}
    {state : RepriceState} {quotes : List (String × ExecutionQuote)}
    {repriced : List ProposedTrade} {warnings : List String}
    (hnodup : (trades.map (·.ticker)).Nodup) (hevent : Op.quotes event.op = true)
    (hwaiting : Waiting trades attempt state)
    (hbatch : QuotedBatch (FreshlyPriced settings (τ ++ [event])) state.pending repriced
      warnings) :
    AttemptedQuotes settings trades (τ ++ [event]) attempt
      (state.quoted attempt quotes repriced warnings) := by
  have hquoted : Waiting trades (attempt + 1) (state.quoted attempt quotes repriced warnings) ∧
      PricedOn (FreshlyPriced settings (τ ++ [event])) trades attempt
        (state.quoted attempt quotes repriced warnings) :=
    hwaiting.quoted hnodup (fun _ _ h => h.same_order.1) hbatch
  exact ⟨hquoted.1, hquoted.2, τ, event, rfl, hevent⟩

/-- The attempts end with fresh prices: each of them reads once, and prices what it still waits
for. -/
theorem wp_quoteAttempts {W : Type} (E : Environment W)
    (hnodup : (trades.map (·.ticker)).Nodup) {delays : List ℚ} {attempt : Nat}
    {state : RepriceState} {τ : List (Event sig)} (s : World W)
    (hreads : quoteReads τ + 1 = attempt)
    (hdelays : attempt + delays.length = executionQuoteAttempts)
    (hwaiting : Waiting trades attempt state) :
    E.system.wp ((protocolManager settings isIbkr hasReplacement hasHistory).quoteAttempts delays
      attempt state) (fun out τ' _ => PartEnd executionQuoteAttempts
        (fun r => AttemptedQuotes settings trades τ' r.2 r.1) out τ') τ s := by
  have hone : ∀ event : Event sig, Op.quotes event.op = true → quoteReads (τ ++ [event]) = attempt := by
    intro event hevent
    rw [quoteReads_append, ← hreads]
    simp [quoteReads, hevent]
  induction delays generalizing attempt state τ s with
  | nil =>
    rw [ExecutionManager.quoteAttempts]
    have hlast : attempt = executionQuoteAttempts := by simpa using hdelays
    apply wp_quotedBatch E
    · exact fun _ => Or.inl (hreads.trans hlast)
    · intro quotes repriced warnings s' event hevent hbatch
      exact .of_returned ((hone event hevent).trans hlast).le
        (attempted_of_batch hnodup hevent hwaiting hbatch)
    · intro e s' event hevent hexcused
      exact .of_raised ((hone event hevent).trans hlast).le hexcused
    · exact fun s' => .of_stopped (by omega)
  | cons delay delays ih =>
    rw [ExecutionManager.quoteAttempts]
    rw [List.length_cons] at hdelays
    apply wp_quotedBatch E
    · simp
    · intro quotes repriced warnings s' event hevent hbatch
      have hread := hone event hevent
      dsimp only
      split
      · exact .of_returned (by omega) (attempted_of_batch hnodup hevent hwaiting hbatch)
      rw [System.wp_bind, wp_sleepFor]
      refine ⟨.of_stopped (by omega), fun _ => ?_⟩
      have hslept : quoteReads (τ ++ [event] ++ [(⟨Op.sleep delay, .ok ()⟩ : Event sig)]) =
          attempt := by
        rw [quoteReads_append, hread]
        rfl
      apply ih s' (by rw [hslept]) (by omega)
      · exact (hwaiting.quoted hnodup (fun _ _ h => h.same_order.1) hbatch).1
      · intro later hlater
        rw [quoteReads_append, hslept]
        simp [quoteReads, hlater]
    · intro e s' event hevent hexcused
      exact .of_raised (by have hread := hone event hevent; omega) hexcused
    · exact fun s' => .of_stopped (by omega)

/-- The trades that are priced are all freshly so. -/
def AllFresh (settings : Settings) (trades : List ProposedTrade) (τ : List (Event sig))
    (state : RepriceState) : Prop :=
  ∀ trade ∈ trades, ∀ updated, List.lookup trade.ticker state.repricedByTicker = some updated →
    FreshlyPriced settings τ trade updated

/-- A priced trade is quoted again unless the last attempt priced it. -/
theorem AttemptedQuotes.fresh_or_stale {τ : List (Event sig)} {attempt : Nat} {state : RepriceState}
    (h : AttemptedQuotes settings trades τ attempt state) {trade updated : ProposedTrade}
    (htrade : trade ∈ trades)
    (hlookup : List.lookup trade.ticker state.repricedByTicker = some updated) :
    FreshlyPriced settings τ trade updated ∨
      (List.lookup trade.ticker state.quotedOnAttempt).getD attempt < attempt := by
  have hquoted := h.waiting.quoted_iff trade.ticker
  rw [hlookup] at hquoted
  obtain ⟨k, hk⟩ := Option.isSome_iff_exists.mp hquoted
  have hlt := h.waiting.quoted_lt trade.ticker k hk
  by_cases hsame : k = attempt
  · exact Or.inl (h.priced trade htrade updated (hsame ▸ hk) hlookup)
  · right
    rw [hk, Option.getD_some]
    omega

/-- A trade that is quoted again has a price to lose. -/
theorem AttemptedQuotes.stale_priced {τ : List (Event sig)} {attempt : Nat} {state : RepriceState}
    (h : AttemptedQuotes settings trades τ attempt state) {trade : ProposedTrade}
    (hstale : (List.lookup trade.ticker state.quotedOnAttempt).getD attempt < attempt) :
    (List.lookup trade.ticker state.repricedByTicker).isSome := by
  rw [← h.waiting.quoted_iff]
  cases hquoted : List.lookup trade.ticker state.quotedOnAttempt with
  | none =>
    rw [hquoted] at hstale
    exact absurd hstale (lt_irrefl _)
  | some k => rfl

/-- The refresh ends with fresh prices: what it does not quote again was priced right before. -/
theorem wp_refreshQuotes {W : Type} (E : Environment W)
    (hnodup : (trades.map (·.ticker)).Nodup) {attempt : Nat} {state : RepriceState}
    {τ : List (Event sig)} (s : World W) (hreads : quoteReads τ ≤ executionQuoteAttempts)
    (h : AttemptedQuotes settings trades τ attempt state) :
    E.system.wp ((protocolManager settings isIbkr hasReplacement hasHistory).refreshQuotes trades
      state attempt) (fun out τ' _ => PartEnd (executionQuoteAttempts + 1)
        (AllFresh settings trades τ') out τ') τ s := by
  have hone : ∀ event : Event sig, Op.quotes event.op = true →
      quoteReads (τ ++ [event]) ≤ executionQuoteAttempts + 1 := by
    intro event hevent
    rw [quoteReads_append]
    simpa [quoteReads, hevent] using hreads
  unfold ExecutionManager.refreshQuotes
  dsimp only
  generalize horiginals : (trades.filter fun trade =>
    decide ((List.lookup trade.ticker state.quotedOnAttempt).getD attempt < attempt)) = originals
  have hstale : ∀ trade, trade ∈ originals ↔ trade ∈ trades ∧
      (List.lookup trade.ticker state.quotedOnAttempt).getD attempt < attempt := by
    intro trade
    rw [← horiginals, List.mem_filter, decide_eq_true_eq]
  have hsublist : originals.Sublist trades := horiginals ▸ List.filter_sublist
  split
  · rename_i hnil
    apply PartEnd.of_returned (by omega)
    intro trade htrade updated hlookup
    rcases h.fresh_or_stale htrade hlookup with hfresh | hlt
    · exact hfresh
    · have hmem := (hstale trade).mpr ⟨htrade, hlt⟩
      rw [hnil] at hmem
      cases hmem
  apply wp_quotedBatch E
  · exact fun _ => Or.inr h.read
  · intro quotes repriced warnings s' event hevent hbatch
    have hpriced : ∀ trade ∈ originals, (List.lookup trade.ticker state.repricedByTicker).isSome :=
      fun trade hmem => h.stale_priced ((hstale trade).mp hmem).2
    have hdistinct : (originals.map (·.ticker)).Nodup := hnodup.sublist (hsublist.map _)
    dsimp only
    generalize hrefreshed : repriced.foldl (fun d trade => Dict.put d trade.ticker trade) [] =
      refreshed
    obtain ⟨taken, htaken, hown, hother⟩ := @takeRefreshed_ok refreshed originals
      state.repricedByTicker hdistinct hpriced
    rw [htaken]
    apply PartEnd.of_returned (hone event hevent)
    intro trade htrade updated hlookup
    dsimp only at hlookup
    by_cases hmem : trade ∈ originals
    · rw [hown trade hmem, ← hrefreshed, Dict.lookup_foldl_put] at hlookup
      cases hlast : (repriced.filter fun updated => updated.ticker = trade.ticker).getLast? with
      | none =>
        rw [hlast] at hlookup
        cases hlookup
      | some last =>
        rw [hlast] at hlookup
        obtain rfl := Option.some.inj hlookup
        exact batch_lookup hnodup hsublist (fun _ _ h => h.same_order.1) hbatch htrade hlast
    · have hticker : trade.ticker ∉ originals.map (·.ticker) := by
        intro hin
        obtain ⟨other, hin, hsame⟩ := List.mem_map.mp hin
        have heq := List.inj_on_of_nodup_map hnodup (hsublist.subset hin) htrade hsame
        exact hmem (heq ▸ hin)
      rw [hother _ hticker] at hlookup
      rcases h.fresh_or_stale htrade hlookup with hfresh | hlt
      · apply hfresh.append
        intro later hlater
        rw [List.mem_singleton.mp hlater]
        exact Op.waits_of_quotes hevent
      · exact absurd ((hstale trade).mpr ⟨htrade, hlt⟩) hmem
  · intro e s' event hevent hexcused
    exact .of_raised (hone event hevent) hexcused
  · exact fun s' => .of_stopped (by omega)

end Attempts

/-- An operation that neither reads quotes nor waits. -/
def Op.Prompt (o : Op) : Prop := Op.quotes o = false ∧ Op.waits o = false

theorem Split.mono {Sent Sent' : ProposedTrade → ProposedTrade → Prop}
    {Blocked Blocked' : ProposedTrade → OrderResult → Prop} {trades submittable : List ProposedTrade}
    {blocked : List (ProposedTrade × OrderResult)} (h : Split Sent Blocked trades submittable blocked)
    (hsent : ∀ trade ∈ trades, ∀ updated, Sent trade updated → Sent' trade updated)
    (hblocked : ∀ trade result, Blocked trade result → Blocked' trade result) :
    Split Sent' Blocked' trades submittable blocked := by
  induction h with
  | nil => exact .nil
  | sent h _ ih =>
    apply Split.sent (hsent _ List.mem_cons_self _ h)
    exact ih fun trade hmem => hsent trade (List.mem_cons_of_mem _ hmem)
  | blocked h _ ih =>
    apply Split.blocked (hblocked _ _ h)
    exact ih fun trade hmem => hsent trade (List.mem_cons_of_mem _ hmem)

section Recording

variable {plan : RebalancePlan} {reported : Bool} {state : RepriceState}

/-- The last loop reads the ledger and the clock, records rows of its trades and reports. -/
theorem recordRepriced_uses {allowed : Op → Prop} {trades : List ProposedTrade}
    (hload : allowed .loadLatestEntries) (hclock : allowed .utcNow)
    (hreport : ∀ trade result, allowed (.statusCallback trade result))
    (hrecord : ∀ entry, entry.ledgerKey ∈ trades.map (·.ref) → allowed (.upsert entry))
    (href : ∀ trade ∈ trades, ∀ updated,
      List.lookup trade.ticker state.repricedByTicker = some updated → updated.ref = trade.ref) :
    (ExecutionManager.recordRepriced plan (callbackOf reported) state trades).Uses (S := sig)
      allowed := by
  induction trades with
  | nil => trivial
  | cons trade rest ih =>
    have hrest := ih (fun entry hkey => hrecord entry (List.mem_cons_of_mem _ hkey))
      fun other hmem => href other (List.mem_cons_of_mem _ hmem)
    rw [ExecutionManager.recordRepriced]
    cases hlookup : List.lookup trade.ticker state.repricedByTicker with
    | some updated =>
      have hplanned : allowed (.upsert (plannedEntry plan updated)) := by
        apply hrecord
        have hsame := href trade List.mem_cons_self updated hlookup
        rw [plannedEntry, hsame]
        exact List.mem_cons_self
      exact Prog.uses_bind (Prog.uses_perform (S := sig) hplanned) fun _ =>
        Prog.uses_bind hrest fun _ => trivial
    | none =>
      refine Prog.uses_bind (meets_recordResult hload hclock ?_ ?_) fun _ =>
        Prog.uses_bind (meets_notify (hreport _ _)) fun _ => Prog.uses_bind hrest fun _ => trivial
      · intro store row now _ hlatest _
        apply hrecord
        show row.ledgerKey ∈ _
        rw [OrderStore.latest_key hlatest]
        exact List.mem_cons_self
      · exact fun now => hrecord _ List.mem_cons_self

variable {W : Type} (E : Environment W)

/-- Recording a result leaves a row of the trade with its status. -/
theorem wp_recordResult_row (trade : ProposedTrade) (result : OrderResult) (τ : List (Event sig))
    (s : World W) :
    E.system.wp (recordResult plan trade result) (fun out τ' s' => (∀ e, out ≠ .raised e) ∧
      (out = .returned () → ∃ entry, (⟨Op.upsert entry, .ok ()⟩ : Event sig) ∈ τ' ∧
        entry.ledgerKey = trade.ref ∧ entry.rawStatus = result.status ∧
        s'.ledger.latest trade.ref = some entry)) τ s := by
  unfold recordResult
  simp only [System.wp_bind, wp_loadLatest, wp_utcNow, wp_upsertEntry, System.seq_stopped,
    System.seq_returned]
  refine ⟨by simp, fun _ => ⟨by simp, fun c => ⟨by simp, fun _ => ⟨by simp, fun _ => ?_⟩⟩⟩⟩
  have hkey : ((s.ledger.get trade.ref).getD (plannedEntry plan trade)).ledgerKey = trade.ref := by
    cases hget : s.ledger.get trade.ref with
    | none => rfl
    | some row =>
      rw [OrderStore.get_eq] at hget
      exact OrderStore.latest_key (Option.filter_eq_some_iff.mp hget).1
  exact ⟨_, List.mem_append_right _ List.mem_cons_self, hkey, rfl,
    OrderStore.latest_upsert_of_eq hkey⟩

/-- A report raises only what the callback raised. -/
theorem wp_notify_excused (trade : ProposedTrade) (result : OrderResult) (τ : List (Event sig))
    (s : World W) :
    E.system.wp (notify (callbackOf reported) trade result) (fun out τ' s' =>
      (∀ e, out = .raised e → Excused τ') ∧ τ <+: τ' ∧ s'.ledger = s.ledger) τ s := by
  cases reported with
  | false => exact ⟨by simp, List.prefix_rfl, rfl⟩
  | true =>
    apply (E.system.wp_perform (.statusCallback trade result) _ τ s).mpr
    refine ⟨⟨by simp, List.prefix_rfl, rfl⟩, fun c => ?_⟩
    have hact : E.system.act c s (.statusCallback trade result) =
        ((E.answer c s.outside (.statusCallback trade result)).1,
          { s with outside := (E.answer c s.outside (.statusCallback trade result)).2 }) := rfl
    rw [hact]
    dsimp only
    cases (E.answer c s.outside (.statusCallback trade result)).1 with
    | ok _ => exact ⟨by simp, List.prefix_append _ _, rfl⟩
    | error e =>
      refine ⟨fun _ _ => Or.inl ⟨_, List.mem_append_right _ List.mem_cons_self, e, rfl⟩, ?_, rfl⟩
      exact List.prefix_append _ _

theorem RecordedBlocked.mono {τ τ' : List (Event sig)} {store store' : OrderStore}
    {distinct distinct' : Prop} {trade : ProposedTrade} {result : OrderResult}
    (h : RecordedBlocked τ store distinct trade result) (hτ : τ <+: τ')
    (hdistinct : distinct' → distinct)
    (hstore : distinct' → store'.latest trade.ref = store.latest trade.ref) :
    RecordedBlocked τ' store' distinct' trade result := by
  obtain ⟨entry, hrecorded, hkey, hraw, hstatus, hlatest⟩ := h
  refine ⟨entry, hτ.subset hrecorded, hkey, hraw, hstatus, fun hd => ?_⟩
  rw [hstore hd, hlatest (hdistinct hd)]

/-- The last loop leaves the rows of other references as they are. -/
theorem wp_recordRepriced_frame {trades : List ProposedTrade}
    (href : ∀ trade ∈ trades, ∀ updated,
      List.lookup trade.ticker state.repricedByTicker = some updated → updated.ref = trade.ref)
    (key : String) (τ : List (Event sig)) (s : World W) :
    E.system.wp (ExecutionManager.recordRepriced plan (callbackOf reported) state trades)
      (fun _ _ s' => key ∉ trades.map (·.ref) → s'.ledger.latest key = s.ledger.latest key) τ s := by
  by_cases hkey : key ∈ trades.map (·.ref)
  · exact E.system.wp_mono (E.system.wp_true _ τ s) fun _ _ _ _ hnot => absurd hkey hnot
  have hspares : (ExecutionManager.recordRepriced plan (callbackOf reported) state trades).Uses
      (S := sig) (Op.Spares key) := by
    apply recordRepriced_uses (Op.spares_of_keepsLedger trivial) (Op.spares_of_keepsLedger trivial)
      (fun _ _ => Op.spares_of_keepsLedger trivial) _ href
    intro entry hentry x hx hsame
    obtain rfl := Op.upsert.inj hx
    exact hkey (hsame ▸ hentry)
  exact E.system.wp_mono (wp_spares E hspares τ s) fun _ _ _ hkept _ => hkept

/-- What the last loop ends with: the trades with a price go, the others are recorded as blocked. -/
theorem wp_recordRepriced {trades : List ProposedTrade}
    (href : ∀ trade ∈ trades, ∀ updated,
      List.lookup trade.ticker state.repricedByTicker = some updated → updated.ref = trade.ref)
    (τ : List (Event sig)) (s : World W) :
    E.system.wp (ExecutionManager.recordRepriced plan (callbackOf reported) state trades)
      (fun out τ' s' => (∀ e, out = .raised e → Excused τ') ∧
        ∀ submittable blocked, out = .returned (submittable, blocked) →
          Split (fun trade updated =>
              List.lookup trade.ticker state.repricedByTicker = some updated)
            (RecordedBlocked τ' s'.ledger (trades.map (·.ref)).Nodup) trades submittable
            blocked) τ s := by
  induction trades generalizing τ s with
  | nil =>
    refine ⟨by simp, fun submittable blocked h => ?_⟩
    obtain ⟨rfl, rfl⟩ := Prod.mk.inj (Outcome.returned.inj h)
    exact .nil
  | cons trade rest ih =>
    have hrest : ∀ other ∈ rest, ∀ updated,
        List.lookup other.ticker state.repricedByTicker = some updated →
          updated.ref = other.ref :=
      fun other hmem => href other (List.mem_cons_of_mem _ hmem)
    have hdistinct : ((trade :: rest).map (·.ref)).Nodup →
        trade.ref ∉ rest.map (·.ref) ∧ (rest.map (·.ref)).Nodup := by
      intro h
      rwa [List.map_cons, List.nodup_cons] at h
    rw [ExecutionManager.recordRepriced]
    cases hlookup : List.lookup trade.ticker state.repricedByTicker with
    | some updated =>
      dsimp only
      rw [System.wp_bind, recordPlanned, wp_upsertEntry]
      refine ⟨⟨by simp, by simp⟩, fun _ => ?_⟩
      apply System.wp_seq _ (ih hrest _ _)
      · rintro ⟨sent, held⟩ τ₁ s₁ ⟨_, hsplit⟩
        refine ⟨by simp, fun submittable blocked h => ?_⟩
        obtain ⟨rfl, rfl⟩ := Prod.mk.inj (Outcome.returned.inj h)
        apply Split.sent hlookup
        apply (hsplit sent held rfl).mono (fun _ _ _ h => h)
        intro other result hblocked
        exact hblocked.mono List.prefix_rfl (fun hd => (hdistinct hd).2) fun _ => rfl
      · exact fun e τ₁ s₁ h => ⟨fun _ _ => h.1 e rfl, by simp⟩
      · exact fun τ₁ s₁ _ => ⟨by simp, by simp⟩
    | none =>
      dsimp only
      generalize hresult : (if trade.ticker ∈ state.unresolvedTickers then
        blockedResult trade contractUnresolvedStatus _ else _) = result
      have hstatus : result.status = executionQuoteBlockedStatus ∨
          result.status = contractUnresolvedStatus := by
        rw [← hresult]
        split
        · exact Or.inr rfl
        · exact Or.inl rfl
      apply System.wp_seq _ (wp_recordResult_row E trade result τ s)
      · intro _ τ₁ s₁ hrow
        obtain ⟨entry, hrecorded, hkey, hraw, hlatest⟩ := hrow.2 rfl
        apply System.wp_seq _ (wp_notify_excused E trade result τ₁ s₁)
        · rintro _ τ₂ s₂ ⟨_, hgrown, hledger⟩
          apply System.wp_seq _ (E.system.wp_and (ih hrest τ₂ s₂) (E.system.wp_and
            (E.system.wp_extends _ τ₂ s₂) (wp_recordRepriced_frame E hrest trade.ref τ₂ s₂)))
          · rintro ⟨sent, held⟩ τ₃ s₃ ⟨⟨_, hsplit⟩, hmore, hframe⟩
            refine ⟨by simp, fun submittable blocked h => ?_⟩
            obtain ⟨rfl, rfl⟩ := Prod.mk.inj (Outcome.returned.inj h)
            apply Split.blocked
            · refine ⟨entry, (hgrown.trans hmore).subset hrecorded, hkey, hraw, hstatus,
                fun hd => ?_⟩
              rw [hframe (hdistinct hd).1, hledger, hlatest]
            · apply (hsplit sent held rfl).mono (fun _ _ _ h => h)
              intro other result hblocked
              exact hblocked.mono List.prefix_rfl (fun hd => (hdistinct hd).2) fun _ => rfl
          · exact fun e τ₃ s₃ h => ⟨fun _ _ => h.1.1 e rfl, by simp⟩
          · exact fun τ₃ s₃ _ => ⟨by simp, by simp⟩
        · exact fun e τ₂ s₂ h => ⟨fun _ _ => h.1 e rfl, by simp⟩
        · exact fun τ₂ s₂ _ => ⟨by simp, by simp⟩
      · exact fun e τ₁ s₁ h => absurd rfl (h.1 e)
      · exact fun τ₁ s₁ _ => ⟨by simp, by simp⟩

end Recording

section Reprice

variable {W : Type} (E : Environment W) {settings : Settings}
  {isIbkr hasReplacement hasHistory reported : Bool} {plan : RebalancePlan}
  {trades : List ProposedTrade}

theorem CleanRepricing.of_raised {τ : List (Event sig)} {store : OrderStore} {e : Exn}
    (hreads : quoteReads τ ≤ executionQuoteAttempts + 1) (h : Excused τ) :
    CleanRepricing settings trades (.raised e) τ store where
  reads := hreads
  raised _ _ := h
  returned _ _ h := by cases h

theorem CleanRepricing.of_stopped {τ : List (Event sig)} {store : OrderStore}
    (hreads : quoteReads τ ≤ executionQuoteAttempts + 1) :
    CleanRepricing settings trades .stopped τ store where
  reads := hreads
  raised _ h := by cases h
  returned _ _ h := by cases h

/-- A repricing of distinct tickers is clean, from any trace that has read no quotes. -/
theorem wp_repriceForExecution (hsource : settings.executionPriceSource = .ibkr)
    (hnodup : (trades.map (·.ticker)).Nodup)
    (hnotional : ∀ trade ∈ trades, trade.side = .buy → 0 ≤ trade.notional)
    {τ : List (Event sig)} (hτ : quoteReads τ = 0) (s : World W) :
    E.system.wp ((protocolManager settings isIbkr hasReplacement hasHistory).repriceForExecution
      plan trades (callbackOf reported))
      (fun out τ' s' => CleanRepricing settings trades out τ' s'.ledger) τ s := by
  unfold ExecutionManager.repriceForExecution
  split
  · rename_i h
    have hnil : trades = [] := h.resolve_left (not_not.mpr hsource)
    subst hnil
    refine ⟨by omega, fun _ h => (by cases h), fun submittable blocked h => ?_⟩
    obtain ⟨rfl, rfl⟩ := Prod.mk.inj (Outcome.returned.inj h)
    exact .nil
  apply System.wp_seq _ (wp_quoteAttempts E hnodup s (by rw [hτ]) rfl (waiting_start trades 1))
  · rintro ⟨state, attempt⟩ τ₁ s₁ h
    apply System.wp_seq _ (wp_refreshQuotes E hnodup s₁ h.reads (h.returned _ rfl))
    · intro state τ₂ s₂ hrefreshed
      have hfresh := hrefreshed.returned _ rfl
      have href : ∀ trade ∈ trades, ∀ updated,
          List.lookup trade.ticker state.repricedByTicker = some updated →
            updated.ref = trade.ref := by
        intro trade htrade updated hlookup
        rw [ProposedTrade.ref, (hfresh trade htrade updated hlookup).same_order.2.2]
        rfl
      have hquiet : (ExecutionManager.recordRepriced plan (callbackOf reported) state trades).Uses
          (S := sig) Op.Prompt :=
        recordRepriced_uses ⟨rfl, rfl⟩ ⟨rfl, rfl⟩ (fun _ _ => ⟨rfl, rfl⟩) (fun _ _ => ⟨rfl, rfl⟩)
          href
      apply E.system.wp_mono (E.system.wp_and (wp_recordRepriced E href τ₂ s₂)
        (wp_grows E hquiet τ₂ s₂))
      rintro out τ₃ s₃ ⟨⟨hraised, hsplit⟩, more, rfl, hmore⟩
      constructor
      · rw [quoteReads_append, quoteReads_quiet fun event hevent => (hmore event hevent).1]
        exact hrefreshed.reads
      · exact hraised
      · intro submittable blocked hout
        apply (hsplit submittable blocked hout).mono _ fun _ _ h => h
        intro trade htrade updated hlookup
        have hpriced := (hfresh trade htrade updated hlookup).append fun event hevent =>
          (hmore event hevent).2
        refine ⟨hpriced, ?_⟩
        obtain ⟨_, _, _, _, _, _, _, _, _, hquote, _⟩ := hpriced
        exact hquote.keepsApproval (hnotional trade htrade)
    · exact fun e τ₂ s₂ h => .of_raised h.reads (h.raised e rfl)
    · exact fun τ₂ s₂ h => .of_stopped h.reads
  · exact fun e τ₁ s₁ h => .of_raised (Nat.le_succ_of_le h.reads) (h.raised e rfl)
  · exact fun τ₁ s₁ h => .of_stopped (Nat.le_succ_of_le h.reads)

end Reprice

/-- Quote retries end in a clean partition with fresh prices. -/
theorem repriceForExecution_clean {settings : Settings} {plan : RebalancePlan}
    {trades : List ProposedTrade} (isIbkr hasReplacement hasHistory reported : Bool)
    (hsource : settings.executionPriceSource = .ibkr) (hnodup : (trades.map (·.ticker)).Nodup)
    (hnotional : ∀ trade ∈ trades, trade.side = .buy → 0 ≤ trade.notional) (store : OrderStore)
    (cs : List Oracle) :
    CleanRepricing settings trades
      (openWorld.run ((protocolManager settings isIbkr hasReplacement
        hasHistory).repriceForExecution plan trades (callbackOf reported)) cs
        (World.of store)).outcome
      (openWorld.run ((protocolManager settings isIbkr hasReplacement
        hasHistory).repriceForExecution plan trades (callbackOf reported)) cs
        (World.of store)).trace
      (openWorld.run ((protocolManager settings isIbkr hasReplacement
        hasHistory).repriceForExecution plan trades (callbackOf reported)) cs
        (World.of store)).state.ledger :=
  openWorld.wp_run (wp_repriceForExecution openEnvironment hsource hnodup hnotional rfl
    (World.of store)) cs

/-- A broker that quotes one ticker and takes every wait. -/
def quotesOne : Oracle where
  clock := 0
  answer
    | .broker (.executionQuotes _) => .ok [("AAPL", freshQuote)]
    | _ => .error (.connection "not connected")

/-- A plan of two buys, of which one is quoted. -/
def twoBuys : RebalancePlan where
  runId := "run"
  sessionDate := "2026-10-17"
  trades := [{ buyOfFive with orderRef := some "poma:run:0:AAPL:BUY" },
    { buyOfFive with ticker := "MSFT", orderRef := some "poma:run:1:MSFT:BUY" }]

/-- The repricing of these buys. -/
def twoBuysRun : Run sig (World Unit) (List ProposedTrade × List (ProposedTrade × OrderResult)) :=
  openWorld.run ((protocolManager Settings.unset true true true).repriceForExecution twoBuys
    twoBuys.trades (callbackOf false)) (List.replicate 12 quotesOne) (World.of .empty)

/-- The quoted buy goes, on the quote read after the other's last attempt. -/
theorem repriceForExecution_clean_twoBuys :
    CleanRepricing Settings.unset twoBuys.trades twoBuysRun.outcome twoBuysRun.trace
      twoBuysRun.state.ledger ∧
    quoteReads twoBuysRun.trace = executionQuoteAttempts + 1 ∧
    twoBuysRun.state.ledger.entries.map (fun entry => (entry.ticker, entry.rawStatus)) =
      [("AAPL", ""), ("MSFT", executionQuoteBlockedStatus)] :=
  ⟨repriceForExecution_clean true true true false rfl (by decide +kernel) (by decide +kernel) _ _,
    by decide +kernel, by decide +kernel⟩

end Poma

import Poma.Correctness.Passes

/-!
# One submission attempt

What every attempt does whatever is answered to it: which trades its phases let
through, how a repriced trade relates to the planned one, and which rows are
recorded on the way.
-/

namespace Poma

open Interaction

/-- What the repricing of a trade can be: the same order, with a tradable quantity and a limit
within the order ceiling. -/
structure Repriced (settings : Settings) (trade updated : ProposedTrade) : Prop where
  ticker : updated.ticker = trade.ticker
  side : updated.side = trade.side
  orderRef : updated.orderRef = trade.orderRef
  quantity_pos : 0 < updated.quantity
  minQuantity_le : (resolveExecutionRule trade.ticker settings.executionRules).minQuantity ≤
    updated.quantity
  limit : ∃ limit, updated.limitPrice = some limit ∧ 0 < limit ∧
    updated.quantity * limit ≤ settings.maxOrderNotionalUsd

theorem repriceTrade_repriced {settings : Settings} {trade updated : ProposedTrade}
    {quote : ExecutionQuote} {allowWideSpread : Bool}
    (h : repriceTrade trade quote settings settings.executionRules allowWideSpread =
      .ok (.ok updated)) : Repriced settings trade updated := by
  unfold repriceTrade at h
  dsimp only at h
  split at h
  · generalize (if trade.side = .sell then trade.quantity else _) = raw at h
    split at h
    · cases h
    split at h
    · cases h
    rename_i hquantity
    split at h
    · cases h
    rename_i hlimit
    obtain rfl := Except.ok.inj (Except.ok.inj h)
    have hquantity := not_or.mp hquantity
    have hlimit := not_or.mp hlimit
    have hpositive := not_le.mp hquantity.1
    refine ⟨rfl, rfl, rfl, hpositive, not_lt.mp hquantity.2, _, rfl, not_le.mp hlimit.1, ?_⟩
    exact (mul_le_mul_of_nonneg_left (le_max_right _ _) hpositive.le).trans (not_lt.mp hlimit.2)
  · cases h

/-- A batch of quotes only reprices trades of the batch. -/
theorem applyExecutionQuotes_repriced {settings : Settings} {quotes : List (String × ExecutionQuote)}
    {allowWideSpread : Bool} {trades : List ProposedTrade} :
    ∀ {repriced : List ProposedTrade} {warnings : List String},
      applyExecutionQuotes trades quotes settings settings.executionRules allowWideSpread =
        .ok (repriced, warnings) →
      ∀ updated ∈ repriced, ∃ trade ∈ trades, Repriced settings trade updated := by
  induction trades with
  | nil =>
    rintro repriced warnings ⟨⟩ updated hmem
    cases hmem
  | cons trade rest ih =>
    intro repriced warnings h
    rw [applyExecutionQuotes] at h
    have hparts : ∃ later reasons, applyExecutionQuotes rest quotes settings
        settings.executionRules allowWideSpread = .ok (later, reasons) ∧
          (repriced = later ∨
            ∃ first, Repriced settings trade first ∧ repriced = first :: later) := by
      split at h <;> obtain ⟨head, hhead, h⟩ := bind_eq_ok.mp h <;>
        obtain ⟨⟨later, reasons⟩, hrest, h⟩ := bind_eq_ok.mp h
      · cases hhead
        obtain ⟨rfl, _⟩ := Prod.mk.inj (Except.ok.inj h)
        exact ⟨_, reasons, hrest, Or.inl rfl⟩
      · cases head with
        | error dropped =>
          obtain ⟨rfl, _⟩ := Prod.mk.inj (Except.ok.inj h)
          exact ⟨_, reasons, hrest, Or.inl rfl⟩
        | ok first =>
          obtain ⟨rfl, _⟩ := Prod.mk.inj (Except.ok.inj h)
          exact ⟨later, reasons, hrest, Or.inr ⟨first, repriceTrade_repriced hhead, rfl⟩⟩
    obtain ⟨later, reasons, hrest, hrepriced⟩ := hparts
    have hlater : ∀ updated ∈ later, ∃ trade' ∈ trade :: rest, Repriced settings trade' updated :=
      fun updated hmem => (ih hrest updated hmem).imp fun _ h => ⟨List.mem_cons_of_mem _ h.1, h.2⟩
    rcases hrepriced with rfl | ⟨first, hfirst, rfl⟩
    · exact hlater
    · intro updated hmem
      rcases List.mem_cons.mp hmem with rfl | hmem
      · exact ⟨trade, List.mem_cons_self, hfirst⟩
      · exact hlater updated hmem

/-- A buy the cash trim has shrunk in its turn. -/
def Trimmed (settings : Settings) (trade trimmed : ProposedTrade) : Prop :=
  ∃ shortfall, cashTolerance < shortfall ∧
    let quantity := trade.quantity - trimCut (resolveExecutionRule trade.ticker
      settings.executionRules) trade.quantity (trade.buyCashRequiredUsd / trade.quantity) shortfall
    ¬(quantity ≤ fillTolerance ∨
      quantity < (resolveExecutionRule trade.ticker settings.executionRules).minQuantity) ∧
    trimmed = { trade with quantity := quantity, notional := quantity * trade.referencePrice }

/-- What the trim returns are trades it was given, or such trades shrunk. -/
theorem trimLoop_forall {settings : Settings} {T : ProposedTrade → Prop}
    (htrim : ∀ trade trimmed, T trade → Trimmed settings trade trimmed → T trimmed) :
    ∀ {order : List Nat} {buys trimmed : List ProposedTrade} {shortfall : ℚ},
      (∀ trade ∈ buys, T trade) →
      trimLoop settings.executionRules order buys shortfall = .ok (some trimmed) →
      ∀ trade ∈ trimmed, T trade := by
  intro order
  induction order with
  | nil =>
    intro buys trimmed shortfall hbuys h
    rw [trimLoop] at h
    split at h
    · obtain rfl := Option.some.inj (Except.ok.inj h)
      exact hbuys
    · cases h
  | cons index order ih =>
    intro buys trimmed shortfall hbuys h
    rw [trimLoop] at h
    split at h
    · obtain rfl := Option.some.inj (Except.ok.inj h)
      exact hbuys
    rename_i hshort
    split at h
    · cases h
    rename_i trade htrade
    dsimp only at h
    split at h
    · cases h
    split at h
    · cases h
    rename_i hquantity
    refine ih (fun other hmem => ?_) h
    rcases List.mem_or_eq_of_mem_set hmem with hmem | rfl
    · exact hbuys other hmem
    · exact htrim trade _ (hbuys trade (List.mem_of_getElem? htrade))
        ⟨shortfall, not_le.mp hshort, hquantity, rfl⟩

section Dictionaries

variable {α : Type}

theorem Dict.mem_put {d : Dict α} {key : String} {value : α} {item : String × α}
    (h : item ∈ Dict.put d key value) : item = (key, value) ∨ item ∈ d :=
  (List.mem_cons.mp h).imp_right fun h => List.mem_of_mem_filter h

theorem Dict.mem_of_lookup {d : Dict α} {key : String} {value : α}
    (h : d.lookup key = some value) : (key, value) ∈ d := by
  induction d with
  | nil => cases h
  | cons item d ih =>
    rw [List.lookup_cons] at h
    split at h
    · rename_i heq
      obtain rfl := Option.some.inj h
      obtain rfl := eq_of_beq heq
      exact List.mem_cons_self
    · exact List.mem_cons_of_mem _ (ih h)

/-- Trades put into a dictionary under their tickers are all it gains. -/
theorem Dict.mem_foldl_put {trades : List ProposedTrade} {d : Dict ProposedTrade}
    {item : String × ProposedTrade}
    (h : item ∈ trades.foldl (fun d trade => Dict.put d trade.ticker trade) d) :
    item ∈ d ∨ item.2 ∈ trades ∧ item.2.ticker = item.1 := by
  induction trades generalizing d with
  | nil => exact Or.inl h
  | cons trade trades ih =>
    rcases ih h with hput | hmem
    · rcases Dict.mem_put hput with rfl | hd
      · exact Or.inr ⟨List.mem_cons_self, rfl⟩
      · exact Or.inl hd
    · exact Or.inr ⟨List.mem_cons_of_mem _ hmem.1, hmem.2⟩

/-- Taking refreshed trades over only adds refreshed trades. -/
theorem takeRefreshed_mem {refreshed : Dict ProposedTrade} {originals : List ProposedTrade} :
    ∀ {d result : Dict ProposedTrade}, takeRefreshed originals refreshed d = .ok result →
      ∀ item ∈ result, item ∈ d ∨ item ∈ refreshed := by
  unfold takeRefreshed
  induction originals with
  | nil =>
    rintro d result ⟨⟩ item hitem
    exact Or.inl hitem
  | cons trade originals ih =>
    intro d result h item hitem
    rw [List.foldlM_cons] at h
    obtain ⟨next, hnext, h⟩ := bind_eq_ok.mp h
    rcases ih h item hitem with hmem | hother
    · cases hlookup : refreshed.lookup trade.ticker with
      | some updated =>
        rw [hlookup] at hnext
        obtain rfl := Except.ok.inj hnext
        rcases Dict.mem_put hmem with rfl | hd
        · exact Or.inr (Dict.mem_of_lookup hlookup)
        · exact Or.inl hd
      | none =>
        rw [hlookup] at hnext
        simp only [Dict.del] at hnext
        split at hnext
        · obtain rfl := Except.ok.inj hnext
          exact Or.inl (List.mem_of_mem_filter hmem)
        · cases hnext
    · exact Or.inr hother

end Dictionaries

/-- A broker method that hands nothing to the broker. -/
def BrokerCall.Reads : BrokerCall → Prop
  | .cancelOrder _ => False
  | .replaceOrder _ => False
  | .submitReplacement _ => False
  | .submitTrades _ => False
  | _ => True

/-- What the quote attempts may do with trades that are fresh, and what a priced trade is. -/
structure PricingMeets (manager : ExecutionManager) (rely : (o : Op) → Except Exn o.Ans → Prop)
    (guarantee : Op → Prop) (fresh priced : ProposedTrade → Prop) : Prop where
  repriced : ∀ trade updated, fresh trade → Repriced manager.settings trade updated →
    priced updated
  quotes : ∀ tickers, (manager.broker.executionQuotes tickers).Meets (S := sig) rely guarantee
    fun _ => True
  sleep : ∀ seconds, guarantee (.sleep seconds)

/-- What an attempt may do with trades that are fresh, and with those it has priced. -/
structure AttemptMeets (manager : ExecutionManager) (plan : RebalancePlan)
    (callback : Option StatusCallback) (rely : (o : Op) → Except Exn o.Ans → Prop)
    (guarantee : Op → Prop) (fresh priced : ProposedTrade → Prop) : Prop
    extends PricingMeets manager rely guarantee fresh priced where
  unpriced : manager.settings.executionPriceSource ≠ .ibkr → ∀ trade, fresh trade → priced trade
  trimmed : ∀ trade less, priced trade → Trimmed manager.settings trade less → priced less
  planned : ∀ trade, fresh trade ∨ priced trade → guarantee (.upsert (plannedEntry plan trade))
  result : ∀ trade result, fresh trade ∨ priced trade →
    (recordResult plan trade result).Meets (S := sig) rely guarantee fun _ => True
  notified : ∀ trade result,
    (notify callback trade result).Meets (S := sig) rely guarantee fun _ => True
  account : manager.broker.accountSnapshot.Meets (S := sig) rely guarantee fun _ => True
  submit : ∀ trades, (∀ trade ∈ trades, priced trade) →
    (manager.broker.submitTrades trades (some (wrapCallback plan callback))).Meets (S := sig) rely
      guarantee fun _ => True

/-- The trades priced so far are priced, each under its ticker. -/
def RepriceState.Priced (priced : ProposedTrade → Prop) (state : RepriceState) : Prop :=
  ∀ item ∈ state.repricedByTicker, priced item.2 ∧ item.2.ticker = item.1

/-- A list of trades split into those that may go, priced, and those held back. -/
structure SplitsUp (fresh priced : ProposedTrade → Prop) (trades : List ProposedTrade)
    (r : List ProposedTrade × List (ProposedTrade × OrderResult)) : Prop where
  priced : ∀ trade ∈ r.1, priced trade
  fresh : ∀ item ∈ r.2, fresh item.1
  covers : ∀ trade ∈ trades, (∃ sent ∈ r.1, sent.ticker = trade.ticker) ∨
    ∃ item ∈ r.2, item.1.ticker = trade.ticker

namespace SplitsUp

variable {fresh priced : ProposedTrade → Prop} {trade : ProposedTrade} {rest : List ProposedTrade}
  {r : List ProposedTrade × List (ProposedTrade × OrderResult)}

theorem sent (h : SplitsUp fresh priced rest r) {updated : ProposedTrade} (hpriced : priced updated)
    (hticker : updated.ticker = trade.ticker) :
    SplitsUp fresh priced (trade :: rest) (updated :: r.1, r.2) := by
  refine ⟨List.forall_mem_cons.mpr ⟨hpriced, h.priced⟩, h.fresh, List.forall_mem_cons.mpr ⟨?_, ?_⟩⟩
  · exact Or.inl ⟨updated, List.mem_cons_self, hticker⟩
  · intro other hmem
    exact (h.covers other hmem).imp_left fun ⟨sent, hsent, hsame⟩ =>
      ⟨sent, List.mem_cons_of_mem _ hsent, hsame⟩

theorem blocked (h : SplitsUp fresh priced rest r) (hfresh : fresh trade) (result : OrderResult) :
    SplitsUp fresh priced (trade :: rest) (r.1, (trade, result) :: r.2) := by
  refine ⟨h.priced, List.forall_mem_cons.mpr ⟨hfresh, h.fresh⟩, List.forall_mem_cons.mpr ⟨?_, ?_⟩⟩
  · exact Or.inr ⟨(trade, result), List.mem_cons_self, rfl⟩
  · intro other hmem
    exact (h.covers other hmem).imp_right fun ⟨item, hitem, hsame⟩ =>
      ⟨item, List.mem_cons_of_mem _ hitem, hsame⟩

end SplitsUp

/-- What is closed under repricing and trimming may be returned, whatever is answered. -/
theorem attemptMeets_any {manager : ExecutionManager} {plan : RebalancePlan}
    {callback : Option StatusCallback} {P : ProposedTrade → Prop}
    (hrepriced : ∀ trade updated, P trade → Repriced manager.settings trade updated → P updated)
    (htrimmed : ∀ trade less, P trade → Trimmed manager.settings trade less → P less) :
    AttemptMeets manager plan callback (fun _ _ => True) (fun _ => True) P P where
  repriced := hrepriced
  unpriced _ _ h := h
  trimmed := htrimmed
  planned _ _ := trivial
  result _ _ _ := Prog.uses_all _
  notified _ _ := Prog.uses_all _
  quotes _ := Prog.uses_all _
  account := Prog.uses_all _
  sleep _ := trivial
  submit _ _ := Prog.uses_all _

section Phases

variable {manager : ExecutionManager} {plan : RebalancePlan}
  {callback : Option StatusCallback} {rely : (o : Op) → Except Exn o.Ans → Prop}
  {guarantee : Op → Prop} {fresh priced : ProposedTrade → Prop}

theorem meets_askBroker {call : BrokerCall} (h : guarantee (.broker call)) :
    (askBroker call).Meets (S := sig) rely guarantee fun _ => True :=
  (Prog.meets_perform (S := sig) h).mono (fun _ ho => ho) fun _ _ => trivial

/-- A submission to the protocol broker: one operation, the reports, and the results. -/
theorem meets_protocolSubmit {isIbkr hasReplacement hasHistory : Bool}
    {trades : List ProposedTrade}
    (hresult : ∀ trade ∈ trades, ∀ result,
      (recordResult plan trade result).Meets (S := sig) rely guarantee fun _ => True)
    (hnotified : ∀ trade result,
      (notify callback trade result).Meets (S := sig) rely guarantee fun _ => True)
    (hasks : ∀ call : BrokerCall, call.Reads → guarantee (.broker call))
    (hsubmit : guarantee (.broker (.submitTrades trades))) :
    ((protocolBroker isIbkr hasReplacement hasHistory).submitTrades trades
      (some (wrapCallback plan callback))).Meets (S := sig) rely guarantee fun _ => True := by
  have hreports : ∀ n, (reportStatuses trades (wrapCallback plan callback) n).Meets (S := sig)
      rely guarantee fun _ => True := by
    intro n
    induction n with
    | zero => trivial
    | succ n ih =>
      rw [reportStatuses]
      refine Prog.meets_bind (meets_askBroker (hasks (.nextStatus trades) trivial))
        fun (report : Fin trades.length × OrderResult) _ => ?_
      refine Prog.meets_bind (R := fun _ => True) (Prog.meets_catching ?_ fun e =>
        meets_askBroker (hasks (.statusRaised e) trivial)) fun _ _ => ih
      exact Prog.meets_bind (hresult _ (List.get_mem _ _) _) fun _ _ => hnotified _ _
  refine Prog.meets_bind (meets_askBroker hsubmit) fun (reports : Nat) _ => ?_
  exact Prog.meets_bind (hreports reports) fun _ _ =>
    meets_askBroker (hasks .submitResults trivial)

section Quotes

variable (hm : PricingMeets manager rely guarantee fresh priced)

include hm

/-- A batch of quotes leaves only trades priced that were priced, or are off a quote. -/
theorem quoted_priced {state : RepriceState} {attempt : Nat}
    {quotes : List (String × ExecutionQuote)} {allowWideSpread : Bool}
    {repriced : List ProposedTrade} {warnings : List String}
    (h : applyExecutionQuotes state.pending quotes manager.settings
      manager.settings.executionRules allowWideSpread = .ok (repriced, warnings))
    (hpending : ∀ trade ∈ state.pending, fresh trade) (hrepriced : state.Priced priced) :
    (state.quoted attempt quotes repriced warnings).Priced priced := by
  intro item hitem
  rcases Dict.mem_foldl_put hitem with hmem | ⟨hmem, hticker⟩
  · exact hrepriced item hmem
  · obtain ⟨trade, htrade, hquoted⟩ := applyExecutionQuotes_repriced h _ hmem
    exact ⟨hm.repriced trade _ (hpending trade htrade) hquoted, hticker⟩

/-- Every trade the quote attempts have priced is priced off a quote. -/
theorem meets_quoteAttempts : ∀ (delays : List ℚ) (attempt : Nat) (state : RepriceState),
    (∀ trade ∈ state.pending, fresh trade) → state.Priced priced →
    (manager.quoteAttempts delays attempt
      state).Meets (S := sig) rely guarantee fun r => r.1.Priced priced := by
  intro delays
  induction delays with
  | nil =>
    intro attempt state hpending hrepriced
    rw [ExecutionManager.quoteAttempts]
    refine Prog.meets_bind (hm.quotes _) fun quotes _ => ?_
    refine Prog.meets_bind (Prog.meets_ofExcept fun r hr => hr) fun r hr => ?_
    exact quoted_priced hm hr hpending hrepriced
  | cons delay delays ih =>
    intro attempt state hpending hrepriced
    rw [ExecutionManager.quoteAttempts]
    refine Prog.meets_bind (hm.quotes _) fun quotes _ => ?_
    refine Prog.meets_bind (Prog.meets_ofExcept fun r hr => hr) fun r hr => ?_
    have hquoted : (state.quoted attempt quotes r.1 r.2).Priced priced :=
      quoted_priced hm hr hpending hrepriced
    dsimp only
    split
    · exact hquoted
    · refine Prog.meets_bind (Prog.meets_perform (S := sig) (hm.sleep delay)) fun _ _ => ?_
      exact ih _ _ (fun trade hmem => hpending trade (List.mem_of_mem_filter hmem)) hquoted

/-- The refresh before submission keeps the priced trades priced. -/
theorem meets_refreshQuotes {trades : List ProposedTrade} (htrades : ∀ trade ∈ trades, fresh trade)
    {state : RepriceState} (hrepriced : state.Priced priced) (attempt : Nat) :
    (manager.refreshQuotes trades state
      attempt).Meets (S := sig) rely guarantee fun r => r.Priced priced := by
  unfold ExecutionManager.refreshQuotes
  dsimp only
  split
  · exact hrepriced
  refine Prog.meets_bind (hm.quotes _) fun quotes _ => ?_
  refine Prog.meets_bind (Prog.meets_ofExcept fun r hr => hr) fun r hr => ?_
  refine Prog.meets_bind (Prog.meets_ofExcept fun r hr => hr) fun taken htaken => ?_
  intro item hitem
  rcases takeRefreshed_mem htaken item hitem with hmem | hmem
  · exact hrepriced item hmem
  rcases Dict.mem_foldl_put hmem with hnil | ⟨hmem, hticker⟩
  · cases hnil
  obtain ⟨trade, htrade, hquoted⟩ := applyExecutionQuotes_repriced hr _ hmem
  exact ⟨hm.repriced trade _ (htrades trade (List.mem_of_mem_filter htrade)) hquoted, hticker⟩

end Quotes

variable (hm : AttemptMeets manager plan callback rely guarantee fresh priced)

include hm

/-- The plan phase lets the trades through that have no replay. -/
theorem meets_planPhase {latest : List OrderLedgerEntry} {trades : List ProposedTrade}
    (htrades : ∀ trade ∈ trades, idempotentReplay trade latest = none → fresh trade) :
    ∀ results, (planPhase plan callback latest trades results).Meets (S := sig) rely guarantee
      fun r => ∀ trade ∈ r.1, fresh trade := by
  induction trades with
  | nil => exact fun _ => List.forall_mem_nil _
  | cons trade rest ih =>
    intro results
    have hrest := ih fun other hmem => htrades other (List.mem_cons_of_mem _ hmem)
    rw [planPhase]
    cases hreplay : idempotentReplay trade latest with
    | some replay => exact Prog.meets_bind (hm.notified _ _) fun _ _ => hrest _
    | none =>
      have hfresh := htrades trade List.mem_cons_self hreplay
      refine Prog.meets_bind (meets_upsertEntry (hm.planned trade (Or.inl hfresh))) fun _ _ => ?_
      refine Prog.meets_bind (hrest _) fun r hr => ?_
      exact List.forall_mem_cons.mpr ⟨hfresh, hr⟩

/-- What may go is priced, what is blocked is still fresh, and no trade is left out. -/
theorem meets_recordRepriced {state : RepriceState} (hrepriced : state.Priced priced)
    {trades : List ProposedTrade} (htrades : ∀ trade ∈ trades, fresh trade) :
    (ExecutionManager.recordRepriced plan callback state trades).Meets (S := sig) rely guarantee
      (SplitsUp fresh priced trades) := by
  induction trades with
  | nil => exact ⟨List.forall_mem_nil _, List.forall_mem_nil _, List.forall_mem_nil _⟩
  | cons trade rest ih =>
    have hrest := ih fun other hmem => htrades other (List.mem_cons_of_mem _ hmem)
    rw [ExecutionManager.recordRepriced]
    cases hlookup : state.repricedByTicker.lookup trade.ticker with
    | some updated =>
      obtain ⟨hpriced, hticker⟩ := hrepriced _ (Dict.mem_of_lookup hlookup)
      refine Prog.meets_bind (meets_upsertEntry (hm.planned updated (Or.inr hpriced)))
        fun _ _ => ?_
      refine Prog.meets_bind hrest fun r hr => ?_
      exact hr.sent hpriced hticker
    | none =>
      have hfresh := htrades trade List.mem_cons_self
      refine Prog.meets_bind (hm.result trade _ (Or.inl hfresh)) fun _ _ => ?_
      refine Prog.meets_bind (hm.notified _ _) fun _ _ => ?_
      exact Prog.meets_bind hrest fun r hr => hr.blocked hfresh _

theorem meets_repriceForExecution {trades : List ProposedTrade}
    (htrades : ∀ trade ∈ trades, fresh trade) :
    (manager.repriceForExecution plan trades
      callback).Meets (S := sig) rely guarantee (SplitsUp fresh priced trades) := by
  unfold ExecutionManager.repriceForExecution
  split
  · rename_i h
    have hpriced : ∀ trade ∈ trades, priced trade := by
      intro trade hmem
      rcases h with hsource | hnil
      · exact hm.unpriced hsource trade (htrades trade hmem)
      · subst hnil
        cases hmem
    exact ⟨hpriced, List.forall_mem_nil _, fun trade hmem => Or.inl ⟨trade, hmem, rfl⟩⟩
  have hquotes := meets_quoteAttempts hm.toPricingMeets executionQuoteRetryDelaysSeconds 1
    { pending := trades } htrades (List.forall_mem_nil _)
  refine Prog.meets_bind hquotes fun r hr => ?_
  refine Prog.meets_bind (meets_refreshQuotes hm.toPricingMeets htrades hr _) fun state hstate => ?_
  exact meets_recordRepriced hm hstate htrades

/-- The buys fitted to the refreshed cash are priced buys, or such buys shrunk. -/
theorem meets_fitBuys {buys : List ProposedTrade} (hbuys : ∀ trade ∈ buys, priced trade) :
    (manager.fitBuysToRefreshedCash
      buys).Meets (S := sig) rely guarantee fun r => ∀ trade ∈ r.1, priced trade := by
  unfold ExecutionManager.fitBuysToRefreshedCash
  dsimp only
  split
  · exact hbuys
  refine Prog.meets_bind (R := fun _ => True) ((Prog.meets_attempt (R := fun _ => True)
    hm.account).mono (fun _ ho => ho)
    fun _ _ => trivial) fun read _ => ?_
  cases read with
  | error e => exact hbuys
  | ok refreshed =>
    dsimp only
    split
    · split
      · exact hbuys
      split
      · exact hbuys
      refine Prog.meets_bind (Prog.meets_ofExcept fun r hr => hr) fun r hr => ?_
      cases r with
      | none => exact hbuys
      | some trimmed =>
        dsimp only
        split
        · exact hbuys
        · exact trimLoop_forall hm.trimmed hbuys hr
    · exact hbuys

/-- Trades handed to the broker are priced, and every result is recorded under its trade. -/
theorem meets_sendTrades {trades : List ProposedTrade} (htrades : ∀ trade ∈ trades, priced trade)
    (results : Dict OrderResult) :
    (manager.sendTrades plan trades callback results).Meets (S := sig) rely guarantee
      fun _ => True := by
  unfold ExecutionManager.sendTrades
  split
  · trivial
  refine Prog.meets_bind (Prog.meets_forEach fun trade hmem =>
    hm.result trade _ (Or.inr (htrades trade hmem))) fun _ _ => ?_
  refine Prog.meets_bind (hm.submit trades htrades) fun phaseResults _ => ?_
  refine Prog.meets_bind (Prog.meets_forEach fun pair hmem =>
    hm.result pair.1 pair.2 (Or.inr (htrades _ (List.of_mem_zip hmem).1))) fun _ _ => ?_
  split <;> trivial

theorem meets_submitPhase {trades : List ProposedTrade} (htrades : ∀ trade ∈ trades, fresh trade)
    (results : Dict OrderResult) :
    (manager.submitPhase plan trades callback true results).Meets (S := sig) rely guarantee
      fun _ => True := by
  unfold ExecutionManager.submitPhase
  split
  · trivial
  · exact Prog.meets_bind (meets_repriceForExecution hm htrades) fun r hr =>
      meets_sendTrades hm hr.priced _

theorem meets_blockBuys (reason : String) {buys : List ProposedTrade}
    (hbuys : ∀ trade ∈ buys, priced trade) : ∀ results,
    (ExecutionManager.blockBuys plan callback reason buys results).Meets (S := sig) rely guarantee
      fun _ => True := by
  induction buys with
  | nil => exact fun _ => trivial
  | cons trade rest ih =>
    intro results
    rw [ExecutionManager.blockBuys]
    refine Prog.meets_bind (hm.result trade _ (Or.inr (hbuys trade List.mem_cons_self)))
      fun _ _ => Prog.meets_bind (hm.notified _ _) fun _ _ => ?_
    exact ih (fun other hmem => hbuys other (List.mem_cons_of_mem _ hmem)) _

theorem meets_buyPhase {buys : List ProposedTrade} (hbuys : ∀ trade ∈ buys, fresh trade)
    (results : Dict OrderResult) :
    (manager.buyPhase plan buys callback
      results).Meets (S := sig) rely guarantee fun _ => True := by
  unfold ExecutionManager.buyPhase
  split
  · trivial
  refine Prog.meets_bind (meets_repriceForExecution hm hbuys) fun r hr => ?_
  refine Prog.meets_bind (meets_fitBuys hm hr.priced) fun fitted hfitted => ?_
  obtain ⟨buys, reason⟩ := fitted
  cases reason with
  | some reason => exact meets_blockBuys hm reason hfitted _
  | none =>
    dsimp only
    unfold ExecutionManager.submitPhase
    split
    · trivial
    · rw [if_neg Bool.false_ne_true]
      exact meets_sendTrades hm hfitted _

end Phases

/-- The phases of an attempt, over its tagged trades and the rows of their references. -/
def ExecutionManager.attemptPhases (self : ExecutionManager) (plan : RebalancePlan)
    (callback : Option StatusCallback) (latest : List OrderLedgerEntry)
    (taggedSells taggedBuys : List ProposedTrade) : M (List OrderResult) :=
  (planPhase plan callback latest taggedSells []).bind fun (freshSells, results) =>
  (planPhase plan callback latest taggedBuys results).bind fun (freshBuys, results) =>
  (self.submitPhase plan freshSells callback true results).bind fun results =>
  (self.buyPhase plan freshBuys callback results).bind fun results =>
  Prog.ofExcept (S := sig) (collectResults results plan.trades)

/-- The trades of a plan as an attempt on a ledger tags them. -/
def taggedTrades (store : OrderStore) (plan : RebalancePlan) : List ProposedTrade :=
  tagTrades store plan.runId 0 plan.sells ++
    tagTrades store plan.runId plan.sells.length plan.buys

/-- The trades of an attempt on a ledger that no row holds back. -/
def FreshIn (store : OrderStore) (plan : RebalancePlan) (trade : ProposedTrade) : Prop :=
  trade ∈ taggedTrades store plan ∧
    ∀ row, store.latest trade.ref = some row → row.sendable = true

/-- A trade without a replay is one that no row holds back. -/
theorem freshIn_of_noReplay {store : OrderStore} {plan : RebalancePlan} {trade : ProposedTrade}
    (hmem : trade ∈ taggedTrades store plan)
    (h : idempotentReplay trade (store.getLatestMany ((taggedTrades store plan).map (·.ref))) =
      none) : FreshIn store plan trade := by
  refine ⟨hmem, fun row hrow => ?_⟩
  unfold idempotentReplay at h
  rw [OrderStore.find?_getLatestMany (List.mem_map_of_mem hmem), hrow] at h
  dsimp only at h
  split at h
  · assumption
  · cases h

theorem meets_attemptPhases {manager : ExecutionManager} {plan : RebalancePlan} {callback : Option StatusCallback}
    {rely : (o : Op) → Except Exn o.Ans → Prop} {guarantee : Op → Prop} {store : OrderStore}
    {priced : ProposedTrade → Prop}
    (hm : AttemptMeets manager plan callback rely guarantee (FreshIn store plan) priced) :
    (manager.attemptPhases plan callback
      (store.getLatestMany ((taggedTrades store plan).map (·.ref)))
      (tagTrades store plan.runId 0 plan.sells)
      (tagTrades store plan.runId plan.sells.length plan.buys)).Meets (S := sig) rely guarantee
      fun _ => True := by
  unfold ExecutionManager.attemptPhases
  refine Prog.meets_bind (meets_planPhase hm (fun trade hmem =>
    freshIn_of_noReplay (List.mem_append_left _ hmem)) _) fun sells hsells => ?_
  refine Prog.meets_bind (meets_planPhase hm (fun trade hmem =>
    freshIn_of_noReplay (List.mem_append_right _ hmem)) _) fun buys hbuys => ?_
  refine Prog.meets_bind (meets_submitPhase hm hsells _) fun _ _ => ?_
  refine Prog.meets_bind (meets_buyPhase hm hbuys _) fun _ _ => ?_
  exact Prog.meets_ofExcept fun _ _ => trivial

/-- An attempt keeps to what may be done with any trade, and with those that are priced. -/
theorem submitPlan_meets {manager : ExecutionManager} {plan : RebalancePlan} {callback : Option StatusCallback}
    {rely : (o : Op) → Except Exn o.Ans → Prop} {guarantee : Op → Prop}
    {priced : ProposedTrade → Prop} (hload : guarantee .loadLatestEntries)
    (hm : AttemptMeets manager plan callback rely guarantee (fun _ => True) priced) :
    (manager.submitPlan plan callback).Meets (S := sig) rely guarantee fun _ => True := by
  have hread : loadLatest.Meets (S := sig) rely guarantee fun _ => True :=
    .of_uses (Prog.uses_perform hload)
  have htag : ∀ trades offset, (tag plan.runId trades offset).Meets (S := sig) rely guarantee
      fun _ => True := fun trades offset => Prog.meets_bind hread fun _ _ => trivial
  have hphase : ∀ latest trades results, (planPhase plan callback latest trades results).Meets
      (S := sig) rely guarantee fun r => ∀ trade ∈ r.1, True :=
    fun latest trades results => meets_planPhase hm (fun _ _ _ => trivial) results
  unfold ExecutionManager.submitPlan
  refine Prog.meets_bind (htag _ _) fun taggedSells _ => ?_
  refine Prog.meets_bind (htag _ _) fun taggedBuys _ => ?_
  refine Prog.meets_bind hread fun store _ => ?_
  refine Prog.meets_bind (hphase _ taggedSells []) fun sells hsells => ?_
  refine Prog.meets_bind (hphase _ taggedBuys _) fun buys hbuys => ?_
  refine Prog.meets_bind (meets_submitPhase hm hsells _) fun _ _ => ?_
  refine Prog.meets_bind (meets_buyPhase hm hbuys _) fun _ _ => ?_
  exact Prog.meets_ofExcept fun _ _ => trivial

section Runs

variable {W : Type} (E : Environment W)

/-- An attempt reads the ledger three times, and goes on with what it read. -/
theorem wp_submitPlan (manager : ExecutionManager) (plan : RebalancePlan)
    (callback : Option StatusCallback) {Q : Post sig (World W) (List OrderResult)}
    {τ : List (Event sig)} {s : World W}
    (hstop : ∀ τ', Grows (· = .loadLatestEntries) τ τ' → Q .stopped τ' s)
    (h : ∀ τ', Grows (· = .loadLatestEntries) τ τ' → E.system.wp (manager.attemptPhases plan
      callback (s.ledger.getLatestMany ((taggedTrades s.ledger plan).map (·.ref)))
      (tagTrades s.ledger plan.runId 0 plan.sells)
      (tagTrades s.ledger plan.runId plan.sells.length plan.buys)) Q τ' s) :
    E.system.wp (manager.submitPlan plan callback) Q τ s := by
  have hload : ∀ τ' : List (Event sig), Grows (· = .loadLatestEntries) τ' (τ' ++
      [⟨.loadLatestEntries, .ok s.ledger⟩]) := fun τ' => .one (A := (· = .loadLatestEntries)) rfl τ'
  have h₁ := hload τ
  have h₂ := h₁.trans (hload _)
  unfold ExecutionManager.submitPlan tag
  simp only [System.wp_bind, wp_loadLatest, System.seq_stopped, System.seq_returned,
    System.wp_ret]
  refine ⟨hstop _ (.refl τ), fun _ => ⟨hstop _ h₁, fun _ => ⟨hstop _ h₂, fun _ => ?_⟩⟩⟩
  have hphases := h _ (h₂.trans (hload _))
  unfold ExecutionManager.attemptPhases taggedTrades at hphases
  simpa only [System.wp_bind] using hphases

end Runs

end Poma

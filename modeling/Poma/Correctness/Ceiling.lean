import Poma.Correctness.FollowUp

/-!
# The size and the price of an order

Every order is sized by one of few paths: repriced off a quote, trimmed to the
cash, replacing a working order or resuming a replacement. Each keeps the order
ceiling, and a replacement takes the touch of a quote of its own pass, within the
reprice bounds of the row it is for.
-/

namespace Poma

open Interaction

/-- A trade with a limit that keeps the order ceiling. -/
structure Capped (settings : Settings) (trade : ProposedTrade) : Prop where
  quantity_pos : 0 < trade.quantity
  limit : ∃ limit, trade.limitPrice = some limit ∧ 0 < limit ∧
    trade.quantity * limit ≤ settings.maxOrderNotionalUsd

theorem Repriced.capped {settings : Settings} {trade updated : ProposedTrade}
    (h : Repriced settings trade updated) : Capped settings updated :=
  ⟨h.quantity_pos, h.limit⟩

/-- A cut is never negative. -/
theorem trimCut_nonneg {rule : InstrumentExecutionRule} {quantity unitCash shortfall : ℚ}
    (hquantity : 0 ≤ quantity) (hunit : 0 ≤ unitCash) (hshortfall : 0 ≤ shortfall) :
    0 ≤ trimCut rule quantity unitCash shortfall := by
  have hcut : 0 ≤ min (shortfall / unitCash) quantity :=
    le_min (div_nonneg hshortfall hunit) hquantity
  unfold trimCut
  dsimp only
  split
  · rename_i hincrement
    have hsteps : 0 ≤ min (shortfall / unitCash) quantity / rule.quantityIncrement :=
      div_nonneg hcut hincrement.le
    have htolerance : fillTolerance < 1 := by decide +kernel
    have hceil : 0 ≤ ⌈min (shortfall / unitCash) quantity / rule.quantityIncrement -
        fillTolerance⌉ := by
      apply Int.ceil_nonneg_of_neg_one_lt
      linarith
    exact mul_nonneg (by exact_mod_cast hceil) hincrement.le
  · exact hcut

/-- A trimmed trade keeps its limit and is no larger. -/
theorem Trimmed.capped {settings : Settings} {trade trimmed : ProposedTrade}
    (h : Capped settings trade) (htrim : Trimmed settings trade trimmed) :
    Capped settings trimmed := by
  obtain ⟨shortfall, hshortfall, hquantity, rfl⟩ := htrim
  obtain ⟨hpos, limit, hlimit, hlimitPos, hceiling⟩ := h
  have htolerance : 0 ≤ fillTolerance := by decide +kernel
  have hcash : 0 ≤ cashTolerance := by decide +kernel
  have hunit : 0 ≤ trade.buyCashRequiredUsd / trade.quantity := by
    apply div_nonneg _ hpos.le
    unfold ProposedTrade.buyCashRequiredUsd ProposedTrade.limitCash
    rw [hlimit]
    dsimp only
    rw [if_pos hlimitPos]
    split
    · exact le_rfl
    · exact mul_nonneg (abs_nonneg _) hlimitPos.le
  have hcut : 0 ≤ trimCut (resolveExecutionRule trade.ticker settings.executionRules)
      trade.quantity (trade.buyCashRequiredUsd / trade.quantity) shortfall :=
    trimCut_nonneg hpos.le hunit (hcash.trans hshortfall.le)
  have hleft := not_le.mp (not_or.mp hquantity).1
  refine ⟨htolerance.trans_lt hleft, limit, hlimit, hlimitPos, ?_⟩
  refine le_trans (mul_le_mul_of_nonneg_right ?_ hlimitPos.le) hceiling
  show trade.quantity - _ ≤ trade.quantity
  linarith

/-- A limit off the touch of a fresh two-sided quote for a row, within the reprice bounds. -/
structure Escalates (settings : Settings) (entry : OrderLedgerEntry) (quote : ExecutionQuote)
    (newLimit : ℚ) : Prop where
  fresh : quoteFault quote settings = none
  touch : ∃ bid ask, quote.numbers.bid = some bid ∧ quote.numbers.ask = some ask ∧
    newLimit = if entry.side = .buy then ask else bid
  tight : ∃ spread, quote.numbers.spread = some spread ∧ spread ≤ settings.executionMaxSpreadBps
  aggressive : ∀ limit, entry.limitPrice = some limit →
    if entry.side = .buy then limit < newLimit else newLimit < limit
  bounded : ∃ reference, entry.referencePrice = some reference ∧ 0 < reference ∧
    (newLimit - reference) * (if entry.side = .buy then 1 else -1) / reference * 10000 ≤
      settings.maxRepriceAdverseBps

/-- A quote that gives a price has no fault. -/
theorem priceFromQuote_fresh {quote : ExecutionQuote} {side : OrderSide} {settings : Settings}
    {offsetBps price : ℚ} {allowWideSpread : Bool} {aggression : Option ℚ}
    (h : (priceFromQuote quote side settings offsetBps allowWideSpread
      aggression).referencePrice = some price) : quoteFault quote settings = none := by
  cases hfault : quoteFault quote settings with
  | none => rfl
  | some warning =>
    have hselect : selectExecutionPrice quote side settings allowWideSpread =
        (none, settings.executionPriceBasis.value, [warning]) := by
      unfold selectExecutionPrice
      rw [hfault]
    unfold priceFromQuote at h
    rw [hselect] at h
    cases h

/-- The limit of an escalation, with the ceiling of the whole order. -/
theorem escalatedLimit_escalates {settings : Settings} {entry : OrderLedgerEntry}
    {quote : ExecutionQuote} {newLimit : ℚ} {data : QuoteMetadata}
    (h : escalatedLimit settings entry quote = some (newLimit, data)) :
    Escalates settings entry quote newLimit ∧
      entry.quantity * newLimit ≤ settings.maxOrderNotionalUsd + cashTolerance := by
  unfold escalatedLimit at h
  dsimp only at h
  split at h
  · rename_i price limit bid ask spread reference hprice hlimit hbid hask hspread hreference
    generalize htouch : (if entry.side = .buy then ask else bid) = touch at h
    generalize hsign : (if entry.side = .buy then (1 : ℚ) else -1) = sign at h
    split at h
    · cases h
    rename_i htight
    split at h
    · cases h
    rename_i haggressive
    split at h
    · cases h
    rename_i hpositive
    split at h
    · cases h
    rename_i hbounded
    split at h
    · cases h
    rename_i hceiling
    obtain ⟨rfl, _⟩ := Prod.mk.inj (Option.some.inj h)
    have hadverse := not_lt.mp hbounded
    rw [← hsign] at hadverse
    refine ⟨⟨priceFromQuote_fresh hprice, ⟨bid, ask, hbid, hask, htouch.symm⟩,
      ⟨spread, hspread, not_lt.mp htight⟩, ?_, reference, hreference, not_le.mp hpositive,
      hadverse⟩, not_lt.mp hceiling⟩
    intro old hold
    rw [hold] at haggressive
    cases hside : entry.side with
    | buy => simpa [hside] using haggressive
    | sell => simpa [hside] using haggressive
  · cases h

/-- The reports of the orders of the rows a trace read: fills are counted, and nothing more
remains than was ordered. -/
def ReportsFit (τ : List (Event sig)) : Prop :=
  ∀ entry reports snapshot, ReadIn τ entry → ListedIn τ reports → snapshot ∈ reports →
    entry.ReportedBy snapshot → 0 ≤ snapshot.filled ∧ snapshot.remaining ≤ entry.quantity

/-- The price of a replacement for a row rests on a quote of the trace. -/
def EscalatedIn (settings : Settings) (τ : List (Event sig)) (entry : OrderLedgerEntry)
    (newLimit : ℚ) : Prop :=
  ∃ quotes quote, QuotedIn τ [entry.ticker] quotes ∧ quotes.lookup entry.ticker = some quote ∧
    Escalates settings entry quote newLimit

/-- An order within the ceiling; a replacement is also within the reprice bounds of its row. -/
def Op.WithinCeiling (settings : Settings) (τ : List (Event sig)) : Op → Prop
  | .broker (.submitTrades trades) => ∀ trade ∈ trades, ∃ limit,
      trade.limitPrice = some limit ∧
        trade.quantity * limit ≤ settings.maxOrderNotionalUsd + cashTolerance
  | .broker (.replaceOrder request) =>
      request.quantity * request.newLimitPrice ≤ settings.maxOrderNotionalUsd + cashTolerance ∧
        ∃ entry, ReadIn τ entry ∧ request.orderRef = entry.ledgerKey ++ ":r1" ∧
          EscalatedIn settings τ entry request.newLimitPrice
  | .broker (.submitReplacement request) =>
      request.quantity * request.newLimitPrice ≤ settings.maxOrderNotionalUsd + cashTolerance ∧
        ∃ entry, ReadIn τ entry ∧ entry.reservedRef = some request.orderRef ∧
          EscalatedIn settings τ entry request.newLimitPrice
  | _ => True

/-- A part of an order that keeps the ceiling keeps it. -/
theorem part_within {settings : Settings} {quantity part newLimit : ℚ} (hpart : 0 ≤ part)
    (hle : part ≤ max quantity 0)
    (hceiling : quantity * newLimit ≤ settings.maxOrderNotionalUsd + cashTolerance) :
    part * newLimit ≤ settings.maxOrderNotionalUsd + cashTolerance := by
  have hmax := settings.maxOrderNotional_pos
  have htolerance : 0 ≤ cashTolerance := by decide +kernel
  have hzero : 0 ≤ settings.maxOrderNotionalUsd + cashTolerance := by linarith
  by_cases hlimit : 0 ≤ newLimit
  · refine (mul_le_mul_of_nonneg_right hle hlimit).trans ?_
    rcases max_choice quantity 0 with hmax | hmax
    · rw [hmax]
      exact hceiling
    · rw [hmax, zero_mul]
      exact hzero
  · have hneg : part * newLimit ≤ 0 := mul_nonpos_of_nonneg_of_nonpos hpart (not_le.mp hlimit).le
    exact hneg.trans hzero

section Turn

variable {settings : Settings} {entry : OrderLedgerEntry} {snapshot : OpenOrderSnapshot}

/-- What remains of a row after a report that fits it is part of its order. -/
theorem openQuantity_part (seen : ℚ) (hfilled : 0 ≤ snapshot.filled)
    (hremaining : snapshot.remaining ≤ entry.quantity) :
    0 ≤ (entry.withSnapshot snapshot seen).openQuantity ∧
      (entry.withSnapshot snapshot seen).openQuantity ≤ max entry.quantity 0 := by
  have hrow : (entry.withSnapshot snapshot seen).openQuantity =
      if max snapshot.remaining 0 ≠ 0 then max snapshot.remaining 0
      else max (entry.quantity - snapshot.filled) 0 := rfl
  rw [hrow]
  split
  · exact ⟨le_max_right _ _, max_le_max hremaining le_rfl⟩
  · exact ⟨le_max_right _ _, max_le_max (by linarith) le_rfl⟩

/-- The limits and the quantity of a followed row are those of the row and its report. -/
theorem Followed.priced {u : OrderLedgerEntry} (h : Followed entry snapshot u) :
    u.ticker = entry.ticker ∧ u.side = entry.side ∧ u.quantity = entry.quantity ∧
      u.limitPrice = entry.limitPrice ∧ u.referencePrice = entry.referencePrice ∧
      u.remainingQty = max snapshot.remaining 0 := by
  cases h <;> exact ⟨rfl, rfl, rfl, rfl, rfl, rfl⟩

/-- A fresh limit of a row with the prices of another is an escalation of the other. -/
theorem FreshLimit.escalates {τ : List (Event sig)} {u : OrderLedgerEntry} {newLimit : ℚ}
    (h : FreshLimit (QuotedIn τ) settings u newLimit)
    (hsource : settings.executionPriceSource = .ibkr) (hticker : u.ticker = entry.ticker)
    (hside : u.side = entry.side) (hquantity : u.quantity = entry.quantity)
    (hlimit : u.limitPrice = entry.limitPrice)
    (hreference : u.referencePrice = entry.referencePrice) :
    EscalatedIn settings τ entry newLimit ∧
      entry.quantity * newLimit ≤ settings.maxOrderNotionalUsd + cashTolerance := by
  obtain ⟨quotes, quote, data, hquoted, hlookup, hescalated⟩ := h hsource
  obtain ⟨⟨hfresh, htouch, htight, haggressive, hbounded⟩, hceiling⟩ :=
    escalatedLimit_escalates hescalated
  rw [hticker] at hquoted hlookup
  rw [hside] at htouch haggressive hbounded
  rw [hlimit] at haggressive
  rw [hreference] at hbounded
  rw [hquantity] at hceiling
  exact ⟨⟨quotes, quote, hquoted, hlookup, hfresh, htouch, htight, haggressive, hbounded⟩,
    hceiling⟩

/-- What a turn asks for is within the ceiling, when the reports it was given fit. -/
theorem Op.OfTurn.withinCeiling {replies : OpenOrderSnapshot → Prop}
    {fetched completed : List OpenOrderSnapshot} {τ : List (Event sig)} {o : Op}
    (h : o.OfTurn settings (QuotedIn τ) replies entry (ExecutionManager.referenced fetched)
      completed) (hsource : settings.executionPriceSource = .ibkr) (hfit : ReportsFit τ)
    (hread : ReadIn τ entry)
    (hfetched : (⟨.broker .fetchOpenOrderSnapshots, .ok fetched⟩ : Event sig) ∈ τ)
    (hcompleted : ∀ snapshot ∈ completed, ∃ reports, ListedIn τ reports ∧ snapshot ∈ reports) :
    o.WithinCeiling settings τ := by
  cases o with
  | broker call =>
    cases call with
    | submitTrades trades => exact h.elim
    | replaceOrder request =>
      obtain ⟨snapshot, u, hmatch, hu, _, hof⟩ := h
      obtain ⟨hmem, hreported⟩ := matchSnapshot_false hmatch
      obtain ⟨_, hremaining⟩ := hfit entry fetched snapshot hread (.openOrders fetched hfetched)
        (List.mem_of_mem_filter hmem) hreported
      obtain ⟨hticker, hside, hquantity, hlimit, hreference, hleft⟩ := hu.priced
      obtain ⟨hescalated, hceiling⟩ :=
        hof.limit.escalates hsource hticker hside hquantity hlimit hreference
      refine ⟨?_, entry, hread, ?_, hescalated⟩
      · rw [hof.quantity, hleft, hquantity]
        split
        · exact part_within (le_max_right _ _) (max_le_max hremaining le_rfl) hceiling
        · exact hceiling
      · rw [hof.orderRef, hu.sameOrder.ledgerKey]
    | submitReplacement request =>
      obtain ⟨snapshot, seen, hsight, _, href, hof⟩ := h
      obtain ⟨hmem, hreported⟩ := sighting_reported hsight
      obtain ⟨reports, hlisted, hmem⟩ : ∃ reports, ListedIn τ reports ∧ snapshot ∈ reports :=
        hmem.elim (fun h => ⟨fetched, .openOrders fetched hfetched, List.mem_of_mem_filter h⟩)
          (hcompleted snapshot)
      obtain ⟨hfilled, hremaining⟩ := hfit entry reports snapshot hread hlisted hmem hreported
      have hlimit : EscalatedIn settings τ entry request.newLimitPrice ∧
          entry.quantity * request.newLimitPrice ≤ settings.maxOrderNotionalUsd + cashTolerance :=
        hof.limit.escalates hsource rfl rfl rfl rfl rfl
      obtain ⟨hescalated, hceiling⟩ := hlimit
      refine ⟨?_, entry, hread, href, hescalated⟩
      obtain ⟨hpart, hle⟩ := openQuantity_part seen hfilled hremaining
      rw [hof.quantity]
      exact part_within hpart hle hceiling
    | _ => trivial
  | _ => trivial

end Turn

section Commands

variable {settings : Settings} {isIbkr hasReplacement hasHistory : Bool} {τ : List (Event sig)}

/-- A pass keeps the ceiling. -/
theorem reconcile_withinCeiling (hsource : settings.executionPriceSource = .ibkr)
    (hfit : ReportsFit τ) :
    (protocolManager settings isIbkr hasReplacement hasHistory).reconcile.Meets (S := sig)
      (AnsweredIn τ) (Op.WithinCeiling settings τ) fun _ => True := by
  refine reconcile_meets_of (R := ReadIn τ)
    (O := fun openSnapshots => ∃ fetched,
      (⟨.broker .fetchOpenOrderSnapshots, .ok fetched⟩ : Event sig) ∈ τ ∧
        openSnapshots = ExecutionManager.referenced fetched)
    (H := fun _ history => ∀ snapshot ∈ history.toOption.getD [], ∃ reports, ListedIn τ reports ∧
      snapshot ∈ reports) trivial trivial (fun store hstore row hrow => ⟨store, hstore, hrow⟩)
    (fun _ _ _ _ _ _ => trivial) ?_ (fun entries openSnapshots _ =>
      meets_completedSnapshots_listed τ trivial (fun _ _ => trivial) entries openSnapshots) ?_
  · exact (Prog.meets_perform (S := sig) (o := Op.broker .fetchOpenOrderSnapshots) trivial).mono
      (fun _ ho => ho) fun fetched h => ⟨fetched, h, rfl⟩
  · rintro _ history recovered now entry ⟨fetched, hfetched, rfl⟩ hhistory hread _
    exact (meets_handleEntry_ofTurn τ history recovered now).mono
      (fun o ho => ho.withinCeiling hsource hfit hread hfetched hhistory) fun _ _ => trivial

/-- A stale-order check keeps the ceiling. -/
theorem checkStaleOrders_withinCeiling (hsource : settings.executionPriceSource = .ibkr)
    (hfit : ReportsFit τ) (sessionDate runId : String) :
    ((protocolManager settings isIbkr hasReplacement hasHistory).checkStaleOrders sessionDate
      runId).Meets (S := sig) (AnsweredIn τ) (Op.WithinCeiling settings τ) fun _ => True := by
  have hcancel : ∀ orderId, (askBroker (.cancelOrder orderId)).Uses (S := sig)
      (Op.WithinCeiling settings τ) := fun orderId => Prog.uses_perform (S := sig) trivial
  exact checkStaleOrders_meets (R := fun _ => True) trivial (fun _ _ _ _ => trivial)
    (reconcile_withinCeiling hsource hfit) hcancel (fun _ _ _ _ _ => trivial) sessionDate runId

/-- An attempt keeps the ceiling. -/
theorem submitPlan_withinCeiling (hsource : settings.executionPriceSource = .ibkr)
    (plan : RebalancePlan) :
    ((protocolManager settings isIbkr hasReplacement hasHistory).submitPlan plan
      (some observe)).Meets (S := sig) (AnsweredIn τ) (Op.WithinCeiling settings τ)
      fun _ => True := by
  have htolerance : 0 ≤ cashTolerance := by decide +kernel
  have hresult : ∀ trade result, (recordResult plan trade result).Meets (S := sig) (AnsweredIn τ)
      (Op.WithinCeiling settings τ) fun _ => True :=
    fun _ _ => meets_recordResult trivial trivial (fun _ _ _ _ _ _ => trivial) fun _ => trivial
  have hnotified : ∀ trade result, (notify (some observe) trade result).Meets (S := sig)
      (AnsweredIn τ) (Op.WithinCeiling settings τ) fun _ => True :=
    fun trade result => show (observe trade result).Meets (S := sig) (AnsweredIn τ)
      (Op.WithinCeiling settings τ) fun _ => True from .of_uses (Prog.uses_perform trivial)
  have hm : AttemptMeets (protocolManager settings isIbkr hasReplacement hasHistory) plan
      (some observe) (AnsweredIn τ) (Op.WithinCeiling settings τ) (fun _ => True)
      (Capped settings) := {
    repriced := fun _ _ _ h => h.capped
    unpriced := fun hnot => absurd hsource hnot
    trimmed := fun _ _ h htrim => htrim.capped h
    planned := fun _ _ => trivial
    result := fun trade result _ => hresult trade result
    notified := hnotified
    quotes := fun _ => meets_askBroker trivial
    account := meets_askBroker trivial
    sleep := fun _ => trivial
    submit := by
      intro trades htrades
      apply meets_protocolSubmit (fun trade _ result => hresult trade result) hnotified
      · intro call hcall
        cases call with
        | submitTrades => exact hcall.elim
        | replaceOrder => exact hcall.elim
        | submitReplacement => exact hcall.elim
        | _ => trivial
      · intro trade hmem
        obtain ⟨_, limit, hlimit, _, hceiling⟩ := htrades trade hmem
        exact ⟨limit, hlimit, by linarith⟩ }
  exact submitPlan_meets trivial hm

end Commands

/-- Whatever a process does on any ledger, every order it hands over keeps the order ceiling, and
every replacement is priced within the bounds of its row. -/
theorem orders_within_ceiling (store : OrderStore) (step : Step)
    (hsource : step.settings.executionPriceSource = .ibkr)
    (hfit : ReportsFit (step.run store).trace) :
    ∀ event ∈ (step.run store).trace,
      event.op.WithinCeiling step.settings (step.run store).trace := by
  have hprogram : step.program.Meets (S := sig) (AnsweredIn (step.run store).trace)
      (Op.WithinCeiling step.settings (step.run store).trace) fun _ => True := by
    unfold Step.program
    cases step.command with
    | reconcile => exact Prog.meets_bind (reconcile_withinCeiling hsource hfit) fun _ _ => trivial
    | checkStaleOrders sessionDate runId =>
      exact Prog.meets_bind (checkStaleOrders_withinCeiling hsource hfit sessionDate runId)
        fun _ _ => trivial
    | submitPlan plan =>
      exact Prog.meets_bind (submitPlan_withinCeiling hsource plan) fun _ _ => trivial
  exact (openWorld.run_of_meets hprogram step.choices (World.of (store.atStart step.newProcess))
    fun _ h => h).1

/-- The rows an event read from the ledger. -/
def readBy : Event sig → List OrderLedgerEntry
  | ⟨.loadLatestEntries, .ok store⟩ => OrderStore.entries store
  | _ => []

/-- The reports an event listed. -/
def listedBy : Event sig → List OpenOrderSnapshot
  | ⟨.broker .fetchOpenOrderSnapshots, .ok reports⟩ => reports
  | ⟨.broker .fetchCompletedOrderSnapshots, .ok reports⟩ => reports
  | ⟨.broker (.fetchIbkrCompletedOrderSnapshots _ _), .ok reports⟩ => reports
  | _ => []

/-- Reports that fit every row fit. -/
theorem reportsFit_of_all {τ : List (Event sig)} (h : ∀ read ∈ τ, ∀ row ∈ readBy read,
    ∀ listed ∈ τ, ∀ snapshot ∈ listedBy listed,
      0 ≤ snapshot.filled ∧ snapshot.remaining ≤ row.quantity) : ReportsFit τ := by
  rintro entry reports snapshot ⟨store, hstore, hentry⟩ hlisted hmem _
  obtain ⟨event, hevent, hreports⟩ : ∃ event ∈ τ, listedBy event = reports := by
    cases hlisted with
    | openOrders reports h => exact ⟨_, h, rfl⟩
    | completed reports h => exact ⟨_, h, rfl⟩
    | ibkrCompleted wanted unresolved reports h => exact ⟨_, h, rfl⟩
  exact h _ hstore entry hentry event hevent snapshot (hreports ▸ hmem)

/-- A working sale of one share at 100. -/
def workingSale : OrderLedgerEntry where
  ledgerKey := "poma:run:0:VTI:SELL"
  orderRef := "poma:run:0:VTI:SELL"
  runId := "run"
  sessionDate := "2026-01-02"
  ticker := "VTI"
  side := .sell
  quantity := 1
  limitPrice := some 100
  referencePrice := some 100
  orderId := some 7
  submittedAt := some (.instant 0)
  lifecycleState := .submitted
  rawStatus := "Submitted"
  remainingQty := 1

/-- A broker with a tight quote below the limit of the sale, which confirms a replacement. -/
def quotingBroker : Oracle where
  clock := 150
  answer
    | .broker (.executionQuotes _) => .ok [("VTI", {
        ticker := "VTI"
        source := "ibkr"
        ageSeconds := some (.finite 1)
        bid := some (.finite (999 / 10))
        ask := some (.finite 100) })]
    | .broker (.replaceOrder request) => .ok (sellReport request.orderRef "Submitted" 8 0)
    | o => (listsOnly 150 [sellReport "poma:run:0:VTI:SELL" "Submitted" 7 0] []).answer o

/-- The pass in which the sale has timed out. -/
def replacingStep : Step where
  settings := .unset
  isIbkr := true
  hasReplacement := true
  hasHistory := false
  command := .reconcile
  choices := List.replicate 30 quotingBroker

/-- The sale is replaced at the bid of the quote. -/
theorem orders_within_ceiling_replaced :
    replaceCalls "poma:run:0:VTI:SELL"
      (replacingStep.run (OrderStore.empty.upsert workingSale)).trace = 1 ∧
    ∀ event ∈ (replacingStep.run (OrderStore.empty.upsert workingSale)).trace,
      event.op.WithinCeiling replacingStep.settings
        (replacingStep.run (OrderStore.empty.upsert workingSale)).trace := by
  refine ⟨by decide +kernel, orders_within_ceiling _ _ (by decide +kernel) ?_⟩
  exact reportsFit_of_all (by decide +kernel)

end Poma

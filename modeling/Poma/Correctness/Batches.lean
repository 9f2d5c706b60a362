import Poma.Correctness.Funding

/-!
# The batches of an attempt

An attempt hands over what its plan approves: at most one batch of sells and then
at most one of buys. Each trade of them is for a planned one of its ticker and
side, of a sell no more shares than planned and of a buy no more than its
notional and half a share.
-/

namespace Poma

open Interaction

/-- A trade that is worth its notional at most. -/
structure ProposedTrade.Valued (trade : ProposedTrade) : Prop where
  quantity_pos : 0 < trade.quantity
  price_pos : 0 < trade.referencePrice
  notional : trade.quantity * trade.referencePrice ≤ trade.notional

/-- A trade that is handed over for a planned one: of a sell no more than is planned, and of a buy
no more than its notional and half a share. -/
structure SentFor (sent planned : ProposedTrade) : Prop where
  ticker : sent.ticker = planned.ticker
  side : sent.side = planned.side
  quantity_pos : 0 < sent.quantity
  sell : planned.side = .sell → sent.quantity ≤ planned.quantity
  price_pos : planned.side = .buy → 0 < sent.referencePrice
  notional_nonneg : planned.side = .buy → 0 ≤ sent.notional
  buy : planned.side = .buy →
    sent.quantity * sent.referencePrice ≤ planned.notional + sent.referencePrice / 2

section Trades

variable {settings : Settings} {trade planned : ProposedTrade}

theorem ProposedTrade.Valued.notional_pos (h : trade.Valued) : 0 < trade.notional :=
  (mul_pos h.quantity_pos h.price_pos).trans_le h.notional

/-- A trade can be handed over as it is planned. -/
theorem ProposedTrade.Valued.sentFor (h : trade.Valued) : SentFor trade trade where
  ticker := rfl
  side := rfl
  quantity_pos := h.quantity_pos
  sell _ := le_refl _
  price_pos _ := h.price_pos
  notional_nonneg _ := h.notional_pos.le
  buy _ := by
    have hnotional := h.notional
    have hprice := h.price_pos
    linarith

/-- A trade at its quote is handed over for the trade. -/
theorem AtQuote.sentFor {quote : ExecutionQuote} {allowWideSpread : Bool} {updated : ProposedTrade}
    (hvalued : trade.Valued)
    (h : AtQuote settings settings.executionRules allowWideSpread quote trade updated) :
    SentFor updated trade := by
  have hkeeps := h.keepsApproval fun _ => hvalued.notional_pos.le
  have hquantity := h.quantity_pos
  have hrule := resolveExecutionRule_cases settings.textCase settings.nonFractionalTickers
    settings.fractionalShares trade.ticker
  have hbought : trade.side = .buy → 0 < updated.referencePrice ∧
      updated.quantity * updated.referencePrice ≤ trade.notional + updated.referencePrice / 2 := by
    intro hside
    have hshares := h.quantity
    rw [repricedQuantity, hside, if_neg (by simp)] at hshares
    rcases hrule with hrule | hrule
    · have hexact : updated.quantity = trade.notional / updated.referencePrice :=
        hshares.trans (roundedExecutionQuantity_fractional hrule _ _)
      have hprice : 0 < updated.referencePrice := by
        rw [hexact] at hquantity
        exact (div_pos_iff_of_pos_left hvalued.notional_pos).mp hquantity
      rw [hexact, div_mul_cancel₀ _ hprice.ne']
      exact ⟨hprice, by linarith⟩
    · have hwhole : updated.quantity = ⌊trade.notional / updated.referencePrice + 1 / 2⌋ :=
        hshares.trans (roundedExecutionQuantity_buy hrule _)
      refine ⟨price_pos_of_shares hvalued.notional_pos ?_, hkeeps.buy hside hrule⟩
      rwa [hwhole] at hquantity
  constructor
  case ticker => exact h.same_order.1
  case side => exact h.same_order.2.1
  case quantity_pos => exact hquantity
  case sell => exact hkeeps.sell
  case price_pos => exact fun hside => (hbought hside).1
  case notional_nonneg =>
    intro hside
    rw [h.notional]
    exact (mul_pos hquantity (hbought hside).1).le
  case buy => exact fun hside => (hbought hside).2

/-- What is handed over for a buy costs nothing less than nothing. -/
theorem SentFor.cash_nonneg (h : SentFor trade planned) : 0 ≤ trade.buyCashRequiredUsd := by
  unfold ProposedTrade.buyCashRequiredUsd ProposedTrade.limitCash
  split
  · exact le_refl _
  · rename_i hside
    have hbuy : planned.side = .buy := h.side.symm.trans (not_not.mp hside)
    have hnotional := h.notional_nonneg hbuy
    split
    · split
      · rename_i hlimit
        exact mul_nonneg (abs_nonneg _) hlimit.le
      · exact hnotional
    · exact hnotional

/-- A trimmed trade is still handed over for the planned one. -/
theorem Trimmed.sentFor {less : ProposedTrade} (h : SentFor trade planned)
    (htrimmed : Trimmed settings trade less) : SentFor less planned := by
  have hunit : 0 ≤ trade.buyCashRequiredUsd / trade.quantity :=
    div_nonneg h.cash_nonneg h.quantity_pos.le
  obtain ⟨shortfall, hshort, hleft, rfl⟩ := htrimmed
  have htolerance : (0 : ℚ) ≤ fillTolerance := by decide +kernel
  have hcash : (0 : ℚ) ≤ cashTolerance := by decide +kernel
  have hcut : 0 ≤ trimCut (resolveExecutionRule trade.ticker settings.executionRules)
      trade.quantity (trade.buyCashRequiredUsd / trade.quantity) shortfall :=
    trimCut_nonneg h.quantity_pos.le hunit (hcash.trans hshort.le)
  have hpositive := htolerance.trans_lt (not_le.mp (not_or.mp hleft).1)
  generalize trimCut (resolveExecutionRule trade.ticker settings.executionRules) trade.quantity
    (trade.buyCashRequiredUsd / trade.quantity) shortfall = cut at hcut hpositive
  constructor
  case ticker => exact h.ticker
  case side => exact h.side
  case quantity_pos => exact hpositive
  case sell =>
    intro hside
    have hsell := h.sell hside
    dsimp only
    linarith
  case price_pos => exact h.price_pos
  case notional_nonneg =>
    intro hside
    exact (mul_pos hpositive (h.price_pos hside)).le
  case buy =>
    intro hside
    have hbuy := h.buy hside
    have hless := mul_nonneg hcut (h.price_pos hside).le
    dsimp only
    linarith

end Trades

/-- A batch that is handed over for some of the planned trades, in their order. -/
abbrev BatchFor (batch planned : List ProposedTrade) : Prop :=
  List.SublistForall₂ SentFor batch planned

section Batches

variable {batch planned : List ProposedTrade}

theorem BatchFor.refl (h : ∀ trade ∈ planned, trade.Valued) : BatchFor planned planned := by
  induction planned with
  | nil => exact .nil
  | cons trade planned ih =>
    apply List.SublistForall₂.cons
    · exact (h trade List.mem_cons_self).sentFor
    · exact ih fun other hother => h other (List.mem_cons_of_mem _ hother)

/-- What is handed over for some of the trades is handed over for them all. -/
theorem BatchFor.of_sublist {some : List ProposedTrade} (h : BatchFor batch some)
    (hsublist : some.Sublist planned) : BatchFor batch planned := by
  obtain ⟨approved, happroved, hsome⟩ := List.sublistForall₂_iff.mp h
  exact List.sublistForall₂_iff.mpr ⟨approved, happroved, hsome.trans hsublist⟩

/-- A trade of the batch may be replaced by another for the same planned trade. -/
theorem BatchFor.set {index : Nat} {trade other : ProposedTrade} (h : BatchFor batch planned)
    (htrade : batch[index]? = some trade) (hother : ∀ t, SentFor trade t → SentFor other t) :
    BatchFor (batch.set index other) planned := by
  induction h generalizing index with
  | nil => exact .nil
  | cons hsent hrest ih =>
    cases index with
    | zero =>
      obtain rfl := Option.some.inj htrade
      exact .cons (hother _ hsent) hrest
    | succ index => exact .cons hsent (ih htrade)
  | cons_right _ ih => exact .cons_right (ih htrade)

/-- The trim leaves a batch for the same trades. -/
theorem trimLoop_batchFor {settings : Settings} {order : List Nat} {trimmed : List ProposedTrade}
    {shortfall : ℚ} (h : BatchFor batch planned)
    (htrimmed : trimLoop settings.executionRules order batch shortfall = .ok (some trimmed)) :
    BatchFor trimmed planned := by
  induction order generalizing batch shortfall with
  | nil =>
    rw [trimLoop] at htrimmed
    split at htrimmed
    · obtain rfl := Option.some.inj (Except.ok.inj htrimmed)
      exact h
    · cases htrimmed
  | cons index order ih =>
    rw [trimLoop] at htrimmed
    split at htrimmed
    · obtain rfl := Option.some.inj (Except.ok.inj htrimmed)
      exact h
    rename_i hshort
    split at htrimmed
    · cases htrimmed
    rename_i trade htrade
    dsimp only at htrimmed
    split at htrimmed
    · cases htrimmed
    split at htrimmed
    · cases htrimmed
    rename_i hleft
    apply ih _ htrimmed
    apply h.set htrade
    intro t hsent
    exact Trimmed.sentFor hsent ⟨shortfall, not_le.mp hshort, hleft, rfl⟩

/-- What a repricing lets through is for the trades it was given. -/
theorem Split.batchFor {Sent : ProposedTrade → ProposedTrade → Prop}
    {Blocked : ProposedTrade → OrderResult → Prop}
    {blocked : List (ProposedTrade × OrderResult)} (h : Split Sent Blocked planned batch blocked)
    (hsent : ∀ trade ∈ planned, ∀ updated, Sent trade updated → SentFor updated trade) :
    BatchFor batch planned := by
  induction h with
  | nil => exact .nil
  | sent hfirst _ ih =>
    apply List.SublistForall₂.cons
    · exact hsent _ List.mem_cons_self _ hfirst
    · exact ih fun trade htrade => hsent trade (List.mem_cons_of_mem _ htrade)
  | blocked _ _ ih =>
    apply List.SublistForall₂.cons_right
    exact ih fun trade htrade => hsent trade (List.mem_cons_of_mem _ htrade)

theorem tagTrades_cons (store : OrderStore) (runId : String) (offset : Nat) (trade : ProposedTrade)
    (rest : List ProposedTrade) : tagTrades store runId offset (trade :: rest) =
      { trade with orderRef := some (tagRef store runId offset trade) } ::
        tagTrades store runId (offset + 1) rest := by
  unfold tagTrades
  rw [List.mapIdx_cons]
  congr 2
  ext index other
  rw [Nat.add_assoc, Nat.add_comm 1 index]

/-- Tagging leaves what a batch is for. -/
theorem BatchFor.of_tagged {store : OrderStore} {runId : String} {offset : Nat}
    (h : BatchFor batch (tagTrades store runId offset planned)) : BatchFor batch planned := by
  induction planned generalizing batch offset with
  | nil => exact h
  | cons trade rest ih =>
    rw [tagTrades_cons] at h
    cases h with
    | nil => exact .nil
    | cons hsent hrest =>
      apply List.SublistForall₂.cons _ (ih hrest)
      exact ⟨hsent.ticker, hsent.side, hsent.quantity_pos, hsent.sell, hsent.price_pos,
        hsent.notional_nonneg, hsent.buy⟩
    | cons_right hrest => exact .cons_right (ih hrest)

end Batches

/-- Trades of which at most one batch is handed over, once and for some of them. -/
def HandsFor (planned : List ProposedTrade) (τ : List (Event sig)) : Prop :=
  ∃ batch, BatchFor batch planned ∧ (handedBatches τ).Sublist [batch]

section Stages

variable {W : Type} {E : Environment W} {settings : Settings}
  {isIbkr hasReplacement hasHistory reported : Bool} {plan : RebalancePlan}
  {planned trades : List ProposedTrade} {τ more : List (Event sig)}

theorem handedBatches_append (τ more : List (Event sig)) :
    handedBatches (τ ++ more) = handedBatches τ ++ handedBatches more :=
  List.filterMap_append

theorem handedBatches_nothing (h : ∀ event ∈ τ, Op.HandsNothing event.op) :
    handedBatches τ = [] :=
  List.filterMap_eq_nil_iff.mpr h

theorem HandsFor.nothing (h : ∀ event ∈ τ, Op.HandsNothing event.op) : HandsFor planned τ := by
  refine ⟨[], .nil, ?_⟩
  rw [handedBatches_nothing h]
  exact List.nil_sublist _

theorem HandsFor.after (h : HandsFor planned more)
    (hnothing : ∀ event ∈ τ, Op.HandsNothing event.op) : HandsFor planned (τ ++ more) := by
  unfold HandsFor at h ⊢
  rwa [handedBatches_append, handedBatches_nothing hnothing, List.nil_append]

theorem HandsFor.before (h : HandsFor planned τ)
    (hnothing : ∀ event ∈ more, Op.HandsNothing event.op) : HandsFor planned (τ ++ more) := by
  unfold HandsFor at h ⊢
  rwa [handedBatches_append, handedBatches_nothing hnothing, List.append_nil]

/-- The reports of a submission hand nothing over. -/
theorem reportStatuses_handsNothing (trades : List ProposedTrade) (n : Nat) :
    (reportStatuses trades (wrapCallback plan (callbackOf reported)) n).Uses (S := sig)
      Op.HandsNothing := by
  induction n with
  | zero => trivial
  | succ n ih =>
    rw [reportStatuses]
    have hasked : (askBroker (.nextStatus trades)).Uses (S := sig) Op.HandsNothing :=
      askBroker_handsNothing trivial
    apply Prog.uses_bind hasked
    intro (report : Fin trades.length × OrderResult)
    apply Prog.uses_bind _ fun _ => ih
    apply Prog.uses_catching
    · exact Prog.uses_bind (recordResult_handsNothing _ _) fun _ => notify_handsNothing _ _
    · exact fun e => askBroker_handsNothing trivial

/-- A submission hands its batch over once. -/
theorem emits_submitOnce (trades : List ProposedTrade) :
    E.system.Emits ((protocolBroker isIbkr hasReplacement hasHistory).submitTrades trades
      (some (wrapCallback plan (callbackOf reported))))
      fun _ τ => (handedBatches τ).Sublist [trades] := by
  have honce : E.system.Emits (askBroker (.submitTrades trades))
      fun _ τ => (handedBatches τ).Sublist [trades] := by
    apply System.emits_perform (S := sig)
    · exact List.nil_sublist _
    · exact fun _ => List.Sublist.refl _
    · exact fun _ => List.Sublist.refl _
  have hrest : ∀ n : Nat, E.system.Emits
      ((reportStatuses trades (wrapCallback plan (callbackOf reported)) n).bind fun _ =>
        askBroker .submitResults) fun _ τ => ∀ event ∈ τ, Op.HandsNothing event.op := by
    intro n
    apply System.emits_of_uses
    exact Prog.uses_bind (reportStatuses_handsNothing trades n) fun _ =>
      askBroker_handsNothing trivial
  apply System.emits_then honce hrest
  · intro τ more hτ hmore
    rwa [handedBatches_append, handedBatches_nothing hmore, List.append_nil]
  · exact fun _ hτ => hτ

/-- Trades that are sent are handed over once. -/
theorem emits_sendOnce (trades : List ProposedTrade) (results : Dict OrderResult) :
    E.system.Emits ((protocolManager settings isIbkr hasReplacement hasHistory).sendTrades plan
      trades (callbackOf reported) results)
      fun _ τ => (handedBatches τ).Sublist [trades] := by
  unfold ExecutionManager.sendTrades
  by_cases hnil : trades = []
  · rw [if_pos hnil]
    exact System.emits_ret (List.nil_sublist _)
  rw [if_neg hnil]
  apply System.emits_meets_then (P := fun τ => (handedBatches τ).Sublist [trades])
    (Prog.uses_forEach fun trade _ => recordResult_handsNothing trade _)
  · intro _ _
    apply System.emits_then (Q := fun τ => ∀ event ∈ τ, Op.HandsNothing event.op)
      (emits_submitOnce trades)
    · intro phaseResults
      apply System.emits_of_uses (S := sig)
      apply Prog.uses_bind
      · exact Prog.uses_forEach fun pair _ => recordResult_handsNothing pair.1 pair.2
      · intro _
        split <;> trivial
    · intro τ more hτ hmore
      rwa [handedBatches_append, handedBatches_nothing hmore, List.append_nil]
    · exact fun _ hτ => hτ
  · intro τ more hτ hmore
    rwa [handedBatches_append, handedBatches_nothing hτ, List.nil_append]
  · intro τ hτ
    rw [handedBatches_nothing hτ]
    exact List.nil_sublist _

/-- What a repricing lets through is for the trades it was given, and it hands nothing over. -/
theorem emits_repriced (hdistinct : (trades.map (·.ticker)).Nodup)
    (hvalued : ∀ trade ∈ trades, trade.Valued) :
    E.system.Emits ((protocolManager settings isIbkr hasReplacement hasHistory).repriceForExecution
      plan trades (callbackOf reported)) fun out τ => (∀ event ∈ τ, Op.HandsNothing event.op) ∧
        ∀ r, out = .returned r → BatchFor r.1 trades := by
  apply (System.emits_of_uses (repriceForExecution_handsNothing trades)).and
  by_cases hsource : settings.executionPriceSource = .ibkr
  · refine ⟨fun cs s => ?_⟩
    have hwp : E.system.wp ((protocolManager settings isIbkr hasReplacement
        hasHistory).repriceForExecution plan trades (callbackOf reported))
        (fun out τ s' => CleanRepricing settings trades out τ s'.ledger) [] s :=
      wp_repriceForExecution E hsource hdistinct
        (fun trade htrade _ => (hvalued trade htrade).notional_pos.le) rfl s
    intro r hreturned
    apply ((E.system.wp_run hwp cs).returned r.1 r.2 hreturned).batchFor
    rintro trade htrade updated ⟨hfresh, -⟩
    obtain ⟨_, _, _, _, _, _, _, _, _, hquote, _⟩ := hfresh
    exact hquote.sentFor (hvalued trade htrade)
  · have hskip : (protocolManager settings isIbkr hasReplacement hasHistory).repriceForExecution
        plan trades (callbackOf reported) = .ret (trades, []) := if_pos (Or.inl hsource)
    rw [hskip]
    apply System.emits_ret
    intro r hreturned
    obtain rfl := Outcome.returned.inj hreturned
    exact BatchFor.refl hvalued

/-- A phase with repricing hands over at most one batch, for the trades it was given. -/
theorem emits_sellPhase (hdistinct : (trades.map (·.ticker)).Nodup)
    (hvalued : ∀ trade ∈ trades, trade.Valued) (results : Dict OrderResult) :
    E.system.Emits ((protocolManager settings isIbkr hasReplacement hasHistory).submitPhase plan
      trades (callbackOf reported) true results) fun _ τ => HandsFor trades τ := by
  unfold ExecutionManager.submitPhase
  by_cases hnil : trades = []
  · rw [if_pos hnil]
    exact System.emits_ret (HandsFor.nothing (List.forall_mem_nil _))
  rw [if_neg hnil, if_pos rfl]
  apply System.emits_bind (emits_repriced hdistinct hvalued)
  · rintro ⟨submittable, blocked⟩ τ ⟨hnothing, hreturned⟩
    have hbatch : BatchFor submittable trades := hreturned _ rfl
    apply (emits_sendOnce submittable _).mono
    intro _ more hmore
    exact HandsFor.after ⟨submittable, hbatch, hmore⟩ hnothing
  · exact fun _ τ hτ => HandsFor.nothing hτ.1
  · exact fun τ hτ => HandsFor.nothing hτ.1

/-- The fit to the refreshed cash keeps what the buys are for. -/
theorem meets_fitBuys_batchFor {buys : List ProposedTrade} (h : BatchFor buys planned) :
    ((protocolManager settings isIbkr hasReplacement hasHistory).fitBuysToRefreshedCash
      buys).Meets (S := sig) (fun _ _ => True) Op.HandsNothing fun r => BatchFor r.1 planned := by
  unfold ExecutionManager.fitBuysToRefreshedCash
  dsimp only
  split
  · exact h
  have hread : (askBroker .accountSnapshot).attempt.Uses (S := sig) Op.HandsNothing :=
    Prog.uses_attempt (askBroker_handsNothing trivial)
  apply Prog.meets_bind hread
  intro read _
  cases read with
  | error e => exact h
  | ok refreshed =>
    dsimp only
    split
    · split
      · exact h
      split
      · exact h
      apply Prog.meets_bind (Prog.meets_ofExcept fun r hr => hr)
      intro r hr
      cases r with
      | none => exact h
      | some trimmed =>
        dsimp only
        split
        · exact h
        · exact trimLoop_batchFor h hr
    · exact h

/-- The buy phase hands over at most one batch, for the buys it was given. -/
theorem emits_buyPhase (hdistinct : (trades.map (·.ticker)).Nodup)
    (hvalued : ∀ trade ∈ trades, trade.Valued) (results : Dict OrderResult) :
    E.system.Emits ((protocolManager settings isIbkr hasReplacement hasHistory).buyPhase plan
      trades (callbackOf reported) results) fun _ τ => HandsFor trades τ := by
  unfold ExecutionManager.buyPhase
  by_cases hnil : trades = []
  · rw [if_pos hnil]
    exact System.emits_ret (HandsFor.nothing (List.forall_mem_nil _))
  rw [if_neg hnil]
  apply System.emits_bind (emits_repriced hdistinct hvalued)
  · rintro ⟨repriced, blocked⟩ τ ⟨hnothing, hreturned⟩
    have hbatch : BatchFor repriced trades := hreturned _ rfl
    have hfunded : E.system.Emits
        ((protocolManager settings isIbkr hasReplacement hasHistory).spend plan
          (callbackOf reported) repriced (ExecutionManager.putResults results blocked))
        fun _ τ => HandsFor trades τ := by
      unfold ExecutionManager.spend
      apply System.emits_meets_then (P := HandsFor trades) (meets_fitBuys_batchFor hbatch)
      · rintro ⟨buys, reason⟩ hfitted
        cases reason with
        | some reason =>
          apply (emits_blockBuys reason buys _).mono
          intro _ more hmore
          apply HandsFor.nothing
          intro event hevent
          by_contra hhands
          obtain ⟨trades, htrades⟩ := Option.ne_none_iff_exists'.mp hhands
          exact hmore.nothing event hevent trades htrades
        | none =>
          dsimp only
          unfold ExecutionManager.submitPhase
          split
          · exact System.emits_ret (HandsFor.nothing (List.forall_mem_nil _))
          · rw [if_neg Bool.false_ne_true]
            exact (emits_sendOnce buys _).mono fun _ more hmore => ⟨buys, hfitted, hmore⟩
      · exact fun τ more hτ hmore => hmore.after hτ
      · exact fun τ hτ => HandsFor.nothing hτ
    exact hfunded.mono fun _ more hmore => hmore.after hnothing
  · exact fun _ τ hτ => HandsFor.nothing hτ.1
  · exact fun τ hτ => HandsFor.nothing hτ.1

/-- The part of an attempt before it prices anything: the fresh sells and buys, and the results of
the others. -/
def freshTrades (plan : RebalancePlan) (statusCallback : Option StatusCallback) :
    M (List ProposedTrade × List ProposedTrade × Dict OrderResult) :=
  (tag plan.runId plan.sells 0).bind fun taggedSells =>
  (tag plan.runId plan.buys plan.sells.length).bind fun taggedBuys =>
  loadLatest.bind fun store =>
  let latestByRef := store.getLatestMany ((taggedSells ++ taggedBuys).map (·.ref))
  (planPhase plan statusCallback latestByRef taggedSells []).bind fun (freshSells, results) =>
  (planPhase plan statusCallback latestByRef taggedBuys results).bind fun (freshBuys, results) =>
  .ret (freshSells, freshBuys, results)

/-- An attempt is its fresh trades, its sell phase, its buy phase and the results of its trades. -/
theorem submitPlan_freshTrades (manager : ExecutionManager) (callback : Option StatusCallback) :
    manager.submitPlan plan callback = (freshTrades plan callback).bind fun r =>
      (manager.submitPhase plan r.1 callback true r.2.2).bind fun results =>
      (manager.buyPhase plan r.2.1 callback results).bind fun results =>
      Prog.ofExcept (S := sig) (ExecutionManager.collectResults results plan.trades) := by
  unfold ExecutionManager.submitPlan freshTrades
  simp only [Prog.bind_assoc, Prog.ret_bind]

theorem meets_planPhase_sublist (latest : List OrderLedgerEntry) (trades : List ProposedTrade)
    (results : Dict OrderResult) :
    (planPhase plan (callbackOf reported) latest trades results).Meets (S := sig)
      (fun _ _ => True) Op.HandsNothing fun r => r.1.Sublist trades := by
  induction trades generalizing results with
  | nil => exact List.Sublist.refl _
  | cons trade rest ih =>
    rw [planPhase]
    cases idempotentReplay trade latest with
    | some replay =>
      apply Prog.meets_bind (notify_handsNothing _ _)
      intro _ _
      exact (ih _).mono (fun _ h => h) fun _ h => h.cons _
    | none =>
      have hplanned : (recordPlanned plan trade).Uses (S := sig)
          Op.HandsNothing := meets_upsertEntry rfl
      apply Prog.meets_bind hplanned
      intro _ _
      apply Prog.meets_bind (ih _)
      intro r hr
      exact hr.cons_cons _

/-- Some trades of a plan, tagged. -/
def Fresh (plan : List ProposedTrade) (fresh : List ProposedTrade) : Prop :=
  ∃ store runId offset, fresh.Sublist (tagTrades store runId offset plan)

theorem meets_tag_tagged (runId : String) (trades : List ProposedTrade) (offset : Nat) :
    (tag runId trades offset).Meets (S := sig) (fun _ _ => True) Op.HandsNothing fun tagged =>
      ∃ store, tagged = tagTrades store runId offset trades := by
  have hload : loadLatest.Uses (S := sig) Op.HandsNothing := Prog.uses_perform (S := sig) rfl
  apply Prog.meets_bind hload
  intro store _
  exact ⟨store, rfl⟩

theorem meets_freshTrades :
    (freshTrades plan (callbackOf reported)).Meets (S := sig) (fun _ _ => True) Op.HandsNothing
      fun r => Fresh plan.sells r.1 ∧ Fresh plan.buys r.2.1 := by
  have hload : loadLatest.Uses (S := sig) Op.HandsNothing := Prog.uses_perform (S := sig) rfl
  unfold freshTrades
  apply Prog.meets_bind (meets_tag_tagged _ _ _)
  rintro _ ⟨first, rfl⟩
  apply Prog.meets_bind (meets_tag_tagged _ _ _)
  rintro _ ⟨second, rfl⟩
  apply Prog.meets_bind hload
  intro store _
  apply Prog.meets_bind (meets_planPhase_sublist _ _ _)
  intro sells hsells
  apply Prog.meets_bind (meets_planPhase_sublist _ _ _)
  intro buys hbuys
  exact ⟨⟨first, _, _, hsells⟩, second, _, _, hbuys⟩

section Fresh

variable {fresh batch : List ProposedTrade}

theorem Fresh.distinct (h : Fresh planned fresh) (hdistinct : (planned.map (·.ticker)).Nodup) :
    (fresh.map (·.ticker)).Nodup := by
  obtain ⟨store, runId, offset, hsublist⟩ := h
  rw [← tagTrades_tickers store runId offset planned] at hdistinct
  exact hdistinct.sublist (hsublist.map _)

theorem Fresh.valued (h : Fresh planned fresh) (hvalued : ∀ trade ∈ planned, trade.Valued) :
    ∀ trade ∈ fresh, trade.Valued := by
  obtain ⟨store, runId, offset, hsublist⟩ := h
  intro trade htrade
  obtain ⟨index, hindex, rfl⟩ := List.mem_mapIdx.mp (hsublist.subset htrade)
  obtain ⟨hquantity, hprice, hnotional⟩ := hvalued _ (List.getElem_mem hindex)
  exact ⟨hquantity, hprice, hnotional⟩

/-- What is handed over for fresh trades is handed over for the planned ones. -/
theorem Fresh.handsFor (h : Fresh planned fresh) (hhands : HandsFor fresh τ) :
    HandsFor planned τ := by
  obtain ⟨store, runId, offset, hsublist⟩ := h
  obtain ⟨batch, hbatch, hbatches⟩ := hhands
  exact ⟨batch, (hbatch.of_sublist hsublist).of_tagged, hbatches⟩

end Fresh

/-- At most one batch for the sells of a plan, and then at most one for its buys. -/
def HandsPlan (trades : List ProposedTrade) (τ : List (Event sig)) : Prop :=
  ∃ sells buys, BatchFor sells (trades.filter (·.side = .sell)) ∧
    BatchFor buys (trades.filter (·.side = .buy)) ∧ (handedBatches τ).Sublist [sells, buys]

/-- A property of traces that operations which hand nothing over neither make nor break. -/
structure Framed (P : List (Event sig) → Prop) : Prop where
  nothing : ∀ {τ}, (∀ event ∈ τ, Op.HandsNothing event.op) → P τ
  after : ∀ {τ more}, (∀ event ∈ τ, Op.HandsNothing event.op) → P more → P (τ ++ more)
  before : ∀ {τ more}, P τ → (∀ event ∈ more, Op.HandsNothing event.op) → P (τ ++ more)

theorem handsPlan_framed (trades : List ProposedTrade) : Framed (HandsPlan trades) where
  nothing hτ := by
    refine ⟨[], [], .nil, .nil, ?_⟩
    rw [handedBatches_nothing hτ]
    exact List.nil_sublist _
  after hτ hmore := by
    unfold HandsPlan at hmore ⊢
    rwa [handedBatches_append, handedBatches_nothing hτ, List.nil_append]
  before hτ hmore := by
    unfold HandsPlan at hτ ⊢
    rwa [handedBatches_append, handedBatches_nothing hmore, List.append_nil]

/-- An attempt hands over what its plan approves. -/
theorem emits_submitPlan (hdistinct : (plan.trades.map (·.ticker)).Nodup)
    (hvalued : ∀ trade ∈ plan.trades, trade.Valued) :
    E.system.Emits ((protocolManager settings isIbkr hasReplacement hasHistory).submitPlan plan
      (callbackOf reported)) fun _ τ => HandsPlan plan.trades τ := by
  have hvaluedSells : ∀ trade ∈ plan.sells, trade.Valued := fun trade htrade =>
    hvalued trade (List.mem_filter.mp htrade).1
  have hvaluedBuys : ∀ trade ∈ plan.buys, trade.Valued := fun trade htrade =>
    hvalued trade (List.mem_filter.mp htrade).1
  have hdistinctSells : (plan.sells.map (·.ticker)).Nodup :=
    hdistinct.sublist (List.filter_sublist.map _)
  have hdistinctBuys : (plan.buys.map (·.ticker)).Nodup :=
    hdistinct.sublist (List.filter_sublist.map _)
  have hnothing : HandsFor plan.buys [] := HandsFor.nothing (List.forall_mem_nil _)
  have hboth : ∀ τ more, HandsFor plan.sells τ → HandsFor plan.buys more →
      HandsPlan plan.trades (τ ++ more) := by
    rintro τ more ⟨sells, hsells, hsold⟩ ⟨buys, hbuys, hbought⟩
    refine ⟨sells, buys, hsells, hbuys, ?_⟩
    rw [handedBatches_append]
    exact hsold.append hbought
  rw [submitPlan_freshTrades]
  apply System.emits_meets_then (P := HandsPlan plan.trades) meets_freshTrades
  · rintro ⟨sells, buys, results⟩ ⟨hsells, hbuys⟩
    apply System.emits_then (P := HandsFor plan.sells) (Q := HandsFor plan.buys)
    · apply (emits_sellPhase (hsells.distinct hdistinctSells) (hsells.valued hvaluedSells) _).mono
      exact fun _ _ hτ => hsells.handsFor hτ
    · intro results
      apply System.emits_then (P := HandsFor plan.buys)
        (Q := fun τ => ∀ event ∈ τ, Op.HandsNothing event.op)
      · apply (emits_buyPhase (hbuys.distinct hdistinctBuys) (hbuys.valued hvaluedBuys) _).mono
        exact fun _ _ hτ => hbuys.handsFor hτ
      · exact fun _ => System.emits_of_uses (Prog.uses_ofExcept _)
      · exact fun _ _ hτ hmore => hτ.before hmore
      · exact fun _ hτ => hτ
    · exact hboth
    · intro τ hτ
      have hall := hboth τ [] hτ hnothing
      rwa [List.append_nil] at hall
  · exact fun _ _ => (handsPlan_framed _).after
  · exact fun _ => (handsPlan_framed _).nothing

end Stages

end Poma

import Poma.Engine.Rebalance
import Poma.Correctness.Repricing

/-!
# When an attempt is graded completed

A trade that an earlier attempt of the run has sent is answered by a replay,
which carries what the ledger knows of the order. The grading passes over every
replay, so an attempt is graded completed whatever its replays say.
-/

namespace Poma

open Interaction

/-- A result that keeps an attempt from being graded completed. -/
def OrderResult.Hinders (result : OrderResult) : Prop :=
  (result.isIdempotentReplay = false ∧
    (result.status ∉ acceptedStatuses ∨ result.hasMessage = true)) ∨
  (result.status ∈ ["Submitted", "PreSubmitted"] ∧ ¬result.FullyFilled)

instance (result : OrderResult) : Decidable result.Hinders :=
  inferInstanceAs (Decidable (_ ∨ _))

/-- An attempt is graded completed exactly when no result hinders it. -/
theorem executionStatus_completed_iff {results : List OrderResult} :
    executionStatus results = .completed ↔ ∀ result ∈ results, ¬result.Hinders := by
  have hissues : orderResultsHaveIssues results = true ↔ ∃ result ∈ results,
      result.isIdempotentReplay = false ∧
        (result.status ∉ acceptedStatuses ∨ result.hasMessage = true) := by
    simp [orderResultsHaveIssues]
  have hpending : (results.any fun result => result.status ∈ ["Submitted", "PreSubmitted"] &&
      result.filled + fillTolerance < result.quantity) = true ↔ ∃ result ∈ results,
        result.status ∈ ["Submitted", "PreSubmitted"] ∧ ¬result.FullyFilled := by
    simp [OrderResult.FullyFilled]
  have hnone : orderResultsHaveNoAcceptedOrders results = true →
      orderResultsHaveIssues results = true := by
    intro h
    rw [orderResultsHaveNoAcceptedOrders, Bool.and_eq_true, List.all_eq_true] at h
    obtain ⟨hne, hall⟩ := h
    obtain ⟨result, hresult⟩ := List.exists_mem_of_ne_nil results (by simpa using hne)
    have hrefused := hall result hresult
    simp only [Bool.and_eq_true, Bool.not_eq_true', decide_eq_true_eq] at hrefused
    exact hissues.mpr ⟨result, hresult, hrefused.1.1, Or.inl hrefused.2⟩
  unfold executionStatus
  constructor
  · intro h
    split at h
    · cases h
    split at h
    · cases h
    rename_i hnoIssues
    split at h
    · cases h
    rename_i hnoPending
    intro result hresult hhinders
    rcases hhinders with hissue | hunfilled
    · exact hnoIssues (hissues.mpr ⟨result, hresult, hissue⟩)
    · exact hnoPending (hpending.mpr ⟨result, hresult, hunfilled⟩)
  · intro h
    have hnoIssues : ¬orderResultsHaveIssues results = true := by
      intro hany
      obtain ⟨result, hresult, hissue⟩ := hissues.mp hany
      exact h result hresult (Or.inl hissue)
    rw [if_neg fun hall => hnoIssues (hnone hall), if_neg hnoIssues, if_neg]
    intro hany
    obtain ⟨result, hresult, hunfilled⟩ := hpending.mp hany
    exact h result hresult (Or.inr hunfilled)

/-- A result that does not hinder is full, unless it is a replay or says its order is filled. -/
theorem OrderResult.fullyFilled_of_not_hinders {result : OrderResult} (h : ¬result.Hinders)
    (hfull : result.status ∈ ["Filled", idempotentReplayStatus] → result.FullyFilled) :
    result.FullyFilled := by
  obtain ⟨hissue, hpending⟩ := not_or.mp h
  cases hreplay : result.isIdempotentReplay with
  | true =>
    apply hfull
    rw [isIdempotentReplay, decide_eq_true_eq] at hreplay
    simp [hreplay]
  | false =>
    have haccepted : result.status ∈ acceptedStatuses := by
      by_contra hother
      exact hissue ⟨hreplay, Or.inl hother⟩
    by_contra hunfilled
    simp only [acceptedStatuses, List.mem_cons, List.not_mem_nil, or_false] at haccepted
    rcases haccepted with hstatus | hstatus | hstatus
    · exact hpending ⟨by simp [hstatus], hunfilled⟩
    · exact hpending ⟨by simp [hstatus], hunfilled⟩
    · exact hunfilled (hfull (by simp [hstatus]))

/-- What a program returns, whatever is answered to it. -/
abbrev Returns {α : Type} (R : α → Prop) (p : M α) : Prop :=
  p.Meets (S := sig) (fun _ _ => True) (fun _ => True) R

section Answers

variable {plan : RebalancePlan} {callback : Option StatusCallback} {latest : List OrderLedgerEntry}

/-- The results once the replays of a list of trades are added to them. -/
def withReplays (latest : List OrderLedgerEntry) (trades : List ProposedTrade)
    (results : Dict OrderResult) : Dict OrderResult :=
  trades.foldl (fun d trade =>
    ((idempotentReplay trade latest).map (Dict.put d trade.ticker)).getD d) results

theorem lookup_withReplays_of_ne {key : String} {trades : List ProposedTrade}
    (h : ∀ trade ∈ trades, trade.ticker ≠ key) (results : Dict OrderResult) :
    List.lookup key (withReplays latest trades results) = List.lookup key results := by
  unfold withReplays
  induction trades generalizing results with
  | nil => rfl
  | cons trade rest ih =>
    obtain ⟨hne, hrest⟩ := List.forall_mem_cons.mp h
    rw [List.foldl_cons, ih hrest]
    cases idempotentReplay trade latest with
    | none => rfl
    | some replay => rw [Option.map_some, Option.getD_some, Dict.lookup_put, if_neg hne.symm]

theorem lookup_withReplays {trades : List ProposedTrade} {trade : ProposedTrade}
    {replay : OrderResult} (hnodup : (trades.map (·.ticker)).Nodup) (hmem : trade ∈ trades)
    (hreplay : idempotentReplay trade latest = some replay) (results : Dict OrderResult) :
    List.lookup trade.ticker (withReplays latest trades results) = some replay := by
  induction trades generalizing results with
  | nil => cases hmem
  | cons first rest ih =>
    rw [List.map_cons, List.nodup_cons] at hnodup
    rcases List.mem_cons.mp hmem with rfl | hrest
    · have hothers : ∀ other ∈ rest, other.ticker ≠ trade.ticker := by
        intro other hother hsame
        exact hnodup.1 (hsame ▸ List.mem_map_of_mem hother)
      have hput : List.lookup trade.ticker (withReplays latest rest
          (Dict.put results trade.ticker replay)) = some replay := by
        rw [lookup_withReplays_of_ne hothers, Dict.lookup_put, if_pos rfl]
      unfold withReplays at hput ⊢
      rw [List.foldl_cons, hreplay]
      exact hput
    · exact ih hnodup.2 hrest _

/-- The plan phase answers by the replays, and lets the other trades through. -/
theorem returns_planPhase (trades : List ProposedTrade) (results : Dict OrderResult) :
    Returns (fun r => (∀ trade ∈ r.1, trade ∈ trades ∧ idempotentReplay trade latest = none) ∧
      r.2 = withReplays latest trades results) (planPhase plan callback latest trades results) := by
  induction trades generalizing results with
  | nil => exact ⟨List.forall_mem_nil _, rfl⟩
  | cons trade rest ih =>
    have hany : ∀ {α : Type} (p : M α), Returns (fun _ => True) p := fun p => p.uses_all
    rw [planPhase]
    cases hreplay : idempotentReplay trade latest with
    | some replay =>
      apply Prog.meets_bind (hany _)
      intro _ _
      apply (ih _).mono (fun _ ho => ho)
      rintro ⟨fresh, answered⟩ ⟨hfresh, hanswered⟩
      constructor
      · intro other hother
        exact ⟨List.mem_cons_of_mem _ (hfresh other hother).1, (hfresh other hother).2⟩
      · rw [hanswered, withReplays, withReplays, List.foldl_cons, hreplay]
        rfl
    | none =>
      apply Prog.meets_bind (hany _)
      intro _ _
      apply Prog.meets_bind (ih results)
      rintro ⟨fresh, answered⟩ ⟨hfresh, hanswered⟩
      constructor
      · intro other hother
        rcases List.mem_cons.mp hother with rfl | hother
        · exact ⟨List.mem_cons_self, hreplay⟩
        · exact ⟨List.mem_cons_of_mem _ (hfresh other hother).1, (hfresh other hother).2⟩
      · rw [withReplays, List.foldl_cons, hreplay]
        exact hanswered

end Answers

section OtherTickers

variable {manager : ExecutionManager} {plan : RebalancePlan} {callback : Option StatusCallback}
  {key : String}

theorem returns_any {α : Type} (p : M α) : Returns (fun _ => True) p := p.uses_all

theorem attemptMeets_tickers (manager : ExecutionManager) (plan : RebalancePlan)
    (callback : Option StatusCallback) (key : String) :
    AttemptMeets manager plan callback (fun _ _ => True) (fun _ => True)
      (fun trade => trade.ticker ≠ key) fun trade => trade.ticker ≠ key := by
  apply attemptMeets_any
  · intro trade updated hne hrepriced
    rwa [hrepriced.ticker]
  · rintro trade trimmed hne ⟨shortfall, -, -, rfl⟩
    exact hne

theorem lookup_putResults {blocked : List (ProposedTrade × OrderResult)}
    (h : ∀ item ∈ blocked, item.1.ticker ≠ key) (results : Dict OrderResult) :
    List.lookup key (ExecutionManager.putResults results blocked) = List.lookup key results := by
  unfold ExecutionManager.putResults
  induction blocked generalizing results with
  | nil => rfl
  | cons item rest ih =>
    obtain ⟨hne, hrest⟩ := List.forall_mem_cons.mp h
    rw [List.foldl_cons, ih hrest, Dict.lookup_put, if_neg hne.symm]

theorem returns_sendTrades {trades : List ProposedTrade}
    (htrades : ∀ trade ∈ trades, trade.ticker ≠ key) (results : Dict OrderResult) :
    Returns (fun r => List.lookup key r = List.lookup key results)
      (manager.sendTrades plan trades callback results) := by
  unfold ExecutionManager.sendTrades
  split
  · rfl
  apply Prog.meets_bind (returns_any _)
  intro _ _
  apply Prog.meets_bind (returns_any _)
  intro phaseResults _
  apply Prog.meets_bind (returns_any _)
  intro _ _
  split
  · apply lookup_putResults
    intro item hitem
    exact htrades item.1 (List.of_mem_zip hitem).1
  · trivial

theorem returns_submitPhase {trades : List ProposedTrade}
    (htrades : ∀ trade ∈ trades, trade.ticker ≠ key) (reprice : Bool)
    (results : Dict OrderResult) :
    Returns (fun r => List.lookup key r = List.lookup key results)
      (manager.submitPhase plan trades callback reprice results) := by
  unfold ExecutionManager.submitPhase
  split
  · rfl
  have hrepriced : Returns (fun r : List ProposedTrade × List (ProposedTrade × OrderResult) =>
      (∀ trade ∈ r.1, trade.ticker ≠ key) ∧ ∀ item ∈ r.2, item.1.ticker ≠ key)
      (if reprice then manager.repriceForExecution plan trades callback
        else .ret (trades, [])) := by
    split
    · exact (meets_repriceForExecution (attemptMeets_tickers manager plan callback key) htrades).mono
        (fun _ ho => ho) fun r hr => ⟨hr.priced, hr.fresh⟩
    · exact ⟨htrades, List.forall_mem_nil _⟩
  apply Prog.meets_bind hrepriced
  intro r hr
  rw [← lookup_putResults hr.2 results]
  exact returns_sendTrades hr.1 _

theorem returns_blockBuys (reason : String) {buys : List ProposedTrade}
    (hbuys : ∀ trade ∈ buys, trade.ticker ≠ key) (results : Dict OrderResult) :
    Returns (fun r => List.lookup key r = List.lookup key results)
      (ExecutionManager.blockBuys plan callback reason buys results) := by
  induction buys generalizing results with
  | nil => rfl
  | cons trade rest ih =>
    obtain ⟨hne, hrest⟩ := List.forall_mem_cons.mp hbuys
    rw [ExecutionManager.blockBuys]
    apply Prog.meets_bind (returns_any _)
    intro _ _
    apply Prog.meets_bind (returns_any _)
    intro _ _
    have hblocked := ih hrest (Dict.put results trade.ticker
      (blockedResult trade buyingPowerBlockedStatus reason))
    rw [Dict.lookup_put, if_neg hne.symm] at hblocked
    exact hblocked

theorem returns_buyPhase {buys : List ProposedTrade}
    (hbuys : ∀ trade ∈ buys, trade.ticker ≠ key) (results : Dict OrderResult) :
    Returns (fun r => List.lookup key r = List.lookup key results)
      (manager.buyPhase plan buys callback results) := by
  unfold ExecutionManager.buyPhase
  split
  · rfl
  apply Prog.meets_bind (meets_repriceForExecution (attemptMeets_tickers manager plan callback key) hbuys)
  intro r hr
  apply Prog.meets_bind (meets_fitBuys (attemptMeets_tickers manager plan callback key) hr.priced)
  rintro ⟨fitted, reason⟩ hfitted
  have hput := lookup_putResults hr.fresh results
  cases reason with
  | some reason =>
    rw [← hput]
    exact returns_blockBuys reason hfitted _
  | none =>
    rw [← hput]
    exact returns_submitPhase hfitted false _

end OtherTickers

section Attempts

variable {plan : RebalancePlan} {store : OrderStore}

theorem tagTrades_tickers (store : OrderStore) (runId : String) (offset : Nat)
    (trades : List ProposedTrade) :
    (tagTrades store runId offset trades).map (·.ticker) = trades.map (·.ticker) := by
  unfold tagTrades
  apply List.ext_getElem
  · simp
  · intro i _ _
    simp

/-- Tagging keeps the tickers of a plan distinct. -/
theorem taggedTrades_nodup (hnodup : (plan.trades.map (·.ticker)).Nodup) :
    ((taggedTrades store plan).map (·.ticker)).Nodup := by
  have hbuys : plan.buys = plan.trades.filter fun trade => !decide (trade.side = .sell) := by
    apply List.filter_congr
    intro trade _
    cases trade.side <;> rfl
  have hperm : (plan.sells ++ plan.buys).Perm plan.trades := by
    rw [hbuys]
    exact List.filter_append_perm _ plan.trades
  unfold taggedTrades
  rw [List.map_append, tagTrades_tickers, tagTrades_tickers, ← List.map_append]
  exact (hperm.map _).nodup_iff.mpr hnodup

theorem collectResults_ok {results : Dict OrderResult} {trades : List ProposedTrade} :
    ∀ {collected : List OrderResult},
      ExecutionManager.collectResults results trades = .ok collected →
      collected.length = trades.length ∧
        ∀ pair ∈ trades.zip collected, List.lookup pair.1.ticker results = some pair.2 := by
  unfold ExecutionManager.collectResults
  induction trades with
  | nil =>
    rintro collected ⟨⟩
    exact ⟨rfl, List.forall_mem_nil _⟩
  | cons trade rest ih =>
    intro collected h
    rw [List.mapM_cons] at h
    obtain ⟨result, hresult, h⟩ := bind_eq_ok.mp h
    obtain ⟨later, hlater, h⟩ := bind_eq_ok.mp h
    obtain rfl := Except.ok.inj h
    obtain ⟨hlength, hpairs⟩ := ih hlater
    constructor
    · simp [hlength]
    · rw [List.zip_cons_cons, List.forall_mem_cons]
      refine ⟨?_, hpairs⟩
      cases hlookup : List.lookup trade.ticker results with
      | none =>
        rw [hlookup] at hresult
        cases hresult
      | some found =>
        rw [hlookup] at hresult
        rw [Except.ok.inj hresult]

/-- An attempt answers a trade that has a replay by the replay, whatever else it does. -/
theorem returns_attemptPhases (manager : ExecutionManager) (callback : Option StatusCallback)
    {latest : List OrderLedgerEntry} {sells buys : List ProposedTrade} {trade : ProposedTrade}
    {replay : OrderResult} (hnodup : ((sells ++ buys).map (·.ticker)).Nodup)
    (htrade : trade ∈ sells ++ buys) (hreplay : idempotentReplay trade latest = some replay) :
    Returns (fun results => ∀ pair ∈ plan.trades.zip results,
        pair.1.ticker = trade.ticker → pair.2 = replay)
      (manager.attemptPhases plan callback latest sells buys) := by
  have hfresh : ∀ other ∈ sells ++ buys, idempotentReplay other latest = none →
      other.ticker ≠ trade.ticker := by
    intro other hother hnone hsame
    obtain rfl := List.inj_on_of_nodup_map hnodup hother htrade hsame
    rw [hreplay] at hnone
    cases hnone
  unfold ExecutionManager.attemptPhases
  apply Prog.meets_bind (returns_planPhase sells [])
  rintro ⟨freshSells, soldResults⟩ ⟨hsells, rfl⟩
  apply Prog.meets_bind (returns_planPhase buys _)
  rintro ⟨freshBuys, planned⟩ ⟨hbuys, rfl⟩
  have hplanned : List.lookup trade.ticker
      (withReplays latest buys (withReplays latest sells [])) = some replay := by
    have hall := lookup_withReplays hnodup htrade hreplay []
    unfold withReplays at hall ⊢
    rwa [List.foldl_append] at hall
  have hfreshSells : ∀ other ∈ freshSells, other.ticker ≠ trade.ticker := fun other hother =>
    hfresh other (List.mem_append_left _ (hsells other hother).1) (hsells other hother).2
  have hfreshBuys : ∀ other ∈ freshBuys, other.ticker ≠ trade.ticker := fun other hother =>
    hfresh other (List.mem_append_right _ (hbuys other hother).1) (hbuys other hother).2
  apply Prog.meets_bind (returns_submitPhase hfreshSells true _)
  intro sold hsold
  apply Prog.meets_bind (returns_buyPhase hfreshBuys sold)
  intro bought hbought
  apply Prog.meets_ofExcept
  intro results hresults pair hpair hsame
  have hlookup := (collectResults_ok hresults).2 pair hpair
  rw [hsame, hbought, hsold, hplanned] at hlookup
  exact (Option.some.inj hlookup).symm

theorem returns_attemptPhases_length (manager : ExecutionManager)
    (callback : Option StatusCallback) (latest : List OrderLedgerEntry)
    (sells buys : List ProposedTrade) :
    Returns (fun results => results.length = plan.trades.length)
      (manager.attemptPhases plan callback latest sells buys) := by
  unfold ExecutionManager.attemptPhases
  apply Prog.meets_bind (returns_any _)
  intro sold _
  apply Prog.meets_bind (returns_any _)
  intro bought _
  apply Prog.meets_bind (returns_any _)
  intro _ _
  apply Prog.meets_bind (returns_any _)
  intro _ _
  apply Prog.meets_ofExcept
  intro results hresults
  exact (collectResults_ok hresults).1

end Attempts

/-- A trade that a row holds back has a replay, which is as full as the row. -/
theorem idempotentReplay_of_held {store : OrderStore} {plan : RebalancePlan}
    {trade : ProposedTrade} {row : OrderLedgerEntry} (htrade : trade ∈ taggedTrades store plan)
    (hrow : store.latest trade.ref = some row) (hheld : row.sendable = false) :
    ∃ replay, idempotentReplay trade
        (store.getLatestMany ((taggedTrades store plan).map (·.ref))) = some replay ∧
      replay.status = idempotentReplayStatus ∧
      (replay.FullyFilled ↔ trade.quantity ≤ row.filledQty + fillTolerance) := by
  unfold idempotentReplay
  rw [OrderStore.find?_getLatestMany (List.mem_map_of_mem htrade), hrow]
  dsimp only
  rw [if_neg (by simp [hheld])]
  exact ⟨_, rfl, rfl, Iff.rfl⟩

/-- What is asked of the answer to a trade: the earlier order of a replayed trade is full in the
ledger, and an order that is called filled, or a replay, is so. -/
structure FilledAnswer (store : OrderStore) (plan : RebalancePlan) (trade : ProposedTrade)
    (result : OrderResult) : Prop where
  replayed : ∀ tagged ∈ taggedTrades store plan, tagged.ticker = trade.ticker → ∀ row,
    store.latest tagged.ref = some row → row.sendable = false →
      tagged.quantity ≤ row.filledQty + fillTolerance
  sent : (∀ tagged ∈ taggedTrades store plan, tagged.ticker = trade.ticker →
      FreshIn store plan tagged) →
    result.status ∈ ["Filled", idempotentReplayStatus] → result.FullyFilled

/-- An attempt that is graded completed has filled every trade of its plan. -/
def RebalanceOutcome.CompletedWhenFilled (outcome : RebalanceOutcome) : Prop :=
  outcome.status = ExecutionStatus.completed.value →
    ∀ result ∈ outcome.plan.executionResults, result.FullyFilled

section Runs

variable {W : Type} (E : Environment W) (engine : RebalanceEngine) {plan : RebalancePlan}

/-- What a program returns whatever is answered to it, its runs return. -/
theorem wp_of_returns {α : Type} {p : M α} {R : α → Prop} (h : Returns R p) (τ : List (Event sig))
    (s : World W) : E.system.wp p (fun out _ _ => ∀ a, out = .returned a → R a) τ s :=
  E.system.wp_mono (E.system.wp_of_meets (I := fun _ _ => True) h
    (fun _ _ _ _ _ _ => ⟨trivial, trivial⟩) trivial) fun _ _ _ hout => hout.2

/-- A program's first part, which leaves the ledger as it is. -/
theorem wp_bind_keepsLedger {α β : Type} {p : M α} {f : α → M β}
    (hp : p.Uses (S := sig) Op.KeepsLedger) {R : β → Prop} {τ : List (Event sig)} {s : World W}
    (hf : ∀ a τ' s', s'.ledger = s.ledger → E.system.wp (f a)
      (fun out _ _ => ∀ b, out = .returned b → R b) τ' s') :
    E.system.wp (p.bind f) (fun out _ _ => ∀ b, out = .returned b → R b) τ s := by
  apply E.system.wp_seq (wp_keepsLedger E hp τ s)
  · intro a τ' s' hledger
    exact hf a τ' s' hledger
  · intro e _ _ _ b hb
    cases hb
  · intro _ _ _ b hb
    cases hb

/-- What an attempt returns is what its phases return, on the ledger it starts from. -/
theorem wp_submitPlan_returns (manager : ExecutionManager) (callback : Option StatusCallback)
    {R : List OrderResult → Prop} {τ : List (Event sig)} {s : World W}
    (h : Returns R (manager.attemptPhases plan callback
      (s.ledger.getLatestMany ((taggedTrades s.ledger plan).map (·.ref)))
      (tagTrades s.ledger plan.runId 0 plan.sells)
      (tagTrades s.ledger plan.runId plan.sells.length plan.buys))) :
    E.system.wp (manager.submitPlan plan callback)
      (fun out _ _ => ∀ results, out = .returned results → R results) τ s := by
  apply wp_submitPlan
  · intro _ _ results hresults
    cases hresults
  · intro τ' _
    exact wp_of_returns E h τ' s

/-- What an executed plan returns is graded on the results of its attempt. -/
theorem wp_executePlan {R : List OrderResult → Prop} {τ : List (Event sig)} {s : World W}
    (h : Returns R (engine.manager.attemptPhases plan (some observe)
      (s.ledger.getLatestMany ((taggedTrades s.ledger plan).map (·.ref)))
      (tagTrades s.ledger plan.runId 0 plan.sells)
      (tagTrades s.ledger plan.runId plan.sells.length plan.buys))) :
    E.system.wp (engine.executePlan plan) (fun out _ _ => ∀ outcome, out = .returned outcome →
      outcome.status = (executionStatus outcome.plan.executionResults).value ∧
        R outcome.plan.executionResults) τ s := by
  have hask : ∀ call, (askHost call).Uses (S := sig) Op.KeepsLedger := by
    intro call
    have hkeeps : Op.KeepsLedger (.host call) := trivial
    exact Prog.uses_perform (S := sig) hkeeps
  unfold RebalanceEngine.executePlan
  apply wp_bind_keepsLedger E (hask _)
  intro _ τ₁ s₁ hledger
  rw [← hledger] at h
  unfold RebalanceEngine.execute
  rw [Prog.bind_assoc]
  apply E.system.wp_seq (wp_submitPlan_returns E engine.manager (some observe) h)
  · intro results τ₂ s₂ hresults
    have hR := hresults results rfl
    rw [Prog.ret_bind]
    apply wp_of_returns
    apply Prog.meets_bind (returns_any _)
    intro _ _
    apply Prog.meets_bind (returns_any _)
    intro _ _
    apply Prog.meets_bind (returns_any _)
    intro _ _
    apply Prog.meets_bind (returns_any _)
    intro _ _
    exact ⟨rfl, hR⟩
  · intro e _ _ _ outcome houtcome
    cases houtcome
  · intro _ _ _ outcome houtcome
    cases houtcome

end Runs

/-- An attempt marks its session completed only with every trade filled, exactly when some result
hinders that mark, or the answers are filled: in the ledger for a trade that an earlier attempt sent,
and by the word of the broker for the others. -/
theorem executePlan_completed_iff {W : Type} (E : Environment W) (engine : RebalanceEngine)
    {plan : RebalancePlan} (hnodup : (plan.trades.map (·.ticker)).Nodup)
    (cs : List E.system.Choice) (s : World W) {outcome : RebalanceOutcome}
    (h : (E.system.run (engine.executePlan plan) cs s).outcome = .returned outcome) :
    outcome.CompletedWhenFilled ↔
      (∃ result ∈ outcome.plan.executionResults, result.Hinders) ∨
        ∀ pair ∈ plan.trades.zip outcome.plan.executionResults,
          FilledAnswer s.ledger plan pair.1 pair.2 := by
  have hruns : ∀ {R : List OrderResult → Prop},
      Returns R (engine.manager.attemptPhases plan (some observe)
        (s.ledger.getLatestMany ((taggedTrades s.ledger plan).map (·.ref)))
        (tagTrades s.ledger plan.runId 0 plan.sells)
        (tagTrades s.ledger plan.runId plan.sells.length plan.buys)) →
      outcome.status = (executionStatus outcome.plan.executionResults).value ∧
        R outcome.plan.executionResults := by
    intro R hR
    exact E.system.wp_run (wp_executePlan E engine hR) cs outcome h
  obtain ⟨hstatus, hlength⟩ := hruns (returns_attemptPhases_length _ _ _ _ _)
  have hcompleted : outcome.status = ExecutionStatus.completed.value ↔
      ∀ result ∈ outcome.plan.executionResults, ¬result.Hinders := by
    rw [hstatus, ← executionStatus_completed_iff]
    cases executionStatus outcome.plan.executionResults <;> decide
  -- the answer to a trade that a row holds back is the replay of that row
  have hreplays : ∀ tagged ∈ taggedTrades s.ledger plan, ∀ row,
      s.ledger.latest tagged.ref = some row → row.sendable = false →
      ∀ pair ∈ plan.trades.zip outcome.plan.executionResults, pair.1.ticker = tagged.ticker →
        pair.2.status = idempotentReplayStatus ∧
          (pair.2.FullyFilled ↔ tagged.quantity ≤ row.filledQty + fillTolerance) := by
    intro tagged htagged row hrow hheld pair hpair hticker
    obtain ⟨replay, hreplay, hsame, hfilled⟩ := idempotentReplay_of_held htagged hrow hheld
    obtain ⟨-, hanswers⟩ := hruns (returns_attemptPhases engine.manager (some observe)
      (taggedTrades_nodup hnodup) htagged hreplay)
    rw [hanswers pair hpair hticker]
    exact ⟨hsame, hfilled⟩
  have hanswered : ∀ result ∈ outcome.plan.executionResults,
      ∃ trade, (trade, result) ∈ plan.trades.zip outcome.plan.executionResults := by
    intro result hresult
    have hsnd : result ∈ (plan.trades.zip outcome.plan.executionResults).map Prod.snd := by
      rwa [List.map_snd_zip hlength.le]
    obtain ⟨pair, hpair, rfl⟩ := List.mem_map.mp hsnd
    exact ⟨pair.1, hpair⟩
  constructor
  · intro hfull
    by_cases hhinders : ∃ result ∈ outcome.plan.executionResults, result.Hinders
    · exact Or.inl hhinders
    · right
      intro pair hpair
      have hmem := (List.of_mem_zip hpair).2
      have hpairFull := hfull (hcompleted.mpr fun result hresult hh =>
        hhinders ⟨result, hresult, hh⟩) pair.2 hmem
      constructor
      · intro tagged htagged hticker row hrow hheld
        exact (hreplays tagged htagged row hrow hheld pair hpair hticker.symm).2.mp hpairFull
      · intro _ _
        exact hpairFull
  · rintro (⟨other, hother, hhinders⟩ | hanswers) hdone result hresult
    · exact absurd hhinders (hcompleted.mp hdone other hother)
    · obtain ⟨trade, hpair⟩ := hanswered result hresult
      have hfilled := hanswers _ hpair
      apply OrderResult.fullyFilled_of_not_hinders (hcompleted.mp hdone result hresult)
      intro hsays
      by_cases hfresh : ∀ tagged ∈ taggedTrades s.ledger plan, tagged.ticker = trade.ticker →
          FreshIn s.ledger plan tagged
      · exact hfilled.sent hfresh hsays
      · push Not at hfresh
        obtain ⟨tagged, htagged, hticker, hheld⟩ := hfresh
        have hrow : ∃ row, s.ledger.latest tagged.ref = some row ∧ row.sendable = false := by
          by_contra hnone
          push Not at hnone
          apply hheld
          refine ⟨htagged, fun row hrow => ?_⟩
          simpa using hnone row hrow
        obtain ⟨row, hrow, hsend⟩ := hrow
        have hreplay := hreplays tagged htagged row hrow hsend _ hpair hticker.symm
        exact hreplay.2.mpr (hfilled.replayed tagged htagged hticker row hrow hsend)

/-- A plan that sells five shares of a fund. -/
def salePlan : RebalancePlan where
  runId := "run"
  sessionDate := "2026-10-16"
  trades := [{
    ticker := "VTI"
    side := .sell
    quantity := 5
    notional := 500
    referencePrice := 100
    limitPrice := some 100
    reason := "rebalance_to_target_weight" }]

/-- What is reported of the sale: the order works, without a fill. -/
def reportedSale : OrderResult where
  ticker := "VTI"
  side := .sell
  quantity := 5
  notional := 500
  orderId := some 7
  status := "Submitted"
  filled := 0
  averageFillPrice := none
  orderRef := some "poma:run:0:VTI:SELL"

/-- A broker that takes the sale and reports that it works. -/
def acceptingBroker : Oracle where
  clock := 0
  answer
    | .statusCallback _ _ => .ok ()
    | .broker .accountSnapshot => .ok {
        cashUsd := .finite 1000
        positionsMarketValueUsd := .finite 500 }
    | .broker (.submitTrades _) => .ok (1 : Nat)
    | .broker (.nextStatus trades) =>
      if h : 0 < trades.length then .ok (⟨0, h⟩, reportedSale)
      else .error (.connection "not connected")
    | .broker .submitResults => .ok [reportedSale]
    | .host (.writeReport _) => .ok ()
    | .host (.sendAlert _) => .ok ()
    | .host (.recordReconciliation _) => .ok ()
    | _ => .error (.connection "not connected")

/-- The engine of an account that sells at the prices of its plan. -/
def saleEngine : RebalanceEngine := ⟨protocolBroker true true true, Settings.onPaperFromSnapshot⟩

/-- An attempt at the sale in a new process, from a ledger and so many operations long. -/
def saleAttempt (operations : Nat) (s : World Unit) : Run sig (World Unit) RebalanceOutcome :=
  openWorld.run (saleEngine.executePlan salePlan) (List.replicate operations acceptingBroker)
    (s.atStart true)

/-- The sale as a later attempt of the run reports it. -/
def replayedSale : RebalanceOutcome where
  plan := { salePlan with executionResults := [{ reportedSale with
    status := idempotentReplayStatus
    message := some "orderRef poma:run:0:VTI:SELL already broker_accepted from an earlier attempt of this run (Submitted); not resubmitted" }] }
  executed := true
  blocked := false
  status := "completed"

theorem executePlan_completed_iff_replayedSale :
    replayedSale.CompletedWhenFilled ↔
      (∃ result ∈ replayedSale.plan.executionResults, result.Hinders) ∨
        ∀ pair ∈ salePlan.trades.zip replayedSale.plan.executionResults,
          FilledAnswer ((saleAttempt 14 (World.of OrderStore.empty)).state.atStart true).ledger
            salePlan pair.1 pair.2 :=
  executePlan_completed_iff openEnvironment saleEngine (by decide)
    (List.replicate 40 acceptingBroker) _ (by decide +kernel)

/-- The first attempt is killed once its order works; the second one, on the ledger it left, is
graded completed without a fill. -/
theorem not_completedWhenFilled_replayedSale :
    (saleAttempt 40 (saleAttempt 14 (World.of OrderStore.empty)).state).outcome =
      .returned replayedSale ∧ ¬replayedSale.CompletedWhenFilled := by
  constructor
  · decide +kernel
  · intro h
    have hfilled := h rfl _ List.mem_cons_self
    revert hfilled
    decide +kernel

end Poma

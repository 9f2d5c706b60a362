import Poma.Correctness.Replacement
import Poma.Engine.Rebalance

/-!
# Unresolved orders stop trading

The stale-order check reports an unresolved row of another session or run, or a
refresh that failed, as a warning that carries the blocking marker. The engine
copies the warnings into its plan, and a plan with the marker is not executed.
-/

namespace Poma

open Interaction

/-- Warnings that block the rebalance they are about. -/
def Blocking (warnings : List String) : Prop :=
  ∃ warning ∈ warnings, containsText warning blockMarker = true

theorem refreshWarning_blocks (entries : List OrderLedgerEntry) (e : Exn) :
    containsText (refreshWarning entries e) blockMarker = true :=
  containsText_append_left (containsText_append_right (by decide +kernel) _) _

theorem blockWarning_blocks (group : List OrderLedgerEntry) (label : String) :
    containsText (blockWarning group label) blockMarker = true :=
  containsText_append_right (by decide +kernel) _

/-- Under the cancel policy a group blocks, whatever was requested of it. -/
theorem cancelWarnings_blocks {group : List OrderLedgerEntry} (hgroup : group ≠ [])
    (label : String) (cancelled : List String) : Blocking (cancelWarnings group label cancelled) := by
  unfold cancelWarnings
  by_cases hnone : cancelled = []
  · -- nothing was requested, so every order of the group is unconfirmed
    have hunresolved : group.length - cancelled.length ≠ 0 := by
      rw [hnone]
      simpa using hgroup
    have hblocks : containsText (s!"{(group.length - cancelled.length).repr} open order(s) from {label} could not be confirmed cancelled ({tickerList group}); block execution")
        blockMarker = true := containsText_append_right (by decide +kernel) _
    refine ⟨_, ?_, hblocks⟩
    simp [hunresolved]
  · refine ⟨"cancellation awaiting broker terminal confirmation; block execution", ?_,
      by decide +kernel⟩
    simp [hnone]

/-- A row of another session or of another run than the attempt's. -/
def OrderLedgerEntry.Foreign (entry : OrderLedgerEntry) (sessionDate runId : String) : Prop :=
  entry.sessionDate ≠ sessionDate ∨ entry.runId ≠ runId

/-- Some open row of the ledger is of another session or run. -/
def OrderStore.Unresolved (store : OrderStore) (sessionDate runId : String) : Prop :=
  ∃ entry ∈ store.loadOpenOrders, entry.Foreign sessionDate runId

section Check

variable {W : Type} (E : Environment W) (manager : ExecutionManager)

theorem wp_checkGroup_blocks {group : List OrderLedgerEntry} (hgroup : group ≠ [])
    (label : String) (τ : List (Event sig)) (s : World W) :
    E.system.wp (manager.checkGroup group label) (fun out _ _ =>
      ∀ warned, out = .returned warned → Blocking warned.1) τ s := by
  unfold ExecutionManager.checkGroup
  rw [if_neg hgroup]
  cases manager.settings.staleOrderPolicy with
  | block =>
    rintro warned ⟨⟩
    exact ⟨_, List.mem_singleton_self _, blockWarning_blocks group label⟩
  | cancel =>
    refine E.system.wp_seq (E.system.wp_true _ τ s) ?_ (fun _ _ _ _ => nofun) fun _ _ _ => nofun
    rintro requested τ' s' _ warned ⟨⟩
    exact cancelWarnings_blocks hgroup label _

theorem checkGroup_nil (label : String) : manager.checkGroup [] label = .ret ([], []) :=
  if_pos rfl

theorem otherSession_ne_nil {entries : List OrderLedgerEntry} {sessionDate : String}
    {entry : OrderLedgerEntry} (hmem : entry ∈ entries) (h : entry.sessionDate ≠ sessionDate) :
    otherSession entries sessionDate ≠ [] :=
  List.ne_nil_of_mem (List.mem_filter.mpr ⟨hmem, by simpa using h⟩)

theorem sameSessionForeignRun_ne_nil {entries : List OrderLedgerEntry}
    {sessionDate runId : String} {entry : OrderLedgerEntry} (hmem : entry ∈ entries)
    (hsession : entry.sessionDate = sessionDate) (h : entry.runId ≠ runId) :
    sameSessionForeignRun entries sessionDate runId ≠ [] :=
  List.ne_nil_of_mem (List.mem_filter.mpr ⟨hmem, by simpa using ⟨hsession, h⟩⟩)

/-- A decision over open rows blocks, unless all are of the attempt: then it does nothing. -/
theorem wp_checkOpenEntries_blocks (entries : List OrderLedgerEntry) (sessionDate runId : String)
    (τ : List (Event sig)) (s : World W) :
    E.system.wp (manager.checkOpenEntries entries sessionDate runId) (fun out _ s' =>
      ∀ check, out = .returned check → Blocking check.warnings ∨
        (s'.ledger = s.ledger ∧ check.cancelledLedgerKeys = [] ∧
          ∀ entry ∈ entries, ¬entry.Foreign sessionDate runId)) τ s := by
  unfold ExecutionManager.checkOpenEntries
  by_cases hprior : otherSession entries sessionDate = []
  · by_cases hforeign : sameSessionForeignRun entries sessionDate runId = []
    · rw [hprior, hforeign, checkGroup_nil, checkGroup_nil]
      rintro check ⟨⟩
      refine Or.inr ⟨rfl, rfl, fun entry hmem hrow => ?_⟩
      by_cases hsession : entry.sessionDate = sessionDate
      · exact absurd hforeign (sameSessionForeignRun_ne_nil hmem hsession
          (hrow.resolve_left (not_not.mpr hsession)))
      · exact absurd hprior (otherSession_ne_nil hmem hsession)
    · rw [hprior, checkGroup_nil, Prog.ret_bind]
      refine E.system.wp_seq (wp_checkGroup_blocks E manager hforeign _ τ s) ?_
        (fun _ _ _ _ => nofun) fun _ _ _ => nofun
      rintro warned τ' s' hblocks check ⟨⟩
      obtain ⟨warning, hmem, hmarker⟩ := hblocks warned rfl
      exact Or.inl ⟨warning, by simp [hmem], hmarker⟩
  · refine E.system.wp_seq (wp_checkGroup_blocks E manager hprior _ τ s) ?_
      (fun _ _ _ _ => nofun) fun _ _ _ => nofun
    rintro warned τ₁ s₁ hblocks
    obtain ⟨warning, hmem, hmarker⟩ := hblocks warned rfl
    refine E.system.wp_seq (E.system.wp_true _ τ₁ s₁) ?_ (fun _ _ _ _ => nofun) fun _ _ _ => nofun
    rintro foreign τ₂ s₂ _ check ⟨⟩
    exact Or.inl ⟨warning, by simp [hmem], hmarker⟩

/-- A check that returns without a blocking warning leaves no foreign row open and has not
requested a cancellation. -/
theorem wp_checkStaleOrders_blocks (sessionDate runId : String) (τ : List (Event sig))
    (s : World W) :
    E.system.wp (manager.checkStaleOrders sessionDate runId) (fun out _ s' =>
      ∀ check, out = .returned check → Blocking check.warnings ∨
        (¬s'.ledger.Unresolved sessionDate runId ∧ check.cancelledLedgerKeys = [])) τ s := by
  have hresolved : ∀ (τ : List (Event sig)) (s : World W),
      E.system.wp (manager.checkOpenEntries s.ledger.loadOpenOrders sessionDate runId)
        (fun out _ s' => ∀ check, out = .returned check → Blocking check.warnings ∨
          (¬s'.ledger.Unresolved sessionDate runId ∧ check.cancelledLedgerKeys = [])) τ s := by
    intro τ s
    refine E.system.wp_mono (wp_checkOpenEntries_blocks E manager _ sessionDate runId τ s)
      fun out τ' s' h check hcheck => (h check hcheck).imp_right ?_
    rintro ⟨hledger, hkeys, hnone⟩
    refine ⟨?_, hkeys⟩
    rintro ⟨entry, hmem, hforeign⟩
    exact hnone entry (hledger ▸ hmem) hforeign
  unfold ExecutionManager.checkStaleOrders
  rw [System.wp_bind, wp_loadLatest]
  refine ⟨nofun, fun _ => ?_⟩
  rw [System.seq_returned]
  dsimp only
  split
  · exact hresolved _ s
  · refine E.system.wp_seq (E.system.wp_true _ _ s) ?_ (fun _ _ _ _ => nofun) fun _ _ _ => nofun
    rintro refreshed τ₁ s₁ _
    cases refreshed with
    | error e =>
      rintro check ⟨⟩
      exact Or.inl ⟨_, List.mem_singleton_self _, refreshWarning_blocks _ e⟩
    | ok _ =>
      rw [System.wp_bind, wp_loadLatest]
      exact ⟨nofun, fun _ => hresolved _ s₁⟩

end Check

/-- An operation that hands no trades to the broker. -/
def Op.SubmitsNothing (o : Op) : Prop := ∀ trades, o ≠ .broker (.submitTrades trades)

/-- No trade of a run was passed to `submit_trades`. -/
def PassesNoTrade {α : Type} (run : Run sig (World Unit) α) : Prop :=
  ∀ event ∈ run.trace, Op.SubmitsNothing event.op

/-- A refresh that raised, or reported an error on some row. -/
def RefreshFailed (run : Run sig (World Unit) ReconcileSummary) : Prop :=
  (∃ e, run.outcome = .raised e) ∨
    ∃ summary, run.outcome = .returned summary ∧ summary.updates.any (·.action = some .error)

section Attempt

/-- A refresh that failed is a blocking warning of the check. -/
theorem run_checkStaleOrders_refreshFailed (manager : ExecutionManager)
    (sessionDate runId : String) (cs : List openWorld.Choice) (s : World Unit)
    {check : StaleOrderCheck}
    (hcheck : (openWorld.run (manager.checkStaleOrders sessionDate runId) cs s).outcome =
      .returned check)
    (hfailed : RefreshFailed (openWorld.run manager.reconcile (cs.drop 1) s)) :
    Blocking check.warnings := by
  cases cs with
  | nil => cases hcheck
  | cons c cs =>
    have hfailed : RefreshFailed (openWorld.run manager.reconcile cs s) := hfailed
    obtain ⟨onRefresh, hblocked, hcheck⟩ : ∃ onRefresh : Except sig.Exn Unit → M StaleOrderCheck,
        (∀ e, onRefresh (.error e) =
          .ret { warnings := [refreshWarning s.ledger.loadOpenOrders e] }) ∧
        (openWorld.run (if s.ledger.loadOpenOrders = [] ∧ manager.broker.isIbkr = false
          then manager.checkOpenEntries s.ledger.loadOpenOrders sessionDate runId
          else manager.refreshOpenOrders.attempt.bind onRefresh) cs s).outcome =
        .returned check := ⟨_, fun _ => rfl, hcheck⟩
    by_cases hskip : s.ledger.loadOpenOrders = [] ∧ manager.broker.isIbkr = false
    · -- no refresh is made, and it would have had nothing to do
      cases cs with
      | nil =>
        rcases hfailed with ⟨e, he⟩ | ⟨summary, hsummary, _⟩
        · cases he
        · cases hsummary
      | cons c' cs =>
        have hrefresh : (openWorld.run manager.reconcile (c' :: cs) s).outcome =
            (openWorld.run (if s.ledger.loadOpenOrders = [] ∧ manager.broker.isIbkr = false
              then .ret ⟨0, []⟩ else manager.broker.fetchOpenOrderSnapshots.bind fun snapshots =>
                manager.reconcileOpenOrders (ExecutionManager.referenced snapshots)) cs s).outcome :=
          rfl
        rw [if_pos hskip] at hrefresh
        rcases hfailed with ⟨e, he⟩ | ⟨summary, hsummary, herror⟩
        · cases hrefresh.symm.trans he
        · obtain rfl : _ = summary := Outcome.returned.inj (hrefresh.symm.trans hsummary)
          cases herror
    · rw [if_neg hskip, System.run_bind, System.run_attempt] at hcheck
      have hraised : ∃ e, (openWorld.run manager.refreshOpenOrders cs s).outcome = .raised e := by
        unfold ExecutionManager.refreshOpenOrders
        rw [System.run_bind]
        rcases hfailed with ⟨e, he⟩ | ⟨summary, hsummary, herror⟩
        · rw [he]
          exact ⟨e, rfl⟩
        · rw [hsummary]
          dsimp only
          rw [if_pos herror]
          exact ⟨_, rfl⟩
      obtain ⟨e, he⟩ := hraised
      rw [he] at hcheck
      have hcheck : (openWorld.run (onRefresh (.error e)) (cs.drop (openWorld.run
          manager.refreshOpenOrders cs s).trace.length) _).outcome = .returned check := hcheck
      rw [hblocked] at hcheck
      obtain rfl : _ = check := Outcome.returned.inj hcheck
      exact ⟨_, List.mem_singleton_self _, refreshWarning_blocks _ e⟩

variable {engine : RebalanceEngine}

/-- A plan carries the warnings of the check it was built after. -/
theorem run_buildPlan_blocked (hmode : engine.settings.tradingMode ≠ .dryRun)
    (sessionDate runId : String) (cs : List openWorld.Choice) (s : World Unit)
    {plan : RebalancePlan}
    (hplan : (openWorld.run (engine.buildPlan sessionDate runId) cs s).outcome =
      .returned plan) :
    ∃ check, (openWorld.run (engine.manager.checkStaleOrders sessionDate runId) cs s).outcome =
      .returned check ∧ (Blocking check.warnings → plan.isBlocked = true) := by
  have hbuild : engine.buildPlan sessionDate runId =
      (engine.manager.checkStaleOrders sessionDate runId).bind fun check =>
        (askHost (.planTrades sessionDate runId)).bind fun (planned : PlannedTrades) => .ret {
          runId := runId
          sessionDate := sessionDate
          trades := planned.trades
          warnings := check.warnings ++ planned.warnings
          targets := planned.targets
          portfolioValueUsd := planned.portfolioValueUsd
          brokerTotalValueUsd := planned.brokerTotalValueUsd } := by
    unfold RebalanceEngine.buildPlan
    exact (congrArg (Prog.bind · _) (if_pos hmode)).trans (Prog.bind_assoc _ _ _)
  have hwarnings : ∀ (check : StaleOrderCheck) (τ : List (Event sig)) (s' : World Unit),
      openWorld.wp ((askHost (.planTrades sessionDate runId)).bind
        fun (planned : PlannedTrades) => .ret {
          runId := runId
          sessionDate := sessionDate
          trades := planned.trades
          warnings := check.warnings ++ planned.warnings
          targets := planned.targets
          portfolioValueUsd := planned.portfolioValueUsd
          brokerTotalValueUsd := planned.brokerTotalValueUsd })
        (fun out _ _ => ∀ plan, out = .returned plan → ∃ more,
          RebalancePlan.warnings plan = check.warnings ++ more) τ s' := by
    intro check τ s'
    refine openWorld.wp_seq (openWorld.wp_true _ τ s') ?_ (fun _ _ _ _ => nofun)
      fun _ _ _ => nofun
    rintro planned _ _ _ plan ⟨⟩
    exact ⟨planned.warnings, rfl⟩
  rw [hbuild, System.run_bind] at hplan
  cases hcheck : (openWorld.run (engine.manager.checkStaleOrders sessionDate runId) cs
      s).outcome with
  | stopped =>
    rw [hcheck] at hplan
    cases hplan
  | raised e =>
    rw [hcheck] at hplan
    cases hplan
  | returned check =>
    rw [hcheck] at hplan
    refine ⟨check, rfl, fun ⟨warning, hmem, hmarker⟩ => ?_⟩
    obtain ⟨more, hmore⟩ := openWorld.wp_run (hwarnings check [] _) _ plan hplan
    refine List.any_eq_true.mpr ⟨warning, ?_, hmarker⟩
    rw [hmore]
    exact List.mem_append_left _ hmem

/-- What follows the plan in an attempt whose plan is blocked passes no trade. -/
theorem run_runRebalance_passesNoTrade (hB : engine.broker.Within Op.SubmitsNothing)
    (sessionDate runId : String) (allow : Bool) (cs : List openWorld.Choice) (s : World Unit)
    (hblocked : ∀ plan, (openWorld.run (engine.buildPlan sessionDate runId)
      (cs.drop (openWorld.run (engine.gates allow) cs s).trace.length)
      (openWorld.run (engine.gates allow) cs s).state).outcome = .returned plan →
      plan.isBlocked = true) :
    PassesNoTrade (openWorld.run (engine.runRebalance sessionDate runId allow) cs s) := by
  have hhost : ∀ call, (askHost call).Uses (S := sig) Op.SubmitsNothing :=
    fun call => Prog.uses_perform nofun
  have hgates : (engine.gates allow).Uses (S := sig) Op.SubmitsNothing :=
    Prog.uses_bind (α := Unit) (Prog.uses_ite (hhost _) trivial) fun _ =>
      Prog.uses_ite trivial (hhost _)
  have hbuild : (engine.buildPlan sessionDate runId).Uses (S := sig) Op.SubmitsNothing :=
    Prog.uses_bind (α := List String) (Prog.uses_ite (Prog.uses_bind
      (checkStaleOrders_uses hB nofun nofun (fun _ => nofun) sessionDate runId) fun _ => trivial)
      trivial) fun _ => Prog.uses_bind (hhost _) fun _ => trivial
  have hblock : ∀ plan : RebalancePlan, plan.isBlocked = true →
      (Prog.bind (S := sig) (askHost (.writeReport plan)) fun _ =>
        (askHost (.recordPlanned plan)).bind fun _ =>
        let isDryRun : Bool := engine.settings.tradingMode = .dryRun
        if isDryRun || plan.isBlocked then
          let status := if isDryRun then "dry_run" else "blocked"
          (askHost (.sendAlert status)).bind fun _ => .ret {
            plan := plan
            executed := false
            blocked := plan.isBlocked
            status := status }
        else engine.executePlan plan).Uses (S := sig) Op.SubmitsNothing := by
    intro plan hplan
    refine Prog.uses_bind (hhost _) fun _ => Prog.uses_bind (hhost _) fun _ => ?_
    rw [hplan]
    cases decide (engine.settings.tradingMode = .dryRun) <;>
      exact Prog.uses_bind (hhost _) fun _ => trivial
  have hafter : ∀ {α : Type} {τ : List (Event sig)} {run : Run sig (World Unit) α},
      (∀ event ∈ τ, Op.SubmitsNothing event.op) → PassesNoTrade run →
      PassesNoTrade (run.after τ) := by
    intro α τ run hτ hrun event hevent
    exact (List.mem_append.mp hevent).elim (hτ event) (hrun event)
  have hgated := openWorld.mem_trace_of_uses hgates cs s
  unfold RebalanceEngine.runRebalance
  rw [System.run_bind]
  cases (openWorld.run (engine.gates allow) cs s).outcome with
  | stopped => exact hgated
  | raised e => exact hgated
  | returned _ =>
    refine hafter hgated ?_
    have hplanned := openWorld.mem_trace_of_uses hbuild
      (cs.drop (openWorld.run (engine.gates allow) cs s).trace.length)
      (openWorld.run (engine.gates allow) cs s).state
    rw [System.run_bind]
    cases hbuilt : (openWorld.run (engine.buildPlan sessionDate runId)
      (cs.drop (openWorld.run (engine.gates allow) cs s).trace.length)
      (openWorld.run (engine.gates allow) cs s).state).outcome with
    | stopped => exact hplanned
    | raised e => exact hplanned
    | returned plan =>
      exact hafter hplanned (openWorld.mem_trace_of_uses (hblock plan (hblocked plan hbuilt)) _ _)

/-- An attempt is blocked, and passes no trade, when its stale-order check returns with a row of
another session or run still open, after a refresh that failed, or having only requested a
cancellation; it passes no trade either when the check raises. -/
theorem unresolved_orders_stop_trading (settings : Settings)
    (isIbkr hasReplacement hasHistory : Bool) (hmode : settings.tradingMode ≠ .dryRun)
    (ledger : OrderStore) (sessionDate runId : String) (allowOutsideMarketHours : Bool)
    (cs : List openWorld.Choice) :
    let engine : RebalanceEngine := ⟨protocolBroker isIbkr hasReplacement hasHistory, settings⟩
    let gates := openWorld.run (engine.gates allowOutsideMarketHours) cs (World.of ledger)
    let left := cs.drop gates.trace.length
    let check := openWorld.run (engine.manager.checkStaleOrders sessionDate runId) left gates.state
    let refresh := openWorld.run engine.manager.reconcile (left.drop 1) gates.state
    let built := openWorld.run (engine.buildPlan sessionDate runId) left gates.state
    let attempt := openWorld.run (engine.runRebalance sessionDate runId allowOutsideMarketHours) cs
      (World.of ledger)
    (∀ result, check.outcome = .returned result →
      check.state.ledger.Unresolved sessionDate runId ∨ RefreshFailed refresh ∨
        result.cancelledLedgerKeys ≠ [] →
      (∀ plan, built.outcome = .returned plan → plan.isBlocked = true) ∧
        PassesNoTrade attempt) ∧
    ∀ e, check.outcome = .raised e → PassesNoTrade attempt := by
  intro engine gates left check refresh built attempt
  have hB : engine.broker.Within Op.SubmitsNothing :=
    protocolBroker_within _ _ _ fun _ hne trades h => hne trades (Op.broker.inj h)
  constructor
  · intro result hresult hunresolved
    have hblocks : Blocking result.warnings := by
      rcases openWorld.wp_run (wp_checkStaleOrders_blocks openEnvironment engine.manager sessionDate
        runId [] gates.state) left result hresult with hblocking | ⟨hresolved, hkeys⟩
      · exact hblocking
      · rcases hunresolved with hopen | hfailed | hrequested
        · exact absurd hopen hresolved
        · exact run_checkStaleOrders_refreshFailed engine.manager sessionDate runId left gates.state
            hresult hfailed
        · exact absurd hkeys hrequested
    have hblocked : ∀ plan, built.outcome = .returned plan → plan.isBlocked = true := by
      intro plan hplan
      obtain ⟨result', hresult', hplanned⟩ := run_buildPlan_blocked hmode sessionDate runId left
        gates.state hplan
      obtain rfl : result = result' := Outcome.returned.inj (hresult.symm.trans hresult')
      exact hplanned hblocks
    exact ⟨hblocked, run_runRebalance_passesNoTrade hB sessionDate runId _ cs _ hblocked⟩
  · intro e he
    refine run_runRebalance_passesNoTrade hB sessionDate runId _ cs _ fun plan hplan => ?_
    obtain ⟨result, hresult, _⟩ := run_buildPlan_blocked hmode sessionDate runId left gates.state
      hplan
    cases he.symm.trans hresult

end Attempt

/-- A host whose gates pass and that plans some trades, with a broker of two order lists. -/
def hostReady (clock : ℚ) (planned : PlannedTrades)
    (openOrders completedOrders : List OpenOrderSnapshot) : Oracle where
  clock := clock
  answer
    | .host .assertTradingRecoveryReady => .ok ()
    | .host .assertRebalanceMarketWindow => .ok ()
    | .host (.planTrades _ _) => .ok planned
    | .host (.writeReport _) => .ok ()
    | .host (.recordPlanned _) => .ok ()
    | .host (.sendAlert _) => .ok ()
    | .host (.recordReconciliation _) => .ok ()
    | o => (listsOnly clock openOrders completedOrders).answer o

/-- A sale of five shares. -/
def plannedSale : ProposedTrade where
  ticker := "VTI"
  side := .sell
  quantity := 5
  notional := 500
  referencePrice := 100
  limitPrice := some 100
  reason := "drift"

/-- A plan of one sale without warnings. -/
def salePlanned : PlannedTrades where
  trades := [plannedSale]
  warnings := []

/-- An order of the session before, gone from the broker's lists, blocks the paper attempt, which
would otherwise hand the sale over. -/
theorem unresolved_order_stops_paper_attempt :
    PassesNoTrade (openWorld.run ((⟨protocolBroker true true false,
      .onPaperFromSnapshot⟩ : RebalanceEngine).runRebalance "2026-01-06" "next" true)
      (List.replicate 30 (hostReady 400 salePlanned [] [])) (World.of reservedLedger)) ∧
    Op.broker (.submitTrades [{ plannedSale with orderRef := some "poma:next:0:VTI:SELL" }]) ∈
      opsOf (openWorld.run ((⟨protocolBroker true true false,
        .onPaperFromSnapshot⟩ : RebalanceEngine).runRebalance "2026-01-06" "next" true)
        (List.replicate 30 (hostReady 400 salePlanned [] [])) (World.of .empty)) := by
  have hstops := unresolved_orders_stop_trading .onPaperFromSnapshot true true false
    (by decide) reservedLedger "2026-01-06" "next" true
    (List.replicate 30 (hostReady 400 salePlanned [] []))
  refine ⟨?_, by decide +kernel⟩
  refine (hstops.1 ⟨[blockWarning [reservedRow] "a prior session"], []⟩ (by decide +kernel)
    (Or.inl ⟨closeUnreportedOpenEntry reservedRow 400, by decide +kernel, ?_⟩)).2
  exact Or.inl (by decide +kernel)

end Poma

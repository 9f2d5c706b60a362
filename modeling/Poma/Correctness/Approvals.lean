import Poma.Correctness.Batches
import Poma.Correctness.Blocking
import Poma.Correctness.PlanLimits

/-!
# What a run hands over

No batch is submitted in a run before the gates have passed and a plan within its
limits is recorded, and then what the plan approves is. So the batches sell no
more of a position than the run has read as held, and no buy goes out that the
cash read last does not cover.
-/

namespace Poma

open Interaction

/-- The environment that plans as the code does, from whatever it reads, and may answer anything
else. -/
def plannedBy (library : FrameLibrary) (settings : PlanSettings) : Environment Unit where
  Choice := Oracle × PlanReads
  clock c _ := c.1.clock
  answer c _ o := match o with
    | .host (.planTrades _ _) => (planTrades library settings true c.2, ())
    | o => (c.1.answer o, ())

/-- The environment in which what the plan is computed from is as stated. -/
def plannedFrom (library : FrameLibrary) (settings : PlanSettings) (Read : PlanReads → Prop) :
    Environment Unit := (plannedBy library settings).restrict fun c => Read c.2

/-- What has happened before a batch is handed over: the gates have passed, and a plan that keeps
its limits is recorded. -/
structure Approved {library : FrameLibrary} {settings : PlanSettings} {reads : PlanReads}
    (steps : PlanSteps library settings reads) (sessionDate runId : String) (allow : Bool)
    (τ : List (Event sig)) : Prop where
  trading : settings.execution.tradingMode ≠ .dryRun
  recovered : (⟨Op.host .assertTradingRecoveryReady, .ok ()⟩ : Event sig) ∈ τ
  opened : allow = true ∨ (⟨Op.host .assertRebalanceMarketWindow, .ok ()⟩ : Event sig) ∈ τ
  planned : (⟨Op.host (.planTrades sessionDate runId), .ok (steps.plan true)⟩ : Event sig) ∈ τ
  recorded : ∃ plan : RebalancePlan, plan.runId = runId ∧ plan.trades = steps.sized.trades ∧
    (⟨Op.host (.recordPlanned plan), .ok ()⟩ : Event sig) ∈ τ
  limits : steps.WithinLimits true

/-- No batch is handed over, or it is after a plan from reads as stated is approved, and as stated of
its trades. -/
def ApprovedThen (library : FrameLibrary) (settings : PlanSettings) (sessionDate runId : String)
    (allow : Bool) (Read : PlanReads → Prop)
    (P : List ProposedTrade → List (Event sig) → Prop) (τ : List (Event sig)) : Prop :=
  (∀ event ∈ τ, Op.HandsNothing event.op) ∨
    ∃ reads, Read reads ∧ ∃ steps : PlanSteps library settings reads, ∃ before after,
      τ = before ++ after ∧ Approved steps sessionDate runId allow before ∧
        (∀ event ∈ before, Op.HandsNothing event.op) ∧ P steps.sized.trades after

section Runs

variable {library : FrameLibrary} {settings : PlanSettings}
  {isIbkr hasReplacement hasHistory : Bool} {sessionDate runId : String} {allow : Bool}
  {Read : PlanReads → Prop}

/-- What is emitted wherever the plan's reads are as stated holds of a run on such reads. -/
theorem emits_plannedFrom_run {α : Type} {p : M α} {P : TracePost sig α}
    (h : (plannedFrom library settings Read).system.Emits p P) {choices : List (Oracle × PlanReads)}
    (hread : ∀ c ∈ choices, Read c.2) (ledger : OrderStore) :
    P ((plannedBy library settings).system.run p choices (World.of ledger)).outcome
      ((plannedBy library settings).system.run p choices (World.of ledger)).trace := by
  unfold plannedFrom at h
  rw [Environment.system_restrict] at h
  exact h.restrict_run hread (World.of ledger)

/-- Every trade of a plan is worth its notional at most. -/
theorem PlanSteps.valued {reads : PlanReads} (steps : PlanSteps library settings reads) :
    ∀ trade ∈ steps.sized.trades, trade.Valued := by
  intro trade htrade
  have hcloses := steps.closedBy htrade
  exact ⟨hcloses.quantity_pos, hcloses.price_pos, hcloses.notional⟩

theorem askHost_handsNothing (call : HostCall) :
    (askHost call).Uses (S := sig) Op.HandsNothing :=
  Prog.uses_perform (S := sig) rfl

theorem emits_planTrades : (plannedFrom library settings Read).system.Emits
    (askHost (.planTrades sessionDate runId)) fun out τ =>
      System.Performs (S := sig) (Op.host (.planTrades sessionDate runId)) out τ ∧
        ∀ planned, out = .returned planned →
          ∃ reads, Read reads ∧ planTrades library settings true reads = .ok planned := by
  have hanswered : (plannedFrom library settings Read).system.Emits
      (askHost (.planTrades sessionDate runId)) fun out _ => ∀ planned, out = .returned planned →
        ∃ reads, Read reads ∧ planTrades library settings true reads = .ok planned := by
    refine ⟨fun cs s planned hreturned => ?_⟩
    cases cs with
    | nil => cases hreturned
    | cons c cs =>
      obtain ⟨⟨oracle, reads⟩, hread⟩ := c
      have hact : ((plannedFrom library settings Read).system.act ⟨(oracle, reads), hread⟩ s
          (Op.host (.planTrades sessionDate runId))).1 = planTrades library settings true reads := rfl
      simp only [askHost, Prog.perform, System.run, Run.after] at hreturned
      rw [hact] at hreturned
      cases hplan : planTrades library settings true reads with
      | error e =>
        rw [hplan] at hreturned
        cases hreturned
      | ok a =>
        rw [hplan] at hreturned
        exact ⟨reads, hread, hplan.trans (congrArg Except.ok (Outcome.returned.inj hreturned))⟩
  exact (System.emits_performs (S := sig) _).and hanswered

variable {E : Environment Unit} {engine : RebalanceEngine}

/-- The gates hand nothing over, and only a run that trades nothing passes without them. -/
theorem emits_gates : E.system.Emits (engine.gates allow) fun out τ =>
    (∀ event ∈ τ, Op.HandsNothing event.op) ∧ (out = .returned () →
      engine.settings.tradingMode ≠ .dryRun →
        (⟨Op.host .assertTradingRecoveryReady, .ok ()⟩ : Event sig) ∈ τ ∧
          (allow = true ∨ (⟨Op.host .assertRebalanceMarketWindow, .ok ()⟩ : Event sig) ∈ τ)) := by
  have huses : (engine.gates allow).Uses (S := sig) Op.HandsNothing :=
    Prog.uses_bind (α := Unit) (Prog.uses_ite (askHost_handsNothing _) trivial) fun _ =>
      Prog.uses_ite trivial (askHost_handsNothing _)
  apply (System.emits_of_uses huses).and
  unfold RebalanceEngine.gates
  by_cases hdry : engine.settings.tradingMode = .dryRun
  · have hany : ∀ p : M Unit, E.system.Emits p fun _ _ => True := fun p => ⟨fun _ _ => trivial⟩
    exact (hany _).mono fun _ _ _ _ hmode => absurd hdry hmode
  rw [if_pos hdry]
  apply System.emits_bind (System.emits_performs (S := sig) (Op.host .assertTradingRecoveryReady))
  · intro _ τ hτ
    obtain rfl := hτ.returned _ rfl
    apply System.emits_ite (α := Unit)
    · intro hskip
      apply System.emits_ret
      exact fun _ _ => ⟨List.mem_append_left _ List.mem_cons_self, Or.inl (hskip.resolve_right hdry)⟩
    · intro _
      apply (System.emits_performs (S := sig) (Op.host .assertRebalanceMarketWindow)).mono
      intro out more hmore hreturned _
      obtain rfl := hmore.returned () hreturned
      refine ⟨List.mem_append_left _ List.mem_cons_self, Or.inr ?_⟩
      exact List.mem_append_right _ List.mem_cons_self
  · exact fun _ _ _ h => nomatch h
  · exact fun _ _ h => nomatch h

/-- A built plan has the trades of one that was planned, and all its warnings. -/
theorem emits_buildPlan (hB : engine.broker.Within Op.HandsNothing) :
    (plannedFrom library settings Read).system.Emits (engine.buildPlan sessionDate runId) fun out τ =>
      (∀ event ∈ τ, Op.HandsNothing event.op) ∧ ∀ plan, out = .returned plan →
        ∃ reads, Read reads ∧ ∃ steps : PlanSteps library settings reads,
          (⟨Op.host (.planTrades sessionDate runId), .ok (steps.plan true)⟩ : Event sig) ∈ τ ∧
            plan.runId = runId ∧ plan.trades = steps.sized.trades ∧
            (steps.plan true).warnings ⊆ plan.warnings := by
  have hcheck : (engine.manager.checkStaleOrders sessionDate runId).Uses (S := sig)
      Op.HandsNothing := by
    apply checkStaleOrders_uses hB
    · rfl
    · rfl
    · exact fun _ => rfl
  have hstale : (if engine.settings.tradingMode ≠ .dryRun then
      (engine.manager.checkStaleOrders sessionDate runId).bind fun check => .ret check.warnings
      else .ret [] : M (List String)).Uses (S := sig) Op.HandsNothing :=
    Prog.uses_ite (Prog.uses_bind hcheck fun _ => trivial) trivial
  unfold RebalanceEngine.buildPlan
  apply System.emits_bind (System.emits_of_uses hstale)
  · intro stale τ hτ
    apply System.emits_bind emits_planTrades
    · rintro planned more ⟨hperformed, hplanned⟩
      obtain rfl := hperformed.returned planned rfl
      obtain ⟨reads, hread, hreads⟩ := hplanned planned rfl
      obtain ⟨steps, rfl⟩ := planTrades_steps hreads
      apply System.emits_ret
      constructor
      · intro event hevent
        rcases List.mem_append.mp hevent with hevent | hevent
        · exact hτ event hevent
        · rw [List.append_nil, List.mem_singleton] at hevent
          subst hevent
          rfl
      · rintro plan ⟨⟩
        refine ⟨reads, hread, steps, ?_, rfl, rfl, List.subset_append_right _ _⟩
        exact List.mem_append_right _ List.mem_cons_self
    · rintro e more ⟨hperformed, -⟩
      obtain rfl := hperformed.raised e rfl
      refine ⟨fun event hevent => ?_, nofun⟩
      rcases List.mem_append.mp hevent with hevent | hevent
      · exact hτ event hevent
      · rw [List.mem_singleton.mp hevent]
        rfl
    · rintro more ⟨hperformed, -⟩
      obtain rfl := hperformed.stopped rfl
      refine ⟨?_, nofun⟩
      rwa [List.append_nil]
  · exact fun _ _ hτ => ⟨hτ, nofun⟩
  · exact fun _ hτ => ⟨hτ, nofun⟩

section Framed

variable {P : List (Event sig) → Prop}

/-- What is framed and holds of a submission holds of the execution around it. -/
theorem emits_executePlan {plan : RebalancePlan} (hframed : Framed P) {settings : Settings}
    (hsubmit : E.system.Emits ((protocolManager settings isIbkr hasReplacement hasHistory).submitPlan
      plan (callbackOf true)) fun _ τ => P τ) :
    E.system.Emits ((⟨protocolBroker isIbkr hasReplacement hasHistory, settings⟩ :
      RebalanceEngine).executePlan plan) fun _ τ => P τ := by
  have hread : (askBroker .accountSnapshot).Uses (S := sig) Op.HandsNothing :=
    askBroker_handsNothing trivial
  unfold RebalanceEngine.executePlan
  apply System.emits_meets_then (P := P) (askHost_handsNothing _)
  · intro _ _
    apply System.emits_then (P := P) (Q := fun τ => ∀ event ∈ τ, Op.HandsNothing event.op)
    · unfold RebalanceEngine.execute
      apply System.emits_then (P := P) (Q := fun τ => ∀ event ∈ τ, Op.HandsNothing event.op)
      · exact hsubmit
      · exact fun _ => System.emits_ret (List.forall_mem_nil _)
      · exact fun _ _ => hframed.before
      · exact fun _ hτ => hτ
    · intro executed
      apply System.emits_of_uses (S := sig)
      apply Prog.uses_bind (askHost_handsNothing _)
      intro _
      apply Prog.uses_bind (Prog.uses_attempt hread)
      intro _
      apply Prog.uses_bind (askHost_handsNothing _)
      intro _
      exact Prog.uses_bind (askHost_handsNothing _) fun _ => trivial
    · exact fun _ _ => hframed.before
    · exact fun _ hτ => hτ
  · exact fun _ _ => hframed.after
  · exact fun _ => hframed.nothing

/-- The part of a run after its plan is built. -/
def RebalanceEngine.afterPlan (self : RebalanceEngine) (plan : RebalancePlan) :
    M RebalanceOutcome :=
  (askHost (.writeReport plan)).bind fun _ =>
  (askHost (.recordPlanned plan)).bind fun _ =>
  let isDryRun : Bool := self.settings.tradingMode = .dryRun
  if isDryRun || plan.isBlocked then
    let status := if isDryRun then "dry_run" else "blocked"
    (askHost (.sendAlert status)).bind fun _ => .ret {
      plan := plan
      executed := false
      blocked := plan.isBlocked
      status := status }
  else self.executePlan plan

/-- A plan is handed over once it is recorded, where it is to be traded and not blocked. -/
structure RecordedFirst (settings : Settings) (plan : RebalancePlan) (before : List (Event sig)) :
    Prop where
  trading : settings.tradingMode ≠ .dryRun
  unblocked : plan.isBlocked = false
  recorded : (⟨Op.host (.recordPlanned plan), .ok ()⟩ : Event sig) ∈ before
  nothing : ∀ event ∈ before, Op.HandsNothing event.op

theorem emits_afterPlan {plan : RebalancePlan} (hframed : Framed P) {settings : Settings}
    (hsubmit : E.system.Emits ((protocolManager settings isIbkr hasReplacement hasHistory).submitPlan
      plan (callbackOf true)) fun _ τ => P τ) :
    E.system.Emits ((⟨protocolBroker isIbkr hasReplacement hasHistory, settings⟩ :
      RebalanceEngine).afterPlan plan) fun _ τ => (∀ event ∈ τ, Op.HandsNothing event.op) ∨
        ∃ before after, τ = before ++ after ∧ RecordedFirst settings plan before ∧ P after := by
  have halert : ∀ (status : String) (outcome : RebalanceOutcome),
      ((askHost (.sendAlert status)).bind fun _ => (.ret outcome : M RebalanceOutcome)).Uses
        (S := sig) Op.HandsNothing :=
    fun _ _ => Prog.uses_bind (askHost_handsNothing _) fun _ => trivial
  unfold RebalanceEngine.afterPlan
  apply System.emits_bind (System.emits_of_uses (askHost_handsNothing (.writeReport plan)))
  · intro _ written hwritten
    apply System.emits_bind ((System.emits_performs (S := sig) (Op.host (.recordPlanned plan))).and
      (System.emits_of_uses (askHost_handsNothing (.recordPlanned plan))))
    · rintro _ recorded ⟨hperformed, hrecorded⟩
      have hbefore := List.forall_mem_append.mpr ⟨hwritten, hrecorded⟩
      obtain rfl := hperformed.returned _ rfl
      apply System.emits_ite
      · intro _
        apply (System.emits_of_uses (halert _ _)).mono
        intro _ alerted halerted
        refine Or.inl ?_
        rw [← List.append_assoc]
        exact List.forall_mem_append.mpr ⟨hbefore, halerted⟩
      · intro hexecuted
        rw [Bool.or_eq_true, decide_eq_true_eq, not_or, Bool.not_eq_true] at hexecuted
        apply (emits_executePlan hframed hsubmit).mono
        intro _ handed hhanded
        refine Or.inr ⟨_, handed, (List.append_assoc _ _ _).symm, ?_, hhanded⟩
        exact ⟨hexecuted.1, hexecuted.2, List.mem_append_right _ List.mem_cons_self, hbefore⟩
    · exact fun _ _ h => Or.inl (List.forall_mem_append.mpr ⟨hwritten, h.2⟩)
    · exact fun _ h => Or.inl (List.forall_mem_append.mpr ⟨hwritten, h.2⟩)
  · exact fun _ _ hwritten => Or.inl hwritten
  · exact fun _ hwritten => Or.inl hwritten

end Framed

/-- What is framed and holds of every submission of a plan of the engine holds of what a run hands
over, after its plan is approved. -/
theorem emits_runRebalance {P : List ProposedTrade → List (Event sig) → Prop}
    (hframed : ∀ trades, Framed (P trades))
    (hsubmit : ∀ {reads} (steps : PlanSteps library settings reads) (plan : RebalancePlan),
      plan.trades = steps.sized.trades → (plannedFrom library settings Read).system.Emits
        ((protocolManager settings.execution isIbkr hasReplacement hasHistory).submitPlan plan
          (callbackOf true)) fun _ τ => P steps.sized.trades τ) :
    (plannedFrom library settings Read).system.Emits
      ((⟨protocolBroker isIbkr hasReplacement hasHistory, settings.execution⟩ :
        RebalanceEngine).runRebalance sessionDate runId allow)
      fun _ τ => ApprovedThen library settings sessionDate runId allow Read P τ := by
  have hB : (protocolBroker isIbkr hasReplacement hasHistory).Within Op.HandsNothing := by
    apply protocolBroker_within
    intro call hne
    cases call with
    | submitTrades trades => exact absurd rfl (hne trades)
    | _ => rfl
  apply System.emits_bind emits_gates
  · rintro _ gated ⟨hgated, hgates⟩
    apply System.emits_bind (emits_buildPlan hB)
    · rintro plan built ⟨hbuilt, hplanned⟩
      obtain ⟨reads, hread, steps, hstep, hrun, htrades, hwarnings⟩ := hplanned plan rfl
      have hearlier := List.forall_mem_append.mpr ⟨hgated, hbuilt⟩
      apply (emits_afterPlan (hframed _) (hsubmit steps plan htrades)).mono
      intro _ more hmore
      rw [← List.append_assoc]
      rcases hmore with hmore | ⟨before, handed, rfl, hrecorded, hhanded⟩
      · exact Or.inl (List.forall_mem_append.mpr ⟨hearlier, hmore⟩)
      have hbefore := List.forall_mem_append.mpr ⟨hearlier, hrecorded.nothing⟩
      obtain ⟨hrecovered, hopened⟩ := hgates rfl hrecorded.trading
      have hunblocked : Unblocked (steps.plan true).warnings := fun warning hwarning =>
        Bool.eq_false_iff.mpr
          (List.any_eq_false.mp hrecorded.unblocked warning (hwarnings hwarning))
      refine Or.inr ⟨reads, hread, steps, _, handed, (List.append_assoc _ _ _).symm, ?_, hbefore,
        hhanded⟩
      constructor
      case trading => exact hrecorded.trading
      case recovered => exact List.mem_append_left _ (List.mem_append_left _ hrecovered)
      case opened =>
        exact hopened.imp_right fun h => List.mem_append_left _ (List.mem_append_left _ h)
      case planned => exact List.mem_append_left _ (List.mem_append_right _ hstep)
      case recorded => exact ⟨plan, hrun, htrades, List.mem_append_right _ hrecorded.recorded⟩
      case limits => exact steps.withinLimits hunblocked
    · exact fun _ _ h => Or.inl (List.forall_mem_append.mpr ⟨hgated, h.1⟩)
    · exact fun _ h => Or.inl (List.forall_mem_append.mpr ⟨hgated, h.1⟩)
  · exact fun _ _ hgated => Or.inl hgated.1
  · exact fun _ hgated => Or.inl hgated.1

theorem emits_handsApproved : (plannedFrom library settings Read).system.Emits
    ((⟨protocolBroker isIbkr hasReplacement hasHistory, settings.execution⟩ :
      RebalanceEngine).runRebalance sessionDate runId allow)
    fun _ τ => ApprovedThen library settings sessionDate runId allow Read HandsPlan τ := by
  apply emits_runRebalance handsPlan_framed
  intro reads steps plan htrades
  rw [← htrades]
  exact emits_submitPlan (htrades ▸ steps.nodup_tickers) (htrades ▸ steps.valued)

/-- In every run, no batch is submitted before the gates have passed and a plan within its limits is
recorded, which is computed from what this run has read, and then at most one batch of sells and one
of buys, each trade of them for a trade of the plan. -/
theorem run_hands_over_approved (library : FrameLibrary) (settings : PlanSettings)
    (isIbkr hasReplacement hasHistory : Bool) (sessionDate runId : String) (allow : Bool)
    (choices : List (Oracle × PlanReads)) (ledger : OrderStore) :
    ApprovedThen library settings sessionDate runId allow (fun reads => ∃ c ∈ choices, c.2 = reads)
      HandsPlan ((plannedBy library settings).system.run
        ((⟨protocolBroker isIbkr hasReplacement hasHistory, settings.execution⟩ :
          RebalanceEngine).runRebalance sessionDate runId allow) choices (World.of ledger)).trace :=
  emits_plannedFrom_run emits_handsApproved (fun c hc => ⟨c, hc, rfl⟩) ledger

/-- Covered buys are framed. -/
theorem coversFreshBuys_framed : Framed CoversFreshBuys where
  nothing hτ := (handsOver_of_nothing hτ).coversFreshBuys
  after hτ hmore := coversFreshBuys_append (handsOver_of_nothing hτ) hmore
  before := by
    intro τ more hτ hmore before passed answer after heq hbuy
    rcases List.append_eq_append_iff.mp heq with ⟨rest, rfl, hrest⟩ | ⟨rest, rfl, hrest⟩
    · have hquiet := hmore (⟨Op.broker (.submitTrades passed), answer⟩ : Event sig)
        (hrest ▸ List.mem_append_right _ List.mem_cons_self)
      cases hquiet
    · cases rest with
      | nil =>
        rw [List.nil_append] at hrest
        have hquiet := hmore (⟨Op.broker (.submitTrades passed), answer⟩ : Event sig)
          (hrest ▸ List.mem_cons_self)
        cases hquiet
      | cons event rest =>
        obtain ⟨rfl, _⟩ := List.cons.inj hrest
        exact hτ before passed answer rest rfl hbuy

/-- In every run, each batch of buys goes out after a read of the account whose cash covers it,
unless the plan buys something that costs half a cent or less. -/
theorem run_covers_buys (library : FrameLibrary) (settings : PlanSettings)
    (isIbkr hasReplacement hasHistory : Bool) (sessionDate runId : String) (allow : Bool)
    (choices : List (Oracle × PlanReads)) (ledger : OrderStore) :
    let τ := ((plannedBy library settings).system.run
      ((⟨protocolBroker isIbkr hasReplacement hasHistory, settings.execution⟩ :
        RebalanceEngine).runRebalance sessionDate runId allow) choices (World.of ledger)).trace
    CoversFreshBuys τ ∨ ∃ planned : PlannedTrades,
      (⟨Op.host (.planTrades sessionDate runId), .ok planned⟩ : Event sig) ∈ τ ∧
        ∃ trade ∈ planned.trades, trade.side = .buy ∧ trade.referencePrice ≤ 1 / 200 := by
  intro τ
  have hfunded : ApprovedThen library settings sessionDate runId allow (fun _ => True)
      (fun trades τ => (∀ trade ∈ trades, trade.side = .buy → 1 / 200 < trade.referencePrice) →
        CoversFreshBuys τ) τ := by
    refine emits_plannedFrom_run (emits_runRebalance ?_ ?_) (fun _ _ => trivial) ledger
    · intro trades
      constructor
      · exact fun hτ _ => coversFreshBuys_framed.nothing hτ
      · exact fun hτ hmore hprices => coversFreshBuys_framed.after hτ (hmore hprices)
      · exact fun hτ hmore hprices => coversFreshBuys_framed.before (hτ hprices) hmore
    · intro reads steps plan htrades
      refine ⟨fun cs s hprices => ?_⟩
      have hsound : plan.Sound := steps.sound hprices htrades
      exact ((emits_staged hsound.purchases).runs cs s).coversFreshBuys
  rcases hfunded with hnothing | ⟨reads, -, steps, before, after, hτ, happroved, hbefore, hafter⟩
  · exact Or.inl (coversFreshBuys_framed.nothing hnothing)
  by_cases hprices : ∀ trade ∈ steps.sized.trades, trade.side = .buy →
      1 / 200 < trade.referencePrice
  · refine Or.inl ?_
    rw [hτ]
    exact coversFreshBuys_framed.after hbefore (hafter hprices)
  · refine Or.inr ⟨steps.plan true, ?_, ?_⟩
    · rw [hτ]
      exact List.mem_append_left _ happroved.planned
    · obtain ⟨trade, hprices⟩ := not_forall.mp hprices
      obtain ⟨htrade, hprices⟩ := Classical.not_imp.mp hprices
      obtain ⟨hside, hprice⟩ := Classical.not_imp.mp hprices
      exact ⟨trade, htrade, hside, not_lt.mp hprice⟩

end Runs

/-- The shares of a ticker that the submitted batches sell. -/
def sharesSold (τ : List (Event sig)) (ticker : String) : ℚ :=
  (((handedBatches τ).flatten.filter fun trade => trade.side = .sell ∧ trade.ticker = ticker).map
    (·.quantity)).sum

section Sales

variable {batch planned trades : List ProposedTrade} {ticker : String} {τ : List (Event sig)}

/-- A batch for some sells sells no more of a ticker than they do. -/
theorem BatchFor.sold_le (h : BatchFor batch planned)
    (hplanned : ∀ trade ∈ planned, trade.side = .sell ∧ 0 < trade.quantity) (ticker : String) :
    ((batch.filter (·.ticker = ticker)).map (·.quantity)).sum ≤
      ((planned.filter (·.ticker = ticker)).map (·.quantity)).sum := by
  induction h with
  | nil =>
    apply List.sum_nonneg
    intro quantity hquantity
    obtain ⟨trade, htrade, rfl⟩ := List.mem_map.mp hquantity
    exact (hplanned trade (List.mem_filter.mp htrade).1).2.le
  | @cons sent trade batch planned hsent _ ih =>
    have hrest := ih fun trade htrade => hplanned trade (List.mem_cons_of_mem _ htrade)
    have hsell := hsent.sell (hplanned trade List.mem_cons_self).1
    rw [List.filter_cons, List.filter_cons, hsent.ticker]
    split
    · rw [List.map_cons, List.map_cons, List.sum_cons, List.sum_cons]
      exact add_le_add hsell hrest
    · exact hrest
  | @cons_right trade batch planned _ ih =>
    have hrest := ih fun trade htrade => hplanned trade (List.mem_cons_of_mem _ htrade)
    have hpositive := (hplanned trade List.mem_cons_self).2
    rw [List.filter_cons]
    split
    · rw [List.map_cons, List.sum_cons]
      linarith
    · exact hrest

theorem BatchFor.exists_planned (h : BatchFor batch planned) :
    ∀ sent ∈ batch, ∃ trade ∈ planned, SentFor sent trade := by
  obtain ⟨approved, hsent, hsublist⟩ := List.sublistForall₂_iff.mp h
  intro sent hmem
  obtain ⟨trade, htrade, hfor⟩ := exists_of_forall₂ hsent.flip hmem
  exact ⟨trade, hsublist.subset htrade, hfor⟩

/-- What is handed over of a plan sells no more of a ticker than the plan does. -/
theorem HandsPlan.sold_le (h : HandsPlan trades τ)
    (hpositive : ∀ trade ∈ trades, 0 < trade.quantity) (ticker : String) :
    sharesSold τ ticker ≤
      (((trades.filter (·.side = .sell)).filter (·.ticker = ticker)).map (·.quantity)).sum := by
  obtain ⟨sells, buys, hsells, hbuys, hbatches⟩ := h
  have hsold : ∀ trade ∈ sells, trade.side = .sell ∧ 0 < trade.quantity := by
    intro sent hmem
    obtain ⟨trade, htrade, hfor⟩ := hsells.exists_planned sent hmem
    exact ⟨hfor.side.trans (of_decide_eq_true (List.mem_filter.mp htrade).2), hfor.quantity_pos⟩
  have hbought : ∀ trade ∈ buys, trade.side = .buy := by
    intro sent hmem
    obtain ⟨trade, htrade, hfor⟩ := hbuys.exists_planned sent hmem
    exact hfor.side.trans (of_decide_eq_true (List.mem_filter.mp htrade).2)
  have hhanded : (sells ++ buys).filter (fun trade => trade.side = .sell ∧ trade.ticker = ticker) =
      sells.filter (·.ticker = ticker) := by
    have hnone : buys.filter (fun trade => trade.side = .sell ∧ trade.ticker = ticker) = [] := by
      apply List.filter_eq_nil_iff.mpr
      intro trade htrade
      simp [hbought trade htrade]
    rw [List.filter_append, hnone, List.append_nil]
    apply List.filter_congr
    intro trade htrade
    simp [(hsold trade htrade).1]
  have hflatten : (handedBatches τ).flatten.Sublist (sells ++ buys) := by
    have hall := hbatches.flatten
    simpa using hall
  calc sharesSold τ ticker
    _ ≤ (((sells ++ buys).filter fun trade => trade.side = .sell ∧
        trade.ticker = ticker).map (·.quantity)).sum := by
      apply ((hflatten.filter _).map _).sum_le_sum
      intro quantity hquantity
      rw [hhanded] at hquantity
      obtain ⟨trade, htrade, rfl⟩ := List.mem_map.mp hquantity
      exact (hsold trade (List.mem_filter.mp htrade).1).2.le
    _ = ((sells.filter (·.ticker = ticker)).map (·.quantity)).sum := by rw [hhanded]
    _ ≤ _ := by
      apply hsells.sold_le
      intro trade htrade
      obtain ⟨hmem, hside⟩ := List.mem_filter.mp htrade
      exact ⟨of_decide_eq_true hside, hpositive trade hmem⟩

/-- Where no two trades share a ticker, those of one are a trade or none. -/
theorem filter_ticker (h : (trades.map (·.ticker)).Nodup) (ticker : String) :
    trades.filter (·.ticker = ticker) = [] ∨
      ∃ trade ∈ trades, trade.ticker = ticker ∧ trades.filter (·.ticker = ticker) = [trade] := by
  induction trades with
  | nil => exact Or.inl rfl
  | cons trade trades ih =>
    obtain ⟨hfirst, hrest⟩ := List.nodup_cons.mp h
    by_cases hticker : trade.ticker = ticker
    · have hnone : trades.filter (·.ticker = ticker) = [] := by
        apply List.filter_eq_nil_iff.mpr
        intro other hother hsame
        have hmem : other.ticker ∈ trades.map (·.ticker) := List.mem_map_of_mem hother
        rw [of_decide_eq_true hsame, ← hticker] at hmem
        exact hfirst hmem
      refine Or.inr ⟨trade, List.mem_cons_self, hticker, ?_⟩
      rw [List.filter_cons_of_pos (by simpa using hticker), hnone]
    · rw [List.filter_cons_of_neg (by simpa using hticker)]
      apply (ih hrest).imp_right
      rintro ⟨other, hother, hsame⟩
      exact ⟨other, List.mem_cons_of_mem _ hother, hsame⟩

end Sales

/-- No run submits more shares of a ticker to be sold than it has read as held. -/
theorem run_never_oversells (library : FrameLibrary) (settings : PlanSettings)
    (isIbkr hasReplacement hasHistory : Bool) (sessionDate runId : String) (allow : Bool)
    (choices : List (Oracle × PlanReads)) (ledger : OrderStore) (ticker : String) :
    let τ := ((plannedBy library settings).system.run
      ((⟨protocolBroker isIbkr hasReplacement hasHistory, settings.execution⟩ :
        RebalanceEngine).runRebalance sessionDate runId allow) choices (World.of ledger)).trace
    sharesSold τ ticker ≤ 0 ∨ ∃ reads : PlanReads, (∃ c ∈ choices, c.2 = reads) ∧
      (∃ planned, planTrades library settings true reads = .ok planned ∧
        (⟨Op.host (.planTrades sessionDate runId), .ok planned⟩ : Event sig) ∈ τ) ∧
      ∃ account, reads.account = .ok account ∧
        ∃ position ∈ account.positions, position.ticker = ticker ∧
          sharesSold τ ticker ≤ |position.quantity| := by
  intro τ
  have hhanded : ApprovedThen library settings sessionDate runId allow
      (fun reads => ∃ c ∈ choices, c.2 = reads) HandsPlan τ :=
    emits_plannedFrom_run emits_handsApproved (fun c hc => ⟨c, hc, rfl⟩) ledger
  rcases hhanded with hnone | ⟨reads, hchosen, steps, before, after, hτ, happroved, hbefore, hafter⟩
  · refine Or.inl (le_of_eq ?_)
    unfold sharesSold
    rw [handedBatches_nothing hnone]
    rfl
  have hsold : sharesSold τ ticker = sharesSold after ticker := by
    unfold sharesSold
    rw [hτ, handedBatches_append, handedBatches_nothing hbefore, List.nil_append]
  have hpositive : ∀ trade ∈ steps.sized.trades, 0 < trade.quantity := fun trade htrade =>
    (steps.valued trade htrade).quantity_pos
  have hbound := hafter.sold_le hpositive ticker
  rw [← hsold] at hbound
  have hdistinct : ((steps.sized.trades.filter (·.side = .sell)).map (·.ticker)).Nodup :=
    steps.nodup_tickers.sublist (List.filter_sublist.map _)
  rcases filter_ticker hdistinct ticker with hnone | ⟨trade, htrade, rfl, hone⟩
  · rw [hnone] at hbound
    exact Or.inl hbound
  rw [hone, List.map_singleton, List.sum_singleton] at hbound
  obtain ⟨hmem, hside⟩ := List.mem_filter.mp htrade
  obtain ⟨position, hposition, hticker, hheld, -⟩ := steps.sold_held hmem (of_decide_eq_true hside)
  have hread := (happroved.limits.read.resolve_left happroved.trading).1
  refine Or.inr ⟨reads, hchosen, ⟨steps.plan true, ?_, ?_⟩, steps.account, hread, position,
    hposition, hticker, hbound.trans hheld⟩
  · exact steps.planTrades_eq
  · rw [hτ]
    exact List.mem_append_left _ happroved.planned

/-- Half of a portfolio in one fund, priced from the plan. -/
def halfFromSnapshot : PlanSettings := { halfInFund with execution := Settings.onPaperFromSnapshot }

/-- A run sells the position that is not targeted. -/
example : sharesSold ((plannedBy plainLibrary halfFromSnapshot).system.run
    ((⟨protocolBroker true true true, halfFromSnapshot.execution⟩ : RebalanceEngine).runRebalance
      "2026-01-06" "run" true)
    (List.replicate 30 (hostReady 400 salePlanned [] [], fundAt 100))
    (World.of .empty)).trace "OLD" = 60 := by decide +kernel

end Poma

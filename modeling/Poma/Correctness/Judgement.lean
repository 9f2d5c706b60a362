import Poma.Correctness.Blocking
import Poma.Correctness.FollowUp
import Poma.Host.Journal

/-!
# The plan a run is judged against

The plan of an attempt is saved before the attempt hands an order to the broker,
and nothing else touches the file of the run. So the file holds the plan of the
first attempt that handed an order over exactly as long as no later attempt saves
another one, and it is readable as long as no write of it is cut off.
-/

namespace Poma

open Interaction

/-- Whether an operation hands an order to the broker. -/
def Op.handsOrder : Op → Bool
  | .broker (.submitTrades trades) => trades ≠ []
  | _ => false

/-- The plan an operation saves. -/
def Op.plan? : Op → Option RebalancePlan
  | .host (.recordPlanned plan) => some plan
  | _ => none

/-- Whether an order was handed to the broker. -/
def handedOrder (τ : List (Event sig)) : Bool := τ.any fun event => Op.handsOrder event.op

/-- The plans that were saved whole. -/
def savedPlans (τ : List (Event sig)) : List RebalancePlan :=
  τ.filterMap fun event => match event with
    | ⟨.host (.recordPlanned plan), .ok _⟩ => some plan
    | _ => none

/-- An operation that neither saves a plan nor hands an order to the broker. -/
def Op.BeforePlan (o : Op) : Prop := o.handsOrder = false ∧ o.plan? = none

/-- An operation that saves no plan. -/
def Op.SavesNoPlan (o : Op) : Prop := o.plan? = none

/-- No write of a plan is cut off. -/
def JournalOracle.WritesWhole (c : JournalOracle) : Prop := ∀ e, c.write ≠ .torn e

/-- Before an attempt has saved its plan. -/
structure Unsaved (before : Journal) (τ : List (Event sig)) (journal : Journal) : Prop where
  handed : handedOrder τ = false
  unsaved : savedPlans τ = []
  same : journal = before

/-- What an attempt of a run leaves in the file of its run: without a saved plan, the file as it
was, and no order handed over. -/
def Attempted (runId : String) (before : Journal) (τ : List (Event sig)) (after : Journal) : Prop :=
  (handedOrder τ = false ∧ after runId = before runId) ∨
    ∃ plan, savedPlans τ = [plan] ∧ after runId = .saved plan.saved

section Attempt

/-- Only a saved plan changes the journal. -/
theorem journal_act_outside {o : Op} (ho : o.plan? = none) (c : JournalOracle)
    (s : World Journal) : (journalEnvironment.system.act c s o).2.outside = s.outside := by
  cases o with
  | host call => cases call <;> first | rfl | cases ho
  | _ => rfl

theorem handedOrder_append (τ τ' : List (Event sig)) :
    handedOrder (τ ++ τ') = (handedOrder τ || handedOrder τ') := List.any_append

theorem savedPlans_append (τ τ' : List (Event sig)) :
    savedPlans (τ ++ τ') = savedPlans τ ++ savedPlans τ' := List.filterMap_append

theorem savedPlans_one {o : Op} (ho : o.SavesNoPlan) (r : Except Exn o.Ans) :
    savedPlans [⟨o, r⟩] = [] := by
  cases o with
  | host call => cases call <;> first | rfl | cases ho
  | _ => rfl

theorem meets_recordResult_any {plan : RebalancePlan} {allowed : Op → Prop}
    (hload : allowed .loadLatestEntries) (hclock : allowed .utcNow)
    (hrecord : ∀ x, allowed (.upsert x)) (trade : ProposedTrade) (result : OrderResult) :
    (recordResult plan trade result).Uses (S := sig) allowed :=
  meets_recordResult hload hclock (fun _ _ _ _ _ _ => hrecord _) fun _ => hrecord _

/-- An attempt at orders uses no step of the host. -/
theorem submitPlan_savesNoPlan {settings : Settings} {isIbkr hasReplacement hasHistory : Bool}
    (plan : RebalancePlan) :
    ((protocolManager settings isIbkr hasReplacement hasHistory).submitPlan plan
      (some observe)).Uses (S := sig) Op.SavesNoPlan := by
  have hresult : ∀ trade result, (recordResult plan trade result).Uses (S := sig) Op.SavesNoPlan :=
    meets_recordResult_any rfl rfl fun _ => rfl
  have hnotified : ∀ trade result,
      (notify (some observe) trade result).Uses (S := sig) Op.SavesNoPlan :=
    fun trade result => show (observe trade result).Uses (S := sig) Op.SavesNoPlan from
      Prog.uses_perform rfl
  have hm : AttemptMeets (protocolManager settings isIbkr hasReplacement hasHistory) plan
      (some observe) (fun _ _ => True) Op.SavesNoPlan (fun _ => True) fun _ => True := {
    repriced := fun _ _ _ _ => trivial
    unpriced := fun _ _ _ => trivial
    trimmed := fun _ _ _ _ => trivial
    planned := fun _ _ => rfl
    result := fun trade result _ => hresult trade result
    notified := hnotified
    quotes := fun tickers => Prog.uses_perform (S := sig)
      (show Op.SavesNoPlan (.broker (.executionQuotes tickers)) from rfl)
    account := Prog.uses_perform (S := sig)
      (show Op.SavesNoPlan (.broker .accountSnapshot) from rfl)
    sleep := fun _ => rfl
    submit := fun _ _ => meets_protocolSubmit (fun trade _ result => hresult trade result) hnotified
      (fun _ _ => rfl) rfl }
  exact submitPlan_meets rfl hm

variable {P : JournalOracle → Prop} (settings : Settings)
  (isIbkr hasReplacement hasHistory : Bool)

/-- What is done before the plan is saved, and the run of the plan. -/
theorem meets_buildPlan (sessionDate runId : String) :
    ((⟨protocolBroker isIbkr hasReplacement hasHistory, settings⟩ : RebalanceEngine).buildPlan
      sessionDate runId).Meets (S := sig) (fun _ _ => True) Op.BeforePlan
      fun plan => plan.runId = runId := by
  have hB : (protocolBroker isIbkr hasReplacement hasHistory).Within Op.BeforePlan := by
    refine protocolBroker_within isIbkr hasReplacement hasHistory fun call hcall => ?_
    cases call with
    | submitTrades trades => exact absurd rfl (hcall trades)
    | _ => exact ⟨rfl, rfl⟩
  have hhost : (askHost (.planTrades sessionDate runId)).Uses (S := sig) Op.BeforePlan :=
    Prog.uses_perform ⟨rfl, rfl⟩
  unfold RebalanceEngine.buildPlan
  refine Prog.meets_bind (R := fun _ => True) (Prog.uses_ite (Prog.uses_bind
    (checkStaleOrders_uses hB ⟨rfl, rfl⟩ ⟨rfl, rfl⟩ (fun _ => ⟨rfl, rfl⟩) sessionDate runId)
    fun _ => trivial) trivial) fun _ _ => ?_
  exact Prog.meets_bind hhost fun _ _ => rfl

/-- After the plan is saved, no other is. -/
theorem executePlan_savesNoPlan (plan : RebalancePlan) :
    ((⟨protocolBroker isIbkr hasReplacement hasHistory, settings⟩ : RebalanceEngine).executePlan
      plan).Uses (S := sig) Op.SavesNoPlan := by
  have hsubmit : ((⟨protocolBroker isIbkr hasReplacement hasHistory, settings⟩ :
      RebalanceEngine).execute plan (some observe)).Uses (S := sig) Op.SavesNoPlan :=
    Prog.uses_bind (submitPlan_savesNoPlan plan) fun _ => trivial
  unfold RebalanceEngine.executePlan
  refine Prog.uses_bind (Prog.uses_perform rfl) fun _ => Prog.uses_bind hsubmit fun executed => ?_
  refine Prog.uses_bind (Prog.uses_perform rfl) fun _ => ?_
  refine Prog.uses_bind (Prog.uses_attempt (Prog.uses_perform rfl)) fun _ => ?_
  exact Prog.uses_bind (Prog.uses_perform rfl) fun _ =>
    Prog.uses_bind (Prog.uses_perform rfl) fun _ => trivial

/-- What is done before the plan is saved leaves the journal, and hands nothing over. -/
theorem wp_beforePlan {α : Type} {p : M α} {R : α → Prop} {before : Journal}
    (hp : p.Meets (S := sig) (fun _ _ => True) Op.BeforePlan R) {τ : List (Event sig)}
    {s : World Journal} (h : Unsaved before τ s.outside) :
    (journalEnvironment.system.restrict P).wp p (fun out τ' s' =>
      Unsaved before τ' s'.outside ∧ ∀ a, out = .returned a → R a) τ s := by
  refine System.wp_of_meets _ (I := fun τ' (s' : World Journal) => Unsaved before τ' s'.outside) hp
    ?_ h
  rintro o ⟨hhands, hplan⟩ c τ' s' ⟨hnone, hunsaved, hsame⟩
  refine ⟨trivial, ?_, ?_, (journal_act_outside hplan c.1 s').trans hsame⟩
  · rw [handedOrder_append, hnone]
    exact (Bool.or_false _).trans hhands
  · rw [savedPlans_append, hunsaved]
    exact savedPlans_one hplan _

/-- What is done after it keeps what is saved. -/
theorem wp_afterPlan {α : Type} {p : M α} {plan : RebalancePlan} {before : Journal}
    (hp : p.Uses (S := sig) Op.SavesNoPlan) {τ : List (Event sig)} {s : World Journal}
    (hplans : savedPlans τ = [plan]) (hfile : s.outside plan.runId = .saved plan.saved) :
    (journalEnvironment.system.restrict P).wp p (fun _ τ' s' =>
      Attempted plan.runId before τ' s'.outside) τ s := by
  refine System.wp_mono _ (System.wp_of_uses _ (I := fun τ' (s' : World Journal) =>
    savedPlans τ' = [plan] ∧ s'.outside plan.runId = .saved plan.saved) hp ?_ ⟨hplans, hfile⟩) ?_
  · rintro o hplan c τ' s' ⟨hplans', hfile'⟩
    refine ⟨?_, (congrFun (journal_act_outside hplan c.1 s') _).trans hfile'⟩
    rw [savedPlans_append, hplans']
    exact congrArg ([plan] ++ ·) (savedPlans_one hplan _)
  · rintro _ τ' s' ⟨hplans', hfile'⟩
    exact Or.inr ⟨plan, hplans', hfile'⟩

/-- A plan is saved whole, or not at all. -/
theorem wp_savePlan (hP : ∀ c, P c → c.WritesWhole) {plan : RebalancePlan}
    {Q : Post sig (World Journal) Unit} {τ : List (Event sig)} {s : World Journal}
    (hstop : Q .stopped τ s)
    (hsaved : Q (.returned ()) (τ ++ [⟨.host (.recordPlanned plan), .ok ()⟩])
      { s with outside := Function.update s.outside plan.runId (.saved plan.saved) })
    (hfailed : ∀ e, Q (.raised e) (τ ++ [⟨.host (.recordPlanned plan), .error e⟩]) s) :
    (journalEnvironment.system.restrict P).wp (askHost (.recordPlanned plan)) Q τ s := by
  refine (System.wp_perform (journalEnvironment.system.restrict P)
    (Op.host (.recordPlanned plan)) Q τ s).mpr ⟨hstop, ?_⟩
  rintro ⟨c, hc⟩
  have hact : (journalEnvironment.system.restrict P).act ⟨c, hc⟩ s
      (Op.host (.recordPlanned plan)) = ((s.outside.recordPlanned plan c.write).1,
        { s with outside := (s.outside.recordPlanned plan c.write).2 }) := rfl
  rw [hact]
  cases hwrite : c.write with
  | whole => exact hsaved
  | failed e => exact hfailed e
  | torn e => exact absurd hwrite (hP c hc e)

/-- An attempt saves its plan before it hands an order over, if its writes are whole. -/
theorem wp_runRebalance_attempted (hP : ∀ c, P c → c.WritesWhole) (sessionDate runId : String)
    (allow : Bool) (s : World Journal) :
    (journalEnvironment.system.restrict P).wp
      ((⟨protocolBroker isIbkr hasReplacement hasHistory, settings⟩ :
        RebalanceEngine).runRebalance sessionDate runId allow)
      (fun _ τ s' => Attempted runId s.outside τ s'.outside) [] s := by
  have hidle : ∀ {τ journal}, handedOrder τ = false → journal = s.outside →
      Attempted runId s.outside τ journal := by
    rintro τ _ hnone rfl
    exact Or.inl ⟨hnone, rfl⟩
  have hidleOf : ∀ {τ journal}, handedOrder τ = false ∧ journal = s.outside →
      Attempted runId s.outside τ journal := fun h => hidle h.1 h.2
  have hunsaved : ∀ {τ journal}, Unsaved s.outside τ journal →
      Attempted runId s.outside τ journal := fun h => hidle h.handed h.same
  have hgates : ((⟨protocolBroker isIbkr hasReplacement hasHistory, settings⟩ :
      RebalanceEngine).gates allow).Uses (S := sig) Op.BeforePlan :=
    Prog.uses_bind (α := Unit) (Prog.uses_ite (Prog.uses_perform ⟨rfl, rfl⟩) trivial) fun _ =>
      Prog.uses_ite trivial (Prog.uses_perform ⟨rfl, rfl⟩)
  have hbuild := meets_buildPlan settings isIbkr hasReplacement hasHistory sessionDate runId
  unfold RebalanceEngine.runRebalance
  have hstart : Unsaved s.outside [] s.outside := ⟨rfl, rfl, rfl⟩
  refine System.wp_seq _ (wp_beforePlan hgates hstart) ?_ (fun _ _ _ h => hunsaved h.1)
    fun _ _ h => hunsaved h.1
  rintro _ τ₁ s₁ ⟨h₁, _⟩
  refine System.wp_seq _ (wp_beforePlan hbuild h₁) ?_ (fun _ _ _ h => hunsaved h.1)
    fun _ _ h => hunsaved h.1
  rintro plan τ₂ s₂ ⟨h₂, hrun⟩
  obtain rfl := hrun plan rfl
  have hreport : (askHost (.writeReport plan)).Uses (S := sig) Op.BeforePlan :=
    Prog.uses_perform ⟨rfl, rfl⟩
  refine System.wp_seq _ (wp_beforePlan hreport h₂) ?_ (fun _ _ _ h => hunsaved h.1)
    fun _ _ h => hunsaved h.1
  rintro _ τ₃ s₃ ⟨⟨hnone₃, hunsaved₃, hsame₃⟩, _⟩
  have hrest : (let isDryRun : Bool := settings.tradingMode = .dryRun
      if isDryRun || plan.isBlocked then
        let status := if isDryRun then "dry_run" else "blocked"
        (askHost (.sendAlert status)).bind fun _ => .ret {
          plan := plan
          executed := false
          blocked := plan.isBlocked
          status := status }
      else (⟨protocolBroker isIbkr hasReplacement hasHistory, settings⟩ :
        RebalanceEngine).executePlan plan).Uses (S := sig) Op.SavesNoPlan := by
    dsimp only
    split
    · exact Prog.uses_bind (Prog.uses_perform rfl) fun _ => trivial
    · exact executePlan_savesNoPlan settings isIbkr hasReplacement hasHistory plan
  have hwrite : (journalEnvironment.system.restrict P).wp (askHost (.recordPlanned plan))
      (fun out τ' s' => (out = .returned () →
          savedPlans τ' = [plan] ∧ s'.outside plan.runId = .saved plan.saved) ∧
        (out ≠ .returned () → handedOrder τ' = false ∧ s'.outside = s.outside)) τ₃ s₃ := by
    have hkept : ∀ {τ' : List (Event sig)}, handedOrder τ' = false →
        handedOrder τ' = false ∧ s₃.outside = s.outside := fun h => ⟨h, hsame₃⟩
    apply wp_savePlan hP
    · exact ⟨by simp, fun _ => hkept hnone₃⟩
    · refine ⟨fun _ => ⟨?_, Function.update_self _ _ _⟩, fun h => (h rfl).elim⟩
      rw [savedPlans_append, hunsaved₃]
      rfl
    · refine fun e => ⟨by simp, fun _ => hkept ?_⟩
      rw [handedOrder_append, hnone₃]
      rfl
  refine System.wp_seq _ hwrite ?_ (fun _ _ _ h => hidleOf (h.2 (by simp)))
    fun _ _ h => hidleOf (h.2 (by simp))
  rintro _ τ₄ s₄ ⟨h, -⟩
  obtain ⟨hplans, hfile⟩ := h rfl
  exact wp_afterPlan hrest hplans hfile

/-- An attempt of one run leaves the files of the others. -/
theorem wp_runRebalance_others (sessionDate : String) {runId other : String}
    (hother : other ≠ runId) (allow : Bool) (s : World Journal) :
    journalEnvironment.system.wp
      ((⟨protocolBroker isIbkr hasReplacement hasHistory, settings⟩ :
        RebalanceEngine).runRebalance sessionDate runId allow)
      (fun _ _ s' => s'.outside other = s.outside other) [] s := by
  let Own : Op → Prop := fun o => ∀ plan, o.plan? = some plan → plan.runId = runId
  have hnone : ∀ o : Op, o.plan? = none → Own o := by
    intro o hnone plan hplan
    cases hnone.symm.trans hplan
  have hbuild := (meets_buildPlan settings isIbkr hasReplacement hasHistory sessionDate runId).mono
    (fun o ho => hnone o ho.2) fun _ h => h
  have hexecute := fun plan => (executePlan_savesNoPlan settings isIbkr hasReplacement hasHistory
    plan).mono fun o ho => hnone o ho
  have hhost : ∀ call, Own (.host call) → (askHost call).Uses (S := sig) Own :=
    fun call h => Prog.uses_perform h
  have hmeets : ((⟨protocolBroker isIbkr hasReplacement hasHistory, settings⟩ :
      RebalanceEngine).runRebalance sessionDate runId allow).Uses (S := sig) Own := by
    unfold RebalanceEngine.runRebalance RebalanceEngine.gates
    refine Prog.uses_bind (Prog.uses_bind (α := Unit) (Prog.uses_ite (hhost _ (hnone _ rfl)) trivial)
      fun _ => Prog.uses_ite trivial (hhost _ (hnone _ rfl))) fun _ => ?_
    refine Prog.meets_bind hbuild fun plan hrun => ?_
    refine Prog.uses_bind (hhost _ (hnone _ rfl)) fun _ => ?_
    refine Prog.uses_bind (hhost _ fun other h => Option.some.inj h ▸ hrun) fun _ => ?_
    dsimp only
    split
    · exact Prog.uses_bind (hhost _ (hnone _ rfl)) fun _ => trivial
    · exact hexecute plan
  refine System.wp_of_uses _ (I := fun _ (s' : World Journal) =>
    s'.outside other = s.outside other) hmeets ?_ rfl
  intro o ho c τ s' hsame
  cases hplan : o.plan? with
  | none => exact (congrFun (journal_act_outside hplan c s') other).trans hsame
  | some plan =>
    have hrun := ho plan hplan
    obtain rfl : o = .host (.recordPlanned plan) := by
      cases o with
      | host call => cases call <;> first | cases hplan; rfl | cases hplan
      | _ => cases hplan
    have hne : other ≠ plan.runId := fun h => hother (h.trans hrun)
    have hact : journalEnvironment.system.act c s' (.host (.recordPlanned plan)) =
        ((s'.outside.recordPlanned plan c.write).1,
          { s' with outside := (s'.outside.recordPlanned plan c.write).2 }) := rfl
    rw [hact]
    cases c.write with
    | whole => exact (Function.update_of_ne hne _ _).trans hsame
    | failed e => exact hsame
    | torn e => exact (Function.update_of_ne hne _ _).trans hsame

/-- A reconciliation leaves the journal. -/
theorem wp_reconcile_journal (s : World Journal) :
    journalEnvironment.system.wp
      (protocolManager settings isIbkr hasReplacement hasHistory).reconcile
      (fun _ _ s' => s'.outside = s.outside) [] s := by
  have hB : (protocolBroker isIbkr hasReplacement hasHistory).Within Op.SavesNoPlan :=
    protocolBroker_within isIbkr hasReplacement hasHistory fun _ _ => rfl
  have hreconcile : (protocolManager settings isIbkr hasReplacement hasHistory).reconcile.Uses
      (S := sig) Op.SavesNoPlan := reconcile_uses hB rfl rfl fun _ => rfl
  refine System.wp_of_uses _ (I := fun _ (s' : World Journal) => s'.outside = s.outside)
    hreconcile ?_ rfl
  exact fun o ho c _ s' hsame => (journal_act_outside ho c s').trans hsame

end Attempt

/-- A run as its processes leave it: the files, and the plan it is held to. -/
structure RunState where
  world : World Journal
  /-- The plan of the first attempt of the run that handed an order to the broker. -/
  original : Option SavedPlan

/-- Before the first attempt of a run. -/
def RunState.new (ledger : OrderStore) (journal : Journal) : RunState := ⟨⟨ledger, journal⟩, none⟩

/-- The file of the run. -/
def RunState.file (runId : String) (s : RunState) : PlanFile := s.world.outside runId

namespace EngineStep

/-- Whether the process is an attempt of a run. -/
def attempts (runId : String) (step : EngineStep) : Bool :=
  match step.command with
  | .rebalance _ run _ => run = runId
  | .reconcile => false

/-- What a process leaves of a run. -/
def next (runId : String) (s : RunState) (step : EngineStep) : RunState where
  world := (step.run s.world).state
  original := s.original <|>
    if step.attempts runId && handedOrder (step.run s.world).trace then
      (savedPlans (step.run s.world).trace).head?.map (·.saved)
    else none

/-- An attempt whose write is not cut off, and that saves what the run is held to. -/
def KeepsPlan (runId : String) (s : RunState) (step : EngineStep) : Prop :=
  step.attempts runId = true → (∀ c ∈ step.choices, c.WritesWhole) ∧
    ∀ original, s.original = some original →
      ∀ plan ∈ savedPlans (step.run s.world).trace, plan.saved = original

end EngineStep

/-- What processes leave of a run. -/
def RunState.after (runId : String) (s : RunState) (steps : List EngineStep) : RunState :=
  steps.foldl (EngineStep.next runId) s

/-- Every attempt of the sequence keeps the plan of the run. -/
def RunState.AllKeepPlan (runId : String) : RunState → List EngineStep → Prop
  | _, [] => True
  | s, step :: steps => step.KeepsPlan runId s ∧ AllKeepPlan runId (step.next runId s) steps

/-- The file of the run is readable, and it is the one the run is held to. -/
structure RunState.Judged (runId : String) (s : RunState) : Prop where
  readable : s.world.outside runId ≠ .torn
  original : ∀ plan, s.original = some plan → s.world.outside runId = .saved plan

/-- What a process that is an attempt of the run leaves in its file. -/
theorem EngineStep.run_attempted {runId : String} {step : EngineStep}
    (hattempt : step.attempts runId = true) (hwhole : ∀ c ∈ step.choices, c.WritesWhole)
    (s : World Journal) :
    Attempted runId s.outside (step.run s).trace (step.run s).state.outside := by
  unfold EngineStep.attempts at hattempt
  split at hattempt
  · rename_i sessionDate run allow hcommand
    obtain rfl := of_decide_eq_true hattempt
    have hprogram : step.program = (step.engine.runRebalance sessionDate run allow).bind
        fun _ => .ret () := by
      unfold EngineStep.program
      rw [hcommand]
    have hwp : (journalEnvironment.system.restrict JournalOracle.WritesWhole).wp step.program
        (fun _ τ s' => Attempted run s.outside τ s'.outside) [] (s.atStart step.newProcess) := by
      rw [hprogram]
      exact System.wp_seq _ (wp_runRebalance_attempted step.settings step.isIbkr
        step.hasReplacement step.hasHistory (fun _ hc => hc) sessionDate run allow
        (s.atStart step.newProcess))
        (fun _ _ _ h => h) (fun _ _ _ h => h) fun _ _ h => h
    exact System.wp_restrict_run _ hwp hwhole
  · cases hattempt

/-- Every other process leaves the file of the run. -/
theorem EngineStep.run_others {runId : String} {step : EngineStep}
    (hother : step.attempts runId = false) (s : World Journal) :
    (step.run s).state.outside runId = s.outside runId := by
  have hwp : journalEnvironment.system.wp step.program
      (fun _ _ s' => s'.outside runId = s.outside runId) [] (s.atStart step.newProcess) := by
    unfold EngineStep.attempts at hother
    split at hother
    · rename_i sessionDate run allow hcommand
      have hne : runId ≠ run := fun h => of_decide_eq_false hother h.symm
      have hprogram : step.program = (step.engine.runRebalance sessionDate run allow).bind
          fun _ => .ret () := by
        unfold EngineStep.program
        rw [hcommand]
      rw [hprogram]
      exact wp_bind_unit _ (wp_runRebalance_others step.settings step.isIbkr step.hasReplacement
        step.hasHistory sessionDate hne allow (s.atStart step.newProcess))
    · rename_i hcommand
      have hprogram : step.program = step.engine.manager.reconcile.bind fun _ => .ret () := by
        unfold EngineStep.program
        rw [hcommand]
      rw [hprogram]
      exact wp_bind_unit _ (System.wp_mono _ (wp_reconcile_journal step.settings step.isIbkr
        step.hasReplacement step.hasHistory (s.atStart step.newProcess))
        fun _ _ _ h => congrFun h runId)
  exact System.wp_run _ hwp _

/-- A process that keeps the plan of the run keeps it judged. -/
theorem RunState.Judged.next {runId : String} {s : RunState} (h : s.Judged runId)
    {step : EngineStep} (hkeeps : step.KeepsPlan runId s) : (step.next runId s).Judged runId := by
  cases hattempt : step.attempts runId with
  | false =>
    have hfile := EngineStep.run_others hattempt s.world
    have horiginal : (step.next runId s).original = s.original := by
      simp [EngineStep.next, hattempt]
    exact ⟨fun htorn => h.readable (hfile.symm.trans htorn),
      fun plan hplan => hfile.trans (h.original plan (horiginal.symm.trans hplan))⟩
  | true =>
    obtain ⟨hwhole, hsame⟩ := hkeeps hattempt
    rcases EngineStep.run_attempted hattempt hwhole s.world with
      ⟨hnone, hfile⟩ | ⟨saved, hplans, hfile⟩
    · have horiginal : (step.next runId s).original = s.original := by
        simp [EngineStep.next, hnone]
      exact ⟨fun htorn => h.readable (hfile.symm.trans htorn),
        fun plan hplan => hfile.trans (h.original plan (horiginal.symm.trans hplan))⟩
    · have hreadable : (step.next runId s).world.outside runId ≠ .torn := by
        intro htorn
        cases hfile.symm.trans htorn
      refine ⟨hreadable, fun plan hplan => hfile.trans ?_⟩
      apply congrArg PlanFile.saved
      cases horiginal : s.original with
      | some original =>
        have hkept := hsame original horiginal saved (by rw [hplans]; exact List.mem_singleton_self _)
        have hheld : (step.next runId s).original = some original := by
          simp [EngineStep.next, horiginal]
        exact hkept.trans (Option.some.inj (hheld.symm.trans hplan))
      | none =>
        have hheld : (step.next runId s).original =
            if handedOrder (step.run s.world).trace then some saved.saved else none := by
          simp [EngineStep.next, horiginal, hattempt, hplans]
        rw [hheld] at hplan
        split at hplan
        · exact Option.some.inj hplan
        · cases hplan

/-- Over processes that keep the plan of the run it stays judged. -/
theorem RunState.Judged.after {runId : String} (steps : List EngineStep) :
    ∀ {s : RunState}, s.Judged runId → s.AllKeepPlan runId steps →
      (s.after runId steps).Judged runId := by
  induction steps with
  | nil => exact fun h _ => h
  | cons step steps ih => exact fun h hkeeps => ih (h.next hkeeps.1) hkeeps.2

/-- Over any processes whose attempts of a new run are not cut off in their write and save, once
an order of the run was handed to the broker, the plan of the first attempt that did so: the file
of the run is readable if it is there, and what is assessed is that plan. -/
theorem judged_against_first_plan (runId : String) (ledger : OrderStore) (journal : Journal)
    (hnew : journal runId = .absent) (steps : List EngineStep)
    (hkeeps : (RunState.new ledger journal).AllKeepPlan runId steps) :
    (((RunState.new ledger journal).after runId steps).file runId = .absent ∨
      ∃ plan, (((RunState.new ledger journal).after runId steps).file runId).read = .ok plan) ∧
    ∀ original, ((RunState.new ledger journal).after runId steps).original = some original →
      ∀ entries, assessSavedRun (((RunState.new ledger journal).after runId steps).file runId)
        entries = .ok (original.assessment entries) := by
  have hstart : (RunState.new ledger journal).Judged runId := by
    constructor
    · intro htorn
      cases hnew.symm.trans htorn
    · intro plan hplan
      cases hplan
  have hjudged := hstart.after steps hkeeps
  constructor
  · cases hfile : ((RunState.new ledger journal).after runId steps).file runId with
    | absent => exact Or.inl rfl
    | torn => exact absurd hfile hjudged.readable
    | saved plan => exact Or.inr ⟨plan, rfl⟩
  · intro original horiginal entries
    have hfile : ((RunState.new ledger journal).after runId steps).file runId = .saved original :=
      hjudged.original original horiginal
    rw [hfile]
    rfl

/-- A host that plans these trades, with a broker that accepts one sale. -/
def planningHost (planned : PlannedTrades) (write : PlanWrite) : JournalOracle where
  oracle :=
    { clock := 0
      answer
        | .host call => (hostReady 0 planned [] []).answer (.host call)
        | o => (deferringBroker 0 [] []).answer o }
  write := write

/-- An attempt of the run on that host. -/
def plannedAttempt (planned : PlannedTrades) (write : PlanWrite) : EngineStep where
  settings := .onPaperFromSnapshot
  isIbkr := true
  hasReplacement := true
  hasHistory := false
  command := .rebalance "2026-01-02" "run" true
  choices := List.replicate 60 (planningHost planned write)

/-- The plan that is approved first: to sell one of two shares. -/
def approvedTrades : PlannedTrades where
  trades := sellPlan.trades
  warnings := []
  targets := [⟨"VTI", .finite (1 / 2), .finite 100⟩]
  portfolioValueUsd := .finite 200
  brokerTotalValueUsd := .finite 200

/-- The plan of an attempt that cannot read the account: it is sized on the dry-run value. -/
def unreadableTrades : PlannedTrades where
  trades := []
  warnings := ["unable to read broker cash and portfolio balances before rebalancing; " ++
    "block execution: no account"]
  targets := [⟨"VTI", .finite (1 / 2), .finite 5000⟩]
  portfolioValueUsd := .finite 10000
  brokerTotalValueUsd := .finite 10000

/-- No attempt of the run was made. -/
def freshRun : RunState := .new .empty fun _ => .absent

/-- The saved plan that was approved first. -/
def approvedPlan : SavedPlan :=
  ⟨"run", "2026-01-02", approvedTrades.targets, .finite 200, .finite 200⟩

/-- A second attempt that saves the same plan keeps the run judged against it. -/
theorem judged_against_first_plan_again :
    assessSavedRun ((freshRun.after "run" [plannedAttempt approvedTrades .whole,
      plannedAttempt approvedTrades .whole]).file "run") [] = .ok (approvedPlan.assessment []) := by
  have hwhole : ∀ c ∈ (plannedAttempt approvedTrades .whole).choices, c.WritesWhole := by
    intro c hc e htorn
    obtain rfl := List.eq_of_mem_replicate hc
    cases htorn
  have hsaved : ∀ s : RunState, (∀ plan ∈ savedPlans ((plannedAttempt approvedTrades .whole).run
      s.world).trace, plan.saved = approvedPlan) → s.original = none ∨ s.original = some approvedPlan →
      (plannedAttempt approvedTrades .whole).KeepsPlan "run" s := by
    intro s hplans horiginal _
    refine ⟨hwhole, fun original hheld plan hplan => ?_⟩
    rcases horiginal with hnone | hsome
    · cases hnone.symm.trans hheld
    · exact (hplans plan hplan).trans (Option.some.inj (hsome.symm.trans hheld))
  have hkeeps : freshRun.AllKeepPlan "run" [plannedAttempt approvedTrades .whole,
      plannedAttempt approvedTrades .whole] :=
    ⟨hsaved _ (by decide +kernel) (Or.inl rfl),
      hsaved _ (by decide +kernel) (Or.inr (by decide +kernel)), trivial⟩
  exact (judged_against_first_plan "run" .empty (fun _ => .absent) rfl _ hkeeps).2 approvedPlan
    (by decide +kernel) []

/-- An order is sold under the approved plan, and the next attempt is blocked: the run is judged
against the plan of the blocked attempt. A write that is cut off leaves no plan to judge it. -/
theorem judged_against_blocked_plan :
    (freshRun.after "run" [plannedAttempt approvedTrades .whole,
      plannedAttempt unreadableTrades .whole]).original = some approvedPlan ∧
    assessSavedRun ((freshRun.after "run" [plannedAttempt approvedTrades .whole,
      plannedAttempt unreadableTrades .whole]).file "run") [] ≠
        .ok (approvedPlan.assessment []) ∧
    (freshRun.after "run" [plannedAttempt approvedTrades .whole,
      plannedAttempt approvedTrades (.torn (.other "killed"))]).file "run" = .torn := by
  refine ⟨?_, ?_, ?_⟩
  · decide +kernel
  · decide +kernel
  · decide +kernel

end Poma

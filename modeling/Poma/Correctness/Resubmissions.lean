import Poma.Correctness.Handovers
import Poma.Correctness.Planned

/-!
# References go out again only when refused

Passes and stale-order checks hand nothing over, and the rows they record hold
their trades back as long as the broker reports statuses of its own. With what
attempts keep, every history of commands hands a reference over again only after
the broker has refused its order.
-/

namespace Poma

open Interaction

/-- A report with a status of the broker's own. -/
def OpenOrderSnapshot.BrokerStatus (snapshot : OpenOrderSnapshot) : Prop :=
  snapshot.rawStatus ∉ retryablePreAcceptanceStatuses

/-- Reports with statuses of the broker's own. -/
def BrokerStatuses (reports : List OpenOrderSnapshot) : Prop :=
  ∀ snapshot ∈ reports, snapshot.BrokerStatus

/-- Every order an answer reports has a status of the broker's own. -/
def ReportsStatuses : (o : Op) → Except Exn o.Ans → Prop
  | .broker .fetchOpenOrderSnapshots, .ok reports => BrokerStatuses reports
  | .broker .fetchCompletedOrderSnapshots, .ok reports => BrokerStatuses reports
  | .broker (.fetchIbkrCompletedOrderSnapshots _ _), .ok reports => BrokerStatuses reports
  | .broker (.replaceOrder _), .ok reply => OpenOrderSnapshot.BrokerStatus reply
  | .broker (.submitReplacement _), .ok reply => OpenOrderSnapshot.BrokerStatus reply
  | _, _ => True

section Successors

variable {row x : OrderLedgerEntry} {snapshot : OpenOrderSnapshot}

theorem not_sendable_of_status (hstate : row.lifecycleState ≠ .planned)
    (hraw : row.rawStatus ∉ retryablePreAcceptanceStatuses) : row.sendable = false :=
  OrderLedgerEntry.not_sendable_iff.mpr ⟨hstate, fun h => hraw h.1⟩

theorem not_sendable_of_id (hstate : row.lifecycleState ≠ .planned) (hid : row.orderId.isSome) :
    row.sendable = false := by
  refine OrderLedgerEntry.not_sendable_iff.mpr ⟨hstate, fun h => ?_⟩
  rw [h.2.1] at hid
  cases hid

/-- A row updated by a report with a status of the broker's own holds its trade back. -/
theorem withSnapshot_held (row : OrderLedgerEntry) (h : snapshot.BrokerStatus) (stamp : ℚ) :
    (row.withSnapshot snapshot stamp).sendable = false :=
  not_sendable_of_status (classifyLifecycle_ne_planned _ _ _) h

theorem Followed.held (h : Followed row snapshot x) (hstatus : snapshot.BrokerStatus) :
    x.sendable = false ∧ x.rawStatus ∉ retryablePreAcceptanceStatuses := by
  cases h with
  | kept stamp _ => exact ⟨withSnapshot_held row hstatus stamp, hstatus⟩
  | released stamp ref _ =>
    exact ⟨not_sendable_of_status (classifyLifecycle_ne_planned _ _ _) hstatus, hstatus⟩

theorem replacementUnconfirmed_not_retryable :
    "ReplacementUnconfirmed" ∉ retryablePreAcceptanceStatuses := by decide

theorem pendingCancel_not_retryable : "PendingCancel" ∉ retryablePreAcceptanceStatuses := by decide

theorem Acted.held {replies : OpenOrderSnapshot → Prop} (h : Acted replies row x)
    (hreplies : ∀ reply, replies reply → reply.BrokerStatus)
    (hraw : row.rawStatus ∉ retryablePreAcceptanceStatuses) : x.sendable = false := by
  cases h with
  | cancelRequested reason => exact not_sendable_of_status nofun hraw
  | intent h => exact not_sendable_of_status nofun replacementUnconfirmed_not_retryable
  | deferred h message => exact not_sendable_of_status nofun pendingCancel_not_retryable
  | originalFilled h reply hs stamp =>
    exact not_sendable_of_status (classifyLifecycle_ne_planned _ _ _) (hreplies reply hs)
  | replaced h reply hs newLimit metadata now stamp =>
    cases metadata <;>
      exact not_sendable_of_status (classifyLifecycle_ne_planned _ _ _) (hreplies reply hs)

/-- Where every report has a status of the broker's own, a pass frees no trade. -/
theorem Successor.held {replies : OpenOrderSnapshot → Prop}
    {openSnapshots completed : List OpenOrderSnapshot}
    (h : Successor replies row openSnapshots completed x)
    (hreplies : ∀ reply, replies reply → reply.BrokerStatus)
    (hopen : BrokerStatuses openSnapshots) (hcompleted : BrokerStatuses completed) : x.sendable = false := by
  cases h with
  | adopted snapshot stamp h =>
    have hstatus : snapshot.BrokerStatus := by
      unfold sighting at h
      cases hseen : matchSnapshot row openSnapshots with
      | some found =>
        rw [hseen] at h
        obtain rfl := Option.some.inj h
        obtain ⟨_, _, hmem, _⟩ := matchSnapshot_true hseen
        exact hopen _ hmem
      | none =>
        rw [hseen] at h
        obtain ⟨_, _, hmem, _⟩ := matchSnapshot_true h
        exact hcompleted _ hmem
    exact not_sendable_of_status (classifyLifecycle_ne_planned _ _ _) hstatus
  | followed snapshot u h hu => exact (hu.held (hopen _ (matchSnapshot_false h).1)).1
  | acted snapshot u x h hu hrecovered hworking hid hx =>
    exact hx.held hreplies (hu.held (hopen _ (matchSnapshot_false h).1)).2
  | resumed snapshot seen ref h href hcancelled reply hreply newLimit metadata now stamp =>
    cases metadata <;>
      exact not_sendable_of_status (classifyLifecycle_ne_planned _ _ _) (hreplies reply hreply)
  | closed snapshot stamp hnone h hterminal =>
    exact not_sendable_of_status (classifyLifecycle_ne_planned _ _ _)
      (hcompleted _ (matchSnapshot_false h).1)
  | unverified now hnone h => exact not_sendable_of_status nofun notOpenUnverified_not_retryable

end Successors

/-- What a pass or a check does to rows and batches. -/
def Op.KeepsFence (o : Op) : Prop :=
  o.HandsNothing ∧ o.RecordsRow (fun row => row.sendable = false)

section Passes

variable {settings : Settings} {isIbkr hasReplacement hasHistory : Bool}

theorem completedSnapshots_statuses (entries : List OrderLedgerEntry)
    (openSnapshots : List OpenOrderSnapshot) :
    ((protocolManager settings isIbkr hasReplacement hasHistory).completedSnapshots entries
      openSnapshots).Meets (S := sig) ReportsStatuses Op.KeepsFence fun history =>
        ∀ completed, history = .ok completed → BrokerStatuses completed := by
  have hask : ∀ unmatched, ((protocolManager settings isIbkr hasReplacement
      hasHistory).completedHistory unmatched).Meets (S := sig) ReportsStatuses Op.KeepsFence BrokerStatuses := by
    intro unmatched
    have hfetch : ∀ call : BrokerCall, Op.KeepsFence (.broker call) →
        (askBroker call).Meets (S := sig) ReportsStatuses Op.KeepsFence
          fun answer => ReportsStatuses (.broker call) (.ok answer) :=
      fun call ho => Prog.meets_perform (S := sig) (o := Op.broker call) ho
    unfold ExecutionManager.completedHistory
    cases hasHistory with
    | true => exact hfetch .fetchCompletedOrderSnapshots ⟨rfl, trivial⟩
    | false =>
      cases isIbkr with
      | true => exact hfetch (.fetchIbkrCompletedOrderSnapshots _ _) ⟨rfl, trivial⟩
      | false => exact List.forall_mem_nil _
  unfold ExecutionManager.completedSnapshots
  dsimp only
  split
  · rintro completed ⟨⟩
    exact List.forall_mem_nil _
  · apply Prog.meets_bind (Prog.meets_attempt (hask _))
    intro answered hanswered
    cases answered with
    | error e => rintro completed ⟨⟩
    | ok all =>
      rintro completed ⟨⟩ snapshot hmem
      exact hanswered all rfl snapshot (List.mem_of_mem_filter hmem)

theorem restored_held {known : OrderStore} {snapshot : OpenOrderSnapshot}
    {entryAt : ℚ → OrderLedgerEntry} (h : restoreDecision known snapshot = .restore entryAt)
    (submitted now : ℚ) : ((entryAt submitted).withSnapshot snapshot now).sendable = false := by
  obtain ⟨_, hid, runId, hentry⟩ := restoreDecision_restore h
  rw [hentry]
  exact not_sendable_of_id (classifyLifecycle_ne_planned _ _ _) (orElse_isSome hid)

/-- A pass hands nothing over, and every row it records holds its trade back. -/
theorem reconcile_keepsFence :
    (protocolManager settings isIbkr hasReplacement hasHistory).reconcile.Meets (S := sig)
      ReportsStatuses Op.KeepsFence fun _ => True := by
  apply reconcile_meets_of (R := fun _ => True)
    (O := BrokerStatuses)
    (H := fun _ history => ∀ completed, history = .ok completed → BrokerStatuses completed) ⟨rfl, trivial⟩ ⟨rfl, trivial⟩
  · exact fun _ _ _ _ => trivial
  · exact fun _ _ _ submitted now h => ⟨rfl, restored_held h submitted now⟩
  · have hfetch : (askBroker .fetchOpenOrderSnapshots).Meets (S := sig) ReportsStatuses
        Op.KeepsFence BrokerStatuses :=
      Prog.meets_perform (S := sig) (o := Op.broker .fetchOpenOrderSnapshots) ⟨rfl, trivial⟩
    apply hfetch.mono fun _ ho => ho
    exact fun fetched hfetched snapshot hmem =>
      hfetched snapshot (List.mem_of_mem_filter hmem)
  · exact fun entries openSnapshots _ => completedSnapshots_statuses entries openSnapshots
  · intro openSnapshots history recovered now entry hopen hhistory _ _
    have hcompleted : BrokerStatuses (history.toOption.getD []) := by
      cases history with
      | error e => exact List.forall_mem_nil _
      | ok completed => exact hhistory completed rfl
    have hhandling : HandlingMeets (protocolManager settings isIbkr hasReplacement hasHistory)
        ReportsStatuses Op.KeepsFence (fun _ _ => True) OpenOrderSnapshot.BrokerStatus entry
        openSnapshots (history.toOption.getD []) := {
      load := ⟨rfl, trivial⟩
      clock := ⟨rfl, trivial⟩
      quotes := fun tickers => meets_askBroker ⟨rfl, trivial⟩
      cancel := fun _ _ orderId _ _ _ _ _ _ =>
        meets_askBroker ⟨rfl, trivial⟩
      replace := fun _ _ request _ _ _ _ _ =>
        Prog.meets_perform (S := sig) (o := Op.broker (.replaceOrder request)) ⟨rfl, trivial⟩
      submit := fun submit request _ _ hsubmit _ _ _ _ => by
        cases hasReplacement with
        | false => cases hsubmit
        | true =>
          obtain rfl := Option.some.inj hsubmit
          exact Prog.meets_perform (S := sig) (o := Op.broker (.submitReplacement request))
            ⟨rfl, trivial⟩
      record := fun x hx => ⟨rfl, hx.held (fun _ hreply => hreply) hopen hcompleted⟩ }
    exact (meets_handleEntry hhandling).mono (fun _ ho => ho) fun _ _ => trivial

theorem checkStaleOrders_keepsFence (sessionDate runId : String) :
    ((protocolManager settings isIbkr hasReplacement hasHistory).checkStaleOrders sessionDate
      runId).Meets (S := sig) ReportsStatuses Op.KeepsFence fun _ => True :=
  checkStaleOrders_meets (R := fun _ => True) ⟨rfl, trivial⟩ (fun _ _ _ _ => trivial)
    reconcile_keepsFence (fun _ => Prog.uses_perform (S := sig) ⟨rfl, trivial⟩)
    (fun _ _ _ _ hid => ⟨rfl, not_sendable_of_id nofun hid⟩) sessionDate runId

end Passes

section Histories

variable {store : OrderStore} {τ : List (Event sig)}

theorem run_ledger {W α : Type} (E : Environment W) (p : M α) (cs : List E.Choice) (s : World W) :
    (E.system.run p cs s).state.ledger = s.ledger.afterTrace (E.system.run p cs s).trace := by
  have hrun := E.system.wp_of_uses (I := fun τ' s' => s'.ledger = s.ledger.afterTrace τ')
    (p := p) (τ := []) (s := s) p.uses_all ?_ rfl
  · exact E.system.wp_run hrun cs
  · intro o _ c τ' s' hledger
    rw [OrderStore.afterTrace_append, ← hledger]
    exact act_recorded E c s' o

/-- What is assumed of one process: its plan is sound, and the orders reported to it have statuses
of the broker's own. -/
structure Step.Fair (store : OrderStore) (step : Step) : Prop where
  statuses : ∀ event ∈ (step.run store).trace, ReportsStatuses event.op event.ans
  plan : ∀ plan, step.command = .submitPlan plan → plan.Sound

/-- Processes one after the other, each as assumed on the ledger it finds. -/
def Step.AllFair : OrderStore → List Step → Prop
  | _, [] => True
  | store, step :: steps => step.Fair store ∧ Step.AllFair (step.after store) steps

/-- A process that records rows that hold, and hands nothing over, keeps the fence. -/
theorem fenced_of_meets {α : Type} {p : M α}
    (hp : p.Meets (S := sig) ReportsStatuses Op.KeepsFence fun _ => True) {cs : List Oracle}
    (hstatuses : ∀ event ∈ (openWorld.run p cs (World.of store)).trace,
      ReportsStatuses event.op event.ans) (h : Fenced τ (World.of store)) :
    Fenced (τ ++ (openWorld.run p cs (World.of store)).trace)
      (openWorld.run p cs (World.of store)).state :=
  h.events (openWorld.run_of_meets hp cs _ hstatuses).1 (run_ledger openEnvironment p cs _)

/-- Every command keeps the fence. -/
theorem Step.fenced (hstore : Reached store) (step : Step) (hfair : step.Fair store)
    (h : Fenced τ (World.of store)) :
    Fenced (τ ++ (step.run store).trace) (step.run store).state := by
  have hunit : ∀ {α : Type} {p : M α},
      p.Meets (S := sig) ReportsStatuses Op.KeepsFence (fun _ => True) →
      (p.bind fun _ => .ret ()).Meets (S := sig) ReportsStatuses Op.KeepsFence fun _ => True :=
    fun hp => Prog.meets_bind hp fun _ _ => trivial
  have hstore := hstore.atStart step.newProcess
  have hstatuses := hfair.statuses
  have hplan := hfair.plan
  have h : Fenced τ (World.of (store.atStart step.newProcess)) := h.atStart step.newProcess
  unfold Step.run at hstatuses ⊢
  generalize store.atStart step.newProcess = store at hstore hstatuses h ⊢
  cases hcommand : step.command with
  | reconcile =>
    have hprogram : step.program = step.manager.reconcile.bind fun _ => .ret () := by
      unfold Step.program
      rw [hcommand]
    rw [hprogram] at hstatuses ⊢
    exact fenced_of_meets (hunit reconcile_keepsFence) hstatuses h
  | checkStaleOrders sessionDate runId =>
    have hprogram : step.program =
        (step.manager.checkStaleOrders sessionDate runId).bind fun _ => .ret () := by
      unfold Step.program
      rw [hcommand]
    rw [hprogram] at hstatuses ⊢
    exact fenced_of_meets (hunit (checkStaleOrders_keepsFence sessionDate runId)) hstatuses h
  | submitPlan plan =>
    have hprogram : step.program =
        (step.manager.submitPlan plan (some observe)).bind fun _ => .ret () := by
      unfold Step.program
      rw [hcommand]
    have hnamed : (World.of store).ledger.All OrderLedgerEntry.Named := hstore.named
    have hattempt : openWorld.wp step.program (fun _ τ' s' => Fenced τ' s') τ (World.of store) := by
      rw [hprogram]
      exact wp_bind_unit openEnvironment
        (wp_submitPlan_fenced openEnvironment (hplan plan hcommand) hnamed h)
    exact (openWorld.wp_iff_run _ _ _ _).mp hattempt step.choices

/-- So does every history of commands. -/
theorem Step.traces_fenced (hstore : Reached store) {steps : List Step}
    (hfair : Step.AllFair store steps) (h : Fenced τ (World.of store)) :
    Fenced (τ ++ Step.traces store steps) (World.of (Step.ledgerAfter store steps)) := by
  induction steps generalizing store τ with
  | nil =>
    rw [Step.traces, List.append_nil]
    exact h
  | cons step steps ih =>
    have hfirst := step.fenced hstore hfair.1 h
    have hrest := ih (.step hstore step) hfair.2 (τ := τ ++ (step.run store).trace)
      ⟨hfirst.spaced, hfirst.held⟩
    rw [Step.traces, ← List.append_assoc]
    exact hrest

theorem fenced_empty : Fenced [] (World.of OrderStore.empty) where
  spaced before event after h := by simp at h
  held key h := absurd h not_outstanding_nil

/-- Over every history of fair processes, the trades of a batch go under references that differ,
and a reference is handed over again only after a report refused its order: failed before
acceptance, with no order of the broker and no fill. -/
theorem handed_over_again_only_if_refused (steps : List Step) (hfair : Step.AllFair .empty steps)
    (before after : List (Event sig)) (event : Event sig)
    (hsplit : Step.traces .empty steps = before ++ event :: after) (trades : List ProposedTrade)
    (hbatch : event.op = .broker (.submitTrades trades)) :
    (trades.map (·.ref)).Nodup ∧
    ∀ trade ∈ trades, ∀ earlier first between, before = earlier ++ first :: between →
      Op.Hands trade.ref first.op →
      ∃ report ∈ (tradeReports before).made.drop (tradeReports (earlier ++ [first])).made.length,
        report.1.ref = trade.ref ∧ report.2.Refused := by
  have hfenced := Step.traces_fenced .empty hfair fenced_empty
  rw [List.nil_append] at hfenced
  have hhanded : Op.handed? event.op = some trades := by
    rw [hbatch]
    rfl
  obtain ⟨hnodup, hfree⟩ := hfenced.spaced before event after hsplit trades hhanded
  refine ⟨hnodup, ?_⟩
  rintro trade hmem earlier first between rfl hfirst
  exact (outstanding_or_refused hfirst between).resolve_left (hfree trade hmem)

/-- A broker that accepts no order. -/
def refusingBroker (clock : ℚ) : Oracle where
  clock := clock
  answer
    | .broker (.submitTrades _) => .ok (0 : Nat)
    | .broker .submitResults => .ok [⟨"VTI", .sell, 1, 100, none, orderNotAcceptedStatus, 0, none,
        none, some "poma:run:0:VTI:SELL", none⟩]
    | o => (listsOnly clock [] []).answer o

/-- An attempt to sell one share by that broker. -/
def refusedStep (clock : ℚ) : Step :=
  { deferringStep (.submitPlan sellPlan) clock [] [] with
    choices := List.replicate 30 (refusingBroker clock) }

theorem Op.handed?_eq_some {o : Op} {trades : List ProposedTrade}
    (h : Op.handed? o = some trades) : o = .broker (.submitTrades trades) := by
  cases o with
  | broker call =>
    cases call with
    | submitTrades other => rw [Option.some.inj h]
    | _ => cases h
  | _ => cases h

/-- Whether the answers of an operation report orders. -/
def Op.listsOrders : Op → Bool
  | .broker .fetchOpenOrderSnapshots => true
  | .broker .fetchCompletedOrderSnapshots => true
  | .broker (.fetchIbkrCompletedOrderSnapshots _ _) => true
  | .broker (.replaceOrder _) => true
  | .broker (.submitReplacement _) => true
  | _ => false

theorem reportsStatuses_of_unlisted {o : Op} {r : Except Exn o.Ans} (h : o.listsOrders = false) :
    ReportsStatuses o r := by
  unfold ReportsStatuses
  split <;> first | exact trivial | cases h

/-- Whether an operation hands over one trade, under a reference. -/
def Op.handsOne (key : String) (o : Op) : Bool :=
  (Op.handed? o).any fun trades => trades.map (·.ref) = [key]

theorem Op.handsOne_spec {key : String} {o : Op} (h : o.handsOne key = true) :
    ∃ trades, o = .broker (.submitTrades trades) ∧ ∃ trade ∈ trades, trade.ref = key := by
  obtain ⟨trades, htrades, hrefs⟩ := (Option.any_eq_true _ _).mp h
  refine ⟨trades, Op.handed?_eq_some htrades, List.mem_map.mp ?_⟩
  rw [of_decide_eq_true hrefs]
  exact List.mem_cons_self

/-- A share that was not accepted is offered again. -/
theorem handed_over_again_only_if_refused_sell :
    ∃ report ∈ (tradeReports ((Step.traces .empty [refusedStep 0, refusedStep 10]).take 19)).made,
      report.1.ref = "poma:run:0:VTI:SELL" ∧ report.2.Refused := by
  have hfair : Step.AllFair .empty [refusedStep 0, refusedStep 10] := by
    have hplan : ∀ clock plan, (refusedStep clock).command = .submitPlan plan → plan.Sound := by
      intro clock plan hcommand
      rw [← Command.submitPlan.inj hcommand]
      exact sellPlan_sound
    have hstatuses : ∀ τ : List (Event sig), (τ.all fun event => !Op.listsOrders event.op) = true →
        ∀ event ∈ τ, ReportsStatuses event.op event.ans := by
      intro τ h event hevent
      have hone := List.all_eq_true.mp h event hevent
      exact reportsStatuses_of_unlisted (Bool.not_eq_true' _ |>.mp hone)
    exact ⟨⟨hstatuses _ (by decide +kernel), hplan 0⟩, ⟨hstatuses _ (by decide +kernel), hplan 10⟩,
      trivial⟩
  let trace := Step.traces .empty [refusedStep 0, refusedStep 10]
  have hlength : 19 < trace.length := by decide +kernel
  have hfirst : 7 < (trace.take 19).length := by decide +kernel
  have hsecondHands : Op.handsOne "poma:run:0:VTI:SELL" (trace.get ⟨19, hlength⟩).op = true := by
    decide +kernel +revert
  have hfirstHands : Op.handsOne "poma:run:0:VTI:SELL"
      ((trace.take 19).get ⟨7, hfirst⟩).op = true := by
    clear hsecondHands
    decide +kernel +revert
  obtain ⟨trades, hbatch, trade, hmem, href⟩ := Op.handsOne_spec hsecondHands
  obtain ⟨others, hothers, other, hother, hsame⟩ := Op.handsOne_spec hfirstHands
  have hhands : Op.Hands trade.ref ((trace.take 19).get ⟨7, hfirst⟩).op := by
    refine ⟨others, ?_, other, hother, hsame.trans href.symm⟩
    rw [hothers]
    rfl
  obtain ⟨report, hreport, hof, hrefused⟩ := (handed_over_again_only_if_refused _ hfair _ _ _
    (take_get_drop trace hlength) trades hbatch).2 trade hmem _ _ _ (take_get_drop _ hfirst) hhands
  exact ⟨report, List.mem_of_mem_drop hreport, hof.trans href, hrefused⟩

end Histories

end Poma

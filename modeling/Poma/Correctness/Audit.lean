import Poma.Broker.World
import Poma.Engine.RecoveryAudit

/-!
# What a passed audit has checked

Every completed order the broker lists is of a root that the ledger knows, under
its ticker and side; and when the row of the root is on that very order, the row
is terminal, and filled where the broker says so.
-/

namespace Poma

open Interaction

/-- A completed order that the ledger accounts for. -/
def AccountedFor (entries : List OrderLedgerEntry) (order : OpenOrderSnapshot) : Prop :=
  ∃ ref recorded, order.orderRef = some ref ∧
    knownRoot entries (stripReplacementSuffix ref) = some recorded ∧
    recorded.ticker = order.ticker ∧ recorded.side = order.side ∧
    (recorded.orderRef = ref → recorded.isTerminal = true ∧
      (order.rawStatus = "Filled" → recorded.lifecycleState = .filled))

/-- The audit passes an order only when it is accounted for. -/
theorem accountedFor_of_auditOrder {entries : List OrderLedgerEntry} {order : OpenOrderSnapshot}
    (h : auditOrder entries order = .ok ()) : AccountedFor entries order := by
  unfold auditOrder at h
  cases href : order.orderRef with
  | none =>
    rw [href] at h
    cases h
  | some ref =>
    rw [href] at h
    dsimp only at h
    cases hroot : knownRoot entries (stripReplacementSuffix ref) with
    | none =>
      rw [hroot] at h
      cases h
    | some recorded =>
      rw [hroot] at h
      dsimp only at h
      split at h
      · cases h
      rename_i hidentity
      obtain ⟨hticker, hside⟩ := not_or.mp hidentity
      refine ⟨ref, recorded, href, hroot, not_not.mp hticker, not_not.mp hside, ?_⟩
      intro hsame
      rw [if_pos hsame.symm] at h
      split at h
      · cases h
      split at h
      · cases h
      rename_i hconflict
      split at h
      · rename_i hterminal
        refine ⟨hterminal, ?_⟩
        intro hfilled
        by_contra hother
        exact hconflict ⟨hfilled, hterminal, hother⟩
      · cases h

theorem accountedFor_of_auditOrders {entries : List OrderLedgerEntry}
    {orders : List OpenOrderSnapshot} (h : auditOrders entries orders = .ok ()) :
    ∀ order ∈ orders, AccountedFor entries order := by
  induction orders with
  | nil => simp
  | cons order rest ih =>
    unfold auditOrders at h
    cases hhead : auditOrder entries order with
    | error e =>
      rw [hhead] at h
      cases h
    | ok _ =>
      rw [hhead] at h
      intro other hother
      rcases List.mem_cons.mp hother with rfl | hrest
      · exact accountedFor_of_auditOrder hhead
      · exact ih h other hrest

/-- A broker method that has answered in a trace. -/
def BrokerCall.AnsweredIn (call : BrokerCall) (answer : call.Ans) (τ : List (Event sig)) : Prop :=
  (⟨Op.broker call, .ok answer⟩ : Event sig) ∈ τ

/-- What a run of the audit ends with, on a ledger: if it passes, it has read the completed orders,
and the ledger accounts for each. -/
def AuditSound (store : OrderStore) (out : Outcome Exn String) (τ : List (Event sig)) : Prop :=
  ∀ text, out = .returned text → ∃ completed : List OpenOrderSnapshot,
    (BrokerCall.fetchIbkrCompletedOrderSnapshots [] []).AnsweredIn completed τ ∧
      ∀ order ∈ completed, AccountedFor store.entries order

theorem auditSound_raised (store : OrderStore) (e : Exn) (τ : List (Event sig)) :
    AuditSound store (.raised e) τ := by
  intro text htext
  cases htext

theorem auditSound_stopped (store : OrderStore) (τ : List (Event sig)) :
    AuditSound store .stopped τ := by
  intro text htext
  cases htext

/-- What is read of a broker has been answered by it. -/
theorem wp_askBroker_answered {W : Type} (E : Environment W) (call : BrokerCall)
    (τ : List (Event sig)) (s : World W) :
    E.system.wp (askBroker call) (fun out τ' _ => ∀ answer : call.Ans, out = .returned answer →
      call.AnsweredIn answer τ') τ s := by
  rw [wp_askBroker]
  refine ⟨by simp, fun c => ?_⟩
  cases (E.answer c s.outside (.broker call)).1 with
  | error e =>
    intro answer h
    cases h
  | ok found =>
    intro answer h
    obtain rfl := Outcome.returned.inj h
    exact List.mem_append_right _ List.mem_cons_self

/-- So it has where its failure is raised again. -/
theorem wp_askBroker_catching {W : Type} (E : Environment W) (call : BrokerCall)
    (e : Exn) (τ : List (Event sig)) (s : World W) :
    E.system.wp ((askBroker call).catching fun _ => raise e) (fun out τ' _ =>
      ∀ answer : call.Ans, out = .returned answer → call.AnsweredIn answer τ') τ s := by
  apply System.wp_catching _ (wp_askBroker_answered E call τ s)
  · exact fun _ _ _ h => h
  · intro _ _ _ _ answer h
    cases h
  · intro _ _ _ answer h
    cases h

/-- The audit of any environment's answers is sound. -/
theorem wp_verifyBrokerRecovery {W : Type} (E : Environment W) (settings : Settings)
    (isIbkr hasReplacement hasHistory : Bool) (summary : ReconcileSummary) (τ : List (Event sig))
    (s : World W) :
    E.system.wp (verifyBrokerRecovery (protocolBroker isIbkr hasReplacement hasHistory) settings
      summary) (fun out τ' _ => AuditSound s.ledger out τ') τ s := by
  unfold verifyBrokerRecovery
  split
  · exact auditSound_raised _ _ _
  rw [System.wp_bind, wp_loadLatest]
  refine ⟨auditSound_stopped _ _, fun _ => ?_⟩
  rw [System.seq_returned]
  split
  · exact auditSound_raised _ _ _
  apply System.wp_seq _ (System.wp_true _ _ _ _) _ (fun e τ' _ _ => auditSound_raised _ e τ')
    fun τ' _ _ => auditSound_stopped _ τ'
  intro snapshot τ₁ s₁ _
  split
  · exact auditSound_raised _ _ _
  apply System.wp_seq _ (wp_askBroker_catching E (.fetchIbkrCompletedOrderSnapshots [] []) _ τ₁ s₁)
    _ (fun e τ' _ _ => auditSound_raised _ e τ') fun τ' _ _ => auditSound_stopped _ τ'
  intro completed τ₂ s₂ hread
  cases haudit : auditOrders s.ledger.loadLatestEntries completed with
  | error e => exact auditSound_raised _ e _
  | ok _ =>
    intro text _
    exact ⟨completed, hread completed rfl, accountedFor_of_auditOrders haudit⟩

/-- A passed audit has read the completed orders, and the ledger accounts for each by its root. -/
theorem verifyBrokerRecovery_sound (settings : Settings) (isIbkr hasReplacement hasHistory : Bool)
    (summary : ReconcileSummary) (store : OrderStore) (cs : List Oracle) :
    AuditSound store
      (openWorld.run (verifyBrokerRecovery (protocolBroker isIbkr hasReplacement hasHistory)
        settings summary) cs (World.of store)).outcome
      (openWorld.run (verifyBrokerRecovery (protocolBroker isIbkr hasReplacement hasHistory)
        settings summary) cs (World.of store)).trace :=
  openWorld.wp_run (wp_verifyBrokerRecovery openEnvironment settings isIbkr hasReplacement
    hasHistory summary [] (World.of store)) cs

/-- An executed order that a terminal row of its root is on, filled where the broker says so. -/
def RecordedExecution (entries : List OrderLedgerEntry) (order : OpenOrderSnapshot) : Prop :=
  ∃ ref, order.orderRef = some ref ∧ ∃ entry ∈ entries,
    stripReplacementSuffix entry.ledgerKey = stripReplacementSuffix ref ∧ entry.orderRef = ref ∧
      entry.isTerminal = true ∧ (order.rawStatus = "Filled" → entry.lifecycleState = .filled)

/-- A row whose order was replaced after three shares; the replacement filled. -/
def replacedRow : OrderLedgerEntry where
  ledgerKey := "poma:run:0:VOO:BUY"
  orderRef := "poma:run:0:VOO:BUY:r1"
  runId := "run"
  sessionDate := "2026-10-17"
  ticker := "VOO"
  side := .buy
  quantity := 10
  limitPrice := some 100
  lifecycleState := .filled
  rawStatus := "Filled"
  filledQty := 10
  replaceCount := 1

/-- The ledger with that row. -/
def replacedLedger : OrderStore := OrderStore.empty.upsert replacedRow

/-- The order that was replaced, cancelled after three shares. -/
def replacedOrder : OpenOrderSnapshot where
  orderRef := some "poma:run:0:VOO:BUY"
  orderId := some 7
  permId := some 70
  ticker := "VOO"
  side := .buy
  rawStatus := "Cancelled"
  filled := 3
  remaining := 7
  avgFillPrice := some 100

/-- A broker whose account is in order and whose history is that one order. -/
def replacedHistory : Oracle where
  clock := 0
  answer
    | .broker .accountSnapshot => .ok {
        cashUsd := .finite 10000
        positionsMarketValueUsd := .finite 0 }
    | .broker (.fetchIbkrCompletedOrderSnapshots _ _) => .ok [replacedOrder]
    | _ => .error (.connection "not connected")

/-- The audit passes an executed order that no row is on: its row is on the replacement. -/
theorem not_recordedExecution_replaced :
    (openWorld.run (verifyBrokerRecovery (protocolBroker true true false) Settings.unset ⟨0, []⟩)
      (List.replicate 3 replacedHistory) (World.of replacedLedger)).outcome =
        .returned recoveryAuditPassed ∧
    replacedHistory.answer (.broker (.fetchIbkrCompletedOrderSnapshots [] [])) =
      .ok [replacedOrder] ∧
    0 < replacedOrder.filled ∧ ¬RecordedExecution replacedLedger.entries replacedOrder := by
  refine ⟨by decide +kernel, rfl, by decide +kernel, ?_⟩
  rintro ⟨ref, href, entry, hentry, -, hsame, -⟩
  obtain rfl := List.mem_singleton.mp hentry
  rw [← hsame] at href
  revert href
  decide +kernel

end Poma

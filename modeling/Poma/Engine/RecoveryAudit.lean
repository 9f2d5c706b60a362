import Poma.Engine.RebalanceQuality
import Poma.Manager.Reconcile

/-!
# The audit that ends an incident

After an interrupted reconciliation, trading resumes only when the open orders,
the account and the completed orders the broker still lists agree with the
ledger. A completed order is looked up by the root of its reference, under which
the ledger keeps one row: the order it replaced, and those that replaced it, are
on that row too.
-/

namespace Poma

open Interaction

/-- `known_roots`, read at one root: the last row of the root wins. -/
def knownRoot (entries : List OrderLedgerEntry) (root : String) : Option OrderLedgerEntry :=
  (entries.filter fun entry => stripReplacementSuffix entry.ledgerKey = root).getLast?

/-- One completed order of `verify_broker_recovery`. -/
def auditOrder (entries : List OrderLedgerEntry) (order : OpenOrderSnapshot) : Except Exn Unit :=
  match order.orderRef with
  | none => .error (.other "expected string or bytes-like object, got 'NoneType'")
  | some orderRef =>
    match knownRoot entries (stripReplacementSuffix orderRef) with
    | none => .error (.brokerUnavailable "broker recovery audit found a recent completed POMA order absent from the durable ledger; manual investigation required")
    | some recorded =>
      if recorded.ticker ≠ order.ticker ∨ recorded.side ≠ order.side then
        .error (.brokerUnavailable "broker recovery audit found a completed order identity conflict")
      else if orderRef = recorded.orderRef then
        if recorded.lifecycleState = .unknown then
          .error (.brokerUnavailable "broker recovery audit found an unknown completed order")
        else if order.rawStatus = "Filled" ∧ recorded.isTerminal ∧
            recorded.lifecycleState ≠ .filled then
          .error (.brokerUnavailable "broker recovery audit found a completed fill/ledger status conflict")
        else if recorded.isTerminal then .ok ()
        else .error (.brokerUnavailable "broker recovery audit found a completed order still recorded as working")
      else .ok ()

/-- The loop of `verify_broker_recovery`. -/
def auditOrders (entries : List OrderLedgerEntry) : List OpenOrderSnapshot → Except Exn Unit
  | [] => .ok ()
  | order :: rest => (auditOrder entries order).bind fun _ => auditOrders entries rest

/-- What a passed audit says. -/
def recoveryAuditPassed : String :=
  "Broker recovery audit passed: open POMA orders, authenticated account cash/positions and available recent completed orders/executions checked. Historical broker order finality beyond IBKR retention is not certified."

/-- An open row that is not known to be working. -/
def OrderLedgerEntry.openUnverified (entry : OrderLedgerEntry) : Bool :=
  !entry.isTerminal && (entry.lifecycleState = .unknown || entry.rawStatus = notOpenUnverified)

/-- `verify_broker_recovery`. -/
def verifyBrokerRecovery (broker : Broker) (settings : Settings) (summary : ReconcileSummary) :
    M String :=
  if summary.updates.any fun u => u.action = some .error || u.action = some .unverified then
    raise (.brokerUnavailable "broker recovery audit failed: unresolved order updates")
  else loadLatest.bind fun store =>
    if store.loadLatestEntries.any (·.openUnverified) then
      raise (.brokerUnavailable "broker recovery audit failed: unknown local order state")
    else (broker.accountSnapshot.catching fun _ => raise (.brokerUnavailable
        "broker recovery audit failed: authenticated cash/positions snapshot unavailable")).bind
      fun snapshot =>
      if snapshot.accountId ≠ settings.ibkrAccount ∨ snapshot.totalValueUsd.isFinite = false ∨
          snapshot.totalValueUsd.le (.finite 0) = true then
        raise (.brokerUnavailable "broker recovery audit failed: account identity or portfolio value not verified")
      else ((broker.fetchIbkrCompletedOrderSnapshots [] []).catching fun _ => raise
          (.brokerUnavailable "broker recovery audit failed: completed-order/execution evidence unavailable")).bind
        fun completed =>
        (Prog.ofExcept (S := sig) (auditOrders store.loadLatestEntries completed)).bind fun _ =>
          .ret recoveryAuditPassed

end Poma

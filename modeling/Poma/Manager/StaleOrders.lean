import Poma.Manager.Reconcile

/-!
# The stale-order check before a new rebalance

The ledger is refreshed against the broker first. Open rows of another session
or run are then blocked on, or their cancellation is requested; each of these
outcomes is a warning that carries the engine's blocking marker.
-/

namespace Poma

open Interaction

/-- `BLOCK_MARKER`. -/
def blockMarker : String := "block execution"

/-- The result of the check. -/
structure StaleOrderCheck where
  warnings : List String
  cancelledLedgerKeys : List String := []
  deriving DecidableEq

/-- `", ".join(sorted({entry.ticker for entry in entries}))`. -/
def tickerList (entries : List OrderLedgerEntry) : String := joinSorted (entries.map (·.ticker))

/-- The row of an unresolved order whose cancellation was requested. -/
def staleCancelled (entry : OrderLedgerEntry) (label : String) : OrderLedgerEntry :=
  entry.cancelRequested s!"cancelled: unresolved order from {label}"

/-- Why a refresh that failed blocks the rebalance. -/
def refreshWarning (openEntries : List OrderLedgerEntry) (e : Exn) : String :=
  s!"unable to refresh local open orders against IBKR before planning ({openEntries.length.repr} local order(s): {tickerList openEntries}); block execution: {e.message}"

/-- The three warnings of a group under the cancel policy. -/
def cancelWarnings (group : List OrderLedgerEntry) (label : String) (cancelled : List String) :
    List String :=
  let unresolved := group.length - cancelled.length
  [s!"requested cancellation of {cancelled.length.repr} open order(s) from {label} before planning ({tickerList group})"] ++
    (if cancelled = [] then []
      else ["cancellation awaiting broker terminal confirmation; block execution"]) ++
    (if unresolved = 0 then []
      else [s!"{unresolved.repr} open order(s) from {label} could not be confirmed cancelled ({tickerList group}); block execution"])

/-- The warning of a group under the block policy. -/
def blockWarning (group : List OrderLedgerEntry) (label : String) : String :=
  s!"{group.length.repr} open order(s) from {label} are still unresolved ({tickerList group}); run `poma reconcile-orders` or cancel manually before this session can trade; block execution"

/-- The warning of open orders of the attempt's own run. -/
def sameRunWarning (group : List OrderLedgerEntry) : String :=
  s!"{group.length.repr} open order(s) from this run are still unresolved ({tickerList group}); run `poma reconcile-orders` to follow up"

/-- `other_session`. -/
def otherSession (entries : List OrderLedgerEntry) (sessionDate : String) :
    List OrderLedgerEntry := entries.filter (·.sessionDate ≠ sessionDate)

/-- `same_session_foreign_run`. -/
def sameSessionForeignRun (entries : List OrderLedgerEntry) (sessionDate runId : String) :
    List OrderLedgerEntry :=
  entries.filter fun entry => entry.sessionDate = sessionDate ∧ entry.runId ≠ runId

/-- `same_run`. -/
def sameRun (entries : List OrderLedgerEntry) (sessionDate runId : String) :
    List OrderLedgerEntry :=
  entries.filter fun entry => entry.sessionDate = sessionDate ∧ entry.runId = runId

namespace ExecutionManager

variable (self : ExecutionManager)

/-- The refresh of the ledger: it raises unless every row was reconciled. -/
def refreshOpenOrders : M Unit :=
  self.reconcile.bind fun summary =>
  if summary.updates.any (·.action = some .error) then
    raise (.runtimeError
      "IBKR order-state recovery incomplete; retry reconciliation before trading")
  else .ret ()

/-- Request the cancellation of one unresolved order; its key when it was requested. -/
def cancelStaleEntry (label : String) (entry : OrderLedgerEntry) : M (Option String) :=
  -- never mutate a rediscovered order without its original ledger
  if entry.isRecovered then .ret none
  else match entry.orderId with
    | none => .ret none
    | some orderId => (self.broker.cancelOrder orderId).bind fun requested =>
      if requested then
        (upsertEntry (staleCancelled entry label)).bind fun _ => .ret (some entry.ledgerKey)
      else .ret none

/-- The warnings of one group, and the keys whose cancellation was requested. -/
def checkGroup (group : List OrderLedgerEntry) (label : String) :
    M (List String × List String) :=
  if group = [] then .ret ([], [])
  else match self.settings.staleOrderPolicy with
    | .cancel =>
      (Prog.collect (self.cancelStaleEntry label) group).bind fun requested =>
      let cancelled := requested.filterMap id
      .ret (cancelWarnings group label cancelled, cancelled)
    | .block => .ret ([blockWarning group label], [])

/-- The decision over the open rows, once the ledger is refreshed. -/
def checkOpenEntries (openEntries : List OrderLedgerEntry) (sessionDate runId : String) :
    M StaleOrderCheck :=
  (self.checkGroup (otherSession openEntries sessionDate) "a prior session").bind
    fun (prior, priorKeys) =>
  (self.checkGroup (sameSessionForeignRun openEntries sessionDate runId)
    "a different run in this session").bind fun (foreign, foreignKeys) =>
  let own := sameRun openEntries sessionDate runId
  .ret {
    warnings := prior ++ foreign ++ (if own = [] then [] else [sameRunWarning own])
    cancelledLedgerKeys := priorKeys ++ foreignKeys }

/-- `check_stale_orders`. -/
def checkStaleOrders (sessionDate runId : String) : M StaleOrderCheck :=
  loadLatest.bind fun store =>
  let openEntries := store.loadOpenOrders
  -- a missing or empty ledger is not evidence of zero broker orders
  if openEntries = [] ∧ self.broker.isIbkr = false then
    self.checkOpenEntries openEntries sessionDate runId
  else self.refreshOpenOrders.attempt.bind fun
    | .error e => .ret { warnings := [refreshWarning openEntries e] }
    | .ok _ => loadLatest.bind fun store =>
      self.checkOpenEntries store.loadOpenOrders sessionDate runId

end ExecutionManager

end Poma

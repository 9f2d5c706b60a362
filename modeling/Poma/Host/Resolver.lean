import Mathlib.Algebra.Order.Ring.Rat
import Mathlib.Data.List.Lex
import Poma.Models.LedgerFile
import Poma.Models.Settings
import Poma.Numeric.Reported

/-!
# The operator's resolver of a stale order

The one unresolved order of the ledger is marked filled from evidence alone: its
broker identity is not open, the position moved by its quantity since the
reconciliation of its run, and the event log shows that the broker accepted it
and no other order of its ticker since its last status.
-/

namespace JsonText

/-- The value of a floating-point number. -/
def Decimal.value (x : Decimal) : ℚ :=
  (if x.negative then -1 else 1) * digitsValue x.digits * 10 ^ (x.point - x.digits.length)

/-- The value of a number. -/
def Number.value : Number → ℚ
  | .int n => n
  | .float x => x.value

end JsonText

namespace Poma

namespace Resolver

open JsonText Storage

/-- `_ZERO_TOLERANCE`. -/
def zeroTolerance : ℚ := 1 / 1000000000

/-- `_STALE_RAW_STATUS`. -/
def staleRawStatus : String := "NotOpenUnverified"

/-- The records of the two ledger files, those of the event log with their line numbers. -/
structure Ledger where
  snapshot : List StoredEntry
  events : List (StoredEntry × Nat)
  deriving DecidableEq

namespace Ledger

/-- The records of the event log. -/
def logged (ledger : Ledger) : List StoredEntry := ledger.events.map Prod.fst

/-- `load_open_orders` of the records. -/
def openOrders (ledger : Ledger) : List StoredEntry :=
  ((ledger.snapshot ++ ledger.logged).foldl
    (fun entries entry => StoredEntry.schema.put entry entries) []).filter
      fun entry => !entry.isTerminal

/-- The record of a numbered line. -/
def readLine (line : Text × Nat) : Option (StoredEntry × Nat) :=
  (StoredEntry.decode line.1).map fun entry => (entry, line.2)

/-- The records of the lines that are not blank, counted from a number on. -/
def readLines (first : Nat) (lines : List Text) : Option (List (StoredEntry × Nat)) :=
  ((lines.zipIdx first).filter fun line => hasText line.1).mapM readLine

/-- The records of two files; nothing when a line that is not blank is not a record. -/
def ofFiles (files : Files) : Option Ledger := do
  let snapshot ← StoredEntry.schema.parse (files.snapshot.getD [])
  let events ← readLines 1 (splitLines (readText (files.log.getD [])))
  some ⟨snapshot, events⟩

end Ledger

/-- A position of the account snapshot a reconciliation retains; a missing quantity is zero. -/
structure RetainedPosition where
  ticker : Str
  quantity : Option Reported
  deriving DecidableEq

/-- The account snapshot a reconciliation retains. -/
structure RetainedSnapshot where
  positions : List RetainedPosition
  timestampUtc : Option Str
  deriving DecidableEq

/-- The reconciliation file of a run; its account snapshot is null when the read of it failed. -/
inductive Reconciliation where
  | missing
  | unreadable
  | written (postTradeAccountSnapshot : Option RetainedSnapshot)
  deriving DecidableEq

/-- What the resolver reads: its arguments and settings, the ledger's files, the broker's two
answers, the reconciliation file of a run and the clock. -/
structure Inputs where
  apply : Bool
  actor : Str
  workflowRunId : Str
  tradingMode : TradingMode
  files : Files
  openSnapshots : Except Exn (List OpenOrderSnapshot)
  accountSnapshot : Except Exn AccountSnapshot
  reconciliations : Str → Reconciliation
  resolvedAt : Str

/-- Another order's broker activity, as the evidence reports it. -/
structure Activity where
  eventLine : Nat
  ledgerKey : Str
  side : OrderSide
  lifecycleState : OrderLifecycleState
  orderId : Option Int
  permId : Option Int
  lastStatusAt : Option Str
  deriving DecidableEq

/-- What `_event_evidence` finds. -/
structure Evidence where
  acceptedSeen : Bool := false
  permIdSeen : Bool := false
  laterPomaBrokerActivity : List Activity := []
  deriving DecidableEq

/-- Why the resolver refuses. -/
inductive Refusal where
  | notApplied
  | notPaper (mode : TradingMode)
  | unreadableLedger
  | unresolvedCount (count : Nat)
  | notUnknown (state : OrderLifecycleState)
  | rawStatus (status : Str)
  | noOrderRef
  | noPermId
  | quantity (quantity filledQty : Number)
  | orderRefOpen
  | permIdOpen
  | noReconciliation
  | unreadableReconciliation
  | positionChange (ticker : Str) (retained current : Reported)
  | notAccepted
  | permIdNotSeen
  | laterActivity (activity : List Activity)
  | raised (e : Exn)

/-- How a run of the resolver ends that does not refuse. -/
inductive Resolution where
  | noop
  | applied (resolved : StoredEntry) (evidence : Evidence)

/-- Refuse under a condition. -/
def refuseIf (condition : Prop) [Decidable condition] (refusal : Refusal) : Except Refusal Unit :=
  if condition then .error refusal else .ok ()

/-- What the broker raises ends the run. -/
def askedBroker {α : Type} : Except Exn α → Except Refusal α
  | .ok a => .ok a
  | .error e => .error (.raised e)

section Evidence

variable (upper : Str → Str)

/-- `_position_quantity`. -/
def positionQuantity (snapshot : AccountSnapshot) (ticker : Str) : Reported :=
  match snapshot.positions.find? fun position => upper (str position.ticker) = upper ticker with
  | some position => position.quantity
  | none => .finite 0

/-- `_retained_post_submission_quantity` of a file that was read: no snapshot has no positions. -/
def retainedQuantity (snapshot : Option RetainedSnapshot) (ticker : Str) : Reported :=
  let positions := (snapshot.map (·.positions)).getD []
  match positions.find? fun position => upper position.ticker = upper ticker with
  | some position => position.quantity.getD (.finite 0)
  | none => .finite 0

/-- `_expected_position_delta`. -/
def expectedPositionDelta (entry : StoredEntry) : ℚ :=
  match entry.side with
  | .buy => entry.quantity.value
  | .sell => -entry.quantity.value

/-- `_position_change_proves_fill`. -/
def positionChangeProvesFill (entry : StoredEntry) (retained current : Reported) : Bool :=
  (((current.sub retained).sub (.finite (expectedPositionDelta entry))).abs).le
    (.finite zeroTolerance)

/-- The time an event was recorded at, as the scan reads it: empty when it has none. -/
def eventTime (event : StoredEntry) : Str :=
  match event.lastStatusAt.filter (· ≠ []) with
  | some time => time
  | none => event.submittedAt.getD []

/-- The states that show that the broker has an order. -/
def brokerStates : List OrderLifecycleState :=
  [.submitted, .brokerAccepted, .partiallyFilled, .filled]

/-- An event shows activity at the broker: an id, or a state the broker gives. -/
def showsActivity (event : StoredEntry) : Bool :=
  event.orderId.any (0 < ·) || event.permId.any (0 < ·) ||
    decide (event.lifecycleState ∈ brokerStates)

/-- What the scan skips: an event that is not after the cutoff, where both times are known. -/
def beforeCutoff (cutoff : Str) (event : StoredEntry) : Bool :=
  cutoff ≠ [] && eventTime event ≠ [] && decide (eventTime event ≤ cutoff)

/-- The states of the entry itself that show it was accepted. -/
def acceptedStates : List OrderLifecycleState := [.brokerAccepted, .partiallyFilled, .submitted]

/-- One turn of the scan of `_event_evidence`. -/
def scanEvent (entry : StoredEntry) (evidence : Evidence) (line : Nat) (event : StoredEntry) :
    Evidence :=
  if event.ledgerKey = entry.ledgerKey then
    { evidence with
      acceptedSeen := evidence.acceptedSeen || decide (event.lifecycleState ∈ acceptedStates)
      permIdSeen := evidence.permIdSeen ||
        (entry.permId.any (· ≠ 0) && event.permId.getD 0 = entry.permId.getD 0) }
  else if upper event.ticker ≠ upper entry.ticker then evidence
  else if beforeCutoff (entry.lastStatusAt.getD []) event then evidence
  else if showsActivity event then
    { evidence with
      laterPomaBrokerActivity := evidence.laterPomaBrokerActivity ++
        [⟨line, event.ledgerKey, event.side, event.lifecycleState, event.orderId, event.permId,
          event.lastStatusAt⟩] }
  else evidence

/-- The scan of `_event_evidence`. -/
def scanEvents (entry : StoredEntry) (evidence : Evidence) : List (StoredEntry × Nat) → Evidence
  | [] => evidence
  | (event, line) :: rest => scanEvents entry (scanEvent upper entry evidence line event) rest

/-- `_event_evidence`. -/
def eventEvidence (events : List (StoredEntry × Nat)) (entry : StoredEntry) : Evidence :=
  scanEvents upper entry {} events

/-- `f"{x:g}"` of a reported number. -/
def generalText : Reported → String
  | .finite x => formatGeneral x
  | .infinite negative => if negative then "-inf" else "inf"
  | .nan => "nan"

/-- The reason a resolved entry carries. -/
def resolutionReason (inputs : Inputs) (entry : StoredEntry) (retained current : Reported) : Str :=
  str "operator-resolved filled from retained evidence after broker history aged out: order_ref=" ++
    entry.orderRef ++ str s!"; perm_id={(entry.permId.getD 0).repr}; ticker=" ++ entry.ticker ++
    str s!"; side={entry.side.value}; quantity={formatGeneral entry.quantity.value}" ++
    str s!"; post_submission_qty={generalText retained}; current_qty={generalText current}" ++
    str s!"; observed_position_delta={generalText (current.sub retained)}; actor=" ++
    inputs.actor ++ str "; workflow_run_id=" ++ inputs.workflowRunId ++
    str ". No fill price was inferred. Rebalance session state was not cleared."

/-- `_operator_resolved_entry`. -/
def operatorResolvedEntry (entry : StoredEntry) (reason resolvedAt : Str) : StoredEntry :=
  { entry with
    lifecycleState := .filled
    rawStatus := str "OperatorResolvedFilled"
    filledQty := entry.quantity
    remainingQty := .float (.of false [] 0)
    lastStatusAt := some resolvedAt
    terminalReason := some reason }

/-- The guards of `_resolve` on the entry itself. -/
def checkEntry (entry : StoredEntry) : Except Refusal Unit := do
  refuseIf (entry.lifecycleState ≠ .unknown) (.notUnknown entry.lifecycleState)
  refuseIf (entry.rawStatus ≠ str staleRawStatus) (.rawStatus entry.rawStatus)
  refuseIf (entry.orderRef = []) .noOrderRef
  refuseIf (entry.permId.getD 0 = 0) .noPermId
  refuseIf (entry.quantity.value ≤ 0 ∨ zeroTolerance < entry.filledQty.value)
    (.quantity entry.quantity entry.filledQty)

/-- The guards of `_resolve` on the open orders at the broker. -/
def checkOpenSnapshots (entry : StoredEntry) (snapshots : List OpenOrderSnapshot) :
    Except Refusal Unit := do
  refuseIf (snapshots.any fun snapshot => snapshot.orderRef.map str = some entry.orderRef)
    .orderRefOpen
  refuseIf (snapshots.any fun snapshot => snapshot.permId = entry.permId) .permIdOpen

/-- The guards of `_resolve` on the event log. -/
def checkEvidence (evidence : Evidence) : Except Refusal Unit := do
  refuseIf (evidence.acceptedSeen = false) .notAccepted
  refuseIf (evidence.permIdSeen = false) .permIdNotSeen
  refuseIf (evidence.laterPomaBrokerActivity ≠ [])
    (.laterActivity evidence.laterPomaBrokerActivity)

/-- The guards of `_resolve` on the position: the quantities before and after. -/
def checkPosition (inputs : Inputs) (entry : StoredEntry) (account : AccountSnapshot) :
    Except Refusal (Reported × Reported) :=
  match inputs.reconciliations entry.runId with
  | .missing => .error .noReconciliation
  | .unreadable => .error .unreadableReconciliation
  | .written snapshot => do
    let current := positionQuantity upper account entry.ticker
    let retained := retainedQuantity upper snapshot entry.ticker
    refuseIf (positionChangeProvesFill entry retained current = false)
      (.positionChange entry.ticker retained current)
    .ok (retained, current)

/-- `_resolve`, once the one unresolved entry is known. -/
def resolveEntry (inputs : Inputs) (ledger : Ledger) (entry : StoredEntry) :
    Except Refusal Resolution := do
  checkEntry entry
  let snapshots ← askedBroker inputs.openSnapshots
  checkOpenSnapshots entry snapshots
  let account ← askedBroker inputs.accountSnapshot
  let (retained, current) ← checkPosition upper inputs entry account
  let evidence := eventEvidence upper ledger.events entry
  checkEvidence evidence
  .ok (.applied (operatorResolvedEntry entry (resolutionReason inputs entry retained current)
    inputs.resolvedAt) evidence)

/-- `_resolve`. -/
def resolve (inputs : Inputs) : Except Refusal Resolution := do
  refuseIf (inputs.apply = false) .notApplied
  refuseIf (inputs.tradingMode ≠ .paper) (.notPaper inputs.tradingMode)
  match Ledger.ofFiles inputs.files with
  | none => .error .unreadableLedger
  | some ledger =>
    match ledger.openOrders with
    | [] => .ok .noop
    | [entry] => resolveEntry upper inputs ledger entry
    | entries => .error (.unresolvedCount entries.length)

end Evidence

end Resolver

end Poma

import Poma.Manager.Submission

/-!
# Reconciliation

A pass queries the open orders first, restores what the ledger does not know,
and matches every open row to the broker order behind it: by its reference, by a
reserved replacement, or by a broker id within its own family. What is not open
is looked up in the completed history before it is declared unverified.
-/

namespace Poma

open Interaction

/-- The actions a reconcile update can report. -/
inductive ReconcileAction where
  | replace
  | replaceDeferred
  | cancel
  | closed
  | unverified
  | error
  | recovered
  deriving DecidableEq

/-- What a pass reports on one open row. -/
structure ReconcileUpdate where
  entry : OrderLedgerEntry
  action : Option ReconcileAction
  matched : Bool
  detail : Option String := none
  deriving DecidableEq

/-- What a pass reports as a whole. -/
structure ReconcileSummary where
  checked : Nat
  updates : List ReconcileUpdate
  deriving DecidableEq

/-- The text that marks a rediscovered order. -/
def recoveredPrefix : String := "Recovered from IBKR"

/-- The terminal reason of a rediscovered order. -/
def recoveredReason : String :=
  "Recovered from IBKR: original local order history missing; no automated replace/cancel"

/-- The session date of a rediscovered order: always considered stale. -/
def recoveredSessionDate : String := "1970-01-01"

/-- The terminal reason of an order the broker no longer reports as open. -/
def unverifiedReason : String :=
  "broker no longer reports this POMA order as open, but its final state is unverified; keeping it unresolved to prevent duplicate resubmission"

/-- The raw status of an order the broker no longer reports as open. -/
def notOpenUnverified : String := "NotOpenUnverified"

/-- `_entry_refs`, without its repetitions' order. -/
def OrderLedgerEntry.refs (entry : OrderLedgerEntry) : List String :=
  [entry.orderRef, entry.ledgerKey] ++ entry.reservedRef.toList

/-- Whether the terminal reason marks a rediscovered order. -/
def OrderLedgerEntry.isRecovered (entry : OrderLedgerEntry) : Bool :=
  entry.terminalReason.any (startsWith · recoveredPrefix)

/-- The third loop of `_match_snapshot`: same family and instrument, same broker id. -/
def OrderLedgerEntry.matchesFamily (entry : OrderLedgerEntry) (snapshot : OpenOrderSnapshot) :
    Bool :=
  startsWith (snapshot.orderRef.getD "") entry.ledgerKey &&
    (snapshot.ticker = entry.ticker && snapshot.side = entry.side) &&
    ((entry.permId.any (· ≠ 0) && snapshot.permId = entry.permId) ||
      (entry.orderId.isSome && snapshot.orderId = entry.orderId))

/-- `_match_snapshot`: the order behind a row, and whether it is the reserved replacement. -/
def matchSnapshot (entry : OrderLedgerEntry) (snapshots : List OpenOrderSnapshot) :
    Option (OpenOrderSnapshot × Bool) :=
  match snapshots.find? (·.orderRef = some entry.orderRef) with
  | some snapshot => some (snapshot, false)
  | none =>
    match entry.reservedRef.bind fun ref => snapshots.find? (·.orderRef = some ref) with
    | some snapshot => some (snapshot, true)
    | none => (snapshots.find? entry.matchesFamily).map (·, false)

/-- The row once another reference is its live order. -/
def OrderLedgerEntry.switchTo (entry : OrderLedgerEntry) (ref : String) : OrderLedgerEntry :=
  { entry with orderRef := ref, replacementOrderRef := none }

/-- `_adopt_replacement`, at the time of the report. -/
def adoptReplacement (entry : OrderLedgerEntry) (snapshot : OpenOrderSnapshot) (now : ℚ) :
    OrderLedgerEntry :=
  (entry.switchTo (entry.replacementOrderRef.getD "")).withSnapshot snapshot now

/-- `_close_unreported_open_entry`. -/
def closeUnreportedOpenEntry (entry : OrderLedgerEntry) (now : ℚ) : OrderLedgerEntry :=
  { entry with
    lifecycleState := .unknown
    rawStatus := notOpenUnverified
    remainingQty := entry.openQuantity
    lastStatusAt := some (.instant now)
    terminalReason := some unverifiedReason }

/-- The row of a rediscovered order, before its own report is applied. -/
def restoredEntry (snapshot : OpenOrderSnapshot) (ref runId : String) (now : ℚ) :
    OrderLedgerEntry where
  ledgerKey := ref
  orderRef := ref
  runId := runId
  sessionDate := recoveredSessionDate
  ticker := snapshot.ticker
  side := snapshot.side
  quantity := snapshot.filled + snapshot.remaining
  limitPrice := none
  orderId := snapshot.orderId
  permId := snapshot.permId
  submittedAt := some (.instant now)
  lifecycleState := .unknown
  terminalReason := some recoveredReason

/-- The run a parseable order reference names: at least five parts, the last three fixed. -/
def parseOrderRef (rootRef : String) (ticker : String) (side : OrderSide) : Option String :=
  let parts := splitColon rootRef
  match parts.reverse with
  | sidePart :: tickerPart :: index :: rest =>
    let runId := String.intercalate ":" (rest.reverse.drop 1)
    if parts.length < 5 ∨ parts.head? ≠ some "poma" ∨ isDigits index = false ∨
        tickerPart ≠ ticker ∨ sidePart ≠ side.value ∨ runId = "" then none
    else some runId
  | _ => none

/-- What the restore scan decides about one snapshot, from the rows known so far. -/
inductive RestoreDecision where
  | known
  | conflict (e : Exn)
  | restore (entry : ℚ → OrderLedgerEntry)

/-- One turn of `_restore_untracked_broker_orders`, up to the clock read. -/
def restoreDecision (known : OrderStore) (snapshot : OpenOrderSnapshot) : RestoreDecision :=
  let ref := snapshot.orderRef.getD ""
  match known.entries.find? (·.orderRef = ref) with
  | some matching =>
    if matching.ticker ≠ snapshot.ticker ∨ matching.side ≠ snapshot.side ∨ matching.isTerminal then
      .conflict (.runtimeError
        s!"IBKR orderRef conflict for {ref}: broker identity disagrees with ledger")
    else .known
  | none =>
    let rootRef := stripReplacementSuffix ref
    if (known.latest rootRef).isSome then
      .conflict (.runtimeError
        s!"IBKR replacement {ref} is absent from durable order history; block trading")
    else match parseOrderRef rootRef snapshot.ticker snapshot.side with
      | none => .conflict (.runtimeError
          s!"unparseable broker POMA orderRef '{ref}'; block trading")
      | some runId =>
        if snapshot.filled + snapshot.remaining ≤ 0 ∨ snapshot.orderId = none then
          .conflict (.runtimeError s!"incomplete broker identity for {ref}; block trading")
        else .restore fun now => restoredEntry snapshot ref runId now

/-- The loop of `_restore_untracked_broker_orders` over the rows known so far. -/
def restoreLoop (known : OrderStore) :
    List OpenOrderSnapshot → List OrderLedgerEntry → M (List OrderLedgerEntry)
  | [], recovered => .ret recovered
  | snapshot :: rest, recovered =>
    match restoreDecision known snapshot with
    | .known => restoreLoop known rest recovered
    | .conflict e => raise e
    | .restore entryAt =>
      utcNow.bind fun submitted => utcNow.bind fun now =>
      let entry := (entryAt submitted).withSnapshot snapshot now
      let ref := snapshot.orderRef.getD ""
      if entry.isTerminal then
        raise (.runtimeError s!"unexpected terminal order returned as open: {ref}")
      else (upsertEntry entry).bind fun _ =>
        restoreLoop (known.upsert entry) rest (recovered ++ [entry])

/-- `_restore_untracked_broker_orders`. -/
def restoreUntrackedBrokerOrders (snapshots : List OpenOrderSnapshot) :
    M (List OrderLedgerEntry) :=
  loadLatest.bind fun known => restoreLoop known snapshots []

/-- The quote a row was last priced off, as the ledger keeps it. -/
structure QuoteMetadata where
  referencePrice : ℚ
  referencePriceSource : String
  referencePriceBasis : String
  referencePriceAsOfUtc : Option String
  quoteAgeSeconds : Option ℚ
  quoteSpreadBps : Option ℚ

/-- `replace(entry, **quote_metadata)`. -/
def OrderLedgerEntry.withMetadata (entry : OrderLedgerEntry) :
    Option QuoteMetadata → OrderLedgerEntry
  | none => entry
  | some metadata => { entry with
      referencePrice := some metadata.referencePrice
      referencePriceSource := some metadata.referencePriceSource
      referencePriceBasis := some metadata.referencePriceBasis
      referencePriceAsOfUtc := metadata.referencePriceAsOfUtc
      quoteAgeSeconds := metadata.quoteAgeSeconds
      quoteSpreadBps := metadata.quoteSpreadBps }

/-- The limit a fresh quote allows a replacement, when it allows one. -/
def escalatedLimit (settings : Settings) (entry : OrderLedgerEntry) (quote : ExecutionQuote) :
    Option (ℚ × QuoteMetadata) :=
  let pricing := priceFromQuote quote entry.side settings settings.replacePriceImprovementBps
    true none
  match pricing.referencePrice, pricing.limitPrice, quote.numbers.bid, quote.numbers.ask,
    quote.numbers.spread, entry.referencePrice with
  | some price, some _, some bid, some ask, some spread, some reference =>
    let newLimit := if entry.side = .buy then ask else bid
    let signedMove := (newLimit - reference) * (if entry.side = .buy then 1 else -1)
    -- never worse than the current quote, never for no gain, never far from the arrival price
    if spread > settings.executionMaxSpreadBps then none
    else if entry.limitPrice.any fun limit =>
        (entry.side = .buy ∧ limit ≥ newLimit) ∨ (entry.side = .sell ∧ limit ≤ newLimit) then none
    else if reference ≤ 0 then none
    else if signedMove / reference * 10000 > settings.maxRepriceAdverseBps then none
    else if entry.quantity * newLimit > settings.maxOrderNotionalUsd + cashTolerance then none
    else some (newLimit, {
      referencePrice := price
      referencePriceSource := settings.executionPriceSource.value
      referencePriceBasis := pricing.basis
      referencePriceAsOfUtc := quote.selectedPriceAsOfUtc
      quoteAgeSeconds := quote.numbers.ageSeconds
      quoteSpreadBps := some spread })
  | _, _, _, _, _, _ => none

/-- The row recorded before a cancel-and-replace crosses the network. -/
def OrderLedgerEntry.replaceIntent (entry : OrderLedgerEntry) : OrderLedgerEntry :=
  { entry with
    lifecycleState := .replacePending
    rawStatus := "ReplacementUnconfirmed"
    replaceCount := entry.replaceCount + 1
    replacementOrderRef :=
      some (entry.ledgerKey ++ ":r" ++ (entry.replaceCount + 1).repr) }

/-- The row of an order whose cancellation was requested, and why. -/
def OrderLedgerEntry.cancelRequested (entry : OrderLedgerEntry) (reason : String) :
    OrderLedgerEntry :=
  { entry with lifecycleState := .cancelPending, terminalReason := some reason }

/-- The row of a replace whose cancel is still in flight. -/
def OrderLedgerEntry.replaceDeferred (intent : OrderLedgerEntry) (message : String) :
    OrderLedgerEntry :=
  { intent with
    lifecycleState := .cancelPending
    rawStatus := "PendingCancel"
    terminalReason := some message }

/-- The row of a cancelled order without the reason it was closed for. -/
def OrderLedgerEntry.reopened (entry : OrderLedgerEntry) : OrderLedgerEntry :=
  { entry with terminalReason := none }

/-- The row without the replacement it reserved. -/
def OrderLedgerEntry.dropReservation (entry : OrderLedgerEntry) : OrderLedgerEntry :=
  { entry with replacementOrderRef := none }

/-- The row of an order that filled before its replacement was placed. -/
def OrderLedgerEntry.filledFirst (entry : OrderLedgerEntry) (snapshot : OpenOrderSnapshot)
    (replaceCount : Nat) (stamp : ℚ) : OrderLedgerEntry :=
  { entry.withSnapshot snapshot stamp with replaceCount := replaceCount }

/-- The row of an order that is now the replacement the broker reports. -/
def OrderLedgerEntry.replacedBy (entry : OrderLedgerEntry) (ref : String)
    (snapshot : OpenOrderSnapshot) (newLimit : ℚ) (metadata : Option QuoteMetadata)
    (now stamp : ℚ) : OrderLedgerEntry :=
  { (entry.switchTo ref).withSnapshot snapshot stamp with
    limitPrice := some newLimit
    submittedAt := some (.instant now) }.withMetadata metadata

namespace ExecutionManager

variable (self : ExecutionManager)

/-- `_fresh_replace_limit_price`. -/
def freshReplaceLimitPrice (entry : OrderLedgerEntry) :
    M (Option (ℚ × Option QuoteMetadata)) :=
  if self.settings.executionPriceSource ≠ .ibkr then
    .ret (entry.limitPrice.map fun limit => (moreAggressiveLimitPrice entry.side limit
      self.settings.replacePriceImprovementBps, none))
  else (self.broker.executionQuotes [entry.ticker]).bind fun quotes =>
    match quotes.lookup entry.ticker with
    | none => .ret none
    | some quote =>
      .ret ((escalatedLimit self.settings entry quote).map fun (limit, data) => (limit, some data))

/-- `_resume_replacement`. -/
def resumeReplacement (cancelled : OrderLedgerEntry) (replacementRef : String) (now : ℚ) :
    M (Option OrderLedgerEntry) :=
  -- a deferred replacement must not resubmit after partial fills
  if cancelled.filledQty > fillTolerance then .ret none
  else match self.broker.submitReplacement with
    | none => .ret none
    | some submit =>
      if cancelled.openQuantity ≤ fillTolerance then .ret none
      else match secondsSince cancelled.submittedAt now with
        | none => .ret none
        | some elapsed =>
          if elapsed ≥ self.settings.cancelAfterSeconds then .ret none
          else (self.freshReplaceLimitPrice cancelled).bind fun
            | none => .ret none
            | some (newLimit, metadata) =>
              (submit ⟨cancelled.ticker, cancelled.side, cancelled.openQuantity, newLimit,
                replacementRef⟩).bind fun snapshot =>
              utcNow.bind fun stamp =>
              .ret (some (cancelled.reopened.replacedBy replacementRef snapshot newLimit metadata
                now stamp))

/-- The replace branch of `_apply_timeout_policy`, once a new limit is known. -/
def replaceWorking (entry : OrderLedgerEntry) (orderId : Int) (newLimit : ℚ)
    (metadata : Option QuoteMetadata) (now : ℚ) : M (OrderLedgerEntry × ReconcileAction) :=
  let intent := entry.replaceIntent
  let newRef := intent.replacementOrderRef.getD ""
  (upsertEntry intent).bind fun _ =>
  (self.broker.replaceOrder ⟨orderId, entry.ticker, entry.side,
    if entry.remainingQty ≠ 0 then entry.remainingQty else entry.quantity, newLimit,
    newRef⟩).attempt.bind fun
  | .error (.cancelNotConfirmed message) =>
    -- the cancel is in flight and nothing new was placed
    .ret (intent.replaceDeferred message, .replaceDeferred)
  | .error e => raise e
  | .ok snapshot =>
    utcNow.bind fun stamp =>
    if snapshot.orderRef ≠ some newRef then
      -- the original filled while the cancel was in flight
      .ret (entry.filledFirst snapshot intent.replaceCount stamp, .closed)
    else .ret (intent.replacedBy newRef snapshot newLimit metadata now stamp, .replace)

/-- `_apply_timeout_policy`. -/
def applyTimeoutPolicy (entry : OrderLedgerEntry) (now : ℚ) :
    M (Option (OrderLedgerEntry × ReconcileAction)) :=
  if entry.lifecycleState ∉ workingLifecycleStates then .ret none
  else match secondsSince entry.submittedAt now with
    | none => .ret none
    | some elapsed =>
      if elapsed ≥ self.settings.cancelAfterSeconds ∧ entry.Unfilled then
        match entry.orderId with
        | none => .ret none
        | some orderId => (self.broker.cancelOrder orderId).bind fun cancelled =>
          if cancelled then
            .ret (some (entry.cancelRequested
              s!"cancelled after {self.settings.cancelAfterSeconds.repr}s unfilled", .cancel))
          else .ret none
      else if self.settings.autoReplaceUnfilledOrders ∧ entry.Unfilled ∧
          elapsed ≥ self.settings.replaceAfterSeconds ∧ entry.replaceCount < 1 then
        match entry.orderId with
        | none => .ret none
        | some orderId => (self.freshReplaceLimitPrice entry).bind fun
          | none => .ret none
          | some (newLimit, metadata) =>
            (self.replaceWorking entry orderId newLimit metadata now).bind fun taken =>
            .ret (some taken)
      else .ret none

/-- Record a row and report it. -/
def report (entry : OrderLedgerEntry) (action : Option ReconcileAction) (matched : Bool) :
    M ReconcileUpdate :=
  (upsertEntry entry).bind fun _ => .ret { entry := entry, action := action, matched := matched }

/-- The timeout policy of a reported open order, and its record. -/
def followOpen (updated : OrderLedgerEntry) (now : ℚ) : M ReconcileUpdate :=
  (if updated.isRecovered then .ret none else self.applyTimeoutPolicy updated now).bind fun
  | some (taken, action) => report taken (some action) true
  | none => report updated none true

/-- The branch of `_reconcile_entry` for an order reported open. -/
def reconcileOpen (entry : OrderLedgerEntry) (snapshot : OpenOrderSnapshot) (now : ℚ) :
    M ReconcileUpdate :=
  utcNow.bind fun stamp =>
  let updated : OrderLedgerEntry := entry.withSnapshot snapshot stamp
  match entry.reservedRef with
  | none => self.followOpen updated now
  | some ref =>
    if updated.lifecycleState = .cancelled then
      (self.resumeReplacement updated ref now).bind fun
      | some resumed => report resumed (some .replace) true
      | none => self.followOpen updated.dropReservation now
    else if updated.lifecycleState ∈ workingLifecycleStates then
      -- the original is working again: drop the unplaced replacement
      self.followOpen updated.dropReservation now
    else self.followOpen updated now

/-- The last branch of `_reconcile_entry`: reported neither open nor completed. -/
def reconcileUnreported (entry : OrderLedgerEntry) (now : ℚ) : M ReconcileUpdate :=
  if entry.lifecycleState = .unknown ∧ entry.rawStatus = notOpenUnverified then
    .ret { entry := entry, action := none, matched := false }
  else
    let updated := closeUnreportedOpenEntry entry now
    report updated (some (if updated.isTerminal then .closed else .unverified)) false

/-- Finish a reserved replacement of a row that the history proves cancelled. -/
def resumeReserved (reserved : Option String) (completed : OrderLedgerEntry) (now : ℚ) :
    M (Option OrderLedgerEntry) :=
  match reserved with
  | some ref =>
    if completed.lifecycleState = .cancelled then self.resumeReplacement completed ref now
    else .ret none
  | none => .ret none

/-- The branch of `_reconcile_entry` for an order in the completed history. -/
def reconcileCompleted (entry : OrderLedgerEntry) (snapshot : OpenOrderSnapshot) (now : ℚ) :
    M ReconcileUpdate :=
  utcNow.bind fun stamp =>
  let completed : OrderLedgerEntry := entry.withSnapshot snapshot stamp
  if completed.isTerminal then
    (self.resumeReserved entry.reservedRef completed now).bind fun
    | some resumed => report resumed (some .replace) true
    | none => report completed.dropReservation (some .closed) true
  else reconcileUnreported entry now

/-- `_reconcile_entry`. -/
def reconcileEntry (entry : OrderLedgerEntry)
    (openSnapshots completedSnapshots : List OpenOrderSnapshot) (now : ℚ) : M ReconcileUpdate :=
  match matchSnapshot entry openSnapshots with
  | some (snapshot, true) =>
    -- the replacement reached the broker even though its confirmation was lost
    utcNow.bind fun stamp => report (adoptReplacement entry snapshot stamp) (some .replace) true
  | some (snapshot, false) => self.reconcileOpen entry snapshot now
  | none =>
    match matchSnapshot entry completedSnapshots with
    | some (snapshot, true) =>
      utcNow.bind fun stamp =>
      let adopted := adoptReplacement entry snapshot stamp
      report adopted (some (if adopted.isTerminal then .closed else .replace)) true
    | some (snapshot, false) => self.reconcileCompleted entry snapshot now
    | none => reconcileUnreported entry now

/-- The completed-order query of a pass: a broker method, the IBKR history, or nothing. -/
def completedHistory (unmatched : List OrderLedgerEntry) : M (List OpenOrderSnapshot) :=
  match self.broker.fetchCompletedOrderSnapshots with
  | some fetch => fetch
  | none =>
    if self.broker.isIbkr then
      self.broker.fetchIbkrCompletedOrderSnapshots (unmatched.flatMap (·.refs)) unmatched
    else .ret []

/-- The completed snapshots of a pass: those of a wanted family, or the query's exception. -/
def completedSnapshots (openEntries : List OrderLedgerEntry)
    (openSnapshots : List OpenOrderSnapshot) : M (Except Exn (List OpenOrderSnapshot)) :=
  let unmatched := openEntries.filter fun entry => (matchSnapshot entry openSnapshots).isNone
  if unmatched = [] then .ret (.ok [])
  else
    let wanted := unmatched.flatMap (·.refs)
    (self.completedHistory unmatched).attempt.bind fun
    | .error e => .ret (.error e)
    | .ok completed => .ret (.ok (completed.filter fun snapshot =>
        match snapshot.orderRef with
        | some ref => ref ≠ "" && wanted.any (startsWith ref ·)
        | none => false))

/-- One turn of the loop of `reconcile`: a failure is reported on its own row. -/
def handleEntry (openSnapshots : List OpenOrderSnapshot)
    (history : Except Exn (List OpenOrderSnapshot)) (recovered : List OrderLedgerEntry) (now : ℚ)
    (entry : OrderLedgerEntry) : M ReconcileUpdate :=
  match history, matchSnapshot entry openSnapshots with
  | .error e, none => .ret {
      entry := entry
      action := some .error
      matched := false
      detail := some
        s!"IBKR completed-order history unavailable: {e.message}; retaining prior state" }
  | history, _ =>
    ((self.reconcileEntry entry openSnapshots (history.toOption.getD []) now).bind fun update =>
      .ret (if update.action = none ∧ entry.ledgerKey ∈ recovered.map (·.ledgerKey) then
        { update with action := some .recovered } else update)).catching fun e =>
    loadLatest.bind fun store => .ret {
      entry := (store.get entry.ledgerKey).getD entry
      action := some .error
      matched := false
      detail := some e.message }

/-- The snapshots of the open-order query that carry a reference. -/
def referenced (snapshots : List OpenOrderSnapshot) : List OpenOrderSnapshot :=
  snapshots.filter fun snapshot => snapshot.orderRef.any (· ≠ "")

/-- The part of `reconcile` after the open orders are known. -/
def reconcileOpenOrders (openSnapshots : List OpenOrderSnapshot) : M ReconcileSummary :=
  (if self.broker.isIbkr then restoreUntrackedBrokerOrders openSnapshots else .ret []).bind
    fun recovered =>
  loadLatest.bind fun store =>
  let openEntries := store.loadOpenOrders
  if openEntries = [] then .ret ⟨0, []⟩
  else
    (self.completedSnapshots openEntries openSnapshots).bind fun history =>
    utcNow.bind fun now =>
    (Prog.collect (self.handleEntry openSnapshots history recovered now) openEntries).bind
      fun updates => .ret ⟨openEntries.length, updates⟩

/-- `reconcile`. -/
def reconcile : M ReconcileSummary :=
  loadLatest.bind fun store =>
  if store.loadOpenOrders = [] ∧ self.broker.isIbkr = false then .ret ⟨0, []⟩
  else self.broker.fetchOpenOrderSnapshots.bind fun snapshots =>
    self.reconcileOpenOrders (referenced snapshots)

end ExecutionManager

end Poma

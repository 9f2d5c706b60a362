import Poma.Host.Resolver
import Poma.Interaction.Program

/-!
# What a resolved order rests on

The scan of the event log is its step, repeated: it says which events it saw. A
run of the resolver marks the one unresolved order filled exactly when its reads
succeed and every guard holds. The guards look for other activity since the last
status of the order, and the position is compared over the time since the
retained snapshot was taken.
-/

namespace Poma

namespace Resolver

open Interaction (bind_eq_ok)
open JsonText Storage

namespace Ledger

@[simp] theorem readLines_nil (first : Nat) : readLines first [] = some [] := rfl

theorem readLines_cons_of_blank {line : Text} (h : ¬hasText line = true) (first : Nat)
    (lines : List Text) : readLines first (line :: lines) = readLines (first + 1) lines := by
  unfold readLines
  rw [List.zipIdx_cons, List.filter_cons, if_neg h]

theorem readLines_cons {line : Text} (h : hasText line = true) (first : Nat)
    (lines : List Text) :
    readLines first (line :: lines) = (StoredEntry.decode line).bind fun entry =>
      (readLines (first + 1) lines).map fun events => (entry, first) :: events := by
  unfold readLines
  rw [List.zipIdx_cons, List.filter_cons, if_pos h, List.mapM_cons, readLine]
  cases StoredEntry.decode line with
  | none => rfl
  | some entry =>
    cases ((lines.zipIdx (first + 1)).filter fun line => hasText line.1).mapM readLine <;> rfl

/-- Numbering the lines changes no record. -/
theorem readLines_eq (first : Nat) (lines : List Text) :
    (readLines first lines).map (List.map Prod.fst) =
      (lines.filter hasText).mapM StoredEntry.decode := by
  induction lines generalizing first with
  | nil => rfl
  | cons line lines ih =>
    by_cases htext : hasText line = true
    · rw [readLines_cons htext, List.filter_cons_of_pos htext, List.mapM_cons, ← ih (first + 1)]
      cases StoredEntry.decode line with
      | none => rfl
      | some entry => cases readLines (first + 1) lines <;> rfl
    · rw [readLines_cons_of_blank htext, List.filter_cons_of_neg htext]
      exact ih (first + 1)

/-- The resolver's ledger is the one the store loads. -/
theorem openOrders_ofFiles (files : Files) :
    (ofFiles files).map openOrders =
      (LedgerFile.loadOpenOrders files Handle.fresh).map Prod.fst := by
  have hlog : StoredEntry.schema.parse (files.log.getD []) =
      (readLines 1 (splitLines (readText (files.log.getD [])))).map (List.map Prod.fst) :=
    (readLines_eq 1 _).symm
  unfold ofFiles LedgerFile.loadOpenOrders LedgerFile.query Schema.latestEntries Schema.load
  rw [hlog]
  cases StoredEntry.schema.parse (files.snapshot.getD []) with
  | none => rfl
  | some snapshot =>
    cases readLines 1 (splitLines (readText (files.log.getD []))) <;> rfl

/-- The lines of whole records are those records. -/
theorem readLines_lines (first : Nat) (events : List StoredEntry) :
    readLines first (splitLines (readText (StoredEntry.schema.lines events))) =
      some ((events.map StoredEntry.reread).zipIdx first) := by
  induction events generalizing first with
  | nil => rfl
  | cons event events ih =>
    have hplain := StoredEntry.schema.plain event
    obtain ⟨c, rest, hc, hspace⟩ := StoredEntry.schema.token event
    have htext : hasText (StoredEntry.schema.encode event) = true := by
      rw [hc]
      simp [hasText, hspace]
    have hlines : StoredEntry.schema.lines (event :: events) =
        StoredEntry.schema.encode event ++ '\n' :: StoredEntry.schema.lines events := by
      simp [Format.lines]
    have hdecode : StoredEntry.decode (StoredEntry.schema.encode event) = some event.reread :=
      StoredEntry.schema.decode_encode event
    rw [hlines, readText_append hplain, readText_newline, splitLines_append hplain,
      readLines_cons htext, hdecode, ih (first + 1)]
    rfl

/-- The files of whole records hold them. -/
theorem ofFiles_lines (snapshot events : List StoredEntry) :
    ofFiles ⟨some (StoredEntry.schema.lines snapshot), some (StoredEntry.schema.lines events),
        0, 0, []⟩ =
      some ⟨snapshot.map StoredEntry.reread, (events.map StoredEntry.reread).zipIdx 1⟩ := by
  unfold ofFiles
  rw [Option.getD_some, Option.getD_some, StoredEntry.schema.parse_lines, readLines_lines 1 events]
  rfl

end Ledger

section Scan

variable (upper : Str → Str) (entry : StoredEntry)

/-- An event of another order of the entry's ticker that shows activity at the broker. -/
def OthersActivity (event : StoredEntry) : Prop :=
  event.ledgerKey ≠ entry.ledgerKey ∧ upper event.ticker = upper entry.ticker ∧
    showsActivity event = true

/-- An event that shows that the broker accepted the entry. -/
def Accepts (event : StoredEntry) : Prop :=
  event.ledgerKey = entry.ledgerKey ∧ event.lifecycleState ∈ acceptedStates

/-- An event of the entry with its permanent id. -/
def Identifies (event : StoredEntry) : Prop :=
  event.ledgerKey = entry.ledgerKey ∧ event.permId.getD 0 = entry.permId.getD 0

instance (event : StoredEntry) : Decidable (OthersActivity upper entry event) :=
  inferInstanceAs (Decidable (_ ∧ _))

instance (event : StoredEntry) : Decidable (Accepts entry event) :=
  inferInstanceAs (Decidable (_ ∧ _))

instance (event : StoredEntry) : Decidable (Identifies entry event) :=
  inferInstanceAs (Decidable (_ ∧ _))

variable {upper entry} {evidence : Evidence}

theorem acceptedSeen_scanEvent {event : StoredEntry} {line : Nat} :
    (scanEvent upper entry evidence line event).acceptedSeen = true ↔
      evidence.acceptedSeen = true ∨ Accepts entry event := by
  unfold scanEvent Accepts
  by_cases hkey : event.ledgerKey = entry.ledgerKey
  · simp [hkey]
  · rw [if_neg hkey]
    split_ifs <;> simp [hkey]

theorem permIdSeen_scanEvent (hperm : entry.permId.getD 0 ≠ 0) {event : StoredEntry}
    {line : Nat} :
    (scanEvent upper entry evidence line event).permIdSeen = true ↔
      evidence.permIdSeen = true ∨ Identifies entry event := by
  have hknown : entry.permId.any (· ≠ 0) = true := by
    cases hid : entry.permId with
    | none => simp [hid] at hperm
    | some id => simpa [hid] using hperm
  unfold scanEvent Identifies
  by_cases hkey : event.ledgerKey = entry.ledgerKey
  · rw [if_pos hkey, hknown]
    simp [hkey]
  · rw [if_neg hkey]
    split_ifs <;> simp [hkey]

theorem laterActivity_scanEvent {event : StoredEntry} {line : Nat} :
    (scanEvent upper entry evidence line event).laterPomaBrokerActivity = [] ↔
      evidence.laterPomaBrokerActivity = [] ∧ (OthersActivity upper entry event →
        beforeCutoff (entry.lastStatusAt.getD []) event = true) := by
  unfold scanEvent OthersActivity
  by_cases hkey : event.ledgerKey = entry.ledgerKey
  · simp [hkey]
  · rw [if_neg hkey]
    split_ifs <;> simp_all

/-- The scan sees that the order was accepted. -/
theorem acceptedSeen_scanEvents (events : List (StoredEntry × Nat)) :
    (scanEvents upper entry evidence events).acceptedSeen = true ↔
      evidence.acceptedSeen = true ∨ ∃ event ∈ events.map Prod.fst, Accepts entry event := by
  induction events generalizing evidence with
  | nil => simp [scanEvents]
  | cons numbered events ih =>
    obtain ⟨event, line⟩ := numbered
    rw [scanEvents, ih, acceptedSeen_scanEvent]
    simp [or_assoc]

/-- The scan sees the permanent id of the order. -/
theorem permIdSeen_scanEvents (hperm : entry.permId.getD 0 ≠ 0)
    (events : List (StoredEntry × Nat)) :
    (scanEvents upper entry evidence events).permIdSeen = true ↔
      evidence.permIdSeen = true ∨ ∃ event ∈ events.map Prod.fst, Identifies entry event := by
  induction events generalizing evidence with
  | nil => simp [scanEvents]
  | cons numbered events ih =>
    obtain ⟨event, line⟩ := numbered
    rw [scanEvents, ih, permIdSeen_scanEvent hperm]
    simp [or_assoc]

/-- The scan reports nothing exactly when all activity of others is before its cutoff. -/
theorem laterActivity_scanEvents (events : List (StoredEntry × Nat)) :
    (scanEvents upper entry evidence events).laterPomaBrokerActivity = [] ↔
      evidence.laterPomaBrokerActivity = [] ∧
        ∀ event ∈ events.map Prod.fst, OthersActivity upper entry event →
          beforeCutoff (entry.lastStatusAt.getD []) event = true := by
  induction events generalizing evidence with
  | nil => simp [scanEvents]
  | cons numbered events ih =>
    obtain ⟨event, line⟩ := numbered
    rw [scanEvents, ih, laterActivity_scanEvent]
    simp [and_assoc]

end Scan

/-! ## The guards -/

/-- A guard passes exactly when its condition for a refusal fails. -/
theorem refuseIf_bind_ok {condition : Prop} [Decidable condition] {refusal : Refusal} {α : Type}
    {next : Unit → Except Refusal α} {a : α} :
    (refuseIf condition refusal >>= next) = .ok a ↔ ¬condition ∧ next () = .ok a := by
  unfold refuseIf
  by_cases h : condition
  · rw [if_pos h]
    exact ⟨nofun, fun hnext => absurd h hnext.1⟩
  · rw [if_neg h]
    exact (and_iff_right h).symm

theorem refuseIf_ok {condition : Prop} [Decidable condition] {refusal : Refusal} :
    refuseIf condition refusal = .ok () ↔ ¬condition := by
  unfold refuseIf
  by_cases h : condition <;> simp [h]

theorem askedBroker_ok {α : Type} {answer : Except Exn α} {a : α} :
    askedBroker answer = .ok a ↔ answer = .ok a := by
  cases answer <;> simp [askedBroker]

/-- What the resolver reads when every read succeeds. -/
structure Readings where
  ledger : Ledger
  entry : StoredEntry
  openSnapshots : List OpenOrderSnapshot
  account : AccountSnapshot
  retained : Option RetainedSnapshot

/-- The reads of the resolver succeed, and one order is unresolved. -/
structure Inputs.Reads (inputs : Inputs) (readings : Readings) : Prop where
  ledger : Ledger.ofFiles inputs.files = some readings.ledger
  entry : readings.ledger.openOrders = [readings.entry]
  openSnapshots : inputs.openSnapshots = .ok readings.openSnapshots
  account : inputs.accountSnapshot = .ok readings.account
  reconciliation : inputs.reconciliations readings.entry.runId = .written readings.retained

namespace Readings

variable (upper : Str → Str) (readings : Readings)

/-- The position now. -/
def current : Reported := positionQuantity upper readings.account readings.entry.ticker

/-- The position in the retained snapshot, as the resolver reads it. -/
def before : Reported := retainedQuantity upper readings.retained readings.entry.ticker

/-- The guards of the resolver hold. -/
structure Pass : Prop where
  unknown : readings.entry.lifecycleState = .unknown
  stale : readings.entry.rawStatus = str staleRawStatus
  hasRef : readings.entry.orderRef ≠ []
  hasPermId : readings.entry.permId.getD 0 ≠ 0
  quantity : 0 < readings.entry.quantity.value
  unfilled : readings.entry.filledQty.value ≤ zeroTolerance
  refNotOpen : ∀ snapshot ∈ readings.openSnapshots,
    snapshot.orderRef.map str ≠ some readings.entry.orderRef
  permIdNotOpen : ∀ snapshot ∈ readings.openSnapshots, snapshot.permId ≠ readings.entry.permId
  moved : positionChangeProvesFill readings.entry (readings.before upper)
    (readings.current upper) = true
  accepted : ∃ event ∈ readings.ledger.logged, Accepts readings.entry event
  identified : ∃ event ∈ readings.ledger.logged, Identifies readings.entry event
  quiet : ∀ event ∈ readings.ledger.logged, OthersActivity upper readings.entry event →
    beforeCutoff (readings.entry.lastStatusAt.getD []) event = true

end Readings

theorem checkEntry_ok {entry : StoredEntry} :
    checkEntry entry = .ok () ↔ entry.lifecycleState = .unknown ∧
      entry.rawStatus = str staleRawStatus ∧ entry.orderRef ≠ [] ∧ entry.permId.getD 0 ≠ 0 ∧
        0 < entry.quantity.value ∧ entry.filledQty.value ≤ zeroTolerance := by
  unfold checkEntry
  rw [refuseIf_bind_ok, refuseIf_bind_ok, refuseIf_bind_ok, refuseIf_bind_ok, refuseIf_ok]
  simp only [not_not, not_or, not_le, not_lt, ne_eq]

theorem checkOpenSnapshots_ok {entry : StoredEntry} {snapshots : List OpenOrderSnapshot} :
    checkOpenSnapshots entry snapshots = .ok () ↔
      (∀ snapshot ∈ snapshots, snapshot.orderRef.map str ≠ some entry.orderRef) ∧
        ∀ snapshot ∈ snapshots, snapshot.permId ≠ entry.permId := by
  unfold checkOpenSnapshots
  rw [refuseIf_bind_ok, refuseIf_ok]
  simp

theorem checkEvidence_ok {evidence : Evidence} :
    checkEvidence evidence = .ok () ↔ evidence.acceptedSeen = true ∧ evidence.permIdSeen = true ∧
      evidence.laterPomaBrokerActivity = [] := by
  unfold checkEvidence
  rw [refuseIf_bind_ok, refuseIf_bind_ok, refuseIf_ok]
  simp

/-- The guards on the event log are conditions on its events. -/
theorem checkEvidence_eventEvidence {upper : Str → Str} {ledger : Ledger} {entry : StoredEntry}
    (hperm : entry.permId.getD 0 ≠ 0) :
    checkEvidence (eventEvidence upper ledger.events entry) = .ok () ↔
      (∃ event ∈ ledger.logged, Accepts entry event) ∧
        (∃ event ∈ ledger.logged, Identifies entry event) ∧
          ∀ event ∈ ledger.logged, OthersActivity upper entry event →
            beforeCutoff (entry.lastStatusAt.getD []) event = true := by
  unfold eventEvidence Ledger.logged
  rw [checkEvidence_ok, acceptedSeen_scanEvents, permIdSeen_scanEvents hperm,
    laterActivity_scanEvents]
  simp

theorem checkPosition_ok {upper : Str → Str} {inputs : Inputs} {entry : StoredEntry}
    {account : AccountSnapshot} {quantities : Reported × Reported} :
    checkPosition upper inputs entry account = .ok quantities ↔
      ∃ retained, inputs.reconciliations entry.runId = .written retained ∧
        quantities = (retainedQuantity upper retained entry.ticker,
          positionQuantity upper account entry.ticker) ∧
        positionChangeProvesFill entry quantities.1 quantities.2 = true := by
  unfold checkPosition
  cases inputs.reconciliations entry.runId with
  | missing => simp
  | unreadable => simp
  | written retained =>
    simp only [refuseIf_bind_ok, Bool.not_eq_false, Except.ok.injEq, Reconciliation.written.injEq,
      exists_eq_left']
    constructor
    · rintro ⟨hmoved, rfl⟩
      exact ⟨rfl, hmoved⟩
    · rintro ⟨rfl, hmoved⟩
      exact ⟨hmoved, rfl⟩

/-- The resolver marks an order filled exactly when its reads succeed and its guards hold. -/
theorem resolve_applied_iff {upper : Str → Str} {inputs : Inputs} {resolved : StoredEntry}
    {evidence : Evidence} :
    resolve upper inputs = .ok (.applied resolved evidence) ↔
      inputs.apply = true ∧ inputs.tradingMode = .paper ∧
        ∃ readings, inputs.Reads readings ∧ readings.Pass upper ∧
          resolved = operatorResolvedEntry readings.entry (resolutionReason inputs readings.entry
            (readings.before upper) (readings.current upper)) inputs.resolvedAt ∧
          evidence = eventEvidence upper readings.ledger.events readings.entry := by
  unfold resolve
  rw [refuseIf_bind_ok, refuseIf_bind_ok, Bool.not_eq_false, ne_eq, not_not]
  apply and_congr_right
  intro _
  apply and_congr_right
  intro _
  constructor
  · intro h
    split at h
    · cases h
    · rename_i ledger hledger
      split at h
      · cases h
      · rename_i entry hentry
        unfold resolveEntry at h
        obtain ⟨_, hguards, h⟩ := bind_eq_ok.mp h
        obtain ⟨snapshots, hsnapshots, h⟩ := bind_eq_ok.mp h
        obtain ⟨_, hopen, h⟩ := bind_eq_ok.mp h
        obtain ⟨account, haccount, h⟩ := bind_eq_ok.mp h
        obtain ⟨quantities, hquantities, h⟩ := bind_eq_ok.mp h
        obtain ⟨_, hevidence, h⟩ := bind_eq_ok.mp h
        obtain ⟨retained, hretained, rfl, hmoved⟩ := checkPosition_ok.mp hquantities
        obtain ⟨hunknown, hstale, href, hperm, hquantity, hunfilled⟩ := checkEntry_ok.mp hguards
        obtain ⟨hrefOpen, hpermOpen⟩ := checkOpenSnapshots_ok.mp hopen
        obtain ⟨haccepted, hidentified, hquiet⟩ := (checkEvidence_eventEvidence hperm).mp hevidence
        obtain ⟨rfl, rfl⟩ := Resolution.applied.inj (Except.ok.inj h)
        refine ⟨⟨ledger, entry, snapshots, account, retained⟩, ?_, ?_, rfl, rfl⟩
        · exact ⟨hledger, hentry, askedBroker_ok.mp hsnapshots, askedBroker_ok.mp haccount,
            hretained⟩
        · exact ⟨hunknown, hstale, href, hperm, hquantity, hunfilled, hrefOpen, hpermOpen, hmoved,
            haccepted, hidentified, hquiet⟩
      · cases h
  · rintro ⟨readings, hreads, hpass, rfl, rfl⟩
    have hguards := checkEntry_ok.mpr ⟨hpass.unknown, hpass.stale, hpass.hasRef, hpass.hasPermId,
      hpass.quantity, hpass.unfilled⟩
    have hopen := checkOpenSnapshots_ok.mpr ⟨hpass.refNotOpen, hpass.permIdNotOpen⟩
    have hposition : checkPosition upper inputs readings.entry readings.account =
        .ok (readings.before upper, readings.current upper) :=
      checkPosition_ok.mpr ⟨readings.retained, hreads.reconciliation, rfl, hpass.moved⟩
    have hevidence := (checkEvidence_eventEvidence hpass.hasPermId).mpr
      ⟨hpass.accepted, hpass.identified, hpass.quiet⟩
    simp only [hreads.ledger, hreads.entry, resolveEntry]
    rw [hguards, hreads.openSnapshots, hreads.account]
    simp only [askedBroker, bind, Except.bind]
    rw [hopen]
    dsimp only
    rw [hposition]
    dsimp only
    rw [hevidence]

/-- What is read is determined. -/
theorem Inputs.Reads.unique {inputs : Inputs} {readings other : Readings}
    (h : inputs.Reads readings) (hother : inputs.Reads other) : readings = other := by
  obtain ⟨ledger, entry, snapshots, account, retained⟩ := readings
  obtain ⟨ledger', entry', snapshots', account', retained'⟩ := other
  obtain rfl : ledger = ledger' := Option.some.inj (h.ledger.symm.trans hother.ledger)
  obtain rfl : entry = entry' := List.head_eq_of_cons_eq (h.entry.symm.trans hother.entry)
  obtain rfl : snapshots = snapshots' :=
    Except.ok.inj (h.openSnapshots.symm.trans hother.openSnapshots)
  obtain rfl : account = account' := Except.ok.inj (h.account.symm.trans hother.account)
  obtain rfl : retained = retained' :=
    Reconciliation.written.inj (h.reconciliation.symm.trans hother.reconciliation)
  rfl

/-! ## The window of the inference -/

/-- An event that is not known to have been recorded by a time. -/
def RecordedAfter (taken : Str) (event : StoredEntry) : Prop :=
  eventTime event = [] ∨ taken < eventTime event

namespace Readings

variable (upper : Str → Str) (readings : Readings)

/-- Since the retained snapshot was taken the position moved by the order's quantity, no other
order of its ticker shows activity, and the order is not open at the broker. -/
structure Undisturbed (snapshot : RetainedSnapshot) : Prop where
  moved : (readings.current upper).sub
      (retainedQuantity upper (some snapshot) readings.entry.ticker) =
    .finite (expectedPositionDelta readings.entry)
  quiet : ∀ event ∈ readings.ledger.logged, OthersActivity upper readings.entry event →
    ¬RecordedAfter (snapshot.timestampUtc.getD []) event
  refNotOpen : ∀ snapshot ∈ readings.openSnapshots,
    snapshot.orderRef.map str ≠ some readings.entry.orderRef
  permIdNotOpen : ∀ snapshot ∈ readings.openSnapshots, snapshot.permId ≠ readings.entry.permId

/-- Activity of another order after the retained snapshot and up to the last status of the order,
where the scan does not look. -/
def Overlooked (snapshot : RetainedSnapshot) (event : StoredEntry) : Prop :=
  OthersActivity upper readings.entry event ∧
    snapshot.timestampUtc.getD [] < eventTime event ∧
      beforeCutoff (readings.entry.lastStatusAt.getD []) event = true

end Readings

/-- An order is marked filled only from an undisturbed window. -/
def InfersFromUndisturbed (upper : Str → Str) (inputs : Inputs) : Prop :=
  ∀ resolved evidence, resolve upper inputs = .ok (.applied resolved evidence) →
    ∃ readings, inputs.Reads readings ∧ resolved.ledgerKey = readings.entry.ledgerKey ∧
      ∃ snapshot, readings.retained = some snapshot ∧ readings.Undisturbed upper snapshot

/-- The resolver infers from an undisturbed window exactly when, where its guards hold, there is a
retained snapshot, the position moved by the whole quantity, and nothing was overlooked. -/
theorem infersFromUndisturbed_iff (upper : Str → Str) (inputs : Inputs) :
    InfersFromUndisturbed upper inputs ↔
      (inputs.apply = true → inputs.tradingMode = .paper →
        ∀ readings, inputs.Reads readings → readings.Pass upper →
          ∃ snapshot, readings.retained = some snapshot ∧
            (readings.current upper).sub (readings.before upper) =
              .finite (expectedPositionDelta readings.entry) ∧
            ∀ event ∈ readings.ledger.logged, ¬readings.Overlooked upper snapshot event) := by
  constructor
  · intro h happly hpaper readings hreads hpass
    obtain ⟨other, hother, _, snapshot, hretained, hundisturbed⟩ := h _ _ <|
      resolve_applied_iff.mpr ⟨happly, hpaper, readings, hreads, hpass, rfl, rfl⟩
    obtain rfl := hreads.unique hother
    refine ⟨snapshot, hretained, ?_, ?_⟩
    · have hmoved := hundisturbed.moved
      rwa [← hretained] at hmoved
    · intro event hevent hoverlooked
      exact hundisturbed.quiet event hevent hoverlooked.1 (Or.inr hoverlooked.2.1)
  · intro h resolved evidence hresolve
    obtain ⟨happly, hpaper, readings, hreads, hpass, rfl, _⟩ := resolve_applied_iff.mp hresolve
    obtain ⟨snapshot, hretained, hmoved, hoverlooked⟩ := h happly hpaper readings hreads hpass
    refine ⟨readings, hreads, rfl, snapshot, hretained, ?_, ?_, hpass.refNotOpen,
      hpass.permIdNotOpen⟩
    · rwa [Readings.before, hretained] at hmoved
    · intro event hevent hactivity hafter
      have hcutoff := hpass.quiet event hevent hactivity
      have hknown : eventTime event ≠ [] := by
        intro hempty
        simp [beforeCutoff, hempty] at hcutoff
      exact hoverlooked event hevent ⟨hactivity, hafter.resolve_left hknown, hcutoff⟩

/-- An order to buy five shares, as one event of it records it. -/
def fiveShares (runId orderRef lastStatusAt : String) (permId : Int)
    (lifecycleState : OrderLifecycleState) (rawStatus : String) (filledQty : Number) :
    StoredEntry where
  ledgerKey := str orderRef
  orderRef := str orderRef
  runId := str runId
  sessionDate := str "2026-03-02"
  ticker := str "AAPL"
  side := .buy
  quantity := .int 5
  limitPrice := none
  permId := some permId
  lifecycleState := lifecycleState
  rawStatus := str rawStatus
  filledQty := filledQty
  lastStatusAt := some (str lastStatusAt)

/-- The first order was accepted. -/
def firstAccepted : StoredEntry :=
  fiveShares "first" "poma:first:0:AAPL:BUY" "2026-03-02T15:00:00+00:00" 11 .brokerAccepted
    "Submitted" (.int 0)

/-- The second order was filled, after the snapshot that is retained of the run of the first. -/
def secondFill : StoredEntry :=
  fiveShares "second" "poma:second:0:AAPL:BUY" "2026-03-02T15:20:00+00:00" 12 .filled "Filled"
    (.int 5)

/-- The first order is later not found any more. -/
def firstUnverified : StoredEntry :=
  fiveShares "first" "poma:first:0:AAPL:BUY" "2026-03-02T15:30:00+00:00" 11 .unknown
    staleRawStatus (.int 0)

/-- What the resolver reads of the two orders: the five shares are the second one's. -/
def secondFilled : Readings where
  ledger := ⟨[firstUnverified], [(firstAccepted, 1), (secondFill, 2), (firstUnverified, 3)]⟩
  entry := firstUnverified
  openSnapshots := []
  account :=
    { cashUsd := .finite 1000
      positionsMarketValueUsd := .finite 500
      positions := [⟨"AAPL", .finite 5, .finite 500⟩] }
  retained := some ⟨[], some (str "2026-03-02T15:10:00+00:00")⟩

/-- The inputs that read so. -/
def secondFilledInputs : Inputs where
  apply := true
  actor := str "operator"
  workflowRunId := str "7"
  tradingMode := .paper
  files := ⟨some (StoredEntry.schema.lines secondFilled.ledger.snapshot),
    some (StoredEntry.schema.lines secondFilled.ledger.logged), 0, 0, []⟩
  openSnapshots := .ok secondFilled.openSnapshots
  accountSnapshot := .ok secondFilled.account
  reconciliations _ := .written secondFilled.retained
  resolvedAt := str "2026-03-03T09:00:00+00:00"

theorem reads_secondFilled : secondFilledInputs.Reads secondFilled where
  ledger := by
    rw [secondFilledInputs, Ledger.ofFiles_lines]
    decide +kernel
  entry := by decide +kernel
  openSnapshots := rfl
  account := rfl
  reconciliation := rfl

theorem pass_secondFilled : secondFilled.Pass id where
  unknown := rfl
  stale := by decide +kernel
  hasRef := by decide +kernel
  hasPermId := by decide +kernel
  quantity := by decide +kernel
  unfilled := by decide +kernel
  refNotOpen := List.forall_mem_nil _
  permIdNotOpen := List.forall_mem_nil _
  moved := by decide +kernel
  accepted := by decide +kernel
  identified := by decide +kernel
  quiet := by decide +kernel

/-- The fill of the second order makes the first one look filled. -/
theorem not_infersFromUndisturbed_secondFilled :
    ¬InfersFromUndisturbed id secondFilledInputs := by
  intro h
  obtain ⟨readings, hreads, _, snapshot, hretained, hundisturbed⟩ := h _ _ <|
    resolve_applied_iff.mpr ⟨rfl, rfl, secondFilled, reads_secondFilled, pass_secondFilled, rfl, rfl⟩
  obtain rfl := hreads.unique reads_secondFilled
  obtain rfl := Option.some.inj hretained
  have hlogged : secondFill ∈ secondFilled.ledger.logged := by simp [secondFilled, Ledger.logged]
  have hactivity : OthersActivity id secondFilled.entry secondFill := by decide +kernel
  have hafter : str "2026-03-02T15:10:00+00:00" < eventTime secondFill := by decide +kernel
  exact hundisturbed.quiet secondFill hlogged hactivity (Or.inr hafter)

end Resolver

end Poma

import Poma.Correctness.Ledgers

/-!
# The broker identity of a row

A row learns the ids of its order from what is recorded for it. A result updates
the open row, or starts a row afresh when the row is closed, and never carries
its permanent id over; a snapshot is recorded on open rows only and brings both.
Which id a row ends with is therefore decided by the last record that writes it
and by what is recorded afterwards.
-/

namespace Poma

open Interaction

section LastWritten

variable {α : Type} {writes leaves : List α → α → Prop}

/-- Something in a list writes and everything after it leaves, each seen with what came before. -/
def LastWritten (writes leaves : List α → α → Prop) (xs : List α) : Prop :=
  ∃ before x later, xs = before ++ x :: later ∧ writes before x ∧
    ∀ mid y rest, later = mid ++ y :: rest → leaves (before ++ x :: mid) y

theorem not_lastWritten_nil : ¬LastWritten writes leaves [] := by
  rintro ⟨before, x, later, h, -⟩
  simp at h

/-- Whether the last element writes, or leaves what was written before it. -/
theorem lastWritten_concat {xs : List α} {y : α} :
    LastWritten writes leaves (xs ++ [y]) ↔
      writes xs y ∨ (leaves xs y ∧ LastWritten writes leaves xs) := by
  constructor
  · rintro ⟨before, x, later, h, hwrites, hleaves⟩
    rcases List.eq_nil_or_concat later with rfl | ⟨mid, z, rfl⟩
    · obtain ⟨rfl, hx⟩ := List.append_inj' h rfl
      cases hx
      exact Or.inl hwrites
    · rw [List.concat_eq_append] at h hleaves
      have hsplit : xs ++ [y] = (before ++ x :: mid) ++ [z] := by simpa using h
      obtain ⟨rfl, hz⟩ := List.append_inj' hsplit rfl
      cases hz
      refine Or.inr ⟨hleaves mid y [] rfl, before, x, mid, rfl, hwrites, ?_⟩
      intro mid' w rest hmid
      apply hleaves mid' w (rest ++ [y])
      simp [hmid]
  · rintro (hwrites | ⟨hleaves, before, x, later, rfl, hwrites, hlater⟩)
    · refine ⟨xs, y, [], rfl, hwrites, fun mid w rest h => ?_⟩
      simp at h
    · refine ⟨before, x, later ++ [y], by simp, hwrites, fun mid w rest h => ?_⟩
      rcases List.eq_nil_or_concat rest with rfl | ⟨front, z, rfl⟩
      · obtain ⟨rfl, hw⟩ := List.append_inj' h rfl
        cases hw
        exact hleaves
      · rw [List.concat_eq_append] at h
        have hsplit : later ++ [y] = (mid ++ w :: front) ++ [z] := by simpa using h
        obtain ⟨rfl, -⟩ := List.append_inj' hsplit rfl
        exact hlater mid w front rfl

end LastWritten

/-- One thing recorded for an order, and when. -/
inductive OrderRecord where
  | result (result : OrderResult) (now : ℚ)
  | snapshot (snapshot : OpenOrderSnapshot) (now : ℚ)

namespace OrderRecord

/-- The order id it carries. -/
def orderId : OrderRecord → Option Int
  | .result reported _ => reported.orderId
  | .snapshot seen _ => seen.orderId

/-- The permanent id it carries. -/
def permId : OrderRecord → Option Int
  | .result reported _ => reported.permId
  | .snapshot seen _ => seen.permId

/-- The state it reports for an order of so many shares. -/
def lifecycle (quantity : ℚ) : OrderRecord → OrderLifecycleState
  | .result reported _ =>
    classifyLifecycle reported.status reported.filled (max (quantity - reported.filled) 0)
  | .snapshot seen _ => seen.lifecycle

end OrderRecord

/-- Whether the last of the records closed an order of so many shares. -/
def ClosedAfter (quantity : ℚ) (records : List OrderRecord) : Prop :=
  ∃ last, records.getLast? = some last ∧ last.lifecycle quantity ∈ terminalLifecycleStates

theorem closedAfter_concat {quantity : ℚ} {records : List OrderRecord} {last : OrderRecord} :
    ClosedAfter quantity (records ++ [last]) ↔
      last.lifecycle quantity ∈ terminalLifecycleStates := by
  simp [ClosedAfter]

/-- What has been recorded for the order of a trade since its row was planned, and the ledger then:
a result goes where `recordResult` puts it, a snapshot onto the open row of its order, which may
drop a reservation with it. -/
inductive Recorded (plan : RebalancePlan) (trade : ProposedTrade) (start : OrderStore) :
    List OrderRecord → OrderStore → Prop
  | planned : Recorded plan trade start [] (start.upsert (plannedEntry plan trade))
  | result {records : List OrderRecord} {store : OrderStore}
      (h : Recorded plan trade start records store) (result : OrderResult) (now : ℚ) :
      Recorded plan trade start (records ++ [.result result now])
        (store.upsert (((store.get trade.ref).getD (plannedEntry plan trade)).withOrderResult
          result now))
  | snapshot {records : List OrderRecord} {store : OrderStore}
      (h : Recorded plan trade start records store) (snapshot : OpenOrderSnapshot) (now : ℚ)
      (row u : OrderLedgerEntry) (hopen : store.get trade.ref = some row)
      (hu : u = row.withSnapshot snapshot now ∨ u = (row.withSnapshot snapshot now).dropReservation) :
      Recorded plan trade start (records ++ [.snapshot snapshot now]) (store.upsert u)

/-- Whether a record leaves the order id of its row: it carries none and does not start the row
afresh. -/
def LeavesOrderId (quantity : ℚ) (before : List OrderRecord) : OrderRecord → Prop
  | .result result _ => result.orderId = none ∧ ¬ClosedAfter quantity before
  | .snapshot snapshot _ => snapshot.orderId = none

/-- Whether a record writes a permanent id: snapshots only. -/
def WritesPermId (id : Int) : OrderRecord → Prop
  | .result _ _ => False
  | .snapshot snapshot _ => snapshot.permId = some id

/-- Whether a record leaves the permanent id of its row. -/
def LeavesPermId (quantity : ℚ) (before : List OrderRecord) : OrderRecord → Prop
  | .result _ _ => ¬ClosedAfter quantity before
  | .snapshot snapshot _ => snapshot.permId = none

/-- An order id some record carries and every later one leaves. -/
def OrderIdStands (quantity : ℚ) (id : Int) (records : List OrderRecord) : Prop :=
  LastWritten (fun _ x => x.orderId = some id) (LeavesOrderId quantity) records

/-- A permanent id some snapshot carries and every later record leaves. -/
def PermIdStands (quantity : ℚ) (id : Int) (records : List OrderRecord) : Prop :=
  LastWritten (fun _ => WritesPermId id) (LeavesPermId quantity) records

/-- The row of an order after its records. -/
structure RowAfter (trade : ProposedTrade) (records : List OrderRecord) (row : OrderLedgerEntry) :
    Prop where
  ledgerKey : row.ledgerKey = trade.ref
  quantity : row.quantity = trade.quantity
  closed : row.isTerminal = true ↔ ClosedAfter trade.quantity records
  orderId : ∀ id, row.orderId = some id ↔ OrderIdStands trade.quantity id records
  permId : ∀ id, row.permId = some id ↔ PermIdStands trade.quantity id records

theorem rowAfter_planned (plan : RebalancePlan) (trade : ProposedTrade) :
    RowAfter trade [] (plannedEntry plan trade) where
  ledgerKey := rfl
  quantity := rfl
  closed := by simp [ClosedAfter, plannedEntry, OrderLedgerEntry.isTerminal,
    terminalLifecycleStates]
  orderId id := by simp [plannedEntry, OrderIdStands, not_lastWritten_nil]
  permId id := by simp [plannedEntry, PermIdStands, not_lastWritten_nil]

/-- A result recorded on the open row, or on a planned one when the row is closed. -/
theorem RowAfter.withOrderResult {plan : RebalancePlan} {trade : ProposedTrade}
    {records : List OrderRecord} {row : OrderLedgerEntry} (h : RowAfter trade records row)
    (result : OrderResult) (now : ℚ) :
    RowAfter trade (records ++ [.result result now])
      ((if row.isTerminal then plannedEntry plan trade else row).withOrderResult result now) := by
  have hquantity : (if row.isTerminal then plannedEntry plan trade else row).quantity =
      trade.quantity := by
    split
    · rfl
    · exact h.quantity
  constructor
  · show (if row.isTerminal then plannedEntry plan trade else row).ledgerKey = trade.ref
    split
    · rfl
    · exact h.ledgerKey
  · exact hquantity
  · rw [closedAfter_concat]
    show decide (classifyLifecycle result.status result.filled
      (max ((if row.isTerminal then plannedEntry plan trade else row).quantity - result.filled) 0) ∈
        terminalLifecycleStates) = true ↔ _
    rw [hquantity]
    simp [OrderRecord.lifecycle]
  · intro id
    unfold OrderIdStands
    rw [lastWritten_concat]
    show (result.orderId <|> _) = some id ↔ result.orderId = some id ∨
      ((result.orderId = none ∧ ¬ClosedAfter trade.quantity records) ∧ _)
    rw [← h.closed]
    cases result.orderId with
    | some carried => simp
    | none =>
      have hstands := h.orderId id
      cases hterminal : row.isTerminal with
      | true => simp [plannedEntry]
      | false => simpa [OrderIdStands] using hstands
  · intro id
    unfold PermIdStands
    rw [lastWritten_concat]
    show (if row.isTerminal then plannedEntry plan trade else row).permId = some id ↔
      False ∨ (¬ClosedAfter trade.quantity records ∧ _)
    rw [← h.closed]
    have hstands := h.permId id
    cases hterminal : row.isTerminal with
    | true => simp [plannedEntry]
    | false => simpa [PermIdStands] using hstands

/-- A snapshot recorded on the open row. -/
theorem RowAfter.withSnapshot {trade : ProposedTrade} {records : List OrderRecord}
    {row : OrderLedgerEntry} (h : RowAfter trade records row) (snapshot : OpenOrderSnapshot)
    (now : ℚ) :
    RowAfter trade (records ++ [.snapshot snapshot now]) (row.withSnapshot snapshot now) := by
  constructor
  · exact h.ledgerKey
  · exact h.quantity
  · rw [closedAfter_concat]
    simp [OrderLedgerEntry.isTerminal, OrderLedgerEntry.withSnapshot, OrderRecord.lifecycle,
      OpenOrderSnapshot.lifecycle]
  · intro id
    unfold OrderIdStands
    rw [lastWritten_concat]
    show (snapshot.orderId <|> row.orderId) = some id ↔ snapshot.orderId = some id ∨
      (snapshot.orderId = none ∧ _)
    have hstands := h.orderId id
    cases snapshot.orderId with
    | some carried => simp
    | none => simpa [OrderIdStands] using hstands
  · intro id
    unfold PermIdStands
    rw [lastWritten_concat]
    show (snapshot.permId <|> row.permId) = some id ↔ snapshot.permId = some id ∨
      (snapshot.permId = none ∧ _)
    have hstands := h.permId id
    cases snapshot.permId with
    | some carried => simp
    | none => simpa [PermIdStands] using hstands

/-- A reservation is no part of what the records decide. -/
theorem RowAfter.dropReservation {trade : ProposedTrade} {records : List OrderRecord}
    {row : OrderLedgerEntry} (h : RowAfter trade records row) :
    RowAfter trade records row.dropReservation :=
  ⟨h.ledgerKey, h.quantity, h.closed, h.orderId, h.permId⟩

/-- The row of an order after any records of it. -/
theorem Recorded.rowAfter {plan : RebalancePlan} {trade : ProposedTrade} {start store : OrderStore}
    {records : List OrderRecord} (h : Recorded plan trade start records store) :
    ∃ row, store.latest trade.ref = some row ∧ RowAfter trade records row := by
  induction h with
  | planned => exact ⟨_, OrderStore.latest_upsert_of_eq rfl, rowAfter_planned plan trade⟩
  | @result records store _ result now ih =>
    obtain ⟨row, hlatest, hrow⟩ := ih
    have hget : (store.get trade.ref).getD (plannedEntry plan trade) =
        if row.isTerminal then plannedEntry plan trade else row := by
      rw [OrderStore.get_eq, hlatest]
      cases hterminal : row.isTerminal <;> simp [Option.filter, hterminal]
    have hafter : RowAfter trade (records ++ [.result result now])
        ((if row.isTerminal then plannedEntry plan trade else row).withOrderResult result now) :=
      hrow.withOrderResult result now
    rw [hget]
    exact ⟨_, OrderStore.latest_upsert_of_eq hafter.ledgerKey, hafter⟩
  | snapshot _ snapshot now row u hopen hu ih =>
    obtain ⟨row', hlatest, hrow⟩ := ih
    rw [OrderStore.get_eq, hlatest] at hopen
    obtain ⟨hsame, -⟩ := Option.filter_eq_some_iff.mp hopen
    obtain rfl := Option.some.inj hsame
    have hafter := hrow.withSnapshot snapshot now
    rcases hu with rfl | rfl
    · exact ⟨_, OrderStore.latest_upsert_of_eq hafter.ledgerKey, hafter⟩
    · have hdropped := hafter.dropReservation
      exact ⟨_, OrderStore.latest_upsert_of_eq hdropped.ledgerKey, hdropped⟩

/-- Recording a result of the trade is one more record of its order. -/
theorem Recorded.wp_recordResult {W : Type} (E : Environment W) {plan : RebalancePlan}
    {trade : ProposedTrade} {start : OrderStore} {records : List OrderRecord} {s : World W}
    (h : Recorded plan trade start records s.ledger) (result : OrderResult)
    (τ : List (Event sig)) :
    E.system.wp (recordResult plan trade result) (fun out _ s' =>
      match out with
      | .returned _ => ∃ now, Recorded plan trade start (records ++ [.result result now]) s'.ledger
      | _ => s'.ledger = s.ledger) τ s := by
  unfold recordResult
  simp only [System.wp_bind, wp_loadLatest, wp_utcNow, wp_upsertEntry, System.seq_stopped,
    System.seq_returned]
  refine ⟨trivial, fun _ => ⟨trivial, fun c => ⟨trivial, fun _ => ?_⟩⟩⟩
  exact ⟨_, h.result result (E.clock c s.outside)⟩

/-- Following the open row of an order, as a reconcile pass does, is one more record of it. -/
theorem Recorded.followed {plan : RebalancePlan} {trade : ProposedTrade} {start store : OrderStore}
    {records : List OrderRecord} {row u : OrderLedgerEntry} {snapshot : OpenOrderSnapshot}
    (h : Recorded plan trade start records store) (hopen : store.get trade.ref = some row)
    (hu : Followed row snapshot u) :
    ∃ now, Recorded plan trade start (records ++ [.snapshot snapshot now]) (store.upsert u) := by
  cases hu with
  | kept stamp _ => exact ⟨stamp, h.snapshot snapshot stamp row _ hopen (Or.inl rfl)⟩
  | released stamp ref _ => exact ⟨stamp, h.snapshot snapshot stamp row _ hopen (Or.inr rfl)⟩

/-- The last positive id among those carried. -/
def lastPositive (ids : List (Option Int)) : Option Int :=
  (ids.filterMap (·.filter (0 < ·))).getLast?

/-- The row has the last positive ids that its records carried. -/
structure IdentityKept (records : List OrderRecord) (row : OrderLedgerEntry) : Prop where
  orderId : ∀ id, lastPositive (records.map (·.orderId)) = some id → row.orderId = some id
  permId : ∀ id, lastPositive (records.map (·.permId)) = some id → row.permId = some id

/-- The row of an order has the last positive ids that any record of it carried exactly when these
ids stand: an order id from a record on which no later one carries another or starts the closed
row afresh, a permanent id from a snapshot on which the same holds. -/
theorem identity_kept_iff {plan : RebalancePlan} {trade : ProposedTrade} {start store : OrderStore}
    {records : List OrderRecord} {row : OrderLedgerEntry}
    (h : Recorded plan trade start records store) (hrow : store.latest trade.ref = some row) :
    IdentityKept records row ↔
      (∀ id, lastPositive (records.map (·.orderId)) = some id →
        OrderIdStands trade.quantity id records) ∧
      (∀ id, lastPositive (records.map (·.permId)) = some id →
        PermIdStands trade.quantity id records) := by
  obtain ⟨row', hlatest, hafter⟩ := h.rowAfter
  obtain rfl : row' = row := Option.some.inj (hlatest.symm.trans hrow)
  constructor
  · intro hkept
    constructor
    · intro id hid
      exact (hafter.orderId id).mp (hkept.orderId id hid)
    · intro id hid
      exact (hafter.permId id).mp (hkept.permId id hid)
  · rintro ⟨horder, hperm⟩
    constructor
    · intro id hid
      exact (hafter.orderId id).mpr (horder id hid)
    · intro id hid
      exact (hafter.permId id).mpr (hperm id hid)

/-- A trade that is planned and reported working with both ids. -/
def workingTrade : ProposedTrade where
  ticker := "VOO"
  side := .buy
  quantity := 10
  notional := 1000
  referencePrice := 100
  limitPrice := some 101
  reason := "rebalance"
  orderRef := some "poma:run:0:VOO:BUY"

/-- The plan of that trade. -/
def workingPlan : RebalancePlan where
  runId := "run"
  sessionDate := "2026-01-05"
  trades := [workingTrade]

/-- The report of a submission: accepted under order id 7 and permanent id 9. -/
def workingResult : OrderResult where
  ticker := "VOO"
  side := .buy
  quantity := 10
  notional := 1000
  orderId := some 7
  status := "Submitted"
  filled := 0
  averageFillPrice := none
  orderRef := some "poma:run:0:VOO:BUY"
  permId := some 9

/-- The row after that report alone. -/
def workingRow : OrderLedgerEntry :=
  (plannedEntry workingPlan workingTrade).withOrderResult workingResult 0

theorem recorded_working : Recorded workingPlan workingTrade .empty [.result workingResult 0]
    ((OrderStore.empty.upsert (plannedEntry workingPlan workingTrade)).upsert workingRow) :=
  .result .planned workingResult 0

/-- The permanent id of a submission's own report is dropped. -/
theorem identity_dropped :
    ¬∀ (plan : RebalancePlan) (trade : ProposedTrade) (start store : OrderStore)
      (records : List OrderRecord) (row : OrderLedgerEntry),
      Recorded plan trade start records store → store.latest trade.ref = some row →
        IdentityKept records row := by
  intro h
  have hkept := h _ _ _ _ _ workingRow recorded_working (OrderStore.latest_upsert_of_eq rfl)
  have hperm : workingRow.permId = some 9 := hkept.permId 9 (by decide +kernel)
  have hnone : workingRow.permId = none := rfl
  rw [hnone] at hperm
  cases hperm

/-- The records of a submission whose report is in. -/
def workingRecords : List OrderRecord := [.result workingResult 0]

/-- The order id of that report stands, its permanent id does not. -/
theorem identity_kept_iff_working :
    IdentityKept workingRecords workingRow ↔
      (∀ id, lastPositive (workingRecords.map (·.orderId)) = some id →
        OrderIdStands workingTrade.quantity id workingRecords) ∧
      (∀ id, lastPositive (workingRecords.map (·.permId)) = some id →
        PermIdStands workingTrade.quantity id workingRecords) := by
  have hrecorded : Recorded workingPlan workingTrade .empty workingRecords _ := recorded_working
  exact identity_kept_iff hrecorded (OrderStore.latest_upsert_of_eq rfl)

end Poma

import Poma.Correctness.Ledgers
import Poma.Interaction.Lockstep

/-!
# The turn of a row by itself

The turn of an open row reads its own row, the lists of the pass, the pass's
clock reading and what the broker answers it; its own clock readings go into the
time of the last status alone. Two turns of one row that are given these alike
leave the same update and the same row, whatever else is in the two ledgers.
-/

namespace Poma

open Interaction

/-- The row without the time of its last status. -/
def OrderLedgerEntry.untimed (row : OrderLedgerEntry) : OrderLedgerEntry :=
  { row with lastStatusAt := none }

/-- The row with another time of its last status. -/
def OrderLedgerEntry.statusAt (row : OrderLedgerEntry) (time : Option IsoTimestamp) :
    OrderLedgerEntry :=
  { row with lastStatusAt := time }

/-- Rows that differ in the time of their last status at most. -/
def SameRow (x y : OrderLedgerEntry) : Prop := x.untimed = y.untimed

theorem SameRow.refl (x : OrderLedgerEntry) : SameRow x x := rfl

/-- One of two such rows is the other at another time. -/
theorem SameRow.exists_time {x y : OrderLedgerEntry} (h : SameRow x y) :
    ∃ time, y = x.statusAt time :=
  ⟨y.lastStatusAt, congrArg (·.statusAt y.lastStatusAt) h.symm⟩

/-- Rows, or none, that differ in the time of their last status at most. -/
def SameLatest (x y : Option OrderLedgerEntry) : Prop :=
  x.map OrderLedgerEntry.untimed = y.map OrderLedgerEntry.untimed

/-- Updates that differ in the time of their row's last status at most. -/
structure SameUpdate (u v : ReconcileUpdate) : Prop where
  entry : SameRow u.entry v.entry
  action : u.action = v.action
  isMatched : u.matched = v.matched
  detail : u.detail = v.detail

/-- What corresponds in two turns of the row of a key: any two clock readings, ledgers that agree
on the row, records of the row that agree, and the same broker calls answered the same. -/
def turnCoupling (key : String) : Coupling sig where
  op
    | .loadLatestEntries, .loadLatestEntries => True
    | .utcNow, .utcNow => True
    | .upsert x, .upsert y => SameRow x y ∧ x.ledgerKey = key
    | .broker call, .broker call' => call = call'
    | _, _ => False
  ans
    | .loadLatestEntries, .loadLatestEntries => fun (store store' : OrderStore) =>
      SameLatest (store.latest key) (store'.latest key)
    | .broker call, .broker call' => fun (a : call.Ans) (a' : call'.Ans) => HEq a a'
    | _, _ => fun _ _ => True

section Parts

variable {key : String} {settings : Settings} {isIbkr hasReplacement hasHistory : Bool}

theorem utcNow_alike : utcNow.Alike (turnCoupling key) (fun _ _ => True) utcNow :=
  (Prog.alike_perform (S := sig) (C := turnCoupling key) .utcNow .utcNow trivial).mono
    fun _ _ _ => trivial

theorem loadLatest_alike : loadLatest.Alike (turnCoupling key)
    (fun store store' => SameLatest (store.latest key) (store'.latest key)) loadLatest :=
  Prog.alike_perform (S := sig) (C := turnCoupling key) .loadLatestEntries .loadLatestEntries
    trivial

theorem upsertEntry_alike {x y : OrderLedgerEntry} (h : SameRow x y) (hkey : x.ledgerKey = key) :
    (upsertEntry x).Alike (turnCoupling key) (fun _ _ => True) (upsertEntry y) :=
  (Prog.alike_perform (S := sig) (C := turnCoupling key) (.upsert x) (.upsert y)
    ⟨h, hkey⟩).mono fun _ _ _ => trivial

theorem askBroker_alike (call : BrokerCall) :
    (askBroker call).Alike (turnCoupling key) (· = ·) (askBroker call) :=
  (Prog.alike_perform (S := sig) (C := turnCoupling key) (.broker call) (.broker call)
    rfl).mono fun _ _ h => eq_of_heq h

/-- Broker calls are answered by equals. -/
theorem alike_of_asks {α : Type} {p : M α} (hp : p.Uses (S := sig) fun o => ∃ call, o = .broker call) :
    p.Alike (turnCoupling key) (· = ·) p := by
  apply Prog.alike_refl hp
  rintro o ⟨call, rfl⟩
  exact ⟨rfl, fun _ _ h => eq_of_heq h⟩

/-- The price of a replacement is asked for alike. -/
theorem freshReplaceLimitPrice_alike (entry : OrderLedgerEntry) :
    ((protocolManager settings isIbkr hasReplacement hasHistory).freshReplaceLimitPrice
      entry).Alike (turnCoupling key) (· = ·)
      ((protocolManager settings isIbkr hasReplacement hasHistory).freshReplaceLimitPrice
        entry) := by
  apply alike_of_asks
  unfold ExecutionManager.freshReplaceLimitPrice
  apply Prog.uses_ite
  · trivial
  · apply Prog.uses_bind (Prog.uses_perform (S := sig) ⟨_, rfl⟩)
    intro quotes
    split <;> trivial

/-- Rows of a key, at any two times. -/
structure SameOwn (key : String) (x y : OrderLedgerEntry) : Prop where
  row : SameRow x y
  ledgerKey : x.ledgerKey = key

/-- One of two such rows is the other at another time. -/
theorem SameOwn.exists_time {x y : OrderLedgerEntry} (h : SameOwn key x y) :
    ∃ time, y = x.statusAt time := h.row.exists_time

/-- What a replacement leaves, or nothing, at any two times. -/
def SameResumed (key : String) : Option OrderLedgerEntry → Option OrderLedgerEntry → Prop
  | some x, some y => SameOwn key x y
  | none, none => True
  | _, _ => False

/-- What the timeout policy did, at any two times. -/
def SameTaken (key : String) (taken taken' : OrderLedgerEntry × ReconcileAction) : Prop :=
  SameOwn key taken.1 taken'.1 ∧ taken.2 = taken'.2

/-- What the timeout policy did, or nothing, at any two times. -/
def SameTaken? (key : String) :
    Option (OrderLedgerEntry × ReconcileAction) → Option (OrderLedgerEntry × ReconcileAction) → Prop
  | some taken, some taken' => SameTaken key taken taken'
  | none, none => True
  | _, _ => False

theorem replacedBy_same {x y : OrderLedgerEntry} (h : SameOwn key x y) (ref : String)
    (snapshot : OpenOrderSnapshot) (newLimit : ℚ) (metadata : Option QuoteMetadata)
    (now stamp stamp' : ℚ) :
    SameOwn key (x.replacedBy ref snapshot newLimit metadata now stamp)
      (y.replacedBy ref snapshot newLimit metadata now stamp') := by
  obtain ⟨time, rfl⟩ := h.exists_time
  obtain rfl := h.ledgerKey
  cases metadata <;> exact ⟨rfl, rfl⟩

/-- A replacement is resumed alike: the time of the last status is overwritten. -/
theorem resumeReplacement_alike {x y : OrderLedgerEntry} (h : SameOwn key x y) (ref : String)
    (now : ℚ) :
    ((protocolManager settings isIbkr hasReplacement hasHistory).resumeReplacement x ref
      now).Alike (turnCoupling key) (SameResumed key)
      ((protocolManager settings isIbkr hasReplacement hasHistory).resumeReplacement y ref
        now) := by
  obtain ⟨time, rfl⟩ := h.exists_time
  change Prog.Alike _ _ _ (ExecutionManager.resumeReplacement _ x ref now)
  unfold ExecutionManager.resumeReplacement
  apply Prog.alike_ite
  · exact fun _ => trivial
  intro _
  cases hasReplacement with
  | false => trivial
  | true =>
    apply Prog.alike_ite
    · exact fun _ => trivial
    intro _
    cases secondsSince x.submittedAt now with
    | none => trivial
    | some elapsed =>
      apply Prog.alike_ite
      · exact fun _ => trivial
      intro _
      apply Prog.alike_bind (freshReplaceLimitPrice_alike x)
      rintro fresh _ rfl
      cases fresh with
      | none => trivial
      | some priced =>
        apply Prog.alike_bind (askBroker_alike (.submitReplacement _))
        rintro snapshot _ rfl
        apply Prog.alike_bind utcNow_alike
        intro stamp stamp' _
        exact replacedBy_same (x := x.reopened) ⟨rfl, h.ledgerKey⟩ ref snapshot priced.1 priced.2
          now stamp stamp'

/-- A working order is replaced alike. -/
theorem replaceWorking_alike {x y : OrderLedgerEntry} (h : SameOwn key x y) (orderId : Int)
    (newLimit : ℚ) (metadata : Option QuoteMetadata) (now : ℚ) :
    ((protocolManager settings isIbkr hasReplacement hasHistory).replaceWorking x orderId newLimit
      metadata now).Alike (turnCoupling key) (SameTaken key)
      ((protocolManager settings isIbkr hasReplacement hasHistory).replaceWorking y orderId
        newLimit metadata now) := by
  obtain ⟨time, rfl⟩ := h.exists_time
  have hintent : SameOwn key x.replaceIntent (x.replaceIntent.statusAt time) :=
    ⟨rfl, h.ledgerKey⟩
  unfold ExecutionManager.replaceWorking
  apply Prog.alike_bind (upsertEntry_alike hintent.row hintent.ledgerKey)
  intro _ _ _
  apply Prog.alike_bind (Prog.alike_attempt (askBroker_alike (.replaceOrder _)))
  intro reply reply' hreply
  cases reply with
  | error e =>
    cases reply' with
    | ok snapshot => exact hreply.elim
    | error e' =>
      obtain rfl : e = e' := hreply
      cases e with
      | cancelNotConfirmed message => exact ⟨⟨rfl, h.ledgerKey⟩, rfl⟩
      | _ => exact Prog.alike_throw _
  | ok snapshot =>
    cases reply' with
    | error e => exact hreply.elim
    | ok snapshot' =>
      obtain rfl : snapshot = snapshot' := hreply
      apply Prog.alike_bind utcNow_alike
      intro stamp stamp' _
      apply Prog.alike_ite
      · exact fun _ => ⟨⟨rfl, h.ledgerKey⟩, rfl⟩
      · exact fun _ => ⟨replacedBy_same hintent _ snapshot newLimit metadata now stamp stamp', rfl⟩

/-- The timeout policy decides alike. -/
theorem applyTimeoutPolicy_alike {x y : OrderLedgerEntry} (h : SameOwn key x y) (now : ℚ) :
    ((protocolManager settings isIbkr hasReplacement hasHistory).applyTimeoutPolicy x now).Alike
      (turnCoupling key) (SameTaken? key)
      ((protocolManager settings isIbkr hasReplacement hasHistory).applyTimeoutPolicy y
        now) := by
  obtain ⟨time, rfl⟩ := h.exists_time
  have hsince : secondsSince (x.statusAt time).submittedAt now = secondsSince x.submittedAt now :=
    rfl
  have hid : (x.statusAt time).orderId = x.orderId := rfl
  unfold ExecutionManager.applyTimeoutPolicy
  rw [hsince, hid]
  apply Prog.alike_ite
  · exact fun _ => trivial
  intro _
  cases secondsSince x.submittedAt now with
  | none => trivial
  | some elapsed =>
    apply Prog.alike_ite
    · intro _
      cases x.orderId with
      | none => trivial
      | some orderId =>
        apply Prog.alike_bind (askBroker_alike (.cancelOrder orderId))
        intro (cancelled : Bool) _ hcancelled
        subst hcancelled
        cases cancelled with
        | true => exact ⟨⟨rfl, h.ledgerKey⟩, rfl⟩
        | false => trivial
    intro _
    apply Prog.alike_ite
    · intro _
      cases x.orderId with
      | none => trivial
      | some orderId =>
        apply Prog.alike_bind (freshReplaceLimitPrice_alike x)
        rintro fresh _ rfl
        cases fresh with
        | none => trivial
        | some priced =>
          apply Prog.alike_bind (replaceWorking_alike h orderId priced.1 priced.2 now)
          exact fun _ _ htaken => htaken
    · exact fun _ => trivial

/-- A row is recorded and reported alike. -/
theorem report_alike {x y : OrderLedgerEntry} (h : SameOwn key x y)
    (action : Option ReconcileAction) (matched : Bool) :
    (ExecutionManager.report x action matched).Alike (turnCoupling key) SameUpdate
      (ExecutionManager.report y action matched) := by
  unfold ExecutionManager.report
  apply Prog.alike_bind (upsertEntry_alike h.row h.ledgerKey)
  exact fun _ _ _ => ⟨h.row, rfl, rfl, rfl⟩

/-- A reported row is followed alike. -/
theorem followOpen_alike {x y : OrderLedgerEntry} (h : SameOwn key x y) (now : ℚ) :
    ((protocolManager settings isIbkr hasReplacement hasHistory).followOpen x now).Alike
      (turnCoupling key) SameUpdate
      ((protocolManager settings isIbkr hasReplacement hasHistory).followOpen y now) := by
  have hsame := h
  obtain ⟨time, rfl⟩ := hsame.exists_time
  unfold ExecutionManager.followOpen
  apply Prog.alike_bind (R := SameTaken? key)
  · apply Prog.alike_ite
    · exact fun _ => trivial
    · exact fun _ => applyTimeoutPolicy_alike h now
  rintro (_ | taken) (_ | taken') htaken
  · exact report_alike h none true
  · exact htaken.elim
  · exact htaken.elim
  · obtain ⟨hrow, haction⟩ := htaken
    dsimp only
    rw [haction]
    exact report_alike hrow (some taken'.2) true

/-- What becomes of a row, by what a replacement left of it. -/
theorem resumed_alike {other other' : M ReconcileUpdate}
    (hother : other.Alike (turnCoupling key) SameUpdate other') :
    ∀ resumed resumed', SameResumed key resumed resumed' →
      Prog.Alike (turnCoupling key) SameUpdate
        (match resumed with
          | some row => ExecutionManager.report row (some .replace) true
          | none => other)
        (match resumed' with
          | some row => ExecutionManager.report row (some .replace) true
          | none => other') := by
  rintro (_ | row) (_ | row') h
  · exact hother
  · exact h.elim
  · exact h.elim
  · exact report_alike h (some .replace) true

variable {entry : OrderLedgerEntry}

theorem withSnapshot_same (hkey : entry.ledgerKey = key) (snapshot : OpenOrderSnapshot)
    (stamp stamp' : ℚ) :
    SameOwn key (entry.withSnapshot snapshot stamp) (entry.withSnapshot snapshot stamp') :=
  ⟨rfl, hkey⟩

/-- An order reported open is handled alike. -/
theorem reconcileOpen_alike (hkey : entry.ledgerKey = key) (snapshot : OpenOrderSnapshot) (now : ℚ) :
    ((protocolManager settings isIbkr hasReplacement hasHistory).reconcileOpen entry snapshot
      now).Alike (turnCoupling key) SameUpdate
      ((protocolManager settings isIbkr hasReplacement hasHistory).reconcileOpen entry snapshot
        now) := by
  unfold ExecutionManager.reconcileOpen
  apply Prog.alike_bind utcNow_alike
  intro stamp stamp' _
  have hupdated := withSnapshot_same hkey snapshot stamp stamp'
  have hdropped : SameOwn key (entry.withSnapshot snapshot stamp).dropReservation
      (entry.withSnapshot snapshot stamp').dropReservation := ⟨rfl, hkey⟩
  dsimp only
  cases entry.reservedRef with
  | none => exact followOpen_alike hupdated now
  | some ref =>
    apply Prog.alike_ite
    · intro _
      apply Prog.alike_bind (resumeReplacement_alike hupdated ref now)
      exact resumed_alike (followOpen_alike hdropped now)
    intro _
    apply Prog.alike_ite
    · exact fun _ => followOpen_alike hdropped now
    · exact fun _ => followOpen_alike hupdated now

/-- A row that is not reported is kept or closed alike. -/
theorem reconcileUnreported_alike (hkey : entry.ledgerKey = key) (now : ℚ) :
    (ExecutionManager.reconcileUnreported entry now).Alike (turnCoupling key) SameUpdate
      (ExecutionManager.reconcileUnreported entry now) := by
  unfold ExecutionManager.reconcileUnreported
  apply Prog.alike_ite
  · exact fun _ => ⟨rfl, rfl, rfl, rfl⟩
  · exact fun _ => report_alike (x := closeUnreportedOpenEntry entry now) ⟨rfl, hkey⟩ _ _

/-- A completed order is handled alike. -/
theorem reconcileCompleted_alike (hkey : entry.ledgerKey = key) (snapshot : OpenOrderSnapshot)
    (now : ℚ) :
    ((protocolManager settings isIbkr hasReplacement hasHistory).reconcileCompleted entry snapshot
      now).Alike (turnCoupling key) SameUpdate
      ((protocolManager settings isIbkr hasReplacement hasHistory).reconcileCompleted entry
        snapshot now) := by
  unfold ExecutionManager.reconcileCompleted
  apply Prog.alike_bind utcNow_alike
  intro stamp stamp' _
  have hcompleted := withSnapshot_same hkey snapshot stamp stamp'
  have hdropped : SameOwn key (entry.withSnapshot snapshot stamp).dropReservation
      (entry.withSnapshot snapshot stamp').dropReservation := ⟨rfl, hkey⟩
  apply Prog.alike_ite
  · intro _
    apply Prog.alike_bind (R := SameResumed key)
    · unfold ExecutionManager.resumeReserved
      cases entry.reservedRef with
      | none => trivial
      | some ref =>
        apply Prog.alike_ite
        · exact fun _ => resumeReplacement_alike hcompleted ref now
        · exact fun _ => trivial
    · exact resumed_alike (report_alike hdropped (some .closed) true)
  · exact fun _ => reconcileUnreported_alike hkey now

/-- The turn of a row, from what the two lists show of it. -/
theorem reconcileEntry_alike (hkey : entry.ledgerKey = key)
    (openSnapshots completed : List OpenOrderSnapshot) (now : ℚ) :
    ((protocolManager settings isIbkr hasReplacement hasHistory).reconcileEntry entry openSnapshots
      completed now).Alike (turnCoupling key) SameUpdate
      ((protocolManager settings isIbkr hasReplacement hasHistory).reconcileEntry entry
        openSnapshots completed now) := by
  have hadopted (snapshot : OpenOrderSnapshot) (stamp stamp' : ℚ) :
      SameOwn key (adoptReplacement entry snapshot stamp)
        (adoptReplacement entry snapshot stamp') := ⟨rfl, hkey⟩
  unfold ExecutionManager.reconcileEntry
  split
  · apply Prog.alike_bind utcNow_alike
    exact fun stamp stamp' _ => report_alike (hadopted _ stamp stamp') _ _
  · exact reconcileOpen_alike hkey _ now
  split
  · apply Prog.alike_bind utcNow_alike
    exact fun stamp stamp' _ => report_alike (hadopted _ stamp stamp') _ _
  · exact reconcileCompleted_alike hkey _ now
  · exact reconcileUnreported_alike hkey now

/-- The update of a row that the pass rediscovered says so alike. -/
theorem SameUpdate.recovered {u v : ReconcileUpdate} (h : SameUpdate u v) {c : Prop} [Decidable c] :
    SameUpdate (if u.action = none ∧ c then { u with action := some .recovered } else u)
      (if v.action = none ∧ c then { v with action := some .recovered } else v) := by
  rw [h.action]
  split
  · exact ⟨h.entry, rfl, h.isMatched, h.detail⟩
  · exact h

/-- What is open under a key is the same where the latest rows are. -/
theorem SameLatest.get {store store' : OrderStore}
    (h : SameLatest (store.latest key) (store'.latest key)) :
    SameLatest (store.get key) (store'.get key) := by
  rw [OrderStore.get_eq, OrderStore.get_eq]
  unfold SameLatest at h ⊢
  cases hx : store.latest key with
  | none =>
    rw [hx, Option.map_none, eq_comm, Option.map_eq_none_iff] at h
    rw [h]
  | some x =>
    rw [hx, Option.map_some, eq_comm, Option.map_eq_some_iff] at h
    obtain ⟨y, hy, hsame⟩ := h
    have huntimed : y.untimed.isTerminal = x.untimed.isTerminal := by rw [hsame]
    have hterminal : y.isTerminal = x.isTerminal := huntimed
    rw [hy]
    simp only [Option.filter, hterminal]
    split
    · exact congrArg some hsame.symm
    · rfl

/-- The whole turn of a row goes alike. -/
theorem handleEntry_alike (hkey : entry.ledgerKey = key) (openSnapshots : List OpenOrderSnapshot)
    (history : Except Exn (List OpenOrderSnapshot)) (recovered : List OrderLedgerEntry) (now : ℚ) :
    ((protocolManager settings isIbkr hasReplacement hasHistory).handleEntry openSnapshots history
      recovered now entry).Alike (turnCoupling key) SameUpdate
      ((protocolManager settings isIbkr hasReplacement hasHistory).handleEntry openSnapshots history
        recovered now entry) := by
  unfold ExecutionManager.handleEntry
  split
  · exact ⟨rfl, rfl, rfl, rfl⟩
  apply Prog.alike_catching
  · apply Prog.alike_bind (reconcileEntry_alike hkey openSnapshots _ now)
    exact fun u v h => h.recovered
  · intro e
    apply Prog.alike_bind loadLatest_alike
    intro (store : OrderStore) (store' : OrderStore) hlatest
    refine ⟨?_, rfl, rfl, rfl⟩
    have hget := hlatest.get
    unfold SameLatest at hget
    rw [hkey]
    cases hx : store.get key with
    | none =>
      rw [hx, Option.map_none, eq_comm, Option.map_eq_none_iff] at hget
      rw [hget]
      exact .refl entry
    | some x =>
      rw [hx, Option.map_some, eq_comm, Option.map_eq_some_iff] at hget
      obtain ⟨y, hy, hsame⟩ := hget
      rw [hy]
      exact hsame.symm

end Parts

end Poma

import Poma.Correctness.Replacement

/-!
# Rediscovered orders are left alone

The restore scan marks the row of a rediscovered order by the text of its
terminal reason, and the timeout policy and the stale-order check skip a row
with the mark. The mark survives every report of the order. It does not survive
a pass that finds the order in neither list: that pass writes a reason of its
own over it, and the order is treated like any other from then on.
-/

namespace Poma

open Interaction

/-- A row with the mark of a rediscovered order, under its own reference. -/
structure OrderLedgerEntry.Protected (row : OrderLedgerEntry) : Prop where
  own : row.orderRef = row.ledgerKey
  isOpen : row.isTerminal = false
  recovered : row.isRecovered = true
  unreserved : row.replacementOrderRef = none

/-- An operation that asks the broker to cancel or to replace an order. -/
def Op.Mutates : Op → Prop
  | .broker (.cancelOrder _) => True
  | .broker (.replaceOrder _) => True
  | .broker (.submitReplacement _) => True
  | _ => False

/-- No turn of a row, in a pass or in a stale-order check, asks the broker to cancel or replace
its order, whatever the turn is given and answered. -/
structure LeftAlone (manager : ExecutionManager) (row : OrderLedgerEntry) : Prop where
  pass : ∀ openSnapshots history recovered now,
    (manager.handleEntry openSnapshots history recovered now row).Uses (S := sig)
      fun o => ¬Op.Mutates o
  check : ∀ label, (manager.cancelStaleEntry label row).Uses (S := sig) fun o => ¬Op.Mutates o

namespace OrderLedgerEntry.Protected

variable {row : OrderLedgerEntry}

theorem reservedRef (h : row.Protected) : row.reservedRef = none := by
  rw [OrderLedgerEntry.reservedRef, h.unreserved]
  rfl

/-- A report that is not terminal keeps the mark. -/
theorem withSnapshot (h : row.Protected) {snapshot : OpenOrderSnapshot}
    (hopen : snapshot.lifecycle ∉ terminalLifecycleStates) (stamp : ℚ) :
    (row.withSnapshot snapshot stamp).Protected where
  own := h.own
  isOpen := decide_eq_false hopen
  recovered := by
    have hreason : (row.withSnapshot snapshot stamp).terminalReason = row.terminalReason :=
      if_neg hopen
    rw [OrderLedgerEntry.isRecovered, hreason]
    exact h.recovered
  unreserved := h.unreserved

/-- A reported row that a turn follows is terminal or still marked. -/
theorem followed (h : row.Protected) {snapshot : OpenOrderSnapshot} {u : OrderLedgerEntry}
    (hu : Followed row snapshot u) :
    u.lifecycleState = snapshot.lifecycle ∧
      (snapshot.lifecycle ∉ terminalLifecycleStates → u.Protected) := by
  cases hu with
  | kept stamp _ => exact ⟨rfl, fun hopen => h.withSnapshot hopen stamp⟩
  | released stamp ref href =>
    rw [h.reservedRef] at href
    cases href

/-- A marked row is never a working row without the mark. -/
theorem not_acted (h : row.Protected) {snapshot : OpenOrderSnapshot} {u : OrderLedgerEntry}
    (hu : Followed row snapshot u) (hrecovered : u.isRecovered = false)
    (hworking : u.lifecycleState ∈ workingLifecycleStates) : False := by
  obtain ⟨hstate, hprotected⟩ := h.followed hu
  rw [hstate] at hworking
  have hopen : snapshot.lifecycle ∉ terminalLifecycleStates := by
    revert hworking
    cases snapshot.lifecycle <;> decide
  rw [(hprotected hopen).recovered] at hrecovered
  cases hrecovered

/-- No operation of a turn of a marked row is a mutation. -/
theorem leftAlone (h : row.Protected) (settings : Settings)
    (isIbkr hasReplacement hasHistory : Bool) :
    LeftAlone (protocolManager settings isIbkr hasReplacement hasHistory) row where
  pass openSnapshots history recovered now := by
    have hquotes : ∀ tickers, (askBroker (.executionQuotes tickers)).Uses (S := sig)
        fun o => ¬Op.Mutates o := fun _ => Prog.uses_perform (S := sig) id
    refine (meets_handleEntry (P := fun _ => True) (Q := fun _ _ => True) {
      load := id
      clock := id
      quotes := hquotes
      cancel := fun snapshot u _ _ hu hrecovered hworking _ _ =>
        (h.not_acted hu hrecovered hworking).elim
      replace := fun snapshot u _ _ hu hrecovered hworking _ =>
        (h.not_acted hu hrecovered hworking).elim
      submit := fun _ _ _ _ _ _ _ href _ => by
        rw [h.reservedRef] at href
        cases href
      record := fun _ _ => id }).mono (fun _ ho => ho) fun _ _ => trivial
  check label := by
    unfold ExecutionManager.cancelStaleEntry
    rw [if_pos h.recovered]
    trivial

end OrderLedgerEntry.Protected

/-- The reports contain no proof that the order of a row is terminal. -/
def PassReports.NoTerminalProof (reports : PassReports) (row : OrderLedgerEntry) : Prop :=
  (∀ openOrders, reports.openOrders = .ok openOrders → ∀ snapshot adopts,
    matchSnapshot row (ExecutionManager.referenced openOrders) = some (snapshot, adopts) →
      snapshot.lifecycle ∉ terminalLifecycleStates) ∧
  ∀ completed, reports.completed = .ok completed → ∀ snapshot adopts,
    matchSnapshot row (ExecutionManager.referenced completed) = some (snapshot, adopts) →
      snapshot.lifecycle ∉ terminalLifecycleStates

/-- The order of a row is reported open whenever both queries answer. -/
def PassReports.ShowsOpen (reports : PassReports) (row : OrderLedgerEntry) : Prop :=
  ∀ openOrders completed, reports.openOrders = .ok openOrders →
    reports.completed = .ok completed →
    (matchSnapshot row (ExecutionManager.referenced openOrders)).isSome

/-- The ledgers of a rediscovered order: from the record of the restore scan, over passes and
stale-order checks of any settings, in one process or in several, each stopped anywhere, without
terminal proof of the order. -/
inductive RecoveredRun (key : String) (Condition : PassReports → OrderLedgerEntry → Prop) :
    OrderStore → Prop
  | restored {store : OrderStore} (snapshot : OpenOrderSnapshot) (runId : String)
      (submitted now : ℚ)
      (h : store.latest key =
        some ((restoredEntry snapshot key runId submitted).withSnapshot snapshot now))
      (hopen : snapshot.lifecycle ∉ terminalLifecycleStates) : RecoveredRun key Condition store
  | reopened {store : OrderStore} (hrun : RecoveredRun key Condition store) :
      RecoveredRun key Condition store.reopened
  | pass {store : OrderStore} (hrun : RecoveredRun key Condition store) (settings : Settings)
      (hasReplacement hasHistory : Bool) (reports : PassReports)
      (hreports : ∀ row, store.latest key = some row →
        reports.NoTerminalProof row ∧ Condition reports row)
      (cs : List Oracle) (hcs : ∀ c ∈ cs, reports.Answers c) :
      RecoveredRun key Condition
        (openWorld.run (protocolManager settings true hasReplacement hasHistory).reconcile cs
          (World.of store)).state.ledger
  | check {store : OrderStore} (hrun : RecoveredRun key Condition store) (settings : Settings)
      (hasReplacement hasHistory : Bool) (sessionDate runId : String) (reports : PassReports)
      (hreports : ∀ row, store.latest key = some row →
        reports.NoTerminalProof row ∧ Condition reports row)
      (cs : List Oracle) (hcs : ∀ c ∈ cs, reports.Answers c) :
      RecoveredRun key Condition
        (openWorld.run ((protocolManager settings true hasReplacement hasHistory).checkStaleOrders
          sessionDate runId) cs (World.of store)).state.ledger

section Turns

variable {settings : Settings} {hasReplacement hasHistory : Bool} {row : OrderLedgerEntry}
  {reports : PassReports}

/-- The history of a pass that cannot answer the query is an exception, if it is asked for. -/
theorem wp_history_error {isIbkr : Bool} (hhistory : isIbkr = true ∨ hasHistory = true) {e : Exn}
    (herror : reports.completed = .error e) {entries : List OrderLedgerEntry}
    (hmem : row ∈ entries) (openSnapshots : List OpenOrderSnapshot) (τ : List (Event sig))
    (s : World Unit) :
    (openEnvironment.restrict reports.Answers).system.wp
      ((protocolManager settings isIbkr hasReplacement hasHistory).completedSnapshots entries
        openSnapshots) (fun out _ _ => ∀ history, out = .returned history →
          matchSnapshot row openSnapshots = none → ∃ e, history = .error e) τ s := by
  unfold ExecutionManager.completedSnapshots
  dsimp only
  split
  · rename_i hnone
    intro history _ hunmatched
    have hin : row ∈ entries.filter fun entry => (matchSnapshot entry openSnapshots).isNone := by
      rw [List.mem_filter, hunmatched]
      exact ⟨hmem, rfl⟩
    rw [hnone] at hin
    cases hin
  · rw [System.wp_bind, System.wp_attempt]
    refine System.wp_mono _ (wp_completedHistory (fun _ hc => hc) hhistory _ τ s)
      fun out τ' s' hout => ?_
    cases out with
    | stopped => exact nofun
    | returned completed => cases (hout.2.1 completed rfl).symm.trans herror
    | raised e' =>
      intro history hreturned _
      obtain rfl := Outcome.returned.inj hreturned
      exact ⟨e', rfl⟩

/-- A turn of a marked row, without terminal proof, keeps the mark. -/
theorem wp_handleEntry_protected (hrow : row.Protected) {openSnapshots : List OpenOrderSnapshot}
    {history : Except Exn (List OpenOrderSnapshot)}
    (hopen : ∀ snapshot adopts, matchSnapshot row openSnapshots = some (snapshot, adopts) →
      snapshot.lifecycle ∉ terminalLifecycleStates)
    (hhistory : matchSnapshot row openSnapshots = none → ∃ e, history = .error e)
    (recovered : List OrderLedgerEntry) (now : ℚ) (τ : List (Event sig)) (s : World Unit)
    (hs : s.ledger.latest row.ledgerKey = some row) :
    (openEnvironment.restrict reports.Answers).system.wp
      ((protocolManager settings true hasReplacement hasHistory).handleEntry openSnapshots history
        recovered now row) (fun _ _ s' => ∃ x, s'.ledger.latest row.ledgerKey = some x ∧
          x.Protected) τ s := by
  cases hmatch : matchSnapshot row openSnapshots with
  | none =>
    obtain ⟨e, rfl⟩ := hhistory hmatch
    unfold ExecutionManager.handleEntry
    rw [hmatch]
    exact ⟨row, hs, hrow⟩
  | some found =>
    have hmatched : matchSnapshot row openSnapshots ≠ none := by
      rw [hmatch]
      exact nofun
    let guarantee : Op → Prop := fun o => ∀ x, o = .upsert x →
      x.ledgerKey = row.ledgerKey ∧ x.Protected
    have hmeets : ((protocolManager settings true hasReplacement hasHistory).handleEntry
        openSnapshots history recovered now row).Uses (S := sig) guarantee := by
      refine (meets_handleEntry (handlingMeets_of_within protocolManager_within ?_ ?_)).mono
        (fun _ ho => ho) fun _ _ => trivial
      · rintro o ho x rfl
        exact ho.elim
      · rintro x hx y ⟨⟩
        refine ⟨hx.sameOrder.ledgerKey, ?_⟩
        cases hx with
        | adopted snapshot stamp h =>
          obtain ⟨ref, href, _⟩ := sighting_true h
          rw [hrow.reservedRef] at href
          cases href
        | followed snapshot u h hu => exact (hrow.followed hu).2 (hopen snapshot false h)
        | acted snapshot u x h hu hrecovered hworking hid hx =>
          exact (hrow.not_acted hu hrecovered hworking).elim
        | resumed snapshot seen ref h href =>
          rw [hrow.reservedRef] at href
          cases href
        | closed snapshot stamp hnone => exact absurd hnone hmatched
        | unverified now hnone => exact absurd hnone hmatched
    refine System.wp_of_uses _ (I := fun _ (s' : World Unit) => ∃ x, s'.ledger.latest row.ledgerKey = some x ∧
      x.Protected) hmeets ?_ ⟨row, hs, hrow⟩
    rintro o ho c τ' s' ⟨x, hx, hprotected⟩
    rw [act_ledger (openEnvironment.restrict reports.Answers) c s' o]
    cases o with
    | upsert y => exact ⟨y, OrderStore.latest_upsert_of_eq (ho y rfl).1, (ho y rfl).2⟩
    | _ => exact ⟨x, hx, hprotected⟩

/-- A pass without terminal proof that sees the order whenever its queries answer keeps the mark. -/
theorem wp_reconcile_protected (hrow : row.Protected) (hproof : reports.NoTerminalProof row)
    (hshows : reports.ShowsOpen row) (s : World Unit)
    (hs : s.ledger.latest row.ledgerKey = some row) (τ : List (Event sig)) :
    (openEnvironment.restrict reports.Answers).system.wp
      (protocolManager settings true hasReplacement hasHistory).reconcile
      (fun _ _ s' => ∃ x, s'.ledger.latest row.ledgerKey = some x ∧ x.Protected) τ s := by
  refine System.wp_mono _ (wp_reconcile_row _ protocolManager_within hrow.isOpen (.all _ _)
    (I := fun _ latest => ∃ x, latest = some x ∧ x.Protected)
    (D := fun _ latest => ∃ x, latest = some x ∧ x.Protected) (X := True)
    (O := fun openSnapshots => ∃ openOrders, reports.openOrders = .ok openOrders ∧
      openSnapshots = ExecutionManager.referenced openOrders)
    (H := fun openSnapshots history => matchSnapshot row openSnapshots = none →
      ∃ e, history = .error e) (fun _ _ h => h) (fun _ _ _ _ h => h)
    (fun _ _ => ⟨row, rfl, hrow⟩) ?_ (fun _ _ _ => Or.inl hrow.own) ?_ ?_ hs ?_) fun _ _ _ h => h.1
  · intro τ s
    refine System.wp_mono _ (wp_askBroker_answer (fun c hc => hc.1) τ s) fun out _ _ h => ⟨?_, ?_⟩
    · exact fun fetched hout => ⟨fetched, h.2.1 fetched hout, rfl⟩
    · exact fun _ _ => trivial
  · rintro openSnapshots entries ⟨openOrders, hopenOrders, rfl⟩ hmem τ s
    cases hcompleted : reports.completed with
    | error e => exact wp_history_error (Or.inl rfl) hcompleted hmem _ τ s
    | ok completed =>
      -- both queries answered, so the order is seen open and the history does not matter
      have hseen := hshows openOrders completed hopenOrders hcompleted
      refine System.wp_mono _ (System.wp_true _ _ τ s) fun _ _ _ _ _ _ hnone => ?_
      rw [hnone] at hseen
      cases hseen
  · rintro openSnapshots history recovered now τ s ⟨openOrders, hopenOrders, rfl⟩ hhistory _
      hlatest
    refine System.wp_mono _ (wp_handleEntry_protected hrow (hproof.1 openOrders hopenOrders)
      hhistory recovered now τ s hlatest) fun _ _ _ h => ⟨h, fun _ _ => h⟩
  · exact fun _ _ _ => Or.inr trivial

end Turns

/-- Along every run whose passes see the order whenever both queries answer, its row is marked. -/
theorem RecoveredRun.protected {key : String} {store : OrderStore}
    (h : RecoveredRun key PassReports.ShowsOpen store) :
    ∃ row, store.latest key = some row ∧ row.ledgerKey = key ∧ row.Protected := by
  induction h with
  | restored snapshot runId submitted now h hopen =>
    refine ⟨_, h, rfl, rfl, decide_eq_false hopen, ?_, rfl⟩
    have hreason : ((restoredEntry snapshot key runId submitted).withSnapshot snapshot
        now).terminalReason = some recoveredReason := if_neg hopen
    rw [OrderLedgerEntry.isRecovered, hreason]
    decide +kernel
  | reopened hrun ih =>
    obtain ⟨row, hlatest, hrow⟩ := ih
    exact ⟨row, (OrderStore.latest_reopened _ key).trans hlatest, hrow⟩
  | pass hrun settings hasReplacement hasHistory reports hreports cs hcs ih =>
    obtain ⟨row, hlatest, rfl, hrow⟩ := ih
    obtain ⟨hproof, hshows⟩ := hreports row hlatest
    obtain ⟨x, hx, hprotected⟩ := System.wp_restrict_run openWorld
      (wp_reconcile_protected hrow hproof hshows (World.of _) hlatest []) hcs
    exact ⟨x, hx, OrderStore.latest_key hx, hprotected⟩
  | check hrun settings hasReplacement hasHistory sessionDate runId reports hreports cs hcs ih =>
    obtain ⟨row, hlatest, rfl, hrow⟩ := ih
    obtain ⟨hproof, hshows⟩ := hreports row hlatest
    obtain ⟨x, hx, hprotected⟩ := System.wp_restrict_run openWorld
      (wp_checkStaleOrders_row (openEnvironment.restrict reports.Answers) (A := fun _ => True)
        trivial (fun _ => trivial) (fun _ => Prog.uses_perform (S := sig) ⟨trivial, trivial⟩)
        (I := fun _ latest => ∃ x, latest = some x ∧ x.Protected) (fun _ _ _ _ h => h)
        (fun _ _ entry _ _ hrecovered ⟨x, hx, hprotected⟩ => by
          obtain rfl := Option.some.inj hx
          cases hrecovered.symm.trans hprotected.recovered)
        sessionDate runId (s := World.of _) ⟨row, hlatest, hrow⟩
        fun τ _ => wp_reconcile_protected hrow hproof hshows (World.of _) hlatest τ) hcs
    exact ⟨x, hx, OrderStore.latest_key hx, hprotected⟩

/-- In every ledger of such a run, no turn of the rediscovered order's row asks the broker to
cancel or replace it. -/
theorem recovered_leftAlone {key : String} {store : OrderStore}
    (h : RecoveredRun key PassReports.ShowsOpen store) :
    ∃ row, store.latest key = some row ∧
      ∀ settings isIbkr hasReplacement hasHistory,
        LeftAlone (protocolManager settings isIbkr hasReplacement hasHistory) row := by
  obtain ⟨row, hlatest, _, hrow⟩ := h.protected
  exact ⟨row, hlatest, hrow.leftAlone⟩

/-- An order of an unknown process, working at the broker. -/
def strayOrder : OpenOrderSnapshot where
  orderRef := some "poma:lost:0:VTI:BUY"
  orderId := some 9
  permId := some 90
  ticker := "VTI"
  side := .buy
  rawStatus := "Submitted"
  filled := 0
  remaining := 5
  avgFillPrice := none

/-- The ledger right after the stray order was recorded. -/
def strayLedger : OrderStore :=
  OrderStore.empty.upsert
    ((restoredEntry strayOrder "poma:lost:0:VTI:BUY" "lost" 0).withSnapshot strayOrder 0)

/-- The ledger after one more pass, under two order lists. -/
def strayLedgerAfter (clock : ℚ) (openOrders : List OpenOrderSnapshot) : OrderStore :=
  (openWorld.run (protocolManager .unset true true false).reconcile
    (List.replicate 8 (listsOnly clock openOrders [])) (World.of strayLedger)).state.ledger

theorem strayLedger_run {Condition : PassReports → OrderLedgerEntry → Prop} :
    RecoveredRun "poma:lost:0:VTI:BUY" Condition strayLedger :=
  .restored strayOrder "lost" 0 0 (OrderStore.latest_upsert_of_eq rfl) (by decide +kernel)

/-- The stray order is left alone after a pass that reports it open. -/
theorem recovered_leftAlone_reported :
    ∃ row, (strayLedgerAfter 400 [strayOrder]).latest "poma:lost:0:VTI:BUY" = some row ∧
      ∀ settings isIbkr hasReplacement hasHistory,
        LeftAlone (protocolManager settings isIbkr hasReplacement hasHistory) row := by
  have hlatest : strayLedger.latest "poma:lost:0:VTI:BUY" =
      some ((restoredEntry strayOrder "poma:lost:0:VTI:BUY" "lost" 0).withSnapshot strayOrder 0) :=
    OrderStore.latest_upsert_of_eq rfl
  refine recovered_leftAlone (.pass strayLedger_run .unset true false ⟨.ok [strayOrder], .ok []⟩ ?_ _
    fun c hc => List.eq_of_mem_replicate hc ▸ ⟨rfl, rfl, fun _ _ => rfl⟩)
  intro row hrow
  obtain rfl := Option.some.inj (hlatest.symm.trans hrow)
  refine ⟨⟨?_, ?_⟩, ?_⟩
  · rintro openOrders ⟨⟩ snapshot adopts h
    have hmatch : matchSnapshot ((restoredEntry strayOrder "poma:lost:0:VTI:BUY" "lost"
        0).withSnapshot strayOrder 0) (ExecutionManager.referenced [strayOrder]) =
        some (strayOrder, false) := by decide +kernel
    obtain rfl := (Prod.mk.inj (Option.some.inj (hmatch.symm.trans h))).1
    decide +kernel
  · rintro completed ⟨⟩ snapshot adopts h
    cases h
  · rintro openOrders completed ⟨⟩ ⟨⟩
    decide +kernel

/-- After one pass that finds the stray order in neither list, its row is not left alone: the next
pass that sees it working past the timeout cancels it. -/
theorem recovered_order_cancelled_after_absence :
    RecoveredRun "poma:lost:0:VTI:BUY" (fun _ _ => True) (strayLedgerAfter 10 []) ∧
    .broker (.cancelOrder 9) ∈ opsOf (openWorld.run (protocolManager .unset true true false).reconcile
      (List.replicate 12 (listsAndCancels 400 [strayOrder] []))
      (World.of (strayLedgerAfter 10 []))) ∧
    ∃ row, (strayLedgerAfter 10 []).latest "poma:lost:0:VTI:BUY" = some row ∧
      row.orderId = some 9 ∧ ¬LeftAlone (protocolManager .unset true true false) row := by
  have hmissing : ∀ row snapshot adopts,
      matchSnapshot row (ExecutionManager.referenced []) = some (snapshot, adopts) →
        snapshot.lifecycle ∉ terminalLifecycleStates := by
    intro row snapshot adopts h
    rcases hreserved : row.reservedRef with _ | ref <;>
      simp [matchSnapshot, ExecutionManager.referenced, hreserved] at h
  let row := closeUnreportedOpenEntry ((restoredEntry strayOrder "poma:lost:0:VTI:BUY" "lost"
    0).withSnapshot strayOrder 0) 10
  refine ⟨?_, by decide +kernel, row, by decide +kernel, rfl, fun h => ?_⟩
  · refine .pass strayLedger_run .unset true false ⟨.ok [], .ok []⟩ ?_ _
      fun c hc => List.eq_of_mem_replicate hc ▸ ⟨rfl, rfl, fun _ _ => rfl⟩
    intro row _
    refine ⟨⟨?_, ?_⟩, trivial⟩
    · rintro openOrders ⟨⟩
      exact hmissing row
    · rintro completed ⟨⟩
      exact hmissing row
  · have hops : .broker (.cancelOrder 9) ∈ opsOf (openWorld.run
        ((protocolManager .unset true true false).handleEntry [strayOrder] (.ok []) [] 400 row)
        (List.replicate 8 (listsAndCancels 400 [strayOrder] [])) (World.of strayLedger)) := by
      decide +kernel
    obtain ⟨event, hevent, hop⟩ := List.mem_map.mp hops
    have hallowed := openWorld.mem_trace_of_uses (h.pass [strayOrder] (.ok []) [] 400) _ _ event
      hevent
    rw [hop] at hallowed
    exact hallowed trivial

end Poma

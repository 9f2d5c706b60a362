import Poma.Correctness.Absence
import Poma.Correctness.Completion

/-!
# Planned orders that were never sent

A row leaves its trade free to be sent while it is planned, or blocked by a
status that may be retried. A planned row is open, and a pass that finds an open
row in neither list declares it unverified. From then on the trade is answered
by a replay.
-/

namespace Poma

open Interaction

/-- What follows a stopped attempt: a pass, or the stale-order check of the next plan, which makes
one. -/
inductive Followup where
  | pass (p : Pass)
  | check (p : Pass) (sessionDate runId : String)

namespace Followup

/-- The pass that is made. -/
def made : Followup → Pass
  | .pass p => p
  | .check p _ _ => p

/-- The run of the pass; a check has read the ledger before it. -/
def run (f : Followup) (store : OrderStore) : Run sig (World Unit) ReconcileSummary :=
  match f with
  | .pass p => p.run store
  | .check p _ _ =>
    openWorld.run p.manager.reconcile (p.choices.drop 1) (World.of (store.atStart p.newProcess))

/-- The ledger that is left. -/
def after (f : Followup) (store : OrderStore) : OrderStore :=
  match f with
  | .pass p => p.after store
  | .check p sessionDate runId =>
    (openWorld.run (p.manager.checkStaleOrders sessionDate runId) p.choices
      (World.of (store.atStart p.newProcess))).state.ledger

/-- The broker accurately reports no order for the row of a key: both of its lists are received,
neither has a match, and the pass comes to its end. -/
structure Silent (key : String) (store : OrderStore) (f : Followup) : Prop where
  misses : f.made.MissesKey key store
  completed : ∃ all, f.made.reports.completed = .ok all
  returns : ∃ summary, (f.run store).outcome = .returned summary

end Followup

/-- The ledger after some of these. -/
def ledgerFollowed (store : OrderStore) : List Followup → OrderStore
  | [] => store
  | f :: fs => ledgerFollowed (f.after store) fs

/-- The ledger as the next attempt finds it. -/
def ledgerFound (newProcess : Bool) (store : OrderStore) (fs : List Followup) : OrderStore :=
  (ledgerFollowed store fs).atStart newProcess

/-- In each of these the broker reports no order for the row of a key. -/
def EverySilent (key : String) : OrderStore → List Followup → Prop
  | _, [] => True
  | store, f :: fs => f.Silent key store ∧ EverySilent key (f.after store) fs

/-- An open row whose trade is answered by a replay. -/
structure OrderLedgerEntry.Held (row : OrderLedgerEntry) : Prop where
  isOpen : row.isTerminal = false
  notSendable : row.sendable = false

theorem OrderLedgerEntry.not_sendable_iff {row : OrderLedgerEntry} :
    row.sendable = false ↔ row.lifecycleState ≠ .planned ∧
      ¬(row.rawStatus ∈ retryablePreAcceptanceStatuses ∧ row.orderId = none ∧ row.Unfilled) := by
  rw [OrderLedgerEntry.sendable, decide_eq_false_iff_not, not_or]

theorem notOpenUnverified_not_retryable : notOpenUnverified ∉ retryablePreAcceptanceStatuses := by
  decide +kernel

/-- A row declared unverified is held. -/
theorem closeUnreportedOpenEntry_held (row : OrderLedgerEntry) (now : ℚ) :
    (closeUnreportedOpenEntry row now).Held where
  isOpen := rfl
  notSendable := by
    rw [OrderLedgerEntry.not_sendable_iff]
    constructor
    · simp [closeUnreportedOpenEntry]
    · rintro ⟨hraw, -⟩
      exact notOpenUnverified_not_retryable hraw

/-- A held row stays held when its cancellation is requested. -/
theorem OrderLedgerEntry.Held.staleCancelled {row : OrderLedgerEntry} (h : row.Held)
    (label : String) : (Poma.staleCancelled row label).Held where
  isOpen := rfl
  notSendable := by
    have hheld := OrderLedgerEntry.not_sendable_iff.mp h.notSendable
    rw [OrderLedgerEntry.not_sendable_iff]
    constructor
    · simp [Poma.staleCancelled, OrderLedgerEntry.cancelRequested]
    · exact hheld.2

section Pass

variable {row : OrderLedgerEntry}

/-- A turn that finds its row in neither list leaves it held. -/
theorem wp_handleEntry_silent {W : Type} (E : Environment W) {manager : ExecutionManager}
    (hopen : row.isTerminal = false) {openSnapshots completed : List OpenOrderSnapshot}
    (hopenNone : matchSnapshot row openSnapshots = none)
    (hcompletedNone : matchSnapshot row completed = none) (recovered : List OrderLedgerEntry)
    (now : ℚ) (τ : List (Event sig)) (s : World W)
    (hs : s.ledger.latest row.ledgerKey = some row) :
    E.system.wp (manager.handleEntry openSnapshots (.ok completed) recovered now row)
      (fun out _ s' => ∀ update, out = .returned update →
        ∃ x, s'.ledger.latest row.ledgerKey = some x ∧ x.Held) τ s := by
  have hentry : E.system.wp (manager.reconcileEntry row openSnapshots completed now)
      (fun out _ s' => (∀ e, out ≠ .raised e) ∧ ∀ update, out = .returned update →
        ∃ x, s'.ledger.latest row.ledgerKey = some x ∧ x.Held) τ s := by
    unfold ExecutionManager.reconcileEntry
    rw [hopenNone, hcompletedNone]
    dsimp only
    unfold ExecutionManager.reconcileUnreported
    split
    · rename_i hunverified
      refine ⟨nofun, fun _ _ => ⟨row, hs, hopen, ?_⟩⟩
      rw [OrderLedgerEntry.not_sendable_iff, hunverified.1, hunverified.2]
      exact ⟨nofun, fun h => notOpenUnverified_not_retryable h.1⟩
    · have hheld := closeUnreportedOpenEntry_held row now
      have hkey : (closeUnreportedOpenEntry row now).ledgerKey = row.ledgerKey := rfl
      generalize closeUnreportedOpenEntry row now = closed at hheld hkey
      dsimp only
      have hlatest : (s.ledger.upsert closed).latest row.ledgerKey = some closed :=
        OrderStore.latest_upsert_of_eq hkey
      simp only [ExecutionManager.report, System.wp_bind, wp_upsertEntry, System.seq_stopped,
        System.seq_returned, System.wp_ret]
      constructor
      · constructor
        · intro e he
          cases he
        · intro update hupdate
          cases hupdate
      · intro _
        constructor
        · intro e he
          cases he
        · intro update _
          exact ⟨closed, hlatest, hheld⟩
  unfold ExecutionManager.handleEntry Prog.catching
  dsimp only
  rw [System.wp_bind, System.wp_attempt, System.wp_bind]
  apply E.system.wp_mono hentry
  intro out τ' s' h
  cases out with
  | returned update =>
    intro other _
    exact h.2 update rfl
  | raised e => exact absurd rfl (h.1 e)
  | stopped =>
    intro update hupdate
    cases hupdate

/-- A pass that shows no order of an open row leaves it held, if it returns. -/
theorem wp_reconcile_silent (p : Pass) (hopen : row.isTerminal = false)
    {all : List OpenOrderSnapshot} (hcompleted : p.reports.completed = .ok all)
    (hmisses : p.Misses row) {store : OrderStore} (hshields : p.Shields row.ledgerKey store)
    (hs : store.latest row.ledgerKey = some row) :
    (openEnvironment.restrict p.reports.Answers).system.wp p.manager.reconcile
      (fun out _ s' => ∀ summary, out = .returned summary →
        ∃ x, s'.ledger.latest row.ledgerKey = some x ∧ x.Held) []
      (World.of (store.atStart p.newProcess)) := by
  have hfound : (store.atStart p.newProcess).latest row.ledgerKey = some row := by
    rw [OrderStore.latest_atStart, hs]
  apply System.wp_mono _ (wp_reconcile_row _ protocolManager_within hopen (.all _ _)
    (I := fun _ _ => True) (D := fun _ latest => ∃ x, latest = some x ∧ x.Held) (X := True)
    (O := fun openSnapshots => ∃ openOrders, p.reports.openOrders = .ok openOrders ∧
      openSnapshots = ExecutionManager.referenced openOrders)
    (H := p.reports.History row) (fun _ _ _ => trivial) (fun _ _ _ _ h => h) (fun _ _ => trivial)
    _ _ _ _ hfound fun _ _ _ => Or.inr trivial)
  · exact fun _ _ _ h => h.2.1
  · intro τ s
    apply System.wp_mono _ (wp_askBroker_answer (fun c hc => hc.1) τ s)
    exact fun out _ _ h => ⟨fun fetched hout => ⟨fetched, h.2.1 fetched hout, rfl⟩,
      fun _ _ => trivial⟩
  · rintro _ ⟨openOrders, hopenOrders, rfl⟩ hibkr
    exact hshields row hs hibkr openOrders hopenOrders
  · exact fun openSnapshots entries _ hmem τ s => wp_passHistory p hmem openSnapshots τ s
  · rintro _ history recovered now τ s ⟨openOrders, hopenOrders, rfl⟩ hhistory _ hlatest
    have hnone := hmisses.1 openOrders hopenOrders
    have hshown := hhistory hnone
    rw [hcompleted] at hshown
    obtain ⟨completed, rfl, hmatch⟩ := hshown
    have hcompletedNone := hmatch.trans (hmisses.2 all hcompleted)
    apply System.wp_mono _ (wp_handleEntry_silent _ hopen hnone hcompletedNone recovered now τ s
      hlatest)
    exact fun _ _ _ h => ⟨trivial, h⟩

end Pass

/-- The decision of a check over the rows that are open once the ledger is refreshed. -/
def ExecutionManager.decideStale (self : ExecutionManager) (sessionDate runId : String) :
    M StaleOrderCheck :=
  loadLatest.bind fun store => self.checkOpenEntries store.loadOpenOrders sessionDate runId

/-- What a check concludes from its refresh. -/
def ExecutionManager.concludeCheck (self : ExecutionManager) (openEntries : List OrderLedgerEntry)
    (sessionDate runId : String) : Except sig.Exn Unit → Prog sig StaleOrderCheck
  | .error e => .ret { warnings := [refreshWarning openEntries e] }
  | .ok _ => self.decideStale sessionDate runId

theorem checkStaleOrders_eq (manager : ExecutionManager) (sessionDate runId : String) :
    manager.checkStaleOrders sessionDate runId = loadLatest.bind fun store =>
      if store.loadOpenOrders = [] ∧ manager.broker.isIbkr = false then
        manager.checkOpenEntries store.loadOpenOrders sessionDate runId
      else manager.refreshOpenOrders.attempt.bind
        (manager.concludeCheck store.loadOpenOrders sessionDate runId) := rfl

/-- The decision of a check keeps a held row held. -/
theorem wp_decideStale_held (p : Pass) (sessionDate runId : String) {key : String}
    {s : World Unit} (hs : ∃ x, s.ledger.latest key = some x ∧ x.Held) :
    openWorld.wp (p.manager.decideStale sessionDate runId)
      (fun _ _ s' => ∃ x, s'.ledger.latest key = some x ∧ x.Held) [] s := by
  obtain ⟨x, hx, hheld⟩ := hs
  have huses : (p.manager.checkOpenEntries s.ledger.loadOpenOrders sessionDate runId).Uses
      (S := sig) fun o => ∀ y, o = .upsert y → y.ledgerKey = key → y.Held := by
    apply checkOpenEntries_uses
    · intro orderId
      apply (protocolManager_within.cancel orderId).mono
      rintro o hkeeps y rfl
      exact hkeeps.elim
    · rintro entry hmem label _ _ y ⟨⟩ hkey
      have hlatest : s.ledger.latest entry.ledgerKey = some entry :=
        OrderStore.latest_of_mem (OrderStore.mem_loadOpenOrders.mp hmem).1
      have hsame : entry.ledgerKey = key := hkey
      rw [hsame, hx] at hlatest
      obtain rfl := Option.some.inj hlatest
      exact hheld.staleCancelled label
  unfold ExecutionManager.decideStale
  rw [System.wp_bind]
  refine (wp_loadLatest openEnvironment _ _ _).mpr ⟨⟨x, hx, hheld⟩, fun _ => ?_⟩
  rw [System.seq_returned]
  apply openWorld.wp_of_uses (I := fun _ s' => ∃ x, s'.ledger.latest key = some x ∧ x.Held) huses _
    ⟨x, hx, hheld⟩
  rintro o ho c τ s' ⟨y, hy, hstill⟩
  change ∃ x, (openEnvironment.system.act c s' o).2.ledger.latest key = some x ∧ x.Held
  rw [act_ledger openEnvironment c s' o]
  cases o with
  | upsert z =>
    by_cases hkey : z.ledgerKey = key
    · exact ⟨z, OrderStore.latest_upsert_of_eq hkey, ho z rfl hkey⟩
    · exact ⟨y, (OrderStore.latest_upsert_of_ne hkey).trans hy, hstill⟩
  | _ => exact ⟨y, hy, hstill⟩

/-- A check whose pass returns leaves the ledger of that pass, or what it decides on it. -/
theorem run_checkStaleOrders {manager : ExecutionManager} {store : OrderStore}
    (hopens : store.loadOpenOrders ≠ []) {choices : List openWorld.Choice}
    {summary : ReconcileSummary}
    (h : (openWorld.run manager.reconcile (choices.drop 1) (World.of store)).outcome =
      .returned summary) (sessionDate runId : String) :
    let passed := (openWorld.run manager.reconcile (choices.drop 1) (World.of store)).state
    let checked := (openWorld.run (manager.checkStaleOrders sessionDate runId) choices
      (World.of store)).state
    checked = passed ∨
      ∃ cs, checked = (openWorld.run (manager.decideStale sessionDate runId) cs passed).state := by
  intro passed checked
  cases choices with
  | nil =>
    -- a pass that is killed at its first operation returns nothing
    exact absurd h (by simp [ExecutionManager.reconcile, loadLatest, Prog.perform, Prog.bind,
      System.run])
  | cons c cs =>
    have hrefresh : ∃ out trace, openWorld.run manager.refreshOpenOrders.attempt cs
        (World.of store) = ⟨trace, out, passed⟩ ∧
          ∃ refreshed, out = .returned refreshed := by
      rw [System.run_attempt]
      unfold ExecutionManager.refreshOpenOrders
      rw [System.run_bind]
      have hout : (openWorld.run manager.reconcile cs (World.of store)).outcome =
          .returned summary := h
      rw [hout]
      dsimp only
      split
      · exact ⟨_, _, rfl, _, rfl⟩
      · exact ⟨_, _, rfl, _, rfl⟩
    obtain ⟨out, trace, hrun, refreshed, rfl⟩ := hrefresh
    have hchecked : checked = (openWorld.run (manager.concludeCheck store.loadOpenOrders
        sessionDate runId refreshed) (cs.drop trace.length) passed).state := by
      have hcheck : checked = (openWorld.run (manager.refreshOpenOrders.attempt.bind
          (manager.concludeCheck store.loadOpenOrders sessionDate runId)) cs
            (World.of store)).state := by
        have hread : openWorld.run loadLatest (c :: cs) (World.of store) =
            ⟨[⟨.loadLatestEntries, .ok store⟩], .returned store, World.of store⟩ := rfl
        have hdecide : ¬(store.loadOpenOrders = [] ∧ manager.broker.isIbkr = false) :=
          fun hnone => hopens hnone.1
        show (openWorld.run (manager.checkStaleOrders sessionDate runId) (c :: cs)
          (World.of store)).state = _
        rw [checkStaleOrders_eq, System.run_bind, hread]
        dsimp only
        rw [if_neg hdecide]
        rfl
      rw [hcheck, System.run_bind, hrun]
      rfl
    rw [hchecked]
    cases refreshed with
    | error e => exact Or.inl rfl
    | ok _ => exact Or.inr ⟨_, rfl⟩

namespace Followup

variable {f : Followup} {store : OrderStore} {row : OrderLedgerEntry}

theorem after_produced (hstore : store.All OrderLedgerEntry.Produced) (f : Followup) :
    (f.after store).All OrderLedgerEntry.Produced := by
  cases f with
  | pass p => exact p.after_produced hstore
  | check p sessionDate runId =>
    exact openWorld.wp_run (wp_allRows openEnvironment
      (checkStaleOrders_produced sessionDate runId) [] (hstore.atStart p.newProcess)) p.choices

/-- A row is not taken for an unknown order. -/
theorem shields (hstore : store.All OrderLedgerEntry.Produced) (p : Pass) (key : String) :
    p.Shields key store :=
  fun row hrow _ _ _ => (hstore row (OrderStore.latest_mem hrow)).shielded _

/-- An open row is held once a pass has found no order for it. -/
theorem after_held (hstore : store.All OrderLedgerEntry.Produced)
    (hsilent : f.Silent row.ledgerKey store) (hrow : store.latest row.ledgerKey = some row)
    (hopen : row.isTerminal = false) :
    ∃ x, (f.after store).latest row.ledgerKey = some x ∧ x.Held := by
  obtain ⟨all, hcompleted⟩ := hsilent.completed
  obtain ⟨summary, hreturns⟩ := hsilent.returns
  have hpass := wp_reconcile_silent f.made hopen hcompleted (hsilent.misses row hrow)
    (shields hstore f.made row.ledgerKey) hrow
  cases f with
  | pass p => exact System.wp_restrict_run openWorld hpass p.answers summary hreturns
  | check p sessionDate runId =>
    have hopens : (store.atStart p.newProcess).loadOpenOrders ≠ [] :=
      List.ne_nil_of_mem (OrderStore.mem_loadOpenOrders.mpr
        ⟨OrderStore.mem_atStart.mpr (OrderStore.latest_mem hrow), hopen⟩)
    have hpassed := System.wp_restrict_run openWorld hpass
      (fun c hc => p.answers c (List.mem_of_mem_drop hc)) summary hreturns
    rcases run_checkStaleOrders hopens hreturns sessionDate runId with hsame | ⟨cs, hdecided⟩
    · rw [after, hsame]
      exact hpassed
    · rw [after, hdecided]
      exact openWorld.wp_run (wp_decideStale_held p sessionDate runId hpassed) cs

/-- A terminal row is left as it is. -/
theorem after_terminal (hstore : store.All OrderLedgerEntry.Produced) (f : Followup)
    (hrow : store.latest row.ledgerKey = some row) (hterminal : row.isTerminal = true) :
    (f.after store).latest row.ledgerKey = some row := by
  have hshielded := (hstore row (OrderStore.latest_mem hrow)).shielded
  have hfound : ∀ p : Pass, (store.atStart p.newProcess).latest row.ledgerKey = some row :=
    fun p => (OrderStore.latest_atStart store p.newProcess row.ledgerKey).trans hrow
  have hreconcile : ∀ (p : Pass) τ, openWorld.wp p.manager.reconcile
      (fun _ _ s' => s'.ledger.latest row.ledgerKey = some row) τ
        (World.of (store.atStart p.newProcess)) := by
    intro p τ
    apply wp_reconcile_terminal openEnvironment protocolManager_within hterminal _ τ (hfound p)
    intro τ' s'
    apply openWorld.wp_mono (openWorld.wp_true _ τ' s')
    exact fun _ _ _ _ fetched _ => hshielded _
  cases f with
  | pass p => exact openWorld.wp_run (hreconcile p []) p.choices
  | check p sessionDate runId =>
    apply openWorld.wp_run (p := p.manager.checkStaleOrders sessionDate runId)
      (s := World.of (store.atStart p.newProcess))
      (Q := fun _ _ s' => s'.ledger.latest row.ledgerKey = some row)
    apply wp_checkStaleOrders_row openEnvironment (A := fun _ => True)
      (I := fun _ latest => latest = some row) trivial (fun _ => trivial)
    · intro orderId
      apply (protocolManager_within.cancel orderId).mono
      exact fun _ hkeeps => ⟨trivial, hkeeps⟩
    · exact fun _ _ _ _ h => h
    · rintro τ label entry _ hopen _ hentry
      obtain rfl := Option.some.inj hentry
      rw [hterminal] at hopen
      cases hopen
    · exact hfound p
    · exact fun τ' _ => hreconcile p τ'

end Followup

/-- A held row stays held while the broker shows no order for it. -/
theorem EverySilent.held {key : String} {fs : List Followup} :
    ∀ {store : OrderStore}, store.All OrderLedgerEntry.Produced → EverySilent key store fs →
      (∃ x, store.latest key = some x ∧ x.Held) →
      ∃ x, (ledgerFollowed store fs).latest key = some x ∧ x.Held := by
  induction fs with
  | nil => exact fun _ _ h => h
  | cons f fs ih =>
    rintro store hstore ⟨hfirst, hrest⟩ ⟨x, hx, hheld⟩
    obtain rfl := OrderStore.latest_key hx
    exact ih (f.after_produced hstore) hrest (f.after_held hstore hfirst hx hheld.isOpen)

theorem ledgerFollowed_terminal {row : OrderLedgerEntry} {store : OrderStore}
    (hterminal : row.isTerminal = true) (hstore : store.All OrderLedgerEntry.Produced)
    (hrow : store.latest row.ledgerKey = some row) (fs : List Followup) :
    (ledgerFollowed store fs).latest row.ledgerKey = some row := by
  induction fs generalizing store with
  | nil => exact hrow
  | cons f fs ih => exact ih (f.after_produced hstore) (f.after_terminal hstore hrow hterminal)

/-- Whether a trade is free to be sent is read off the row of its reference. -/
theorem idempotentReplay_eq_none_iff {store : OrderStore} {plan : RebalancePlan}
    {trade : ProposedTrade} {row : OrderLedgerEntry} (htrade : trade ∈ taggedTrades store plan)
    (hrow : store.latest trade.ref = some row) :
    idempotentReplay trade (store.getLatestMany ((taggedTrades store plan).map (·.ref))) = none ↔
      row.sendable = true := by
  unfold idempotentReplay
  rw [OrderStore.find?_getLatestMany (List.mem_map_of_mem htrade), hrow]
  dsimp only
  cases row.sendable <;> simp

/-- On a ledger an attempt stopped on, and after any passes and checks in which the broker showed no
order of a trade, the next attempt sends the trade exactly when its row left it free at the stop and
either nothing followed or the row was closed: a planned row is spent by the first pass. -/
theorem planned_resent_iff {stopped : OrderStore} (hstopped : Reached stopped)
    (newProcess : Bool) (plan : RebalancePlan) {trade : ProposedTrade} {fs : List Followup}
    (hsilent : EverySilent trade.ref stopped fs)
    (htrade : trade ∈ taggedTrades (ledgerFound newProcess stopped fs) plan)
    {row : OrderLedgerEntry} (hrow : stopped.latest trade.ref = some row) :
    idempotentReplay trade ((ledgerFound newProcess stopped fs).getLatestMany
        ((taggedTrades (ledgerFound newProcess stopped fs) plan).map (·.ref))) = none ↔
      row.sendable = true ∧ (fs = [] ∨ row.isTerminal = true) := by
  have hproduced := hstopped.produced
  have hkey := OrderStore.latest_key hrow
  have hfound : ∀ key, (ledgerFound newProcess stopped fs).latest key =
      (ledgerFollowed stopped fs).latest key := OrderStore.latest_atStart _ newProcess
  cases fs with
  | nil =>
    rw [idempotentReplay_eq_none_iff htrade ((hfound _).trans hrow)]
    simp
  | cons f fs =>
    cases hterminal : row.isTerminal with
    | true =>
      have hlast := ledgerFollowed_terminal hterminal hproduced (hkey ▸ hrow) (f :: fs)
      rw [idempotentReplay_eq_none_iff htrade ((hfound _).trans (hkey ▸ hlast))]
      simp
    | false =>
      have hfirst := f.after_held hproduced (hkey ▸ hsilent.1) (hkey ▸ hrow) hterminal
      rw [hkey] at hfirst
      obtain ⟨x, hx, hheld⟩ := hsilent.2.held (f.after_produced hproduced) hfirst
      rw [idempotentReplay_eq_none_iff htrade ((hfound _).trans hx), hheld.notSendable]
      simp

/-- The operation hands trades to the broker. -/
def Op.submitsTrades : Op → Bool
  | .broker (.submitTrades _) => true
  | _ => false

/-- The attempt to sell that stops at its first quotes. -/
def unsentSale : Step where
  settings := .unset
  isIbkr := true
  hasReplacement := true
  hasHistory := false
  command := .submitPlan salePlan
  choices := List.replicate 12 (listsOnly 0 [] [])

/-- The stale-order check before the next plan of the run, with a broker that has no order. -/
def silentCheck : Followup :=
  .check { silentPass 10 with
    choices := List.replicate 12 (listsOnly 10 [] [])
    answers := fun _ hc => List.eq_of_mem_replicate hc ▸ ⟨rfl, rfl, fun _ _ => rfl⟩ }
    "2026-10-16" "run"

/-- The sale under its reference. -/
def taggedSale : ProposedTrade where
  ticker := "VTI"
  side := .sell
  quantity := 5
  notional := 500
  referencePrice := 100
  limitPrice := some 100
  reason := "rebalance_to_target_weight"
  orderRef := some "poma:run:0:VTI:SELL"

theorem everySilent_silentCheck :
    EverySilent taggedSale.ref (unsentSale.after .empty) [silentCheck] := by
  have hnone : ∀ row : OrderLedgerEntry, matchSnapshot row [] = none := by
    intro row
    cases href : row.reservedRef <;> simp [matchSnapshot, href]
  have hreturned : (silentCheck.run (unsentSale.after .empty)).outcome =
      .returned ⟨1, [⟨closeUnreportedOpenEntry (plannedEntry salePlan taggedSale) 10,
        some .unverified, false, none⟩]⟩ := by
    decide +kernel
  refine ⟨⟨?_, ⟨[], rfl⟩, ⟨_, hreturned⟩⟩, trivial⟩
  intro row _
  constructor
  · rintro openOrders ⟨⟩
    exact hnone row
  · rintro completed ⟨⟩
    exact hnone row

theorem planned_resent_iff_unsentSale :
    idempotentReplay taggedSale ((ledgerFound true (unsentSale.after .empty)
        [silentCheck]).getLatestMany ((taggedTrades (ledgerFound true (unsentSale.after .empty)
          [silentCheck]) salePlan).map (·.ref))) = none ↔
      (plannedEntry salePlan taggedSale).sendable = true ∧
        ([silentCheck] = [] ∨ (plannedEntry salePlan taggedSale).isTerminal = true) :=
  planned_resent_iff (.step .empty unsentSale) true salePlan everySilent_silentCheck
    (by decide +kernel) (by decide +kernel)

/-- The attempt stops with the sale planned and nothing handed to the broker; after the check of the
next plan, which finds no order, the sale is answered by a replay. -/
theorem not_resent_unsentSale :
    ((unsentSale.run .empty).outcome = .raised (.connection "not connected") ∧
      ∀ trades, Op.broker (.submitTrades trades) ∉ opsOf (unsentSale.run .empty)) ∧
    (unsentSale.after .empty).latest taggedSale.ref = some (plannedEntry salePlan taggedSale) ∧
    EverySilent taggedSale.ref (unsentSale.after .empty) [silentCheck] ∧
    taggedSale ∈ taggedTrades (ledgerFound true (unsentSale.after .empty) [silentCheck]) salePlan ∧
    idempotentReplay taggedSale ((ledgerFound true (unsentSale.after .empty)
        [silentCheck]).getLatestMany ((taggedTrades (ledgerFound true (unsentSale.after .empty)
          [silentCheck]) salePlan).map (·.ref))) ≠ none := by
  have hops : (opsOf (unsentSale.run .empty)).all (fun o => !o.submitsTrades) = true := by
    decide +kernel
  refine ⟨⟨by decide +kernel, ?_⟩, by decide +kernel, everySilent_silentCheck,
    by decide +kernel, by decide +kernel⟩
  intro trades hmem
  have hnone := List.all_eq_true.mp hops _ hmem
  cases hnone

end Poma

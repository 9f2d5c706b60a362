import Poma.Correctness.Replacement

/-!
# The restore scan and the rows that own open orders

Before the rows of a pass are followed, the scan decides for every open order
whether the ledger knows it, by the first row it lists under its reference. A
row that owns the order by a reserved reference is not looked at, although the
pass itself would adopt it.
-/

namespace Poma

open Interaction

/-- A row that accounts for an open order: open itself, for the same instrument, with the order
as its own or as its reserved replacement. -/
structure OrderLedgerEntry.Accounts (row : OrderLedgerEntry) (snapshot : OpenOrderSnapshot) :
    Prop where
  isOpen : row.isTerminal = false
  ticker : row.ticker = snapshot.ticker
  side : row.side = snapshot.side
  ref : row.orderRef = snapshot.orderRef.getD "" ∨
    row.reservedRef = some (snapshot.orderRef.getD "")

/-- An order some row of the ledger accounts for. -/
def OrderStore.Accounts (store : OrderStore) (snapshot : OpenOrderSnapshot) : Prop :=
  ∃ row ∈ store.entries, row.Accounts snapshot

/-- An order whose first row, in the order in which the ledger lists them, accounts for it under its
reference. -/
def OrderStore.OwnsFirst (store : OrderStore) (snapshot : OpenOrderSnapshot) : Prop :=
  ∃ row, store.entries.find? (·.orderRef = snapshot.orderRef.getD "") = some row ∧
    row.Accounts snapshot

/-- In a new process an order is owned by the first open row of its reference, by key: no terminal row
is listed before it. -/
theorem OrderStore.ownsFirst_reopened_iff {store : OrderStore} {snapshot : OpenOrderSnapshot} :
    store.reopened.OwnsFirst snapshot ↔
      ∃ row, store.openSnapshot.find? (·.orderRef = snapshot.orderRef.getD "") = some row ∧
        row.ticker = snapshot.ticker ∧ row.side = snapshot.side := by
  show (∃ row, (store.openSnapshot ++ store.closedLog).find? _ = some row ∧ _) ↔ _
  rw [List.find?_append]
  cases hopen : store.openSnapshot.find? (·.orderRef = snapshot.orderRef.getD "") with
  | some row =>
    have hmem : row ∈ store.loadOpenOrders :=
      (List.mem_insertionSort _).mp (List.mem_of_find?_eq_some hopen)
    have href : row.orderRef = snapshot.orderRef.getD "" := by simpa using List.find?_some hopen
    constructor
    · rintro ⟨_, ⟨⟩, haccounts⟩
      exact ⟨row, rfl, haccounts.ticker, haccounts.side⟩
    · rintro ⟨_, ⟨⟩, hticker, hside⟩
      exact ⟨row, rfl, (OrderStore.mem_loadOpenOrders.mp hmem).2, hticker, hside, Or.inl href⟩
  | none =>
    constructor
    · rintro ⟨row, hclosed, haccounts⟩
      -- what the event log has beside the snapshot is terminal, and accounts for nothing
      have hmem := (OrderStore.closedLog_perm store).mem_iff.mp (List.mem_of_find?_eq_some hclosed)
      have hterminal : row.isTerminal = true := (List.mem_filter.mp hmem).2
      rw [haccounts.isOpen] at hterminal
      cases hterminal
    · rintro ⟨_, ⟨⟩, _⟩

/-- One turn of the scan, from a ledger it has reached. -/
def scanTurn (store : OrderStore) (snapshot : OpenOrderSnapshot)
    (recovered : List OrderLedgerEntry) (cs : List Oracle) :
    Run sig (World Unit) (List OrderLedgerEntry) :=
  openWorld.run (restoreLoop store [snapshot] recovered) cs (World.of store)

/-- An order whose turn neither raises nor changes the ledger, whatever it is answered. -/
def UndisturbedBy (store : OrderStore) (snapshot : OpenOrderSnapshot) : Prop :=
  ∀ recovered cs, (∀ e, (scanTurn store snapshot recovered cs).outcome ≠ .raised e) ∧
    (scanTurn store snapshot recovered cs).state.ledger = store

/-- The ledgers a scan over some snapshots can leave when it does not raise. -/
inductive ScanLeaves : OrderStore → List OpenOrderSnapshot → OrderStore → Prop
  | done (store : OrderStore) : ScanLeaves store [] store
  | known {store after : OrderStore} {snapshot : OpenOrderSnapshot} {rest : List OpenOrderSnapshot}
      (h : restoreDecision store snapshot = .known) (hrest : ScanLeaves store rest after) :
      ScanLeaves store (snapshot :: rest) after
  | restored {store after : OrderStore} {snapshot : OpenOrderSnapshot}
      {rest : List OpenOrderSnapshot} {entryAt : ℚ → OrderLedgerEntry} (submitted now : ℚ)
      (h : restoreDecision store snapshot = .restore entryAt)
      (hopen : ((entryAt submitted).withSnapshot snapshot now).isTerminal = false)
      (hrest : ScanLeaves (store.upsert ((entryAt submitted).withSnapshot snapshot now)) rest
        after) : ScanLeaves store (snapshot :: rest) after

/-- A scan comes to a snapshot of the list with the ledger it has by then. -/
def ScanMeets (store : OrderStore) (snapshots : List OpenOrderSnapshot)
    (snapshot : OpenOrderSnapshot) (at' : OrderStore) : Prop :=
  ∃ before after, snapshots = before ++ snapshot :: after ∧ ScanLeaves store before at'

/-- The scan and the adoption agree on a ledger and a list of open orders: an order that a row
accounts for disturbs no turn, a pass that ends has an update for every open row, and a pass is
aborted only at an order that no row accounts for. -/
structure RestoreAgrees (manager : ExecutionManager) (store : OrderStore)
    (openOrders : List OpenOrderSnapshot) : Prop where
  undisturbed : ∀ snapshot known,
    ScanMeets store (ExecutionManager.referenced openOrders) snapshot known →
    known.Accounts snapshot → UndisturbedBy known snapshot
  covers : ∀ cs : List Oracle,
    (∀ c ∈ cs, c.answer (.broker .fetchOpenOrderSnapshots) = .ok openOrders) →
    ∀ summary, (openWorld.run manager.reconcile cs (World.of store)).outcome = .returned summary →
    ∀ entry ∈ store.loadOpenOrders, ∃ update ∈ summary.updates,
      update.entry.ledgerKey = entry.ledgerKey
  aborted : ∀ cs : List Oracle,
    (∀ c ∈ cs, c.answer (.broker .fetchOpenOrderSnapshots) = .ok openOrders) →
    ∀ e, (openWorld.run manager.reconcile cs (World.of store)).outcome = .raised e →
    ∃ snapshot known, ScanMeets store (ExecutionManager.referenced openOrders) snapshot known ∧
      ¬known.Accounts snapshot

theorem ScanMeets.cons_known {store known : OrderStore} {first snapshot : OpenOrderSnapshot}
    {rest : List OpenOrderSnapshot} (h : restoreDecision store first = .known)
    (hm : ScanMeets store rest snapshot known) : ScanMeets store (first :: rest) snapshot known := by
  obtain ⟨before, after, rfl, hleaves⟩ := hm
  exact ⟨first :: before, after, rfl, .known h hleaves⟩

theorem ScanMeets.cons_restored {store known : OrderStore} {first snapshot : OpenOrderSnapshot}
    {rest : List OpenOrderSnapshot} {entryAt : ℚ → OrderLedgerEntry} {submitted now : ℚ}
    (h : restoreDecision store first = .restore entryAt)
    (hopen : ((entryAt submitted).withSnapshot first now).isTerminal = false)
    (hm : ScanMeets (store.upsert ((entryAt submitted).withSnapshot first now)) rest snapshot
      known) : ScanMeets store (first :: rest) snapshot known := by
  obtain ⟨before, after, rfl, hleaves⟩ := hm
  exact ⟨first :: before, after, rfl, .restored submitted now h hopen hleaves⟩

/-- The scan takes an order for known exactly when its first row accounts for it. -/
theorem restoreDecision_known_iff {store : OrderStore} {snapshot : OpenOrderSnapshot} :
    restoreDecision store snapshot = .known ↔ store.OwnsFirst snapshot := by
  unfold restoreDecision OrderStore.OwnsFirst
  dsimp only
  cases hfind : store.entries.find? (·.orderRef = snapshot.orderRef.getD "") with
  | some row =>
    have href : row.orderRef = snapshot.orderRef.getD "" := by simpa using List.find?_some hfind
    dsimp only
    split
    · rename_i hdisagrees
      constructor
      · intro h
        cases h
      rintro ⟨_, ⟨⟩, haccounts⟩
      rcases hdisagrees with hticker | hside | hterminal
      · exact absurd haccounts.ticker hticker
      · exact absurd haccounts.side hside
      · rw [haccounts.isOpen] at hterminal
        cases hterminal
    · rename_i hagrees
      obtain ⟨hticker, hrest⟩ := not_or.mp hagrees
      obtain ⟨hside, hopen⟩ := not_or.mp hrest
      exact ⟨fun _ => ⟨row, rfl, Bool.eq_false_iff.mpr hopen, not_not.mp hticker,
        not_not.mp hside, Or.inl href⟩, fun _ => rfl⟩
  | none =>
    dsimp only
    refine ⟨fun h => ?_, fun ⟨_, h, _⟩ => by cases h⟩
    split at h
    · cases h
    split at h
    · cases h
    split at h <;> cases h

/-- A turn is undisturbed exactly when the scan takes its order for known. -/
theorem undisturbedBy_iff {store : OrderStore} {snapshot : OpenOrderSnapshot} :
    UndisturbedBy store snapshot ↔ restoreDecision store snapshot = .known := by
  unfold UndisturbedBy scanTurn
  cases hdecision : restoreDecision store snapshot with
  | known =>
    refine ⟨fun _ => rfl, fun _ recovered cs => ?_⟩
    simp [restoreLoop, hdecision, System.run, World.of]
  | conflict e =>
    refine ⟨fun h => ?_, fun h => by cases h⟩
    have hraised := (h [] []).1 e
    simp [restoreLoop, hdecision, System.run, raise] at hraised
  | restore entryAt =>
    refine ⟨fun h => ?_, fun h => by cases h⟩
    have hwp := (openWorld.wp_iff_run (restoreLoop store [snapshot] []) (fun out _ s =>
      (∀ e, out ≠ .raised e) ∧ s.ledger = store) [] (World.of store)).mpr (h [])
    obtain ⟨hrefs, _, runId, hentry⟩ := restoreDecision_restore hdecision
    unfold openWorld at hwp
    simp only [restoreLoop, hdecision, System.wp_bind, wp_utcNow, System.seq_returned] at hwp
    have hturn := (hwp.2 (default : Oracle)).2 (default : Oracle)
    split at hturn
    · exact absurd rfl (hturn.1 _)
    · simp only [System.wp_bind, wp_upsertEntry, System.seq_returned] at hturn
      -- the restored row carries a reference no row of the ledger has
      have hstore : store.upsert ((entryAt 0).withSnapshot snapshot 0) = store :=
        (hturn.2 (default : Oracle)).2
      have hlatest : (store.upsert ((entryAt 0).withSnapshot snapshot 0)).latest
          (entryAt 0).ledgerKey = some ((entryAt 0).withSnapshot snapshot 0) :=
        OrderStore.latest_upsert_of_eq rfl
      rw [hstore] at hlatest
      refine absurd ?_ (hrefs _ (OrderStore.latest_mem hlatest))
      rw [hentry]
      rfl

/-- The rows that are open stay open under their keys. -/
def KeepsOpen (store after : OrderStore) : Prop :=
  ∀ entry ∈ store.loadOpenOrders, ∃ row ∈ after.loadOpenOrders,
    row.ledgerKey = entry.ledgerKey

theorem KeepsOpen.upsert {store after : OrderStore} (h : KeepsOpen store after)
    {entry : OrderLedgerEntry} (hopen : entry.isTerminal = false) :
    KeepsOpen store (after.upsert entry) := by
  intro old hold
  obtain ⟨row, hrow, hkey⟩ := h old hold
  obtain ⟨hmem, hrowopen⟩ := OrderStore.mem_loadOpenOrders.mp hrow
  by_cases hsame : entry.ledgerKey = row.ledgerKey
  · have hlatest : (after.upsert entry).latest row.ledgerKey = some entry :=
      OrderStore.latest_upsert_of_eq hsame
    exact ⟨entry, OrderStore.mem_loadOpenOrders.mpr ⟨OrderStore.latest_mem hlatest, hopen⟩,
      hsame.trans hkey⟩
  · have hlatest : (after.upsert entry).latest row.ledgerKey = some row :=
      (OrderStore.latest_upsert_of_ne hsame).trans (OrderStore.latest_of_mem hmem)
    exact ⟨row, OrderStore.mem_loadOpenOrders.mpr ⟨OrderStore.latest_mem hlatest, hrowopen⟩, hkey⟩

section Passes

variable {W : Type} (E : Environment W) {manager : ExecutionManager}

/-- The scan keeps the open rows, and raises only at an order it meets and does not know. -/
theorem wp_restoreLoop_meets (snapshots : List OpenOrderSnapshot) :
    ∀ (recovered : List OrderLedgerEntry) (τ : List (Event sig)) (s : World W),
      E.system.wp (restoreLoop s.ledger snapshots recovered) (fun out _ s' =>
        KeepsOpen s.ledger s'.ledger ∧ ∀ e, out = .raised e → ∃ snapshot known,
          ScanMeets s.ledger snapshots snapshot known ∧ restoreDecision known snapshot ≠ .known)
        τ s := by
  induction snapshots with
  | nil => exact fun recovered τ s => ⟨fun entry h => ⟨entry, h, rfl⟩, by simp⟩
  | cons first rest ih =>
    intro recovered τ s
    have hkeep : KeepsOpen s.ledger s.ledger := fun entry h => ⟨entry, h, rfl⟩
    have hhere : restoreDecision s.ledger first ≠ .known → ∃ snapshot known,
        ScanMeets s.ledger (first :: rest) snapshot known ∧
          restoreDecision known snapshot ≠ .known :=
      fun h => ⟨first, s.ledger, ⟨[], rest, rfl, .done _⟩, h⟩
    rw [restoreLoop]
    cases hdecision : restoreDecision s.ledger first with
    | known =>
      refine E.system.wp_mono (ih recovered τ s) fun out _ _ h => ⟨h.1, fun e he => ?_⟩
      obtain ⟨snapshot, known, hmeets, hunknown⟩ := h.2 e he
      exact ⟨snapshot, known, hmeets.cons_known hdecision, hunknown⟩
    | conflict e => exact ⟨hkeep, fun _ _ => hhere (by rw [hdecision]; simp)⟩
    | restore entryAt =>
      have hraise := hhere (by rw [hdecision]; simp)
      simp only [System.wp_bind, wp_utcNow, System.seq_stopped, System.seq_returned]
      refine ⟨⟨hkeep, by simp⟩, fun c => ⟨⟨hkeep, by simp⟩, fun c' => ?_⟩⟩
      split
      · exact ⟨hkeep, fun _ _ => hraise⟩
      · rename_i hterminal
        have hopen := Bool.eq_false_iff.mpr hterminal
        simp only [System.wp_bind, wp_upsertEntry, System.seq_stopped, System.seq_returned]
        refine ⟨⟨hkeep, by simp⟩, fun _ => ?_⟩
        refine E.system.wp_mono (ih _ _ { s with ledger := s.ledger.upsert _ })
          fun out _ s' h => ⟨fun entry hentry => ?_, fun e he => ?_⟩
        · obtain ⟨row, hrow, hkey⟩ := hkeep.upsert hopen entry hentry
          obtain ⟨row', hrow', hkey'⟩ := h.1 row hrow
          exact ⟨row', hrow', hkey'.trans hkey⟩
        · obtain ⟨snapshot, known, hmeets, hunknown⟩ := h.2 e he
          exact ⟨snapshot, known, hmeets.cons_restored hdecision hopen, hunknown⟩

/-- The loop of a pass returns one update for every row it is given. -/
theorem wp_handleEntries_covers (hB : manager.broker.Within Op.KeepsLedger)
    (openSnapshots : List OpenOrderSnapshot) (history : Except Exn (List OpenOrderSnapshot))
    (recovered : List OrderLedgerEntry) (now : ℚ) (entries : List OrderLedgerEntry)
    (τ : List (Event sig)) (s : World W) :
    E.system.wp (Prog.collect (manager.handleEntry openSnapshots history recovered now) entries)
      (fun out _ _ => ∀ updates, out = .returned updates →
        updates.map (·.entry.ledgerKey) = entries.map (·.ledgerKey)) τ s := by
  refine E.system.wp_collect (fun rest updates _ _ =>
    updates.map (·.entry.ledgerKey) ++ rest.map (·.ledgerKey) = entries.map (·.ledgerKey)) ?_ ?_ rfl
  · intro entry rest updates τ s hkeys
    have hmeets : (manager.handleEntry openSnapshots history recovered now entry).Meets (S := sig)
        (fun _ _ => True) (fun _ => True) fun update =>
          update.entry.ledgerKey = entry.ledgerKey :=
      (meets_handleEntry (handlingMeets_of_within hB (fun _ _ => trivial)
        fun _ _ => trivial)).mono (fun _ _ => trivial) fun _ => Reports.ledgerKey
    refine E.system.wp_mono (E.system.wp_of_meets (I := fun _ _ => True) hmeets
      (fun _ _ _ _ _ _ => ⟨trivial, trivial⟩) trivial) fun out _ _ h => ?_
    cases out with
    | returned update =>
      have hkey := h.2 update rfl
      dsimp only
      rw [List.map_append, List.append_assoc, ← hkeys, List.map_cons]
      simp [hkey]
    | raised e => exact nofun
    | stopped => exact nofun
  · rintro updates τ s hkeys result hresult
    obtain rfl := Outcome.returned.inj hresult
    simpa using hkeys

/-- A pass after its open-order query covers the open rows, and raises only in the scan. -/
theorem wp_reconcileOpenOrders_covers (hB : manager.broker.Within Op.KeepsLedger)
    (hibkr : manager.broker.isIbkr = true) (openSnapshots : List OpenOrderSnapshot)
    (τ : List (Event sig)) (s : World W) :
    E.system.wp (manager.reconcileOpenOrders openSnapshots) (fun out _ _ =>
      (∀ summary, out = .returned summary → ∀ entry ∈ s.ledger.loadOpenOrders,
        ∃ update ∈ summary.updates, update.entry.ledgerKey = entry.ledgerKey) ∧
      ∀ e, out = .raised e → ∃ snapshot known, ScanMeets s.ledger openSnapshots snapshot known ∧
        restoreDecision known snapshot ≠ .known) τ s := by
  unfold ExecutionManager.reconcileOpenOrders
  rw [hibkr, if_pos rfl]
  have hscan : E.system.wp (restoreUntrackedBrokerOrders openSnapshots) (fun out _ s' =>
      KeepsOpen s.ledger s'.ledger ∧ ∀ e, out = .raised e → ∃ snapshot known,
        ScanMeets s.ledger openSnapshots snapshot known ∧ restoreDecision known snapshot ≠ .known)
      τ s := by
    rw [restoreUntrackedBrokerOrders, System.wp_bind, wp_loadLatest]
    exact ⟨⟨fun entry h => ⟨entry, h, rfl⟩, by simp⟩, fun _ => wp_restoreLoop_meets E _ _ _ s⟩
  refine E.system.wp_seq hscan ?_ (fun e τ' s' h => ⟨by simp, fun _ _ => h.2 e rfl⟩)
    fun _ _ _ => ⟨by simp, by simp⟩
  rintro recovered τ₁ s₁ ⟨hkeep, _⟩
  rw [System.wp_bind, wp_loadLatest]
  refine ⟨⟨by simp, by simp⟩, fun _ => ?_⟩
  rw [System.seq_returned]
  dsimp only
  split
  · rename_i hnone
    refine ⟨fun summary _ entry hentry => ?_, by simp⟩
    obtain ⟨row, hrow, _⟩ := hkeep entry hentry
    rw [hnone] at hrow
    cases hrow
  · refine E.system.wp_seq (wp_completedSnapshots E hB _ _ _ s₁) ?_
      (fun e _ _ h => absurd rfl (h.2 e)) fun _ _ _ => ⟨by simp, by simp⟩
    rintro history τ₂ s₂ _
    rw [System.wp_bind, wp_utcNow]
    refine ⟨⟨by simp, by simp⟩, fun c => ?_⟩
    rw [System.seq_returned]
    refine E.system.wp_seq (E.system.wp_and
      (wp_handleEntries_covers E hB openSnapshots history recovered (E.clock c s₂.outside)
        s₁.ledger.loadOpenOrders _ s₂)
      (wp_collect_returns E fun b τ s => wp_handleEntry_returns E manager openSnapshots history
        recovered _ b τ s)) ?_ (fun e _ _ h => absurd rfl (h.2 e)) fun _ _ _ => ⟨by simp, by simp⟩
    rintro updates τ₃ s₃ ⟨hkeys, _⟩
    refine ⟨fun summary hsummary entry hentry => ?_, by simp⟩
    obtain rfl := Outcome.returned.inj hsummary
    obtain ⟨row, hrow, hkey⟩ := hkeep entry hentry
    have hmem : row.ledgerKey ∈ updates.map (·.entry.ledgerKey) :=
      hkeys updates rfl ▸ List.mem_map_of_mem hrow
    obtain ⟨update, hupdate, hupdatekey⟩ := List.mem_map.mp hmem
    exact ⟨update, hupdate, hupdatekey.trans hkey⟩

end Passes

/-- The scan and the adoption agree exactly when every order the scan meets, and some row accounts
for, is accounted for by the first row listed under its reference. -/
theorem restore_agrees_iff (settings : Settings) (hasReplacement hasHistory : Bool)
    (store : OrderStore) (openOrders : List OpenOrderSnapshot) :
    RestoreAgrees (protocolManager settings true hasReplacement hasHistory) store openOrders ↔
      ∀ snapshot known, ScanMeets store (ExecutionManager.referenced openOrders) snapshot known →
        known.Accounts snapshot → known.OwnsFirst snapshot := by
  constructor
  · intro h snapshot known hmeets haccounts
    exact restoreDecision_known_iff.mp (undisturbedBy_iff.mp
      (h.undisturbed snapshot known hmeets haccounts))
  · intro h
    have hpass : (openEnvironment.restrict fun c =>
        c.answer (.broker .fetchOpenOrderSnapshots) = .ok openOrders).system.wp
        (protocolManager settings true hasReplacement hasHistory).reconcile (fun out _ _ =>
          (∀ summary, out = .returned summary → ∀ entry ∈ store.loadOpenOrders,
            ∃ update ∈ summary.updates, update.entry.ledgerKey = entry.ledgerKey) ∧
          ∀ e, out = .raised e → ∃ snapshot known,
            ScanMeets store (ExecutionManager.referenced openOrders) snapshot known ∧
            restoreDecision known snapshot ≠ .known) [] (World.of store) := by
      unfold ExecutionManager.reconcile
      rw [System.wp_bind, wp_loadLatest]
      refine ⟨⟨nofun, nofun⟩, fun _ => ?_⟩
      rw [System.seq_returned, if_neg fun hempty => by cases hempty.2]
      refine System.wp_seq _ (System.wp_and _ (wp_askBroker_ok (fun _ hc => hc) _ (World.of store))
        (wp_keepsLedger _ protocolManager_within.openOrders _ (World.of store))) ?_
        (fun e _ _ hraised => absurd rfl (hraised.1.2 e)) fun _ _ _ => ⟨nofun, nofun⟩
      rintro fetched τ₁ s₁ ⟨⟨hfetched, _⟩, hstore⟩
      obtain rfl := hfetched fetched rfl
      obtain rfl : s₁.ledger = store := hstore
      exact wp_reconcileOpenOrders_covers _ protocolManager_within rfl _ _ _
    refine ⟨fun snapshot known hmeets haccounts => undisturbedBy_iff.mpr
      (restoreDecision_known_iff.mpr (h snapshot known hmeets haccounts)), ?_, ?_⟩
    · intro cs hcs summary hsummary
      exact (System.wp_restrict_run openWorld hpass hcs).1 summary hsummary
    · intro cs hcs e he
      obtain ⟨snapshot, known, hmeets, hunknown⟩ :=
        (System.wp_restrict_run openWorld hpass hcs).2 e he
      exact ⟨snapshot, known, hmeets, fun haccounts =>
        hunknown (restoreDecision_known_iff.mpr (h snapshot known hmeets haccounts))⟩

/-- The replacement, working at the broker. -/
def workingReplacement : OpenOrderSnapshot where
  orderRef := some "poma:run:0:VOO:BUY:r1"
  orderId := some 8
  permId := some 80
  ticker := "VOO"
  side := .buy
  rawStatus := "Submitted"
  filled := 0
  remaining := 10
  avgFillPrice := none

/-- The scan aborts the pass on a working replacement that its row has reserved. -/
theorem restore_disagrees_on_reserved_replacement :
    ¬RestoreAgrees (protocolManager .unset true true false) reservedLedger [workingReplacement] := by
  intro h
  have hmeets : ScanMeets reservedLedger (ExecutionManager.referenced [workingReplacement])
      workingReplacement reservedLedger := ⟨[], [], by decide +kernel, .done _⟩
  have haccounts : reservedLedger.Accounts workingReplacement :=
    ⟨reservedRow, List.mem_singleton_self _, rfl, rfl, rfl, Or.inr (by decide +kernel)⟩
  have hknown := undisturbedBy_iff.mp (h.undisturbed _ _ hmeets haccounts)
  obtain ⟨row, hrow, _⟩ := restoreDecision_known_iff.mp hknown
  have hnone : reservedLedger.entries.find?
      (·.orderRef = workingReplacement.orderRef.getD "") = none := by decide +kernel
  rw [hnone] at hrow
  cases hrow

end Poma

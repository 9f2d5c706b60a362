import Poma.Correctness.Successor

/-!
# Passes over the ledger, row by row

Handling a row records rows of the same order only, so the rows of a pass do not
interfere. What holds of one row around its own turn therefore holds of it
around the pass, and the restore scan before it adds rows without touching any
row it knows.
-/

namespace Poma

open Interaction

/-- The identity of a row: what no transition of it changes. -/
structure SameOrder (entry x : OrderLedgerEntry) : Prop where
  ledgerKey : x.ledgerKey = entry.ledgerKey
  runId : x.runId = entry.runId
  sessionDate : x.sessionDate = entry.sessionDate
  ticker : x.ticker = entry.ticker
  side : x.side = entry.side
  quantity : x.quantity = entry.quantity

theorem SameOrder.refl (entry : OrderLedgerEntry) : SameOrder entry entry :=
  ⟨rfl, rfl, rfl, rfl, rfl, rfl⟩

theorem SameOrder.trans {a b c : OrderLedgerEntry} (hab : SameOrder a b) (hbc : SameOrder b c) :
    SameOrder a c :=
  ⟨hbc.ledgerKey.trans hab.ledgerKey, hbc.runId.trans hab.runId,
    hbc.sessionDate.trans hab.sessionDate, hbc.ticker.trans hab.ticker, hbc.side.trans hab.side,
    hbc.quantity.trans hab.quantity⟩

theorem OrderLedgerEntry.replacedBy_sameOrder (entry : OrderLedgerEntry) (ref : String)
    (snapshot : OpenOrderSnapshot) (newLimit : ℚ) (metadata : Option QuoteMetadata)
    (now stamp : ℚ) :
    SameOrder entry (entry.replacedBy ref snapshot newLimit metadata now stamp) := by
  cases metadata <;> exact ⟨rfl, rfl, rfl, rfl, rfl, rfl⟩

theorem Followed.sameOrder {entry u : OrderLedgerEntry} {snapshot : OpenOrderSnapshot}
    (h : Followed entry snapshot u) : SameOrder entry u := by
  cases h <;> exact ⟨rfl, rfl, rfl, rfl, rfl, rfl⟩

theorem Acted.sameOrder {replies : OpenOrderSnapshot → Prop} {u x : OrderLedgerEntry}
    (h : Acted replies u x) : SameOrder u x := by
  cases h with
  | replaced h reply hs newLimit metadata now stamp =>
    have hintent : SameOrder u u.replaceIntent := ⟨rfl, rfl, rfl, rfl, rfl, rfl⟩
    exact hintent.trans (u.replaceIntent.replacedBy_sameOrder _ reply newLimit metadata now stamp)
  | _ => exact ⟨rfl, rfl, rfl, rfl, rfl, rfl⟩

/-- A successor is a row of the same order. -/
theorem Successor.sameOrder {replies : OpenOrderSnapshot → Prop} {entry x : OrderLedgerEntry}
    {openSnapshots completed : List OpenOrderSnapshot}
    (h : Successor replies entry openSnapshots completed x) : SameOrder entry x := by
  cases h with
  | followed snapshot u h hu => exact hu.sameOrder
  | acted snapshot u x h hu hrecovered hworking hid hx => exact hu.sameOrder.trans hx.sameOrder
  | resumed snapshot seen ref h href hcancelled reply hreply newLimit metadata now stamp =>
    have hseen : SameOrder entry (entry.withSnapshot snapshot seen).reopened :=
      ⟨rfl, rfl, rfl, rfl, rfl, rfl⟩
    exact hseen.trans (OrderLedgerEntry.replacedBy_sameOrder _ ref reply newLimit metadata now
      stamp)
  | _ => exact ⟨rfl, rfl, rfl, rfl, rfl, rfl⟩

/-- The methods a reconcile pass and a stale-order check call use only these operations. -/
structure Broker.Within (B : Broker) (allowed : Op → Prop) : Prop where
  openOrders : B.fetchOpenOrderSnapshots.Uses (S := sig) allowed
  completed : ∀ fetch, B.fetchCompletedOrderSnapshots = some fetch →
    fetch.Uses (S := sig) allowed
  ibkrCompleted : ∀ wanted unresolved,
    (B.fetchIbkrCompletedOrderSnapshots wanted unresolved).Uses (S := sig) allowed
  quotes : ∀ tickers, (B.executionQuotes tickers).Uses (S := sig) allowed
  cancel : ∀ orderId, (B.cancelOrder orderId).Uses (S := sig) allowed
  replace : ∀ request, (B.replaceOrder request).Uses (S := sig) allowed
  submit : ∀ submit request, B.submitReplacement = some submit →
    (submit request).Uses (S := sig) allowed

theorem Broker.Within.mono {B : Broker} {allowed more : Op → Prop} (h : B.Within allowed)
    (hmore : ∀ o, allowed o → more o) : B.Within more where
  openOrders := h.openOrders.mono hmore
  completed fetch hf := (h.completed fetch hf).mono hmore
  ibkrCompleted wanted unresolved := (h.ibkrCompleted wanted unresolved).mono hmore
  quotes tickers := (h.quotes tickers).mono hmore
  cancel orderId := (h.cancel orderId).mono hmore
  replace request := (h.replace request).mono hmore
  submit submit request hs := (h.submit submit request hs).mono hmore

/-- Every method of the protocol broker is one operation of its own; none of these submits. -/
theorem protocolBroker_within (isIbkr hasReplacement hasHistory : Bool) {allowed : Op → Prop}
    (h : ∀ call, (∀ trades, call ≠ .submitTrades trades) → allowed (.broker call)) :
    (protocolBroker isIbkr hasReplacement hasHistory).Within allowed where
  openOrders := Prog.uses_perform (h _ nofun)
  completed fetch hf := by
    cases hasHistory with
    | true =>
      obtain rfl := Option.some.inj hf
      exact Prog.uses_perform (S := sig) (h _ nofun)
    | false => cases hf
  ibkrCompleted _ _ := Prog.uses_perform (h _ nofun)
  quotes _ := Prog.uses_perform (h _ nofun)
  cancel _ := Prog.uses_perform (h _ nofun)
  replace _ := Prog.uses_perform (h _ nofun)
  submit submit _ hs := by
    cases hasReplacement with
    | true =>
      obtain rfl := Option.some.inj hs
      exact Prog.uses_perform (S := sig) (h _ nofun)
    | false => cases hs

/-- An operation that does not record the row of a key. -/
def Op.Spares (key : String) (o : Op) : Prop := ∀ x, o = .upsert x → x.ledgerKey ≠ key

theorem Op.spares_of_keepsLedger {key : String} {o : Op} (h : o.KeepsLedger) : o.Spares key := by
  rintro x rfl
  exact h.elim

/-- Handling a row by a broker that leaves the ledger alone records its successors only. -/
theorem handlingMeets_of_within {manager : ExecutionManager}
    (hB : manager.broker.Within Op.KeepsLedger)
    {guarantee : Op → Prop} (hkeep : ∀ o, o.KeepsLedger → guarantee o)
    {entry : OrderLedgerEntry} {openSnapshots completed : List OpenOrderSnapshot}
    (hrecord : ∀ x, Successor (fun _ => True) entry openSnapshots completed x →
      guarantee (.upsert x)) :
    HandlingMeets manager (fun _ _ => True) guarantee (fun _ _ => True) (fun _ => True) entry
      openSnapshots completed where
  load := hkeep _ trivial
  clock := hkeep _ trivial
  quotes tickers := (hB.quotes tickers).mono hkeep
  cancel _ _ orderId _ _ _ _ _ _ := (hB.cancel orderId).mono hkeep
  replace _ _ request _ _ _ _ _ := (hB.replace request).mono hkeep
  submit submit request _ _ hs _ _ _ _ := (hB.submit submit request hs).mono hkeep
  record := hrecord

/-- Handling a row spares the rows of all other keys. -/
theorem handleEntry_spares {manager : ExecutionManager}
    (hB : manager.broker.Within Op.KeepsLedger) {openSnapshots : List OpenOrderSnapshot}
    {history : Except Exn (List OpenOrderSnapshot)} {recovered : List OrderLedgerEntry} {now : ℚ}
    {entry : OrderLedgerEntry} {key : String} (hkey : entry.ledgerKey ≠ key) :
    (manager.handleEntry openSnapshots history recovered now entry).Uses (S := sig)
      (Op.Spares key) := by
  refine (meets_handleEntry (handlingMeets_of_within hB (fun o => Op.spares_of_keepsLedger)
    ?_)).mono (fun _ ho => ho) fun _ _ => trivial
  rintro x hx y ⟨⟩
  rw [hx.sameOrder.ledgerKey]
  exact hkey

/-- The update of a turn is about the row of the turn. -/
theorem Reports.ledgerKey {replies : OpenOrderSnapshot → Prop} {entry : OrderLedgerEntry}
    {openSnapshots completed : List OpenOrderSnapshot}
    {rely : (o : Op) → Except Exn o.Ans → Prop} {update : ReconcileUpdate}
    (h : Reports replies entry openSnapshots completed update ∨ Reloaded rely entry update) :
    update.entry.ledgerKey = entry.ledgerKey := by
  rcases h with (hsame | hsuccessor) | ⟨store, _, hreloaded⟩
  · rw [hsame]
  · exact hsuccessor.sameOrder.ledgerKey
  · rw [hreloaded, OrderStore.get_eq]
    cases hlatest : store.latest entry.ledgerKey with
    | none => rfl
    | some row =>
      have hkey := OrderStore.latest_key hlatest
      cases hterminal : row.isTerminal <;> simp [Option.filter, hterminal, hkey]

/-- The restore scan reads the ledger and the clock and records restored orders. -/
theorem restoreUntrackedBrokerOrders_uses {allowed : Op → Prop} (hload : allowed .loadLatestEntries)
    (hclock : allowed .utcNow)
    (hrestored : ∀ known snapshot entryAt submitted now,
      restoreDecision known snapshot = .restore entryAt →
        allowed (.upsert ((entryAt submitted).withSnapshot snapshot now)))
    (snapshots : List OpenOrderSnapshot) :
    (restoreUntrackedBrokerOrders snapshots).Uses (S := sig) allowed := by
  have hloop : ∀ (known : OrderStore) (recovered : List OrderLedgerEntry),
      (restoreLoop known snapshots recovered).Uses (S := sig) allowed := by
    induction snapshots with
    | nil => exact fun _ _ => trivial
    | cons snapshot rest ih =>
      intro known recovered
      rw [restoreLoop]
      cases hdecision : restoreDecision known snapshot with
      | known => exact ih known recovered
      | conflict e => trivial
      | restore entryAt =>
        refine Prog.uses_bind (Prog.uses_perform hclock) fun submitted =>
          Prog.uses_bind (Prog.uses_perform hclock) fun now => ?_
        dsimp only
        split
        · trivial
        · exact Prog.uses_bind (Prog.uses_perform
            (hrestored known snapshot entryAt submitted now hdecision)) fun _ => ih _ _
  exact Prog.uses_bind (Prog.uses_perform hload) fun known => hloop known []

/-- What a pass does, from what its two queries return and from what each turn does on the rows
that are read. -/
theorem reconcile_meets_of {manager : ExecutionManager}
    {rely : (o : Op) → Except Exn o.Ans → Prop} {guarantee : Op → Prop}
    {R : OrderLedgerEntry → Prop} {O : List OpenOrderSnapshot → Prop}
    {H : List OpenOrderSnapshot → Except Exn (List OpenOrderSnapshot) → Prop}
    (hload : guarantee .loadLatestEntries) (hclock : guarantee .utcNow)
    (hread : ∀ store : OrderStore, rely .loadLatestEntries (.ok store) → ∀ row ∈ store.entries, R row)
    (hrestored : ∀ known snapshot entryAt submitted now,
      restoreDecision known snapshot = .restore entryAt →
        guarantee (.upsert ((entryAt submitted).withSnapshot snapshot now)))
    (hopen : manager.broker.fetchOpenOrderSnapshots.Meets (S := sig) rely guarantee fun fetched =>
      O (ExecutionManager.referenced fetched))
    (hhistory : ∀ entries openSnapshots, O openSnapshots →
      (manager.completedSnapshots entries openSnapshots).Meets (S := sig) rely guarantee
        (H openSnapshots))
    (hturn : ∀ openSnapshots history recovered now entry, O openSnapshots →
      H openSnapshots history → R entry → entry.isTerminal = false →
      (manager.handleEntry openSnapshots history recovered now entry).Meets (S := sig) rely
        guarantee fun _ => True) :
    manager.reconcile.Meets (S := sig) rely guarantee fun _ => True := by
  unfold ExecutionManager.reconcile
  refine Prog.meets_bind (meets_loadLatest hload) fun (store : OrderStore) _ => ?_
  split
  · trivial
  refine Prog.meets_bind hopen fun snapshots hsnapshots => ?_
  unfold ExecutionManager.reconcileOpenOrders
  refine Prog.meets_bind (α := List OrderLedgerEntry) (R := fun _ => True) (.of_uses ?_)
    fun recovered _ => ?_
  · split
    · exact restoreUntrackedBrokerOrders_uses hload hclock hrestored _
    · trivial
  refine Prog.meets_bind (meets_loadLatest hload) fun (store : OrderStore) hstore => ?_
  dsimp only
  split
  · trivial
  refine Prog.meets_bind (hhistory _ _ hsnapshots) fun history hcompleted => ?_
  refine Prog.meets_bind (meets_utcNow hclock) fun now _ => ?_
  refine Prog.meets_bind (R := fun updates => ∀ update ∈ updates, True)
    (Prog.meets_collect fun entry hmem => ?_) fun _ _ => trivial
  obtain ⟨hentry, hisOpen⟩ := OrderStore.mem_loadOpenOrders.mp hmem
  exact hturn _ _ _ _ entry hsnapshots hcompleted (hread store hstore entry hentry) hisOpen

/-- The history query uses the broker's operations only. -/
theorem completedHistory_uses {manager : ExecutionManager} {allowed : Op → Prop}
    (hcompleted : ∀ fetch, manager.broker.fetchCompletedOrderSnapshots = some fetch →
      fetch.Uses (S := sig) allowed)
    (hibkr : ∀ wanted unresolved,
      (manager.broker.fetchIbkrCompletedOrderSnapshots wanted unresolved).Uses (S := sig) allowed)
    (unmatched : List OrderLedgerEntry) :
    (manager.completedHistory unmatched).Uses (S := sig) allowed := by
  unfold ExecutionManager.completedHistory
  split
  · rename_i fetch hfetch
    exact hcompleted fetch hfetch
  · split
    · exact hibkr _ _
    · trivial

theorem completedSnapshots_uses {manager : ExecutionManager} {allowed : Op → Prop}
    (hcompleted : ∀ fetch, manager.broker.fetchCompletedOrderSnapshots = some fetch →
      fetch.Uses (S := sig) allowed)
    (hibkr : ∀ wanted unresolved,
      (manager.broker.fetchIbkrCompletedOrderSnapshots wanted unresolved).Uses (S := sig) allowed)
    (entries : List OrderLedgerEntry) (openSnapshots : List OpenOrderSnapshot) :
    (manager.completedSnapshots entries openSnapshots).Uses (S := sig) allowed := by
  unfold ExecutionManager.completedSnapshots
  dsimp only
  split
  · trivial
  refine Prog.uses_bind (Prog.uses_attempt (completedHistory_uses hcompleted hibkr _))
    fun result => by cases result <;> trivial

/-- A whole pass records restored orders and successors of the open rows it reads. -/
theorem reconcile_meets {manager : ExecutionManager} {rely : (o : Op) → Except Exn o.Ans → Prop}
    {guarantee : Op → Prop} {R : OrderLedgerEntry → Prop} (hB : manager.broker.Within guarantee)
    (hload : guarantee .loadLatestEntries) (hclock : guarantee .utcNow)
    (hread : ∀ store : OrderStore, rely .loadLatestEntries (.ok store) → ∀ row ∈ store.entries, R row)
    (hrestored : ∀ known snapshot entryAt submitted now,
      restoreDecision known snapshot = .restore entryAt →
        guarantee (.upsert ((entryAt submitted).withSnapshot snapshot now)))
    (hsuccessor : ∀ entry x openSnapshots completed, R entry →
      Successor (fun _ => True) entry openSnapshots completed x → guarantee (.upsert x)) :
    manager.reconcile.Meets (S := sig) rely guarantee fun _ => True :=
  reconcile_meets_of (O := fun _ => True) (H := fun _ _ => True) hload hclock hread hrestored
    (.of_uses hB.openOrders) (fun entries openSnapshots _ =>
      .of_uses (completedSnapshots_uses hB.completed hB.ibkrCompleted entries openSnapshots))
    fun openSnapshots _ _ _ entry _ _ hentry _ =>
      (meets_handleEntry (P := fun _ => True) (Q := fun _ _ => True) {
        load := hload
        clock := hclock
        quotes := fun tickers => .of_uses (hB.quotes tickers)
        cancel := fun _ _ orderId _ _ _ _ _ _ => .of_uses (hB.cancel orderId)
        replace := fun _ _ request _ _ _ _ _ => .of_uses (hB.replace request)
        submit := fun submit request _ _ hs _ _ _ _ => .of_uses (hB.submit submit request hs)
        record := fun x hx => hsuccessor entry x openSnapshots _ hentry hx }).mono
          (fun _ ho => ho) fun _ _ => trivial

/-- A whole pass uses the broker's operations, the ledger and the clock. -/
theorem reconcile_uses {manager : ExecutionManager} {allowed : Op → Prop}
    (hB : manager.broker.Within allowed) (hload : allowed .loadLatestEntries)
    (hclock : allowed .utcNow) (hrecord : ∀ x, allowed (.upsert x)) :
    manager.reconcile.Uses (S := sig) allowed :=
  reconcile_meets (R := fun _ => True) hB hload hclock (fun _ _ _ _ => trivial)
    (fun _ _ _ _ _ _ => hrecord _) fun _ x _ _ _ _ => hrecord x

/-- The decision over the open rows records requested cancellations of these rows only. -/
theorem checkOpenEntries_uses {manager : ExecutionManager} {allowed : Op → Prop}
    (hasked : ∀ orderId, (manager.broker.cancelOrder orderId).Uses (S := sig) allowed)
    {entries : List OrderLedgerEntry}
    (hcancelled : ∀ entry ∈ entries, ∀ label, entry.isRecovered = false → entry.orderId.isSome →
      allowed (.upsert (staleCancelled entry label)))
    (sessionDate runId : String) :
    (manager.checkOpenEntries entries sessionDate runId).Uses (S := sig) allowed := by
  have hcancel : ∀ label, ∀ entry ∈ entries,
      (manager.cancelStaleEntry label entry).Uses (S := sig) allowed := by
    intro label entry hmem
    unfold ExecutionManager.cancelStaleEntry
    split
    · trivial
    rename_i hrecovered
    cases hid : entry.orderId with
    | none => trivial
    | some orderId =>
      refine Prog.uses_bind (hasked orderId) fun requested => ?_
      cases requested with
      | false => trivial
      | true =>
        have hrecord := hcancelled entry hmem label (by simpa using hrecovered) (by rw [hid]; rfl)
        exact Prog.uses_bind (Prog.uses_perform (S := sig) hrecord) fun _ => trivial
  have hgroup : ∀ group label, (∀ entry ∈ group, entry ∈ entries) →
      (manager.checkGroup group label).Uses (S := sig) allowed := by
    intro group label hsub
    unfold ExecutionManager.checkGroup
    split
    · trivial
    split
    · exact Prog.uses_bind (Prog.uses_collect fun entry hmem => hcancel label entry (hsub entry hmem))
        fun _ => trivial
    · trivial
  exact Prog.uses_bind (hgroup _ _ fun entry h => List.mem_of_mem_filter h) fun _ =>
    Prog.uses_bind (hgroup _ _ fun entry h => List.mem_of_mem_filter h) fun _ => trivial

/-- A stale-order check refreshes the ledger and records requested cancellations. -/
theorem checkStaleOrders_meets {manager : ExecutionManager}
    {rely : (o : Op) → Except Exn o.Ans → Prop} {guarantee : Op → Prop}
    {R : OrderLedgerEntry → Prop} (hload : guarantee .loadLatestEntries)
    (hread : ∀ store : OrderStore, rely .loadLatestEntries (.ok store) → ∀ row ∈ store.entries, R row)
    (hreconcile : manager.reconcile.Meets (S := sig) rely guarantee fun _ => True)
    (hasked : ∀ orderId, (manager.broker.cancelOrder orderId).Uses (S := sig) guarantee)
    (hcancelled : ∀ entry label, R entry → entry.isTerminal = false → entry.orderId.isSome →
      guarantee (.upsert (staleCancelled entry label)))
    (sessionDate runId : String) :
    (manager.checkStaleOrders sessionDate runId).Meets (S := sig) rely guarantee
      fun _ => True := by
  have hentries : ∀ store : OrderStore, rely .loadLatestEntries (.ok store) →
      (manager.checkOpenEntries store.loadOpenOrders sessionDate runId).Meets (S := sig) rely
        guarantee fun _ => True := by
    intro store hstore
    refine .of_uses (checkOpenEntries_uses hasked (fun entry hmem label _ => ?_) sessionDate runId)
    obtain ⟨hentry, hopen⟩ := OrderStore.mem_loadOpenOrders.mp hmem
    exact hcancelled entry label (hread store hstore entry hentry) hopen
  unfold ExecutionManager.checkStaleOrders
  refine Prog.meets_bind (meets_loadLatest hload) fun (store : OrderStore) hstore => ?_
  dsimp only
  split
  · exact hentries store hstore
  refine Prog.meets_bind (R := fun _ => True) ((Prog.meets_attempt (R := fun _ => True) ?_).mono
    (fun _ ho => ho) fun _ _ => trivial) fun refreshed _ => ?_
  · unfold ExecutionManager.refreshOpenOrders
    refine Prog.meets_bind hreconcile fun summary _ => ?_
    split <;> trivial
  · cases refreshed with
    | error e => trivial
    | ok _ => exact Prog.meets_bind (meets_loadLatest hload) fun (store : OrderStore) hstore =>
        hentries store hstore

/-- A check uses the broker's operations, the ledger and the clock. -/
theorem checkStaleOrders_uses {manager : ExecutionManager} {allowed : Op → Prop}
    (hB : manager.broker.Within allowed) (hload : allowed .loadLatestEntries)
    (hclock : allowed .utcNow) (hrecord : ∀ x, allowed (.upsert x)) (sessionDate runId : String) :
    (manager.checkStaleOrders sessionDate runId).Uses (S := sig) allowed :=
  checkStaleOrders_meets (R := fun _ => True) hload (fun _ _ _ _ => trivial)
    (reconcile_uses hB hload hclock hrecord) hB.cancel (fun _ _ _ _ _ => hrecord _) sessionDate
    runId

/-- A trace with further events, all of allowed operations. -/
def Grows (A : Op → Prop) (τ τ' : List (Event sig)) : Prop :=
  ∃ added, τ' = τ ++ added ∧ ∀ event ∈ added, A event.op

theorem Grows.refl {A : Op → Prop} (τ : List (Event sig)) : Grows A τ τ :=
  ⟨[], (List.append_nil τ).symm, List.forall_mem_nil _⟩

theorem Grows.trans {A : Op → Prop} {τ₁ τ₂ τ₃ : List (Event sig)} (h : Grows A τ₁ τ₂)
    (h' : Grows A τ₂ τ₃) : Grows A τ₁ τ₃ := by
  obtain ⟨added, rfl, hadded⟩ := h
  obtain ⟨more, rfl, hmore⟩ := h'
  refine ⟨added ++ more, List.append_assoc .., fun event hevent => ?_⟩
  exact (List.mem_append.mp hevent).elim (hadded event) (hmore event)

theorem Grows.one {A : Op → Prop} {event : Event sig} (h : A event.op) (τ : List (Event sig)) :
    Grows A τ (τ ++ [event]) :=
  ⟨[event], rfl, fun _ hevent => List.mem_singleton.mp hevent ▸ h⟩

/-- The operations of a pass beside the turn of the row of a key. -/
structure Aside (manager : ExecutionManager) (key : String) (A : Op → Prop) : Prop where
  load : A .loadLatestEntries
  clock : A .utcNow
  record : ∀ x, x.ledgerKey ≠ key → A (.upsert x)
  openOrders : manager.broker.fetchOpenOrderSnapshots.Uses (S := sig) A
  history : ∀ entries openSnapshots,
    (manager.completedSnapshots entries openSnapshots).Uses (S := sig) A
  other : ∀ openSnapshots history recovered now entry, entry.ledgerKey ≠ key →
    (manager.handleEntry openSnapshots history recovered now entry).Uses (S := sig) A

theorem Aside.all (manager : ExecutionManager) (key : String) :
    Aside manager key fun _ => True where
  load := trivial
  clock := trivial
  record _ _ := trivial
  openOrders := Prog.uses_all _
  history _ _ := Prog.uses_all _
  other _ _ _ _ _ _ := Prog.uses_all _

section Rules

variable {W : Type} (E : Environment W) {α : Type}

/-- A program of allowed operations makes the trace grow by these. -/
theorem wp_grows {A : Op → Prop} {p : M α} (hp : p.Uses (S := sig) A) (τ : List (Event sig))
    (s : World W) : E.system.wp p (fun _ τ' _ => Grows A τ τ') τ s := by
  refine E.system.wp_mono (E.system.wp_own_run p τ s) ?_
  rintro out τ' s' ⟨cs, _, rfl, _⟩
  exact ⟨_, rfl, E.system.mem_trace_of_uses hp cs s⟩

/-- A program that spares a row leaves it as it is. -/
theorem wp_spares {p : M α} {key : String} (hp : p.Uses (S := sig) (Op.Spares key))
    (τ : List (Event sig)) (s : World W) :
    E.system.wp p (fun _ _ s' => s'.ledger.latest key = s.ledger.latest key) τ s := by
  refine wp_records E hp (I := fun store => store.latest key = s.ledger.latest key) ?_ rfl
  intro store x hstore hx
  rw [OrderStore.latest_upsert_of_ne (hx x rfl), hstore]

/-- What one row satisfies around its own turn, it satisfies around the whole loop. -/
theorem wp_eachRow {f : OrderLedgerEntry → M α} {entries : List OrderLedgerEntry}
    {entry : OrderLedgerEntry} (hmem : entry ∈ entries)
    (hnodup : (entries.map (·.ledgerKey)).Nodup)
    (hother : ∀ other, other.ledgerKey ≠ entry.ledgerKey →
      (f other).Uses (S := sig) (Op.Spares entry.ledgerKey)) {A : Op → Prop}
    (haside : ∀ other, other.ledgerKey ≠ entry.ledgerKey → (f other).Uses (S := sig) A)
    {I D : List (Event sig) → Option OrderLedgerEntry → Prop}
    (hI : ∀ τ row, D τ row → I τ row) (hgrow : ∀ τ τ' row, Grows A τ τ' → D τ row → D τ' row)
    {τ : List (Event sig)} (hentry : ∀ τ', Grows A τ τ' → I τ' (some entry))
    (hrow : ∀ τ₁ s, Grows A τ τ₁ → s.ledger.latest entry.ledgerKey = some entry →
      E.system.wp (f entry) (fun out τ' s' => I τ' (s'.ledger.latest entry.ledgerKey) ∧
        ∀ a, out = .returned a → D τ' (s'.ledger.latest entry.ledgerKey)) τ₁ s)
    {s : World W} (hs : s.ledger.latest entry.ledgerKey = some entry) :
    E.system.wp (Prog.collect f entries) (fun out τ' s' =>
      I τ' (s'.ledger.latest entry.ledgerKey) ∧
      ∀ as, out = .returned as → D τ' (s'.ledger.latest entry.ledgerKey)) τ s := by
  refine E.system.wp_collect (fun rest _ τ' s' => (rest.map (·.ledgerKey)).Nodup ∧
    ((entry ∈ rest ∧ s'.ledger.latest entry.ledgerKey = some entry ∧ Grows A τ τ') ∨
      (entry.ledgerKey ∉ rest.map (·.ledgerKey) ∧ D τ' (s'.ledger.latest entry.ledgerKey))))
    ?_ ?_ ⟨hnodup, Or.inl ⟨hmem, hs, .refl τ⟩⟩
  · rintro other rest cs τ₁ s ⟨hrest, hcase⟩
    rw [List.map_cons, List.nodup_cons] at hrest
    by_cases hkey : other.ledgerKey = entry.ledgerKey
    · rcases hcase with ⟨hin, hlatest, hτ⟩ | ⟨hnot, _⟩
      · have hsame : other = entry := by
          rcases List.mem_cons.mp hin with h | h
          · exact h.symm
          · exact absurd (hkey ▸ List.mem_map_of_mem h) hrest.1
        subst hsame
        refine E.system.wp_mono (hrow τ₁ s hτ hlatest) fun out τ' s' hout => ?_
        cases out with
        | returned a => exact ⟨hrest.2, Or.inr ⟨hrest.1, hout.2 a rfl⟩⟩
        | raised e => exact ⟨hout.1, nofun⟩
        | stopped => exact ⟨hout.1, nofun⟩
      · exact absurd (by simp [hkey]) hnot
    · refine E.system.wp_mono (E.system.wp_and (wp_spares E (hother other hkey) τ₁ s)
        (wp_grows E (haside other hkey) τ₁ s)) fun out τ' s' ⟨hout, hmore⟩ => ?_
      have hne : entry ≠ other := fun h => hkey (congrArg _ h.symm)
      have hkept : I τ' (s.ledger.latest entry.ledgerKey) :=
        hcase.elim (fun h => h.2.1 ▸ hentry τ' (h.2.2.trans hmore))
          fun h => hI _ _ (hgrow _ _ _ hmore h.2)
      cases out with
      | returned a =>
        refine ⟨hrest.2, ?_⟩
        rw [hout]
        exact hcase.imp
          (fun h => ⟨(List.mem_cons.mp h.1).resolve_left hne, h.2.1, h.2.2.trans hmore⟩)
          fun h => ⟨fun hin => h.1 (List.mem_cons_of_mem _ hin), hgrow _ _ _ hmore h.2⟩
      | raised e =>
        dsimp only
        rw [hout]
        exact ⟨hkept, nofun⟩
      | stopped =>
        dsimp only
        rw [hout]
        exact ⟨hkept, nofun⟩
  · rintro cs τ₁ s ⟨_, hcase⟩
    rcases hcase with ⟨hin, _⟩ | ⟨_, hD⟩
    · cases hin
    · exact ⟨hI _ _ hD, fun _ _ => hD⟩

/-- A loop over programs that do not raise does not raise. -/
theorem wp_collect_returns {f : OrderLedgerEntry → M α} {entries : List OrderLedgerEntry}
    (hf : ∀ entry τ s, E.system.wp (f entry) (fun out _ _ => ∀ e, out ≠ .raised e) τ s)
    {τ : List (Event sig)} {s : World W} :
    E.system.wp (Prog.collect f entries) (fun out _ _ => ∀ e, out ≠ .raised e) τ s := by
  refine E.system.wp_collect (fun _ _ _ _ => True) ?_ (fun _ _ _ _ => nofun) trivial
  intro entry rest cs τ s _
  refine E.system.wp_mono (hf entry τ s) fun out τ' s' hout => ?_
  cases out with
  | returned a => trivial
  | raised e => exact absurd rfl (hout e)
  | stopped => exact nofun

/-- A turn of the loop reports every exception on its own row. -/
theorem wp_handleEntry_returns (manager : ExecutionManager) (openSnapshots : List OpenOrderSnapshot)
    (history : Except Exn (List OpenOrderSnapshot)) (recovered : List OrderLedgerEntry) (now : ℚ)
    (entry : OrderLedgerEntry) (τ : List (Event sig)) (s : World W) :
    E.system.wp (manager.handleEntry openSnapshots history recovered now entry)
      (fun out _ _ => ∀ e, out ≠ .raised e) τ s := by
  unfold ExecutionManager.handleEntry
  split
  · exact nofun
  · unfold Prog.catching
    rw [System.wp_bind, System.wp_attempt]
    refine E.system.wp_mono (E.system.wp_true _ τ s) fun out τ' s' _ => ?_
    cases out with
    | returned update => exact nofun
    | raised e =>
      rw [System.caught_raised, System.seq_returned, System.wp_bind, wp_loadLatest]
      exact ⟨nofun, fun _ => nofun⟩
    | stopped => exact nofun

/-- A scan that meets no snapshot it would stop at, whatever the clock says. -/
def RestoreClear : OrderStore → List OpenOrderSnapshot → Prop
  | _, [] => True
  | known, snapshot :: rest =>
    match restoreDecision known snapshot with
    | .known => RestoreClear known rest
    | .conflict _ => False
    | .restore entryAt => ∀ submitted now,
        let entry := (entryAt submitted).withSnapshot snapshot now
        entry.isTerminal = false ∧ RestoreClear (known.upsert entry) rest

/-- What the scan knows of a snapshot it restores. -/
theorem restoreDecision_restore {known : OrderStore} {snapshot : OpenOrderSnapshot}
    {entryAt : ℚ → OrderLedgerEntry} (h : restoreDecision known snapshot = .restore entryAt) :
    (∀ row ∈ known.entries, row.orderRef ≠ snapshot.orderRef.getD "") ∧
      snapshot.orderId.isSome ∧ ∃ runId, ∀ now,
        entryAt now = restoredEntry snapshot (snapshot.orderRef.getD "") runId now := by
  unfold restoreDecision at h
  dsimp only at h
  split at h
  · split at h <;> cases h
  rename_i hfind
  split at h
  · cases h
  split at h
  · cases h
  rename_i runId hparse
  split at h
  · cases h
  rename_i hidentity
  cases h
  refine ⟨fun row hrow => ?_, ?_, runId, fun now => rfl⟩
  · simpa using (List.find?_eq_none.mp hfind) row hrow
  · exact Option.isSome_iff_ne_none.mpr (not_or.mp hidentity).2

/-- The scan restores nothing under the root of a reference the ledger knows. -/
theorem restoreDecision_root {known : OrderStore} {snapshot : OpenOrderSnapshot}
    {entryAt : ℚ → OrderLedgerEntry} (h : restoreDecision known snapshot = .restore entryAt) :
    known.latest (stripReplacementSuffix (snapshot.orderRef.getD "")) = none := by
  unfold restoreDecision at h
  dsimp only at h
  split at h
  · split at h <;> cases h
  split at h
  · cases h
  · rename_i hroot
    simpa using hroot

/-- A row the restore scan does not take for an unknown order: it is under its own reference, or
its key is not the reference of a replacement, or nothing open carries its key. -/
def OrderLedgerEntry.Shielded (entry : OrderLedgerEntry) (snapshots : List OpenOrderSnapshot) :
    Prop :=
  entry.orderRef = entry.ledgerKey ∨ stripReplacementSuffix entry.ledgerKey = entry.ledgerKey ∨
    ∀ snapshot ∈ snapshots, snapshot.orderRef.getD "" ≠ entry.ledgerKey

/-- What the scan restores is not recorded in the place of a shielded row. -/
theorem OrderLedgerEntry.Shielded.restored_ne {entry : OrderLedgerEntry}
    {snapshots : List OpenOrderSnapshot} (hshielded : entry.Shielded snapshots)
    {known : OrderStore} (hknown : known.latest entry.ledgerKey = some entry)
    {snapshot : OpenOrderSnapshot} (hmem : snapshot ∈ snapshots)
    {entryAt : ℚ → OrderLedgerEntry} (h : restoreDecision known snapshot = .restore entryAt) :
    snapshot.orderRef.getD "" ≠ entry.ledgerKey := by
  intro hkey
  rcases hshielded with hown | hroot | hnone
  · exact (restoreDecision_restore h).1 entry (OrderStore.latest_mem hknown) (hown.trans hkey.symm)
  · have hunknown := restoreDecision_root h
    rw [hkey, hroot, hknown] at hunknown
    cases hunknown
  · exact hnone snapshot hmem hkey

/-- The scan adds rows under references no row has: a shielded row stays as it is.
It raises only where it is not clear. -/
theorem wp_restoreLoop {entry : OrderLedgerEntry} {X : Prop} (snapshots : List OpenOrderSnapshot)
    (hshielded : entry.Shielded snapshots) :
    ∀ (recovered : List OrderLedgerEntry) (τ : List (Event sig)) (s : World W),
      s.ledger.latest entry.ledgerKey = some entry → (RestoreClear s.ledger snapshots ∨ X) →
      E.system.wp (restoreLoop s.ledger snapshots recovered)
        (fun out _ s' => s'.ledger.latest entry.ledgerKey = some entry ∧
          ∀ e, out = .raised e → X) τ s := by
  induction snapshots with
  | nil =>
    intro recovered τ s hs _
    exact ⟨hs, by simp⟩
  | cons snapshot rest ih =>
    have hrest : entry.Shielded rest := hshielded.imp_right fun h =>
      h.imp_right fun h snapshot hmem => h snapshot (List.mem_cons_of_mem _ hmem)
    intro recovered τ s hs hclear
    rw [restoreLoop]
    rw [RestoreClear] at hclear
    cases hdecision : restoreDecision s.ledger snapshot with
    | known =>
      rw [hdecision] at hclear
      exact ih hrest recovered τ s hs hclear
    | conflict e =>
      rw [hdecision] at hclear
      exact ⟨hs, fun _ _ => hclear.resolve_left id⟩
    | restore entryAt =>
      rw [hdecision] at hclear
      obtain ⟨_, _, runId, hentry⟩ := restoreDecision_restore hdecision
      have hne : ∀ submitted now,
          ((entryAt submitted).withSnapshot snapshot now).ledgerKey ≠ entry.ledgerKey := by
        intro submitted now hkey
        rw [hentry] at hkey
        exact hshielded.restored_ne hs List.mem_cons_self hdecision hkey
      simp only [System.wp_bind, wp_utcNow, System.seq_stopped, System.seq_returned]
      refine ⟨⟨hs, by simp⟩, fun c => ⟨⟨hs, by simp⟩, fun c' => ?_⟩⟩
      split
      · rename_i hterminal
        refine ⟨hs, fun _ _ => hclear.resolve_left fun h => ?_⟩
        have hnot := (h (E.clock c s.outside) (E.clock c' s.outside)).1
        rw [hnot] at hterminal
        cases hterminal
      · simp only [System.wp_bind, wp_upsertEntry, System.seq_stopped, System.seq_returned]
        refine ⟨⟨hs, by simp⟩, fun _ => ?_⟩
        exact ih hrest _ _ { s with ledger := s.ledger.upsert ((entryAt (E.clock c s.outside)).withSnapshot
            snapshot (E.clock c' s.outside)) }
          ((OrderStore.latest_upsert_of_ne (hne _ _)).trans hs)
          (hclear.imp_left fun h => (h _ _).2)

/-- The history query of a pass leaves the ledger as it is, and its exceptions are values. -/
theorem wp_completedSnapshots {manager : ExecutionManager}
    (hB : manager.broker.Within Op.KeepsLedger) (entries : List OrderLedgerEntry)
    (openSnapshots : List OpenOrderSnapshot) (τ : List (Event sig)) (s : World W) :
    E.system.wp (manager.completedSnapshots entries openSnapshots) (fun out _ s' =>
      s'.ledger = s.ledger ∧ ∀ e, out ≠ .raised e) τ s := by
  unfold ExecutionManager.completedSnapshots
  dsimp only
  split
  · exact ⟨rfl, nofun⟩
  rw [System.wp_bind, System.wp_attempt]
  have hquery := completedHistory_uses hB.completed hB.ibkrCompleted
    (entries.filter fun entry => (matchSnapshot entry openSnapshots).isNone)
  refine E.system.wp_mono (wp_keepsLedger E hquery τ s) fun out τ' s' hs' => ?_
  cases out <;> exact ⟨hs', nofun⟩

/-- The restore scan reads the ledger and the clock and records rows of other keys. -/
theorem restoreLoop_aside {manager : ExecutionManager} {key : String} {A : Op → Prop}
    (haside : Aside manager key A) {entry : OrderLedgerEntry} (hkey : entry.ledgerKey = key)
    {snapshots : List OpenOrderSnapshot} (hshielded : entry.Shielded snapshots) :
    ∀ {known : OrderStore} (recovered : List OrderLedgerEntry), known.latest key = some entry →
      (restoreLoop known snapshots recovered).Uses (S := sig) A := by
  subst hkey
  induction snapshots with
  | nil => exact fun _ _ => trivial
  | cons snapshot rest ih =>
    intro known recovered hknown
    have hrest : entry.Shielded rest := hshielded.imp_right fun h =>
      h.imp_right fun h snapshot hmem => h snapshot (List.mem_cons_of_mem _ hmem)
    rw [restoreLoop]
    cases hdecision : restoreDecision known snapshot with
    | known => exact ih hrest recovered hknown
    | conflict e => trivial
    | restore entryAt =>
      obtain ⟨_, _, runId, hentry⟩ := restoreDecision_restore hdecision
      refine Prog.uses_bind (Prog.uses_perform haside.clock) fun submitted =>
        Prog.uses_bind (Prog.uses_perform haside.clock) fun now => ?_
      have hne : ((entryAt submitted).withSnapshot snapshot now).ledgerKey ≠ entry.ledgerKey := by
        intro hkey
        rw [hentry] at hkey
        exact hshielded.restored_ne hknown List.mem_cons_self hdecision hkey
      dsimp only
      split
      · trivial
      · exact Prog.uses_bind (Prog.uses_perform (haside.record _ hne)) fun _ =>
          ih hrest _ ((OrderStore.latest_upsert_of_ne hne).trans hknown)

/-- The part of a pass that follows the restore scan. -/
def ExecutionManager.reconcileEntries (self : ExecutionManager)
    (openSnapshots : List OpenOrderSnapshot) (recovered : List OrderLedgerEntry) :
    M ReconcileSummary :=
  loadLatest.bind fun store =>
  let openEntries := store.loadOpenOrders
  if openEntries = [] then .ret ⟨0, []⟩
  else
    (self.completedSnapshots openEntries openSnapshots).bind fun history =>
    utcNow.bind fun now =>
    (Prog.collect (self.handleEntry openSnapshots history recovered now) openEntries).bind
      fun updates => .ret ⟨openEntries.length, updates⟩

theorem reconcileOpenOrders_eq (manager : ExecutionManager)
    (openSnapshots : List OpenOrderSnapshot) : manager.reconcileOpenOrders openSnapshots =
      (if manager.broker.isIbkr then restoreUntrackedBrokerOrders openSnapshots
        else .ret []).bind (manager.reconcileEntries openSnapshots) := rfl

/-- One open row around the part of a pass that follows the restore scan. -/
theorem wp_reconcileEntries_row {manager : ExecutionManager}
    (hB : manager.broker.Within Op.KeepsLedger) {entry : OrderLedgerEntry}
    (hopen : entry.isTerminal = false) {A : Op → Prop}
    (haside : Aside manager entry.ledgerKey A)
    {I D : List (Event sig) → Option OrderLedgerEntry → Prop}
    {openSnapshots : List OpenOrderSnapshot} {H : Except Exn (List OpenOrderSnapshot) → Prop}
    (hI : ∀ τ row, D τ row → I τ row) (hgrow : ∀ τ τ' row, Grows A τ τ' → D τ row → D τ' row)
    {τ : List (Event sig)} (hentry : ∀ τ', Grows A τ τ' → I τ' (some entry))
    (hhistory : ∀ entries, entry ∈ entries →
      ∀ τ s, E.system.wp (manager.completedSnapshots entries openSnapshots) (fun out _ _ =>
        ∀ history, out = .returned history → H history) τ s)
    (hrow : ∀ history recovered now τ₁ s, H history → Grows A τ τ₁ →
      s.ledger.latest entry.ledgerKey = some entry →
      E.system.wp (manager.handleEntry openSnapshots history recovered now entry)
        (fun out τ' s' => I τ' (s'.ledger.latest entry.ledgerKey) ∧
          ∀ update, out = .returned update → D τ' (s'.ledger.latest entry.ledgerKey)) τ₁ s)
    (recovered : List OrderLedgerEntry) {s : World W}
    (hs : s.ledger.latest entry.ledgerKey = some entry) :
    E.system.wp (manager.reconcileEntries openSnapshots recovered) (fun out τ' s' =>
      I τ' (s'.ledger.latest entry.ledgerKey) ∧
      (∀ summary, out = .returned summary → D τ' (s'.ledger.latest entry.ledgerKey)) ∧
      ∀ e, out ≠ .raised e) τ s := by
  have hkept : ∀ (τ' : List (Event sig)) (s' : World W), Grows A τ τ' →
      s'.ledger.latest entry.ledgerKey = some entry →
      I τ' (s'.ledger.latest entry.ledgerKey) := fun τ' s' hτ h => h ▸ hentry τ' hτ
  have hmem : entry ∈ s.ledger.loadOpenOrders :=
    OrderStore.mem_loadOpenOrders.mpr ⟨OrderStore.latest_mem hs, hopen⟩
  unfold ExecutionManager.reconcileEntries
  rw [System.wp_bind, wp_loadLatest]
  refine ⟨⟨hkept _ s (.refl τ) hs, nofun, nofun⟩, fun _ => ?_⟩
  rw [System.seq_returned]
  dsimp only
  rw [if_neg (List.ne_nil_of_mem hmem)]
  refine E.system.wp_seq (E.system.wp_and (E.system.wp_and (hhistory _ hmem _ s)
    (wp_completedSnapshots E hB _ openSnapshots _ s))
    (wp_grows E (haside.history _ openSnapshots) _ s)) ?_ ?_ ?_
  · rintro history τ₂ s₂ ⟨⟨hH, hs₂, _⟩, hmore⟩
    have hτ₂ : Grows A τ τ₂ := (Grows.one haside.load τ).trans hmore
    have hlatest₂ : s₂.ledger.latest entry.ledgerKey = some entry := hs₂ ▸ hs
    rw [System.wp_bind, wp_utcNow]
    refine ⟨⟨hkept _ s₂ hτ₂ hlatest₂, nofun, nofun⟩, fun c => ?_⟩
    rw [System.seq_returned]
    have hnodup : (s.ledger.loadOpenOrders.map (·.ledgerKey)).Nodup :=
      s.ledger.nodup.sublist (List.filter_sublist.map _)
    have hother : ∀ other : OrderLedgerEntry, other.ledgerKey ≠ entry.ledgerKey →
        (manager.handleEntry openSnapshots history recovered (E.clock c s₂.outside) other).Uses
          (S := sig) (Op.Spares entry.ledgerKey) := fun other => handleEntry_spares hB
    have hτ₃ : Grows A τ (τ₂ ++ [⟨.utcNow, .ok (E.clock c s₂.outside)⟩]) :=
      hτ₂.trans (.one haside.clock τ₂)
    refine E.system.wp_seq (E.system.wp_and
      (wp_eachRow E hmem hnodup hother (fun other => haside.other _ _ _ _ other) hI hgrow
        (fun τ' hτ' => hentry τ' (hτ₃.trans hτ'))
        (fun τ' s' hτ' hlatest => hrow history recovered _ τ' s' (hH _ rfl) (hτ₃.trans hτ') hlatest)
        hlatest₂)
      (wp_collect_returns E fun b τ s => wp_handleEntry_returns E manager openSnapshots history
        recovered _ b τ s)) ?_ ?_ ?_
    · rintro updates τ₄ s₄ ⟨⟨hrowI, hD⟩, _⟩
      exact ⟨hrowI, fun _ _ => hD _ rfl, nofun⟩
    · rintro e τ₄ s₄ ⟨_, hreturns⟩
      exact absurd rfl (hreturns e)
    · rintro τ₄ s₄ ⟨⟨hrowI, _⟩, _⟩
      exact ⟨hrowI, nofun, nofun⟩
  · rintro e τ₂ s₂ ⟨⟨_, _, hreturns⟩, _⟩
    exact absurd rfl (hreturns e)
  · rintro τ₂ s₂ ⟨⟨_, hs₂, _⟩, hmore⟩
    exact ⟨hkept _ s₂ ((Grows.one haside.load τ).trans hmore) (hs₂ ▸ hs), nofun, nofun⟩

/-- A key without an open row has no turn in a pass. -/
theorem wp_reconcileEntries_idle {manager : ExecutionManager}
    (hB : manager.broker.Within Op.KeepsLedger) {key : String} {A : Op → Prop}
    (haside : Aside manager key A) (openSnapshots : List OpenOrderSnapshot)
    (recovered : List OrderLedgerEntry) (τ : List (Event sig)) {s : World W}
    (hidle : ∀ row, s.ledger.latest key = some row → row.isTerminal = true) :
    E.system.wp (manager.reconcileEntries openSnapshots recovered) (fun _ τ' s' =>
      Grows A τ τ' ∧ s'.ledger.latest key = s.ledger.latest key) τ s := by
  have hentries : ∀ other ∈ s.ledger.loadOpenOrders, other.ledgerKey ≠ key := by
    intro other hmem hkey
    obtain ⟨hother, hopen⟩ := OrderStore.mem_loadOpenOrders.mp hmem
    have hterminal := hidle other (hkey ▸ OrderStore.latest_of_mem hother)
    rw [hopen] at hterminal
    cases hterminal
  unfold ExecutionManager.reconcileEntries
  rw [System.wp_bind, wp_loadLatest]
  refine ⟨⟨.refl τ, rfl⟩, fun _ => ?_⟩
  have hload : Grows A τ (τ ++ [⟨.loadLatestEntries, .ok s.ledger⟩]) := .one haside.load τ
  rw [System.seq_returned]
  dsimp only
  split
  · exact ⟨hload, rfl⟩
  refine E.system.wp_seq (E.system.wp_and (wp_completedSnapshots E hB _ openSnapshots _ s)
    (wp_grows E (haside.history _ openSnapshots) _ s)) ?_
    (fun _ _ s₁ h => ⟨hload.trans h.2, h.1.1 ▸ rfl⟩) fun _ s₁ h => ⟨hload.trans h.2, h.1.1 ▸ rfl⟩
  rintro history τ₁ s₁ ⟨⟨hs₁, _⟩, hτ₁⟩
  rw [System.wp_bind, wp_utcNow]
  refine ⟨⟨hload.trans hτ₁, hs₁ ▸ rfl⟩, fun c => ?_⟩
  rw [System.seq_returned]
  have hτ₂ : Grows A τ (τ₁ ++ [⟨.utcNow, .ok (E.clock c s₁.outside)⟩]) :=
    (hload.trans hτ₁).trans (.one haside.clock τ₁)
  have hspares : (Prog.collect (manager.handleEntry openSnapshots history recovered
      (E.clock c s₁.outside)) s.ledger.loadOpenOrders).Uses (S := sig) (Op.Spares key) :=
    Prog.uses_collect fun other hmem => handleEntry_spares hB (hentries other hmem)
  have hgrows : (Prog.collect (manager.handleEntry openSnapshots history recovered
      (E.clock c s₁.outside)) s.ledger.loadOpenOrders).Uses (S := sig) A :=
    Prog.uses_collect fun other hmem => haside.other _ _ _ _ other (hentries other hmem)
  refine E.system.wp_seq (E.system.wp_and (wp_spares E hspares _ s₁) (wp_grows E hgrows _ s₁))
    (fun updates _ s₂ h => ?_) (fun _ _ s₂ h => ?_) fun _ s₂ h => ?_
  all_goals exact ⟨hτ₂.trans h.2, h.1.trans (hs₁ ▸ rfl)⟩

/-- One open row around the part of a pass that follows the open-order query. -/
theorem wp_reconcileOpenOrders_row {manager : ExecutionManager}
    (hB : manager.broker.Within Op.KeepsLedger) {entry : OrderLedgerEntry}
    (hopen : entry.isTerminal = false) {A : Op → Prop}
    (haside : Aside manager entry.ledgerKey A)
    {I D : List (Event sig) → Option OrderLedgerEntry → Prop} {X : Prop}
    {openSnapshots : List OpenOrderSnapshot}
    {O : List OpenOrderSnapshot → Prop}
    {H : List OpenOrderSnapshot → Except Exn (List OpenOrderSnapshot) → Prop}
    (hI : ∀ τ row, D τ row → I τ row) (hgrow : ∀ τ τ' row, Grows A τ τ' → D τ row → D τ' row)
    {τ : List (Event sig)} (hentry : ∀ τ', Grows A τ τ' → I τ' (some entry))
    (hO : O openSnapshots)
    (hshielded : manager.broker.isIbkr = true → entry.Shielded openSnapshots)
    (hhistory : ∀ openSnapshots entries, O openSnapshots → entry ∈ entries →
      ∀ τ s, E.system.wp (manager.completedSnapshots entries openSnapshots) (fun out _ _ =>
        ∀ history, out = .returned history → H openSnapshots history) τ s)
    (hrow : ∀ openSnapshots history recovered now τ₁ s, O openSnapshots →
      H openSnapshots history → Grows A τ τ₁ → s.ledger.latest entry.ledgerKey = some entry →
      E.system.wp (manager.handleEntry openSnapshots history recovered now entry)
        (fun out τ' s' => I τ' (s'.ledger.latest entry.ledgerKey) ∧
          ∀ update, out = .returned update → D τ' (s'.ledger.latest entry.ledgerKey)) τ₁ s)
    {s : World W} (hs : s.ledger.latest entry.ledgerKey = some entry)
    (hclear : manager.broker.isIbkr = true → RestoreClear s.ledger openSnapshots ∨ X) :
    E.system.wp (manager.reconcileOpenOrders openSnapshots) (fun out τ' s' =>
      I τ' (s'.ledger.latest entry.ledgerKey) ∧
      (∀ summary, out = .returned summary → D τ' (s'.ledger.latest entry.ledgerKey)) ∧
      ∀ e, out = .raised e → X ∧ s'.ledger.latest entry.ledgerKey = some entry) τ s := by
  have hkept : ∀ (τ' : List (Event sig)) (s' : World W), Grows A τ τ' →
      s'.ledger.latest entry.ledgerKey = some entry →
      I τ' (s'.ledger.latest entry.ledgerKey) := fun τ' s' hτ h => h ▸ hentry τ' hτ
  have hrestore : E.system.wp
      (if manager.broker.isIbkr then restoreUntrackedBrokerOrders openSnapshots else .ret [])
      (fun out τ' s' => (s'.ledger.latest entry.ledgerKey = some entry ∧
        ∀ e, out = .raised e → X) ∧ Grows A τ τ') τ s := by
    cases hibkr : manager.broker.isIbkr with
    | false => exact ⟨⟨hs, nofun⟩, .refl τ⟩
    | true =>
      rw [if_pos rfl, restoreUntrackedBrokerOrders, System.wp_bind, wp_loadLatest]
      refine ⟨⟨⟨hs, nofun⟩, .refl τ⟩, fun _ => ?_⟩
      rw [System.seq_returned]
      have hscan := restoreLoop_aside haside rfl (hshielded hibkr) [] hs
      refine E.system.wp_mono (E.system.wp_and (wp_restoreLoop E openSnapshots (hshielded hibkr)
        [] _ s hs (hclear hibkr)) (wp_grows E hscan _ s)) fun _ _ _ h => ⟨h.1, ?_⟩
      exact (Grows.one haside.load τ).trans h.2
  rw [reconcileOpenOrders_eq]
  refine E.system.wp_seq hrestore ?_ ?_ ?_
  · rintro recovered τ₁ s₁ ⟨⟨hs₁, _⟩, hτ₁⟩
    refine E.system.wp_mono (wp_reconcileEntries_row E hB hopen haside hI hgrow
      (fun τ' hτ' => hentry τ' (hτ₁.trans hτ')) (fun entries => hhistory _ entries hO)
      (fun _ _ _ τ' s' hH hτ' => hrow _ _ _ _ τ' s' hO hH (hτ₁.trans hτ')) recovered hs₁) ?_
    exact fun out τ' s' h => ⟨h.1, h.2.1, fun e he => absurd he (h.2.2 e)⟩
  · rintro e τ₁ s₁ ⟨⟨hs₁, hX⟩, hτ₁⟩
    exact ⟨hkept _ s₁ hτ₁ hs₁, nofun, fun _ _ => ⟨hX e rfl, hs₁⟩⟩
  · rintro τ₁ s₁ ⟨⟨hs₁, _⟩, hτ₁⟩
    exact ⟨hkept _ s₁ hτ₁ hs₁, nofun, nofun⟩

/-- One open row around a whole pass, from what the queries of the pass can return; a pass that
raises has not come to the row. -/
theorem wp_reconcile_row {manager : ExecutionManager}
    (hB : manager.broker.Within Op.KeepsLedger) {entry : OrderLedgerEntry}
    (hopen : entry.isTerminal = false) {A : Op → Prop}
    (haside : Aside manager entry.ledgerKey A)
    {I D : List (Event sig) → Option OrderLedgerEntry → Prop} {X : Prop}
    {O : List OpenOrderSnapshot → Prop}
    {H : List OpenOrderSnapshot → Except Exn (List OpenOrderSnapshot) → Prop}
    (hI : ∀ τ row, D τ row → I τ row) (hgrow : ∀ τ τ' row, Grows A τ τ' → D τ row → D τ' row)
    {τ : List (Event sig)} (hentry : ∀ τ', Grows A τ τ' → I τ' (some entry))
    (hfetch : ∀ τ s, E.system.wp manager.broker.fetchOpenOrderSnapshots (fun out _ _ =>
      (∀ fetched, out = .returned fetched → O (ExecutionManager.referenced fetched)) ∧
        ∀ e, out = .raised e → X) τ s)
    (hshielded : ∀ openSnapshots, O openSnapshots → manager.broker.isIbkr = true →
      entry.Shielded openSnapshots)
    (hhistory : ∀ openSnapshots entries, O openSnapshots → entry ∈ entries →
      ∀ τ s, E.system.wp (manager.completedSnapshots entries openSnapshots) (fun out _ _ =>
        ∀ history, out = .returned history → H openSnapshots history) τ s)
    (hrow : ∀ openSnapshots history recovered now τ₁ s, O openSnapshots →
      H openSnapshots history → Grows A τ τ₁ → s.ledger.latest entry.ledgerKey = some entry →
      E.system.wp (manager.handleEntry openSnapshots history recovered now entry)
        (fun out τ' s' => I τ' (s'.ledger.latest entry.ledgerKey) ∧
          ∀ update, out = .returned update → D τ' (s'.ledger.latest entry.ledgerKey)) τ₁ s)
    {s : World W} (hs : s.ledger.latest entry.ledgerKey = some entry)
    (hclear : ∀ openSnapshots, O openSnapshots → manager.broker.isIbkr = true →
      RestoreClear s.ledger openSnapshots ∨ X) :
    E.system.wp manager.reconcile (fun out τ' s' => I τ' (s'.ledger.latest entry.ledgerKey) ∧
      (∀ summary, out = .returned summary → D τ' (s'.ledger.latest entry.ledgerKey)) ∧
      ∀ e, out = .raised e → X ∧ s'.ledger.latest entry.ledgerKey = some entry) τ s := by
  have hkept : ∀ (τ' : List (Event sig)) (s' : World W), Grows A τ τ' →
      s'.ledger.latest entry.ledgerKey = some entry →
      I τ' (s'.ledger.latest entry.ledgerKey) := fun τ' s' hτ h => h ▸ hentry τ' hτ
  have hopens : s.ledger.loadOpenOrders ≠ [] := List.ne_nil_of_mem
    (OrderStore.mem_loadOpenOrders.mpr ⟨OrderStore.latest_mem hs, hopen⟩)
  have hload : Grows A τ (τ ++ [⟨.loadLatestEntries, .ok s.ledger⟩]) := .one haside.load τ
  unfold ExecutionManager.reconcile
  rw [System.wp_bind, wp_loadLatest]
  refine ⟨⟨hkept _ s (.refl τ) hs, nofun, nofun⟩, fun _ => ?_⟩
  rw [System.seq_returned, if_neg fun h => hopens h.1]
  refine E.system.wp_seq (E.system.wp_and (E.system.wp_and (hfetch _ s)
    (wp_keepsLedger E hB.openOrders _ s)) (wp_grows E haside.openOrders _ s)) ?_ ?_ ?_
  · rintro fetched τ₁ s₁ ⟨⟨⟨hO, _⟩, hs₁⟩, hmore⟩
    have hlatest₁ : s₁.ledger.latest entry.ledgerKey = some entry := hs₁ ▸ hs
    have hτ₁ := hload.trans hmore
    exact wp_reconcileOpenOrders_row E hB hopen haside hI hgrow
      (fun τ' hτ' => hentry τ' (hτ₁.trans hτ')) (hO _ rfl) (hshielded _ (hO _ rfl)) hhistory
      (fun _ _ _ _ τ' s' hO' hH hτ' => hrow _ _ _ _ τ' s' hO' hH (hτ₁.trans hτ')) hlatest₁
      fun hibkr => hs₁ ▸ hclear _ (hO _ rfl) hibkr
  · rintro e τ₁ s₁ ⟨⟨⟨_, hX⟩, hs₁⟩, hmore⟩
    exact ⟨hkept _ s₁ (hload.trans hmore) (hs₁ ▸ hs), nofun, fun _ _ => ⟨hX e rfl, hs₁ ▸ hs⟩⟩
  · rintro τ₁ s₁ ⟨⟨_, hs₁⟩, hmore⟩
    exact ⟨hkept _ s₁ (hload.trans hmore) (hs₁ ▸ hs), nofun, nofun⟩

/-- A shielded terminal row is left as it is by every pass. -/
theorem wp_reconcile_terminal {manager : ExecutionManager}
    (hB : manager.broker.Within Op.KeepsLedger) {entry : OrderLedgerEntry}
    (hterminal : entry.isTerminal = true)
    (hshielded : ∀ τ s, E.system.wp manager.broker.fetchOpenOrderSnapshots (fun out _ _ =>
      ∀ fetched, out = .returned fetched → entry.Shielded (ExecutionManager.referenced fetched))
        τ s)
    (τ : List (Event sig)) {s : World W} (hs : s.ledger.latest entry.ledgerKey = some entry) :
    E.system.wp manager.reconcile
      (fun _ _ s' => s'.ledger.latest entry.ledgerKey = some entry) τ s := by
  unfold ExecutionManager.reconcile
  rw [System.wp_bind, wp_loadLatest]
  refine ⟨hs, fun _ => ?_⟩
  rw [System.seq_returned]
  split
  · exact hs
  refine E.system.wp_seq (E.system.wp_and (hshielded _ s)
    (wp_keepsLedger E hB.openOrders _ s)) ?_ (fun _ _ s₁ h => h.2 ▸ hs) fun _ s₁ h => h.2 ▸ hs
  rintro fetched τ₁ s₁ ⟨hshielded, hs₁⟩
  have hlatest₁ : s₁.ledger.latest entry.ledgerKey = some entry := hs₁ ▸ hs
  have hrestore : E.system.wp
      (if manager.broker.isIbkr then restoreUntrackedBrokerOrders
        (ExecutionManager.referenced fetched) else .ret [])
      (fun _ _ s' => s'.ledger.latest entry.ledgerKey = some entry) τ₁ s₁ := by
    split
    · rw [restoreUntrackedBrokerOrders, System.wp_bind, wp_loadLatest]
      exact ⟨hlatest₁, fun _ => E.system.wp_mono (wp_restoreLoop E (X := True) _
        (hshielded _ rfl) _ _ _ hlatest₁ (Or.inr trivial)) fun _ _ _ h => h.1⟩
    · exact hlatest₁
  rw [reconcileOpenOrders_eq]
  refine E.system.wp_seq hrestore ?_ (fun _ _ _ h => h) fun _ _ h => h
  intro recovered τ₂ s₂ hs₂
  refine E.system.wp_mono (wp_reconcileEntries_idle E hB (.all manager entry.ledgerKey) _ recovered
    τ₂ fun row hrow => ?_) fun _ _ _ h => h.2.trans hs₂
  obtain rfl := Option.some.inj (hs₂.symm.trans hrow)
  exact hterminal

/-- A row around a stale-order check: around its refresh, and where its cancellation is requested. -/
theorem wp_checkStaleOrders_row {manager : ExecutionManager} {key : String} {A : Op → Prop}
    (hload : A .loadLatestEntries) (hrecord : ∀ x, A (.upsert x))
    (hasked : ∀ orderId, (manager.broker.cancelOrder orderId).Uses (S := sig)
      fun o => A o ∧ o.KeepsLedger)
    {I : List (Event sig) → Option OrderLedgerEntry → Prop}
    (hgrow : ∀ τ τ' row, Grows A τ τ' → I τ row → I τ' row)
    (hcancel : ∀ τ label entry, entry.ledgerKey = key → entry.isTerminal = false →
      entry.isRecovered = false → I τ (some entry) → I τ (some (staleCancelled entry label)))
    (sessionDate runId : String) {τ : List (Event sig)} {s : World W}
    (hs : I τ (s.ledger.latest key))
    (hreconcile : ∀ τ', I τ' (s.ledger.latest key) → E.system.wp manager.reconcile
      (fun _ τ'' s' => I τ'' (s'.ledger.latest key)) τ' s) :
    E.system.wp (manager.checkStaleOrders sessionDate runId)
      (fun _ τ' s' => I τ' (s'.ledger.latest key)) τ s := by
  have hentries : ∀ (τ : List (Event sig)) (s : World W), I τ (s.ledger.latest key) →
      E.system.wp (manager.checkOpenEntries s.ledger.loadOpenOrders sessionDate runId)
        (fun _ τ' s' => I τ' (s'.ledger.latest key)) τ s := by
    intro τ s hs
    have huses : (manager.checkOpenEntries s.ledger.loadOpenOrders sessionDate runId).Uses
        (S := sig) fun o => A o ∧ ∀ x, o = .upsert x → x.ledgerKey = key →
          ∀ τ', Grows A τ τ' → I τ' (some x) := by
      refine checkOpenEntries_uses (fun orderId => (hasked orderId).mono fun o ho => ⟨ho.1, ?_⟩)
        (fun entry hmem label hrecovered _ => ⟨hrecord _, ?_⟩) sessionDate runId
      · rintro x rfl
        exact ho.2.elim
      · rintro x ⟨⟩ hkey τ' hτ'
        obtain ⟨hentry, hopen⟩ := OrderStore.mem_loadOpenOrders.mp hmem
        have hlatest : s.ledger.latest key = some entry := by
          rw [← show entry.ledgerKey = key from hkey]
          exact OrderStore.latest_of_mem hentry
        exact hcancel τ' label entry hkey hopen hrecovered (hgrow τ τ' _ hτ' (hlatest ▸ hs))
    refine E.system.wp_mono (E.system.wp_of_uses (I := fun τ' s' => Grows A τ τ' ∧
      I τ' (s'.ledger.latest key)) huses ?_ ⟨.refl τ, hs⟩) fun _ _ _ h => h.2
    rintro o ⟨hA, hupsert⟩ c τ' s' ⟨hτ', hI⟩
    have hone : Grows A τ' (τ' ++ [⟨o, (E.system.act c s' o).1⟩]) := .one hA τ'
    refine ⟨hτ'.trans hone, ?_⟩
    rw [act_ledger E c s' o]
    cases o with
    | upsert x =>
      dsimp only [Op.record?]
      rw [OrderStore.latest_upsert]
      split
      · rename_i hkey
        exact hupsert x rfl hkey _ (hτ'.trans hone)
      · exact hgrow _ _ _ hone hI
    | _ => exact hgrow _ _ _ hone hI
  have hread : ∀ (τ : List (Event sig)) (s : World W), I τ (s.ledger.latest key) →
      I (τ ++ [⟨.loadLatestEntries, .ok s.ledger⟩]) (s.ledger.latest key) :=
    fun τ s => hgrow _ _ _ (.one hload τ)
  unfold ExecutionManager.checkStaleOrders
  rw [System.wp_bind, wp_loadLatest]
  refine ⟨hs, fun _ => ?_⟩
  rw [System.seq_returned]
  dsimp only
  split
  · exact hentries _ s (hread τ s hs)
  have hrefreshed : E.system.wp manager.refreshOpenOrders
      (fun _ τ' s' => I τ' (s'.ledger.latest key)) (τ ++ [⟨.loadLatestEntries, .ok s.ledger⟩]) s := by
    unfold ExecutionManager.refreshOpenOrders
    refine E.system.wp_seq (hreconcile _ (hread τ s hs)) (fun summary τ' s' h => ?_)
      (fun _ _ _ h => h) fun _ _ h => h
    split <;> exact h
  rw [System.wp_bind, System.wp_attempt]
  refine E.system.wp_mono hrefreshed fun out τ₁ s₁ h => ?_
  cases out with
  | stopped => exact h
  | raised e => exact h
  | returned _ =>
    rw [System.caught_returned, System.seq_returned, System.wp_bind, wp_loadLatest]
    exact ⟨h, fun _ => hentries _ s₁ (hread τ₁ s₁ h)⟩

end Rules

/-- The manager of a process whose broker is answered by the environment. -/
def protocolManager (settings : Settings) (isIbkr hasReplacement hasHistory : Bool) :
    ExecutionManager :=
  ⟨protocolBroker isIbkr hasReplacement hasHistory, settings⟩

theorem protocolManager_within {settings : Settings} {isIbkr hasReplacement hasHistory : Bool} :
    (protocolManager settings isIbkr hasReplacement hasHistory).broker.Within Op.KeepsLedger :=
  protocolBroker_within _ _ _ fun _ _ => trivial

/-- What the two order queries of a pass are answered: a list, or an exception. -/
structure PassReports where
  openOrders : Except Exn (List OpenOrderSnapshot)
  completed : Except Exn (List OpenOrderSnapshot)

/-- A choice of the environment that answers the two queries as reported, and the rest anyhow. -/
def PassReports.Answers (reports : PassReports) (c : Oracle) : Prop :=
  c.answer (.broker .fetchOpenOrderSnapshots) = reports.openOrders ∧
  c.answer (.broker .fetchCompletedOrderSnapshots) = reports.completed ∧
  ∀ wanted unresolved,
    c.answer (.broker (.fetchIbkrCompletedOrderSnapshots wanted unresolved)) = reports.completed

section Queries

variable {P : Oracle → Prop} {settings : Settings} {isIbkr hasReplacement hasHistory : Bool}
  {reports : PassReports}

/-- The outcome of a method whose answer is fixed. -/
theorem wp_askBroker_answer {call : BrokerCall} {r : Except Exn call.Ans}
    (h : ∀ c, P c → c.answer (.broker call) = r) (τ : List (Event sig)) (s : World Unit) :
    (openEnvironment.restrict P).system.wp (askBroker call)
      (fun out _ s' => s'.ledger = s.ledger ∧ (∀ a, out = .returned a → r = .ok a) ∧
        ∀ e, out = .raised e → r = .error e) τ s := by
  rw [wp_askBroker]
  refine ⟨⟨rfl, nofun, nofun⟩, fun c => ?_⟩
  have hanswer : ((openEnvironment.restrict P).answer c s.outside (.broker call)).1 = r :=
    h c.1 c.2
  rw [hanswer]
  cases r with
  | ok a => exact ⟨rfl, fun b hb => congrArg _ (Outcome.returned.inj hb), nofun⟩
  | error e => exact ⟨rfl, nofun, fun e' he => congrArg _ (Outcome.raised.inj he)⟩

/-- A method whose answer is fixed to a value returns it. -/
theorem wp_askBroker_ok {call : BrokerCall} {a : call.Ans}
    (h : ∀ c, P c → c.answer (.broker call) = .ok a) (τ : List (Event sig)) (s : World Unit) :
    (openEnvironment.restrict P).system.wp (askBroker call)
      (fun out _ _ => (∀ b, out = .returned b → b = a) ∧ ∀ e, out ≠ .raised e) τ s := by
  refine System.wp_mono _ (wp_askBroker_answer h τ s) fun out _ _ hout => ⟨fun b hb => ?_, ?_⟩
  · exact (Except.ok.inj (hout.2.1 b hb)).symm
  · exact fun e he => nomatch hout.2.2 e he

/-- The history query of a broker that has a history. -/
theorem wp_completedHistory (hP : ∀ c, P c → reports.Answers c)
    (hhistory : isIbkr = true ∨ hasHistory = true) (unmatched : List OrderLedgerEntry)
    (τ : List (Event sig)) (s : World Unit) :
    (openEnvironment.restrict P).system.wp
      ((protocolManager settings isIbkr hasReplacement hasHistory).completedHistory unmatched)
      (fun out _ s' => s'.ledger = s.ledger ∧
        (∀ completed, out = .returned completed → reports.completed = .ok completed) ∧
        ∀ e, out = .raised e → reports.completed = .error e) τ s := by
  unfold ExecutionManager.completedHistory protocolManager protocolBroker
  cases hasHistory with
  | true => exact wp_askBroker_answer (fun c hc => (hP c hc).2.1) τ s
  | false =>
    obtain rfl : isIbkr = true := by simpa using hhistory
    exact wp_askBroker_answer (fun c hc => (hP c hc).2.2 _ _) τ s

end Queries

end Poma

import Poma.Correctness.Attempts
import Poma.Correctness.Turns

/-!
# The ledgers the commands produce

Passes, stale-order checks and submission attempts are the commands that record
rows. A row under the reference of a replacement is only ever a rediscovered
order, which has no price to replace it from; a row that was replaced has the id
of its order. Every row of every ledger the commands produce keeps to this.
-/

namespace Poma

open Interaction

/-- A key that is the reference of a replacement. -/
def IsReplacementRef (key : String) : Prop := stripReplacementSuffix key ≠ key

/-- What holds of every row the commands record. -/
structure OrderLedgerEntry.Produced (row : OrderLedgerEntry) : Prop where
  references : row.WellReferenced
  accepted : 0 < row.replaceCount ∨ IsReplacementRef row.ledgerKey →
    row.orderId.isSome ∧ row.lifecycleState ≠ .planned
  unpriced : IsReplacementRef row.ledgerKey →
    row.replaceCount = 0 ∧ row.limitPrice = none ∧ row.referencePrice = none

/-- A row that a submission attempt may still record anew. -/
structure OrderLedgerEntry.Unplaced (row : OrderLedgerEntry) : Prop where
  key : ¬IsReplacementRef row.ledgerKey
  own : row.orderRef = row.ledgerKey
  unreplaced : row.replaceCount = 0
  unreserved : row.replacementOrderRef = none

theorem classifyLifecycle_ne_planned (rawStatus : String) (filled remaining : ℚ) :
    classifyLifecycle rawStatus filled remaining ≠ .planned := by
  unfold classifyLifecycle
  split_ifs <;> simp

theorem orElse_isSome {α : Type} {first second : Option α} (h : second.isSome) :
    (first <|> second).isSome := by
  cases first with
  | none => exact h
  | some a => rfl

/-- A reference that ends in neither a digit nor a newline is no replacement's. -/
theorem not_isReplacementRef {key : String} {c : Char} {rest : List Char}
    (hkey : key.toList.reverse = c :: rest) (hline : c ≠ '\n')
    (hdigit : isAsciiDigit c = false) : ¬IsReplacementRef key := by
  have hdrop : dropSuffixRev (c :: rest) = none := by
    simp [dropSuffixRev, List.span, List.span.loop, hdigit]
  refine not_not.mpr ?_
  unfold stripReplacementSuffix
  rw [hkey]
  split
  · rename_i heq
    exact absurd (List.cons.inj heq).1 hline
  · rw [hdrop]

/-- The reference of a trade ends in its side: it is no replacement's. -/
theorem buildOrderRef_not_replacement (runId : String) (index : Nat) (ticker : String)
    (side : OrderSide) : ¬IsReplacementRef (buildOrderRef runId index ticker side) := by
  unfold buildOrderRef
  generalize orderRefPrefix ++ ":" ++ runId ++ ":" ++ index.repr ++ ":" ++ ticker ++ ":" = start
  cases side with
  | buy =>
    have hside : OrderSide.buy.value.toList.reverse = ['Y', 'U', 'B'] := by decide
    exact not_isReplacementRef (by rw [String.toList_append, List.reverse_append, hside]; rfl)
      (by decide) (by decide)
  | sell =>
    have hside : OrderSide.sell.value.toList.reverse = ['L', 'L', 'E', 'S'] := by decide
    exact not_isReplacementRef (by rw [String.toList_append, List.reverse_append, hside]; rfl)
      (by decide) (by decide)

namespace OrderLedgerEntry.Produced

variable {row x : OrderLedgerEntry}

/-- A row under the reference of a replacement is under its own reference. -/
theorem shielded (h : row.Produced) (snapshots : List OpenOrderSnapshot) :
    row.Shielded snapshots := by
  rcases h.references.own with hown | ⟨_, hcount⟩
  · exact Or.inl hown
  · refine Or.inr (Or.inl (not_not.mp fun hkey => ?_))
    exact absurd (h.unpriced hkey).1 hcount.ne'

/-- An update that keeps the order, its prices and its replacements. -/
theorem of_update (h : row.Produced) (hreferences : x.WellReferenced)
    (hkey : x.ledgerKey = row.ledgerKey) (hcount : x.replaceCount = row.replaceCount)
    (hlimit : x.limitPrice = row.limitPrice) (hreference : x.referencePrice = row.referencePrice)
    (hid : row.orderId.isSome → x.orderId.isSome) (hstate : x.lifecycleState ≠ .planned) :
    x.Produced where
  references := hreferences
  accepted := by
    rw [hkey, hcount]
    exact fun hof => ⟨hid (h.accepted hof).1, hstate⟩
  unpriced := by
    rw [hkey, hcount, hlimit, hreference]
    exact h.unpriced

/-- An update of an order that was replaced, or that is replaced by it. -/
theorem of_replaced (hreferences : x.WellReferenced) (hkey : ¬IsReplacementRef x.ledgerKey)
    (hid : x.orderId.isSome) (hstate : x.lifecycleState ≠ .planned) : x.Produced where
  references := hreferences
  accepted _ := ⟨hid, hstate⟩
  unpriced hof := absurd hof hkey

theorem not_replacement_of_count (h : row.Produced) (hcount : 0 < row.replaceCount) :
    ¬IsReplacementRef row.ledgerKey :=
  fun hkey => absurd (h.unpriced hkey).1 hcount.ne'

/-- A row with a price to replace it from is not under the reference of a replacement. -/
theorem not_replacement_of_priced (h : row.Produced)
    (hpriced : row.limitPrice.isSome ∨ row.referencePrice.isSome) :
    ¬IsReplacementRef row.ledgerKey := by
  intro hkey
  obtain ⟨_, hlimit, hreference⟩ := h.unpriced hkey
  rw [hlimit, hreference] at hpriced
  exact hpriced.elim nofun nofun

/-- A row that leaves its trade free is one an attempt may record anew. -/
theorem unplaced (h : row.Produced) (hsendable : row.sendable = true) : row.Unplaced := by
  have hnot : ¬(row.orderId.isSome ∧ row.lifecycleState ≠ .planned) := by
    rintro ⟨hid, hstate⟩
    have hsendable := of_decide_eq_true hsendable
    rcases hsendable with hplanned | ⟨_, hnone, _⟩
    · exact hstate hplanned
    · rw [hnone] at hid
      cases hid
  have hcount : row.replaceCount = 0 :=
    Nat.eq_zero_of_not_pos fun hpos => hnot (h.accepted (Or.inl hpos))
  refine ⟨fun hkey => hnot (h.accepted (Or.inr hkey)), ?_, hcount, ?_⟩
  · exact h.references.own.elim id fun hown => absurd hcount hown.2.ne'
  · cases hreserved : row.replacementOrderRef with
    | none => rfl
    | some ref => exact absurd hcount (h.references.reserved ref hreserved).2.2.ne'

end OrderLedgerEntry.Produced

/-- A row of a trade that is not placed, or not yet known to be. -/
theorem OrderLedgerEntry.Unplaced.produced {row : OrderLedgerEntry} (h : row.Unplaced) :
    row.Produced where
  references := {
    own := Or.inl h.own
    reserved := fun ref href => by
      rw [h.unreserved] at href
      cases href }
  accepted hof := hof.elim (fun hcount => absurd h.unreplaced hcount.ne') fun hkey =>
    absurd hkey h.key
  unpriced hkey := absurd hkey h.key

theorem OrderLedgerEntry.Unplaced.withOrderResult {row : OrderLedgerEntry} (h : row.Unplaced)
    (result : OrderResult) (now : ℚ) : (row.withOrderResult result now).Unplaced :=
  ⟨h.key, h.own, h.unreplaced, h.unreserved⟩

/-- A restored order is produced. -/
theorem restored_produced {known : OrderStore} {snapshot : OpenOrderSnapshot}
    {entryAt : ℚ → OrderLedgerEntry} (h : restoreDecision known snapshot = .restore entryAt)
    (submitted now : ℚ) : ((entryAt submitted).withSnapshot snapshot now).Produced := by
  obtain ⟨_, hid, runId, hentry⟩ := restoreDecision_restore h
  rw [hentry]
  refine ⟨⟨Or.inl rfl, fun _ href => nomatch href⟩, fun _ => ⟨?_, ?_⟩, fun _ => ⟨rfl, rfl, rfl⟩⟩
  · exact orElse_isSome hid
  · exact classifyLifecycle_ne_planned _ _ _

theorem staleCancelled_produced {row : OrderLedgerEntry} (h : row.Produced) (label : String) :
    (staleCancelled row label).Produced :=
  h.of_update (h.references.of_eq rfl rfl le_rfl (Or.inr rfl)) rfl rfl rfl rfl id nofun

theorem Followed.produced {entry u : OrderLedgerEntry} {snapshot : OpenOrderSnapshot}
    (h : Followed entry snapshot u) (hentry : entry.Produced) : u.Produced := by
  have hreferences := h.wellReferenced hentry.references
  cases h with
  | kept stamp _ =>
    exact hentry.of_update hreferences rfl rfl rfl rfl orElse_isSome
      (classifyLifecycle_ne_planned _ _ _)
  | released stamp ref _ =>
    exact hentry.of_update hreferences rfl rfl rfl rfl orElse_isSome
      (classifyLifecycle_ne_planned _ _ _)

theorem Acted.produced {replies : OpenOrderSnapshot → Prop} {u x : OrderLedgerEntry}
    (h : Acted replies u x) (hid : u.orderId.isSome) (hu : u.Produced) : x.Produced := by
  have hreferences := h.wellReferenced hu.references
  cases h with
  | cancelRequested reason => exact hu.of_update hreferences rfl rfl rfl rfl id nofun
  | intent h =>
    exact .of_replaced hreferences (hu.not_replacement_of_priced h.priced) hid nofun
  | deferred h message =>
    exact .of_replaced hreferences (hu.not_replacement_of_priced h.priced) hid nofun
  | originalFilled h reply hs stamp =>
    exact .of_replaced hreferences (hu.not_replacement_of_priced h.priced) (orElse_isSome hid)
      (classifyLifecycle_ne_planned _ _ _)
  | replaced h reply hs newLimit metadata now stamp =>
    cases metadata <;> exact .of_replaced hreferences (hu.not_replacement_of_priced h.priced)
      (orElse_isSome hid) (classifyLifecycle_ne_planned _ _ _)

/-- Every row a pass records for a produced row is produced. -/
theorem Successor.produced {replies : OpenOrderSnapshot → Prop} {entry x : OrderLedgerEntry}
    {openSnapshots completed : List OpenOrderSnapshot}
    (h : Successor replies entry openSnapshots completed x) (hentry : entry.Produced) :
    x.Produced := by
  have hreferences := h.wellReferenced hentry.references fun snapshot hsight => by
    obtain ⟨ref, href, _⟩ := sighting_true hsight
    rw [href]
    rfl
  cases h with
  | adopted snapshot stamp h =>
    exact hentry.of_update hreferences rfl rfl rfl rfl orElse_isSome
      (classifyLifecycle_ne_planned _ _ _)
  | followed snapshot u h hu => exact hu.produced hentry
  | acted snapshot u x h hu hrecovered hworking hid hx =>
    exact hx.produced hid (hu.produced hentry)
  | resumed snapshot seen ref h href hcancelled reply hreply newLimit metadata now stamp =>
    have hcount := (hentry.references.reserved ref (OrderLedgerEntry.reservedRef_eq href)).2.2
    have hid := (hentry.accepted (Or.inl hcount)).1
    cases metadata <;> exact .of_replaced hreferences (hentry.not_replacement_of_count hcount)
      (orElse_isSome (orElse_isSome hid)) (classifyLifecycle_ne_planned _ _ _)
  | closed snapshot stamp hopen h hterminal =>
    exact hentry.of_update hreferences rfl rfl rfl rfl orElse_isSome
      (classifyLifecycle_ne_planned _ _ _)
  | unverified now hopen h => exact hentry.of_update hreferences rfl rfl rfl rfl id nofun

/-- A condition on every row of a ledger. -/
def OrderStore.All (P : OrderLedgerEntry → Prop) (store : OrderStore) : Prop :=
  ∀ row ∈ store.entries, P row

theorem OrderStore.All.upsert {P : OrderLedgerEntry → Prop} {store : OrderStore}
    (h : store.All P) {x : OrderLedgerEntry} (hx : P x) : (store.upsert x).All P := by
  intro row hrow
  rcases OrderStore.mem_upsert hrow with rfl | ⟨hmem, _⟩
  · exact hx
  · exact h row hmem

theorem OrderStore.All.reopened {P : OrderLedgerEntry → Prop} {store : OrderStore}
    (h : store.All P) : store.reopened.All P :=
  fun row hrow => h row (OrderStore.mem_reopened.mp hrow)

theorem OrderStore.All.atStart {P : OrderLedgerEntry → Prop} {store : OrderStore}
    (h : store.All P) (newProcess : Bool) : (store.atStart newProcess).All P :=
  fun row hrow => h row (OrderStore.mem_atStart.mp hrow)

/-- Whatever is read from the ledger, its rows meet the condition. -/
def ReadsRows (P : OrderLedgerEntry → Prop) : (o : Op) → Except Exn o.Ans → Prop
  | .loadLatestEntries, .ok store => OrderStore.All P store
  | _, _ => True

/-- Whatever is recorded meets the condition. -/
def Op.RecordsRow (P : OrderLedgerEntry → Prop) : Op → Prop
  | .upsert x => P x
  | _ => True

/-- A program that records rows of a kind, on ledgers of such rows, keeps such a ledger. -/
theorem wp_allRows {W α : Type} (E : Environment W) {P : OrderLedgerEntry → Prop} {p : M α}
    {R : α → Prop} (hp : p.Meets (S := sig) (ReadsRows P) (Op.RecordsRow P) R)
    (τ : List (Event sig)) {s : World W} (hs : s.ledger.All P) :
    E.system.wp p (fun _ _ s' => s'.ledger.All P) τ s := by
  refine E.system.wp_mono (E.system.wp_of_meets (I := fun _ s' => s'.ledger.All P) hp ?_ hs)
    fun _ _ _ h => h.1
  intro o ho c τ s' hs'
  rw [act_ledger E c s' o]
  cases o with
  | loadLatestEntries => exact ⟨hs', hs'⟩
  | upsert x => exact ⟨trivial, hs'.upsert ho⟩
  | _ => exact ⟨trivial, hs'⟩

section Commands

variable {settings : Settings} {isIbkr hasReplacement hasHistory : Bool}

theorem reconcile_produced :
    (protocolManager settings isIbkr hasReplacement hasHistory).reconcile.Meets (S := sig)
      (ReadsRows OrderLedgerEntry.Produced) (Op.RecordsRow OrderLedgerEntry.Produced)
      fun _ => True :=
  reconcile_meets (protocolBroker_within _ _ _ fun _ _ => trivial) trivial trivial
    (fun _ hstore => hstore) (fun _ _ _ submitted now h => restored_produced h submitted now)
    fun _ _ _ _ hentry hx => hx.produced hentry

theorem checkStaleOrders_produced (sessionDate runId : String) :
    ((protocolManager settings isIbkr hasReplacement hasHistory).checkStaleOrders sessionDate
      runId).Meets (S := sig) (ReadsRows OrderLedgerEntry.Produced)
      (Op.RecordsRow OrderLedgerEntry.Produced) fun _ => True :=
  checkStaleOrders_meets trivial (fun _ hstore => hstore) reconcile_produced
    (fun _ => Prog.uses_perform (S := sig) trivial)
    (fun _ label hentry _ _ => staleCancelled_produced hentry label) sessionDate runId

/-- A trade of an attempt is under a reference that is no replacement's. -/
theorem FreshIn.not_replacement {store : OrderStore} (hstore : store.All OrderLedgerEntry.Produced)
    {plan : RebalancePlan} {trade : ProposedTrade} (h : FreshIn store plan trade) :
    ¬IsReplacementRef trade.ref := by
  have htag : ∃ index planned, trade.ref = tagRef store plan.runId index planned := by
    rcases List.mem_append.mp h.1 with hmem | hmem
    all_goals
      obtain ⟨i, hi, heq⟩ := List.mem_mapIdx.mp hmem
      exact ⟨_, _, congrArg ProposedTrade.ref heq.symm⟩
  obtain ⟨index, planned, href⟩ := htag
  unfold tagRef at href
  split at href
  · rename_i prior hprior
    have hmem : prior ∈ store.entries := List.mem_of_mem_filter (List.mem_of_getLast? hprior)
    have hlatest := OrderStore.latest_of_mem hmem
    rw [← href] at hlatest
    rw [href]
    exact ((hstore prior hmem).unplaced (h.2 prior hlatest)).key
  · rw [href]
    exact buildOrderRef_not_replacement _ _ _ _

/-- The references an attempt on a ledger may record. -/
def FreshKey (store : OrderStore) (plan : RebalancePlan) (key : String) : Prop :=
  ∃ trade, FreshIn store plan trade ∧ trade.ref = key

/-- A row as an attempt on a ledger leaves it. -/
def AttemptRow (store : OrderStore) (plan : RebalancePlan) (row : OrderLedgerEntry) : Prop :=
  row.Produced ∧ (FreshKey store plan row.ledgerKey → row.Unplaced)

theorem attemptRow_of_produced {store : OrderStore}
    (hstore : store.All OrderLedgerEntry.Produced) (plan : RebalancePlan) :
    store.All (AttemptRow store plan) := by
  refine fun row hrow => ⟨hstore row hrow, ?_⟩
  rintro ⟨trade, hfresh, href⟩
  exact (hstore row hrow).unplaced (hfresh.2 row (href ▸ OrderStore.latest_of_mem hrow))

/-- The result of a trade is recorded on the open row of its reference, or on a planned row. -/
theorem meets_recordResult {rely : (o : Op) → Except Exn o.Ans → Prop} {guarantee : Op → Prop}
    {plan : RebalancePlan} {trade : ProposedTrade} {result : OrderResult}
    (hload : guarantee .loadLatestEntries) (hclock : guarantee .utcNow)
    (hrow : ∀ (store : OrderStore) row now, rely .loadLatestEntries (.ok store) →
      store.latest trade.ref = some row → row.isTerminal = false →
      guarantee (.upsert (row.withOrderResult result now)))
    (hplanned : ∀ now, guarantee (.upsert ((plannedEntry plan trade).withOrderResult result now))) :
    (recordResult plan trade result).Meets (S := sig) rely guarantee fun _ => True := by
  unfold recordResult
  refine Prog.meets_bind (meets_loadLatest hload) fun (store : OrderStore) hstore => ?_
  refine Prog.meets_bind (meets_utcNow hclock) fun now _ => meets_upsertEntry ?_
  cases hget : store.get trade.ref with
  | none => exact hplanned now
  | some row =>
    rw [OrderStore.get_eq] at hget
    obtain ⟨hlatest, hopen⟩ := Option.filter_eq_some_iff.mp hget
    exact hrow store row now hstore hlatest (by simpa using hopen)

/-- What an attempt on a ledger may do: it records rows of its own references, hands trades under
these to the broker, and follows up no order. -/
def Op.OfAttempt (store : OrderStore) (plan : RebalancePlan) : Op → Prop
  | .upsert x => FreshKey store plan x.ledgerKey ∧ AttemptRow store plan x
  | .broker (.submitTrades trades) => ∀ trade ∈ trades, FreshKey store plan trade.ref
  | .broker (.cancelOrder _) => False
  | .broker (.replaceOrder _) => False
  | .broker (.submitReplacement _) => False
  | _ => True

theorem attemptMeets_produced {store : OrderStore}
    (hstore : store.All OrderLedgerEntry.Produced) (plan : RebalancePlan) :
    AttemptMeets (protocolManager settings isIbkr hasReplacement hasHistory) plan (some observe)
      (ReadsRows (AttemptRow store plan))
      (Op.OfAttempt store plan) (FreshIn store plan) fun trade => FreshKey store plan trade.ref := by
  have hkeys : ∀ trade, FreshIn store plan trade ∨ FreshKey store plan trade.ref →
      FreshKey store plan trade.ref := fun trade h => h.elim (fun h => ⟨trade, h, rfl⟩) id
  have hplanned : ∀ trade, FreshKey store plan trade.ref → (plannedEntry plan trade).Unplaced := by
    rintro trade ⟨other, hfresh, href⟩
    have hkey : ¬IsReplacementRef trade.ref := href ▸ hfresh.not_replacement hstore
    exact ⟨hkey, rfl, rfl, rfl⟩
  have hrow : ∀ row : OrderLedgerEntry, FreshKey store plan row.ledgerKey → row.Unplaced →
      Op.OfAttempt store plan (.upsert row) := fun row hkey h => ⟨hkey, h.produced, fun _ => h⟩
  have hresult : ∀ trade result, FreshKey store plan trade.ref →
      (recordResult plan trade result).Meets (S := sig) (ReadsRows (AttemptRow store plan))
        (Op.OfAttempt store plan) fun _ => True := by
    intro trade result hfresh
    refine meets_recordResult trivial trivial (fun store' row now hrows hlatest _ => ?_)
      fun now => hrow _ hfresh ((hplanned trade hfresh).withOrderResult result now)
    have hkey := OrderStore.latest_key hlatest
    have hunplaced := (hrows row (OrderStore.latest_mem hlatest)).2 (hkey ▸ hfresh)
    exact hrow _ (show FreshKey store plan row.ledgerKey from hkey ▸ hfresh)
      (hunplaced.withOrderResult result now)
  have hnotified : ∀ trade result, (notify (some observe) trade result).Meets (S := sig)
      (ReadsRows (AttemptRow store plan)) (Op.OfAttempt store plan) fun _ => True :=
    fun _ _ => (Prog.meets_perform (S := sig) trivial).mono (fun _ ho => ho) fun _ _ => trivial
  exact {
    repriced := fun trade updated h hof => by
      have href : updated.ref = trade.ref := by rw [ProposedTrade.ref, hof.orderRef]; rfl
      exact href ▸ ⟨trade, h, rfl⟩
    unpriced := fun _ trade h => ⟨trade, h, rfl⟩
    trimmed := by
      rintro trade less h ⟨shortfall, _, _, rfl⟩
      exact h
    planned := fun trade h => hrow _ (hkeys trade h) (hplanned trade (hkeys trade h))
    result := fun trade result h => hresult trade result (hkeys trade h)
    notified := hnotified
    quotes := fun _ => meets_askBroker trivial
    account := meets_askBroker trivial
    sleep := fun _ => trivial
    submit := fun trades h => meets_protocolSubmit (fun trade hmem result =>
      hresult trade result (h trade hmem)) hnotified (fun call h => by cases call <;> trivial) h }

/-- An attempt keeps the ledger produced, leaves the rows of other references alone and does
nothing but what an attempt may do. -/
theorem wp_submitPlan_ofAttempt {W : Type} (E : Environment W) (plan : RebalancePlan)
    (τ : List (Event sig)) {s : World W} (hs : s.ledger.All OrderLedgerEntry.Produced) :
    E.system.wp ((protocolManager settings isIbkr hasReplacement hasHistory).submitPlan plan
      (some observe)) (fun _ τ' s' => s'.ledger.All OrderLedgerEntry.Produced ∧
        Grows (Op.OfAttempt s.ledger plan) τ τ' ∧
        ∀ key, ¬FreshKey s.ledger plan key → s'.ledger.latest key = s.ledger.latest key) τ s := by
  have hread : ∀ {τ'}, Grows (· = .loadLatestEntries) τ τ' →
      Grows (Op.OfAttempt s.ledger plan) τ τ' := by
    rintro τ' ⟨added, rfl, hadded⟩
    exact ⟨added, rfl, fun event hevent => (hadded event hevent).symm ▸ trivial⟩
  refine wp_submitPlan E _ plan _ (fun τ' hτ' => ⟨hs, hread hτ', fun _ _ => rfl⟩) fun τ' hτ' => ?_
  refine E.system.wp_mono (E.system.wp_of_meets (I := fun τ'' s' =>
    s'.ledger.All (AttemptRow s.ledger plan) ∧ Grows (Op.OfAttempt s.ledger plan) τ τ'' ∧
      ∀ key, ¬FreshKey s.ledger plan key → s'.ledger.latest key = s.ledger.latest key)
    (meets_attemptPhases (attemptMeets_produced hs plan)) ?_
    ⟨attemptRow_of_produced hs plan, hread hτ', fun _ _ => rfl⟩)
    fun _ _ s' h => ⟨fun row hrow => (h.1.1 row hrow).1, h.1.2⟩
  rintro o ho c τ₁ s₁ ⟨hrows, hgrows, hkept⟩
  have hone : Grows (Op.OfAttempt s.ledger plan) τ₁ (τ₁ ++ [⟨o, (E.system.act c s₁ o).1⟩]) :=
    .one ho τ₁
  have hgrown := hgrows.trans hone
  rw [act_ledger E c s₁ o]
  cases o with
  | loadLatestEntries => exact ⟨hrows, hrows, hgrown, hkept⟩
  | upsert x =>
    refine ⟨trivial, hrows.upsert ho.2, hgrown, fun key hkey => ?_⟩
    have hne : x.ledgerKey ≠ key := by
      rintro rfl
      exact hkey ho.1
    exact (OrderStore.latest_upsert_of_ne hne).trans (hkept key hkey)
  | _ => exact ⟨trivial, hrows, hgrown, hkept⟩

end Commands

/-- The commands of the process, each with everything its environment decides. -/
inductive Command where
  | reconcile
  | checkStaleOrders (sessionDate runId : String)
  | submitPlan (plan : RebalancePlan)

/-- One process that runs a command, and may be killed in it. -/
structure Step where
  settings : Settings
  isIbkr : Bool
  hasReplacement : Bool
  hasHistory : Bool
  /-- Whether the process is a new one, which reads the ledger from its files. -/
  newProcess : Bool := true
  command : Command
  choices : List openWorld.Choice

namespace Step

/-- The manager of the process. -/
def manager (step : Step) : ExecutionManager :=
  protocolManager step.settings step.isIbkr step.hasReplacement step.hasHistory

/-- What the process runs. -/
def program (step : Step) : M Unit :=
  match step.command with
  | .reconcile => step.manager.reconcile.bind fun _ => .ret ()
  | .checkStaleOrders sessionDate runId =>
    (step.manager.checkStaleOrders sessionDate runId).bind fun _ => .ret ()
  | .submitPlan plan => (step.manager.submitPlan plan (some observe)).bind fun _ => .ret ()

/-- The process on a ledger. -/
def run (step : Step) (store : OrderStore) : Run sig (World Unit) Unit :=
  openWorld.run step.program step.choices (World.of (store.atStart step.newProcess))

/-- The ledger the process leaves. -/
def after (step : Step) (store : OrderStore) : OrderStore := (step.run store).state.ledger

end Step

/-- The ledgers processes can find or leave, from a fresh installation on. -/
inductive Reached : OrderStore → Prop
  | empty : Reached OrderStore.empty
  | step {store : OrderStore} (h : Reached store) (step : Step) : Reached (step.after store)
  | reopened {store : OrderStore} (h : Reached store) : Reached store.reopened

theorem Reached.atStart {store : OrderStore} (h : Reached store) (newProcess : Bool) :
    Reached (store.atStart newProcess) := by
  unfold OrderStore.atStart
  split
  · exact h.reopened
  · exact h

/-- A command run for its effect alone ends as the command does. -/
theorem wp_bind_unit {W α : Type} (E : Environment W) {p : M α}
    {Q : List (Event sig) → World W → Prop} {τ : List (Event sig)} {s : World W} (h : E.system.wp p (fun _ τ' s' => Q τ' s') τ s) :
    E.system.wp (p.bind fun _ => .ret ()) (fun _ τ' s' => Q τ' s') τ s :=
  E.system.wp_seq h (fun _ _ _ hq => hq) (fun _ _ _ hq => hq) fun _ _ hq => hq

/-- Every command keeps the rows of a ledger produced. -/
theorem Step.after_produced {store : OrderStore} (hstore : store.All OrderLedgerEntry.Produced)
    (step : Step) : (step.after store).All OrderLedgerEntry.Produced := by
  have hstore := hstore.atStart step.newProcess
  refine openWorld.wp_run (p := step.program) (s := World.of (store.atStart step.newProcess))
    (Q := fun _ _ s' => s'.ledger.All OrderLedgerEntry.Produced) ?_ step.choices
  unfold Step.program
  cases step.command with
  | reconcile =>
    exact wp_bind_unit openEnvironment (wp_allRows openEnvironment reconcile_produced [] hstore)
  | checkStaleOrders sessionDate runId =>
    exact wp_bind_unit openEnvironment
      (wp_allRows openEnvironment (checkStaleOrders_produced sessionDate runId) [] hstore)
  | submitPlan plan =>
    exact wp_bind_unit openEnvironment (openWorld.wp_mono
      (wp_submitPlan_ofAttempt openEnvironment plan [] hstore) fun _ _ _ h => h.1)

/-- Every row of a reached ledger is produced. -/
theorem Reached.produced {store : OrderStore} (h : Reached store) :
    store.All OrderLedgerEntry.Produced := by
  induction h with
  | empty => exact List.forall_mem_nil _
  | step h step ih => exact step.after_produced ih
  | reopened h ih => exact ih.reopened

end Poma

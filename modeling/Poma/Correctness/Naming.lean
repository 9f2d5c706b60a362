import Poma.Correctness.References

/-!
# What references name

The key of a row names the run, the ticker and the side of the row, in every
ledger the commands produce. Two trades of a plan that differ in ticker or side
are therefore never tagged with one reference, whichever rows are there already
and wherever in the plan they stand.
-/

namespace Poma

open Interaction

/-- A key under which the orders of a run go for an instrument and a side. -/
def Names (key runId ticker : String) (side : OrderSide) : Prop :=
  ∃ index, ColonFree index ∧ stripReplacementSuffix key = refText runId index ticker side

/-- A row whose key names it. -/
def OrderLedgerEntry.Named (row : OrderLedgerEntry) : Prop :=
  Names row.ledgerKey row.runId row.ticker row.side

/-- A trade of a run whose reference names it. -/
def ProposedTrade.NamedIn (runId : String) (trade : ProposedTrade) : Prop :=
  Names trade.ref runId trade.ticker trade.side

section Texts

variable {runId : String}

/-- The last two parts of a reference are read off it, whatever the ticker holds. -/
theorem refText_instrument {index index' ticker ticker' : String} {side side' : OrderSide}
    (hindex : ColonFree index) (hindex' : ColonFree index')
    (h : refText runId index ticker side = refText runId index' ticker' side') :
    index = index' ∧ ticker = ticker' ∧ side = side' := by
  have hsplit := congrArg splitColon h
  unfold refText at hsplit
  simp only [splitColon_append, splitColon_of_colonFree hindex, splitColon_of_colonFree hindex',
    splitColon_of_colonFree (colonFree_side _), List.append_assoc] at hsplit
  have hrest := List.append_cancel_left (List.append_cancel_left hsplit)
  rw [List.singleton_append, List.singleton_append, List.cons.injEq] at hrest
  obtain ⟨hticker, hside⟩ := List.append_inj' hrest.2 rfl
  refine ⟨hrest.1, ?_, OrderSide.value_injective (List.cons.inj hside).1⟩
  rw [← intercalate_splitColon ticker, hticker, intercalate_splitColon]

theorem names_buildOrderRef (runId : String) (index : Nat) (ticker : String) (side : OrderSide) :
    Names (buildOrderRef runId index ticker side) runId ticker side :=
  ⟨index.repr, colonFree_of_isDigits (isDigits_repr index),
    not_not.mp (buildOrderRef_not_replacement runId index ticker side)⟩

/-- A side that begins with another one is that one. -/
theorem OrderSide.eq_of_append {side side' : OrderSide} {rest : String}
    (h : side.value ++ rest = side'.value) : side = side' := by
  have hchars := congrArg String.toList h
  rw [String.toList_append] at hchars
  cases side with
  | buy =>
    cases side' with
    | buy => rfl
    | sell => cases (List.cons.inj hchars).1
  | sell =>
    cases side' with
    | buy => cases (List.cons.inj hchars).1
    | sell => rfl

/-- A reference of plain parts begins no other such reference. -/
theorem refText_eq_of_starts {runId' index index' ticker ticker' : String} {side side' : OrderSide}
    (hrun : ColonFree runId) (hindex : ColonFree index) (hticker : ColonFree ticker)
    (hrun' : ColonFree runId') (hindex' : ColonFree index') (hticker' : ColonFree ticker')
    (h : (refText runId index ticker side).toList <+: (refText runId' index' ticker' side').toList) :
    refText runId index ticker side = refText runId' index' ticker' side' := by
  obtain ⟨rest, hrest⟩ := h
  have htext : orderRefPrefix ++ ":" ++ runId ++ ":" ++ index ++ ":" ++ ticker ++ ":" ++
      (side.value ++ String.ofList rest) = refText runId' index' ticker' side' := by
    rw [← String.toList_inj, ← hrest, refText]
    simp only [String.toList_append, String.toList_ofList, List.append_assoc]
  have hsplit := congrArg splitColon htext
  rw [splitColon_refText hindex' hticker', splitColon_of_colonFree hrun'] at hsplit
  simp only [splitColon_append, splitColon_of_colonFree colonFree_prefix,
    splitColon_of_colonFree hrun, splitColon_of_colonFree hindex, splitColon_of_colonFree hticker,
    List.cons_append, List.nil_append, List.cons.injEq, true_and] at hsplit
  obtain ⟨rfl, rfl, rfl, hside⟩ := hsplit
  have hvalue : side.value ++ String.ofList rest = side'.value := by
    rw [← intercalate_splitColon (side.value ++ String.ofList rest), hside,
      String.intercalate_singleton]
  rw [OrderSide.eq_of_append hvalue]

/-- A key begins with the reference it names. -/
theorem Names.root_starts {key ticker : String} {side : OrderSide} (h : Names key runId ticker side) :
    (stripReplacementSuffix key).toList <+: key.toList := by
  apply stripReplacementSuffix_starts
  obtain ⟨index, _, hkey⟩ := h
  rw [hkey, refText, String.toList_append, List.getLast?_append]
  cases side with
  | buy =>
    have hlast : OrderSide.buy.value.toList.getLast? = some 'Y' := by decide
    rw [hlast]
    simp
  | sell =>
    have hlast : OrderSide.sell.value.toList.getLast? = some 'L' := by decide
    rw [hlast]
    simp

/-- Keys of plain parts that begin one text are of one family. -/
theorem Names.family {key key' runId' ticker ticker' : String} {side side' : OrderSide}
    (h : Names key runId ticker side) (h' : Names key' runId' ticker' side')
    (hplain : ColonFree runId ∧ ColonFree ticker) (hplain' : ColonFree runId' ∧ ColonFree ticker')
    {text : List Char} (hstart : key.toList <+: text) (hstart' : key'.toList <+: text) :
    stripReplacementSuffix key = stripReplacementSuffix key' := by
  have hroot := h.root_starts.trans hstart
  have hroot' := h'.root_starts.trans hstart'
  obtain ⟨index, hindex, hkey⟩ := h
  obtain ⟨index', hindex', hkey'⟩ := h'
  rw [hkey] at hroot ⊢
  rw [hkey'] at hroot' ⊢
  rcases List.prefix_or_prefix_of_prefix hroot hroot' with hfirst | hsecond
  · exact refText_eq_of_starts hplain.1 hindex hplain.2 hplain'.1 hindex' hplain'.2 hfirst
  · exact (refText_eq_of_starts hplain'.1 hindex' hplain'.2 hplain.1 hindex hplain.2 hsecond).symm

/-- A key names one instrument and side of a run. -/
theorem Names.unique {key ticker ticker' : String} {side side' : OrderSide}
    (h : Names key runId ticker side) (h' : Names key runId ticker' side') :
    ticker = ticker' ∧ side = side' := by
  obtain ⟨index, hindex, hkey⟩ := h
  obtain ⟨index', hindex', hkey'⟩ := h'
  exact (refText_instrument hindex hindex' (hkey.symm.trans hkey')).2

end Texts

/-- A restored order is named by its key. -/
theorem restored_named {known : OrderStore} {snapshot : OpenOrderSnapshot}
    {entryAt : ℚ → OrderLedgerEntry} (h : restoreDecision known snapshot = .restore entryAt)
    (submitted now : ℚ) : ((entryAt submitted).withSnapshot snapshot now).Named := by
  obtain ⟨runId, hreads, hentry⟩ := readsAs_of_restore h
  obtain ⟨digits, hdigits, htext⟩ := hreads.text
  rw [hentry]
  exact ⟨digits, colonFree_of_isDigits hdigits, htext⟩

theorem SameOrder.named {entry x : OrderLedgerEntry} (h : SameOrder entry x)
    (hentry : entry.Named) : x.Named := by
  unfold OrderLedgerEntry.Named
  rw [h.ledgerKey, h.runId, h.ticker, h.side]
  exact hentry

section Tags

variable {store : OrderStore} {plan : RebalancePlan}

/-- The row a reference is taken over from. -/
theorem getLatestRunTrades_spec {runId ticker : String} {side : OrderSide} {prior : OrderLedgerEntry}
    (h : store.getLatestRunTrades runId ticker side = some prior) :
    prior ∈ store.entries ∧ prior.runId = runId ∧ prior.ticker = ticker ∧ prior.side = side := by
  have hmem := List.mem_of_getLast? h
  rw [List.mem_filter, decide_eq_true_eq] at hmem
  exact hmem

theorem tagRef_names (hstore : store.All OrderLedgerEntry.Named) (runId : String) (index : Nat)
    (trade : ProposedTrade) :
    Names (tagRef store runId index trade) runId trade.ticker trade.side := by
  unfold tagRef
  cases hprior : store.getLatestRunTrades runId trade.ticker trade.side with
  | none => exact names_buildOrderRef _ _ _ _
  | some prior =>
    obtain ⟨hmem, hrun, hticker, hside⟩ := getLatestRunTrades_spec hprior
    have hnamed := hstore prior hmem
    unfold OrderLedgerEntry.Named at hnamed
    rwa [hrun, hticker, hside] at hnamed

/-- The tagged trades are the sells and then the buys, each tagged for its position. -/
theorem taggedTrades_eq (store : OrderStore) (plan : RebalancePlan) :
    taggedTrades store plan = (plan.sells ++ plan.buys).mapIdx fun index trade =>
      { trade with orderRef := some (tagRef store plan.runId index trade) } := by
  unfold taggedTrades tagTrades
  rw [List.mapIdx_append]
  simp only [Nat.zero_add, Nat.add_comm plan.sells.length]

/-- Every tagged trade is named by its reference. -/
theorem taggedTrades_named (hstore : store.All OrderLedgerEntry.Named) {trade : ProposedTrade}
    (h : trade ∈ taggedTrades store plan) : trade.NamedIn plan.runId := by
  rw [taggedTrades_eq] at h
  obtain ⟨index, hindex, rfl⟩ := List.mem_mapIdx.mp h
  exact tagRef_names hstore plan.runId index _

/-- A plan with one trade for a ticker and side. -/
def RebalancePlan.Distinct (plan : RebalancePlan) : Prop :=
  (plan.trades.map fun trade => (trade.ticker, trade.side)).Nodup

theorem RebalancePlan.Distinct.staged (h : plan.Distinct) :
    ((plan.sells ++ plan.buys).map fun trade => (trade.ticker, trade.side)).Nodup := by
  rw [List.map_append, List.nodup_append]
  refine ⟨h.sublist (List.filter_sublist.map _), h.sublist (List.filter_sublist.map _), ?_⟩
  rintro _ hsell _ hbuy rfl
  obtain ⟨sell, hsell, hpair⟩ := List.mem_map.mp hsell
  obtain ⟨buy, hbuy, hsame⟩ := List.mem_map.mp hbuy
  have hsellSide : sell.side = .sell := of_decide_eq_true (List.mem_filter.mp hsell).2
  have hbuySide : buy.side = .buy := of_decide_eq_true (List.mem_filter.mp hbuy).2
  have hsides := congrArg Prod.snd (hsame.trans hpair.symm)
  rw [hsellSide, hbuySide] at hsides
  cases hsides

/-- Trades of different tickers or sides are tagged with different references. -/
theorem taggedRefs_nodup (hstore : store.All OrderLedgerEntry.Named) (hplan : plan.Distinct) :
    ((taggedTrades store plan).map (·.ref)).Nodup := by
  rw [taggedTrades_eq, List.nodup_iff_injective_getElem]
  rintro ⟨i, hi⟩ ⟨j, hj⟩ hsame
  simp only [List.getElem_map, List.getElem_mapIdx] at hsame
  simp only [List.length_map, List.length_mapIdx] at hi hj
  have hrefs : tagRef store plan.runId i (plan.sells ++ plan.buys)[i] =
      tagRef store plan.runId j (plan.sells ++ plan.buys)[j] := hsame
  have hnames := tagRef_names hstore plan.runId i (plan.sells ++ plan.buys)[i]
  rw [hrefs] at hnames
  have hunique := hnames.unique (tagRef_names hstore plan.runId j (plan.sells ++ plan.buys)[j])
  let pairs := (plan.sells ++ plan.buys).map fun trade => (trade.ticker, trade.side)
  have hi' : i < pairs.length := (List.length_map _).symm ▸ hi
  have hj' : j < pairs.length := (List.length_map _).symm ▸ hj
  have hpair : pairs[i] = pairs[j] := by
    simp only [pairs, List.getElem_map]
    exact Prod.ext hunique.1 hunique.2
  exact Fin.ext (hplan.staged.getElem_inj_iff.mp hpair)

end Tags

section Commands

variable {settings : Settings} {isIbkr hasReplacement hasHistory : Bool}

theorem reconcile_named :
    (protocolManager settings isIbkr hasReplacement hasHistory).reconcile.Meets (S := sig)
      (ReadsRows OrderLedgerEntry.Named) (Op.RecordsRow OrderLedgerEntry.Named) fun _ => True :=
  reconcile_meets (protocolBroker_within _ _ _ fun _ _ => trivial) trivial trivial
    (fun _ hstore => hstore) (fun _ _ _ submitted now h => restored_named h submitted now)
    fun _ _ _ _ hentry hx => hx.sameOrder.named hentry

theorem checkStaleOrders_named (sessionDate runId : String) :
    ((protocolManager settings isIbkr hasReplacement hasHistory).checkStaleOrders sessionDate
      runId).Meets (S := sig) (ReadsRows OrderLedgerEntry.Named)
      (Op.RecordsRow OrderLedgerEntry.Named) fun _ => True :=
  checkStaleOrders_meets trivial (fun _ hstore => hstore) reconcile_named
    (fun _ => Prog.uses_perform (S := sig) trivial) (fun _ _ hentry _ _ => hentry) sessionDate runId

/-- An attempt with trades named in its run records named rows. -/
theorem attemptMeets_named (plan : RebalancePlan) {fresh : ProposedTrade → Prop}
    (hfresh : ∀ trade, fresh trade → trade.NamedIn plan.runId) :
    AttemptMeets (protocolManager settings isIbkr hasReplacement hasHistory) plan (some observe)
      (ReadsRows OrderLedgerEntry.Named) (Op.RecordsRow OrderLedgerEntry.Named) fresh
      (ProposedTrade.NamedIn plan.runId) := by
  have hresult : ∀ trade result, trade.NamedIn plan.runId → (recordResult plan trade result).Meets
      (S := sig) (ReadsRows OrderLedgerEntry.Named) (Op.RecordsRow OrderLedgerEntry.Named)
      fun _ => True := by
    intro trade result htrade
    apply meets_recordResult trivial trivial
    · intro store row now hrows hlatest _
      exact hrows row (OrderStore.latest_mem hlatest)
    · exact fun _ => htrade
  have hnotified : ∀ trade result, (notify (some observe) trade result).Meets (S := sig)
      (ReadsRows OrderLedgerEntry.Named) (Op.RecordsRow OrderLedgerEntry.Named) fun _ => True :=
    fun _ _ => (Prog.meets_perform (S := sig) trivial).mono (fun _ ho => ho) fun _ _ => trivial
  exact {
    repriced := fun trade updated h hof => by
      have href : updated.ref = trade.ref := by rw [ProposedTrade.ref, hof.orderRef]; rfl
      unfold ProposedTrade.NamedIn
      rw [href, hof.ticker, hof.side]
      exact hfresh trade h
    unpriced := fun _ trade h => hfresh trade h
    trimmed := by
      rintro trade less h ⟨shortfall, _, _, rfl⟩
      exact h
    planned := fun trade h => h.elim (hfresh trade) id
    result := fun trade result h => hresult trade result (h.elim (hfresh trade) id)
    notified := hnotified
    quotes := fun _ => meets_askBroker trivial
    account := meets_askBroker trivial
    sleep := fun _ => trivial
    submit := fun trades h => meets_protocolSubmit (fun trade hmem result =>
      hresult trade result (h trade hmem)) hnotified (fun call h => by cases call <;> trivial)
      trivial }

/-- Every command keeps the rows of a ledger named. -/
theorem Step.after_named {store : OrderStore} (hstore : store.All OrderLedgerEntry.Named)
    (step : Step) : (step.after store).All OrderLedgerEntry.Named := by
  have hstore := hstore.atStart step.newProcess
  apply openWorld.wp_run (p := step.program) (s := World.of (store.atStart step.newProcess))
    (Q := fun _ _ s' => s'.ledger.All OrderLedgerEntry.Named)
  unfold Step.program
  cases step.command with
  | reconcile =>
    exact wp_bind_unit openEnvironment (wp_allRows openEnvironment reconcile_named [] hstore)
  | checkStaleOrders sessionDate runId =>
    exact wp_bind_unit openEnvironment
      (wp_allRows openEnvironment (checkStaleOrders_named sessionDate runId) [] hstore)
  | submitPlan plan =>
    apply wp_bind_unit openEnvironment
    apply wp_submitPlan openEnvironment
    · exact fun _ _ => hstore
    · intro τ' _
      apply wp_allRows openEnvironment (meets_attemptPhases (attemptMeets_named plan ?_)) τ' hstore
      exact fun trade htrade => taggedTrades_named hstore htrade.1

/-- Every row of a reached ledger is named. -/
theorem Reached.named {store : OrderStore} (h : Reached store) :
    store.All OrderLedgerEntry.Named := by
  induction h with
  | empty => exact List.forall_mem_nil _
  | step h step ih => exact step.after_named ih
  | reopened h ih => exact ih.reopened

end Commands

end Poma

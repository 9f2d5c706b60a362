import Poma.Correctness.Recovered

/-!
# Turns and passes by their traces

The trace of a pass tells what it was answered. Whatever a turn of a row does to
an order is justified by the report of that row in the same pass, and the row it
leaves is the row it met or one of its successors.
-/

namespace Poma

open Interaction

/-- An operation was answered so in the trace. -/
def AnsweredIn (τ : List (Event sig)) (o : Op) (r : Except Exn o.Ans) : Prop :=
  (⟨o, r⟩ : Event sig) ∈ τ

/-- A quote request for the tickers was answered by the quotes. -/
def QuotedIn (τ : List (Event sig)) (tickers : List String)
    (quotes : List (String × ExecutionQuote)) : Prop :=
  (⟨.broker (.executionQuotes tickers), .ok quotes⟩ : Event sig) ∈ τ

/-- A replacement request was answered by the snapshot. -/
def RepliedIn (τ : List (Event sig)) (snapshot : OpenOrderSnapshot) : Prop :=
  (∃ request, (⟨.broker (.replaceOrder request), .ok snapshot⟩ : Event sig) ∈ τ) ∨
    ∃ request, (⟨.broker (.submitReplacement request), .ok snapshot⟩ : Event sig) ∈ τ

/-- A request to replace the order of a row, or to place what the row reserved, was answered by
the snapshot. -/
def RepliedFor (row : OrderLedgerEntry) (τ : List (Event sig)) (snapshot : OpenOrderSnapshot) :
    Prop :=
  (∃ request, (⟨.broker (.replaceOrder request), .ok snapshot⟩ : Event sig) ∈ τ ∧
    request.orderRef = row.ledgerKey ++ ":r1") ∨
    ∃ request, (⟨.broker (.submitReplacement request), .ok snapshot⟩ : Event sig) ∈ τ ∧
      row.reservedRef = some request.orderRef

theorem RepliedFor.mono {row : OrderLedgerEntry} {τ τ' : List (Event sig)}
    (hsub : ∀ event ∈ τ, event ∈ τ') {snapshot : OpenOrderSnapshot}
    (h : RepliedFor row τ snapshot) : RepliedFor row τ' snapshot :=
  h.imp (fun ⟨request, h, href⟩ => ⟨request, hsub _ h, href⟩) fun ⟨request, h, href⟩ =>
    ⟨request, hsub _ h, href⟩

theorem Acted.mono {replies more : OpenOrderSnapshot → Prop} (hmore : ∀ s, replies s → more s)
    {u x : OrderLedgerEntry} (h : Acted replies u x) : Acted more u x := by
  cases h with
  | cancelRequested reason => exact .cancelRequested reason
  | intent h => exact .intent h
  | deferred h message => exact .deferred h message
  | originalFilled h reply hs stamp => exact .originalFilled h reply (hmore _ hs) stamp
  | replaced h reply hs newLimit metadata now stamp =>
    exact .replaced h reply (hmore _ hs) newLimit metadata now stamp

theorem Successor.mono {replies more : OpenOrderSnapshot → Prop}
    (hmore : ∀ s, replies s → more s) {entry x : OrderLedgerEntry}
    {openSnapshots completed : List OpenOrderSnapshot}
    (h : Successor replies entry openSnapshots completed x) :
    Successor more entry openSnapshots completed x := by
  cases h with
  | adopted snapshot stamp h => exact .adopted snapshot stamp h
  | followed snapshot u h hu => exact .followed snapshot _ h hu
  | acted snapshot u x h hu hrecovered hworking hid hx =>
    exact .acted snapshot u _ h hu hrecovered hworking hid (hx.mono hmore)
  | resumed snapshot seen ref h href hcancelled reply hreply newLimit metadata now stamp =>
    exact .resumed snapshot seen ref h href hcancelled reply (hmore _ hreply) newLimit metadata now
      stamp
  | closed snapshot stamp hopen h hterminal => exact .closed snapshot stamp hopen h hterminal
  | unverified now hopen h => exact .unverified now hopen h

/-- What a turn of a row may do: each request about an order rests on the report of the row. -/
def Op.OfTurn (settings : Settings) (quoted : List String → List (String × ExecutionQuote) → Prop)
    (replies : OpenOrderSnapshot → Prop) (entry : OrderLedgerEntry)
    (openSnapshots completed : List OpenOrderSnapshot) : Op → Prop
  | .upsert x => Successor replies entry openSnapshots completed x
  | .broker (.cancelOrder orderId) => ∃ snapshot u,
      matchSnapshot entry openSnapshots = some (snapshot, false) ∧ Followed entry snapshot u ∧
        u.Unfilled ∧ u.orderId = some orderId
  | .broker (.replaceOrder request) => ∃ snapshot u,
      matchSnapshot entry openSnapshots = some (snapshot, false) ∧ Followed entry snapshot u ∧
        u.lifecycleState ∈ workingLifecycleStates ∧ ReplaceOf quoted settings u request
  | .broker (.submitReplacement request) => ∃ snapshot seen,
      sighting entry openSnapshots completed = some (snapshot, false) ∧
        (entry.withSnapshot snapshot seen).lifecycleState = .cancelled ∧
        entry.reservedRef = some request.orderRef ∧
        ResumeOf quoted settings (entry.withSnapshot snapshot seen) request
  | .broker (.submitTrades _) => False
  | _ => True

/-- An operation about an order: to submit, cancel or replace it. -/
def Op.TouchesOrder : Op → Prop
  | .broker (.cancelOrder _) => True
  | .broker (.replaceOrder _) => True
  | .broker (.submitReplacement _) => True
  | .broker (.submitTrades _) => True
  | _ => False

section Turn

variable {settings : Settings} {isIbkr hasReplacement hasHistory : Bool}
  {entry : OrderLedgerEntry} {openSnapshots completed : List OpenOrderSnapshot}

/-- A turn of the protocol manager, with its answers as evidence. -/
theorem handlingMeets_ofTurn (rely : (o : Op) → Except Exn o.Ans → Prop)
    (guarantee : Op → Prop) {quoted : List String → List (String × ExecutionQuote) → Prop}
    {replies : OpenOrderSnapshot → Prop}
    (hquoted : ∀ tickers quotes, rely (.broker (.executionQuotes tickers)) (.ok quotes) →
      quoted tickers quotes)
    (hreplace : ∀ request snapshot, rely (.broker (.replaceOrder request)) (.ok snapshot) →
      replies snapshot)
    (hsubmit : ∀ request snapshot, rely (.broker (.submitReplacement request)) (.ok snapshot) →
      replies snapshot)
    (hturn : ∀ o, o.OfTurn settings quoted replies entry openSnapshots completed → guarantee o) :
    HandlingMeets (protocolManager settings isIbkr hasReplacement hasHistory) rely guarantee quoted
      replies entry openSnapshots completed where
  load := hturn _ trivial
  clock := hturn _ trivial
  quotes tickers := (Prog.meets_perform (S := sig) (o := Op.broker (.executionQuotes tickers))
    (hturn _ trivial)).mono (fun _ ho => ho) fun quotes => hquoted tickers quotes
  cancel snapshot u orderId h hu _ _ hunfilled hid :=
    .of_uses (Prog.uses_perform (hturn _ ⟨snapshot, u, h, hu, hunfilled, hid⟩))
  replace snapshot u request h hu _ hworking hof :=
    (Prog.meets_perform (S := sig) (o := Op.broker (.replaceOrder request))
      (hturn _ ⟨snapshot, u, h, hu, hworking, hof⟩)).mono (fun _ ho => ho) (hreplace request)
  submit submit request snapshot seen hs hsight hcancelled href hof := by
    cases hasReplacement with
    | false => cases hs
    | true =>
      obtain rfl := Option.some.inj hs
      exact (Prog.meets_perform (S := sig) (o := Op.broker (.submitReplacement request))
        (hturn _ ⟨snapshot, seen, hsight, hcancelled, href, hof⟩)).mono (fun _ ho => ho)
        (hsubmit request)
  record x hx := hturn (.upsert x) hx

/-- Whatever it is answered, a turn does what a turn may do. -/
theorem handleEntry_uses_ofTurn (history : Except Exn (List OpenOrderSnapshot))
    (recovered : List OrderLedgerEntry) (now : ℚ) :
    ((protocolManager settings isIbkr hasReplacement hasHistory).handleEntry openSnapshots history
      recovered now entry).Uses (S := sig) fun o => o.OfTurn settings (fun _ _ => True)
        (fun _ => True) entry openSnapshots (history.toOption.getD []) :=
  (meets_handleEntry (Q := fun _ _ => True) (P := fun _ => True) (handlingMeets_ofTurn _ _
    (fun _ _ _ => trivial) (fun _ _ _ => trivial) (fun _ _ _ => trivial) fun _ h => h)).mono
      (fun _ ho => ho) fun _ _ => trivial

/-- Relying on a trace that holds its answers, a turn does what these justify. -/
theorem meets_handleEntry_ofTurn (τ : List (Event sig))
    (history : Except Exn (List OpenOrderSnapshot)) (recovered : List OrderLedgerEntry) (now : ℚ) :
    ((protocolManager settings isIbkr hasReplacement hasHistory).handleEntry openSnapshots history
      recovered now entry).Meets (S := sig) (AnsweredIn τ)
      (fun o => o.OfTurn settings (QuotedIn τ) (RepliedIn τ) entry openSnapshots
        (history.toOption.getD [])) fun _ => True := by
  refine (meets_handleEntry (handlingMeets_ofTurn _ _ (fun _ _ h => h) ?_ ?_
    fun _ h => h)).mono (fun _ ho => ho) fun _ _ => trivial
  · exact fun request snapshot h => Or.inl ⟨request, h⟩
  · exact fun request snapshot h => Or.inr ⟨request, h⟩

/-- In a run of a turn, every operation is one the answers of the run justify. -/
theorem run_handleEntry_ofTurn {W : Type} (E : Environment W)
    (history : Except Exn (List OpenOrderSnapshot)) (recovered : List OrderLedgerEntry) (now : ℚ)
    (cs : List E.Choice) (s : World W) :
    let run := E.system.run ((protocolManager settings isIbkr hasReplacement
      hasHistory).handleEntry openSnapshots history recovered now entry) cs s
    ∀ event ∈ run.trace, event.op.OfTurn settings (QuotedIn run.trace) (RepliedIn run.trace) entry
      openSnapshots (history.toOption.getD []) :=
  (E.system.run_of_meets (meets_handleEntry_ofTurn _ history recovered now) cs s
    fun _ h => h).1

end Turn

/-- In a run of a turn, a reply to a replacement is one for the row of the turn. -/
theorem repliedFor_of_ofTurn {settings : Settings}
    {quoted : List String → List (String × ExecutionQuote) → Prop}
    {replies : OpenOrderSnapshot → Prop} {row : OrderLedgerEntry}
    {openSnapshots completed : List OpenOrderSnapshot} {τ : List (Event sig)}
    (hturn : ∀ event ∈ τ, event.op.OfTurn settings quoted replies row openSnapshots completed)
    {snapshot : OpenOrderSnapshot} (h : RepliedIn τ snapshot) : RepliedFor row τ snapshot := by
  rcases h with ⟨request, h⟩ | ⟨request, h⟩
  · obtain ⟨_, u, _, hu, _, hof⟩ := hturn _ h
    exact Or.inl ⟨request, h, hof.orderRef.trans (by rw [hu.sameOrder.ledgerKey])⟩
  · obtain ⟨_, _, _, _, href, _⟩ := hturn _ h
    exact Or.inr ⟨request, h, href⟩

/-- What a run leaves of a row: the row it met, or the last one it recorded. -/
theorem run_latest {W α : Type} (E : Environment W) (p : M α) (key : String)
    (cs : List E.Choice) (s : World W) :
    (E.system.run p cs s).state.ledger.latest key = s.ledger.latest key ∨
      ∃ x, x.ledgerKey = key ∧ (∃ event ∈ (E.system.run p cs s).trace, event.op = .upsert x) ∧
        (E.system.run p cs s).state.ledger.latest key = some x := by
  refine E.system.wp_run (Q := fun _ τ s' => s'.ledger.latest key = s.ledger.latest key ∨
    ∃ x, x.ledgerKey = key ∧ (∃ event ∈ τ, event.op = .upsert x) ∧
      s'.ledger.latest key = some x) ?_ cs
  refine E.system.wp_of_uses (I := fun τ s' => s'.ledger.latest key = s.ledger.latest key ∨
    ∃ x, x.ledgerKey = key ∧ (∃ event ∈ τ, event.op = .upsert x) ∧
      s'.ledger.latest key = some x) (Prog.uses_all p) ?_ (Or.inl rfl)
  intro o _ c τ s' h
  have hkept : s'.ledger.latest key = s.ledger.latest key ∨
      ∃ x, x.ledgerKey = key ∧ (∃ event ∈ τ ++ [⟨o, (E.system.act c s' o).1⟩],
        event.op = .upsert x) ∧ s'.ledger.latest key = some x :=
    h.imp_right fun ⟨x, hx, ⟨event, hevent, hop⟩, hlatest⟩ =>
      ⟨x, hx, ⟨event, List.mem_append_left _ hevent, hop⟩, hlatest⟩
  rw [act_ledger E c s' o]
  cases o with
  | upsert x =>
    by_cases hx : x.ledgerKey = key
    · exact Or.inr ⟨x, hx, ⟨_, List.mem_append_right _ (List.mem_singleton_self _), rfl⟩,
        OrderStore.latest_upsert_of_eq hx⟩
    · have hsame : (s'.ledger.upsert x).latest key = s'.ledger.latest key :=
        OrderStore.latest_upsert_of_ne hx
      dsimp only [Op.record?]
      rw [hsame]
      exact hkept
  | _ => exact hkept

/-- A turn without an open match and without a history touches nothing. -/
theorem handleEntry_failed {M : ExecutionManager} {row : OrderLedgerEntry}
    {openSnapshots : List OpenOrderSnapshot} (hnone : matchSnapshot row openSnapshots = none)
    (e : Exn) (recovered : List OrderLedgerEntry) (now : ℚ) :
    ∃ update, M.handleEntry openSnapshots (.error e) recovered now row = .ret update := by
  unfold ExecutionManager.handleEntry
  rw [hnone]
  exact ⟨_, rfl⟩

/-- What a run of a turn leaves of its row. -/
theorem run_handleEntry_leaves {W : Type} (E : Environment W) (settings : Settings)
    (isIbkr hasReplacement hasHistory : Bool) {row : OrderLedgerEntry}
    (openSnapshots : List OpenOrderSnapshot) (history : Except Exn (List OpenOrderSnapshot))
    (recovered : List OrderLedgerEntry) (now : ℚ) (cs : List E.Choice) {s : World W}
    (hs : s.ledger.latest row.ledgerKey = some row) :
    let run := E.system.run ((protocolManager settings isIbkr hasReplacement
      hasHistory).handleEntry openSnapshots history recovered now row) cs s
    ∃ x, run.state.ledger.latest row.ledgerKey = some x ∧ (x = row ∨
      (matchSnapshot row openSnapshots = none → ∀ e, history ≠ .error e) ∧
      Successor (RepliedFor row run.trace) row openSnapshots (history.toOption.getD []) x) := by
  intro run
  rcases run_latest E ((protocolManager settings isIbkr hasReplacement hasHistory).handleEntry
    openSnapshots history recovered now row) row.ledgerKey cs s with
    hsame | ⟨x, _, ⟨event, hevent, hop⟩, hx⟩
  · exact ⟨row, hsame.trans hs, Or.inl rfl⟩
  · have hturns : ∀ event ∈ run.trace, event.op.OfTurn settings (QuotedIn run.trace)
        (RepliedIn run.trace) row openSnapshots (history.toOption.getD []) :=
      run_handleEntry_ofTurn E history recovered now cs s
    have hturn := hturns event hevent
    rw [hop] at hturn
    refine ⟨x, hx, Or.inr ⟨?_, hturn.mono fun _ => repliedFor_of_ofTurn hturns⟩⟩
    rintro hnone e rfl
    obtain ⟨update, hret⟩ := handleEntry_failed (M := protocolManager settings isIbkr
      hasReplacement hasHistory) hnone e recovered now
    rw [hret] at hevent
    cases hevent

/-- One reconcile pass: the process that makes it, what its two queries are answered, and
everything else its environment decides. -/
structure Pass where
  settings : Settings
  isIbkr : Bool
  hasReplacement : Bool
  hasHistory : Bool
  /-- Whether the process is a new one, which reads the ledger from its files. -/
  newProcess : Bool := true
  reports : PassReports
  choices : List openWorld.Choice
  /-- Each query has one answer in the pass. -/
  answers : ∀ c ∈ choices, reports.Answers c
  /-- A broker without a history method has no history. -/
  history : isIbkr = true ∨ hasHistory = true ∨ reports.completed = .ok []

namespace Pass

/-- The manager that makes the pass. -/
def manager (p : Pass) : ExecutionManager :=
  protocolManager p.settings p.isIbkr p.hasReplacement p.hasHistory

/-- The pass on a ledger. -/
def run (p : Pass) (store : OrderStore) : Run sig (World Unit) ReconcileSummary :=
  openWorld.run p.manager.reconcile p.choices (World.of (store.atStart p.newProcess))

/-- The ledger the pass leaves. -/
def after (p : Pass) (store : OrderStore) : OrderStore := (p.run store).state.ledger

end Pass

/-- The ledger after some passes. -/
def ledgerAfter (store : OrderStore) : List Pass → OrderStore
  | [] => store
  | p :: ps => ledgerAfter (p.after store) ps

/-- Every pass meets a condition on it and on the ledger it starts from. -/
def EveryPass (Condition : OrderStore → Pass → Prop) : OrderStore → List Pass → Prop
  | _, [] => True
  | store, p :: ps => Condition store p ∧ EveryPass Condition (p.after store) ps

theorem EveryPass.mono {C D : OrderStore → Pass → Prop} (h : ∀ store p, C store p → D store p)
    {store : OrderStore} {ps : List Pass} (hps : EveryPass C store ps) : EveryPass D store ps := by
  induction ps generalizing store with
  | nil => trivial
  | cons p ps ih => exact ⟨h _ _ hps.1, ih hps.2⟩

/-- No open order of the pass is taken for an unknown order in the place of the row of a key. -/
def Pass.Shields (key : String) (store : OrderStore) (p : Pass) : Prop :=
  ∀ row, store.latest key = some row → p.isIbkr = true →
    ∀ openOrders, p.reports.openOrders = .ok openOrders →
      row.Shielded (ExecutionManager.referenced openOrders)

/-- The history a turn works with shows the row what the history query showed. -/
def PassReports.History (reports : PassReports) (row : OrderLedgerEntry)
    (openSnapshots : List OpenOrderSnapshot) (history : Except Exn (List OpenOrderSnapshot)) :
    Prop :=
  matchSnapshot row openSnapshots = none →
    match reports.completed with
    | .ok all => ∃ completed, history = .ok completed ∧
        matchSnapshot row completed = matchSnapshot row (ExecutionManager.referenced all)
    | .error _ => ∃ e, history = .error e

/-- The row a pass leaves: as it was, or a successor by the reports and replies of the pass. -/
def Pass.Leaves (p : Pass) (τ : List (Event sig)) (row x : OrderLedgerEntry) : Prop :=
  x = row ∨ ∃ openOrders history, p.reports.openOrders = .ok openOrders ∧
    p.reports.History row (ExecutionManager.referenced openOrders) history ∧
    (matchSnapshot row (ExecutionManager.referenced openOrders) = none → ∀ e, history ≠ .error e) ∧
    Successor (RepliedFor row τ) row (ExecutionManager.referenced openOrders)
      (history.toOption.getD []) x

theorem Pass.Leaves.mono {p : Pass} {τ τ' : List (Event sig)} (hsub : ∀ event ∈ τ, event ∈ τ')
    {row x : OrderLedgerEntry} (h : p.Leaves τ row x) : p.Leaves τ' row x :=
  h.imp_right fun ⟨openOrders, history, hopen, hhistory, hok, hx⟩ =>
    ⟨openOrders, history, hopen, hhistory, hok, hx.mono fun _ => RepliedFor.mono hsub⟩

/-- The history a pass works with, from the answer to its query. -/
theorem wp_passHistory (p : Pass) {row : OrderLedgerEntry} {entries : List OrderLedgerEntry}
    (hmem : row ∈ entries) (openSnapshots : List OpenOrderSnapshot) (τ : List (Event sig))
    (s : World Unit) :
    (openEnvironment.restrict p.reports.Answers).system.wp
      (p.manager.completedSnapshots entries openSnapshots) (fun out _ _ =>
        ∀ history, out = .returned history → p.reports.History row openSnapshots history) τ s := by
  cases hcompleted : p.reports.completed with
  | ok all =>
    have hhistory : p.isIbkr = true ∨ p.hasHistory = true ∨ all = [] :=
      p.history.imp_right fun h => h.imp_right fun h => Except.ok.inj (hcompleted.symm.trans h)
    refine System.wp_mono _ (wp_history (fun _ hc => hc) hcompleted hhistory hmem openSnapshots τ s)
      fun out _ _ h history hout hnone => ?_
    rw [hcompleted]
    obtain ⟨completed, hok, hmatch⟩ := h history hout
    exact ⟨completed, hok, hmatch hnone⟩
  | error e =>
    have hhistory : p.isIbkr = true ∨ p.hasHistory = true := by
      rcases p.history with h | h | h
      · exact Or.inl h
      · exact Or.inr h
      · cases hcompleted.symm.trans h
    refine System.wp_mono _ (wp_history_error hhistory hcompleted hmem openSnapshots τ s)
      fun out _ _ h history hout hnone => ?_
    rw [hcompleted]
    exact h history hout hnone

/-- What a pass leaves of an open row it does not take another order for. -/
theorem wp_pass_leaves (p : Pass) {row : OrderLedgerEntry} {store : OrderStore}
    (hrow : store.latest row.ledgerKey = some row) (hopen : row.isTerminal = false)
    (hshields : p.Shields row.ledgerKey store) :
    (openEnvironment.restrict p.reports.Answers).system.wp p.manager.reconcile
      (fun _ τ s => ∃ x, s.ledger.latest row.ledgerKey = some x ∧ p.Leaves τ row x) []
      (World.of (store.atStart p.newProcess)) := by
  have hfound : (store.atStart p.newProcess).latest row.ledgerKey = some row := by
    rw [OrderStore.latest_atStart, hrow]
  refine System.wp_mono _ (wp_reconcile_row _ protocolManager_within hopen (.all _ _)
    (I := fun τ latest => ∃ x, latest = some x ∧ p.Leaves τ row x)
    (D := fun τ latest => ∃ x, latest = some x ∧ p.Leaves τ row x) (X := True)
    (O := fun openSnapshots => ∃ openOrders, p.reports.openOrders = .ok openOrders ∧
      openSnapshots = ExecutionManager.referenced openOrders)
    (H := p.reports.History row) (fun _ _ h => h) ?_ (fun _ _ => ⟨row, rfl, Or.inl rfl⟩) ?_ ?_ ?_ ?_
    hfound fun _ _ _ => Or.inr trivial) fun _ _ _ h => h.1
  · rintro τ _ latest ⟨added, rfl, _⟩ ⟨x, hx, hleaves⟩
    exact ⟨x, hx, hleaves.mono fun _ h => List.mem_append_left _ h⟩
  · intro τ s
    refine System.wp_mono _ (wp_askBroker_answer (fun c hc => hc.1) τ s) fun out _ _ h => ⟨?_, ?_⟩
    · exact fun fetched hout => ⟨fetched, h.2.1 fetched hout, rfl⟩
    · exact fun _ _ => trivial
  · rintro _ ⟨openOrders, hopenOrders, rfl⟩ hibkr
    exact hshields row hrow hibkr openOrders hopenOrders
  · exact fun openSnapshots entries _ hmem τ s => wp_passHistory p hmem openSnapshots τ s
  · rintro _ history recovered now τ s ⟨openOrders, hopenOrders, rfl⟩ hhistory _ hlatest
    -- the turn is judged by its own run: what it recorded, and on which answers
    refine System.wp_mono _ (System.wp_own_run _ _ τ s) ?_
    rintro out τ' s' ⟨cs, -, rfl, rfl⟩
    obtain ⟨x, hx, hcase⟩ := run_handleEntry_leaves (openEnvironment.restrict p.reports.Answers)
      p.settings p.isIbkr p.hasReplacement p.hasHistory (ExecutionManager.referenced openOrders)
      history recovered now cs hlatest
    have hleaves : p.Leaves (τ ++ _) row x := hcase.imp_right fun ⟨hok, hsuccessor⟩ =>
      ⟨openOrders, history, hopenOrders, hhistory, hok,
        hsuccessor.mono fun _ => RepliedFor.mono fun _ h => List.mem_append_right τ h⟩
    exact ⟨⟨x, hx, hleaves⟩, fun _ _ => ⟨x, hx, hleaves⟩⟩

end Poma

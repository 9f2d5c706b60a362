import Mathlib.Data.List.Forall2
import Poma.Broker.Ibkr
import Poma.Broker.World
import Poma.Interaction.Traces

/-!
# One result for every trade

A submission goes through its trades in order. A turn places at most one order
and answers its trade; after an outcome that cannot be known, and after too many
refusals, the rest is answered without an order. The answers fit the trades one
by one, unless the callback raises while the rest is reported after too many
refusals: the exception is then taken for an uncertain outcome of the trade that
was answered already.
-/

namespace Poma

open Interaction

/-- The order that an operation places. -/
def Op.placed? : Op → Option IbOrder
  | .ib (.placeOrder order) => some order
  | _ => none

/-- The orders placed in a trace. -/
def placedOrders (τ : List (Event sig)) : List IbOrder :=
  τ.filterMap fun event => Op.placed? event.op

/-- The callback raised on the report of a trade that was not submitted. -/
def RaisedOnUnsubmitted (τ : List (Event sig)) : Prop :=
  ∃ trade result e, (⟨Op.statusCallback trade result, .error e⟩ : Event sig) ∈ τ ∧
    result.status = brokerUnavailableStatus ∧ result.orderId = none

/-- An order that the client library shows has an id. -/
def Op.Identifies : (o : Op) → Except Exn o.Ans → Prop
  | .ib (.placeOrder _), .ok (trade : IbTrade) => trade.orderId.isSome
  | .ib (.readTrade _), .ok (trade : IbTrade) => trade.orderId.isSome
  | _, _ => True

/-- A result that is about a trade. -/
structure Answers (trade : ProposedTrade) (result : OrderResult) : Prop where
  ticker : result.ticker = trade.ticker
  orderRef : result.orderRef = trade.orderRef

/-- A result whose outcome cannot be known. -/
def Uncertain (result : OrderResult) : Prop :=
  result.status = submissionUnconfirmedStatus ∧
    ∃ e, result.message = some (Ibkr.uncertainMessage e)

/-- A result of a trade that was not submitted. -/
def Unsubmitted (trade : ProposedTrade) (result : OrderResult) : Prop :=
  ∃ message, result = manualResult trade brokerUnavailableStatus (some message)

/-- The orders placed for a list of trades, each in the turn of a trade of its own. -/
abbrev PlacedInTurn (settings : Settings) : List IbOrder → List ProposedTrade → Prop :=
  List.SublistForall₂ fun order trade => Ibkr.buildOrder settings trade = .ok order

/-- How a submission goes through its trades, and whether an answer was repeated. -/
inductive Submission (settings : Settings) :
    Bool → List ProposedTrade → List IbOrder → List OrderResult → Prop
  | done : Submission settings false [] [] []
  | unsubmitted {trades : List ProposedTrade} {results : List OrderResult}
      (h : List.Forall₂ Unsubmitted trades results) : Submission settings false trades [] results
  | failed {repeated : Bool} {trade : ProposedTrade} {result : OrderResult}
      {trades : List ProposedTrade} {orders : List IbOrder} {results : List OrderResult}
      (h : Answers trade result) (hcertain : ¬Uncertain result)
      (hrest : Submission settings repeated trades orders results) :
      Submission settings repeated (trade :: trades) orders (result :: results)
  | placed {repeated : Bool} {trade : ProposedTrade} {order : IbOrder} {result : OrderResult}
      {trades : List ProposedTrade} {orders : List IbOrder} {results : List OrderResult}
      (horder : Ibkr.buildOrder settings trade = .ok order) (h : Answers trade result)
      (hcertain : ¬Uncertain result)
      (hrest : Submission settings repeated trades orders results) :
      Submission settings repeated (trade :: trades) (order :: orders) (result :: results)
  | uncertain {trade : ProposedTrade} {order : IbOrder} {result : OrderResult}
      {trades : List ProposedTrade} {results : List OrderResult}
      (horder : Ibkr.buildOrder settings trade = .ok order) (h : Answers trade result)
      (hrest : List.Forall₂ Unsubmitted trades results) :
      Submission settings false (trade :: trades) [order] (result :: results)
  | repeated {trade : ProposedTrade} {order : IbOrder} {result again : OrderResult}
      {trades : List ProposedTrade} {results : List OrderResult}
      (horder : Ibkr.buildOrder settings trade = .ok order)
      (hrest : List.Forall₂ Unsubmitted trades results) :
      Submission settings true (trade :: trades) [order] (result :: again :: results)

/-- What it is to account for every trade exactly once. -/
structure AccountsForEach (settings : Settings) (trades : List ProposedTrade)
    (orders : List IbOrder) (results : List OrderResult) : Prop where
  answered : List.Forall₂ Answers trades results
  placed_once : PlacedInTurn settings orders trades
  stopped : ∀ i result, results[i]? = some result → Uncertain result →
    PlacedInTurn settings orders (trades.take (i + 1))

section Results

variable {trade : ProposedTrade} {result : OrderResult}

theorem answers_manualResult (trade : ProposedTrade) (status : String) (message : Option String) :
    Answers trade (manualResult trade status message) := ⟨rfl, rfl⟩

theorem answers_orderResult (trade : ProposedTrade) (view : IbTrade) (status : String)
    (message : Option String) : Answers trade (orderResult trade view status message) := ⟨rfl, rfl⟩

theorem Unsubmitted.answers (h : Unsubmitted trade result) : Answers trade result := by
  obtain ⟨message, rfl⟩ := h
  exact answers_manualResult _ _ _

theorem unconfirmed_ne_unavailable : submissionUnconfirmedStatus ≠ brokerUnavailableStatus := by
  decide

theorem unsubmitted_map (trades : List ProposedTrade) (message : String) :
    List.Forall₂ Unsubmitted trades (trades.map fun trade =>
      manualResult trade brokerUnavailableStatus (some message)) := by
  rw [List.forall₂_map_right_iff, List.forall₂_same]
  exact fun trade _ => ⟨message, rfl⟩

@[simp] theorem statusOr_statusOr (status fallback : String) :
    statusOr status (statusOr status fallback) = statusOr status fallback := by
  unfold statusOr
  split <;> rfl

/-- A result under a status the broker has settled is certain. -/
theorem not_uncertain_of_settled (h : result.status ∈ acceptedStatuses ∨
    result.status ∈ doneStatuses) : ¬Uncertain result := by
  rintro ⟨hstatus, _⟩
  rw [hstatus] at h
  revert h
  decide

end Results

namespace Submission

variable {settings : Settings} {repeated : Bool} {trades : List ProposedTrade}
  {orders : List IbOrder} {results : List OrderResult}

theorem placed_once (h : Submission settings repeated trades orders results) :
    PlacedInTurn settings orders trades := by
  induction h with
  | done => exact .nil
  | unsubmitted h => exact .nil
  | failed h hcertain _ ih => exact .cons_right ih
  | placed horder h hcertain _ ih => exact .cons horder ih
  | uncertain horder h hrest => exact .cons horder .nil
  | repeated horder hrest => exact .cons horder .nil

theorem answered (h : Submission settings repeated trades orders results)
    (honce : repeated = false) : List.Forall₂ Answers trades results := by
  induction h with
  | done => exact .nil
  | unsubmitted h => exact h.imp fun _ _ => Unsubmitted.answers
  | failed h hcertain _ ih => exact .cons h (ih honce)
  | placed horder h hcertain _ ih => exact .cons h (ih honce)
  | uncertain horder h hrest => exact .cons h (hrest.imp fun _ _ => Unsubmitted.answers)
  | repeated horder hrest => cases honce

/-- A repeated answer makes the list of results longer than the list of trades. -/
theorem length_repeated (h : Submission settings repeated trades orders results)
    (htwice : repeated = true) : results.length = trades.length + 1 := by
  induction h with
  | done => cases htwice
  | unsubmitted h => cases htwice
  | failed h hcertain _ ih => simp [ih htwice]
  | placed horder h hcertain _ ih => simp [ih htwice]
  | uncertain horder h hrest => cases htwice
  | repeated horder hrest => simp [hrest.length_eq]

/-- Nothing is placed after an uncertain outcome. -/
theorem stopped (h : Submission settings repeated trades orders results) :
    ∀ i result, results[i]? = some result → Uncertain result →
      PlacedInTurn settings orders (trades.take (i + 1)) := by
  induction h with
  | done => exact fun _ _ _ _ => .nil
  | unsubmitted h => exact fun _ _ _ _ => .nil
  | failed h hcertain _ ih =>
    intro i result hresult huncertain
    cases i with
    | zero =>
      obtain rfl := Option.some.inj hresult
      exact absurd huncertain hcertain
    | succ i => exact .cons_right (ih i result hresult huncertain)
  | placed horder h hcertain _ ih =>
    intro i result hresult huncertain
    cases i with
    | zero =>
      obtain rfl := Option.some.inj hresult
      exact absurd huncertain hcertain
    | succ i => exact .cons horder (ih i result hresult huncertain)
  | uncertain horder h hrest => exact fun _ _ _ _ => .cons horder .nil
  | repeated horder hrest => exact fun _ _ _ _ => .cons horder .nil

/-- A submission accounts for every trade exactly when it repeats no answer. -/
theorem accounts_iff (h : Submission settings repeated trades orders results) :
    AccountsForEach settings trades orders results ↔ repeated = false := by
  constructor
  · intro haccounts
    by_contra hrepeated
    have hlength := h.length_repeated (by simpa using hrepeated)
    have hanswered := haccounts.answered.length_eq
    omega
  · exact fun honce => ⟨h.answered honce, h.placed_once, h.stopped⟩

end Submission

/-- An operation that places no order. -/
def Op.PlacesNothing (o : Op) : Prop := Op.placed? o = none

/-- An operation that places no order and reports no trade as unsubmitted. -/
def Op.ReportsSubmitted (o : Op) : Prop :=
  Op.PlacesNothing o ∧ ∀ trade result, o = .statusCallback trade result →
    result.status = brokerUnavailableStatus → result.orderId.isSome

/-- What the part of a turn after an order was placed relies on and may do: views of the order are
as `Viewed` says, and they are reported. -/
structure TurnMeets (rely : (o : Op) → Except Exn o.Ans → Prop) (guarantee : Op → Prop)
    (Viewed : IbTrade → Prop) : Prop where
  read : ∀ trade (view : IbTrade), rely (.ib (.readTrade trade)) (.ok view) → Viewed view
  asks : ∀ call : IbCall, (∀ order, call ≠ .placeOrder order) → guarantee (.ib call)
  viewed : ∀ proposed view status message, Viewed view →
    guarantee (.statusCallback proposed (orderResult proposed view status message))
  manual : ∀ proposed status message, status ≠ brokerUnavailableStatus →
    guarantee (.statusCallback proposed (manualResult proposed status message))

section Turns

variable {rely : (o : Op) → Except Exn o.Ans → Prop} {guarantee : Op → Prop}
  {Viewed : IbTrade → Prop} {settings : Settings} {reported : Bool} {proposed : ProposedTrade}

theorem meets_askIb {call : IbCall} (h : guarantee (.ib call)) :
    (askIb call).Meets (S := sig) rely guarantee fun answer => rely (.ib call) (.ok answer) :=
  Prog.meets_perform (S := sig) h

/-- A request whose exception is kept as a value. -/
theorem meets_attemptIb {call : IbCall} (h : guarantee (.ib call)) :
    (askIb call).attempt.Meets (S := sig) rely guarantee fun r => ∀ answer, r = .ok answer →
      rely (.ib call) (.ok answer) :=
  Prog.meets_attempt (meets_askIb h)

variable (hm : TurnMeets rely guarantee Viewed)

include hm

theorem meets_currentTrade {trade : IbTrade} (htrade : Viewed trade) :
    (currentTrade trade).Meets (S := sig) rely guarantee Viewed := by
  refine Prog.meets_bind (meets_attemptIb (hm.asks (.readTrade trade) (by simp))) fun r hr => ?_
  cases r with
  | ok view => exact hm.read trade view (hr view rfl)
  | error e => exact htrade

/-- A wait ends with a certain answer, or with the last view of its order. -/
def Concludes (Viewed : IbTrade → Prop) (proposed : ProposedTrade)
    (r : Except IbTrade OrderResult) : Prop :=
  (∀ result, r = .ok result → Answers proposed result ∧ ¬Uncertain result) ∧
    ∀ view, r = .error view → Viewed view

omit hm in
theorem concludes_ok {result : OrderResult} (h : Answers proposed result)
    (hcertain : ¬Uncertain result) : Concludes Viewed proposed (.ok result) := by
  constructor
  · intro other hother
    rw [← Except.ok.inj hother]
    exact ⟨h, hcertain⟩
  · intro view hview
    cases hview

omit hm in
theorem concludes_error {view : IbTrade} (h : Viewed view) :
    Concludes Viewed proposed (.error view) := by
  constructor
  · intro result hresult
    cases hresult
  · intro other hother
    rwa [← Except.error.inj hother]

omit hm in
/-- A view whose status is settled concludes a wait. -/
theorem concludes_settled (view : IbTrade) (lastStatus : String) (message : Option String)
    (h : statusOr view.status lastStatus ∈ acceptedStatuses ∨
      statusOr view.status lastStatus ∈ doneStatuses) :
    Concludes Viewed proposed
      (.ok (orderResult proposed view (statusOr view.status lastStatus) message)) := by
  apply concludes_ok (answers_orderResult _ _ _ _)
  apply not_uncertain_of_settled
  have hstatus : (orderResult proposed view (statusOr view.status lastStatus) message).status =
      statusOr view.status lastStatus := statusOr_statusOr _ _
  rwa [hstatus]

theorem meets_withinDeadline :
    withinDeadline.Meets (S := sig) rely guarantee fun _ => True := by
  refine Prog.meets_bind (meets_attemptIb (hm.asks .withinDeadline (by simp))) fun r _ => ?_
  cases r <;> trivial

/-- A changed status is reported. -/
theorem meets_reportChange {view : IbTrade} (hview : Viewed view) (status lastStatus : String) :
    (if status ≠ lastStatus then emitStatus (callbackOf reported) proposed
      (orderResult proposed view status none) else .ret ()).Meets (S := sig) rely guarantee
        fun _ => True := by
  split
  · exact meets_notify (hm.viewed _ _ _ _ hview)
  · trivial

/-- Waiting a second and reading the order again. -/
theorem meets_nextView {α : Type} {R : α → Prop} {view : IbTrade} (hview : Viewed view)
    {next : IbTrade → M α} (hnext : ∀ view, Viewed view → (next view).Meets (S := sig) rely guarantee R) :
    ((askIb (.sleep 1)).bind fun _ => (currentTrade view).bind next).Meets (S := sig) rely guarantee
      R :=
  Prog.meets_bind (meets_askIb (hm.asks (.sleep 1) (by simp))) fun _ _ =>
    Prog.meets_bind (meets_currentTrade hm hview) hnext

theorem meets_waitForAcceptance {polls : Nat} {view : IbTrade} {lastStatus : String}
    (hview : Viewed view) :
    (Ibkr.waitForAcceptance proposed (callbackOf reported) polls view lastStatus).Meets (S := sig) rely
      guarantee (Concludes Viewed proposed) := by
  induction polls generalizing view lastStatus with
  | zero => exact concludes_error hview
  | succ polls ih =>
    rw [Ibkr.waitForAcceptance]
    refine Prog.meets_bind (meets_withinDeadline hm) fun within _ => ?_
    split
    · exact concludes_error hview
    refine Prog.meets_bind (meets_reportChange hm hview _ _) fun _ _ => ?_
    split
    · rename_i haccepted
      exact concludes_settled view lastStatus none (Or.inl haccepted)
    split
    · rename_i hdone
      exact concludes_settled view lastStatus _ (Or.inr hdone)
    · exact meets_nextView hm hview fun next hnext => ih hnext

theorem meets_waitForCancel {cancelMessage : String} {polls : Nat} {view : IbTrade}
    {lastStatus : String} (hview : Viewed view) :
    (Ibkr.waitForCancel proposed (callbackOf reported) cancelMessage polls view lastStatus).Meets
      (S := sig) rely guarantee (Concludes Viewed proposed) := by
  induction polls generalizing view lastStatus with
  | zero => exact concludes_error hview
  | succ polls ih =>
    rw [Ibkr.waitForCancel]
    refine Prog.meets_bind (meets_withinDeadline hm) fun within _ => ?_
    split
    · exact concludes_error hview
    refine Prog.meets_bind (meets_reportChange hm hview _ _) fun _ _ => ?_
    split
    · rename_i hdone
      exact concludes_settled view lastStatus _ (Or.inr hdone)
    · exact meets_nextView hm hview fun next hnext => ih hnext

omit hm in
theorem uncertainMessage_head (e : Exn) :
    (Ibkr.uncertainMessage e).toList.head? = some 's' := by
  have hsplit : Ibkr.uncertainMessage e =
      "submission outcome uncertain; reconcile before retry: " ++ e.message := by
    unfold Ibkr.uncertainMessage
    rfl
  have hhead : "submission outcome uncertain; reconcile before retry: ".toList.head? =
      some 's' := by decide +kernel
  rw [hsplit, String.toList_append, List.head?_append, hhead]
  rfl

omit hm in
/-- An order that was not accepted in time is told apart by its message. -/
theorem not_uncertain_timeout (view : IbTrade) (status : String) :
    ¬Uncertain (orderResult proposed view status (some Ibkr.timeoutMessage)) := by
  rintro ⟨_, e, hmessage⟩
  have htext : Ibkr.timeoutMessage = Ibkr.uncertainMessage e := by
    simpa [orderResult] using hmessage
  have hhead : Ibkr.timeoutMessage.toList.head? = some 'o' := by decide +kernel
  rw [htext, uncertainMessage_head] at hhead
  cases hhead

theorem meets_afterTimeout {view : IbTrade} (hview : Viewed view) :
    (Ibkr.afterTimeout settings proposed (callbackOf reported) view).Meets (S := sig) rely
      guarantee fun result => Answers proposed result ∧ ¬Uncertain result := by
  unfold Ibkr.afterTimeout
  split
  · exact ⟨answers_orderResult _ _ _ _, not_uncertain_timeout _ _⟩
  dsimp only
  refine Prog.meets_bind (meets_askIb (hm.asks (.cancelOrder view) (by simp))) fun _ _ => ?_
  refine Prog.meets_bind (meets_currentTrade hm hview) fun current hcurrent => ?_
  refine Prog.meets_bind (meets_notify (hm.viewed _ _ _ _ hcurrent)) fun _ _ => ?_
  refine Prog.meets_bind (meets_waitForCancel hm hcurrent) fun r hr => ?_
  cases r with
  | ok result => exact hr.1 result rfl
  | error last => exact ⟨answers_orderResult _ _ _ _, not_uncertain_timeout _ _⟩

/-- A wait that returns has a certain answer. -/
theorem meets_waitForAcceptanceOrTerminalStatus {view : IbTrade} (hview : Viewed view) :
    (Ibkr.waitForAcceptanceOrTerminalStatus settings proposed (callbackOf reported) view).Meets
      (S := sig) rely guarantee fun result => Answers proposed result ∧ ¬Uncertain result := by
  refine Prog.meets_bind (meets_waitForAcceptance hm hview) fun r hr => ?_
  cases r with
  | ok result => exact hr.1 result rfl
  | error last => exact meets_afterTimeout hm (hr.2 last rfl)

theorem meets_assertConnected :
    (Ibkr.assertConnected settings).Meets (S := sig) rely guarantee fun _ => True := by
  refine Prog.meets_bind (meets_askIb (hm.asks .isConnected (by simp))) fun connected _ => ?_
  split <;> trivial

theorem meets_connect :
    (Ibkr.connect settings).Meets (S := sig) rely guarantee fun _ => True := by
  refine Prog.meets_bind (meets_askIb (hm.asks .connect (by simp))) fun _ _ => ?_
  refine Prog.meets_catching (meets_assertConnected hm) fun e => ?_
  exact Prog.meets_bind (meets_askIb (hm.asks .disconnect (by simp))) fun _ _ => trivial

theorem meets_assertReadyForOrders :
    (Ibkr.assertReadyForOrders settings).Meets (S := sig) rely guarantee fun _ => True := by
  refine Prog.meets_bind (meets_assertConnected hm) fun _ _ => ?_
  refine Prog.meets_bind (meets_askIb (hm.asks .managedAccounts (by simp))) fun accounts _ => ?_
  dsimp only
  split
  · trivial
  refine Prog.meets_bind (meets_askIb (hm.asks .reqCurrentTime (by simp))) fun _ _ => ?_
  refine Prog.meets_bind (meets_askIb (hm.asks .probeTradingPermissions (by simp)))
    fun probe _ => ?_
  split
  · exact meets_assertConnected hm
  · trivial

/-- What precedes an order places nothing and reports nothing. -/
theorem meets_prepareOrder :
    (Ibkr.prepareOrder settings proposed).Meets (S := sig) rely guarantee
      fun order => Ibkr.buildOrder settings proposed = .ok order := by
  refine Prog.meets_bind (meets_assertConnected hm) fun _ _ => ?_
  refine Prog.meets_bind (meets_askIb (hm.asks (.executionOrderContract proposed.ticker)
    (by simp))) fun _ _ => ?_
  exact Prog.meets_ofExcept fun order horder => horder

theorem meets_looksLikeConnectionFailure (e : Exn) :
    (looksLikeConnectionFailure settings e).Meets (S := sig) rely guarantee fun _ => True := by
  have hask := hm.asks .isConnected (by simp)
  cases e with
  | brokerUnavailable message => trivial
  | _ => exact Prog.meets_bind (meets_attemptIb hask) fun r _ => by cases r <;> trivial

end Turns

/-- Every order that the client library shows in a trace has an id. -/
def Identified (τ : List (Event sig)) : Prop := ∀ event ∈ τ, Op.Identifies event.op event.ans

theorem identified_append {τ more : List (Event sig)} :
    Identified (τ ++ more) ↔ Identified τ ∧ Identified more := List.forall_mem_append

theorem raisedOnUnsubmitted_append {τ more : List (Event sig)} :
    RaisedOnUnsubmitted (τ ++ more) ↔ RaisedOnUnsubmitted τ ∨ RaisedOnUnsubmitted more := by
  constructor
  · rintro ⟨trade, result, e, hmem, h⟩
    rcases List.mem_append.mp hmem with hmem | hmem
    · exact Or.inl ⟨trade, result, e, hmem, h⟩
    · exact Or.inr ⟨trade, result, e, hmem, h⟩
  · rintro (⟨trade, result, e, hmem, h⟩ | ⟨trade, result, e, hmem, h⟩)
    · exact ⟨trade, result, e, List.mem_append_left _ hmem, h⟩
    · exact ⟨trade, result, e, List.mem_append_right _ hmem, h⟩

theorem not_raised_of_reports {τ : List (Event sig)}
    (h : ∀ event ∈ τ, Op.ReportsSubmitted event.op) : ¬RaisedOnUnsubmitted τ := by
  rintro ⟨trade, result, e, hmem, hstatus, hid⟩
  have hsome := (h _ hmem).2 trade result rfl hstatus
  rw [hid] at hsome
  cases hsome

@[simp] theorem placedOrders_append (τ more : List (Event sig)) :
    placedOrders (τ ++ more) = placedOrders τ ++ placedOrders more := List.filterMap_append

theorem placedOrders_nil {τ : List (Event sig)} (h : ∀ event ∈ τ, Op.PlacesNothing event.op) :
    placedOrders τ = [] := List.filterMap_eq_nil_iff.mpr h

theorem turnMeets_places : TurnMeets (fun _ _ => True) Op.PlacesNothing fun _ => True where
  read _ _ _ := trivial
  asks call hcall := by
    cases call with
    | placeOrder order => exact absurd rfl (hcall order)
    | _ => rfl
  viewed _ _ _ _ _ := rfl
  manual _ _ _ _ := rfl

theorem turnMeets_reports :
    TurnMeets Op.Identifies Op.ReportsSubmitted fun view => view.orderId.isSome where
  read _ _ h := h
  asks call hcall := ⟨turnMeets_places.asks call hcall, by simp⟩
  viewed proposed view status message hview := by
    refine ⟨rfl, fun trade result h _ => ?_⟩
    rw [← (Op.statusCallback.inj h).2]
    exact hview
  manual proposed status message hstatus := by
    refine ⟨rfl, fun trade result h hunavailable => ?_⟩
    rw [← (Op.statusCallback.inj h).2] at hunavailable
    exact absurd hunavailable hstatus

/-- A part of a turn that places nothing and reports no trade as unsubmitted, where its order is
known under an id. -/
structure Quiet (known : Prop) (τ : List (Event sig)) : Prop where
  places : placedOrders τ = []
  reports : known → Identified τ → ¬RaisedOnUnsubmitted τ

section Parts

variable {W : Type} {E : Environment W} {settings : Settings} {reported : Bool}
  {proposed : ProposedTrade} {rest : List ProposedTrade}

/-- A part of a turn, from what it places and what it reports. -/
theorem emits_quiet {α : Type} {p : M α} {R : α → Prop} {known : Prop}
    (hplaces : p.Meets (S := sig) (fun _ _ => True) Op.PlacesNothing R)
    (hreports : known → p.Meets (S := sig) Op.Identifies Op.ReportsSubmitted fun _ => True) :
    E.system.Emits p fun out τ => Quiet known τ ∧ ∀ a, out = .returned a → R a := by
  refine ⟨fun cs s => ?_⟩
  obtain ⟨hplaced, hreturned⟩ :=
    (System.emits_of_meets hplaces (M := E.system)).runs cs s fun _ _ => trivial
  refine ⟨⟨placedOrders_nil hplaced, fun hknown hidentified => ?_⟩, hreturned⟩
  exact not_raised_of_reports
    ((System.emits_of_meets (hreports hknown) (M := E.system)).runs cs s hidentified).1

theorem not_raisedOnUnsubmitted_nil : ¬RaisedOnUnsubmitted [] := by simp [RaisedOnUnsubmitted]

/-- The report of an unsubmitted trade. -/
theorem emits_notifyUnsubmitted (trade : ProposedTrade) (message : Option String) :
    E.system.Emits (notify (callbackOf reported) trade
      (manualResult trade brokerUnavailableStatus message)) fun out τ => placedOrders τ = [] ∧
        (∀ a, out = .returned a → ¬RaisedOnUnsubmitted τ) ∧
        ∀ e, out = .raised e → RaisedOnUnsubmitted τ := by
  cases reported with
  | false => exact System.emits_ret ⟨rfl, fun _ _ => not_raisedOnUnsubmitted_nil, by simp⟩
  | true =>
    apply System.emits_perform (S := sig)
    · exact ⟨rfl, by simp, by simp⟩
    · rintro ⟨⟩
      refine ⟨rfl, fun _ _ => ?_, by simp⟩
      rintro ⟨trade', result, e, hmem, _⟩
      cases List.mem_singleton.mp hmem
    · intro e
      exact ⟨rfl, by simp, fun _ _ => ⟨trade, _, e, List.mem_cons_self, rfl, rfl⟩⟩

/-- What answering a list of trades without orders comes to. -/
structure LeftOut (trades : List ProposedTrade) (out : Outcome Exn (List OrderResult))
    (τ : List (Event sig)) : Prop where
  places : placedOrders τ = []
  returned : ∀ results, out = .returned results →
    List.Forall₂ Unsubmitted trades results ∧ ¬RaisedOnUnsubmitted τ
  raised : ∀ e, out = .raised e → RaisedOnUnsubmitted τ

/-- The rest is answered without an order, unless the callback raises. -/
theorem emits_unsubmittedResults (trades : List ProposedTrade) (message : String) :
    E.system.Emits (unsubmittedResults trades (callbackOf reported) message)
      fun out τ => LeftOut trades out τ := by
  have hreports : E.system.Emits (Prog.forEach (fun trade => notify (callbackOf reported) trade
      (manualResult trade brokerUnavailableStatus (some message))) trades) fun out τ =>
        placedOrders τ = [] ∧ (∀ a, out = .returned a → ¬RaisedOnUnsubmitted τ) ∧
          ∀ e, out = .raised e → RaisedOnUnsubmitted τ := by
    induction trades with
    | nil => exact System.emits_ret ⟨rfl, fun _ _ => not_raisedOnUnsubmitted_nil, by simp⟩
    | cons trade trades ih =>
      apply System.emits_bind (emits_notifyUnsubmitted trade (some message))
      · rintro _ τ ⟨hplaced, hreturned, _⟩
        apply ih.mono
        rintro out more ⟨hmore, hdone, hraised⟩
        refine ⟨by rw [placedOrders_append, hplaced, hmore]; rfl, fun a ha => ?_, fun e he => ?_⟩
        · rw [raisedOnUnsubmitted_append]
          exact not_or.mpr ⟨hreturned _ rfl, hdone a ha⟩
        · exact raisedOnUnsubmitted_append.mpr (Or.inr (hraised e he))
      · exact fun e τ h => ⟨h.1, by simp, fun _ _ => h.2.2 e rfl⟩
      · exact fun τ h => ⟨h.1, by simp, by simp⟩
  apply System.emits_bind hreports
  · rintro _ τ ⟨hplaced, hreturned, _⟩
    apply System.emits_ret
    rw [List.append_nil]
    refine ⟨hplaced, fun results h => ?_, by simp⟩
    rw [← Outcome.returned.inj h]
    exact ⟨unsubmitted_map trades message, hreturned _ rfl⟩
  · exact fun e τ h => ⟨h.1, by simp, fun _ _ => h.2.2 e rfl⟩
  · exact fun τ h => ⟨h.1, by simp, by simp⟩

/-- What an uncertain outcome comes to: an answer of its trade, and no order for the rest. -/
structure StoppedAt (proposed : ProposedTrade) (rest : List ProposedTrade)
    (out : Outcome Exn (List OrderResult)) (τ : List (Event sig)) : Prop where
  places : placedOrders τ = []
  returned : ∀ results, out = .returned results → ¬RaisedOnUnsubmitted τ ∧
    ∃ result later, results = result :: later ∧ Answers proposed result ∧
      List.Forall₂ Unsubmitted rest later

/-- A report that is not about an unsubmitted trade. -/
theorem emits_reportSubmitted {result : OrderResult}
    (h : result.status = brokerUnavailableStatus → result.orderId.isSome) :
    E.system.Emits (emitStatus (callbackOf reported) proposed result) fun _ τ =>
      placedOrders τ = [] ∧ ¬RaisedOnUnsubmitted τ := by
  have hreport : Op.ReportsSubmitted (.statusCallback proposed result) := by
    refine ⟨rfl, fun trade other hsame => ?_⟩
    rw [← (Op.statusCallback.inj hsame).2]
    exact h
  have huses : (emitStatus (callbackOf reported) proposed result).Uses (S := sig)
      Op.ReportsSubmitted := meets_notify hreport
  apply (System.emits_of_uses huses).mono
  exact fun _ τ hτ => ⟨placedOrders_nil fun event hevent => (hτ event hevent).1,
    not_raised_of_reports hτ⟩

/-- An uncertain outcome is reported, and the rest is answered without an order. -/
theorem emits_reportUncertain {result : OrderResult} (hanswer : Answers proposed result)
    (hstatus : result.status = submissionUnconfirmedStatus) (message : String) :
    E.system.Emits ((emitStatus (callbackOf reported) proposed result).bind fun _ =>
      (unsubmittedResults rest (callbackOf reported) message).bind fun unsubmitted =>
        .ret (result :: unsubmitted)) fun out τ => StoppedAt proposed rest out τ := by
  have hsubmitted : result.status = brokerUnavailableStatus → result.orderId.isSome := by
    intro h
    exact absurd (hstatus.symm.trans h) unconfirmed_ne_unavailable
  apply System.emits_bind (emits_reportSubmitted hsubmitted)
  · rintro _ τ ⟨hplaced, hquiet⟩
    apply System.emits_bind (emits_unsubmittedResults rest message)
    · intro later more hmore
      apply System.emits_ret
      rw [List.append_nil]
      refine ⟨by rw [placedOrders_append, hplaced, hmore.places]; rfl, fun results h => ?_⟩
      obtain ⟨hlater, hnone⟩ := hmore.returned later rfl
      rw [raisedOnUnsubmitted_append]
      exact ⟨not_or.mpr ⟨hquiet, hnone⟩, result, later, (Outcome.returned.inj h).symm, hanswer,
        hlater⟩
    · exact fun e more h => ⟨by rw [placedOrders_append, hplaced, h.places]; rfl, by simp⟩
    · exact fun more h => ⟨by rw [placedOrders_append, hplaced, h.places]; rfl, by simp⟩
  · exact fun e τ h => ⟨h.1, by simp⟩
  · exact fun τ h => ⟨h.1, by simp⟩

/-- After an uncertain outcome nothing is placed. -/
theorem emits_uncertainSubmission (submitted : Option IbTrade) (e : Exn) :
    E.system.Emits (Ibkr.uncertainSubmission proposed submitted (callbackOf reported) rest e)
      fun out τ => StoppedAt proposed rest out τ := by
  cases submitted with
  | none => exact emits_reportUncertain ⟨rfl, rfl⟩ rfl _
  | some trade =>
    have hread : (currentTrade trade).Uses (S := sig) Op.ReportsSubmitted := by
      have hask : Op.ReportsSubmitted (.ib (.readTrade trade)) := ⟨rfl, by simp⟩
      refine Prog.uses_bind (Prog.uses_attempt (Prog.uses_perform (S := sig) hask)) fun r => ?_
      cases r <;> trivial
    unfold Ibkr.uncertainSubmission
    dsimp only
    rw [Prog.bind_assoc]
    apply System.emits_bind (System.emits_of_uses hread)
    · intro view τ hτ
      have hplaced := placedOrders_nil fun event hevent => (hτ event hevent).1
      apply (emits_reportUncertain ⟨rfl, rfl⟩ rfl _).mono
      intro out more hmore
      refine ⟨by rw [placedOrders_append, hplaced, hmore.places]; rfl, fun results h => ?_⟩
      obtain ⟨hnone, hresults⟩ := hmore.returned results h
      rw [raisedOnUnsubmitted_append]
      exact ⟨not_or.mpr ⟨not_raised_of_reports hτ, hnone⟩, hresults⟩
    · exact fun e τ hτ => ⟨placedOrders_nil fun event hevent => (hτ event hevent).1, by simp⟩
    · exact fun τ hτ => ⟨placedOrders_nil fun event hevent => (hτ event hevent).1, by simp⟩

/-- How the loop of a submission ends on the trades it has left. -/
structure LoopEnd (settings : Settings) (trades : List ProposedTrade)
    (out : Outcome Exn (List OrderResult)) (τ : List (Event sig)) : Prop where
  placed : PlacedInTurn settings (placedOrders τ) trades
  returned : ∀ results, out = .returned results → ∃ repeated,
    Submission settings repeated trades (placedOrders τ) results ∧
      (repeated = true → RaisedOnUnsubmitted τ) ∧
      (Identified τ → RaisedOnUnsubmitted τ → repeated = true)

/-- A turn that has placed its order, and reported no trade as unsubmitted. -/
structure TurnSoFar (settings : Settings) (proposed : ProposedTrade) (τ : List (Event sig)) :
    Prop where
  places : ∃ order, Ibkr.buildOrder settings proposed = .ok order ∧ placedOrders τ = [order]
  reports : Identified τ → ¬RaisedOnUnsubmitted τ

/-- A turn that ended before another one began. -/
theorem LoopEnd.of_turn {τ more : List (Event sig)} {out : Outcome Exn (List OrderResult)}
    (hτ : TurnSoFar settings proposed τ) (hmore : placedOrders more = [])
    (hout : ∀ results, out ≠ .returned results) : LoopEnd settings (proposed :: rest) out (τ ++ more) := by
  obtain ⟨order, horder, hplaced⟩ := hτ.places
  refine ⟨?_, fun results h => absurd h (hout results)⟩
  rw [placedOrders_append, hplaced, hmore]
  exact .cons horder .nil

/-- The loop stops at an uncertain outcome. -/
theorem LoopEnd.of_stopped {τ more : List (Event sig)} {out : Outcome Exn (List OrderResult)}
    (hτ : TurnSoFar settings proposed τ) (h : StoppedAt proposed rest out more) :
    LoopEnd settings (proposed :: rest) out (τ ++ more) := by
  obtain ⟨order, horder, hplaced⟩ := hτ.places
  have horders : placedOrders (τ ++ more) = [order] := by
    rw [placedOrders_append, hplaced, h.places]
    rfl
  constructor
  · rw [horders]
    exact .cons horder .nil
  · intro results hresults
    obtain ⟨hnone, result, later, rfl, hanswer, hlater⟩ := h.returned results hresults
    refine ⟨false, horders ▸ .uncertain horder hanswer hlater, by simp, fun hidentified hraised => ?_⟩
    rcases raisedOnUnsubmitted_append.mp hraised with hraised | hraised
    · exact absurd hraised (hτ.reports (identified_append.mp hidentified).1)
    · exact absurd hraised hnone

/-- The loop goes on with the next trade. -/
theorem LoopEnd.of_next {τ more : List (Event sig)} {out : Outcome Exn (List OrderResult)}
    {result : OrderResult} (hτ : TurnSoFar settings proposed τ) (hanswer : Answers proposed result)
    (hcertain : ¬Uncertain result) (h : LoopEnd settings rest out more)
    {next : Outcome Exn (List OrderResult)}
    (hnext : ∀ results, next = .returned results → ∃ later, out = .returned later ∧
      results = result :: later) :
    LoopEnd settings (proposed :: rest) next (τ ++ more) := by
  obtain ⟨order, horder, hplaced⟩ := hτ.places
  have horders : placedOrders (τ ++ more) = order :: placedOrders more := by
    rw [placedOrders_append, hplaced]
    rfl
  constructor
  · rw [horders]
    exact .cons horder h.placed
  · intro results hresults
    obtain ⟨later, hlater, rfl⟩ := hnext results hresults
    obtain ⟨repeated, hsubmission, hraises, hrepeats⟩ := h.returned later hlater
    refine ⟨repeated, horders ▸ .placed horder hanswer hcertain hsubmission, fun hrepeated => ?_,
      fun hidentified hraised => ?_⟩
    · exact raisedOnUnsubmitted_append.mpr (Or.inr (hraises hrepeated))
    · obtain ⟨hown, hrest⟩ := identified_append.mp hidentified
      rcases raisedOnUnsubmitted_append.mp hraised with hraised | hraised
      · exact absurd hraised (hτ.reports hown)
      · exact hrepeats hrest hraised

theorem LoopEnd.done : LoopEnd settings [] (.returned []) [] := by
  refine ⟨.nil, fun results h => ⟨false, ?_, by simp, fun _ h => ?_⟩⟩
  · rw [← Outcome.returned.inj h]
    exact .done
  · exact absurd h not_raisedOnUnsubmitted_nil

/-- The loop leaves the rest out. -/
theorem LoopEnd.of_leftOut {trades : List ProposedTrade} {out : Outcome Exn (List OrderResult)}
    {τ : List (Event sig)} (h : LeftOut trades out τ) : LoopEnd settings trades out τ := by
  constructor
  · rw [h.places]
    exact .nil
  · intro results hresults
    obtain ⟨hunsubmitted, hnone⟩ := h.returned results hresults
    exact ⟨false, h.places ▸ .unsubmitted hunsubmitted, by simp, fun _ h => absurd h hnone⟩

/-- The loop repeats an answer: the rest was to be left out, and the callback raised. -/
theorem LoopEnd.of_repeated {τ more again : List (Event sig)}
    {out next : Outcome Exn (List OrderResult)} (result : OrderResult) {e : Exn}
    (hτ : TurnSoFar settings proposed τ) (h : LeftOut rest (.raised e) more)
    (hagain : StoppedAt proposed rest out again)
    (hnext : ∀ results, next = .returned results → ∃ later, out = .returned later ∧
      results = result :: later) :
    LoopEnd settings (proposed :: rest) next (τ ++ (more ++ again)) := by
  obtain ⟨order, horder, hplaced⟩ := hτ.places
  have horders : placedOrders (τ ++ (more ++ again)) = [order] := by
    rw [placedOrders_append, placedOrders_append, hplaced, h.places, hagain.places]
    rfl
  have hraised : RaisedOnUnsubmitted (τ ++ (more ++ again)) := by
    rw [raisedOnUnsubmitted_append, raisedOnUnsubmitted_append]
    exact Or.inr (Or.inl (h.raised e rfl))
  constructor
  · rw [horders]
    exact .cons horder .nil
  · intro results hresults
    obtain ⟨later, hlater, rfl⟩ := hnext results hresults
    obtain ⟨_, repeatedAnswer, unsubmitted, rfl, _, hunsubmitted⟩ := hagain.returned later hlater
    exact ⟨true, horders ▸ .repeated horder hunsubmitted, fun _ => hraised, fun _ _ => rfl⟩

/-- Going on with the next trade, and putting the answer in front. -/
theorem emits_goOn {next : M (List OrderResult)} {result : OrderResult} {τ : List (Event sig)}
    (hnext : E.system.Emits next fun out more => LoopEnd settings rest out more)
    (hτ : TurnSoFar settings proposed τ) (hanswer : Answers proposed result)
    (hcertain : ¬Uncertain result) :
    E.system.Emits (next.bind fun results => .ret (result :: results)) fun out more =>
      LoopEnd settings (proposed :: rest) out (τ ++ more) := by
  apply System.emits_bind hnext
  · intro later more hmore
    apply System.emits_ret
    rw [List.append_nil]
    apply LoopEnd.of_next hτ hanswer hcertain hmore
    exact fun results h => ⟨later, rfl, (Outcome.returned.inj h).symm⟩
  · exact fun e more hmore => .of_next hτ hanswer hcertain hmore (by simp)
  · exact fun more hmore => .of_next hτ hanswer hcertain hmore (by simp)

/-- What follows a certain outcome. -/
theorem emits_afterResult {submitted : IbTrade} {failures : Nat} {result : OrderResult}
    {next : Nat → M (List OrderResult)} {τ : List (Event sig)}
    (hnext : ∀ failures, E.system.Emits (next failures) fun out more =>
      LoopEnd settings rest out more)
    (hτ : TurnSoFar settings proposed τ) (hanswer : Answers proposed result)
    (hcertain : ¬Uncertain result) :
    E.system.Emits (Ibkr.afterResult settings proposed submitted (callbackOf reported) rest failures
      result next) fun out more => LoopEnd settings (proposed :: rest) out (τ ++ more) := by
  unfold Ibkr.afterResult
  split
  · exact emits_goOn (hnext 0) hτ hanswer hcertain
  split
  · split
    · rename_i hnil
      subst hnil
      apply System.emits_ret
      apply LoopEnd.of_next hτ hanswer hcertain .done
      exact fun results h => ⟨[], rfl, (Outcome.returned.inj h).symm⟩
    · apply System.emits_attempt_bind (emits_unsubmittedResults rest _)
      · intro unsubmitted more hmore
        apply System.emits_ret
        rw [List.append_nil]
        apply LoopEnd.of_next hτ hanswer hcertain (LoopEnd.of_leftOut hmore)
        exact fun results h => ⟨unsubmitted, rfl, (Outcome.returned.inj h).symm⟩
      · intro e more hmore
        apply System.emits_bind (emits_uncertainSubmission (some submitted) e)
        · intro results again hagain
          apply System.emits_ret
          rw [List.append_nil]
          apply LoopEnd.of_repeated result hτ hmore hagain
          exact fun all h => ⟨results, rfl, (Outcome.returned.inj h).symm⟩
        · exact fun e' again hagain => .of_repeated result hτ hmore hagain (by simp)
        · exact fun again hagain => .of_repeated result hτ hmore hagain (by simp)
      · exact fun more hmore => .of_next hτ hanswer hcertain (LoopEnd.of_leftOut hmore) (by simp)
  · exact emits_goOn (hnext _) hτ hanswer hcertain

/-- A turn goes on with a part that places nothing. -/
theorem TurnSoFar.append {τ turn : List (Event sig)} {known : Prop}
    (h : TurnSoFar settings proposed τ) (hturn : Quiet known turn)
    (hknown : Identified τ → known) : TurnSoFar settings proposed (τ ++ turn) := by
  obtain ⟨order, horder, hplaced⟩ := h.places
  constructor
  · refine ⟨order, horder, ?_⟩
    rw [placedOrders_append, hplaced, hturn.places]
    rfl
  · intro hidentified
    obtain ⟨hbefore, hafter⟩ := identified_append.mp hidentified
    rw [raisedOnUnsubmitted_append, not_or]
    exact ⟨h.reports hbefore, hturn.reports (hknown hbefore) hafter⟩

/-- The report of a placed order and the wait for it. -/
theorem emits_reportAndWait (submitted : IbTrade) :
    E.system.Emits ((emitStatus (callbackOf reported) proposed
      (orderResult proposed submitted "Submitted" (some "order submitted"))).bind fun _ =>
        Ibkr.waitForAcceptanceOrTerminalStatus settings proposed (callbackOf reported) submitted)
      fun out turn => Quiet (submitted.orderId.isSome = true) turn ∧
        ∀ result, out = .returned result → Answers proposed result ∧ ¬Uncertain result := by
  apply emits_quiet
  · exact Prog.meets_bind (meets_notify (turnMeets_places.viewed _ _ _ _ trivial)) fun _ _ =>
      meets_waitForAcceptanceOrTerminalStatus turnMeets_places trivial
  · intro hid
    refine Prog.meets_bind (meets_notify (turnMeets_reports.viewed _ _ _ _ hid)) fun _ _ => ?_
    exact (meets_waitForAcceptanceOrTerminalStatus turnMeets_reports hid).mono
      (fun _ ho => ho) fun _ _ => trivial

/-- A turn from the placing of its order on. -/
theorem emits_placeTrade {order : IbOrder} {failures : Nat} {next : Nat → M (List OrderResult)}
    {τ : List (Event sig)} (horder : Ibkr.buildOrder settings proposed = .ok order)
    (hτ : Quiet True τ)
    (hnext : ∀ failures, E.system.Emits (next failures) fun out more =>
      LoopEnd settings rest out more) :
    E.system.Emits (Ibkr.placeTrade settings proposed order (callbackOf reported) rest failures next)
      fun out more => LoopEnd settings (proposed :: rest) out (τ ++ more) := by
  have hplaced : ∀ answer : Except Exn IbTrade, TurnSoFar settings proposed
      (τ ++ [(⟨Op.ib (.placeOrder order), answer⟩ : Event sig)]) := by
    intro answer
    refine ⟨⟨order, horder, by rw [placedOrders_append, hτ.places]; rfl⟩, fun hidentified => ?_⟩
    rw [raisedOnUnsubmitted_append, not_or]
    refine ⟨hτ.reports trivial (identified_append.mp hidentified).1, ?_⟩
    rintro ⟨trade', result, e, hmem, _⟩
    cases List.mem_singleton.mp hmem
  unfold Ibkr.placeTrade
  apply System.emits_attempt_bind (System.emits_performs (S := sig) (.ib (.placeOrder order)))
  · intro (submitted : IbTrade) first hfirst
    obtain rfl := hfirst.returned submitted rfl
    have hknown : Identified (τ ++ [(⟨Op.ib (.placeOrder order), .ok submitted⟩ : Event sig)]) →
        submitted.orderId.isSome = true := fun hidentified =>
      (identified_append.mp hidentified).2 _ List.mem_cons_self
    have hsofar := hplaced (.ok submitted)
    simp only [← List.append_assoc]
    apply System.emits_attempt_bind (emits_reportAndWait submitted)
    · rintro result turn ⟨hquiet, hresult⟩
      obtain ⟨hanswer, hcertain⟩ := hresult result rfl
      apply (emits_afterResult hnext (hsofar.append hquiet hknown) hanswer hcertain).mono
      intro out more hmore
      rw [← List.append_assoc]
      exact hmore
    · rintro e turn ⟨hquiet, _⟩
      apply (emits_uncertainSubmission (some submitted) e).mono
      intro out more hmore
      rw [← List.append_assoc]
      exact .of_stopped (hsofar.append hquiet hknown) hmore
    · rintro turn ⟨hquiet, _⟩
      rw [← List.append_nil turn, ← List.append_assoc]
      exact .of_turn (hsofar.append hquiet hknown) rfl fun _ h => (by cases h)
  · intro e first hfirst
    obtain rfl := hfirst.raised e rfl
    apply (emits_uncertainSubmission none e).mono
    intro out more hmore
    rw [← List.append_assoc]
    exact .of_stopped (hplaced (.error e)) hmore
  · intro first hfirst
    obtain rfl := hfirst.stopped rfl
    rw [List.append_nil]
    refine ⟨?_, fun _ h => (by cases h)⟩
    rw [hτ.places]
    exact .nil

/-- A part that places nothing, before the loop. -/
theorem LoopEnd.after_quiet {trades : List ProposedTrade} {τ more : List (Event sig)}
    {out : Outcome Exn (List OrderResult)} (hτ : Quiet True τ)
    (h : LoopEnd settings trades out more) : LoopEnd settings trades out (τ ++ more) := by
  have horders : placedOrders (τ ++ more) = placedOrders more := by
    rw [placedOrders_append, hτ.places]
    rfl
  constructor
  · rw [horders]
    exact h.placed
  · intro results hresults
    obtain ⟨repeated, hsubmission, hraises, hrepeats⟩ := h.returned results hresults
    refine ⟨repeated, horders ▸ hsubmission, fun hrepeated => ?_, fun hidentified hraised => ?_⟩
    · exact raisedOnUnsubmitted_append.mpr (Or.inr (hraises hrepeated))
    · obtain ⟨hown, hrest⟩ := identified_append.mp hidentified
      rcases raisedOnUnsubmitted_append.mp hraised with hraised | hraised
      · exact absurd hraised (hτ.reports trivial hown)
      · exact hrepeats hrest hraised

/-- A run that performs nothing more than a part that places nothing. -/
theorem LoopEnd.of_quiet {trades : List ProposedTrade} {τ : List (Event sig)}
    {out : Outcome Exn (List OrderResult)} (hτ : placedOrders τ = [])
    (hout : ∀ results, out ≠ .returned results) : LoopEnd settings trades out τ := by
  refine ⟨?_, fun results h => absurd h (hout results)⟩
  rw [hτ]
  exact .nil

/-- The loop goes on after a trade that was not placed. -/
theorem LoopEnd.of_failed {more : List (Event sig)} {out : Outcome Exn (List OrderResult)}
    {result : OrderResult} (hanswer : Answers proposed result) (hcertain : ¬Uncertain result)
    (h : LoopEnd settings rest out more) {next : Outcome Exn (List OrderResult)}
    (hnext : ∀ results, next = .returned results → ∃ later, out = .returned later ∧
      results = result :: later) : LoopEnd settings (proposed :: rest) next more := by
  refine ⟨.cons_right h.placed, fun results hresults => ?_⟩
  obtain ⟨later, hlater, rfl⟩ := hnext results hresults
  obtain ⟨repeated, hsubmission, hends⟩ := h.returned later hlater
  exact ⟨repeated, .failed hanswer hcertain hsubmission, hends⟩

/-- A turn that ends before its order: the rest is left out, or the next trade follows. -/
theorem emits_failedPreparation (e : Exn) {next : M (List OrderResult)}
    (hnext : E.system.Emits next fun out more => LoopEnd settings rest out more) :
    E.system.Emits (Ibkr.failedPreparation settings proposed (callbackOf reported) rest e next)
      fun out τ => LoopEnd settings (proposed :: rest) out τ := by
  have hlost : E.system.Emits (looksLikeConnectionFailure settings e) fun out τ => Quiet True τ ∧
      ∀ lost, out = .returned lost → True :=
    emits_quiet (meets_looksLikeConnectionFailure turnMeets_places e) fun _ =>
      meets_looksLikeConnectionFailure turnMeets_reports e
  unfold Ibkr.failedPreparation
  apply System.emits_bind hlost
  · rintro lost τ ⟨hquiet, _⟩
    split
    · apply (emits_unsubmittedResults (proposed :: rest) _).mono
      exact fun out more hmore => LoopEnd.after_quiet hquiet (.of_leftOut hmore)
    · dsimp only
      generalize hresult : manualResult proposed "Failed" _ = result
      have hanswer : Answers proposed result := hresult ▸ answers_manualResult _ _ _
      have hstatus : result.status = "Failed" := hresult ▸ rfl
      have hcertain : ¬Uncertain result := by
        rintro ⟨hunconfirmed, _⟩
        rw [hstatus] at hunconfirmed
        exact absurd hunconfirmed (by decide)
      have hsubmitted : result.status = brokerUnavailableStatus → result.orderId.isSome := by
        intro hunavailable
        rw [hstatus] at hunavailable
        exact absurd hunavailable (by decide)
      apply System.emits_bind (emits_reportSubmitted hsubmitted)
      · rintro _ report ⟨hplaced, hnone⟩
        have hbefore : Quiet True (τ ++ report) := by
          refine ⟨by rw [placedOrders_append, hquiet.places, hplaced]; rfl, fun _ hidentified => ?_⟩
          rw [raisedOnUnsubmitted_append, not_or]
          exact ⟨hquiet.reports trivial (identified_append.mp hidentified).1, hnone⟩
        simp only [← List.append_assoc]
        apply System.emits_bind hnext
        · intro later more hmore
          apply System.emits_ret
          rw [List.append_nil]
          apply LoopEnd.after_quiet hbefore
          apply LoopEnd.of_failed hanswer hcertain hmore
          exact fun results h => ⟨later, rfl, (Outcome.returned.inj h).symm⟩
        · exact fun e' more hmore => LoopEnd.after_quiet hbefore
            (.of_failed hanswer hcertain hmore fun _ h => (by cases h))
        · exact fun more hmore => LoopEnd.after_quiet hbefore
            (.of_failed hanswer hcertain hmore fun _ h => (by cases h))
      · rintro e' report ⟨hplaced, _⟩
        refine .of_quiet ?_ fun _ h => (by cases h)
        rw [placedOrders_append, hquiet.places, hplaced]
        rfl
      · rintro report ⟨hplaced, _⟩
        refine .of_quiet ?_ fun _ h => (by cases h)
        rw [placedOrders_append, hquiet.places, hplaced]
        rfl
  · exact fun e' τ h => .of_quiet h.1.places fun _ h => (by cases h)
  · exact fun τ h => .of_quiet h.1.places fun _ h => (by cases h)

/-- The loop of a submission, turn by turn. -/
theorem emits_submitLoop {trades : List ProposedTrade} (failures : Nat) :
    E.system.Emits (Ibkr.submitLoop settings (callbackOf reported) trades failures) fun out τ =>
      LoopEnd settings trades out τ := by
  induction trades generalizing failures with
  | nil => exact System.emits_ret .done
  | cons proposed rest ih =>
    have hprepare : E.system.Emits (Ibkr.prepareOrder settings proposed) fun out τ =>
        Quiet True τ ∧ ∀ order, out = .returned order →
          Ibkr.buildOrder settings proposed = .ok order :=
      emits_quiet (meets_prepareOrder turnMeets_places) fun _ =>
        (meets_prepareOrder turnMeets_reports).mono (fun _ ho => ho) fun _ _ => trivial
    rw [Ibkr.submitLoop]
    apply System.emits_attempt_bind hprepare
    · rintro order τ ⟨hquiet, horder⟩
      exact emits_placeTrade (horder order rfl) hquiet ih
    · rintro e τ ⟨hquiet, _⟩
      apply (emits_failedPreparation e (ih failures)).mono
      exact fun out more hmore => hmore.after_quiet hquiet
    · exact fun τ h => .of_quiet h.1.places fun _ h => (by cases h)

/-- A part that places nothing, after the loop. -/
theorem LoopEnd.then_quiet {trades : List ProposedTrade} {τ more : List (Event sig)}
    {out : Outcome Exn (List OrderResult)} (h : LoopEnd settings trades out τ)
    (hmore : Quiet True more) : LoopEnd settings trades out (τ ++ more) := by
  have horders : placedOrders (τ ++ more) = placedOrders τ := by
    rw [placedOrders_append, hmore.places, List.append_nil]
  constructor
  · rw [horders]
    exact h.placed
  · intro results hresults
    obtain ⟨repeated, hsubmission, hraises, hrepeats⟩ := h.returned results hresults
    refine ⟨repeated, horders ▸ hsubmission, fun hrepeated => ?_, fun hidentified hraised => ?_⟩
    · exact raisedOnUnsubmitted_append.mpr (Or.inl (hraises hrepeated))
    · obtain ⟨hown, hrest⟩ := identified_append.mp hidentified
      rcases raisedOnUnsubmitted_append.mp hraised with hraised | hraised
      · exact hrepeats hown hraised
      · exact absurd hraised (hmore.reports trivial hrest)

/-- The orders placed are the same when a run ends otherwise. -/
theorem LoopEnd.of_unreturned {trades : List ProposedTrade} {τ : List (Event sig)}
    {out next : Outcome Exn (List OrderResult)} (h : LoopEnd settings trades out τ)
    (hnext : ∀ results, next ≠ .returned results) : LoopEnd settings trades next τ :=
  ⟨h.placed, fun results hresults => absurd hresults (hnext results)⟩

theorem Quiet.append {τ more : List (Event sig)} (h : Quiet True τ) (hmore : Quiet True more) :
    Quiet True (τ ++ more) := by
  constructor
  · rw [placedOrders_append, h.places, hmore.places]
    rfl
  · intro _ hidentified
    obtain ⟨hown, hrest⟩ := identified_append.mp hidentified
    rw [raisedOnUnsubmitted_append, not_or]
    exact ⟨h.reports trivial hown, hmore.reports trivial hrest⟩

/-- A submission is one of its loop, between the opening and the closing of its session. -/
theorem emits_submitTrades (trades : List ProposedTrade) :
    E.system.Emits (Ibkr.submitTrades settings trades (callbackOf reported)) fun out τ =>
      LoopEnd settings trades out τ := by
  have hasked : ∀ call : IbCall, (∀ order, call ≠ .placeOrder order) →
      E.system.Emits (askIb call) fun out τ => Quiet True τ ∧ ∀ answer : call.Ans,
        out = .returned answer → True := fun call hcall =>
    emits_quiet ((meets_askIb (turnMeets_places.asks call hcall)).mono (fun _ ho => ho)
      fun _ _ => trivial) fun _ => (meets_askIb (turnMeets_reports.asks call hcall)).mono
        (fun _ ho => ho) fun _ _ => trivial
  have hconnect : E.system.Emits (Ibkr.connect settings) fun out τ => Quiet True τ ∧
      ∀ a, out = .returned a → True :=
    emits_quiet (meets_connect turnMeets_places) fun _ => meets_connect turnMeets_reports
  have hready : E.system.Emits (Ibkr.assertReadyForOrders settings) fun out τ => Quiet True τ ∧
      ∀ a, out = .returned a → True :=
    emits_quiet (meets_assertReadyForOrders turnMeets_places) fun _ =>
      meets_assertReadyForOrders turnMeets_reports
  unfold Ibkr.submitTrades
  dsimp only
  split
  · rename_i hnil
    subst hnil
    exact System.emits_ret .done
  apply System.emits_attempt_bind hconnect
  · rintro _ τ ⟨hopened, _⟩
    apply System.emits_attempt_bind hready
    · rintro _ more ⟨hprobed, _⟩
      have hbefore := hopened.append hprobed
      simp only [← List.append_assoc]
      apply System.emits_ensuring (emits_submitLoop 0) (hasked .disconnect (by simp))
      · intro out loop closing hloop hclosing
        exact LoopEnd.after_quiet hbefore (hloop.then_quiet hclosing.1)
      · intro e out loop closing hloop hclosing
        exact LoopEnd.after_quiet hbefore
          ((hloop.of_unreturned fun _ h => (by cases h)).then_quiet hclosing.1)
      · intro out loop closing hloop hclosing
        exact LoopEnd.after_quiet hbefore
          ((hloop.of_unreturned fun _ h => (by cases h)).then_quiet hclosing.1)
      · intro loop hloop
        exact LoopEnd.after_quiet hbefore hloop
    · rintro e more ⟨hprobed, _⟩
      have hbefore := hopened.append hprobed
      simp only [← List.append_assoc]
      apply System.emits_bind (hasked .disconnect (by simp))
      · rintro _ closing ⟨hclosed, _⟩
        apply (emits_unsubmittedResults trades _).mono
        intro out later hlater
        rw [← List.append_assoc]
        exact LoopEnd.after_quiet (hbefore.append hclosed) (.of_leftOut hlater)
      · exact fun e' closing h => .of_quiet (hbefore.append h.1).places fun _ h => (by cases h)
      · exact fun closing h => .of_quiet (hbefore.append h.1).places fun _ h => (by cases h)
    · exact fun more h => .of_quiet (hopened.append h.1).places fun _ h => (by cases h)
  · rintro e τ ⟨hopened, _⟩
    apply (emits_unsubmittedResults trades _).mono
    exact fun out more hmore => LoopEnd.after_quiet hopened (.of_leftOut hmore)
  · exact fun τ h => .of_quiet h.1.places fun _ h => (by cases h)

end Parts

/-- A submission that returns has one result for every trade, in order, unless the callback raised
on the report of a trade that was not submitted; where every order has an id, only then. -/
theorem submitTrades_accounts_iff {settings : Settings} {reported : Bool}
    {trades : List ProposedTrade} {results : List OrderResult} {cs : List Oracle}
    {store : OrderStore}
    (h : (openWorld.run (Ibkr.submitTrades settings trades (callbackOf reported)) cs
      (World.of store)).outcome = .returned results) :
    (¬RaisedOnUnsubmitted (openWorld.run (Ibkr.submitTrades settings trades (callbackOf reported))
        cs (World.of store)).trace →
      AccountsForEach settings trades (placedOrders (openWorld.run (Ibkr.submitTrades settings trades
        (callbackOf reported)) cs (World.of store)).trace) results) ∧
    (Identified (openWorld.run (Ibkr.submitTrades settings trades (callbackOf reported)) cs
        (World.of store)).trace →
      (AccountsForEach settings trades (placedOrders (openWorld.run (Ibkr.submitTrades settings
          trades (callbackOf reported)) cs (World.of store)).trace) results ↔
        ¬RaisedOnUnsubmitted (openWorld.run (Ibkr.submitTrades settings trades
          (callbackOf reported)) cs (World.of store)).trace)) := by
  obtain ⟨repeated, hsubmission, hraises, hrepeats⟩ :=
    ((emits_submitTrades (E := openEnvironment) trades).runs cs (World.of store)).returned results h
  have honce : ¬RaisedOnUnsubmitted (openWorld.run (Ibkr.submitTrades settings trades
      (callbackOf reported)) cs (World.of store)).trace → repeated = false := by
    intro hnone
    cases repeated with
    | false => rfl
    | true => exact absurd (hraises rfl) hnone
  refine ⟨fun hnone => hsubmission.accounts_iff.mpr (honce hnone), fun hidentified => ?_⟩
  constructor
  · intro haccounts hraised
    have hrepeated := hrepeats hidentified hraised
    rw [hsubmission.accounts_iff.mp haccounts] at hrepeated
    cases hrepeated
  · exact fun hnone => hsubmission.accounts_iff.mpr (honce hnone)

/-- A buy of five shares at a limit. -/
def limitBuy (ticker ref : String) : ProposedTrade where
  ticker := ticker
  side := .buy
  quantity := 5
  notional := 50
  referencePrice := 10
  limitPrice := some 10
  reason := "rebalance_to_target_weight"
  orderRef := some ref

/-- An order without a fill, under a status. -/
def IbOrder.under (order : IbOrder) (status : String) : IbTrade where
  orderRef := order.orderRef
  account := order.account
  orderId := some 7
  permId := none
  symbol := order.symbol
  action := order.action
  totalQuantity := order.totalQuantity
  status := status
  filled := 0
  remaining := order.totalQuantity
  avgFillPrice := none

/-- A client library that shows every order under one status, and a callback that raises on one
message. -/
def showsEvery (status message : String) : Oracle where
  clock := 0
  answer
    | .statusCallback _ result =>
      if result.message = some message then .error (.other "disk full") else .ok ()
    | .ib .connect => .ok ()
    | .ib .disconnect => .ok ()
    | .ib .isConnected => .ok true
    | .ib .managedAccounts => .ok []
    | .ib .reqCurrentTime => .ok ()
    | .ib .probeTradingPermissions => .ok (true, "")
    | .ib (.executionOrderContract _) => .ok ()
    | .ib (.placeOrder order) => .ok (order.under status)
    | .ib (.readTrade trade) => .ok trade
    | .ib .withinDeadline => .ok true
    | _ => .error (.connection "not connected")

/-- Two buys that the broker accepts. -/
def acceptedRun : Run sig (World Unit) (List OrderResult) :=
  openWorld.run (Ibkr.submitTrades Settings.unset [limitBuy "AAPL" "poma:run:0:AAPL:BUY",
    limitBuy "MSFT" "poma:run:1:MSFT:BUY"] (callbackOf true))
    (List.replicate 20 (showsEvery "Submitted" "never")) (World.of .empty)

/-- The results of the accepted buys. -/
def acceptedResults : List OrderResult :=
  [limitBuy "AAPL" "poma:run:0:AAPL:BUY", limitBuy "MSFT" "poma:run:1:MSFT:BUY"].map fun trade =>
    { manualResult trade "Submitted" none with orderId := some 7 }

theorem submitTrades_accounts_iff_accepted :
    (¬RaisedOnUnsubmitted acceptedRun.trace → AccountsForEach Settings.unset
      [limitBuy "AAPL" "poma:run:0:AAPL:BUY", limitBuy "MSFT" "poma:run:1:MSFT:BUY"]
        (placedOrders acceptedRun.trace) acceptedResults) ∧
    (Identified acceptedRun.trace → (AccountsForEach Settings.unset
      [limitBuy "AAPL" "poma:run:0:AAPL:BUY", limitBuy "MSFT" "poma:run:1:MSFT:BUY"]
        (placedOrders acceptedRun.trace) acceptedResults ↔
          ¬RaisedOnUnsubmitted acceptedRun.trace)) :=
  submitTrades_accounts_iff (by decide +kernel)

/-- Two buys of which the first is refused, and a callback that raises as the second is left out. -/
def refusedRun : Run sig (World Unit) (List OrderResult) :=
  openWorld.run (Ibkr.submitTrades Settings.stoppingAtFirst [limitBuy "AAPL" "poma:run:0:AAPL:BUY",
    limitBuy "MSFT" "poma:run:1:MSFT:BUY"] (callbackOf true))
    (List.replicate 20 (showsEvery "Cancelled" "stopped after 1 consecutive orders were not accepted by IBKR; no further orders submitted"))
    (World.of .empty)

/-- What the refused buys come to: the first is answered twice. -/
def refusedResults : List OrderResult :=
  [{ manualResult (limitBuy "AAPL" "poma:run:0:AAPL:BUY") "Cancelled"
      (some "order reached terminal status before acceptance") with orderId := some 7 },
    { manualResult (limitBuy "AAPL" "poma:run:0:AAPL:BUY") submissionUnconfirmedStatus
      (some (Ibkr.uncertainMessage (.other "disk full"))) with orderId := some 7 },
    manualResult (limitBuy "MSFT" "poma:run:1:MSFT:BUY") brokerUnavailableStatus
      (some "stopped after uncertain submission; remaining orders not submitted")]

/-- A refused trade is answered twice when the callback raises on the trade after it. -/
theorem not_accountsForEach_refused :
    refusedRun.outcome = .returned refusedResults ∧
    ¬AccountsForEach Settings.stoppingAtFirst
      [limitBuy "AAPL" "poma:run:0:AAPL:BUY", limitBuy "MSFT" "poma:run:1:MSFT:BUY"]
        (placedOrders refusedRun.trace) refusedResults := by
  refine ⟨by decide +kernel, fun haccounts => ?_⟩
  have hlength := haccounts.answered.length_eq
  revert hlength
  decide

end Poma

import Poma.Correctness.Absorbing
import Poma.Correctness.Funding

/-!
# Attempts and the ends of orders

An attempt records over an order that has ended only what the broker reports of
it. When these reports agree with each other, a fill does not shrink and a
status that ended the order stays, the order keeps its end: every command then
admits only records of open rows, or of the end a row has.
-/

namespace Poma

open Interaction

/-- A report of an order that another one of the same order may follow. -/
structure OrderResult.Continues (earlier later : OrderResult) : Prop where
  fills : earlier.filled ≤ later.filled
  filled : earlier.status = "Filled" → later.status = "Filled"
  cancelled : earlier.status ∈ rawTerminalCancelled → later.status ∈ rawTerminalCancelled

/-- A trade handed to the broker, and a result the broker reported for it. -/
abbrev TradeReport : Type := ProposedTrade × OrderResult

/-- An order reported as cancelled is not reported with all of its quantity filled. -/
def TradeReport.Coherent (report : TradeReport) : Prop :=
  report.2.status ∈ rawTerminalCancelled →
    ¬(report.2.filled > 0 ∧ report.1.quantity - report.2.filled ≤ fillTolerance)

/-- TradeReports under one reference continue each other, and each is coherent. -/
structure Steady (made : List TradeReport) : Prop where
  continues : made.Pairwise fun earlier later =>
    earlier.1.ref = later.1.ref → earlier.2.Continues later.2
  coherent : ∀ report ∈ made, report.Coherent

theorem Steady.initial {made more : List TradeReport} (h : Steady (made ++ more)) : Steady made where
  continues := (List.pairwise_append.mp h.continues).1
  coherent report hreport := h.coherent report (List.mem_append_left _ hreport)

/-- The last report of a steady list continues the earlier ones of its order. -/
theorem Steady.last {seen : List TradeReport} {report : TradeReport}
    (h : Steady (seen ++ [report])) : report.Coherent ∧
      ∀ earlier ∈ seen, earlier.1.ref = report.1.ref → earlier.2.Continues report.2 := by
  constructor
  · exact h.coherent report (List.mem_append_right _ List.mem_cons_self)
  · intro earlier hearlier
    exact (List.pairwise_append.mp h.continues).2.2 earlier hearlier report List.mem_cons_self

/-- What a trace shows of the reports of a broker: the batch it was handed last, and what it
reported of the trades it was handed. -/
structure TradeReports where
  handed : List ProposedTrade := []
  made : List TradeReport := []

/-- One more operation, with its answer. -/
def TradeReports.after (reports : TradeReports) : (o : Op) → Except Exn o.Ans → TradeReports
  | .broker (.submitTrades trades), _ => { reports with handed := trades }
  | .broker (.nextStatus trades), .ok report =>
    let report : Fin trades.length × OrderResult := report
    { reports with made := reports.made ++ [(trades.get report.1, report.2)] }
  | .broker .submitResults, .ok results =>
    { reports with made := reports.made ++ reports.handed.zip results }
  | _, _ => reports

/-- The reports of a trace. -/
def tradeReports (τ : List (Event sig)) : TradeReports :=
  τ.foldl (fun reports event => reports.after event.op event.ans) {}

/-- Over a trace the reports of the broker agree with each other. -/
def SteadyTrace (τ : List (Event sig)) : Prop := Steady (tradeReports τ).made

theorem tradeReports_concat (τ : List (Event sig)) (event : Event sig) :
    tradeReports (τ ++ [event]) = (tradeReports τ).after event.op event.ans := by
  unfold tradeReports
  rw [List.foldl_append]
  rfl

theorem TradeReports.made_after (reports : TradeReports) (o : Op) (r : Except Exn o.Ans) :
    ∃ more, (reports.after o r).made = reports.made ++ more := by
  have hnone : ∃ more, reports.made = reports.made ++ more := ⟨[], (List.append_nil _).symm⟩
  cases o with
  | broker call =>
    cases call with
    | nextStatus trades =>
      cases r with
      | ok report => exact ⟨_, rfl⟩
      | error e => exact hnone
    | submitResults =>
      cases r with
      | ok results => exact ⟨_, rfl⟩
      | error e => exact hnone
    | _ => exact hnone
  | _ => exact hnone

/-- What a trace continued is steady, so the trace was. -/
theorem SteadyTrace.initial {τ τ' : List (Event sig)} (h : SteadyTrace τ') (hstart : τ <+: τ') :
    SteadyTrace τ := by
  obtain ⟨more, rfl⟩ := hstart
  induction more using List.reverseRecOn with
  | nil => rwa [List.append_nil] at h
  | append_singleton more event ih =>
    apply ih
    unfold SteadyTrace at h ⊢
    rw [← List.append_assoc, tradeReports_concat] at h
    obtain ⟨added, hadded⟩ := (tradeReports (τ ++ more)).made_after event.op event.ans
    rw [hadded] at h
    exact h.initial

/-- An operation that is no report of the broker. -/
def Op.Unreporting (o : Op) : Prop :=
  ∀ (reports : TradeReports) (r : Except Exn o.Ans), reports.after o r = reports

/-- A row shows a report of its order. -/
structure OrderLedgerEntry.ShowsResult (row : OrderLedgerEntry) (result : OrderResult) : Prop where
  state : row.lifecycleState =
    classifyLifecycle result.status result.filled (max (row.quantity - result.filled) 0)
  status : row.rawStatus = result.status
  filled : row.filledQty = result.filled

theorem OrderLedgerEntry.withOrderResult_showsResult (entry : OrderLedgerEntry) (result : OrderResult)
    (now : ℚ) : (entry.withOrderResult result now).ShowsResult result := ⟨rfl, rfl, rfl⟩

section Classified

variable {status : String} {filled remaining : ℚ}

theorem classifyLifecycle_filled_iff : classifyLifecycle status filled remaining = .filled ↔
    status = "Filled" ∨ (filled > 0 ∧ remaining ≤ fillTolerance) := by
  unfold classifyLifecycle
  constructor
  · intro h
    by_contra hnot
    rw [if_neg hnot] at h
    repeat' split at h
    all_goals cases h
  · exact fun h => if_pos h

theorem classifyLifecycle_cancelled_iff : classifyLifecycle status filled remaining = .cancelled ↔
    ¬(status = "Filled" ∨ (filled > 0 ∧ remaining ≤ fillTolerance)) ∧
      status ∈ rawTerminalCancelled := by
  unfold classifyLifecycle
  constructor
  · intro h
    by_cases hfilled : status = "Filled" ∨ (filled > 0 ∧ remaining ≤ fillTolerance)
    · rw [if_pos hfilled] at h
      cases h
    · refine ⟨hfilled, ?_⟩
      by_contra hnot
      rw [if_neg hfilled, if_neg hnot] at h
      repeat' split at h
      all_goals cases h
  · rintro ⟨hfilled, hcancelled⟩
    rw [if_neg hfilled, if_pos hcancelled]

theorem classifyLifecycle_unconfirmed (remaining : ℚ) :
    classifyLifecycle submissionUnconfirmedStatus 0 remaining = .unknown := by
  unfold classifyLifecycle
  simp only [gt_iff_lt, lt_irrefl, false_and, or_false]
  decide

end Classified

theorem max_sub_le_fillTolerance {quantity filled : ℚ} :
    max (quantity - filled) 0 ≤ fillTolerance ↔ quantity - filled ≤ fillTolerance := by
  have htolerance : (0 : ℚ) ≤ fillTolerance := by decide +kernel
  constructor
  · exact fun h => (le_max_left _ _).trans h
  · exact fun h => max_le h htolerance

/-- A row that shows an end keeps it in a row of no more shares that shows a later report. -/
theorem OrderLedgerEntry.Ended.kept {row x : OrderLedgerEntry} {earlier later : OrderResult}
    (h : row.Ended) (hrow : row.ShowsResult earlier) (hx : x.ShowsResult later)
    (hless : x.quantity ≤ row.quantity) (hcontinues : earlier.Continues later)
    (hcoherent : later.status ∈ rawTerminalCancelled →
      ¬(later.filled > 0 ∧ x.quantity - later.filled ≤ fillTolerance)) :
    x.Ended ∧ x.lifecycleState = row.lifecycleState := by
  have htolerance : (0 : ℚ) ≤ fillTolerance := by decide +kernel
  rcases h with hcancelled | ⟨hfilled, hend⟩
  · have hstate := hrow.state
    rw [hcancelled] at hstate
    have hlater := hcontinues.cancelled (classifyLifecycle_cancelled_iff.mp hstate.symm).2
    have hxstate : x.lifecycleState = .cancelled := by
      rw [hx.state]
      apply classifyLifecycle_cancelled_iff.mpr
      refine ⟨?_, hlater⟩
      rintro (hstatus | ⟨hpositive, hleft⟩)
      · rw [hstatus] at hlater
        exact absurd hlater (by decide)
      · exact hcoherent hlater ⟨hpositive, max_sub_le_fillTolerance.mp hleft⟩
    exact ⟨Or.inl hxstate, hxstate.trans hcancelled.symm⟩
  · have hstate := hrow.state
    rw [hfilled] at hstate
    rcases hend with hstatus | hmore
    · have hlater : later.status = "Filled" := hcontinues.filled (hrow.status ▸ hstatus)
      have hxstate : x.lifecycleState = .filled := by
        rw [hx.state]
        exact classifyLifecycle_filled_iff.mpr (Or.inl hlater)
      exact ⟨Or.inr ⟨hxstate, Or.inl (hx.status.trans hlater)⟩, hxstate.trans hfilled.symm⟩
    · have hearlier : fillTolerance < earlier.filled := by
        unfold OrderLedgerEntry.Unfilled at hmore
        rw [hrow.filled] at hmore
        exact not_le.mp hmore
      have hlater : fillTolerance < later.filled := hearlier.trans_le hcontinues.fills
      rcases classifyLifecycle_filled_iff.mp hstate.symm with hstatus | ⟨_, hleft⟩
      · have hstatus' := hcontinues.filled hstatus
        have hxstate : x.lifecycleState = .filled := by
          rw [hx.state]
          exact classifyLifecycle_filled_iff.mpr (Or.inl hstatus')
        exact ⟨Or.inr ⟨hxstate, Or.inl (hx.status.trans hstatus')⟩, hxstate.trans hfilled.symm⟩
      · have hleft' : x.quantity - later.filled ≤ fillTolerance := by
          have hrest := max_sub_le_fillTolerance.mp hleft
          have hfills := hcontinues.fills
          linarith
        have hxstate : x.lifecycleState = .filled := by
          rw [hx.state]
          apply classifyLifecycle_filled_iff.mpr
          exact Or.inr ⟨htolerance.trans_lt hlater, max_sub_le_fillTolerance.mpr hleft'⟩
        refine ⟨Or.inr ⟨hxstate, Or.inr ?_⟩, hxstate.trans hfilled.symm⟩
        unfold OrderLedgerEntry.Unfilled
        rw [hx.filled]
        exact not_le.mpr hlater

namespace OrderStore

/-- The row of a trade shows the last of the reports seen of it, where its order has ended, and is
of no fewer shares than the trade. -/
def Follows (store : OrderStore) (seen : List TradeReport) (trade : ProposedTrade) : Prop :=
  ∃ row, store.latest trade.ref = some row ∧ trade.quantity ≤ row.quantity ∧
    (row.Ended → ∃ report ∈ seen, report.1.ref = trade.ref ∧ row.ShowsResult report.2)

/-- The row of a trade is open, and of no fewer shares than the trade. -/
def HoldsFor (store : OrderStore) (trade : ProposedTrade) : Prop :=
  ∃ row, store.Holds row ∧ row.ledgerKey = trade.ref ∧ trade.quantity ≤ row.quantity

theorem HoldsFor.follows {store : OrderStore} {trade : ProposedTrade} (h : store.HoldsFor trade)
    (seen : List TradeReport) : store.Follows seen trade := by
  obtain ⟨row, hholds, hkey, hquantity⟩ := h
  refine ⟨row, hkey ▸ hholds.latest, hquantity, fun hended => ?_⟩
  exact absurd hended (hholds.live row hholds.latest)

theorem Follows.mono {store : OrderStore} {seen more : List TradeReport} {trade : ProposedTrade}
    (h : store.Follows seen trade) (hsub : seen ⊆ more) : store.Follows more trade := by
  obtain ⟨row, hlatest, hquantity, hshows⟩ := h
  refine ⟨row, hlatest, hquantity, fun hended => ?_⟩
  obtain ⟨report, hreport, href, hrow⟩ := hshows hended
  exact ⟨report, hsub hreport, href, hrow⟩

end OrderStore

/-- The row that the result of a trade leaves. -/
def resultRow (store : OrderStore) (plan : RebalancePlan) (trade : ProposedTrade)
    (result : OrderResult) (now : ℚ) : OrderLedgerEntry :=
  ((store.get trade.ref).getD (plannedEntry plan trade)).withOrderResult result now

section ResultRows

variable {store : OrderStore} {plan : RebalancePlan} {trade : ProposedTrade} {result : OrderResult}
  {now : ℚ}

theorem OrderStore.get_of_open {row : OrderLedgerEntry} (h : store.latest trade.ref = some row)
    (hopen : row.isTerminal = false) : store.get trade.ref = some row := by
  rw [OrderStore.get_eq, h, Option.filter_some, hopen]
  rfl

theorem OrderStore.get_of_terminal {row : OrderLedgerEntry}
    (h : store.latest trade.ref = some row) (hterminal : row.isTerminal = true) :
    store.get trade.ref = none := by
  rw [OrderStore.get_eq, h, Option.filter_some, hterminal]
  rfl

theorem resultRow_key : (resultRow store plan trade result now).ledgerKey = trade.ref := by
  unfold resultRow
  cases hget : store.get trade.ref with
  | none => rfl
  | some row =>
    rw [OrderStore.get_eq] at hget
    have hkey : row.ledgerKey = trade.ref :=
      OrderStore.latest_key (Option.filter_eq_some_iff.mp hget).1
    exact hkey

theorem resultRow_showsResult : (resultRow store plan trade result now).ShowsResult result :=
  OrderLedgerEntry.withOrderResult_showsResult _ _ _

/-- The result of a trade is recorded on a row of no fewer shares. -/
theorem resultRow_quantity {row : OrderLedgerEntry} (h : store.latest trade.ref = some row)
    (hquantity : trade.quantity ≤ row.quantity) :
    trade.quantity ≤ (resultRow store plan trade result now).quantity := by
  unfold resultRow
  cases hterminal : row.isTerminal with
  | true =>
    rw [OrderStore.get_of_terminal h hterminal]
    exact le_rfl
  | false =>
    rw [OrderStore.get_of_open h hterminal]
    exact hquantity

/-- A report that continues those seen keeps the end of the row. -/
theorem resultRow_kept {seen : List TradeReport} (hfollows : store.Follows seen trade)
    (hsteady : Steady (seen ++ [(trade, result)])) :
    ∀ row, store.latest trade.ref = some row → row.Ended →
      (resultRow store plan trade result now).Ended ∧
        (resultRow store plan trade result now).lifecycleState = row.lifecycleState := by
  intro row hrow hended
  obtain ⟨other, hother, hquantity, hshows⟩ := hfollows
  rw [hrow] at hother
  obtain rfl := Option.some.inj hother
  obtain ⟨⟨earlier, before⟩, hseen, href, hshown⟩ := hshows hended
  obtain ⟨hcoherent, hcontinues⟩ := hsteady.last
  have hplanned : (resultRow store plan trade result now).quantity = trade.quantity := by
    unfold resultRow
    rw [OrderStore.get_of_terminal hrow hended.isTerminal]
    rfl
  apply hended.kept hshown resultRow_showsResult
  · rw [hplanned]
    exact hquantity
  · exact hcontinues _ hseen href
  · rw [hplanned]
    exact hcoherent

/-- What follows the reports seen follows one more, of this trade or of another one. -/
theorem follows_resultRow {seen : List TradeReport} {trades : List ProposedTrade}
    (hnodup : (trades.map (·.ref)).Nodup) (htrade : trade ∈ trades)
    (hfollows : ∀ other ∈ trades, store.Follows seen other) :
    ∀ other ∈ trades, (store.upsert (resultRow store plan trade result now)).Follows
      (seen ++ [(trade, result)]) other := by
  intro other hother
  have hkey : (resultRow store plan trade result now).ledgerKey = trade.ref := resultRow_key
  by_cases hsame : trade.ref = other.ref
  · obtain rfl := List.inj_on_of_nodup_map hnodup htrade hother hsame
    obtain ⟨row, hrow, hquantity, _⟩ := hfollows trade htrade
    refine ⟨_, OrderStore.latest_upsert_of_eq hkey, resultRow_quantity hrow hquantity, fun _ => ?_⟩
    exact ⟨(trade, result), List.mem_append_right _ List.mem_cons_self, rfl, resultRow_showsResult⟩
  · obtain ⟨row, hrow, hquantity, hshows⟩ := hfollows other hother
    have hne : (resultRow store plan trade result now).ledgerKey ≠ other.ref := by
      rw [hkey]
      exact hsame
    refine ⟨row, (OrderStore.latest_upsert_of_ne hne).trans hrow, hquantity, fun hended => ?_⟩
    obtain ⟨report, hreport, href, hrow⟩ := hshows hended
    exact ⟨report, List.mem_append_left _ hreport, href, hrow⟩

end ResultRows

section Recording

variable {W : Type} (E : Environment W) {base : OrderStore} {τ : List (Event sig)} {s : World W}
  {plan : RebalancePlan}

/-- Under the condition that its trace is steady, a program may rely on it from the start. -/
theorem wp_steady {α : Type} {p : M α} {Q : Post sig (World W) α}
    (h : SteadyTrace τ → E.system.wp p (fun out τ' s' => SteadyTrace τ' → Q out τ' s') τ s) :
    E.system.wp p (fun out τ' s' => SteadyTrace τ' → Q out τ' s') τ s := by
  by_cases hsteady : SteadyTrace τ
  · exact h hsteady
  · refine E.system.wp_mono (E.system.wp_extends p τ s) fun _ _ _ hstart hτ' => ?_
    exact absurd (hτ'.initial hstart) hsteady

/-- Operations that neither record, nor ask about an order, nor report one. -/
def Op.Idle (o : Op) : Prop := o.Passive ∧ o.Unreporting

theorem wp_idle {α : Type} {p : M α} (hp : p.Uses (S := sig) Op.Idle) (h : Tracked base τ s) :
    E.system.wp p (fun _ τ' s' => Tracked base τ' s' ∧ s'.ledger = s.ledger ∧
      tradeReports τ' = tradeReports τ) τ s := by
  apply E.system.wp_of_uses (I := fun τ' s' => Tracked base τ' s' ∧ s'.ledger = s.ledger ∧
    tradeReports τ' = tradeReports τ) hp _ ⟨h, rfl, rfl⟩
  rintro o ⟨hpassive, hunreporting⟩ c τ' s' ⟨htracked, hledger, hreports⟩
  refine ⟨htracked.step E hpassive.admitted c, ?_, ?_⟩
  · exact (act_ledger_of_keeps E hpassive.1 c s').trans hledger
  · exact ((tradeReports_concat τ' _).trans (hunreporting _ _)).trans hreports

/-- The result of a trade is recorded where it keeps the end of its row. -/
theorem wp_recordResult {trade : ProposedTrade} {result : OrderResult} (h : Tracked base τ s)
    (hkept : ∀ now, ∀ row, s.ledger.latest trade.ref = some row → row.Ended →
      (resultRow s.ledger plan trade result now).Ended ∧
        (resultRow s.ledger plan trade result now).lifecycleState = row.lifecycleState) :
    E.system.wp (recordResult plan trade result) (fun out τ' s' => Tracked base τ' s' ∧
      tradeReports τ' = tradeReports τ ∧
      ((∃ now, s'.ledger = s.ledger.upsert (resultRow s.ledger plan trade result now)) ∨
        out = .stopped ∧ s'.ledger = s.ledger)) τ s := by
  have hsilent : ∀ (τ' : List (Event sig)) (o : Op) (r : Except Exn o.Ans), o.Unreporting →
      tradeReports τ' = tradeReports τ →
      tradeReports (τ' ++ [(⟨o, r⟩ : Event sig)]) = tradeReports τ := by
    intro τ' o r ho hτ'
    rw [tradeReports_concat, ho, hτ']
  unfold recordResult
  rw [System.wp_bind, wp_loadLatest]
  refine ⟨⟨h, rfl, Or.inr ⟨rfl, rfl⟩⟩, fun c => ?_⟩
  have hloaded : Tracked base (τ ++ [⟨.loadLatestEntries, .ok s.ledger⟩]) s :=
    h.step E (o := .loadLatestEntries) (Op.Passive.admitted ⟨trivial, id⟩) c
  have hload := hsilent τ .loadLatestEntries (.ok s.ledger) (fun _ _ => rfl) rfl
  rw [System.seq_returned]
  dsimp only
  rw [System.wp_bind, wp_utcNow]
  refine ⟨⟨hloaded, hload, Or.inr ⟨rfl, rfl⟩⟩, fun c' => ?_⟩
  have hclock : Tracked base (τ ++ [⟨.loadLatestEntries, .ok s.ledger⟩] ++
      [⟨.utcNow, .ok (E.clock c' s.outside)⟩]) s :=
    hloaded.step E (o := .utcNow) (Op.Passive.admitted ⟨trivial, id⟩) c'
  have hread := hsilent _ .utcNow (.ok (E.clock c' s.outside)) (fun _ _ => rfl) hload
  rw [System.seq_returned, wp_upsertEntry]
  refine ⟨⟨hclock, hread, Or.inr ⟨rfl, rfl⟩⟩, fun c'' => ⟨?_, ?_, Or.inl ⟨_, rfl⟩⟩⟩
  · have hadmits : s.ledger.Admits (τ ++ [⟨.loadLatestEntries, .ok s.ledger⟩] ++
        [⟨.utcNow, .ok (E.clock c' s.outside)⟩])
        (.upsert (resultRow s.ledger plan trade result (E.clock c' s.outside))) := by
      intro row hrow
      rw [resultRow_key] at hrow
      exact hkept _ row hrow
    exact hclock.step E (o := .upsert _) hadmits c''
  · exact hsilent _ (.upsert _) (.ok ()) (fun _ _ => rfl) hread

theorem notify_idle (trade : ProposedTrade) (result : OrderResult) :
    (notify (some observe) trade result).Uses (S := sig) Op.Idle :=
  Prog.uses_perform (S := sig) (o := Op.statusCallback trade result) ⟨⟨trivial, id⟩, fun _ _ => rfl⟩

/-- A row held for a trade is held on when an outcome that is unknown is recorded. -/
theorem HoldsFor.unconfirmed {store : OrderStore} {trade other : ProposedTrade} {now : ℚ}
    {message : String} (hother : store.HoldsFor other) (htrade : store.HoldsFor trade) :
    (store.upsert (resultRow store plan trade
      (blockedResult trade submissionUnconfirmedStatus message) now)).HoldsFor other := by
  obtain ⟨row, hholds, hkey, hquantity⟩ := hother
  by_cases hsame : trade.ref = other.ref
  · obtain ⟨first, hfirst, hfirstKey, _⟩ := htrade
    have hlatest : store.latest trade.ref = some first := hfirstKey ▸ hfirst.latest
    obtain rfl : first = row := by
      have hrow := hholds.latest
      rw [hkey, ← hsame, hlatest] at hrow
      exact Option.some.inj hrow
    have hrecorded : resultRow store plan trade
        (blockedResult trade submissionUnconfirmedStatus message) now =
        first.withOrderResult (blockedResult trade submissionUnconfirmedStatus message) now := by
      unfold resultRow
      rw [OrderStore.get_of_open hlatest hfirst.isOpen]
      rfl
    rw [hrecorded]
    refine ⟨_, ⟨OrderStore.latest_upsert_of_eq rfl, ?_⟩, hkey, hquantity⟩
    have hunknown : (first.withOrderResult
        (blockedResult trade submissionUnconfirmedStatus message) now).lifecycleState =
        .unknown := classifyLifecycle_unconfirmed (max (first.quantity - 0) 0)
    unfold OrderLedgerEntry.isTerminal
    rw [hunknown]
    decide
  · have hne : (resultRow store plan trade (blockedResult trade submissionUnconfirmedStatus
        message) now).ledgerKey ≠ row.ledgerKey := by
      rw [resultRow_key, hkey]
      exact hsame
    exact ⟨row, ⟨(OrderStore.latest_upsert_of_ne hne).trans hholds.latest, hholds.isOpen⟩, hkey,
      hquantity⟩

/-- The durable uncertainty of every trade leaves the rows of all of them open. -/
theorem wp_unconfirmed {trades : List ProposedTrade} (h : Tracked base τ s)
    (hheld : ∀ trade ∈ trades, s.ledger.HoldsFor trade) (message : String) :
    E.system.wp (Prog.forEach (fun trade => recordResult plan trade
      (blockedResult trade submissionUnconfirmedStatus message)) trades)
      (fun out τ' s' => Tracked base τ' s' ∧
        (out = .returned () → ∀ trade ∈ trades, s'.ledger.HoldsFor trade)) τ s := by
  apply E.system.wp_forEach (I := fun rest τ' s' => rest ⊆ trades ∧ Tracked base τ' s' ∧
    ∀ trade ∈ trades, s'.ledger.HoldsFor trade)
  · rintro trade rest τ₁ s₁ ⟨hrest, htracked, hheld₁⟩
    have hmem : trade ∈ trades := hrest List.mem_cons_self
    refine E.system.wp_mono (wp_recordResult E htracked fun now row hrow hended => ?_) ?_
    · obtain ⟨other, hother, hkey, _⟩ := hheld₁ trade hmem
      exact absurd hended (hother.live row (hkey ▸ hrow))
    · rintro out τ₂ s₂ ⟨htracked₂, _, hledger⟩
      cases out with
      | stopped => exact ⟨htracked₂, by rintro ⟨⟩⟩
      | raised e => exact ⟨htracked₂, by rintro ⟨⟩⟩
      | returned _ =>
        refine ⟨List.Subset.trans (List.subset_cons_self _ _) hrest, htracked₂, fun other hother => ?_⟩
        rcases hledger with ⟨now, hledger⟩ | ⟨hstopped, _⟩
        · rw [hledger]
          exact HoldsFor.unconfirmed (hheld₁ other hother) (hheld₁ trade hmem)
        · cases hstopped
  · rintro τ₁ s₁ ⟨_, htracked, hheld₁⟩
    exact ⟨htracked, fun _ => hheld₁⟩
  · exact ⟨List.Subset.refl _, h, hheld⟩

/-- A batch that was handed over: its rows follow the reports seen so far. -/
structure Following (base : OrderStore) (trades : List ProposedTrade) (seen : List TradeReport)
    (τ : List (Event sig)) (s : World W) : Prop where
  tracked : Tracked base τ s
  handed : (tradeReports τ).handed = trades
  follows : ∀ trade ∈ trades, s.ledger.Follows seen trade

/-- The record of a report that continues those seen. -/
theorem wp_recordReport {trades : List ProposedTrade} (hnodup : (trades.map (·.ref)).Nodup)
    {trade : ProposedTrade} (htrade : trade ∈ trades) {result : OrderResult}
    {seen : List TradeReport} (h : Following base trades seen τ s)
    (hsteady : Steady (seen ++ [(trade, result)])) :
    E.system.wp (recordResult plan trade result) (fun out τ' s' => Tracked base τ' s' ∧
      tradeReports τ' = tradeReports τ ∧
      (out ≠ .stopped → Following base trades (seen ++ [(trade, result)]) τ' s')) τ s := by
  refine E.system.wp_mono (wp_recordResult E h.tracked fun now =>
    resultRow_kept (h.follows trade htrade) hsteady) ?_
  rintro out τ₁ s₁ ⟨htracked, hreports, hledger⟩
  refine ⟨htracked, hreports, fun hgone => ?_⟩
  rcases hledger with ⟨now, hledger⟩ | ⟨hstopped, _⟩
  · refine ⟨htracked, hreports ▸ h.handed, ?_⟩
    rw [hledger]
    exact follows_resultRow hnodup htrade h.follows
  · exact absurd hstopped hgone

/-- The results of a batch, recorded one after the other. -/
theorem wp_recordResults {trades : List ProposedTrade} (hnodup : (trades.map (·.ref)).Nodup)
    {pairs : List TradeReport} (hpairs : ∀ pair ∈ pairs, pair.1 ∈ trades)
    {seen : List TradeReport} (h : Following base trades seen τ s)
    (hsteady : Steady (seen ++ pairs)) :
    E.system.wp (Prog.forEach (fun (pair : TradeReport) => recordResult plan pair.1 pair.2) pairs)
      (fun _ τ' s' => Tracked base τ' s') τ s := by
  apply E.system.wp_forEach (I := fun rest τ' s' => ∃ done, pairs = done ++ rest ∧
    Following base trades (seen ++ done) τ' s')
  · rintro pair rest τ₁ s₁ ⟨done, hsplit, hfollowing⟩
    have hmem : pair ∈ pairs := hsplit ▸ List.mem_append_right _ List.mem_cons_self
    have hnext : Steady (seen ++ done ++ [(pair.1, pair.2)]) := by
      apply Steady.initial
      rw [hsplit] at hsteady
      simpa using hsteady
    refine E.system.wp_mono (wp_recordReport E hnodup (hpairs pair hmem) hfollowing hnext) ?_
    rintro out τ₂ s₂ ⟨htracked, _, hnextFollowing⟩
    cases out with
    | stopped => exact htracked
    | raised e => exact htracked
    | returned _ =>
      refine ⟨done ++ [pair], ?_, ?_⟩
      · rw [hsplit, List.append_assoc, List.singleton_append]
      · rw [← List.append_assoc]
        exact hnextFollowing (by rintro ⟨⟩)
  · rintro τ₁ s₁ ⟨_, _, hfollowing⟩
    exact hfollowing.tracked
  · refine ⟨[], rfl, ?_⟩
    rwa [List.append_nil]

/-- The broker reports the status of one trade of its batch. -/
theorem wp_nextStatus {trades : List ProposedTrade} {seen : List TradeReport}
    (h : Following base trades seen τ s) :
    E.system.wp (askBroker (.nextStatus trades)) (fun out τ' s' => Tracked base τ' s' ∧
      ∀ report : Fin trades.length × OrderResult, out = .returned report →
        Following base trades seen τ' s' ∧
          (tradeReports τ').made = (tradeReports τ).made ++ [(trades.get report.1, report.2)])
      τ s := by
  rw [wp_askBroker]
  refine ⟨⟨h.tracked, by rintro _ ⟨⟩⟩, fun c => ?_⟩
  have hasked : Tracked base (τ ++ [⟨Op.broker (.nextStatus trades),
      (E.answer c s.outside (.broker (.nextStatus trades))).1⟩])
      { s with outside := (E.answer c s.outside (.broker (.nextStatus trades))).2 } :=
    h.tracked.step E (o := .broker (.nextStatus trades)) (Op.Passive.admitted ⟨trivial, id⟩) c
  cases hanswer : (E.answer c s.outside (.broker (.nextStatus trades))).1 with
  | error e =>
    rw [hanswer] at hasked
    exact ⟨hasked, by rintro _ ⟨⟩⟩
  | ok report =>
    rw [hanswer] at hasked
    refine ⟨hasked, ?_⟩
    rintro other hother
    obtain rfl := Outcome.returned.inj hother
    have hreports := tradeReports_concat τ ⟨Op.broker (.nextStatus trades), .ok report⟩
    refine ⟨⟨hasked, ?_, h.follows⟩, congrArg TradeReports.made hreports⟩
    exact (congrArg TradeReports.handed hreports).trans h.handed

/-- The callback of the manager records a report, and then tells the caller. -/
theorem wp_wrapCallback {trades : List ProposedTrade} (hnodup : (trades.map (·.ref)).Nodup)
    {trade : ProposedTrade} (htrade : trade ∈ trades) {result : OrderResult}
    {seen : List TradeReport} (h : Following base trades seen τ s)
    (hsteady : Steady (seen ++ [(trade, result)])) :
    E.system.wp ((wrapCallback plan (some observe) trade result).catching fun e =>
      askBroker (.statusRaised e)) (fun out τ' s' => Tracked base τ' s' ∧
        tradeReports τ' = tradeReports τ ∧
        (out = .returned () → Following base trades (seen ++ [(trade, result)]) τ' s')) τ s := by
  have hkeep : ∀ {p : M Unit} {τ₁ : List (Event sig)} {s₁ : World W}, p.Uses (S := sig) Op.Idle →
      tradeReports τ₁ = tradeReports τ →
      Following base trades (seen ++ [(trade, result)]) τ₁ s₁ →
      E.system.wp p (fun _ τ' s' => tradeReports τ' = tradeReports τ ∧
        Following base trades (seen ++ [(trade, result)]) τ' s') τ₁ s₁ := by
    intro p τ₁ s₁ hp hreports hfollowing
    refine E.system.wp_mono (wp_idle E hp hfollowing.tracked) ?_
    rintro out τ₂ s₂ ⟨htracked, hledger, hsame⟩
    refine ⟨hsame.trans hreports, htracked, hsame ▸ hfollowing.handed, ?_⟩
    rw [hledger]
    exact hfollowing.follows
  have hcallback : E.system.wp (wrapCallback plan (some observe) trade result)
      (fun out τ' s' => Tracked base τ' s' ∧ tradeReports τ' = tradeReports τ ∧
        (out ≠ .stopped → Following base trades (seen ++ [(trade, result)]) τ' s')) τ s := by
    apply E.system.wp_seq (wp_recordReport E hnodup htrade h hsteady)
    · rintro _ τ₁ s₁ ⟨_, hreports, hfollowing⟩
      have hfollowing := hfollowing (by rintro ⟨⟩)
      refine E.system.wp_mono (hkeep (notify_idle trade result) hreports hfollowing) ?_
      rintro out τ₂ s₂ ⟨hsame, hlater⟩
      exact ⟨hlater.tracked, hsame, fun _ => hlater⟩
    · exact fun _ _ _ hq => hq
    · exact fun _ _ hq => hq
  apply E.system.wp_catching hcallback
  · exact fun _ τ₁ s₁ hq => ⟨hq.1, hq.2.1, fun _ => hq.2.2 (by rintro ⟨⟩)⟩
  · rintro e τ₁ s₁ ⟨_, hreports, hfollowing⟩
    have hraised : (askBroker (.statusRaised e)).Uses (S := sig) Op.Idle :=
      Prog.uses_perform (S := sig) (o := Op.broker (.statusRaised e))
        ⟨⟨trivial, id⟩, fun _ _ => rfl⟩
    refine E.system.wp_mono (hkeep hraised hreports (hfollowing (by rintro ⟨⟩))) ?_
    rintro out τ₂ s₂ ⟨hsame, hlater⟩
    exact ⟨hlater.tracked, hsame, fun _ => hlater⟩
  · exact fun τ₁ s₁ hq => ⟨hq.1, hq.2.1, by rintro ⟨⟩⟩

/-- The reports of the broker about a batch. -/
theorem wp_reportStatuses {trades : List ProposedTrade} (hnodup : (trades.map (·.ref)).Nodup)
    (n : Nat) : ∀ (τ : List (Event sig)) (s : World W),
      Following base trades (tradeReports τ).made τ s →
      E.system.wp (reportStatuses trades (wrapCallback plan (some observe)) n)
        (fun out τ' s' => SteadyTrace τ' → Tracked base τ' s' ∧
          (out = .returned () → Following base trades (tradeReports τ').made τ' s')) τ s := by
  induction n with
  | zero => exact fun τ s h _ => ⟨h.tracked, fun _ => h⟩
  | succ n ih =>
    intro τ s h
    rw [reportStatuses]
    apply E.system.wp_seq (wp_nextStatus E h)
    · rintro report τ₁ s₁ ⟨_, hreported⟩
      obtain ⟨hfollowing, hmade⟩ := hreported report rfl
      apply wp_steady
      intro hsteady
      have hnext : Steady ((tradeReports τ).made ++ [(trades.get report.1, report.2)]) := by
        unfold SteadyTrace at hsteady
        rwa [hmade] at hsteady
      apply E.system.wp_seq (wp_wrapCallback E hnodup (List.get_mem trades report.1) hfollowing
        hnext)
      · rintro _ τ₂ s₂ ⟨_, hreports, hlater⟩
        apply ih τ₂ s₂
        rw [hreports, hmade]
        exact hlater rfl
      · exact fun _ _ _ hq _ => ⟨hq.1, by rintro ⟨⟩⟩
      · exact fun _ _ hq _ => ⟨hq.1, by rintro ⟨⟩⟩
    · exact fun _ _ _ hq _ => ⟨hq.1, by rintro ⟨⟩⟩
    · exact fun _ _ hq _ => ⟨hq.1, by rintro ⟨⟩⟩

section Sending

variable {settings : Settings} {isIbkr hasReplacement hasHistory : Bool}

/-- A batch handed to the broker, up to its results. -/
theorem wp_protocolSubmit {trades : List ProposedTrade} (hnodup : (trades.map (·.ref)).Nodup)
    (h : Tracked base τ s) (hheld : ∀ trade ∈ trades, s.ledger.HoldsFor trade) :
    E.system.wp ((protocolBroker isIbkr hasReplacement hasHistory).submitTrades trades
      (some (wrapCallback plan (some observe)))) (fun out τ' s' => SteadyTrace τ' →
        Tracked base τ' s' ∧ ∀ results, out = .returned results → ∃ seen,
          Following base trades seen τ' s' ∧ Steady (seen ++ trades.zip results)) τ s := by
  have hadmits : s.ledger.Admits τ (.broker (.submitTrades trades)) := by
    intro trade htrade
    obtain ⟨row, hholds, hkey, _⟩ := hheld trade htrade
    exact ⟨row, hholds, hkey⟩
  have hsubmitted : E.system.wp (askBroker (.submitTrades trades)) (fun out τ' s' =>
      Tracked base τ' s' ∧ ∀ reports : Nat, out = .returned reports →
        Following base trades (tradeReports τ').made τ' s') τ s := by
    rw [wp_askBroker]
    refine ⟨⟨h, by rintro _ ⟨⟩⟩, fun c => ?_⟩
    have hasked : Tracked base (τ ++ [⟨Op.broker (.submitTrades trades),
        (E.answer c s.outside (.broker (.submitTrades trades))).1⟩])
        { s with outside := (E.answer c s.outside (.broker (.submitTrades trades))).2 } :=
      h.step E (o := .broker (.submitTrades trades)) hadmits c
    cases hanswer : (E.answer c s.outside (.broker (.submitTrades trades))).1 with
    | error e =>
      rw [hanswer] at hasked
      exact ⟨hasked, by rintro _ ⟨⟩⟩
    | ok reports =>
      rw [hanswer] at hasked
      refine ⟨hasked, fun _ _ => ⟨hasked, ?_, fun trade htrade => (hheld trade htrade).follows _⟩⟩
      exact congrArg TradeReports.handed
        (tradeReports_concat τ ⟨Op.broker (.submitTrades trades), .ok reports⟩)
  have hresults : ∀ (τ₁ : List (Event sig)) (s₁ : World W),
      Following base trades (tradeReports τ₁).made τ₁ s₁ →
      E.system.wp (askBroker .submitResults) (fun out τ' s' => SteadyTrace τ' →
        Tracked base τ' s' ∧ ∀ results : List OrderResult, out = .returned results → ∃ seen,
          Following base trades seen τ' s' ∧ Steady (seen ++ trades.zip results)) τ₁ s₁ := by
    intro τ₁ s₁ hfollowing
    rw [wp_askBroker]
    refine ⟨fun _ => ⟨hfollowing.tracked, by rintro _ ⟨⟩⟩, fun c => ?_⟩
    have hasked : Tracked base (τ₁ ++ [⟨Op.broker .submitResults,
        (E.answer c s₁.outside (.broker .submitResults)).1⟩])
        { s₁ with outside := (E.answer c s₁.outside (.broker .submitResults)).2 } :=
      hfollowing.tracked.step E (o := .broker .submitResults) (Op.Passive.admitted ⟨trivial, id⟩) c
    cases hanswer : (E.answer c s₁.outside (.broker .submitResults)).1 with
    | error e =>
      rw [hanswer] at hasked
      exact fun _ => ⟨hasked, by rintro _ ⟨⟩⟩
    | ok results =>
      rw [hanswer] at hasked
      intro hsteady
      refine ⟨hasked, ?_⟩
      rintro other hother
      obtain rfl := Outcome.returned.inj hother
      have hreports := tradeReports_concat τ₁ ⟨Op.broker .submitResults, .ok results⟩
      have hmade : (tradeReports (τ₁ ++ [⟨Op.broker .submitResults, .ok results⟩])).made =
          (tradeReports τ₁).made ++ trades.zip results := by
        rw [← hfollowing.handed]
        exact congrArg TradeReports.made hreports
      refine ⟨(tradeReports τ₁).made, ⟨hasked, ?_, hfollowing.follows⟩, ?_⟩
      · exact (congrArg TradeReports.handed hreports).trans hfollowing.handed
      · rw [← hmade]
        exact hsteady
  unfold protocolBroker
  dsimp only
  apply E.system.wp_seq hsubmitted
  · rintro reports τ₁ s₁ ⟨_, hfollowing⟩
    apply E.system.wp_seq (wp_reportStatuses E hnodup reports τ₁ s₁ (hfollowing reports rfl))
    · rintro _ τ₂ s₂ hq
      apply wp_steady
      intro hsteady
      exact hresults τ₂ s₂ ((hq hsteady).2 rfl)
    · exact fun _ _ _ hq hsteady => ⟨(hq hsteady).1, by rintro _ ⟨⟩⟩
    · exact fun _ _ hq hsteady => ⟨(hq hsteady).1, by rintro _ ⟨⟩⟩
  · exact fun _ _ _ hq _ => ⟨hq.1, by rintro _ ⟨⟩⟩
  · exact fun _ _ hq _ => ⟨hq.1, by rintro _ ⟨⟩⟩

/-- Trades with rows that are open are sent, and what is reported of them is recorded. -/
theorem wp_sendTrades_tracked {trades : List ProposedTrade}
    (hnodup : (trades.map (·.ref)).Nodup) (h : Tracked base τ s)
    (hheld : ∀ trade ∈ trades, s.ledger.HoldsFor trade) (results : Dict OrderResult) :
    E.system.wp ((protocolManager settings isIbkr hasReplacement hasHistory).sendTrades plan trades
      (some observe) results) (fun _ τ' s' => SteadyTrace τ' → Tracked base τ' s') τ s := by
  unfold ExecutionManager.sendTrades
  split
  · exact fun _ => h
  apply E.system.wp_seq (wp_unconfirmed E h hheld _)
  · rintro _ τ₁ s₁ ⟨htracked, hopen⟩
    apply E.system.wp_seq (wp_protocolSubmit E hnodup htracked (hopen rfl))
    · rintro phaseResults τ₂ s₂ hq
      dsimp only
      apply wp_steady
      intro hsteady
      obtain ⟨_, hresults⟩ := hq hsteady
      obtain ⟨seen, hfollowing, hall⟩ := hresults phaseResults rfl
      have hpairs : ∀ pair ∈ trades.zip phaseResults, pair.1 ∈ trades :=
        fun pair hpair => (List.of_mem_zip (a := pair.1) (b := pair.2) hpair).1
      apply E.system.wp_seq (wp_recordResults E hnodup hpairs hfollowing hall)
      · rintro _ τ₃ s₃ htracked₃
        split
        · exact fun _ => htracked₃
        · exact fun _ => htracked₃
      · exact fun _ _ _ hq _ => hq
      · exact fun _ _ hq _ => hq
    · exact fun _ _ _ hq hsteady => (hq hsteady).1
    · exact fun _ _ hq hsteady => (hq hsteady).1
  · exact fun _ _ _ hq _ => hq.1
  · exact fun _ _ hq _ => hq.1

end Sending

end Recording

end Poma

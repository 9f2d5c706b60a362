import Poma.Correctness.Lifetimes

/-!
# No reference is handed over twice

A reference that was handed to the broker is outstanding until the broker
reports its order as failed before acceptance. The row of an outstanding
reference holds its trade back, whatever processes run in between, so a
reference goes out again only after such a report.
-/

namespace Poma

open Interaction

/-- A result that leaves a trade free to be sent again: failed before acceptance, with no order of
the broker and no fill. -/
def OrderResult.Refused (result : OrderResult) : Prop :=
  result.status ∈ retryablePreAcceptanceStatuses ∧ result.orderId = none ∧
    result.filled ≤ fillTolerance

instance (result : OrderResult) : Decidable result.Refused := inferInstanceAs (Decidable (_ ∧ _ ∧ _))

/-- What an answer adds to the reports. -/
def TradeReports.reported (reports : TradeReports) : (o : Op) → Except Exn o.Ans → List TradeReport
  | .broker (.nextStatus trades), .ok report =>
    let report : Fin trades.length × OrderResult := report
    [(trades.get report.1, report.2)]
  | .broker .submitResults, .ok results => reports.handed.zip results
  | _, _ => []

theorem TradeReports.made_after_eq (reports : TradeReports) (o : Op) (r : Except Exn o.Ans) :
    (reports.after o r).made = reports.made ++ reports.reported o r := by
  cases o with
  | broker call =>
    cases call with
    | nextStatus trades =>
      cases r with
      | ok report => rfl
      | error e => exact (List.append_nil _).symm
    | submitResults =>
      cases r with
      | ok results => rfl
      | error e => exact (List.append_nil _).symm
    | _ => exact (List.append_nil _).symm
  | _ => exact (List.append_nil _).symm

theorem made_concat (τ : List (Event sig)) (event : Event sig) : (tradeReports (τ ++ [event])).made =
    (tradeReports τ).made ++ (tradeReports τ).reported event.op event.ans :=
  (congrArg TradeReports.made (tradeReports_concat τ event)).trans (TradeReports.made_after_eq _ _ _)

/-- What was reported stays reported. -/
theorem made_starts (τ more : List (Event sig)) :
    (tradeReports τ).made <+: (tradeReports (τ ++ more)).made := by
  induction more using List.reverseRecOn with
  | nil => rw [List.append_nil]
  | append_singleton more event ih =>
    rw [← List.append_assoc, made_concat (τ ++ more) event]
    exact ih.trans (List.prefix_append _ _)

/-- An operation hands a reference over. -/
def Op.Hands (key : String) (o : Op) : Prop :=
  ∃ trades, Op.handed? o = some trades ∧ ∃ trade ∈ trades, trade.ref = key

/-- A reference that was handed over, and of which no refusal was reported since. -/
inductive Outstanding (key : String) : List (Event sig) → Prop
  | handed {τ : List (Event sig)} {event : Event sig} (h : Op.Hands key event.op) :
      Outstanding key (τ ++ [event])
  | stays {τ : List (Event sig)} {event : Event sig} (h : Outstanding key τ)
      (hnone : ∀ report ∈ (tradeReports τ).reported event.op event.ans,
        report.1.ref = key → ¬report.2.Refused) : Outstanding key (τ ++ [event])

section Outstanding

variable {key : String} {τ : List (Event sig)} {event : Event sig}

theorem not_outstanding_nil : ¬Outstanding key [] := by
  intro h
  generalize hnil : ([] : List (Event sig)) = τ at h
  cases h <;> simp at hnil

theorem outstanding_concat : Outstanding key (τ ++ [event]) ↔ Op.Hands key event.op ∨
    (Outstanding key τ ∧ ∀ report ∈ (tradeReports τ).reported event.op event.ans,
      report.1.ref = key → ¬report.2.Refused) := by
  constructor
  · intro h
    generalize hsplit : τ ++ [event] = τ' at h
    cases h with
    | handed h =>
      obtain ⟨_, heq⟩ := List.append_inj' hsplit rfl
      exact Or.inl ((List.singleton_inj.mp heq).symm ▸ h)
    | stays h hnone =>
      obtain ⟨rfl, heq⟩ := List.append_inj' hsplit rfl
      obtain rfl := List.singleton_inj.mp heq
      exact Or.inr ⟨h, hnone⟩
  · rintro (h | ⟨h, hnone⟩)
    · exact .handed h
    · exact .stays h hnone

/-- What hands nothing over makes no reference outstanding. -/
theorem Outstanding.before (h : Outstanding key (τ ++ [event])) (hnot : ¬Op.Hands key event.op) :
    Outstanding key τ := by
  rcases outstanding_concat.mp h with hhands | ⟨hout, _⟩
  · exact absurd hhands hnot
  · exact hout

theorem Op.HandsNothing.not_hands {o : Op} (h : o.HandsNothing) (key : String) :
    ¬Op.Hands key o := by
  rintro ⟨trades, htrades, _⟩
  rw [h] at htrades
  cases htrades

/-- A reference handed over is outstanding as long as no report refuses it. -/
theorem outstanding_or_refused (hands : Op.Hands key event.op) (more : List (Event sig)) :
    Outstanding key (τ ++ event :: more) ∨ ∃ report ∈ (tradeReports (τ ++ event :: more)).made.drop
      (tradeReports (τ ++ [event])).made.length, report.1.ref = key ∧ report.2.Refused := by
  induction more using List.reverseRecOn with
  | nil => exact Or.inl (.handed hands)
  | append_singleton more next ih =>
    have hsplit : τ ++ event :: (more ++ [next]) = (τ ++ event :: more) ++ [next] := by simp
    have hlength : (tradeReports (τ ++ [event])).made.length ≤
        (tradeReports (τ ++ event :: more)).made.length := by
      have hstarts := made_starts (τ ++ [event]) more
      rw [List.append_assoc, List.singleton_append] at hstarts
      exact hstarts.length_le
    rw [hsplit, made_concat (τ ++ event :: more) next, List.drop_append_of_le_length hlength]
    rcases ih with hout | ⟨report, hreport, hrefused⟩
    · by_cases hnone : ∀ report ∈ (tradeReports (τ ++ event :: more)).reported next.op next.ans,
          report.1.ref = key → ¬report.2.Refused
      · exact Or.inl (.stays hout hnone)
      · push Not at hnone
        obtain ⟨report, hreport, hrefused⟩ := hnone
        exact Or.inr ⟨report, List.mem_append_right _ hreport, hrefused⟩
    · exact Or.inr ⟨report, List.mem_append_left _ hreport, hrefused⟩

end Outstanding

/-- Every batch of a trace is under references that differ and are not outstanding. -/
def Spaced (τ : List (Event sig)) : Prop :=
  ∀ before event after, τ = before ++ event :: after → ∀ trades,
    Op.handed? event.op = some trades →
      (trades.map (·.ref)).Nodup ∧ ∀ trade ∈ trades, ¬Outstanding trade.ref before

/-- The rows of outstanding references hold their trades back, and batches were spaced. -/
structure Fenced {W : Type} (τ : List (Event sig)) (s : World W) : Prop where
  spaced : Spaced τ
  held : ∀ key, Outstanding key τ →
    ∃ row, s.ledger.latest key = some row ∧ row.sendable = false

/-- The fence does not depend on the order in which the rows are listed. -/
theorem Fenced.atStart {W : Type} {τ : List (Event sig)} {s : World W} (h : Fenced τ s)
    (newProcess : Bool) : Fenced τ (s.atStart newProcess) where
  spaced := h.spaced
  held key hkey := by
    obtain ⟨row, hrow, hsendable⟩ := h.held key hkey
    exact ⟨row, (OrderStore.latest_atStart _ _ key).trans hrow, hsendable⟩

theorem Spaced.concat {τ : List (Event sig)} (h : Spaced τ) {event : Event sig}
    (hevent : ∀ trades, Op.handed? event.op = some trades →
      (trades.map (·.ref)).Nodup ∧ ∀ trade ∈ trades, ¬Outstanding trade.ref τ) :
    Spaced (τ ++ [event]) := by
  intro before other after hsplit trades htrades
  rcases List.eq_nil_or_concat after with rfl | ⟨init, last, rfl⟩
  · obtain ⟨rfl, heq⟩ := List.append_inj' hsplit rfl
    obtain rfl := List.singleton_inj.mp heq
    exact hevent trades htrades
  · have hinitial : τ ++ [event] = (before ++ other :: init) ++ [last] := by
      rw [hsplit]
      simp
    obtain ⟨rfl, _⟩ := List.append_inj' hinitial rfl
    exact h before other init rfl trades htrades

section Rules

variable {W : Type} (E : Environment W) {τ : List (Event sig)} {s : World W}

/-- An operation that hands nothing over, and frees no outstanding reference. -/
theorem Fenced.event (h : Fenced τ s) {event : Event sig} (hnothing : Op.HandsNothing event.op)
    (hrecord : ∀ x, event.op = Op.upsert x → x.sendable = false ∨ ¬Outstanding x.ledgerKey τ)
    {s' : World W} (hledger : s'.ledger = s.ledger.recorded event.op) :
    Fenced (τ ++ [event]) s' := by
  constructor
  · apply h.spaced.concat
    intro trades htrades
    rw [hnothing] at htrades
    cases htrades
  · intro key hout
    have hbefore := hout.before (hnothing.not_hands key)
    obtain ⟨row, hrow, hheld⟩ := h.held key hbefore
    rw [hledger]
    cases hop : event.op with
    | upsert x =>
      by_cases hkey : x.ledgerKey = key
      · refine ⟨x, OrderStore.latest_upsert_of_eq hkey, ?_⟩
        rcases hrecord x hop with hx | hfree
        · exact hx
        · exact absurd (hkey ▸ hbefore) hfree
      · exact ⟨row, (OrderStore.latest_upsert_of_ne hkey).trans hrow, hheld⟩
    | _ => exact ⟨row, hrow, hheld⟩

theorem Fenced.act (h : Fenced τ s) {o : Op} (hnothing : o.HandsNothing)
    (hrecord : ∀ x, o = .upsert x → x.sendable = false ∨ ¬Outstanding x.ledgerKey τ)
    (c : E.Choice) : Fenced (τ ++ [⟨o, (E.system.act c s o).1⟩]) (E.system.act c s o).2 :=
  h.event hnothing hrecord (act_recorded E c s o)

/-- Events that hand nothing over and record rows that hold keep the fence. -/
theorem Fenced.events (h : Fenced τ s) {more : List (Event sig)}
    (hmore : ∀ event ∈ more, Op.HandsNothing event.op ∧
      Op.RecordsRow (fun row => row.sendable = false) event.op) {s' : World W}
    (hledger : s'.ledger = s.ledger.afterTrace more) : Fenced (τ ++ more) s' := by
  induction more using List.reverseRecOn generalizing s' with
  | nil =>
    rw [List.append_nil]
    exact ⟨h.spaced, hledger ▸ h.held⟩
  | append_singleton more event ih =>
    obtain ⟨hnothing, hrecord⟩ := hmore event (List.mem_append_right _ List.mem_cons_self)
    have hbefore : Fenced (τ ++ more) ⟨s.ledger.afterTrace more, s.outside⟩ :=
      ih (fun other hmem => hmore other (List.mem_append_left _ hmem)) rfl
    rw [← List.append_assoc]
    apply hbefore.event hnothing
    · intro x hx
      rw [hx] at hrecord
      exact Or.inl hrecord
    · rw [hledger, OrderStore.afterTrace_append]
      rfl

/-- A batch under references that differ, none of them outstanding, over rows that hold. -/
theorem Fenced.submit (h : Fenced τ s) {trades : List ProposedTrade}
    (hnodup : (trades.map (·.ref)).Nodup) (hfree : ∀ trade ∈ trades, ¬Outstanding trade.ref τ)
    (hheld : ∀ trade ∈ trades, ∃ row, s.ledger.latest trade.ref = some row ∧ row.sendable = false)
    {event : Event sig} (hop : event.op = .broker (.submitTrades trades)) {s' : World W}
    (hsame : s'.ledger = s.ledger) : Fenced (τ ++ [event]) s' := by
  have hbatch : ∀ other, Op.handed? event.op = some other → other = trades := by
    intro other hother
    rw [hop] at hother
    exact (Option.some.inj hother).symm
  constructor
  · apply h.spaced.concat
    intro other hother
    rw [hbatch other hother]
    exact ⟨hnodup, hfree⟩
  · intro key hout
    rw [hsame]
    rcases outstanding_concat.mp hout with ⟨other, hother, trade, hmem, rfl⟩ | ⟨hbefore, _⟩
    · rw [hbatch other hother] at hmem
      exact hheld trade hmem
    · exact h.held key hbefore

/-- What hands nothing over, and records only for references that are not outstanding, keeps the
fence and makes nothing outstanding. -/
theorem wp_fenced {α : Type} {p : M α} {K : String → Prop} (hp : p.Uses (S := sig) Op.HandsNothing)
    (hkeys : p.Uses (S := sig) (Op.OnKeys K)) (hfree : ∀ key, K key → ¬Outstanding key τ)
    (h : Fenced τ s) : E.system.wp p (fun _ τ' s' => Fenced τ' s' ∧
      ∀ key, Outstanding key τ' → Outstanding key τ) τ s := by
  have hrun : ∀ (p : M α) (τ₁ : List (Event sig)) (s₁ : World W),
      p.Uses (S := sig) Op.HandsNothing → p.Uses (S := sig) (Op.OnKeys K) → Fenced τ₁ s₁ →
      (∀ key, Outstanding key τ₁ → Outstanding key τ) →
      E.system.wp p (fun _ τ' s' => Fenced τ' s' ∧
        ∀ key, Outstanding key τ' → Outstanding key τ) τ₁ s₁ := by
    intro p
    induction p with
    | ret a => exact fun τ₁ s₁ _ _ h₁ hout => ⟨h₁, hout⟩
    | throw e => exact fun τ₁ s₁ _ _ h₁ hout => ⟨h₁, hout⟩
    | call o k ih =>
      intro τ₁ s₁ hhands hon h₁ hout
      refine ⟨⟨h₁, hout⟩, fun c => ih _ _ _ (hhands.2 _ trivial) (hon.2 _ trivial) ?_ ?_⟩
      · apply h₁.act E hhands.1
        exact fun x hx => Or.inr fun hx' => hfree _ (hon.1.1 x hx) (hout _ hx')
      · exact fun key hkey => hout key (hkey.before (hhands.1.not_hands key))
  exact hrun p τ s hp hkeys h fun _ hout => hout

/-- What stays on the rows of a kind of references makes no others outstanding. -/
theorem wp_outstanding {α : Type} {p : M α} {K : String → Prop}
    (hkeys : p.Uses (S := sig) (Op.OnKeys K)) (τ : List (Event sig)) (s : World W) :
    E.system.wp p (fun _ τ' _ => ∀ key, ¬K key → Outstanding key τ' → Outstanding key τ) τ s := by
  apply E.system.wp_of_uses (I := fun τ' _ => ∀ key, ¬K key → Outstanding key τ' →
    Outstanding key τ) hkeys _ fun _ _ hout => hout
  intro o ho c τ₁ s₁ hI key hkey hout
  apply hI key hkey
  apply hout.before
  rintro ⟨trades, htrades, trade, hmem, rfl⟩
  exact hkey (ho.2 trades htrades trade hmem)

end Rules

section Results

variable {store : OrderStore} {plan : RebalancePlan} {trade : ProposedTrade} {result : OrderResult}
  {now : ℚ}

/-- Only a refusal leaves a trade free to be sent. -/
theorem resultRow_sendable (h : (resultRow store plan trade result now).sendable = true) :
    result.Refused := by
  rcases of_decide_eq_true h with hplanned | ⟨hstatus, hid, hfilled⟩
  · exact absurd hplanned (classifyLifecycle_ne_planned _ _ _)
  · refine ⟨hstatus, ?_, hfilled⟩
    have hid : (result.orderId <|> ((store.get trade.ref).getD (plannedEntry plan trade)).orderId) =
        none := hid
    cases horder : result.orderId with
    | none => rfl
    | some orderId =>
      rw [horder] at hid
      cases hid

theorem resultRow_held (h : ¬result.Refused) :
    (resultRow store plan trade result now).sendable = false := by
  rw [← Bool.not_eq_true]
  exact fun hsendable => h (resultRow_sendable hsendable)

theorem unconfirmed_not_refused (trade : ProposedTrade) (message : String) :
    ¬(blockedResult trade submissionUnconfirmedStatus message).Refused := by
  rintro ⟨hstatus, _⟩
  revert hstatus
  show submissionUnconfirmedStatus ∉ retryablePreAcceptanceStatuses
  decide

end Results

section Sending

variable {W : Type} (E : Environment W) {τ : List (Event sig)} {s : World W} {plan : RebalancePlan}
  {settings : Settings} {isIbkr hasReplacement hasHistory : Bool}

/-- The result of a trade is recorded: only a refusal of a reference that is not outstanding may
leave its trade free. -/
theorem wp_recordResult_fenced {trade : ProposedTrade} {result : OrderResult} (h : Fenced τ s)
    (hfree : result.Refused → ¬Outstanding trade.ref τ) :
    E.system.wp (recordResult plan trade result) (fun out τ' s' => Fenced τ' s' ∧
      tradeReports τ' = tradeReports τ ∧ (∀ key, Outstanding key τ' → Outstanding key τ) ∧
      ((∃ now, s'.ledger = s.ledger.upsert (resultRow s.ledger plan trade result now)) ∨
        out = .stopped ∧ s'.ledger = s.ledger)) τ s := by
  have hbefore : ∀ {τ' : List (Event sig)} {o : Op} {r : Except Exn o.Ans}, o.HandsNothing →
      ∀ key, Outstanding key (τ' ++ [(⟨o, r⟩ : Event sig)]) → Outstanding key τ' :=
    fun hnothing key hout => hout.before (hnothing.not_hands key)
  have hsilent : ∀ {τ' : List (Event sig)} {o : Op} {r : Except Exn o.Ans}, o.Unreporting →
      tradeReports (τ' ++ [(⟨o, r⟩ : Event sig)]) = tradeReports τ' := by
    intro τ' o r ho
    exact (tradeReports_concat τ' _).trans (ho _ _)
  have hload : (Op.loadLatestEntries).HandsNothing := rfl
  have hclock : (Op.utcNow).HandsNothing := rfl
  unfold recordResult
  rw [System.wp_bind, wp_loadLatest]
  refine ⟨⟨h, rfl, fun _ hout => hout, Or.inr ⟨rfl, rfl⟩⟩, fun c => ?_⟩
  have hloaded : Fenced (τ ++ [⟨.loadLatestEntries, .ok s.ledger⟩]) s :=
    h.act E hload (by rintro x ⟨⟩) c
  rw [System.seq_returned]
  dsimp only
  rw [System.wp_bind, wp_utcNow]
  have hsame₁ : tradeReports (τ ++ [⟨.loadLatestEntries, .ok s.ledger⟩]) = tradeReports τ :=
    hsilent fun _ _ => rfl
  refine ⟨⟨hloaded, hsame₁, hbefore hload, Or.inr ⟨rfl, rfl⟩⟩, fun c' => ?_⟩
  have hread : Fenced (τ ++ [⟨.loadLatestEntries, .ok s.ledger⟩] ++
      [⟨.utcNow, .ok (E.clock c' s.outside)⟩]) s := hloaded.act E hclock (by rintro x ⟨⟩) c'
  have hout : ∀ key, Outstanding key (τ ++ [⟨.loadLatestEntries, .ok s.ledger⟩] ++
      [⟨.utcNow, .ok (E.clock c' s.outside)⟩]) → Outstanding key τ :=
    fun key hkey => hbefore hload key (hbefore hclock key hkey)
  have hsame₂ := (hsilent (o := .utcNow) (r := .ok (E.clock c' s.outside))
    fun _ _ => rfl).trans hsame₁
  rw [System.seq_returned, wp_upsertEntry]
  refine ⟨⟨hread, hsame₂, hout, Or.inr ⟨rfl, rfl⟩⟩, fun c'' => ⟨?_, ?_, ?_, Or.inl ⟨_, rfl⟩⟩⟩
  · have hrow : ∀ x, Op.upsert (resultRow s.ledger plan trade result (E.clock c' s.outside)) =
        .upsert x → x.sendable = false ∨ ¬Outstanding x.ledgerKey
          (τ ++ [⟨.loadLatestEntries, .ok s.ledger⟩] ++ [⟨.utcNow, .ok (E.clock c' s.outside)⟩]) := by
      intro x hx
      obtain rfl := Op.upsert.inj hx
      by_cases hrefused : result.Refused
      · refine Or.inr fun hkey => hfree hrefused (hout _ ?_)
        rwa [resultRow_key] at hkey
      · exact Or.inl (resultRow_held hrefused)
    exact hread.act E (o := .upsert _) rfl hrow c''
  · exact (hsilent (o := .upsert _) fun _ _ => rfl).trans hsame₂
  · exact fun key hkey => hout key (hbefore (o := .upsert _) rfl key hkey)

/-- The durable uncertainty of every trade makes the rows of all of them hold. -/
theorem wp_unconfirmed_fenced {trades : List ProposedTrade} (h : Fenced τ s) (message : String) :
    E.system.wp (Prog.forEach (fun trade => recordResult plan trade
      (blockedResult trade submissionUnconfirmedStatus message)) trades)
      (fun out τ' s' => Fenced τ' s' ∧ (∀ key, Outstanding key τ' → Outstanding key τ) ∧
        (out = .returned () → ∀ trade ∈ trades, ∃ row,
          s'.ledger.latest trade.ref = some row ∧ row.sendable = false)) τ s := by
  apply E.system.wp_forEach (I := fun rest τ' s' => Fenced τ' s' ∧
    (∀ key, Outstanding key τ' → Outstanding key τ) ∧
    ∀ trade ∈ trades, trade ∈ rest ∨ ∃ row,
      s'.ledger.latest trade.ref = some row ∧ row.sendable = false)
  · rintro trade rest τ₁ s₁ ⟨hfenced, hout, hheld⟩
    have hnot := unconfirmed_not_refused trade message
    refine E.system.wp_mono (wp_recordResult_fenced E hfenced fun h => absurd h hnot) ?_
    rintro out τ₂ s₂ ⟨hfenced₂, _, hout₂, hledger⟩
    have hless : ∀ key, Outstanding key τ₂ → Outstanding key τ := fun key hkey =>
      hout key (hout₂ key hkey)
    cases out with
    | stopped => exact ⟨hfenced₂, hless, by rintro ⟨⟩⟩
    | raised e => exact ⟨hfenced₂, hless, by rintro ⟨⟩⟩
    | returned _ =>
      refine ⟨hfenced₂, hless, fun other hother => ?_⟩
      rcases hledger with ⟨now, hledger⟩ | ⟨hstopped, _⟩
      · rw [hledger]
        by_cases hsame : trade.ref = other.ref
        · exact Or.inr ⟨_, OrderStore.latest_upsert_of_eq (resultRow_key.trans hsame),
            resultRow_held hnot⟩
        · refine (hheld other hother).imp (fun hmem => ?_) ?_
          · rcases List.mem_cons.mp hmem with rfl | hmem
            · exact absurd rfl hsame
            · exact hmem
          · rintro ⟨row, hrow, hrowHeld⟩
            have hne : (resultRow s₁.ledger plan trade (blockedResult trade
                submissionUnconfirmedStatus message) now).ledgerKey ≠ other.ref := by
              rw [resultRow_key]
              exact hsame
            exact ⟨row, (OrderStore.latest_upsert_of_ne hne).trans hrow, hrowHeld⟩
      · cases hstopped
  · rintro τ₁ s₁ ⟨hfenced, hout, hheld⟩
    exact ⟨hfenced, hout, fun _ trade hmem => (hheld trade hmem).resolve_left List.not_mem_nil⟩
  · exact ⟨h, fun _ hout => hout, fun trade hmem => Or.inl hmem⟩

theorem Op.Passive.handsNothing {o : Op} (h : o.Passive) : o.HandsNothing := by
  cases o with
  | broker call =>
    cases call with
    | submitTrades trades => exact absurd trivial h.2
    | _ => rfl
  | _ => rfl

/-- What neither records nor asks about an order nor reports one keeps the fence. -/
theorem wp_idle_fenced {α : Type} {p : M α} (hp : p.Uses (S := sig) Op.Idle) (h : Fenced τ s) :
    E.system.wp p (fun _ τ' s' => Fenced τ' s' ∧ tradeReports τ' = tradeReports τ ∧
      ∀ key, Outstanding key τ' → Outstanding key τ) τ s := by
  apply E.system.wp_of_uses (I := fun τ' s' => Fenced τ' s' ∧ tradeReports τ' = tradeReports τ ∧
    ∀ key, Outstanding key τ' → Outstanding key τ) hp _ ⟨h, rfl, fun _ hout => hout⟩
  rintro o ⟨hpassive, hunreporting⟩ c τ₁ s₁ ⟨hfenced, hreports, hout⟩
  refine ⟨hfenced.act E hpassive.handsNothing ?_ c, ?_, fun key hkey => ?_⟩
  · rintro x rfl
    exact hpassive.1.elim
  · exact ((tradeReports_concat τ₁ _).trans (hunreporting _ _)).trans hreports
  · exact hout key (hkey.before (hpassive.handsNothing.not_hands key))

/-- A report of the broker: a trade it refuses is not outstanding. -/
theorem wp_nextStatus_fenced {trades : List ProposedTrade} (h : Fenced τ s)
    (hhanded : (tradeReports τ).handed = trades) :
    E.system.wp (askBroker (.nextStatus trades)) (fun out τ' s' => Fenced τ' s' ∧
      (tradeReports τ').handed = trades ∧ ∀ report : Fin trades.length × OrderResult,
        out = .returned report → report.2.Refused →
          ¬Outstanding (trades.get report.1).ref τ') τ s := by
  rw [wp_askBroker]
  refine ⟨⟨h, hhanded, by rintro _ ⟨⟩⟩, fun c => ?_⟩
  have hasked : Fenced (τ ++ [⟨Op.broker (.nextStatus trades),
      (E.answer c s.outside (.broker (.nextStatus trades))).1⟩])
      { s with outside := (E.answer c s.outside (.broker (.nextStatus trades))).2 } :=
    h.act E (o := .broker (.nextStatus trades)) rfl (by rintro x ⟨⟩) c
  cases hanswer : (E.answer c s.outside (.broker (.nextStatus trades))).1 with
  | error e =>
    rw [hanswer] at hasked
    exact ⟨hasked, (congrArg TradeReports.handed (tradeReports_concat τ
      ⟨Op.broker (.nextStatus trades), .error e⟩)).trans hhanded, by rintro _ ⟨⟩⟩
  | ok report =>
    rw [hanswer] at hasked
    refine ⟨hasked, (congrArg TradeReports.handed (tradeReports_concat τ
      ⟨Op.broker (.nextStatus trades), .ok report⟩)).trans hhanded, ?_⟩
    rintro other hother hrefused hout
    obtain rfl := Outcome.returned.inj hother
    rcases outstanding_concat.mp hout with ⟨batch, hbatch, _⟩ | ⟨_, hnone⟩
    · cases hbatch
    · exact hnone _ List.mem_cons_self rfl hrefused

/-- The callback of the manager records a report, and then tells the caller. -/
theorem wp_wrapCallback_fenced {trade : ProposedTrade} {result : OrderResult} (h : Fenced τ s)
    (hfree : result.Refused → ¬Outstanding trade.ref τ) :
    E.system.wp ((wrapCallback plan (some observe) trade result).catching fun e =>
      askBroker (.statusRaised e))
      (fun _ τ' s' => Fenced τ' s' ∧ tradeReports τ' = tradeReports τ) τ s := by
  have hwrapped : E.system.wp (wrapCallback plan (some observe) trade result)
      (fun _ τ' s' => Fenced τ' s' ∧ tradeReports τ' = tradeReports τ) τ s := by
    apply E.system.wp_seq (wp_recordResult_fenced E h hfree)
    · rintro _ τ₁ s₁ ⟨hfenced, hreports, _⟩
      refine E.system.wp_mono (wp_idle_fenced E (notify_idle trade result) hfenced) ?_
      exact fun out τ₂ s₂ hq => ⟨hq.1, hq.2.1.trans hreports⟩
    · exact fun e τ₁ s₁ hq => ⟨hq.1, hq.2.1⟩
    · exact fun τ₁ s₁ hq => ⟨hq.1, hq.2.1⟩
  apply E.system.wp_catching hwrapped
  · exact fun _ _ _ hq => hq
  · rintro e τ₁ s₁ ⟨hfenced, hreports⟩
    have hraised : (askBroker (.statusRaised e)).Uses (S := sig) Op.Idle :=
      Prog.uses_perform (S := sig) (o := Op.broker (.statusRaised e))
        ⟨⟨trivial, id⟩, fun _ _ => rfl⟩
    refine E.system.wp_mono (wp_idle_fenced E hraised hfenced) ?_
    exact fun out τ₂ s₂ hq => ⟨hq.1, hq.2.1.trans hreports⟩
  · exact fun _ _ hq => hq

/-- The reports of the broker about a batch, each recorded by the callback. -/
theorem wp_reportStatuses_fenced {trades : List ProposedTrade} (n : Nat) :
    ∀ (τ : List (Event sig)) (s : World W), Fenced τ s → (tradeReports τ).handed = trades →
      E.system.wp (reportStatuses trades (wrapCallback plan (some observe)) n)
        (fun _ τ' s' => Fenced τ' s' ∧ (tradeReports τ').handed = trades) τ s := by
  induction n with
  | zero => exact fun τ s h hhanded => ⟨h, hhanded⟩
  | succ n ih =>
    intro τ s h hhanded
    rw [reportStatuses]
    apply E.system.wp_seq (wp_nextStatus_fenced E h hhanded)
    · rintro report τ₁ s₁ ⟨hfenced, hhanded₁, hfree⟩
      apply E.system.wp_seq (wp_wrapCallback_fenced E hfenced (hfree report rfl))
      · exact fun _ τ₂ s₂ hq => ih τ₂ s₂ hq.1 (by rw [hq.2, hhanded₁])
      · exact fun _ _ _ hq => ⟨hq.1, by rw [hq.2, hhanded₁]⟩
      · exact fun _ _ hq => ⟨hq.1, by rw [hq.2, hhanded₁]⟩
    · exact fun _ _ _ hq => ⟨hq.1, hq.2.1⟩
    · exact fun _ _ hq => ⟨hq.1, hq.2.1⟩

/-- The results of a batch: the trades they refuse are not outstanding. -/
theorem wp_submitResults_fenced {trades : List ProposedTrade} (h : Fenced τ s)
    (hhanded : (tradeReports τ).handed = trades) :
    E.system.wp (askBroker .submitResults) (fun out τ' s' => Fenced τ' s' ∧
      ∀ results : List OrderResult, out = .returned results → ∀ pair ∈ trades.zip results,
        pair.2.Refused → ¬Outstanding pair.1.ref τ') τ s := by
  rw [wp_askBroker]
  refine ⟨⟨h, by rintro _ ⟨⟩⟩, fun c => ?_⟩
  have hread : Fenced (τ ++ [⟨Op.broker .submitResults,
      (E.answer c s.outside (.broker .submitResults)).1⟩])
      { s with outside := (E.answer c s.outside (.broker .submitResults)).2 } :=
    h.act E (o := .broker .submitResults) rfl (by rintro x ⟨⟩) c
  cases hresults : (E.answer c s.outside (.broker .submitResults)).1 with
  | error e =>
    rw [hresults] at hread
    exact ⟨hread, by rintro _ ⟨⟩⟩
  | ok results =>
    rw [hresults] at hread
    refine ⟨hread, ?_⟩
    rintro other hother pair hpair hrefused hout
    obtain rfl := Outcome.returned.inj hother
    rcases outstanding_concat.mp hout with ⟨batch, hbatch, _⟩ | ⟨_, hnone⟩
    · cases hbatch
    · refine hnone pair ?_ rfl hrefused
      rw [← hhanded] at hpair
      exact hpair

/-- The results of a batch, recorded one after the other. -/
theorem wp_recordResults_fenced {pairs : List TradeReport} (h : Fenced τ s)
    (hfree : ∀ pair ∈ pairs, pair.2.Refused → ¬Outstanding pair.1.ref τ) :
    E.system.wp (Prog.forEach (fun (pair : TradeReport) => recordResult plan pair.1 pair.2) pairs)
      (fun _ τ' s' => Fenced τ' s') τ s := by
  apply E.system.wp_forEach (I := fun rest τ' s' => Fenced τ' s' ∧
    ∀ pair ∈ rest, pair.2.Refused → ¬Outstanding pair.1.ref τ')
  · rintro pair rest τ₁ s₁ ⟨hfenced, hrest⟩
    refine E.system.wp_mono (wp_recordResult_fenced E hfenced (hrest pair List.mem_cons_self)) ?_
    rintro out τ₂ s₂ ⟨hfenced₂, _, hout, _⟩
    cases out with
    | stopped => exact hfenced₂
    | raised e => exact hfenced₂
    | returned _ =>
      refine ⟨hfenced₂, fun other hmem hrefused hother => ?_⟩
      exact hrest other (List.mem_cons_of_mem _ hmem) hrefused (hout _ hother)
  · exact fun _ _ hq => hq.1
  · exact ⟨h, hfree⟩

/-- A batch handed to the broker, up to its results: those refused are not outstanding. -/
theorem wp_protocolSubmit_fenced {trades : List ProposedTrade}
    (hnodup : (trades.map (·.ref)).Nodup) (hfree : ∀ trade ∈ trades, ¬Outstanding trade.ref τ)
    (hheld : ∀ trade ∈ trades, ∃ row, s.ledger.latest trade.ref = some row ∧ row.sendable = false)
    (h : Fenced τ s) :
    E.system.wp ((protocolBroker isIbkr hasReplacement hasHistory).submitTrades trades
      (some (wrapCallback plan (some observe)))) (fun out τ' s' => Fenced τ' s' ∧
        ∀ results, out = .returned results → ∀ pair ∈ trades.zip results,
          pair.2.Refused → ¬Outstanding pair.1.ref τ') τ s := by
  have hsubmitted : E.system.wp (askBroker (.submitTrades trades)) (fun out τ' s' => Fenced τ' s' ∧
      ∀ reports : Nat, out = .returned reports → (tradeReports τ').handed = trades) τ s := by
    rw [wp_askBroker]
    refine ⟨⟨h, by rintro _ ⟨⟩⟩, fun c => ?_⟩
    cases (E.answer c s.outside (.broker (.submitTrades trades))).1 with
    | error e => exact ⟨h.submit hnodup hfree hheld rfl rfl, by rintro _ ⟨⟩⟩
    | ok reports =>
      refine ⟨h.submit hnodup hfree hheld rfl rfl, fun _ _ => ?_⟩
      exact congrArg TradeReports.handed
        (tradeReports_concat τ ⟨Op.broker (.submitTrades trades), .ok reports⟩)
  unfold protocolBroker
  dsimp only
  apply E.system.wp_seq hsubmitted
  · rintro reports τ₁ s₁ ⟨hfenced, hhanded⟩
    apply E.system.wp_seq (wp_reportStatuses_fenced E reports τ₁ s₁ hfenced
      (hhanded reports rfl))
    · exact fun _ τ₂ s₂ hq => wp_submitResults_fenced E hq.1 hq.2
    · exact fun _ _ _ hq => ⟨hq.1, by rintro _ ⟨⟩⟩
    · exact fun _ _ hq => ⟨hq.1, by rintro _ ⟨⟩⟩
  · exact fun _ _ _ hq => ⟨hq.1, by rintro _ ⟨⟩⟩
  · exact fun _ _ hq => ⟨hq.1, by rintro _ ⟨⟩⟩

/-- Trades under references that are not outstanding are sent. -/
theorem wp_sendTrades_fenced {trades : List ProposedTrade} (hnodup : (trades.map (·.ref)).Nodup)
    (hfree : ∀ trade ∈ trades, ¬Outstanding trade.ref τ) (h : Fenced τ s)
    (results : Dict OrderResult) :
    E.system.wp ((protocolManager settings isIbkr hasReplacement hasHistory).sendTrades plan trades
      (some observe) results) (fun _ τ' s' => Fenced τ' s') τ s := by
  unfold ExecutionManager.sendTrades
  split
  · exact h
  apply E.system.wp_seq (wp_unconfirmed_fenced E h _)
  · rintro _ τ₁ s₁ ⟨hfenced, hout, hheld⟩
    apply E.system.wp_seq (wp_protocolSubmit_fenced E hnodup
      (fun trade hmem hbefore => hfree trade hmem (hout _ hbefore)) (hheld rfl) hfenced)
    · rintro phaseResults τ₂ s₂ ⟨hfenced₂, hrefused⟩
      dsimp only
      apply E.system.wp_seq (wp_recordResults_fenced E hfenced₂ (hrefused _ rfl))
      · intro _ τ₃ s₃ hfenced₃
        split
        · exact hfenced₃
        · exact hfenced₃
      · exact fun _ _ _ hq => hq
      · exact fun _ _ hq => hq
    · exact fun _ _ _ hq => hq.1
    · exact fun _ _ hq => hq.1
  · exact fun _ _ _ hq => hq.1
  · exact fun _ _ hq => hq.1

end Sending

section Stages

variable {W : Type} (E : Environment W) {τ : List (Event sig)} {s : World W} {plan : RebalancePlan}
  {settings : Settings} {isIbkr hasReplacement hasHistory : Bool}

/-- The plan phase passes trades on in their order. -/
theorem planPhase_sublist {latest : List OrderLedgerEntry} {callback : Option StatusCallback}
    (trades : List ProposedTrade) (results : Dict OrderResult) :
    Returns (fun r => r.1.Sublist trades) (planPhase plan callback latest trades results) := by
  induction trades generalizing results with
  | nil => exact List.Sublist.refl _
  | cons trade rest ih =>
    rw [planPhase]
    cases idempotentReplay trade latest with
    | some replay =>
      exact Prog.meets_bind (returns_any _) fun _ _ => (ih _).mono (fun _ ho => ho)
        fun _ hr => hr.cons _
    | none =>
      exact Prog.meets_bind (returns_any _) fun _ _ => Prog.meets_bind (ih _) fun _ hr =>
        hr.cons_cons _

/-- Repricing passes trades on under their references, in their order. -/
theorem reprice_sublist {trades : List ProposedTrade} (htickers : OneEach trades) :
    Returns (fun r => (r.1.map (·.ref)).Sublist (trades.map (·.ref)))
      ((protocolManager settings isIbkr hasReplacement hasHistory).repriceForExecution plan trades
        (some observe)) := by
  have hpricing : PricingMeets (protocolManager settings isIbkr hasReplacement hasHistory)
      (fun _ _ => True) (fun _ => True) (· ∈ trades) fun updated =>
        ∃ trade ∈ trades, Repriced settings trade updated := {
    repriced := fun trade _ hmem hof => ⟨trade, hmem, hof⟩
    quotes := fun _ => returns_any _
    sleep := fun _ => trivial }
  have hrecord : ∀ (state : RepriceState) (rest : List ProposedTrade), rest ⊆ trades →
      state.Priced (fun updated => ∃ trade ∈ trades, Repriced settings trade updated) →
      Returns (fun r => (r.1.map (·.ref)).Sublist (rest.map (·.ref)))
        (ExecutionManager.recordRepriced plan (some observe) state rest) := by
    intro state rest hsub hpriced
    induction rest with
    | nil => exact List.Sublist.refl _
    | cons trade rest ih =>
      have hrest := ih fun _ hmem => hsub (List.mem_cons_of_mem _ hmem)
      rw [ExecutionManager.recordRepriced]
      cases hlookup : state.repricedByTicker.lookup trade.ticker with
      | some updated =>
        obtain ⟨⟨planned, hplanned, hof⟩, hticker⟩ := hpriced _ (Dict.mem_of_lookup hlookup)
        obtain rfl : planned = trade := htickers planned hplanned trade (hsub List.mem_cons_self)
          (hof.ticker.symm.trans hticker)
        have href : updated.ref = planned.ref := by
          rw [ProposedTrade.ref, hof.orderRef]
          rfl
        apply Prog.meets_bind (returns_any _)
        intro _ _
        apply Prog.meets_bind hrest
        intro r hr
        show (List.map (·.ref) (updated :: r.1)).Sublist _
        rw [List.map_cons, List.map_cons, href]
        exact hr.cons_cons _
      | none =>
        exact Prog.meets_bind (returns_any _) fun _ _ => Prog.meets_bind (returns_any _) fun _ _ =>
          Prog.meets_bind hrest fun r hr => hr.cons _
  unfold ExecutionManager.repriceForExecution
  split
  · exact List.Sublist.refl _
  apply Prog.meets_bind (meets_quoteAttempts hpricing _ _ { pending := trades }
    (fun _ hmem => hmem) (List.forall_mem_nil _))
  intro r hr
  apply Prog.meets_bind (meets_refreshQuotes hpricing (fun _ hmem => hmem) hr _)
  exact fun state hstate => hrecord state trades (List.Subset.refl _) hstate

/-- Repricing keeps the fence. -/
theorem wp_reprice_fenced {trades : List ProposedTrade} (htickers : OneEach trades)
    (hnodup : (trades.map (·.ref)).Nodup) (hfree : ∀ trade ∈ trades, ¬Outstanding trade.ref τ)
    (h : Fenced τ s) :
    E.system.wp ((protocolManager settings isIbkr hasReplacement hasHistory).repriceForExecution
      plan trades (some observe)) (fun out τ' s' => Fenced τ' s' ∧
        ∀ r, out = .returned r → (r.1.map (·.ref)).Nodup ∧
          ∀ trade ∈ r.1, ¬Outstanding trade.ref τ') τ s := by
  have hkeys := meets_repriceForExecution (attemptMeets_onKeys settings isIbkr hasReplacement
    hasHistory plan fun key => ¬Outstanding key τ) hfree
  have hquiet := @repriceForExecution_handsNothing settings isIbkr hasReplacement hasHistory true
    plan trades
  refine E.system.wp_mono (E.system.wp_and (wp_fenced E hquiet
    (hkeys.mono (fun _ ho => ho) fun _ _ => trivial) (fun _ hkey => hkey) h)
    (wp_returns E (reprice_sublist htickers) τ s)) ?_
  rintro out τ₁ s₁ ⟨⟨hfenced, hout⟩, hsub⟩
  refine ⟨hfenced, fun r hr => ⟨(hsub r hr).nodup hnodup, fun trade hmem hlater => ?_⟩⟩
  obtain ⟨original, horiginal, href⟩ := List.mem_map.mp
    ((hsub r hr).subset (List.mem_map_of_mem hmem))
  exact hfree original horiginal (href ▸ hout _ hlater)

/-- The phase of the sells keeps the fence. -/
theorem wp_submitPhase_fenced {trades : List ProposedTrade} (htickers : OneEach trades)
    (hnodup : (trades.map (·.ref)).Nodup) (hfree : ∀ trade ∈ trades, ¬Outstanding trade.ref τ)
    (h : Fenced τ s) (results : Dict OrderResult) :
    E.system.wp ((protocolManager settings isIbkr hasReplacement hasHistory).submitPhase plan trades
      (some observe) true results) (fun _ τ' s' => Fenced τ' s') τ s := by
  unfold ExecutionManager.submitPhase
  split
  · exact h
  rw [if_pos rfl]
  apply E.system.wp_seq (wp_reprice_fenced E htickers hnodup hfree h)
  · rintro ⟨submittable, blocked⟩ τ₁ s₁ ⟨hfenced, hr⟩
    obtain ⟨hnodup₁, hfree₁⟩ := hr _ rfl
    exact wp_sendTrades_fenced E hnodup₁ hfree₁ hfenced _
  · exact fun _ _ _ hq => hq.1
  · exact fun _ _ hq => hq.1

theorem blockBuys_handsNothing (reason : String) (buys : List ProposedTrade)
    (results : Dict OrderResult) :
    (ExecutionManager.blockBuys plan (some observe) reason buys results).Uses (S := sig)
      Op.HandsNothing := by
  induction buys generalizing results with
  | nil => trivial
  | cons buy rest ih =>
    rw [ExecutionManager.blockBuys]
    exact Prog.uses_bind (recordResult_handsNothing _ _) fun _ =>
      Prog.uses_bind (@notify_handsNothing true _ _) fun _ => ih _

/-- The phase of the buys keeps the fence. -/
theorem wp_buyPhase_fenced {buys : List ProposedTrade} (htickers : OneEach buys)
    (hpurchases : ∀ buy ∈ buys, buy.Purchase) (hnodup : (buys.map (·.ref)).Nodup)
    (hfree : ∀ buy ∈ buys, ¬Outstanding buy.ref τ) (h : Fenced τ s) (results : Dict OrderResult) :
    E.system.wp ((protocolManager settings isIbkr hasReplacement hasHistory).buyPhase plan buys
      (some observe) results) (fun _ τ' s' => Fenced τ' s') τ s := by
  unfold ExecutionManager.buyPhase
  split
  · exact h
  apply E.system.wp_seq (E.system.wp_and (wp_reprice_fenced E htickers hnodup hfree h)
    (wp_returns E (returns_repriced hpurchases) τ s))
  · rintro ⟨repriced, blocked⟩ τ₁ s₁ ⟨⟨hfenced, hr⟩, hpriced⟩
    obtain ⟨hnodup₁, hfree₁⟩ := hr _ rfl
    have hpassive := fitBuys_passive settings isIbkr hasReplacement hasHistory repriced
    have hkept := wp_fenced E (K := fun _ => False) (hpassive.mono fun _ ho => ho.handsNothing)
      (hpassive.mono fun _ ho => Op.onKeys_of ho.1 ho.handsNothing) (fun _ hkey => hkey.elim) hfenced
    apply E.system.wp_seq (E.system.wp_and hkept (wp_fits E (hpriced _ rfl) τ₁ s₁))
    · rintro ⟨left, reason⟩ τ₂ s₂ ⟨⟨hfenced₂, hout⟩, hleft⟩
      obtain ⟨hrefs, hless⟩ := hleft _ rfl
      have hnodup₂ : (left.map (·.ref)).Nodup := by
        rw [hrefs]
        exact hnodup₁
      have hfree₂ : ∀ buy ∈ left, ¬Outstanding buy.ref τ₂ := by
        intro buy hmem hlater
        obtain ⟨original, horiginal, href, _⟩ := hless buy hmem
        exact hfree₁ original horiginal (href ▸ hout _ hlater)
      cases reason with
      | some reason =>
        have hkeys := meets_blockBuys (attemptMeets_onKeys settings isIbkr hasReplacement
          hasHistory plan fun key => ¬Outstanding key τ₂) reason hfree₂
          (ExecutionManager.putResults results blocked)
        exact E.system.wp_mono (wp_fenced E (blockBuys_handsNothing reason left _) hkeys
          (fun _ hkey => hkey) hfenced₂) fun _ _ _ hq => hq.1
      | none =>
        dsimp only
        unfold ExecutionManager.submitPhase
        split
        · exact hfenced₂
        · rw [if_neg Bool.false_ne_true]
          exact wp_sendTrades_fenced E hnodup₂ hfree₂ hfenced₂ _
    · exact fun _ _ _ hq => hq.1.1
    · exact fun _ _ hq => hq.1.1
  · exact fun _ _ _ hq => hq.1.1
  · exact fun _ _ hq => hq.1.1

/-- The plan phase keeps the fence, and passes on trades whose references are not outstanding. -/
theorem wp_planPhase_fenced {latest : List OrderLedgerEntry} {trades : List ProposedTrade}
    (results : Dict OrderResult) {τ₀ : List (Event sig)}
    (hfree : ∀ trade ∈ trades, idempotentReplay trade latest = none → ¬Outstanding trade.ref τ₀)
    (hout : ∀ key, Outstanding key τ → Outstanding key τ₀) (h : Fenced τ s) :
    E.system.wp (planPhase plan (some observe) latest trades results)
      (fun out τ' s' => (Fenced τ' s' ∧ ∀ key, Outstanding key τ' → Outstanding key τ₀) ∧
        ∀ r, out = .returned r → r.1.Sublist trades ∧
          ∀ trade ∈ r.1, ¬Outstanding trade.ref τ₀) τ s := by
  have hkeys := meets_planPhase (attemptMeets_onKeys .fromSnapshot false false false plan
    fun key => ¬Outstanding key τ₀) hfree results
  have hkept := wp_fenced E (@planPhase_handsNothing true plan latest trades results)
    (hkeys.mono (fun _ ho => ho) fun _ _ => trivial)
    (fun key hkey hlater => hkey (hout key hlater)) h
  refine E.system.wp_mono (E.system.wp_and hkept (E.system.wp_and
    (wp_returns E (returns_planPhase trades results) τ s)
    (wp_returns E (planPhase_sublist trades results) τ s))) ?_
  rintro out τ₁ s₁ ⟨⟨hfenced, hout₁⟩, hpassed, hsublist⟩
  refine ⟨⟨hfenced, fun key hkey => hout key (hout₁ key hkey)⟩, fun r hr => ?_⟩
  refine ⟨hsublist r hr, fun trade hmem => ?_⟩
  obtain ⟨hmember, hnone⟩ := (hpassed r hr).1 trade hmem
  exact hfree trade hmember hnone

/-- An attempt on a sound plan keeps the fence. -/
theorem wp_submitPlan_fenced (hplan : plan.Sound) (hnamed : s.ledger.All OrderLedgerEntry.Named)
    (h : Fenced τ s) :
    E.system.wp ((protocolManager settings isIbkr hasReplacement hasHistory).submitPlan plan
      (some observe)) (fun _ τ' s' => Fenced τ' s') τ s := by
  have hreads : ∀ τ', Grows (· = .loadLatestEntries) τ τ' → Fenced τ' s := by
    rintro τ' ⟨added, rfl, hadded⟩
    apply h.events
    · intro event hevent
      rw [hadded event hevent]
      exact ⟨rfl, trivial⟩
    · induction added with
      | nil => rfl
      | cons event added ih =>
        have hsame := ih fun other hmem => hadded other (List.mem_cons_of_mem _ hmem)
        show s.ledger = (s.ledger.recorded event.op).afterTrace added
        rw [hadded event List.mem_cons_self]
        exact hsame
  apply wp_submitPlan E
  · exact hreads
  intro τ₀ hτ₀
  have h₀ := hreads τ₀ hτ₀
  have hfresh : ∀ trade ∈ taggedTrades s.ledger plan, idempotentReplay trade
      (s.ledger.getLatestMany ((taggedTrades s.ledger plan).map (·.ref))) = none →
      ¬Outstanding trade.ref τ₀ := by
    intro trade hmem hnone hout
    obtain ⟨row, hrow, hheld⟩ := h₀.held _ hout
    rw [(freshIn_of_noReplay hmem hnone).2 row hrow] at hheld
    cases hheld
  obtain ⟨hsellRefs, hbuyRefs, hdisjoint⟩ : _ ∧ _ ∧ _ := List.nodup_append.mp
    (List.map_append ▸ taggedRefs_nodup hnamed hplan.distinct :
      ((tagTrades s.ledger plan.runId 0 plan.sells).map (·.ref) ++
        (tagTrades s.ledger plan.runId plan.sells.length plan.buys).map (·.ref)).Nodup)
  unfold ExecutionManager.attemptPhases
  apply E.system.wp_seq (wp_planPhase_fenced E []
    (fun trade hmem => hfresh trade (List.mem_append_left _ hmem)) (fun _ hout => hout) h₀)
  · rintro ⟨freshSells, results⟩ τ₁ s₁ ⟨⟨hfenced₁, hout₁⟩, hsells⟩
    obtain ⟨hsellSub, hsellFree⟩ := hsells _ rfl
    apply E.system.wp_seq (wp_planPhase_fenced E results
      (fun trade hmem => hfresh trade (List.mem_append_right _ hmem)) hout₁ hfenced₁)
    · rintro ⟨freshBuys, results₂⟩ τ₂ s₂ ⟨⟨hfenced₂, hout₂⟩, hbuys⟩
      obtain ⟨hbuySub, hbuyFree⟩ := hbuys _ rfl
      have hsellEach : OneEach freshSells := oneEach_sells hplan.distinct hsellSub.subset
      have hbuyEach : OneEach freshBuys := oneEach_buys hplan.distinct hbuySub.subset
      have hpurchases : ∀ buy ∈ freshBuys, buy.Purchase := fun buy hmem =>
        tagged_purchase hplan (hbuySub.subset hmem)
      have hsellKeys := meets_submitPhase (attemptMeets_onKeys settings isIbkr hasReplacement
        hasHistory plan (· ∈ freshSells.map (·.ref))) (fun trade hmem => List.mem_map_of_mem hmem) results₂
      apply E.system.wp_seq (E.system.wp_and (wp_submitPhase_fenced E hsellEach
        ((hsellSub.map _).nodup hsellRefs)
        (fun trade hmem hlater => hsellFree trade hmem (hout₂ _ hlater)) hfenced₂ results₂)
        (wp_outstanding E hsellKeys τ₂ s₂))
      · rintro results₃ τ₃ s₃ ⟨hfenced₃, hout₃⟩
        -- no buy goes under the reference of a sell, so none became outstanding
        have hbuyFree₃ : ∀ buy ∈ freshBuys, ¬Outstanding buy.ref τ₃ := by
          intro buy hmem hlater
          apply hbuyFree buy hmem (hout₂ _ (hout₃ _ _ hlater))
          intro hsell
          exact hdisjoint _ ((hsellSub.map _).subset hsell) _
            (List.mem_map_of_mem (hbuySub.subset hmem)) rfl
        apply E.system.wp_seq (wp_buyPhase_fenced E hbuyEach hpurchases
          ((hbuySub.map _).nodup hbuyRefs) hbuyFree₃ hfenced₃ results₃)
        · intro results₄ τ₄ s₄ hfenced₄
          cases ExecutionManager.collectResults results₄ plan.trades with
          | ok collected => exact hfenced₄
          | error e => exact hfenced₄
        · exact fun _ _ _ hq => hq
        · exact fun _ _ hq => hq
      · exact fun _ _ _ hq => hq.1
      · exact fun _ _ hq => hq.1
    · exact fun _ _ _ hq => hq.1.1
    · exact fun _ _ hq => hq.1.1
  · exact fun _ _ _ hq => hq.1.1
  · exact fun _ _ hq => hq.1.1

end Stages

end Poma

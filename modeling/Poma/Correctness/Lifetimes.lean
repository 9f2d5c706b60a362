import Poma.Correctness.Endings

/-!
# Orders end once

The stages of an attempt before its batches are handed over record open rows of
its own trades, and no stage for the sells touches a row of the buys. With the
rows of each batch open as it is handed over, every command keeps the ends that
orders have, and so does every history of commands.
-/

namespace Poma

open Interaction

theorem OrderStore.HoldsFor.of_latest {store after : OrderStore} {trade : ProposedTrade}
    (h : store.HoldsFor trade) (hsame : after.latest trade.ref = store.latest trade.ref) :
    after.HoldsFor trade := by
  obtain ⟨row, hholds, hkey, hquantity⟩ := h
  refine ⟨row, ⟨?_, hholds.isOpen⟩, hkey, hquantity⟩
  rw [hkey, hsame, ← hkey]
  exact hholds.latest

theorem OrderStore.HoldsFor.live {store : OrderStore} {trade : ProposedTrade}
    (h : store.HoldsFor trade) : store.Live trade.ref := by
  obtain ⟨row, hholds, hkey, _⟩ := h
  exact hkey ▸ hholds.live

theorem OrderStore.Live.of_latest {store after : OrderStore} {key : String} (h : store.Live key)
    (hsame : after.latest key = store.latest key) : after.Live key :=
  fun row hrow => h row (hsame ▸ hrow)

/-- The row recorded as planned for a trade is held for it. -/
theorem OrderStore.holdsFor_planned (store : OrderStore) (plan : RebalancePlan)
    (trade : ProposedTrade) : (store.upsert (plannedEntry plan trade)).HoldsFor trade := by
  refine ⟨plannedEntry plan trade, ⟨OrderStore.latest_upsert_of_eq rfl, ?_⟩, rfl, le_rfl⟩
  unfold OrderLedgerEntry.isTerminal
  exact decide_eq_false (show OrderLifecycleState.planned ∉ terminalLifecycleStates by decide)

/-- An operation that records and hands over only under keys of a kind. -/
def Op.OnKeys (K : String → Prop) (o : Op) : Prop :=
  (∀ x, o = .upsert x → K x.ledgerKey) ∧
    ∀ trades, Op.handed? o = some trades → ∀ trade ∈ trades, K trade.ref

theorem Op.onKeys_of {K : String → Prop} {o : Op} (hkeep : o.KeepsLedger)
    (hnothing : o.HandsNothing) : o.OnKeys K := by
  constructor
  · rintro x rfl
    exact hkeep.elim
  · intro trades htrades
    rw [hnothing] at htrades
    cases htrades

theorem Op.onKeys_upsert {K : String → Prop} {x : OrderLedgerEntry} (h : K x.ledgerKey) :
    Op.OnKeys K (.upsert x) := by
  refine ⟨fun y hy => ?_, by rintro _ ⟨⟩⟩
  obtain rfl := Op.upsert.inj hy
  exact h

theorem Op.onKeys_submit {K : String → Prop} {trades : List ProposedTrade}
    (h : ∀ trade ∈ trades, K trade.ref) : Op.OnKeys K (.broker (.submitTrades trades)) := by
  refine ⟨by rintro _ ⟨⟩, fun other hother => ?_⟩
  obtain rfl := Option.some.inj hother
  exact h

/-- What a stage of an attempt leaves: only rows of its trades have changed, and those the attempt
goes on with are held. -/
structure Prepared {W β : Type} (base store : OrderStore) (trades : List ProposedTrade)
    (out : Outcome Exn (List ProposedTrade × β)) (τ : List (Event sig)) (s : World W) : Prop where
  tracked : Tracked base τ s
  others : ∀ key ∉ trades.map (·.ref), s.ledger.latest key = store.latest key
  passed : ∀ r, out = .returned r → (r.1.map (·.ref)).Sublist (trades.map (·.ref)) ∧
    ∀ trade ∈ r.1, s.ledger.HoldsFor trade

section Stages

variable {W : Type} (E : Environment W) {base : OrderStore} {τ : List (Event sig)} {s : World W}
  {plan : RebalancePlan}

/-- A stage that stops early has changed rows of its trades only. -/
theorem Prepared.ended {β : Type} {store : OrderStore} {trades : List ProposedTrade}
    {out : Outcome Exn (List ProposedTrade × β)} (h : Tracked base τ s)
    (hothers : ∀ key ∉ trades.map (·.ref), s.ledger.latest key = store.latest key)
    (hout : ∀ r, out ≠ .returned r) : Prepared base store trades out τ s :=
  ⟨h, hothers, fun r hr => absurd hr (hout r)⟩

/-- The stages for the rest of the trades, after something was recorded for the first one. -/
theorem Prepared.after_first {β : Type} {store : OrderStore} {trade : ProposedTrade}
    {rest : List ProposedTrade} {out : Outcome Exn (List ProposedTrade × β)} {s₁ : World W}
    (h : Prepared base s₁.ledger rest out τ s)
    (hfirst : ∀ key, trade.ref ≠ key → s₁.ledger.latest key = store.latest key) :
    ∀ key ∉ (trade :: rest).map (·.ref), s.ledger.latest key = store.latest key := by
  intro key hkey
  rw [List.map_cons, List.mem_cons, not_or] at hkey
  exact (h.others key hkey.2).trans (hfirst key (Ne.symm hkey.1))

/-- A planned row, recorded where the order of its key has not ended. -/
theorem wp_recordPlanned_tracked {trade : ProposedTrade} (h : Tracked base τ s)
    (hlive : s.ledger.Live trade.ref) :
    E.system.wp (recordPlanned plan trade) (fun out τ' s' => Tracked base τ' s' ∧
      (∀ key, trade.ref ≠ key → s'.ledger.latest key = s.ledger.latest key) ∧
      (out = .returned () → s'.ledger.HoldsFor trade)) τ s := by
  unfold recordPlanned
  apply wp_tracked_upsert E h hlive
  · exact ⟨h, fun _ _ => rfl, by rintro ⟨⟩⟩
  · intro τ' s' htracked _ hledger
    refine ⟨htracked, fun key hkey => ?_, fun _ => ?_⟩
    · rw [hledger]
      exact OrderStore.latest_upsert_of_ne hkey
    · rw [hledger]
      exact OrderStore.holdsFor_planned _ _ _

/-- The result of a trade whose order has not ended is recorded. -/
theorem wp_recordLive {trade : ProposedTrade} (result : OrderResult) (h : Tracked base τ s)
    (hlive : s.ledger.Live trade.ref) :
    E.system.wp (recordResult plan trade result) (fun _ τ' s' => Tracked base τ' s' ∧
      ∀ key, trade.ref ≠ key → s'.ledger.latest key = s.ledger.latest key) τ s := by
  refine E.system.wp_mono (wp_recordResult E h fun _ row hrow hended =>
    absurd hended (hlive row hrow)) ?_
  rintro out τ' s' ⟨htracked, _, hledger⟩
  refine ⟨htracked, fun key hkey => ?_⟩
  rcases hledger with ⟨now, hledger⟩ | ⟨_, hledger⟩
  · rw [hledger]
    apply OrderStore.latest_upsert_of_ne
    rw [resultRow_key]
    exact hkey
  · rw [hledger]

/-- The callback, which leaves the ledger alone. -/
theorem wp_notify_tracked (trade : ProposedTrade) (result : OrderResult) (h : Tracked base τ s) :
    E.system.wp (notify (some observe) trade result)
      (fun _ τ' s' => Tracked base τ' s' ∧ s'.ledger = s.ledger) τ s :=
  E.system.wp_mono (wp_tracked_passive E
    ((notify_idle trade result).mono fun _ ho => ho.1) h) fun _ _ _ hq => ⟨hq.1, hq.2.1⟩

/-- The plan phase records the trades it lets through, each over a row that has not ended. -/
theorem wp_planPhase_tracked {latest : List OrderLedgerEntry} :
    ∀ {trades : List ProposedTrade} (results : Dict OrderResult) {τ : List (Event sig)}
      {s : World W}, (trades.map (·.ref)).Nodup →
      (∀ trade ∈ trades, idempotentReplay trade latest = none → s.ledger.Live trade.ref) →
      Tracked base τ s →
      E.system.wp (planPhase plan (some observe) latest trades results)
        (fun out τ' s' => Prepared base s.ledger trades out τ' s') τ s := by
  intro trades
  induction trades with
  | nil =>
    intro results τ s _ _ h
    refine ⟨h, fun _ _ => rfl, fun r hr => ?_⟩
    obtain rfl := Outcome.returned.inj hr
    exact ⟨List.Sublist.refl _, List.forall_mem_nil _⟩
  | cons trade rest ih =>
    intro results τ s hnodup hlive h
    rw [List.map_cons, List.nodup_cons] at hnodup
    rw [planPhase]
    cases hreplay : idempotentReplay trade latest with
    | some replay =>
      apply E.system.wp_seq (wp_notify_tracked E trade replay h)
      · rintro _ τ₁ s₁ ⟨htracked, hledger⟩
        refine E.system.wp_mono (ih _ hnodup.2 (fun other hmem hnone => ?_) htracked) ?_
        · rw [hledger]
          exact hlive other (List.mem_cons_of_mem _ hmem) hnone
        · rintro out τ₂ s₂ hq
          refine ⟨hq.tracked, hq.after_first fun _ _ => by rw [hledger], fun r hr => ?_⟩
          obtain ⟨hsub, hheld⟩ := hq.passed r hr
          exact ⟨hsub.cons _, hheld⟩
      · exact fun e τ₁ s₁ hq => .ended hq.1 (fun _ _ => by rw [hq.2]) (by rintro _ ⟨⟩)
      · exact fun τ₁ s₁ hq => .ended hq.1 (fun _ _ => by rw [hq.2]) (by rintro _ ⟨⟩)
    | none =>
      have hother : ∀ key ∉ (trade :: rest).map (·.ref), trade.ref ≠ key := by
        rintro key hkey rfl
        exact hkey List.mem_cons_self
      apply E.system.wp_seq (wp_recordPlanned_tracked E h
        (hlive trade List.mem_cons_self hreplay))
      · rintro _ τ₁ s₁ ⟨htracked, hothers, hheld⟩
        have hrest := ih results hnodup.2 (s := s₁) (fun other hmem hnone => by
          have hne : trade.ref ≠ other.ref := by
            intro heq
            exact hnodup.1 (heq ▸ List.mem_map_of_mem hmem)
          exact (hlive other (List.mem_cons_of_mem _ hmem) hnone).of_latest (hothers _ hne)) htracked
        apply E.system.wp_seq hrest
        · rintro ⟨fresh, later⟩ τ₂ s₂ hq
          refine ⟨hq.tracked, hq.after_first hothers, fun r hr => ?_⟩
          obtain rfl := Outcome.returned.inj hr
          obtain ⟨hsub, hfresh⟩ := hq.passed _ rfl
          refine ⟨hsub.cons_cons _, List.forall_mem_cons.mpr ⟨?_, hfresh⟩⟩
          exact (hheld rfl).of_latest (hq.others _ hnodup.1)
        · exact fun e τ₂ s₂ hq => .ended hq.tracked (hq.after_first hothers) (by rintro _ ⟨⟩)
        · exact fun τ₂ s₂ hq => .ended hq.tracked (hq.after_first hothers) (by rintro _ ⟨⟩)
      · exact fun e τ₁ s₁ hq => .ended hq.1 (fun key hkey => hq.2.1 key (hother key hkey))
          (by rintro _ ⟨⟩)
      · exact fun τ₁ s₁ hq => .ended hq.1 (fun key hkey => hq.2.1 key (hother key hkey))
          (by rintro _ ⟨⟩)

/-- Trades of which each ticker has one. -/
def OneEach (trades : List ProposedTrade) : Prop :=
  ∀ trade ∈ trades, ∀ other ∈ trades, trade.ticker = other.ticker → trade = other

/-- What may go is recorded as it was priced, what is blocked is recorded as that. -/
theorem wp_recordRepriced_tracked {state : RepriceState} {settings : Settings}
    {trades : List ProposedTrade}
    (hpriced : state.Priced fun updated => ∃ trade ∈ trades, Repriced settings trade updated)
    (htickers : OneEach trades) :
    ∀ {rest : List ProposedTrade} {τ : List (Event sig)} {s : World W}, rest ⊆ trades →
      (rest.map (·.ref)).Nodup → (∀ trade ∈ rest, s.ledger.HoldsFor trade) →
      Tracked base τ s →
      E.system.wp (ExecutionManager.recordRepriced plan (some observe) state rest)
        (fun out τ' s' => Prepared base s.ledger rest out τ' s') τ s := by
  intro rest
  induction rest with
  | nil =>
    intro τ s _ _ _ h
    refine ⟨h, fun _ _ => rfl, fun r hr => ?_⟩
    obtain rfl := Outcome.returned.inj hr
    exact ⟨List.Sublist.refl _, List.forall_mem_nil _⟩
  | cons trade rest ih =>
    intro τ s hsub hnodup hheld h
    rw [List.map_cons, List.nodup_cons] at hnodup
    have htrade : trade ∈ trades := hsub List.mem_cons_self
    have hrest : ∀ {s₁ : World W}, (∀ key, trade.ref ≠ key →
        s₁.ledger.latest key = s.ledger.latest key) →
        ∀ other ∈ rest, s₁.ledger.HoldsFor other := by
      intro s₁ hothers other hmem
      have hne : trade.ref ≠ other.ref := by
        intro heq
        exact hnodup.1 (heq ▸ List.mem_map_of_mem hmem)
      exact (hheld other (List.mem_cons_of_mem _ hmem)).of_latest (hothers _ hne)
    have hother : ∀ key ∉ (trade :: rest).map (·.ref), trade.ref ≠ key := by
      rintro key hkey rfl
      exact hkey List.mem_cons_self
    have hlive : s.ledger.Live trade.ref := (hheld trade List.mem_cons_self).live
    rw [ExecutionManager.recordRepriced]
    cases hlookup : state.repricedByTicker.lookup trade.ticker with
    | some updated =>
      obtain ⟨⟨planned, hplanned, hof⟩, hticker⟩ := hpriced _ (Dict.mem_of_lookup hlookup)
      -- the trade a repriced one stems from is the one of its ticker
      obtain rfl : planned = trade :=
        htickers planned hplanned trade htrade (hof.ticker.symm.trans hticker)
      have href : updated.ref = planned.ref := by
        rw [ProposedTrade.ref, hof.orderRef]
        rfl
      apply E.system.wp_seq (wp_recordPlanned_tracked E h (href ▸ hlive))
      · rintro _ τ₁ s₁ ⟨htracked, hothers, hupdated⟩
        rw [href] at hothers
        have hlater := ih (fun _ hmem => hsub (List.mem_cons_of_mem _ hmem)) hnodup.2
          (hrest hothers) htracked
        apply E.system.wp_seq hlater
        · rintro ⟨submittable, blocked⟩ τ₂ s₂ hq
          refine ⟨hq.tracked, hq.after_first hothers, fun r hr => ?_⟩
          obtain rfl := Outcome.returned.inj hr
          obtain ⟨hsub, hsubmittable⟩ := hq.passed _ rfl
          refine ⟨?_, List.forall_mem_cons.mpr ⟨?_, hsubmittable⟩⟩
          · rw [List.map_cons, List.map_cons, href]
            exact hsub.cons_cons _
          · apply (hupdated rfl).of_latest
            rw [href]
            exact hq.others _ hnodup.1
        · exact fun e τ₂ s₂ hq => .ended hq.tracked (hq.after_first hothers) (by rintro _ ⟨⟩)
        · exact fun τ₂ s₂ hq => .ended hq.tracked (hq.after_first hothers) (by rintro _ ⟨⟩)
      · exact fun e τ₁ s₁ hq => .ended hq.1
          (fun key hkey => hq.2.1 key (href ▸ hother key hkey)) (by rintro _ ⟨⟩)
      · exact fun τ₁ s₁ hq => .ended hq.1
          (fun key hkey => hq.2.1 key (href ▸ hother key hkey)) (by rintro _ ⟨⟩)
    | none =>
      dsimp only
      apply E.system.wp_seq (wp_recordLive E _ h hlive)
      · rintro _ τ₁ s₁ ⟨htracked, hothers⟩
        apply E.system.wp_seq (wp_notify_tracked E trade _ htracked)
        · rintro _ τ₂ s₂ ⟨htracked₂, hledger⟩
          have hothers₂ : ∀ key, trade.ref ≠ key → s₂.ledger.latest key = s.ledger.latest key := by
            rw [hledger]
            exact hothers
          have hlater := ih (fun _ hmem => hsub (List.mem_cons_of_mem _ hmem)) hnodup.2
            (hrest hothers₂) htracked₂
          apply E.system.wp_seq hlater
          · rintro ⟨submittable, blocked⟩ τ₃ s₃ hq
            refine ⟨hq.tracked, hq.after_first hothers₂, fun r hr => ?_⟩
            obtain rfl := Outcome.returned.inj hr
            obtain ⟨hsub, hsubmittable⟩ := hq.passed _ rfl
            exact ⟨hsub.cons _, hsubmittable⟩
          · exact fun e τ₃ s₃ hq => .ended hq.tracked (hq.after_first hothers₂) (by rintro _ ⟨⟩)
          · exact fun τ₃ s₃ hq => .ended hq.tracked (hq.after_first hothers₂) (by rintro _ ⟨⟩)
        · exact fun e τ₂ s₂ hq => .ended hq.1
            (fun key hkey => hq.2 ▸ hothers key (hother key hkey)) (by rintro _ ⟨⟩)
        · exact fun τ₂ s₂ hq => .ended hq.1
            (fun key hkey => hq.2 ▸ hothers key (hother key hkey)) (by rintro _ ⟨⟩)
      · exact fun e τ₁ s₁ hq => .ended hq.1 (fun key hkey => hq.2 key (hother key hkey))
          (by rintro _ ⟨⟩)
      · exact fun τ₁ s₁ hq => .ended hq.1 (fun key hkey => hq.2 key (hother key hkey))
          (by rintro _ ⟨⟩)

/-- What a program returns whatever is answered, it returns in every run. -/
theorem wp_returns {α : Type} {p : M α} {R : α → Prop} (h : Returns R p) (τ : List (Event sig))
    (s : World W) : E.system.wp p (fun out _ _ => ∀ a, out = .returned a → R a) τ s :=
  E.system.wp_mono (E.system.wp_of_meets (I := fun _ _ => True) h
    (fun _ _ _ _ _ _ => ⟨trivial, trivial⟩) trivial) fun _ _ _ hq => hq.2

section Attempts

variable {settings : Settings} {isIbkr hasReplacement hasHistory : Bool}

/-- The quotes of an attempt are read and priced from its own trades. -/
theorem pricingMeets_passive (trades : List ProposedTrade) :
    PricingMeets (protocolManager settings isIbkr hasReplacement hasHistory) (fun _ _ => True)
      Op.Passive (· ∈ trades) fun updated => ∃ trade ∈ trades, Repriced settings trade updated where
  repriced trade _ hmem hof := ⟨trade, hmem, hof⟩
  quotes tickers :=
    have hpassive : Op.Passive (.broker (.executionQuotes tickers)) := ⟨trivial, id⟩
    meets_askBroker hpassive
  sleep _ := ⟨trivial, id⟩

/-- Repricing leaves the trades that may go with open rows of their own. -/
theorem wp_repriceForExecution_tracked {trades : List ProposedTrade}
    (htickers : OneEach trades) (hnodup : (trades.map (·.ref)).Nodup)
    (hheld : ∀ trade ∈ trades, s.ledger.HoldsFor trade) (h : Tracked base τ s) :
    E.system.wp ((protocolManager settings isIbkr hasReplacement hasHistory).repriceForExecution
      plan trades (some observe)) (fun out τ' s' => Prepared base s.ledger trades out τ' s')
      τ s := by
  unfold ExecutionManager.repriceForExecution
  split
  · refine ⟨h, fun _ _ => rfl, fun r hr => ?_⟩
    obtain rfl := Outcome.returned.inj hr
    exact ⟨List.Sublist.refl _, hheld⟩
  have hpricing : PricingMeets (protocolManager settings isIbkr hasReplacement hasHistory)
      (fun _ _ => True) Op.Passive (· ∈ trades) fun updated =>
        ∃ trade ∈ trades, Repriced settings trade updated := pricingMeets_passive trades
  have hquotes := wp_tracked_meets E (meets_quoteAttempts hpricing
    executionQuoteRetryDelaysSeconds 1 { pending := trades } (fun _ hmem => hmem)
    (List.forall_mem_nil _)) (fun _ (ho : Op.Passive _) => ho.1)
    (fun _ (ho : Op.Passive _) => ho.admitted) h
  apply E.system.wp_seq hquotes
  · rintro ⟨state, attempt⟩ τ₁ s₁ ⟨⟨htracked, hledger, _⟩, hpriced⟩
    have hrefresh := wp_tracked_meets E (meets_refreshQuotes hpricing
      (fun _ hmem => hmem) (hpriced _ rfl) attempt) (fun _ (ho : Op.Passive _) => ho.1)
      (fun _ (ho : Op.Passive _) => ho.admitted) htracked
    apply E.system.wp_seq hrefresh
    · rintro state τ₂ s₂ ⟨⟨htracked₂, hledger₂, _⟩, hpriced₂⟩
      have hsame : s₂.ledger = s.ledger := hledger₂.trans hledger
      have hheld₂ : ∀ trade ∈ trades, s₂.ledger.HoldsFor trade := by
        rwa [hsame]
      rw [← hsame]
      exact wp_recordRepriced_tracked E (hpriced₂ _ rfl) htickers (List.Subset.refl trades) hnodup
        hheld₂ htracked₂
    · rintro e τ₂ s₂ ⟨⟨htracked₂, hledger₂, _⟩, _⟩
      exact .ended htracked₂ (fun _ _ => by rw [hledger₂, hledger]) (by rintro _ ⟨⟩)
    · rintro τ₂ s₂ ⟨⟨htracked₂, hledger₂, _⟩, _⟩
      exact .ended htracked₂ (fun _ _ => by rw [hledger₂, hledger]) (by rintro _ ⟨⟩)
  · rintro e τ₁ s₁ ⟨⟨htracked, hledger, _⟩, _⟩
    exact .ended htracked (fun _ _ => by rw [hledger]) (by rintro _ ⟨⟩)
  · rintro τ₁ s₁ ⟨⟨htracked, hledger, _⟩, _⟩
    exact .ended htracked (fun _ _ => by rw [hledger]) (by rintro _ ⟨⟩)

variable (settings isIbkr hasReplacement hasHistory) in
/-- The fit to the refreshed cash reads the account, and nothing more. -/
theorem fitBuys_passive (buys : List ProposedTrade) :
    ((protocolManager settings isIbkr hasReplacement hasHistory).fitBuysToRefreshedCash
      buys).Uses (S := sig) Op.Passive := by
  unfold ExecutionManager.fitBuysToRefreshedCash
  dsimp only
  split
  · trivial
  refine Prog.meets_bind (Prog.meets_attempt (R := fun _ => True) (Prog.uses_perform (S := sig)
    (o := Op.broker .accountSnapshot) ⟨trivial, id⟩)) fun read _ => ?_
  cases read with
  | error e => trivial
  | ok refreshed =>
    dsimp only
    split
    · split
      · trivial
      split
      · trivial
      refine Prog.meets_bind (Prog.meets_ofExcept (R := fun _ => True) fun _ _ => trivial)
        fun r _ => ?_
      cases r with
      | none => trivial
      | some trimmed =>
        dsimp only
        split <;> trivial
    · trivial

theorem Shrunk.ref {rules : ExecutionRules} {trade trimmed : ProposedTrade}
    (h : Shrunk rules trade trimmed) : trimmed.ref = trade.ref := by
  rcases h.same with heq | ⟨heq, _⟩
  · rw [heq]
  · rw [heq]
    rfl

/-- The buys that are left go under the references of those there were, with no more shares. -/
def FitsUnder (buys left : List ProposedTrade) : Prop :=
  left.map (·.ref) = buys.map (·.ref) ∧
    ∀ less ∈ left, ∃ buy ∈ buys, buy.ref = less.ref ∧ less.quantity ≤ buy.quantity

theorem fitsUnder_self (buys : List ProposedTrade) : FitsUnder buys buys :=
  ⟨rfl, fun buy hmem => ⟨buy, hmem, rfl, le_rfl⟩⟩

theorem fitsUnder_of_shrunk {rules : ExecutionRules} {buys left : List ProposedTrade}
    (h : List.Forall₂ (Shrunk rules) buys left) : FitsUnder buys left := by
  induction h with
  | nil => exact fitsUnder_self []
  | @cons buy less buys left hfirst _ ih =>
    constructor
    · rw [List.map_cons, List.map_cons, hfirst.ref, ih.1]
    · intro other hother
      rcases List.mem_cons.mp hother with rfl | hother
      · exact ⟨buy, List.mem_cons_self, hfirst.ref.symm, hfirst.le⟩
      · obtain ⟨found, hfound, hsame⟩ := ih.2 other hother
        exact ⟨found, List.mem_cons_of_mem _ hfound, hsame⟩

theorem Fitted.fitsUnder {buys : List ProposedTrade} {r : List ProposedTrade × Option String}
    {τ : List (Event sig)} (h : Fitted settings buys r τ) : FitsUnder buys r.1 := by
  cases h with
  | unasked => exact fitsUnder_self buys
  | covered => exact fitsUnder_self buys
  | trimmed refreshed cash trimmed hcash hshort hsmall hshrunk hfits =>
    exact fitsUnder_of_shrunk hshrunk
  | blocked => exact fitsUnder_self buys

theorem wp_fits {buys : List ProposedTrade} (hbuys : ∀ buy ∈ buys, buy.Purchase)
    (τ : List (Event sig)) (s : World W) :
    E.system.wp ((protocolManager settings isIbkr hasReplacement hasHistory).fitBuysToRefreshedCash
      buys) (fun out _ _ => ∀ r, out = .returned r → FitsUnder buys r.1) τ s := by
  rw [System.wp_iff_run]
  intro cs r hr
  have hemits := @emits_fitBuys W E settings isIbkr hasReplacement hasHistory buys hbuys
  rcases hemits.runs cs s with
    ⟨hstopped, _⟩ | ⟨other, hother, hfitted⟩
  · rw [hstopped] at hr
    cases hr
  · obtain rfl := Outcome.returned.inj (hother.symm.trans hr)
    exact hfitted.fitsUnder

/-- The buys an attempt goes on with are still held. -/
theorem wp_fitBuys_tracked {buys : List ProposedTrade} (hbuys : ∀ buy ∈ buys, buy.Purchase)
    (hheld : ∀ buy ∈ buys, s.ledger.HoldsFor buy) (h : Tracked base τ s) :
    E.system.wp ((protocolManager settings isIbkr hasReplacement hasHistory).fitBuysToRefreshedCash
      buys) (fun out τ' s' => Tracked base τ' s' ∧ ∀ r, out = .returned r →
        r.1.map (·.ref) = buys.map (·.ref) ∧ ∀ buy ∈ r.1, s'.ledger.HoldsFor buy) τ s := by
  refine E.system.wp_mono (E.system.wp_and
    (wp_tracked_passive E (fitBuys_passive settings isIbkr hasReplacement hasHistory buys) h) (wp_fits E hbuys τ s)) ?_
  rintro out τ' s' ⟨⟨htracked, hledger, _⟩, hleft⟩
  refine ⟨htracked, fun r hr => ?_⟩
  obtain ⟨hrefs, hless⟩ := hleft r hr
  refine ⟨hrefs, fun less hmem => ?_⟩
  obtain ⟨buy, hbuy, href, hquantity⟩ := hless less hmem
  obtain ⟨row, hholds, hkey, hrow⟩ := hheld buy hbuy
  rw [hledger]
  exact ⟨row, hholds, hkey.trans href, hquantity.trans hrow⟩

/-- Buys that are held back keep their rows from being ended by others. -/
theorem wp_blockBuys_tracked (reason : String) :
    ∀ {buys : List ProposedTrade} (results : Dict OrderResult) {τ : List (Event sig)}
      {s : World W}, (buys.map (·.ref)).Nodup → (∀ buy ∈ buys, s.ledger.HoldsFor buy) →
      Tracked base τ s →
      E.system.wp (ExecutionManager.blockBuys plan (some observe) reason buys results)
        (fun _ τ' s' => Tracked base τ' s') τ s := by
  intro buys
  induction buys with
  | nil => exact fun _ _ _ _ _ h => h
  | cons buy rest ih =>
    intro results τ s hnodup hheld h
    rw [List.map_cons, List.nodup_cons] at hnodup
    rw [ExecutionManager.blockBuys]
    apply E.system.wp_seq (wp_recordLive E _ h (hheld buy List.mem_cons_self).live)
    · rintro _ τ₁ s₁ ⟨htracked, hothers⟩
      apply E.system.wp_seq (wp_notify_tracked E buy _ htracked)
      · rintro _ τ₂ s₂ ⟨htracked₂, hledger⟩
        apply ih _ hnodup.2 _ htracked₂
        intro other hmem
        have hne : buy.ref ≠ other.ref := by
          intro heq
          exact hnodup.1 (heq ▸ List.mem_map_of_mem hmem)
        apply (hheld other (List.mem_cons_of_mem _ hmem)).of_latest
        rw [hledger]
        exact hothers _ hne
      · exact fun _ _ _ hq => hq.1
      · exact fun _ _ hq => hq.1
    · exact fun _ _ _ hq => hq.1
    · exact fun _ _ hq => hq.1

variable (settings isIbkr hasReplacement hasHistory) in
/-- An attempt on trades whose references are of a kind stays on the rows of these. -/
theorem attemptMeets_onKeys (plan : RebalancePlan) (K : String → Prop) :
    AttemptMeets (protocolManager settings isIbkr hasReplacement hasHistory) plan (some observe)
      (fun _ _ => True) (Op.OnKeys K) (fun trade => K trade.ref) fun trade => K trade.ref := by
  have hresult : ∀ (trade : ProposedTrade) result, K trade.ref →
      (recordResult plan trade result).Meets (S := sig) (fun _ _ => True) (Op.OnKeys K)
        fun _ => True := by
    intro trade result htrade
    apply meets_recordResult
    · exact Op.onKeys_of trivial rfl
    · exact Op.onKeys_of trivial rfl
    · intro store row now _ hlatest _
      exact Op.onKeys_upsert (show K row.ledgerKey from OrderStore.latest_key hlatest ▸ htrade)
    · exact fun now => Op.onKeys_upsert htrade
  have hnotified : ∀ trade result, (notify (some observe) trade result).Meets (S := sig)
      (fun _ _ => True) (Op.OnKeys K) fun _ => True :=
    fun trade result => @meets_notify _ _ true trade result (Op.onKeys_of trivial rfl)
  exact {
    repriced := fun trade updated h hof => by
      have href : updated.ref = trade.ref := by
        rw [ProposedTrade.ref, hof.orderRef]
        rfl
      rw [href]
      exact h
    unpriced := fun _ _ h => h
    trimmed := by
      rintro trade less h ⟨shortfall, _, _, rfl⟩
      exact h
    planned := fun trade h => Op.onKeys_upsert (show K trade.ref from h.elim id id)
    result := fun trade result h => hresult trade result (h.elim id id)
    notified := hnotified
    quotes := fun tickers =>
      have h : Op.OnKeys K (.broker (.executionQuotes tickers)) := Op.onKeys_of trivial rfl
      meets_askBroker h
    account :=
      have h : Op.OnKeys K (.broker .accountSnapshot) := Op.onKeys_of trivial rfl
      meets_askBroker h
    sleep := fun _ => Op.onKeys_of trivial rfl
    submit := fun trades h => meets_protocolSubmit (fun trade hmem result =>
      hresult trade result (h trade hmem)) hnotified
      (fun call hreads => Op.onKeys_of trivial (handsNothing_of_reads hreads))
      (Op.onKeys_submit h) }

/-- The phase of the sells keeps the ends of orders. -/
theorem wp_submitPhase_tracked {trades : List ProposedTrade} (htickers : OneEach trades)
    (hnodup : (trades.map (·.ref)).Nodup) (hheld : ∀ trade ∈ trades, s.ledger.HoldsFor trade)
    (h : Tracked base τ s) (results : Dict OrderResult) :
    E.system.wp ((protocolManager settings isIbkr hasReplacement hasHistory).submitPhase plan trades
      (some observe) true results) (fun _ τ' s' => SteadyTrace τ' → Tracked base τ' s') τ s := by
  unfold ExecutionManager.submitPhase
  split
  · exact fun _ => h
  rw [if_pos rfl]
  apply E.system.wp_seq (wp_repriceForExecution_tracked E htickers hnodup hheld h)
  · rintro ⟨submittable, blocked⟩ τ₁ s₁ hq
    obtain ⟨hsub, hsubmittable⟩ := hq.passed _ rfl
    exact wp_sendTrades_tracked E (hsub.nodup hnodup) hq.tracked hsubmittable _
  · exact fun _ _ _ hq _ => hq.tracked
  · exact fun _ _ hq _ => hq.tracked

/-- The phase of the buys keeps the ends of orders. -/
theorem wp_buyPhase_tracked {buys : List ProposedTrade} (htickers : OneEach buys)
    (hpurchases : ∀ buy ∈ buys, buy.Purchase) (hnodup : (buys.map (·.ref)).Nodup)
    (hheld : ∀ buy ∈ buys, s.ledger.HoldsFor buy) (h : Tracked base τ s)
    (results : Dict OrderResult) :
    E.system.wp ((protocolManager settings isIbkr hasReplacement hasHistory).buyPhase plan buys
      (some observe) results) (fun _ τ' s' => SteadyTrace τ' → Tracked base τ' s') τ s := by
  unfold ExecutionManager.buyPhase
  split
  · exact fun _ => h
  apply E.system.wp_seq (E.system.wp_and
    (wp_repriceForExecution_tracked E htickers hnodup hheld h)
    (wp_returns E (returns_repriced hpurchases) τ s))
  · rintro ⟨repriced, blocked⟩ τ₁ s₁ ⟨hq, hpriced⟩
    obtain ⟨hsub, hrepriced⟩ := hq.passed _ rfl
    apply E.system.wp_seq (wp_fitBuys_tracked E (hpriced _ rfl) hrepriced hq.tracked)
    · rintro ⟨left, reason⟩ τ₂ s₂ ⟨htracked, hleft⟩
      obtain ⟨hrefs, hheld₂⟩ := hleft _ rfl
      have hnodup₂ : (left.map (·.ref)).Nodup := by
        rw [hrefs]
        exact hsub.nodup hnodup
      cases reason with
      | some reason =>
        exact E.system.wp_mono (wp_blockBuys_tracked E reason _ hnodup₂ hheld₂ htracked)
          fun _ _ _ hq _ => hq
      | none =>
        dsimp only
        unfold ExecutionManager.submitPhase
        split
        · exact fun _ => htracked
        · rw [if_neg Bool.false_ne_true]
          exact wp_sendTrades_tracked E hnodup₂ htracked hheld₂ _
    · exact fun _ _ _ hq _ => hq.1
    · exact fun _ _ hq _ => hq.1
  · exact fun _ _ _ hq _ => hq.1.tracked
  · exact fun _ _ hq _ => hq.1.tracked

/-- Two stages after each other leave the trades of both held, where their references differ. -/
theorem wp_planned_tracked {latest : List OrderLedgerEntry} {sells buys : List ProposedTrade}
    (hnodup : ((sells ++ buys).map (·.ref)).Nodup)
    (hlive : ∀ trade ∈ sells ++ buys, idempotentReplay trade latest = none →
      s.ledger.Live trade.ref)
    (h : Tracked base τ s)
    (next : List ProposedTrade → List ProposedTrade → Dict OrderResult → M (List OrderResult))
    (hnext : ∀ freshSells freshBuys results τ' s', Tracked base τ' s' →
      (∀ trade ∈ freshSells, trade ∈ sells) → (∀ trade ∈ freshBuys, trade ∈ buys) →
      ((freshSells ++ freshBuys).map (·.ref)).Nodup →
      (∀ trade ∈ freshSells ++ freshBuys, s'.ledger.HoldsFor trade) →
      E.system.wp (next freshSells freshBuys results)
        (fun _ τ' s' => SteadyTrace τ' → Tracked base τ' s') τ' s') :
    E.system.wp ((planPhase plan (some observe) latest sells []).bind fun r =>
      (planPhase plan (some observe) latest buys r.2).bind fun r' => next r.1 r'.1 r'.2)
      (fun _ τ' s' => SteadyTrace τ' → Tracked base τ' s') τ s := by
  have hmember : ∀ trades results (τ₁ : List (Event sig)) (s₁ : World W),
      E.system.wp (planPhase plan (some observe) latest trades results) (fun out _ _ =>
        ∀ r, out = .returned r → ∀ trade ∈ r.1, trade ∈ trades) τ₁ s₁ := by
    intro trades results τ₁ s₁
    refine E.system.wp_mono (wp_returns E (returns_planPhase trades results) τ₁ s₁) ?_
    exact fun _ _ _ hq r hr trade hmem => ((hq r hr).1 trade hmem).1
  rw [List.map_append, List.nodup_append] at hnodup
  obtain ⟨hsells, hbuys, hdisjoint⟩ := hnodup
  have hapart : ∀ trade ∈ buys, trade.ref ∉ sells.map (·.ref) := by
    intro trade hmem hsell
    exact hdisjoint _ hsell _ (List.mem_map_of_mem hmem) rfl
  apply E.system.wp_seq (E.system.wp_and (wp_planPhase_tracked E [] hsells
    (fun trade hmem => hlive trade (List.mem_append_left _ hmem)) h) (hmember sells [] τ s))
  · rintro ⟨freshSells, results⟩ τ₁ s₁ ⟨hq, hof⟩
    obtain ⟨hsub, hheld⟩ := hq.passed _ rfl
    have hlive₁ : ∀ trade ∈ buys, idempotentReplay trade latest = none →
        s₁.ledger.Live trade.ref := fun trade hmem hnone =>
      (hlive trade (List.mem_append_right _ hmem) hnone).of_latest
        (hq.others _ (hapart trade hmem))
    apply E.system.wp_seq (E.system.wp_and (wp_planPhase_tracked E results hbuys
      hlive₁ hq.tracked) (hmember buys results τ₁ s₁))
    · rintro ⟨freshBuys, results₂⟩ τ₂ s₂ ⟨hq₂, hof₂⟩
      obtain ⟨hsub₂, hheld₂⟩ := hq₂.passed _ rfl
      apply hnext _ _ _ _ _ hq₂.tracked (hof _ rfl) (hof₂ _ rfl)
      · rw [List.map_append, List.nodup_append]
        refine ⟨hsub.nodup hsells, hsub₂.nodup hbuys, ?_⟩
        exact fun key hkey other hother => hdisjoint _ (hsub.subset hkey) _ (hsub₂.subset hother)
      · intro trade hmem
        rcases List.mem_append.mp hmem with hmem | hmem
        · apply (hheld trade hmem).of_latest
          apply hq₂.others
          intro hbuy
          exact hdisjoint _ (List.mem_map_of_mem (hof _ rfl trade hmem)) _ hbuy rfl
        · exact hheld₂ trade hmem
    · exact fun _ _ _ hq _ => hq.1.tracked
    · exact fun _ _ hq _ => hq.1.tracked
  · exact fun _ _ _ hq _ => hq.1.tracked
  · exact fun _ _ hq _ => hq.1.tracked

/-- The stages after the planning, over trades whose rows are open. -/
theorem wp_phases_tracked {sells buys : List ProposedTrade} (hsells : OneEach sells)
    (hbuys : OneEach buys) (hpurchases : ∀ buy ∈ buys, buy.Purchase)
    (hnodup : ((sells ++ buys).map (·.ref)).Nodup)
    (hheld : ∀ trade ∈ sells ++ buys, s.ledger.HoldsFor trade) (h : Tracked base τ s)
    (results : Dict OrderResult) :
    E.system.wp (((protocolManager settings isIbkr hasReplacement hasHistory).submitPhase plan sells
      (some observe) true results).bind fun results =>
      ((protocolManager settings isIbkr hasReplacement hasHistory).buyPhase plan buys
        (some observe) results).bind fun results =>
      Prog.ofExcept (S := sig) (ExecutionManager.collectResults results plan.trades))
      (fun _ τ' s' => SteadyTrace τ' → Tracked base τ' s') τ s := by
  rw [List.map_append, List.nodup_append] at hnodup
  obtain ⟨hsellRefs, hbuyRefs, hdisjoint⟩ := hnodup
  have hspares : ∀ key, key ∉ sells.map (·.ref) →
      ((protocolManager settings isIbkr hasReplacement hasHistory).submitPhase plan sells
        (some observe) true results).Uses (S := sig) (Op.Spares key) := by
    intro key hkey
    have hother : ∀ trade ∈ sells, trade.ref ≠ key :=
      fun trade hmem hsame => hkey (hsame ▸ List.mem_map_of_mem hmem)
    have honly := meets_submitPhase (attemptMeets_onKeys settings isIbkr hasReplacement hasHistory
      plan (· ≠ key)) hother results
    exact honly.mono (fun _ ho => ho.1) fun _ _ => trivial
  have hsold : ∀ trade ∈ sells, s.ledger.HoldsFor trade :=
    fun trade hmem => hheld trade (List.mem_append_left _ hmem)
  apply E.system.wp_seq (E.system.wp_and
    (wp_submitPhase_tracked E hsells hsellRefs hsold h results) (wp_spares_all E hspares τ s))
  · rintro results₁ τ₁ s₁ ⟨htracked, hothers⟩
    apply wp_steady
    intro hsteady
    have hbought : ∀ buy ∈ buys, s₁.ledger.HoldsFor buy := fun buy hmem =>
      (hheld buy (List.mem_append_right _ hmem)).of_latest
        (hothers _ fun hsell => hdisjoint _ hsell _ (List.mem_map_of_mem hmem) rfl)
    apply E.system.wp_seq
      (wp_buyPhase_tracked E hbuys hpurchases hbuyRefs hbought (htracked hsteady) results₁)
    · intro results₂ τ₂ s₂ htracked₂
      cases ExecutionManager.collectResults results₂ plan.trades with
      | ok collected => exact htracked₂
      | error e => exact htracked₂
    · exact fun _ _ _ hq => hq
    · exact fun _ _ hq => hq
  · exact fun _ _ _ hq => hq.1
  · exact fun _ _ hq => hq.1

end Attempts

end Stages

/-- A row shows its order cancelled only where the broker reported so. -/
def OrderLedgerEntry.CancelReported (row : OrderLedgerEntry) : Prop :=
  row.lifecycleState = .cancelled → row.rawStatus ∈ rawTerminalCancelled

section Cancelled

variable {row x : OrderLedgerEntry}

theorem cancelReported_of_classified {filled remaining : ℚ}
    (h : row.lifecycleState = classifyLifecycle row.rawStatus filled remaining) :
    row.CancelReported := fun hcancelled =>
  (classifyLifecycle_cancelled_iff.mp (h.symm.trans hcancelled)).2

theorem cancelReported_of_state (h : row.lifecycleState ≠ .cancelled) : row.CancelReported :=
  fun hcancelled => absurd hcancelled h

theorem Followed.cancelReported {snapshot : OpenOrderSnapshot} (h : Followed row snapshot x) :
    x.CancelReported := by
  cases h with
  | kept stamp _ => exact cancelReported_of_classified rfl
  | released stamp ref _ => exact cancelReported_of_classified rfl

theorem Acted.cancelReported {replies : OpenOrderSnapshot → Prop} (h : Acted replies row x) :
    x.CancelReported := by
  cases h with
  | cancelRequested reason => exact cancelReported_of_state nofun
  | intent h => exact cancelReported_of_state nofun
  | deferred h message => exact cancelReported_of_state nofun
  | originalFilled h reply hs stamp => exact cancelReported_of_classified rfl
  | replaced h reply hs newLimit metadata now stamp =>
    cases metadata <;> exact cancelReported_of_classified rfl

theorem Successor.cancelReported {replies : OpenOrderSnapshot → Prop}
    {openSnapshots completed : List OpenOrderSnapshot}
    (h : Successor replies row openSnapshots completed x) : x.CancelReported := by
  cases h with
  | adopted snapshot stamp h => exact cancelReported_of_classified rfl
  | followed snapshot u h hu => exact hu.cancelReported
  | acted snapshot u x h hu hrecovered hworking hid hx => exact hx.cancelReported
  | resumed snapshot seen ref h href hcancelled reply hreply newLimit metadata now stamp =>
    cases metadata <;> exact cancelReported_of_classified rfl
  | closed snapshot stamp hopen h hterminal => exact cancelReported_of_classified rfl
  | unverified now hopen h => exact cancelReported_of_state nofun

/-- A row that has ended holds its trade back. -/
theorem OrderLedgerEntry.Ended.not_sendable (h : row.Ended) (hreported : row.CancelReported) :
    row.sendable = false := by
  have hretryable : ∀ status ∈ "Filled" :: rawTerminalCancelled,
      status ∉ retryablePreAcceptanceStatuses := by decide
  apply decide_eq_false
  rintro (hplanned | ⟨hstatus, _, hunfilled⟩)
  · rcases h with hcancelled | ⟨hfilled, _⟩
    · rw [hplanned] at hcancelled
      cases hcancelled
    · rw [hplanned] at hfilled
      cases hfilled
  · rcases h with hcancelled | ⟨_, hfilled | hmore⟩
    · exact hretryable _ (List.mem_cons_of_mem _ (hreported hcancelled)) hstatus
    · exact hretryable _ (hfilled ▸ List.mem_cons_self) hstatus
    · exact hmore hunfilled

end Cancelled

/-- A condition on rows that planned rows meet, results and reports establish, and the other
updates of a command keep. -/
structure RowRule (P : OrderLedgerEntry → Prop) : Prop where
  restored : ∀ known snapshot entryAt submitted now,
    restoreDecision known snapshot = .restore entryAt →
      P ((entryAt submitted).withSnapshot snapshot now)
  successor : ∀ entry x openSnapshots completed, P entry →
    Successor (fun _ => True) entry openSnapshots completed x → P x
  stale : ∀ entry label, P entry → P (staleCancelled entry label)
  planned : ∀ plan trade, P (plannedEntry plan trade)
  result : ∀ entry result now, P entry → P (entry.withOrderResult result now)

theorem rowRule_cancelReported : RowRule OrderLedgerEntry.CancelReported where
  restored _ _ _ _ _ _ := cancelReported_of_classified rfl
  successor _ _ _ _ _ h := h.cancelReported
  stale _ _ _ := cancelReported_of_state nofun
  planned _ _ := cancelReported_of_state nofun
  result _ _ _ _ := cancelReported_of_classified rfl

section Commands

variable {P : OrderLedgerEntry → Prop} {settings : Settings}
  {isIbkr hasReplacement hasHistory : Bool}

theorem RowRule.attempt (h : RowRule P) (plan : RebalancePlan) :
    AttemptMeets (protocolManager settings isIbkr hasReplacement hasHistory) plan (some observe)
      (ReadsRows P) (Op.RecordsRow P) (fun _ => True) fun _ => True := by
  have hresult : ∀ trade result, (recordResult plan trade result).Meets (S := sig) (ReadsRows P)
      (Op.RecordsRow P) fun _ => True := by
    intro trade result
    apply meets_recordResult trivial trivial
    · intro store row now hrows hlatest _
      exact h.result row result now (hrows row (OrderStore.latest_mem hlatest))
    · exact fun now => h.result _ result now (h.planned plan trade)
  have hnotified : ∀ trade result, (notify (some observe) trade result).Meets (S := sig)
      (ReadsRows P) (Op.RecordsRow P) fun _ => True :=
    fun _ _ => (Prog.meets_perform (S := sig) trivial).mono (fun _ ho => ho) fun _ _ => trivial
  exact {
    repriced := fun _ _ _ _ => trivial
    unpriced := fun _ _ _ => trivial
    trimmed := fun _ _ _ _ => trivial
    planned := fun trade _ => h.planned plan trade
    result := fun trade result _ => hresult trade result
    notified := hnotified
    quotes := fun _ => meets_askBroker trivial
    account := meets_askBroker trivial
    sleep := fun _ => trivial
    submit := fun trades _ => meets_protocolSubmit (fun trade _ result => hresult trade result)
      hnotified (fun call h => by cases call <;> trivial) trivial }

/-- What a rule says of rows, every command keeps for the rows of a ledger. -/
theorem RowRule.after (h : RowRule P) {store : OrderStore} (hstore : store.All P) (step : Step) :
    (step.after store).All P := by
  have hreconcile : step.manager.reconcile.Meets (S := sig) (ReadsRows P) (Op.RecordsRow P)
      fun _ => True :=
    reconcile_meets (protocolBroker_within _ _ _ fun _ _ => trivial) trivial trivial
      (fun _ hrows => hrows) h.restored h.successor
  have hstore := hstore.atStart step.newProcess
  apply openWorld.wp_run (p := step.program) (s := World.of (store.atStart step.newProcess))
    (Q := fun _ _ s' => s'.ledger.All P)
  unfold Step.program
  cases step.command with
  | reconcile =>
    exact wp_bind_unit openEnvironment (wp_allRows openEnvironment hreconcile [] hstore)
  | checkStaleOrders sessionDate runId =>
    have hcheck : (step.manager.checkStaleOrders sessionDate runId).Meets (S := sig) (ReadsRows P)
        (Op.RecordsRow P) fun _ => True :=
      checkStaleOrders_meets trivial (fun _ hrows => hrows) hreconcile
        (fun _ => Prog.uses_perform (S := sig) trivial)
        (fun entry label hentry _ _ => h.stale entry label hentry) sessionDate runId
    exact wp_bind_unit openEnvironment (wp_allRows openEnvironment hcheck [] hstore)
  | submitPlan plan =>
    apply wp_bind_unit openEnvironment
    exact wp_allRows openEnvironment (submitPlan_meets trivial (h.attempt plan)) [] hstore

theorem RowRule.reached (h : RowRule P) {store : OrderStore} (hstore : Reached store) :
    store.All P := by
  induction hstore with
  | empty => exact List.forall_mem_nil _
  | step _ step ih => exact h.after ih step
  | reopened _ ih => exact ih.reopened

end Commands

/-- A plan an attempt is made of: one trade for a ticker and side, and buys that cost something. -/
structure RebalancePlan.Sound (plan : RebalancePlan) : Prop where
  distinct : plan.Distinct
  purchases : ∀ trade ∈ plan.trades, trade.side = .buy → trade.Purchase

section Tagged

variable {store : OrderStore} {plan : RebalancePlan}

theorem mem_tagTrades {runId : String} {offset : Nat} {trades : List ProposedTrade}
    {tagged : ProposedTrade} (h : tagged ∈ tagTrades store runId offset trades) :
    ∃ trade ∈ trades, ∃ ref, tagged = { trade with orderRef := some ref } := by
  obtain ⟨index, hindex, rfl⟩ := List.mem_mapIdx.mp h
  exact ⟨_, List.getElem_mem hindex, _, rfl⟩

/-- Tagged trades of one side of a plan have one each. -/
theorem oneEach_tagged (hplan : plan.Distinct) (side : OrderSide) {trades : List ProposedTrade}
    (hof : ∀ trade ∈ trades, trade ∈ taggedTrades store plan)
    (hside : ∀ trade ∈ trades, trade.side = side) : OneEach trades := by
  intro trade htrade other hother hticker
  rw [taggedTrades_eq] at hof
  obtain ⟨i, hi, rfl⟩ := List.mem_mapIdx.mp (hof trade htrade)
  obtain ⟨j, hj, rfl⟩ := List.mem_mapIdx.mp (hof other hother)
  have hsides : (plan.sells ++ plan.buys)[i].side = (plan.sells ++ plan.buys)[j].side :=
    (hside _ htrade).trans (hside _ hother).symm
  have hi' : i < ((plan.sells ++ plan.buys).map fun trade => (trade.ticker, trade.side)).length := by
    rwa [List.length_map]
  have hj' : j < ((plan.sells ++ plan.buys).map fun trade => (trade.ticker, trade.side)).length := by
    rwa [List.length_map]
  have hpair : ((plan.sells ++ plan.buys).map fun trade => (trade.ticker, trade.side))[i] =
      ((plan.sells ++ plan.buys).map fun trade => (trade.ticker, trade.side))[j] := by
    simp only [List.getElem_map]
    exact Prod.ext hticker hsides
  obtain rfl : i = j := hplan.staged.getElem_inj_iff.mp hpair
  rfl

theorem tagTrades_side {runId : String} {offset : Nat} {trades : List ProposedTrade}
    {side : OrderSide} (hside : ∀ trade ∈ trades, trade.side = side) :
    ∀ trade ∈ tagTrades store runId offset trades, trade.side = side := by
  intro trade hmem
  obtain ⟨original, horiginal, ref, rfl⟩ := mem_tagTrades hmem
  exact hside original horiginal

theorem oneEach_sells (hplan : plan.Distinct) {trades : List ProposedTrade}
    (h : ∀ trade ∈ trades, trade ∈ tagTrades store plan.runId 0 plan.sells) : OneEach trades := by
  apply oneEach_tagged hplan .sell
  · exact fun trade hmem => List.mem_append_left _ (h trade hmem)
  · exact fun trade hmem => tagTrades_side (fun original horiginal =>
      of_decide_eq_true (List.mem_filter.mp horiginal).2) trade (h trade hmem)

theorem oneEach_buys (hplan : plan.Distinct) {trades : List ProposedTrade}
    (h : ∀ trade ∈ trades, trade ∈ tagTrades store plan.runId plan.sells.length plan.buys) :
    OneEach trades := by
  apply oneEach_tagged hplan .buy
  · exact fun trade hmem => List.mem_append_right _ (h trade hmem)
  · exact fun trade hmem => tagTrades_side (fun original horiginal =>
      of_decide_eq_true (List.mem_filter.mp horiginal).2) trade (h trade hmem)

/-- A tagged buy costs what the planned one does. -/
theorem tagged_purchase (hplan : plan.Sound) {offset : Nat} {buy : ProposedTrade}
    (h : buy ∈ tagTrades store plan.runId offset plan.buys) : buy.Purchase := by
  obtain ⟨original, horiginal, ref, rfl⟩ := mem_tagTrades h
  obtain ⟨htrade, hside⟩ := List.mem_filter.mp horiginal
  obtain ⟨hbuyside, hquantity, hprice, hnotional⟩ :=
    hplan.purchases original htrade (of_decide_eq_true hside)
  exact ⟨hbuyside, hquantity, hprice, hnotional⟩

end Tagged

section Histories

variable {W : Type} (E : Environment W) {base : OrderStore} {τ : List (Event sig)} {s : World W}
  {plan : RebalancePlan} {settings : Settings} {isIbkr hasReplacement hasHistory : Bool}

/-- Reads keep a run tracked. -/
theorem Tracked.reads (h : Tracked base τ s) {added : List (Event sig)}
    (hadded : ∀ event ∈ added, event.op = .loadLatestEntries) : Tracked base (τ ++ added) s := by
  induction added using List.reverseRecOn with
  | nil => rwa [List.append_nil]
  | append_singleton added event ih =>
    have hbefore := ih fun other hmem => hadded other (List.mem_append_left _ hmem)
    have hread := hadded event (List.mem_append_right _ List.mem_cons_self)
    rw [← List.append_assoc]
    constructor
    · rw [OrderStore.afterTrace_append, ← hbefore.ledger]
      show s.ledger = s.ledger.recorded event.op
      rw [hread]
      rfl
    · apply hbefore.admitted.concat
      rw [hread]
      exact Op.Passive.admitted ⟨trivial, id⟩

/-- An attempt on a sound plan keeps the ends of orders. -/
theorem wp_submitPlan_tracked (hplan : plan.Sound) (hnamed : s.ledger.All OrderLedgerEntry.Named)
    (hreported : s.ledger.All OrderLedgerEntry.CancelReported) (h : Tracked base τ s) :
    E.system.wp ((protocolManager settings isIbkr hasReplacement hasHistory).submitPlan plan
      (some observe)) (fun _ τ' s' => SteadyTrace τ' → Tracked base τ' s') τ s := by
  have hreads : ∀ τ', Grows (· = .loadLatestEntries) τ τ' → Tracked base τ' s := by
    rintro τ' ⟨added, rfl, hadded⟩
    exact h.reads hadded
  apply wp_submitPlan E
  · exact fun τ' hτ' _ => hreads τ' hτ'
  · intro τ' hτ'
    have hlive : ∀ trade ∈ taggedTrades s.ledger plan, idempotentReplay trade
        (s.ledger.getLatestMany ((taggedTrades s.ledger plan).map (·.ref))) = none →
        s.ledger.Live trade.ref := by
      intro trade hmem hnone row hrow hended
      have hsendable := (freshIn_of_noReplay hmem hnone).2 row hrow
      rw [hended.not_sendable (hreported row (OrderStore.latest_mem hrow))] at hsendable
      cases hsendable
    unfold ExecutionManager.attemptPhases
    refine wp_planned_tracked E (taggedRefs_nodup hnamed hplan.distinct) hlive (hreads τ' hτ')
      (fun freshSells freshBuys results =>
        ((protocolManager settings isIbkr hasReplacement hasHistory).submitPhase plan freshSells
          (some observe) true results).bind fun results =>
        ((protocolManager settings isIbkr hasReplacement hasHistory).buyPhase plan freshBuys
          (some observe) results).bind fun results =>
        Prog.ofExcept (S := sig) (ExecutionManager.collectResults results plan.trades)) ?_
    intro freshSells freshBuys results τ₁ s₁ htracked hsells hbuys hnodup hheld
    apply wp_phases_tracked E _ _ _ hnodup hheld htracked
    · exact oneEach_sells hplan.distinct hsells
    · exact oneEach_buys hplan.distinct hbuys
    · exact fun buy hmem => tagged_purchase hplan (hbuys buy hmem)

end Histories

/-- What is assumed of one process: its plan is sound, and the broker's reports to it agree. -/
structure Step.Sound (store : OrderStore) (step : Step) : Prop where
  steady : SteadyTrace (step.run store).trace
  plan : ∀ plan, step.command = .submitPlan plan → plan.Sound

/-- Processes one after the other, each as assumed on the ledger it finds. -/
def Step.AllSound : OrderStore → List Step → Prop
  | _, [] => True
  | store, step :: steps => step.Sound store ∧ Step.AllSound (step.after store) steps

/-- The ledger that processes leave. -/
def Step.ledgerAfter (store : OrderStore) (steps : List Step) : OrderStore :=
  steps.foldl (fun store step => step.after store) store

section Runs

variable {store : OrderStore}

/-- Every command keeps the ends of the orders of a reached ledger. -/
theorem Step.tracked (hstore : Reached store) (step : Step) (h : step.Sound store) :
    Tracked (store.atStart step.newProcess) (step.run store).trace (step.run store).state := by
  have hstore := hstore.atStart step.newProcess
  have hsteady := h.steady
  have hplan := h.plan
  unfold Step.run at hsteady ⊢
  generalize store.atStart step.newProcess = store at hstore hsteady ⊢
  have hstart : Tracked store [] (World.of store) := tracked_nil (World.of store)
  have hrun := openWorld.wp_run (p := step.program) (s := World.of store)
    (Q := fun _ τ s => SteadyTrace τ → Tracked store τ s) ?_ step.choices
  · exact hrun hsteady
  unfold Step.program
  cases hcommand : step.command with
  | reconcile =>
    exact wp_bind_unit openEnvironment (openWorld.wp_mono
      (wp_reconcile_tracked openEnvironment hstart hstore.produced) fun _ _ _ hq _ => hq)
  | checkStaleOrders sessionDate runId =>
    exact wp_bind_unit openEnvironment (openWorld.wp_mono
      (wp_checkStaleOrders_tracked openEnvironment hstart hstore.produced sessionDate runId)
      fun _ _ _ hq _ => hq)
  | submitPlan plan =>
    exact wp_bind_unit openEnvironment (wp_submitPlan_tracked openEnvironment
      (hplan plan hcommand) hstore.named (rowRule_cancelReported.reached hstore) hstart)

/-- So does every history of commands. -/
theorem Step.traces_admitted (hstore : Reached store) {steps : List Step}
    (h : Step.AllSound store steps) : store.AdmitsAll (Step.traces store steps) ∧
      (Step.ledgerAfter store steps).SameRows (store.afterTrace (Step.traces store steps)) := by
  induction steps generalizing store with
  | nil =>
    refine ⟨?_, fun _ => rfl⟩
    exact (tracked_nil (World.of store) : Tracked store [] (World.of store)).admitted
  | cons step steps ih =>
    have hfirst := step.tracked hstore h.1
    obtain ⟨hrest, hledger⟩ := ih (.step hstore step) h.2
    have hlisted : store.SameRows (store.atStart step.newProcess) :=
      fun key => (OrderStore.latest_atStart store step.newProcess key).symm
    have hafter : (store.afterTrace (step.run store).trace).SameRows (step.after store) := by
      rw [show step.after store = _ from hfirst.ledger]
      exact hlisted.afterTrace _
    rw [Step.traces]
    constructor
    · exact (hfirst.admitted.of_sameRows hlisted).append (hrest.of_sameRows hafter)
    · rw [OrderStore.afterTrace_append]
      exact hledger.trans (hafter.afterTrace _).symm

/-- An end that a row has shown, it keeps. -/
theorem OrderStore.AdmitsAll.keeps {before more : List (Event sig)}
    (h : store.AdmitsAll (before ++ more)) {key : String} {row : OrderLedgerEntry}
    (hrow : (store.afterTrace before).latest key = some row) (hended : row.Ended) :
    ∃ last, (store.afterTrace (before ++ more)).latest key = some last ∧ last.Ended ∧
      last.lifecycleState = row.lifecycleState := by
  induction more using List.reverseRecOn with
  | nil =>
    rw [List.append_nil]
    exact ⟨row, hrow, hended, rfl⟩
  | append_singleton more event ih =>
    rw [← List.append_assoc] at h ⊢
    have hinitial : store.AdmitsAll (before ++ more) := by
      intro earlier other later hsplit
      exact h earlier other (later ++ [event]) (by rw [hsplit]; simp)
    obtain ⟨last, hlast, hlastEnded, hstate⟩ := ih hinitial
    have hadmits := h (before ++ more) event [] rfl
    rw [OrderStore.afterTrace_append]
    show ∃ last, ((store.afterTrace (before ++ more)).recorded event.op).latest key = some last ∧ _
    unfold OrderStore.recorded
    cases hop : event.op with
    | upsert x =>
      by_cases hkey : x.ledgerKey = key
      · rw [hop] at hadmits
        obtain ⟨hx, hxstate⟩ := hadmits last (hkey ▸ hlast) hlastEnded
        exact ⟨x, OrderStore.latest_upsert_of_eq hkey, hx, hxstate.trans hstate⟩
      · exact ⟨last, (OrderStore.latest_upsert_of_ne hkey).trans hlast, hlastEnded, hstate⟩
    | _ => exact ⟨last, hlast, hlastEnded, hstate⟩

/-- Over every history of sound processes, an order that has ended keeps its end: later records of
its row show the same one, no trade of a later batch goes under its key, an order that is cancelled
or replaced is one of another row that is open at that time, and the last ledger shows the end. -/
theorem ended_orders_stay_ended (steps : List Step) (h : Step.AllSound .empty steps) (key : String)
    (before after : List (Event sig)) (event : Event sig)
    (hsplit : Step.traces .empty steps = before ++ event :: after) (row : OrderLedgerEntry)
    (hrow : (OrderStore.empty.afterTrace before).latest key = some row) (hended : row.Ended) :
    (∀ x, event.op = .upsert x → x.ledgerKey = key →
      x.Ended ∧ x.lifecycleState = row.lifecycleState) ∧
    (∀ trades, event.op = .broker (.submitTrades trades) → ∀ trade ∈ trades, trade.ref ≠ key) ∧
    (event.op.FollowsUp → ∃ other, (OrderStore.empty.afterTrace before).Holds other ∧
      other.ledgerKey ≠ key ∧ event.op.AsksFor before other) ∧
    ∃ last, (Step.ledgerAfter .empty steps).latest key = some last ∧ last.Ended ∧
      last.lifecycleState = row.lifecycleState := by
  obtain ⟨hadmits, hledger⟩ := Step.traces_admitted .empty h
  have hopen : ∀ other, (OrderStore.empty.afterTrace before).Holds other →
      other.ledgerKey ≠ key := by
    rintro other hholds rfl
    exact hholds.live row hrow hended
  have hevent := hadmits before event after hsplit
  refine ⟨?_, ?_, ?_, ?_⟩
  · rintro x hx rfl
    rw [hx] at hevent
    exact hevent row hrow hended
  · intro trades htrades trade hmem
    rw [htrades] at hevent
    obtain ⟨other, hholds, hkey⟩ := hevent trade hmem
    exact hkey ▸ hopen other hholds
  · intro hfollows
    obtain ⟨other, hholds, hfor⟩ := hevent.of_followsUp hfollows
    exact ⟨other, hholds, hopen other hholds, hfor⟩
  · rw [hledger key, hsplit]
    rw [hsplit] at hadmits
    exact hadmits.keeps hrow hended

/-- A list split at one of its places. -/
theorem take_get_drop {α : Type} (l : List α) {n : Nat} (h : n < l.length) :
    l = l.take n ++ l.get ⟨n, h⟩ :: l.drop (n + 1) := by
  rw [List.get_eq_getElem, ← List.drop_eq_getElem_cons, List.take_append_drop]

/-- One report of an order that is not cancelled agrees with itself. -/
theorem steady_of_single {made : List TradeReport} (hone : made.length ≤ 1)
    (hworking : ∀ report ∈ made, report.2.status ∉ rawTerminalCancelled) : Steady made where
  continues := by
    cases made with
    | nil => exact List.Pairwise.nil
    | cons report rest =>
      rw [List.length_cons] at hone
      obtain rfl : rest = [] := List.eq_nil_of_length_eq_zero (by omega)
      exact List.pairwise_singleton _ report
  coherent report hreport hcancelled := absurd hcancelled (hworking report hreport)

theorem sellPlan_sound : sellPlan.Sound where
  distinct := by
    unfold RebalancePlan.Distinct
    decide
  purchases trade htrade hside := by
    rw [show sellPlan.trades = [sellPlan.trades.head (by decide)] from rfl,
      List.mem_singleton] at htrade
    rw [htrade] at hside
    cases hside

/-- One share is sold, its order is reported filled, and the plan is submitted again. -/
def filledSteps : List Step :=
  [deferringStep (.submitPlan sellPlan) 0 [] [],
    deferringStep .reconcile 10 [sellReport "poma:run:0:VTI:SELL" "Filled" 7 1] [],
    deferringStep (.submitPlan sellPlan) 20 [] []]

theorem filledSteps_sound : Step.AllSound .empty filledSteps := by
  have hplan : ∀ (command : Command), command = .submitPlan sellPlan ∨ command = .reconcile →
      ∀ plan, command = .submitPlan plan → plan.Sound := by
    rintro command (rfl | rfl) plan hplan
    · rw [← Command.submitPlan.inj hplan]
      exact sellPlan_sound
    · cases hplan
  refine ⟨⟨?_, hplan _ (Or.inl rfl)⟩, ⟨?_, hplan _ (Or.inr rfl)⟩, ⟨?_, hplan _ (Or.inl rfl)⟩,
    trivial⟩
  all_goals exact steady_of_single (by decide +kernel) (by decide +kernel)

/-- The share is sold once: the order stays filled when the plan is submitted again. -/
theorem ended_orders_stay_ended_resubmitted :
    ∃ last, (Step.ledgerAfter .empty filledSteps).latest "poma:run:0:VTI:SELL" = some last ∧
      last.Ended ∧ last.lifecycleState = .filled := by
  -- the filled row is the last record of the second process
  let done := (Step.traces .empty (filledSteps.take 2)).length
  have hlength : done < (Step.traces .empty filledSteps).length := by decide +kernel
  have hfilled : ((OrderStore.empty.afterTrace
      ((Step.traces .empty filledSteps).take done)).latest "poma:run:0:VTI:SELL").any
        (fun row => row.Ended ∧ row.lifecycleState = .filled) = true := by decide +kernel
  obtain ⟨row, hrow, hshows⟩ := (Option.any_eq_true _ _).mp hfilled
  obtain ⟨hended, hstate⟩ := of_decide_eq_true hshows
  obtain ⟨_, _, _, last, hlast, hlastEnded, hlastState⟩ := ended_orders_stay_ended filledSteps
    filledSteps_sound _ _ _ _ (take_get_drop _ hlength) row hrow hended
  exact ⟨last, hlast, hlastEnded, hlastState.trans hstate⟩

end Runs

end Poma

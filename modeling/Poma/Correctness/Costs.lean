import Poma.Engine.ExecutionCosts

/-!
# The audit of execution costs conserves the fills

The rows of a report are read as a set: the fills, and with them every total, do
not depend on the order of the rows or on how often one is repeated. The totals
of all orders are those of the fills, and nothing is added up over a fill that
leaves it unknown.
-/

namespace Poma

/-- Two rows are read as different fills of one execution. -/
def Conflicting (textCase : TextCase) (rows : List ReportRow) : Prop :=
  ∃ row ∈ rows, ∃ other ∈ rows, ∃ fill fill', readFill textCase row = .ok fill ∧
    readFill textCase other = .ok fill' ∧ fill.executionId = fill'.executionId ∧
    fill ≠ fill'

/-- The fills of a report: those its rows are read as, each execution once. -/
structure FillsOf (textCase : TextCase) (rows : List ReportRow) (fills : List ExecutionFill) :
    Prop where
  distinct : (fills.map (·.executionId)).Nodup
  mem_iff : ∀ fill, fill ∈ fills ↔ ∃ row ∈ rows, readFill textCase row = .ok fill

/-- The fees of a fill, when it reports both of them. -/
def ExecutionFill.feesUsd (fill : ExecutionFill) : Option ℚ :=
  fill.commissionUsd.bind fun commission => fill.exchangeFeesUsd.map (commission + ·)

/-- The fills of the orders all of whose fills report a value. -/
def reportedFills (value : ExecutionFill → Option ℚ) (fills : List ExecutionFill) :
    List ExecutionFill :=
  fills.filter fun fill => ∀ other ∈ fills, other.orderRef = fill.orderRef → (value other).isSome

/-- The costs of the orders account for the fills. -/
structure AccountsFor (entries : List (String × OrderLedgerEntry)) (fills : List ExecutionFill)
    (costs : List OrderExecutionCost) : Prop where
  orders : costs.map (·.orderRef) = sortedKeys ExecutionFill.orderRef (pomaFills fills)
  shares : (costs.map (·.shares)).sum = ((pomaFills fills).map (·.shares)).sum
  notional : (costs.map (·.notionalUsd)).sum =
    ((pomaFills fills).map fun fill => fill.shares * fill.priceUsd).sum
  /-- The known fees are those of the orders whose fills report them all. -/
  commissions : knownSum (·.commissionUsd) costs =
    knownSum (·.commissionUsd) (reportedFills (·.commissionUsd) (pomaFills fills))
  exchangeFees : knownSum (·.exchangeFeesUsd) costs =
    knownSum (·.exchangeFeesUsd) (reportedFills (·.exchangeFeesUsd) (pomaFills fills))
  brokerFees : knownSum (·.reportedBrokerFeesUsd) costs =
    knownSum (·.feesUsd) (reportedFills (·.feesUsd) (pomaFills fills))
  /-- A fill without a commission or an exchange fee leaves the fees of its order unknown. -/
  unknown : ∀ cost ∈ costs, cost.reportedBrokerFeesUsd = none ↔
    ∃ fill ∈ pomaFills fills, fill.orderRef = cost.orderRef ∧
      (fill.commissionUsd = none ∨ fill.exchangeFeesUsd = none)
  plans : ∀ cost ∈ costs, ∃ summary, (cost.pricingPlan, summary) ∈ planSummary costs
  /-- It leaves those of the plan of its order unknown, too. -/
  planUnknown : ∀ plan summary, (plan, summary) ∈ planSummary costs →
    (summary.reportedBrokerFeesUsd = none ↔ ∃ cost ∈ costs, cost.pricingPlan = plan ∧
      ∃ fill ∈ pomaFills fills, fill.orderRef = cost.orderRef ∧
        (fill.commissionUsd = none ∨ fill.exchangeFeesUsd = none))
  /-- Slippage is told of an order that is the current one of its ledger entry. -/
  slippage : ∀ cost ∈ costs,
    cost.signedPriceSlippageBps ≠ none ∨ cost.signedPriceSlippageUsd ≠ none →
      ∃ entry, ledgerByRef entries cost.orderRef = some entry ∧ entry.orderRef = cost.orderRef

/-- The audit of a report reads its rows as a set, raises over conflicting rows, and accounts for
the fills. -/
structure AuditsFills (textCase : TextCase) (fieldnames : List String) (rows : List ReportRow)
    (entries : List (String × OrderLedgerEntry)) : Prop where
  unordered : ∀ rows' : List ReportRow, (∀ row, row ∈ rows' ↔ row ∈ rows) →
    (executionReport textCase fieldnames rows' entries).toOption =
      (executionReport textCase fieldnames rows entries).toOption
  conflicting : Conflicting textCase rows →
    ∀ rows' : List ReportRow, (∀ row, row ∈ rows' ↔ row ∈ rows) →
      ∃ message, executionReport textCase fieldnames rows' entries = .error message
  accounts : ∀ costs, executionReport textCase fieldnames rows entries = .ok costs →
    ∃ fills, FillsOf textCase rows fills ∧ AccountsFor entries fills costs

section Reading

variable {textCase : TextCase} {fills fills' : List ExecutionFill} {fill : ExecutionFill}
  {rows : List ReportRow}

theorem nodup_executionIds_nil :
    (([] : List ExecutionFill).map (·.executionId)).Nodup := List.nodup_nil

/-- A fill that is taken up is there, with those before it. -/
theorem takeFill_ok (hdistinct : (fills.map (·.executionId)).Nodup)
    (h : takeFill fills fill = .ok fills') :
    (fills'.map (·.executionId)).Nodup ∧ ∀ other, other ∈ fills' ↔ other ∈ fills ∨ other = fill := by
  unfold takeFill at h
  cases hfind : fills.find? (·.executionId = fill.executionId) with
  | some known =>
    rw [hfind] at h
    by_cases hsame : known = fill
    · simp only [hsame, if_true] at h
      obtain rfl := Except.ok.inj h
      have hmem : fill ∈ fills := hsame ▸ List.mem_of_find?_eq_some hfind
      refine ⟨hdistinct, fun other => ⟨Or.inl, ?_⟩⟩
      rintro (hother | rfl)
      · exact hother
      · exact hmem
    · simp only [hsame, if_false] at h
      cases h
  | none =>
    rw [hfind] at h
    obtain rfl := Except.ok.inj h
    rw [List.find?_eq_none] at hfind
    constructor
    · rw [List.map_append, List.map_singleton, List.nodup_append]
      refine ⟨hdistinct, List.nodup_singleton _, ?_⟩
      intro id hid other hother
      obtain ⟨known, hknown, rfl⟩ := List.mem_map.mp hid
      rw [List.mem_singleton.mp hother]
      simpa using hfind known hknown
    · intro other
      rw [List.mem_append, List.mem_singleton]

/-- A fill is not taken up only if another fill has its execution id. -/
theorem takeFill_error {message : String} (h : takeFill fills fill = .error message) :
    ∃ known ∈ fills, known.executionId = fill.executionId ∧ known ≠ fill := by
  unfold takeFill at h
  cases hfind : fills.find? (·.executionId = fill.executionId) with
  | some known =>
    rw [hfind] at h
    by_cases hsame : known = fill
    · simp only [hsame, if_true] at h
      cases h
    · exact ⟨known, List.mem_of_find?_eq_some hfind, by simpa using List.find?_some hfind, hsame⟩
  | none =>
    rw [hfind] at h
    cases h

/-- The loop, from the fills read so far. -/
theorem readRows_ok {line : Nat} (hdistinct : (fills.map (·.executionId)).Nodup)
    (h : readRows textCase line fills rows = .ok fills') :
    (fills'.map (·.executionId)).Nodup ∧ (∀ row ∈ rows, ∃ fill, readFill textCase row = .ok fill) ∧
      ∀ fill, fill ∈ fills' ↔ fill ∈ fills ∨ ∃ row ∈ rows, readFill textCase row = .ok fill := by
  induction rows generalizing line fills with
  | nil =>
    obtain rfl := Except.ok.inj h
    simp [hdistinct]
  | cons row rows ih =>
    unfold readRows at h
    cases hread : readFill textCase row with
    | error message =>
      rw [hread] at h
      cases h
    | ok fill =>
      cases htake : takeFill fills fill with
      | error message =>
        rw [hread, Except.bind, htake] at h
        cases h
      | ok taken =>
        rw [hread, Except.bind, htake] at h
        obtain ⟨hdistinct', hmem⟩ := takeFill_ok hdistinct htake
        obtain ⟨hnodup, hreadable, hall⟩ := ih hdistinct' h
        refine ⟨hnodup, ?_, ?_⟩
        · intro other hother
          rcases List.mem_cons.mp hother with rfl | hother
          · exact ⟨fill, hread⟩
          · exact hreadable other hother
        · intro other
          rw [hall, hmem, or_assoc, List.exists_mem_cons_iff, hread, Except.ok.injEq]
          exact or_congr_right (or_congr_left eq_comm)

/-- The loop fails only over a row that is no fill, or over two fills of one execution. -/
theorem readRows_error {line : Nat} {message : String}
    (hdistinct : (fills.map (·.executionId)).Nodup)
    (h : readRows textCase line fills rows = .error message)
    (hreadable : ∀ row ∈ rows, ∃ fill, readFill textCase row = .ok fill) :
    ∃ fill fill', (fill ∈ fills ∨ ∃ row ∈ rows, readFill textCase row = .ok fill) ∧
      (∃ row ∈ rows, readFill textCase row = .ok fill') ∧ fill.executionId = fill'.executionId ∧
      fill ≠ fill' := by
  induction rows generalizing line fills with
  | nil => cases h
  | cons row rows ih =>
    unfold readRows at h
    obtain ⟨fill, hread⟩ := hreadable row List.mem_cons_self
    cases htake : takeFill fills fill with
    | error message =>
      obtain ⟨known, hknown, hid, hne⟩ := takeFill_error htake
      exact ⟨known, fill, Or.inl hknown, ⟨row, List.mem_cons_self, hread⟩, hid, hne⟩
    | ok taken =>
      rw [hread, Except.bind, htake] at h
      obtain ⟨hdistinct', hmem⟩ := takeFill_ok hdistinct htake
      obtain ⟨first, second, hfirst, ⟨other, hother, hsecond⟩, hid, hne⟩ :=
        ih hdistinct' h fun other hother => hreadable other (List.mem_cons_of_mem _ hother)
      refine ⟨first, second, ?_, ⟨other, List.mem_cons_of_mem _ hother, hsecond⟩, hid, hne⟩
      rcases hfirst with hfirst | ⟨earlier, hearlier, hfirst⟩
      · rcases (hmem first).mp hfirst with hknown | rfl
        · exact Or.inl hknown
        · exact Or.inr ⟨row, List.mem_cons_self, hread⟩
      · exact Or.inr ⟨earlier, List.mem_cons_of_mem _ hearlier, hfirst⟩

/-- The rows of a report are read exactly when each is a fill and no two of them conflict. -/
theorem readRows_isOk_iff {line : Nat} : (∃ fills, readRows textCase line [] rows = .ok fills) ↔
    (∀ row ∈ rows, ∃ fill, readFill textCase row = .ok fill) ∧ ¬Conflicting textCase rows := by
  constructor
  · rintro ⟨fills, h⟩
    obtain ⟨hnodup, hreadable, hmem⟩ := readRows_ok nodup_executionIds_nil h
    refine ⟨hreadable, ?_⟩
    rintro ⟨row, hrow, other, hother, fill, fill', hread, hread', hid, hne⟩
    have hin := (hmem fill).mpr (Or.inr ⟨row, hrow, hread⟩)
    have hin' := (hmem fill').mpr (Or.inr ⟨other, hother, hread'⟩)
    exact hne (List.inj_on_of_nodup_map hnodup hin hin' hid)
  · rintro ⟨hreadable, hagree⟩
    cases hresult : readRows textCase line [] rows with
    | ok fills => exact ⟨fills, rfl⟩
    | error message =>
      obtain ⟨fill, fill', hfill, ⟨other, hother, hread'⟩, hid, hne⟩ :=
        readRows_error nodup_executionIds_nil hresult hreadable
      rcases hfill with hnone | ⟨row, hrow, hread⟩
      · cases hnone
      · exact absurd ⟨row, hrow, other, hother, fill, fill', hread, hread', hid, hne⟩ hagree

theorem fillsOf_readRows {line : Nat} (h : readRows textCase line [] rows = .ok fills) :
    FillsOf textCase rows fills := by
  obtain ⟨hnodup, -, hmem⟩ := readRows_ok nodup_executionIds_nil h
  refine ⟨hnodup, fun fill => ?_⟩
  rw [hmem]
  simp

/-- The fills of two reports with the same rows are the same, in some order. -/
theorem FillsOf.perm {rows' : List ReportRow} (h : FillsOf textCase rows fills)
    (h' : FillsOf textCase rows' fills')
    (hrows : ∀ row, row ∈ rows' ↔ row ∈ rows) : fills'.Perm fills := by
  rw [List.perm_ext_iff_of_nodup h'.distinct.of_map h.distinct.of_map]
  intro fill
  rw [h.mem_iff, h'.mem_iff]
  simp only [hrows]

end Reading

section Adding

variable {α : Type} {value : α → Option ℚ} {items items' : List α}

theorem knownSum_perm (hperm : items.Perm items') : knownSum value items = knownSum value items' :=
  (hperm.filterMap value).sum_eq

theorem knownTotal_perm (hperm : items.Perm items') :
    knownTotal value items = knownTotal value items' := by
  unfold knownTotal
  simp only [knownSum_perm hperm, hperm.mem_iff]

theorem knownTotal_eq_none_iff : knownTotal value items = none ↔
    ∃ item ∈ items, value item = none := by
  unfold knownTotal
  by_cases hknown : ∀ item ∈ items, (value item).isSome
  · rw [if_pos hknown]
    constructor
    · intro h
      cases h
    · rintro ⟨item, hitem, hnone⟩
      have hsome := hknown item hitem
      rw [hnone] at hsome
      cases hsome
  · rw [if_neg hknown]
    push Not at hknown
    obtain ⟨item, hitem, hnone⟩ := hknown
    simp only [true_iff]
    exact ⟨item, hitem, by simpa using hnone⟩

end Adding

variable {entries : List (String × OrderLedgerEntry)} {orderRef : String}
  {fills fills' : List ExecutionFill}

/-- What an order costs does not depend on the order of its fills. -/
theorem orderCost_perm (hperm : fills.Perm fills') :
    orderCost entries orderRef fills = orderCost entries orderRef fills' := by
  unfold orderCost
  cases hfirst : fills.head? with
  | none =>
    rw [List.head?_eq_none_iff] at hfirst
    subst hfirst
    rw [List.nil_perm.mp hperm, List.head?_nil]
  | some first =>
    cases hfirst' : fills'.head? with
    | none =>
      rw [List.head?_eq_none_iff] at hfirst'
      subst hfirst'
      rw [List.perm_nil.mp hperm] at hfirst
      cases hfirst
    | some first' =>
      have hin : first ∈ fills' := hperm.mem_iff.mp (List.mem_of_head? hfirst)
      have hin' : first' ∈ fills := hperm.mem_iff.mpr (List.mem_of_head? hfirst')
      have hshares := (hperm.map fun fill => fill.shares).sum_eq
      have hnotional := (hperm.map fun fill => fill.shares * fill.priceUsd).sum_eq
      have hcommission : knownTotal (·.commissionUsd) fills = knownTotal (·.commissionUsd) fills' :=
        knownTotal_perm hperm
      have hexchange : knownTotal (·.exchangeFeesUsd) fills =
          knownTotal (·.exchangeFeesUsd) fills' := knownTotal_perm hperm
      by_cases hagree : ∀ fill ∈ fills, fill.terms = first.terms
      · have hterms : first'.terms = first.terms := hagree first' hin'
        have hnone : (fills.any (·.terms ≠ first.terms)) = false := by
          simpa using hagree
        have hnone' : (fills'.any (·.terms ≠ first'.terms)) = false := by
          rw [hterms]
          simpa using fun fill hfill => hagree fill (hperm.mem_iff.mpr hfill)
        simp only [hnone, hnone', hshares, hnotional, hcommission, hexchange, hperm.length_eq]
        obtain ⟨hsymbol, hside, hplan, hrouting⟩ : first'.symbol = first.symbol ∧
            first'.side = first.side ∧ first'.pricingPlan = first.pricingPlan ∧
              first'.routing = first.routing := by
          simpa [ExecutionFill.terms] using hterms
        simp only [hsymbol, hside, hplan, hrouting]
      · have hsome : (fills.any (·.terms ≠ first.terms)) = true := by
          simpa using hagree
        have hsome' : (fills'.any (·.terms ≠ first'.terms)) = true := by
          by_contra hnone
          have hall : ∀ fill ∈ fills', fill.terms = first'.terms := by simpa using hnone
          apply hagree
          intro fill hfill
          rw [hall fill (hperm.mem_iff.mp hfill), hall first hin]
        simp only [hsome, hsome', if_true]

/-- The costs of the orders do not depend on the order of the fills. -/
theorem analyzeExecutionCosts_perm (hperm : fills.Perm fills') :
    analyzeExecutionCosts fills entries = analyzeExecutionCosts fills' entries := by
  unfold analyzeExecutionCosts
  have hpoma : (pomaFills fills).Perm (pomaFills fills') := hperm.filter _
  rw [sortedKeys_perm hpoma]
  congr 1
  funext orderRef
  exact orderCost_perm (hpoma.filter _)

section Sums

variable {α : Type} {value : α → Option ℚ} {items : List α}

theorem knownSum_eq_sum : knownSum value items = (items.map fun item => (value item).getD 0).sum := by
  unfold knownSum
  induction items with
  | nil => rfl
  | cons item items ih =>
    cases hvalue : value item with
    | none => rw [List.filterMap_cons_none hvalue, List.map_cons, List.sum_cons, hvalue,
        Option.getD_none, zero_add, ih]
    | some x => rw [List.filterMap_cons_some hvalue, List.map_cons, List.sum_cons, List.sum_cons,
        hvalue, Option.getD_some, ih]

/-- A sum over some members is a sum over all of them, the others counting nothing. -/
theorem knownSum_filter (keep : α → Prop) [DecidablePred keep] :
    knownSum value (items.filter keep) =
      (items.map fun item => if keep item then (value item).getD 0 else 0).sum := by
  rw [knownSum_eq_sum]
  induction items with
  | nil => rfl
  | cons item items ih =>
    by_cases hkeep : keep item
    · rw [List.filter_cons_of_pos (by simpa using hkeep), List.map_cons, List.sum_cons, ih,
        List.map_cons, List.sum_cons, if_pos hkeep]
    · rw [List.filter_cons_of_neg (by simpa using hkeep), ih, List.map_cons, List.sum_cons,
        if_neg hkeep, zero_add]

end Sums

/-- The fees of an order are those of its fills, when all of them report both. -/
theorem knownTotal_feesUsd : ((knownTotal (·.commissionUsd) fills).bind fun commission =>
    (knownTotal (·.exchangeFeesUsd) fills).map (commission + ·)) = knownTotal (·.feesUsd) fills := by
  by_cases hcommission : ∀ fill ∈ fills, fill.commissionUsd.isSome
  · by_cases hexchange : ∀ fill ∈ fills, fill.exchangeFeesUsd.isSome
    · have hfees : ∀ fill ∈ fills, fill.feesUsd.isSome ∧
          fill.feesUsd.getD 0 = fill.commissionUsd.getD 0 + fill.exchangeFeesUsd.getD 0 := by
        intro fill hfill
        obtain ⟨commission, hc⟩ := Option.isSome_iff_exists.mp (hcommission fill hfill)
        obtain ⟨exchangeFees, he⟩ := Option.isSome_iff_exists.mp (hexchange fill hfill)
        simp [ExecutionFill.feesUsd, hc, he]
      have hsum : knownSum (·.feesUsd) fills =
          knownSum (·.commissionUsd) fills + knownSum (·.exchangeFeesUsd) fills := by
        rw [knownSum_eq_sum, knownSum_eq_sum, knownSum_eq_sum, ← List.sum_map_add]
        congr 1
        exact List.map_congr_left fun fill hfill => (hfees fill hfill).2
      unfold knownTotal
      rw [if_pos hcommission, if_pos hexchange, if_pos fun fill hfill => (hfees fill hfill).1, hsum]
      rfl
    · push Not at hexchange
      obtain ⟨fill, hfill, hnone⟩ := hexchange
      have hfees : fill.feesUsd = none := by
        simp only [Option.not_isSome_iff_eq_none] at hnone
        cases hc : fill.commissionUsd <;> simp [ExecutionFill.feesUsd, hc, hnone]
      have htotal : knownTotal (·.exchangeFeesUsd) fills = none :=
        knownTotal_eq_none_iff.mpr ⟨fill, hfill, by simpa using hnone⟩
      rw [knownTotal_eq_none_iff.mpr ⟨fill, hfill, hfees⟩, htotal]
      cases knownTotal (·.commissionUsd) fills <;> rfl
  · push Not at hcommission
    obtain ⟨fill, hfill, hnone⟩ := hcommission
    have hfees : fill.feesUsd = none := by
      simp only [Option.not_isSome_iff_eq_none] at hnone
      simp [ExecutionFill.feesUsd, hnone]
    rw [knownTotal_eq_none_iff.mpr ⟨fill, hfill, hfees⟩,
      knownTotal_eq_none_iff.mpr ⟨fill, hfill, by simpa using hnone⟩]
    rfl

/-- What a report says of an order. -/
structure CostOf (entries : List (String × OrderLedgerEntry)) (orderRef : String)
    (fills : List ExecutionFill) (cost : OrderExecutionCost) : Prop where
  orderRef_eq : cost.orderRef = orderRef
  shares : cost.shares = (fills.map (·.shares)).sum
  notional : cost.notionalUsd = (fills.map fun fill => fill.shares * fill.priceUsd).sum
  commission : cost.commissionUsd = knownTotal (·.commissionUsd) fills
  exchangeFees : cost.exchangeFeesUsd = knownTotal (·.exchangeFeesUsd) fills
  brokerFees : cost.reportedBrokerFeesUsd = knownTotal (·.feesUsd) fills
  slippage : cost.signedPriceSlippageBps ≠ none ∨ cost.signedPriceSlippageUsd ≠ none →
    ∃ entry, ledgerByRef entries orderRef = some entry ∧ entry.orderRef = orderRef

theorem orderCost_ok {cost : OrderExecutionCost} (h : orderCost entries orderRef fills = .ok cost) :
    CostOf entries orderRef fills cost := by
  have hslippage : ∀ f : ℚ → ℚ, (((quotedEntry (ledgerByRef entries orderRef) orderRef).bind
      (·.referencePrice)).filter (0 < ·)).map f ≠ none →
        ∃ entry, ledgerByRef entries orderRef = some entry ∧ entry.orderRef = orderRef := by
    intro f hsome
    cases hquoted : quotedEntry (ledgerByRef entries orderRef) orderRef with
    | none => simp [hquoted] at hsome
    | some entry =>
      obtain ⟨hentry, hsame⟩ := Option.filter_eq_some_iff.mp hquoted
      simp only [Bool.and_eq_true, decide_eq_true_eq] at hsame
      exact ⟨entry, hentry, hsame.1.symm⟩
  unfold orderCost at h
  split at h
  · cases h
  dsimp only at h
  split at h
  · cases h
  split at h
  · cases h
  split at h
  · cases h
  obtain rfl := Except.ok.inj h
  constructor
  · rfl
  · rfl
  · rfl
  · rfl
  · rfl
  · exact knownTotal_feesUsd
  · rintro (hbps | husd)
    · exact hslippage _ hbps
    · exact hslippage _ husd

section Report

variable {costs : List OrderExecutionCost}

/-- The orders of a report, one for each reference. -/
theorem analyzeExecutionCosts_ok (h : analyzeExecutionCosts fills entries = .ok costs) :
    List.Forall₂ (fun orderRef cost =>
        CostOf entries orderRef ((pomaFills fills).filter (·.orderRef = orderRef)) cost)
      (sortedKeys ExecutionFill.orderRef (pomaFills fills)) costs := by
  have hall := forall₂_of_mapM_ok h
  exact hall.imp fun orderRef cost hcost => orderCost_ok hcost

/-- What is a sum over the fills of each order is, over all orders, a sum over all fills. -/
theorem sum_costs (h : analyzeExecutionCosts fills entries = .ok costs)
    {amount : OrderExecutionCost → ℚ} {value : ExecutionFill → ℚ}
    (heach : ∀ orderRef cost,
      CostOf entries orderRef ((pomaFills fills).filter (·.orderRef = orderRef)) cost →
        amount cost = (((pomaFills fills).filter (·.orderRef = orderRef)).map value).sum) :
    (costs.map amount).sum = ((pomaFills fills).map value).sum := by
  have hall := analyzeExecutionCosts_ok h
  have hgroups : ((sortedKeys ExecutionFill.orderRef (pomaFills fills)).map fun orderRef =>
      (((pomaFills fills).filter (·.orderRef = orderRef)).map value).sum).sum =
        ((pomaFills fills).map value).sum := sum_sortedKeys value
  rw [← hgroups]
  clear hgroups h
  generalize sortedKeys ExecutionFill.orderRef (pomaFills fills) = keys at hall
  induction hall with
  | nil => rfl
  | cons hcost _ ih => rw [List.map_cons, List.sum_cons, List.map_cons, List.sum_cons, ih,
      heach _ _ hcost]

/-- A fee that is known for an order adds up over its fills, and one that is unknown is left out. -/
theorem knownSum_costs (h : analyzeExecutionCosts fills entries = .ok costs)
    {amount : OrderExecutionCost → Option ℚ} {value : ExecutionFill → Option ℚ}
    (heach : ∀ orderRef cost,
      CostOf entries orderRef ((pomaFills fills).filter (·.orderRef = orderRef)) cost →
        amount cost = knownTotal value ((pomaFills fills).filter (·.orderRef = orderRef))) :
    knownSum amount costs = knownSum value (reportedFills value (pomaFills fills)) := by
  unfold reportedFills
  rw [knownSum_eq_sum, knownSum_filter]
  apply sum_costs h
  intro orderRef cost hcost
  rw [heach orderRef cost hcost]
  generalize pomaFills fills = poma
  by_cases hknown : ∀ fill ∈ poma.filter (·.orderRef = orderRef), (value fill).isSome
  · unfold knownTotal
    rw [if_pos hknown, Option.getD_some, knownSum_eq_sum]
    congr 1
    apply List.map_congr_left
    intro fill hfill
    have horder : fill.orderRef = orderRef := by simpa using (List.mem_filter.mp hfill).2
    rw [if_pos]
    intro other hother hsame
    exact hknown other (List.mem_filter.mpr ⟨hother, by simp [hsame, horder]⟩)
  · unfold knownTotal
    rw [if_neg hknown, Option.getD_none]
    push Not at hknown
    obtain ⟨unreported, hmem, hnone⟩ := hknown
    obtain ⟨hin, horder⟩ := List.mem_filter.mp hmem
    symm
    apply List.sum_eq_zero
    intro x hx
    obtain ⟨fill, hfill, rfl⟩ := List.mem_map.mp hx
    apply if_neg
    intro hall
    have hsame : unreported.orderRef = fill.orderRef := by
      have hfillOrder := (List.mem_filter.mp hfill).2
      simp only [decide_eq_true_eq] at horder hfillOrder
      rw [horder, hfillOrder]
    exact hnone (hall unreported hin hsame)

theorem feesUsd_eq_none_iff {fill : ExecutionFill} : fill.feesUsd = none ↔
    fill.commissionUsd = none ∨ fill.exchangeFeesUsd = none := by
  unfold ExecutionFill.feesUsd
  cases fill.commissionUsd <;> simp

/-- The fees of an order are unknown exactly when a fill of it leaves one out. -/
theorem brokerFees_eq_none_iff (h : analyzeExecutionCosts fills entries = .ok costs)
    {cost : OrderExecutionCost} (hcost : cost ∈ costs) : cost.reportedBrokerFeesUsd = none ↔
      ∃ fill ∈ pomaFills fills, fill.orderRef = cost.orderRef ∧
        (fill.commissionUsd = none ∨ fill.exchangeFeesUsd = none) := by
  obtain ⟨orderRef, -, hof⟩ := exists_of_forall₂ (analyzeExecutionCosts_ok h) hcost
  rw [hof.brokerFees, knownTotal_eq_none_iff, hof.orderRef_eq]
  simp only [List.mem_filter, decide_eq_true_eq, feesUsd_eq_none_iff, and_assoc]

/-- Every order reference has one order of the report. -/
theorem orderRefs_eq (h : analyzeExecutionCosts fills entries = .ok costs) :
    costs.map (·.orderRef) = sortedKeys ExecutionFill.orderRef (pomaFills fills) := by
  have hall := analyzeExecutionCosts_ok h
  clear h
  generalize sortedKeys ExecutionFill.orderRef (pomaFills fills) = keys at hall
  induction hall with
  | nil => rfl
  | cons hcost _ ih => rw [List.map_cons, hcost.orderRef_eq, ih]

theorem accountsFor_of_ok (h : analyzeExecutionCosts fills entries = .ok costs) :
    AccountsFor entries fills costs where
  orders := orderRefs_eq h
  shares := sum_costs h fun _ _ hcost => hcost.shares
  notional := sum_costs h fun _ _ hcost => hcost.notional
  commissions := knownSum_costs h fun _ _ hcost => hcost.commission
  exchangeFees := knownSum_costs h fun _ _ hcost => hcost.exchangeFees
  brokerFees := knownSum_costs h fun _ _ hcost => hcost.brokerFees
  unknown _ hcost := brokerFees_eq_none_iff h hcost
  plans cost hcost := ⟨_, List.mem_map.mpr ⟨_, mem_sortedKeys.mpr ⟨cost, hcost, rfl⟩, rfl⟩⟩
  planUnknown := by
    intro plan summary hsummary
    obtain ⟨other, -, hpair⟩ := List.mem_map.mp hsummary
    obtain ⟨rfl, rfl⟩ := Prod.mk.inj hpair
    have hnone : (planCosts (costs.filter (·.pricingPlan = other))).reportedBrokerFeesUsd = none ↔
        ∃ cost ∈ costs.filter (·.pricingPlan = other), cost.reportedBrokerFeesUsd = none :=
      knownTotal_eq_none_iff
    rw [hnone]
    constructor
    · rintro ⟨cost, hmem, hunknown⟩
      obtain ⟨hcost, hplan⟩ := List.mem_filter.mp hmem
      exact ⟨cost, hcost, by simpa using hplan, (brokerFees_eq_none_iff h hcost).mp hunknown⟩
    · rintro ⟨cost, hcost, hplan, hfill⟩
      exact ⟨cost, List.mem_filter.mpr ⟨hcost, by simpa using hplan⟩,
        (brokerFees_eq_none_iff h hcost).mpr hfill⟩
  slippage := by
    intro cost hcost hslippage
    obtain ⟨orderRef, -, hof⟩ := exists_of_forall₂ (analyzeExecutionCosts_ok h) hcost
    rw [hof.orderRef_eq]
    exact hof.slippage hslippage

end Report

variable {textCase : TextCase} {fieldnames : List String} {rows : List ReportRow}

/-- A report that is read comes from the fills of its rows. -/
theorem executionReport_ok {costs : List OrderExecutionCost}
    (h : executionReport textCase fieldnames rows entries = .ok costs) :
    ∃ fills, readExecutionFills textCase fieldnames rows = .ok fills ∧
      analyzeExecutionCosts fills entries = .ok costs := by
  unfold executionReport at h
  cases hread : readExecutionFills textCase fieldnames rows with
  | error message =>
    rw [hread] at h
    cases h
  | ok fills =>
    rw [hread] at h
    exact ⟨fills, rfl, h⟩

theorem readExecutionFills_ok (h : readExecutionFills textCase fieldnames rows = .ok fills) :
    (∀ name ∈ requiredColumns, name ∈ fieldnames) ∧ readRows textCase 2 [] rows = .ok fills := by
  unfold readExecutionFills at h
  split at h
  · rename_i hcolumns
    exact ⟨hcolumns, h⟩
  · cases h

/-- A report that is read of some rows is read of the same rows in any order, however often one is
repeated. -/
theorem executionReport_same {rows' : List ReportRow} (hrows : ∀ row, row ∈ rows' ↔ row ∈ rows)
    {costs : List OrderExecutionCost}
    (h : executionReport textCase fieldnames rows entries = .ok costs) :
    executionReport textCase fieldnames rows' entries = .ok costs := by
  obtain ⟨fills, hread, hcosts⟩ := executionReport_ok h
  obtain ⟨hcolumns, hread⟩ := readExecutionFills_ok hread
  obtain ⟨hreadable, hagree⟩ := readRows_isOk_iff.mp ⟨fills, hread⟩
  have hreadable' : ∀ row ∈ rows', ∃ fill, readFill textCase row = .ok fill :=
    fun row hrow => hreadable row ((hrows row).mp hrow)
  have hagree' : ¬Conflicting textCase rows' := by
    rintro ⟨row, hrow, other, hother, hconflict⟩
    exact hagree ⟨row, (hrows row).mp hrow, other, (hrows other).mp hother, hconflict⟩
  obtain ⟨fills', hread'⟩ : ∃ fills', readRows textCase 2 [] rows' = .ok fills' :=
    readRows_isOk_iff.mpr ⟨hreadable', hagree'⟩
  have hperm := (fillsOf_readRows hread).perm (fillsOf_readRows hread') hrows
  unfold executionReport readExecutionFills
  rw [if_pos hcolumns, hread']
  exact (analyzeExecutionCosts_perm hperm).trans hcosts

/-- The audit of execution costs reads the rows as a set, raises over conflicting rows in any order
of them, conserves the fills and invents no fee. -/
theorem auditsFills (textCase : TextCase) (fieldnames : List String) (rows : List ReportRow)
    (entries : List (String × OrderLedgerEntry)) :
    AuditsFills textCase fieldnames rows entries := by
  constructor
  · intro rows' hrows
    cases h : executionReport textCase fieldnames rows entries with
    | ok costs => rw [executionReport_same hrows h]
    | error message =>
      cases h' : executionReport textCase fieldnames rows' entries with
      | error message' => rfl
      | ok costs =>
        rw [executionReport_same (fun row => (hrows row).symm) h'] at h
        cases h
  · rintro ⟨row, hrow, other, hother, hconflict⟩ rows' hrows
    cases h : executionReport textCase fieldnames rows' entries with
    | error message => exact ⟨message, rfl⟩
    | ok costs =>
      obtain ⟨fills, hread, -⟩ := executionReport_ok h
      obtain ⟨-, hagree⟩ := readRows_isOk_iff.mp ⟨fills, (readExecutionFills_ok hread).2⟩
      exact absurd ⟨row, (hrows row).mpr hrow, other, (hrows other).mpr hother, hconflict⟩ hagree
  · intro costs h
    obtain ⟨fills, hread, hcosts⟩ := executionReport_ok h
    exact ⟨fills, fillsOf_readRows (readExecutionFills_ok hread).2, accountsFor_of_ok hcosts⟩

/-- A row of a report, on one execution. -/
def boughtRow (side : String) : ReportRow :=
  [("execution_id", "0001f4e8"), ("order_ref", "poma:20240102T150405Z:0:VTI:BUY"), ("symbol", "VTI"),
    ("side", side), ("shares", "3"), ("price_usd", "100.10")]

/-- Two rows that differ may be read as one fill, and then nothing raises. -/
theorem boughtRow_twice : boughtRow "BOT" ≠ boughtRow "BUY" ∧
    column (boughtRow "BOT") ["execution_id"] = column (boughtRow "BUY") ["execution_id"] ∧
    (executionReport {} requiredColumns [boughtRow "BOT", boughtRow "BUY"] []).toOption.isSome =
      true := by
  decide +kernel

end Poma

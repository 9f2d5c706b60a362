import Mathlib.Algebra.BigOperators.Group.Finset.Basic
import Mathlib.Algebra.Order.BigOperators.Group.Finset
import Poma.Broker.IbkrQueries

/-!
# What executions prove

A permanent id collects the executions of an order. They prove that the order is
filled when every one of them agrees with it and the distinct ones make up its
whole quantity; nothing else in the history counts.
-/

namespace Poma

namespace Ibkr

/-- An execution on the exact permanent id of an order. -/
def OnOrder (entry : OrderLedgerEntry) (fill : IbFill) : Prop :=
  fill.permId = entry.permId ∧ ∃ permId, entry.permId = some permId ∧ 0 < permId

instance (entry : OrderLedgerEntry) (fill : IbFill) : Decidable (OnOrder entry fill) :=
  decidable_of_iff (fill.permId = entry.permId ∧ entry.permId.any (0 < ·)) (by
    simp [OnOrder, Option.any_eq_true])

/-- The distinct executions of an order. -/
def executionsOf (executions : List IbFill) (entry : OrderLedgerEntry) : Finset IbFill :=
  (executions.filter fun fill => OnOrder entry fill).toFinset

/-- The word an execution report has for a side. -/
def executedSide : OrderSide → String
  | .buy => "BOT"
  | .sell => "SLD"

/-- An execution that agrees with the order it is on, with its id and a price. -/
structure Agrees (settings : Settings) (entry : OrderLedgerEntry) (fill : IbFill) : Prop where
  symbol : settings.textCase.upper fill.symbol = settings.textCase.upper entry.ticker
  side : settings.textCase.upper fill.side = executedSide entry.side ∨
    settings.textCase.upper fill.side = entry.side.value
  account : ∀ account, settings.account? = some account → fill.account = account
  identified : fill.execId ≠ ""
  priced : 0 < fill.price

/-- The executions that prove a fill. -/
structure Proves (settings : Settings) (executions : List IbFill)
    (completed : List OpenOrderSnapshot) (entry : OrderLedgerEntry) : Prop where
  numbered : ∃ permId, entry.permId = some permId ∧ permId ≠ 0
  quantity : 0 < entry.quantity
  unreplaced : entry.replaceCount = 0
  unreserved : entry.reservedRef = none
  absent : ∀ snapshot ∈ completed, snapshot.orderRef ≠ some entry.orderRef
  executed : ∃ fill, fill ∈ executionsOf executions entry
  agrees : ∀ fill ∈ executionsOf executions entry, Agrees settings entry fill
  whole : |∑ fill ∈ executionsOf executions entry, fill.shares - entry.quantity| ≤ 1 / 1000000

/-- The snapshot of an order that is filled for exactly its quantity. -/
structure FilledSnapshot (executions : List IbFill) (entry : OrderLedgerEntry)
    (snapshot : OpenOrderSnapshot) : Prop where
  orderRef : snapshot.orderRef = some entry.orderRef
  orderId : snapshot.orderId = entry.orderId
  permId : snapshot.permId = entry.permId
  ticker : snapshot.ticker = entry.ticker
  side : snapshot.side = entry.side
  rawStatus : snapshot.rawStatus = "Filled"
  filled : snapshot.filled = entry.quantity
  remaining : snapshot.remaining = 0
  average : ∃ price, snapshot.avgFillPrice = some price ∧ 0 < ∑ fill ∈ executionsOf executions entry,
    fill.shares ∧ price * ∑ fill ∈ executionsOf executions entry, fill.shares =
      ∑ fill ∈ executionsOf executions entry, fill.shares * fill.price

section Unique

theorem uniqueFills_append_singleton (fills : List IbFill) (fill : IbFill) :
    uniqueFills (fills ++ [fill]) =
      if (uniqueFills fills).any (·.execId = fill.execId) then uniqueFills fills
      else uniqueFills fills ++ [fill] := by
  simp [uniqueFills, List.foldl_append]

theorem mem_of_mem_uniqueFills {fills : List IbFill} {fill : IbFill}
    (h : fill ∈ uniqueFills fills) : fill ∈ fills := by
  induction fills using List.reverseRecOn with
  | nil => exact h
  | append_singleton fills last ih =>
    rw [uniqueFills_append_singleton] at h
    split at h
    · exact List.mem_append_left _ (ih h)
    · rcases List.mem_append.mp h with h | h
      · exact List.mem_append_left _ (ih h)
      · exact List.mem_append_right _ h

/-- Every execution id is kept once. -/
theorem uniqueFills_nodup (fills : List IbFill) :
    ((uniqueFills fills).map (·.execId)).Nodup := by
  induction fills using List.reverseRecOn with
  | nil => exact List.nodup_nil
  | append_singleton fills last ih =>
    rw [uniqueFills_append_singleton]
    split
    · exact ih
    · rename_i hnew
      have hnotmem : last.execId ∉ (uniqueFills fills).map (·.execId) := by
        intro hmem
        obtain ⟨kept, hkept, hid⟩ := List.mem_map.mp hmem
        exact hnew (List.any_eq_true.mpr ⟨kept, hkept, by simpa using hid⟩)
      rw [List.map_append, List.nodup_append]
      refine ⟨ih, List.nodup_singleton _, ?_⟩
      intro id hid other hother hsame
      rw [List.map_singleton, List.mem_singleton] at hother
      exact hnotmem (hother ▸ hsame ▸ hid)

theorem exists_mem_uniqueFills {fills : List IbFill} {fill : IbFill} (h : fill ∈ fills) :
    ∃ kept ∈ uniqueFills fills, kept.execId = fill.execId := by
  induction fills using List.reverseRecOn with
  | nil => cases h
  | append_singleton fills last ih =>
    rw [uniqueFills_append_singleton]
    split
    · rename_i hknown
      rcases List.mem_append.mp h with h | h
      · exact ih h
      · rw [List.mem_singleton.mp h]
        obtain ⟨kept, hkept, hid⟩ := List.any_eq_true.mp hknown
        exact ⟨kept, hkept, by simpa using hid⟩
    · rcases List.mem_append.mp h with h | h
      · obtain ⟨kept, hkept, hid⟩ := ih h
        exact ⟨kept, List.mem_append_left _ hkept, hid⟩
      · exact ⟨last, List.mem_append_right _ (List.mem_singleton_self last),
          by rw [List.mem_singleton.mp h]⟩

/-- Where an id names one execution, the executions of distinct ids are the distinct executions. -/
theorem uniqueFills_toFinset {fills : List IbFill}
    (hids : ∀ fill ∈ fills, ∀ other ∈ fills, fill.execId = other.execId → fill = other) :
    (uniqueFills fills).toFinset = fills.toFinset := by
  ext fill
  rw [List.mem_toFinset, List.mem_toFinset]
  constructor
  · exact mem_of_mem_uniqueFills
  · intro hmem
    obtain ⟨kept, hkept, hid⟩ := exists_mem_uniqueFills hmem
    rw [← hids kept (mem_of_mem_uniqueFills hkept) fill hmem hid]
    exact hkept

/-- A sum over the executions of distinct ids is one over the distinct executions. -/
theorem sum_uniqueFills {fills : List IbFill} (value : IbFill → ℚ)
    (hids : ∀ fill ∈ fills, ∀ other ∈ fills, fill.execId = other.execId → fill = other) :
    ((uniqueFills fills).map value).sum = ∑ fill ∈ fills.toFinset, value fill := by
  have hnodup : (uniqueFills fills).Nodup := (uniqueFills_nodup fills).of_map _
  rw [← uniqueFills_toFinset hids, List.sum_toFinset _ hnodup]

end Unique

section Proof

variable {settings : Settings} {executions : List IbFill} {completed : List OpenOrderSnapshot}
  {entry : OrderLedgerEntry}

theorem mem_executionsOf {fill : IbFill} :
    fill ∈ executionsOf executions entry ↔ fill ∈ executions ∧ OnOrder entry fill := by
  simp [executionsOf]

/-- The executions the code collects under a permanent id are those on the order. -/
theorem filter_permId {permId : Int} (hpermId : entry.permId = some permId) :
    (executions.filter fun fill => optionalPositiveInt fill.permId = some permId) =
      executions.filter fun fill => OnOrder entry fill := by
  apply List.filter_congr
  intro fill _
  simp only [decide_eq_decide, optionalPositiveInt, Option.filter_eq_some_iff, OnOrder, hpermId]
  simp

/-- The snapshot of an order that its executions prove filled. -/
def provenSnapshot (fills : Finset IbFill) (entry : OrderLedgerEntry) : OpenOrderSnapshot where
  orderRef := some entry.orderRef
  orderId := entry.orderId
  permId := entry.permId
  ticker := entry.ticker
  side := entry.side
  rawStatus := "Filled"
  filled := entry.quantity
  remaining := 0
  avgFillPrice := some ((∑ fill ∈ fills, fill.shares * fill.price) / ∑ fill ∈ fills, fill.shares)

/-- An id that is there names one execution of the order. -/
def Named (fills : Finset IbFill) : Prop :=
  ∀ fill ∈ fills, ∀ other ∈ fills, fill.execId ≠ "" → fill.execId = other.execId → fill = other

theorem sum_uniqueFills_of_named (hnamed : Named (executionsOf executions entry))
    (hids : ∀ fill ∈ executionsOf executions entry, fill.execId ≠ "") (value : IbFill → ℚ) :
    ((uniqueFills (executions.filter fun fill => OnOrder entry fill)).map value).sum =
      ∑ fill ∈ executionsOf executions entry, value fill := by
  apply sum_uniqueFills
  intro fill hfill other hother hsame
  have hmem : fill ∈ executionsOf executions entry := List.mem_toFinset.mpr hfill
  exact hnamed fill hmem other (List.mem_toFinset.mpr hother) (hids fill hmem) hsame

/-- Every execution of the order has a positive price when every kept one has. -/
theorem forall_uniqueFills_of_named (hnamed : Named (executionsOf executions entry))
    (hids : ∀ fill ∈ executionsOf executions entry, fill.execId ≠ "") (p : IbFill → Prop) :
    (∀ fill ∈ uniqueFills (executions.filter fun fill => OnOrder entry fill), p fill) ↔
      ∀ fill ∈ executionsOf executions entry, p fill := by
  have hsame : (uniqueFills (executions.filter fun fill => OnOrder entry fill)).toFinset =
      executionsOf executions entry := by
    apply uniqueFills_toFinset
    intro fill hfill other hother hid
    have hmem : fill ∈ executionsOf executions entry := List.mem_toFinset.mpr hfill
    exact hnamed fill hmem other (List.mem_toFinset.mpr hother) (hids fill hmem) hid
  rw [← hsame]
  simp only [List.mem_toFinset]

/-- Whether an execution contradicts the identity of an order. -/
def contradicts (settings : Settings) (entry : OrderLedgerEntry) (fill : IbFill) : Bool :=
  settings.textCase.upper fill.symbol ≠ settings.textCase.upper entry.ticker ||
    settings.textCase.upper fill.side ∉ [executedSide entry.side, entry.side.value] ||
    settings.account?.any (fill.account ≠ ·)

theorem not_contradicts_iff {fill : IbFill} : contradicts settings entry fill = false ↔
    settings.textCase.upper fill.symbol = settings.textCase.upper entry.ticker ∧
      (settings.textCase.upper fill.side = executedSide entry.side ∨
        settings.textCase.upper fill.side = entry.side.value) ∧
      ∀ account, settings.account? = some account → fill.account = account := by
  unfold contradicts
  cases settings.account? <;> simp [and_assoc, or_iff_not_imp_left]

/-- The decision on an order that has a permanent id. -/
theorem executionProvenFill_of_permId {permId : Int} (hpermId : entry.permId = some permId)
    (hne : permId ≠ 0) {refs : List (Option String)} {fills : List IbFill}
    (hfills : executions.filter (fun fill => OnOrder entry fill) = fills) :
    executionProvenFill settings executions refs entry =
      if entry.replaceCount ≠ 0 ∨ entry.reservedRef.isSome ∨ some entry.orderRef ∈ refs ∨
          entry.quantity ≤ 0 ∨ fills = [] ∨ fills.any (contradicts settings entry) ∨
          fills.any (·.execId = "") ∨
          |((uniqueFills fills).map (·.shares)).sum - entry.quantity| > cashTolerance ∨
          (uniqueFills fills).any (·.price ≤ 0) then none
      else some {
        orderRef := some entry.orderRef
        orderId := entry.orderId
        permId := entry.permId
        ticker := entry.ticker
        side := entry.side
        rawStatus := "Filled"
        filled := entry.quantity
        remaining := 0
        avgFillPrice := some (((uniqueFills fills).map fun fill => fill.shares * fill.price).sum /
          ((uniqueFills fills).map (·.shares)).sum) } := by
  have hfilter : entry.permId.filter (· ≠ 0) = some permId := by
    rw [hpermId, Option.filter_some, if_pos (by simpa using hne)]
  unfold executionProvenFill
  simp only [hfilter]
  rw [filter_permId hpermId, hfills]
  cases hside : entry.side with
  | buy =>
    have hcontradicts : contradicts settings entry = fun fill =>
        settings.textCase.upper fill.symbol ≠ settings.textCase.upper entry.ticker ||
          settings.textCase.upper fill.side ∉ ["BOT", OrderSide.buy.value] ||
          settings.account?.any (fill.account ≠ ·) := by
      funext fill
      rw [contradicts, hside, executedSide]
    rw [hcontradicts]
  | sell =>
    have hcontradicts : contradicts settings entry = fun fill =>
        settings.textCase.upper fill.symbol ≠ settings.textCase.upper entry.ticker ||
          settings.textCase.upper fill.side ∉ ["SLD", OrderSide.sell.value] ||
          settings.account?.any (fill.account ≠ ·) := by
      funext fill
      rw [contradicts, hside, executedSide]
    rw [hcontradicts]

/-- The checks that pass an order are the conditions of a proof. -/
theorem proves_iff {permId : Int} (hpermId : entry.permId = some permId) (hne : permId ≠ 0)
    (hnamed : Named (executionsOf executions entry)) {fills : List IbFill}
    (hfills : executions.filter (fun fill => OnOrder entry fill) = fills) :
    Proves settings executions completed entry ↔
      entry.replaceCount = 0 ∧ entry.reservedRef = none ∧
        some entry.orderRef ∉ completed.map (·.orderRef) ∧ 0 < entry.quantity ∧ fills ≠ [] ∧
        (∀ fill ∈ fills, contradicts settings entry fill = false) ∧
        (∀ fill ∈ fills, fill.execId ≠ "") ∧
        |((uniqueFills fills).map (·.shares)).sum - entry.quantity| ≤ cashTolerance ∧
        ∀ fill ∈ uniqueFills fills, 0 < fill.price := by
  have hmem (fill : IbFill) : fill ∈ fills ↔ fill ∈ executionsOf executions entry := by
    rw [← hfills, executionsOf, List.mem_toFinset]
  have habsent : some entry.orderRef ∉ completed.map (·.orderRef) ↔
      ∀ snapshot ∈ completed, snapshot.orderRef ≠ some entry.orderRef := by
    simp [List.mem_map]
  rw [habsent]
  constructor
  · intro hproves
    have hids : ∀ fill ∈ executionsOf executions entry, fill.execId ≠ "" :=
      fun fill hfill => (hproves.agrees fill hfill).identified
    refine ⟨hproves.unreplaced, hproves.unreserved, hproves.absent, hproves.quantity, ?_, ?_, ?_,
      ?_, ?_⟩
    · obtain ⟨fill, hfill⟩ := hproves.executed
      exact List.ne_nil_of_mem ((hmem fill).mpr hfill)
    · intro fill hfill
      have hagrees := hproves.agrees fill ((hmem fill).mp hfill)
      exact not_contradicts_iff.mpr ⟨hagrees.symbol, hagrees.side, hagrees.account⟩
    · exact fun fill hfill => hids fill ((hmem fill).mp hfill)
    · have hsum := sum_uniqueFills_of_named hnamed hids (·.shares)
      rw [hfills] at hsum
      rw [hsum]
      exact hproves.whole
    · have hprices := forall_uniqueFills_of_named hnamed hids (0 < ·.price)
      rw [hfills] at hprices
      exact hprices.mpr fun fill hfill => (hproves.agrees fill hfill).priced
  · rintro ⟨hunreplaced, hunreserved, habsent, hquantity, hexecuted, hagrees, hids, hwhole, hprices⟩
    have hnamedIds : ∀ fill ∈ executionsOf executions entry, fill.execId ≠ "" :=
      fun fill hfill => hids fill ((hmem fill).mpr hfill)
    have hpriced := forall_uniqueFills_of_named hnamed hnamedIds (0 < ·.price)
    have hsum := sum_uniqueFills_of_named hnamed hnamedIds (·.shares)
    rw [hfills] at hpriced hsum
    constructor
    · exact ⟨permId, hpermId, hne⟩
    · exact hquantity
    · exact hunreplaced
    · exact hunreserved
    · exact habsent
    · obtain ⟨fill, hfill⟩ := List.exists_mem_of_ne_nil fills hexecuted
      exact ⟨fill, (hmem fill).mp hfill⟩
    · intro fill hfill
      obtain ⟨hsymbol, hside, haccount⟩ :=
        not_contradicts_iff.mp (hagrees fill ((hmem fill).mpr hfill))
      exact ⟨hsymbol, hside, haccount, hnamedIds fill hfill, hpriced.mp hprices fill hfill⟩
    · rw [← hsum]
      exact hwhole

theorem blocked_iff {permId : Int} (hpermId : entry.permId = some permId) (hne : permId ≠ 0)
    (hnamed : Named (executionsOf executions entry)) {fills : List IbFill}
    (hfills : executions.filter (fun fill => OnOrder entry fill) = fills) :
    (entry.replaceCount ≠ 0 ∨ entry.reservedRef.isSome ∨
      some entry.orderRef ∈ completed.map (·.orderRef) ∨ entry.quantity ≤ 0 ∨ fills = [] ∨
      fills.any (contradicts settings entry) ∨ fills.any (·.execId = "") ∨
      |((uniqueFills fills).map (·.shares)).sum - entry.quantity| > cashTolerance ∨
      (uniqueFills fills).any (·.price ≤ 0)) ↔ ¬Proves settings executions completed entry := by
  rw [proves_iff hpermId hne hnamed hfills, ← not_iff_not, not_not]
  simp only [not_or, ne_eq, not_not, not_le, gt_iff_lt, not_lt, Bool.not_eq_true,
    Option.isSome_eq_false_iff, Option.isNone_iff_eq_none, List.any_eq_false, decide_eq_true_eq]

/-- An order is proven filled by the executions on it, or not at all. -/
theorem executionProvenFill_eq_some_iff (hnamed : Named (executionsOf executions entry))
    (snapshot : OpenOrderSnapshot) :
    executionProvenFill settings executions (completed.map (·.orderRef)) entry = some snapshot ↔
      Proves settings executions completed entry ∧
        snapshot = provenSnapshot (executionsOf executions entry) entry := by
  cases hpermId : entry.permId.filter (· ≠ 0) with
  | none =>
    have hnone : executionProvenFill settings executions (completed.map (·.orderRef)) entry =
        none := by
      unfold executionProvenFill
      simp only [hpermId]
    rw [hnone]
    constructor
    · intro h
      cases h
    · rintro ⟨hproves, -⟩
      obtain ⟨permId, hsome, hne⟩ := hproves.numbered
      rw [hsome, Option.filter_some, if_pos (by simpa using hne)] at hpermId
      cases hpermId
  | some permId =>
    obtain ⟨hsome, hne⟩ := Option.filter_eq_some_iff.mp hpermId
    have hne : permId ≠ 0 := by simpa using hne
    rw [executionProvenFill_of_permId hsome hne rfl]
    by_cases hproves : Proves settings executions completed entry
    · have hids : ∀ fill ∈ executionsOf executions entry, fill.execId ≠ "" :=
        fun fill hfill => (hproves.agrees fill hfill).identified
      rw [if_neg fun h => (blocked_iff hsome hne hnamed rfl).mp h hproves, sum_uniqueFills_of_named hnamed hids,
        sum_uniqueFills_of_named hnamed hids]
      constructor
      · intro h
        exact ⟨hproves, (Option.some.inj h).symm⟩
      · rintro ⟨-, rfl⟩
        rfl
    · rw [if_pos ((blocked_iff hsome hne hnamed rfl).mpr hproves)]
      simp [hproves]

/-- The proven snapshot says filled for the quantity, at the average price over the shares. -/
theorem filledSnapshot_proven (hshares : ∀ fill ∈ executionsOf executions entry, 0 < fill.shares)
    (hproves : Proves settings executions completed entry) :
    FilledSnapshot executions entry (provenSnapshot (executionsOf executions entry) entry) := by
  have hpos : 0 < ∑ fill ∈ executionsOf executions entry, fill.shares :=
    Finset.sum_pos hshares hproves.executed
  constructor
  case average => exact ⟨_, rfl, hpos, div_mul_cancel₀ _ hpos.ne'⟩
  all_goals rfl

/-- What does not change the executions of an order does not change what they prove. -/
theorem executionProvenFill_congr {others : List IbFill}
    (hnamed : Named (executionsOf executions entry))
    (hsame : executionsOf others entry = executionsOf executions entry) :
    executionProvenFill settings others (completed.map (·.orderRef)) entry =
      executionProvenFill settings executions (completed.map (·.orderRef)) entry := by
  have hproves : Proves settings others completed entry ↔
      Proves settings executions completed entry := by
    constructor
    · rintro ⟨h1, h2, h3, h4, h5, h6, h7, h8⟩
      exact ⟨h1, h2, h3, h4, h5, hsame ▸ h6, hsame ▸ h7, hsame ▸ h8⟩
    · rintro ⟨h1, h2, h3, h4, h5, h6, h7, h8⟩
      exact ⟨h1, h2, h3, h4, h5, hsame.symm ▸ h6, hsame.symm ▸ h7, hsame.symm ▸ h8⟩
  ext snapshot
  rw [executionProvenFill_eq_some_iff hnamed,
    executionProvenFill_eq_some_iff (hsame ▸ hnamed), hproves, hsame]

end Proof

open Classical in
/-- Exactly the orders that their executions prove filled get a snapshot, in order and one each, and
nothing but the set of the executions on their permanent ids counts. -/
theorem executionProvenFills_spec (settings : Settings) (unresolved : List OrderLedgerEntry)
    (executions : List IbFill) (completed : List OpenOrderSnapshot)
    (hshares : ∀ fill ∈ executions, 0 < fill.shares)
    (hids : ∀ fill ∈ executions, ∀ other ∈ executions,
      fill.execId ≠ "" → fill.execId = other.execId → fill = other) :
    List.Forall₂ (FilledSnapshot executions)
      (unresolved.filter fun entry => Proves settings executions completed entry)
      (executionProvenFills settings unresolved executions completed) ∧
    ∀ others : List IbFill,
      (∀ entry ∈ unresolved, ∀ fill, OnOrder entry fill → (fill ∈ others ↔ fill ∈ executions)) →
      executionProvenFills settings unresolved others completed =
        executionProvenFills settings unresolved executions completed := by
  have hnamed (entry : OrderLedgerEntry) : Named (executionsOf executions entry) := by
    intro fill hfill other hother
    exact hids fill (mem_executionsOf.mp hfill).1 other (mem_executionsOf.mp hother).1
  constructor
  · unfold executionProvenFills
    induction unresolved with
    | nil => exact .nil
    | cons entry unresolved ih =>
      by_cases hproves : Proves settings executions completed entry
      · have hsome := (executionProvenFill_eq_some_iff (hnamed entry) _).mpr ⟨hproves, rfl⟩
        rw [List.filterMap_cons_some hsome, List.filter_cons_of_pos (by simpa using hproves)]
        apply List.Forall₂.cons _ ih
        apply filledSnapshot_proven _ hproves
        exact fun fill hfill => hshares fill (mem_executionsOf.mp hfill).1
      · have hnone : executionProvenFill settings executions (completed.map (·.orderRef)) entry =
            none := by
          rw [Option.eq_none_iff_forall_ne_some]
          intro snapshot hsome
          exact hproves ((executionProvenFill_eq_some_iff (hnamed entry) _).mp hsome).1
        rw [List.filterMap_cons_none hnone, List.filter_cons_of_neg (by simpa using hproves)]
        exact ih
  · intro others hothers
    apply List.filterMap_congr
    intro entry hentry
    apply executionProvenFill_congr (hnamed entry)
    ext fill
    rw [mem_executionsOf, mem_executionsOf]
    constructor
    · rintro ⟨hmem, hon⟩
      exact ⟨(hothers entry hentry fill hon).mp hmem, hon⟩
    · rintro ⟨hmem, hon⟩
      exact ⟨(hothers entry hentry fill hon).mpr hmem, hon⟩

/-- An order for ten shares that the broker numbered. -/
def buyTen : OrderLedgerEntry where
  ledgerKey := "poma:r:0:A:BUY"
  orderRef := "poma:r:0:A:BUY"
  runId := "r"
  sessionDate := ""
  ticker := "A"
  side := .buy
  quantity := 10
  limitPrice := some 100
  permId := some 7

/-- An execution of the order for ten shares. -/
def executed (execId : String) (shares price : ℚ) : IbFill :=
  ⟨some 7, execId, "A", "BOT", "", shares, price⟩

open Classical in
theorem executionProvenFills_spec_repeated :
    List.Forall₂ (FilledSnapshot [executed "a" 6 100, executed "b" 4 101, executed "a" 6 100])
      ([buyTen].filter fun entry => Proves .onPaper
        [executed "a" 6 100, executed "b" 4 101, executed "a" 6 100] [] entry)
      (executionProvenFills .onPaper [buyTen]
        [executed "a" 6 100, executed "b" 4 101, executed "a" 6 100] []) ∧
    ∀ others : List IbFill,
      (∀ entry ∈ [buyTen], ∀ fill, OnOrder entry fill → (fill ∈ others ↔
        fill ∈ [executed "a" 6 100, executed "b" 4 101, executed "a" 6 100])) →
      executionProvenFills .onPaper [buyTen] others [] = executionProvenFills .onPaper [buyTen]
        [executed "a" 6 100, executed "b" 4 101, executed "a" 6 100] [] :=
  executionProvenFills_spec .onPaper [buyTen]
    [executed "a" 6 100, executed "b" 4 101, executed "a" 6 100] []
    (by decide +kernel) (by decide +kernel)

example : (executionProvenFills .onPaper [buyTen]
    [executed "a" 6 100, executed "b" 4 101, executed "a" 6 100] []).map (·.avgFillPrice) =
    [some (502 / 5)] := by
  decide +kernel

end Ibkr

end Poma

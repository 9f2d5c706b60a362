import Mathlib.Algebra.BigOperators.Ring.List
import Poma.Engine.Portfolio

/-!
# Capital from the configuration to the targets

Allocations that are accepted make sleeves that add up to the portfolio, up to
the tolerance of their check. Books within their sleeves combine to positions
that add up to no more. The check of the weights has the same tolerance; the
check of the notionals has an absolute one and can block what was accepted.
-/

namespace Poma

/-- What a sleeve targets altogether. -/
def StrategyTargetBook.total (book : StrategyTargetBook) : ℚ :=
  (book.targets.map (·.targetNotional)).sum

/-- Books of some sleeves of a plan, one each, within the capital of the sleeve. -/
def FromSleeves (plan : PortfolioCapitalPlan) (books : List StrategyTargetBook) : Prop :=
  ∃ sleeves : List StrategyCapital, sleeves.Subperm plan.tradeableSleeves ∧
    List.Forall₂ (fun sleeve book => StrategyTargetBook.total book ≤ sleeve.capitalUsd) sleeves books

/-- The combined targets conserve the capital of the plan, and no check of the whole blocks them. -/
structure ConservesCapital (plan : PortfolioCapitalPlan) (books : List StrategyTargetBook) :
    Prop where
  once : ((combineStrategyTargetBooks books plan.portfolioValueUsd).1.map (·.ticker)).Nodup
  targeted : ∀ ticker,
    ticker ∈ (combineStrategyTargetBooks books plan.portfolioValueUsd).1.map (·.ticker) ↔
      ∃ book ∈ books, ∃ target ∈ book.targets, target.ticker = ticker
  notional : ∀ position ∈ (combineStrategyTargetBooks books plan.portfolioValueUsd).1,
    position.targetNotional = (books.map fun book =>
      ((book.targets.filter (·.ticker = position.ticker)).map (·.targetNotional)).sum).sum
  weight : ∀ position ∈ (combineStrategyTargetBooks books plan.portfolioValueUsd).1,
    position.targetWeight = position.targetNotional / plan.portfolioValueUsd
  within : ((combineStrategyTargetBooks books plan.portfolioValueUsd).1.map (·.targetNotional)).sum +
    plan.cashSleeveUsd ≤ plan.portfolioValueUsd * (1000001 / 1000000)
  unblocked : (combineStrategyTargetBooks books plan.portfolioValueUsd).2 =
    (targetedTickers books).filterMap (overlapWarning books)
  accepted : ∀ maxPositionPct exemptTickers, ∀ warning ∈ validateTargets
    ((combineStrategyTargetBooks books plan.portfolioValueUsd).1.map (·.toTargetPosition))
    maxPositionPct exemptTickers, containsText warning "exceed 100%" = false

section Plan

variable {allocations : List (String × Reported)} {cleaned : List (String × ℚ)}

/-- Every accepted percentage is one of a whole. -/
theorem cleanAllocations_bounds : ∀ {taken : List (String × ℚ)},
    (∀ item ∈ taken, 0 ≤ item.2 ∧ item.2 ≤ 1) →
    cleanAllocations allocations taken = .ok cleaned → ∀ item ∈ cleaned, 0 ≤ item.2 ∧ item.2 ≤ 1 := by
  induction allocations with
  | nil =>
    intro taken htaken h
    cases h
    exact htaken
  | cons first rest ih =>
    intro taken htaken h
    obtain ⟨rawName, rawPct⟩ := first
    unfold cleanAllocations at h
    dsimp only at h
    split at h
    · cases h
    split at h
    · cases h
    split at h
    · split at h
      · cases h
      · rename_i pct hbounds
        rw [not_or, not_lt, not_lt] at hbounds
        apply ih _ h
        intro item hitem
        rcases List.mem_append.mp hitem with hitem | hitem
        · exact htaken item hitem
        · rw [List.mem_singleton.mp hitem]
          exact hbounds
    · cases h

/-- What an accepted allocation map promises. -/
theorem validateAllocations_spec (h : validateAllocations allocations = .ok cleaned) :
    (∀ item ∈ cleaned, 0 ≤ item.2) ∧ (cleaned.map (·.2)).sum ≤ 1000001 / 1000000 := by
  unfold validateAllocations at h
  cases hcleaned : cleanAllocations allocations [] with
  | error message =>
    rw [hcleaned] at h
    cases h
  | ok items =>
    rw [hcleaned] at h
    simp only [Except.bind] at h
    split at h
    · cases h
    split at h
    · cases h
    · rename_i htotal
      cases h
      refine ⟨fun item hitem => ?_, not_lt.mp htotal⟩
      exact (cleanAllocations_bounds (List.forall_mem_nil _) hcleaned item hitem).1

variable {plan : PortfolioCapitalPlan} {value : ℚ}

/-- The sleeves of a plan share its value within the tolerance of the allocations. -/
theorem buildStrategyCapitalPlan_spec (hvalue : 0 < value)
    (h : buildStrategyCapitalPlan (.finite value) allocations = .ok plan) :
    plan.portfolioValueUsd = value ∧ (∀ sleeve ∈ plan.allocations, 0 ≤ sleeve.capitalUsd) ∧
      (plan.allocations.map (·.capitalUsd)).sum ≤ value * (1000001 / 1000000) := by
  unfold buildStrategyCapitalPlan at h
  dsimp only at h
  rw [if_neg (not_le.mpr hvalue)] at h
  cases hcleaned : validateAllocations allocations with
  | error message =>
    rw [hcleaned] at h
    cases h
  | ok cleaned =>
    rw [hcleaned] at h
    cases h
    obtain ⟨hbounds, htotal⟩ := validateAllocations_spec hcleaned
    refine ⟨rfl, ?_, ?_⟩
    · intro sleeve hsleeve
      obtain ⟨item, hitem, rfl⟩ := List.mem_map.mp hsleeve
      exact mul_nonneg hvalue.le (hbounds item hitem)
    · have hsum : ((cleaned.map fun item => (⟨item.1, item.2, value * item.2⟩ : StrategyCapital)).map
          (·.capitalUsd)).sum = value * (cleaned.map (·.2)).sum := by
        rw [List.map_map, ← List.sum_map_mul_left]
        rfl
      exact hsum.trans_le (mul_le_mul_of_nonneg_left htotal hvalue.le)

/-- A sublist of the sleeves has no more capital. -/
theorem sum_capital_le {sleeves others : List StrategyCapital} (hsub : others.Sublist sleeves)
    (hnonneg : ∀ sleeve ∈ sleeves, 0 ≤ sleeve.capitalUsd) :
    (others.map (·.capitalUsd)).sum ≤ (sleeves.map (·.capitalUsd)).sum := by
  apply (hsub.map _).sum_le_sum
  intro x hx
  obtain ⟨sleeve, hsleeve, rfl⟩ := List.mem_map.mp hx
  exact hnonneg sleeve hsleeve

/-- What can be traded and the cash are within the sleeves. -/
theorem tradeable_add_cash_le {sleeves : List StrategyCapital}
    (hnonneg : ∀ sleeve ∈ sleeves, 0 ≤ sleeve.capitalUsd) :
    ((sleeves.filter fun sleeve => sleeve.name ≠ cashStrategyName && 0 < sleeve.capitalUsd).map
      (·.capitalUsd)).sum +
        ((sleeves.find? (·.name = cashStrategyName)).map (·.capitalUsd)).getD 0 ≤
      (sleeves.map (·.capitalUsd)).sum := by
  induction sleeves with
  | nil => simp
  | cons sleeve rest ih =>
    have hsleeve := hnonneg sleeve List.mem_cons_self
    have hrest : ∀ other ∈ rest, 0 ≤ other.capitalUsd :=
      fun other hother => hnonneg other (List.mem_cons_of_mem _ hother)
    rw [List.map_cons, List.sum_cons]
    by_cases hcash : sleeve.name = cashStrategyName
    · have hsub := sum_capital_le (List.filter_sublist (p := fun other : StrategyCapital =>
        other.name ≠ cashStrategyName && 0 < other.capitalUsd)) hrest
      simp only [List.filter_cons, List.find?_cons, hcash, ne_eq, not_true_eq_false, decide_false,
        Bool.false_and, Bool.false_eq_true, ite_false, decide_true, Option.map_some,
        Option.getD_some]
      simp only [ne_eq] at hsub
      linarith
    · have hih := ih hrest
      rw [List.find?_cons_of_neg (by simpa using hcash)]
      by_cases hpos : 0 < sleeve.capitalUsd
      · rw [List.filter_cons_of_pos (by simp [hcash, hpos]), List.map_cons, List.sum_cons]
        linarith
      · rw [List.filter_cons_of_neg (by simp [hpos])]
        linarith

end Plan

section Combined

variable (books : List StrategyTargetBook) (value : ℚ)

@[simp] theorem combined_tickers :
    (combineStrategyTargetBooks books value).1.map (·.ticker) = targetedTickers books := by
  unfold combineStrategyTargetBooks
  dsimp only
  rw [List.map_map]
  exact List.map_id _

/-- The combined notionals are those of the books. -/
theorem combined_total :
    ((combineStrategyTargetBooks books value).1.map (·.targetNotional)).sum =
      (books.map StrategyTargetBook.total).sum := by
  have hbooks : ((books.flatMap (·.targets)).map (·.targetNotional)).sum =
      (books.map StrategyTargetBook.total).sum := by
    induction books with
    | nil => rfl
    | cons book books ih =>
      rw [List.flatMap_cons, List.map_append, List.sum_append, ih, List.map_cons, List.sum_cons]
      rfl
  have hgroups : ((sortedKeys StrategyTarget.ticker (books.flatMap (·.targets))).map fun ticker =>
      (((books.flatMap (·.targets)).filter (·.ticker = ticker)).map (·.targetNotional)).sum).sum =
        ((books.flatMap (·.targets)).map (·.targetNotional)).sum := sum_sortedKeys _
  rw [← hbooks, ← hgroups]
  unfold combineStrategyTargetBooks
  dsimp only
  rw [List.map_map]
  rfl

/-- A position's notional is what the books put on its ticker. -/
theorem contributionsTo_sum (ticker : String) :
    ((contributionsTo books ticker).map (·.targetNotional)).sum = (books.map fun book =>
      ((book.targets.filter (·.ticker = ticker)).map (·.targetNotional)).sum).sum := by
  unfold contributionsTo
  induction books with
  | nil => rfl
  | cons book books ih =>
    rw [List.flatMap_cons, List.filter_append, List.map_append, List.sum_append, ih, List.map_cons,
      List.sum_cons]

/-- The combined weights add up to the share of the notionals. -/
theorem combined_weights (hvalue : value ≠ 0) :
    Reported.sum (((combineStrategyTargetBooks books value).1.map (·.toTargetPosition)).map
      (·.targetWeight)) = .finite ((books.map StrategyTargetBook.total).sum / value) := by
  have hweights : ((combineStrategyTargetBooks books value).1.map (·.toTargetPosition)).map
      (·.targetWeight) = (((combineStrategyTargetBooks books value).1.map (·.targetNotional)).map
        (· / value)).map .finite := by
    rw [List.map_map, List.map_map, List.map_map]
    apply List.map_congr_left
    intro position hposition
    unfold combineStrategyTargetBooks at hposition
    obtain ⟨ticker, -, rfl⟩ := List.mem_map.mp hposition
    simp [combinedPosition, CombinedTargetPosition.toTargetPosition, hvalue]
  have hdiv (xs : List ℚ) : (xs.map (· / value)).sum = xs.sum / value := by
    induction xs with
    | nil => simp
    | cons x xs ih => rw [List.map_cons, List.sum_cons, List.sum_cons, ih, add_div]
  rw [hweights, Reported.sum_finite, hdiv, combined_total]

/-- What the check of the notionals adds to the warnings. -/
theorem combine_warnings_iff (hvalue : value ≠ 0) :
    (combineStrategyTargetBooks books value).2 =
        (targetedTickers books).filterMap (overlapWarning books) ↔
      (books.map StrategyTargetBook.total).sum ≤ value + 1 / 1000000 := by
  have htotal := combined_total books value
  unfold combineStrategyTargetBooks at htotal ⊢
  dsimp only at htotal ⊢
  rw [htotal]
  by_cases hexceeds : (books.map StrategyTargetBook.total).sum > value + 1 / 1000000
  · rw [if_pos ⟨hvalue, hexceeds⟩]
    constructor
    · intro hsame
      simp at hsame
    · exact fun hwithin => absurd hexceeds (not_lt.mpr hwithin)
  · rw [if_neg fun h => hexceeds h.2, List.append_nil]
    exact iff_of_true rfl (not_lt.mp hexceeds)

/-- Weights of a whole, or less, are not warned of as more than one. -/
theorem validateTargets_accepted {targets : List TargetPosition} {total : ℚ}
    (hsum : Reported.sum (targets.map (·.targetWeight)) = .finite total)
    (htotal : total ≤ 1000001 / 1000000) (maxPositionPct : ℚ) (exemptTickers : List String) :
    ∀ warning ∈ validateTargets targets maxPositionPct exemptTickers,
      containsText warning "exceed 100%" = false := by
  have hbelow : ¬(1000001 / 1000000 : ℚ) < total := not_lt.mpr htotal
  unfold validateTargets
  rw [hsum]
  simp only [Reported.lt_finite, decide_eq_true_eq, hbelow, ite_false, List.nil_append]
  intro warning hwarning
  rcases List.mem_append.mp hwarning with hwarning | hwarning
  · split at hwarning
    · rw [List.mem_singleton.mp hwarning]
      decide +kernel
    · cases hwarning
  · split at hwarning
    · rw [List.mem_singleton.mp hwarning]
      decide +kernel
    · cases hwarning

end Combined

theorem total_le_of_forall₂ {sleeves : List StrategyCapital} {books : List StrategyTargetBook}
    (h : List.Forall₂ (fun sleeve book => StrategyTargetBook.total book ≤ sleeve.capitalUsd) sleeves
      books) : (books.map StrategyTargetBook.total).sum ≤ (sleeves.map (·.capitalUsd)).sum := by
  induction h with
  | nil => exact le_refl _
  | cons hbook _ ih =>
    rw [List.map_cons, List.map_cons, List.sum_cons, List.sum_cons]
    exact add_le_add hbook ih

/-- Books of the sleeves of a plan target no more than can be traded. -/
theorem FromSleeves.total_le {plan : PortfolioCapitalPlan} {books : List StrategyTargetBook}
    (h : FromSleeves plan books) :
    (books.map StrategyTargetBook.total).sum ≤
      (plan.tradeableSleeves.map (·.capitalUsd)).sum := by
  obtain ⟨sleeves, ⟨others, hperm, hsub⟩, hbooks⟩ := h
  have hnonneg : ∀ sleeve ∈ plan.tradeableSleeves, 0 ≤ sleeve.capitalUsd := by
    intro sleeve hsleeve
    have hchecks := (List.mem_filter.mp hsleeve).2
    rw [Bool.and_eq_true, decide_eq_true_eq, decide_eq_true_eq] at hchecks
    exact hchecks.2.le
  calc (books.map StrategyTargetBook.total).sum
    _ ≤ (sleeves.map (·.capitalUsd)).sum := total_le_of_forall₂ hbooks
    _ = (others.map (·.capitalUsd)).sum := ((hperm.map _).sum_eq).symm
    _ ≤ (plan.tradeableSleeves.map (·.capitalUsd)).sum := sum_capital_le hsub hnonneg

section Conserved

variable {allocations : List (String × Reported)} {value : ℚ} {plan : PortfolioCapitalPlan}

/-- Books within their sleeves conserve the capital exactly when the check of the notionals lets
them pass: every other part of it always holds. -/
theorem conservesCapital_of_total (hvalue : 0 < value)
    (hplan : buildStrategyCapitalPlan (.finite value) allocations = .ok plan)
    {books : List StrategyTargetBook} (hbooks : FromSleeves plan books) :
    ConservesCapital plan books ↔
      (books.map StrategyTargetBook.total).sum ≤ value + 1 / 1000000 := by
  obtain ⟨rfl, hnonneg, htotal⟩ := buildStrategyCapitalPlan_spec hvalue hplan
  have hshares := tradeable_add_cash_le hnonneg
  have hwithin : (books.map StrategyTargetBook.total).sum + plan.cashSleeveUsd ≤
      plan.portfolioValueUsd * (1000001 / 1000000) :=
    (add_le_add_left hbooks.total_le _).trans (hshares.trans htotal)
  have hcash : 0 ≤ plan.cashSleeveUsd := by
    unfold PortfolioCapitalPlan.cashSleeveUsd
    cases hfind : plan.allocations.find? (·.name = cashStrategyName) with
    | none => exact le_refl _
    | some sleeve => exact hnonneg sleeve (List.mem_of_find?_eq_some hfind)
  rw [← combine_warnings_iff books _ hvalue.ne']
  constructor
  · exact ConservesCapital.unblocked
  · intro hunblocked
    constructor
    case once =>
      rw [combined_tickers]
      exact nodup_sortedKeys
    case targeted =>
      intro ticker
      rw [combined_tickers, targetedTickers, mem_sortedKeys]
      simp only [List.mem_flatMap]
      constructor
      · rintro ⟨target, ⟨book, hbook, htarget⟩, hticker⟩
        exact ⟨book, hbook, target, htarget, hticker⟩
      · rintro ⟨book, hbook, target, htarget, hticker⟩
        exact ⟨target, ⟨book, hbook, htarget⟩, hticker⟩
    case notional =>
      intro position hposition
      obtain ⟨ticker, -, rfl⟩ := List.mem_map.mp hposition
      exact contributionsTo_sum books ticker
    case weight =>
      intro position hposition
      obtain ⟨ticker, -, rfl⟩ := List.mem_map.mp hposition
      exact if_neg hvalue.ne'
    case within =>
      rw [combined_total]
      exact hwithin
    case unblocked => exact hunblocked
    case accepted =>
      apply validateTargets_accepted (combined_weights books _ hvalue.ne')
      rw [div_le_iff₀ hvalue, mul_comm]
      linarith

/-- A book that targets all the capital of a sleeve. -/
def fullBook (sleeve : StrategyCapital) : StrategyTargetBook where
  strategyName := sleeve.name
  targets := [⟨sleeve.name, sleeve.name, 1, sleeve.allocationPct, sleeve.capitalUsd⟩]

theorem fullBook_total (sleeve : StrategyCapital) : (fullBook sleeve).total = sleeve.capitalUsd :=
  List.sum_singleton

/-- Full books of all the sleeves that can be traded. -/
theorem fromSleeves_full (plan : PortfolioCapitalPlan) :
    FromSleeves plan (plan.tradeableSleeves.map fullBook) := by
  refine ⟨plan.tradeableSleeves, List.Subperm.refl _, ?_⟩
  rw [List.forall₂_map_right_iff, List.forall₂_same]
  exact fun sleeve _ => (fullBook_total sleeve).le

/-- An accepted allocation conserves the capital of every set of books exactly when its sleeves
exceed the portfolio by no more than the check of the notionals allows. -/
theorem conservesCapital_iff (hvalue : 0 < value)
    (hplan : buildStrategyCapitalPlan (.finite value) allocations = .ok plan) :
    (∀ books, FromSleeves plan books → (ConservesCapital plan books ↔
      (books.map StrategyTargetBook.total).sum ≤ value + 1 / 1000000)) ∧
    ((∀ books, FromSleeves plan books → ConservesCapital plan books) ↔
      (plan.tradeableSleeves.map (·.capitalUsd)).sum ≤ value + 1 / 1000000) := by
  have heach : ∀ books, FromSleeves plan books → (ConservesCapital plan books ↔
      (books.map StrategyTargetBook.total).sum ≤ value + 1 / 1000000) :=
    fun books hbooks => conservesCapital_of_total hvalue hplan hbooks
  refine ⟨heach, ?_⟩
  constructor
  · intro hall
    have hfull := fromSleeves_full plan
    have htotal := (heach _ hfull).mp (hall _ hfull)
    have hsame : (plan.tradeableSleeves.map fullBook).map StrategyTargetBook.total =
        plan.tradeableSleeves.map (·.capitalUsd) := by
      rw [List.map_map]
      exact List.map_congr_left fun sleeve _ => fullBook_total sleeve
    rwa [hsame] at htotal
  · intro hwithin books hbooks
    exact (heach books hbooks).mpr (hbooks.total_le.trans hwithin)

/-- Two sleeves that add up to nearly a millionth more than the whole. -/
def slightlyOver : List (String × Reported) :=
  [("A", .finite (1 / 2)), ("B", .finite (5000009 / 10000000))]

/-- The sleeves of a portfolio of a hundred dollars. -/
def slightlyOverPlan : PortfolioCapitalPlan :=
  ⟨100, [⟨"A", 1 / 2, 50⟩, ⟨"B", 5000009 / 10000000, 5000009 / 100000⟩]⟩

theorem conservesCapital_iff_slightlyOver :
    (∀ books, FromSleeves slightlyOverPlan books → (ConservesCapital slightlyOverPlan books ↔
      (books.map StrategyTargetBook.total).sum ≤ 100 + 1 / 1000000)) ∧
    ((∀ books, FromSleeves slightlyOverPlan books → ConservesCapital slightlyOverPlan books) ↔
      (slightlyOverPlan.tradeableSleeves.map (·.capitalUsd)).sum ≤ 100 + 1 / 1000000) :=
  conservesCapital_iff (by norm_num)
    (by decide +kernel : buildStrategyCapitalPlan (.finite 100) slightlyOver = .ok slightlyOverPlan)

/-- Full books of an accepted allocation are blocked by the check of the notionals. -/
theorem not_conservesCapital_slightlyOver :
    buildStrategyCapitalPlan (.finite 100) slightlyOver = .ok slightlyOverPlan ∧
    FromSleeves slightlyOverPlan (slightlyOverPlan.tradeableSleeves.map fullBook) ∧
    ¬ConservesCapital slightlyOverPlan (slightlyOverPlan.tradeableSleeves.map fullBook) := by
  have hplan : buildStrategyCapitalPlan (.finite 100) slightlyOver = .ok slightlyOverPlan := by
    decide +kernel
  have hfull := fromSleeves_full slightlyOverPlan
  refine ⟨hplan, hfull, ?_⟩
  rw [conservesCapital_of_total (by norm_num) hplan hfull, not_le]
  decide +kernel

end Conserved

end Poma

import Mathlib.Tactic.Positivity
import Poma.Correctness.Selection
import Poma.Engine.Strategies
import Poma.Interaction.Program

/-!
# Books within their sleeves

Every registered strategy answers with a book that fits its sleeve: no weight is
negative, they add up to no more than the whole, each is worth its part of the
sleeve, and only a diversified fund may weigh more than the cap. The books of a
plan therefore combine to targets that add up to no more than the sleeves.
-/

namespace Poma

open Interaction (bind_eq_ok map_eq_ok mapError_eq_ok)

/-- A book that fits a sleeve. -/
structure SleeveBook.Fits (settings : StrategySettings) (allocationPct capitalUsd : ℚ)
    (book : SleeveBook) : Prop where
  nonneg : ∀ target ∈ book.targets, 0 ≤ target.sleeveWeight
  whole : (book.targets.map (·.sleeveWeight)).sum ≤ 1
  portfolio : ∀ target ∈ book.targets, target.portfolioWeight = target.sleeveWeight * allocationPct
  notional : ∀ target ∈ book.targets, target.targetNotional = target.sleeveWeight * capitalUsd
  capped : ∀ target ∈ book.targets,
    target.ticker ∈ book.diversifiedFundTickers ∨ target.sleeveWeight ≤ settings.maxPositionPct
  count : (book.targets.length : ℤ) ≤ settings.maxHoldings

section Weights

variable {n : Nat} {weight maxWeight : ℚ}

/-- Equal weights are cut to the cap in one turn, and keep their remainder in cash. -/
theorem capWeights_replicate (turns : Nat) :
    capWeights maxWeight (turns + 1) (List.replicate n weight) =
      List.replicate n (min weight maxWeight) := by
  unfold capWeights
  by_cases hover : maxWeight < weight
  · have hall : (List.replicate n weight).filter (maxWeight < ·) = List.replicate n weight := by
      apply List.filter_eq_self.mpr
      intro w hw
      rw [List.eq_of_mem_replicate hw]
      exact decide_eq_true hover
    have hnone : (List.replicate n weight).filter (· ≤ maxWeight) = [] := by
      apply List.filter_eq_nil_iff.mpr
      intro w hw
      rw [List.eq_of_mem_replicate hw, decide_eq_true_eq]
      exact not_le.mpr hover
    dsimp only
    rw [hall, hnone]
    cases n with
    | zero => rfl
    | succ n => rw [if_neg (by simp), if_pos (Or.inl rfl), List.map_replicate]
  · have hnone : (List.replicate n weight).filter (maxWeight < ·) = [] := by
      apply List.filter_eq_nil_iff.mpr
      intro w hw
      rw [List.eq_of_mem_replicate hw, decide_eq_true_eq]
      exact hover
    dsimp only
    rw [if_pos hnone, min_eq_left (not_lt.mp hover)]

/-- Equal weights within the whole come to the smaller of the weight and the cap. -/
theorem applyMaxWeightCap_replicate (hwhole : n * weight ≤ 1)
    {weights : List ℚ} (h : applyMaxWeightCap (List.replicate n weight) maxWeight = .ok weights) :
    weights = List.replicate n (min weight maxWeight) := by
  unfold applyMaxWeightCap at h
  rw [capWeights_replicate 99] at h
  dsimp only at h
  split at h
  · rename_i hnil
    obtain rfl := Except.ok.inj h
    cases n with
    | zero => rfl
    | succ n => cases hnil
  split at h
  · cases h
  split at h
  · cases h
  · obtain rfl := Except.ok.inj h
    apply if_neg
    rw [List.sum_replicate, nsmul_eq_mul, not_lt]
    exact (mul_le_mul_of_nonneg_left (min_le_left _ _) (Nat.cast_nonneg n)).trans hwhole

theorem zip_map_const {α β : Type} (xs : List α) (b : β) :
    xs.zip (xs.map fun _ => b) = xs.map fun x => (x, b) := by
  induction xs with
  | nil => rfl
  | cons x xs ih => rw [List.map_cons, List.zip_cons_cons, ih, List.map_cons]

/-- The targets of an equal-weight selection. -/
theorem buildEqualWeightTargets_spec {tickers : List String} {portfolioValueUsd maxPositionPct : ℚ}
    {targets : List WeightTarget}
    (h : buildEqualWeightTargets tickers portfolioValueUsd maxPositionPct = .ok targets) :
    targets = tickers.map fun ticker => ⟨ticker, min (1 / (tickers.length : ℚ)) maxPositionPct,
      min (1 / (tickers.length : ℚ)) maxPositionPct * portfolioValueUsd⟩ := by
  unfold buildEqualWeightTargets at h
  split at h
  · rename_i hnil
    obtain rfl := Except.ok.inj h
    rw [hnil]
    rfl
  · rename_i hsome
    have hlength : (0 : ℚ) < tickers.length := Nat.cast_pos.mpr (List.length_pos_iff.mpr hsome)
    dsimp only at h
    rw [List.map_const'] at h
    obtain ⟨weights, hweights, rfl⟩ := map_eq_ok.mp h
    rw [applyMaxWeightCap_replicate (mul_one_div_cancel hlength.ne').le hweights,
      ← List.map_const', zip_map_const, List.map_map]
    rfl

end Weights

section Strategies

variable {library : FrameLibrary} {context : StrategyContext} {book : SleeveBook}

/-- What the equity strategy holds: the selected tickers, at equal weights within the cap. -/
theorem rankVelocityTargets_spec (h : rankVelocityTargets library context = .ok book) :
    ∃ tickers : List String, (tickers.length : ℤ) ≤ context.settings.maxHoldings ∧
      book.targets = tickers.map fun ticker =>
        context.target "rank_velocity_size_equal_weight" ticker
          (min (1 / (tickers.length : ℚ)) context.settings.maxPositionPct) := by
  unfold rankVelocityTargets at h
  dsimp only at h
  rw [mapError_eq_ok] at h
  obtain ⟨⟨tickers, warnings⟩, hselected, h⟩ := bind_eq_ok.mp h
  obtain ⟨targets, htargets, rfl⟩ := map_eq_ok.mp h
  refine ⟨tickers, ?_, ?_⟩
  rotate_left
  · rw [buildEqualWeightTargets_spec htargets, List.map_map]
    rfl
  split at hselected
  · obtain ⟨rows, hrows, hpair⟩ := map_eq_ok.mp hselected
    obtain ⟨-, -, -, hcount⟩ := selectTopMarketCap_spec hrows
    rw [← (Prod.mk.inj hpair).1, List.length_map]
    exact hcount
  · obtain ⟨rows, hrows, hpair⟩ := map_eq_ok.mp hselected
    obtain ⟨-, -, -, -, -, hcount⟩ := selectByCombinedFactor_spec hrows
    rw [← (Prod.mk.inj hpair).1, List.length_map]
    exact hcount

/-- What the core strategy holds: one of its funds, or nothing. -/
theorem coreEtfTargets_spec (h : coreEtfTargets library context = .ok book) :
    ∃ tickers : List String, tickers.length ≤ 1 ∧
      book.targets = (tickers.map fun ticker => context.target "core_etf" ticker 1) ∧
      ∀ ticker ∈ tickers, ticker ∈ book.diversifiedFundTickers := by
  have hfund : ∀ {ticker : String} {funds : List String}, ticker ∈ funds →
      ticker ∈ funds.dedup.insertionSort (· ≤ ·) := fun h =>
    (List.mem_insertionSort _).mpr (List.mem_dedup.mpr h)
  obtain ⟨⟨invested, warnings⟩, -, rfl⟩ := map_eq_ok.mp h
  cases invested with
  | true =>
    refine ⟨[coreEtfTicker], le_refl 1, rfl, fun ticker hticker => hfund ?_⟩
    rw [List.mem_singleton.mp hticker]
    exact List.mem_cons_self
  | false =>
    cases hasset : safeAsset context.settings with
    | none => exact ⟨[], Nat.zero_le 1, rfl, fun _ h => absurd h List.not_mem_nil⟩
    | some asset =>
      refine ⟨[asset], le_refl 1, rfl, fun ticker hticker => hfund ?_⟩
      rw [List.mem_singleton.mp hticker]
      exact List.mem_cons_of_mem _ List.mem_cons_self

/-- Targets at one weight. -/
theorem fits_of_weight {settings : StrategySettings} {tickers : List String} {name : String}
    {weight : ℚ}
    (htargets : book.targets = tickers.map fun ticker => context.target name ticker weight)
    (hnonneg : 0 ≤ weight) (hwhole : tickers.length * weight ≤ 1)
    (hcapped : ∀ ticker ∈ tickers,
      ticker ∈ book.diversifiedFundTickers ∨ weight ≤ settings.maxPositionPct)
    (hcount : (tickers.length : ℤ) ≤ settings.maxHoldings) :
    book.Fits settings context.allocationPct context.capitalUsd := by
  have hmem : ∀ target ∈ book.targets, ∃ ticker ∈ tickers,
      target = context.target name ticker weight := by
    intro target htarget
    rw [htargets] at htarget
    obtain ⟨ticker, hticker, rfl⟩ := List.mem_map.mp htarget
    exact ⟨ticker, hticker, rfl⟩
  constructor
  case nonneg =>
    intro target htarget
    obtain ⟨ticker, -, rfl⟩ := hmem target htarget
    exact hnonneg
  case whole =>
    have hweights : book.targets.map (·.sleeveWeight) = List.replicate tickers.length weight := by
      rw [htargets, List.map_map, ← List.map_const']
      rfl
    rw [hweights, List.sum_replicate, nsmul_eq_mul]
    exact hwhole
  case portfolio =>
    intro target htarget
    obtain ⟨ticker, -, rfl⟩ := hmem target htarget
    rfl
  case notional =>
    intro target htarget
    obtain ⟨ticker, -, rfl⟩ := hmem target htarget
    rfl
  case capped =>
    intro target htarget
    obtain ⟨ticker, hticker, rfl⟩ := hmem target htarget
    exact hcapped ticker hticker
  case count => rwa [htargets, List.length_map]

/-- Every book of a registered strategy fits its sleeve. -/
theorem Strategy.buildTargets_fits {strategy : Strategy}
    (h : strategy.buildTargets library context = .ok book) :
    book.Fits context.settings context.allocationPct context.capitalUsd := by
  have hone : (1 : ℤ) ≤ context.settings.maxHoldings := context.settings.maxHoldings_pos
  have hwhole : ∀ (tickers : List String) (name : String),
      (book.targets = tickers.map fun ticker => context.target name ticker 1) →
      (∀ ticker ∈ tickers, ticker ∈ book.diversifiedFundTickers) → tickers.length ≤ 1 →
      book.Fits context.settings context.allocationPct context.capitalUsd := by
    intro tickers name htargets hfunds hcount
    apply fits_of_weight htargets zero_le_one
    · rw [mul_one]
      exact_mod_cast hcount
    · exact fun ticker hticker => Or.inl (hfunds ticker hticker)
    · omega
  cases strategy with
  | coreEtf =>
    obtain ⟨tickers, hcount, htargets, hfunds⟩ := coreEtfTargets_spec h
    exact hwhole tickers "core_etf" htargets hfunds hcount
  | directEtf ticker =>
    obtain rfl := Except.ok.inj h
    apply hwhole [ticker.val] ticker.val
    · simp [directEtfTargets, StrategyContext.target]
    · exact fun _ h => h
    · exact le_refl 1
  | rankVelocity =>
    obtain ⟨tickers, hcount, htargets⟩ := rankVelocityTargets_spec h
    have hcap := context.settings.maxPosition_nonneg
    apply fits_of_weight htargets
    · exact le_min (by positivity) hcap
    · rcases Nat.eq_zero_or_pos tickers.length with hzero | hpos
      · rw [hzero, Nat.cast_zero, zero_mul]
        exact zero_le_one
      · have hlength : (0 : ℚ) < tickers.length := Nat.cast_pos.mpr hpos
        calc (tickers.length : ℚ) * min (1 / (tickers.length : ℚ)) context.settings.maxPositionPct
          _ ≤ tickers.length * (1 / (tickers.length : ℚ)) :=
            mul_le_mul_of_nonneg_left (min_le_left _ _) hlength.le
          _ = 1 := mul_one_div_cancel hlength.ne'
    · exact fun _ _ => Or.inr (min_le_right _ _)
    · exact hcount

end Strategies

end Poma

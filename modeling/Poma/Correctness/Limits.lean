import Mathlib.Tactic.NormNum
import Poma.Execution.Pricing
import Poma.Numeric.Grid

/-!
# Limits inside the spread

A first limit is the point between the midpoint and the far side that the
aggression names, rounded to the tick in the passive direction and kept between
the two sides of the quote. The tick is that of the midpoint, so a quote with
its sides on both sides of one dollar can be priced off the grid or short of its
far side, and no other quote can.
-/

namespace Poma

/-- A price on the tick grid of its own level. -/
def OnTick (price : ℚ) : Prop := Grid.On (priceTick price) price

/-- The point of the spread that an aggression names, before it is rounded. -/
def spreadPoint (side : OrderSide) (bid ask aggression : ℚ) : ℚ :=
  match side with
  | .buy => (bid + ask) / 2 + aggression * ((ask - bid) / 2)
  | .sell => (bid + ask) / 2 - aggression * ((ask - bid) / 2)

/-- The side of the quote an order would rest at. -/
def nearSide (side : OrderSide) (bid ask : ℚ) : ℚ :=
  match side with
  | .buy => bid
  | .sell => ask

/-- The side of the quote an order would cross to. -/
def farSide (side : OrderSide) (bid ask : ℚ) : ℚ :=
  match side with
  | .buy => ask
  | .sell => bid

/-- The same point with the tolerance of the rounding. -/
def toleratedPoint (side : OrderSide) (bid ask aggression : ℚ) : ℚ :=
  match side with
  | .buy => spreadPoint .buy bid ask aggression + fillTolerance * priceTick ((bid + ask) / 2)
  | .sell => spreadPoint .sell bid ask aggression - fillTolerance * priceTick ((bid + ask) / 2)

/-- Whether one price is no more aggressive than another. -/
def OrderSide.NoMoreAggressive (side : OrderSide) (x y : ℚ) : Prop :=
  match side with
  | .buy => x ≤ y
  | .sell => y ≤ x

/-- The limits inside a spread are valid, passive and monotone prices. -/
structure ValidLimits (side : OrderSide) (bid ask : ℚ) : Prop where
  inside : ∀ aggression, 0 ≤ aggression → aggression ≤ 1 →
    bid ≤ insideSpreadLimitPrice side bid ask aggression ∧
      insideSpreadLimitPrice side bid ask aggression ≤ ask
  onTick : ∀ aggression, 0 ≤ aggression → aggression ≤ 1 →
    OnTick (insideSpreadLimitPrice side bid ask aggression)
  passive : ∀ aggression, 0 ≤ aggression → aggression ≤ 1 →
    side.NoMoreAggressive (insideSpreadLimitPrice side bid ask aggression)
        (toleratedPoint side bid ask aggression) ∨
      insideSpreadLimitPrice side bid ask aggression = nearSide side bid ask
  crosses : insideSpreadLimitPrice side bid ask 1 = farSide side bid ask
  monotone : ∀ less more, 0 ≤ less → less ≤ more → more ≤ 1 →
    side.NoMoreAggressive (insideSpreadLimitPrice side bid ask less)
      (insideSpreadLimitPrice side bid ask more)

/-- The quotes whose tick at the midpoint also fits the side an order crosses to. -/
def TickFits (side : OrderSide) (bid ask : ℚ) : Prop :=
  match side with
  | .buy => 1 ≤ (bid + ask) / 2 ∨ ask ≤ 1
  | .sell => (bid + ask) / 2 < 1 ∨ Grid.On (1 / 100) bid

theorem roundHalfEven_intCast (n : ℤ) : roundHalfEven n = n := by
  simp [roundHalfEven]

/-- A number with so many digits is rounded to itself. -/
theorem roundTo_eq_self {digits : Nat} {x : ℚ} (h : Grid.On (1 / 10 ^ digits) x) :
    roundTo digits x = x := by
  obtain ⟨n, rfl⟩ := h
  have hten : (10 : ℚ) ^ digits ≠ 0 := by positivity
  unfold roundTo
  rw [mul_one_div, div_mul_cancel₀ _ hten, roundHalfEven_intCast]

theorem priceTick_pos (price : ℚ) : 0 < priceTick price := by
  unfold priceTick
  split <;> norm_num

/-- Every tick is a whole number of the finest ones. -/
theorem on_priceTick (price : ℚ) : Grid.On (1 / 10 ^ 4) (priceTick price) := by
  unfold priceTick
  split
  · exact ⟨100, by norm_num⟩
  · exact ⟨1, by norm_num⟩

theorem OnTick.fine {price : ℚ} (h : OnTick price) : Grid.On (1 / 10 ^ 4) price :=
  (on_priceTick price).trans h

/-- A price in whole cents is on the grid at every level. -/
theorem onTick_of_cents {price : ℚ} (h : Grid.On (1 / 100) price) : OnTick price := by
  unfold OnTick priceTick
  split
  · exact h
  · obtain ⟨n, rfl⟩ := h
    exact ⟨n * 100, by push_cast; ring⟩

/-- Up to one dollar the finest tick is enough. -/
theorem onTick_of_le_one {price : ℚ} (h : Grid.On (1 / 10 ^ 4) price) (hle : price ≤ 1) :
    OnTick price := by
  rcases hle.lt_or_eq with hlt | rfl
  · unfold OnTick priceTick
    rw [if_neg (not_le.mpr hlt)]
    norm_num at h ⊢
    exact h
  · exact onTick_of_cents ⟨100, by norm_num⟩

/-- From one dollar on a price on the grid is in whole cents. -/
theorem OnTick.cents {price : ℚ} (h : OnTick price) (hge : 1 ≤ price) :
    Grid.On (1 / 100) price := by
  unfold OnTick priceTick at h
  rwa [if_pos hge] at h

/-- A limit inside the spread is the named point, rounded to the tick of the midpoint and kept
between the sides of the quote. -/
def clampedPoint (side : OrderSide) (bid ask aggression : ℚ) : ℚ :=
  let tick := priceTick ((bid + ask) / 2)
  match side with
  | .buy => Grid.clampFloor tick fillTolerance bid ask (spreadPoint .buy bid ask aggression)
  | .sell => Grid.clampCeil tick fillTolerance bid ask (spreadPoint .sell bid ask aggression)

theorem fillTolerance_bounds : 0 ≤ fillTolerance ∧ fillTolerance < 1 := by
  unfold fillTolerance
  norm_num

section

variable {bid ask : ℚ}

/-- The point at full aggression is the far side. -/
theorem spreadPoint_one (side : OrderSide) (bid ask : ℚ) :
    spreadPoint side bid ask 1 = farSide side bid ask := by
  cases side <;> simp only [spreadPoint, farSide] <;> ring

/-- Rounded and kept between the sides, a point is a side of the quote or on the tick. -/
theorem clampedPoint_cases (side : OrderSide) (bid ask aggression : ℚ) :
    clampedPoint side bid ask aggression = bid ∨ clampedPoint side bid ask aggression = ask ∨
      Grid.On (priceTick ((bid + ask) / 2)) (clampedPoint side bid ask aggression) := by
  cases side with
  | buy =>
    rcases Grid.clampFloor_cases (priceTick ((bid + ask) / 2)) fillTolerance bid ask
      (spreadPoint .buy bid ask aggression) with h | h | h
    · exact Or.inr (Or.inl h)
    · exact Or.inl h
    · exact Or.inr (Or.inr ⟨_, h⟩)
  | sell =>
    rcases Grid.clampCeil_cases (priceTick ((bid + ask) / 2)) fillTolerance bid ask
      (spreadPoint .sell bid ask aggression) with h | h | h
    · exact Or.inl h
    · exact Or.inr (Or.inl h)
    · exact Or.inr (Or.inr ⟨_, h⟩)

/-- Between sides of four decimals nothing is left for the last rounding. -/
theorem insideSpreadLimitPrice_eq (hbid : Grid.On (1 / 10 ^ 4) bid)
    (hask : Grid.On (1 / 10 ^ 4) ask) (side : OrderSide) (aggression : ℚ) :
    insideSpreadLimitPrice side bid ask aggression = clampedPoint side bid ask aggression := by
  have hfine : Grid.On (1 / 10 ^ 4) (clampedPoint side bid ask aggression) := by
    rcases clampedPoint_cases side bid ask aggression with h | h | h
    · rwa [h]
    · rwa [h]
    · exact (on_priceTick _).trans h
  have hround := roundTo_eq_self hfine
  cases side <;> exact hround

theorem clampedPoint_mem (hle : bid ≤ ask) (side : OrderSide) (aggression : ℚ) :
    bid ≤ clampedPoint side bid ask aggression ∧ clampedPoint side bid ask aggression ≤ ask := by
  cases side
  · exact Grid.clampFloor_mem hle
  · exact Grid.clampCeil_mem hle

theorem clampedPoint_passive (hle : bid ≤ ask) (side : OrderSide) (aggression : ℚ) :
    side.NoMoreAggressive (clampedPoint side bid ask aggression)
        (toleratedPoint side bid ask aggression) ∨
      clampedPoint side bid ask aggression = nearSide side bid ask := by
  have hstep := priceTick_pos ((bid + ask) / 2)
  cases side with
  | buy =>
    apply (Grid.clampFloor_le hstep).imp_right
    intro h
    exact h.trans (min_eq_left hle)
  | sell =>
    apply (Grid.le_clampCeil hstep).imp_right
    intro h
    exact h.trans (max_eq_left hle)

theorem clampedPoint_mono (hle : bid ≤ ask) (side : OrderSide) {less more : ℚ} (h : less ≤ more) :
    side.NoMoreAggressive (clampedPoint side bid ask less) (clampedPoint side bid ask more) := by
  have hstep := priceTick_pos ((bid + ask) / 2)
  have hpoint : less * ((ask - bid) / 2) ≤ more * ((ask - bid) / 2) :=
    mul_le_mul_of_nonneg_right h (by linarith)
  cases side with
  | buy =>
    apply Grid.clampFloor_mono hstep
    simp only [spreadPoint]
    linarith
  | sell =>
    apply Grid.clampCeil_mono hstep
    simp only [spreadPoint]
    linarith

/-- The far side of a quote whose tick fits is on the tick of the midpoint. -/
theorem on_farSide (hle : bid ≤ ask) (hbid : OnTick bid) (hask : OnTick ask) {side : OrderSide}
    (hfits : side = .sell → TickFits .sell bid ask) :
    Grid.On (priceTick ((bid + ask) / 2)) (farSide side bid ask) := by
  have hfineTick : (bid + ask) / 2 < 1 → ∀ price, OnTick price →
      Grid.On (priceTick ((bid + ask) / 2)) price := by
    intro hmid price hprice
    have hfine := hprice.fine
    unfold priceTick
    rw [if_neg (not_le.mpr hmid)]
    norm_num at hfine ⊢
    exact hfine
  have hcents : 1 ≤ (bid + ask) / 2 → priceTick ((bid + ask) / 2) = 1 / 100 := by
    intro hmid
    unfold priceTick
    rw [if_pos hmid]
  cases side with
  | buy =>
    show Grid.On _ ask
    rcases lt_or_ge ((bid + ask) / 2) 1 with hmid | hmid
    · exact hfineTick hmid ask hask
    · rw [hcents hmid]
      exact hask.cents (by linarith)
  | sell =>
    show Grid.On _ bid
    rcases lt_or_ge ((bid + ask) / 2) 1 with hmid | hmid
    · exact hfineTick hmid bid hbid
    · rw [hcents hmid]
      exact (hfits rfl).resolve_left (not_lt.mpr hmid)

theorem clampedPoint_one (hle : bid ≤ ask) (hbid : OnTick bid) (hask : OnTick ask)
    {side : OrderSide} (hfits : side = .sell → TickFits .sell bid ask) :
    clampedPoint side bid ask 1 = farSide side bid ask := by
  have hfar := on_farSide hle hbid hask hfits
  have hstep := priceTick_pos ((bid + ask) / 2)
  have hpoint := spreadPoint_one side bid ask
  obtain ⟨htolerance, hsmall⟩ := fillTolerance_bounds
  cases side with
  | buy =>
    simp only [clampedPoint, hpoint]
    exact Grid.On.clampFloor_high hfar hstep htolerance hsmall
  | sell =>
    simp only [clampedPoint, hpoint]
    exact Grid.On.clampCeil_low hfar hstep htolerance hsmall

/-- A limit on the tick of the midpoint is on its own, where the midpoint or the limit is on the
right side of one dollar. -/
theorem onTick_clampedPoint (hle : bid ≤ ask) (hbid : OnTick bid) (hask : OnTick ask)
    {side : OrderSide} {aggression : ℚ} (hnonneg : 0 ≤ aggression)
    (hfits : side = .buy → TickFits .buy bid ask) :
    OnTick (clampedPoint side bid ask aggression) := by
  rcases clampedPoint_cases side bid ask aggression with h | h | h
  · rwa [h]
  · rwa [h]
  rcases lt_or_ge ((bid + ask) / 2) 1 with hmid | hmid
  · -- the finest tick is on the grid up to one dollar
    apply onTick_of_le_one ((on_priceTick _).trans h)
    cases side with
    | buy =>
      have hask' := (hfits rfl).resolve_left (not_le.mpr hmid)
      exact (clampedPoint_mem hle .buy aggression).2.trans hask'
    | sell =>
      have hone : Grid.On (priceTick ((bid + ask) / 2)) 1 := by
        unfold priceTick
        rw [if_neg (not_le.mpr hmid)]
        exact ⟨10000, by norm_num⟩
      have hpos : 0 ≤ fillTolerance * priceTick ((bid + ask) / 2) :=
        mul_nonneg fillTolerance_bounds.1 (priceTick_pos _).le
      have hhalf : 0 ≤ aggression * ((ask - bid) / 2) := mul_nonneg hnonneg (by linarith)
      have hceil : Grid.ceil (priceTick ((bid + ask) / 2)) fillTolerance
          (spreadPoint .sell bid ask aggression) ≤ 1 := by
        apply (hone.ceil_le_iff (priceTick_pos _)).mpr
        simp only [spreadPoint]
        linarith
      exact max_le ((min_le_left _ _).trans hceil) (by linarith)
  · apply onTick_of_cents
    unfold priceTick at h
    rwa [if_pos hmid] at h

/-- A buy on a quote around one dollar with its midpoint below can be priced off the grid. -/
theorem not_onTick_above_one (hbid : OnTick bid) (hask : OnTick ask)
    (hmid : (bid + ask) / 2 < 1) (hone : 1 < ask) : ∃ aggression, 0 ≤ aggression ∧
      aggression ≤ 1 ∧ ¬OnTick (insideSpreadLimitPrice .buy bid ask aggression) := by
  have hcents := hask.cents hone.le
  have hask' : 101 / 100 ≤ ask := by
    obtain ⟨n, rfl⟩ := hcents
    have hn : (100 : ℚ) < n := by linarith
    have hn' : (101 : ℤ) ≤ n := by
      have hcast : (100 : ℤ) < n := by exact_mod_cast hn
      omega
    have hn'' : (101 : ℚ) ≤ n := by exact_mod_cast hn'
    linarith
  -- the aggression that names the first price above one dollar
  have hhalf : 0 < (ask - bid) / 2 := by linarith
  have hpoint : spreadPoint .buy bid ask ((10001 / 10000 - (bid + ask) / 2) / ((ask - bid) / 2)) =
      10001 / 10000 := by
    simp only [spreadPoint]
    rw [div_mul_cancel₀ _ hhalf.ne']
    ring
  have htick : priceTick ((bid + ask) / 2) = 1 / 10000 := by
    unfold priceTick
    rw [if_neg (not_le.mpr hmid)]
  have hgrid : Grid.On ((1 : ℚ) / 10000) (10001 / 10000) := ⟨10001, by norm_num⟩
  have hfloor : Grid.floor ((1 : ℚ) / 10000) fillTolerance (10001 / 10000) = 10001 / 10000 :=
    hgrid.floor_eq (by norm_num) fillTolerance_bounds.1 fillTolerance_bounds.2
  refine ⟨(10001 / 10000 - (bid + ask) / 2) / ((ask - bid) / 2), ?_, ?_, ?_⟩
  · exact div_nonneg (by linarith) hhalf.le
  · rw [div_le_one hhalf]
    linarith
  · have hlimit : clampedPoint .buy bid ask
        ((10001 / 10000 - (bid + ask) / 2) / ((ask - bid) / 2)) = 10001 / 10000 := by
      simp only [clampedPoint, hpoint, htick, Grid.clampFloor, hfloor]
      rw [max_eq_left (by linarith), min_eq_left (by linarith)]
    rw [insideSpreadLimitPrice_eq hbid.fine hask.fine, hlimit]
    intro hticked
    obtain ⟨n, hn⟩ := hticked.cents (by norm_num)
    have hscaled : (n : ℚ) * 100 = 10001 := by linarith
    have hcast : n * 100 = 10001 := by exact_mod_cast hscaled
    omega

/-- A sell on a quote around one dollar with its midpoint at or above does not reach a bid that is
not in whole cents. -/
theorem not_crosses_below_one (hbid : OnTick bid) (hask : OnTick ask)
    (hmid : 1 ≤ (bid + ask) / 2) (hcents : ¬Grid.On (1 / 100) bid) :
    insideSpreadLimitPrice .sell bid ask 1 ≠ bid := by
  have hbelow : bid < 1 := not_le.mp fun h => hcents (hbid.cents h)
  have htick : priceTick ((bid + ask) / 2) = 1 / 100 := by
    unfold priceTick
    rw [if_pos hmid]
  have hpoint : spreadPoint .sell bid ask 1 = bid := spreadPoint_one .sell bid ask
  rw [insideSpreadLimitPrice_eq hbid.fine hask.fine]
  simp only [clampedPoint, hpoint, htick, Grid.clampCeil]
  intro h
  have hmin : min (Grid.ceil (1 / 100) fillTolerance bid) ask ≤ bid := max_eq_right_iff.mp h
  have hceil : Grid.ceil (1 / 100) fillTolerance bid ≤ bid := by
    rcases min_le_iff.mp hmin with h | h
    · exact h
    · linarith
  have hgrid : Grid.On ((1 : ℚ) / 100) (Grid.ceil (1 / 100) fillTolerance bid) := Grid.on_ceil
  have hlow := (Grid.On.ceil_le_iff hgrid (by norm_num)).mp (le_refl _)
  obtain ⟨m, hm⟩ := hgrid
  obtain ⟨n, hn⟩ := hbid.fine
  rw [hm] at hceil hlow
  rw [hn] at hceil hlow
  norm_num [fillTolerance] at hceil hlow
  have hupper : 100 * m ≤ n := by
    have hcast : (100 : ℚ) * m ≤ n := by linarith
    exact_mod_cast hcast
  have hlower : n < 100 * m + 1 := by
    have hcast : (n : ℚ) < 100 * m + 1 := by linarith
    exact_mod_cast hcast
  obtain rfl : n = 100 * m := by omega
  exact hcents ⟨m, by rw [hn]; push_cast; ring⟩

/-- The limits inside a spread are valid prices exactly on the quotes whose tick fits. -/
theorem validLimits_iff (side : OrderSide) (hle : bid ≤ ask) (hbid : OnTick bid)
    (hask : OnTick ask) : ValidLimits side bid ask ↔ TickFits side bid ask := by
  constructor
  · intro h
    cases side with
    | buy =>
      by_contra hfits
      obtain ⟨hmid, hone⟩ := not_or.mp hfits
      obtain ⟨aggression, hnonneg, hle', hoff⟩ :=
        not_onTick_above_one hbid hask (not_le.mp hmid) (not_le.mp hone)
      exact hoff (h.onTick aggression hnonneg hle')
    | sell =>
      by_contra hfits
      obtain ⟨hmid, hcents⟩ := not_or.mp hfits
      exact not_crosses_below_one hbid hask (not_lt.mp hmid) hcents h.crosses
  · intro hfits
    have heq := insideSpreadLimitPrice_eq hbid.fine hask.fine side
    constructor
    · intro aggression _ _
      rw [heq]
      exact clampedPoint_mem hle side aggression
    · intro aggression hnonneg _
      rw [heq]
      exact onTick_clampedPoint hle hbid hask hnonneg fun hside => hside ▸ hfits
    · intro aggression _ _
      rw [heq]
      exact clampedPoint_passive hle side aggression
    · rw [heq]
      exact clampedPoint_one hle hbid hask fun hside => hside ▸ hfits
    · intro less more _ hless _
      rw [heq, heq]
      exact clampedPoint_mono hle side hless

end

/-- A buy on 10.00 to 10.02. -/
theorem validLimits_iff_dollars : ValidLimits .buy 10 (1002 / 100) :=
  (validLimits_iff .buy (by norm_num) (onTick_of_cents ⟨1000, by norm_num⟩)
    (onTick_of_cents ⟨1002, by norm_num⟩)).mpr (Or.inl (by norm_num))

/-- A buy on 0.90 to 1.05 at half aggression is priced at 1.0125. -/
theorem not_onTick_straddling : OnTick (9 / 10) ∧ OnTick (105 / 100) ∧
    insideSpreadLimitPrice .buy (9 / 10) (105 / 100) (1 / 2) = 10125 / 10000 ∧
      ¬OnTick (10125 / 10000) := by
  refine ⟨onTick_of_cents ⟨90, by norm_num⟩, onTick_of_cents ⟨105, by norm_num⟩,
    by decide +kernel, fun h => ?_⟩
  obtain ⟨n, hn⟩ := h.cents (by norm_num)
  have hscaled : (n : ℚ) * 100 = 10125 := by linarith
  have hcast : n * 100 = 10125 := by exact_mod_cast hscaled
  omega

end Poma

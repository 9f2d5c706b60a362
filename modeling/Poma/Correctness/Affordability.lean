import Mathlib.Algebra.BigOperators.Group.List.Basic
import Poma.Execution.Risk
import Poma.Numeric.Grid

/-!
# Rounding within the cash

Buys are rounded to the nearest share, and a buy that was rounded up can be
demoted to the share below. Demotions follow the savings until the plan fits the
cash, and each takes its saving off the cash the plan needs; so the plan that is
left fits whenever the plan of floored buys does, and needed every demotion.
-/

namespace Poma

/-- A rule of fractional shares, without bounds. -/
def InstrumentExecutionRule.Fractional (rule : InstrumentExecutionRule) : Prop :=
  rule.allowsFractional = true ∧ rule.minQuantity = 0 ∧ rule.quantityIncrement = 0

/-- A rule of whole shares. -/
def InstrumentExecutionRule.Whole (rule : InstrumentExecutionRule) : Prop :=
  rule.allowsFractional = false ∧ rule.minQuantity = 1 ∧ rule.quantityIncrement = 1

theorem resolveExecutionRule_cases (textCase : TextCase) (text : String) (fractional : Bool)
    (ticker : String) :
    (resolveExecutionRule ticker (buildExecutionRules textCase text fractional)).Fractional ∨
      (resolveExecutionRule ticker (buildExecutionRules textCase text fractional)).Whole := by
  have hmem : ∀ key rule, (buildExecutionRules textCase text fractional).lookup key = some rule →
      rule.Fractional ∨ rule.Whole := by
    intro key rule hlookup
    have hentry := lookup_mem hlookup
    rw [buildExecutionRules, List.mem_append, List.mem_map, List.mem_singleton] at hentry
    rcases hentry with ⟨part, -, heq⟩ | heq
    · obtain ⟨-, rfl⟩ := Prod.mk.inj heq
      exact Or.inr ⟨rfl, rfl, rfl⟩
    · obtain ⟨-, rfl⟩ := Prod.mk.inj heq
      cases fractional with
      | true => exact Or.inl ⟨rfl, rfl, rfl⟩
      | false => exact Or.inr ⟨rfl, rfl, rfl⟩
  unfold resolveExecutionRule
  cases hone : (buildExecutionRules textCase text fractional).lookup ticker with
  | some rule => exact hmem ticker rule hone
  | none =>
    cases hdefault : (buildExecutionRules textCase text fractional).lookup defaultRuleTicker with
    | some rule => exact hmem defaultRuleTicker rule hdefault
    | none => exact Or.inr ⟨rfl, rfl, rfl⟩

theorem roundedExecutionQuantity_fractional {rule : InstrumentExecutionRule}
    (h : rule.Fractional) (quantity : ℚ) (side : OrderSide) :
    roundedExecutionQuantity quantity side rule = quantity := by
  obtain ⟨hfractional, -, hincrement⟩ := h
  simp [roundedExecutionQuantity, hfractional, hincrement]

/-- A whole number of shares is on the increment of whole shares. -/
theorem floor_increment_one (n : ℤ) : ⌊(n : ℚ) / 1 + 1 / 1000000000⌋ * (1 : ℚ) = n := by
  have hgrid : Grid.On (1 : ℚ) n := ⟨n, by simp⟩
  exact hgrid.floor_eq (by norm_num) (by norm_num) (by norm_num)

theorem roundedExecutionQuantity_buy {rule : InstrumentExecutionRule} (h : rule.Whole)
    (quantity : ℚ) : roundedExecutionQuantity quantity .buy rule = ⌊quantity + 1 / 2⌋ := by
  obtain ⟨hwhole, -, hincrement⟩ := h
  simp only [roundedExecutionQuantity, hwhole, hincrement]
  rw [if_pos (by norm_num)]
  exact floor_increment_one _

theorem roundedExecutionQuantity_sell {rule : InstrumentExecutionRule} (h : rule.Whole)
    (quantity : ℚ) : roundedExecutionQuantity quantity .sell rule = ⌊quantity⌋ := by
  obtain ⟨hwhole, -, hincrement⟩ := h
  simp only [roundedExecutionQuantity, hwhole, hincrement]
  rw [if_pos (by norm_num)]
  exact floor_increment_one _

/-- A price at which a positive notional rounds to some shares is positive. -/
theorem price_pos_of_shares {notional price : ℚ} (hnotional : 0 < notional)
    (h : (0 : ℚ) < ⌊notional / price + 1 / 2⌋) : 0 < price := by
  by_contra hprice
  have hdiv : notional / price ≤ 0 := div_nonpos_of_nonneg_of_nonpos hnotional.le (not_lt.mp hprice)
  have hfloor : ⌊notional / price + 1 / 2⌋ < 1 := by
    rw [Int.floor_lt]
    push_cast
    linarith
  have hpositive : 0 < ⌊notional / price + 1 / 2⌋ := by exact_mod_cast h
  omega

/-- A trade with another quantity, at its reference price. -/
def ProposedTrade.withQuantity (trade : ProposedTrade) (quantity : ℚ) : ProposedTrade :=
  if quantity ≠ trade.quantity then
    { trade with quantity := quantity, notional := quantity * trade.referencePrice }
  else trade

/-- A trade rounded one way, unless it falls below the minimum. -/
def executable (rules : ExecutionRules) (side : OrderSide) (trade : ProposedTrade) :
    Option ProposedTrade :=
  let rule := resolveExecutionRule trade.ticker rules
  let quantity := roundedExecutionQuantity trade.quantity side rule
  if quantity ≤ 0 ∨ quantity < rule.minQuantity then none else some (trade.withQuantity quantity)

/-- The plan in which every trade is rounded down. -/
def flooredPlan (rules : ExecutionRules) (trades : List ProposedTrade) : List ProposedTrade :=
  trades.filterMap (executable rules .sell)

/-- One trade of a plan, demoted if its index is listed. -/
def demoteItem (rules : ExecutionRules) (demoted : List Nat) :
    (ProposedTrade × Option ℚ) × Nat → Option ProposedTrade
  | ((trade, some floored), index) =>
    if index ∈ demoted then
      if floored ≤ 0 ∨ floored < (resolveExecutionRule trade.ticker rules).minQuantity then none
      else some { trade with quantity := floored, notional := floored * trade.referencePrice }
    else some trade
  | ((trade, none), _) => some trade

/-- The plan in which the listed buys are demoted. -/
def demotedPlan (rules : ExecutionRules) (rounded : List (ProposedTrade × Option ℚ))
    (demoted : List Nat) : List ProposedTrade :=
  rounded.zipIdx.filterMap (demoteItem rules demoted)

/-- The order in which the buys that were rounded up are demoted. -/
def demotionOrder (rounded : List (ProposedTrade × Option ℚ)) : List Nat :=
  (sortRoundUps (roundUps rounded)).map (·.index)

/-- The number of whole shares nearest to the quantity, or the quantity where fractions are
allowed. -/
def ProposedTrade.nearestShares (trade : ProposedTrade) (rules : ExecutionRules) : ℚ :=
  if (resolveExecutionRule trade.ticker rules).allowsFractional then trade.quantity
  else ⌊trade.quantity + 1 / 2⌋

/-- The whole shares of the quantity, or the quantity where fractions are allowed. -/
def ProposedTrade.flooredShares (trade : ProposedTrade) (rules : ExecutionRules) : ℚ :=
  if (resolveExecutionRule trade.ticker rules).allowsFractional then trade.quantity
  else ⌊trade.quantity⌋

/-- A trade of some shares, unless they are none or below the minimum. -/
def ProposedTrade.ofShares (trade : ProposedTrade) (rules : ExecutionRules) (shares : ℚ) :
    Option ProposedTrade :=
  if shares ≤ 0 ∨ shares < (resolveExecutionRule trade.ticker rules).minQuantity then none
  else some (trade.withQuantity shares)

/-- The plan of floored trades. -/
def roundedDown (rules : ExecutionRules) (trades : List ProposedTrade) : List ProposedTrade :=
  trades.filterMap fun trade => trade.ofShares rules (trade.flooredShares rules)

/-- The plan of buys rounded to the nearest and of floored sells; with each buy that was rounded up,
the shares it can be demoted to. -/
def roundedNearest (rules : ExecutionRules) (trades : List ProposedTrade) :
    List (ProposedTrade × Option ℚ) :=
  trades.filterMap fun trade =>
    let nearest := trade.nearestShares rules
    let floored := trade.flooredShares rules
    (trade.ofShares rules (if trade.side = .buy then nearest else floored)).map fun t =>
      (t, if trade.side = .buy ∧ floored < nearest then some floored else none)

/-- Rounding with the cash makes a plan that fits whenever one can, and demotes no more than that
takes. -/
structure FitsCash (trades : List ProposedTrade) (rules : ExecutionRules) (cash : ℚ) : Prop where
  affordable : enforceBuyingPower (roundedDown rules trades) cash = [] →
    enforceBuyingPower (applyExecutionPolicy trades rules (some cash)).1 cash = []
  sells : ((applyExecutionPolicy trades rules (some cash)).1.filter fun t => t.side = .sell) =
    (applyExecutionPolicy trades rules none).1.filter fun t => t.side = .sell
  buys : ∀ t ∈ (applyExecutionPolicy trades rules (some cash)).1, t.side = .buy →
    ∃ trade ∈ trades, trade.ofShares rules (trade.nearestShares rules) = some t ∨
      trade.ofShares rules (trade.flooredShares rules) = some t
  untouched : enforceBuyingPower ((roundedNearest rules trades).map (·.1)) cash = [] →
    (applyExecutionPolicy trades rules (some cash)).1 = (roundedNearest rules trades).map (·.1)
  needed : ∃ demoted, demoted <+: demotionOrder (roundedNearest rules trades) ∧
    (applyExecutionPolicy trades rules (some cash)).1 =
      demotedPlan rules (roundedNearest rules trades) demoted ∧
    ∀ earlier last, demoted = earlier ++ [last] →
      enforceBuyingPower (demotedPlan rules (roundedNearest rules trades) earlier) cash ≠ []

/-- Quantities and prices are positive. -/
def PositiveTrades (trades : List ProposedTrade) : Prop :=
  ∀ trade ∈ trades, 0 < trade.quantity ∧ 0 < trade.referencePrice ∧
    ∀ limit, trade.limitPrice = some limit → 0 < limit

/-- The cash a trade takes: what a buy requires, less what a sell brings. -/
def ProposedTrade.netCash (trade : ProposedTrade) : ℚ :=
  trade.buyCashRequiredUsd - trade.sellCashCreditUsd

theorem netCashOutflow_eq_sum (trades : List ProposedTrade) :
    netCashOutflow trades = (trades.map ProposedTrade.netCash).sum := by
  induction trades with
  | nil => simp [netCashOutflow]
  | cons trade trades ih =>
    have hcons : netCashOutflow (trade :: trades) = trade.netCash + netCashOutflow trades := by
      simp only [netCashOutflow, ProposedTrade.netCash, List.map_cons, List.sum_cons]
      ring
    rw [hcons, ih, List.map_cons, List.sum_cons]

theorem enforceBuyingPower_eq_nil_iff (trades : List ProposedTrade) (cash : ℚ) :
    enforceBuyingPower trades cash = [] ↔ netCashOutflow trades - cash ≤ cashTolerance := by
  unfold enforceBuyingPower
  by_cases h : netCashOutflow trades > cash + cashTolerance
  · simp only [h, ite_true, List.cons_ne_nil, false_iff, not_le]
    linarith
  · simp only [h, ite_false, true_iff]
    linarith

section

variable {rule : InstrumentExecutionRule}

/-- Rounding down gives no more than rounding to the nearest. -/
theorem rounded_sell_le_buy (hrule : rule.Fractional ∨ rule.Whole) (quantity : ℚ) :
    roundedExecutionQuantity quantity .sell rule ≤ roundedExecutionQuantity quantity .buy rule := by
  rcases hrule with h | h
  · rw [roundedExecutionQuantity_fractional h, roundedExecutionQuantity_fractional h]
  · rw [roundedExecutionQuantity_sell h, roundedExecutionQuantity_buy h]
    have hfloor : ⌊quantity⌋ ≤ ⌊quantity + 1 / 2⌋ := Int.floor_mono (by linarith)
    exact_mod_cast hfloor

/-- A quantity that is rounded up differs from both of its roundings, and below one share its
floor is nothing. -/
theorem rounded_up_spec (hrule : rule.Fractional ∨ rule.Whole) {quantity : ℚ}
    (hpositive : 0 < quantity)
    (h : roundedExecutionQuantity quantity .sell rule <
      roundedExecutionQuantity quantity .buy rule) :
    rule.Whole ∧ (⌊quantity⌋ : ℚ) ≠ quantity ∧ (⌊quantity + 1 / 2⌋ : ℚ) ≠ quantity ∧
      0 ≤ ⌊quantity⌋ := by
  rcases hrule with hrule | hrule
  · rw [roundedExecutionQuantity_fractional hrule, roundedExecutionQuantity_fractional hrule] at h
    exact absurd h (lt_irrefl _)
  · rw [roundedExecutionQuantity_sell hrule, roundedExecutionQuantity_buy hrule] at h
    have hlt : ⌊quantity⌋ < ⌊quantity + 1 / 2⌋ := by exact_mod_cast h
    have hinteger : ∀ n : ℤ, (n : ℚ) = quantity → False := by
      rintro n rfl
      have hhalf : ⌊(n : ℚ) + 1 / 2⌋ = n := by
        rw [Int.floor_eq_iff]
        constructor <;> linarith
      rw [Int.floor_intCast, hhalf] at hlt
      exact lt_irrefl _ hlt
    exact ⟨hrule, hinteger _, hinteger _, Int.floor_nonneg.mpr hpositive.le⟩

end

section

variable {textCase : TextCase} {text : String} {fractional : Bool}

/-- The floor a rounded trade is listed with: that of a buy that was rounded up. -/
def floorOf (rules : ExecutionRules) (trade : ProposedTrade) : Option ℚ :=
  let rule := resolveExecutionRule trade.ticker rules
  let floored := roundedExecutionQuantity trade.quantity .sell rule
  if trade.side = .buy ∧ floored < roundedExecutionQuantity trade.quantity trade.side rule then
    some floored
  else none

theorem roundTrade_toOption (rules : ExecutionRules) (trade : ProposedTrade) :
    (roundTrade rules trade).toOption =
      (executable rules trade.side trade).map fun t => (t, floorOf rules trade) := by
  unfold roundTrade executable ProposedTrade.withQuantity floorOf
  dsimp only
  split
  · rfl
  · split
    · rfl
    · rfl

@[simp] theorem withQuantity_ticker (trade : ProposedTrade) (quantity : ℚ) :
    (trade.withQuantity quantity).ticker = trade.ticker := by
  unfold ProposedTrade.withQuantity
  split <;> rfl

@[simp] theorem withQuantity_side (trade : ProposedTrade) (quantity : ℚ) :
    (trade.withQuantity quantity).side = trade.side := by
  unfold ProposedTrade.withQuantity
  split <;> rfl

/-- The side of an executable trade is that of the trade. -/
theorem executable_side {rules : ExecutionRules} {side : OrderSide} {trade t : ProposedTrade}
    (h : executable rules side trade = some t) : t.side = trade.side := by
  unfold executable at h
  dsimp only at h
  split at h
  · cases h
  · rw [← Option.some.inj h, withQuantity_side]

/-- The ticker of an executable trade is that of the trade. -/
theorem executable_ticker {rules : ExecutionRules} {side : OrderSide} {trade t : ProposedTrade}
    (h : executable rules side trade = some t) : t.ticker = trade.ticker := by
  unfold executable at h
  dsimp only at h
  split at h
  · cases h
  · rw [← Option.some.inj h, withQuantity_ticker]

/-- A rounded buy with a floor: what it was rounded from is of no further account. -/
structure RoundedUp (rules : ExecutionRules) (trade : ProposedTrade) (floored : ℚ) : Prop where
  side : trade.side = .buy
  notional : trade.notional = trade.quantity * trade.referencePrice
  floored_nonneg : 0 ≤ floored
  floored_lt : floored < trade.quantity
  below : floored < (resolveExecutionRule trade.ticker rules).minQuantity → floored = 0
  price : trade.limitPrice = none ∨ ∃ limit, trade.limitPrice = some limit ∧ 0 < limit

theorem roundedUp_of_mem {trades : List ProposedTrade} (hpositive : PositiveTrades trades)
    {t : ProposedTrade} {floored : ℚ}
    (h : (t, some floored) ∈ roundTrades (buildExecutionRules textCase text fractional) trades) :
    RoundedUp (buildExecutionRules textCase text fractional) t floored := by
  obtain ⟨trade, htrade, hround⟩ := List.mem_filterMap.mp h
  obtain ⟨hquantity, -, hlimit⟩ := hpositive trade htrade
  rw [roundTrade_toOption] at hround
  obtain ⟨t', ht', hpair⟩ := Option.map_eq_some_iff.mp hround
  obtain ⟨rfl, hfloor⟩ := Prod.mk.inj hpair
  unfold floorOf at hfloor
  dsimp only at hfloor
  split at hfloor
  · rename_i hup
    obtain ⟨hside, hlt⟩ := hup
    rw [hside] at hlt ht'
    obtain ⟨hwhole, hne, hne', hnonneg⟩ :=
      rounded_up_spec (resolveExecutionRule_cases textCase text fractional _) hquantity hlt
    rw [roundedExecutionQuantity_sell hwhole] at hfloor
    obtain rfl := Option.some.inj hfloor
    have hfloorLt : (⌊trade.quantity⌋ : ℚ) < ⌊trade.quantity + 1 / 2⌋ := by
      rwa [roundedExecutionQuantity_sell hwhole, roundedExecutionQuantity_buy hwhole] at hlt
    unfold executable at ht'
    dsimp only at ht'
    split at ht'
    · cases ht'
    obtain rfl := Option.some.inj ht'
    unfold ProposedTrade.withQuantity
    rw [roundedExecutionQuantity_buy hwhole, if_pos hne']
    refine ⟨hside, rfl, by exact_mod_cast hnonneg, hfloorLt, fun hbelow => ?_, ?_⟩
    · have hone : (⌊trade.quantity⌋ : ℚ) < 1 := hwhole.2.1 ▸ hbelow
      have hone' : ⌊trade.quantity⌋ < 1 := by exact_mod_cast hone
      have hzero : ⌊trade.quantity⌋ = 0 := by omega
      rw [hzero, Int.cast_zero]
    · cases hprice : trade.limitPrice with
      | none => exact Or.inl rfl
      | some limit => exact Or.inr ⟨limit, rfl, hlimit limit hprice⟩
  · cases hfloor

/-- The cash of a rounded-up buy goes with its quantity, demoted or not. -/
theorem RoundedUp.netCash {rules : ExecutionRules} {trade : ProposedTrade} {floored : ℚ}
    (h : RoundedUp rules trade floored) {quantity : ℚ} (hquantity : 0 ≤ quantity) :
    ProposedTrade.netCash { trade with
      quantity := quantity, notional := quantity * trade.referencePrice } =
      quantity * trade.unitPrice := by
  simp only [ProposedTrade.netCash, ProposedTrade.buyCashRequiredUsd,
    ProposedTrade.sellCashCreditUsd, ProposedTrade.limitCash, ProposedTrade.unitPrice, h.side]
  rcases h.price with hprice | ⟨limit, hprice, hlimit⟩
  · simp [hprice]
  · simp [hprice, hlimit, hlimit.ne', abs_of_nonneg hquantity]

theorem RoundedUp.netCash_self {rules : ExecutionRules} {trade : ProposedTrade} {floored : ℚ}
    (h : RoundedUp rules trade floored) : trade.netCash = trade.quantity * trade.unitPrice := by
  have hself : { trade with notional := trade.quantity * trade.referencePrice } = trade := by
    rw [← h.notional]
  have hcash := h.netCash (h.floored_nonneg.trans h.floored_lt.le)
  rwa [hself] at hcash

end

/-- The cash of one place of a plan. -/
def placeCash (rules : ExecutionRules) (demoted : List Nat)
    (place : (ProposedTrade × Option ℚ) × Nat) : ℚ :=
  ((demoteItem rules demoted place).map ProposedTrade.netCash).getD 0

theorem netCashOutflow_demotedPlan (rules : ExecutionRules)
    (rounded : List (ProposedTrade × Option ℚ)) (demoted : List Nat) :
    netCashOutflow (demotedPlan rules rounded demoted) =
      (rounded.zipIdx.map (placeCash rules demoted)).sum := by
  rw [netCashOutflow_eq_sum, demotedPlan]
  generalize rounded.zipIdx = places
  induction places with
  | nil => rfl
  | cons place places ih =>
    rw [List.map_cons, List.sum_cons, ← ih, List.filterMap_cons]
    unfold placeCash
    cases demoteItem rules demoted place <;> simp

/-- Sums over the places of a list that agree except at one place differ by that place. -/
theorem sum_map_zipIdx_of_eq_off {α : Type} {l : List α} {k i : Nat} {x : α} (hx : l[i]? = some x)
    {f g : α × Nat → ℚ} (h : ∀ y j, j ≠ k + i → f (y, j) = g (y, j)) :
    ((l.zipIdx k).map f).sum = ((l.zipIdx k).map g).sum + (f (x, k + i) - g (x, k + i)) := by
  induction l generalizing k i with
  | nil => simp at hx
  | cons y l ih =>
    rw [List.zipIdx_cons, List.map_cons, List.map_cons, List.sum_cons, List.sum_cons]
    cases i with
    | zero =>
      obtain rfl : y = x := by simpa using hx
      have hrest : (l.zipIdx (k + 1)).map f = (l.zipIdx (k + 1)).map g := by
        apply List.map_congr_left
        intro z hz
        have hindex := List.le_snd_of_mem_zipIdx hz
        exact h z.1 z.2 (by omega)
      simp only [hrest, Nat.add_zero]
      ring
    | succ i =>
      have hindex : k + 1 + i = k + (i + 1) := by omega
      have hrest : ((l.zipIdx (k + 1)).map f).sum =
          ((l.zipIdx (k + 1)).map g).sum + (f (x, k + (i + 1)) - g (x, k + (i + 1))) := by
        rw [← hindex]
        exact ih (by simpa using hx) fun z j hj => h z j (by omega)
      rw [hrest, h y k (by omega)]
      ring

/-- Two lists that give the same at every place give the same lists. -/
theorem filterMap_zipIdx_congr {α β γ : Type} {l : List α} {m : List β} {k : Nat}
    {f : α × Nat → Option γ} {g : β × Nat → Option γ} (hlength : l.length = m.length)
    (h : ∀ i a b, l[i]? = some a → m[i]? = some b → f (a, k + i) = g (b, k + i)) :
    (l.zipIdx k).filterMap f = (m.zipIdx k).filterMap g := by
  induction l generalizing m k with
  | nil =>
    obtain rfl := List.length_eq_zero_iff.mp hlength.symm
    rfl
  | cons a l ih =>
    obtain ⟨b, m, rfl⟩ := List.exists_cons_of_length_eq_add_one hlength.symm
    have hhead : f (a, k) = g (b, k) := h 0 a b rfl rfl
    have htail : (l.zipIdx (k + 1)).filterMap f = (m.zipIdx (k + 1)).filterMap g := by
      apply ih (by simpa using hlength)
      intro i x y hx hy
      have hindex : k + 1 + i = k + (i + 1) := by omega
      rw [hindex]
      exact h (i + 1) x y (by simpa using hx) (by simpa using hy)
    rw [List.zipIdx_cons, List.zipIdx_cons, List.filterMap_cons, List.filterMap_cons, hhead, htail]

section

variable {rules : ExecutionRules} {rounded : List (ProposedTrade × Option ℚ)}

theorem mem_roundUps {r : RoundUp} : r ∈ roundUps rounded ↔
    ∃ t, rounded[r.index]? = some (t, some r.floored) ∧
      r.saving = (t.quantity - r.floored) * t.unitPrice := by
  unfold roundUps
  rw [List.mem_filterMap]
  constructor
  · rintro ⟨⟨⟨t, floor⟩, index⟩, hmem, hr⟩
    obtain ⟨floored, rfl, rfl⟩ := Option.map_eq_some_iff.mp hr
    exact ⟨t, List.mk_mem_zipIdx_iff_getElem?.mp hmem, rfl⟩
  · rintro ⟨t, hplace, hsaving⟩
    refine ⟨((t, some r.floored), r.index), List.mk_mem_zipIdx_iff_getElem?.mpr hplace, ?_⟩
    cases r
    simp_all

/-- A demotion takes its saving off the cash the plan needs. -/
theorem netCashOutflow_demote (hup : ∀ t floored, (t, some floored) ∈ rounded →
      RoundedUp rules t floored) {demoted : List Nat} {r : RoundUp} (hr : r ∈ roundUps rounded)
    (hnew : r.index ∉ demoted) :
    netCashOutflow (demotedPlan rules rounded (demoted ++ [r.index])) =
      netCashOutflow (demotedPlan rules rounded demoted) - r.saving := by
  obtain ⟨t, hplace, hsaving⟩ := mem_roundUps.mp hr
  have hrounded := hup t r.floored (List.mem_of_getElem? hplace)
  rw [netCashOutflow_demotedPlan, netCashOutflow_demotedPlan]
  have hoff : ∀ y j, j ≠ 0 + r.index →
      placeCash rules (demoted ++ [r.index]) (y, j) = placeCash rules demoted (y, j) := by
    rintro ⟨trade, floor⟩ j hj
    unfold placeCash
    cases floor with
    | none => rfl
    | some floored =>
      have hmem : j ∈ demoted ++ [r.index] ↔ j ∈ demoted := by
        simp only [List.mem_append, List.mem_singleton]
        constructor
        · rintro (h | h)
          · exact h
          · omega
        · exact Or.inl
      simp only [demoteItem, hmem]
  rw [sum_map_zipIdx_of_eq_off hplace hoff, Nat.zero_add]
  have hbefore : placeCash rules demoted ((t, some r.floored), r.index) =
      t.quantity * t.unitPrice := by
    simp only [placeCash, demoteItem, if_neg hnew, Option.map_some, Option.getD_some]
    exact hrounded.netCash_self
  have hafter : placeCash rules (demoted ++ [r.index]) ((t, some r.floored), r.index) =
      r.floored * t.unitPrice := by
    have hmem : r.index ∈ demoted ++ [r.index] := by simp
    simp only [placeCash, demoteItem, if_pos hmem]
    by_cases hbelow : r.floored ≤ 0 ∨
        r.floored < (resolveExecutionRule t.ticker rules).minQuantity
    · have hzero : r.floored = 0 := by
        rcases hbelow with h | h
        · exact le_antisymm h hrounded.floored_nonneg
        · exact hrounded.below h
      rw [if_pos hbelow, hzero]
      simp
    · rw [if_neg hbelow, Option.map_some, Option.getD_some]
      exact hrounded.netCash hrounded.floored_nonneg
  rw [hbefore, hafter, hsaving]
  ring

/-- The state of the loop after some demotions. -/
structure Demoted (rules : ExecutionRules) (rounded : List (ProposedTrade × Option ℚ))
    (demoted : List Nat) (state : Demotion) : Prop where
  length : state.adjusted.length = rounded.length
  untouched : ∀ i t floor, rounded[i]? = some (t, floor) → i ∉ demoted →
    state.adjusted[i]? = some t ∧ i ∉ state.dropped
  place : ∀ i t floor a, rounded[i]? = some (t, floor) → state.adjusted[i]? = some a →
    (if i ∈ state.dropped then none else some a) = demoteItem rules demoted ((t, floor), i)

/-- What the loop leaves is the plan with its demotions. -/
theorem Demoted.plan {demoted : List Nat} {state : Demotion}
    (h : Demoted rules rounded demoted state) :
    (state.adjusted.zipIdx.filter fun item => item.2 ∉ state.dropped).map (·.1) =
      demotedPlan rules rounded demoted := by
  have hfilter : (state.adjusted.zipIdx.filter fun item => item.2 ∉ state.dropped).map (·.1) =
      state.adjusted.zipIdx.filterMap fun item =>
        if item.2 ∈ state.dropped then none else some item.1 := by
    rw [← List.filterMap_eq_map, List.filterMap_filter]
    apply List.filterMap_congr
    intro item _
    by_cases hdropped : item.2 ∈ state.dropped <;> simp [hdropped]
  rw [hfilter, demotedPlan]
  apply filterMap_zipIdx_congr h.length
  rintro i a ⟨t, floor⟩ ha hplace
  rw [Nat.zero_add]
  exact h.place i t floor a hplace ha

/-- A demoted trade is of the ticker it was. -/
theorem demoteItem_ticker {demoted : List Nat} {t₀ t : ProposedTrade} {floor : Option ℚ}
    {index : Nat} (h : demoteItem rules demoted ((t₀, floor), index) = some t) :
    t.ticker = t₀.ticker := by
  cases floor with
  | none => rw [← Option.some.inj h]
  | some floored =>
    simp only [demoteItem] at h
    split at h
    · split at h
      · cases h
      · rw [← Option.some.inj h]
    · rw [← Option.some.inj h]

theorem demoteItem_append_of_ne {demoted : List Nat} {index i : Nat} (hne : i ≠ index)
    (item : ProposedTrade × Option ℚ) :
    demoteItem rules (demoted ++ [index]) (item, i) = demoteItem rules demoted (item, i) := by
  obtain ⟨trade, floor⟩ := item
  cases floor with
  | none => rfl
  | some floored => simp [demoteItem, hne]

/-- A buy that falls below its minimum is dropped. -/
theorem Demoted.drop {demoted : List Nat} {state : Demotion} {index : Nat} {t : ProposedTrade}
    {floored : ℚ} (h : Demoted rules rounded demoted state)
    (hplace : rounded[index]? = some (t, some floored))
    (hbelow : floored ≤ 0 ∨ floored < (resolveExecutionRule t.ticker rules).minQuantity)
    (warnings : List String) : Demoted rules rounded (demoted ++ [index])
      { state with dropped := state.dropped ++ [index], warnings := warnings } where
  length := h.length
  untouched i t' floor hi hnot := by
    rw [List.mem_append, List.mem_singleton, not_or] at hnot
    obtain ⟨hadjusted, hdropped⟩ := h.untouched i t' floor hi hnot.1
    refine ⟨hadjusted, ?_⟩
    rw [List.mem_append, List.mem_singleton, not_or]
    exact ⟨hdropped, hnot.2⟩
  place i t' floor a hi ha := by
    by_cases heq : i = index
    · rw [heq, hplace] at hi
      obtain ⟨rfl, rfl⟩ := Prod.mk.inj (Option.some.inj hi)
      simp [demoteItem, heq, hbelow]
    · rw [demoteItem_append_of_ne heq, ← h.place i t' floor a hi ha]
      simp [heq]

/-- Any other buy keeps its floored quantity. -/
theorem Demoted.set {demoted : List Nat} {state : Demotion} {index : Nat} {t : ProposedTrade}
    {floored : ℚ} (h : Demoted rules rounded demoted state)
    (hplace : rounded[index]? = some (t, some floored)) (hnew : index ∉ demoted)
    (hkept : ¬(floored ≤ 0 ∨ floored < (resolveExecutionRule t.ticker rules).minQuantity))
    (warnings : List String) : Demoted rules rounded (demoted ++ [index])
      { state with
        adjusted := state.adjusted.set index
          { t with quantity := floored, notional := floored * t.referencePrice }
        warnings := warnings } where
  length := by
    rw [List.length_set]
    exact h.length
  untouched i t' floor hi hnot := by
    rw [List.mem_append, List.mem_singleton, not_or] at hnot
    rw [List.getElem?_set_ne (Ne.symm hnot.2)]
    exact h.untouched i t' floor hi hnot.1
  place i t' floor a hi ha := by
    by_cases heq : i = index
    · rw [heq, hplace] at hi
      obtain ⟨rfl, rfl⟩ := Prod.mk.inj (Option.some.inj hi)
      obtain ⟨hadjusted, hdropped⟩ := h.untouched index t (some floored) hplace hnew
      have hlt : index < state.adjusted.length := (List.getElem?_eq_some_iff.mp hadjusted).1
      rw [heq, List.getElem?_set_self hlt] at ha
      rw [← Option.some.inj ha]
      simp [demoteItem, heq, hkept, hdropped]
    · rw [List.getElem?_set_ne (Ne.symm heq)] at ha
      rw [demoteItem_append_of_ne heq]
      exact h.place i t' floor a hi ha

/-- The loop demotes in order, and each demotion came while the cash was short. -/
theorem demoteLoop_demotes {order : List RoundUp} {overshoot : ℚ} {state : Demotion}
    {demoted : List Nat} (horder : ∀ r ∈ order, r ∈ roundUps rounded)
    (hnodup : (order.map (·.index)).Nodup) (hnew : ∀ r ∈ order, r.index ∉ demoted)
    (hstate : Demoted rules rounded demoted state) : ∃ done rest, order = done ++ rest ∧
      Demoted rules rounded (demoted ++ done.map (·.index))
        (demoteLoop rules order overshoot state) ∧
      (rest = [] ∨ overshoot - (done.map (·.saving)).sum ≤ cashTolerance) ∧
      ∀ earlier r later, done = earlier ++ r :: later →
        ¬overshoot - (earlier.map (·.saving)).sum ≤ cashTolerance := by
  induction order generalizing overshoot state demoted with
  | nil => exact ⟨[], [], rfl, by simpa [demoteLoop] using hstate, Or.inl rfl, by simp⟩
  | cons r order ih =>
    by_cases hfits : overshoot ≤ cashTolerance
    · refine ⟨[], r :: order, rfl, ?_, Or.inr (by simpa using hfits), by simp⟩
      rw [demoteLoop, if_pos hfits, List.map_nil, List.append_nil]
      exact hstate
    rw [List.map_cons, List.nodup_cons] at hnodup
    have hr := horder r List.mem_cons_self
    have hrnew := hnew r List.mem_cons_self
    obtain ⟨t, hplace, -⟩ := mem_roundUps.mp hr
    have hread := (hstate.untouched r.index t (some r.floored) hplace hrnew).1
    -- one demotion, and the rest of the loop after it
    have hnext : ∀ state', Demoted rules rounded (demoted ++ [r.index]) state' →
        ∃ done rest, r :: order = done ++ rest ∧
          Demoted rules rounded (demoted ++ done.map (·.index))
            (demoteLoop rules order (overshoot - r.saving) state') ∧
          (rest = [] ∨ overshoot - (done.map (·.saving)).sum ≤ cashTolerance) ∧
          ∀ earlier r' later, done = earlier ++ r' :: later →
            ¬overshoot - (earlier.map (·.saving)).sum ≤ cashTolerance := by
      intro state' hstate'
      have hnew' : ∀ r' ∈ order, r'.index ∉ demoted ++ [r.index] := by
        intro r' hr'
        rw [List.mem_append, List.mem_singleton, not_or]
        refine ⟨hnew r' (List.mem_cons_of_mem _ hr'), fun heq => hnodup.1 ?_⟩
        rw [← heq]
        exact List.mem_map_of_mem hr'
      obtain ⟨done, rest, hsplit, hdone, hend, hneeded⟩ :=
        ih (fun r' hr' => horder r' (List.mem_cons_of_mem _ hr')) hnodup.2 hnew' hstate'
      refine ⟨r :: done, rest, by rw [hsplit, List.cons_append], by simpa using hdone, ?_, ?_⟩
      · rw [List.map_cons, List.sum_cons, ← sub_sub]
        exact hend
      · intro earlier r' later hlast
        cases earlier with
        | nil => simpa using hfits
        | cons first earlier =>
          rw [List.cons_append, List.cons_eq_cons] at hlast
          obtain ⟨rfl, hlast⟩ := hlast
          rw [List.map_cons, List.sum_cons, ← sub_sub]
          exact hneeded earlier r' later hlast
    rw [demoteLoop, if_neg hfits, hread]
    by_cases hbelow : r.floored ≤ 0 ∨
        r.floored < (resolveExecutionRule t.ticker rules).minQuantity
    · simp only [hbelow, ite_true]
      exact hnext _ (hstate.drop hplace hbelow _)
    · simp only [hbelow, ite_false]
      exact hnext _ (hstate.set hplace hrnew hbelow _)

/-- At most one round-up is at a place. -/
theorem nodup_demotionOrder (rounded : List (ProposedTrade × Option ℚ)) :
    (demotionOrder rounded).Nodup := by
  have hsorted : (demotionOrder rounded).Perm ((roundUps rounded).map (·.index)) :=
    (List.perm_insertionSort _ _).map _
  rw [hsorted.nodup_iff]
  have hsublist : ((roundUps rounded).map (·.index)).Sublist (rounded.zipIdx.map (·.2)) := by
    unfold roundUps
    generalize rounded.zipIdx = places
    induction places with
    | nil => exact List.Sublist.refl _
    | cons place places ih =>
      obtain ⟨⟨t, floor⟩, index⟩ := place
      rw [List.filterMap_cons, List.map_cons]
      cases floor with
      | none => exact ih.cons _
      | some floored => exact ih.cons_cons _
  rw [List.zipIdx_map_snd] at hsublist
  exact hsublist.nodup List.nodup_range'

theorem mem_demotionOrder {index : Nat} {t : ProposedTrade} {floored : ℚ}
    (h : rounded[index]? = some (t, some floored)) : index ∈ demotionOrder rounded := by
  have hmem : (⟨(t.quantity - floored) * t.unitPrice, index, floored⟩ : RoundUp) ∈
      roundUps rounded := mem_roundUps.mpr ⟨t, h, rfl⟩
  have hsorted : (⟨(t.quantity - floored) * t.unitPrice, index, floored⟩ : RoundUp) ∈
      sortRoundUps (roundUps rounded) := (List.mem_insertionSort _).mpr hmem
  exact List.mem_map.mpr ⟨_, hsorted, rfl⟩

/-- Without demotions the plan is the rounded one. -/
theorem demotedPlan_nil (rules : ExecutionRules) (rounded : List (ProposedTrade × Option ℚ)) :
    demotedPlan rules rounded [] = rounded.map (·.1) := by
  have hitem : ∀ place : (ProposedTrade × Option ℚ) × Nat,
      demoteItem rules [] place = some place.1.1 := by
    rintro ⟨⟨t, floor⟩, index⟩
    cases floor <;> simp [demoteItem]
  have hplaces : (rounded.zipIdx.map fun place => place.1.1) =
      (rounded.zipIdx.map (·.1)).map (·.1) := by
    rw [List.map_map]
    rfl
  unfold demotedPlan
  rw [funext hitem, List.filterMap_eq_map', hplaces, List.zipIdx_map_fst]

/-- The plan with the cash is the rounded plan with the first round-ups of the order demoted. -/
theorem applyExecutionPolicy_plan (trades : List ProposedTrade) (rules : ExecutionRules)
    (cash : ℚ) : ∃ done rest,
      sortRoundUps (roundUps (roundTrades rules trades)) = done ++ rest ∧
      (applyExecutionPolicy trades rules (some cash)).1 =
        demotedPlan rules (roundTrades rules trades) (done.map (·.index)) ∧
      (rest = [] ∨ netCashOutflow ((roundTrades rules trades).map (·.1)) - cash -
        (done.map (·.saving)).sum ≤ cashTolerance) ∧
      ∀ earlier r later, done = earlier ++ r :: later →
        ¬netCashOutflow ((roundTrades rules trades).map (·.1)) - cash -
          (earlier.map (·.saving)).sum ≤ cashTolerance := by
  unfold applyExecutionPolicy demoteBuyRoundupsToFitCash
  dsimp only
  generalize roundTrades rules trades = rounded
  have hovershoot : ((rounded.map (·.1)).map ProposedTrade.buyCashRequiredUsd).sum -
      (cash + ((rounded.map (·.1)).map ProposedTrade.sellCashCreditUsd).sum) =
        netCashOutflow (rounded.map (·.1)) - cash := by
    unfold netCashOutflow
    ring
  rw [hovershoot]
  by_cases hfits : netCashOutflow (rounded.map (·.1)) - cash ≤ cashTolerance
  · refine ⟨[], _, rfl, ?_, Or.inr (by simpa using hfits), by simp⟩
    rw [if_pos hfits, List.map_nil, demotedPlan_nil]
  · rw [if_neg hfits]
    have hstart : Demoted rules rounded [] { adjusted := rounded.map (·.1) } := by
      constructor
      · simp
      · intro i t floor hi _
        simp [hi]
      · rintro i t floor a hi ha
        obtain rfl : t = a := by simpa [hi] using ha
        cases floor <;> simp [demoteItem]
    have horder : ∀ r ∈ sortRoundUps (roundUps rounded), r ∈ roundUps rounded := by
      intro r hr
      exact (List.mem_insertionSort _).mp hr
    obtain ⟨done, rest, hsplit, hdone, hend, hneeded⟩ := demoteLoop_demotes horder
      (nodup_demotionOrder rounded) (fun _ _ => List.not_mem_nil) hstart
    rw [List.nil_append] at hdone
    exact ⟨done, rest, hsplit, hdone.plan, hend, hneeded⟩

/-- Demotions take their savings off the cash the plan needs. -/
theorem netCashOutflow_demotions
    (hup : ∀ t floored, (t, some floored) ∈ rounded → RoundedUp rules t floored)
    {done : List RoundUp} (hmem : ∀ r ∈ done, r ∈ roundUps rounded)
    (hnodup : (done.map (·.index)).Nodup) :
    netCashOutflow (demotedPlan rules rounded (done.map (·.index))) =
      netCashOutflow (rounded.map (·.1)) - (done.map (·.saving)).sum := by
  induction done using List.reverseRecOn with
  | nil => simp [demotedPlan_nil]
  | append_singleton done r ih =>
    rw [List.map_append, List.map_singleton] at hnodup ⊢
    obtain ⟨hnodup, -, hdisjoint⟩ := List.nodup_append.mp hnodup
    have hnew : r.index ∉ done.map (·.index) := fun hr =>
      hdisjoint _ hr _ (List.mem_singleton_self _) rfl
    rw [netCashOutflow_demote hup (hmem r (by simp)) hnew,
      ih (fun r' hr' => hmem r' (by simp [hr'])) hnodup, List.map_append, List.sum_append]
    simp
    ring

/-- A rounded trade, demoted wherever it can be. -/
def demoteFully (rules : ExecutionRules) : ProposedTrade × Option ℚ → Option ProposedTrade
  | (trade, some floored) =>
    if floored ≤ 0 ∨ floored < (resolveExecutionRule trade.ticker rules).minQuantity then none
    else some { trade with quantity := floored, notional := floored * trade.referencePrice }
  | (trade, none) => some trade

theorem demotedPlan_all (rules : ExecutionRules) (rounded : List (ProposedTrade × Option ℚ)) :
    demotedPlan rules rounded (demotionOrder rounded) =
      rounded.filterMap (demoteFully rules) := by
  have hfirst : (rounded.zipIdx.filterMap fun place => demoteFully rules place.1) =
      rounded.filterMap (demoteFully rules) := by
    have hmap : (rounded.zipIdx.map (·.1)).filterMap (demoteFully rules) =
        rounded.zipIdx.filterMap fun place => demoteFully rules place.1 := by
      rw [List.filterMap_map]
      rfl
    rw [← hmap, List.zipIdx_map_fst]
  rw [← hfirst, demotedPlan]
  apply List.filterMap_congr
  rintro ⟨⟨t, floor⟩, index⟩ hmem
  cases floor with
  | none => rfl
  | some floored =>
    have hindex := mem_demotionOrder (List.mk_mem_zipIdx_iff_getElem?.mp hmem)
    simp only [demoteItem, if_pos hindex, demoteFully]

end

section

variable {textCase : TextCase} {text : String} {fractional : Bool}

/-- Demoting a rounded trade is rounding it down. -/
theorem roundTrade_demoteFully {rules : ExecutionRules} {trade : ProposedTrade}
    (hrule : (resolveExecutionRule trade.ticker rules).Fractional ∨
      (resolveExecutionRule trade.ticker rules).Whole) (hquantity : 0 < trade.quantity) :
    ((roundTrade rules trade).toOption.bind (demoteFully rules)) =
      executable rules .sell trade := by
  rw [roundTrade_toOption]
  have hle := rounded_sell_le_buy hrule trade.quantity
  have hup := rounded_up_spec hrule hquantity
  cases hside : trade.side with
  | sell =>
    have hfloor : floorOf rules trade = none := by simp [floorOf, hside]
    rw [hfloor]
    cases executable rules .sell trade <;> rfl
  | buy =>
    unfold executable floorOf
    simp only [hside, true_and]
    set rule := resolveExecutionRule trade.ticker rules with hrule
    by_cases hlt : roundedExecutionQuantity trade.quantity .sell rule <
        roundedExecutionQuantity trade.quantity .buy rule
    · obtain ⟨hwhole, hne, hne', hnonneg⟩ := hup hlt
      rw [roundedExecutionQuantity_sell hwhole, roundedExecutionQuantity_buy hwhole] at *
      by_cases hnearest : (⌊trade.quantity + 1 / 2⌋ : ℚ) ≤ 0 ∨
          (⌊trade.quantity + 1 / 2⌋ : ℚ) < rule.minQuantity
      · have hbelow : (⌊trade.quantity⌋ : ℚ) ≤ 0 ∨ (⌊trade.quantity⌋ : ℚ) < rule.minQuantity :=
          hnearest.imp (fun h => hlt.le.trans h) fun h => hlt.trans h
        rw [if_pos hnearest, if_pos hbelow]
        rfl
      · rw [if_neg hnearest, if_pos hlt]
        simp only [Option.map_some, Option.bind_some, demoteFully, withQuantity_ticker, ← hrule]
        unfold ProposedTrade.withQuantity
        rw [if_pos hne, if_pos hne']
    · have hsame : roundedExecutionQuantity trade.quantity .buy rule =
          roundedExecutionQuantity trade.quantity .sell rule := le_antisymm (not_lt.mp hlt) hle
      rw [hsame, if_neg (lt_irrefl _)]
      split <;> rfl

/-- Demoting everything is rounding everything down. -/
theorem demotedPlan_all_eq_flooredPlan {trades : List ProposedTrade}
    (hpositive : PositiveTrades trades) :
    demotedPlan (buildExecutionRules textCase text fractional)
        (roundTrades (buildExecutionRules textCase text fractional) trades)
        (demotionOrder (roundTrades (buildExecutionRules textCase text fractional) trades)) =
      flooredPlan (buildExecutionRules textCase text fractional) trades := by
  rw [demotedPlan_all, roundTrades, List.filterMap_filterMap, flooredPlan]
  apply List.filterMap_congr
  intro trade htrade
  exact roundTrade_demoteFully (resolveExecutionRule_cases textCase text fractional _)
    (hpositive trade htrade).1

/-- What the loop makes of a plan that does not fit. -/
theorem applyExecutionPolicy_demoted {trades : List ProposedTrade}
    (hpositive : PositiveTrades trades) (cash : ℚ) : ∃ demoted,
    demoted <+: demotionOrder (roundTrades (buildExecutionRules textCase text fractional) trades) ∧
      (applyExecutionPolicy trades (buildExecutionRules textCase text fractional) (some cash)).1 =
        demotedPlan (buildExecutionRules textCase text fractional)
          (roundTrades (buildExecutionRules textCase text fractional) trades) demoted ∧
      (demoted = demotionOrder (roundTrades (buildExecutionRules textCase text fractional) trades) ∨
        netCashOutflow (demotedPlan (buildExecutionRules textCase text fractional)
          (roundTrades (buildExecutionRules textCase text fractional) trades) demoted) - cash ≤
            cashTolerance) ∧
      ∀ earlier last, demoted = earlier ++ [last] →
        ¬netCashOutflow (demotedPlan (buildExecutionRules textCase text fractional)
          (roundTrades (buildExecutionRules textCase text fractional) trades) earlier) - cash ≤
            cashTolerance := by
  have hup : ∀ t floored,
      (t, some floored) ∈ roundTrades (buildExecutionRules textCase text fractional) trades →
        RoundedUp (buildExecutionRules textCase text fractional) t floored :=
    fun t floored => roundedUp_of_mem hpositive
  generalize buildExecutionRules textCase text fractional = rules at hup ⊢
  obtain ⟨done, rest, hsplit, hplan, hend, hneeded⟩ :=
    applyExecutionPolicy_plan trades rules cash
  generalize roundTrades rules trades = rounded at hup hsplit hplan hend hneeded ⊢
  have hinitial : done.map (·.index) <+: demotionOrder rounded := by
    rw [demotionOrder, hsplit, List.map_append]
    exact List.prefix_append _ _
  -- what some of the demotions leave of the cash the plan needs
  have hcash : ∀ part, part <+: done →
      netCashOutflow (demotedPlan rules rounded (part.map (·.index))) - cash =
        netCashOutflow (rounded.map (·.1)) - cash - (part.map (·.saving)).sum := by
    intro part hpart
    have hindices := (hpart.map (·.index)).trans hinitial
    rw [netCashOutflow_demotions hup _ (hindices.sublist.nodup (nodup_demotionOrder rounded))]
    · ring
    · intro r hr
      have hsorted : r ∈ sortRoundUps (roundUps rounded) := by
        rw [hsplit]
        exact List.mem_append_left _ (hpart.subset hr)
      exact (List.mem_insertionSort _).mp hsorted
  refine ⟨done.map (·.index), hinitial, hplan, ?_, ?_⟩
  · rw [hcash done List.prefix_rfl]
    refine hend.imp_left fun hrest => ?_
    rw [demotionOrder, hsplit, hrest, List.append_nil]
  · intro earlier last hlast
    obtain ⟨before, final, rfl, hbefore, hfinal⟩ := List.map_eq_append_iff.mp hlast
    obtain ⟨r, rfl⟩ := List.map_eq_singleton_iff.mp hfinal |>.imp fun _ h => h.1
    rw [← hbefore, hcash before (List.prefix_append _ _)]
    exact hneeded before r [] rfl

/-- A sell is not demoted. -/
theorem filter_sell_demotedPlan {rules : ExecutionRules}
    {rounded : List (ProposedTrade × Option ℚ)}
    (hup : ∀ t floored, (t, some floored) ∈ rounded → RoundedUp rules t floored)
    (demoted : List Nat) :
    ((demotedPlan rules rounded demoted).filter fun t => t.side = .sell) =
      (rounded.map (·.1)).filter fun t => t.side = .sell := by
  rw [← demotedPlan_nil rules rounded, demotedPlan, demotedPlan, List.filter_filterMap,
    List.filter_filterMap]
  apply List.filterMap_congr
  rintro ⟨⟨t, floor⟩, index⟩ hmem
  cases floor with
  | none => rfl
  | some floored =>
    have hbuy := (hup t floored
      (List.mem_of_getElem? (List.mk_mem_zipIdx_iff_getElem?.mp hmem))).side
    simp only [demoteItem, List.not_mem_nil, ite_false]
    split
    · split <;> simp [Option.filter, hbuy]
    · rfl

/-- A trade of a plan with demotions is a trade of the list, rounded one way or the other. -/
theorem mem_demotedPlan {rules : ExecutionRules}
    {trades : List ProposedTrade} (hpositive : ∀ trade ∈ trades, 0 < trade.quantity)
    {demoted : List Nat} {t : ProposedTrade}
    (hrule : (resolveExecutionRule t.ticker rules).Fractional ∨
      (resolveExecutionRule t.ticker rules).Whole)
    (h : t ∈ demotedPlan rules (roundTrades rules trades) demoted) :
    ∃ trade ∈ trades, executable rules trade.side trade = some t ∨
      executable rules .sell trade = some t := by
  obtain ⟨⟨⟨t₀, floor⟩, index⟩, hplace, hitem⟩ := List.mem_filterMap.mp h
  have hrounded := List.mem_of_getElem? (List.mk_mem_zipIdx_iff_getElem?.mp hplace)
  obtain ⟨trade, htrade, hround⟩ := List.mem_filterMap.mp hrounded
  refine ⟨trade, htrade, ?_⟩
  have hnearest : executable rules trade.side trade = some t₀ := by
    rw [roundTrade_toOption] at hround
    obtain ⟨t₁, ht₁, hpair⟩ := Option.map_eq_some_iff.mp hround
    rw [ht₁, (Prod.mk.inj hpair).1]
  have hticker : t.ticker = trade.ticker := by
    rw [demoteItem_ticker hitem]
    exact executable_ticker hnearest
  rw [hticker] at hrule
  cases floor with
  | none => exact Or.inl (hnearest.trans hitem)
  | some floored =>
    simp only [demoteItem] at hitem
    split at hitem
    · have hfully := roundTrade_demoteFully hrule (hpositive trade htrade)
      rw [hround] at hfully
      exact Or.inr (hfully.symm.trans hitem)
    · exact Or.inl (hnearest.trans hitem)

/-- A buy is rounded to its nearest shares. -/
theorem roundedExecutionQuantity_nearest (trade : ProposedTrade) :
    roundedExecutionQuantity trade.quantity .buy
      (resolveExecutionRule trade.ticker (buildExecutionRules textCase text fractional)) =
      trade.nearestShares (buildExecutionRules textCase text fractional) := by
  unfold ProposedTrade.nearestShares
  rcases resolveExecutionRule_cases textCase text fractional trade.ticker with hfraction | hwhole
  · rw [if_pos hfraction.1]
    exact roundedExecutionQuantity_fractional hfraction _ _
  · rw [if_neg (by simp [hwhole.1])]
    exact roundedExecutionQuantity_buy hwhole _

/-- A sell is rounded to its floored shares. -/
theorem roundedExecutionQuantity_floored (trade : ProposedTrade) :
    roundedExecutionQuantity trade.quantity .sell
      (resolveExecutionRule trade.ticker (buildExecutionRules textCase text fractional)) =
      trade.flooredShares (buildExecutionRules textCase text fractional) := by
  unfold ProposedTrade.flooredShares
  rcases resolveExecutionRule_cases textCase text fractional trade.ticker with hfraction | hwhole
  · rw [if_pos hfraction.1]
    exact roundedExecutionQuantity_fractional hfraction _ _
  · rw [if_neg (by simp [hwhole.1])]
    exact roundedExecutionQuantity_sell hwhole _

theorem executable_buy (trade : ProposedTrade) :
    executable (buildExecutionRules textCase text fractional) .buy trade =
      trade.ofShares (buildExecutionRules textCase text fractional)
        (trade.nearestShares (buildExecutionRules textCase text fractional)) := by
  unfold executable ProposedTrade.ofShares
  dsimp only
  rw [roundedExecutionQuantity_nearest]

theorem executable_sell (trade : ProposedTrade) :
    executable (buildExecutionRules textCase text fractional) .sell trade =
      trade.ofShares (buildExecutionRules textCase text fractional)
        (trade.flooredShares (buildExecutionRules textCase text fractional)) := by
  unfold executable ProposedTrade.ofShares
  dsimp only
  rw [roundedExecutionQuantity_floored]

theorem flooredPlan_eq (trades : List ProposedTrade) :
    flooredPlan (buildExecutionRules textCase text fractional) trades =
      roundedDown (buildExecutionRules textCase text fractional) trades :=
  List.filterMap_congr fun trade _ => executable_sell trade

theorem roundTrades_eq (trades : List ProposedTrade) :
    roundTrades (buildExecutionRules textCase text fractional) trades =
      roundedNearest (buildExecutionRules textCase text fractional) trades := by
  apply List.filterMap_congr
  intro trade _
  rw [roundTrade_toOption]
  unfold floorOf
  dsimp only
  rw [roundedExecutionQuantity_floored]
  cases hside : trade.side with
  | buy =>
    rw [executable_buy, roundedExecutionQuantity_nearest]
    rfl
  | sell =>
    rw [executable_sell]
    simp

/-- Rounding up never makes an affordable plan unaffordable. -/
theorem applyExecutionPolicy_fitsCash (text : String) (fractional : Bool)
    (trades : List ProposedTrade) (hpositive : PositiveTrades trades) (cash : ℚ) :
    FitsCash trades (buildExecutionRules textCase text fractional) cash := by
  obtain ⟨demoted, hinitial, hplan, hend, hneeded⟩ := applyExecutionPolicy_demoted hpositive cash
  rw [roundTrades_eq] at hinitial hplan hend hneeded
  constructor
  · intro hfloored
    rw [enforceBuyingPower_eq_nil_iff] at hfloored ⊢
    rw [hplan]
    rcases hend with hall | hfits
    · rwa [hall, ← roundTrades_eq, demotedPlan_all_eq_flooredPlan hpositive, flooredPlan_eq]
    · exact hfits
  · rw [hplan, ← roundTrades_eq]
    exact filter_sell_demotedPlan (fun t floored => roundedUp_of_mem hpositive) demoted
  · intro t ht hside
    rw [hplan, ← roundTrades_eq] at ht
    obtain ⟨trade, htrade, hround⟩ := mem_demotedPlan (fun trade h => (hpositive trade h).1)
      (resolveExecutionRule_cases textCase text fractional _) ht
    refine ⟨trade, htrade, ?_⟩
    rw [← executable_buy, ← executable_sell]
    refine hround.imp_left fun hnearest => ?_
    rwa [← executable_side hnearest, hside] at hnearest
  · intro hfits
    rw [enforceBuyingPower_eq_nil_iff, ← roundTrades_eq] at hfits
    unfold netCashOutflow at hfits
    rw [← roundTrades_eq]
    unfold applyExecutionPolicy demoteBuyRoundupsToFitCash
    dsimp only
    rw [if_pos (by linarith)]
  · refine ⟨demoted, hinitial, hplan, fun earlier last hsplit => ?_⟩
    rw [ne_eq, enforceBuyingPower_eq_nil_iff]
    exact hneeded earlier last hsplit

end

/-- A buy of 5.6 shares at 200 and one of 2.6 at 100, with cash for 1400. -/
theorem applyExecutionPolicy_fitsCash_two_buys :
    FitsCash [⟨"AAPL", .buy, 56 / 10, 1120, 200, none, "", none, "snapshot", "snapshot_price", none,
        none, none⟩, ⟨"MSFT", .buy, 26 / 10, 260, 100, none, "", none, "snapshot", "snapshot_price",
        none, none, none⟩] (buildExecutionRules {} "" false) 1400 := by
  apply applyExecutionPolicy_fitsCash
  intro trade htrade
  simp only [List.mem_cons, List.not_mem_nil, or_false] at htrade
  rcases htrade with rfl | rfl
  · exact ⟨by norm_num, by norm_num, by simp⟩
  · exact ⟨by norm_num, by norm_num, by simp⟩

end Poma

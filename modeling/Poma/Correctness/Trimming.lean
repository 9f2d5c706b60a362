import Poma.Correctness.Ceiling

/-!
# Trimming buys to the cash

One turn of the trim shrinks a buy by whole increments and keeps it above its
minimum, and takes what it cut off the shortfall. When every buy costs its
quantity at one price, the turns never fail, and what they leave fits the cash;
there is nothing to leave only where the buys cannot be trimmed.
-/

namespace Poma

/-- The price a buy costs for each share: its limit, or the price it was planned at. -/
def ProposedTrade.cashPerShare (trade : ProposedTrade) : ℚ :=
  trade.limitPrice.getD trade.referencePrice

/-- A trade cut down to a quantity. -/
def ProposedTrade.shrunkTo (trade : ProposedTrade) (quantity : ℚ) : ProposedTrade :=
  { trade with quantity := quantity, notional := quantity * trade.referencePrice }

/-- A buy of a positive quantity that costs one positive price for each share. -/
structure ProposedTrade.Purchase (trade : ProposedTrade) : Prop where
  side : trade.side = .buy
  quantity_pos : 0 < trade.quantity
  price_pos : 0 < trade.cashPerShare
  notional : trade.limitPrice = none → trade.notional = trade.quantity * trade.referencePrice

namespace ProposedTrade.Purchase

variable {trade : ProposedTrade}

theorem cash (h : trade.Purchase) : trade.buyCashRequiredUsd = trade.quantity * trade.cashPerShare := by
  have hprice := h.price_pos
  unfold ProposedTrade.buyCashRequiredUsd ProposedTrade.limitCash
  unfold ProposedTrade.cashPerShare at hprice ⊢
  rw [if_neg (not_not.mpr h.side)]
  cases hlimit : trade.limitPrice with
  | none => exact h.notional hlimit
  | some limit =>
    rw [hlimit, Option.getD_some] at hprice
    dsimp only
    rw [if_pos hprice, abs_of_pos h.quantity_pos, Option.getD_some]

theorem shrunkTo (h : trade.Purchase) {quantity : ℚ} (hquantity : 0 < quantity) :
    (trade.shrunkTo quantity).Purchase :=
  ⟨h.side, hquantity, h.price_pos, fun _ => rfl⟩

theorem cash_div_quantity (h : trade.Purchase) :
    trade.buyCashRequiredUsd / trade.quantity = trade.cashPerShare := by
  rw [h.cash]
  exact mul_div_cancel_left₀ _ h.quantity_pos.ne'

end ProposedTrade.Purchase

/-- The shares that cover a shortfall, in whole increments up to a slack, and no more than the buy
has. -/
def ProposedTrade.sharesToCut (trade : ProposedTrade) (rules : ExecutionRules) (shortfall : ℚ) :
    ℚ :=
  let increment := (resolveExecutionRule trade.ticker rules).quantityIncrement
  let shares := min (shortfall / trade.cashPerShare) trade.quantity
  if 0 < increment then ⌈shares / increment - fillTolerance⌉ * increment else shares

/-- Buys that cannot be trimmed for a shortfall: they are cut in their order, until one would fall
below its minimum or until the last of them leaves some of it. -/
inductive Untrimmable (rules : ExecutionRules) : List ProposedTrade → ℚ → Prop
  | exhausted {shortfall : ℚ} (hshort : cashTolerance < shortfall) : Untrimmable rules [] shortfall
  | belowMinimum {trade : ProposedTrade} {rest : List ProposedTrade} {shortfall : ℚ}
    (hshort : cashTolerance < shortfall)
    (hleft : trade.quantity - trade.sharesToCut rules shortfall ≤ fillTolerance ∨
      trade.quantity - trade.sharesToCut rules shortfall <
        (resolveExecutionRule trade.ticker rules).minQuantity) :
    Untrimmable rules (trade :: rest) shortfall
  | later {trade : ProposedTrade} {rest : List ProposedTrade} {shortfall : ℚ}
    (hshort : cashTolerance < shortfall)
    (hrest : Untrimmable rules rest
      (shortfall - trade.sharesToCut rules shortfall * trade.cashPerShare)) :
    Untrimmable rules (trade :: rest) shortfall

/-- Buys by decreasing cash, earlier ones first among equals. -/
def largestFirst (buys : List ProposedTrade) : List ProposedTrade :=
  buys.insertionSort fun a b => b.buyCashRequiredUsd ≤ a.buyCashRequiredUsd

/-- A buy as the trim may leave it: unchanged, or fewer shares that the rule allows. -/
structure Shrunk (rules : ExecutionRules) (trade trimmed : ProposedTrade) : Prop where
  same : trimmed = trade ∨ (trimmed = trade.shrunkTo trimmed.quantity ∧
    (resolveExecutionRule trade.ticker rules).minQuantity ≤ trimmed.quantity)
  pos : 0 < trimmed.quantity
  le : trimmed.quantity ≤ trade.quantity
  steps : ∀ n : ℤ, 0 < (resolveExecutionRule trade.ticker rules).quantityIncrement →
    trade.quantity = n * (resolveExecutionRule trade.ticker rules).quantityIncrement →
    ∃ m : ℤ, trimmed.quantity = m * (resolveExecutionRule trade.ticker rules).quantityIncrement

namespace Shrunk

variable {rules : ExecutionRules} {trade trimmed later : ProposedTrade}

theorem refl (h : 0 < trade.quantity) : Shrunk rules trade trade :=
  ⟨Or.inl rfl, h, le_rfl, fun n _ hn => ⟨n, hn⟩⟩

theorem ticker (h : Shrunk rules trade trimmed) : trimmed.ticker = trade.ticker := by
  rcases h.same with heq | ⟨heq, _⟩ <;> rw [heq]
  rfl

theorem trans (h : Shrunk rules trade trimmed) (hlater : Shrunk rules trimmed later) :
    Shrunk rules trade later := by
  have hticker := h.ticker
  refine ⟨?_, hlater.pos, hlater.le.trans h.le, ?_⟩
  · rcases hlater.same with heq | ⟨heq, hmin⟩
    · rw [heq]
      exact h.same
    · rw [hticker] at hmin
      refine Or.inr ⟨?_, hmin⟩
      rcases h.same with hsame | ⟨hsame, _⟩
      · rwa [hsame] at heq
      · rw [hsame] at heq
        exact heq
  · intro n hincrement hn
    obtain ⟨m, hm⟩ := h.steps n hincrement hn
    have hsteps := hlater.steps m
    rw [hticker] at hsteps
    exact hsteps hincrement hm

end Shrunk

namespace ProposedTrade.Purchase

variable {trade : ProposedTrade} {rules : ExecutionRules} {shortfall cut : ℚ}

/-- A turn of the trim shrinks its buy. -/
theorem shrunk_of_trimCut (h : trade.Purchase) (hshort : cashTolerance < shortfall)
    (hcut : trimCut (resolveExecutionRule trade.ticker rules) trade.quantity trade.cashPerShare
      shortfall = cut)
    (hleft : ¬(trade.quantity - cut ≤ fillTolerance ∨
      trade.quantity - cut < (resolveExecutionRule trade.ticker rules).minQuantity)) :
    Shrunk rules trade (trade.shrunkTo (trade.quantity - cut)) := by
  have hcash : (0 : ℚ) ≤ cashTolerance := by decide +kernel
  have htolerance : (0 : ℚ) ≤ fillTolerance := by decide +kernel
  have hnonneg : 0 ≤ cut := by
    rw [← hcut]
    exact trimCut_nonneg h.quantity_pos.le h.price_pos.le (hcash.trans hshort.le)
  obtain ⟨hpos, hmin⟩ := not_or.mp hleft
  refine ⟨Or.inr ⟨rfl, not_lt.mp hmin⟩, htolerance.trans_lt (not_le.mp hpos), ?_, ?_⟩
  · exact sub_le_self _ hnonneg
  · intro n hincrement hn
    unfold trimCut at hcut
    dsimp only at hcut
    rw [if_pos hincrement] at hcut
    refine ⟨n - ⌈min (shortfall / trade.cashPerShare) trade.quantity /
      (resolveExecutionRule trade.ticker rules).quantityIncrement - fillTolerance⌉, ?_⟩
    show trade.quantity - cut = _
    rw [← hcut, hn]
    push_cast
    ring

end ProposedTrade.Purchase

section Loop

variable {rules : ExecutionRules}

theorem forall₂_shrunk_trans {buys trimmed later : List ProposedTrade}
    (h : List.Forall₂ (Shrunk rules) buys trimmed)
    (hlater : List.Forall₂ (Shrunk rules) trimmed later) :
    List.Forall₂ (Shrunk rules) buys later := by
  induction h generalizing later with
  | nil => exact hlater
  | cons hfirst _ ih =>
    cases hlater with
    | cons hsecond hrest => exact .cons (hfirst.trans hsecond) (ih hrest)

/-- A list with one buy shrunk. -/
theorem forall₂_shrunk_set {buys : List ProposedTrade} (hbuys : ∀ trade ∈ buys, trade.Purchase)
    {index : Nat} {trade trimmed : ProposedTrade} (htrade : buys[index]? = some trade)
    (h : Shrunk rules trade trimmed) : List.Forall₂ (Shrunk rules) buys (buys.set index trimmed) := by
  induction buys generalizing index with
  | nil => cases htrade
  | cons first rest ih =>
    have hrest := fun other hmem => hbuys other (List.mem_cons_of_mem _ hmem)
    have hfirst : Shrunk rules first first :=
      Shrunk.refl (hbuys first List.mem_cons_self).quantity_pos
    cases index with
    | zero =>
      obtain rfl := Option.some.inj htrade
      exact .cons h (List.forall₂_same.mpr fun other hmem =>
        Shrunk.refl (hrest other hmem).quantity_pos)
    | succ index => exact .cons hfirst (ih hrest htrade)

/-- The cash of a list with one buy replaced. -/
theorem buyCashRequired_set {buys : List ProposedTrade} {index : Nat}
    {trade other : ProposedTrade} (htrade : buys[index]? = some trade) :
    buyCashRequired (buys.set index other) =
      buyCashRequired buys - trade.buyCashRequiredUsd + other.buyCashRequiredUsd := by
  obtain ⟨hindex, rfl⟩ := List.getElem?_eq_some_iff.mp htrade
  unfold buyCashRequired
  rw [List.map_set, List.sum_set', dif_pos (by rwa [List.length_map]), List.getElem_map]
  ring

/-- Without a shortfall the buys fit as they are. -/
theorem fits_of_covered {buys : List ProposedTrade} (hbuys : ∀ trade ∈ buys, trade.Purchase)
    {cash shortfall : ℚ} (hshort : shortfall = buyCashRequired buys - cash)
    (hcovered : shortfall ≤ cashTolerance) :
    List.Forall₂ (Shrunk rules) buys buys ∧ buyCashRequired buys ≤ cash + cashTolerance := by
  refine ⟨List.forall₂_same.mpr fun trade hmem => Shrunk.refl (hbuys trade hmem).quantity_pos, ?_⟩
  rw [hshort] at hcovered
  linarith

/-- The turns of the trim do not fail, and what they leave are the buys, shrunk to the cash. -/
theorem trimLoop_spec {order : List Nat} {buys : List ProposedTrade}
    (hbuys : ∀ trade ∈ buys, trade.Purchase) (horder : ∀ index ∈ order, index < buys.length)
    {cash shortfall : ℚ} (hshort : shortfall = buyCashRequired buys - cash) :
    ∃ result, trimLoop rules order buys shortfall = .ok result ∧ ∀ trimmed, result = some trimmed →
      List.Forall₂ (Shrunk rules) buys trimmed ∧ buyCashRequired trimmed ≤ cash + cashTolerance := by
  induction order generalizing buys shortfall with
  | nil =>
    rw [trimLoop]
    refine ⟨_, rfl, ?_⟩
    by_cases hcovered : shortfall ≤ cashTolerance
    · rw [if_pos hcovered]
      rintro trimmed ⟨⟩
      exact fits_of_covered hbuys hshort hcovered
    · rw [if_neg hcovered]
      rintro trimmed ⟨⟩
  | cons index order ih =>
    rw [trimLoop]
    by_cases hcovered : shortfall ≤ cashTolerance
    · rw [if_pos hcovered]
      refine ⟨_, rfl, ?_⟩
      rintro trimmed ⟨⟩
      exact fits_of_covered hbuys hshort hcovered
    rw [if_neg hcovered]
    have hindex := horder index List.mem_cons_self
    have htrade : buys[index]? = some buys[index] := List.getElem?_eq_getElem hindex
    have hpurchase := hbuys _ (List.getElem_mem hindex)
    generalize buys[index] = trade at htrade hpurchase
    have hprice := hpurchase.cash_div_quantity
    have hnonzero : ¬(trade.quantity = 0 ∨ trade.buyCashRequiredUsd / trade.quantity = 0) := by
      rw [hprice]
      exact not_or.mpr ⟨hpurchase.quantity_pos.ne', hpurchase.price_pos.ne'⟩
    rw [htrade]
    dsimp only
    rw [if_neg hnonzero, hprice]
    generalize hcut : trimCut (resolveExecutionRule trade.ticker rules) trade.quantity
      trade.cashPerShare shortfall = cut
    split
    · exact ⟨none, rfl, by rintro trimmed ⟨⟩⟩
    rename_i hleft
    have hshrunk := hpurchase.shrunk_of_trimCut (not_le.mp hcovered) hcut hleft
    have hquantity : 0 < trade.quantity - cut := hshrunk.pos
    have hbuys' : ∀ other ∈ buys.set index (trade.shrunkTo (trade.quantity - cut)),
        other.Purchase := by
      intro other hmem
      rcases List.mem_or_eq_of_mem_set hmem with hmem | rfl
      · exact hbuys other hmem
      · exact hpurchase.shrunkTo hquantity
    have horder' : ∀ other ∈ order,
        other < (buys.set index (trade.shrunkTo (trade.quantity - cut))).length := by
      intro other hmem
      rw [List.length_set]
      exact horder other (List.mem_cons_of_mem _ hmem)
    have hshort' : shortfall - cut * trade.cashPerShare =
        buyCashRequired (buys.set index (trade.shrunkTo (trade.quantity - cut))) - cash := by
      rw [buyCashRequired_set htrade, hpurchase.cash, (hpurchase.shrunkTo hquantity).cash, hshort]
      show _ = buyCashRequired buys - trade.quantity * trade.cashPerShare +
        (trade.quantity - cut) * trade.cashPerShare - cash
      ring
    obtain ⟨result, hresult, hfits⟩ := ih hbuys' horder' hshort'
    refine ⟨result, hresult, ?_⟩
    intro trimmed htrimmed
    obtain ⟨hlater, hcovers⟩ := hfits trimmed htrimmed
    have hset := forall₂_shrunk_set hbuys htrade hshrunk
    exact ⟨forall₂_shrunk_trans hset hlater, hcovers⟩

/-- The members at some other places than the one that is set. -/
theorem filterMap_set {buys : List ProposedTrade} {index : Nat} {other : ProposedTrade}
    {order : List Nat} (h : index ∉ order) :
    order.filterMap ((buys.set index other)[·]?) = order.filterMap (buys[·]?) := by
  apply List.filterMap_congr
  intro i hi
  apply List.getElem?_set_ne
  rintro rfl
  exact h hi

/-- The turns leave nothing only where the buys cannot be trimmed. -/
theorem untrimmable_of_trimLoop {order : List Nat} (hnodup : order.Nodup)
    {buys : List ProposedTrade} (hbuys : ∀ trade ∈ buys, trade.Purchase)
    (horder : ∀ index ∈ order, index < buys.length) {shortfall : ℚ}
    (h : trimLoop rules order buys shortfall = .ok none) :
    Untrimmable rules (order.filterMap (buys[·]?)) shortfall := by
  induction order generalizing buys shortfall with
  | nil =>
    rw [trimLoop] at h
    by_cases hcovered : shortfall ≤ cashTolerance
    · rw [if_pos hcovered] at h
      cases h
    · exact .exhausted (not_le.mp hcovered)
  | cons index order ih =>
    obtain ⟨hfresh, hnodup⟩ := List.nodup_cons.mp hnodup
    rw [trimLoop] at h
    by_cases hcovered : shortfall ≤ cashTolerance
    · rw [if_pos hcovered] at h
      cases h
    rw [if_neg hcovered] at h
    have hshort := not_le.mp hcovered
    have hindex := horder index List.mem_cons_self
    have htrade : buys[index]? = some buys[index] := List.getElem?_eq_getElem hindex
    have hpurchase := hbuys _ (List.getElem_mem hindex)
    generalize buys[index] = trade at htrade hpurchase
    have hprice := hpurchase.cash_div_quantity
    have hnonzero : ¬(trade.quantity = 0 ∨ trade.buyCashRequiredUsd / trade.quantity = 0) := by
      rw [hprice]
      exact not_or.mpr ⟨hpurchase.quantity_pos.ne', hpurchase.price_pos.ne'⟩
    rw [htrade] at h
    dsimp only at h
    rw [if_neg hnonzero, hprice] at h
    rw [List.filterMap_cons_some htrade]
    have hcut : trimCut (resolveExecutionRule trade.ticker rules) trade.quantity
      trade.cashPerShare shortfall = trade.sharesToCut rules shortfall := rfl
    rw [hcut] at h
    split at h
    · exact .belowMinimum hshort ‹_›
    rename_i hleft
    have hshrunk := hpurchase.shrunk_of_trimCut hshort hcut hleft
    refine .later hshort ?_
    rw [← filterMap_set hfresh]
    apply ih hnodup _ _ h
    · intro other hmem
      rcases List.mem_or_eq_of_mem_set hmem with hmem | rfl
      · exact hbuys other hmem
      · exact hpurchase.shrunkTo hshrunk.pos
    · intro other hmem
      rw [List.length_set]
      exact horder other (List.mem_cons_of_mem _ hmem)

/-- The trim cuts the buys by decreasing cash. -/
theorem filterMap_trimOrder (buys : List ProposedTrade) :
    (trimOrder buys).filterMap (buys[·]?) = largestFirst buys := by
  let cash (trade : Option ProposedTrade) : ℚ :=
    (trade.map ProposedTrade.buyCashRequiredUsd).getD 0
  have hrange : (List.range buys.length).map (buys[·]?) = buys.map some := by
    apply List.ext_getElem?
    intro i
    rw [List.getElem?_map, List.getElem?_map]
    by_cases hi : i < buys.length
    · rw [List.getElem?_range hi, List.getElem?_eq_getElem hi]
      exact congrArg some (List.getElem?_eq_getElem hi)
    · rw [List.getElem?_eq_none (by simpa using hi), List.getElem?_eq_none (by simpa using hi)]
      rfl
  have hsorted : (trimOrder buys).map (buys[·]?) =
      (buys.map some).insertionSort fun a b => cash a ≥ cash b := by
    rw [← hrange]
    exact List.map_insertionSort _ _ _ _ fun _ _ _ _ => Iff.rfl
  have hsome : (largestFirst buys).map some =
      (buys.map some).insertionSort fun a b => cash a ≥ cash b :=
    List.map_insertionSort _ _ _ _ fun _ _ _ _ => Iff.rfl
  calc (trimOrder buys).filterMap (buys[·]?)
    _ = ((trimOrder buys).map (buys[·]?)).filterMap id := by rw [List.filterMap_map]; rfl
    _ = ((largestFirst buys).map some).filterMap id := by rw [hsorted, hsome]
    _ = largestFirst buys := by rw [List.filterMap_map]; exact List.filterMap_some

/-- The trim leaves nothing only where the buys, the largest first, cannot be trimmed. -/
theorem untrimmable_of_trimBuysToCash {settings : Settings} {buys : List ProposedTrade}
    (hbuys : ∀ trade ∈ buys, trade.Purchase) {cash : ℚ}
    (h : trimBuysToCash buys cash settings = .ok none) :
    Untrimmable settings.executionRules (largestFirst buys) (buyCashRequired buys - cash) := by
  have hperm : (trimOrder buys).Perm (List.range buys.length) := List.perm_insertionSort _ _
  rw [← filterMap_trimOrder]
  apply untrimmable_of_trimLoop (hperm.nodup_iff.mpr List.nodup_range) hbuys _ h
  intro index hindex
  exact List.mem_range.mp (hperm.mem_iff.mp hindex)

/-- What the trim makes of buys: it does not fail, and what it leaves fits the cash. -/
theorem trimBuysToCash_spec (settings : Settings) {buys : List ProposedTrade}
    (hbuys : ∀ trade ∈ buys, trade.Purchase) (cash : ℚ) :
    ∃ result, trimBuysToCash buys cash settings = .ok result ∧
      ∀ trimmed, result = some trimmed →
        List.Forall₂ (Shrunk settings.executionRules) buys trimmed ∧
          buyCashRequired trimmed ≤ cash + cashTolerance := by
  unfold trimBuysToCash
  apply trimLoop_spec hbuys _ rfl
  intro index hindex
  have hrange := (List.perm_insertionSort _ _).mem_iff.mp hindex
  exact List.mem_range.mp hrange

end Loop

end Poma

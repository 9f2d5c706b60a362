import Mathlib.Tactic.Linarith
import Poma.Core.Text
import Poma.Models.Settings

/-!
# Execution rules

Which quantity shape the broker accepts for a ticker, and how a quantity is
rounded to it. The rule table is built from the settings: a default rule under
`*` and whole-share exceptions by ticker.
-/

namespace Poma

/-- `DEFAULT_RULE_TICKER`. -/
def defaultRuleTicker : String := "*"

/-- `FRACTIONAL_EXECUTION_RULE`. -/
def fractionalExecutionRule : InstrumentExecutionRule := { ticker := defaultRuleTicker }

/-- `WHOLE_SHARE_EXECUTION_RULE`. -/
def wholeShareExecutionRule : InstrumentExecutionRule where
  ticker := defaultRuleTicker
  allowsFractional := false
  minQuantity := 1
  quantityIncrement := 1

/-- `DEFAULT_EXECUTION_RULE`. -/
def defaultExecutionRule : InstrumentExecutionRule := wholeShareExecutionRule

/-- A rule table: the first entry of a ticker is its rule. -/
abbrev ExecutionRules : Type := List (String × InstrumentExecutionRule)

/-- `text.split(",")`, each part stripped and upper-cased, blank parts left out. -/
def splitTickers (textCase : TextCase) (text : String) : List String :=
  ((text.toList.splitOn ',').map fun part => strip (String.ofList part)).filterMap fun part =>
    if part = "" then none else some (textCase.upper part)

/-- `build_execution_rules`. A later exception for a ticker is the same rule as an earlier one. -/
def buildExecutionRules (textCase : TextCase) (nonFractionalTickers : String)
    (fractionalShares : Bool) : ExecutionRules :=
  let default := if fractionalShares then fractionalExecutionRule else wholeShareExecutionRule
  (splitTickers textCase nonFractionalTickers).map
    (fun ticker => (ticker, { wholeShareExecutionRule with ticker := ticker })) ++
    [(defaultRuleTicker, default)]

/-- `settings.execution_rules()`. -/
def Settings.executionRules (settings : Settings) : ExecutionRules :=
  buildExecutionRules settings.textCase settings.nonFractionalTickers settings.fractionalShares

/-- `resolve_execution_rule`. -/
def resolveExecutionRule (ticker : String) (rules : ExecutionRules) : InstrumentExecutionRule :=
  ((rules.lookup ticker) <|> (rules.lookup defaultRuleTicker)).getD defaultExecutionRule

/-- `rounded_execution_quantity`. -/
def roundedExecutionQuantity (quantity : ℚ) (side : OrderSide) (rule : InstrumentExecutionRule) :
    ℚ :=
  let whole : ℚ :=
    if rule.allowsFractional then quantity
    else match side with
      | .buy => ⌊quantity + 1 / 2⌋
      | .sell => ⌊quantity⌋
  if rule.quantityIncrement > 0 then
    ⌊whole / rule.quantityIncrement + 1 / 1000000000⌋ * rule.quantityIncrement
  else whole

/-- The slack of the cash comparisons: the source's `1e-6`. -/
def cashTolerance : ℚ := 1 / 1000000

/-- One trade of the loop of `apply_execution_policy`: the rounded trade with the floor of a buy
that was rounded up, or why it is skipped. -/
def roundTrade (rules : ExecutionRules) (trade : ProposedTrade) :
    Except String (ProposedTrade × Option ℚ) :=
  let rule := resolveExecutionRule trade.ticker rules
  let quantity := roundedExecutionQuantity trade.quantity trade.side rule
  if quantity ≤ 0 ∨ quantity < rule.minQuantity then
    .error s!"{trade.ticker}: quantity {formatFixed 6 trade.quantity} rounds below the tradable minimum for this instrument (allows_fractional={formatBool rule.allowsFractional}); skipping trade"
  else
    let floored := roundedExecutionQuantity trade.quantity .sell rule
    let floor := if trade.side = .buy ∧ floored < quantity then some floored else none
    if quantity ≠ trade.quantity then
      .ok ({ trade with quantity := quantity, notional := quantity * trade.referencePrice }, floor)
    else .ok (trade, floor)
where
  formatBool (b : Bool) : String := if b then "True" else "False"

/-- The rounded trades of a list, skipped ones left out. -/
def roundTrades (rules : ExecutionRules) (trades : List ProposedTrade) :
    List (ProposedTrade × Option ℚ) :=
  trades.filterMap fun trade => (roundTrade rules trade).toOption

/-- The warnings of the skipped trades. -/
def roundingWarnings (rules : ExecutionRules) (trades : List ProposedTrade) : List String :=
  trades.filterMap fun trade =>
    match roundTrade rules trade with
    | .ok _ => none
    | .error warning => some warning

/-- A buy that can be demoted: what that saves, its index and its floored quantity. -/
structure RoundUp where
  saving : ℚ
  index : Nat
  floored : ℚ

/-- `trades[index].limit_price or trades[index].reference_price`. -/
def ProposedTrade.unitPrice (trade : ProposedTrade) : ℚ :=
  match trade.limitPrice with
  | some limit => if limit = 0 then trade.referencePrice else limit
  | none => trade.referencePrice

/-- The buys that were rounded up, with their savings. -/
def roundUps (rounded : List (ProposedTrade × Option ℚ)) : List RoundUp :=
  rounded.zipIdx.filterMap fun ((trade, floor), index) => floor.map fun floored =>
    ⟨(trade.quantity - floored) * trade.unitPrice, index, floored⟩

/-- Largest saving first, later buys first among equals. -/
def sortRoundUps (roundUps : List RoundUp) : List RoundUp :=
  roundUps.insertionSort fun a b => a.saving > b.saving ∨ (a.saving = b.saving ∧ a.index ≥ b.index)

/-- What `_demote_buy_roundups_to_fit_cash` keeps in its loop. -/
structure Demotion where
  adjusted : List ProposedTrade
  dropped : List Nat := []
  warnings : List String := []

/-- The loop of `_demote_buy_roundups_to_fit_cash`. -/
def demoteLoop (rules : ExecutionRules) : List RoundUp → ℚ → Demotion → Demotion
  | [], _, state => state
  | roundUp :: rest, overshoot, state =>
    if overshoot ≤ cashTolerance then state
    else match state.adjusted[roundUp.index]? with
      -- every index is one of the list
      | none => state
      | some trade =>
        let rule := resolveExecutionRule trade.ticker rules
        demoteLoop rules rest (overshoot - roundUp.saving) <|
          if roundUp.floored ≤ 0 ∨ roundUp.floored < rule.minQuantity then
            { state with
              dropped := state.dropped ++ [roundUp.index]
              warnings := state.warnings ++ [s!"{trade.ticker}: rounded-up buy dropped to fit available cash; skipping trade"] }
          else
            { state with
              adjusted := state.adjusted.set roundUp.index
                { trade with
                  quantity := roundUp.floored
                  notional := roundUp.floored * trade.referencePrice }
              warnings := state.warnings ++ [s!"{trade.ticker}: rounded-up buy demoted to {formatGeneral roundUp.floored} share(s) to fit available cash"] }

/-- The sum of the buy requirements less the sum of the sell credits. -/
def netCashOutflow (trades : List ProposedTrade) : ℚ :=
  (trades.map ProposedTrade.buyCashRequiredUsd).sum -
    (trades.map ProposedTrade.sellCashCreditUsd).sum

/-- `_demote_buy_roundups_to_fit_cash`. -/
def demoteBuyRoundupsToFitCash (rounded : List (ProposedTrade × Option ℚ)) (rules : ExecutionRules)
    (availableCashUsd : ℚ) : List ProposedTrade × List String :=
  let trades := rounded.map (·.1)
  let buyCashRequired := (trades.map ProposedTrade.buyCashRequiredUsd).sum
  let budget := availableCashUsd + (trades.map ProposedTrade.sellCashCreditUsd).sum
  let overshoot := buyCashRequired - budget
  if overshoot ≤ cashTolerance then (trades, [])
  else
    let state := demoteLoop rules (sortRoundUps (roundUps rounded)) overshoot { adjusted := trades }
    ((state.adjusted.zipIdx.filter fun item => item.2 ∉ state.dropped).map (·.1), state.warnings)

/-- `apply_execution_policy`: the trades the instruments can execute, and the warnings. -/
def applyExecutionPolicy (trades : List ProposedTrade) (rules : ExecutionRules)
    (availableCashUsd : Option ℚ) : List ProposedTrade × List String :=
  let rounded := roundTrades rules trades
  let warnings := roundingWarnings rules trades
  match availableCashUsd with
  | none => (rounded.map (·.1), warnings)
  | some cash =>
    let (adjusted, demotionWarnings) := demoteBuyRoundupsToFitCash rounded rules cash
    (adjusted, warnings ++ demotionWarnings)

/-- A rule either has no minimum and no increment, or trades whole shares. -/
def InstrumentExecutionRule.Shape (rule : InstrumentExecutionRule) : Prop :=
  (rule.minQuantity = 0 ∧ rule.quantityIncrement = 0) ∨
    (rule.minQuantity = 1 ∧ rule.quantityIncrement = 1)

theorem lookup_mem {α : Type} {key : String} {xs : List (String × α)} {a : α}
    (h : xs.lookup key = some a) : (key, a) ∈ xs := by
  induction xs with
  | nil => simp at h
  | cons x xs ih =>
    rw [List.lookup_cons] at h
    cases hk : key == x.1 with
    | true =>
      rw [hk] at h
      obtain rfl : x.2 = a := Option.some.inj h
      have hkey : key = x.1 := by simpa using hk
      simp [hkey]
    | false =>
      rw [hk] at h
      exact List.mem_cons_of_mem _ (ih h)

/-- Every rule of a built table is fractional without bounds, or whole shares. -/
theorem shape_of_mem_buildExecutionRules {textCase : TextCase} {text : String} {fractional : Bool}
    {key : String} {rule : InstrumentExecutionRule}
    (h : (key, rule) ∈ buildExecutionRules textCase text fractional) : rule.Shape := by
  rw [buildExecutionRules, List.mem_append, List.mem_map, List.mem_singleton] at h
  rcases h with ⟨ticker, _, heq⟩ | heq
  · obtain ⟨_, rfl⟩ := Prod.mk.inj heq
    exact Or.inr ⟨rfl, rfl⟩
  · obtain ⟨_, rfl⟩ := Prod.mk.inj heq
    cases fractional with
    | true => exact Or.inl ⟨rfl, rfl⟩
    | false => exact Or.inr ⟨rfl, rfl⟩

/-- The rule any ticker resolves to has one of the two shapes. -/
theorem resolveExecutionRule_shape (settings : Settings) (ticker : String) :
    (resolveExecutionRule ticker settings.executionRules).Shape := by
  unfold resolveExecutionRule
  cases hone : settings.executionRules.lookup ticker with
  | some rule => exact shape_of_mem_buildExecutionRules (lookup_mem hone)
  | none =>
    cases hdefault : settings.executionRules.lookup defaultRuleTicker with
    | some rule => exact shape_of_mem_buildExecutionRules (lookup_mem hdefault)
    | none => exact Or.inr ⟨rfl, rfl⟩

end Poma

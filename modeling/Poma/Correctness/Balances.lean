import Poma.Broker.Accounts
import Poma.Core.Lists
import Poma.Interaction.Program

/-!
# Balances in any order of the rows

An amount is that of the first row that reports it, whichever of its tags the
row has. The amounts do not depend on the order of the rows exactly when the
rows that could be first agree. The two readers of a snapshot agree where both
read one.
-/

namespace Poma

open Interaction (bind_eq_ok map_eq_ok)

/-- The tags of the amounts a snapshot reads. -/
def amountTags : List (List String) := [usdCashTags, netLiquidationTags, grossPositionValueTags]

/-- The rows that report an amount in dollars agree on it. -/
def AgreeOn (settings : Settings) (rows : List AccountRow) (tags : List String) : Prop :=
  ∀ row ∈ rows, ∀ other ∈ rows, ∀ amount amount',
    row.usdAmount settings.textCase tags settings.account? = some amount →
    other.usdAmount settings.textCase tags settings.account? = some amount' → amount = amount'

/-- The amounts of an account, and the snapshots made of them, are the same in any order of the
rows. -/
structure ReadInAnyOrder (settings : Settings) (rows : List AccountRow) : Prop where
  amounts : ∀ tags ∈ amountTags, ∀ others : List AccountRow, others.Perm rows →
    findUsdAccountAmount settings.textCase others tags settings.account? =
      findUsdAccountAmount settings.textCase rows tags settings.account?
  snapshots : ∀ portfolio sourceWarnings missingCash, ∀ others : List AccountRow,
    others.Perm rows → snapshotOfRows settings portfolio sourceWarnings missingCash others =
      snapshotOfRows settings portfolio sourceWarnings missingCash rows

section Rows

variable {textCase : TextCase} {account : Option String} {rows others : List AccountRow}
  {tags : List String}

theorem hasAccountAmount_perm (hperm : others.Perm rows) :
    hasAccountAmount others tags account = hasAccountAmount rows tags account := by
  unfold hasAccountAmount
  rw [Bool.eq_iff_iff, List.any_eq_true, List.any_eq_true]
  simp only [hperm.mem_iff]

/-- The warning names each currency once, in order. -/
theorem ignoredAccountBalanceWarnings_perm (hperm : others.Perm rows) :
    ignoredAccountBalanceWarnings textCase others account =
      ignoredAccountBalanceWarnings textCase rows account := by
  have hcurrencies := hperm.filterMap fun row => row.ignoredCurrency textCase account
  have hsorted : joinSorted (others.filterMap fun row => row.ignoredCurrency textCase account) =
      joinSorted (rows.filterMap fun row => row.ignoredCurrency textCase account) := by
    unfold joinSorted
    rw [insertionSort_dedup_congr fun _ => hcurrencies.mem_iff]
  have hnone : (others.filterMap fun row => row.ignoredCurrency textCase account) = [] ↔
      (rows.filterMap fun row => row.ignoredCurrency textCase account) = [] := by
    rw [← List.length_eq_zero_iff, hcurrencies.length_eq, List.length_eq_zero_iff]
  unfold ignoredAccountBalanceWarnings
  simp only [hsorted, hnone]

end Rows

/-- An amount is that of the first row that reports it in dollars. The snapshots read the same in
any order of the rows exactly when the rows agree on each amount. -/
theorem accountAmounts_spec (settings : Settings) (rows : List AccountRow) :
    (∀ tags amount,
      findUsdAccountAmount settings.textCase rows tags settings.account? = some amount ↔
      ∃ before row after, rows = before ++ row :: after ∧
        row.usdAmount settings.textCase tags settings.account? = some amount ∧
        ∀ earlier ∈ before,
          earlier.usdAmount settings.textCase tags settings.account? = none) ∧
      (ReadInAnyOrder settings rows ↔ ∀ tags ∈ amountTags, AgreeOn settings rows tags) := by
  constructor
  · intro tags amount
    exact List.findSome?_eq_some_iff
  · constructor
    · intro h tags htags
      exact findSome?_perm_iff.mp (h.amounts tags htags)
    · intro h
      have hamounts : ∀ tags ∈ amountTags, ∀ others : List AccountRow, others.Perm rows →
          findUsdAccountAmount settings.textCase others tags settings.account? =
            findUsdAccountAmount settings.textCase rows tags settings.account? :=
        fun tags htags => findSome?_perm_iff.mpr (h tags htags)
      refine ⟨hamounts, ?_⟩
      intro portfolio sourceWarnings missingCash others hperm
      have hcash := hamounts usdCashTags (by simp [amountTags]) others hperm
      have hnet := hamounts netLiquidationTags (by simp [amountTags]) others hperm
      have hgross := hamounts grossPositionValueTags (by simp [amountTags]) others hperm
      unfold snapshotOfRows
      simp only [hcash, hnet, hgross, hasAccountAmount_perm hperm,
        ignoredAccountBalanceWarnings_perm hperm]

section Readers

variable {session : AccountSession} {source : BalanceSource} {account : Option String}
  {rows : List AccountRow} {settings : Settings} {snapshot : AccountSnapshot}

/-- A source that answers is read without a warning. -/
theorem requestRowsFromSource_of_ok (name : String) {accounts : List String}
    (h : requestRows source accounts = .ok rows) :
    requestRowsFromSource name source accounts = (rows, []) := by
  induction accounts generalizing rows with
  | nil =>
    obtain rfl := Except.ok.inj h
    rfl
  | cons account rest ih =>
    unfold requestRows at h
    unfold requestRowsFromSource
    cases hread : source (some account) with
    | ok first =>
      rw [hread] at h
      obtain ⟨later, hlater, rfl⟩ := map_eq_ok.mp h
      dsimp only
      rw [ih hlater]
    | error failure =>
      rw [hread] at h
      by_cases htype : failure.isTypeError = true
      · simp only [htype, if_true] at h ⊢
        cases hdefault : source none with
        | ok first =>
          rw [hdefault] at h
          obtain rfl := Except.ok.inj h
          rfl
        | error failure =>
          rw [hdefault] at h
          cases h
      · simp only [htype] at h
        cases h

theorem requestAccountValueRows_of_ok (h : requestAccountValues session account = .ok rows) :
    requestAccountValueRows session account = (rows, []) := by
  unfold requestAccountValues at h
  obtain ⟨summary, hsummary, h⟩ := bind_eq_ok.mp h
  unfold requestAccountValueRows
  rw [requestRowsFromSource_of_ok "accountSummary" hsummary]
  cases hsource : session.accountValues with
  | none =>
    rw [hsource] at h
    obtain rfl := Except.ok.inj h
    rw [List.append_nil]
  | some source =>
    rw [hsource] at h
    obtain ⟨values, hvalues, h⟩ := bind_eq_ok.mp h
    obtain rfl := Except.ok.inj h
    dsimp only
    rw [requestRowsFromSource_of_ok "accountValues" hvalues]
    rfl

/-- What the broker's own reader makes of a session, the reader for a rebalance makes of it too: it
goes on where the other fails, and reads the same where it does not. -/
theorem rebalanceAccountSnapshot_of_read (h : readAccountSnapshot settings session = .ok snapshot) :
    rebalanceAccountSnapshot settings session = .ok snapshot := by
  obtain ⟨rows, hrows, hsnapshot⟩ := bind_eq_ok.mp h
  unfold rebalanceAccountSnapshot
  rw [requestAccountValueRows_of_ok hrows]
  exact hsnapshot

end Readers

/-- An account whose cash is not all settled. -/
def unsettledRows : List AccountRow :=
  [⟨"DU1", "TotalCashValue", "USD", "15000"⟩, ⟨"DU1", "SettledCash", "USD", "12000"⟩]

/-- The rows agree tag by tag, and yet the cash is that of the row that comes first. -/
theorem unsettledRows_order :
    unsettledRows.reverse.Perm unsettledRows ∧
      (∀ row ∈ unsettledRows, ∀ other ∈ unsettledRows, row.tag = other.tag →
        row.currency = other.currency → row.account = other.account → row.value = other.value) ∧
      findUsdAccountAmount {} unsettledRows usdCashTags (some "DU1") = some 15000 ∧
      findUsdAccountAmount {} unsettledRows.reverse usdCashTags (some "DU1") = some 12000 := by
  exact ⟨List.reverse_perm _, by decide +kernel⟩

end Poma

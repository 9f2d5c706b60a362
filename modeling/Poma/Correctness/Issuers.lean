import Poma.Core.Lists
import Poma.Core.Numerals
import Poma.Engine.Strategy

/-!
# One row for each issuer

The deduplication keeps the first row of each key, in the order of the sort. It
keeps the most liquid row of each issuer exactly when the keys tell the issuers
apart and the liquidity of an issuer's rows is greatest where its market
capitalisation is.
-/

namespace Poma

section Duplicates

variable {α κ : Type} [DecidableEq κ] {key : α → κ} {xs : List α} {x : α}

theorem dropDuplicates_sublist : (dropDuplicates key xs).Sublist xs := by
  induction xs with
  | nil => exact List.Sublist.refl _
  | cons x xs ih =>
    rw [dropDuplicates]
    exact (List.filter_sublist.trans ih).cons_cons x

/-- No key is kept twice. -/
theorem nodup_dropDuplicates : ((dropDuplicates key xs).map key).Nodup := by
  induction xs with
  | nil => exact List.nodup_nil
  | cons x xs ih =>
    rw [dropDuplicates, List.map_cons, List.nodup_cons]
    constructor
    · intro hmem
      obtain ⟨y, hy, hkey⟩ := List.mem_map.mp hmem
      have hne : key y ≠ key x := by simpa using (List.mem_filter.mp hy).2
      exact hne hkey
    · exact ih.sublist (List.filter_sublist.map key)

/-- Of a sorted list, the first row of each key is kept. -/
theorem exists_dropDuplicates {R : α → α → Prop} (hsorted : xs.Pairwise R) (hx : x ∈ xs) :
    ∃ first ∈ dropDuplicates key xs, key first = key x ∧ (first = x ∨ R first x) := by
  induction xs with
  | nil => cases hx
  | cons y xs ih =>
    obtain ⟨hhead, hsorted⟩ := List.pairwise_cons.mp hsorted
    rw [dropDuplicates]
    by_cases hkey : key x = key y
    · refine ⟨y, List.mem_cons_self, hkey.symm, ?_⟩
      rcases List.mem_cons.mp hx with rfl | hx
      · exact Or.inl rfl
      · exact Or.inr (hhead x hx)
    · have hx : x ∈ xs := by
        rcases List.mem_cons.mp hx with rfl | hx
        · exact absurd rfl hkey
        · exact hx
      obtain ⟨first, hfirst, hsame, hbefore⟩ := ih hsorted hx
      have hother : key first ≠ key y := fun h => hkey (hsame.symm.trans h)
      exact ⟨first, List.mem_cons_of_mem _ (List.mem_filter.mpr ⟨hfirst, by simpa using hother⟩),
        hsame, hbefore⟩

end Duplicates

/-- The issuer of a row: the one that is named, or none with the row's market capitalisation. -/
inductive Issuer where
  | named (name : String)
  | unnamed (marketCap : Numeric)
  deriving DecidableEq

/-- How the cells of a row name its issuer. -/
inductive Identity where
  | named (name : String)
  | blank
  /-- The issuer id is missing, and its cell reads as a text, if at all. -/
  | missing (placeholder : Option String)

/-- The identity of a row, of its cells. -/
def identityOf (format : CellFormat) (columns : List String) (cells : String → Cell) : Identity :=
  if "issuer_id" ∈ columns then
    let id := (format.asText (cells "issuer_id")).map fun text => format.lower (strip text)
    if id = some "" then .blank
    else if cells "issuer_id" = .none ∨ cells "issuer_id" = .nan then .missing id
    else (id.map Identity.named).getD (.missing none)
  else if "name" ∈ columns then
    ((normaliseIssuerName format (cells "name")).map Identity.named).getD .blank
  else .blank

/-- The issuer of a row with some identity: a cell that is missing or blank names none. -/
def Identity.issuer (cap : Numeric) : Identity → Issuer
  | .named name => .named name
  | _ => .unnamed cap

variable (format : CellFormat) (snapshot : Snapshot)

/-- The issuer of a row of the frame. -/
def ShareRow.issuer (row : ShareRow) : Issuer :=
  (identityOf format snapshot.columns row.cells).issuer row.marketCap

/-- Deduplication keeps, for each issuer, its most liquid row and no other, and puts no two issuers
into one group. -/
structure KeepsMostLiquid : Prop where
  returns : ∃ rows, deduplicateShareClasses format snapshot = .ok rows ∧
    (snapshot.columns ≠ [] → rows = (keptRows format snapshot).map (·.cells))
  grouped : ∀ row ∈ shareFrame format snapshot, ∀ other ∈ shareFrame format snapshot,
    row.dedupeKey = other.dedupeKey → row.issuer format snapshot = other.issuer format snapshot
  kept : ∀ row ∈ shareFrame format snapshot, ∃ best ∈ keptRows format snapshot,
    best.issuer format snapshot = row.issuer format snapshot
  once : ∀ best ∈ keptRows format snapshot, ∀ other ∈ keptRows format snapshot,
    best.issuer format snapshot = other.issuer format snapshot → best = other
  listed : ∀ best ∈ keptRows format snapshot, best ∈ shareFrame format snapshot
  liquid : ∀ best ∈ keptRows format snapshot, ∀ row ∈ shareFrame format snapshot,
    row.issuer format snapshot = best.issuer format snapshot →
      row.liquidityScore ≤ best.liquidityScore ∧
        (row.liquidityScore = best.liquidityScore → row.marketCap = best.marketCap →
          best.originalOrder ≤ row.originalOrder)

/-- The cells of the rows with a numeric market capitalisation tell their issuers apart: without a
name, rows do by how their capitalisations are written, which no name is; and a missing id reads as
no name does, and as another one, or as a capitalisation, exactly where the capitalisations are the
same. -/
structure CellsTellIssuers : Prop where
  blank : ∀ row ∈ cappedRows format snapshot, ∀ other ∈ cappedRows format snapshot,
    identityOf format snapshot.columns row.1 = .blank →
    identityOf format snapshot.columns other.1 = .blank →
      format.capText row.2 = format.capText other.2 → row.2 = other.2
  named : ∀ row ∈ cappedRows format snapshot, ∀ other ∈ cappedRows format snapshot, ∀ name,
    identityOf format snapshot.columns row.1 = .named name →
    identityOf format snapshot.columns other.1 = .blank →
      name ≠ "market_cap:" ++ format.capText other.2
  missing : ∀ row ∈ cappedRows format snapshot, ∀ other ∈ cappedRows format snapshot,
    ∀ placeholder placeholder', identityOf format snapshot.columns row.1 = .missing placeholder →
    identityOf format snapshot.columns other.1 = .missing placeholder' →
      (placeholder = placeholder' ↔ row.2 = other.2)
  missingNamed : ∀ row ∈ cappedRows format snapshot, ∀ other ∈ cappedRows format snapshot,
    ∀ placeholder name, identityOf format snapshot.columns row.1 = .missing placeholder →
    identityOf format snapshot.columns other.1 = .named name → placeholder ≠ some name
  missingBlank : ∀ row ∈ cappedRows format snapshot, ∀ other ∈ cappedRows format snapshot,
    ∀ placeholder, identityOf format snapshot.columns row.1 = .missing placeholder →
    identityOf format snapshot.columns other.1 = .blank →
      (placeholder = some ("market_cap:" ++ format.capText other.2) ↔ row.2 = other.2)

/-- Two rows have one key exactly when they are of one issuer. -/
def KeysTellIssuers : Prop :=
  ∀ row ∈ shareFrame format snapshot, ∀ other ∈ shareFrame format snapshot,
    row.dedupeKey = other.dedupeKey ↔ row.issuer format snapshot = other.issuer format snapshot

/-- Every row of an issuer is matched in liquidity by a row of its greatest market
capitalisation. -/
def LargestIsMostLiquid : Prop :=
  ∀ row ∈ shareFrame format snapshot, ∃ largest ∈ shareFrame format snapshot,
    largest.issuer format snapshot = row.issuer format snapshot ∧
      (∀ other ∈ shareFrame format snapshot,
        other.issuer format snapshot = row.issuer format snapshot →
          other.marketCap ≤ largest.marketCap) ∧
      row.liquidityScore ≤ largest.liquidityScore

instance : IsTrans ShareRow ShareRow.Precedes := by
  constructor
  rintro row other third (hcap | ⟨hcap, hscore⟩) (hcap' | ⟨hcap', hscore'⟩)
  · exact Or.inl (hcap'.trans hcap)
  · exact Or.inl (hcap' ▸ hcap)
  · exact Or.inl (hcap.symm ▸ hcap')
  · refine Or.inr ⟨hcap.trans hcap', ?_⟩
    rcases hscore with hscore | ⟨hscore, horder⟩ <;> rcases hscore' with hscore' | ⟨hscore', horder'⟩
    · exact Or.inl (hscore'.trans hscore)
    · exact Or.inl (hscore' ▸ hscore)
    · exact Or.inl (hscore.symm ▸ hscore')
    · exact Or.inr ⟨hscore.trans hscore', horder.trans horder'⟩

instance : Std.Total ShareRow.Precedes := by
  constructor
  intro row other
  rcases lt_trichotomy row.marketCap other.marketCap with hcap | hcap | hcap
  · exact Or.inr (Or.inl hcap)
  · rcases lt_trichotomy row.liquidityScore other.liquidityScore with hscore | hscore | hscore
    · exact Or.inr (Or.inr ⟨hcap.symm, Or.inl hscore⟩)
    · rcases le_total row.originalOrder other.originalOrder with horder | horder
      · exact Or.inl (Or.inr ⟨hcap, Or.inr ⟨hscore, horder⟩⟩)
      · exact Or.inr (Or.inr ⟨hcap.symm, Or.inr ⟨hscore.symm, horder⟩⟩)
    · exact Or.inl (Or.inr ⟨hcap, Or.inl hscore⟩)
  · exact Or.inl (Or.inl hcap)

/-- A row that comes first has no smaller capitalisation. -/
theorem ShareRow.Precedes.marketCap_le {row other : ShareRow} (h : row.Precedes other) :
    other.marketCap ≤ row.marketCap := by
  rcases h with hcap | ⟨hcap, -⟩
  · exact hcap.le
  · exact hcap.ge

/-- Of one capitalisation, the row that comes first has no lower score. -/
theorem ShareRow.Precedes.liquidityScore_le {row other : ShareRow} (h : row.Precedes other)
    (hcap : row.marketCap = other.marketCap) : other.liquidityScore ≤ row.liquidityScore := by
  rcases h with hless | ⟨-, hscore | ⟨hscore, -⟩⟩
  · exact absurd hcap hless.ne'
  · exact hscore.le
  · exact hscore.ge

theorem ShareRow.Precedes.originalOrder_le {row other : ShareRow} (h : row.Precedes other)
    (hcap : row.marketCap = other.marketCap) (hscore : row.liquidityScore = other.liquidityScore) :
    row.originalOrder ≤ other.originalOrder := by
  rcases h with hless | ⟨-, hless | ⟨-, horder⟩⟩
  · exact absurd hcap hless.ne'
  · exact absurd hscore hless.ne'
  · exact horder

variable {format snapshot}

theorem mem_shareFrame_of_kept {row : ShareRow} (h : row ∈ keptRows format snapshot) :
    row ∈ shareFrame format snapshot :=
  (List.mem_insertionSort _).mp (dropDuplicates_sublist.subset h)

/-- The kept row of a key. -/
theorem exists_kept {row : ShareRow} (h : row ∈ shareFrame format snapshot) :
    ∃ first ∈ keptRows format snapshot, first.dedupeKey = row.dedupeKey ∧
      (first = row ∨ first.Precedes row) :=
  exists_dropDuplicates (List.pairwise_insertionSort _ _) ((List.mem_insertionSort _).mpr h)

theorem eq_of_kept {row other : ShareRow} (h : row ∈ keptRows format snapshot)
    (h' : other ∈ keptRows format snapshot) (hkey : row.dedupeKey = other.dedupeKey) : row = other :=
  List.inj_on_of_nodup_map nodup_dropDuplicates h h' hkey

/-- Where the keys tell the issuers apart, the kept row of an issuer comes before its others. -/
theorem kept_first (htells : KeysTellIssuers format snapshot) {best row : ShareRow}
    (hbest : best ∈ keptRows format snapshot) (hrow : row ∈ shareFrame format snapshot)
    (hissuer : row.issuer format snapshot = best.issuer format snapshot) :
    best = row ∨ best.Precedes row := by
  obtain ⟨first, hfirst, hkey, hbefore⟩ := exists_kept hrow
  have hsame : first.dedupeKey = best.dedupeKey :=
    hkey.trans ((htells row hrow best (mem_shareFrame_of_kept hbest)).mpr hissuer)
  obtain rfl := eq_of_kept hfirst hbest hsame
  exact hbefore

theorem returns_iff : (∃ rows, deduplicateShareClasses format snapshot = .ok rows ∧
    (snapshot.columns ≠ [] → rows = (keptRows format snapshot).map (·.cells))) ↔
      snapshot.rows = [] ∨ snapshot.columns = [] ∨ "market_cap" ∈ snapshot.columns := by
  unfold deduplicateShareClasses
  by_cases hrows : snapshot.rows = []
  · have hkept : keptRows format snapshot = [] := by
      rw [keptRows, shareFrame, cappedRows, hrows]
      rfl
    simp [hrows, hkept]
  by_cases hcolumns : snapshot.columns = []
  · simp [hcolumns]
  · by_cases hcap : "market_cap" ∈ snapshot.columns <;> simp [hrows, hcolumns, hcap]

/-- The key of a row with some identity. -/
def Identity.key (format : CellFormat) (cap : Numeric) : Identity → Option String
  | .named name => some name
  | .blank => some (capKey format cap)
  | .missing placeholder => placeholder

theorem issuerDedupeKey_eq (columns : List String) (cells : String → Cell) (cap : Numeric) :
    issuerDedupeKey format columns cells cap = (identityOf format columns cells).key format cap := by
  unfold issuerDedupeKey identityOf
  by_cases hid : "issuer_id" ∈ columns
  · rw [if_pos hid, if_pos hid]
    cases htext : format.asText (cells "issuer_id") with
    | none =>
      dsimp only [Option.map_none]
      rw [if_neg nofun]
      split <;> rfl
    | some text =>
      dsimp only [Option.map_some]
      by_cases hblank : format.lower (strip text) = ""
      · rw [if_pos hblank, hblank, if_pos rfl]
        rfl
      · rw [if_neg hblank, if_neg (fun h => hblank (Option.some.inj h))]
        split <;> rfl
  rw [if_neg hid, if_neg hid]
  by_cases hname : "name" ∈ columns
  · rw [if_pos hname, if_pos hname]
    cases normaliseIssuerName format (cells "name") <;> rfl
  · rw [if_neg hname, if_neg hname]
    rfl

/-- What holds of the keys and the issuers of the frame holds of those of the identities. -/
theorem forall_shareFrame {P : Option String → Issuer → Prop} :
    (∀ row ∈ shareFrame format snapshot, P row.dedupeKey (row.issuer format snapshot)) ↔
      ∀ row ∈ cappedRows format snapshot,
        P ((identityOf format snapshot.columns row.1).key format row.2)
          ((identityOf format snapshot.columns row.1).issuer row.2) := by
  have hid : ¬"issuer_id" = "market_cap" := by decide
  have hname : ¬"name" = "market_cap" := by decide
  have hidentity : ∀ (cells : String → Cell) (cap : Numeric),
      identityOf format snapshot.columns
        (fun column => if column = "market_cap" then .number cap.val else cells column) =
        identityOf format snapshot.columns cells := by
    intro cells cap
    have hidCell : (if "issuer_id" = "market_cap" then Cell.number cap.val else cells "issuer_id") =
        cells "issuer_id" := if_neg hid
    have hnameCell : (if "name" = "market_cap" then Cell.number cap.val else cells "name") =
        cells "name" := if_neg hname
    unfold identityOf
    simp only [hidCell, hnameCell]
  constructor
  · intro h row hrow
    obtain ⟨order, horder⟩ := List.mem_iff_getElem?.mp hrow
    have hframe := h _ (List.mem_map_of_mem (List.mk_mem_zipIdx_iff_getElem?.mpr horder))
    dsimp only [ShareRow.issuer] at hframe
    rwa [hidentity, issuerDedupeKey_eq] at hframe
  · intro h row hrow
    obtain ⟨⟨⟨cells, cap⟩, order⟩, hmem, rfl⟩ := List.mem_map.mp hrow
    dsimp only [ShareRow.issuer]
    rw [hidentity, issuerDedupeKey_eq]
    exact h (cells, cap) (List.mem_of_getElem? (List.mk_mem_zipIdx_iff_getElem?.mp hmem))

/-- The keys of two identities agree with their issuers exactly when the cells tell them apart. -/
theorem cellsTellIssuers_iff : CellsTellIssuers format snapshot ↔
    ∀ row ∈ cappedRows format snapshot, ∀ other ∈ cappedRows format snapshot,
      ((identityOf format snapshot.columns row.1).key format row.2 =
          (identityOf format snapshot.columns other.1).key format other.2 ↔
        (identityOf format snapshot.columns row.1).issuer row.2 =
          (identityOf format snapshot.columns other.1).issuer other.2) := by
  constructor
  · intro h row hrow other hother
    cases hidentity : identityOf format snapshot.columns row.1 with
    | named name =>
      cases hidentity' : identityOf format snapshot.columns other.1 with
      | named name' => simp [Identity.key, Identity.issuer]
      | blank =>
        have hapart := h.named row hrow other hother name hidentity hidentity'
        simp [Identity.key, Identity.issuer, capKey, hapart]
      | missing placeholder =>
        have hapart := h.missingNamed other hother row hrow placeholder name hidentity' hidentity
        simp [Identity.key, Identity.issuer, hapart.symm]
    | blank =>
      cases hidentity' : identityOf format snapshot.columns other.1 with
      | named name =>
        have hapart := h.named other hother row hrow name hidentity' hidentity
        simp [Identity.key, Identity.issuer, capKey, hapart.symm]
      | blank =>
        have htext := h.blank row hrow other hother hidentity hidentity'
        simp only [Identity.key, Identity.issuer, capKey, Option.some_inj, String.append_right_inj,
          Issuer.unnamed.injEq]
        exact ⟨htext, congrArg _⟩
      | missing placeholder =>
        have hread := h.missingBlank other hother row hrow placeholder hidentity' hidentity
        simp only [Identity.key, Identity.issuer, capKey, Issuer.unnamed.injEq]
        rw [eq_comm, hread, eq_comm]
    | missing placeholder =>
      cases hidentity' : identityOf format snapshot.columns other.1 with
      | named name =>
        have hapart := h.missingNamed row hrow other hother placeholder name hidentity hidentity'
        simp [Identity.key, Identity.issuer, hapart]
      | blank =>
        have hread := h.missingBlank row hrow other hother placeholder hidentity hidentity'
        simpa only [Identity.key, Identity.issuer, capKey, Issuer.unnamed.injEq] using hread
      | missing placeholder' =>
        have hread := h.missing row hrow other hother placeholder placeholder' hidentity hidentity'
        simpa only [Identity.key, Identity.issuer, Issuer.unnamed.injEq] using hread
  · intro h
    constructor
    · intro row hrow other hother hblank hblank' htext
      have hpair := h row hrow other hother
      rw [hblank, hblank'] at hpair
      simp only [Identity.key, Identity.issuer, capKey, Option.some_inj, String.append_right_inj,
        Issuer.unnamed.injEq] at hpair
      exact hpair.mp htext
    · intro row hrow other hother name hnamed hblank hsame
      have hpair := h row hrow other hother
      rw [hnamed, hblank] at hpair
      cases hpair.mp (congrArg some hsame)
    · intro row hrow other hother placeholder placeholder' hmissing hmissing'
      have hpair := h row hrow other hother
      rw [hmissing, hmissing'] at hpair
      simpa only [Identity.key, Identity.issuer, Issuer.unnamed.injEq] using hpair
    · intro row hrow other hother placeholder name hmissing hnamed hsame
      have hpair := h row hrow other hother
      rw [hmissing, hnamed] at hpair
      cases hpair.mp hsame
    · intro row hrow other hother placeholder hmissing hblank
      have hpair := h row hrow other hother
      rw [hmissing, hblank] at hpair
      simpa only [Identity.key, Identity.issuer, capKey, Issuer.unnamed.injEq] using hpair

/-- The keys tell the issuers apart exactly when the cells do. -/
theorem keysTellIssuers_iff :
    KeysTellIssuers format snapshot ↔ CellsTellIssuers format snapshot := by
  rw [cellsTellIssuers_iff]
  unfold KeysTellIssuers
  rw [forall_shareFrame (P := fun key issuer => ∀ other ∈ shareFrame format snapshot,
    key = other.dedupeKey ↔ issuer = other.issuer format snapshot)]
  constructor
  · intro h row hrow
    exact (forall_shareFrame (P := fun key issuer => _ = key ↔ _ = issuer)).mp (h row hrow)
  · intro h row hrow
    exact (forall_shareFrame (P := fun key issuer => _ = key ↔ _ = issuer)).mpr (h row hrow)

/-- Deduplication keeps the most liquid row of each issuer exactly when the cells tell the issuers
apart and each issuer is most liquid where it is largest. -/
theorem keepsMostLiquid_iff (format : CellFormat) (snapshot : Snapshot) :
    KeepsMostLiquid format snapshot ↔
      (snapshot.rows = [] ∨ snapshot.columns = [] ∨ "market_cap" ∈ snapshot.columns) ∧
        CellsTellIssuers format snapshot ∧ LargestIsMostLiquid format snapshot := by
  rw [← keysTellIssuers_iff]
  constructor
  · intro h
    have htells : KeysTellIssuers format snapshot := by
      intro row hrow other hother
      refine ⟨h.grouped row hrow other hother, ?_⟩
      intro hissuer
      obtain ⟨first, hfirst, hkey, -⟩ := exists_kept hrow
      obtain ⟨second, hsecond, hkey', -⟩ := exists_kept hother
      have hfirstIssuer := h.grouped first (mem_shareFrame_of_kept hfirst) row hrow hkey
      have hsecondIssuer := h.grouped second (mem_shareFrame_of_kept hsecond) other hother hkey'
      have hsame := h.once first hfirst second hsecond
        (hfirstIssuer.trans (hissuer.trans hsecondIssuer.symm))
      rw [← hkey, ← hkey', hsame]
    refine ⟨returns_iff.mp h.returns, htells, ?_⟩
    intro row hrow
    obtain ⟨best, hbest, hissuer⟩ := h.kept row hrow
    refine ⟨best, mem_shareFrame_of_kept hbest, hissuer, ?_, ?_⟩
    · intro other hother hother'
      rcases kept_first htells hbest hother (hother'.trans hissuer.symm) with rfl | hbefore
      · exact le_rfl
      · exact hbefore.marketCap_le
    · exact (h.liquid best hbest row hrow hissuer.symm).1
  · rintro ⟨hreturns, htells, hlargest⟩
    constructor
    · exact returns_iff.mpr hreturns
    · exact fun row hrow other hother => (htells row hrow other hother).mp
    · intro row hrow
      obtain ⟨first, hfirst, hkey, -⟩ := exists_kept hrow
      exact ⟨first, hfirst, (htells first (mem_shareFrame_of_kept hfirst) row hrow).mp hkey⟩
    · intro best hbest other hother hissuer
      apply eq_of_kept hbest hother
      exact (htells best (mem_shareFrame_of_kept hbest) other
        (mem_shareFrame_of_kept hother)).mpr hissuer
    · exact fun best => mem_shareFrame_of_kept
    · intro best hbest row hrow hissuer
      constructor
      · obtain ⟨largest, hin, hlargestIssuer, hcaps, hscore⟩ := hlargest row hrow
        have hbestCap := hcaps best (mem_shareFrame_of_kept hbest) hissuer.symm
        rcases kept_first htells hbest hin (hlargestIssuer.trans hissuer) with rfl | hbefore
        · exact hscore
        · -- the kept row is of the greatest capitalisation, too, and so has the greater score
          exact hscore.trans
            (hbefore.liquidityScore_le (le_antisymm hbestCap hbefore.marketCap_le))
      · intro hscore hcap
        rcases kept_first htells hbest hrow hissuer with rfl | hbefore
        · exact le_rfl
        · exact hbefore.originalOrder_le hcap.symm hscore.symm

/-- Cells read and written as the frame library does, for amounts with one decimal. -/
def plainFormat : CellFormat where
  toNumeric
    | .number x => x
    | .text s => (readFloat s).getD .nan
    | _ => .nan
  asText
    | .none => some "None"
    | .nan => some "nan"
    | .text s => some s
    | .number x => some (amountText x)
  capText x := amountText x.val
  str
    | .none => "None"
    | .nan => "nan"
    | .text s => s
    | .number x => amountText x
where
  amountText : Reported → String
    | .finite x => formatFixed 1 x
    | .infinite negative => if negative then "-inf" else "inf"
    | .nan => "nan"

/-- A row with some cells, the others missing. -/
def cellsOf (cells : List (String × Cell)) (column : String) : Cell := (cells.lookup column).getD .none

/-- Two share classes of one company, the larger of them less liquid. -/
def twoClasses : Snapshot where
  columns := ["ticker", "issuer_id", "market_cap", "dollar_volume"]
  rows := [
    cellsOf [("ticker", .text "GOOGL"), ("issuer_id", .text "0001652044"),
      ("market_cap", .number (.finite 2000)), ("dollar_volume", .number (.finite 10))],
    cellsOf [("ticker", .text "GOOG"), ("issuer_id", .text "0001652044"),
      ("market_cap", .number (.finite 1999)), ("dollar_volume", .number (.finite 50))]]

/-- Two companies without an issuer id. -/
def unidentified : Snapshot where
  columns := ["ticker", "issuer_id", "market_cap", "dollar_volume"]
  rows := [
    cellsOf [("ticker", .text "IBM"), ("issuer_id", .none), ("market_cap", .number (.finite 300)),
      ("dollar_volume", .number (.finite 10))],
    cellsOf [("ticker", .text "MMM"), ("issuer_id", .none), ("market_cap", .number (.finite 200)),
      ("dollar_volume", .number (.finite 50))]]

/-- The less liquid class is kept, and one of the companies is lost. -/
theorem not_keepsMostLiquid :
    ¬KeepsMostLiquid plainFormat twoClasses ∧ ¬KeepsMostLiquid plainFormat unidentified := by
  constructor
  · intro h
    have hlesser : ∃ best ∈ keptRows plainFormat twoClasses, ∃ row ∈ shareFrame plainFormat twoClasses,
        row.issuer plainFormat twoClasses = best.issuer plainFormat twoClasses ∧
          ¬row.liquidityScore ≤ best.liquidityScore := by
      decide +kernel
    obtain ⟨best, hbest, row, hrow, hissuer, hless⟩ := hlesser
    exact hless (h.liquid best hbest row hrow hissuer).1
  · intro h
    have hlost : ∃ row ∈ shareFrame plainFormat unidentified,
        ∃ other ∈ shareFrame plainFormat unidentified, row.dedupeKey = other.dedupeKey ∧
          row.issuer plainFormat unidentified ≠ other.issuer plainFormat unidentified := by
      decide +kernel
    obtain ⟨row, hrow, other, hother, hkey, hissuer⟩ := hlost
    exact hissuer (h.grouped row hrow other hother hkey)

end Poma

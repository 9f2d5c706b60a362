import Mathlib.Data.Rat.Sqrt
import Poma.Correctness.Issuers
import Poma.Engine.Selection
import Poma.Interaction.Program

/-!
# What a selection leaves out

The ranks of a snapshot are the numbers from one on, in the order of the
capitalisations. A selection by both scores takes as many companies as it may,
and leaves out none that is larger than a selected one and has climbed at least
as far.
-/

namespace Poma

open Interaction (bind_eq_ok map_eq_ok)

section Ranks

variable {format : CellFormat} {snapshot : Snapshot} {ranked : List RankedRow}

/-- What the rows of a ranking are. -/
structure RanksByCap (ranked : List RankedRow) : Prop where
  ranks : ranked.map (·.marketCapRank) = List.range' 1 ranked.length
  larger : ∀ row ∈ ranked, ∀ other ∈ ranked, other.marketCap < row.marketCap →
    row.marketCapRank < other.marketCapRank

/-- The rows of some companies before they are sorted. -/
def rankRows (kept : List (String × Numeric)) : List RankedRow :=
  kept.zipIdx.map fun ((ticker, cap), index) =>
    ⟨ticker, cap, rankFirst (kept.map (·.2)) index cap⟩

/-- A row has the rank of its place. -/
theorem exists_place {kept : List (String × Numeric)} {row : RankedRow} (h : row ∈ rankRows kept) :
    ∃ index, (kept.map (·.2))[index]? = some row.marketCap ∧
      row.marketCapRank = rankFirst (kept.map (·.2)) index row.marketCap := by
  obtain ⟨⟨⟨ticker, cap⟩, index⟩, hplace, rfl⟩ := List.mem_map.mp h
  have hkept : kept[index]? = some (ticker, cap) := List.mem_zipIdx_iff_getElem?.mp hplace
  refine ⟨index, ?_, rfl⟩
  rw [List.getElem?_map, hkept]
  rfl

theorem rankRows_perm (kept : List (String × Numeric)) :
    ((rankRows kept).map (·.marketCapRank)).Perm (List.range' 1 kept.length) := by
  have hranks := ranks_perm (kept.map (·.2))
  rw [List.length_map, List.zipIdx_map, List.map_map] at hranks
  unfold rankRows
  rw [List.map_map]
  exact hranks

theorem RanksByCap.increasing (h : RanksByCap ranked) :
    ranked.Pairwise fun row other => row.marketCapRank < other.marketCapRank := by
  have hranks : (ranked.map (·.marketCapRank)).Pairwise (· < ·) := by
    rw [h.ranks]
    exact List.pairwise_lt_range'
  exact List.pairwise_map.mp hranks

theorem rankByMarketCap_ranks (h : rankByMarketCap format snapshot = .ok ranked) :
    RanksByCap ranked := by
  unfold rankByMarketCap at h
  dsimp only at h
  split at h
  · cases h
  · cases hrows : deduplicateShareClasses format snapshot with
    | error e =>
      rw [hrows] at h
      cases h
    | ok rows =>
      rw [hrows] at h
      obtain rfl := Except.ok.inj h
      constructor
      · have hperm := rankRows_perm (rows.filterMap (capitalised format))
        have hlength : (rows.filterMap (capitalised format)).length =
            (rankRows (rows.filterMap (capitalised format))).length := by simp [rankRows]
        rw [hlength] at hperm
        rw [List.length_insertionSort]
        exact map_insertionSort_eq_range' hperm
      · intro row hrow other hother hcap
        obtain ⟨i, hi, hrank⟩ := exists_place ((List.mem_insertionSort _).mp hrow)
        obtain ⟨j, hj, hrank'⟩ := exists_place ((List.mem_insertionSort _).mp hother)
        rw [hrank, hrank']
        exact rankFirst_lt_of_gt hi hcap

end Ranks

section Scores

variable {deviation : List ℚ → ℚ} {merged : List MergedRow} {row other third : MergedRow}

/-- Greater values have greater scores. -/
theorem zscore_mono {values : List ℚ} (hdeviation : 0 ≤ deviation values) {a b : ℚ} (h : a ≤ b) :
    zscore deviation values a ≤ zscore deviation values b := by
  unfold zscore
  by_cases hzero : deviation values = 0
  · rw [if_pos hzero, if_pos hzero]
  · rw [if_neg hzero, if_neg hzero]
    exact div_le_div_of_nonneg_right (sub_le_sub_right h _) hdeviation

variable (merged) in
/-- A smaller rank and a greater improvement make a greater score. -/
theorem combinedScore_mono (hdeviation : ∀ values, 0 ≤ deviation values)
    (hrank : row.current.marketCapRank ≤ other.current.marketCapRank)
    (himprovement : other.improvement ≤ row.improvement) :
    combinedScore deviation merged other ≤ combinedScore deviation merged row := by
  have hsize : sizeScore deviation merged other ≤ sizeScore deviation merged row := by
    apply zscore_mono (hdeviation _)
    exact neg_le_neg (Nat.cast_le.mpr hrank)
  have hvelocity : rankVelocityScore deviation merged other ≤
      rankVelocityScore deviation merged row := by
    apply zscore_mono (hdeviation _)
    exact Int.cast_le.mpr himprovement
  unfold combinedScore
  exact add_le_add hsize hvelocity

theorem scoredBefore_total (row other : MergedRow) :
    ScoredBefore deviation merged row other ∨ ScoredBefore deviation merged other row := by
  unfold ScoredBefore
  rcases lt_trichotomy (combinedScore deviation merged row) (combinedScore deviation merged other)
    with hscore | hscore | hscore
  · exact Or.inr (Or.inl hscore)
  · rcases lt_trichotomy row.improvement other.improvement with himproved | himproved | himproved
    · exact Or.inr (Or.inr ⟨hscore.symm, Or.inl himproved⟩)
    · rcases le_total row.current.marketCapRank other.current.marketCapRank with hrank | hrank
      · exact Or.inl (Or.inr ⟨hscore, Or.inr ⟨himproved, hrank⟩⟩)
      · exact Or.inr (Or.inr ⟨hscore.symm, Or.inr ⟨himproved.symm, hrank⟩⟩)
    · exact Or.inl (Or.inr ⟨hscore, Or.inl himproved⟩)
  · exact Or.inl (Or.inl hscore)

/-- A larger company that has climbed at least as far is not sorted after. -/
theorem not_scoredBefore (hdeviation : ∀ values, 0 ≤ deviation values)
    (hrank : row.current.marketCapRank < other.current.marketCapRank)
    (himprovement : other.improvement ≤ row.improvement) :
    ¬ScoredBefore deviation merged other row := by
  have hscore := combinedScore_mono merged hdeviation hrank.le himprovement
  rintro (hless | ⟨-, hless | ⟨-, hless⟩⟩)
  · exact hscore.not_gt hless
  · exact himprovement.not_gt hless
  · exact hrank.not_ge hless

end Scores

section Selections

variable {format : CellFormat} {deviation : List ℚ → ℚ} {current historical : Snapshot}
  {ranked earlier : List RankedRow} {maxHoldings : ℤ}

/-- What the merged frame has for a company: its rank before or, where none is known, that of
today. -/
theorem mem_mergeRanks {row : MergedRow} :
    row ∈ mergeRanks ranked earlier ↔ row.current ∈ ranked ∧
      ((∃ known ∈ earlier, known.ticker = row.current.ticker ∧
          row.previousRank = known.marketCapRank) ∨
        ((∀ known ∈ earlier, known.ticker ≠ row.current.ticker) ∧
          row.previousRank = row.current.marketCapRank)) := by
  have hknown : ∀ company : RankedRow,
      earlier.filter (·.ticker = company.ticker) = [] ↔
        ∀ known ∈ earlier, known.ticker ≠ company.ticker := by
    intro company
    simp only [List.filter_eq_nil_iff, decide_eq_true_eq, ne_eq]
  unfold mergeRanks
  rw [List.mem_flatMap]
  constructor
  · rintro ⟨company, hcompany, hrow⟩
    split at hrow
    · rename_i hnone
      obtain rfl := List.mem_singleton.mp hrow
      exact ⟨hcompany, Or.inr ⟨(hknown company).mp hnone, rfl⟩⟩
    · obtain ⟨known, hmem, rfl⟩ := List.mem_map.mp hrow
      obtain ⟨hearlier, hticker⟩ := List.mem_filter.mp hmem
      exact ⟨hcompany, Or.inl ⟨known, hearlier, of_decide_eq_true hticker, rfl⟩⟩
  · rintro ⟨hcompany, h⟩
    refine ⟨row.current, hcompany, ?_⟩
    rcases h with ⟨known, hearlier, hticker, hrank⟩ | ⟨hnone, hrank⟩
    · have hmem : known ∈ earlier.filter (·.ticker = row.current.ticker) :=
        List.mem_filter.mpr ⟨hearlier, decide_eq_true hticker⟩
      split
      · rename_i hnil
        rw [hnil] at hmem
        cases hmem
      · apply List.mem_map.mpr
        refine ⟨known, hmem, ?_⟩
        rw [← hrank]
    · rw [(hknown row.current).mpr hnone, ← hrank]
      exact List.mem_singleton_self _

/-- What a selection by both scores is made of. -/
theorem selectByCombinedFactor_spec {selected : List MergedRow}
    (h : selectByCombinedFactor format deviation current historical maxHoldings = .ok selected) :
    ∃ ranked earlier, rankByMarketCap format current = .ok ranked ∧
      rankByMarketCap format historical = .ok earlier ∧
      selected = ((mergeRanks ranked earlier).insertionSort
        (ScoredBefore deviation (mergeRanks ranked earlier))).take maxHoldings.toNat ∧
      (selected.length : ℤ) ≤ maxHoldings := by
  unfold selectByCombinedFactor at h
  split at h
  · cases h
  · obtain ⟨ranked, hcurrent, h⟩ := bind_eq_ok.mp h
    obtain ⟨earlier, hhistorical, rfl⟩ := map_eq_ok.mp h
    refine ⟨ranked, earlier, hcurrent, hhistorical, rfl, ?_⟩
    have hlength := List.length_take_le maxHoldings.toNat
      ((mergeRanks ranked earlier).insertionSort
        (ScoredBefore deviation (mergeRanks ranked earlier)))
    dsimp only
    omega

/-- What a selection by size alone is made of. -/
theorem selectTopMarketCap_spec {selected : List RankedRow}
    (h : selectTopMarketCap format current maxHoldings = .ok selected) :
    ∃ ranked, rankByMarketCap format current = .ok ranked ∧
      selected = ranked.take maxHoldings.toNat ∧ (selected.length : ℤ) ≤ maxHoldings := by
  unfold selectTopMarketCap at h
  split at h
  · cases h
  · obtain ⟨ranked, hcurrent, rfl⟩ := map_eq_ok.mp h
    refine ⟨ranked, hcurrent, rfl, ?_⟩
    have hlength := List.length_take_le maxHoldings.toNat ranked
    omega

/-- The population standard deviation, of values whose variance is a square. -/
def populationDeviation (values : List ℚ) : ℚ :=
  Rat.sqrt ((values.map fun value => (value - columnMean values) ^ 2).sum / values.length)

theorem populationDeviation_nonneg (values : List ℚ) : 0 ≤ populationDeviation values :=
  Rat.sqrt_nonneg _

/-- A snapshot of some companies. -/
def companies (caps : List (String × ℚ)) : Snapshot where
  columns := ["ticker", "market_cap"]
  rows := caps.map fun (ticker, cap) =>
    cellsOf [("ticker", .text ticker), ("market_cap", .number (.finite cap))]

/-- Where all rows of a ticker have one rank, there is one such row at most. -/
theorem length_filter_le_one (h : RanksByCap earlier) {ticker : String} {rank : Nat}
    (hsame : ∀ known ∈ earlier, known.ticker = ticker → known.marketCapRank = rank) :
    (earlier.filter (·.ticker = ticker)).length ≤ 1 := by
  have hranks : (earlier.filter (·.ticker = ticker)).map (·.marketCapRank) =
      List.replicate (earlier.filter (·.ticker = ticker)).length rank := by
    rw [List.map_eq_replicate_iff]
    intro known hknown
    obtain ⟨hmem, hticker⟩ := List.mem_filter.mp hknown
    exact hsame known hmem (of_decide_eq_true hticker)
  have hnodup : ((earlier.filter (·.ticker = ticker)).map (·.marketCapRank)).Nodup := by
    have hall : (earlier.map (·.marketCapRank)).Nodup := by
      rw [h.ranks]
      exact List.nodup_range'
    exact hall.sublist (List.filter_sublist.map RankedRow.marketCapRank)
  rw [hranks, List.nodup_replicate] at hnodup
  exact hnodup

/-- Where no company has moved in the ranking, the scores select the largest companies, as the
selection without an earlier snapshot does. -/
theorem selection_unmoved (hdeviation : ∀ values, 0 ≤ deviation values)
    (hcurrent : rankByMarketCap format current = .ok ranked)
    (hhistorical : rankByMarketCap format historical = .ok earlier)
    (hunmoved : ∀ row ∈ ranked, ∀ known ∈ earlier, known.ticker = row.ticker →
      known.marketCapRank = row.marketCapRank) :
    (selectByCombinedFactor format deviation current historical maxHoldings).map
      (fun rows => rows.map (·.current)) = selectTopMarketCap format current maxHoldings := by
  have hmerged : mergeRanks ranked earlier = ranked.map fun row => ⟨row, row.marketCapRank⟩ := by
    unfold mergeRanks
    rw [← List.flatMap_pure_eq_map]
    apply List.flatMap_congr
    intro row hrow
    have honce := length_filter_le_one (rankByMarketCap_ranks hhistorical) (hunmoved row hrow)
    cases hknown : earlier.filter (·.ticker = row.ticker) with
    | nil => rfl
    | cons known rest =>
      rw [hknown, List.length_cons] at honce
      have hmem : known ∈ earlier.filter (·.ticker = row.ticker) := by
        rw [hknown]
        exact List.mem_cons_self
      obtain ⟨hearlier, hticker⟩ := List.mem_filter.mp hmem
      obtain rfl : rest = [] := List.length_eq_zero_iff.mp (by omega)
      have hrank := hunmoved row hrow known hearlier (of_decide_eq_true hticker)
      show [MergedRow.mk row known.marketCapRank] = [⟨row, row.marketCapRank⟩]
      rw [hrank]
  have hunsorted : (mergeRanks ranked earlier).Pairwise
      (ScoredBefore deviation (mergeRanks ranked earlier)) := by
    rw [hmerged]
    apply List.pairwise_map.mpr
    apply (rankByMarketCap_ranks hcurrent).increasing.imp
    intro row other hrank
    have hstill : ∀ company : RankedRow,
        (MergedRow.mk company company.marketCapRank).improvement = 0 := fun _ => sub_self _
    apply (scoredBefore_total _ _).resolve_right
    apply not_scoredBefore hdeviation hrank
    rw [hstill, hstill]
  have hselected : (((mergeRanks ranked earlier).insertionSort
      (ScoredBefore deviation (mergeRanks ranked earlier))).take maxHoldings.toNat).map (·.current) =
      ranked.take maxHoldings.toNat := by
    rw [List.Pairwise.insertionSort_eq hunsorted, List.map_take, hmerged, List.map_map]
    exact congrArg _ (List.map_id _)
  unfold selectByCombinedFactor selectTopMarketCap
  split
  · rfl
  · rw [hcurrent, hhistorical]
    exact congrArg Except.ok hselected

/-- Both companies have grown, and neither has moved. -/
theorem selection_unmoved_grown :
    (selectByCombinedFactor plainFormat populationDeviation
        (companies [("AAA", 300), ("BBB", 200)]) (companies [("AAA", 200), ("BBB", 150)]) 1).map
      (fun rows => rows.map (·.current)) =
        selectTopMarketCap plainFormat (companies [("AAA", 300), ("BBB", 200)]) 1 := by
  have hcurrent : rankByMarketCap plainFormat (companies [("AAA", 300), ("BBB", 200)]) =
      .ok [⟨"AAA", ⟨.finite 300, nofun⟩, 1⟩, ⟨"BBB", ⟨.finite 200, nofun⟩, 2⟩] := by
    decide +kernel
  have hhistorical : rankByMarketCap plainFormat (companies [("AAA", 200), ("BBB", 150)]) =
      .ok [⟨"AAA", ⟨.finite 200, nofun⟩, 1⟩, ⟨"BBB", ⟨.finite 150, nofun⟩, 2⟩] := by
    decide +kernel
  exact selection_unmoved populationDeviation_nonneg hcurrent hhistorical (by decide)

end Selections

end Poma

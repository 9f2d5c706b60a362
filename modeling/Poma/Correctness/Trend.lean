import Poma.Engine.Trend

/-!
# The trend signal changes once a month

In a date-ordered history the month in progress is the month of the last valid
observation. Whatever else that month brings leaves the closes before it as they
are, so the signal stays too, and it reads nothing but the last valid observation
of each of the completed months it averages.
-/

namespace Poma

namespace CoreEtf

variable {V : Type} (toNumeric : V → Reported)

/-- A history in the order of its dates. -/
def Ordered (history : List (Row V)) : Prop := (history.map (·.time)).Pairwise (· ≤ ·)

/-- The last valid observation. -/
def lastValid (history : List (Row V)) : Option Observation :=
  (validPrices toNumeric history).getLast?

/-- The last valid observation of a month. -/
def lastValidIn (history : List (Row V)) (month : ℤ) : Option Observation :=
  ((validPrices toNumeric history).filter fun seen => seen.month = month).getLast?

/-- The months before the one of the last valid observation that have a valid observation. -/
def completedMonths (history : List (Row V)) : List ℤ :=
  match lastValid toNumeric history with
  | none => []
  | some last => (sortedKeys Observation.month (validPrices toNumeric history)).filter
      (· < last.month)

/-- The prices of the last valid observations of the last so many completed months. -/
def recentCloses (history : List (Row V)) (count : Nat) : List Reported :=
  ((completedMonths toNumeric history).drop
    ((completedMonths toNumeric history).length - count)).filterMap fun month =>
      (lastValidIn toNumeric history month).map (·.price)

section Months

/-- The months of a history, increasing. -/
theorem sortedKeys_pairwise (series : List Observation) :
    (sortedKeys Observation.month series).Pairwise (· < ·) := by
  have hsorted : (sortedKeys Observation.month series).Pairwise (· ≤ ·) :=
    List.pairwise_insertionSort _ _
  have hnodup : (sortedKeys Observation.month series).Pairwise (· ≠ ·) := nodup_sortedKeys
  exact (hsorted.and hnodup).imp fun h => lt_of_le_of_ne h.1 h.2

/-- A month of a history has a last observation. -/
theorem getLast?_month_isSome {series : List Observation} {month : ℤ}
    (h : month ∈ sortedKeys Observation.month series) :
    ((series.filter fun seen => seen.month = month).getLast?).isSome := by
  obtain ⟨seen, hseen, hmonth⟩ := mem_sortedKeys.mp h
  rw [List.getLast?_isSome]
  exact List.ne_nil_of_mem (List.mem_filter.mpr ⟨hseen, by simpa using hmonth⟩)

variable {toNumeric}

theorem validPrices_append (history extension : List (Row V)) :
    validPrices toNumeric (history ++ extension) =
      validPrices toNumeric history ++ validPrices toNumeric extension := by
  simp [validPrices]

theorem mem_validPrices {history : List (Row V)} {seen : Observation}
    (h : seen ∈ validPrices toNumeric history) :
    ∃ row ∈ history, seen = ⟨row.time, toNumeric row.value⟩ := by
  unfold validPrices at h
  obtain ⟨row, hrow, rfl⟩ := List.mem_map.mp (List.mem_of_mem_filter (List.mem_of_mem_filter h))
  exact ⟨row, hrow, rfl⟩

/-- No observation of an ordered history is in a later month than the last valid one. -/
theorem month_le_last {history : List (Row V)} (hordered : Ordered history) {last : Observation}
    (hlast : lastValid toNumeric history = some last) :
    ∀ seen ∈ validPrices toNumeric history, seen.month ≤ last.month := by
  have hsorted : (validPrices toNumeric history).Pairwise fun first second =>
      first.time ≤ second.time := by
    unfold validPrices
    apply List.Pairwise.filter
    apply List.Pairwise.filter
    rw [List.pairwise_map]
    exact List.pairwise_map.mp hordered
  obtain ⟨init, hinit⟩ := List.getLast?_eq_some_iff.mp hlast
  intro seen hseen
  rw [hinit] at hsorted hseen
  rcases List.mem_append.mp hseen with hseen | hseen
  · have hle := (List.pairwise_append.mp hsorted).2.2 seen hseen last (List.mem_singleton_self last)
    exact Timestamp.month_mono hle
  · rw [List.mem_singleton.mp hseen]

/-- The closes, where the last valid observation is in the latest month. -/
theorem completedMonthCloses_eq {history : List (Row V)} {last : Observation}
    (hlast : last ∈ validPrices toNumeric history)
    (hmax : ∀ seen ∈ validPrices toNumeric history, seen.month ≤ last.month) :
    completedMonthCloses toNumeric history =
      ((sortedKeys Observation.month (validPrices toNumeric history)).filter
        (· < last.month)).filterMap fun month =>
          (lastValidIn toNumeric history month).map (·.price) := by
  unfold completedMonthCloses monthEnds
  rw [dropLast_filterMap_of_isSome]
  · rw [dropLast_eq_filter_lt (sortedKeys_pairwise _) (mem_sortedKeys.mpr ⟨last, hlast, rfl⟩)]
    · rfl
    · intro month hmonth
      obtain ⟨seen, hseen, rfl⟩ := mem_sortedKeys.mp hmonth
      exact hmax seen hseen
  · intro month hmonth
    rw [Option.isSome_map]
    exact getLast?_month_isSome hmonth

/-- The closes of an ordered history are those of its completed months. -/
theorem completedMonthCloses_of_ordered {history : List (Row V)} (hordered : Ordered history) :
    completedMonthCloses toNumeric history =
      (completedMonths toNumeric history).filterMap fun month =>
        (lastValidIn toNumeric history month).map (·.price) := by
  unfold completedMonths
  cases hlast : lastValid toNumeric history with
  | none =>
    have hnone : validPrices toNumeric history = [] := List.getLast?_eq_none_iff.mp hlast
    unfold completedMonthCloses monthEnds
    rw [hnone]
    rfl
  | some last =>
    exact completedMonthCloses_eq (List.mem_of_getLast? hlast) (month_le_last hordered hlast)

/-- Every completed month has a last valid observation. -/
theorem lastValidIn_isSome {history : List (Row V)} {month : ℤ}
    (h : month ∈ completedMonths toNumeric history) :
    ((lastValidIn toNumeric history month).map (·.price)).isSome := by
  unfold completedMonths at h
  split at h
  · cases h
  · rw [Option.isSome_map]
    exact getLast?_month_isSome (List.mem_of_mem_filter h)

/-- The closes a signal averages are the last closes. -/
theorem recentCloses_eq {history : List (Row V)} (hordered : Ordered history) (count : Nat) :
    recentCloses toNumeric history count = (completedMonthCloses toNumeric history).drop
      ((completedMonthCloses toNumeric history).length - count) := by
  have hall : ∀ month ∈ completedMonths toNumeric history,
      ((lastValidIn toNumeric history month).map (·.price)).isSome :=
    fun month => lastValidIn_isSome
  rw [completedMonthCloses_of_ordered hordered, drop_filterMap_of_isSome hall,
    length_filterMap_of_isSome hall]
  rfl

end Months

section Signal

variable {toNumeric}

/-- What a signal makes of the closes it averages. -/
def judge (mean : List Reported → Reported) (closes : List Reported) (count : Nat) :
    Except Exn (Option Bool) :=
  if closes.length < count then .ok none else closesAboveMean mean closes

/-- The signal of an ordered history reads its recent closes, and nothing else. -/
theorem trendIsUp_eq_judge {mean : List Reported → Reported} {history : List (Row V)} (hordered : Ordered history) {count : Nat}
    (hcount : 0 < count) : trendIsUp toNumeric mean history count =
      judge mean (recentCloses toNumeric history count) count := by
  unfold trendIsUp judge
  rw [recentCloses_eq hordered]
  generalize completedMonthCloses toNumeric history = closes
  have hlength : (closes.drop (closes.length - count)).length < count ↔
      (closes.length : ℤ) < count := by
    rw [List.length_drop]
    omega
  have hwindow : ilocFrom closes (-(count : ℤ)) = closes.drop (closes.length - count) := by
    have hnegative : -(count : ℤ) < 0 := by omega
    unfold ilocFrom
    rw [if_pos hnegative]
    simp
  dsimp only
  by_cases hfew : (closes.length : ℤ) < count
  · rw [if_pos hfew, if_pos (hlength.mpr hfew)]
  · rw [if_neg hfew, if_neg fun h => hfew (hlength.mp h), hwindow]

/-- Further observations of the month in progress leave the closes as they are. -/
theorem completedMonthCloses_append {history extension : List (Row V)}
    (hordered : Ordered history) {last : Observation}
    (hlast : lastValid toNumeric history = some last)
    (hmonth : ∀ row ∈ extension, row.time.month = last.month) :
    completedMonthCloses toNumeric (history ++ extension) =
      completedMonthCloses toNumeric history := by
  have hmem : last ∈ validPrices toNumeric history := List.mem_of_getLast? hlast
  have hmax := month_le_last hordered hlast
  have hnew : ∀ seen ∈ validPrices toNumeric extension, seen.month = last.month := by
    intro seen hseen
    obtain ⟨row, hrow, rfl⟩ := mem_validPrices hseen
    exact hmonth row hrow
  have hkeys : sortedKeys Observation.month (validPrices toNumeric (history ++ extension)) =
      sortedKeys Observation.month (validPrices toNumeric history) := by
    apply insertionSort_dedup_congr
    intro month
    rw [validPrices_append, List.map_append, List.mem_append]
    constructor
    · rintro (hold | hadded)
      · exact hold
      · obtain ⟨seen, hseen, rfl⟩ := List.mem_map.mp hadded
        rw [hnew seen hseen]
        exact List.mem_map_of_mem hmem
    · exact Or.inl
  have hmax' : ∀ seen ∈ validPrices toNumeric (history ++ extension),
      seen.month ≤ last.month := by
    intro seen hseen
    rw [validPrices_append] at hseen
    rcases List.mem_append.mp hseen with hold | hadded
    · exact hmax seen hold
    · exact (hnew seen hadded).le
  have hmem' : last ∈ validPrices toNumeric (history ++ extension) := by
    rw [validPrices_append]
    exact List.mem_append_left _ hmem
  rw [completedMonthCloses_eq hmem hmax, completedMonthCloses_eq hmem' hmax', hkeys]
  -- a completed month has none of the further observations
  apply List.filterMap_congr
  intro month hcompleted
  have hbefore : month < last.month := by simpa using List.of_mem_filter hcompleted
  have hnone : (validPrices toNumeric extension).filter (fun seen => seen.month = month) = [] := by
    rw [List.filter_eq_nil_iff]
    intro seen hseen
    rw [hnew seen hseen]
    simpa using hbefore.ne'
  unfold lastValidIn
  rw [validPrices_append, List.filter_append, hnone, List.append_nil]

end Signal

/-- The trend signal changes at most once a month, and reads one price of each month. -/
structure ChangesMonthly (toNumeric : V → Reported) (mean : List Reported → Reported) :
    Prop where
  /-- What the month in progress still brings, valid or not, leaves the signal as it is. -/
  steady : ∀ (history extension : List (Row V)) (smaMonths : ℤ) (last : Observation),
    Ordered history → lastValid toNumeric history = some last →
    (∀ row ∈ extension, row.time.month = last.month) →
    trendIsUp toNumeric mean (history ++ extension) smaMonths = trendIsUp toNumeric mean history smaMonths
  /-- Two histories with the same last valid prices in their last completed months have the same
  signal. -/
  recent : ∀ (first second : List (Row V)) (smaMonths : Nat), 0 < smaMonths → Ordered first →
    Ordered second → recentCloses toNumeric first smaMonths = recentCloses toNumeric second smaMonths →
    trendIsUp toNumeric mean first smaMonths = trendIsUp toNumeric mean second smaMonths

theorem trend_changesMonthly (toNumeric : V → Reported) (mean : List Reported → Reported) :
    ChangesMonthly toNumeric mean where
  steady history extension smaMonths last hordered hlast hmonth := by
    unfold trendIsUp
    rw [completedMonthCloses_append hordered hlast hmonth]
  recent first second smaMonths hcount hfirst hsecond hsame := by
    rw [trendIsUp_eq_judge hfirst hcount, trendIsUp_eq_judge hsecond hcount, hsame]

/-- Closes of three months. -/
def threeMonths : List (Row Reported) :=
  [⟨⟨0, 1⟩, .finite 10⟩, ⟨⟨1, 1⟩, .finite 12⟩, ⟨⟨2, 1⟩, .finite 9⟩]

/-- The same closes, and an earlier price of the second month. -/
def moreOfSecond : List (Row Reported) :=
  [⟨⟨0, 1⟩, .finite 10⟩, ⟨⟨1, 0⟩, .finite 50⟩, ⟨⟨1, 1⟩, .finite 12⟩, ⟨⟨2, 1⟩, .finite 9⟩]

theorem ordered_threeMonths : Ordered threeMonths := by
  unfold Ordered
  decide +kernel

theorem ordered_moreOfSecond : Ordered moreOfSecond := by
  unfold Ordered
  decide +kernel

/-- The signal is up, and neither a later price of the third month nor an earlier one of the second
changes it. -/
theorem trend_changesMonthly_threeMonths :
    trendIsUp id exactMean threeMonths 2 = .ok (some true) ∧
    trendIsUp id exactMean (threeMonths ++ [⟨⟨2, 2⟩, .finite 30⟩]) 2 =
      trendIsUp id exactMean threeMonths 2 ∧
    trendIsUp id exactMean moreOfSecond (2 : Nat) =
      trendIsUp id exactMean threeMonths (2 : Nat) := by
  refine ⟨by decide +kernel, ?_, ?_⟩
  · apply (trend_changesMonthly id exactMean).steady _ _ _ ⟨⟨2, 1⟩, .finite 9⟩
    · exact ordered_threeMonths
    · decide +kernel
    · intro row hrow
      rw [List.mem_singleton.mp hrow]
      rfl
  · apply (trend_changesMonthly id exactMean).recent
    · decide
    · exact ordered_moreOfSecond
    · exact ordered_threeMonths
    · decide +kernel

end CoreEtf

end Poma

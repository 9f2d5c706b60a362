import Poma.Broker.Venues
import Poma.Correctness.Repricing

/-!
# What the venue selection finds

The best sample of a ticker is one with the least spread among the venues asked
until it is settled. A crossed quote has a spread below zero: it beats every
other, and settles its ticker. Where none is asked, a good quote is found if
there is one, and the narrowest quote otherwise.
-/

namespace Poma

namespace MarketData

/-- A tick with two finite sides in order. -/
def Valid (data : MarketData) : Prop :=
  data.hasTickTime = true ∧ ∃ bid ask : ℚ, data.bid = some (.finite bid) ∧
    data.ask = some (.finite ask) ∧ 0 < bid ∧ bid ≤ ask

/-- A tick whose bid is above its ask. -/
def Crossed (data : MarketData) : Prop :=
  data.hasTickTime = true ∧ ∃ bid ask : ℚ, data.bid = some (.finite bid) ∧
    data.ask = some (.finite ask) ∧ 0 < ask ∧ ask < bid

/-- The spread of the sample, when it is a number. -/
def spread (data : MarketData) : Option ℚ := data.sampleSpreadBps.bind Reported.value?

/-- A valid quote within a spread limit. -/
def Narrow (limit : ℚ) (data : MarketData) : Prop :=
  data.Valid ∧ ∃ spread, data.spread = some spread ∧ spread ≤ limit

/-- A tick with a spread, a number or not. -/
def isTwoSided (data : MarketData) : Bool := data.hasTickTime && data.sampleSpreadBps.isSome

/-- The spread of two positive finite sides. -/
theorem sampleSpreadBps_finite {data : MarketData} {bid ask : ℚ}
    (hbid : data.bid = some (.finite bid)) (hask : data.ask = some (.finite ask)) (hb : 0 < bid)
    (ha : 0 < ask) :
    data.sampleSpreadBps = some (.finite ((ask - bid) / ((bid + ask) / 2) * 10000)) := by
  have hmid : 0 < (bid + ask) / 2 := by linarith
  have hvalid : ∀ {price : ℚ}, 0 < price → validPrice (some (.finite price)) =
      some (.finite price) := by
    intro price hprice
    simp [validPrice, hprice]
  unfold sampleSpreadBps
  rw [hbid, hask, hvalid hb, hvalid ha]
  simp [computeSpreadBps, not_le.mpr hb, not_le.mpr ha, not_le.mpr hmid]

/-- A spread is not a number, or that of two positive finite sides. -/
theorem sampleSpreadBps_cases {data : MarketData} {spread : Reported}
    (h : data.sampleSpreadBps = some spread) : spread = .nan ∨ ∃ bid ask : ℚ,
      data.bid = some (.finite bid) ∧ data.ask = some (.finite ask) ∧ 0 < bid ∧ 0 < ask ∧
        spread = .finite ((ask - bid) / ((bid + ask) / 2) * 10000) := by
  unfold sampleSpreadBps at h
  split at h
  · rename_i bid ask hbid hask
    obtain ⟨hbid, hb⟩ := Option.filter_eq_some_iff.mp hbid
    obtain ⟨hask, ha⟩ := Option.filter_eq_some_iff.mp hask
    have hb : 0 < bid := by simpa using hb
    have ha : 0 < ask := by simpa using ha
    have hfinite := sampleSpreadBps_finite hbid hask hb ha
    have hmid : 0 < (bid + ask) / 2 := by linarith
    rw [computeSpreadBps, if_neg (not_or.mpr ⟨not_le.mpr hb, not_le.mpr ha⟩)] at h
    dsimp only at h
    rw [if_neg (not_le.mpr hmid)] at h
    exact Or.inr ⟨bid, ask, hbid, hask, hb, ha, (Option.some.inj h).symm⟩
  · exact Or.inl (Option.some.inj h).symm
  · cases h

/-- A tick with a finite spread is valid, or crossed below zero. -/
theorem valid_or_crossed {data : MarketData} {q : ℚ} (htick : data.hasTickTime = true)
    (h : data.sampleSpreadBps = some (.finite q)) :
    (data.Valid ∧ 0 ≤ q) ∨ (data.Crossed ∧ q < 0) := by
  rcases sampleSpreadBps_cases h with hnan | ⟨bid, ask, hbid, hask, hb, ha, hq⟩
  · cases hnan
  · obtain rfl := Reported.finite.inj hq
    have hmid : 0 < (bid + ask) / 2 := by linarith
    by_cases hle : bid ≤ ask
    · left
      refine ⟨⟨htick, bid, ask, hbid, hask, hb, hle⟩, ?_⟩
      have hdiff : 0 ≤ ask - bid := by linarith
      positivity
    · right
      have hlt : ask - bid < 0 := by linarith
      refine ⟨⟨htick, bid, ask, hbid, hask, ha, not_le.mp hle⟩, ?_⟩
      have hneg := div_neg_of_neg_of_pos hlt hmid
      linarith

theorem Valid.spread {data : MarketData} (h : data.Valid) :
    ∃ q, data.sampleSpreadBps = some (.finite q) ∧ 0 ≤ q := by
  obtain ⟨htick, bid, ask, hbid, hask, hb, hle⟩ := h
  have hfinite := sampleSpreadBps_finite hbid hask hb (hb.trans_le hle)
  refine ⟨_, hfinite, ?_⟩
  have hdiff : 0 ≤ ask - bid := by linarith
  have hmid : 0 < (bid + ask) / 2 := by linarith
  positivity

theorem Crossed.spread {data : MarketData} (h : data.Crossed) :
    ∃ q, data.sampleSpreadBps = some (.finite q) ∧ q < 0 := by
  obtain ⟨htick, bid, ask, hbid, hask, ha, hlt⟩ := h
  have hfinite := sampleSpreadBps_finite hbid hask (ha.trans hlt) ha
  have hdiff : ask - bid < 0 := by linarith
  have hmid : 0 < (bid + ask) / 2 := by linarith
  have hneg := div_neg_of_neg_of_pos hdiff hmid
  exact ⟨_, hfinite, by linarith⟩

theorem Valid.not_crossed {data : MarketData} (h : data.Valid) : ¬data.Crossed := by
  intro hcrossed
  obtain ⟨q, hq, hnonneg⟩ := h.spread
  obtain ⟨r, hr, hneg⟩ := hcrossed.spread
  rw [hq] at hr
  have hsame := Reported.finite.inj (Option.some.inj hr)
  linarith

theorem Valid.isTwoSided {data : MarketData} (h : data.Valid) : data.isTwoSided = true := by
  obtain ⟨q, hq, -⟩ := h.spread
  simp [MarketData.isTwoSided, h.1, hq]

theorem spread_eq {data : MarketData} {q : ℚ} (h : data.sampleSpreadBps = some (.finite q)) :
    data.spread = some q := by
  rw [MarketData.spread, h]
  rfl

end MarketData

/-- The better of the best sample so far and a sample without regard to its time. -/
def keepBetter (best : Option MarketData) (data : MarketData) : Option MarketData :=
  if data.hasTickTime && isBetterSample data best then some data else best

/-- The answers of the venues that are asked for a ticker: up to the one that settles it. -/
def askedUntilSettled (maxSpreadBps : Option ℚ) : List MarketData → List MarketData
  | [] => []
  | data :: rest =>
    if data.settles maxSpreadBps then [data] else data :: askedUntilSettled maxSpreadBps rest

section Best

variable {answers : List MarketData} {limit : ℚ}

theorem mem_of_mem_asked {maxSpreadBps : Option ℚ} {data : MarketData}
    (h : data ∈ askedUntilSettled maxSpreadBps answers) : data ∈ answers := by
  induction answers with
  | nil => exact h
  | cons first rest ih =>
    rw [askedUntilSettled] at h
    split at h
    · rw [List.mem_singleton.mp h]
      exact List.mem_cons_self
    · rcases List.mem_cons.mp h with rfl | h
      · exact List.mem_cons_self
      · exact List.mem_cons_of_mem _ (ih h)

/-- Either a venue that is asked settles the ticker, or all venues are asked. -/
theorem asked_settles_or_all (maxSpreadBps : Option ℚ) (answers : List MarketData) :
    (∃ data ∈ askedUntilSettled maxSpreadBps answers, data.settles maxSpreadBps = true) ∨
      askedUntilSettled maxSpreadBps answers = answers := by
  induction answers with
  | nil => exact Or.inr rfl
  | cons first rest ih =>
    rw [askedUntilSettled]
    by_cases hsettles : first.settles maxSpreadBps = true
    · rw [if_pos hsettles]
      exact Or.inl ⟨first, List.mem_cons_self, hsettles⟩
    · rw [if_neg hsettles]
      rcases ih with ⟨data, hmem, hdata⟩ | hall
      · exact Or.inl ⟨data, List.mem_cons_of_mem _ hmem, hdata⟩
      · exact Or.inr (by rw [hall])

/-- A first sample whose spread is not a number is never replaced. -/
theorem foldl_keepBetter_nan {first : MarketData} (h : first.sampleSpreadBps = some .nan)
    (rest : List MarketData) : rest.foldl keepBetter (some first) = some first := by
  induction rest with
  | nil => rfl
  | cons data rest ih =>
    have hworse : isBetterSample data (some first) = false := by
      unfold isBetterSample
      simp only [h]
      cases data.sampleSpreadBps with
      | none => rfl
      | some spread => cases spread <;> rfl
    rw [List.foldl_cons, keepBetter, hworse, Bool.and_false, if_neg Bool.false_ne_true]
    exact ih

/-- From a sample with a spread on, the fold ends at the least spread. -/
theorem foldl_keepBetter_finite (rest : List MarketData) :
    ∀ {first : MarketData} {q : ℚ}, first.hasTickTime = true →
      first.sampleSpreadBps = some (.finite q) →
      ∃ best r, rest.foldl keepBetter (some first) = some best ∧ best ∈ first :: rest ∧
        best.hasTickTime = true ∧ best.sampleSpreadBps = some (.finite r) ∧
        ∀ data ∈ first :: rest, data.hasTickTime = true → ∀ other,
          data.sampleSpreadBps = some (.finite other) → r ≤ other := by
  induction rest with
  | nil =>
    intro first q htick hq
    refine ⟨first, q, rfl, List.mem_cons_self, htick, hq, ?_⟩
    intro data hdata _ other hother
    rw [List.mem_singleton.mp hdata, hq] at hother
    exact (Reported.finite.inj (Option.some.inj hother)).le
  | cons next rest ih =>
    intro first q htick hq
    rw [List.foldl_cons, keepBetter]
    by_cases hbetter : (next.hasTickTime && isBetterSample next (some first)) = true
    · rw [if_pos hbetter]
      obtain ⟨hnext, hbetter⟩ := Bool.and_eq_true_iff.mp hbetter
      obtain ⟨r, hr, hlt⟩ : ∃ r, next.sampleSpreadBps = some (.finite r) ∧ r < q := by
        unfold isBetterSample at hbetter
        simp only [hq] at hbetter
        cases hspread : next.sampleSpreadBps with
        | none =>
          rw [hspread] at hbetter
          cases hbetter
        | some spread =>
          rw [hspread] at hbetter
          rcases MarketData.sampleSpreadBps_cases hspread with rfl | ⟨bid, ask, _, _, _, _, rfl⟩
          · cases hbetter
          · exact ⟨_, rfl, of_decide_eq_true hbetter⟩
      obtain ⟨best, s, hbest, hmem, hbestTick, hs, hleast⟩ := ih hnext hr
      refine ⟨best, s, hbest, List.mem_cons_of_mem _ hmem, hbestTick, hs, ?_⟩
      intro data hdata hdataTick other hother
      rcases List.mem_cons.mp hdata with rfl | hdata
      · rw [hq] at hother
        obtain rfl := Reported.finite.inj (Option.some.inj hother)
        exact (hleast next List.mem_cons_self hnext r hr).trans hlt.le
      · exact hleast data hdata hdataTick other hother
    · rw [if_neg hbetter]
      obtain ⟨best, s, hbest, hmem, hbestTick, hs, hleast⟩ := ih htick hq
      refine ⟨best, s, hbest, ?_, hbestTick, hs, ?_⟩
      · rcases List.mem_cons.mp hmem with rfl | hmem
        · exact List.mem_cons_self
        · exact List.mem_cons_of_mem _ (List.mem_cons_of_mem _ hmem)
      · intro data hdata hdataTick other hother
        rcases List.mem_cons.mp hdata with rfl | hdata
        · exact hleast data List.mem_cons_self hdataTick other hother
        rcases List.mem_cons.mp hdata with rfl | hdata
        · have hnot : ¬other < q := by
            intro hlt
            apply hbetter
            simp [hdataTick, isBetterSample, hq, hother, hlt]
          have hfirst := hleast first List.mem_cons_self htick q hq
          linarith
        · exact hleast data (List.mem_cons_of_mem _ hdata) hdataTick other hother

/-- Samples without a spread are replaced by the first one that has a spread. -/
theorem foldl_keepBetter_first {first : MarketData} :
    ∀ {answers : List MarketData} {best : Option MarketData},
      (∀ data, best = some data → data.sampleSpreadBps = none) →
      answers.find? MarketData.isTwoSided = some first →
      ∃ rest, rest <:+ answers ∧ answers.foldl keepBetter best = rest.foldl keepBetter (some first) ∧
        ∀ data ∈ answers, data.isTwoSided = true → data ∈ first :: rest := by
  intro answers
  induction answers with
  | nil => exact fun _ h => nomatch h
  | cons data answers ih =>
    intro best hbest hfind
    rw [List.find?_cons] at hfind
    cases htwo : data.isTwoSided with
    | true =>
      rw [htwo] at hfind
      obtain rfl := Option.some.inj hfind
      obtain ⟨htick, hspread⟩ := Bool.and_eq_true_iff.mp htwo
      have hbetter : isBetterSample data best = true := by
        unfold isBetterSample
        cases best with
        | none => rfl
        | some current =>
          obtain ⟨spread, hspread⟩ := Option.isSome_iff_exists.mp hspread
          simp [hbest current rfl, hspread]
      refine ⟨answers, List.suffix_cons _ _, ?_, fun other hother _ => hother⟩
      rw [List.foldl_cons, keepBetter, htick, hbetter, Bool.and_true, if_pos rfl]
    | false =>
      rw [htwo] at hfind
      have hkeep : ∀ other, keepBetter best data = some other → other.sampleSpreadBps = none := by
        intro other hother
        unfold keepBetter at hother
        split at hother
        · rename_i htaken
          obtain rfl := Option.some.inj hother
          have htick := (Bool.and_eq_true_iff.mp htaken).1
          rw [MarketData.isTwoSided, htick, Bool.true_and] at htwo
          exact Option.not_isSome_iff_eq_none.mp (by simp [htwo])
        · exact hbest other hother
      obtain ⟨rest, hsuffix, hfold, hmem⟩ := ih hkeep hfind
      refine ⟨rest, hsuffix.trans (List.suffix_cons _ _), by rw [List.foldl_cons, hfold], ?_⟩
      intro other hother htwoSided
      rcases List.mem_cons.mp hother with rfl | hother
      · rw [htwo] at htwoSided
        cases htwoSided
      · exact hmem other hother htwoSided

/-- What the selection is to find among the answers of the venues of a ticker. -/
structure FindsGoodQuote (limit : ℚ) (answers : List MarketData) (found : Option MarketData) :
    Prop where
  narrow : (∃ data ∈ answers, data.Narrow limit) → ∃ data, found = some data ∧ data.Narrow limit
  narrowest : (¬∃ data ∈ answers, data.Narrow limit) → (∃ data ∈ answers, data.Valid) →
    ∃ data ∈ answers, found = some data ∧ data.Valid ∧ ∀ other ∈ answers, other.Valid →
      ∀ q r, data.spread = some q → other.spread = some r → q ≤ r

/-- The venues that are asked show no crossed quote, and the first spread is a number. -/
structure SelectsCleanly (limit : ℚ) (answers : List MarketData) : Prop where
  uncrossed : ∀ data ∈ askedUntilSettled (some limit) answers, ¬data.Crossed
  readable : ∀ first, (askedUntilSettled (some limit) answers).find? MarketData.isTwoSided =
    some first → first.sampleSpreadBps ≠ some .nan

theorem settles_iff {data : MarketData} : data.settles (some limit) = true ↔
    data.hasTickTime = true ∧ ∃ q, data.sampleSpreadBps = some (.finite q) ∧ q ≤ limit := by
  unfold MarketData.settles
  rw [Bool.and_eq_true]
  apply and_congr_right
  intro _
  constructor
  · intro h
    obtain ⟨spread, hspread, hle⟩ := (Option.any_eq_true _ _).mp h
    rcases MarketData.sampleSpreadBps_cases hspread with rfl | ⟨bid, ask, _, _, _, _, rfl⟩
    · cases hle
    · exact ⟨_, hspread, by simpa using hle⟩
  · rintro ⟨q, hq, hle⟩
    simp [hq, hle]

theorem MarketData.Narrow.settles {data : MarketData} (h : data.Narrow limit) :
    data.settles (some limit) = true := by
  obtain ⟨hvalid, spread, hspread, hle⟩ := h
  obtain ⟨q, hq, -⟩ := hvalid.spread
  rw [MarketData.spread_eq hq] at hspread
  obtain rfl := Option.some.inj hspread
  exact settles_iff.mpr ⟨hvalid.1, q, hq, hle⟩

/-- Where a spread was seen, the best sample has the least one, unless the first is no number. -/
theorem best_of_asked {asked : List MarketData} {first : MarketData}
    (hfirst : asked.find? MarketData.isTwoSided = some first) :
    (first.sampleSpreadBps = some .nan ∧ asked.foldl keepBetter none = some first) ∨
    ∃ best r, asked.foldl keepBetter none = some best ∧ best ∈ asked ∧
      best.hasTickTime = true ∧ best.sampleSpreadBps = some (.finite r) ∧
      ∀ data ∈ asked, data.hasTickTime = true → ∀ other,
        data.sampleSpreadBps = some (.finite other) → r ≤ other := by
  have hmem := List.mem_of_find?_eq_some hfirst
  have htwo : first.isTwoSided = true := List.find?_some hfirst
  obtain ⟨htick, hspread⟩ := Bool.and_eq_true_iff.mp htwo
  obtain ⟨spread, hspread⟩ := Option.isSome_iff_exists.mp hspread
  have hnone : ∀ data : MarketData, (none : Option MarketData) = some data →
      data.sampleSpreadBps = none := by simp
  obtain ⟨rest, hsuffix, hfold, hlater⟩ := foldl_keepBetter_first hnone hfirst
  rcases MarketData.sampleSpreadBps_cases hspread with rfl | ⟨bid, ask, _, _, _, _, rfl⟩
  · exact Or.inl ⟨hspread, hfold.trans (foldl_keepBetter_nan hspread rest)⟩
  · right
    obtain ⟨best, r, hbest, hin, hbestTick, hr, hleast⟩ :=
      foldl_keepBetter_finite rest htick hspread
    refine ⟨best, r, hfold.trans hbest, ?_, hbestTick, hr, ?_⟩
    · rcases List.mem_cons.mp hin with rfl | hin
      · exact hmem
      · exact hsuffix.mem hin
    · intro data hdata hdataTick other hother
      have hdataTwo : data.isTwoSided = true := by simp [MarketData.isTwoSided, hdataTick, hother]
      exact hleast data (hlater data hdata hdataTwo) hdataTick other hother

/-- A clean selection that sees a valid quote ends at a valid quote of the least spread. -/
theorem best_of_clean (hclean : SelectsCleanly limit answers)
    (hseen : ∃ data ∈ askedUntilSettled (some limit) answers, data.isTwoSided = true) :
    ∃ best r, (askedUntilSettled (some limit) answers).foldl keepBetter none = some best ∧
      best ∈ askedUntilSettled (some limit) answers ∧ best.Valid ∧
      best.sampleSpreadBps = some (.finite r) ∧
      ∀ data ∈ askedUntilSettled (some limit) answers, data.hasTickTime = true → ∀ other,
        data.sampleSpreadBps = some (.finite other) → r ≤ other := by
  obtain ⟨first, hfirst⟩ := Option.isSome_iff_exists.mp (List.find?_isSome.mpr hseen)
  rcases best_of_asked hfirst with ⟨hnan, -⟩ | ⟨best, r, hbest, hmem, htick, hr, hleast⟩
  · exact absurd hnan (hclean.readable first hfirst)
  · rcases MarketData.valid_or_crossed htick hr with ⟨hvalid, -⟩ | ⟨hcrossed, -⟩
    · exact ⟨best, r, hbest, hmem, hvalid, hr, hleast⟩
    · exact absurd hcrossed (hclean.uncrossed best hmem)

/-- A clean selection finds what there is to find. -/
theorem findsGoodQuote_of_clean (hclean : SelectsCleanly limit answers) :
    FindsGoodQuote limit answers
      ((askedUntilSettled (some limit) answers).foldl keepBetter none) := by
  have hall := asked_settles_or_all (some limit) answers
  constructor
  · rintro ⟨data, hdata, hnarrow⟩
    have hsettled : ∃ other ∈ askedUntilSettled (some limit) answers,
        other.settles (some limit) = true := by
      rcases hall with hsettled | hall
      · exact hsettled
      · exact ⟨data, by rwa [hall], hnarrow.settles⟩
    obtain ⟨other, hother, hsettles⟩ := hsettled
    obtain ⟨htick, q, hq, hle⟩ := settles_iff.mp hsettles
    obtain ⟨best, r, hbest, -, hvalid, hr, hleast⟩ :=
      best_of_clean hclean ⟨other, hother, by simp [MarketData.isTwoSided, htick, hq]⟩
    refine ⟨best, hbest, hvalid, r, MarketData.spread_eq hr, ?_⟩
    exact (hleast other hother htick q hq).trans hle
  · rintro hnone ⟨data, hdata, hvalid⟩
    have hasked : askedUntilSettled (some limit) answers = answers := by
      rcases hall with ⟨other, hother, hsettles⟩ | hall
      · obtain ⟨htick, q, hq, hle⟩ := settles_iff.mp hsettles
        rcases MarketData.valid_or_crossed htick hq with ⟨hotherValid, -⟩ | ⟨hcrossed, -⟩
        · exact absurd ⟨other, mem_of_mem_asked hother, hotherValid, q, MarketData.spread_eq hq, hle⟩
            hnone
        · exact absurd hcrossed (hclean.uncrossed other hother)
      · exact hall
    obtain ⟨best, r, hbest, hmem, hbestValid, hr, hleast⟩ :=
      best_of_clean hclean ⟨data, by rwa [hasked], hvalid.isTwoSided⟩
    refine ⟨best, mem_of_mem_asked hmem, hbest, hbestValid, ?_⟩
    intro other hother hotherValid q s hq hs
    obtain ⟨t, ht, -⟩ := hotherValid.spread
    rw [MarketData.spread_eq hr] at hq
    rw [MarketData.spread_eq ht] at hs
    obtain rfl := Option.some.inj hq
    obtain rfl := Option.some.inj hs
    exact hleast other (by rwa [hasked]) hotherValid.1 t ht

/-- Where there is a valid quote, a crossed one or a first spread that is no number hides it. -/
theorem clean_of_findsGoodQuote (hvalid : ∃ data ∈ answers, data.Valid)
    (h : FindsGoodQuote limit answers
      ((askedUntilSettled (some limit) answers).foldl keepBetter none)) :
    SelectsCleanly limit answers := by
  have hfound : ∃ best, (askedUntilSettled (some limit) answers).foldl keepBetter none = some best ∧
      best.Valid := by
    by_cases hnarrow : ∃ data ∈ answers, data.Narrow limit
    · obtain ⟨best, hbest, hnarrow⟩ := h.narrow hnarrow
      exact ⟨best, hbest, hnarrow.1⟩
    · obtain ⟨best, -, hbest, hbestValid, -⟩ := h.narrowest hnarrow hvalid
      exact ⟨best, hbest, hbestValid⟩
  obtain ⟨best, hbest, hbestValid⟩ := hfound
  obtain ⟨q, hq, hnonneg⟩ := hbestValid.spread
  constructor
  · intro data hdata hcrossed
    obtain ⟨r, hr, hneg⟩ := hcrossed.spread
    have htwo : data.isTwoSided = true := by simp [MarketData.isTwoSided, hcrossed.1, hr]
    obtain ⟨first, hfirst⟩ :=
      Option.isSome_iff_exists.mp (List.find?_isSome.mpr ⟨data, hdata, htwo⟩)
    rcases best_of_asked hfirst with ⟨hnan, hsame⟩ | ⟨other, s, hother, -, -, hs, hleast⟩
    · rw [hbest] at hsame
      obtain rfl := Option.some.inj hsame
      rw [hq] at hnan
      cases hnan
    · rw [hbest] at hother
      obtain rfl := Option.some.inj hother
      rw [hq] at hs
      obtain rfl := Reported.finite.inj (Option.some.inj hs)
      have hle := hleast data hdata hcrossed.1 r hr
      linarith
  · intro first hfirst hnan
    rcases best_of_asked hfirst with ⟨-, hsame⟩ | ⟨other, s, hother, hmem, -, hs, -⟩
    · rw [hbest] at hsame
      obtain rfl := Option.some.inj hsame
      rw [hq] at hnan
      cases hnan
    · have hnone : ∀ data : MarketData, (none : Option MarketData) = some data →
          data.sampleSpreadBps = none := by simp
      obtain ⟨rest, -, hfold, -⟩ := foldl_keepBetter_first hnone hfirst
      rw [foldl_keepBetter_nan hnan] at hfold
      rw [hbest] at hother hfold
      obtain rfl := Option.some.inj hother
      obtain rfl := Option.some.inj hfold
      rw [hs] at hnan
      cases hnan

end Best

/-- The best sample of a ticker so far, without its time. -/
def VenueState.best (state : VenueState) (ticker : String) : Option MarketData :=
  (state.ticked.lookup ticker).map SampledMarketData.marketData

section Loop

variable {venue : Venue} {ticker : String} {maxSpreadBps : Option ℚ}

/-- What a sample changes of the ticks. -/
theorem take_ticked (state : VenueState) (other : String) :
    (state.take venue other).ticked =
      if (venue.marketData other).hasTickTime = true ∧
          isBetterSample (venue.marketData other) (state.best other) = true then
        Dict.put state.ticked other (venue.sample other)
      else state.ticked := by
  have hsample : (venue.sample other).marketData = venue.marketData other := rfl
  unfold VenueState.take
  rw [← VenueState.best]
  simp only [hsample]
  by_cases htick : (venue.marketData other).hasTickTime = true
  · by_cases hbetter : isBetterSample (venue.marketData other) (state.best other) = true
    · simp [htick, hbetter]
    · simp [htick, hbetter]
  · rw [Bool.not_eq_true] at htick
    simp only [htick, Bool.not_false, ite_true, Bool.false_eq_true, false_and, ite_false]
    split <;> rfl

theorem take_best (state : VenueState) (other : String) :
    (state.take venue other).best ticker =
      if other = ticker then keepBetter (state.best ticker) (venue.marketData ticker)
      else state.best ticker := by
  have hticked : (state.take venue other).ticked = _ := take_ticked state other
  by_cases hsame : other = ticker
  · subst hsame
    rw [if_pos rfl, keepBetter, VenueState.best, hticked]
    by_cases hkept : (venue.marketData other).hasTickTime = true ∧
        isBetterSample (venue.marketData other) (state.best other) = true
    · rw [if_pos hkept, Dict.lookup_put, if_pos rfl, hkept.1, hkept.2]
      rfl
    · rw [if_neg hkept, ← VenueState.best]
      rw [← Bool.and_eq_true] at hkept
      rw [if_neg hkept]
  · rw [if_neg hsame, VenueState.best, hticked]
    split
    · rw [Dict.lookup_put, if_neg (Ne.symm hsame), ← VenueState.best]
    · rw [← VenueState.best]

/-- A batch takes one sample of every ticker of it. -/
theorem foldl_take_best {batch : List String} (hnodup : batch.Nodup) (state : VenueState) :
    (batch.foldl (VenueState.take venue) state).best ticker =
      if ticker ∈ batch then keepBetter (state.best ticker) (venue.marketData ticker)
      else state.best ticker := by
  induction batch generalizing state with
  | nil => rfl
  | cons other batch ih =>
    rw [List.nodup_cons] at hnodup
    rw [List.foldl_cons, ih hnodup.2, take_best]
    by_cases hsame : other = ticker
    · subst hsame
      rw [if_neg hnodup.1, if_pos rfl, if_pos List.mem_cons_self]
    · simp [hsame, Ne.symm hsame]

/-- What becomes of a ticker in the turn of a venue. -/
theorem ask_best {state : VenueState} (hnodup : state.remaining.Nodup) :
    (state.ask textCase maxSpreadBps venue).best ticker =
      if ticker ∈ state.remaining ∧ venue.allows textCase ticker = true then
        keepBetter (state.best ticker) (venue.marketData ticker)
      else state.best ticker := by
  change ((state.remaining.filter (venue.allows textCase)).foldl (VenueState.take venue)
    state).best ticker = _
  rw [foldl_take_best (hnodup.filter (venue.allows textCase))]
  simp only [List.mem_filter]

theorem mem_remaining_ask {state : VenueState} :
    ticker ∈ (state.ask textCase maxSpreadBps venue).remaining ↔
      ticker ∈ state.remaining ∧ ¬(venue.allows textCase ticker = true ∧
        (venue.marketData ticker).settles maxSpreadBps = true) := by
  unfold VenueState.ask
  simp only [List.mem_filter, Bool.not_eq_true', Bool.and_eq_false_iff, decide_eq_false_iff_not]
  apply and_congr_right
  intro hremaining
  simp only [hremaining, true_and, not_and_or, Bool.not_eq_true]

/-- What the loop over the venues keeps of a ticker. -/
theorem foldl_ask_best {venues : List Venue} :
    ∀ {state : VenueState}, state.remaining.Nodup →
      (venues.foldl (VenueState.ask textCase maxSpreadBps) state).best ticker =
        if ticker ∈ state.remaining then
          (askedUntilSettled maxSpreadBps ((venues.filter (·.allows textCase ticker)).map
            (·.marketData ticker))).foldl keepBetter (state.best ticker)
        else state.best ticker := by
  induction venues with
  | nil =>
    intro state _
    simp [askedUntilSettled]
  | cons venue venues ih =>
    intro state hnodup
    have hnext : (state.ask textCase maxSpreadBps venue).remaining.Nodup := hnodup.filter _
    rw [List.foldl_cons, ih hnext, ask_best hnodup]
    simp only [mem_remaining_ask]
    by_cases hmem : ticker ∈ state.remaining
    · by_cases hallows : venue.allows textCase ticker = true
      · by_cases hsettles : (venue.marketData ticker).settles maxSpreadBps = true
        · simp [hmem, hallows, hsettles, askedUntilSettled]
        · simp [hmem, hallows, hsettles, askedUntilSettled]
      · simp [hmem, hallows]
    · simp [hmem]

end Loop

/-- The sample returned for a ticker: a tick, or else the last missing attempt. -/
def returnedSample (result : Dict SampledMarketData × Dict SampledMarketData) (ticker : String) :
    Option MarketData :=
  ((result.1.lookup ticker) <|> (result.2.lookup ticker)).map SampledMarketData.marketData

/-- The answers of the venues that may be asked for a ticker, in order. -/
def answersFor (textCase : TextCase) (venues : List Venue) (ticker : String) : List MarketData :=
  (venues.filter (·.allows textCase ticker)).map (·.marketData ticker)

/-- A tick that was asked for leaves a best sample. -/
theorem foldl_keepBetter_isSome {asked : List MarketData} :
    ∀ {best : Option MarketData}, best.isSome = true ∨ (∃ data ∈ asked, data.hasTickTime = true) →
      (asked.foldl keepBetter best).isSome = true := by
  induction asked with
  | nil => simp
  | cons data asked ih =>
    intro best h
    rw [List.foldl_cons]
    apply ih
    by_cases htick : data.hasTickTime = true
    · left
      unfold keepBetter
      cases best with
      | none => simp [htick, isBetterSample]
      | some current => split <;> rfl
    · rcases h with hbest | ⟨other, hother, hotherTick⟩
      · simp [keepBetter, htick, hbest]
      · rcases List.mem_cons.mp hother with rfl | hother
        · exact absurd hotherTick htick
        · exact Or.inr ⟨other, hother, hotherTick⟩

/-- The best sample of a ticker after the loop over the venues. -/
theorem requestExecutionQuotes_best (textCase : TextCase) {tickers : List String}
    (hnodup : tickers.Nodup) {ticker : String} (hmem : ticker ∈ tickers) (venues : List Venue)
    (maxSpreadBps : Option ℚ) :
    ((requestExecutionQuotesForType textCase tickers venues maxSpreadBps).1.lookup ticker).map
      SampledMarketData.marketData =
        (askedUntilSettled maxSpreadBps (answersFor textCase venues ticker)).foldl keepBetter
          none := by
  have hstart : (VenueState.mk tickers [] []).best ticker = none := rfl
  rw [answersFor, ← hstart]
  exact (foldl_ask_best hnodup).trans (if_pos hmem)

/-- The selection of a ticker finds a good quote if there is one, and the narrowest valid quote
otherwise, exactly when no venue gave a valid quote, or those asked show no crossed one and a first
spread that is a number. -/
theorem finds_good_quote_iff (textCase : TextCase) {tickers : List String}
    (hnodup : tickers.Nodup) {ticker : String} (hmem : ticker ∈ tickers) (venues : List Venue)
    (limit : ℚ) :
    FindsGoodQuote limit (answersFor textCase venues ticker)
      (returnedSample (requestExecutionQuotesForType textCase tickers venues (some limit)) ticker) ↔
    ((∃ data ∈ answersFor textCase venues ticker, data.Valid) →
      SelectsCleanly limit (answersFor textCase venues ticker)) := by
  by_cases hvalid : ∃ data ∈ answersFor textCase venues ticker, data.Valid
  · have hbest := requestExecutionQuotes_best textCase hnodup hmem venues (some limit)
    have htick : ∃ data ∈ askedUntilSettled (some limit) (answersFor textCase venues ticker),
        data.hasTickTime = true := by
      rcases asked_settles_or_all (some limit) (answersFor textCase venues ticker) with
        ⟨data, hdata, hsettles⟩ | hall
      · exact ⟨data, hdata, (settles_iff.mp hsettles).1⟩
      · obtain ⟨data, hdata, hdataValid⟩ := hvalid
        exact ⟨data, hall.symm ▸ hdata, hdataValid.1⟩
    have hreturned : returnedSample
        (requestExecutionQuotesForType textCase tickers venues (some limit)) ticker =
          (askedUntilSettled (some limit) (answersFor textCase venues ticker)).foldl keepBetter
            none := by
      have hsome : ((askedUntilSettled (some limit) (answersFor textCase venues ticker)).foldl
          keepBetter none).isSome = true := foldl_keepBetter_isSome (Or.inr htick)
      rw [← hbest, Option.isSome_map] at hsome
      obtain ⟨sample, hsample⟩ := Option.isSome_iff_exists.mp hsome
      rw [← hbest, returnedSample, hsample]
      rfl
    rw [hreturned]
    constructor
    · exact fun h _ => clean_of_findsGoodQuote hvalid h
    · exact fun h => findsGoodQuote_of_clean (h hvalid)
  · constructor
    · exact fun _ h => absurd h hvalid
    · intro _
      constructor
      · rintro ⟨data, hdata, hnarrow⟩
        exact absurd ⟨data, hdata, hnarrow.1⟩ hvalid
      · exact fun _ h => absurd h hvalid

/-- A tick with two finite sides. -/
def MarketData.quoted (bid ask : ℚ) : MarketData := ⟨some 0, some (.finite bid), some (.finite ask)⟩

/-- A venue that is wide or crossed, and `SMART` with a tight quote after it. -/
def thenTight (first : MarketData) : List Venue :=
  [⟨"IEX", fun _ => first, 0⟩, ⟨"SMART", fun _ => .quoted (1999 / 20) (2001 / 20), 3⟩]

theorem finds_good_quote_iff_wide :
    FindsGoodQuote 50 (answersFor {} (thenTight (.quoted 95 100)) "A")
      (returnedSample (requestExecutionQuotesForType {} ["A"] (thenTight (.quoted 95 100)) (some 50))
        "A") ↔
    ((∃ data ∈ answersFor {} (thenTight (.quoted 95 100)) "A", data.Valid) →
      SelectsCleanly 50 (answersFor {} (thenTight (.quoted 95 100)) "A")) :=
  finds_good_quote_iff {} (by decide) (by decide) _ 50

/-- A crossed first venue hides the tight quote of the second one. -/
theorem not_findsGoodQuote_crossed :
    (returnedSample (requestExecutionQuotesForType {} ["A"] (thenTight (.quoted 101 100)) (some 50))
      "A") = some (.quoted 101 100) ∧
    ¬FindsGoodQuote 50 (answersFor {} (thenTight (.quoted 101 100)) "A")
      (returnedSample (requestExecutionQuotesForType {} ["A"] (thenTight (.quoted 101 100)) (some 50))
        "A") := by
  have hreturned : (returnedSample (requestExecutionQuotesForType {} ["A"]
      (thenTight (.quoted 101 100)) (some 50)) "A") = some (.quoted 101 100) := by
    decide +kernel
  refine ⟨hreturned, fun h => ?_⟩
  have htight : (MarketData.quoted (1999 / 20) (2001 / 20)).Narrow 50 := by
    refine ⟨⟨rfl, _, _, rfl, rfl, by norm_num, by norm_num⟩, 10, by decide +kernel, by norm_num⟩
  have hmem : MarketData.quoted (1999 / 20) (2001 / 20) ∈
      answersFor {} (thenTight (.quoted 101 100)) "A" := by decide +kernel
  obtain ⟨found, hfound, hnarrow⟩ := h.narrow ⟨_, hmem, htight⟩
  rw [hreturned] at hfound
  obtain rfl := Option.some.inj hfound
  obtain ⟨-, bid, ask, hbid, hask, -, hle⟩ := hnarrow.1
  obtain rfl := Reported.finite.inj (Option.some.inj hbid)
  obtain rfl := Reported.finite.inj (Option.some.inj hask)
  norm_num at hle

end Poma

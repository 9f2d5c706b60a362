import Mathlib.Order.Lattice
import Mathlib.Data.Prod.Lex
import Poma.Numeric.Groups
import Poma.Numeric.Reported

/-!
# The trend of an ETF

A price history is reduced to its month-end closes, the month in progress is left
out, and the last close is compared with the average of the last few. Raw values
become numbers by a coercion that is not fixed here: what it does not read is not
a number.
-/

namespace Poma

namespace CoreEtf

/-- An instant: its calendar month, counted through the years, and the time since the month
began. -/
structure Timestamp where
  month : ℤ
  sinceStart : ℚ
  deriving DecidableEq

/-- An instant by month, and within a month by time. -/
def Timestamp.key (time : Timestamp) : ℤ ×ₗ ℚ := toLex (time.month, time.sinceStart)

theorem Timestamp.key_injective : Function.Injective Timestamp.key := by
  intro first second h
  cases first
  cases second
  simpa [Timestamp.key] using h

instance : LinearOrder Timestamp := LinearOrder.lift' Timestamp.key Timestamp.key_injective

/-- A later instant is not in an earlier month. -/
theorem Timestamp.month_mono {first second : Timestamp} (h : first ≤ second) :
    first.month ≤ second.month := by
  have hkey : first.key ≤ second.key := h
  rcases Prod.Lex.le_iff.mp hkey with hmonth | hmonth
  · exact hmonth.le
  · exact hmonth.1.le

/-- One row of a price history. -/
structure Row (V : Type) where
  time : Timestamp
  value : V

/-- A price, as a number, at an instant. -/
structure Observation where
  time : Timestamp
  price : Reported
  deriving DecidableEq

/-- The month of an observation. -/
def Observation.month (seen : Observation) : ℤ := seen.time.month

section Signal

variable {V : Type} (toNumeric : V → Reported) (mean : List Reported → Reported)

/-- `pd.to_numeric(history, errors="coerce")`, what is no number dropped, positive prices kept. -/
def validPrices (history : List (Row V)) : List Observation :=
  let series := (history.map fun row => Observation.mk row.time (toNumeric row.value)).filter
    (·.price ≠ .nan)
  series.filter fun seen => Reported.lt (.finite 0) seen.price

/-- `series.groupby(series.index.to_period("M")).last()`. -/
def monthEnds (series : List Observation) : List Reported :=
  (sortedKeys Observation.month series).filterMap fun month =>
    ((series.filter fun seen => seen.month = month).getLast?).map (·.price)

/-- `completed_month_closes`. -/
def completedMonthCloses (history : List (Row V)) : List Reported :=
  (monthEnds (validPrices toNumeric history)).dropLast

/-- `xs.iloc[start:]`. -/
def ilocFrom (xs : List Reported) (start : ℤ) : List Reported :=
  if start < 0 then xs.drop (xs.length - (-start).toNat) else xs.drop start.toNat

/-- `xs.mean()`, where nothing is rounded. -/
def exactMean (xs : List Reported) : Reported := (Reported.sum xs).scale (1 / xs.length)

/-- `bool(window.iloc[-1] > window.mean())`; a last position that does not exist raises. -/
def closesAboveMean (window : List Reported) : Except Exn (Option Bool) :=
  match window.getLast? with
  | none => .error (.other "single positional indexer is out-of-bounds")
  | some last => .ok (some ((mean window).lt last))

/-- `trend_is_up`. -/
def trendIsUp (history : List (Row V)) (smaMonths : ℤ) : Except Exn (Option Bool) :=
  let closes := completedMonthCloses toNumeric history
  if (closes.length : ℤ) < smaMonths then .ok none
  else closesAboveMean mean (ilocFrom closes (-smaMonths))

end Signal

end CoreEtf

end Poma

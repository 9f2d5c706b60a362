import Poma.Core.Text
import Poma.Numeric.Ordered

/-!
# Share classes of one issuer

The rows of a market snapshot are put into groups by a key made of the issuer's
id, of its name or, without either, of the market capitalisation. The rows are
sorted and the first one of each key is kept.
-/

namespace Poma

/-- A cell of a snapshot. -/
inductive Cell where
  | none
  | nan
  | number (x : Reported)
  | text (s : String)
  deriving DecidableEq

/-- How the frame library reads and writes cells, and the interpreter maps the case of texts. -/
structure CellFormat extends TextCase where
  /-- `pd.to_numeric(cell, errors="coerce")`. -/
  toNumeric : Cell → Reported
  /-- `astype(str)`, which some versions leave a missing cell as it is by. -/
  asText : Cell → Option String
  /-- `astype(str)` of a market capitalisation. -/
  capText : Numeric → String
  /-- `str(cell)`. -/
  str : Cell → String

/-- A market snapshot: the names of its columns, and the cells of its rows by column. -/
structure Snapshot where
  columns : List String
  rows : List (String → Cell)

/-- `_LIQUIDITY_COLUMNS`. -/
def liquidityColumns : List String :=
  ["dollar_volume", "regular_market_volume", "volume", "average_volume", "average_volume_10d",
    "float_shares", "shares_outstanding"]

/-- `score.where(score > 0, other)`, on one row. -/
def orPositive (score other : Reported) : Reported :=
  if (Reported.finite 0).lt score then score else other

/-- `series.fillna(0.0)`, on one row. -/
def fillNan (x : Reported) : Numeric :=
  if h : x ≠ .nan then ⟨x, h⟩ else ⟨.finite 0, nofun⟩

/-- `_liquidity_score`, of one row. -/
def liquidityScore (format : CellFormat) (columns : List String) (row : String → Cell) : Numeric :=
  let number (column : String) : Reported := format.toNumeric (row column)
  let score : Reported := .finite 0
  let score := if "dollar_volume" ∈ columns then orPositive score (number "dollar_volume") else score
  let score := if "volume" ∈ columns ∧ "price" ∈ columns then
    orPositive score ((number "volume").mul (number "price")) else score
  fillNan ((liquidityColumns.filter (· ∈ columns)).foldl
    (fun score column => orPositive score (number column)) score)

/-- The words of `_ISSUER_SUFFIX_PATTERN` and the single letters of a share class. -/
def issuerSuffixes : List String :=
  ["incorporated", "inc", "corp", "corporation", "co", "company", "plc", "ltd", "limited", "class",
    "cl", "ordinary", "share", "shares", "stock", "a", "b", "c"]

/-- A character that the normalised name keeps. -/
def isNameChar (c : Char) : Bool := ('a' ≤ c && c ≤ 'z') || isAsciiDigit c

/-- The normalised name of an issuer: its words in lower case, without those that tell its form. -/
def normaliseName (format : CellFormat) (name : String) : Option String :=
  let lowered := ((format.lower (strip name)).toList.map fun c =>
    if c = '&' then " and ".toList else [c]).flatten
  let words := (lowered.splitOnP fun c => !isNameChar c).map String.ofList
  let kept := words.filter fun word => word ≠ "" ∧ word ∉ issuerSuffixes
  if kept = [] then none else some (String.intercalate " " kept)

/-- `_normalise_issuer_name`. -/
def normaliseIssuerName (format : CellFormat) (value : Cell) : Option String :=
  match value with
  | .none => Option.none
  | .nan => Option.none
  | value => normaliseName format (format.str value)

/-- The key of a row without an issuer: its market capitalisation. -/
def capKey (format : CellFormat) (cap : Numeric) : String := "market_cap:" ++ format.capText cap

/-- `_issuer_dedupe_keys`, of one row; a missing key is `none`. -/
def issuerDedupeKey (format : CellFormat) (columns : List String) (row : String → Cell)
    (cap : Numeric) : Option String :=
  if "issuer_id" ∈ columns then
    (format.asText (row "issuer_id")).map fun id =>
      let key := format.lower (strip id)
      if key = "" then capKey format cap else key
  else if "name" ∈ columns then
    some ((normaliseIssuerName format (row "name")).getD (capKey format cap))
  else some (capKey format cap)

/-- A row of the frame, with the columns that the deduplication adds. -/
structure ShareRow where
  cells : String → Cell
  marketCap : Numeric
  dedupeKey : Option String
  liquidityScore : Numeric
  originalOrder : Nat

/-- The rows with a numeric market capitalisation, each with it. -/
def cappedRows (format : CellFormat) (snapshot : Snapshot) : List ((String → Cell) × Numeric) :=
  snapshot.rows.filterMap fun row =>
    if h : format.toNumeric (row "market_cap") ≠ .nan then
      some (row, ⟨format.toNumeric (row "market_cap"), h⟩)
    else none

/-- The frame that is sorted. -/
def shareFrame (format : CellFormat) (snapshot : Snapshot) : List ShareRow :=
  (cappedRows format snapshot).zipIdx.map fun ((row, cap), order) =>
    { cells := fun column => if column = "market_cap" then .number cap.val else row column
      marketCap := cap
      dedupeKey := issuerDedupeKey format snapshot.columns row cap
      liquidityScore := liquidityScore format snapshot.columns row
      originalOrder := order }

/-- The order of `sort_values`: greater capitalisations first, then greater scores, then earlier
rows. -/
def ShareRow.Precedes (row other : ShareRow) : Prop :=
  other.marketCap < row.marketCap ∨ (row.marketCap = other.marketCap ∧
    (other.liquidityScore < row.liquidityScore ∨ (row.liquidityScore = other.liquidityScore ∧
      row.originalOrder ≤ other.originalOrder)))

instance (row other : ShareRow) : Decidable (row.Precedes other) :=
  inferInstanceAs (Decidable (_ ∨ _))

/-- `drop_duplicates(keep="first")`. -/
def dropDuplicates {α κ : Type} [DecidableEq κ] (key : α → κ) : List α → List α
  | [] => []
  | x :: xs => x :: (dropDuplicates key xs).filter fun y => key y ≠ key x

/-- The rows that are kept. -/
def keptRows (format : CellFormat) (snapshot : Snapshot) : List ShareRow :=
  dropDuplicates ShareRow.dedupeKey ((shareFrame format snapshot).insertionSort ShareRow.Precedes)

/-- `deduplicate_share_classes`. -/
def deduplicateShareClasses (format : CellFormat) (snapshot : Snapshot) :
    Except String (List (String → Cell)) :=
  if snapshot.rows = [] ∨ snapshot.columns = [] then .ok snapshot.rows
  else if "market_cap" ∉ snapshot.columns then
    .error "snapshot missing required columns: ['market_cap']"
  else .ok ((keptRows format snapshot).map (·.cells))

end Poma

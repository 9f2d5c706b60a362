import Poma.Models.Lifecycle
import Poma.Storage.KeyedLog

/-!
# The order ledger on disk

A ledger entry as its files hold it: strings of any code points, numbers as they
are written. An entry is one line of JSON under its ledger key; the log has every
entry ever recorded, the snapshot the open ones.
-/

namespace Poma

open JsonText Storage

/-- An `OrderLedgerEntry` with the strings and numbers of its file. -/
structure StoredEntry where
  ledgerKey : Str
  orderRef : Str
  runId : Str
  sessionDate : Str
  ticker : Str
  side : OrderSide
  quantity : Number
  limitPrice : Option Number
  strategy : Option Str := none
  referencePrice : Option Number := none
  referencePriceSource : Option Str := none
  referencePriceBasis : Option Str := none
  referencePriceAsOfUtc : Option Str := none
  quoteAgeSeconds : Option Number := none
  quoteSpreadBps : Option Number := none
  orderId : Option Int := none
  permId : Option Int := none
  submittedAt : Option Str := none
  lifecycleState : OrderLifecycleState := .planned
  rawStatus : Str := []
  filledQty : Number := .float (.of false [] 0)
  remainingQty : Number := .float (.of false [] 0)
  avgFillPrice : Option Number := none
  lastStatusAt : Option Str := none
  terminalReason : Option Str := none
  replaceCount : Int := 0
  replacementOrderRef : Option Str := none
  deriving DecidableEq

/-- The string of a literal of the source. -/
def str (s : String) : Str := Str.ofText s.toList

/-- A string, or null. -/
def nullable {α : Type} (write : α → Scalar) : Option α → Scalar
  | some a => write a
  | none => .null

/-- An integer as a JSON number. -/
def intScalar (n : Int) : Scalar := .number (.int n)

namespace StoredEntry

/-- `to_json`, its members in the order of their keys. -/
def toJson (entry : StoredEntry) : List (String × Scalar) :=
  [("avg_fill_price", nullable .number entry.avgFillPrice),
    ("filled_qty", .number entry.filledQty),
    ("last_status_at", nullable .string entry.lastStatusAt),
    ("ledger_key", .string entry.ledgerKey),
    ("lifecycle_state", .string (str entry.lifecycleState.value)),
    ("limit_price", nullable .number entry.limitPrice),
    ("order_id", nullable intScalar entry.orderId),
    ("order_ref", .string entry.orderRef),
    ("perm_id", nullable intScalar entry.permId),
    ("quantity", .number entry.quantity),
    ("quote_age_seconds", nullable .number entry.quoteAgeSeconds),
    ("quote_spread_bps", nullable .number entry.quoteSpreadBps),
    ("raw_status", .string entry.rawStatus),
    ("reference_price", nullable .number entry.referencePrice),
    ("reference_price_as_of_utc", nullable .string entry.referencePriceAsOfUtc),
    ("reference_price_basis", nullable .string entry.referencePriceBasis),
    ("reference_price_source", nullable .string entry.referencePriceSource),
    ("remaining_qty", .number entry.remainingQty),
    ("replace_count", intScalar entry.replaceCount),
    ("replacement_order_ref", nullable .string entry.replacementOrderRef),
    ("run_id", .string entry.runId),
    ("session_date", .string entry.sessionDate),
    ("side", .string (str entry.side.value)),
    ("strategy", nullable .string entry.strategy),
    ("submitted_at", nullable .string entry.submittedAt),
    ("terminal_reason", nullable .string entry.terminalReason),
    ("ticker", .string entry.ticker)]

/-- The members of an entry are written in the order of their keys. -/
theorem toJson_sorted (entry : StoredEntry) :
    (entry.toJson.map (·.1)).Pairwise (· < ·) := by
  show List.Pairwise (· < ·) ["avg_fill_price", "filled_qty", "last_status_at", "ledger_key",
    "lifecycle_state", "limit_price", "order_id", "order_ref", "perm_id", "quantity",
    "quote_age_seconds", "quote_spread_bps", "raw_status", "reference_price",
    "reference_price_as_of_utc", "reference_price_basis", "reference_price_source",
    "remaining_qty", "replace_count", "replacement_order_ref", "run_id", "session_date", "side",
    "strategy", "submitted_at", "terminal_reason", "ticker"]
  decide +kernel

/-- The value of a member, the last one of its name. -/
def member (members : List (Str × Value)) (name : String) : Option Value :=
  ((members.filter fun m => m.1 = str name).getLast?).map (·.2)

/-- A string. -/
def asString : Value → Option Str
  | .scalar (.string s) => some s
  | _ => none

/-- A number. -/
def asNumber : Value → Option Number
  | .scalar (.number n) => some n
  | _ => none

/-- An integer. -/
def asInt : Value → Option Int
  | .scalar (.number (.int n)) => some n
  | _ => none

/-- A value that may be null. -/
def orNull {α : Type} (read : Value → Option α) : Value → Option (Option α)
  | .scalar .null => some none
  | value => (read value).map some

/-- `OrderSide(...)`. -/
def asSide (value : Value) : Option OrderSide :=
  (asString value).bind fun s => [OrderSide.buy, .sell].find? fun side => str side.value = s

/-- `OrderLifecycleState(...)`. -/
def asLifecycleState (value : Value) : Option OrderLifecycleState :=
  (asString value).bind fun s =>
    [OrderLifecycleState.planned, .submitted, .brokerAccepted, .partiallyFilled, .filled,
      .replacePending, .cancelPending, .cancelled, .rejected, .expired, .unknown].find?
        fun state => str state.value = s

/-- A field without a default. -/
def required {α : Type} (members : List (Str × Value)) (name : String) (read : Value → Option α) :
    Option α := (member members name).bind read

/-- A field with a default. -/
def optional {α : Type} (members : List (Str × Value)) (name : String) (read : Value → Option α)
    (default : α) : Option α :=
  match member members name with
  | some value => read value
  | none => some default

/-- The names of the fields. -/
def fieldNames : List String :=
  ["ledger_key", "order_ref", "run_id", "session_date", "ticker", "side", "quantity",
    "limit_price", "strategy", "reference_price", "reference_price_source",
    "reference_price_basis", "reference_price_as_of_utc", "quote_age_seconds",
    "quote_spread_bps", "order_id", "perm_id", "submitted_at", "lifecycle_state", "raw_status",
    "filled_qty", "remaining_qty", "avg_fill_price", "last_status_at", "terminal_reason",
    "replace_count", "replacement_order_ref"]

/-- The entry without the fields that `from_json` may find missing. -/
def fromRequired (members : List (Str × Value)) : Option StoredEntry := do
  some {
    ledgerKey := ← required members "ledger_key" asString
    orderRef := ← required members "order_ref" asString
    runId := ← required members "run_id" asString
    sessionDate := ← required members "session_date" asString
    ticker := ← required members "ticker" asString
    side := ← required members "side" asSide
    quantity := ← required members "quantity" asNumber
    limitPrice := ← required members "limit_price" (orNull asNumber)
    lifecycleState := ← required members "lifecycle_state" asLifecycleState }

/-- `from_json`: an unknown name, a missing field or a value of another kind is an error. -/
def fromJson (members : List (Str × Value)) : Option StoredEntry :=
  if members.all fun m => m.1 ∈ fieldNames.map str then do
    let entry ← fromRequired members
    some { entry with
      strategy := ← optional members "strategy" (orNull asString) none
      referencePrice := ← optional members "reference_price" (orNull asNumber) none
      referencePriceSource := ← optional members "reference_price_source" (orNull asString) none
      referencePriceBasis := ← optional members "reference_price_basis" (orNull asString) none
      referencePriceAsOfUtc :=
        ← optional members "reference_price_as_of_utc" (orNull asString) none
      quoteAgeSeconds := ← optional members "quote_age_seconds" (orNull asNumber) none
      quoteSpreadBps := ← optional members "quote_spread_bps" (orNull asNumber) none
      orderId := ← optional members "order_id" (orNull asInt) none
      permId := ← optional members "perm_id" (orNull asInt) none
      submittedAt := ← optional members "submitted_at" (orNull asString) none
      rawStatus := ← optional members "raw_status" asString []
      filledQty := ← optional members "filled_qty" asNumber (.float (.of false [] 0))
      remainingQty := ← optional members "remaining_qty" asNumber (.float (.of false [] 0))
      avgFillPrice := ← optional members "avg_fill_price" (orNull asNumber) none
      lastStatusAt := ← optional members "last_status_at" (orNull asString) none
      terminalReason := ← optional members "terminal_reason" (orNull asString) none
      replaceCount := ← optional members "replace_count" asInt 0
      replacementOrderRef := ← optional members "replacement_order_ref" (orNull asString) none }
  else none

/-- What an entry comes back as: every string with its surrogate pairs joined. -/
def reread (entry : StoredEntry) : StoredEntry where
  ledgerKey := joinPairs entry.ledgerKey
  orderRef := joinPairs entry.orderRef
  runId := joinPairs entry.runId
  sessionDate := joinPairs entry.sessionDate
  ticker := joinPairs entry.ticker
  side := entry.side
  quantity := entry.quantity
  limitPrice := entry.limitPrice
  strategy := entry.strategy.map joinPairs
  referencePrice := entry.referencePrice
  referencePriceSource := entry.referencePriceSource.map joinPairs
  referencePriceBasis := entry.referencePriceBasis.map joinPairs
  referencePriceAsOfUtc := entry.referencePriceAsOfUtc.map joinPairs
  quoteAgeSeconds := entry.quoteAgeSeconds
  quoteSpreadBps := entry.quoteSpreadBps
  orderId := entry.orderId
  permId := entry.permId
  submittedAt := entry.submittedAt.map joinPairs
  lifecycleState := entry.lifecycleState
  rawStatus := joinPairs entry.rawStatus
  filledQty := entry.filledQty
  remainingQty := entry.remainingQty
  avgFillPrice := entry.avgFillPrice
  lastStatusAt := entry.lastStatusAt.map joinPairs
  terminalReason := entry.terminalReason.map joinPairs
  replaceCount := entry.replaceCount
  replacementOrderRef := entry.replacementOrderRef.map joinPairs

/-- The members of the line of an entry. -/
def members (entry : StoredEntry) : List (Str × Scalar) :=
  entry.toJson.map fun m => (str m.1, m.2)

/-- The literals of the source have no surrogates, so they come back as they are. -/
theorem joinPairs_str (s : String) : joinPairs (str s) = str s :=
  (joinPairs_eq_self_iff _).mpr (pairFree_ofText _)

/-- Different literals are different strings. -/
theorem str_inj {s t : String} : str s = str t ↔ s = t := by
  constructor
  · intro h
    exact String.toList_inj.mp (ofText_injective h)
  · rintro rfl
    rfl

/-- The members of an entry's line, read back. -/
theorem rereadMembers_members (entry : StoredEntry) :
    rereadMembers entry.members =
      entry.toJson.map fun m => (str m.1, Value.scalar m.2.reread) := by
  unfold rereadMembers members
  rw [List.map_map]
  apply List.map_congr_left
  intro m _
  exact congrArg (·, _) (joinPairs_str m.1)

/-- A member of an entry's line, read back. -/
theorem member_members (entry : StoredEntry) (name : String) :
    member (rereadMembers entry.members) name =
      ((entry.toJson.filter fun m => m.1 = name).getLast?).map fun m => .scalar m.2.reread := by
  have hfilter : ((fun m : Str × Value => decide (m.1 = str name)) ∘
      fun m : String × Scalar => (str m.1, Value.scalar m.2.reread)) =
        fun m => decide (m.1 = name) := by
    ext m
    simp [str_inj]
  unfold member
  rw [rereadMembers_members, List.filter_map, hfilter, List.getLast?_map, Option.map_map]
  rfl

/-- Reading the members of an entry's line gives the entry as it comes back. -/
theorem fromJson_members (entry : StoredEntry) :
    fromJson (rereadMembers entry.members) = some entry.reread := by
  have hnames : (rereadMembers entry.members).all (fun m => m.1 ∈ fieldNames.map str) = true := by
    rw [rereadMembers_members, List.all_map, List.all_eq_true]
    intro m hm
    have hname : ∀ name ∈ entry.toJson.map (·.1), name ∈ fieldNames := by
      intro name hmem
      simp only [toJson, List.map_cons, List.map_nil] at hmem
      revert name
      decide +kernel
    simpa using List.mem_map_of_mem (f := str) (hname m.1 (List.mem_map_of_mem hm))
  have hstring : ∀ s : Str, asString (.scalar (Scalar.string s).reread) = some (joinPairs s) :=
    fun _ => rfl
  have hnumber : ∀ n : Number, asNumber (.scalar (Scalar.number n).reread) = some n := fun _ => rfl
  have hint : ∀ n : Int, asInt (.scalar (intScalar n).reread) = some n := fun _ => rfl
  have hside : asSide (.scalar (Scalar.string (str entry.side.value)).reread) = some entry.side := by
    cases entry.side <;> simp [asSide, hstring, joinPairs_str, str_inj, OrderSide.value]
  have hstate : asLifecycleState (.scalar (Scalar.string (str entry.lifecycleState.value)).reread) =
      some entry.lifecycleState := by
    cases entry.lifecycleState <;>
      simp [asLifecycleState, hstring, joinPairs_str, str_inj, OrderLifecycleState.value]
  have hmaybeString : ∀ s : Option Str, orNull asString (.scalar (nullable Scalar.string s).reread) =
      some (s.map joinPairs) := by
    intro s
    cases s <;> rfl
  have hmaybeNumber : ∀ n : Option Number,
      orNull asNumber (.scalar (nullable Scalar.number n).reread) = some n := by
    intro n
    cases n <;> rfl
  have hmaybeInt : ∀ n : Option Int, orNull asInt (.scalar (nullable intScalar n).reread) = some n := by
    intro n
    cases n <;> rfl
  unfold fromJson
  rw [if_pos hnames]
  simp [fromRequired, required, optional, member_members, toJson, hstring, hnumber, hint, hside,
    hstate, hmaybeString, hmaybeNumber, hmaybeInt, reread]

/-- `is_terminal`. -/
def isTerminal (entry : StoredEntry) : Bool := entry.lifecycleState ∈ terminalLifecycleStates

/-- The line of an entry, without its newline. -/
def encode (entry : StoredEntry) : Text := dumpsObject entry.members

/-- The entry of a line. -/
def decode (line : Text) : Option StoredEntry :=
  (loads line).bind fun
    | .object members => fromJson members
    | _ => none

theorem reread_reread (entry : StoredEntry) : entry.reread.reread = entry.reread := by
  simp [reread, joinPairs_joinPairs, Function.comp_def]

/-- The strings of an entry. -/
def strings (entry : StoredEntry) : List Str :=
  [entry.ledgerKey, entry.orderRef, entry.runId, entry.sessionDate, entry.ticker,
    entry.rawStatus] ++ entry.strategy.toList ++ entry.referencePriceSource.toList ++
    entry.referencePriceBasis.toList ++ entry.referencePriceAsOfUtc.toList ++
    entry.submittedAt.toList ++ entry.lastStatusAt.toList ++ entry.terminalReason.toList ++
    entry.replacementOrderRef.toList

/-- An entry comes back as it was exactly when none of its strings holds a surrogate pair. -/
theorem reread_eq_self_iff (entry : StoredEntry) :
    entry.reread = entry ↔ ∀ s ∈ entry.strings, PairFree s := by
  have hoption : ∀ s : Option Str, s.map joinPairs = s ↔ ∀ t ∈ s.toList, PairFree t := by
    intro s
    cases s <;> simp [joinPairs_eq_self_iff]
  have hsplit : entry.reread = entry ↔
      joinPairs entry.ledgerKey = entry.ledgerKey ∧ joinPairs entry.orderRef = entry.orderRef ∧
      joinPairs entry.runId = entry.runId ∧ joinPairs entry.sessionDate = entry.sessionDate ∧
      joinPairs entry.ticker = entry.ticker ∧ joinPairs entry.rawStatus = entry.rawStatus ∧
      entry.strategy.map joinPairs = entry.strategy ∧
      entry.referencePriceSource.map joinPairs = entry.referencePriceSource ∧
      entry.referencePriceBasis.map joinPairs = entry.referencePriceBasis ∧
      entry.referencePriceAsOfUtc.map joinPairs = entry.referencePriceAsOfUtc ∧
      entry.submittedAt.map joinPairs = entry.submittedAt ∧
      entry.lastStatusAt.map joinPairs = entry.lastStatusAt ∧
      entry.terminalReason.map joinPairs = entry.terminalReason ∧
      entry.replacementOrderRef.map joinPairs = entry.replacementOrderRef := by
    constructor
    · intro h
      have hfield : ∀ {α : Type} (f : StoredEntry → α), f entry.reread = f entry :=
        fun f => congrArg f h
      exact ⟨hfield ledgerKey, hfield orderRef, hfield runId, hfield sessionDate, hfield ticker,
        hfield rawStatus, hfield strategy, hfield referencePriceSource,
        hfield referencePriceBasis, hfield referencePriceAsOfUtc, hfield submittedAt,
        hfield lastStatusAt, hfield terminalReason, hfield replacementOrderRef⟩
    · rintro ⟨h₁, h₂, h₃, h₄, h₅, h₆, h₇, h₈, h₉, h₁₀, h₁₁, h₁₂, h₁₃, h₁₄⟩
      unfold reread
      rw [h₁, h₂, h₃, h₄, h₅, h₆, h₇, h₈, h₉, h₁₀, h₁₁, h₁₂, h₁₃, h₁₄]
  rw [hsplit]
  simp only [joinPairs_eq_self_iff, hoption, strings, List.forall_mem_append,
    List.forall_mem_cons, List.not_mem_nil, false_implies, implies_true, true_and, and_assoc]

/-- The ledger under its keys: one line of JSON for each record. -/
def schema : Schema Str StoredEntry where
  encode := encode
  decode := decode
  reread := reread
  plain entry c hc := isPlain_dumpsObject hc
  token entry := ⟨'{', _, rfl, by decide⟩
  decode_encode entry := by
    have hloads := loads_dumpsObject_append entry.members []
    have hblank : skipSpace [] = [] := rfl
    rw [List.append_nil, if_pos hblank] at hloads
    unfold decode encode
    rw [hloads]
    exact fromJson_members entry
  torn entry t rest ht hrest h := by
    unfold decode
    rw [loads_torn ht hrest h]
    rfl
  glued entry next := by
    unfold decode encode
    rw [loads_dumpsObject_append, if_neg]
    · rfl
    · rw [dumpsObject, skipSpace_of_head (by decide)]
      exact List.cons_ne_nil _ _
  key := ledgerKey
  rereadKey := joinPairs
  closed := isTerminal
  le a b := decide (a.ledgerKey ≤ b.ledgerKey)
  key_reread _ := rfl
  closed_reread _ := rfl
  reread_reread := reread_reread

end StoredEntry

namespace LedgerFile

/-- What a query makes of the latest entries, and the handle after it. -/
def query {α : Type} (answer : List StoredEntry → α) (files : Files)
    (handle : Handle StoredEntry) : Option (α × Handle StoredEntry) :=
  (StoredEntry.schema.latestEntries files handle).map fun (entries, handle) =>
    (answer entries, handle)

/-- `load_latest_entries`. -/
def loadLatestEntries (files : Files) (handle : Handle StoredEntry) :
    Option (List StoredEntry × Handle StoredEntry) := query id files handle

/-- `load_open_orders`. -/
def loadOpenOrders (files : Files) (handle : Handle StoredEntry) :
    Option (List StoredEntry × Handle StoredEntry) :=
  query (fun entries => entries.filter fun entry => !entry.isTerminal) files handle

/-- `get`: the first open order with the key. -/
def get (ledgerKey : Str) (files : Files) (handle : Handle StoredEntry) :
    Option (Option StoredEntry × Handle StoredEntry) :=
  query (fun entries => (entries.filter fun entry => !entry.isTerminal).find? fun entry =>
    entry.ledgerKey = ledgerKey) files handle

/-- `get_latest_many`: no key asked, no file read. -/
def getLatestMany (ledgerKeys : List Str) (files : Files) (handle : Handle StoredEntry) :
    Option (List StoredEntry × Handle StoredEntry) :=
  if ledgerKeys = [] then some ([], handle)
  else query (fun entries => entries.filter fun entry => entry.ledgerKey ∈ ledgerKeys) files handle

/-- `get_latest_run_trades`: of several entries with one ticker and side, the last one. -/
def getLatestRunTrades (runId : Str) (files : Files) (handle : Handle StoredEntry) :
    Option ((Str → OrderSide → Option StoredEntry) × Handle StoredEntry) :=
  query (fun entries ticker side => (entries.filter fun entry =>
    entry.runId = runId ∧ entry.ticker = ticker ∧ entry.side = side).getLast?) files handle

end LedgerFile

end Poma

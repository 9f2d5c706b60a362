import Poma.Core.Numerals
import Poma.Json.Values
import Poma.Numeric.Reported

/-!
# The outbox of alert messages

Messages that could not be sent are kept as one file each and drained by a cron
job, a batch at a time. A drain reads every file, drops what it does not
recognize and what is too old, and tries the records that are due. What the
handlers of the source do not catch ends the drain where it stands.
-/

namespace Poma

open JsonText (Str Text natDigits)

/-- A value as `json.loads` returns it. -/
inductive Loaded where
  | none
  | bool (b : Bool)
  | int (n : Int)
  | float (x : Reported)
  | str (s : Str)
  | list (items : List Loaded)
  | dict (members : List (Str × Loaded))

/-- The value of a decimal literal. -/
def decimalValue (x : JsonText.Decimal) : Reported :=
  let size : ℚ := JsonText.digitsValue x.digits * (10 : ℚ) ^ (x.point - x.digits.length)
  if floatOverflow ≤ size then .infinite x.negative
  else .finite (if x.negative then -size else size)

mutual

/-- What is read of a JSON value; an integer of too many digits is an error. -/
def Loaded.ofJson : JsonText.Value → Option Loaded
  | .scalar .null => some .none
  | .scalar (.string s) => some (.str s)
  | .scalar (.number (.int n)) =>
    if maxIntDigits < (natDigits n.natAbs).length then Option.none else some (.int n)
  | .scalar (.number (.float x)) => some (.float (decimalValue x))
  | .word .true => some (.bool true)
  | .word .false => some (.bool false)
  | .word .nan => some (.float .nan)
  | .word .infinity => some (.float (.infinite false))
  | .word .minusInfinity => some (.float (.infinite true))
  | .array items => (Loaded.ofItems items).map .list
  | .object members => (Loaded.ofMembers members).map .dict

/-- What is read of the items of an array. -/
def Loaded.ofItems : List JsonText.Value → Option (List Loaded)
  | [] => some []
  | item :: items =>
    (Loaded.ofJson item).bind fun item => (Loaded.ofItems items).map (item :: ·)

/-- What is read of the members of an object. -/
def Loaded.ofMembers : List (Str × JsonText.Value) → Option (List (Str × Loaded))
  | [] => some []
  | (key, value) :: members =>
    (Loaded.ofJson value).bind fun value => (Loaded.ofMembers members).map ((key, value) :: ·)

end

/-- The exceptions that the handlers of a drain let through. -/
inductive Escape where
  | overflowError
  | recursionError
  deriving DecidableEq

/-- What reading a record raises: an exception that is caught, or one that is not. -/
inductive RecordError where
  | rejected
  | escapes (escape : Escape)
  deriving DecidableEq

/-- What nests too deeply for the stack: texts to read, values to print and records to write. -/
structure StackLimits where
  loads : Text → Bool
  str : Loaded → Bool
  dump : List (Str × Loaded) → Bool

/-- A file of the outbox, as reading it turns out. -/
abbrev FileContent : Type := Except RecordError Loaded

/-- `json.loads(path.read_text())` of what the bytes of a file decode to. -/
def loadsText (limits : StackLimits) (decoded : Option Text) : FileContent :=
  match decoded with
  | none => .error .rejected
  | some text =>
    if limits.loads text then .error (.escapes .recursionError)
    else match (JsonText.loads text).bind Loaded.ofJson with
      | none => .error .rejected
      | some value => .ok value

/-- A key of a record. -/
def recordKey (name : String) : Str := Str.ofText name.toList

/-- `record[name]`; a later member of an object replaces an earlier one. -/
def Loaded.item (record : Loaded) (name : String) : Except RecordError Loaded :=
  match record with
  | .dict members =>
    match members.reverse.lookup (recordKey name) with
    | some value => .ok value
    | Option.none => .error .rejected
  | _ => .error .rejected

/-- `record[name] = value`. -/
def setItem (members : List (Str × Loaded)) (name : String) (value : Loaded) :
    List (Str × Loaded) :=
  if members.any (·.1 = recordKey name) then
    members.map fun member => if member.1 = recordKey name then (member.1, value) else member
  else members ++ [(recordKey name, value)]

/-- A string as the number readers see it: no number has a surrogate. -/
def Loaded.numeralText (s : Str) : String :=
  String.ofList (s.map fun c => if h : c.val.isValidChar then Char.ofNatAux c.val h else '?')

/-- `float(value)`. -/
def Loaded.toFloat : Loaded → Except RecordError Reported
  | .bool b => .ok (.finite (if b then 1 else 0))
  | .int n =>
    if floatOverflow ≤ |(n : ℚ)| then .error (.escapes .overflowError) else .ok (.finite n)
  | .float x => .ok x
  | .str s =>
    match readFloat (Loaded.numeralText s) with
    | some x => .ok x
    | Option.none => .error .rejected
  | _ => .error .rejected

/-- `int(value)`. -/
def Loaded.toInt : Loaded → Except RecordError Int
  | .bool b => .ok (if b then 1 else 0)
  | .int n => .ok n
  | .float (.finite x) => .ok (if 0 ≤ x then ⌊x⌋ else ⌈x⌉)
  | .float (.infinite _) => .error (.escapes .overflowError)
  | .str s =>
    match readInt (Loaded.numeralText s) with
    | some n => .ok n
    | Option.none => .error .rejected
  | _ => .error .rejected

/-- A record of the outbox; what is delivered is the `str` of its text. -/
structure OutboxRecord where
  record : Loaded
  createdAt : Reported
  attempts : Int
  nextAttemptAt : Reported
  text : Loaded

/-- The fields of a record, in the order in which the drain converts them. -/
def readRecord (limits : StackLimits) (content : FileContent) : Except RecordError OutboxRecord := do
  let record ← content
  let created ← (← record.item "created_at").toFloat
  let attempts ← (← record.item "attempts").toInt
  let due ← (← record.item "next_attempt_at").toFloat
  let text ← record.item "text"
  if limits.str text then throw (.escapes .recursionError)
  return ⟨record, created, attempts, due, text⟩

/-- The files of the directory by name; the first entry of a name counts. -/
abbrev Outbox : Type := List (String × FileContent)

/-- `MAX_MESSAGES`. -/
def maxMessages : Nat := 64

/-- `MAX_MESSAGE_LENGTH`. -/
def maxMessageLength : Nat := 3900

/-- `TTL_SECONDS`. -/
def ttlSeconds : ℚ := 24 * 3600

/-- `MAX_ATTEMPTS`. -/
def maxAttempts : Int := 8

/-- `INITIAL_RETRY_SECONDS`. -/
def initialRetrySeconds : ℚ := 60

/-- `_messages`. -/
def messages (box : Outbox) : List String :=
  (((box.map (·.1)).filter (endsWith · ".json")).dedup).insertionSort (· ≤ ·)

/-- What a file reads as; one that is gone cannot be read. -/
def contentOf (box : Outbox) (name : String) : FileContent :=
  (box.lookup name).getD (.error .rejected)

/-- A file taken away. -/
def removeFile (name : String) (box : Outbox) : Outbox := box.filter (·.1 ≠ name)

/-- A file put in place of another. -/
def replaceFile (name : String) (content : FileContent) (box : Outbox) : Outbox :=
  (name, content) :: removeFile name box

/-- The record `enqueue` writes. -/
def newRecord (now : ℚ) (text : Str) : List (Str × Loaded) :=
  [(recordKey "created_at", .float (.finite now)),
    (recordKey "next_attempt_at", .float (.finite (now + initialRetrySeconds))),
    (recordKey "attempts", .int 0), (recordKey "text", .str (text.take maxMessageLength))]

/-- `enqueue`, under a fresh name, when storing works. -/
def enqueue (now : ℚ) (text : Str) (name : String) (box : Outbox) : Bool × Outbox :=
  if maxMessages ≤ (messages box).length then (false, box)
  else (true, replaceFile name (.ok (.dict (newRecord now text))) box)

/-- What a delivery does. -/
inductive Delivery where
  | accepted
  | refused
  | raised
  deriving DecidableEq

/-- The surroundings of one drain. For each file it says what the delivery of its message does,
whether it can be removed and replaced, and how its delay is jittered. -/
structure DrainCall where
  now : ℚ
  batchSize : Nat
  /-- The directory is there and nobody else drains it. -/
  opens : Bool
  deliver : String → Delivery
  removable : String → Bool
  writable : String → Bool
  jitter : String → ℚ

/-- The state of a drain: the files, the deliveries tried with their messages, and how many
succeeded. -/
structure Drained where
  box : Outbox
  tried : List (String × Loaded)
  delivered : Nat

/-- `attempted`. -/
def Drained.attempted (state : Drained) : Nat := state.tried.length

/-- `path.unlink(missing_ok=True)`, its failure suppressed. -/
def DrainCall.unlink (call : DrainCall) (name : String) (state : Drained) : Drained :=
  if call.removable name then { state with box := removeFile name state.box } else state

/-- A record that is too old or has been tried too often. -/
def OutboxRecord.Expired (record : OutboxRecord) (now : ℚ) : Prop :=
  (Reported.finite ttlSeconds).le ((Reported.finite now).sub record.createdAt) = true ∨
    maxAttempts ≤ record.attempts

instance (record : OutboxRecord) (now : ℚ) : Decidable (record.Expired now) :=
  inferInstanceAs (Decidable (_ ∨ _))

/-- `min(3600, INITIAL_RETRY_SECONDS * (2 ** attempts))`. -/
def retryDelay (attempts : Int) : ℚ := min 3600 (initialRetrySeconds * 2 ^ attempts)

/-- `2 ** attempts` raises: a negative exponent has to be a floating-point number. -/
def PowerOverflows (attempts : Int) : Prop := (attempts : ℚ) ≤ -floatOverflow

instance (attempts : Int) : Decidable (PowerOverflows attempts) :=
  inferInstanceAs (Decidable (_ ≤ _))

/-- The members of a record. -/
def OutboxRecord.members (record : OutboxRecord) : List (Str × Loaded) :=
  match record.record with
  | .dict members => members
  | _ => []

/-- The record of a message that has been tried once more. -/
def OutboxRecord.retried (record : OutboxRecord) (now jitter : ℚ) : List (Str × Loaded) :=
  setItem (setItem record.members "attempts" (.int (record.attempts + 1))) "next_attempt_at"
    (.float (.finite (now + retryDelay (record.attempts + 1) * jitter)))

/-- The loop of `drain` on one record that is due, from the delivery on. -/
def DrainCall.attempt (limits : StackLimits) (call : DrainCall) (state : Drained) (name : String)
    (record : OutboxRecord) : Drained × Option Escape :=
  let tried : Drained := { state with tried := state.tried ++ [(name, record.text)] }
  if call.deliver name = .accepted then
    ({ call.unlink name tried with delivered := state.delivered + 1 }, none)
  else if maxAttempts ≤ record.attempts + 1 then (call.unlink name tried, none)
  else if PowerOverflows (record.attempts + 1) then (tried, some .overflowError)
  else if ¬call.writable name then (tried, none)
  else if limits.dump record.members then (tried, some .recursionError)
  else
    let content : FileContent := .ok (.dict (record.retried call.now (call.jitter name)))
    ({ tried with box := replaceFile name content state.box }, none)

/-- The loop of `drain` on one file. -/
def DrainCall.visit (limits : StackLimits) (call : DrainCall) (state : Drained) (name : String) :
    Drained × Option Escape :=
  match readRecord limits (contentOf state.box name) with
  | .error (.escapes escape) => (state, some escape)
  | .error .rejected => (call.unlink name state, none)
  | .ok record =>
    if record.Expired call.now then (call.unlink name state, none)
    else if (Reported.finite call.now).lt record.nextAttemptAt ∨ call.batchSize ≤ state.attempted then
      (state, none)
    else call.attempt limits state name record

/-- The loop of `drain`; an exception that escapes ends it. -/
def DrainCall.visitAll (limits : StackLimits) (call : DrainCall) :
    Drained → List String → Drained × Option Escape
  | state, [] => (state, none)
  | state, name :: names =>
    match call.visit limits state name with
    | (state, none) => call.visitAll limits state names
    | (state, some escape) => (state, some escape)

/-- `drain`. -/
def drain (limits : StackLimits) (call : DrainCall) (box : Outbox) : Drained × Option Escape :=
  if call.opens then call.visitAll limits ⟨box, [], 0⟩ (messages box) else (⟨box, [], 0⟩, none)

end Poma

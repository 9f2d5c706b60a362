import Poma.Correctness.Durability
import Poma.Correctness.Resubmissions
import Poma.Models.LedgerFile

/-!
# What a new process lists

The ledger that the commands work on is the map of the records they made. The
files have these records as well, and a process that starts reads them: the open
rows by key, and then the closed ones where the event log first has them. It
lists what the commands before it left, in the order of the model.
-/

namespace Poma

open Interaction JsonText Storage

/-- How the numbers and the instants of a row are written. -/
structure RowWriter where
  number : ℚ → Number
  instant : ℚ → String

namespace RowWriter

/-- A timestamp of the ledger. -/
def timestamp (writer : RowWriter) : IsoTimestamp → Str
  | .instant seconds => str (writer.instant seconds)
  | .unreadable text => str text

/-- The stored entry of a row. -/
def write (writer : RowWriter) (row : OrderLedgerEntry) : StoredEntry where
  ledgerKey := str row.ledgerKey
  orderRef := str row.orderRef
  runId := str row.runId
  sessionDate := str row.sessionDate
  ticker := str row.ticker
  side := row.side
  quantity := writer.number row.quantity
  limitPrice := row.limitPrice.map writer.number
  strategy := row.strategy.map str
  referencePrice := row.referencePrice.map writer.number
  referencePriceSource := row.referencePriceSource.map str
  referencePriceBasis := row.referencePriceBasis.map str
  referencePriceAsOfUtc := row.referencePriceAsOfUtc.map str
  quoteAgeSeconds := row.quoteAgeSeconds.map writer.number
  quoteSpreadBps := row.quoteSpreadBps.map writer.number
  orderId := row.orderId
  permId := row.permId
  submittedAt := row.submittedAt.map writer.timestamp
  lifecycleState := row.lifecycleState
  rawStatus := str row.rawStatus
  filledQty := writer.number row.filledQty
  remainingQty := writer.number row.remainingQty
  avgFillPrice := row.avgFillPrice.map writer.number
  lastStatusAt := row.lastStatusAt.map writer.timestamp
  terminalReason := row.terminalReason.map str
  replaceCount := row.replaceCount
  replacementOrderRef := row.replacementOrderRef.map str

/-- A row comes back from its line as it was. -/
theorem reread_write (writer : RowWriter) (row : OrderLedgerEntry) :
    (writer.write row).reread = writer.write row := by
  have hstr : ∀ text : String, PairFree (str text) := fun text => pairFree_ofText _
  have htext : ∀ text : Option String, ∀ s ∈ (text.map str).toList, PairFree s := by
    intro text s hs
    cases text with
    | none => cases hs
    | some text => exact List.mem_singleton.mp hs ▸ hstr text
  have hstamp : ∀ stamp : Option IsoTimestamp, ∀ s ∈ (stamp.map writer.timestamp).toList,
      PairFree s := by
    intro stamp s hs
    cases stamp with
    | none => cases hs
    | some stamp =>
      rw [List.mem_singleton.mp hs]
      cases stamp <;> exact hstr _
  rw [StoredEntry.reread_eq_self_iff]
  intro s hs
  unfold StoredEntry.strings write at hs
  simp only [List.mem_append, List.mem_cons, List.not_mem_nil, or_false] at hs
  rcases hs with ((((((((h | h) | h) | h) | h) | h) | h) | h) | h)
  · rcases h with rfl | rfl | rfl | rfl | rfl | rfl <;> exact hstr _
  · exact htext _ s h
  · exact htext _ s h
  · exact htext _ s h
  · exact htext _ s h
  · exact hstamp _ s h
  · exact hstamp _ s h
  · exact htext _ s h
  · exact htext _ s h

end RowWriter

/-- The rows that a trace records, in order. -/
def recordsOf (τ : List (Event sig)) : List OrderLedgerEntry :=
  τ.filterMap fun event => event.op.record?

namespace OrderStore

/-- The store has the last record of each key, and logs the keys as they were first recorded. -/
structure IsOf (store : OrderStore) (records : List OrderLedgerEntry) : Prop where
  logged : store.logged = putKeys [] (records.map (·.ledgerKey))
  latest : ∀ key, store.latest key = (records.filter fun row => row.ledgerKey = key).getLast?

namespace IsOf

variable {store : OrderStore} {records : List OrderLedgerEntry}

theorem empty : OrderStore.empty.IsOf [] := ⟨rfl, fun _ => rfl⟩

/-- One more record. -/
theorem upsert (h : store.IsOf records) (row : OrderLedgerEntry) :
    (store.upsert row).IsOf (records ++ [row]) where
  logged := by
    rw [List.map_append, List.map_singleton, putKeys_concat, ← h.logged]
    rfl
  latest key := by
    rw [latest_upsert, List.filter_append]
    by_cases hkey : row.ledgerKey = key
    · simp [hkey]
    · simp [hkey, h.latest key]

/-- The order in which the rows are listed does not matter. -/
theorem atStart (h : store.IsOf records) (newProcess : Bool) :
    (store.atStart newProcess).IsOf records where
  logged := by
    rw [← h.logged]
    unfold OrderStore.atStart
    split <;> rfl
  latest key := (latest_atStart store newProcess key).trans (h.latest key)

theorem afterTrace (h : store.IsOf records) (τ : List (Event sig)) :
    (store.afterTrace τ).IsOf (records ++ recordsOf τ) := by
  induction τ generalizing store records with
  | nil =>
    rw [show recordsOf [] = [] from rfl, List.append_nil]
    exact h
  | cons event τ ih =>
    show ((store.recorded event.op).afterTrace τ).IsOf _
    cases hrecord : Op.record? event.op with
    | none =>
      have hrecords : recordsOf (event :: τ) = recordsOf τ := List.filterMap_cons_none hrecord
      have hledger : store.recorded event.op = store := by
        unfold OrderStore.recorded
        rw [hrecord]
        rfl
      rw [hrecords, hledger]
      exact ih h
    | some row =>
      have hrecords : recordsOf (event :: τ) = row :: recordsOf τ :=
        List.filterMap_cons_some hrecord
      have hledger : store.recorded event.op = store.upsert row := by
        unfold OrderStore.recorded
        rw [hrecord]
        rfl
      rw [hrecords, hledger, List.append_cons]
      exact ih (h.upsert row)

/-- A process leaves the records before it and its own. -/
theorem after (h : store.IsOf records) (step : Step) :
    (step.after store).IsOf (records ++ recordsOf (step.run store).trace) := by
  have hledger : step.after store =
      (store.atStart step.newProcess).afterTrace (step.run store).trace :=
    run_ledger openEnvironment step.program step.choices (World.of (store.atStart step.newProcess))
  rw [hledger]
  exact (h.atStart step.newProcess).afterTrace _

/-- So does every history of processes. -/
theorem ledgerAfter (h : store.IsOf records) (steps : List Step) :
    (Step.ledgerAfter store steps).IsOf (records ++ recordsOf (Step.traces store steps)) := by
  induction steps generalizing store records with
  | nil =>
    rw [show recordsOf (Step.traces store []) = [] from rfl, List.append_nil]
    exact h
  | cons step steps ih =>
    have hrest := ih (h.after step)
    rw [Step.traces, recordsOf, List.filterMap_append, ← List.append_assoc]
    exact hrest

end IsOf

end OrderStore

/-- Strings of characters are ordered as the texts are. -/
theorem str_le_str {s t : String} : str s ≤ str t ↔ s ≤ t := by
  have hlt : ∀ {s t : String}, s < t → str s < str t := by
    intro s t h
    apply List.map_lt _ (String.lt_iff_toList_lt.mp h)
    intro c d hcd
    have hbound : ∀ c : Char, c.toNat < 0x110000 := by
      intro c
      have hvalid := c.valid
      simp only [UInt32.isValidChar, Nat.isValidChar] at hvalid
      show c.val.toNat < _
      omega
    show (Fin.ofNat 0x110000 c.toNat).val < (Fin.ofNat 0x110000 d.toNat).val
    simp only [Fin.ofNat_eq_cast, Fin.val_natCast]
    rw [Nat.mod_eq_of_lt (hbound c), Nat.mod_eq_of_lt (hbound d)]
    exact hcd
  constructor
  · intro h
    by_contra hnot
    exact absurd h (not_le.mpr (hlt (not_le.mp hnot)))
  · intro h
    rcases h.lt_or_eq with h | rfl
    · exact (hlt h).le
    · exact le_rfl

namespace RowWriter

variable (writer : RowWriter) {store : OrderStore} {records : List OrderLedgerEntry}

theorem closed (row : OrderLedgerEntry) :
    StoredEntry.schema.closed (writer.write row) = row.isTerminal := rfl

theorem reread (records : List OrderLedgerEntry) :
    ∀ entry ∈ records.map writer.write, StoredEntry.schema.reread entry = entry := by
  intro entry hentry
  obtain ⟨row, -, rfl⟩ := List.mem_map.mp hentry
  exact writer.reread_write row

/-- Under the key of a row, the dictionary of the records has the row of the store. -/
theorem find_recorded (h : store.IsOf records) (key : String) :
    StoredEntry.schema.find (str key)
        (StoredEntry.schema.recorded (records.map writer.write)) =
      (store.latest key).map writer.write := by
  have hplain : ∀ entry ∈ records.map writer.write, ∀ s ∈ entry.strings, PairFree s := by
    intro entry hentry
    obtain ⟨row, -, rfl⟩ := List.mem_map.mp hentry
    exact (writer.write row).reread_eq_self_iff.mp (writer.reread_write row)
  rw [StoredEntry.schema.find_recorded (writer.reread records),
    LedgerFile.recordAll_eq_lastUpserted hplain, h.latest key, ← List.getLast?_map]
  unfold LedgerFile.lastUpserted
  rw [Option.or_none, List.filter_map]
  congr 3
  funext row
  simp [write, StoredEntry.str_inj]

theorem mem_recorded (h : store.IsOf records) (entry : StoredEntry) :
    entry ∈ StoredEntry.schema.recorded (records.map writer.write) ↔
      ∃ row ∈ store.entries, writer.write row = entry := by
  have hnodup := StoredEntry.schema.nodup_recorded (records.map writer.write)
  constructor
  · intro hentry
    obtain ⟨row, -, rfl⟩ := List.mem_map.mp
      ((StoredEntry.schema.mem_foldl_put hentry).resolve_left List.not_mem_nil)
    have hfind := (StoredEntry.schema.find_eq_some_iff hnodup _ (str row.ledgerKey)).mpr
      ⟨hentry, rfl⟩
    rw [writer.find_recorded h] at hfind
    obtain ⟨found, hfound, hwritten⟩ := Option.map_eq_some_iff.mp hfind
    exact ⟨found, OrderStore.latest_mem hfound, hwritten⟩
  · rintro ⟨row, hrow, rfl⟩
    have hfind := writer.find_recorded h row.ledgerKey
    rw [OrderStore.latest_of_mem hrow, Option.map_some] at hfind
    exact List.mem_of_find?_eq_some hfind

theorem map_key (rows : List OrderLedgerEntry) :
    (rows.map writer.write).map StoredEntry.ledgerKey = (rows.map (·.ledgerKey)).map str := by
  simp [write]

theorem nodup_openSnapshot (store : OrderStore) :
    ((store.openSnapshot.map writer.write).map StoredEntry.ledgerKey).Nodup := by
  have hrows : (store.openSnapshot.map (·.ledgerKey)).Nodup :=
    store.reopened.nodup.sublist ((List.sublist_append_left _ _).map _)
  rw [writer.map_key]
  exact hrows.map fun _ _ => StoredEntry.str_inj.mp

/-- The snapshot of the files is the open snapshot of the store. -/
theorem openEntries_eq (h : store.IsOf records) {entries : List StoredEntry}
    (hentries : StoredEntry.schema.Mirrors (fun _ => none) (records.map writer.write) entries) :
    StoredEntry.schema.openEntries entries = store.openSnapshot.map writer.write := by
  have hmem : ∀ entry, entry ∈ StoredEntry.schema.openEntries entries ↔
      entry ∈ store.openSnapshot.map writer.write := by
    intro entry
    rw [Schema.mem_openEntries, hentries.mem_recorded _ (writer.reread records),
      writer.mem_recorded h, List.mem_map]
    constructor
    · rintro ⟨⟨row, hrow, rfl⟩, hopen⟩
      rw [writer.closed] at hopen
      exact ⟨row, OrderStore.mem_openSnapshot.mpr ⟨hrow, hopen⟩, rfl⟩
    · rintro ⟨row, hrow, rfl⟩
      obtain ⟨hrow, hopen⟩ := OrderStore.mem_openSnapshot.mp hrow
      exact ⟨⟨row, hrow, rfl⟩, (writer.closed row).trans hopen⟩
  have hsorted : (StoredEntry.schema.openEntries entries).Pairwise
      fun x y => StoredEntry.schema.le x y = true := by
    apply List.pairwise_mergeSort
    · intro x y z hxy hyz
      exact decide_eq_true ((of_decide_eq_true hxy).trans (of_decide_eq_true hyz))
    · intro x y
      rw [Bool.or_eq_true]
      exact (le_total x.ledgerKey y.ledgerKey).imp decide_eq_true decide_eq_true
  have hsorted' : (store.openSnapshot.map writer.write).Pairwise
      fun x y => StoredEntry.schema.le x y = true := by
    rw [List.pairwise_map]
    apply store.openSnapshot_sorted.imp
    intro x y hle
    apply decide_eq_true
    exact str_le_str.mpr hle
  have hnodup := hentries.nodup.of_map
  apply List.Perm.eq_of_pairwise _ hsorted hsorted'
  · rw [List.perm_ext_iff_of_nodup]
    · exact hmem
    · exact (List.mergeSort_perm _ _).nodup_iff.mpr (hnodup.filter _)
    · exact (writer.nodup_openSnapshot store).of_map
  · intro x y hx hy hxy hyx
    have hkey : x.ledgerKey = y.ledgerKey :=
      le_antisymm (of_decide_eq_true hxy) (of_decide_eq_true hyx)
    exact List.inj_on_of_nodup_map hentries.nodup ((Schema.mem_openEntries _).mp hx).1
      ((Schema.mem_openEntries _).mp ((hmem y).mpr hy)).1 hkey

/-- The dictionary of the records has the rows of the store, in the order of its log. -/
theorem recorded_eq (h : store.IsOf records) :
    StoredEntry.schema.recorded (records.map writer.write) =
      store.logged.filterMap fun key => (store.latest key).map writer.write := by
  have hlatest : ∀ key ∈ store.logged, ∃ row, store.latest key = some row := by
    intro key hkey
    obtain ⟨row, hrow, rfl⟩ := List.mem_map.mp (store.perm.mem_iff.mp hkey)
    exact ⟨row, OrderStore.latest_of_mem hrow⟩
  apply eq_of_keys (f := StoredEntry.ledgerKey) (StoredEntry.schema.nodup_recorded _)
  · have hkeys : (StoredEntry.schema.recorded (records.map writer.write)).map
        StoredEntry.ledgerKey = putKeys [] ((records.map writer.write).map StoredEntry.ledgerKey) :=
      StoredEntry.schema.map_foldl_put _ []
    have hstored : store.logged.filterMap
        (fun key => ((store.latest key).map writer.write).map StoredEntry.ledgerKey) =
          store.logged.filterMap (some ∘ str) := by
      apply List.filterMap_congr
      intro key hkey
      obtain ⟨row, hrow⟩ := hlatest key hkey
      rw [hrow, Option.map_some, Option.map_some, ← OrderStore.latest_key hrow]
      rfl
    rw [hkeys, writer.map_key, List.map_filterMap, hstored, List.filterMap_eq_map, h.logged]
    exact putKeys_map (fun _ _ => StoredEntry.str_inj.mp) [] _
  · intro entry hentry
    obtain ⟨row, hrow, rfl⟩ := (writer.mem_recorded h entry).mp hentry
    have hlogged : row.ledgerKey ∈ store.logged :=
      store.perm.mem_iff.mpr (List.mem_map_of_mem hrow)
    rw [List.mem_filterMap]
    exact ⟨row.ledgerKey, hlogged, by rw [OrderStore.latest_of_mem hrow, Option.map_some]⟩

/-- Files in which the records of a store were written, by whatever store objects, are read in the
order in which a new process lists the store. -/
theorem load_reopened (h : store.IsOf records) {start : Files} {session : Schema.Session StoredEntry}
    (hsession : StoredEntry.schema.Reaches start (records.map writer.write) session)
    (hlog : start.log.getD [] = []) (hsnapshot : start.snapshot.getD [] = []) :
    StoredEntry.schema.load session.files = some (store.reopened.entries.map writer.write) := by
  obtain ⟨entries, hentries, hload⟩ :=
    hsession.load_order _ hlog hsnapshot (writer.reread records)
  rw [hload, writer.openEntries_eq h hentries, writer.recorded_eq h, List.filter_filterMap]
  show _ = some ((store.openSnapshot ++ store.closedLog).map writer.write)
  rw [List.map_append]
  congr 2
  unfold OrderStore.closedLog
  rw [List.map_filterMap]
  apply List.filterMap_congr
  intro key _
  cases store.latest key with
  | none => rfl
  | some row => by_cases hterminal : row.isTerminal <;>
      simp [Option.filter, writer.closed, hterminal]

/-- What is put among the rows of a store object is recorded in its list. -/
theorem put_write (store : OrderStore) (row : OrderLedgerEntry) :
    StoredEntry.schema.put (writer.write row) (store.entries.map writer.write) =
      (store.upsert row).entries.map writer.write := by
  have hinjective : Function.Injective str := fun _ _ => StoredEntry.str_inj.mp
  have hkeys : (StoredEntry.schema.put (writer.write row) (store.entries.map writer.write)).map
      StoredEntry.ledgerKey = ((store.upsert row).entries.map writer.write).map
        StoredEntry.ledgerKey := by
    have hput : (StoredEntry.schema.put (writer.write row) (store.entries.map writer.write)).map
        StoredEntry.ledgerKey = putKey (writer.write row).ledgerKey
          ((store.entries.map writer.write).map StoredEntry.ledgerKey) :=
      StoredEntry.schema.map_put _ _
    rw [hput, writer.map_key, writer.map_key]
    exact (putKey_map hinjective _ _).trans (congrArg _ (map_putEntry row store.entries).symm)
  apply eq_of_keys _ hkeys
  · intro entry hentry
    rcases StoredEntry.schema.mem_put.mp hentry with rfl | ⟨hold, hother⟩
    · exact List.mem_map_of_mem (mem_putEntry_self row store.entries)
    · obtain ⟨x, hx, rfl⟩ := List.mem_map.mp hold
      apply List.mem_map_of_mem
      apply mem_putEntry_of_ne hx
      exact fun hsame => hother (congrArg str hsame)
  · rw [hkeys, writer.map_key]
    exact (store.upsert row).nodup.map hinjective

/-- A store object whose cache is what the store lists, and is current. -/
def Lists (files : Files) (handle : Handle StoredEntry) (store : OrderStore) : Prop :=
  handle.cache = some (store.entries.map writer.write, files.signature)

/-- A store object that is current reads the list of the store. -/
theorem Lists.latestEntries {writer : RowWriter} {files : Files} {handle : Handle StoredEntry}
    (h : writer.Lists files handle store) : StoredEntry.schema.latestEntries files handle =
      some (store.entries.map writer.write, handle) := by
  unfold Schema.latestEntries
  rw [show handle.cache = _ from h]
  exact if_pos rfl

/-- What it records goes where the store has it. -/
theorem Lists.upsertAll {writer : RowWriter} {files : Files} {handle : Handle StoredEntry}
    (h : writer.Lists files handle store) (rows : List OrderLedgerEntry) :
    ∃ files' handle', StoredEntry.schema.upsertAll files handle (rows.map writer.write) =
      some (files', handle') ∧ writer.Lists files' handle' (rows.foldl OrderStore.upsert store) := by
  induction rows generalizing store files handle with
  | nil => exact ⟨files, handle, rfl, h⟩
  | cons row rows ih =>
    have hupsert : ∃ files' handle', StoredEntry.schema.upsert files handle (writer.write row) =
        some (files', handle') ∧ writer.Lists files' handle' (store.upsert row) := by
      unfold Schema.upsert
      rw [h.latestEntries]
      refine ⟨_, _, rfl, ?_⟩
      unfold Lists
      rw [← writer.put_write]
    obtain ⟨files₁, handle₁, hupsert, hlists⟩ := hupsert
    obtain ⟨files', handle', hall, hlast⟩ := ih hlists
    refine ⟨files', handle', ?_, hlast⟩
    rw [List.map_cons, Schema.upsertAll, hupsert]
    exact hall

/-- After every history of processes, whose records were written to the files by whatever store
objects, the store object of the next process reads the rows in the order of the model, and keeps to
it in what it records itself. -/
theorem next_process_lists (steps : List Step) {start : Files}
    {session : Schema.Session StoredEntry} (hsession : StoredEntry.schema.Reaches start
      ((recordsOf (Step.traces .empty steps)).map writer.write) session)
    (hlog : start.log.getD [] = []) (hsnapshot : start.snapshot.getD [] = []) :
    ∃ handle, StoredEntry.schema.latestEntries session.files .fresh =
        some ((Step.ledgerAfter .empty steps).reopened.entries.map writer.write, handle) ∧
      ∀ rows : List OrderLedgerEntry, ∃ files' handle',
        StoredEntry.schema.upsertAll session.files handle (rows.map writer.write) =
          some (files', handle') ∧
        StoredEntry.schema.latestEntries files' handle' =
          some ((rows.foldl OrderStore.upsert (Step.ledgerAfter .empty steps).reopened).entries.map
            writer.write, handle') := by
  have hload := writer.load_reopened (OrderStore.IsOf.empty.ledgerAfter steps) hsession hlog
    hsnapshot
  let listed := (Step.ledgerAfter .empty steps).reopened.entries.map writer.write
  refine ⟨⟨some (listed, session.files.signature)⟩, ?_, ?_⟩
  · show (StoredEntry.schema.load session.files).map _ = _
    rw [hload]
    rfl
  · intro rows
    have hlists : writer.Lists session.files ⟨some (listed, session.files.signature)⟩
        (Step.ledgerAfter .empty steps).reopened := rfl
    obtain ⟨files', handle', hall, hlast⟩ := hlists.upsertAll rows
    exact ⟨files', handle', hall, hlast.latestEntries⟩

/-- Whole amounts as floats, and the first instants of a clock. -/
def whole : RowWriter where
  number q :=
    .float (.of (q < 0) (natDigits q.num.natAbs) (natDigits q.num.natAbs).length)
  instant seconds :=
    "1970-01-01T00:00:" ++ (if seconds < 10 then "0" else "") ++ formatFixed 0 seconds ++ "+00:00"

/-- No files yet. -/
def noFiles : Files := ⟨none, none, 0, 0, []⟩

/-- One share is sold and its order is reported filled: the next process lists its row. -/
theorem next_process_lists_filled : ∃ session, StoredEntry.schema.Reaches noFiles
    ((recordsOf (Step.traces .empty filledSteps)).map whole.write) session ∧
      ∃ handle, StoredEntry.schema.latestEntries session.files .fresh =
        some ((Step.ledgerAfter .empty filledSteps).reopened.entries.map whole.write, handle) := by
  have hstart : StoredEntry.schema.WellFormed (fun _ => none) [] noFiles :=
    StoredEntry.schema.wellFormed_empty rfl rfl
  obtain ⟨session, hsession⟩ := StoredEntry.schema.exists_reaches hstart
    (fun _ _ hfound => by cases hfound)
    ((recordsOf (Step.traces .empty filledSteps)).map whole.write)
  obtain ⟨handle, hread, -⟩ := next_process_lists whole filledSteps hsession rfl rfl
  exact ⟨session, hsession, handle, hread⟩

end RowWriter

end Poma

import Mathlib.Data.List.Sort
import Mathlib.Data.String.Basic
import Poma.Models.Lifecycle
import Poma.Storage.Keys

/-!
# The order store as a map

The durable ledger maps a ledger key to the last entry recorded under it. Every
query of the source lists this one map: a process that starts reads the open
snapshot, which is sorted by key, and then the event log; what it records itself
keeps its place, or goes to the end. The keys are distinct by construction.
-/

namespace Poma

open Storage

/-- Put an entry in the place of the one with its key, or at the end. -/
def putEntry (entry : OrderLedgerEntry) : List OrderLedgerEntry → List OrderLedgerEntry
  | [] => [entry]
  | x :: xs => if x.ledgerKey = entry.ledgerKey then entry :: xs else x :: putEntry entry xs

theorem map_putEntry (entry : OrderLedgerEntry) (xs : List OrderLedgerEntry) :
    (putEntry entry xs).map (·.ledgerKey) = putKey entry.ledgerKey (xs.map (·.ledgerKey)) := by
  induction xs with
  | nil => rfl
  | cons x xs ih =>
    by_cases hx : x.ledgerKey = entry.ledgerKey
    · simp [putEntry, putKey, hx]
    · rw [putEntry, if_neg hx, List.map_cons, ih, List.map_cons]
      by_cases hmem : entry.ledgerKey ∈ xs.map (·.ledgerKey)
      · rw [putKey_of_mem hmem, putKey_of_mem (List.mem_cons_of_mem _ hmem)]
      · have hnot : entry.ledgerKey ∉ x.ledgerKey :: xs.map (·.ledgerKey) :=
          fun h => (List.mem_cons.mp h).elim (fun he => hx he.symm) hmem
        rw [putKey_of_not_mem hmem, putKey_of_not_mem hnot]
        rfl

theorem mem_putEntry_self (entry : OrderLedgerEntry) (xs : List OrderLedgerEntry) :
    entry ∈ putEntry entry xs := by
  induction xs with
  | nil => exact List.mem_singleton_self entry
  | cons x xs ih =>
    unfold putEntry
    split
    · exact List.mem_cons_self
    · exact List.mem_cons_of_mem _ ih

theorem mem_putEntry_of_ne {entry x : OrderLedgerEntry} {xs : List OrderLedgerEntry} (hx : x ∈ xs)
    (hne : x.ledgerKey ≠ entry.ledgerKey) : x ∈ putEntry entry xs := by
  induction xs with
  | nil => cases hx
  | cons y xs ih =>
    unfold putEntry
    split
    · rename_i hy
      exact List.mem_cons_of_mem _ ((List.mem_cons.mp hx).resolve_left fun he => hne (he ▸ hy))
    · exact (List.mem_cons.mp hx).elim (fun he => he ▸ List.mem_cons_self)
        fun hx => List.mem_cons_of_mem _ (ih hx)

/-- The durable ledger: the latest entry of every key, keys distinct. -/
structure OrderStore where
  /-- The latest entries, in the order the store lists them. -/
  entries : List OrderLedgerEntry
  /-- The keys, in the order in which the event log first has them. -/
  logged : List String := entries.map (·.ledgerKey)
  /-- No key has two latest entries. -/
  nodup : (entries.map (·.ledgerKey)).Nodup
  /-- Every entry is in the event log. -/
  perm : logged.Perm (entries.map (·.ledgerKey)) := by exact List.Perm.refl _

namespace OrderStore

/-- The ledger of a fresh installation. -/
def empty : OrderStore := { entries := [], nodup := List.nodup_nil }

/-- The latest recorded state of a key, terminal or not. -/
def latest (store : OrderStore) (key : String) : Option OrderLedgerEntry :=
  store.entries.find? (·.ledgerKey = key)

/-- `load_latest_entries`. -/
def loadLatestEntries (store : OrderStore) : List OrderLedgerEntry := store.entries

/-- `load_open_orders`: the entries that are not terminal. -/
def loadOpenOrders (store : OrderStore) : List OrderLedgerEntry :=
  store.entries.filter fun entry => !entry.isTerminal

/-- `get`: the entry of a key, only while it is not terminal. -/
def get (store : OrderStore) (key : String) : Option OrderLedgerEntry :=
  store.loadOpenOrders.find? (·.ledgerKey = key)

/-- `get_latest_many`: the latest entries of the asked keys. -/
def getLatestMany (store : OrderStore) (keys : List String) : List OrderLedgerEntry :=
  store.entries.filter fun entry => entry.ledgerKey ∈ keys

/-- `get_latest_run_trades`, read at one ticker and side: the last entry wins. -/
def getLatestRunTrades (store : OrderStore) (runId ticker : String) (side : OrderSide) :
    Option OrderLedgerEntry :=
  (store.entries.filter fun entry =>
    entry.runId = runId ∧ entry.ticker = ticker ∧ entry.side = side).getLast?

/-- `upsert`: record a lifecycle transition. -/
def upsert (store : OrderStore) (entry : OrderLedgerEntry) : OrderStore where
  entries := putEntry entry store.entries
  logged := putKey entry.ledgerKey store.logged
  nodup := map_putEntry entry store.entries ▸ nodup_putKey store.nodup
  perm := map_putEntry entry store.entries ▸ putKey_perm store.perm

theorem latest_key {store : OrderStore} {key : String} {entry : OrderLedgerEntry}
    (h : store.latest key = some entry) : entry.ledgerKey = key := by
  simpa using List.find?_some h

theorem latest_mem {store : OrderStore} {key : String} {entry : OrderLedgerEntry}
    (h : store.latest key = some entry) : entry ∈ store.entries := List.mem_of_find?_eq_some h

private theorem find?_key_of_mem {xs : List OrderLedgerEntry}
    (hn : (xs.map (·.ledgerKey)).Nodup) {entry : OrderLedgerEntry} (h : entry ∈ xs) :
    xs.find? (·.ledgerKey = entry.ledgerKey) = some entry := by
  induction xs with
  | nil => cases h
  | cons x xs ih =>
    rw [List.map_cons, List.nodup_cons] at hn
    rcases List.mem_cons.mp h with rfl | hmem
    · simp
    · have hne : x.ledgerKey ≠ entry.ledgerKey := by
        intro he
        exact hn.1 (he ▸ List.mem_map_of_mem hmem)
      rw [List.find?_cons_of_neg (by simpa using hne)]
      exact ih hn.2 hmem

/-- An entry of the store is the latest entry of its key. -/
theorem latest_of_mem {store : OrderStore} {entry : OrderLedgerEntry}
    (h : entry ∈ store.entries) : store.latest entry.ledgerKey = some entry :=
  find?_key_of_mem store.nodup h

private theorem find?_putEntry (entry : OrderLedgerEntry) (xs : List OrderLedgerEntry)
    (key : String) :
    (putEntry entry xs).find? (·.ledgerKey = key) =
      if entry.ledgerKey = key then some entry else xs.find? (·.ledgerKey = key) := by
  induction xs with
  | nil => by_cases h : entry.ledgerKey = key <;> simp [putEntry, h]
  | cons x xs ih =>
    by_cases hx : x.ledgerKey = entry.ledgerKey
    · by_cases h : entry.ledgerKey = key <;> simp [putEntry, hx, h]
    · by_cases h : x.ledgerKey = key
      · have hne : entry.ledgerKey ≠ key := fun he => hx (h.trans he.symm)
        rw [putEntry, if_neg hx, if_neg hne]
        simp [h]
      · rw [putEntry, if_neg hx, List.find?_cons_of_neg (by simpa using h),
          List.find?_cons_of_neg (by simpa using h), ih]

/-- Recording an entry changes the latest entry of its own key and of no other. -/
theorem latest_upsert (store : OrderStore) (entry : OrderLedgerEntry) (key : String) :
    (store.upsert entry).latest key =
      if entry.ledgerKey = key then some entry else store.latest key :=
  find?_putEntry entry store.entries key

theorem latest_upsert_of_eq {store : OrderStore} {entry : OrderLedgerEntry} {key : String}
    (h : entry.ledgerKey = key) : (store.upsert entry).latest key = some entry := by
  rw [latest_upsert, if_pos h]

theorem latest_upsert_of_ne {store : OrderStore} {entry : OrderLedgerEntry} {key : String}
    (h : entry.ledgerKey ≠ key) : (store.upsert entry).latest key = store.latest key := by
  rw [latest_upsert, if_neg h]

/-- What the store holds after one more record. -/
theorem mem_upsert {store : OrderStore} {entry x : OrderLedgerEntry}
    (h : x ∈ (store.upsert entry).entries) :
    x = entry ∨ (x ∈ store.entries ∧ x.ledgerKey ≠ entry.ledgerKey) := by
  have hx := latest_of_mem h
  rw [latest_upsert] at hx
  by_cases hk : entry.ledgerKey = x.ledgerKey
  · rw [if_pos hk] at hx
    exact Or.inl (Option.some.inj hx).symm
  · rw [if_neg hk] at hx
    exact Or.inr ⟨latest_mem hx, Ne.symm hk⟩

theorem mem_loadOpenOrders {store : OrderStore} {entry : OrderLedgerEntry} :
    entry ∈ store.loadOpenOrders ↔ entry ∈ store.entries ∧ entry.isTerminal = false := by
  simp [loadOpenOrders]

/-- The open entry of a key is its latest entry, unless that one is terminal. -/
theorem get_eq (store : OrderStore) (key : String) :
    store.get key = (store.latest key).filter fun entry => !entry.isTerminal := by
  unfold get loadOpenOrders latest
  rw [List.find?_filter]
  have hn := store.nodup
  generalize store.entries = entries at hn ⊢
  induction entries with
  | nil => rfl
  | cons x xs ih =>
    rw [List.map_cons, List.nodup_cons] at hn
    by_cases hk : x.ledgerKey = key
    · cases ht : x.isTerminal with
      | false => simp [hk, ht, Option.filter]
      | true =>
        have hnone : xs.find? (fun a => (!a.isTerminal) && decide (a.ledgerKey = key)) = none := by
          rw [List.find?_eq_none]
          intro a ha hp
          have hak : a.ledgerKey = key := by simpa using (Bool.and_eq_true_iff.mp hp).2
          exact hn.1 (hk.trans hak.symm ▸ List.mem_map_of_mem ha)
        simpa [List.find?_cons, hk, ht, Option.filter] using hnone
    · simpa [List.find?_cons, hk] using ih hn.2

/-- Looking a key up among the asked keys is looking it up in the store. -/
theorem find?_getLatestMany {store : OrderStore} {keys : List String} {key : String}
    (h : key ∈ keys) :
    (store.getLatestMany keys).find? (·.ledgerKey = key) = store.latest key := by
  unfold getLatestMany latest
  rw [List.find?_filter]
  congr 1
  funext entry
  by_cases hk : entry.ledgerKey = key <;> simp [hk, h]

/-- `_save_open_orders`: the open entries, by key. -/
def openSnapshot (store : OrderStore) : List OrderLedgerEntry :=
  store.loadOpenOrders.insertionSort fun x y => x.ledgerKey ≤ y.ledgerKey

theorem openSnapshot_sorted (store : OrderStore) :
    store.openSnapshot.Pairwise fun x y => x.ledgerKey ≤ y.ledgerKey := by
  have : Std.Total fun x y : OrderLedgerEntry => x.ledgerKey ≤ y.ledgerKey :=
    ⟨fun x y => le_total x.ledgerKey y.ledgerKey⟩
  have : IsTrans OrderLedgerEntry fun x y => x.ledgerKey ≤ y.ledgerKey :=
    ⟨fun _ _ _ => le_trans⟩
  exact List.pairwise_insertionSort _ _

theorem mem_openSnapshot {store : OrderStore} {entry : OrderLedgerEntry} :
    entry ∈ store.openSnapshot ↔ entry ∈ store.entries ∧ entry.isTerminal = false := by
  rw [← mem_loadOpenOrders]
  exact List.mem_insertionSort _

/-- The entries that only the event log has, in its order. -/
def closedLog (store : OrderStore) : List OrderLedgerEntry :=
  store.logged.filterMap fun key => (store.latest key).filter (·.isTerminal)

theorem closedLog_perm (store : OrderStore) :
    store.closedLog.Perm (store.entries.filter (·.isTerminal)) := by
  have hlatest : (store.entries.map (·.ledgerKey)).filterMap
      (fun key => (store.latest key).filter (·.isTerminal)) =
        store.entries.filter (·.isTerminal) := by
    rw [List.filterMap_map, ← List.filterMap_eq_filter]
    apply List.filterMap_congr
    intro entry hentry
    simp [latest_of_mem hentry, Option.filter, Option.guard]
  exact hlatest ▸ store.perm.filterMap _

theorem reopened_perm (store : OrderStore) :
    (store.openSnapshot ++ store.closedLog).Perm store.entries := by
  have hsorted : store.openSnapshot.Perm store.loadOpenOrders := List.perm_insertionSort _ _
  have hsplit : (store.entries.filter (·.isTerminal) ++ store.loadOpenOrders).Perm store.entries :=
    List.filter_append_perm _ _
  exact ((hsorted.append store.closedLog_perm).trans List.perm_append_comm).trans hsplit

/-- `_latest_entries` in a new process: the open snapshot, then the rest of the event log. -/
def reopened (store : OrderStore) : OrderStore where
  entries := store.openSnapshot ++ store.closedLog
  logged := store.logged
  nodup := (store.reopened_perm.map _).nodup_iff.mpr store.nodup
  perm := store.perm.trans (store.reopened_perm.map _).symm

/-- The ledger as the next command finds it, in a new process or in the one that was there. -/
def atStart (store : OrderStore) (newProcess : Bool) : OrderStore :=
  if newProcess then store.reopened else store

theorem mem_reopened {store : OrderStore} {entry : OrderLedgerEntry} :
    entry ∈ store.reopened.entries ↔ entry ∈ store.entries := store.reopened_perm.mem_iff

/-- A new process has the latest entries of the one before. -/
@[simp] theorem latest_reopened (store : OrderStore) (key : String) :
    store.reopened.latest key = store.latest key := by
  have hiff : ∀ entry, store.reopened.latest key = some entry ↔ store.latest key = some entry := by
    intro entry
    constructor
    · intro h
      exact latest_key h ▸ latest_of_mem (mem_reopened.mp (latest_mem h))
    · intro h
      exact latest_key h ▸ latest_of_mem (mem_reopened.mpr (latest_mem h))
  exact Option.ext hiff

@[simp] theorem latest_atStart (store : OrderStore) (newProcess : Bool) (key : String) :
    (store.atStart newProcess).latest key = store.latest key := by
  unfold atStart
  split
  · exact latest_reopened store key
  · rfl

@[simp] theorem mem_atStart {store : OrderStore} {newProcess : Bool} {entry : OrderLedgerEntry} :
    entry ∈ (store.atStart newProcess).entries ↔ entry ∈ store.entries := by
  unfold atStart
  split
  · exact mem_reopened
  · exact Iff.rfl

end OrderStore

end Poma

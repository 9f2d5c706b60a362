import Mathlib.Data.List.Sort
import Poma.Storage.Keys
import Poma.Storage.Lines

/-!
# A keyed log with a snapshot and a cache

Records are appended to a log and the last one of a key counts; a snapshot beside
it holds the records that are still open and is replaced as a whole. A handle
keeps what it read last with the signatures of both files and reads them again
when a signature has changed. Whatever handles are used, one at a time, the log
and the snapshot stand for one map; an append cut short may leave a file that
stands for none.
-/

namespace Storage

open JsonText

/-- How records are stored under keys. -/
structure Schema (Key Entry : Type) extends Format Entry where
  key : Entry → Key
  /-- What a key comes back as. -/
  rereadKey : Key → Key
  /-- Whether a record leaves the snapshot. -/
  closed : Entry → Bool
  /-- The order of the records in a snapshot. -/
  le : Entry → Entry → Bool
  key_reread : ∀ entry, key (reread entry) = rereadKey (key entry)
  closed_reread : ∀ entry, closed (reread entry) = closed entry
  reread_reread : ∀ entry, reread (reread entry) = reread entry

/-- The two files, how often each was written, and what interrupted rewrites left behind. -/
structure Files where
  snapshot : Option Text
  log : Option Text
  snapshotWrites : Nat := 0
  logWrites : Nat := 0
  temporaries : List Text := []

/-- The signatures of the files: every write gives a new one. -/
abbrev Signature : Type := Option Nat × Option Nat

/-- `_signature`. -/
def Files.signature (files : Files) : Signature :=
  (files.snapshot.map fun _ => files.snapshotWrites, files.log.map fun _ => files.logWrites)

/-- What one handle keeps between its calls. -/
structure Handle (Entry : Type) where
  cache : Option (List Entry × Signature)

/-- A handle just made. -/
def Handle.fresh {Entry : Type} : Handle Entry := ⟨none⟩

/-- Where an append and the rewrite after it can be cut off. -/
inductive CrashPoint where
  /-- After so many characters of the record's line. -/
  | appending (written : Nat)
  /-- After so many characters of the new snapshot, in its temporary file. -/
  | rewriting (written : Nat)
  /-- After the snapshot was replaced. -/
  | replaced

namespace Schema

variable {Key Entry : Type} [DecidableEq Key] (S : Schema Key Entry)

/-- `entries[key] = entry`. -/
def put (entry : Entry) (entries : List Entry) : List Entry :=
  if entries.any fun x => S.key x = S.key entry then
    entries.map fun x => if S.key x = S.key entry then entry else x
  else entries ++ [entry]

/-- `entries.get(key)`. -/
def find (key : Key) (entries : List Entry) : Option Entry :=
  entries.find? fun x => S.key x = key

/-- Read both files, the snapshot first. -/
def load (files : Files) : Option (List Entry) := do
  let snapshot ← S.parse (files.snapshot.getD [])
  let log ← S.parse (files.log.getD [])
  some ((snapshot ++ log).foldl (fun entries entry => S.put entry entries) [])

/-- `_latest_entries`: the cache while both signatures are unchanged, else the files. -/
def latestEntries (files : Files) (handle : Handle Entry) : Option (List Entry × Handle Entry) :=
  let reload : Option (List Entry × Handle Entry) :=
    (S.load files).map fun entries => (entries, ⟨some (entries, files.signature)⟩)
  match handle.cache with
  | some (entries, signature) =>
    if signature = files.signature then some (entries, handle) else reload
  | none => reload

/-- `_append_event`. -/
def append (files : Files) (entry : Entry) : Files :=
  { files with
    log := some (files.log.getD [] ++ (S.encode entry ++ ['\n']))
    logWrites := files.logWrites + 1 }

/-- The records of a snapshot: the open ones, by key. -/
def openEntries (entries : List Entry) : List Entry :=
  (entries.filter fun entry => !S.closed entry).mergeSort S.le

/-- `_save_open_orders`. -/
def rewrite (files : Files) (entries : List Entry) : Files :=
  { files with
    snapshot := some (S.lines (S.openEntries entries))
    snapshotWrites := files.snapshotWrites + 1 }

/-- `upsert`. -/
def upsert (files : Files) (handle : Handle Entry) (entry : Entry) :
    Option (Files × Handle Entry) :=
  (S.latestEntries files handle).map fun (entries, _) =>
    let updated := S.put entry entries
    let files := S.rewrite (S.append files entry) updated
    (files, ⟨some (updated, files.signature)⟩)

/-- Several upserts through one handle. -/
def upsertAll (files : Files) (handle : Handle Entry) :
    List Entry → Option (Files × Handle Entry)
  | [] => some (files, handle)
  | entry :: rest =>
    (S.upsert files handle entry).bind fun (files, handle) => upsertAll files handle rest

/-- The files an upsert leaves that is cut off at a point. -/
def crashFiles (files : Files) (entries : List Entry) (entry : Entry) : CrashPoint → Files
  | .appending written =>
    { files with
      log := some (files.log.getD [] ++ (S.encode entry ++ ['\n']).take written)
      logWrites := files.logWrites + 1 }
  | .rewriting written =>
    { S.append files entry with
      temporaries := files.temporaries ++
        [(S.lines (S.openEntries (S.put entry entries))).take written] }
  | .replaced => S.rewrite (S.append files entry) (S.put entry entries)

/-- A map from keys to records after one more record, as it comes back. -/
def record (m : Key → Option Entry) (entry : Entry) : Key → Option Entry := fun key =>
  if S.rereadKey (S.key entry) = key then some (S.reread entry) else m key

/-- The map of a history on top of another map. -/
def recordAll (m : Key → Option Entry) (history : List Entry) : Key → Option Entry :=
  history.foldl S.record m

/-- Putting a record under its key changes what is found there and nowhere else. -/
theorem find_put (key : Key) (entry : Entry) (entries : List Entry) :
    S.find key (S.put entry entries) =
      if S.key entry = key then some entry else S.find key entries := by
  have hmap : S.find key (entries.map fun x => if S.key x = S.key entry then entry else x) =
      (S.find key entries).map fun x => if S.key x = S.key entry then entry else x := by
    unfold find
    rw [List.find?_map]
    congr 2
    funext x
    by_cases hx : S.key x = S.key entry <;> simp [hx]
  unfold put
  by_cases hany : (entries.any fun x => S.key x = S.key entry) = true
  · rw [if_pos hany, hmap]
    by_cases hkey : S.key entry = key
    · obtain ⟨x, hx, hsame⟩ := List.any_eq_true.mp hany
      have hsome : (S.find key entries).isSome := by
        rw [find, List.find?_isSome]
        exact ⟨x, hx, by simpa [← hkey] using hsame⟩
      obtain ⟨y, hy⟩ := Option.isSome_iff_exists.mp hsome
      have hfound : S.key y = key := by simpa using List.find?_some hy
      simp [hy, hfound, hkey]
    · rw [if_neg hkey]
      cases hfind : S.find key entries with
      | none => rfl
      | some y =>
        have hfound : S.key y = key := by simpa using List.find?_some hfind
        have hne : ¬S.key y = S.key entry := fun h => hkey (h.symm.trans hfound)
        simp [hne]
  · rw [if_neg hany]
    have hnone : ∀ x ∈ entries, S.key x ≠ S.key entry := by simpa using hany
    unfold find
    rw [List.find?_append]
    by_cases hkey : S.key entry = key
    · have hfind : (entries.find? fun x => decide (S.key x = key)) = none := by
        rw [List.find?_eq_none]
        intro x hx
        simpa [← hkey] using hnone x hx
      simp [hfind, hkey]
    · simp [hkey]

theorem mem_put {entry x : Entry} {entries : List Entry} :
    x ∈ S.put entry entries ↔ x = entry ∨ (x ∈ entries ∧ S.key x ≠ S.key entry) := by
  unfold put
  by_cases hany : (entries.any fun x => S.key x = S.key entry) = true
  · rw [if_pos hany, List.mem_map]
    constructor
    · rintro ⟨y, hy, hx⟩
      by_cases hkey : S.key y = S.key entry
      · exact Or.inl (by rw [← hx, if_pos hkey])
      · rw [if_neg hkey] at hx
        exact Or.inr ⟨hx ▸ hy, hx ▸ hkey⟩
    · rintro (rfl | ⟨hx, hkey⟩)
      · obtain ⟨y, hy, hsame⟩ := List.any_eq_true.mp hany
        exact ⟨y, hy, by simp_all⟩
      · exact ⟨x, hx, if_neg hkey⟩
  · rw [if_neg hany, List.mem_append, List.mem_singleton]
    have hnone : ∀ x ∈ entries, S.key x ≠ S.key entry := by simpa using hany
    constructor
    · rintro (hx | rfl)
      · exact Or.inr ⟨hx, hnone x hx⟩
      · exact Or.inl rfl
    · rintro (rfl | ⟨hx, -⟩)
      · exact Or.inr rfl
      · exact Or.inl hx

theorem map_put (entry : Entry) (entries : List Entry) :
    (S.put entry entries).map S.key = putKey (S.key entry) (entries.map S.key) := by
  unfold put
  by_cases hany : (entries.any fun x => S.key x = S.key entry) = true
  · have hkeys : (entries.map fun x => if S.key x = S.key entry then entry else x).map S.key =
        entries.map S.key := by
      rw [List.map_map]
      apply List.map_congr_left
      intro x _
      by_cases hx : S.key x = S.key entry <;> simp [hx]
    have hmem : S.key entry ∈ entries.map S.key := by
      obtain ⟨x, hx, hsame⟩ := List.any_eq_true.mp hany
      exact List.mem_map.mpr ⟨x, hx, of_decide_eq_true hsame⟩
    rw [if_pos hany, hkeys, putKey_of_mem hmem]
  · have hnot : S.key entry ∉ entries.map S.key := by
      intro hmem
      obtain ⟨x, hx, hsame⟩ := List.mem_map.mp hmem
      exact hany (List.any_eq_true.mpr ⟨x, hx, decide_eq_true hsame⟩)
    rw [if_neg hany, putKey_of_not_mem hnot, List.map_append, List.map_singleton]

theorem nodup_put {entry : Entry} {entries : List Entry} (h : (entries.map S.key).Nodup) :
    ((S.put entry entries).map S.key).Nodup := by
  rw [map_put]
  exact nodup_putKey h

/-- Records that are put have their keys put. -/
theorem map_foldl_put (added entries : List Entry) :
    (added.foldl (fun entries entry => S.put entry entries) entries).map S.key =
      putKeys (entries.map S.key) (added.map S.key) := by
  unfold putKeys
  induction added generalizing entries with
  | nil => rfl
  | cons entry added ih => rw [List.foldl_cons, List.map_cons, List.foldl_cons, ih, map_put]

theorem nodup_foldl_put {added entries : List Entry} (h : (entries.map S.key).Nodup) :
    ((added.foldl (fun entries entry => S.put entry entries) entries).map S.key).Nodup := by
  induction added generalizing entries with
  | nil => exact h
  | cons entry added ih => exact ih (S.nodup_put h)

/-- In a dictionary a record is what is found under its key. -/
theorem find_eq_some_iff {entries : List Entry} (h : (entries.map S.key).Nodup) (x : Entry)
    (key : Key) : S.find key entries = some x ↔ x ∈ entries ∧ S.key x = key := by
  constructor
  · intro hfind
    exact ⟨List.mem_of_find?_eq_some hfind, by simpa using List.find?_some hfind⟩
  · rintro ⟨hx, rfl⟩
    induction entries with
    | nil => cases hx
    | cons y entries ih =>
      rw [List.map_cons, List.nodup_cons] at h
      unfold find
      rcases List.mem_cons.mp hx with rfl | hx
      · simp
      · have hne : ¬S.key y = S.key x := by
          intro he
          exact h.1 (he ▸ List.mem_map_of_mem hx)
        rw [List.find?_cons_of_neg (by simpa using hne)]
        exact ih h.2 hx

/-- In a dictionary, what is found among some of the records is what is found, if it is one. -/
theorem find_filter {entries : List Entry} (h : (entries.map S.key).Nodup) (p : Entry → Bool)
    (key : Key) : S.find key (entries.filter p) = (S.find key entries).filter p := by
  have hfilter : ((entries.filter p).map S.key).Nodup :=
    h.sublist (List.filter_sublist.map S.key)
  ext x
  rw [S.find_eq_some_iff hfilter, Option.filter_eq_some_iff, S.find_eq_some_iff h,
    List.mem_filter]
  exact and_right_comm

/-- A map with one record under its own key. -/
def assign (m : Key → Option Entry) (entry : Entry) : Key → Option Entry := fun key =>
  if S.key entry = key then some entry else m key

/-- What is found after many records are put is what the last one of its key left. -/
theorem find_foldl_put (key : Key) (added entries : List Entry) :
    S.find key (added.foldl (fun entries entry => S.put entry entries) entries) =
      added.foldl S.assign (fun k => S.find k entries) key := by
  induction added generalizing entries with
  | nil => rfl
  | cons entry added ih =>
    have hput : (fun k => S.find k (S.put entry entries)) =
        S.assign (fun k => S.find k entries) entry := by
      ext1 k
      exact S.find_put k entry entries
    rw [List.foldl_cons, List.foldl_cons, ih, hput]

/-- Assigning what came back is recording. -/
theorem foldl_assign_reread (history : List Entry) (m : Key → Option Entry) :
    (history.map S.reread).foldl S.assign m = S.recordAll m history := by
  have hassign : (fun m entry => S.assign m (S.reread entry)) = S.record := by
    ext1 m
    ext1 entry
    unfold assign record
    rw [S.key_reread]
  rw [List.foldl_map, hassign, recordAll]

/-- The map of a history at a key it records does not depend on the map below. -/
theorem recordAll_congr {m m' : Key → Option Entry} {history : List Entry} {key : Key}
    (h : key ∉ history.map (fun entry => S.rereadKey (S.key entry)) → m key = m' key) :
    S.recordAll m history key = S.recordAll m' history key := by
  unfold recordAll
  induction history generalizing m m' with
  | nil => exact h List.not_mem_nil
  | cons entry history ih =>
    rw [List.foldl_cons, List.foldl_cons]
    apply ih
    intro hnot
    unfold record
    by_cases hkey : S.rereadKey (S.key entry) = key
    · rw [if_pos hkey, if_pos hkey]
    · rw [if_neg hkey, if_neg hkey]
      apply h
      rw [List.map_cons, List.mem_cons, not_or]
      exact ⟨fun he => hkey he.symm, hnot⟩

theorem recordAll_concat (m : Key → Option Entry) (history : List Entry) (entry : Entry) :
    S.recordAll m (history ++ [entry]) = S.record (S.recordAll m history) entry := by
  simp [recordAll]

/-- A history leaves the map below it alone outside its keys. -/
theorem recordAll_of_not_mem {m : Key → Option Entry} {history : List Entry} {key : Key}
    (h : key ∉ history.map fun entry => S.rereadKey (S.key entry)) :
    S.recordAll m history key = m key := by
  induction history using List.reverseRecOn with
  | nil => rfl
  | append_singleton history entry ih =>
    rw [List.map_append, List.mem_append, not_or] at h
    have hne : ¬S.rereadKey (S.key entry) = key := by
      intro he
      exact h.2 (by simp [he])
    rw [recordAll_concat, record, if_neg hne]
    exact ih h.1

/-- What a map of records alone has at a key is one of them, come back. -/
theorem recordAll_empty {entries : List Entry} {key : Key} :
    (∀ found, S.recordAll (fun _ => none) entries key = some found →
      S.key found = key ∧ ∃ x ∈ entries, S.reread x = found) ∧
    ((∃ x ∈ entries, S.rereadKey (S.key x) = key) →
      (S.recordAll (fun _ => none) entries key).isSome) := by
  induction entries using List.reverseRecOn with
  | nil =>
    constructor
    · intro found h
      cases h
    · rintro ⟨x, hx, -⟩
      cases hx
  | append_singleton entries entry ih =>
    rw [recordAll_concat]
    unfold record
    by_cases hkey : S.rereadKey (S.key entry) = key
    · rw [if_pos hkey]
      constructor
      · intro found h
        obtain rfl := Option.some.inj h
        exact ⟨(S.key_reread entry).trans hkey, entry, by simp, rfl⟩
      · intro _
        rfl
    · rw [if_neg hkey]
      constructor
      · intro found h
        obtain ⟨hfound, x, hx, hreread⟩ := ih.1 found h
        exact ⟨hfound, x, List.mem_append_left _ hx, hreread⟩
      · rintro ⟨x, hx, hxkey⟩
        rcases List.mem_append.mp hx with hx | hx
        · exact ih.2 ⟨x, hx, hxkey⟩
        · rw [List.mem_singleton.mp hx] at hxkey
          exact (hkey hxkey).elim

/-- Nothing is in a dictionary that was not put into it. -/
theorem mem_foldl_put {x : Entry} {added entries : List Entry}
    (h : x ∈ added.foldl (fun entries entry => S.put entry entries) entries) :
    x ∈ entries ∨ x ∈ added := by
  induction added generalizing entries with
  | nil => exact Or.inl h
  | cons entry added ih =>
    rcases ih h with hx | hx
    · rcases S.mem_put.mp hx with rfl | ⟨hx, -⟩
      · exact Or.inr List.mem_cons_self
      · exact Or.inl hx
    · exact Or.inr (List.mem_cons_of_mem _ hx)

/-- Outside the keys of a history, the records of a list come back as an older map has them. -/
def Matches (legacy : Key → Option Entry) (history entries : List Entry) : Prop :=
  ∀ key, key ∉ history.map (fun entry => S.rereadKey (S.key entry)) → ∀ found,
    (S.key found = key ∧ ∃ x ∈ entries, S.reread x = found) ↔ legacy key = some found

/-- Files that stand for a history on top of an older map: the log is the history, and the snapshot
has the older records that the history does not replace. -/
structure WellFormed (legacy : Key → Option Entry) (history : List Entry) (files : Files) :
    Prop where
  log : files.log.getD [] = S.lines history
  snapshot : ∃ entries, files.snapshot.getD [] = S.lines entries ∧
    S.Matches legacy history entries

/-- What the records of files are read as. -/
def Holds (files : Files) (m : Key → Option Entry) : Prop :=
  ∃ entries, S.load files = some entries ∧ ∀ key, S.find key entries = m key

/-- What is found after a snapshot and a history are read. -/
theorem find_loaded {legacy : Key → Option Entry} {history snapshot : List Entry}
    (h : S.Matches legacy history snapshot) (key : Key) :
    S.find key ((snapshot.map S.reread ++ history.map S.reread).foldl
      (fun entries entry => S.put entry entries) []) = S.recordAll legacy history key := by
  rw [find_foldl_put, List.foldl_append, foldl_assign_reread, foldl_assign_reread]
  apply S.recordAll_congr
  intro hkey
  show S.recordAll (fun _ => none) snapshot key = legacy key
  have hread : (∀ found, S.recordAll (fun _ => none) snapshot key = some found →
      S.key found = key ∧ ∃ x ∈ snapshot, S.reread x = found) ∧
      ((∃ x ∈ snapshot, S.rereadKey (S.key x) = key) →
        (S.recordAll (fun _ => none) snapshot key).isSome) := S.recordAll_empty
  obtain ⟨hsome, hpresent⟩ := hread
  have hmatches := h key hkey
  cases hread : S.recordAll (fun _ => none) snapshot key with
  | some found =>
    obtain ⟨hfound, hx⟩ := hsome found hread
    exact ((hmatches found).mp ⟨hfound, hx⟩).symm
  | none =>
    cases hlegacy : legacy key with
    | none => rfl
    | some found =>
      obtain ⟨hfound, x, hx, hreread⟩ := (hmatches found).mpr hlegacy
      have hxkey : S.rereadKey (S.key x) = key := by rw [← S.key_reread, hreread, hfound]
      have hisSome := hpresent ⟨x, hx, hxkey⟩
      rw [hread] at hisSome
      cases hisSome

/-- Entries in hand that mirror a history on top of an older map; where everything recorded comes
back as it was, they are that map. -/
structure Mirrors (legacy : Key → Option Entry) (history entries : List Entry) : Prop where
  nodup : (entries.map S.key).Nodup
  older : S.Matches legacy history entries
  find : (∀ entry ∈ history, S.reread entry = entry) → ∀ key,
    S.find key entries = S.recordAll legacy history key

/-- Well-formed files are read as the map of their history. -/
theorem load_wellFormed {legacy : Key → Option Entry} {history : List Entry} {files : Files}
    (h : S.WellFormed legacy history files) :
    ∃ entries, S.load files = some entries ∧ S.Mirrors legacy history entries ∧
      ∀ key, S.find key entries = S.recordAll legacy history key := by
  obtain ⟨snapshot, hsnapshot, hmatches⟩ := h.snapshot
  have hparse : S.parse (S.lines snapshot) = some (snapshot.map S.reread) :=
    S.parse_lines snapshot
  have hparse' : S.parse (S.lines history) = some (history.map S.reread) := S.parse_lines history
  have hloaded := S.find_loaded hmatches
  refine ⟨(snapshot.map S.reread ++ history.map S.reread).foldl
    (fun entries entry => S.put entry entries) [], ?_, ⟨?_, ?_, fun _ => hloaded⟩, hloaded⟩
  · unfold load
    rw [hsnapshot, h.log, hparse, hparse']
    rfl
  · exact S.nodup_foldl_put List.nodup_nil
  · intro key hkey found
    have hfind := hloaded key
    rw [S.recordAll_of_not_mem hkey] at hfind
    constructor
    · rintro ⟨hfound, x, hx, hreread⟩
      have hadded := (S.mem_foldl_put hx).resolve_left List.not_mem_nil
      rw [← List.map_append] at hadded
      obtain ⟨y, hy, rfl⟩ := List.mem_map.mp hadded
      rw [S.reread_reread] at hreread
      rcases List.mem_append.mp hy with hy | hy
      · exact (hmatches key hkey found).mp ⟨hfound, y, hy, hreread⟩
      · refine (hkey (List.mem_map.mpr ⟨y, hy, ?_⟩)).elim
        rw [← S.key_reread, hreread, hfound]
    · intro hlegacy
      rw [hlegacy] at hfind
      have hmem := List.mem_of_find?_eq_some hfind
      have hadded := (S.mem_foldl_put hmem).resolve_left List.not_mem_nil
      rw [← List.map_append] at hadded
      obtain ⟨y, -, hy⟩ := List.mem_map.mp hadded
      refine ⟨by simpa using List.find?_some hfind, found, hmem, ?_⟩
      rw [← hy, S.reread_reread]

omit [DecidableEq Key] in
/-- A longer history leaves less to the older map. -/
theorem Matches.extend {legacy : Key → Option Entry} {history entries : List Entry}
    (h : S.Matches legacy history entries) (entry : Entry) :
    S.Matches legacy (history ++ [entry]) entries := by
  intro key hkey found
  rw [List.map_append, List.mem_append, not_or] at hkey
  exact h key hkey.1 found

/-- Putting a new record is recording it. -/
theorem Mirrors.put {legacy : Key → Option Entry} {history entries : List Entry}
    (h : S.Mirrors legacy history entries) (entry : Entry) :
    S.Mirrors legacy (history ++ [entry]) (S.put entry entries) := by
  constructor
  · exact S.nodup_put h.nodup
  · intro key hkey found
    have hother : S.rereadKey (S.key entry) ≠ key := by
      rintro rfl
      exact hkey (by simp)
    have hiff : (S.key found = key ∧ ∃ x ∈ S.put entry entries, S.reread x = found) ↔
        (S.key found = key ∧ ∃ x ∈ entries, S.reread x = found) := by
      apply and_congr_right
      intro hfound
      constructor
      · rintro ⟨x, hx, hreread⟩
        rcases S.mem_put.mp hx with rfl | ⟨hx, -⟩
        · rw [← hreread, S.key_reread] at hfound
          exact (hother hfound).elim
        · exact ⟨x, hx, hreread⟩
      · rintro ⟨x, hx, hreread⟩
        refine ⟨x, S.mem_put.mpr (Or.inr ⟨hx, fun hsame => ?_⟩), hreread⟩
        rw [← hreread, S.key_reread, hsame] at hfound
        exact hother hfound
    rw [hiff]
    exact h.older.extend S entry key hkey found
  · intro hexact key
    have hentry : S.reread entry = entry := hexact entry (by simp)
    have hkey : S.rereadKey (S.key entry) = S.key entry := by rw [← S.key_reread, hentry]
    have hhistory := h.find fun x hx => hexact x (List.mem_append_left _ hx)
    rw [find_put, recordAll_concat, record, hkey, hentry, hhistory]

omit [DecidableEq Key] in
theorem mem_openEntries {x : Entry} {entries : List Entry} :
    x ∈ S.openEntries entries ↔ x ∈ entries ∧ S.closed x = false := by
  simp [openEntries]

omit [DecidableEq Key] in
/-- The snapshot of a dictionary has what the dictionary has of an open older map. -/
theorem Matches.openEntries {legacy : Key → Option Entry} {history entries : List Entry}
    (h : S.Matches legacy history entries)
    (hopen : ∀ key found, legacy key = some found → S.closed found = false) :
    S.Matches legacy history (S.openEntries entries) := by
  intro key hkey found
  constructor
  · rintro ⟨hfound, x, hx, hreread⟩
    exact (h key hkey found).mp ⟨hfound, x, (S.mem_openEntries.mp hx).1, hreread⟩
  · intro hlegacy
    obtain ⟨hfound, x, hx, hreread⟩ := (h key hkey found).mpr hlegacy
    refine ⟨hfound, x, S.mem_openEntries.mpr ⟨hx, ?_⟩, hreread⟩
    rw [← S.closed_reread, hreread]
    exact hopen key found hlegacy

/-- An upsert that ends leaves the files of the longer history. -/
theorem WellFormed.rewrite {legacy : Key → Option Entry} {history entries : List Entry}
    {files : Files} (h : S.WellFormed legacy history files)
    (hopen : ∀ key found, legacy key = some found → S.closed found = false)
    (hentries : S.Mirrors legacy history entries) (entry : Entry) :
    S.WellFormed legacy (history ++ [entry])
      (S.rewrite (S.append files entry) (S.put entry entries)) where
  log := by
    show files.log.getD [] ++ (S.encode entry ++ ['\n']) = _
    rw [h.log, S.lines_concat]
  snapshot := ⟨_, rfl, (hentries.put S entry).older.openEntries S hopen⟩

/-- A handle whose cache, while its signatures are those of the files, mirrors them. -/
def Current (legacy : Key → Option Entry) (history : List Entry) (files : Files)
    (handle : Handle Entry) : Prop :=
  ∀ entries signature, handle.cache = some (entries, signature) →
    (∀ writes, signature.2 = some writes → writes ≤ files.logWrites) ∧
      (signature = files.signature → S.Mirrors legacy history entries)

theorem current_fresh (legacy : Key → Option Entry) (history : List Entry) (files : Files) :
    S.Current legacy history files .fresh := by
  intro entries signature h
  cases h

/-- A cache that holds what was just read or written is current. -/
theorem current_of_mirrors {legacy : Key → Option Entry} {history entries : List Entry}
    {files : Files} (h : S.Mirrors legacy history entries) :
    S.Current legacy history files ⟨some (entries, files.signature)⟩ := by
  intro entries' signature hcache
  obtain ⟨rfl, rfl⟩ := Prod.mk.inj (Option.some.inj hcache)
  refine ⟨fun writes hwrites => ?_, fun _ => h⟩
  obtain ⟨_, -, rfl⟩ := Option.map_eq_some_iff.mp hwrites
  exact le_rfl

/-- Every handle reads the map of the history, from its cache or from the files. -/
theorem latestEntries_mirrors {legacy : Key → Option Entry} {history : List Entry} {files : Files}
    {handle : Handle Entry} (h : S.WellFormed legacy history files)
    (hhandle : S.Current legacy history files handle) :
    ∃ entries handle', S.latestEntries files handle = some (entries, handle') ∧
      S.Mirrors legacy history entries ∧ S.Current legacy history files handle' := by
  obtain ⟨loaded, hload, hmirrors, -⟩ := S.load_wellFormed h
  have hreload : ∃ entries handle', (S.load files).map (fun entries => (entries,
      (⟨some (entries, files.signature)⟩ : Handle Entry))) = some (entries, handle') ∧
        S.Mirrors legacy history entries ∧ S.Current legacy history files handle' :=
    ⟨loaded, _, by rw [hload]; rfl, hmirrors, S.current_of_mirrors hmirrors⟩
  unfold latestEntries
  cases hcache : handle.cache with
  | none => exact hreload
  | some cached =>
    obtain ⟨entries, signature⟩ := cached
    by_cases hsignature : signature = files.signature
    · rw [hsignature] at hcache
      simp only [hsignature, ite_true]
      exact ⟨entries, handle, rfl, (hhandle entries _ hcache).2 rfl, hhandle⟩
    · simp only [hsignature, ite_false]
      exact hreload

/-- An upsert through a current handle ends, and extends the history. -/
theorem upsert_wellFormed {legacy : Key → Option Entry} {history : List Entry} {files : Files}
    {handle : Handle Entry} (h : S.WellFormed legacy history files)
    (hopen : ∀ key found, legacy key = some found → S.closed found = false)
    (hhandle : S.Current legacy history files handle) (entry : Entry) :
    ∃ files' handle', S.upsert files handle entry = some (files', handle') ∧
      files'.signature.2 = some (files.logWrites + 1) ∧
      S.WellFormed legacy (history ++ [entry]) files' ∧
      S.Current legacy (history ++ [entry]) files' handle' := by
  obtain ⟨entries, handle', hlatest, hmirrors, -⟩ := S.latestEntries_mirrors h hhandle
  refine ⟨S.rewrite (S.append files entry) (S.put entry entries), _, ?_, rfl,
    h.rewrite S hopen hmirrors entry, S.current_of_mirrors (hmirrors.put S entry)⟩
  unfold upsert
  rw [hlatest]
  rfl

/-- Any number of upserts through one handle extend the history by all of them. -/
theorem upsertAll_wellFormed {legacy : Key → Option Entry} {history : List Entry} {files : Files}
    {handle : Handle Entry} (h : S.WellFormed legacy history files)
    (hopen : ∀ key found, legacy key = some found → S.closed found = false)
    (hhandle : S.Current legacy history files handle) (added : List Entry) :
    ∃ files' handle', S.upsertAll files handle added = some (files', handle') ∧
      S.WellFormed legacy (history ++ added) files' := by
  induction added generalizing history files handle with
  | nil => exact ⟨files, handle, rfl, by rwa [List.append_nil]⟩
  | cons entry added ih =>
    obtain ⟨files', handle', hupsert, -, hfiles, hcurrent⟩ :=
      S.upsert_wellFormed h hopen hhandle entry
    obtain ⟨files'', handle'', hall, hend⟩ := ih hfiles hcurrent
    refine ⟨files'', handle'', ?_, by simpa using hend⟩
    rw [upsertAll, hupsert]
    exact hall

/-- Files that are read as one of two maps, and take any later upserts on top of it. -/
def Survives (before after : Key → Option Entry) (files : Files) : Prop :=
  ∃ m, (m = before ∨ m = after) ∧ S.Holds files m ∧
    ∀ added, ∃ files' handle', S.upsertAll files .fresh added = some (files', handle') ∧
      S.Holds files' (S.recordAll m added)

/-- The points at which a cut-off upsert leaves no part of a line behind. -/
def CleanPoint (entry : Entry) : CrashPoint → Prop
  | .appending written => written = 0 ∨ (S.encode entry).length < written
  | _ => True

theorem WellFormed.holds {legacy : Key → Option Entry} {history : List Entry} {files : Files}
    (h : S.WellFormed legacy history files) : S.Holds files (S.recordAll legacy history) := by
  obtain ⟨entries, hload, -, hfind⟩ := S.load_wellFormed h
  exact ⟨entries, hload, hfind⟩

theorem WellFormed.survives {legacy : Key → Option Entry} {history : List Entry} {files : Files}
    (h : S.WellFormed legacy history files)
    (hopen : ∀ key found, legacy key = some found → S.closed found = false)
    {before after : Key → Option Entry} (hm : S.recordAll legacy history = before ∨
      S.recordAll legacy history = after) : S.Survives before after files := by
  refine ⟨S.recordAll legacy history, hm, h.holds S, fun added => ?_⟩
  obtain ⟨files', handle', hall, hend⟩ :=
    S.upsertAll_wellFormed h hopen (S.current_fresh legacy history files) added
  have hholds := hend.holds S
  unfold recordAll at hholds ⊢
  rw [List.foldl_append] at hholds
  exact ⟨files', handle', hall, hholds⟩

/-- A log with a line that is no record cannot be read. -/
theorem not_holds_of_parse {files : Files} (h : S.parse (files.log.getD []) = none)
    (m : Key → Option Entry) : ¬S.Holds files m := by
  rintro ⟨entries, hload, -⟩
  unfold load at hload
  rw [h] at hload
  cases hsnapshot : S.parse (files.snapshot.getD []) <;> rw [hsnapshot] at hload <;> cases hload

/-- A log that ends in a torn line, or in a whole one that is not ended, does not survive: the torn
line cannot be read, and the next record would go on the same line. -/
theorem not_survives_of_part {history : List Entry} {files : Files} {entry : Entry} {part : Text}
    (hlog : files.log.getD [] = S.lines history ++ part) (hne : part ≠ [])
    (hpart : part <+: S.encode entry) (before after : Key → Option Entry) :
    ¬S.Survives before after files := by
  rintro ⟨m, -, hholds, hlater⟩
  obtain ⟨rest, hrest⟩ := hpart
  obtain ⟨c, tail, hc, hspace⟩ := S.token entry
  have htoken : ∃ d rest, part = d :: rest ∧ isWhitespace d = false := by
    obtain ⟨d, t, rfl⟩ := List.exists_cons_of_ne_nil hne
    rw [hc, List.cons_append] at hrest
    obtain rfl := (List.cons.inj hrest).1
    exact ⟨d, t, rfl, hspace⟩
  have hplain : ∀ c ∈ part, IsPlain c := by
    intro c hc
    exact S.plain entry c (hrest ▸ List.mem_append_left _ hc)
  by_cases hwhole : rest = []
  · -- the whole record without its newline: one more record glues the two together
    rw [hwhole, List.append_nil] at hrest
    obtain ⟨files', handle', hall, hholds'⟩ := hlater [entry]
    have hlog' : files'.log.getD [] =
        S.lines history ++ ((S.encode entry ++ S.encode entry) ++ ['\n']) := by
      obtain ⟨⟨files₁, handle₁⟩, hupsert, hrest'⟩ := Option.bind_eq_some_iff.mp hall
      obtain ⟨latest, -, hpair⟩ := Option.map_eq_some_iff.mp hupsert
      obtain ⟨rfl, -⟩ := Prod.mk.inj hpair
      obtain ⟨rfl, -⟩ := Prod.mk.inj (Option.some.inj hrest')
      show files.log.getD [] ++ (S.encode entry ++ ['\n']) = _
      rw [hlog, hrest]
      simp
    refine S.not_holds_of_parse ?_ _ hholds'
    rw [hlog', S.parse_lines_last history (fun c hc => (List.mem_append.mp hc).elim
      (S.plain entry c) (S.plain entry c)) ⟨c, _, by rw [hc]; rfl, hspace⟩ (Or.inr rfl),
      S.glued]
    rfl
  · refine S.not_holds_of_parse ?_ m hholds
    have hparse := S.parse_lines_last history hplain htoken (Or.inl rfl)
    rw [List.append_nil, S.torn entry part rest hne hwhole hrest] at hparse
    rw [hlog, hparse]
    rfl

/-- A cut-off upsert is survived exactly when it left no part of a line behind. -/
theorem survives_iff {legacy : Key → Option Entry} {history entries : List Entry} {files : Files}
    (h : S.WellFormed legacy history files)
    (hopen : ∀ key found, legacy key = some found → S.closed found = false)
    (hentries : S.Mirrors legacy history entries) (entry : Entry) (point : CrashPoint) :
    S.Survives (S.recordAll legacy history) (S.recordAll legacy (history ++ [entry]))
      (S.crashFiles files entries entry point) ↔ S.CleanPoint entry point := by
  obtain ⟨snapshot, hsnapshot, hmatches⟩ := h.snapshot
  cases point with
  | rewriting written =>
    have hfiles : S.WellFormed legacy (history ++ [entry])
        (S.crashFiles files entries entry (.rewriting written)) := by
      constructor
      · show files.log.getD [] ++ (S.encode entry ++ ['\n']) = _
        rw [h.log, S.lines_concat]
      · exact ⟨snapshot, hsnapshot, hmatches.extend S entry⟩
    exact iff_of_true (hfiles.survives S hopen (Or.inr rfl)) trivial
  | replaced =>
    exact iff_of_true ((h.rewrite S hopen hentries entry).survives S hopen (Or.inr rfl)) trivial
  | appending written =>
    have hlog : (S.crashFiles files entries entry (.appending written)).log.getD [] =
        S.lines history ++ (S.encode entry ++ ['\n']).take written := by
      show files.log.getD [] ++ (S.encode entry ++ ['\n']).take written = _
      rw [h.log]
    by_cases hnone : written = 0
    · have hfiles : S.WellFormed legacy history
          (S.crashFiles files entries entry (.appending written)) := by
        constructor
        · rw [hlog, hnone]
          simp
        · exact ⟨snapshot, hsnapshot, hmatches⟩
      exact iff_of_true (hfiles.survives S hopen (Or.inl rfl)) (Or.inl hnone)
    by_cases hfull : (S.encode entry).length < written
    · have hfiles : S.WellFormed legacy (history ++ [entry])
          (S.crashFiles files entries entry (.appending written)) := by
        constructor
        · rw [hlog, List.take_of_length_le (by simp; omega), S.lines_concat]
        · exact ⟨snapshot, hsnapshot, hmatches.extend S entry⟩
      exact iff_of_true (hfiles.survives S hopen (Or.inr rfl)) (Or.inr hfull)
    · rw [List.take_append_of_le_length (by omega)] at hlog
      have hne : (S.encode entry).take written ≠ [] := by
        obtain ⟨c, rest, hc, -⟩ := S.token entry
        rw [hc]
        simpa using hnone
      refine iff_of_false (S.not_survives_of_part hlog hne (List.take_prefix _ _) _ _) ?_
      rintro (h | h)
      · exact hnone h
      · exact hfull h

/-- The files, and any number of handles on them. -/
structure Session (Entry : Type) where
  files : Files
  handles : Nat → Handle Entry

/-- What reading through one handle makes of a session. -/
def Session.read {Entry : Type} (session : Session Entry) (i : Nat) (handle : Handle Entry) :
    Session Entry :=
  { session with handles := fun j => if j = i then handle else session.handles j }

/-- Sessions in which handles read and record, one at a time, with what was recorded. -/
inductive Reaches (start : Files) : List Entry → Session Entry → Prop
  | start : Reaches start [] ⟨start, fun _ => .fresh⟩
  | read {history : List Entry} {session : Session Entry} (h : Reaches start history session)
      (i : Nat) (entries : List Entry) (handle : Handle Entry)
      (hread : S.latestEntries session.files (session.handles i) = some (entries, handle)) :
      Reaches start history (session.read i handle)
  | upsert {history : List Entry} {session : Session Entry} (h : Reaches start history session)
      (i : Nat) (entry : Entry) (files : Files) (handle : Handle Entry)
      (hupsert : S.upsert session.files (session.handles i) entry = some (files, handle)) :
      Reaches start (history ++ [entry]) (Session.read ⟨files, session.handles⟩ i handle)

/-- In every session the files stand for what was recorded, and every handle is current. -/
theorem Reaches.current {legacy : Key → Option Entry} {start : Files} {history : List Entry}
    {session : Session Entry} (h : S.Reaches start history session)
    (hstart : S.WellFormed legacy [] start)
    (hopen : ∀ key found, legacy key = some found → S.closed found = false) :
    S.WellFormed legacy history session.files ∧
      ∀ i, S.Current legacy history session.files (session.handles i) := by
  induction h with
  | start => exact ⟨hstart, fun i => S.current_fresh legacy [] start⟩
  | read _ i entries handle hread ih =>
    obtain ⟨hfiles, hhandles⟩ := ih
    refine ⟨hfiles, fun j => ?_⟩
    obtain ⟨entries', handle', hlatest, -, hcurrent⟩ :=
      S.latestEntries_mirrors hfiles (hhandles i)
    obtain ⟨-, rfl⟩ := Prod.mk.inj (Option.some.inj (hread.symm.trans hlatest))
    by_cases hj : j = i
    · simpa [Session.read, hj] using hcurrent
    · simpa [Session.read, hj] using hhandles j
  | upsert _ i entry files handle hupsert ih =>
    obtain ⟨hfiles, hhandles⟩ := ih
    obtain ⟨files', handle', hdone, hwrites, hfiles', hcurrent⟩ :=
      S.upsert_wellFormed hfiles hopen (hhandles i) entry
    obtain ⟨rfl, rfl⟩ := Prod.mk.inj (Option.some.inj (hupsert.symm.trans hdone))
    refine ⟨hfiles', fun j => ?_⟩
    by_cases hj : j = i
    · simpa [Session.read, hj] using hcurrent
    · -- what another handle kept was read before the log was written
      intro entries' signature hcache
      obtain ⟨hold, -⟩ := hhandles j entries' signature (by simpa [Session.read, hj] using hcache)
      obtain ⟨_, -, hcount⟩ := Option.map_eq_some_iff.mp hwrites
      constructor
      · intro writes hwritten
        have hbound := hold writes hwritten
        show writes ≤ files.logWrites
        omega
      · intro hsignature
        have hnew := hold _ (by rw [hsignature]; exact hwrites)
        omega

/-- Every history can be recorded. -/
theorem exists_reaches {legacy : Key → Option Entry} {start : Files}
    (hstart : S.WellFormed legacy [] start)
    (hopen : ∀ key found, legacy key = some found → S.closed found = false)
    (history : List Entry) : ∃ session, S.Reaches start history session := by
  induction history using List.reverseRecOn with
  | nil => exact ⟨_, .start⟩
  | append_singleton history entry ih =>
    obtain ⟨session, hsession⟩ := ih
    obtain ⟨hfiles, hhandles⟩ := hsession.current S hstart hopen
    obtain ⟨files, handle, hupsert, -⟩ := S.upsert_wellFormed hfiles hopen (hhandles 0) entry
    exact ⟨_, hsession.upsert 0 entry files handle hupsert⟩

omit [DecidableEq Key] in
/-- Empty files stand for nothing. -/
theorem wellFormed_empty {start : Files} (hlog : start.log.getD [] = [])
    (hsnapshot : start.snapshot.getD [] = []) : S.WellFormed (fun _ => none) [] start := by
  refine ⟨hlog, [], hsnapshot, ?_⟩
  intro key _ found
  simp

section Order

variable {history entries : List Entry} {files : Files}

/-- The dictionary of a history alone: each key where the history first has it. -/
def recorded (history : List Entry) : List Entry :=
  history.foldl (fun entries entry => S.put entry entries) []

theorem nodup_recorded (history : List Entry) : ((S.recorded history).map S.key).Nodup :=
  S.nodup_foldl_put List.nodup_nil

theorem find_recorded (hexact : ∀ entry ∈ history, S.reread entry = entry) (key : Key) :
    S.find key (S.recorded history) = S.recordAll (fun _ => none) history key := by
  have hread : history.map S.reread = history := by
    simpa using List.map_congr_left (g := id) hexact
  rw [← foldl_assign_reread, hread]
  exact S.find_foldl_put key history []

/-- Records that mirror a history on top of no older map are those of its dictionary. -/
theorem Mirrors.mem_recorded (h : S.Mirrors (fun _ => none) history entries)
    (hexact : ∀ entry ∈ history, S.reread entry = entry) {x : Entry} :
    x ∈ entries ↔ x ∈ S.recorded history := by
  have hiff := S.find_eq_some_iff h.nodup x (S.key x)
  have hiff' := S.find_eq_some_iff (S.nodup_recorded history) x (S.key x)
  rw [h.find hexact, ← S.find_recorded hexact] at hiff
  exact (and_iff_left rfl).symm.trans (hiff.symm.trans (hiff'.trans (and_iff_left rfl)))

/-- Files are read in order: the open records of the snapshot, by key, and then the closed ones, each
where the log first has its key. -/
theorem load_order (hexact : ∀ entry ∈ history, S.reread entry = entry)
    (h : S.Mirrors (fun _ => none) history entries)
    (hlog : files.log.getD [] = S.lines history)
    (hsnapshot : files.snapshot.getD [] = S.lines (S.openEntries entries)) :
    S.load files = some (S.openEntries entries ++ (S.recorded history).filter S.closed) := by
  have hparse : S.parse (S.lines (S.openEntries entries)) =
      some ((S.openEntries entries).map S.reread) := S.parse_lines _
  have hparse' : S.parse (S.lines history) = some (history.map S.reread) := S.parse_lines _
  have hopen : ∀ x, x ∈ S.openEntries entries ↔ x ∈ S.recorded history ∧ S.closed x = false := by
    intro x
    rw [mem_openEntries, h.mem_recorded S hexact]
  have hadded : ∀ x ∈ S.recorded history, x ∈ history := by
    intro x hx
    exact (S.mem_foldl_put hx).resolve_left List.not_mem_nil
  have hread : (S.openEntries entries).map S.reread = S.openEntries entries := by
    simpa using List.map_congr_left (g := id)
      fun x hx => hexact x (hadded x ((hopen x).mp hx).1)
  have hread' : history.map S.reread = history := by
    simpa using List.map_congr_left (g := id) hexact
  have hnodup : ((S.openEntries entries).map S.key).Nodup := by
    have hperm : (S.openEntries entries).Perm (entries.filter fun entry => !S.closed entry) :=
      List.mergeSort_perm _ _
    rw [(hperm.map S.key).nodup_iff]
    exact h.nodup.sublist (List.filter_sublist.map S.key)
  unfold load
  rw [hlog, hsnapshot, hparse, hparse', hread, hread']
  show some _ = some _
  congr 1
  have hnone : (([] : List Entry).map S.key).Nodup := List.nodup_nil
  have hloaded : (((S.openEntries entries ++ history).foldl
      (fun entries entry => S.put entry entries) []).map S.key).Nodup :=
    S.nodup_foldl_put hnone
  apply eq_of_keys hloaded
  · -- after the keys of the snapshot come those of the log that it does not have
    have hkeys : (S.recorded history).map S.key = putKeys [] (history.map S.key) :=
      S.map_foldl_put history []
    rw [List.foldl_append, map_foldl_put, map_foldl_put, List.map_nil,
      putKeys_nil_of_nodup hnodup, putKeys_eq, ← hkeys, List.map_append, List.filter_map]
    congr 2
    apply List.filter_congr
    intro x hx
    have hiff : S.key x ∉ (S.openEntries entries).map S.key ↔ S.closed x = true := by
      constructor
      · intro hnot
        by_contra hclosed
        exact hnot (List.mem_map_of_mem ((hopen x).mpr ⟨hx, Bool.eq_false_iff.mpr hclosed⟩))
      · rintro hclosed hmem
        obtain ⟨y, hy, hkey⟩ := List.mem_map.mp hmem
        obtain ⟨hy, hyopen⟩ := (hopen y).mp hy
        obtain rfl := List.inj_on_of_nodup_map (S.nodup_recorded history) hy hx hkey
        rw [hclosed] at hyopen
        cases hyopen
    show decide (S.key x ∉ (S.openEntries entries).map S.key) = S.closed x
    rw [Bool.eq_iff_iff, decide_eq_true_eq]
    exact hiff
  · intro x hx
    have hmatches : S.Matches (fun _ => none) history (S.openEntries entries) :=
      h.older.openEntries S fun _ _ hfound => by cases hfound
    have hfind := S.find_loaded hmatches (S.key x)
    rw [hread, hread', ← S.find_recorded hexact] at hfind
    have hfound := (S.find_eq_some_iff hloaded x (S.key x)).mpr ⟨hx, rfl⟩
    rw [hfind] at hfound
    have hrecorded := List.mem_of_find?_eq_some hfound
    cases hclosed : S.closed x with
    | false => exact List.mem_append_left _ ((hopen x).mpr ⟨hrecorded, hclosed⟩)
    | true => exact List.mem_append_right _ (List.mem_filter.mpr ⟨hrecorded, hclosed⟩)

/-- In every session from empty files, the snapshot holds the open records of the history. -/
theorem Reaches.snapshot {start : Files} {session : Session Entry}
    (h : S.Reaches start history session) (hlog : start.log.getD [] = [])
    (hsnapshot : start.snapshot.getD [] = []) :
    session.files.log.getD [] = S.lines history ∧ ∃ entries,
      S.Mirrors (fun _ => none) history entries ∧
        session.files.snapshot.getD [] = S.lines (S.openEntries entries) := by
  have hnone : ∀ (key : Key) (found : Entry), (fun _ => none) key = some found →
      S.closed found = false := fun _ _ hfound => by cases hfound
  have hstart := S.wellFormed_empty hlog hsnapshot
  induction h with
  | start =>
    refine ⟨hlog, [], ⟨List.nodup_nil, ?_, ?_⟩, ?_⟩
    · intro key _ found
      simp
    · intro _ key
      rfl
    · have hnil : S.openEntries [] = [] := by simp [openEntries]
      rw [hsnapshot, hnil]
      rfl
  | read _ i entries handle hread ih => exact ih
  | upsert hreached i entry files handle hupsert ih =>
    obtain ⟨hfiles, hhandles⟩ := hreached.current S hstart hnone
    obtain ⟨entries, handle', hlatest, hmirrors, -⟩ := S.latestEntries_mirrors hfiles (hhandles i)
    unfold Schema.upsert at hupsert
    rw [hlatest] at hupsert
    obtain ⟨rfl, -⟩ := Prod.mk.inj (Option.some.inj hupsert)
    refine ⟨(hfiles.rewrite S hnone hmirrors entry).log, S.put entry entries,
      hmirrors.put S entry, rfl⟩

/-- So a handle just made reads the open records by key and then the closed ones as first recorded. -/
theorem Reaches.load_order {start : Files} {session : Session Entry}
    (h : S.Reaches start history session) (hlog : start.log.getD [] = [])
    (hsnapshot : start.snapshot.getD [] = [])
    (hexact : ∀ entry ∈ history, S.reread entry = entry) :
    ∃ entries, S.Mirrors (fun _ => none) history entries ∧ S.load session.files =
      some (S.openEntries entries ++ (S.recorded history).filter S.closed) := by
  obtain ⟨hfiles, entries, hmirrors, hentries⟩ := h.snapshot S hlog hsnapshot
  exact ⟨entries, hmirrors, S.load_order hexact hmirrors hfiles hentries⟩

end Order

end Schema

end Storage

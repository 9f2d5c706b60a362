import Poma.Models.LedgerFile

/-!
# The ledger files as a map

Whatever handles are used, one at a time, every query answers by the map from
ledger keys to the entries last recorded, as long as the strings come back as
they were written. An upsert that is cut off leaves files that can be read and
written on exactly when it left no part of a line behind.
-/

namespace Poma

open JsonText Storage

namespace LedgerFile

/-- The entries last upserted, on top of those of an older ledger. -/
def lastUpserted (legacy : Str → Option StoredEntry) (history : List StoredEntry) :
    Str → Option StoredEntry := fun key =>
  ((history.filter fun entry => entry.ledgerKey = key).getLast?).or (legacy key)

/-- The entries of a dictionary are those of a map. -/
def IsMap (entries : List StoredEntry) (m : Str → Option StoredEntry) : Prop :=
  (entries.map (·.ledgerKey)).Nodup ∧
    ∀ key, (entries.find? fun entry => entry.ledgerKey = key) = m key

/-- A run in which no two keys have the same ticker and side. -/
def OneKeyPerTrade (m : Str → Option StoredEntry) (runId : Str) : Prop :=
  ∀ x y, m x.ledgerKey = some x → m y.ledgerKey = some y → x.runId = runId → y.runId = runId →
    x.ticker = y.ticker → x.side = y.side → x.ledgerKey = y.ledgerKey

/-- Every query of a handle answers by one map, and every upsert is taken. -/
structure Answers (files : Files) (handle : Handle StoredEntry) (m : Str → Option StoredEntry) :
    Prop where
  loadLatestEntries : ∃ entries handle',
    loadLatestEntries files handle = some (entries, handle') ∧ IsMap entries m
  loadOpenOrders : ∃ entries handle',
    loadOpenOrders files handle = some (entries, handle') ∧
      IsMap entries fun key => (m key).filter fun entry => !entry.isTerminal
  get : ∀ key, ∃ handle',
    get key files handle = some ((m key).filter fun entry => !entry.isTerminal, handle')
  getLatestMany : ∀ keys, ∃ entries handle',
    getLatestMany keys files handle = some (entries, handle') ∧
      IsMap entries fun key => if key ∈ keys then m key else none
  getLatestRunTrades : ∀ runId, OneKeyPerTrade m runId → ∃ trades handle',
    getLatestRunTrades runId files handle = some (trades, handle') ∧
      ∀ ticker side found, trades ticker side = some found ↔
        m found.ledgerKey = some found ∧ found.runId = runId ∧ found.ticker = ticker ∧
          found.side = side
  upsert : ∀ entry, ∃ files' handle',
    StoredEntry.schema.upsert files handle entry = some (files', handle')

/-- The last of at most one is that one. -/
theorem getLast?_eq_some_iff_mem {α : Type} {l : List α} (hnodup : l.Nodup)
    (h : ∀ x ∈ l, ∀ y ∈ l, x = y) (x : α) : l.getLast? = some x ↔ x ∈ l := by
  match l, hnodup, h with
  | [], _, _ => simp
  | [a], _, _ => simp [eq_comm]
  | a :: b :: rest, hnodup, h =>
    have hsame : a = b := h a (by simp) b (by simp)
    rw [hsame, List.nodup_cons] at hnodup
    exact (hnodup.1 List.mem_cons_self).elim

/-- Entries without surrogate pairs are recorded as they are. -/
theorem recordAll_eq_lastUpserted {legacy : Str → Option StoredEntry} {history : List StoredEntry}
    (h : ∀ entry ∈ history, ∀ s ∈ entry.strings, PairFree s) :
    StoredEntry.schema.recordAll legacy history = lastUpserted legacy history := by
  induction history using List.reverseRecOn with
  | nil =>
    ext key
    simp [Schema.recordAll, lastUpserted]
  | append_singleton history entry ih =>
    have hentry : entry.reread = entry :=
      entry.reread_eq_self_iff.mpr (h entry (by simp))
    have hkey : joinPairs entry.ledgerKey = entry.ledgerKey :=
      congrArg StoredEntry.ledgerKey hentry
    have ih' := ih fun x hx => h x (List.mem_append_left _ hx)
    ext1 key
    have hrecord : StoredEntry.schema.recordAll legacy (history ++ [entry]) key =
        if joinPairs entry.ledgerKey = key then some entry.reread
        else StoredEntry.schema.recordAll legacy history key := by
      rw [Schema.recordAll_concat]
      rfl
    rw [hrecord, ih', hkey, hentry]
    unfold lastUpserted
    rw [List.filter_append]
    by_cases hsame : entry.ledgerKey = key <;> simp [hsame]

/-- The queries of a handle that reads a dictionary of a map answer by that map. -/
theorem answers_of_latestEntries {files : Files} {handle handle' : Handle StoredEntry}
    {entries : List StoredEntry} {m : Str → Option StoredEntry}
    (hread : StoredEntry.schema.latestEntries files handle = some (entries, handle'))
    (hnodup : (entries.map (·.ledgerKey)).Nodup)
    (hfind : ∀ key, (entries.find? fun entry => entry.ledgerKey = key) = m key) :
    Answers files handle m := by
  have hquery : ∀ {α : Type} (answer : List StoredEntry → α),
      query answer files handle = some (answer entries, handle') := by
    intro α answer
    unfold query
    rw [hread]
    rfl
  have hfilter : ∀ (p : StoredEntry → Bool) (key : Str),
      ((entries.filter p).find? fun entry => entry.ledgerKey = key) = (m key).filter p := by
    intro p key
    rw [← hfind key]
    exact StoredEntry.schema.find_filter hnodup p key
  have hsome : ∀ x, m x.ledgerKey = some x ↔ x ∈ entries := by
    intro x
    have hiff := StoredEntry.schema.find_eq_some_iff hnodup x x.ledgerKey
    rw [← hfind x.ledgerKey]
    exact hiff.trans (and_iff_left rfl)
  have hnodupFilter : ∀ p : StoredEntry → Bool,
      ((entries.filter p).map (·.ledgerKey)).Nodup := fun p =>
    hnodup.sublist (List.filter_sublist.map _)
  constructor
  · exact ⟨entries, handle', hquery id, hnodup, hfind⟩
  · exact ⟨_, handle', hquery _, hnodupFilter _, hfilter _⟩
  · intro key
    refine ⟨handle', (hquery _).trans ?_⟩
    rw [hfilter]
  · intro keys
    unfold getLatestMany
    by_cases hkeys : keys = []
    · rw [if_pos hkeys, hkeys]
      exact ⟨[], handle, rfl, List.nodup_nil, fun key => by simp⟩
    · rw [if_neg hkeys]
      refine ⟨_, handle', hquery _, hnodupFilter _, fun key => ?_⟩
      rw [hfilter]
      cases hm : m key with
      | none => simp [hm]
      | some found =>
        have hkey : found.ledgerKey = key := by
          rw [← hfind] at hm
          simpa using List.find?_some hm
        by_cases hmem : key ∈ keys <;> simp [Option.filter, hm, hkey, hmem]
  · intro runId hone
    refine ⟨_, handle', hquery _, fun ticker side found => ?_⟩
    have hsingle : ∀ x ∈ entries.filter fun entry =>
        entry.runId = runId ∧ entry.ticker = ticker ∧ entry.side = side,
        ∀ y ∈ entries.filter fun entry =>
          entry.runId = runId ∧ entry.ticker = ticker ∧ entry.side = side, x = y := by
      intro x hx y hy
      simp only [List.mem_filter, decide_eq_true_eq] at hx hy
      obtain ⟨hx, hxrun, hxticker, hxside⟩ := hx
      obtain ⟨hy, hyrun, hyticker, hyside⟩ := hy
      have hxm := (hsome x).mpr hx
      have hym := (hsome y).mpr hy
      have hkey := hone x y hxm hym hxrun hyrun (hxticker.trans hyticker.symm)
        (hxside.trans hyside.symm)
      rw [hkey, hym] at hxm
      exact (Option.some.inj hxm).symm
    have hdistinct : (entries.filter fun entry =>
        entry.runId = runId ∧ entry.ticker = ticker ∧ entry.side = side).Nodup :=
      (List.Nodup.of_map _ hnodup).filter _
    rw [getLast?_eq_some_iff_mem hdistinct hsingle, List.mem_filter, hsome]
    simp
  · intro entry
    unfold Schema.upsert
    rw [hread]
    exact ⟨_, _, rfl⟩

/-- A state directory without ledger files. -/
def emptyDirectory : Files := ⟨none, none, 0, 0, []⟩

/-- A buy just planned, with a terminal reason to be chosen. -/
def plannedBuy (terminalReason : Str) : StoredEntry where
  ledgerKey := str "run:AAPL:buy:1"
  orderRef := str "poma:run:AAPL:buy:1"
  runId := str "run"
  sessionDate := str "2026-01-05"
  ticker := str "AAPL"
  side := .buy
  quantity := .int 2
  limitPrice := none
  terminalReason := some terminalReason

theorem wellFormed_emptyDirectory :
    StoredEntry.schema.WellFormed (fun _ => none) [] emptyDirectory where
  log := rfl
  snapshot := ⟨[], rfl, fun key _ found => by simp⟩

/-- One upsert through the first handle of an empty directory, with the second one left fresh. -/
theorem exists_reaches_single (entry : StoredEntry) : ∃ session,
    StoredEntry.schema.Reaches emptyDirectory [entry] session ∧
      StoredEntry.schema.WellFormed (fun _ => none) [entry] session.files ∧
      session.handles 1 = .fresh := by
  have hopen : ∀ (key : Str) (found : StoredEntry), (fun _ : Str => none) key = some found →
      StoredEntry.schema.closed found = false := by
    intro key found h
    cases h
  obtain ⟨files, handle, hupsert, -, hfiles, -⟩ :=
    StoredEntry.schema.upsert_wellFormed wellFormed_emptyDirectory hopen
      (StoredEntry.schema.current_fresh _ _ _) entry
  have hstart : StoredEntry.schema.Reaches emptyDirectory [] ⟨emptyDirectory, fun _ => .fresh⟩ :=
    .start
  exact ⟨_, hstart.upsert 0 entry files handle hupsert, hfiles, rfl⟩

section

variable {legacy : Str → Option StoredEntry} {start : Files} {history : List StoredEntry}
  {session : Schema.Session StoredEntry}

/-- In every session, through every handle, every query answers by the map of what was last
upserted, when no string that was upserted holds a surrogate pair. -/
theorem answers_lastUpserted (h : StoredEntry.schema.Reaches start history session)
    (hstart : StoredEntry.schema.WellFormed legacy [] start)
    (hopen : ∀ key found, legacy key = some found → found.isTerminal = false)
    (hstrings : ∀ entry ∈ history, ∀ s ∈ entry.strings, PairFree s) (i : Nat) :
    Answers session.files (session.handles i) (lastUpserted legacy history) := by
  obtain ⟨hfiles, hhandles⟩ := h.current StoredEntry.schema hstart hopen
  obtain ⟨entries, handle', hread, hmirrors, -⟩ :=
    StoredEntry.schema.latestEntries_mirrors hfiles (hhandles i)
  have hexact : ∀ entry ∈ history, StoredEntry.schema.reread entry = entry := by
    intro entry hentry
    exact entry.reread_eq_self_iff.mpr (hstrings entry hentry)
  apply answers_of_latestEntries hread hmirrors.nodup
  intro key
  rw [← recordAll_eq_lastUpserted hstrings]
  exact hmirrors.find hexact key

/-- A reason with a quote, a newline, a line separator and half a surrogate pair comes back. -/
theorem answers_lastUpserted_odd_reason : ∃ session,
    StoredEntry.schema.Reaches emptyDirectory
        [plannedBuy [0x22, 0x0A, 0x2028, 0xD83D, 0x41]] session ∧
      Answers session.files (session.handles 1)
        (lastUpserted (fun _ => none) [plannedBuy [0x22, 0x0A, 0x2028, 0xD83D, 0x41]]) := by
  obtain ⟨session, hreaches, -, -⟩ :=
    exists_reaches_single (plannedBuy [0x22, 0x0A, 0x2028, 0xD83D, 0x41])
  refine ⟨session, hreaches, answers_lastUpserted hreaches wellFormed_emptyDirectory
    (fun _ _ h => by cases h) ?_ 1⟩
  intro entry hentry
  obtain rfl := List.mem_singleton.mp hentry
  apply (StoredEntry.reread_eq_self_iff _).mp
  decide +kernel

/-- A reason that is a surrogate pair comes back as one character. -/
theorem not_answers_surrogate_pair : ∃ session,
    StoredEntry.schema.Reaches emptyDirectory [plannedBuy [0xD83D, 0xDE00]] session ∧
      ¬Answers session.files (session.handles 1)
        (lastUpserted (fun _ => none) [plannedBuy [0xD83D, 0xDE00]]) := by
  obtain ⟨session, hreaches, hfiles, hfresh⟩ := exists_reaches_single (plannedBuy [0xD83D, 0xDE00])
  refine ⟨session, hreaches, fun hanswers => ?_⟩
  obtain ⟨entries, handle, hread, -, hmap⟩ := hanswers.loadLatestEntries
  obtain ⟨loaded, hload, -, hfind⟩ := StoredEntry.schema.load_wellFormed hfiles
  have hlatest : StoredEntry.schema.latestEntries session.files (session.handles 1) =
      some (loaded, ⟨some (loaded, session.files.signature)⟩) := by
    rw [hfresh]
    show (StoredEntry.schema.load session.files).map _ = _
    rw [hload]
    rfl
  unfold LedgerFile.loadLatestEntries query at hread
  rw [hlatest] at hread
  obtain ⟨rfl, -⟩ := Prod.mk.inj (Option.some.inj hread)
  have hkey := (hfind (str "run:AAPL:buy:1")).symm.trans (hmap (str "run:AAPL:buy:1"))
  revert hkey
  decide +kernel

/-- An upsert cut off at a point is survived exactly when it left no part of a line behind. -/
theorem upsert_survives_iff (h : StoredEntry.schema.Reaches start history session)
    (hstart : StoredEntry.schema.WellFormed legacy [] start)
    (hopen : ∀ key found, legacy key = some found → found.isTerminal = false) (i : Nat)
    {entries : List StoredEntry} {handle : Handle StoredEntry}
    (hread : StoredEntry.schema.latestEntries session.files (session.handles i) =
      some (entries, handle)) (entry : StoredEntry) (point : CrashPoint) :
    StoredEntry.schema.Survives (StoredEntry.schema.recordAll legacy history)
        (StoredEntry.schema.recordAll legacy (history ++ [entry]))
        (StoredEntry.schema.crashFiles session.files entries entry point) ↔
      StoredEntry.schema.CleanPoint entry point := by
  obtain ⟨hfiles, hhandles⟩ := h.current StoredEntry.schema hstart hopen
  obtain ⟨entries', handle', hread', hmirrors, -⟩ :=
    StoredEntry.schema.latestEntries_mirrors hfiles (hhandles i)
  obtain ⟨rfl, -⟩ := Prod.mk.inj (Option.some.inj (hread.symm.trans hread'))
  exact StoredEntry.schema.survives_iff hfiles hopen hmirrors entry point

/-- A first upsert cut off after its append and before its snapshot is survived. -/
theorem upsert_survives_iff_appended :
    StoredEntry.schema.Survives (StoredEntry.schema.recordAll (fun _ => none) [])
      (StoredEntry.schema.recordAll (fun _ => none) ([] ++ [plannedBuy []]))
      (StoredEntry.schema.crashFiles emptyDirectory [] (plannedBuy []) (.rewriting 0)) :=
  have hread : StoredEntry.schema.latestEntries emptyDirectory .fresh =
      some ([], ⟨some ([], emptyDirectory.signature)⟩) := rfl
  (upsert_survives_iff .start wellFormed_emptyDirectory (fun _ _ h => by cases h) 0 hread
    (plannedBuy []) (.rewriting 0)).mpr trivial

/-- A first upsert of which one character was written is not survived. -/
theorem not_survives_torn :
    StoredEntry.schema.Reaches emptyDirectory [] ⟨emptyDirectory, fun _ => .fresh⟩ ∧
      ¬StoredEntry.schema.Survives (StoredEntry.schema.recordAll (fun _ => none) [])
        (StoredEntry.schema.recordAll (fun _ => none) ([] ++ [plannedBuy []]))
        (StoredEntry.schema.crashFiles emptyDirectory [] (plannedBuy []) (.appending 1)) := by
  have hmirrors : StoredEntry.schema.Mirrors (fun _ => none) [] [] :=
    ⟨List.nodup_nil, fun key _ found => by simp, fun _ key => rfl⟩
  have hiff := StoredEntry.schema.survives_iff wellFormed_emptyDirectory
    (fun _ _ h => by cases h) hmirrors (plannedBuy []) (.appending 1)
  refine ⟨.start, fun hsurvives => ?_⟩
  obtain ⟨c, rest, hencode, -⟩ := StoredEntry.schema.token (plannedBuy [])
  rcases hiff.mp hsurvives with h | h
  · cases h
  · rw [hencode] at h
    simp at h

end

end LedgerFile

end Poma

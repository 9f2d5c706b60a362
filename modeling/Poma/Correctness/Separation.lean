import Poma.Correctness.FollowUp
import Poma.Correctness.Independence
import Poma.Correctness.Naming
import Poma.Interaction.Loops

/-!
# Rows are handled one by one

A pass is its beginning and then a turn for each open row. What the turns are
given is read off the beginning: the open rows, the two lists, the rows that were
just rediscovered and the clock reading. A turn answers for its own row, whatever
becomes of the turns of the others.
-/

namespace Poma

open Interaction

/-- What the turns of a pass are given. -/
structure PassStart where
  entries : List OrderLedgerEntry
  openSnapshots : List OpenOrderSnapshot
  /-- What the history query was answered, where it was made. -/
  answered : Option (Except Exn (List OpenOrderSnapshot))
  recovered : List OrderLedgerEntry
  now : ℚ
  deriving DecidableEq

namespace PassStart

/-- A pass without turns. -/
def idle : PassStart := ⟨[], [], none, [], 0⟩

/-- The open rows that no open order is matched to. -/
def unmatched (entries : List OrderLedgerEntry) (openSnapshots : List OpenOrderSnapshot) :
    List OrderLedgerEntry :=
  entries.filter fun entry => (matchSnapshot entry openSnapshots).isNone

/-- The completed orders the turns work with, or the exception of the query. -/
def history (start : PassStart) : Except Exn (List OpenOrderSnapshot) :=
  match start.answered with
  | none => .ok []
  | some (.error e) => .error e
  | some (.ok completed) =>
    let wanted := (unmatched start.entries start.openSnapshots).flatMap (·.refs)
    .ok (completed.filter fun snapshot =>
      match snapshot.orderRef with
      | some ref => ref ≠ "" && wanted.any (startsWith ref ·)
      | none => false)

/-- A snapshot of the two lists that a row is matched to. -/
def Matches (start : PassStart) (entry : OrderLedgerEntry) (snapshot : OpenOrderSnapshot) : Prop :=
  ∃ replaced, sighting entry start.openSnapshots (start.history.toOption.getD []) =
    some (snapshot, replaced)

end PassStart

namespace ExecutionManager

variable (self : ExecutionManager)

/-- The history query of a pass, made where a row is not matched. -/
def askHistory (entries : List OrderLedgerEntry) (openSnapshots : List OpenOrderSnapshot) :
    M (Option (Except Exn (List OpenOrderSnapshot))) :=
  if PassStart.unmatched entries openSnapshots = [] then .ret none
  else (self.completedHistory (PassStart.unmatched entries openSnapshots)).attempt.bind
    fun answer => .ret (some answer)

/-- The beginning of a pass after the restore scan. -/
def startTurns (openSnapshots : List OpenOrderSnapshot) (recovered : List OrderLedgerEntry) :
    M PassStart :=
  loadLatest.bind fun store =>
  if store.loadOpenOrders = [] then .ret .idle
  else (self.askHistory store.loadOpenOrders openSnapshots).bind fun answered =>
    utcNow.bind fun now =>
    .ret ⟨store.loadOpenOrders, openSnapshots, answered, recovered, now⟩

/-- The beginning of a pass: the open-order query, the restore scan, the history query. -/
def startPass : M PassStart :=
  loadLatest.bind fun store =>
  if store.loadOpenOrders = [] ∧ self.broker.isIbkr = false then .ret .idle
  else self.broker.fetchOpenOrderSnapshots.bind fun snapshots =>
    (if self.broker.isIbkr then restoreUntrackedBrokerOrders (referenced snapshots)
      else .ret []).bind (self.startTurns (referenced snapshots))

/-- The turn of a row in a pass that began so. -/
def turn (start : PassStart) : OrderLedgerEntry → M ReconcileUpdate :=
  self.handleEntry start.openSnapshots start.history start.recovered start.now

/-- The turns of a pass. -/
def takeTurns (start : PassStart) : M ReconcileSummary :=
  (Prog.collect (self.turn start) start.entries).bind fun updates =>
  .ret ⟨start.entries.length, updates⟩

theorem completedSnapshots_eq (entries : List OrderLedgerEntry)
    (openSnapshots : List OpenOrderSnapshot) (recovered : List OrderLedgerEntry) (now : ℚ) :
    self.completedSnapshots entries openSnapshots =
      (self.askHistory entries openSnapshots).bind fun answered =>
        .ret (PassStart.history ⟨entries, openSnapshots, answered, recovered, now⟩) := by
  unfold completedSnapshots askHistory
  change (if PassStart.unmatched entries openSnapshots = [] then _ else _) = _
  by_cases hnone : PassStart.unmatched entries openSnapshots = []
  · rw [if_pos hnone, if_pos hnone]
    rfl
  · rw [if_neg hnone, if_neg hnone, Prog.bind_assoc]
    refine congrArg (Prog.bind _) (funext fun answer => ?_)
    cases answer <;> rfl

theorem reconcileEntries_eq (openSnapshots : List OpenOrderSnapshot)
    (recovered : List OrderLedgerEntry) : self.reconcileEntries openSnapshots recovered =
      (self.startTurns openSnapshots recovered).bind self.takeTurns := by
  unfold reconcileEntries startTurns
  rw [Prog.bind_assoc]
  refine congrArg (Prog.bind _) (funext fun (store : OrderStore) => ?_)
  by_cases hnone : store.loadOpenOrders = []
  · rw [if_pos hnone]
    simp only [if_pos hnone]
    rfl
  · rw [if_neg hnone]
    simp only [if_neg hnone]
    rw [Prog.bind_assoc, self.completedSnapshots_eq store.loadOpenOrders openSnapshots recovered 0,
      Prog.bind_assoc]
    refine congrArg (Prog.bind _) (funext fun answered => ?_)
    rw [Prog.ret_bind, Prog.bind_assoc]
    rfl

/-- A pass is its beginning and its turns. -/
theorem reconcile_eq : self.reconcile = self.startPass.bind self.takeTurns := by
  unfold reconcile startPass
  rw [Prog.bind_assoc]
  refine congrArg (Prog.bind _) (funext fun (store : OrderStore) => ?_)
  by_cases hidle : store.loadOpenOrders = [] ∧ self.broker.isIbkr = false
  · rw [if_pos hidle, if_pos hidle]
    rfl
  · rw [if_neg hidle, if_neg hidle, Prog.bind_assoc]
    refine congrArg (Prog.bind _) (funext fun snapshots => ?_)
    rw [reconcileOpenOrders_eq, Prog.bind_assoc]
    exact congrArg (Prog.bind _) (funext fun recovered => reconcileEntries_eq self _ recovered)

end ExecutionManager

/-- What the turns are given, read off the ledger they meet. -/
structure PassStart.ReadOff (start : PassStart) (store : OrderStore) : Prop where
  entries : start.entries = store.loadOpenOrders
  asked : PassStart.unmatched start.entries start.openSnapshots ≠ [] → start.answered.isSome

section Beginning

variable {W : Type} (E : Environment W) {manager : ExecutionManager}

theorem wp_askHistory (hB : manager.broker.Within Op.KeepsLedger) (entries : List OrderLedgerEntry)
    (openSnapshots : List OpenOrderSnapshot) (τ : List (Event sig)) (s : World W) :
    E.system.wp (manager.askHistory entries openSnapshots) (fun out _ s' => s'.ledger = s.ledger ∧
      ∀ answered, out = .returned answered →
        PassStart.unmatched entries openSnapshots ≠ [] → answered.isSome) τ s := by
  unfold ExecutionManager.askHistory
  by_cases hnone : PassStart.unmatched entries openSnapshots = []
  · rw [if_pos hnone]
    exact ⟨rfl, fun _ _ hne => absurd hnone hne⟩
  · rw [if_neg hnone, System.wp_bind, System.wp_attempt]
    have hquery : (manager.completedHistory (PassStart.unmatched entries openSnapshots)).Uses
        (S := sig) Op.KeepsLedger := completedHistory_uses hB.completed hB.ibkrCompleted _
    refine E.system.wp_mono (wp_keepsLedger E hquery τ s) fun out τ' s' hs' => ?_
    cases out with
    | stopped => exact ⟨hs', nofun⟩
    | raised e => exact ⟨hs', fun answered h _ => Outcome.returned.inj h ▸ rfl⟩
    | returned completed => exact ⟨hs', fun answered h _ => Outcome.returned.inj h ▸ rfl⟩

theorem PassStart.readOff_idle {store : OrderStore} (h : store.loadOpenOrders = []) :
    PassStart.idle.ReadOff store where
  entries := h.symm
  asked hne := absurd rfl hne

theorem wp_startTurns (hB : manager.broker.Within Op.KeepsLedger)
    (openSnapshots : List OpenOrderSnapshot) (recovered : List OrderLedgerEntry)
    (τ : List (Event sig)) (s : World W) :
    E.system.wp (manager.startTurns openSnapshots recovered) (fun out _ s' =>
      ∀ start, out = .returned start → start.ReadOff s'.ledger) τ s := by
  unfold ExecutionManager.startTurns
  rw [System.wp_bind, wp_loadLatest]
  refine ⟨nofun, fun _ => ?_⟩
  rw [System.seq_returned]
  by_cases hnone : s.ledger.loadOpenOrders = []
  · rw [if_pos hnone]
    intro start hstart
    obtain rfl := Outcome.returned.inj hstart
    exact PassStart.readOff_idle hnone
  · rw [if_neg hnone]
    refine E.system.wp_seq (wp_askHistory E hB _ openSnapshots _ s) ?_ (fun _ _ _ _ => nofun)
      fun _ _ _ => nofun
    rintro answered τ₁ s₁ ⟨hs₁, hasked⟩
    rw [System.wp_bind, wp_utcNow]
    refine ⟨nofun, fun c => ?_⟩
    intro start hstart
    obtain rfl := Outcome.returned.inj hstart
    exact ⟨congrArg OrderStore.loadOpenOrders hs₁.symm, hasked _ rfl⟩

theorem wp_startPass (hB : manager.broker.Within Op.KeepsLedger) (τ : List (Event sig))
    (s : World W) :
    E.system.wp manager.startPass (fun out _ s' =>
      ∀ start, out = .returned start → start.ReadOff s'.ledger) τ s := by
  unfold ExecutionManager.startPass
  rw [System.wp_bind, wp_loadLatest]
  refine ⟨nofun, fun _ => ?_⟩
  rw [System.seq_returned]
  by_cases hidle : s.ledger.loadOpenOrders = [] ∧ manager.broker.isIbkr = false
  · rw [if_pos hidle]
    intro start hstart
    obtain rfl := Outcome.returned.inj hstart
    exact PassStart.readOff_idle hidle.1
  · rw [if_neg hidle]
    refine E.system.wp_seq (E.system.wp_true _ _ s) ?_ (fun _ _ _ _ => nofun) fun _ _ _ => nofun
    intro snapshots τ₁ s₁ _
    refine E.system.wp_seq (E.system.wp_true _ _ s₁) ?_ (fun _ _ _ _ => nofun) fun _ _ _ => nofun
    exact fun recovered τ₂ s₂ _ => wp_startTurns E hB _ recovered τ₂ s₂

end Beginning

/-- A row whose run and ticker hold no colon. -/
def OrderLedgerEntry.Plain (row : OrderLedgerEntry) : Prop :=
  ColonFree row.runId ∧ ColonFree row.ticker

section Matching

variable {entry : OrderLedgerEntry} {snapshot : OpenOrderSnapshot}

/-- The order a row is matched to goes under a reference that its key begins. -/
theorem matchSnapshot_starts (hw : entry.WellReferenced) {snapshots : List OpenOrderSnapshot}
    {replaced : Bool} (h : matchSnapshot entry snapshots = some (snapshot, replaced)) :
    entry.ledgerKey.toList <+: (snapshot.orderRef.getD "").toList := by
  have hr1 : entry.ledgerKey.toList <+: (entry.ledgerKey ++ ":r1").toList := by
    rw [String.toList_append]
    exact List.prefix_append _ _
  cases replaced with
  | true =>
    obtain ⟨ref, href, _, hsnapshot⟩ := matchSnapshot_true h
    rw [hsnapshot, Option.getD_some, (hw.of_reserved href).2]
    exact hr1
  | false =>
    rcases (matchSnapshot_false h).2 with hown | ⟨hfamily, _⟩
    · rw [hown, Option.getD_some]
      rcases hw.own with hkey | ⟨hreplaced, _⟩
      · rw [hkey]
      · rw [hreplaced]
        exact hr1
    · unfold OrderLedgerEntry.matchesFamily at hfamily
      simp only [Bool.and_eq_true] at hfamily
      exact List.isPrefixOf_iff_prefix.mp hfamily.1.1

theorem PassStart.Matches.key_starts {start : PassStart} (h : start.Matches entry snapshot)
    (hw : entry.WellReferenced) :
    entry.ledgerKey.toList <+: (snapshot.orderRef.getD "").toList := by
  obtain ⟨replaced, hsight⟩ := h
  unfold sighting at hsight
  cases hopen : matchSnapshot entry start.openSnapshots with
  | some found =>
    rw [hopen] at hsight
    obtain rfl : found = (snapshot, replaced) := Option.some.inj hsight
    exact matchSnapshot_starts hw hopen
  | none =>
    rw [hopen] at hsight
    exact matchSnapshot_starts hw hsight

/-- Rows that are matched to one order are of one family. -/
theorem PassStart.Matches.family {start : PassStart} {other : OrderLedgerEntry}
    (h : start.Matches entry snapshot) (hother : start.Matches other snapshot)
    (hrow : entry.Produced ∧ entry.Named) (hrow' : other.Produced ∧ other.Named)
    (hplain : entry.Plain) (hplain' : other.Plain) :
    stripReplacementSuffix entry.ledgerKey = stripReplacementSuffix other.ledgerKey :=
  hrow.2.family hrow'.2 hplain hplain' (h.key_starts hrow.1.references)
    (hother.key_starts hrow'.1.references)

end Matching

/-- Histories that show a row the same, or were not to be had for the same reason. -/
def SameView (entry : OrderLedgerEntry) :
    Except Exn (List OpenOrderSnapshot) → Except Exn (List OpenOrderSnapshot) → Prop
  | .ok completed, .ok completed' => matchSnapshot entry completed = matchSnapshot entry completed'
  | .error e, .error e' => e = e'
  | _, _ => False

section Given

variable {manager : ExecutionManager} {entry : OrderLedgerEntry}
  {openSnapshots : List OpenOrderSnapshot}

/-- The turn of a row reads of the completed orders what they show of the row. -/
theorem reconcileEntry_congr {completed completed' : List OpenOrderSnapshot} (now : ℚ)
    (h : matchSnapshot entry openSnapshots = none →
      matchSnapshot entry completed = matchSnapshot entry completed') :
    manager.reconcileEntry entry openSnapshots completed now =
      manager.reconcileEntry entry openSnapshots completed' now := by
  unfold ExecutionManager.reconcileEntry
  cases hopen : matchSnapshot entry openSnapshots with
  | some found =>
    obtain ⟨snapshot, replaced⟩ := found
    cases replaced <;> rfl
  | none => rw [h hopen]

/-- Turns that are given the same of a row are the same. -/
theorem handleEntry_congr {history history' : Except Exn (List OpenOrderSnapshot)}
    {recovered recovered' : List OrderLedgerEntry} (now : ℚ)
    (hview : matchSnapshot entry openSnapshots = none → SameView entry history history')
    (hrecovered : entry.ledgerKey ∈ recovered.map (·.ledgerKey) ↔
      entry.ledgerKey ∈ recovered'.map (·.ledgerKey)) :
    manager.handleEntry openSnapshots history recovered now entry =
      manager.handleEntry openSnapshots history' recovered' now entry := by
  have hsame : ∀ completed completed' : List OpenOrderSnapshot,
      (matchSnapshot entry openSnapshots = none →
        matchSnapshot entry completed = matchSnapshot entry completed') →
      manager.reconcileEntry entry openSnapshots completed now =
        manager.reconcileEntry entry openSnapshots completed' now :=
    fun _ _ h => reconcileEntry_congr now h
  unfold ExecutionManager.handleEntry
  cases hopen : matchSnapshot entry openSnapshots with
  | some found =>
    have hreconcile := hsame (history.toOption.getD []) (history'.toOption.getD [])
      fun hnone => absurd (hopen.symm.trans hnone) (Option.some_ne_none found)
    cases history <;> cases history' <;> simp only [hreconcile, hrecovered]
  | none =>
    have hshown := hview hopen
    cases history with
    | error e =>
      cases history' with
      | error e' =>
        obtain rfl : e = e' := hshown
        rfl
      | ok completed' => exact hshown.elim
    | ok completed =>
      cases history' with
      | error e' => exact hshown.elim
      | ok completed' =>
        have hreconcile := hsame completed completed' fun _ => hshown
        simp only [Except.toOption, Option.getD_some, hreconcile, hrecovered]

/-- The answered history shows a row what it shows any row, whatever else was looked for. -/
theorem PassStart.sameView {start start' : PassStart} {store store' : OrderStore}
    (h : start.ReadOff store) (h' : start'.ReadOff store') (hmem : entry ∈ start.entries)
    (hmem' : entry ∈ start'.entries) (hlists : start.openSnapshots = start'.openSnapshots)
    (hanswered : ∀ answer answer', start.answered = some answer → start'.answered = some answer' →
      answer = answer')
    (hopen : matchSnapshot entry start.openSnapshots = none) :
    SameView entry start.history start'.history := by
  have hopen' : matchSnapshot entry start'.openSnapshots = none := hlists ▸ hopen
  have hunmatched : entry ∈ unmatched start.entries start.openSnapshots := by
    rw [unmatched, List.mem_filter, hopen]
    exact ⟨hmem, rfl⟩
  have hunmatched' : entry ∈ unmatched start'.entries start'.openSnapshots := by
    rw [unmatched, List.mem_filter, hopen']
    exact ⟨hmem', rfl⟩
  obtain ⟨answer, hanswer⟩ := Option.isSome_iff_exists.mp
    (h.asked (List.ne_nil_of_mem hunmatched))
  obtain ⟨answer', hanswer'⟩ := Option.isSome_iff_exists.mp
    (h'.asked (List.ne_nil_of_mem hunmatched'))
  obtain rfl := hanswered answer answer' hanswer hanswer'
  unfold history
  rw [hanswer, hanswer']
  cases answer with
  | error e => exact rfl
  | ok completed =>
    have hwanted : matchSnapshot entry start.openSnapshots = none → ∀ r ∈ entry.refs,
        r ∈ (unmatched start.entries start.openSnapshots).flatMap (·.refs) :=
      fun _ r hr => List.mem_flatMap.mpr ⟨entry, hunmatched, hr⟩
    have hwanted' : matchSnapshot entry start'.openSnapshots = none → ∀ r ∈ entry.refs,
        r ∈ (unmatched start'.entries start'.openSnapshots).flatMap (·.refs) :=
      fun _ r hr => List.mem_flatMap.mpr ⟨entry, hunmatched', hr⟩
    obtain ⟨_, ⟨⟩, hmatch⟩ : SameMatch entry completed start.openSnapshots _ :=
      sameMatch_filter hwanted
    obtain ⟨_, ⟨⟩, hmatch'⟩ : SameMatch entry completed start'.openSnapshots _ :=
      sameMatch_filter hwanted'
    exact (hmatch hopen).trans (hmatch' hopen').symm

end Given

/-- Broker calls at one place of two traces are answered the same. -/
def AnsweredAlike (τ τ' : List (Event sig)) : Prop :=
  ∀ (i : Nat) (call : BrokerCall) (r r' : Except Exn call.Ans),
    τ[i]? = some ⟨.broker call, r⟩ → τ'[i]? = some ⟨.broker call, r'⟩ → r = r'

theorem AnsweredAlike.tail {event event' : Event sig} {τ τ' : List (Event sig)}
    (h : AnsweredAlike (event :: τ) (event' :: τ')) : AnsweredAlike τ τ' :=
  fun i call r r' hr hr' => h (i + 1) call r r' hr hr'

/-- Records of a row that agree leave ledgers that agree on a key. -/
theorem SameLatest.upsert {key : String} {store store' : OrderStore} {x y : OrderLedgerEntry}
    (h : SameLatest (store.latest key) (store'.latest key)) (hrow : SameRow x y) :
    SameLatest ((store.upsert x).latest key) ((store'.upsert y).latest key) := by
  obtain ⟨time, rfl⟩ := hrow.exists_time
  have hkey : x.ledgerKey = (x.statusAt time).ledgerKey := rfl
  rw [OrderStore.latest_upsert, OrderStore.latest_upsert, hkey]
  by_cases hown : (x.statusAt time).ledgerKey = key
  · rw [if_pos hown, if_pos hown]
    exact congrArg some hrow
  · rw [if_neg hown, if_neg hown]
    exact h

/-- Two runs of a turn whose broker calls are answered the same leave the same update and row. -/
theorem run_turn_alike {key : String} {p : M ReconcileUpdate}
    (h : p.Alike (turnCoupling key) SameUpdate p) {cs cs' : List openWorld.Choice}
    {s s' : World Unit} (hlatest : SameLatest (s.ledger.latest key) (s'.ledger.latest key))
    (hanswers : AnsweredAlike (openWorld.run p cs s).trace (openWorld.run p cs' s').trace)
    {u v : ReconcileUpdate} (hu : (openWorld.run p cs s).outcome = .returned u)
    (hv : (openWorld.run p cs' s').outcome = .returned v) :
    SameUpdate u v ∧ SameLatest ((openWorld.run p cs s).state.ledger.latest key)
      ((openWorld.run p cs' s').state.ledger.latest key) := by
  have hrun := System.run_alike (P := AnsweredAlike)
    (I := fun (s s' : World Unit) =>
      SameLatest (s.ledger.latest key) (s'.ledger.latest key)) ?_ h cs cs' hlatest hanswers
  · rw [hu, hv] at hrun
    exact ⟨hrun.1, hrun.2 nofun nofun⟩
  intro o o' c c' s s' τ τ' hop hI hP
  cases o with
  | loadLatestEntries =>
    cases o' with
    | loadLatestEntries => exact ⟨hI, hI, hP.tail⟩
    | _ => exact hop.elim
  | utcNow =>
    cases o' with
    | utcNow => exact ⟨trivial, hI, hP.tail⟩
    | _ => exact hop.elim
  | upsert x =>
    cases o' with
    | upsert y => exact ⟨trivial, hI.upsert hop.1, hP.tail⟩
    | _ => exact hop.elim
  | broker call =>
    cases o' with
    | broker call' =>
      obtain rfl : call = call' := hop
      have hanswer := hP 0 call _ _ rfl rfl
      refine ⟨?_, hI, hP.tail⟩
      rw [← hanswer]
      cases (openWorld.act c s (.broker call)).1 with
      | ok a => exact HEq.rfl
      | error e => rfl
    | _ => exact hop.elim
  | _ => exact hop.elim

/-- A pass on a reached ledger whose open-order query and restore scan succeeded. -/
structure BegunPass (manager : ExecutionManager) where
  store : OrderStore
  reached : Reached store
  choices : List openWorld.Choice
  start : PassStart
  begun : (openWorld.run manager.startPass choices (World.of store)).outcome = .returned start

namespace BegunPass

variable {manager : ExecutionManager}

/-- The beginning of the pass. -/
def beginning (p : BegunPass manager) : Run sig (World Unit) PassStart :=
  openWorld.run manager.startPass p.choices (World.of p.store)

/-- The whole pass. -/
def run (p : BegunPass manager) : Run sig (World Unit) ReconcileSummary :=
  openWorld.run manager.reconcile p.choices (World.of p.store)

/-- What the environment decides in the turns. -/
def rest (p : BegunPass manager) : List openWorld.Choice :=
  p.choices.drop p.beginning.trace.length

/-- The turns of the pass. -/
def turns (p : BegunPass manager) : List (Run sig (World Unit) ReconcileUpdate) :=
  openWorld.turns (manager.turn p.start) p.start.entries p.rest p.beginning.state

/-- The row has this turn in the pass, and this update in its summary. -/
def Makes (p : BegunPass manager) (summary : ReconcileSummary) (entry : OrderLedgerEntry)
    (turn : Run sig (World Unit) ReconcileUpdate) (update : ReconcileUpdate) : Prop :=
  ∃ i : Nat, p.start.entries[i]? = some entry ∧ p.turns[i]? = some turn ∧
    summary.updates[i]? = some update

/-- Two passes give a row the same: the two lists, the clock reading, whether it was rediscovered,
and the answers to the calls made for it. -/
structure GivenAlike (p p' : BegunPass manager) (entry : OrderLedgerEntry)
    (turn turn' : Run sig (World Unit) ReconcileUpdate) : Prop where
  openOrders : p.start.openSnapshots = p'.start.openSnapshots
  completed : ∀ answer answer', p.start.answered = some answer →
    p'.start.answered = some answer' → answer = answer'
  clock : p.start.now = p'.start.now
  rediscovered : entry.ledgerKey ∈ p.start.recovered.map (·.ledgerKey) ↔
    entry.ledgerKey ∈ p'.start.recovered.map (·.ledgerKey)
  replies : AnsweredAlike turn.trace turn'.trace

/-- The pass is its beginning and its turns. -/
theorem run_eq (p : BegunPass manager) :
    p.run = (openWorld.run (manager.takeTurns p.start) p.rest p.beginning.state).after
      p.beginning.trace := by
  unfold run
  rw [manager.reconcile_eq, System.run_bind]
  simp only [p.begun]
  rfl

theorem readOff (p : BegunPass manager) (hB : manager.broker.Within Op.KeepsLedger) :
    p.start.ReadOff p.beginning.state.ledger :=
  openWorld.wp_run (wp_startPass openEnvironment hB [] (World.of p.store)) p.choices p.start p.begun

/-- The first turn begins where the beginning of the pass ended. -/
theorem turns_head (p : BegunPass manager) {entry : OrderLedgerEntry}
    {entries : List OrderLedgerEntry} (h : p.start.entries = entry :: entries) :
    p.turns[0]? = some (openWorld.run (manager.turn p.start entry) p.rest p.beginning.state) := by
  unfold turns
  rw [h]
  rfl

/-- A pass that returns has collected the updates of its turns. -/
theorem returned (p : BegunPass manager) {summary : ReconcileSummary}
    (h : p.run.outcome = .returned summary) :
    ∃ updates, summary = ⟨p.start.entries.length, updates⟩ ∧
      (openWorld.run (Prog.collect (manager.turn p.start) p.start.entries) p.rest
        p.beginning.state).outcome = .returned updates ∧
      p.run.state = (openWorld.run (Prog.collect (manager.turn p.start) p.start.entries) p.rest
        p.beginning.state).state := by
  rw [p.run_eq] at h ⊢
  unfold ExecutionManager.takeTurns at h ⊢
  rw [System.run_bind] at h ⊢
  cases hturns : (openWorld.run (Prog.collect (manager.turn p.start) p.start.entries) p.rest
      p.beginning.state).outcome with
  | raised e =>
    rw [hturns] at h
    cases h
  | stopped =>
    rw [hturns] at h
    cases h
  | returned updates =>
    rw [hturns] at h
    exact ⟨updates, (Outcome.returned.inj h).symm, rfl, rfl⟩

/-- No exception of a turn leaves the pass. -/
theorem never_raises (p : BegunPass manager) (e : Exn) : p.run.outcome ≠ .raised e := by
  have hturns : openEnvironment.system.wp (manager.takeTurns p.start)
      (fun out _ _ => ∀ e, out ≠ .raised e) [] p.beginning.state := by
    apply System.wp_seq _ (wp_collect_returns openEnvironment fun entry τ s =>
      wp_handleEntry_returns openEnvironment manager _ _ _ _ entry τ s)
    · exact fun _ _ _ _ => nofun
    · exact fun e _ _ h => absurd rfl (h e)
    · exact fun _ _ _ => nofun
  rw [p.run_eq]
  exact openWorld.wp_run hturns p.rest e

/-- The updates of a pass are about its open rows, in their order. -/
theorem updates_keys (hB : manager.broker.Within Op.KeepsLedger) (p : BegunPass manager)
    {summary : ReconcileSummary} (h : p.run.outcome = .returned summary) :
    summary.updates.map (·.entry.ledgerKey) = p.start.entries.map (·.ledgerKey) := by
  obtain ⟨updates, rfl, hturns, _⟩ := p.returned h
  have heach : List.Forall₂
      (fun (entry : OrderLedgerEntry) (update : ReconcileUpdate) =>
        update.entry.ledgerKey = entry.ledgerKey) p.start.entries updates := by
    apply System.forall₂_of_returned _ hturns
    intro entry cs s update hupdate
    have hmeets : (manager.turn p.start entry).Meets (S := sig) (fun _ _ => True) (fun _ => True)
        fun update => Reports (fun _ => True) entry p.start.openSnapshots
          (p.start.history.toOption.getD []) update ∨ Reloaded (fun _ _ => True) entry update :=
      meets_handleEntry (handlingMeets_of_within hB (fun _ _ => trivial) fun _ _ => trivial)
    exact Reports.ledgerKey
      ((openWorld.run_of_meets hmeets cs s fun _ _ => trivial).2 update hupdate)
  clear hturns h
  generalize p.start.entries = entries at heach
  induction heach with
  | nil => rfl
  | cons hfirst _ ih => rw [List.map_cons, List.map_cons, hfirst, ih]

/-- What every pass keeps of the rows of a ledger holds of the rows a pass takes turns on. -/
theorem entries_of {P : OrderLedgerEntry → Prop}
    (hreconcile : manager.reconcile.Meets (S := sig) (ReadsRows P) (Op.RecordsRow P) fun _ => True)
    (hB : manager.broker.Within Op.KeepsLedger) (p : BegunPass manager) (hstore : p.store.All P)
    {entry : OrderLedgerEntry} (hmem : entry ∈ p.start.entries) : P entry := by
  rw [manager.reconcile_eq] at hreconcile
  have hledger : p.beginning.state.ledger.All P := openWorld.wp_run
    (wp_allRows openEnvironment hreconcile.of_bind [] (s := World.of p.store) hstore) p.choices
  rw [(p.readOff hB).entries] at hmem
  exact hledger entry (OrderStore.mem_loadOpenOrders.mp hmem).1

/-- The turn of a row meets the row as the pass read it, and what it leaves stays. -/
theorem Makes.spec (hB : manager.broker.Within Op.KeepsLedger) {p : BegunPass manager}
    {summary : ReconcileSummary} (h : p.run.outcome = .returned summary)
    {entry : OrderLedgerEntry} {turn : Run sig (World Unit) ReconcileUpdate}
    {update : ReconcileUpdate} (hmakes : p.Makes summary entry turn update) :
    entry ∈ p.start.entries ∧ ∃ cs s, turn = openWorld.run (manager.turn p.start entry) cs s ∧
      s.ledger.latest entry.ledgerKey = some entry ∧ turn.outcome = .returned update ∧
      p.run.state.ledger.latest entry.ledgerKey = turn.state.ledger.latest entry.ledgerKey := by
  obtain ⟨i, hentry, hturn, hupdate⟩ := hmakes
  obtain ⟨updates, rfl, hturns, hstate⟩ := p.returned h
  have hmem : entry ∈ p.start.entries := List.mem_of_getElem? hentry
  have hread := p.readOff hB
  have hlatest : p.beginning.state.ledger.latest entry.ledgerKey = some entry := by
    rw [hread.entries] at hmem
    exact OrderStore.latest_of_mem (OrderStore.mem_loadOpenOrders.mp hmem).1
  have hnodup : (p.start.entries.map (·.ledgerKey)).Nodup := by
    rw [hread.entries]
    exact p.beginning.state.ledger.nodup.sublist (List.filter_sublist.map _)
  have hothers : ∀ (j : Nat) (other : OrderLedgerEntry), j ≠ i → p.start.entries[j]? = some other →
      ∀ cs s, (openWorld.run (manager.turn p.start other) cs s).state.ledger.latest
        entry.ledgerKey = s.ledger.latest entry.ledgerKey := by
    intro j other hj hother cs s
    have hkey : other.ledgerKey ≠ entry.ledgerKey := by
      intro hsame
      have hi : i < (p.start.entries.map (·.ledgerKey)).length := by
        rw [List.length_map]
        exact (List.getElem?_eq_some_iff.mp hentry).1
      apply hj
      apply ((List.getElem?_inj hi hnodup).mp _).symm
      rw [List.getElem?_map, List.getElem?_map, hentry, hother, Option.map_some, Option.map_some,
        hsame]
    exact openWorld.wp_run (wp_spares openEnvironment (handleEntry_spares hB hkey) [] s) cs
  obtain ⟨cs, s, hrun, hfound, hleft⟩ := System.turn_alone (M := openWorld)
    (g := fun s : World Unit => s.ledger.latest entry.ledgerKey) hentry hothers hturns hturn
  refine ⟨hmem, cs, s, hrun, hfound.trans hlatest, ?_, hstate ▸ hleft⟩
  have hout := congrArg (·[i]?) (System.turns_outcome hturns)
  simp only [List.getElem?_map] at hout
  have hturn' : (openWorld.turns (manager.turn p.start) p.start.entries p.rest
      p.beginning.state)[i]? = some turn := hturn
  have hupdate' : updates[i]? = some update := hupdate
  rw [hturn', hupdate'] at hout
  exact Option.some.inj hout

end BegunPass

/-- A pass whose queries succeed makes one update for each open row, in ledger order; rows that are
matched to one order are of one family; and the update and the row of an entry depend on what the
entry is given alone. -/
theorem reconcile_each_alone (settings : Settings) (isIbkr hasReplacement hasHistory : Bool)
    (p : BegunPass (protocolManager settings isIbkr hasReplacement hasHistory)) :
    (∀ e, p.run.outcome ≠ .raised e) ∧
    (∀ summary, p.run.outcome = .returned summary →
      summary.checked = p.start.entries.length ∧
      summary.updates.map (·.entry.ledgerKey) =
        p.beginning.state.ledger.loadOpenOrders.map (·.ledgerKey)) ∧
    (∀ entry ∈ p.start.entries, ∀ other ∈ p.start.entries, entry.Plain → other.Plain →
      ∀ snapshot, p.start.Matches entry snapshot → p.start.Matches other snapshot →
        stripReplacementSuffix entry.ledgerKey = stripReplacementSuffix other.ledgerKey) ∧
    ∀ (p' : BegunPass (protocolManager settings isIbkr hasReplacement hasHistory))
      summary summary' entry turn turn' update update',
      p.run.outcome = .returned summary → p'.run.outcome = .returned summary' →
      p.Makes summary entry turn update → p'.Makes summary' entry turn' update' →
      p.GivenAlike p' entry turn turn' →
      SameUpdate update update' ∧ SameLatest (p.run.state.ledger.latest entry.ledgerKey)
        (p'.run.state.ledger.latest entry.ledgerKey) := by
  have hB : (protocolManager settings isIbkr hasReplacement hasHistory).broker.Within
      Op.KeepsLedger := protocolManager_within
  have hrow : ∀ entry ∈ p.start.entries, entry.Produced ∧ entry.Named := fun entry hmem =>
    ⟨p.entries_of reconcile_produced hB p.reached.produced hmem,
      p.entries_of reconcile_named hB p.reached.named hmem⟩
  refine ⟨p.never_raises, ?_, ?_, ?_⟩
  · intro summary hsummary
    refine ⟨?_, (p.updates_keys hB hsummary).trans (by rw [(p.readOff hB).entries])⟩
    obtain ⟨updates, rfl, _⟩ := p.returned hsummary
    rfl
  · intro entry hentry other hother hplain hplain' snapshot hmatch hmatch'
    exact hmatch.family hmatch' (hrow entry hentry) (hrow other hother) hplain hplain'
  · intro p' summary summary' entry turn turn' update update' hsummary hsummary' hmakes hmakes' hgiven
    obtain ⟨hmem, cs, s, rfl, hmet, hupdate, hleft⟩ := hmakes.spec hB hsummary
    obtain ⟨hmem', cs', s', rfl, hmet', hupdate', hleft'⟩ := hmakes'.spec hB hsummary'
    rw [hleft, hleft']
    have hsame : (protocolManager settings isIbkr hasReplacement hasHistory).turn p.start entry =
        (protocolManager settings isIbkr hasReplacement hasHistory).turn p'.start entry := by
      unfold ExecutionManager.turn
      rw [← hgiven.openOrders, ← hgiven.clock]
      apply handleEntry_congr _ _ hgiven.rediscovered
      exact PassStart.sameView (p.readOff hB) (p'.readOff hB) hmem hmem' hgiven.openOrders
        hgiven.completed
    have hreplies := hgiven.replies
    rw [← hsame] at hupdate' hreplies ⊢
    apply run_turn_alike (handleEntry_alike rfl _ _ _ _) _ hreplies hupdate hupdate'
    rw [hmet, hmet']
    rfl

/-- A process with a replacement method that reads the lists of IBKR. -/
abbrev listingManager : ExecutionManager := protocolManager .fromSnapshot true true false

/-- What a pass began with, if it began. -/
def PassStart.of : Outcome Exn PassStart → PassStart
  | .returned start => start
  | _ => .idle

/-- A pass of a new process that one oracle answers begins. -/
abbrev Begins (store : OrderStore) (c : Oracle) : Prop :=
  (openWorld.run listingManager.startPass (List.replicate 30 c) (World.of store.reopened)).outcome =
    .returned (.of (openWorld.run listingManager.startPass (List.replicate 30 c)
      (World.of store.reopened)).outcome)

/-- A pass of a new process that one oracle answers. -/
def BegunPass.by (store : OrderStore) (c : Oracle) (reached : Reached store) (h : Begins store c) :
    BegunPass listingManager :=
  ⟨store.reopened, reached.reopened, List.replicate 30 c, _, h⟩

/-- The updates of a pass that returned. -/
def BegunPass.updates (p : BegunPass listingManager) : List ReconcileUpdate :=
  match p.run.outcome with
  | .returned summary => summary.updates
  | _ => []

/-- A sale of one share, in a run with the id that the command makes. -/
def stampedSale : RebalancePlan := { sellPlan with runId := "rebalance-20260105T150000Z" }

/-- The reference of the sale of a ticker in that run. -/
def saleKey (index ticker : String) : String :=
  "poma:rebalance-20260105T150000Z:" ++ index ++ ":" ++ ticker ++ ":SELL"

/-- The sale of a ticker, accepted. -/
def acceptsSale (index ticker : String) (orderId : Int) : OrderResult :=
  ⟨ticker, .sell, 1, 100, some orderId, "Submitted", 0, none, none, some (saleKey index ticker), none⟩

/-- A broker that accepts orders. -/
def acceptsSales (results : List OrderResult) : Oracle where
  clock := 0
  answer
    | .broker (.submitTrades _) => .ok (0 : Nat)
    | .broker .submitResults => .ok results
    | o => (listsOnly 0 [] []).answer o

/-- A process that submits a plan to that broker. -/
def sellingStep (plan : RebalancePlan) (results : List OrderResult) : Step :=
  { deferringStep (.submitPlan plan) 0 [] [] with
    choices := List.replicate 30 (acceptsSales results) }

/-- Two sales of one share. -/
def twoSells : RebalancePlan :=
  { stampedSale with trades := stampedSale.trades ++ [⟨"BND", .sell, 1, 100, 100, some 100, "drift", none,
    "snapshot", "snapshot_price", none, none, none⟩] }

/-- The ledger of the process that placed them. -/
def twoSellsStore : OrderStore :=
  (sellingStep twoSells [acceptsSale "0" "VTI" 7, acceptsSale "1" "BND" 8]).after .empty

/-- A broker with both orders unfilled for hours, whose requests to cancel one of them may fail. -/
def cancelsBut (failing : Option Int) : Oracle where
  clock := 100000
  answer
    | .broker (.cancelOrder orderId) =>
      if failing = some orderId then .error (.connection "lost") else .ok true
    | o => (listsOnly 100000 [sellReport (saleKey "0" "VTI") "Submitted" 7 0,
        { sellReport (saleKey "1" "BND") "Submitted" 8 0 with ticker := "BND" }] []).answer o

/-- Whether an operation asks to cancel an order. -/
def Op.cancels (orderId : Int) : Op → Bool
  | .broker (.cancelOrder asked) => asked = orderId
  | _ => false

/-- In a run that one oracle answers, a call is answered what it answers. -/
theorem answered_by {α : Type} {p : M α} {c : Oracle} {cs : List openWorld.Choice}
    (hcs : ∀ d ∈ cs, d = c) {s : World Unit} {call : BrokerCall} {r : Except Exn call.Ans}
    (h : (⟨.broker call, r⟩ : Event sig) ∈ (openWorld.run p cs s).trace) :
    r = c.answer (.broker call) := by
  induction p generalizing cs s with
  | ret a => cases h
  | throw e => cases h
  | call o k ih =>
    cases cs with
    | nil => cases h
    | cons d cs =>
      obtain rfl : d = c := hcs d List.mem_cons_self
      rcases List.mem_cons.mp h with heq | hrest
      · injection heq with hop hans
        subst hop
        exact eq_of_heq hans
      · exact ih _ (fun e he => hcs e (List.mem_cons_of_mem _ he)) hrest

theorem cancelsBut_answer {call : BrokerCall} (h : Op.cancels 8 (.broker call) = false) :
    (cancelsBut (some 8)).answer (.broker call) = (cancelsBut none).answer (.broker call) := by
  cases call with
  | cancelOrder orderId =>
    have hne : ¬(some (8 : Int) = some orderId) := fun hsame =>
      of_decide_eq_false h (Option.some.inj hsame).symm
    have hnone : ¬((none : Option Int) = some orderId) := nofun
    dsimp only [cancelsBut]
    rw [if_neg hne, if_neg hnone]
  | _ => rfl

/-- The pass in which both orders are cancelled, and the one in which one request fails. -/
def cancellingPass (failing : Option Int) (h : Begins twoSellsStore (cancelsBut failing)) :
    BegunPass listingManager :=
  .by twoSellsStore (cancelsBut failing) (.step .empty _) h

/-- The row of the other order is left the same, whether that request fails or not. -/
theorem reconcile_each_alone_cancelLost :
    ∃ update update',
      (cancellingPass none (by decide +kernel)).updates[0]? = some update ∧
      (cancellingPass (some 8) (by decide +kernel)).updates[0]? = some update' ∧
      SameUpdate update update' ∧
      (cancellingPass (some 8) (by decide +kernel)).updates[1]?.map (·.detail) =
        some (some "lost") := by
  generalize hcalm : cancellingPass none (by decide +kernel) = calm
  generalize hlost : cancellingPass (some 8) (by decide +kernel) = lost
  have hstart : calm.start = lost.start := by
    rw [← hcalm, ← hlost]
    decide +kernel
  have hreturned : calm.run.outcome = .returned ⟨2, calm.updates⟩ := by
    rw [← hcalm]
    decide +kernel
  have hreturned' : lost.run.outcome = .returned ⟨2, lost.updates⟩ := by
    rw [← hlost]
    decide +kernel
  have hasks : (calm.turns[0]?.any fun turn => turn.trace.any fun event => event.op.cancels 8) =
      false := by
    rw [← hcalm]
    decide +kernel
  obtain ⟨entry, entries, hentries⟩ : ∃ entry entries, calm.start.entries = entry :: entries := by
    apply List.exists_cons_of_ne_nil
    rw [← hcalm]
    decide +kernel
  have hentries' : lost.start.entries = entry :: entries := hstart ▸ hentries
  obtain ⟨update, hupdate⟩ := Option.isSome_iff_exists.mp
    (show calm.updates[0]?.isSome by
      rw [← hcalm]
      decide +kernel)
  obtain ⟨update', hupdate'⟩ := Option.isSome_iff_exists.mp
    (show lost.updates[0]?.isSome by
      rw [← hlost]
      decide +kernel)
  have hrest : ∀ d ∈ calm.rest, d = cancelsBut none := fun d hd =>
    List.eq_of_mem_replicate (hcalm ▸ List.mem_of_mem_drop hd)
  have hrest' : ∀ d ∈ lost.rest, d = cancelsBut (some 8) := fun d hd =>
    List.eq_of_mem_replicate (hlost ▸ List.mem_of_mem_drop hd)
  rw [calm.turns_head hentries, Option.any_some, List.any_eq_false] at hasks
  have hgiven : calm.GivenAlike lost entry
      (openWorld.run (listingManager.turn calm.start entry) calm.rest calm.beginning.state)
      (openWorld.run (listingManager.turn lost.start entry) lost.rest lost.beginning.state) := by
    refine ⟨congrArg _ hstart, ?_, congrArg _ hstart, by rw [hstart], ?_⟩
    · rintro answer answer' hanswer hanswer'
      rw [hstart, hanswer'] at hanswer
      exact (Option.some.inj hanswer).symm
    · intro i call r r' hr hr'
      have hevent := List.mem_of_getElem? hr
      have hno : Op.cancels 8 (.broker call) = false := Bool.eq_false_iff.mpr (hasks _ hevent)
      rw [answered_by hrest hevent, answered_by hrest' (List.mem_of_getElem? hr'),
        cancelsBut_answer hno]
  refine ⟨update, update', hupdate, hupdate', ?_, ?_⟩
  · apply ((reconcile_each_alone _ _ _ _ calm).2.2.2 lost _ _ entry _ _ update update' hreturned
      hreturned' ⟨0, ?_, calm.turns_head hentries, hupdate⟩
      ⟨0, ?_, lost.turns_head hentries', hupdate'⟩ hgiven).1
    · rw [hentries]
      rfl
    · rw [hentries']
      rfl
  · rw [← hlost]
    decide +kernel

/-- The ledger of a process that saw a replacement and then its original under one broker id. -/
def familyStore : OrderStore :=
  (deferringStep .reconcile 0 [sellReport (saleKey "0" "VTI" ++ ":r1") "Submitted" 7 0,
    sellReport (saleKey "0" "VTI") "Submitted" 7 0] []).after .empty

/-- A pass that sees the replacement alone. -/
def familyPass : BegunPass listingManager :=
  .by familyStore (listsOnly 10 [sellReport (saleKey "0" "VTI" ++ ":r1") "Submitted" 7 0] [])
    (.step .empty _) (by decide +kernel)

/-- The ledger of two attempts of a run, the second with a ticker that holds colons. -/
def colonStore : OrderStore :=
  (sellingStep { stampedSale with trades := stampedSale.trades.map fun trade =>
    { trade with ticker := "VTI:SELL:X" } } [acceptsSale "0" "VTI:SELL:X" 8]).after
    ((sellingStep stampedSale [acceptsSale "0" "VTI" 7]).after .empty)

/-- A pass that finds the order of the second attempt in the history, under the first ticker. -/
def colonPass : BegunPass listingManager :=
  .by colonStore (listsOnly 10 [] [sellReport (saleKey "0" "VTI:SELL:X") "Filled" 7 1])
    (.step (.step .empty _) _) (by decide +kernel)

/-- The ledger of a process that rediscovered one order. -/
def rediscoveredStore : OrderStore :=
  (deferringStep .reconcile 0 [sellReport (saleKey "0" "VTI") "Submitted" 7 0] []).after .empty

/-- A broker that lists that order. -/
def rediscoverable : Oracle := listsOnly 0 [sellReport (saleKey "0" "VTI") "Submitted" 7 0] []

/-- A broker that lists no open order and fails the history query. -/
def historyFails (message : String) : Oracle where
  clock := 10
  answer
    | .broker (.fetchIbkrCompletedOrderSnapshots _ _) => .error (.runtimeError message)
    | o => (listsOnly 10 [] []).answer o

instance (row : OrderLedgerEntry) : Decidable row.Plain :=
  inferInstanceAs (Decidable (':' ∉ row.runId.toList ∧ ':' ∉ row.ticker.toList))

instance (start : PassStart) (entry : OrderLedgerEntry) (snapshot : OpenOrderSnapshot) :
    Decidable (start.Matches entry snapshot) :=
  inferInstanceAs (Decidable (∃ replaced : Bool, sighting entry start.openSnapshots
    (start.history.toOption.getD []) = some (snapshot, replaced)))

/-- Two rows of one family are matched to one order, or rows with colons in their tickers are; an
update quotes the text of the failed query, and it says whether this very pass rediscovered the
order. -/
theorem not_each_alone :
    (familyPass.start.entries.map (fun entry => (entry.ledgerKey, entry.runId)) =
        [(saleKey "0" "VTI", "rebalance-20260105T150000Z"),
          (saleKey "0" "VTI" ++ ":r1", "rebalance-20260105T150000Z")] ∧
      ∀ entry ∈ familyPass.start.entries, entry.Plain ∧
        familyPass.start.Matches entry (sellReport (saleKey "0" "VTI" ++ ":r1") "Submitted" 7 0)) ∧
    (colonPass.start.entries.map (fun entry => (entry.ledgerKey, entry.runId)) =
        [(saleKey "0" "VTI", "rebalance-20260105T150000Z"),
          (saleKey "0" "VTI:SELL:X", "rebalance-20260105T150000Z")] ∧
      ∀ entry ∈ colonPass.start.entries,
        colonPass.start.Matches entry (sellReport (saleKey "0" "VTI:SELL:X") "Filled" 7 1)) ∧
    ((BegunPass.by rediscoveredStore (historyFails "timeout") (.step .empty _)
        (by decide +kernel)).updates.map (·.detail) ≠
      (BegunPass.by rediscoveredStore (historyFails "refused") (.step .empty _)
        (by decide +kernel)).updates.map (·.detail)) ∧
    ((BegunPass.by .empty rediscoverable .empty (by decide +kernel)).start.entries =
        (BegunPass.by rediscoveredStore rediscoverable (.step .empty _)
          (by decide +kernel)).start.entries ∧
      (BegunPass.by .empty rediscoverable .empty (by decide +kernel)).updates.map (·.action) =
        [some .recovered] ∧
      (BegunPass.by rediscoveredStore rediscoverable (.step .empty _)
        (by decide +kernel)).updates.map (·.action) = [none]) := by
  decide +kernel

end Poma
